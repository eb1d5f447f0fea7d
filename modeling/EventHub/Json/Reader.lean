import EventHub.Json.Scan
/-!
# Reading JSON

`read` takes a whole text, `readPrefix` the value at its start. Brackets may be nested one less deep
than `maxDepth`. A repeated key of an object keeps its first place and takes its last value.

The readers recurse along the text, so the number of steps never exceeds its length; `steps` is
that bound, and `readPrefix` passes one that is never used up.
-/

namespace EventHub.Json

def maxDepth : Nat := 128

inductive ItemStart where
  | item (text : List Char)
  /-- The list ends; the closing bracket is unread. -/
  | close (text : List Char)

/-- Looks for the next item of a list, behind a comma unless it is the first. -/
def nextItem (first : Bool) (text : List Char) : Except Failure ItemStart :=
  match skipSpaces text with
  | [] => .error (failAt .endInList [])
  | ']' :: rest => .ok (.close (']' :: rest))
  | ',' :: rest =>
    if first then .ok (.item (',' :: rest))
    else match skipSpaces rest with
      | ']' :: rest => .error (failPast .trailingComma (']' :: rest))
      | [] => .error (failAt .endInValue [])
      | rest => .ok (.item rest)
  | rest => if first then .ok (.item rest) else .error (failPast .listCommaOrEndExpected rest)

inductive KeyStart where
  /-- A key begins; its opening quote has been read. -/
  | key (text : List Char)
  /-- The object ends; the closing brace is unread. -/
  | close (text : List Char)

/-- Looks for the next key of an object, behind a comma unless it is the first. -/
def nextKey (first : Bool) (text : List Char) : Except Failure KeyStart :=
  match skipSpaces text with
  | [] => .error (failAt .endInObject [])
  | '\x7d' :: rest => .ok (.close ('\x7d' :: rest))
  | ',' :: rest =>
    if first then .error (failPast .keyNotString (',' :: rest))
    else match skipSpaces rest with
      | '"' :: rest => .ok (.key rest)
      | '\x7d' :: rest => .error (failPast .trailingComma ('\x7d' :: rest))
      | [] => .error (failAt .endInValue [])
      | rest => .error (failPast .keyNotString rest)
  | '"' :: rest =>
    if first then .ok (.key rest) else .error (failPast .objectCommaOrEndExpected ('"' :: rest))
  | rest =>
    if first then .error (failPast .keyNotString rest)
    else .error (failPast .objectCommaOrEndExpected rest)

def passColon (text : List Char) : Except Failure (List Char) :=
  match skipSpaces text with
  | ':' :: rest => .ok rest
  | [] => .error (failAt .endInObject [])
  | rest => .error (failPast .colonExpected rest)

mutual

/-- Reads the value at the start of the text, with `depth` levels of nesting left. -/
def readValue (steps depth : Nat) (text : List Char) : Except Failure (Json × List Char) :=
  match steps with
  | 0 => .error (failAt .tooDeep text)
  | steps + 1 =>
    match skipSpaces text with
    | [] => .error (failAt .endInValue [])
    | 'n' :: rest => scanWord .null ['u', 'l', 'l'] rest
    | 't' :: rest => scanWord (.bool true) ['r', 'u', 'e'] rest
    | 'f' :: rest => scanWord (.bool false) ['a', 'l', 's', 'e'] rest
    | '-' :: rest => do
      let (n, rest) ← scanNumber true rest
      return (.number n, rest)
    | '"' :: rest => do
      let (cs, rest) ← scanString rest
      return (.string (String.ofList cs), rest)
    | '[' :: rest =>
      if depth ≤ 1 then .error (failPast .tooDeep ('[' :: rest))
      else do
        let (items, rest) ← readItems steps (depth - 1) 0 rest
        return (.array items, rest)
    | '\x7b' :: rest =>
      if depth ≤ 1 then .error (failPast .tooDeep ('\x7b' :: rest))
      else do
        let (pairs, rest) ← readFields steps (depth - 1) true rest
        return (ofPairs pairs, rest)
    | c :: rest =>
      if (digit? c).isSome then do
        let (n, rest) ← scanNumber false (c :: rest)
        return (.number n, rest)
      else .error (failPast .valueExpected (c :: rest))

def readItems (steps depth index : Nat) (text : List Char) :
    Except Failure (List Json × List Char) :=
  match steps with
  | 0 => .error (failAt .tooDeep text)
  | steps + 1 =>
    match nextItem (index = 0) text with
    | .error f => .error (f.within (.item index))
    | .ok (.close rest) => .ok ([], rest.drop 1)
    | .ok (.item rest) =>
      match readValue steps depth rest with
      | .error f => .error (f.within (.item index))
      | .ok (v, rest) =>
        match readItems steps depth (index + 1) rest with
        | .error f => .error f
        | .ok (vs, rest) => .ok (v :: vs, rest)

def readFields (steps depth : Nat) (first : Bool) (text : List Char) :
    Except Failure (List (String × Json) × List Char) :=
  match steps with
  | 0 => .error (failAt .tooDeep text)
  | steps + 1 =>
    match nextKey first text with
    | .error f => .error (f.within .unknown)
    | .ok (.close rest) => .ok ([], rest.drop 1)
    | .ok (.key rest) => do
      let (cs, rest) ← locate .unknown (scanString rest)
      let key := String.ofList cs
      let rest ← locate (.key key) (passColon rest)
      match readValue steps depth rest with
      | .error f => .error (f.within (.key key))
      | .ok (v, rest) =>
        match readFields steps depth false rest with
        | .error f => .error f
        | .ok (vs, rest) => .ok ((key, v) :: vs, rest)

end

/-- Reads the value at the start of the text, with `depth` levels of nesting left. -/
def readWithin (depth : Nat) (text : List Char) : Scanned Json :=
  readValue (2 * text.length + 2) depth text

/-- Reads the value at the start of the text and returns what stands behind it. -/
def readPrefix (text : List Char) : Scanned Json := readWithin maxDepth text

def expectEnd (text : List Char) : Except Failure Unit :=
  match skipSpaces text with
  | [] => .ok ()
  | rest => .error (failPast .trailingCharacters rest)

def read (text : List Char) : Except Failure Json := do
  let (v, rest) ← readPrefix text
  expectEnd rest
  return v

/-! ## Passing over values -/

mutual

/-- Passes over the value at the start of the text, nested to any depth. -/
def skipValue (steps : Nat) (text : List Char) : Except Failure (List Char) :=
  match steps with
  | 0 => .error (failAt .tooDeep text)
  | steps + 1 =>
    match skipSpaces text with
    | [] => .error (failAt .endInValue [])
    | 'n' :: rest => (scanWord () ['u', 'l', 'l'] rest).map (·.2)
    | 't' :: rest => (scanWord () ['r', 'u', 'e'] rest).map (·.2)
    | 'f' :: rest => (scanWord () ['a', 'l', 's', 'e'] rest).map (·.2)
    | '-' :: rest => skipNumber rest
    | '"' :: rest => skipString rest
    | '[' :: rest =>
      match skipSpaces rest with
      | [] => .error (failAt .endInList [])
      | ']' :: rest => .ok rest
      | rest => skipItems steps rest
    | '\x7b' :: rest =>
      match skipSpaces rest with
      | [] => .error (failAt .endInObject [])
      | '\x7d' :: rest => .ok rest
      | rest => skipFields steps rest
    | c :: rest =>
      if (digit? c).isSome then skipNumber (c :: rest)
      else .error (failPast .valueExpected (c :: rest))

def skipItems (steps : Nat) (text : List Char) : Except Failure (List Char) :=
  match steps with
  | 0 => .error (failAt .tooDeep text)
  | steps + 1 => do
    let rest ← skipValue steps text
    match skipSpaces rest with
    | [] => .error (failAt .endInList [])
    | ',' :: rest => skipItems steps rest
    | ']' :: rest => .ok rest
    | rest => .error (failPast .listCommaOrEndExpected rest)

def skipFields (steps : Nat) (text : List Char) : Except Failure (List Char) :=
  match steps with
  | 0 => .error (failAt .tooDeep text)
  | steps + 1 =>
    match skipSpaces text with
    | [] => .error (failAt .endInObject [])
    | '"' :: rest => do
      let rest ← skipString rest
      let rest ← passColon rest
      let rest ← skipValue steps rest
      match skipSpaces rest with
      | [] => .error (failAt .endInObject [])
      | ',' :: rest => skipFields steps rest
      | '\x7d' :: rest => .ok rest
      | rest => .error (failPast .objectCommaOrEndExpected rest)
    | rest => .error (failPast .keyNotString rest)

end

def skipPrefix (text : List Char) : Except Failure (List Char) :=
  skipValue (2 * text.length + 2) text

end EventHub.Json
