import EventHub.Json.Reader
/-!
# Reading records

A record is read straight from the text into a draft, one member after another. The text is an
object whose fields may come in any order, among fields of other names, or a list of the members'
values in order. What is missing is found out at the end.
-/

namespace EventHub.Json

/-! ## Values of a wanted type -/

/-- The failure when the next value is not of the wanted type. A value other than a list or an
object is read first, so that its own faults win. -/
def wrongType (wanted : String) (text : List Char) : Failure :=
  let found (what : Found) (rest : List Char) : Failure := failAt (.wrongType what wanted) rest
  let scalar {α : Type} (what : α → Found) (scanned : Scanned α) : Failure :=
    match scanned with
    | .ok (x, rest) => found (what x) rest
    | .error f => f
  match text with
  | [] => failAt .endInValue []
  | 'n' :: rest => scalar (fun _ => .null) (scanWord () ['u', 'l', 'l'] rest)
  | 't' :: rest => scalar .bool (scanWord true ['r', 'u', 'e'] rest)
  | 'f' :: rest => scalar .bool (scanWord false ['a', 'l', 's', 'e'] rest)
  | '-' :: rest => scalar .number (scanNumber true rest)
  | '"' :: rest => scalar (fun cs => .text (String.ofList cs)) (scanString rest)
  | '[' :: _ => found .list text
  | '\x7b' :: _ => found .object text
  | c :: _ =>
    if (digit? c).isSome then scalar .number (scanNumber false text)
    else failPast .valueExpected text

def readString (wanted : String) (text : List Char) : Scanned String :=
  match skipSpaces text with
  | '"' :: rest =>
    match scanString rest with
    | .ok (cs, rest) => .ok (String.ofList cs, rest)
    | .error f => .error f
  | rest => .error (wrongType wanted rest)

def readOptionalString (wanted : String) (text : List Char) : Scanned (Option String) :=
  match skipSpaces text with
  | 'n' :: rest => scanWord none ['u', 'l', 'l'] rest
  | rest => (readString wanted rest).map fun (s, rest) => (some s, rest)

/-! ## Records -/

structure Member (δ : Type) where
  name : String
  /-- Whether the draft has the member already. -/
  isSet : δ → Bool
  /-- Reads the value of the member into the draft. -/
  read : δ → List Char → Scanned δ
  /-- A list that stands for the record may end before the member. -/
  mayLack : Bool := false

structure Shape (δ : Type) where
  title : String
  members : List (Member δ)

namespace Shape

variable {δ : Type}

def find? (s : Shape δ) (name : String) : Option (Member δ) :=
  s.members.find? fun m => m.name = name

/-- A failure of the record as a whole is placed behind its closing brace if that comes next. -/
def failAtEnd (fault : Fault) (text : List Char) : Failure :=
  match skipSpaces text with
  | '\x7d' :: rest => failAt fault rest
  | rest => failAt fault rest

/-- Reads fields in order up to the closing brace, which stays unread. -/
def readFields (s : Shape δ) (steps : Nat) (first : Bool) (draft : δ) (text : List Char) :
    Except Failure (δ × List Char) :=
  match steps with
  | 0 => .error (failAt .tooDeep text)
  | steps + 1 =>
    match nextKey first text with
    | .error f => .error (f.within .unknown)
    | .ok (.close rest) => .ok (draft, rest)
    | .ok (.key rest) => do
      let (cs, rest) ← locate .unknown (scanString rest)
      let name := String.ofList cs
      match s.find? name with
      | none =>
        let rest ← locate (.key name) (passColon rest)
        match skipPrefix rest with
        | .error f => .error (f.within (.key name))
        | .ok rest => s.readFields steps false draft rest
      | some m =>
        if m.isSet draft then .error (failAtEnd (.duplicateField name) rest)
        else
          let rest ← locate (.key name) (passColon rest)
          match m.read draft rest with
          | .error f => .error (f.within (.key name))
          | .ok (draft, rest) => s.readFields steps false draft rest

/-- Reads the values of the members in order; the closing bracket stays unread. -/
def readItems (s : Shape δ) (index : Nat) (members : List (Member δ)) (draft : δ)
    (text : List Char) : Except Failure (δ × List Char) :=
  match members with
  | [] => .ok (draft, text)
  | m :: members =>
    match nextItem (index = 0) text with
    | .error f => .error (f.within (.item index))
    | .ok (.close rest) =>
      if m.mayLack then .ok (draft, rest)
      else
        .error (failAt (.wrongLength index
          (s.title ++ " with " ++ toString s.members.length ++ " elements")) (rest.drop 1))
    | .ok (.item rest) =>
      match m.read draft rest with
      | .error f => .error (f.within (.item index))
      | .ok (draft, rest) => s.readItems (index + 1) members draft rest

def closeItems (text : List Char) : Except Failure (List Char) :=
  match skipSpaces text with
  | [] => .error (failAt .endInList [])
  | ']' :: rest => .ok rest
  | ',' :: rest =>
    match skipSpaces rest with
    | ']' :: rest => .error (failPast .trailingComma (']' :: rest))
    | rest => .error (failPast .trailingCharacters rest)
  | rest => .error (failPast .trailingCharacters rest)

/-- Reads a record at the start of the text. `finish` names what a draft still lacks. -/
def read {α : Type} (s : Shape δ) (empty : δ) (finish : δ → Except Fault α)
    (text : List Char) :
    Scanned α :=
  match skipSpaces text with
  | '\x7b' :: rest =>
    match s.readFields (rest.length + 1) true empty rest with
    | .error f => .error f
    | .ok (draft, rest) =>
      match finish draft with
      | .error fault => .error (failAtEnd fault rest)
      | .ok x => .ok (x, rest.drop 1)
  | '[' :: rest =>
    match s.readItems 0 s.members empty rest with
    | .error f => .error f
    | .ok (draft, rest) =>
      match finish draft with
      | .error fault => .error (failAt fault rest)
      | .ok x => (closeItems rest).map fun rest => (x, rest)
  | rest => .error (wrongType s.title rest)

end Shape

end EventHub.Json
