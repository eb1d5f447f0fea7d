import EventHub.Text.Blank
import EventHub.Text.Split
/-!
# Environment files

Lines of the form `NAME=value`. A value may be quoted, and then go on over several lines; a hash
sign begins a comment; a dollar sign stands for the value of another variable. A variable that is
set already keeps its value, and the first line that cannot be read ends the file.
-/

namespace EventHub.Settings.EnvironmentFile

abbrev Variables := List (String × String)

def lookup (vars : Variables) (name : String) : String :=
  ((vars.find? fun p => p.1 = name).map (·.2)).getD ""

/-! ## Lines -/

/-- Where the end of a physical line leaves the reader. -/
inductive LineState where
  | open
  | blank
  | escape
  | weak
  | weakEscape
  | strong
  | strongEscape
  | comment
deriving DecidableEq, Repr

def LineState.next (s : LineState) (c : Char) : LineState :=
  match s with
  | .blank =>
    if c = '#' then .comment
    else if c = '\\' then .escape
    else if c = '"' then .weak
    else if c = '\'' then .strong
    else .open
  | .escape => .open
  | .open =>
    if Text.isBlank c && c ≠ '\n' && c ≠ '\r' then .blank
    else if c = '\\' then .escape
    else if c = '"' then .weak
    else if c = '\'' then .strong
    else .open
  | .weak => if c = '\\' then .weakEscape else if c = '"' then .open else .weak
  | .weakEscape => .weak
  | .strong => if c = '\\' then .strongEscape else if c = '\'' then .open else .strong
  | .strongEscape => .strong
  | .comment => .comment

/-- Goes through a line up to a comment; what it leaves is the state and the text kept. -/
def scanLine (s : LineState) : List Char → LineState × List Char
  | [] => (s, [])
  | c :: rest =>
    let s := s.next c
    if s = .comment then (.comment, [])
    else
      let (s, kept) := scanLine s rest
      (s, c :: kept)

/-- Joins physical lines, each with its terminator, while a quote is open. The last entry is `none`
if a quote is never closed. -/
def joinLines (sofar : List Char) (s : LineState) : List (List Char) → List (Option (List Char))
  | [] => if s = .open then [] else [none]
  | line :: rest =>
    let whole := sofar ++ line
    if (Text.trimStart whole).head? = some '#' then joinLines [] .open rest
    else match scanLine s line with
      | (.open, _) => some whole :: joinLines [] .open rest
      | (.comment, kept) => some (sofar ++ kept) :: joinLines [] .open rest
      | (s, _) => joinLines whole s rest

def physicalLines (text : List Char) : List (List Char) :=
  let parts := Text.splitAll '\n' text
  (parts.dropLast.map (· ++ ['\n'])) ++ parts.getLast?.toList.filter fun p => !p.isEmpty

/-! ## Values -/

/-- Whether the name of a variable is being read, and whether braces enclose it. -/
inductive Naming where
  | no
  | bare
  | braced
deriving DecidableEq, Repr

structure ValueState where
  strong : Bool := false
  weak : Bool := false
  escaped : Bool := false
  /-- Only blanks and a comment may follow. -/
  ended : Bool := false
  naming : Naming := .no
  name : List Char := []
  output : List Char := []

def ValueState.substitute (s : ValueState) (vars : Variables) : ValueState :=
  { s with name := [], output := s.output ++ (lookup vars (String.ofList s.name)).toList }

def ValueState.push (s : ValueState) (c : Char) : ValueState := { s with output := s.output ++ [c] }

/-- The value at the end of its text, unless something is left open. -/
def ValueState.finish (vars : Variables) (s : ValueState) : Option (List Char) :=
  if s.naming = .braced || s.strong || s.weak then none else some (s.substitute vars).output

/-- The value that a text stands for, unless it is malformed. -/
def readValue (vars : Variables) (s : ValueState) : List Char → Option (List Char)
  | [] => s.finish vars
  | c :: rest =>
    if s.ended then
      if c = ' ' || c = '\t' then readValue vars s rest
      else if c = '#' then s.finish vars
      else none
    else if s.escaped then
      if c = '\\' || c = '\'' || c = '"' || c = '$' || c = ' ' then
        readValue vars { s.push c with escaped := false } rest
      else if c = 'n' then readValue vars { s.push '\n' with escaped := false } rest
      else none
    else if s.strong then
      if c = '\'' then readValue vars { s with strong := false } rest
      else readValue vars (s.push c) rest
    else match s.naming with
      | .bare =>
        if c.isAlphanum then readValue vars { s with name := s.name ++ [c] } rest
        else if c = '\x7b' && s.name.isEmpty then readValue vars { s with naming := .braced } rest
        else
          let s := s.substitute vars
          if c = '$' then readValue vars s rest
          else readValue vars { s.push c with naming := .no } rest
      | .braced =>
        if c.isAlphanum then readValue vars { s with name := s.name ++ [c] } rest
        else if c = '\x7d' then readValue vars { s.substitute vars with naming := .no } rest
        else readValue vars { s with name := s.name ++ [c] } rest
      | .no =>
        if c = '$' then readValue vars { s with naming := .bare } rest
        else if c = '\\' then readValue vars { s with escaped := true } rest
        else if s.weak then
          if c = '"' then readValue vars { s with weak := false } rest
          else readValue vars (s.push c) rest
        else if c = '\'' then readValue vars { s with strong := true } rest
        else if c = '"' then readValue vars { s with weak := true } rest
        else if c = ' ' || c = '\t' then readValue vars { s with ended := true } rest
        else readValue vars (s.push c) rest

/-! ## Entries -/

/-- A name at the start of a text: a letter or underscore, then also digits and points. -/
def readName (text : List Char) : Option (String × List Char) :=
  match text with
  | c :: _ =>
    if c.isAlpha || c = '_' then
      let inName := fun (d : Char) => d.isAlphanum || d = '_' || d = '.'
      some (String.ofList (text.takeWhile inName), text.dropWhile inName)
    else none
  | [] => none

def passEquals (text : List Char) : Option (List Char) :=
  match Text.trimStart text with
  | '=' :: rest => some (Text.trimStart rest)
  | _ => none

/-- The name and the value text of an entry; `export` may stand in front. -/
def splitEntry (text : List Char) : Option (String × List Char) := do
  let (name, rest) ← readName text
  match passEquals rest with
  | some value => return (name, value)
  | none =>
    if name = "export" then
      let (name, rest) ← readName (Text.trimStart rest)
      return (name, ← passEquals rest)
    else none

/-- The variable that a line sets; `some none` for a blank line or a comment. -/
def readEntry (vars : Variables) (line : List Char) : Option (Option (String × String)) :=
  let text := Text.trimStart (Text.trimEnd line)
  if text.isEmpty || text.head? = some '#' then some none
  else do
    let (name, value) ← splitEntry text
    if value.head? = some '#' then return some (name, "")
    let value ← readValue vars {} value
    return some (name, String.ofList value)

def addEntries (vars : Variables) : List (Option (List Char)) → Variables
  | [] => vars
  | none :: _ => vars
  | some line :: rest =>
    match readEntry vars line with
    | none => vars
    | some none => addEntries vars rest
    | some (some (name, value)) =>
      if vars.any fun p => p.1 = name then addEntries vars rest
      else addEntries (vars ++ [(name, value)]) rest

def load (vars : Variables) (text : String) : Variables :=
  let cs := match text.toList with
    | '\ufeff' :: rest => rest
    | cs => cs
  addEntries vars (joinLines [] .open (physicalLines cs))

end EventHub.Settings.EnvironmentFile
