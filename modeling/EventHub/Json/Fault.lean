import EventHub.Json.Value
import EventHub.Numeric.Shortest
import EventHub.Text.Quoted
/-!
# Why a text cannot be read

A `Failure` says what is wrong, how many bytes of the text were unread at the reported place, and
which member of the value was being read. `Failure.message` turns this into a text with line and
column, where lines count from one and a column is the number of bytes since the line began.
-/

namespace EventHub.Json

/-- What a value turned out to be, when something else was wanted. -/
inductive Found where
  | null
  | bool (b : Bool)
  | number (n : Number)
  | text (s : String)
  | list
  | object
deriving DecidableEq, Repr

inductive Fault where
  | endInList
  | endInObject
  | endInString
  | endInValue
  | colonExpected
  | listCommaOrEndExpected
  | objectCommaOrEndExpected
  | wordExpected
  | valueExpected
  | invalidEscape
  | invalidNumber
  | numberOutOfRange
  | invalidCodePoint
  | controlCharacter
  | keyNotString
  | loneSurrogate
  | trailingComma
  | trailingCharacters
  | surrogateCutShort
  | tooDeep
  /-- The value has another type than the one wanted. -/
  | wrongType (found : Found) (wanted : String)
  | missingField (name : String)
  | duplicateField (name : String)
  /-- A list of the wrong length stands for a record. -/
  | wrongLength (length : Nat) (wanted : String)
  /-- The value is a text that its own reader refuses. -/
  | refused (reason : String)
deriving DecidableEq, Repr

def integerText (n : Int) : List Char :=
  if n < 0 then '-' :: Nat.toDigits 10 n.natAbs else Nat.toDigits 10 n.natAbs

def Number.text : Number → List Char
  | .int n => integerText n
  | .double d => d.decimalText

def Found.message : Found → String
  | .null => "null"
  | .bool true => "boolean `true`"
  | .bool false => "boolean `false`"
  | .number (.int n) => "integer `" ++ String.ofList (integerText n) ++ "`"
  | .number (.double d) => "floating point `" ++ String.ofList d.decimalText ++ "`"
  | .text s => "string " ++ Text.quoted s
  | .list => "sequence"
  | .object => "map"

def Fault.message : Fault → String
  | .endInList => "EOF while parsing a list"
  | .endInObject => "EOF while parsing an object"
  | .endInString => "EOF while parsing a string"
  | .endInValue => "EOF while parsing a value"
  | .colonExpected => "expected `:`"
  | .listCommaOrEndExpected => "expected `,` or `]`"
  | .objectCommaOrEndExpected => "expected `,` or `\x7d`"
  | .wordExpected => "expected ident"
  | .valueExpected => "expected value"
  | .invalidEscape => "invalid escape"
  | .invalidNumber => "invalid number"
  | .numberOutOfRange => "number out of range"
  | .invalidCodePoint => "invalid unicode code point"
  | .controlCharacter => "control character (\\u0000-\\u001F) found while parsing a string"
  | .keyNotString => "key must be a string"
  | .loneSurrogate => "lone leading surrogate in hex escape"
  | .trailingComma => "trailing comma"
  | .trailingCharacters => "trailing characters"
  | .surrogateCutShort => "unexpected end of hex escape"
  | .tooDeep => "recursion limit exceeded"
  | .wrongType found wanted => "invalid type: " ++ found.message ++ ", expected " ++ wanted
  | .missingField name => "missing field `" ++ name ++ "`"
  | .duplicateField name => "duplicate field `" ++ name ++ "`"
  | .wrongLength length wanted =>
    "invalid length " ++ toString length ++ ", expected " ++ wanted
  | .refused reason => reason

/-- The text is JSON so far, but not the value that was wanted. -/
def Fault.isData : Fault → Bool
  | .wrongType .. | .missingField _ | .duplicateField _ | .wrongLength .. | .refused _ => true
  | _ => false

inductive Step where
  | key (name : String)
  | item (index : Nat)
  /-- To a field whose key has not been read. -/
  | unknown
deriving DecidableEq, Repr

structure Failure where
  fault : Fault
  /-- Bytes of the text behind the reported place. -/
  unread : Nat
  /-- The way from the whole value to the member at fault. -/
  path : List Step := []
deriving DecidableEq, Repr

def Failure.within (s : Step) (f : Failure) : Failure := { f with path := s :: f.path }

/-- A reading whose failure, if it fails, is seen from one level further out. -/
def locate {α : Type} (s : Step) (r : Except Failure α) : Except Failure α :=
  r.mapError (Failure.within s)

def byteSize (text : List Char) : Nat := text.foldl (fun n c => n + c.utf8Size) 0

def placeAt (text : List Char) (offset : Nat) : Nat × Nat := go 1 0 offset text
where
  /-- Walks on from the given line and column. -/
  go (line column offset : Nat) : List Char → Nat × Nat
    | [] => (line, column)
    | c :: rest =>
      if offset < c.utf8Size then (line, column + offset)
      else if c = '\n' then go (line + 1) 0 (offset - 1) rest
      else go line (column + c.utf8Size) (offset - c.utf8Size) rest

def Failure.message (f : Failure) (text : List Char) : String :=
  let (line, column) := placeAt text (byteSize text - f.unread)
  f.fault.message ++ " at line " ++ toString line ++ " column " ++ toString column

/-- The way to the member at fault, as `a.b[2]`; a point for the value as a whole. -/
def Failure.pathText (f : Failure) : String :=
  match f.path with
  | [] => "."
  | first :: rest => rest.foldl (fun shown s => shown ++ next s) (start first)
where
  /-- The first step of the way. -/
  start : Step → String
    | .key name => name
    | .item index => "[" ++ toString index ++ "]"
    | .unknown => "?"
  next : Step → String
    | .key name => "." ++ name
    | .item index => "[" ++ toString index ++ "]"
    | .unknown => ".?"

def Failure.messageWithPath (f : Failure) (text : List Char) : String :=
  if f.pathText = "." then f.message text else f.pathText ++ ": " ++ f.message text

end EventHub.Json
