import EventHub.Json.Fault
/-!
# Writing JSON

The compact form: no blanks between tokens, fields in the order of the object. Inside strings the
quote, the backslash and the characters below the space are escaped and nothing else is, so the
written form of any value is a single line.
-/

namespace EventHub.Json

def hexDigit (n : Nat) : Char := (Nat.digitChar n)

def escapeChar (c : Char) : List Char :=
  match c with
  | '"' => ['\\', '"']
  | '\\' => ['\\', '\\']
  | '\x08' => ['\\', 'b']
  | '\x0c' => ['\\', 'f']
  | '\n' => ['\\', 'n']
  | '\r' => ['\\', 'r']
  | '\t' => ['\\', 't']
  | c =>
    if c < ' ' then ['\\', 'u', '0', '0', hexDigit (c.toNat / 16), hexDigit (c.toNat % 16)]
    else [c]

def stringText (s : String) : List Char := '"' :: s.toList.flatMap escapeChar ++ ['"']

mutual

def text : Json → List Char
  | .null => ['n', 'u', 'l', 'l']
  | .bool true => ['t', 'r', 'u', 'e']
  | .bool false => ['f', 'a', 'l', 's', 'e']
  | .number n => n.text
  | .string s => stringText s
  | .array [] => ['[', ']']
  | .array (v :: rest) => '[' :: text v ++ itemsText rest
  | .object [] => ['\x7b', '\x7d']
  | .object ((k, v) :: rest) => '\x7b' :: stringText k ++ ':' :: text v ++ fieldsText rest

def itemsText : List Json → List Char
  | [] => [']']
  | v :: rest => ',' :: text v ++ itemsText rest

def fieldsText : List (String × Json) → List Char
  | [] => ['\x7d']
  | (k, v) :: rest => ',' :: stringText k ++ ':' :: text v ++ fieldsText rest

end

def compact (v : Json) : String := String.ofList v.text

end EventHub.Json
