import EventHub.Text.Printable
/-!
# Quoted text

A text between double quotes, for logs and diagnostics: what would not show, or would not show by
itself, is written as an escape.
-/

namespace EventHub.Text

def codePointEscape (c : Char) : List Char :=
  ['\\', 'u', '\x7b'] ++ Nat.toDigits 16 c.toNat ++ ['\x7d']

def quotedChar (c : Char) : List Char :=
  match c with
  | '\x00' => ['\\', '0']
  | '\t' => ['\\', 't']
  | '\r' => ['\\', 'r']
  | '\n' => ['\\', 'n']
  | '\\' => ['\\', '\\']
  | '"' => ['\\', '"']
  | c =>
    if ' ' ≤ c && c ≤ '~' then [c]
    else if isExtending c then codePointEscape c
    else if isPrintable c then [c]
    else codePointEscape c

def quoted (s : String) : String :=
  String.ofList ('"' :: s.toList.flatMap quotedChar ++ ['"'])

end EventHub.Text
