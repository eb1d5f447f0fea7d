import EventHub.Text.Quoted
/-!
# Identities

The names of connections and servers. Those that the service makes up are thirty-two lower-case
hexadecimal digits, but any text can be one.
-/

namespace EventHub

structure ConnectionId where
  text : String
deriving DecidableEq, Repr, Hashable

structure ServerId where
  text : String
deriving DecidableEq, Repr, Hashable

/-- Names a client. One client may hold several connections. -/
abbrev ClientId := String

def isHexDigit (c : Char) : Bool := ('0' ≤ c && c ≤ '9') || ('a' ≤ c && c ≤ 'f')

def isGenerated (text : String) : Bool := text.length = 32 && text.toList.all isHexDigit

/-- The thirty-two digits of a number below `2 ^ 128`. -/
def generated (n : Nat) : String :=
  String.ofList ((List.range 32).map fun i => Nat.digitChar (n / Nat.pow 16 (31 - i) % 16))

def ConnectionId.shown (id : ConnectionId) : String := "ConnectionId(" ++ Text.quoted id.text ++ ")"

def ServerId.shown (id : ServerId) : String := "ServerId(" ++ Text.quoted id.text ++ ")"

end EventHub
