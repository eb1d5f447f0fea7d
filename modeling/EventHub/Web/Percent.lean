import EventHub.Json.Scan
import EventHub.Text.Utf8
/-!
# Percent-encoding

A byte may be written as a percent sign and two hexadecimal digits. A percent sign without them
stands for itself.
-/

namespace EventHub.Web.Percent

def percentSign : UInt8 := 0x25

def hexValue? (b : UInt8) : Option Nat := Json.hexValue? (Char.ofNat b.toNat)

def decode : List UInt8 → List UInt8
  | [] => []
  | [a] => [a]
  | [a, b] => [a, b]
  | a :: b :: c :: rest =>
    if a = percentSign then
      match hexValue? b, hexValue? c with
      | some high, some low => UInt8.ofNat (high * 16 + low) :: decode rest
      | _, _ => a :: decode (b :: c :: rest)
    else a :: decode (b :: c :: rest)

/-- The bytes of the digit of a number below sixteen, in upper case. -/
def hexByte (n : Nat) : UInt8 := UInt8.ofNat (if n < 10 then 0x30 + n else 0x41 + (n - 10))

def isAlphanumeric (b : UInt8) : Bool :=
  (0x30 ≤ b && b ≤ 0x39) || (0x41 ≤ b && b ≤ 0x5A) || (0x61 ≤ b && b ≤ 0x7A)

def encode (bytes : List UInt8) : List UInt8 :=
  bytes.flatMap fun b =>
    if isAlphanumeric b then [b] else [percentSign, hexByte (b.toNat / 16), hexByte (b.toNat % 16)]

end EventHub.Web.Percent
