/-!
# UTF-8

Characters as bytes and back. The decoder accepts all bytes: what is no character becomes the
replacement character, one for each longest part that could have begun a character.
-/

namespace EventHub.Text.Utf8

def encodeChar (c : Char) : List UInt8 :=
  let n := c.toNat
  if n < 0x80 then [UInt8.ofNat n]
  else if n < 0x800 then [UInt8.ofNat (0xC0 + n / 64), UInt8.ofNat (0x80 + n % 64)]
  else if n < 0x10000 then
    [UInt8.ofNat (0xE0 + n / 4096), UInt8.ofNat (0x80 + n / 64 % 64), UInt8.ofNat (0x80 + n % 64)]
  else
    [UInt8.ofNat (0xF0 + n / 262144), UInt8.ofNat (0x80 + n / 4096 % 64),
     UInt8.ofNat (0x80 + n / 64 % 64), UInt8.ofNat (0x80 + n % 64)]

def encode (s : List Char) : List UInt8 := s.flatMap encodeChar

def replacement : Char := '\ufffd'

/-- The closed range of the second byte, the number of bytes that follow the first, and the bits
that the first one holds; `none` if no character of more than one byte begins so. -/
def lead? (a : Nat) : Option (Nat × Nat × Nat × Nat) :=
  if 0xC2 ≤ a && a ≤ 0xDF then some (0x80, 0xBF, 1, a - 0xC0)
  else if a = 0xE0 then some (0xA0, 0xBF, 2, 0)
  else if a = 0xED then some (0x80, 0x9F, 2, 0xD)
  else if 0xE1 ≤ a && a ≤ 0xEF then some (0x80, 0xBF, 2, a - 0xE0)
  else if a = 0xF0 then some (0x90, 0xBF, 3, 0)
  else if 0xF1 ≤ a && a ≤ 0xF3 then some (0x80, 0xBF, 3, a - 0xF0)
  else if a = 0xF4 then some (0x80, 0x8F, 3, 4)
  else none

/-- Takes so many following bytes onto the bits, the next one in the given range. The number of
bytes taken comes with the bits, or alone if one is missing. -/
def follow (low high bits taken : Nat) : Nat → List UInt8 → Option Nat × Nat
  | 0, _ => (some bits, taken)
  | _ + 1, [] => (none, taken)
  | more + 1, b :: rest =>
    if low ≤ b.toNat && b.toNat ≤ high then
      follow 0x80 0xBF (bits * 64 + (b.toNat - 0x80)) (taken + 1) more rest
    else (none, taken)

/-- The character at the start of the bytes `a :: rest`, `none` if there is none, and how many of
the bytes behind `a` belong to it. -/
def decodeFirst (a : UInt8) (rest : List UInt8) : Option Char × Nat :=
  if a.toNat < 0x80 then (some (Char.ofNat a.toNat), 0)
  else match lead? a.toNat with
    | none => (none, 0)
    | some (low, high, more, bits) =>
      match follow low high bits 0 more rest with
      | (some n, taken) => (some (Char.ofNat n), taken)
      | (none, taken) => (none, taken)

def decodeLossy : List UInt8 → List Char
  | [] => []
  | a :: rest =>
    let (c?, taken) := decodeFirst a rest
    c?.getD replacement :: decodeLossy (rest.drop taken)
termination_by bytes => bytes.length
decreasing_by simp only [List.length_drop, List.length_cons]; omega

def decode? : List UInt8 → Option (List Char)
  | [] => some []
  | a :: rest =>
    match decodeFirst a rest with
    | (some c, taken) => (decode? (rest.drop taken)).map (c :: ·)
    | (none, _) => none
termination_by bytes => bytes.length
decreasing_by simp only [List.length_drop, List.length_cons]; omega

end EventHub.Text.Utf8
