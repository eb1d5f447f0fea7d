import EventHub.Json.Fault
import EventHub.Numeric.Width
/-!
# Scanning JSON tokens

Each scanner takes a text and returns what it read with the text behind it. A scanner that stops
at a character has the place just behind the first byte of that character, and one that has taken
the character has the place behind it.
-/

namespace EventHub.Json

abbrev Scanned (α : Type) := Except Failure (α × List Char)

/-- Fails at the place reached, `rest` being unread. -/
def failAt (fault : Fault) (rest : List Char) : Failure := ⟨fault, byteSize rest, []⟩

/-- Fails just behind the first byte of the next character. -/
def failPast (fault : Fault) (rest : List Char) : Failure := ⟨fault, byteSize rest - 1, []⟩

def isSpace (c : Char) : Bool := c = ' ' || c = '\n' || c = '\t' || c = '\r'

def skipSpaces : List Char → List Char := List.dropWhile isSpace

def digit? (c : Char) : Option Nat :=
  if '0' ≤ c && c ≤ '9' then some (c.toNat - '0'.toNat) else none

def startsWithDigit : List Char → Bool
  | c :: _ => (digit? c).isSome
  | [] => false

def skipDigits : List Char → List Char := List.dropWhile fun c => (digit? c).isSome

def hexValue? (c : Char) : Option Nat :=
  if '0' ≤ c && c ≤ '9' then some (c.toNat - '0'.toNat)
  else if 'a' ≤ c && c ≤ 'f' then some (c.toNat - 'a'.toNat + 10)
  else if 'A' ≤ c && c ≤ 'F' then some (c.toNat - 'A'.toNat + 10)
  else none

def hexWord? (a b c d : Char) : Option Nat := do
  let a ← hexValue? a
  let b ← hexValue? b
  let c ← hexValue? c
  let d ← hexValue? d
  return ((a * 16 + b) * 16 + c) * 16 + d

/-- Reads the rest of `null`, `true` or `false`. -/
def scanWord {α : Type} (value : α) : List Char → List Char → Scanned α
  | [], text => .ok (value, text)
  | _ :: _, [] => .error (failAt .endInValue [])
  | c :: word, d :: text =>
    if c = d then scanWord value word text else .error (failPast .wordExpected (d :: text))

/-! ## Strings -/

def isHighSurrogate (n : Nat) : Bool := 0xD800 ≤ n && n ≤ 0xDBFF

def isLowSurrogate (n : Nat) : Bool := 0xDC00 ≤ n && n ≤ 0xDFFF

def joinSurrogates (high low : Nat) : Char :=
  Char.ofNat ((high - 0xD800) * 0x400 + (low - 0xDC00) + 0x10000)

def unescape? : Char → Option Char
  | '"' => some '"'
  | '\\' => some '\\'
  | '/' => some '/'
  | 'b' => some '\x08'
  | 'f' => some '\x0c'
  | 'n' => some '\n'
  | 'r' => some '\r'
  | 't' => some '\t'
  | _ => none

def hexFailure (rest : List Char) : Failure :=
  if byteSize rest < 4 then ⟨.endInString, 0, []⟩
  else ⟨.invalidEscape, byteSize rest - 4, []⟩

/-- The failure of a high surrogate that no escape of a low surrogate follows. -/
def pairFailure : List Char → Failure
  | [] => ⟨.endInString, 0, []⟩
  | '\\' :: [] => ⟨.endInString, 0, []⟩
  | '\\' :: 'u' :: rest => hexFailure rest
  | '\\' :: rest => failPast .surrogateCutShort rest
  | rest => failPast .surrogateCutShort rest

def escapeFailure : List Char → Failure
  | [] => ⟨.endInString, 0, []⟩
  | 'u' :: rest => hexFailure rest
  | rest => failPast .invalidEscape rest

def consChar (c : Char) : Scanned (List Char) → Scanned (List Char)
  | .ok (cs, rest) => .ok (c :: cs, rest)
  | .error f => .error f

def scanString : List Char → Scanned (List Char)
  | [] => .error ⟨.endInString, 0, []⟩
  | '"' :: rest => .ok ([], rest)
  | '\\' :: 'u' :: a :: b :: c :: d :: rest =>
    match hexWord? a b c d with
    | none => .error (hexFailure (a :: b :: c :: d :: rest))
    | some n =>
      if isLowSurrogate n then .error (failAt .loneSurrogate rest)
      else if isHighSurrogate n then
        match rest with
        | '\\' :: 'u' :: e :: f :: g :: h :: rest' =>
          match hexWord? e f g h with
          | none => .error (hexFailure (e :: f :: g :: h :: rest'))
          | some m =>
            if isLowSurrogate m then consChar (joinSurrogates n m) (scanString rest')
            else .error (failAt .loneSurrogate rest')
        | rest => .error (pairFailure rest)
      else consChar (Char.ofNat n) (scanString rest)
  | '\\' :: e :: rest =>
    match unescape? e with
    | some c => consChar c (scanString rest)
    | none => .error (escapeFailure (e :: rest))
  | '\\' :: [] => .error (escapeFailure [])
  | c :: rest =>
    if c < ' ' then .error (failPast .controlCharacter (c :: rest))
    else consChar c (scanString rest)

/-- Passes over a string whose opening quote has been read. Escapes need not pair up. -/
def skipString : List Char → Except Failure (List Char)
  | [] => .error ⟨.endInString, 0, []⟩
  | '"' :: rest => .ok rest
  | '\\' :: 'u' :: a :: b :: c :: d :: rest =>
    match hexWord? a b c d with
    | none => .error (hexFailure (a :: b :: c :: d :: rest))
    | some _ => skipString rest
  | '\\' :: e :: rest =>
    match unescape? e with
    | some _ => skipString rest
    | none => .error (escapeFailure (e :: rest))
  | '\\' :: [] => .error (escapeFailure [])
  | c :: rest =>
    if c < ' ' then .error (failAt .controlCharacter (c :: rest)) else skipString rest

/-! ## Numbers

An integer that fits sixty-four bits stays one. Anything else becomes a double the quick way: as
many leading digits as fit sixty-four bits are taken as one integer, rounded to a double, and
multiplied or divided by a power of ten that is itself a double. -/

/-- Takes digits as long as the integer they extend stays below `2 ^ 64`; their number is returned
too. -/
def takeDigits (s count : Nat) : List Char → Nat × Nat × List Char
  | [] => (s, count, [])
  | c :: rest =>
    match digit? c with
    | none => (s, count, c :: rest)
    | some d =>
      if s * 10 + d < Numeric.limit 64 then takeDigits (s * 10 + d) (count + 1) rest
      else (s, count, c :: rest)

/-- Divides by `10 ^ 308` so many times, stopping at zero. -/
def shrink (tenTo308 : Numeric.Double) : Nat → Numeric.Double → Numeric.Double
  | 0, f => f
  | k + 1, f =>
    if f.isZero then f
    else match f.div tenTo308 with
      | some g => shrink tenTo308 k g
      | none => f

/-- `f * 10 ^ e` in quick steps, or `none` when it leaves the range. -/
def scale (f : Numeric.Double) (e : Int) : Option Numeric.Double := do
  if f.isZero then return f
  else if 308 < e then none
  else if 0 ≤ e then f.mul (← Numeric.Double.tenPow e.toNat)
  else
    let n := (-e).toNat
    let k := (n - 1) / 308
    let g := shrink (← Numeric.Double.tenPow 308) k f
    if g.isZero then return g else g.div (← Numeric.Double.tenPow (n - 308 * k))

def signed (negative : Bool) (f : Numeric.Double) : Numeric.Double := if negative then f.neg else f

def ofParts (negative : Bool) (s : Nat) (e : Int) (rest : List Char) : Scanned Number :=
  match Numeric.Double.ofNat s >>= (scale · e) with
  | some f => .ok (.double (signed negative f), rest)
  | none => .error (failAt .numberOutOfRange rest)

/-- The greatest exponent that is read; a longer one makes the number zero or out of range. -/
def exponentLimit : Nat := Numeric.limit 31

/-- Takes the digits of an exponent; `none` with the rest behind the digit that exceeds the
limit. -/
def takeExponent (n : Nat) : List Char → Option Nat × List Char
  | [] => (some n, [])
  | c :: rest =>
    match digit? c with
    | none => (some n, c :: rest)
    | some d => if n * 10 + d < exponentLimit then takeExponent (n * 10 + d) rest else (none, rest)

/-- Reads an exponent behind its mark and finishes the number `± s * 10 ^ e`. -/
def scanExponent (negative : Bool) (s : Nat) (e : Int) (text : List Char) : Scanned Number :=
  let (down, text) := match text with
    | '+' :: rest => (false, rest)
    | '-' :: rest => (true, rest)
    | rest => (false, rest)
  match text with
  | [] => .error (failAt .endInValue [])
  | c :: rest =>
    match digit? c with
    | none => .error (failPast .invalidNumber (c :: rest))
    | some d =>
      match takeExponent d rest with
      | (some n, rest) => ofParts negative s (if down then e - n else e + n) rest
      | (none, rest) =>
        if s ≠ 0 && !down then .error (failAt .numberOutOfRange rest)
        else .ok (.double (Numeric.Double.zero negative), skipDigits rest)

def isExponentMark (c : Char) : Bool := c = 'e' || c = 'E'

/-- An exponent if its mark comes next, otherwise the number `± s * 10 ^ e` ends here. -/
def scanOptionalExponent (negative : Bool) (s : Nat) (e : Int) : List Char → Scanned Number
  | c :: rest =>
    if isExponentMark c then scanExponent negative s e rest else ofParts negative s e (c :: rest)
  | [] => ofParts negative s e []

def scanFraction (negative : Bool) (s : Nat) (e : Int) (text : List Char) : Scanned Number :=
  let (s', count, rest) := takeDigits s 0 text
  if startsWithDigit rest then
    scanOptionalExponent negative s' (e - count) (skipDigits rest)
  else if count = 0 then
    match rest with
    | [] => .error (failAt .endInValue [])
    | rest => .error (failPast .invalidNumber rest)
  else scanOptionalExponent negative s' (e - count) rest

/-- Finishes a number with whole part `s`. A negative zero, and a negative number below the least
integer of sixty-four bits, are doubles. -/
def scanTail (negative : Bool) (s : Nat) (text : List Char) : Scanned Number :=
  match text with
  | '.' :: rest => scanFraction negative s 0 rest
  | rest =>
    if rest.head?.any isExponentMark then scanExponent negative s 0 rest.tail
    else if !negative then .ok (.int s, rest)
    else if 0 < s && s ≤ Numeric.limit 63 then .ok (.int (-(s : Int)), rest)
    else ofParts true s 0 rest

def scanNumber (negative : Bool) : List Char → Scanned Number
  | [] => .error (failAt .endInValue [])
  | '0' :: rest =>
    if startsWithDigit rest then .error (failPast .invalidNumber rest)
    else scanTail negative 0 rest
  | c :: rest =>
    match digit? c with
    | none => .error (failPast .invalidNumber (c :: rest))
    | some d =>
      let (s, _, rest) := takeDigits d 0 rest
      if startsWithDigit rest then
        let more := skipDigits rest
        let e : Int := ((rest.length - more.length : Nat) : Int)
        match more with
        | '.' :: more => scanFraction negative s e more
        | more => scanOptionalExponent negative s e more
      else scanTail negative s rest

def skipExponent (text : List Char) : Except Failure (List Char) :=
  let text := match text with
    | '+' :: rest => rest
    | '-' :: rest => rest
    | rest => rest
  match text with
  | [] => .error (failAt .invalidNumber [])
  | c :: rest =>
    if (digit? c).isSome then .ok (skipDigits rest)
    else .error (failPast .invalidNumber (c :: rest))

def skipOptionalExponent : List Char → Except Failure (List Char)
  | c :: rest => if isExponentMark c then skipExponent rest else .ok (c :: rest)
  | [] => .ok []

/-- Passes over a number whose sign has been read, of any size. -/
def skipNumber (text : List Char) : Except Failure (List Char) :=
  let tail (rest : List Char) : Except Failure (List Char) :=
    match rest with
    | '.' :: rest =>
      if startsWithDigit rest then skipOptionalExponent (skipDigits rest)
      else .error (failPast .invalidNumber rest)
    | rest => skipOptionalExponent rest
  match text with
  | [] => .error (failAt .invalidNumber [])
  | '0' :: rest =>
    if startsWithDigit rest then .error (failPast .invalidNumber rest) else tail rest
  | c :: rest =>
    if (digit? c).isSome then tail (skipDigits rest)
    else .error (failPast .invalidNumber (c :: rest))

end EventHub.Json
