import EventHub.Text.Utf8
import Mathlib.Tactic.IntervalCases
/-!
# Texts survive UTF-8

The bytes of a text are read back as the text by the strict decoder and by the one that accepts all
bytes: no byte of a character is missing, and none is taken for the beginning of another one.
-/

namespace EventHub.Text.Utf8

/-! ## One character -/

/-- A following byte gives its six bits. -/
theorem follow_tail {low high d : Nat} (hd : d < 64) (hlow : low ≤ 0x80 + d)
    (hhigh : 0x80 + d ≤ high) (bits taken more : Nat) (rest : List UInt8) :
    follow low high bits taken (more + 1) (UInt8.ofNat (0x80 + d) :: rest) =
      follow 0x80 0xBF (bits * 64 + d) (taken + 1) more rest := by
  have hbyte : (UInt8.ofNat (0x80 + d)).toNat = 0x80 + d := by
    rw [UInt8.toNat_ofNat']
    omega
  rw [follow, hbyte, if_pos (by simp [hlow, hhigh]), Nat.add_sub_cancel_left]

theorem follow_any {d : Nat} (hd : d < 64) (bits taken more : Nat) (rest : List UInt8) :
    follow 0x80 0xBF bits taken (more + 1) (UInt8.ofNat (0x80 + d) :: rest) =
      follow 0x80 0xBF (bits * 64 + d) (taken + 1) more rest :=
  follow_tail hd (Nat.le_add_right _ _) (by omega) bits taken more rest

theorem decodeFirst_of_lead {a low high more bits : Nat} (ha : 0x80 ≤ a) (ha' : a < 0x100)
    (hlead : lead? a = some (low, high, more, bits)) {rest : List UInt8} {n taken : Nat}
    (hfollow : follow low high bits 0 more rest = (some n, taken)) :
    decodeFirst (UInt8.ofNat a) rest = (some (Char.ofNat n), taken) := by
  have hbyte : (UInt8.ofNat a).toNat = a := by
    rw [UInt8.toNat_ofNat']
    omega
  rw [decodeFirst, hbyte, if_neg (Nat.not_lt.mpr ha), hlead]
  dsimp only
  rw [hfollow]

/-- Code points of characters are no surrogates. -/
theorem toNat_cases (c : Char) : c.toNat < 0xD800 ∨ 0xDFFF < c.toNat ∧ c.toNat < 0x110000 :=
  c.valid

/-- What the first of three bytes asks for excludes the surrogates, and what can be said in two. -/
theorem decodeFirst_three {n : Nat} (hlow : 0x800 ≤ n) (hhigh : n < 0x10000)
    (hvalid : n < 0xD800 ∨ 0xDFFF < n) (rest : List UInt8) :
    decodeFirst (UInt8.ofNat (0xE0 + n / 4096)) (UInt8.ofNat (0x80 + n / 64 % 64) ::
      UInt8.ofNat (0x80 + n % 64) :: rest) = (some (Char.ofNat n), 2) := by
  have hfollow (low high : Nat) (hlow : low ≤ 0x80 + n / 64 % 64)
      (hhigh : 0x80 + n / 64 % 64 ≤ high) : follow low high (n / 4096) 0 2
        (UInt8.ofNat (0x80 + n / 64 % 64) :: UInt8.ofNat (0x80 + n % 64) :: rest) =
      (some n, 2) := by
    rw [follow_tail (Nat.mod_lt _ (by decide)) hlow hhigh,
      follow_any (Nat.mod_lt _ (by decide)), follow]
    exact congrArg (fun m => (some m, 2)) (by omega)
  by_cases hzero : n / 4096 = 0
  · have hlead : lead? (0xE0 + n / 4096) = some (0xA0, 0xBF, 2, n / 4096) := by
      rw [hzero]
      rfl
    exact decodeFirst_of_lead (by omega) (by omega) hlead (hfollow _ _ (by omega) (by omega))
  · by_cases hlast : n / 4096 = 0xD
    · have hlead : lead? (0xE0 + n / 4096) = some (0x80, 0x9F, 2, n / 4096) := by
        rw [hlast]
        rfl
      exact decodeFirst_of_lead (by omega) (by omega) hlead (hfollow _ _ (by omega) (by omega))
    · have hbits : n / 4096 < 16 := by omega
      have hlead : lead? (0xE0 + n / 4096) = some (0x80, 0xBF, 2, n / 4096) := by
        generalize n / 4096 = k at hzero hlast hbits
        interval_cases k <;> first | rfl | omega
      exact decodeFirst_of_lead (by omega) (by omega) hlead (hfollow _ _ (by omega) (by omega))

/-- So does what the first of four bytes asks for, and what lies beyond the last code point. -/
theorem decodeFirst_four {n : Nat} (hlow : 0x10000 ≤ n) (hhigh : n < 0x110000)
    (rest : List UInt8) :
    decodeFirst (UInt8.ofNat (0xF0 + n / 262144)) (UInt8.ofNat (0x80 + n / 4096 % 64) ::
      UInt8.ofNat (0x80 + n / 64 % 64) :: UInt8.ofNat (0x80 + n % 64) :: rest) =
      (some (Char.ofNat n), 3) := by
  have hfollow (low high : Nat) (hlow : low ≤ 0x80 + n / 4096 % 64)
      (hhigh : 0x80 + n / 4096 % 64 ≤ high) : follow low high (n / 262144) 0 3
        (UInt8.ofNat (0x80 + n / 4096 % 64) :: UInt8.ofNat (0x80 + n / 64 % 64) ::
          UInt8.ofNat (0x80 + n % 64) :: rest) = (some n, 3) := by
    rw [follow_tail (Nat.mod_lt _ (by decide)) hlow hhigh,
      follow_any (Nat.mod_lt _ (by decide)), follow_any (Nat.mod_lt _ (by decide)), follow]
    exact congrArg (fun m => (some m, 3)) (by omega)
  by_cases hzero : n / 262144 = 0
  · have hlead : lead? (0xF0 + n / 262144) = some (0x90, 0xBF, 3, n / 262144) := by
      rw [hzero]
      rfl
    exact decodeFirst_of_lead (by omega) (by omega) hlead (hfollow _ _ (by omega) (by omega))
  · by_cases hlast : n / 262144 = 4
    · have hlead : lead? (0xF0 + n / 262144) = some (0x80, 0x8F, 3, n / 262144) := by
        rw [hlast]
        rfl
      exact decodeFirst_of_lead (by omega) (by omega) hlead (hfollow _ _ (by omega) (by omega))
    · have hbits : n / 262144 < 4 := by omega
      have hlead : lead? (0xF0 + n / 262144) = some (0x80, 0xBF, 3, n / 262144) := by
        generalize n / 262144 = k at hzero hlast hbits
        interval_cases k <;> first | rfl | omega
      exact decodeFirst_of_lead (by omega) (by omega) hlead (hfollow _ _ (by omega) (by omega))

/-- The bytes of a character are read back as the character, whatever follows them. -/
theorem decodeFirst_encodeChar (c : Char) : ∃ a more, encodeChar c = a :: more ∧
    ∀ rest, decodeFirst a (more ++ rest) = (some c, more.length) := by
  have hvalid := toNat_cases c
  have hchar : Char.ofNat c.toNat = c := Char.ofNat_toNat c
  rw [encodeChar]
  generalize c.toNat = n at hvalid hchar
  subst hchar
  split
  · next hone =>
    refine ⟨_, [], rfl, fun rest => ?_⟩
    have hbyte : (UInt8.ofNat n).toNat = n := by
      rw [UInt8.toNat_ofNat']
      omega
    rw [decodeFirst, hbyte, if_pos hone]
    rfl
  split
  · next hone htwo =>
    refine ⟨_, [_], rfl, fun rest => ?_⟩
    have hlead : lead? (0xC0 + n / 64) = some (0x80, 0xBF, 1, n / 64) := by
      rw [lead?, if_pos (by simp; omega), Nat.add_sub_cancel_left]
    refine decodeFirst_of_lead (by omega) (by omega) hlead ?_
    rw [List.singleton_append, follow_any (Nat.mod_lt _ (by decide)), follow]
    exact congrArg (fun m => (some m, 1)) (by omega)
  split
  · next hone htwo hthree =>
    exact ⟨_, [_, _], rfl, fun rest =>
      decodeFirst_three (by omega) hthree (by omega) rest⟩
  · next hone htwo hthree =>
    exact ⟨_, [_, _, _], rfl, fun rest => decodeFirst_four (by omega) (by omega) rest⟩

/-! ## Texts -/

theorem encode_cons (c : Char) (s : List Char) : encode (c :: s) = encodeChar c ++ encode s := rfl

theorem decodeLossy_encode (s : List Char) : decodeLossy (encode s) = s := by
  induction s with
  | nil => rw [encode, List.flatMap_nil, decodeLossy]
  | cons c s ih =>
    obtain ⟨a, more, hchar, hdecode⟩ := decodeFirst_encodeChar c
    rw [encode_cons, hchar, List.cons_append, decodeLossy, hdecode]
    dsimp only
    rw [List.drop_left, ih]
    rfl

theorem decode?_encode (s : List Char) : decode? (encode s) = some s := by
  induction s with
  | nil => rw [encode, List.flatMap_nil, decode?]
  | cons c s ih =>
    obtain ⟨a, more, hchar, hdecode⟩ := decodeFirst_encodeChar c
    rw [encode_cons, hchar, List.cons_append, decode?, hdecode]
    dsimp only
    rw [List.drop_left, ih]
    rfl

theorem encode_ascii {s : List Char} (hs : ∀ c ∈ s, c.toNat < 0x80) :
    encode s = s.map fun c => UInt8.ofNat c.toNat := by
  induction s with
  | nil => rfl
  | cons c s ih =>
    obtain ⟨hc, hs⟩ := List.forall_mem_cons.mp hs
    rw [encode_cons, ih hs, encodeChar]
    exact congrArg (· ++ _) (if_pos hc)

end EventHub.Text.Utf8
