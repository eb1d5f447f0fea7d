import EventHub.Proofs.Text.Utf8
import EventHub.Web.ClientIdentity
import EventHub.Web.Route
/-!
# Names in targets

A name may stand in the query of a target or be a segment of its path, with all its bytes but the
letters and digits of ASCII percent-encoded. What separates the parts of a target then does not
occur in it, no plus sign does, and either decoder reads the name back.
-/

namespace EventHub.Web

open Text (splitAll splitFirst)

/-! ## Bytes -/

namespace Percent

theorem hexValue?_hexByte {n : Nat} (hn : n < 16) : hexValue? (hexByte n) = some n := by
  have hall : ∀ n : Fin 16, hexValue? (hexByte n) = some n.val := by decide
  exact hall ⟨n, hn⟩

theorem decode_cons_of_ne {b : UInt8} (hb : b ≠ percentSign) (rest : List UInt8) :
    decode (b :: rest) = b :: decode rest := by
  match rest with
  | [] => rfl
  | [_] => rfl
  | _ :: _ :: _ => rw [decode, if_neg hb]

theorem decode_escape (b : UInt8) (rest : List UInt8) :
    decode (percentSign :: hexByte (b.toNat / 16) :: hexByte (b.toNat % 16) :: rest) =
      b :: decode rest := by
  have hb := b.toNat_lt
  have hbyte : b.toNat / 16 * 16 + b.toNat % 16 = b.toNat := by omega
  rw [decode, if_pos rfl, hexValue?_hexByte (by omega), hexValue?_hexByte (by omega)]
  dsimp only
  rw [hbyte, UInt8.ofNat_toNat]

theorem decode_encode (bytes : List UInt8) : decode (encode bytes) = bytes := by
  induction bytes with
  | nil => rfl
  | cons b bytes ih =>
    rw [encode, List.flatMap_cons]
    rw [encode] at ih
    split
    · next hb =>
      have hne : b ≠ percentSign := by
        rintro rfl
        cases hb
      rw [List.singleton_append, decode_cons_of_ne hne, ih]
    · exact (decode_escape b _).trans (congrArg (b :: ·) ih)

def isPlain (b : UInt8) : Bool := isAlphanumeric b || b = percentSign

theorem isPlain_hexByte {n : Nat} (hn : n < 16) : isPlain (hexByte n) = true := by
  have hall : ∀ n : Fin 16, isPlain (hexByte n) = true := by decide
  exact hall ⟨n, hn⟩

theorem isPlain_of_mem_encode {bytes : List UInt8} {b : UInt8} (hb : b ∈ encode bytes) :
    isPlain b = true := by
  obtain ⟨b', -, hb⟩ := List.mem_flatMap.mp hb
  have hlt := b'.toNat_lt
  split at hb
  · next hb' =>
    rw [List.mem_singleton.mp hb, isPlain, hb', Bool.true_or]
  · simp only [List.mem_cons, List.not_mem_nil, or_false] at hb
    obtain rfl | rfl | rfl := hb
    · rfl
    · exact isPlain_hexByte (by omega)
    · exact isPlain_hexByte (by omega)

theorem encode_ne_nil {bytes : List UInt8} (hne : bytes ≠ []) : encode bytes ≠ [] := by
  intro hnil
  refine hne ?_
  rw [← decode_encode bytes, hnil]
  rfl

end Percent

/-! ## Texts -/

def encodedName (name : String) : List Char :=
  (Percent.encode (Text.Utf8.encode name.toList)).map fun b => Char.ofNat b.toNat

def separators : List Char := ['+', '&', '=', '#', '?', '/', ':']

/-- What an encoding is made of is of ASCII and separates nothing. -/
theorem plain_char {b : UInt8} (hb : Percent.isPlain b = true) :
    (Char.ofNat b.toNat).toNat = b.toNat ∧ b.toNat < 0x80 ∧
      Char.ofNat b.toNat ∉ separators := by
  have hall : ∀ n : Fin 256, Percent.isPlain (UInt8.ofNat n) = true →
      (Char.ofNat n).toNat = n ∧ n.val < 0x80 ∧ Char.ofNat n ∉ separators := by decide +kernel
  refine hall ⟨b.toNat, b.toNat_lt⟩ ?_
  rwa [UInt8.ofNat_toNat]

theorem plain_of_mem {name : String} {c : Char} (hc : c ∈ encodedName name) :
    c.toNat < 0x80 ∧ c ∉ separators := by
  obtain ⟨b, hb, rfl⟩ := List.mem_map.mp hc
  obtain ⟨hvalue, hascii, hnot⟩ := plain_char (Percent.isPlain_of_mem_encode hb)
  exact ⟨hvalue.trans_lt hascii, hnot⟩

theorem separator_not_mem {name : String} {separator : Char}
    (hseparator : separator ∈ separators) :
    separator ∉ encodedName name := fun hc => (plain_of_mem hc).2 hseparator

theorem encode_encodedName (name : String) :
    Text.Utf8.encode (encodedName name) = Percent.encode (Text.Utf8.encode name.toList) := by
  rw [Text.Utf8.encode_ascii fun c hc => (plain_of_mem hc).1, encodedName, List.map_map]
  refine (List.map_congr_left fun b hb => ?_).trans (List.map_id _)
  rw [Function.comp_apply, (plain_char (Percent.isPlain_of_mem_encode hb)).1, UInt8.ofNat_toNat]
  rfl

theorem encodedName_ne_nil {name : String} (hne : name ≠ "") : encodedName name ≠ [] := by
  have hbytes : Text.Utf8.encode name.toList ≠ [] := by
    intro hnil
    have hdecoded := Text.Utf8.decode?_encode name.toList
    rw [hnil, Text.Utf8.decode?, Option.some.injEq] at hdecoded
    exact hne (String.toList_eq_nil_iff.mp hdecoded.symm)
  exact fun hnil => Percent.encode_ne_nil hbytes (List.map_eq_nil_iff.mp hnil)

theorem formDecode_encodedName (name : String) : formDecode (encodedName name) = name.toList := by
  have hplus : ((encodedName name).map fun c => if c = '+' then ' ' else c) = encodedName name := by
    refine (List.map_congr_left fun c hc => if_neg ?_).trans (List.map_id _)
    rintro rfl
    exact separator_not_mem (by decide) hc
  rw [formDecode, hplus, encode_encodedName, Percent.decode_encode, Text.Utf8.decodeLossy_encode]

theorem client?_encodedName (name : String) : Route.client? (encodedName name) = some name := by
  rw [Route.client?, encode_encodedName, Percent.decode_encode, Text.Utf8.decode?_encode]
  exact congrArg some String.ofList_toList

end EventHub.Web
