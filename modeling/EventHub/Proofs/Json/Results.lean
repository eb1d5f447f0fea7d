import EventHub.Json.Record
import EventHub.Proofs.Json.ReadBack
/-!
# What the reader returns

Whatever text is read, the value has integers of sixty-four bits and finite doubles only, repeats no
key and is nested less deep than was allowed.
-/

namespace EventHub.Json

open Numeric Numeric.Double

/-! ## Doubles -/

theorem tenPow_pos {k : Nat} {t : Double} (ht : tenPow k = some t) : 0 < t.magnitude :=
  lt_of_lt_of_le (by positivity) (tenPow_bounds ht).2

theorem valid_shrink {t : Double} (ht : 0 < t.magnitude) (k : Nat) {f : Double} (hf : f.Valid) :
    (shrink t k f).Valid := by
  induction k generalizing f with
  | zero => exact hf
  | succ k ih =>
    unfold shrink
    split
    · exact hf
    · split
      · next g hg => exact ih (valid_div ht hg)
      · exact hf

theorem valid_scale {f g : Double} {e : Int} (hf : f.Valid) (hg : scale f e = some g) :
    g.Valid := by
  unfold scale at hg
  split at hg
  · cases hg
    exact hf
  · split at hg
    · cases hg
    · split at hg
      · obtain ⟨t, _, hg⟩ := Option.bind_eq_some_iff.mp hg
        exact valid_mul hg
      · obtain ⟨t308, h308, hg⟩ := Option.bind_eq_some_iff.mp hg
        dsimp only at hg
        split at hg
        · cases hg
          exact valid_shrink (tenPow_pos h308) _ hf
        · obtain ⟨t, ht, hg⟩ := Option.bind_eq_some_iff.mp hg
          exact valid_div (tenPow_pos ht) hg

theorem valid_signed (negative : Bool) {f : Double} (hf : f.Valid) : (signed negative f).Valid := by
  cases negative with
  | true => exact hf.withSign _
  | false => exact hf

/-! ## Numbers -/

def ScansValid (scanned : Scanned Number) : Prop :=
  ∀ n rest, scanned = .ok (n, rest) → Valid (.number n)

theorem scansValid_error (f : Failure) : ScansValid (.error f) := by
  intro n rest h
  cases h

theorem scansValid_ofParts (negative : Bool) (s : Nat) (e : Int) (rest : List Char) :
    ScansValid (ofParts negative s e rest) := by
  intro n rest' h
  unfold ofParts at h
  split at h
  · next f hf =>
    cases h
    obtain ⟨g, hg, hf⟩ := Option.bind_eq_some_iff.mp hf
    exact valid_signed negative (valid_scale (valid_ofNat hg) hf)
  · cases h

theorem scansValid_scanExponent (negative : Bool) (s : Nat) (e : Int) (text : List Char) :
    ScansValid (scanExponent negative s e text) := by
  unfold scanExponent
  split
  split
  · exact scansValid_error _
  · split
    · exact scansValid_error _
    · split
      · exact scansValid_ofParts _ _ _ _
      · split
        · exact scansValid_error _
        · intro n rest h
          cases h
          exact valid_zero negative

theorem scansValid_scanOptionalExponent (negative : Bool) (s : Nat) (e : Int) (text : List Char) :
    ScansValid (scanOptionalExponent negative s e text) := by
  unfold scanOptionalExponent
  split
  · split
    · exact scansValid_scanExponent _ _ _ _
    · exact scansValid_ofParts _ _ _ _
  · exact scansValid_ofParts _ _ _ _

theorem scansValid_scanFraction (negative : Bool) (s : Nat) (e : Int) (text : List Char) :
    ScansValid (scanFraction negative s e text) := by
  unfold scanFraction
  dsimp only
  split
  · exact scansValid_scanOptionalExponent _ _ _ _
  · split
    · split <;> exact scansValid_error _
    · exact scansValid_scanOptionalExponent _ _ _ _

theorem scansValid_scanTail (negative : Bool) {s : Nat} (hs : s < limit 64) (text : List Char) :
    ScansValid (scanTail negative s text) := by
  have h63 : limit 63 = 2 ^ 63 := rfl
  have h64 : limit 64 = 2 ^ 64 := rfl
  unfold scanTail
  split
  · exact scansValid_scanFraction _ _ _ _
  · split
    · exact scansValid_scanExponent _ _ _ _
    · split
      · intro n rest h
        cases h
        simp only [Valid]
        omega
      · split
        · next hfits =>
          intro n rest h
          cases h
          simp only [Bool.and_eq_true, decide_eq_true_eq] at hfits
          simp only [Valid]
          omega
        · exact scansValid_ofParts _ _ _ _

theorem digit_lt {c : Char} {d : Nat} (hd : digit? c = some d) : d < 10 := by
  unfold digit? at hd
  split at hd
  · next hc =>
    simp only [Bool.and_eq_true, decide_eq_true_eq] at hc
    have hle : c.toNat ≤ '9'.toNat := hc.2
    have hzero : '0'.toNat = 48 := rfl
    have hnine : '9'.toNat = 57 := rfl
    cases hd
    omega
  · cases hd

theorem takeDigits_lt {s : Nat} (hs : s < limit 64) (count : Nat) (text : List Char) :
    (takeDigits s count text).1 < limit 64 := by
  induction text generalizing s count with
  | nil => exact hs
  | cons c rest ih =>
    unfold takeDigits
    split
    · exact hs
    · split
      · next hlt => exact ih hlt _
      · exact hs

theorem scansValid_scanNumber (negative : Bool) (text : List Char) :
    ScansValid (scanNumber negative text) := by
  unfold scanNumber
  split
  · exact scansValid_error _
  · split
    · exact scansValid_error _
    · exact scansValid_scanTail negative (by decide) _
  · split
    · exact scansValid_error _
    · next d hd =>
      have hlimit : 10 < limit 64 := by decide
      have hs : d < limit 64 := Nat.lt_trans (digit_lt hd) hlimit
      dsimp only
      split
      · split
        · exact scansValid_scanFraction _ _ _ _
        · exact scansValid_scanOptionalExponent _ _ _ _
      · exact scansValid_scanTail negative (takeDigits_lt hs _ _) _

/-! ## Objects -/

theorem mem_keys_insertField {key k : String} {value : Json} {fields : List (String × Json)}
    (hk : k ∈ (insertField key value fields).map (·.1)) :
    k = key ∨ k ∈ fields.map (·.1) := by
  induction fields with
  | nil => simpa [insertField] using hk
  | cons f fields ih =>
    obtain ⟨k', v⟩ := f
    rw [insertField] at hk
    split at hk
    · next heq =>
      rw [← heq]
      simp only [List.map_cons, List.mem_cons] at hk ⊢
      exact hk.imp_right Or.inr
    · simp only [List.map_cons, List.mem_cons] at hk ⊢
      rcases hk with hk | hk
      · exact Or.inr (Or.inl hk)
      · exact (ih hk).imp_right Or.inr

structure FieldsOk (depth : Nat) (fields : List (String × Json)) : Prop where
  keys : (fields.map (·.1)).Nodup
  valid : ValidFields fields
  depth : depthFields fields < depth

theorem FieldsOk.insertField {depth : Nat} {fields : List (String × Json)} (key : String)
    {value : Json} (hfields : FieldsOk depth fields) (hvalid : value.Valid)
    (hdepth : value.depth < depth) : FieldsOk depth (insertField key value fields) := by
  induction fields with
  | nil =>
    refine ⟨List.nodup_singleton _, ⟨hvalid, trivial⟩, ?_⟩
    simp only [Json.insertField, depthFields]
    omega
  | cons f fields ih =>
    obtain ⟨k, v⟩ := f
    obtain ⟨hkeys, ⟨hv, hvalids⟩, hdepths⟩ := hfields
    simp only [depthFields] at hdepths
    obtain ⟨hfresh, hnodup⟩ := List.nodup_cons.mp hkeys
    have hrest := ih ⟨hnodup, hvalids, by omega⟩
    rw [Json.insertField]
    split
    · next heq =>
      refine ⟨List.nodup_cons.mpr ⟨hfresh, hnodup⟩, ⟨hvalid, hvalids⟩, ?_⟩
      simp only [depthFields]
      omega
    · next hne =>
      refine ⟨List.nodup_cons.mpr ⟨fun hmem => ?_, hrest.keys⟩, ⟨hv, hrest.valid⟩, ?_⟩
      · rcases mem_keys_insertField hmem with heq | hmem
        · exact hne heq
        · exact hfresh hmem
      · have := hrest.depth
        simp only [depthFields]
        omega

theorem ofPairs_sound {depth : Nat} {pairs : List (String × Json)} (hvalid : ValidFields pairs)
    (hdepth : depthFields pairs < depth) :
    (ofPairs pairs).Valid ∧ (ofPairs pairs).depth < depth + 1 := by
  have hfold : ∀ (pairs fields : List (String × Json)), ValidFields pairs →
      depthFields pairs < depth → FieldsOk depth fields →
      FieldsOk depth (pairs.foldl (fun fields p => insertField p.1 p.2 fields) fields) := by
    intro pairs
    induction pairs with
    | nil => exact fun fields _ _ hfields => hfields
    | cons p pairs ih =>
      intro fields hvalid hdepth hfields
      obtain ⟨k, v⟩ := p
      simp only [depthFields] at hdepth
      exact ih _ hvalid.2 (by omega)
        (hfields.insertField k hvalid.1 (show v.depth < depth by omega))
  have hok := hfold pairs [] hvalid hdepth ⟨List.nodup_nil, trivial, by
    simp only [depthFields]
    omega⟩
  rw [ofPairs]
  refine ⟨⟨hok.keys, hok.valid⟩, ?_⟩
  have := hok.depth
  simp only [Json.depth]
  omega

/-! ## Values -/

theorem bind_eq_ok {ε α β : Type} {x : Except ε α} {f : α → Except ε β} {b : β}
    (h : x >>= f = .ok b) : ∃ a, x = .ok a ∧ f a = .ok b := by
  cases x with
  | error e => cases h
  | ok a => exact ⟨a, rfl, h⟩

theorem map_eq_ok {ε α β : Type} {x : Except ε α} {f : α → β} {b : β}
    (h : x.map f = .ok b) : ∃ a, x = .ok a ∧ f a = b := by
  cases x with
  | error e => cases h
  | ok a =>
    cases h
    exact ⟨a, rfl, rfl⟩

theorem scanWord_sound {α : Type} {value a : α} {word text rest : List Char}
    (h : scanWord value word text = .ok (a, rest)) : a = value := by
  induction word generalizing text with
  | nil =>
    cases h
    rfl
  | cons c word ih =>
    cases text with
    | nil => cases h
    | cons d text =>
      rw [scanWord] at h
      split at h
      · exact ih h
      · cases h

mutual

theorem readValue_sound (steps : Nat) {depth : Nat} {text rest : List Char} {v : Json}
    (hdepth : 0 < depth) (h : readValue steps depth text = .ok (v, rest)) :
    v.Valid ∧ v.depth < depth := by
  match steps with
  | 0 =>
    rw [readValue] at h
    cases h
  | steps + 1 =>
    have hnumber {negative : Bool} {text : List Char}
        (h : Except.bind (scanNumber negative text)
          (fun p => .ok (Json.number p.1, p.2)) = .ok (v, rest)) :
        v.Valid ∧ v.depth < depth := by
      obtain ⟨⟨n, behind⟩, hscan, heq⟩ := bind_eq_ok h
      cases heq
      exact ⟨scansValid_scanNumber negative text n behind hscan, hdepth⟩
    rw [readValue] at h
    split at h
    · cases h
    · rw [scanWord_sound h]
      exact ⟨trivial, hdepth⟩
    · rw [scanWord_sound h]
      exact ⟨trivial, hdepth⟩
    · rw [scanWord_sound h]
      exact ⟨trivial, hdepth⟩
    · exact hnumber h
    · obtain ⟨⟨cs, behind⟩, _, heq⟩ := bind_eq_ok h
      cases heq
      exact ⟨trivial, hdepth⟩
    · split at h
      · cases h
      · obtain ⟨⟨items, behind⟩, hitems, heq⟩ := bind_eq_ok h
        cases heq
        obtain ⟨hvalid, hlt⟩ := readItems_sound steps (by omega) hitems
        refine ⟨hvalid, ?_⟩
        simp only [Json.depth]
        omega
    · split at h
      · cases h
      · obtain ⟨⟨pairs, behind⟩, hpairs, heq⟩ := bind_eq_ok h
        cases heq
        obtain ⟨hvalid, hlt⟩ := readFields_sound steps (by omega) hpairs
        have hobject := ofPairs_sound hvalid hlt
        exact ⟨hobject.1, by omega⟩
    · split at h
      · exact hnumber h
      · cases h

theorem readItems_sound (steps : Nat) {depth index : Nat} {text rest : List Char}
    {items : List Json} (hdepth : 0 < depth)
    (h : readItems steps depth index text = .ok (items, rest)) :
    ValidItems items ∧ depthItems items < depth := by
  match steps with
  | 0 =>
    rw [readItems] at h
    cases h
  | steps + 1 =>
    rw [readItems] at h
    split at h
    · cases h
    · cases h
      exact ⟨trivial, hdepth⟩
    · split at h
      · cases h
      · next hvalue =>
        split at h
        · cases h
        · next hitems =>
          cases h
          obtain ⟨hv, hvdepth⟩ := readValue_sound steps hdepth hvalue
          obtain ⟨hvs, hvsdepth⟩ := readItems_sound steps hdepth hitems
          exact ⟨⟨hv, hvs⟩, max_lt hvdepth hvsdepth⟩

theorem readFields_sound (steps : Nat) {depth : Nat} {first : Bool} {text rest : List Char}
    {fields : List (String × Json)} (hdepth : 0 < depth)
    (h : readFields steps depth first text = .ok (fields, rest)) :
    ValidFields fields ∧ depthFields fields < depth := by
  match steps with
  | 0 =>
    rw [readFields] at h
    cases h
  | steps + 1 =>
    rw [readFields] at h
    split at h
    · cases h
    · cases h
      exact ⟨trivial, hdepth⟩
    · obtain ⟨⟨cs, behind⟩, _, h⟩ := bind_eq_ok h
      obtain ⟨behind', _, h⟩ := bind_eq_ok h
      split at h
      · cases h
      · next hvalue =>
        split at h
        · cases h
        · next hfields =>
          cases h
          obtain ⟨hv, hvdepth⟩ := readValue_sound steps hdepth hvalue
          obtain ⟨hvs, hvsdepth⟩ := readFields_sound steps hdepth hfields
          exact ⟨⟨hv, hvs⟩, max_lt hvdepth hvsdepth⟩

end

/-- A value that is read is one that the service can hold, nested less deep than is allowed. -/
theorem readWithin_sound {depth : Nat} {text rest : List Char} {v : Json} (hdepth : 0 < depth)
    (h : readWithin depth text = .ok (v, rest)) : v.Valid ∧ v.depth < depth :=
  readValue_sound _ hdepth h

/-! ## Records -/

namespace Shape

variable {δ α : Type} {s : Shape δ} {P : δ → Prop}

def Keeps (P : δ → Prop) (m : Member δ) : Prop :=
  ∀ d text d' rest, P d → m.read d text = .ok (d', rest) → P d'

theorem readFields_keeps (hmembers : ∀ m ∈ s.members, Keeps P m) (steps : Nat) {first : Bool}
    {d d' : δ} {text rest : List Char} (hd : P d)
    (h : s.readFields steps first d text = .ok (d', rest)) : P d' := by
  induction steps generalizing first d text with
  | zero => cases h
  | succ steps ih =>
    rw [readFields] at h
    split at h
    · cases h
    · cases h
      exact hd
    · obtain ⟨⟨cs, behind⟩, _, h⟩ := bind_eq_ok h
      dsimp only at h
      split at h
      · obtain ⟨behind', _, h⟩ := bind_eq_ok h
        split at h
        · cases h
        · exact ih hd h
      · next m hm =>
        split at h
        · cases h
        · obtain ⟨behind', _, h⟩ := bind_eq_ok h
          split at h
          · cases h
          · next hread =>
            exact ih (hmembers m (List.mem_of_find?_eq_some hm) _ _ _ _ hd hread) h

theorem readItems_keeps {members : List (Member δ)} (hmembers : ∀ m ∈ members, Keeps P m)
    {index : Nat} {d d' : δ} {text rest : List Char} (hd : P d)
    (h : s.readItems index members d text = .ok (d', rest)) : P d' := by
  induction members generalizing index d text with
  | nil =>
    cases h
    exact hd
  | cons m members ih =>
    obtain ⟨hm, hmembers⟩ := List.forall_mem_cons.mp hmembers
    rw [readItems] at h
    split at h
    · cases h
    · split at h
      · cases h
        exact hd
      · cases h
    · split at h
      · cases h
      · next hread => exact ih hmembers (hm _ _ _ _ hd hread) h

/-- A record comes from a draft about which all that its members keep is known. -/
theorem read_keeps (hmembers : ∀ m ∈ s.members, Keeps P m) {empty : δ} (hempty : P empty)
    {finish : δ → Except Fault α} {text rest : List Char} {x : α}
    (h : s.read empty finish text = .ok (x, rest)) : ∃ d, P d ∧ finish d = .ok x := by
  unfold read at h
  split at h
  · split at h
    · cases h
    · next d _ hfields =>
      have hd := readFields_keeps hmembers _ hempty hfields
      split at h
      · cases h
      · next hfinish =>
        cases h
        exact ⟨d, hd, hfinish⟩
  · split at h
    · cases h
    · next d behind hitems =>
      have hd := readItems_keeps hmembers hempty hitems
      split at h
      · cases h
      · next y hfinish =>
        obtain ⟨_, _, heq⟩ := map_eq_ok h
        cases heq
        exact ⟨d, hd, hfinish⟩
  · cases h

end Shape

end EventHub.Json
