import EventHub.Proofs.Json.Results
/-!
# Writing, reading and writing again

What a value is read as has the same text again only if it is the same value: its doubles are the
only parts that may change, and no two doubles have the same text. The induction is on the value,
with what stands behind its text.
-/

namespace EventHub.Json

open Numeric (Double)

mutual

def doubles : Json → List Double
  | .number (.double d) => [d]
  | .array items => doublesOfItems items
  | .object fields => doublesOfFields fields
  | .null | .bool _ | .number (.int _) | .string _ => []

def doublesOfItems : List Json → List Double
  | [] => []
  | v :: rest => doubles v ++ doublesOfItems rest

def doublesOfFields : List (String × Json) → List Double
  | [] => []
  | (_, v) :: rest => doubles v ++ doublesOfFields rest

end

mutual

theorem valid_of_mem_doubles (v : Json) (hvalid : v.Valid) : ∀ d ∈ v.doubles, d.Valid := by
  match v with
  | .null | .bool _ | .string _ | .number (.int _) =>
    intro d hd
    cases hd
  | .number (.double d) =>
    intro d' hd'
    rw [doubles, List.mem_singleton] at hd'
    exact hd' ▸ hvalid
  | .array items => exact valid_of_mem_doublesOfItems items hvalid
  | .object fields => exact valid_of_mem_doublesOfFields fields hvalid.2

theorem valid_of_mem_doublesOfItems (items : List Json) (hvalid : ValidItems items) :
    ∀ d ∈ doublesOfItems items, d.Valid := by
  match items with
  | [] =>
    intro d hd
    cases hd
  | v :: rest =>
    intro d hd
    rcases List.mem_append.mp hd with hd | hd
    · exact valid_of_mem_doubles v hvalid.1 d hd
    · exact valid_of_mem_doublesOfItems rest hvalid.2 d hd

theorem valid_of_mem_doublesOfFields (fields : List (String × Json))
    (hvalid : ValidFields fields) : ∀ d ∈ doublesOfFields fields, d.Valid := by
  match fields with
  | [] =>
    intro d hd
    cases hd
  | (_, v) :: rest =>
    intro d hd
    rcases List.mem_append.mp hd with hd | hd
    · exact valid_of_mem_doubles v hvalid.1 d hd
    · exact valid_of_mem_doublesOfFields rest hvalid.2 d hd

end

/-! ## Values that are read as they are -/

mutual

theorem reread_eq_self_iff (v : Json) :
    v.reread = v ↔ ∀ d ∈ v.doubles, rereadDouble d = d := by
  match v with
  | .null | .bool _ | .string _ | .number (.int _) => simp [reread, doubles, Number.reread]
  | .number (.double d) => simp [reread, doubles, Number.reread]
  | .array items => rw [reread, doubles, Json.array.injEq, rereadItems_eq_self_iff items]
  | .object fields => rw [reread, doubles, Json.object.injEq, rereadFields_eq_self_iff fields]

theorem rereadItems_eq_self_iff (items : List Json) :
    rereadItems items = items ↔ ∀ d ∈ doublesOfItems items, rereadDouble d = d := by
  match items with
  | [] => simp [rereadItems, doublesOfItems]
  | v :: rest =>
    rw [rereadItems, doublesOfItems, List.forall_mem_append, List.cons.injEq,
      reread_eq_self_iff v, rereadItems_eq_self_iff rest]

theorem rereadFields_eq_self_iff (fields : List (String × Json)) :
    rereadFields fields = fields ↔ ∀ d ∈ doublesOfFields fields, rereadDouble d = d := by
  match fields with
  | [] => simp [rereadFields, doublesOfFields]
  | (k, v) :: rest =>
    rw [rereadFields, doublesOfFields, List.forall_mem_append, List.cons.injEq, Prod.mk.injEq,
      reread_eq_self_iff v, rereadFields_eq_self_iff rest]
    simp

end

/-! ## Texts -/

theorem valid_rereadDouble {d : Double} (hvalid : d.Valid) : (rereadDouble d).Valid := by
  have hread := scanNumber_rereadDouble hvalid (show EndsNumber [] by simp [EndsNumber])
  exact scansValid_scanNumber _ _ _ _ hread

mutual

/-- From the same text, whatever is behind it, the same value has been read. -/
theorem reread_of_text_append (v : Json) {rest rest' : List Char} (hvalid : v.Valid)
    (hrest : EndsNumber rest) (hrest' : EndsNumber rest')
    (heq : v.reread.text ++ rest = v.text ++ rest') :
    v.reread = v ∧ rest = rest' := by
  match v with
  | .null | .bool _ | .string _ | .number (.int _) => exact ⟨rfl, List.append_cancel_left heq⟩
  | .number (.double d) =>
    obtain ⟨hd, hrests⟩ :=
      decimalText_append_inj (valid_rereadDouble hvalid) hvalid hrest hrest' heq
    exact ⟨by rw [reread, Number.reread, hd], hrests⟩
  | .array [] => exact ⟨rfl, List.append_cancel_left heq⟩
  | .array (v :: items) =>
    simp only [reread, rereadItems, text, List.cons_append, List.append_assoc, List.cons.injEq,
      true_and] at heq
    obtain ⟨hv, hbehind⟩ := reread_of_text_append v hvalid.1 (endsNumber_itemsText _ _)
      (endsNumber_itemsText _ _) heq
    obtain ⟨hitems, hrests⟩ := reread_of_itemsText_append items hvalid.2 hrest hrest' hbehind
    exact ⟨by rw [reread, rereadItems, hv, hitems], hrests⟩
  | .object [] => exact ⟨rfl, List.append_cancel_left heq⟩
  | .object ((k, v) :: fields) =>
    simp only [reread, rereadFields, text, List.cons_append, List.append_assoc, List.cons.injEq,
      true_and] at heq
    have hbehind := List.append_cancel_left heq
    rw [List.cons.injEq] at hbehind
    obtain ⟨hv, hbehind⟩ := reread_of_text_append v hvalid.2.1 (endsNumber_fieldsText _ _)
      (endsNumber_fieldsText _ _) hbehind.2
    obtain ⟨hfields, hrests⟩ :=
      reread_of_fieldsText_append fields hvalid.2.2 hrest hrest' hbehind
    exact ⟨by rw [reread, rereadFields, hv, hfields], hrests⟩

theorem reread_of_itemsText_append (items : List Json) {rest rest' : List Char}
    (hvalid : ValidItems items) (hrest : EndsNumber rest) (hrest' : EndsNumber rest')
    (heq : itemsText (rereadItems items) ++ rest = itemsText items ++ rest') :
    rereadItems items = items ∧ rest = rest' := by
  match items with
  | [] => exact ⟨rfl, List.append_cancel_left heq⟩
  | v :: items =>
    simp only [rereadItems, itemsText, List.cons_append, List.append_assoc, List.cons.injEq,
      true_and] at heq
    obtain ⟨hv, hbehind⟩ := reread_of_text_append v hvalid.1 (endsNumber_itemsText _ _)
      (endsNumber_itemsText _ _) heq
    obtain ⟨hitems, hrests⟩ := reread_of_itemsText_append items hvalid.2 hrest hrest' hbehind
    exact ⟨by rw [rereadItems, hv, hitems], hrests⟩

theorem reread_of_fieldsText_append (fields : List (String × Json)) {rest rest' : List Char}
    (hvalid : ValidFields fields) (hrest : EndsNumber rest) (hrest' : EndsNumber rest')
    (heq : fieldsText (rereadFields fields) ++ rest = fieldsText fields ++ rest') :
    rereadFields fields = fields ∧ rest = rest' := by
  match fields with
  | [] => exact ⟨rfl, List.append_cancel_left heq⟩
  | (k, v) :: fields =>
    simp only [rereadFields, fieldsText, List.cons_append, List.append_assoc, List.cons.injEq,
      true_and] at heq
    have hbehind := List.append_cancel_left heq
    rw [List.cons.injEq] at hbehind
    obtain ⟨hv, hbehind⟩ := reread_of_text_append v hvalid.1 (endsNumber_fieldsText _ _)
      (endsNumber_fieldsText _ _) hbehind.2
    obtain ⟨hfields, hrests⟩ :=
      reread_of_fieldsText_append fields hvalid.2 hrest hrest' hbehind
    exact ⟨by rw [rereadFields, hv, hfields], hrests⟩

end

/-- A value has its text again after reading exactly if each of its doubles is read as itself. -/
theorem text_reread_iff {v : Json} (hvalid : v.Valid) :
    v.reread.text = v.text ↔ ∀ d ∈ v.doubles, rereadDouble d = d := by
  rw [← reread_eq_self_iff]
  constructor
  · intro heq
    have hend : EndsNumber [] := by simp [EndsNumber]
    exact (reread_of_text_append v hvalid hend hend (congrArg (· ++ []) heq)).1
  · exact congrArg text

/-! ## Without null fields -/

theorem isNull_reread (v : Json) : v.reread.isNull = v.isNull := by
  cases v <;> rfl

mutual

theorem withoutNulls_reread (v : Json) : v.reread.withoutNulls = v.withoutNulls.reread := by
  match v with
  | .null | .bool _ | .string _ | .number _ => rfl
  | .array items => rw [reread, withoutNulls, withoutNulls, reread, withoutNullItems_reread items]
  | .object fields =>
    rw [reread, withoutNulls, withoutNulls, reread, withoutNullFields_reread fields]

theorem withoutNullItems_reread (items : List Json) :
    withoutNullItems (rereadItems items) = rereadItems (withoutNullItems items) := by
  match items with
  | [] => rfl
  | v :: rest =>
    rw [rereadItems, withoutNullItems, withoutNullItems, rereadItems, withoutNulls_reread v,
      withoutNullItems_reread rest]

theorem withoutNullFields_reread (fields : List (String × Json)) :
    withoutNullFields (rereadFields fields) = rereadFields (withoutNullFields fields) := by
  match fields with
  | [] => rfl
  | (k, v) :: rest =>
    rw [rereadFields, withoutNullFields, withoutNullFields, isNull_reread]
    split
    · exact withoutNullFields_reread rest
    · rw [rereadFields, withoutNulls_reread v, withoutNullFields_reread rest]

end

mutual

theorem doubles_withoutNulls (v : Json) : v.withoutNulls.doubles = v.doubles := by
  match v with
  | .null | .bool _ | .string _ | .number _ => rfl
  | .array items => rw [withoutNulls, doubles, doubles, doubles_withoutNullItems items]
  | .object fields => rw [withoutNulls, doubles, doubles, doubles_withoutNullFields fields]

theorem doubles_withoutNullItems (items : List Json) :
    doublesOfItems (withoutNullItems items) = doublesOfItems items := by
  match items with
  | [] => rfl
  | v :: rest =>
    rw [withoutNullItems, doublesOfItems, doublesOfItems, doubles_withoutNulls v,
      doubles_withoutNullItems rest]

theorem doubles_withoutNullFields (fields : List (String × Json)) :
    doublesOfFields (withoutNullFields fields) = doublesOfFields fields := by
  match fields with
  | [] => rfl
  | (k, v) :: rest =>
    rw [withoutNullFields, doublesOfFields]
    split
    · next hnull =>
      have hnone : v.doubles = [] := by
        cases v <;> first | rfl | cases hnull
      rw [hnone, List.nil_append, doubles_withoutNullFields rest]
    · rw [doublesOfFields, doubles_withoutNulls v, doubles_withoutNullFields rest]

end

theorem keys_withoutNullFields_sublist (fields : List (String × Json)) :
    ((withoutNullFields fields).map (·.1)).Sublist (fields.map (·.1)) := by
  induction fields with
  | nil => exact List.Sublist.refl _
  | cons f fields ih =>
    obtain ⟨k, v⟩ := f
    rw [withoutNullFields]
    split
    · exact ih.cons _
    · exact ih.cons_cons _

mutual

theorem valid_withoutNulls (v : Json) (hvalid : v.Valid) : v.withoutNulls.Valid := by
  match v with
  | .null | .bool _ | .string _ | .number _ => exact hvalid
  | .array items => exact valid_withoutNullItems items hvalid
  | .object fields =>
    exact ⟨hvalid.1.sublist (keys_withoutNullFields_sublist fields),
      valid_withoutNullFields fields hvalid.2⟩

theorem valid_withoutNullItems (items : List Json) (hvalid : ValidItems items) :
    ValidItems (withoutNullItems items) := by
  match items with
  | [] => trivial
  | v :: rest =>
    exact ⟨valid_withoutNulls v hvalid.1, valid_withoutNullItems rest hvalid.2⟩

theorem valid_withoutNullFields (fields : List (String × Json)) (hvalid : ValidFields fields) :
    ValidFields (withoutNullFields fields) := by
  match fields with
  | [] => trivial
  | (k, v) :: rest =>
    rw [withoutNullFields]
    split
    · exact valid_withoutNullFields rest hvalid.2
    · exact ⟨valid_withoutNulls v hvalid.1, valid_withoutNullFields rest hvalid.2⟩

end

end EventHub.Json
