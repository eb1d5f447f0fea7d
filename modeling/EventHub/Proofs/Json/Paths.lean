import EventHub.Event.Frame
import EventHub.Json.Fault
/-!
# Paths into values

A path goes from a value to one inside it, by the keys of fields and the positions of items. A value
without its null fields has exactly the paths that enter no null field, and each of them leads to
what it led to before, without null fields.
-/

namespace EventHub.Json

/-- A path leads from one value to another. It enters only fields with a value that `enters`
allows. -/
inductive Leads (enters : Json → Prop) : Json → List Step → Json → Prop where
  | here (v : Json) : Leads enters v [] v
  | field {fields : List (String × Json)} {k : String} {u w : Json} {path : List Step}
      (hfield : (k, u) ∈ fields) (henters : enters u) (hpath : Leads enters u path w) :
      Leads enters (.object fields) (.key k :: path) w
  | item {items : List Json} {i : Nat} {u w : Json} {path : List Step}
      (hitem : items[i]? = some u) (hpath : Leads enters u path w) :
      Leads enters (.array items) (.item i :: path) w

def LeadsTo : Json → List Step → Json → Prop := Leads fun _ => True

def LeadsPastNulls : Json → List Step → Json → Prop := Leads fun u => u ≠ .null

/-! ## What is left of lists and objects -/

theorem isNull_iff {v : Json} : v.isNull = true ↔ v = .null := by
  cases v <;> simp [isNull]

@[simp] theorem isNull_withoutNulls (v : Json) : v.withoutNulls.isNull = v.isNull := by
  cases v <;> rfl

theorem withoutNullItems_eq_map (items : List Json) :
    withoutNullItems items = items.map withoutNulls := by
  induction items with
  | nil => rfl
  | cons v items ih => rw [withoutNullItems, ih, List.map_cons]

theorem withoutNullFields_eq_map (fields : List (String × Json)) :
    withoutNullFields fields =
      (fields.filter fun f => !f.2.isNull).map fun f => (f.1, f.2.withoutNulls) := by
  induction fields with
  | nil => rfl
  | cons f fields ih =>
    rw [withoutNullFields, ih]
    by_cases hnull : f.2.isNull = true
    · rw [if_pos hnull, List.filter_cons_of_neg (by simp [hnull])]
    · rw [if_neg hnull, List.filter_cons_of_pos (by simp [hnull]), List.map_cons]

theorem withoutNulls_array (items : List Json) :
    (Json.array items).withoutNulls = .array (items.map withoutNulls) := by
  rw [withoutNulls, withoutNullItems_eq_map]

theorem mem_withoutNullFields_iff {fields : List (String × Json)} {k : String} {u' : Json} :
    (k, u') ∈ withoutNullFields fields ↔
      ∃ u, (k, u) ∈ fields ∧ u ≠ .null ∧ u' = u.withoutNulls := by
  simp only [withoutNullFields_eq_map, List.mem_map, List.mem_filter, Bool.not_eq_true',
    Prod.mk.injEq, Prod.exists, ← Bool.not_eq_true, isNull_iff]
  constructor
  · rintro ⟨_, u, ⟨hfield, hnull⟩, rfl, rfl⟩
    exact ⟨u, hfield, hnull, rfl⟩
  · rintro ⟨u, hfield, hnull, rfl⟩
    exact ⟨k, u, ⟨hfield, hnull⟩, rfl, rfl⟩

theorem ne_null_of_mem_withoutNullFields {fields : List (String × Json)} {f : String × Json}
    (hf : f ∈ withoutNullFields fields) : f.2 ≠ .null := by
  obtain ⟨u, _, hnull, hu⟩ := mem_withoutNullFields_iff.mp hf
  rwa [hu, Ne, ← isNull_iff, isNull_withoutNulls, isNull_iff]

/-! ## Once is enough -/

mutual

theorem withoutNulls_withoutNulls (v : Json) : v.withoutNulls.withoutNulls = v.withoutNulls := by
  match v with
  | .null | .bool _ | .number _ | .string _ => rfl
  | .array items =>
    rw [withoutNulls, withoutNulls, withoutNullItems_withoutNullItems items]
  | .object fields =>
    rw [withoutNulls, withoutNulls, withoutNullFields_withoutNullFields fields]

theorem withoutNullItems_withoutNullItems (items : List Json) :
    withoutNullItems (withoutNullItems items) = withoutNullItems items := by
  match items with
  | [] => rfl
  | v :: rest =>
    rw [withoutNullItems, withoutNullItems, withoutNulls_withoutNulls v,
      withoutNullItems_withoutNullItems rest]

theorem withoutNullFields_withoutNullFields (fields : List (String × Json)) :
    withoutNullFields (withoutNullFields fields) = withoutNullFields fields := by
  match fields with
  | [] => rfl
  | (k, v) :: rest =>
    rw [withoutNullFields]
    by_cases hnull : v.isNull = true
    · rw [if_pos hnull, withoutNullFields_withoutNullFields rest]
    · rw [if_neg hnull, withoutNullFields, isNull_withoutNulls, if_neg hnull,
        withoutNulls_withoutNulls v, withoutNullFields_withoutNullFields rest]

end

/-! ## Paths of a value without its null fields -/

/-- A path that enters no null field leads to what it led to, without null fields. -/
theorem LeadsPastNulls.withoutNulls {v w : Json} {path : List Step}
    (hpath : LeadsPastNulls v path w) : LeadsTo v.withoutNulls path w.withoutNulls := by
  induction hpath with
  | here v => exact .here _
  | field hfield hnull _ ih =>
    exact .field (mem_withoutNullFields_iff.mpr ⟨_, hfield, hnull, rfl⟩) trivial ih
  | item hitem _ ih =>
    have hitem' := congrArg (Option.map Json.withoutNulls) hitem
    rw [← List.getElem?_map, ← withoutNullItems_eq_map] at hitem'
    exact .item hitem' ih

/-- There is no other path: by induction on the path, each of its steps was there before. -/
theorem LeadsTo.of_withoutNulls {v w' : Json} {path : List Step}
    (hpath : LeadsTo v.withoutNulls path w') :
    ∃ w, LeadsPastNulls v path w ∧ w' = w.withoutNulls := by
  induction path generalizing v with
  | nil =>
    generalize hv : v.withoutNulls = v' at hpath
    cases hpath
    exact ⟨v, .here v, hv.symm⟩
  | cons step path ih =>
    cases v with
    | null | bool _ | number _ | string _ => cases hpath
    | array items =>
      cases hpath with
      | item hitem hpath =>
        rw [withoutNullItems_eq_map, List.getElem?_map, Option.map_eq_some_iff] at hitem
        obtain ⟨u, hu, rfl⟩ := hitem
        obtain ⟨w, hw, hw'⟩ := ih hpath
        exact ⟨w, .item hu hw, hw'⟩
    | object fields =>
      cases hpath with
      | field hfield _ hpath =>
        obtain ⟨u, hu, hnull, rfl⟩ := mem_withoutNullFields_iff.mp hfield
        obtain ⟨w, hw, hw'⟩ := ih hpath
        exact ⟨w, .field hu hnull hw, hw'⟩

theorem leadsTo_withoutNulls_iff {v w' : Json} {path : List Step} :
    LeadsTo v.withoutNulls path w' ↔ ∃ w, LeadsPastNulls v path w ∧ w' = w.withoutNulls := by
  constructor
  · exact LeadsTo.of_withoutNulls
  · rintro ⟨w, hw, rfl⟩
    exact hw.withoutNulls

theorem ne_null_of_leadsTo {v : Json} {path : List Step} {fields : List (String × Json)}
    (hpath : LeadsTo v.withoutNulls path (.object fields))
    {f : String × Json} (hf : f ∈ fields) :
    f.2 ≠ .null := by
  obtain ⟨w, _, hw⟩ := hpath.of_withoutNulls
  cases w with
  | null | bool _ | number _ | string _ | array _ => cases hw
  | object fields' =>
    rw [withoutNulls, Json.object.injEq] at hw
    exact ne_null_of_mem_withoutNullFields (hw ▸ hf)

/-- Without its null fields a value has no null field at any depth. Its paths are those of the value
that enter no null field, and each leads to what it led to before, without null fields: a list keeps
its length and each item, null ones included, its position; an object keeps the keys of its other
fields in their order. Null itself stays. Doing this again changes nothing, so an event has the
frame of the same event with such a payload. -/
theorem withoutNulls_keeps_paths (v : Json) :
    (∀ path fields, LeadsTo v.withoutNulls path (.object fields) →
      ∀ f ∈ fields, f.2 ≠ .null) ∧
    (∀ path w', LeadsTo v.withoutNulls path w' ↔
      ∃ w, LeadsPastNulls v path w ∧ w' = w.withoutNulls) ∧
    (∀ path items, LeadsPastNulls v path (.array items) →
      ∃ items', LeadsTo v.withoutNulls path (.array items') ∧ items'.length = items.length ∧
        ∀ i : Nat, items'[i]? = items[i]?.map withoutNulls) ∧
    (∀ path fields, LeadsPastNulls v path (.object fields) →
      ∃ fields', LeadsTo v.withoutNulls path (.object fields') ∧
        fields'.map (·.1) = (fields.filter fun f => !f.2.isNull).map (·.1)) ∧
    withoutNulls .null = .null ∧
    v.withoutNulls.withoutNulls = v.withoutNulls ∧
    ∀ name id, Event.frame ⟨name, v.withoutNulls, id⟩ = Event.frame ⟨name, v, id⟩ := by
  refine ⟨fun path fields hpath f hf => ne_null_of_leadsTo hpath hf,
    fun path w' => leadsTo_withoutNulls_iff, ?_, ?_, rfl, withoutNulls_withoutNulls v, ?_⟩
  · intro path items hpath
    refine ⟨items.map withoutNulls, ?_, List.length_map _, fun i => List.getElem?_map⟩
    rw [← withoutNulls_array]
    exact hpath.withoutNulls
  · intro path fields hpath
    refine ⟨withoutNullFields fields, hpath.withoutNulls, ?_⟩
    rw [withoutNullFields_eq_map, List.map_map]
    rfl
  · intro name id
    simp only [Event.frame, Event.frameChars, withoutNulls_withoutNulls]

/-- Null fields on two levels, a null item, and an object that has nothing but a null field. -/
def nested : Json :=
  .object [("a", .null), ("b", .object [("c", .null), ("d", .bool true)]),
    ("e", .array [.null, .object [("f", .null)]])]

/-- The object loses a field, and the list keeps the null item and the object that loses its only
field. -/
theorem withoutNulls_keeps_paths_nested :
    LeadsTo nested.withoutNulls [.key "b"] (.object [("d", .bool true)]) ∧
      Json.bool true ≠ .null ∧
    LeadsTo nested.withoutNulls [.key "e", .item 1] (.object []) ∧
    ∃ items, LeadsTo nested.withoutNulls [.key "e"] (.array items) ∧ items.length = 2 ∧
      items[0]? = some .null := by
  obtain ⟨hnull, hpaths, hlists, _⟩ := withoutNulls_keeps_paths nested
  have hb : LeadsPastNulls nested [.key "b"] (.object [("c", .null), ("d", .bool true)]) :=
    .field (by simp) (by simp) (.here _)
  have he : LeadsPastNulls nested [.key "e"] (.array [.null, .object [("f", .null)]]) :=
    .field (by simp) (by simp) (.here _)
  have hlast : LeadsPastNulls nested [.key "e", .item 1] (.object [("f", .null)]) :=
    .field (u := .array [.null, .object [("f", .null)]]) (by simp) (by simp)
      (.item (by rfl) (.here _))
  have hleft : LeadsTo nested.withoutNulls [.key "b"] (.object [("d", .bool true)]) :=
    (hpaths _ _).mpr ⟨_, hb, rfl⟩
  obtain ⟨items, hitems, hlength, hpositions⟩ := hlists _ _ he
  exact ⟨hleft, hnull _ _ hleft ("d", .bool true) (by simp), (hpaths _ _).mpr ⟨_, hlast, rfl⟩,
    items, hitems, hlength, hpositions 0⟩

end EventHub.Json
