import EventHub.Proofs.Json.Records
import EventHub.Proofs.Time.Timestamps
import EventHub.Relay.Message.Reader
/-!
# Messages in other arrangements

A message is read from its own text, and from every text of an object with the same fields: in any
order, among fields of other names, and without those of its fields that are `null`. The draft that
stands after some of the fields depends on their names only.
-/

namespace EventHub

namespace Json

variable {blanks : List Char}

theorem readString_text (hblanks : Blanks blanks) (wanted s : String) (rest : List Char) :
    readString wanted (blanks ++ (stringText s ++ rest)) = .ok (s, rest) := by
  have hscan := scanString_flatMap s.toList rest
  rw [stringText, List.cons_append, List.cons_append, List.append_assoc, readString,
    skipSpaces_blanks_cons hblanks (by decide)]
  simp [hscan]

theorem readOptionalString_text (hblanks : Blanks blanks) (wanted : String) (s : Option String)
    (rest : List Char) :
    readOptionalString wanted (blanks ++ ((Relay.Message.optionalText s).text ++ rest)) =
      .ok (s, rest) := by
  cases s with
  | none =>
    rw [Relay.Message.optionalText, text, List.cons_append, readOptionalString,
      skipSpaces_blanks_cons hblanks (by decide)]
    rfl
  | some s =>
    have hread := readString_text blanks_nil wanted s rest
    rw [Relay.Message.optionalText, text]
    rw [List.nil_append, stringText, List.cons_append, List.cons_append, List.append_assoc]
      at hread
    rw [stringText, List.cons_append, List.cons_append, List.append_assoc, readOptionalString,
      skipSpaces_blanks_cons hblanks (by decide)]
    change (readString wanted _).map _ = _
    rw [hread]
    rfl

end Json

namespace Relay.Message

open Json

variable {m : Message}

theorem readTimestamp_text {blanks : List Char} (hblanks : Blanks blanks) {t : Time.Timestamp}
    (hlow : Time.Date.minYear ≤ t.date.year) (hhigh : t.date.year ≤ Time.Date.maxYear)
    (rest : List Char) :
    readTimestamp (blanks ++ (stringText (String.ofList t.text) ++ rest)) = .ok (t, rest) := by
  rw [readTimestamp, readString_text hblanks]
  simp only [String.toList_ofList, Time.Timestamp.read_text hlow hhigh]

/-! ## Fields -/

def fields (m : Message) : List (String × Json) :=
  [("sourceServerId", .string m.source.text), ("targetClientId", optionalText m.target),
    ("eventName", .string m.name), ("payload", .string m.payload),
    ("eventId", optionalText m.id), ("timestamp", .string (String.ofList m.timestamp.text))]

theorem toJson_eq (m : Message) : m.toJson = .object m.fields := rfl

def isOwn (m : Message) (f : String × List Char) : Bool := f.1 ∈ m.fields.map (·.1)

def draftOf (m : Message) (names : List String) : Draft where
  source := if "sourceServerId" ∈ names then some m.source.text else none
  target := if "targetClientId" ∈ names then some m.target else none
  name := if "eventName" ∈ names then some m.name else none
  payload := if "payload" ∈ names then some m.payload else none
  id := if "eventId" ∈ names then some m.id else none
  timestamp := if "timestamp" ∈ names then some m.timestamp else none

theorem takes_own (hlow : Time.Date.minYear ≤ m.timestamp.date.year)
    (hhigh : m.timestamp.date.year ≤ Time.Date.maxYear) {name : String} {v : Json}
    (hfield : (name, v) ∈ m.fields) {names : List String} (hnew : name ∉ names)
    {text : List Char} (htext : Writes (name, v.text) text) :
    shape.Takes (m.draftOf names) text (m.draftOf (names ++ [name])) := by
  simp only [fields, List.mem_cons, List.not_mem_nil, Prod.mk.injEq, or_false] at hfield
  obtain ⟨rfl, rfl⟩ | ⟨rfl, rfl⟩ | ⟨rfl, rfl⟩ | ⟨rfl, rfl⟩ |
    ⟨rfl, rfl⟩ | ⟨rfl, rfl⟩ := hfield
  all_goals
    refine .own htext rfl (by simp [draftOf, hnew]) fun blanks rest hblanks => ?_
    dsimp only
  · rw [Json.text, readString_text hblanks]
    simp [Except.map, draftOf]
  · rw [readOptionalString_text hblanks]
    simp [Except.map, draftOf]
  · rw [Json.text, readString_text hblanks]
    simp [Except.map, draftOf]
  · rw [Json.text, readString_text hblanks]
    simp [Except.map, draftOf]
  · rw [readOptionalString_text hblanks]
    simp [Except.map, draftOf]
  · rw [Json.text, readTimestamp_text hblanks hlow hhigh]
    simp [Except.map, draftOf]

theorem takes_other {f : String × List Char} (hother : m.isOwn f = false) (hvalue : IsValue f.2)
    {text : List Char} (htext : Writes f text) (d : Draft) : shape.Takes d text d := by
  refine .other htext ?_ hvalue
  rw [Shape.find?, List.find?_eq_none]
  intro member hmember hname
  have hmem : member.name ∈ m.fields.map (·.1) := List.mem_map_of_mem (f := (·.name)) hmember
  rw [of_decide_eq_true hname] at hmem
  simp [isOwn, hmem] at hother

/-! ## Arrangements -/

/-- The fields, each with the text of its value, are those of the message in any order. Of its own
some that are `null` may be missing; those of other names have any values. -/
structure Arranges (m : Message) (written : List (String × List Char)) : Prop where
  own : ∃ kept, List.Sublist kept m.fields ∧
    (∀ f ∈ m.fields, f.2 ≠ .null → f ∈ kept) ∧
    (written.filter m.isOwn).Perm (kept.map fun f => (f.1, f.2.text))
  other : ∀ f ∈ written, m.isOwn f = false → IsValue f.2

theorem arranges_of_perm {kept : List (String × Json)} (hsub : List.Sublist kept m.fields)
    (hkept : ∀ f ∈ m.fields, f.2 ≠ .null → f ∈ kept)
    {written : List (String × List Char)}
    (hperm : written.Perm (kept.map fun f => (f.1, f.2.text))) : m.Arranges written := by
  have hown : ∀ f ∈ written, m.isOwn f = true := by
    intro f hf
    obtain ⟨g, hg, rfl⟩ := List.mem_map.mp (hperm.mem_iff.mp hf)
    exact decide_eq_true (List.mem_map_of_mem (hsub.subset hg))
  refine ⟨⟨kept, hsub, hkept, by rwa [List.filter_eq_self.mpr hown]⟩, fun f hf hother => ?_⟩
  rw [hown f hf] at hother
  cases hother

theorem Arranges.cons_other {written : List (String × List Char)} (hwritten : m.Arranges written)
    {f : String × List Char} (hother : m.isOwn f = false) (hvalue : IsValue f.2) :
    m.Arranges (f :: written) := by
  refine ⟨?_, List.forall_mem_cons.mpr ⟨fun _ => hvalue, hwritten.other⟩⟩
  rw [List.filter_cons_of_neg (by simp [hother])]
  exact hwritten.own

theorem nodup_fields (m : Message) : (m.fields.map (·.1)).Nodup := by
  simp [fields]

theorem fills_draftOf (hlow : Time.Date.minYear ≤ m.timestamp.date.year)
    (hhigh : m.timestamp.date.year ≤ Time.Date.maxYear) {written : List (String × List Char)}
    {texts : List (List Char)} (htexts : List.Forall₂ Writes written texts) {names : List String}
    (hown : ∀ f ∈ written.filter m.isOwn, ∃ v, (f.1, v) ∈ m.fields ∧ f.2 = v.text)
    (hnodup : (names ++ (written.filter m.isOwn).map (·.1)).Nodup)
    (hother : ∀ f ∈ written, m.isOwn f = false → IsValue f.2) :
    shape.Fills (m.draftOf names) texts
      (m.draftOf (names ++ (written.filter m.isOwn).map (·.1))) := by
  induction htexts generalizing names with
  | nil =>
    rw [List.filter_nil, List.map_nil, List.append_nil]
    exact .nil _
  | @cons f text written texts htext htexts ih =>
    obtain ⟨hvalue, hother⟩ := List.forall_mem_cons.mp hother
    cases hf : m.isOwn f with
    | true =>
      rw [List.filter_cons_of_pos hf] at hown hnodup ⊢
      obtain ⟨⟨v, hfield, hv⟩, hown⟩ := List.forall_mem_cons.mp hown
      rw [List.map_cons, List.append_cons] at hnodup ⊢
      have hnew : f.1 ∉ names := fun hmem =>
        (List.nodup_append.mp (List.nodup_append.mp hnodup).1).2.2 _ hmem _
          (List.mem_singleton_self _) rfl
      have htext : Writes (f.1, v.text) text := by rwa [← hv]
      exact .cons (takes_own hlow hhigh hfield hnew htext) (ih hown hnodup hother)
    | false =>
      rw [List.filter_cons_of_neg (by simp [hf])] at hown hnodup ⊢
      exact .cons (takes_other hf (hvalue hf) htext _) (ih hown hnodup hother)

theorem optionalText_ne_null {s : Option String} (hs : s ≠ none) : optionalText s ≠ .null := by
  cases s with
  | none => exact absurd rfl hs
  | some s => simp [optionalText]

/-- An optional field that is left out stands for the same as one that is `null`. -/
theorem join_read {s : Option String} {name : String} {names : List String}
    (hread : s ≠ none → name ∈ names) :
    (if name ∈ names then some s else none).join = s := by
  split
  · rfl
  · next hout =>
    cases s with
    | none => rfl
    | some s => exact absurd (hread (by simp)) hout

theorem finish_draftOf {names : List String}
    (hnames : ∀ f ∈ m.fields, f.2 ≠ .null → f.1 ∈ names) :
    (m.draftOf names).finish = .ok m := by
  have hsource : "sourceServerId" ∈ names :=
    hnames ("sourceServerId", .string m.source.text) (by simp [fields]) (by simp)
  have hname : "eventName" ∈ names :=
    hnames ("eventName", .string m.name) (by simp [fields]) (by simp)
  have hpayload : "payload" ∈ names :=
    hnames ("payload", .string m.payload) (by simp [fields]) (by simp)
  have htimestamp : "timestamp" ∈ names :=
    hnames ("timestamp", .string (String.ofList m.timestamp.text)) (by simp [fields]) (by simp)
  have htarget : (m.draftOf names).target.join = m.target :=
    join_read fun hne => hnames ("targetClientId", optionalText m.target) (by simp [fields])
      (optionalText_ne_null hne)
  have hid : (m.draftOf names).id.join = m.id :=
    join_read fun hne => hnames ("eventId", optionalText m.id) (by simp [fields])
      (optionalText_ne_null hne)
  simp only [Draft.finish, htarget, hid]
  simp [draftOf, hsource, hname, hpayload, htimestamp]

theorem decode_of_arranges (hlow : Time.Date.minYear ≤ m.timestamp.date.year)
    (hhigh : m.timestamp.date.year ≤ Time.Date.maxYear) {written : List (String × List Char)}
    (hwritten : m.Arranges written) {texts : List (List Char)}
    (htexts : List.Forall₂ Writes written texts) :
    decode (String.ofList (objectText texts)) = .ok m := by
  obtain ⟨⟨kept, hsub, hkept, hperm⟩, hother⟩ := hwritten
  have hnames : ((written.filter m.isOwn).map (·.1)).Perm (kept.map (·.1)) := by
    simpa [List.map_map, Function.comp_def] using hperm.map (·.1)
  have hnodup : ((written.filter m.isOwn).map (·.1)).Nodup :=
    hnames.nodup_iff.mpr ((hsub.map _).nodup m.nodup_fields)
  have hown : ∀ f ∈ written.filter m.isOwn, ∃ v, (f.1, v) ∈ m.fields ∧ f.2 = v.text := by
    intro f hf
    obtain ⟨g, hg, rfl⟩ := List.mem_map.mp (hperm.mem_iff.mp hf)
    exact ⟨g.2, hsub.subset hg, rfl⟩
  have hfills : shape.Fills (m.draftOf []) texts
      (m.draftOf ([] ++ (written.filter m.isOwn).map (·.1))) :=
    fills_draftOf hlow hhigh htexts hown hnodup hother
  have hfinish : (m.draftOf ([] ++ (written.filter m.isOwn).map (·.1))).finish = .ok m :=
    finish_draftOf fun f hf hne => hnames.mem_iff.mpr (List.mem_map_of_mem (hkept f hf hne))
  have hread : shape.read {} Draft.finish (objectText texts) = .ok (m, []) := by
    have hread := hfills.read_eq Draft.finish hfinish []
    rwa [List.append_nil] at hread
  rw [decode, String.toList_ofList, read, hread]
  rfl

theorem forall₂_writes_compactField (fields : List (String × Json)) :
    List.Forall₂ Writes (fields.map fun f => (f.1, f.2.text)) (fields.map compactField) := by
  rw [List.forall₂_map_left_iff, List.forall₂_map_right_iff]
  exact List.forall₂_same.mpr fun f _ => writes_compactField f

theorem decode_encode (hlow : Time.Date.minYear ≤ m.timestamp.date.year)
    (hhigh : m.timestamp.date.year ≤ Time.Date.maxYear) : decode m.encode = .ok m := by
  have hwritten : m.Arranges (m.fields.map fun f => (f.1, f.2.text)) :=
    arranges_of_perm (List.Sublist.refl _) (fun _ hf _ => hf) (List.Perm.refl _)
  have hdecode := decode_of_arranges hlow hhigh hwritten (forall₂_writes_compactField m.fields)
  rwa [objectText_compact, ← toJson_eq] at hdecode

/-- A message is read from its own text and from every text with its fields in any arrangement,
with blanks and with escapes in the names. What is absent stays apart from what is empty. -/
theorem decode_arrangements (hlow : Time.Date.minYear ≤ m.timestamp.date.year)
    (hhigh : m.timestamp.date.year ≤ Time.Date.maxYear) :
    decode m.encode = .ok m ∧
      ∀ (written : List (String × List Char)) (texts : List (List Char)), m.Arranges written →
        List.Forall₂ Writes written texts →
        decode (String.ofList (objectText texts)) = .ok m :=
  ⟨decode_encode hlow hhigh,
    fun _ _ hwritten htexts => decode_of_arranges hlow hhigh hwritten htexts⟩

/-- Backwards, behind a field of another name, without the target, and with an empty id. -/
theorem decode_arrangements_backwards :
    decode ("\x7b\"note\" : [1,\x7b\"id\":null\x7d],\"timestamp\":\"1970-01-01T00:00:00Z\"," ++
      "\"eventId\":\"\",\"payload\":\"null\",\"eventName\":\"tick\"," ++
      "\"sourceServerId\":\"s-1\"\x7d") =
      .ok ⟨⟨"s-1"⟩, none, "tick", "null", some "", .epoch⟩ := by
  let m : Message := ⟨⟨"s-1"⟩, none, "tick", "null", some "", .epoch⟩
  let note : Json := .array [.number (.int 1), .object [("id", .null)]]
  let kept : List (String × Json) := m.fields.eraseIdx 1
  let written : List (String × List Char) := kept.reverse.map fun f => (f.1, f.2.text)
  have hwritten : m.Arranges written :=
    arranges_of_perm (List.eraseIdx_sublist ..) (by simp [m, fields, optionalText])
      ((List.reverse_perm kept).map _)
  have hnote : IsValue note.text :=
    isValue_text note (by simp [note, Valid, ValidItems, ValidFields])
  have hspace : Blanks [' '] := by decide
  have hfield : Writes ("note", note.text) _ :=
    ⟨_, denotes_flatMap _, .intro blanks_nil hspace (.intro hspace blanks_nil)⟩
  have hdecode := (decode_arrangements (m := m) (by decide) (by decide)).2 _ _
    (hwritten.cons_other (by simp [isOwn, fields]) hnote)
    (.cons hfield (forall₂_writes_compactField kept.reverse))
  refine Eq.trans (congrArg decode ?_) hdecode
  decide +kernel

end Relay.Message

end EventHub
