import EventHub.Proofs.Json.Grammar
/-!
# Reading records from objects

A record is read from the text of an object whose fields come in any order: those of its members
are read into the draft, one after another, and those of other names are passed over.
-/

namespace EventHub.Json

variable {rest : List Char}

/-! ## The texts of objects -/

def furtherFields : List (List Char) → List Char
  | [] => ['\x7d']
  | text :: fields => ',' :: (text ++ furtherFields fields)

def objectText : List (List Char) → List Char
  | [] => ['\x7b', '\x7d']
  | text :: fields => '\x7b' :: (text ++ furtherFields fields)

def compactField (f : String × Json) : List Char := stringText f.1 ++ ':' :: f.2.text

theorem furtherFields_compact (fields : List (String × Json)) :
    furtherFields (fields.map compactField) = fieldsText fields := by
  induction fields with
  | nil => rfl
  | cons f fields ih =>
    simp only [List.map_cons, furtherFields, ih, fieldsText, compactField, List.append_assoc,
      List.cons_append]

theorem objectText_compact (fields : List (String × Json)) :
    objectText (fields.map compactField) = text (.object fields) := by
  cases fields with
  | nil => rfl
  | cons f fields =>
    simp only [List.map_cons, objectText, furtherFields_compact, text, compactField,
      List.append_assoc, List.cons_append]

theorem length_lt_furtherFields (fields : List (List Char)) :
    fields.length < (furtherFields fields).length := by
  induction fields with
  | nil => exact Nat.zero_lt_one
  | cons text fields ih =>
    simp only [furtherFields, List.length_cons, List.length_append]
    omega

theorem endsNumber_furtherFields (fields : List (List Char)) (rest : List Char) :
    EndsNumber (furtherFields fields ++ rest) := by
  cases fields with
  | nil => exact endsNumber_mark (by decide) rest
  | cons text fields => exact endsNumber_mark (by decide) _

def Writes (f : String × List Char) (text : List Char) : Prop :=
  ∃ body, Denotes body f.1.toList ∧ IsField body f.2 text

theorem writes_compactField (f : String × Json) : Writes (f.1, f.2.text) (compactField f) :=
  ⟨_, denotes_flatMap _, isField_compact f.1 f.2.text⟩

/-! ## Keys -/

theorem nextKey_first_blanks {blanks : List Char} (hblanks : Blanks blanks) (text : List Char) :
    nextKey true (blanks ++ '"' :: text) = .ok (.key text) := by
  rw [nextKey, skipSpaces_blanks_cons hblanks (by decide)]
  rfl

theorem nextKey_further_blanks {blanks ahead : List Char} (hblanks : Blanks blanks)
    (hahead : Blanks ahead) (text : List Char) :
    nextKey false (blanks ++ ',' :: (ahead ++ '"' :: text)) = .ok (.key text) := by
  rw [nextKey, skipSpaces_blanks_cons hblanks (by decide)]
  simp only [Bool.false_eq_true, if_false,
    skipSpaces_blanks_cons hahead (show isSpace '"' = false by decide)]

theorem nextKey_close_blanks {blanks : List Char} (hblanks : Blanks blanks) (first : Bool)
    (text : List Char) :
    nextKey first (blanks ++ '\x7d' :: text) = .ok (.close ('\x7d' :: text)) := by
  rw [nextKey, skipSpaces_blanks_cons hblanks (by decide)]
  rfl

/-! ## Fields -/

namespace Shape

variable {δ α : Type} {s : Shape δ} {d d' : δ}

inductive Takes (s : Shape δ) (d : δ) (text : List Char) : δ → Prop where
  | own {d' : δ} {m : Member δ} {name : String} {value : List Char}
      (htext : Writes (name, value) text) (hfind : s.find? name = some m)
      (hset : m.isSet d = false)
      (hread : ∀ blanks rest, Blanks blanks →
        m.read d (blanks ++ (value ++ rest)) = .ok (d', rest)) : Takes s d text d'
  | other {name : String} {value : List Char} (htext : Writes (name, value) text)
      (hfind : s.find? name = none) (hvalue : IsValue value) : Takes s d text d

inductive Fills (s : Shape δ) : δ → List (List Char) → δ → Prop where
  | nil (d : δ) : Fills s d [] d
  | cons {d d' d'' : δ} {text : List Char} {fields : List (List Char)}
      (hfield : s.Takes d text d') (hfields : Fills s d' fields d'') :
      Fills s d (text :: fields) d''

theorem Takes.readFields_eq {text : List Char} (htakes : s.Takes d text d') (steps : Nat)
    {first : Bool} {start : List Char}
    (hstart : ∀ ahead behind, Blanks ahead → text ++ rest = ahead ++ '"' :: behind →
      nextKey first start = .ok (.key behind))
    (hrest : EndsNumber rest) :
    ∃ blanks, Blanks blanks ∧ s.readFields (steps + 1) first d start =
      s.readFields steps false d' (blanks ++ rest) := by
  cases htakes with
  | @own _ m name value htext hfind hset hread =>
    obtain ⟨body, hname, ⟨hahead, hbehind, ⟨hleft, hright⟩⟩⟩ := htext
    have hnext := hstart _ _ hahead (by simp only [List.append_assoc, List.cons_append]; rfl)
    refine ⟨_, hright, ?_⟩
    rw [readFields, hnext]
    simp only [hname.scanString_eq, locate, Except.mapError, passColon_blanks hbehind, bind,
      Except.bind, String.ofList_toList, hfind, hset, hread _ _ hleft, Bool.false_eq_true, if_false]
  | @other name value htext hfind hvalue =>
    obtain ⟨body, hname, ⟨hahead, hbehind, hpadded⟩⟩ := htext
    obtain ⟨blanks, hblanks, hskip⟩ := hpadded.skipPrefix_eq hvalue hrest
    have hnext := hstart _ _ hahead (by simp only [List.append_assoc, List.cons_append]; rfl)
    refine ⟨blanks, hblanks, ?_⟩
    rw [readFields, hnext]
    simp only [hname.scanString_eq, locate, Except.mapError, passColon_blanks hbehind, bind,
      Except.bind, String.ofList_toList, hfind, hskip]

theorem Fills.readFields_eq {fields : List (List Char)} (hfills : s.Fills d fields d')
    {blanks : List Char} (hblanks : Blanks blanks) {steps : Nat}
    (hsteps : fields.length ≤ steps) :
    s.readFields (steps + 1) false d (blanks ++ (furtherFields fields ++ rest)) =
      .ok (d', '\x7d' :: rest) := by
  induction hfills generalizing blanks steps with
  | nil d =>
    rw [furtherFields, readFields, List.singleton_append, nextKey_close_blanks hblanks]
  | @cons d d' d'' text fields hfield hfields ih =>
    obtain ⟨steps, rfl⟩ := Nat.exists_eq_add_of_le' hsteps
    rw [List.length_cons, ← Nat.add_assoc, furtherFields, List.cons_append, List.append_assoc]
    have hstart : ∀ ahead behind, Blanks ahead →
        text ++ (furtherFields fields ++ rest) = ahead ++ '"' :: behind →
        nextKey false (blanks ++ ',' :: (text ++ (furtherFields fields ++ rest))) =
          .ok (.key behind) := by
      intro ahead behind hahead heq
      rw [heq]
      exact nextKey_further_blanks hblanks hahead behind
    obtain ⟨behind, hbehind, hread⟩ :=
      hfield.readFields_eq _ hstart (endsNumber_furtherFields fields rest)
    rw [hread]
    exact ih hbehind (Nat.le_add_left ..)

/-- A record is read from an object whose fields fill a complete draft. -/
theorem Fills.read_eq (finish : δ → Except Fault α) {fields : List (List Char)} {x : α}
    (hfills : s.Fills d fields d') (hfinish : finish d' = .ok x) (rest : List Char) :
    s.read d finish (objectText fields ++ rest) = .ok (x, rest) := by
  cases hfills with
  | nil =>
    rw [objectText, List.cons_append, read, skipSpaces_cons (by decide)]
    simp only [List.singleton_append, readFields, nextKey_close, hfinish]
    rfl
  | @cons _ _ _ text fields hfield hfields =>
    have hlength := length_lt_furtherFields fields
    rw [objectText, List.cons_append, List.append_assoc, read, skipSpaces_cons (by decide)]
    have hstart : ∀ ahead behind, Blanks ahead →
        text ++ (furtherFields fields ++ rest) = ahead ++ '"' :: behind →
        nextKey true (text ++ (furtherFields fields ++ rest)) = .ok (.key behind) := by
      intro ahead behind hahead heq
      rw [heq]
      exact nextKey_first_blanks hahead behind
    have hle : fields.length + 1 ≤ (text ++ (furtherFields fields ++ rest)).length := by
      simp only [List.length_append]
      omega
    obtain ⟨steps, hsteps⟩ := Nat.exists_eq_add_of_le' hle
    rw [← Nat.add_assoc] at hsteps
    obtain ⟨blanks, hblanks, hread⟩ := hfield.readFields_eq (steps + fields.length + 1) hstart
      (endsNumber_furtherFields fields rest)
    simp only [hsteps, hread, hfields.readFields_eq hblanks (Nat.le_add_left ..), hfinish]
    rfl

end Shape

end EventHub.Json
