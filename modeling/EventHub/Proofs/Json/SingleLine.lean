import EventHub.Json.Writer
/-!
# Written JSON is a single line

The compact text of a value has no character below the space: strings are escaped, and the marks
and numbers around them are plain. So a line of a stream can carry the whole text.
-/

namespace EventHub.Json

def Plain (text : List Char) : Prop := ∀ c ∈ text, ' ' ≤ c

theorem plain_nil : Plain [] := by
  intro c hc
  simp at hc

theorem plain_cons {c : Char} {text : List Char} (hc : ' ' ≤ c) (htext : Plain text) :
    Plain (c :: text) := by
  intro d hd
  rcases List.mem_cons.mp hd with rfl | hd
  · exact hc
  · exact htext d hd

theorem plain_append {left right : List Char} (hleft : Plain left) (hright : Plain right) :
    Plain (left ++ right) := by
  intro c hc
  rcases List.mem_append.mp hc with hc | hc
  · exact hleft c hc
  · exact hright c hc

theorem plain_replicate {c : Char} (hc : ' ' ≤ c) (n : Nat) : Plain (List.replicate n c) := by
  intro d hd
  rw [List.eq_of_mem_replicate hd]
  exact hc

/-! ## Numbers -/

theorem plain_toDigits (n : Nat) : Plain (Nat.toDigits 10 n) := by
  intro c hc
  have hdigit := Nat.isDigit_of_mem_toDigits (by omega) (by omega) hc
  simp only [Char.isDigit, Bool.and_eq_true, decide_eq_true_eq] at hdigit
  exact Nat.le_trans (by decide : ' '.toNat ≤ '0'.toNat) hdigit.1

theorem plain_integerText (n : Int) : Plain (integerText n) := by
  unfold integerText
  split
  · exact plain_cons (by decide) (plain_toDigits _)
  · exact plain_toDigits _

theorem plain_positional (x : Numeric.Decimal) :
    Plain x.positional.1 ∧ Plain x.positional.2 := by
  have hdigits := plain_toDigits x.digits
  unfold Numeric.Decimal.positional
  dsimp only
  split
  · exact ⟨plain_append hdigits (plain_replicate (by decide) _), plain_nil⟩
  · split
    · exact ⟨fun c hc => hdigits c (List.mem_of_mem_take hc),
        fun c hc => hdigits c (List.mem_of_mem_drop hc)⟩
    · exact ⟨plain_cons (by decide) plain_nil,
        plain_append (plain_replicate (by decide) _) hdigits⟩

theorem plain_scientific (x : Numeric.Decimal) : Plain x.scientific := by
  have hdigits := plain_toDigits x.digits
  have hexponent : Plain ('e' :: (if x.leading < 0 then '-' else '+') ::
      Nat.toDigits 10 x.leading.natAbs) := by
    apply plain_cons (by decide)
    apply plain_cons _ (plain_toDigits _)
    split <;> decide
  unfold Numeric.Decimal.scientific
  refine plain_append ?_ hexponent
  split
  next d f fs hds =>
    rw [hds] at hdigits
    refine plain_cons (hdigits d (by simp)) (plain_cons (by decide) ?_)
    exact fun c hc => hdigits c (List.mem_cons_of_mem _ hc)
  next => exact hdigits

theorem plain_decimalText (d : Numeric.Double) : Plain d.decimalText := by
  unfold Numeric.Double.decimalText
  apply plain_append
  · unfold Numeric.sign
    split
    · exact plain_cons (by decide) plain_nil
    · exact plain_nil
  · split
    · simp [Plain]
    · dsimp only
      split
      · have hparts := plain_positional d.shortest
        rcases hpositional : d.shortest.positional with ⟨whole, fraction⟩
        rw [hpositional] at hparts
        cases fraction with
        | nil => exact plain_append hparts.1 (by simp [Plain])
        | cons f fs => exact plain_append hparts.1 (plain_cons (by decide) hparts.2)
      · exact plain_scientific _

/-! ## Values -/

theorem space_le_hexDigit (n : Nat) : ' ' ≤ hexDigit n := by
  unfold hexDigit Nat.digitChar
  simp only [apply_ite (' ' ≤ ·)]
  simp

theorem plain_escapeChar (c : Char) : Plain (escapeChar c) := by
  unfold escapeChar
  split
  case h_8 =>
    by_cases hc : c < ' '
    · rw [if_pos hc]
      refine @plain_append ['\\', 'u', '0', '0'] _ (by simp [Plain]) ?_
      exact plain_cons (space_le_hexDigit _) (plain_cons (space_le_hexDigit _) plain_nil)
    · rw [if_neg hc]
      exact plain_cons (Char.not_lt.mp hc) plain_nil
  all_goals
    simp [Plain]

theorem plain_stringText (s : String) : Plain (stringText s) := by
  refine plain_cons (by decide) (plain_append ?_ (plain_cons (by decide) plain_nil))
  intro c hc
  obtain ⟨d, _, hd⟩ := List.mem_flatMap.mp hc
  exact plain_escapeChar d c hd

mutual

theorem plain_text (v : Json) : Plain v.text := by
  match v with
  | .null | .bool true | .bool false =>
    simp [Plain, text]
  | .number (.int n) => exact plain_integerText n
  | .number (.double d) => exact plain_decimalText d
  | .string s => exact plain_stringText s
  | .array [] | .object [] =>
    simp [Plain, text]
  | .array (v :: rest) =>
    rw [text]
    exact plain_append (plain_cons (by decide) (plain_text v)) (plain_itemsText rest)
  | .object ((k, v) :: rest) =>
    rw [text]
    refine plain_append (plain_cons (by decide) ?_) (plain_fieldsText rest)
    exact plain_append (plain_stringText k) (plain_cons (by decide) (plain_text v))

theorem plain_itemsText (items : List Json) : Plain (itemsText items) := by
  match items with
  | [] => exact plain_cons (by decide) plain_nil
  | v :: rest =>
    rw [itemsText]
    exact plain_append (plain_cons (by decide) (plain_text v)) (plain_itemsText rest)

theorem plain_fieldsText (fields : List (String × Json)) : Plain (fieldsText fields) := by
  match fields with
  | [] => exact plain_cons (by decide) plain_nil
  | (k, v) :: rest =>
    rw [fieldsText]
    refine plain_append (plain_cons (by decide) ?_) (plain_fieldsText rest)
    exact plain_append (plain_stringText k) (plain_cons (by decide) (plain_text v))

end

theorem decimalText_ne_nil (d : Numeric.Double) : d.decimalText ≠ [] := by
  unfold Numeric.Double.decimalText
  apply List.append_ne_nil_of_right_ne_nil
  split
  · simp
  · dsimp only
    split
    · split <;> simp
    · simp [Numeric.Decimal.scientific]

theorem text_ne_nil (v : Json) : v.text ≠ [] := by
  match v with
  | .null | .bool true | .bool false | .array [] | .object [] => simp [text]
  | .number (.int n) =>
    simp only [text, Number.text, integerText]
    split <;> simp [Nat.toDigits_ne_nil]
  | .number (.double d) => exact decimalText_ne_nil d
  | .string s => simp [text, stringText]
  | .array (v :: rest) => simp [text]
  | .object ((k, v) :: rest) => simp [text]

/-- Neither of the characters that end a line occurs. -/
theorem no_break_of_plain {text : List Char} (htext : Plain text) :
    '\n' ∉ text ∧ '\r' ∉ text := by
  constructor
  · exact fun hmem => absurd (htext _ hmem) (by decide)
  · exact fun hmem => absurd (htext _ hmem) (by decide)

end EventHub.Json
