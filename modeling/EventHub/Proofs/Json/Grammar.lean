import EventHub.Proofs.Json.ReadBack
/-!
# Texts of values

The grammar of JSON, with blanks wherever they may stand. It is more than what the service writes:
numerals of any size, any known escape, brackets nested to any depth. Every text of the grammar is
passed over to its end, by induction on how the grammar derives it.
-/

namespace EventHub.Json

variable {rest : List Char}

/-! ## Blanks -/

def Blanks (cs : List Char) : Prop := ∀ c ∈ cs, isSpace c = true

instance (cs : List Char) : Decidable (Blanks cs) := List.decidableBAll _ cs

theorem blanks_nil : Blanks [] := by
  intro c hc
  simp at hc

theorem skipSpaces_blanks {blanks : List Char} (hblanks : Blanks blanks) (text : List Char) :
    skipSpaces (blanks ++ text) = skipSpaces text :=
  List.dropWhile_append_of_pos hblanks

theorem skipSpaces_blanks_cons {blanks : List Char} (hblanks : Blanks blanks) {c : Char}
    (hc : isSpace c = false) (text : List Char) :
    skipSpaces (blanks ++ c :: text) = c :: text := by
  rw [skipSpaces_blanks hblanks, skipSpaces_cons hc]

theorem endsNumber_of_isSpace {c : Char} (hc : isSpace c = true) (text : List Char) :
    EndsNumber (c :: text) := by
  simp only [isSpace, Bool.or_eq_true, decide_eq_true_eq] at hc
  obtain ((rfl | rfl) | rfl) | rfl := hc <;> simp [EndsNumber, digit?, isExponentMark]

theorem endsNumber_blanks {blanks text : List Char} (hblanks : Blanks blanks)
    (htext : EndsNumber text) : EndsNumber (blanks ++ text) := by
  cases blanks with
  | nil => exact htext
  | cons c blanks => exact endsNumber_of_isSpace (hblanks c (List.mem_cons_self ..)) _

theorem endsNumber_mark {c : Char} (hc : c ∈ [',', ']', '\x7d']) (text : List Char) :
    EndsNumber (c :: text) := by
  simp only [List.mem_cons, List.not_mem_nil, or_false] at hc
  obtain rfl | rfl | rfl := hc <;> simp [EndsNumber, digit?, isExponentMark]

/-! ## Strings -/

/-- What may stand between the quotes of a string. Escaped surrogates need not pair up. -/
inductive IsQuoted : List Char → Prop where
  | nil : IsQuoted []
  | char {c : Char} {body : List Char} (hquote : c ≠ '"') (hbackslash : c ≠ '\\')
      (hcontrol : ¬ c < ' ') (hbody : IsQuoted body) : IsQuoted (c :: body)
  | letter {e : Char} {body : List Char} (hletter : (unescape? e).isSome = true)
      (hbody : IsQuoted body) : IsQuoted ('\\' :: e :: body)
  | word {a b c d : Char} {body : List Char} (hword : (hexWord? a b c d).isSome = true)
      (hbody : IsQuoted body) : IsQuoted ('\\' :: 'u' :: a :: b :: c :: d :: body)

theorem IsQuoted.skipString_eq {body : List Char} (hbody : IsQuoted body) (rest : List Char) :
    skipString (body ++ '"' :: rest) = .ok rest := by
  induction hbody with
  | nil => rw [List.nil_append, skipString]
  | char hquote hbackslash hcontrol _ ih =>
    rw [List.cons_append, skipString]
    · rw [if_neg hcontrol, ih]
    all_goals simp_all
  | letter hletter _ ih =>
    obtain ⟨c, hc⟩ := Option.isSome_iff_exists.mp hletter
    rw [List.cons_append, List.cons_append, skipString]
    · rw [hc]
      exact ih
    · rintro _ _ _ _ _ rfl
      simp [unescape?] at hc
  | word hword _ ih =>
    obtain ⟨n, hn⟩ := Option.isSome_iff_exists.mp hword
    simp only [List.cons_append]
    rw [skipString, hn]
    exact ih

/-! ## Numerals -/

inductive IsFraction : List Char → Prop where
  | none : IsFraction []
  | digits {ds : List Char} (hds : AllDigits ds) (hne : ds ≠ []) : IsFraction ('.' :: ds)

inductive IsExponent : List Char → Prop where
  | none : IsExponent []
  | digits {mark : Char} {sign ds : List Char} (hmark : isExponentMark mark = true)
      (hsign : sign ∈ [[], ['+'], ['-']]) (hds : AllDigits ds) (hne : ds ≠ []) :
      IsExponent (mark :: (sign ++ ds))

inductive IsNumeral : List Char → Prop where
  | intro {whole fraction exponent : List Char} (hwhole : IsWhole whole)
      (hfraction : IsFraction fraction) (hexponent : IsExponent exponent) :
      IsNumeral (whole ++ (fraction ++ exponent))

theorem skipDigits_append {ds : List Char} (hds : AllDigits ds)
    (hrest : startsWithDigit rest = false) : skipDigits (ds ++ rest) = rest := by
  rw [skipDigits, List.dropWhile_append_of_pos fun c hc => by simp [digit_of_isDigit (hds c hc)]]
  cases rest with
  | nil => rfl
  | cons c rest => rw [List.dropWhile_cons_of_neg (by simpa [startsWithDigit] using hrest)]

theorem IsExponent.not_digit {exponent : List Char} (hexponent : IsExponent exponent)
    (hrest : EndsNumber rest) : startsWithDigit (exponent ++ rest) = false := by
  cases hexponent with
  | none => exact hrest.not_digit
  | digits hmark _ _ _ =>
    simp only [isExponentMark, Bool.or_eq_true, decide_eq_true_eq] at hmark
    obtain rfl | rfl := hmark <;> rfl

theorem skipExponent_digits {sign ds : List Char} (hsign : sign ∈ [[], ['+'], ['-']])
    (hds : AllDigits ds) (hne : ds ≠ []) (hrest : EndsNumber rest) :
    skipExponent (sign ++ ds ++ rest) = .ok rest := by
  obtain ⟨c, cs, rfl⟩ := List.exists_cons_of_ne_nil hne
  obtain ⟨hc, hcs⟩ := allDigits_cons.mp hds
  have hskip := skipDigits_append hcs hrest.not_digit
  have hplus : c ≠ '+' := by
    rintro rfl
    simp [Char.isDigit] at hc
  have hminus : c ≠ '-' := by
    rintro rfl
    simp [Char.isDigit] at hc
  simp only [List.mem_cons, List.not_mem_nil, or_false] at hsign
  obtain rfl | rfl | rfl := hsign <;>
    simp [skipExponent, digit_of_isDigit hc, hskip, hplus, hminus]

theorem IsExponent.skipOptionalExponent_eq {exponent : List Char}
    (hexponent : IsExponent exponent) (hrest : EndsNumber rest) :
    skipOptionalExponent (exponent ++ rest) = .ok rest := by
  cases hexponent with
  | none =>
    cases rest with
    | nil => rfl
    | cons c rest => simp [skipOptionalExponent, (hrest c rfl).2.2]
  | digits hmark hsign hds hne =>
    rw [List.cons_append, skipOptionalExponent, if_pos hmark]
    exact skipExponent_digits hsign hds hne hrest

theorem IsExponent.not_point {exponent : List Char} (hexponent : IsExponent exponent)
    (hrest : EndsNumber rest) : ∀ text, exponent ++ rest ≠ '.' :: text := by
  rintro text heq
  cases hexponent with
  | none =>
    rw [List.nil_append] at heq
    subst heq
    exact (hrest '.' rfl).2.1 rfl
  | digits hmark _ _ _ =>
    simp only [List.cons_append, List.cons.injEq] at heq
    rw [heq.1] at hmark
    simp [isExponentMark] at hmark

theorem skipNumber_point {whole text : List Char} (hwhole : IsWhole whole)
    (htext : startsWithDigit text = true) :
    skipNumber (whole ++ '.' :: text) = skipOptionalExponent (skipDigits text) := by
  obtain ⟨hdigits, rfl | ⟨c, cs, rfl, hc⟩⟩ := hwhole
  · simp only [List.cons_append, List.nil_append, skipNumber, htext, if_true]
    rfl
  · obtain ⟨hcdigit, hcs⟩ := allDigits_cons.mp hdigits
    have hskip : skipDigits (cs ++ '.' :: text) = '.' :: text := skipDigits_append hcs rfl
    rw [List.cons_append, skipNumber]
    · simp [digit_of_isDigit hcdigit, hskip, htext]
    · exact hc

theorem skipNumber_whole {whole text : List Char} (hwhole : IsWhole whole)
    (hdigit : startsWithDigit text = false) (hpoint : ∀ more, text ≠ '.' :: more) :
    skipNumber (whole ++ text) = skipOptionalExponent text := by
  obtain ⟨hdigits, rfl | ⟨c, cs, rfl, hc⟩⟩ := hwhole
  · simp only [List.cons_append, List.nil_append, skipNumber, hdigit, Bool.false_eq_true, if_false]
  · obtain ⟨hcdigit, hcs⟩ := allDigits_cons.mp hdigits
    rw [List.cons_append, skipNumber]
    · simp only [digit_of_isDigit hcdigit, skipDigits_append hcs hdigit, Option.isSome_some,
        if_true]
    · exact hc

theorem IsNumeral.skipNumber_eq {text : List Char} (htext : IsNumeral text)
    (hrest : EndsNumber rest) : skipNumber (text ++ rest) = .ok rest := by
  obtain ⟨hwhole, hfraction, hexponent⟩ := htext
  have hskip := hexponent.skipOptionalExponent_eq hrest
  cases hfraction with
  | none =>
    rw [List.nil_append, List.append_assoc, skipNumber_whole hwhole (hexponent.not_digit hrest)
      (hexponent.not_point hrest), hskip]
  | digits hds hne =>
    rw [List.append_assoc, List.cons_append, List.cons_append, List.append_assoc,
      skipNumber_point hwhole (startsWithDigit_of_allDigits hds hne _),
      skipDigits_append hds (hexponent.not_digit hrest), hskip]


/-! ## Values -/

inductive Padded (text : List Char) : List Char → Prop where
  | intro {left right : List Char} (hleft : Blanks left) (hright : Blanks right) :
      Padded text (left ++ (text ++ right))

inductive IsField (name value : List Char) : List Char → Prop where
  | intro {ahead behind text : List Char} (hahead : Blanks ahead) (hbehind : Blanks behind)
      (htext : Padded value text) :
      IsField name value (ahead ++ '"' :: (name ++ '"' :: (behind ++ ':' :: text)))

inductive Nonterminal where
  | value
  /-- The items of a list, of which there is one at least, and the closing bracket. -/
  | items
  /-- The fields of an object, of which there is one at least, and the closing brace. -/
  | fields

/-- The texts of a nonterminal. No comma stands in front of a closing bracket or brace. -/
inductive Derives : Nonterminal → List Char → Prop where
  | null : Derives .value ['n', 'u', 'l', 'l']
  | isTrue : Derives .value ['t', 'r', 'u', 'e']
  | isFalse : Derives .value ['f', 'a', 'l', 's', 'e']
  | number {text : List Char} (htext : IsNumeral text) : Derives .value text
  | negative {text : List Char} (htext : IsNumeral text) : Derives .value ('-' :: text)
  | string {body : List Char} (hbody : IsQuoted body) : Derives .value ('"' :: (body ++ ['"']))
  | emptyList {blanks : List Char} (hblanks : Blanks blanks) :
      Derives .value ('[' :: (blanks ++ [']']))
  | list {items : List Char} (hitems : Derives .items items) : Derives .value ('[' :: items)
  | emptyObject {blanks : List Char} (hblanks : Blanks blanks) :
      Derives .value ('\x7b' :: (blanks ++ ['\x7d']))
  | object {fields : List Char} (hfields : Derives .fields fields) :
      Derives .value ('\x7b' :: fields)
  | lastItem {value text : List Char} (hvalue : Derives .value value) (htext : Padded value text) :
      Derives .items (text ++ [']'])
  | item {value text items : List Char} (hvalue : Derives .value value)
      (htext : Padded value text) (hitems : Derives .items items) :
      Derives .items (text ++ ',' :: items)
  | lastField {name value text : List Char} (hname : IsQuoted name)
      (hvalue : Derives .value value) (htext : IsField name value text) :
      Derives .fields (text ++ ['\x7d'])
  | field {name value text fields : List Char} (hname : IsQuoted name)
      (hvalue : Derives .value value) (htext : IsField name value text)
      (hfields : Derives .fields fields) : Derives .fields (text ++ ',' :: fields)

abbrev IsValue : List Char → Prop := Derives .value

theorem IsNumeral.startsWithDigit {text : List Char} (htext : IsNumeral text) (rest : List Char) :
    startsWithDigit (text ++ rest) = true := by
  obtain ⟨hwhole, _, _⟩ := htext
  rw [List.append_assoc]
  exact startsWithDigit_of_allDigits hwhole.1 hwhole.ne_nil _

/-- No value begins with a blank or with the bracket that closes a list. -/
theorem Derives.head {text : List Char} (htext : IsValue text) :
    ∃ c cs, text = c :: cs ∧ isSpace c = false ∧ c ≠ ']' := by
  cases htext with
  | number htext =>
    have hstarts := htext.startsWithDigit []
    rw [List.append_nil] at hstarts
    obtain ⟨c, cs, rfl, hc⟩ := startsWithDigit_cons hstarts
    refine ⟨c, cs, rfl, isSpace_of_digit hc, ?_⟩
    rintro rfl
    simp [digit?] at hc
  | null | isTrue | isFalse | negative _ | string _ | emptyList _ | list _ | emptyObject _
  | object _ =>
    exact ⟨_, _, rfl, by decide, by decide⟩

theorem Padded.head {value text : List Char} (htext : Padded value text)
    (hvalue : IsValue value) :
    ∃ blanks c cs, text = blanks ++ c :: cs ∧ Blanks blanks ∧
      isSpace c = false ∧ c ≠ ']' := by
  obtain ⟨c, cs, rfl, hspace, hclose⟩ := hvalue.head
  obtain ⟨hleft, _⟩ := htext
  exact ⟨_, c, _, rfl, hleft, hspace, hclose⟩

theorem Derives.items_head {items : List Char} (hitems : Derives .items items) :
    ∃ blanks c cs, items = blanks ++ c :: cs ∧ cs ≠ [] ∧
      Blanks blanks ∧ isSpace c = false ∧
      c ≠ ']' := by
  cases hitems with
  | lastItem hvalue htext =>
    obtain ⟨blanks, c, cs, rfl, hblanks, hspace, hclose⟩ := htext.head hvalue
    exact ⟨blanks, c, cs ++ [']'], by simp, by simp, hblanks, hspace, hclose⟩
  | @item _ _ items hvalue htext _ =>
    obtain ⟨blanks, c, cs, rfl, hblanks, hspace, hclose⟩ := htext.head hvalue
    exact ⟨blanks, c, cs ++ ',' :: items, by simp, by simp, hblanks, hspace, hclose⟩

theorem Derives.fields_head {text : List Char} (htext : Derives .fields text) :
    ∃ blanks cs, text = blanks ++ '"' :: cs ∧ Blanks blanks := by
  cases htext with
  | lastField _ _ htext =>
    obtain ⟨hahead, _, _⟩ := htext
    exact ⟨_, _, by rw [List.append_assoc, List.cons_append], hahead⟩
  | field _ _ htext _ =>
    obtain ⟨hahead, _, _⟩ := htext
    exact ⟨_, _, by rw [List.append_assoc, List.cons_append], hahead⟩

/-! ## What is written -/

theorem padded_self (text : List Char) : Padded text text := by
  have hpadded : Padded text _ := .intro blanks_nil blanks_nil
  simpa using hpadded

theorem Denotes.isQuoted {body cs : List Char} (hbody : Denotes body cs) : IsQuoted body := by
  induction hbody with
  | nil => exact .nil
  | char hquote hbackslash hcontrol _ ih => exact .char hquote hbackslash hcontrol ih
  | letter hletter _ ih => exact .letter (by rw [hletter]; rfl) ih
  | word hword _ _ _ ih => exact .word (by rw [hword]; rfl) ih
  | pair hword _ hword' _ _ ih =>
    exact .word (by rw [hword]; rfl) (.word (by rw [hword']; rfl) ih)

theorem isQuoted_flatMap (cs : List Char) : IsQuoted (cs.flatMap escapeChar) :=
  (denotes_flatMap cs).isQuoted

theorem isField_compact (key : String) (value : List Char) :
    IsField (key.toList.flatMap escapeChar) value (stringText key ++ ':' :: value) := by
  have hfield : IsField (key.toList.flatMap escapeChar) value _ :=
    .intro blanks_nil blanks_nil (padded_self value)
  simpa [stringText] using hfield

theorem isExponent_exponentText (e : Int) : IsExponent (exponentText e) := by
  have hexponent : IsExponent ('e' :: ([if e < 0 then '-' else '+'] ++ Nat.toDigits 10 e.natAbs)) :=
    .digits rfl (by split <;> simp) (allDigits_toDigits _) Nat.toDigits_ne_nil
  exact hexponent

theorem Numeral.isNumeral {a : Numeral} (ha : a.Readable) : IsNumeral a.text := by
  refine .intro ha.whole ?_ ?_
  · split
    · exact .none
    · next hne => exact .digits ha.fraction hne
  · cases a.exponent with
    | none => exact .none
    | some e => exact isExponent_exponentText e

theorem isNumeral_toDigits (n : Nat) : IsNumeral (Nat.toDigits 10 n) := by
  have hnumeral := IsNumeral.intro (isWhole_toDigits n) .none .none
  simpa using hnumeral

theorem isValue_signed (negative : Bool) {text : List Char} (htext : IsNumeral text) :
    IsValue ((if negative then ['-'] else []) ++ text) := by
  cases negative with
  | true => exact .negative htext
  | false => exact .number htext

theorem isValue_number {n : Number} (hvalid : Valid (.number n)) : IsValue n.text := by
  cases n with
  | int n =>
    have hvalue := isValue_signed (decide (n < 0)) (isNumeral_toDigits n.natAbs)
    rw [Number.text, integerText_eq]
    simpa using hvalue
  | double d =>
    have hvalid : d.Valid := by simpa [Valid] using hvalid
    rw [Number.text, decimalText_eq, Numeric.sign]
    exact isValue_signed d.negative (Numeral.isNumeral (readable_doubleNumeral hvalid))

mutual

/-- What the service writes for a value is a value by the grammar. -/
theorem isValue_text (v : Json) (hvalid : v.Valid) : IsValue v.text := by
  match v with
  | .null => exact .null
  | .bool true => exact .isTrue
  | .bool false => exact .isFalse
  | .number n => exact isValue_number hvalid
  | .string s => exact .string (isQuoted_flatMap s.toList)
  | .array [] => exact .emptyList blanks_nil
  | .array (v :: items) =>
    obtain ⟨hv, hitems⟩ := by simpa [Valid, ValidItems] using hvalid
    exact .list (derives_itemsText items (isValue_text v hv) hitems)
  | .object [] => exact .emptyObject blanks_nil
  | .object ((k, v) :: fields) =>
    obtain ⟨_, hv, hfields⟩ := by simpa [Valid, ValidFields] using hvalid
    exact .object (derives_fieldsText fields k (isValue_text v hv) hfields)

theorem derives_itemsText (items : List Json) {text : List Char} (htext : IsValue text)
    (hvalid : ValidItems items) : Derives .items (text ++ itemsText items) := by
  match items with
  | [] => exact .lastItem htext (padded_self _)
  | v :: items =>
    exact .item htext (padded_self _)
      (derives_itemsText items (isValue_text v hvalid.1) hvalid.2)

theorem derives_fieldsText (fields : List (String × Json)) (key : String) {text : List Char}
    (htext : IsValue text) (hvalid : ValidFields fields) :
    Derives .fields (stringText key ++ ':' :: text ++ fieldsText fields) := by
  match fields with
  | [] => exact .lastField (isQuoted_flatMap _) htext (isField_compact key _)
  | (k, v) :: fields =>
    exact .field (isQuoted_flatMap _) htext (isField_compact key _)
      (derives_fieldsText fields k (isValue_text v hvalid.1) hvalid.2)

end

/-! ## Passing over values -/

theorem skipValue_blanks {blanks : List Char} (hblanks : Blanks blanks) (steps : Nat)
    (text : List Char) : skipValue (steps + 1) (blanks ++ text) = skipValue (steps + 1) text := by
  rw [skipValue, skipValue, skipSpaces_blanks hblanks]

theorem skipItems_blanks {blanks : List Char} (hblanks : Blanks blanks) (steps : Nat)
    (text : List Char) : skipItems (steps + 2) (blanks ++ text) = skipItems (steps + 2) text := by
  rw [skipItems, skipItems, skipValue_blanks hblanks]

theorem skipFields_blanks {blanks : List Char} (hblanks : Blanks blanks) (steps : Nat)
    (text : List Char) : skipFields (steps + 1) (blanks ++ text) = skipFields (steps + 1) text := by
  rw [skipFields, skipFields, skipSpaces_blanks hblanks]

theorem passColon_blanks {blanks : List Char} (hblanks : Blanks blanks) (text : List Char) :
    passColon (blanks ++ ':' :: text) = .ok text := by
  rw [passColon, skipSpaces_blanks_cons hblanks (by decide)]
  rfl

theorem skipValue_digit (steps : Nat) {text : List Char} (htext : startsWithDigit text = true) :
    skipValue (steps + 1) text = skipNumber text := by
  obtain ⟨c, cs, rfl, hc⟩ := startsWithDigit_cons htext
  rw [skipValue, skipSpaces_cons (isSpace_of_digit hc)]
  split
  all_goals
    first
    | (rename_i heq; injection heq with heq _; subst heq; simp [digit?] at hc; done)
    | skip
  · rename_i heq
    cases heq
  · rename_i heq
    cases heq
    rw [if_pos hc]

theorem skipValue_list {blanks : List Char} (hblanks : Blanks blanks) (steps : Nat) {c : Char}
    (hspace : isSpace c = false) (hclose : c ≠ ']') (text : List Char) :
    skipValue (steps + 1) ('[' :: (blanks ++ c :: text)) = skipItems steps (c :: text) := by
  rw [skipValue, skipSpaces_cons (by decide)]
  simp only [skipSpaces_blanks_cons hblanks hspace]
  split
  · next heq => cases heq
  · next heq => exact absurd (List.cons.inj heq).1 hclose
  · rfl

theorem skipValue_object {blanks : List Char} (hblanks : Blanks blanks) (steps : Nat)
    (text : List Char) :
    skipValue (steps + 1) ('\x7b' :: (blanks ++ '"' :: text)) =
      skipFields steps ('"' :: text) := by
  rw [skipValue, skipSpaces_cons (by decide)]
  simp only [skipSpaces_blanks_cons hblanks (show isSpace '"' = false by decide)]
  rfl

section

variable {steps : Nat} {value text : List Char}

theorem Padded.skipValue_eq (htext : Padded value text)
    (hskip : ∀ rest, EndsNumber rest → skipValue (steps + 1) (value ++ rest) = .ok rest)
    (hrest : EndsNumber rest) :
    ∃ blanks, Blanks blanks ∧ skipValue (steps + 1) (text ++ rest) = .ok (blanks ++ rest) := by
  obtain ⟨hleft, hright⟩ := htext
  refine ⟨_, hright, ?_⟩
  rw [List.append_assoc, List.append_assoc, skipValue_blanks hleft,
    hskip _ (endsNumber_blanks hright hrest)]

theorem Padded.skipValue_mark (htext : Padded value text)
    (hskip : ∀ rest, EndsNumber rest → skipValue (steps + 1) (value ++ rest) = .ok rest)
    (c : Char) (hc : c ∈ [',', ']', '\x7d']) (rest : List Char) :
    ∃ behind, skipValue (steps + 1) (text ++ c :: rest) = .ok behind ∧
      skipSpaces behind = c :: rest := by
  obtain ⟨blanks, hblanks, hvalue⟩ := htext.skipValue_eq hskip (endsNumber_mark hc rest)
  refine ⟨_, hvalue, skipSpaces_blanks_cons hblanks ?_ rest⟩
  simp only [List.mem_cons, List.not_mem_nil, or_false] at hc
  obtain rfl | rfl | rfl := hc <;> rfl

theorem skipItems_last (htext : Padded value text)
    (hskip : ∀ rest, EndsNumber rest → skipValue (steps + 1) (value ++ rest) = .ok rest)
    (rest : List Char) : skipItems (steps + 2) (text ++ ']' :: rest) = .ok rest := by
  obtain ⟨behind, hvalue, hbehind⟩ := htext.skipValue_mark hskip ']' (by decide) rest
  rw [skipItems, hvalue]
  simp only [bind, Except.bind, hbehind]

theorem skipItems_next (htext : Padded value text)
    (hskip : ∀ rest, EndsNumber rest → skipValue (steps + 1) (value ++ rest) = .ok rest)
    (rest : List Char) :
    skipItems (steps + 2) (text ++ ',' :: rest) = skipItems (steps + 1) rest := by
  obtain ⟨behind, hvalue, hbehind⟩ := htext.skipValue_mark hskip ',' (by decide) rest
  rw [skipItems, hvalue]
  simp only [bind, Except.bind, hbehind]

variable {name : List Char}

theorem skipFields_last (htext : IsField name value text) (hname : IsQuoted name)
    (hskip : ∀ rest, EndsNumber rest → skipValue (steps + 1) (value ++ rest) = .ok rest)
    (rest : List Char) : skipFields (steps + 2) (text ++ '\x7d' :: rest) = .ok rest := by
  obtain ⟨hahead, hcolon, htext⟩ := htext
  obtain ⟨behind, hvalue, hbehind⟩ := htext.skipValue_mark hskip '\x7d' (by decide) rest
  simp only [List.append_assoc, List.cons_append]
  rw [skipFields, skipSpaces_blanks_cons hahead (by decide)]
  simp only [hname.skipString_eq, passColon_blanks hcolon, hvalue, bind, Except.bind, hbehind]

theorem skipFields_next (htext : IsField name value text) (hname : IsQuoted name)
    (hskip : ∀ rest, EndsNumber rest → skipValue (steps + 1) (value ++ rest) = .ok rest)
    (rest : List Char) :
    skipFields (steps + 2) (text ++ ',' :: rest) = skipFields (steps + 1) rest := by
  obtain ⟨hahead, hcolon, htext⟩ := htext
  obtain ⟨behind, hvalue, hbehind⟩ := htext.skipValue_mark hskip ',' (by decide) rest
  simp only [List.append_assoc, List.cons_append]
  rw [skipFields, skipSpaces_blanks_cons hahead (by decide)]
  simp only [hname.skipString_eq, passColon_blanks hcolon, hvalue, bind, Except.bind, hbehind]

end

def Nonterminal.skip : Nonterminal → Nat → List Char → Except Failure (List Char)
  | .value => skipValue
  | .items => skipItems
  | .fields => skipFields

theorem Derives.length_pos {text : List Char} (htext : IsValue text) : 0 < text.length := by
  obtain ⟨c, cs, rfl, _, _⟩ := htext.head
  simp

theorem Padded.length_le {value text : List Char} (htext : Padded value text) :
    value.length ≤ text.length := by
  obtain ⟨_, _⟩ := htext
  simp only [List.length_append]
  omega

theorem IsField.length_le {name value text : List Char} (htext : IsField name value text) :
    value.length ≤ text.length := by
  obtain ⟨_, _, htext⟩ := htext
  have hlength := htext.length_le
  simp only [List.length_append, List.length_cons]
  omega

/-- A text of the grammar is passed over to its end, with one step for each of its characters. -/
theorem Derives.skip_eq {n : Nonterminal} {text : List Char} (htext : Derives n text)
    {steps : Nat} (hsteps : text.length ≤ steps + 1) (hrest : n = .value → EndsNumber rest) :
    n.skip (steps + 1) (text ++ rest) = .ok rest := by
  induction htext generalizing steps rest with
  | null | isTrue | isFalse =>
    rw [Nonterminal.skip, List.cons_append, skipValue, skipSpaces_cons (by decide)]
    rfl
  | number hnumber =>
    rw [Nonterminal.skip, skipValue_digit steps (hnumber.startsWithDigit rest),
      hnumber.skipNumber_eq (hrest rfl)]
  | negative hnumber =>
    rw [Nonterminal.skip, List.cons_append, skipValue, skipSpaces_cons (by decide)]
    exact hnumber.skipNumber_eq (hrest rfl)
  | string hbody =>
    rw [Nonterminal.skip, List.cons_append, List.append_assoc, skipValue,
      skipSpaces_cons (by decide)]
    exact hbody.skipString_eq rest
  | emptyList hblanks =>
    rw [Nonterminal.skip, List.cons_append, List.append_assoc, skipValue,
      skipSpaces_cons (by decide)]
    simp only [List.singleton_append,
      skipSpaces_blanks_cons hblanks (show isSpace ']' = false by decide)]
  | emptyObject hblanks =>
    rw [Nonterminal.skip, List.cons_append, List.append_assoc, skipValue,
      skipSpaces_cons (by decide)]
    simp only [List.singleton_append,
      skipSpaces_blanks_cons hblanks (show isSpace '\x7d' = false by decide)]
  -- The blanks behind a bracket have been passed when an item or a key is looked for.
  | list hitems ih =>
    obtain ⟨blanks, c, cs, rfl, hne, hblanks, hspace, hclose⟩ := hitems.items_head
    have hlength := List.length_pos_iff.mpr hne
    simp only [List.length_append, List.length_cons] at hsteps ih
    obtain ⟨steps, rfl⟩ := Nat.exists_eq_add_of_le' (show 2 ≤ steps by omega)
    have hskip : skipItems (steps + 2) (blanks ++ c :: cs ++ rest) = .ok rest :=
      ih (by omega) (by rintro ⟨⟩)
    rw [List.append_assoc, skipItems_blanks hblanks] at hskip
    rw [Nonterminal.skip, List.cons_append, List.append_assoc, List.cons_append,
      skipValue_list hblanks _ hspace hclose]
    exact hskip
  | object hfields ih =>
    obtain ⟨blanks, cs, rfl, hblanks⟩ := hfields.fields_head
    simp only [List.length_append, List.length_cons] at hsteps ih
    obtain ⟨steps, rfl⟩ := Nat.exists_eq_add_of_le' (show 1 ≤ steps by omega)
    have hskip : skipFields (steps + 1) (blanks ++ '"' :: cs ++ rest) = .ok rest :=
      ih (by omega) (by rintro ⟨⟩)
    rw [List.append_assoc, skipFields_blanks hblanks] at hskip
    rw [Nonterminal.skip, List.cons_append, List.append_assoc, List.cons_append,
      skipValue_object hblanks]
    exact hskip
  | lastItem hvalue htext ih =>
    have hpos := hvalue.length_pos
    have hle := htext.length_le
    simp only [List.length_append, List.length_cons, List.length_nil] at hsteps
    obtain ⟨steps, rfl⟩ := Nat.exists_eq_add_of_le' (show 1 ≤ steps by omega)
    rw [List.append_assoc]
    exact skipItems_last htext (fun rest hrest => ih (by omega) fun _ => hrest) rest
  | item hvalue htext hitems ih ihs =>
    have hpos := hvalue.length_pos
    have hle := htext.length_le
    simp only [List.length_append, List.length_cons] at hsteps
    obtain ⟨steps, rfl⟩ := Nat.exists_eq_add_of_le' (show 1 ≤ steps by omega)
    rw [List.append_assoc, List.cons_append, Nonterminal.skip,
      skipItems_next htext (fun rest hrest => ih (by omega) fun _ => hrest)]
    exact ihs (by omega) (by rintro ⟨⟩)
  | lastField hname hvalue htext ih =>
    have hpos := hvalue.length_pos
    have hle := htext.length_le
    simp only [List.length_append, List.length_cons, List.length_nil] at hsteps
    obtain ⟨steps, rfl⟩ := Nat.exists_eq_add_of_le' (show 1 ≤ steps by omega)
    rw [List.append_assoc]
    exact skipFields_last htext hname (fun rest hrest => ih (by omega) fun _ => hrest) rest
  | field hname hvalue htext hfields ih ihs =>
    have hpos := hvalue.length_pos
    have hle := htext.length_le
    simp only [List.length_append, List.length_cons] at hsteps
    obtain ⟨steps, rfl⟩ := Nat.exists_eq_add_of_le' (show 1 ≤ steps by omega)
    rw [List.append_assoc, List.cons_append, Nonterminal.skip,
      skipFields_next htext hname (fun rest hrest => ih (by omega) fun _ => hrest)]
    exact ihs (by omega) (by rintro ⟨⟩)

theorem Padded.skipPrefix_eq {value text : List Char} (htext : Padded value text)
    (hvalue : IsValue value) (hrest : EndsNumber rest) :
    ∃ blanks, Blanks blanks ∧ skipPrefix (text ++ rest) = .ok (blanks ++ rest) := by
  have hle := htext.length_le
  refine htext.skipValue_eq (fun rest hrest => hvalue.skip_eq ?_ fun _ => hrest) hrest
  simp only [List.length_append]
  omega

end EventHub.Json
