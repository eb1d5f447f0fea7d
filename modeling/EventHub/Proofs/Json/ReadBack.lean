import EventHub.Proofs.Json.DoubleText
import EventHub.Proofs.Json.Strings
/-!
# Reading back values

The text of a value that is not nested too deep is read as the same value but for its doubles, each
of which becomes the double that its text is read as. The induction is on the value, with the steps
that are left bounded by the length of its text.
-/

namespace EventHub.Json

open Numeric (Double sign)

variable {rest : List Char}

/-! ## Values as the service holds them -/

mutual

/-- The numbers are integers of sixty-four bits or finite doubles, and no object repeats a key. -/
def Valid : Json → Prop
  | .number (.int n) => -(2 ^ 63 : ℤ) ≤ n ∧ n < 2 ^ 64
  | .number (.double d) => d.Valid
  | .array items => ValidItems items
  | .object fields => (fields.map (·.1)).Nodup ∧ ValidFields fields
  | .null | .bool _ | .string _ => True

def ValidItems : List Json → Prop
  | [] => True
  | v :: rest => Valid v ∧ ValidItems rest

def ValidFields : List (String × Json) → Prop
  | [] => True
  | (_, v) :: rest => Valid v ∧ ValidFields rest

end

mutual

def Exact : Json → Prop
  | .number (.double _) => False
  | .array items => ExactItems items
  | .object fields => ExactFields fields
  | .null | .bool _ | .number (.int _) | .string _ => True

def ExactItems : List Json → Prop
  | [] => True
  | v :: rest => Exact v ∧ ExactItems rest

def ExactFields : List (String × Json) → Prop
  | [] => True
  | (_, v) :: rest => Exact v ∧ ExactFields rest

end

mutual

def depth : Json → Nat
  | .array items => depthItems items + 1
  | .object fields => depthFields fields + 1
  | .null | .bool _ | .number _ | .string _ => 0

def depthItems : List Json → Nat
  | [] => 0
  | v :: rest => max (depth v) (depthItems rest)

def depthFields : List (String × Json) → Nat
  | [] => 0
  | (_, v) :: rest => max (depth v) (depthFields rest)

end

def Number.reread : Number → Number
  | .int n => .int n
  | .double d => .double (rereadDouble d)

mutual

def reread : Json → Json
  | .number n => .number n.reread
  | .array items => .array (rereadItems items)
  | .object fields => .object (rereadFields fields)
  | .null => .null
  | .bool b => .bool b
  | .string s => .string s

def rereadItems : List Json → List Json
  | [] => []
  | v :: rest => reread v :: rereadItems rest

def rereadFields : List (String × Json) → List (String × Json)
  | [] => []
  | (k, v) :: rest => (k, reread v) :: rereadFields rest

end

theorem keys_rereadFields (fields : List (String × Json)) :
    (rereadFields fields).map (·.1) = fields.map (·.1) := by
  induction fields with
  | nil => rfl
  | cons f fields ih => rw [rereadFields, List.map_cons, List.map_cons, ih]

mutual

theorem reread_of_exact (v : Json) (hexact : v.Exact) : v.reread = v := by
  match v with
  | .null | .bool _ | .string _ | .number (.int _) => rfl
  | .number (.double _) => exact hexact.elim
  | .array items => rw [reread, rereadItems_of_exact items hexact]
  | .object fields => rw [reread, rereadFields_of_exact fields hexact]

theorem rereadItems_of_exact (items : List Json) (hexact : ExactItems items) :
    rereadItems items = items := by
  match items with
  | [] => rfl
  | v :: rest => rw [rereadItems, reread_of_exact v hexact.1, rereadItems_of_exact rest hexact.2]

theorem rereadFields_of_exact (fields : List (String × Json)) (hexact : ExactFields fields) :
    rereadFields fields = fields := by
  match fields with
  | [] => rfl
  | (k, v) :: rest =>
    rw [rereadFields, reread_of_exact v hexact.1, rereadFields_of_exact rest hexact.2]

end

/-! ## How texts begin -/

theorem skipSpaces_cons {c : Char} (hc : isSpace c = false) (text : List Char) :
    skipSpaces (c :: text) = c :: text := by
  simp [skipSpaces, hc]

theorem isSpace_of_digit {c : Char} (hc : (digit? c).isSome = true) : isSpace c = false := by
  by_contra hspace
  simp only [Bool.not_eq_false, isSpace, Bool.or_eq_true, decide_eq_true_eq] at hspace
  obtain ((rfl | rfl) | rfl) | rfl := hspace <;> simp [digit?] at hc

theorem startsWithDigit_cons {text : List Char} (htext : startsWithDigit text = true) :
    ∃ c cs, text = c :: cs ∧ (digit? c).isSome = true := by
  cases text with
  | nil => simp [startsWithDigit] at htext
  | cons c cs => exact ⟨c, cs, rfl, htext⟩

theorem integerText_eq (n : Int) :
    integerText n = (if n < 0 then ['-'] else []) ++ Nat.toDigits 10 n.natAbs := by
  unfold integerText
  split <;> rfl

theorem startsWithDigit_toDigits (n : Nat) : startsWithDigit (Nat.toDigits 10 n) = true := by
  have h := startsWithDigit_of_allDigits (allDigits_toDigits n) Nat.toDigits_ne_nil []
  rwa [List.append_nil] at h

theorem endsNumber_itemsText (items : List Json) (rest : List Char) :
    EndsNumber (itemsText items ++ rest) := by
  cases items with
  | nil => simp [EndsNumber, itemsText, digit?, isExponentMark]
  | cons v items => simp [EndsNumber, itemsText, digit?, isExponentMark]

theorem endsNumber_fieldsText (fields : List (String × Json)) (rest : List Char) :
    EndsNumber (fieldsText fields ++ rest) := by
  cases fields with
  | nil => simp [EndsNumber, fieldsText, digit?, isExponentMark]
  | cons f fields => simp [EndsNumber, fieldsText, digit?, isExponentMark]

theorem length_itemsText_pos (items : List Json) : 0 < (itemsText items).length := by
  cases items <;> simp [itemsText]

theorem length_fieldsText_pos (fields : List (String × Json)) :
    0 < (fieldsText fields).length := by
  cases fields <;> simp [fieldsText]

/-! ## Numbers -/

theorem scanTail_int (hrest : EndsNumber rest) (n : Nat) :
    scanTail false n rest = .ok (.int n, rest) := by
  unfold scanTail
  split
  · exact absurd rfl (hrest '.' rfl).2.1
  · rw [if_neg, if_pos (by rfl)]
    cases rest with
    | nil => simp
    | cons c rest => simp [(hrest c rfl).2.2]

theorem scanTail_negative (hrest : EndsNumber rest) {n : Nat} (hn : 0 < n)
    (hfits : n ≤ Numeric.limit 63) : scanTail true n rest = .ok (.int (-(n : Int)), rest) := by
  unfold scanTail
  split
  · exact absurd rfl (hrest '.' rfl).2.1
  · rw [if_neg, if_neg (by simp), if_pos (by simp [hn, hfits])]
    cases rest with
    | nil => simp
    | cons c rest => simp [(hrest c rfl).2.2]

theorem scanNumber_toDigits (negative : Bool) (hrest : EndsNumber rest) {n : Nat}
    (hfits : n < Numeric.limit 64) :
    scanNumber negative (Nat.toDigits 10 n ++ rest) = scanTail negative n rest := by
  have hvalue := Nat.ofDigitChars_ten_toDigits (n := n)
  rw [scanNumber_whole negative (isWhole_toDigits n) (by rwa [hvalue]) hrest.not_digit, hvalue]

theorem scanNumber_text (n : Number) (hvalid : Valid (.number n)) (hrest : EndsNumber rest) :
    ∃ (negative : Bool) (body : List Char), n.text = (if negative then ['-'] else []) ++ body ∧
      startsWithDigit body = true ∧
        scanNumber negative (body ++ rest) = .ok (n.reread, rest) := by
  cases n with
  | int n =>
    simp only [Valid] at hvalid
    refine ⟨decide (n < 0), Nat.toDigits 10 n.natAbs, by simp [Number.text, integerText_eq],
      startsWithDigit_toDigits _, ?_⟩
    have h63 : Numeric.limit 63 = 2 ^ 63 := rfl
    have h64 : Numeric.limit 64 = 2 ^ 64 := rfl
    rw [scanNumber_toDigits _ hrest (by omega), Number.reread]
    rcases lt_or_ge n 0 with hn | hn
    · rw [decide_eq_true hn, scanTail_negative hrest (by omega) (by omega)]
      congr 3
      omega
    · rw [decide_eq_false (by omega), scanTail_int hrest]
      congr 3
      omega
  | double d =>
    have hvalid : d.Valid := by simpa [Valid] using hvalid
    have hstarts := Numeral.startsWithDigit_text (readable_doubleNumeral hvalid) []
    rw [List.append_nil] at hstarts
    exact ⟨d.negative, (doubleNumeral d).text, by rw [Number.text, decimalText_eq, sign], hstarts,
      scanNumber_rereadDouble hvalid hrest⟩

/-- No value begins with a blank, or with a mark that stands between or behind items. -/
theorem text_head (v : Json) (hvalid : v.Valid) : ∃ c cs, v.text = c :: cs ∧
    isSpace c = false ∧ c ≠ ']' ∧ c ≠ ',' := by
  match v with
  | .null | .bool true | .bool false | .array [] | .array (_ :: _) | .object []
  | .object ((_, _) :: _) | .string _ => exact ⟨_, _, rfl, by decide, by decide, by decide⟩
  | .number n =>
    obtain ⟨negative, body, htext, hstarts, _⟩ :=
      scanNumber_text n hvalid (show EndsNumber [] by simp [EndsNumber])
    obtain ⟨c, cs, rfl, hc⟩ := startsWithDigit_cons hstarts
    rw [text, htext]
    cases negative with
    | true => exact ⟨'-', c :: cs, rfl, by decide, by decide, by decide⟩
    | false =>
      refine ⟨c, cs, rfl, isSpace_of_digit hc, ?_, ?_⟩ <;>
      · rintro rfl
        simp [digit?] at hc

theorem readValue_minus (steps depth : Nat) (text : List Char) :
    readValue (steps + 1) depth ('-' :: text) = (do
      let (n, rest) ← scanNumber true text
      return (.number n, rest)) := by
  rw [readValue, skipSpaces_cons (by decide)]
  rfl

theorem readValue_digit (steps depth : Nat) {text : List Char}
    (htext : startsWithDigit text = true) :
    readValue (steps + 1) depth text = (do
      let (n, rest) ← scanNumber false text
      return (.number n, rest)) := by
  obtain ⟨c, cs, rfl, hc⟩ := startsWithDigit_cons htext
  rw [readValue, skipSpaces_cons (isSpace_of_digit hc)]
  split
  all_goals
    first
    | (rename_i heq; injection heq with heq _; subst heq; simp [digit?] at hc; done)
    | skip
  · rename_i heq
    cases heq
  · rename_i heq
    cases heq
    rw [if_pos hc]

/-! ## Keys -/

theorem insertField_fresh {key : String} (value : Json) {fields : List (String × Json)}
    (hfresh : key ∉ fields.map (·.1)) :
    insertField key value fields = fields ++ [(key, value)] := by
  induction fields with
  | nil => rfl
  | cons f fields ih =>
    obtain ⟨k, v⟩ := f
    simp only [List.map_cons, List.mem_cons, not_or] at hfresh
    rw [insertField, if_neg (Ne.symm hfresh.1), ih hfresh.2, List.cons_append]

theorem ofPairs_of_nodup {pairs : List (String × Json)} (hpairs : (pairs.map (·.1)).Nodup) :
    ofPairs pairs = .object pairs := by
  have hfold : ∀ (pairs fields : List (String × Json)),
      ((fields ++ pairs).map (·.1)).Nodup →
      pairs.foldl (fun fields p => insertField p.1 p.2 fields) fields = fields ++ pairs := by
    intro pairs
    induction pairs with
    | nil =>
      intro fields _
      rw [List.foldl_nil, List.append_nil]
    | cons p pairs ih =>
      intro fields hnodup
      have hfresh : p.1 ∉ fields.map (·.1) := by
        simp only [List.map_append, List.map_cons, List.nodup_append, List.mem_cons] at hnodup
        exact fun hmem => hnodup.2.2 p.1 hmem p.1 (Or.inl rfl) rfl
      rw [List.foldl_cons, insertField_fresh p.2 hfresh, ih _ (by simpa using hnodup)]
      simp
  rw [ofPairs, hfold pairs [] (by simpa using hpairs), List.nil_append]

/-! ## One token at a time -/

theorem readValue_string (steps depth : Nat) (s : String) (rest : List Char) :
    readValue (steps + 1) depth (stringText s ++ rest) = .ok (.string s, rest) := by
  have hscan := scanString_flatMap s.toList rest
  rw [stringText, List.cons_append, List.cons_append, List.append_assoc, readValue,
    skipSpaces_cons (by decide)]
  simp [hscan, bind, Except.bind, pure, Except.pure]

theorem readValue_open (steps : Nat) {depth : Nat} (hdepth : 1 < depth) (text : List Char) :
    readValue (steps + 1) depth ('[' :: text) = (do
      let (items, rest) ← readItems steps (depth - 1) 0 text
      return (.array items, rest)) := by
  rw [readValue, skipSpaces_cons (by decide)]
  exact if_neg (by omega)

theorem readValue_openFields (steps : Nat) {depth : Nat} (hdepth : 1 < depth)
    (text : List Char) :
    readValue (steps + 1) depth ('\x7b' :: text) = (do
      let (pairs, rest) ← readFields steps (depth - 1) true text
      return (ofPairs pairs, rest)) := by
  rw [readValue, skipSpaces_cons (by decide)]
  exact if_neg (by omega)

theorem nextItem_first {c : Char} {text : List Char} (hspace : isSpace c = false)
    (hclose : c ≠ ']') : nextItem true (c :: text) = .ok (.item (c :: text)) := by
  unfold nextItem
  rw [skipSpaces_cons hspace]
  split <;> simp_all

theorem nextItem_comma {c : Char} {text : List Char} (hspace : isSpace c = false)
    (hclose : c ≠ ']') : nextItem false (',' :: c :: text) = .ok (.item (c :: text)) := by
  unfold nextItem
  rw [skipSpaces_cons (by decide)]
  simp only [Bool.false_eq_true, if_false, skipSpaces_cons hspace]
  split <;> simp_all

theorem nextItem_close (first : Bool) (text : List Char) :
    nextItem first (']' :: text) = .ok (.close (']' :: text)) := by
  unfold nextItem
  rw [skipSpaces_cons (by decide)]
  rfl

theorem nextKey_first (text : List Char) : nextKey true ('"' :: text) = .ok (.key text) := by
  unfold nextKey
  rw [skipSpaces_cons (by decide)]
  rfl

theorem nextKey_comma (text : List Char) :
    nextKey false (',' :: '"' :: text) = .ok (.key text) := by
  unfold nextKey
  rw [skipSpaces_cons (by decide)]
  simp only [Bool.false_eq_true, if_false, skipSpaces_cons (c := '"') (by decide)]

theorem nextKey_close (first : Bool) (text : List Char) :
    nextKey first ('\x7d' :: text) = .ok (.close ('\x7d' :: text)) := by
  unfold nextKey
  rw [skipSpaces_cons (by decide)]
  rfl

theorem passColon_colon (text : List Char) : passColon (':' :: text) = .ok text := by
  unfold passColon
  rw [skipSpaces_cons (by decide)]
  rfl

theorem readItems_close (steps depth index : Nat) (text : List Char) :
    readItems (steps + 1) depth index (']' :: text) = .ok ([], text) := by
  rw [readItems, nextItem_close]
  rfl

theorem readFields_close (steps depth : Nat) (first : Bool) (text : List Char) :
    readFields (steps + 1) depth first ('\x7d' :: text) = .ok ([], text) := by
  rw [readFields, nextKey_close]
  rfl

theorem readItems_item {steps depth index : Nat} (text : List Char) {behind : List Char} {v : Json}
    {items : List Json} {start : List Char}
    (hnext : nextItem (decide (index = 0)) start = .ok (.item text))
    (hvalue : readValue steps depth text = .ok (v, behind))
    (hitems : readItems steps depth (index + 1) behind = .ok (items, rest)) :
    readItems (steps + 1) depth index start = .ok (v :: items, rest) := by
  rw [readItems, hnext]
  simp only [hvalue, hitems]

theorem readFields_field {steps depth : Nat} {first : Bool} {behind : List Char} (key : String)
    (text : List Char) {v : Json} {fields : List (String × Json)} {start : List Char}
    (hnext : nextKey first start =
      .ok (.key (key.toList.flatMap escapeChar ++ '"' :: ':' :: text)))
    (hvalue : readValue steps depth text = .ok (v, behind))
    (hfields : readFields steps depth false behind = .ok (fields, rest)) :
    readFields (steps + 1) depth first start = .ok ((key, v) :: fields, rest) := by
  have hscan := scanString_flatMap key.toList (':' :: text)
  rw [readFields, hnext]
  simp only [hscan, locate, Except.mapError, passColon_colon, bind, Except.bind,
    String.ofList_toList, hvalue, hfields]

/-! ## Whole values -/

mutual

/-- One more step than characters is enough for a value, and one for each character for what stands
behind its first item or field. -/
theorem readValue_text (v : Json) (steps depth : Nat) (rest : List Char) (hvalid : v.Valid)
    (hsteps : v.text.length < steps) (hdepth : v.depth < depth) (hrest : EndsNumber rest) :
    readValue steps depth (v.text ++ rest) = .ok (v.reread, rest) := by
  obtain ⟨steps, rfl⟩ := Nat.exists_eq_add_of_lt (Nat.zero_lt_of_lt hsteps)
  rw [Nat.zero_add] at hsteps ⊢
  match v with
  | .null | .bool true | .bool false =>
    rw [readValue, text]
    rfl
  | .number n =>
    obtain ⟨negative, body, htext, hstarts, hread⟩ := scanNumber_text n hvalid hrest
    rw [text, htext]
    cases negative with
    | true =>
      rw [if_pos rfl, List.singleton_append, List.cons_append, readValue_minus, hread]
      rfl
    | false =>
      rw [if_neg (by simp), List.nil_append, readValue_digit, hread]
      · rfl
      · obtain ⟨c, cs, rfl, hc⟩ := startsWithDigit_cons hstarts
        exact hc
  | .string s =>
    rw [text]
    exact readValue_string steps depth s rest
  | .array [] =>
    simp only [text, List.length_cons, List.length_nil] at hsteps
    simp only [Json.depth, depthItems] at hdepth
    obtain ⟨steps, rfl⟩ := Nat.exists_eq_add_of_lt (show 0 < steps by omega)
    rw [text, List.cons_append, List.cons_append, readValue_open _ (by omega), Nat.zero_add,
      readItems_close]
    rfl
  | .array (v :: items) =>
    obtain ⟨hv, hitems⟩ := by simpa [Valid, ValidItems] using hvalid
    have hpos := length_itemsText_pos items
    simp only [text, List.length_append, List.length_cons] at hsteps
    simp only [Json.depth, depthItems] at hdepth
    obtain ⟨steps, rfl⟩ := Nat.exists_eq_add_of_lt (show 0 < steps by omega)
    have hread := readValue_text v steps (depth - 1) _ hv (by omega) (by omega)
      (endsNumber_itemsText items rest)
    have hreads := readItems_itemsText items steps (depth - 1) rest 0 hitems (by omega) (by omega)
    obtain ⟨c, cs, htext, hspace, hclose, _⟩ := text_head v hv
    rw [text, List.cons_append, List.cons_append, List.append_assoc,
      readValue_open _ (by omega), Nat.zero_add]
    rw [readItems_item (v.text ++ (itemsText items ++ rest)) ?_ hread hreads]
    · rfl
    · rw [htext, List.cons_append]
      exact nextItem_first hspace hclose
  | .object [] =>
    simp only [text, List.length_cons, List.length_nil] at hsteps
    simp only [Json.depth, depthFields] at hdepth
    obtain ⟨steps, rfl⟩ := Nat.exists_eq_add_of_lt (show 0 < steps by omega)
    rw [text, List.cons_append, List.cons_append, readValue_openFields _ (by omega),
      Nat.zero_add, readFields_close]
    rfl
  | .object ((k, v) :: fields) =>
    obtain ⟨hkeys, hv, hfields⟩ := by simpa [Valid, ValidFields] using hvalid
    have hpos := length_fieldsText_pos fields
    simp only [text, List.length_append, List.length_cons] at hsteps
    simp only [Json.depth, depthFields] at hdepth
    obtain ⟨steps, rfl⟩ := Nat.exists_eq_add_of_lt (show 0 < steps by omega)
    have hread := readValue_text v steps (depth - 1) _ hv (by omega) (by omega)
      (endsNumber_fieldsText fields rest)
    have hreads := readFields_fieldsText fields steps (depth - 1) rest hfields (by omega) (by omega)
    have hobject : ofPairs ((k, v.reread) :: rereadFields fields) =
        .object ((k, v.reread) :: rereadFields fields) :=
      ofPairs_of_nodup (by simpa [keys_rereadFields] using hkeys)
    rw [text, List.cons_append, List.cons_append, List.cons_append,
      readValue_openFields _ (by omega), Nat.zero_add]
    rw [readFields_field k (v.text ++ (fieldsText fields ++ rest)) ?_ hread hreads]
    · rw [reread, rereadFields, ← hobject]
      rfl
    · simp only [stringText, List.append_assoc, List.cons_append, List.nil_append]
      exact nextKey_first _

theorem readItems_itemsText (items : List Json) (steps depth : Nat) (rest : List Char)
    (index : Nat) (hvalid : ValidItems items) (hsteps : (itemsText items).length ≤ steps)
    (hdepth : depthItems items < depth) :
    readItems steps depth (index + 1) (itemsText items ++ rest) =
      .ok (rereadItems items, rest) := by
  have hpos := length_itemsText_pos items
  obtain ⟨steps, rfl⟩ := Nat.exists_eq_add_of_lt (show 0 < steps by omega)
  rw [Nat.zero_add] at hsteps ⊢
  match items with
  | [] =>
    rw [itemsText, List.singleton_append, readItems_close]
    rfl
  | v :: items =>
    have hpos := length_itemsText_pos items
    simp only [itemsText, List.length_append, List.length_cons] at hsteps
    simp only [depthItems] at hdepth
    have hread := readValue_text v steps depth _ hvalid.1 (by omega) (by omega)
      (endsNumber_itemsText items rest)
    have hreads := readItems_itemsText items steps depth rest (index + 1) hvalid.2 (by omega)
      (by omega)
    obtain ⟨c, cs, htext, hspace, hclose, _⟩ := text_head v hvalid.1
    rw [itemsText, List.cons_append, List.cons_append, List.append_assoc]
    refine readItems_item (v.text ++ (itemsText items ++ rest)) ?_ hread hreads
    rw [htext, List.cons_append]
    exact nextItem_comma hspace hclose

theorem readFields_fieldsText (fields : List (String × Json)) (steps depth : Nat)
    (rest : List Char) (hvalid : ValidFields fields) (hsteps : (fieldsText fields).length ≤ steps)
    (hdepth : depthFields fields < depth) :
    readFields steps depth false (fieldsText fields ++ rest) =
      .ok (rereadFields fields, rest) := by
  have hpos := length_fieldsText_pos fields
  obtain ⟨steps, rfl⟩ := Nat.exists_eq_add_of_lt (show 0 < steps by omega)
  rw [Nat.zero_add] at hsteps ⊢
  match fields with
  | [] =>
    rw [fieldsText, List.singleton_append, readFields_close]
    rfl
  | (k, v) :: fields =>
    have hpos := length_fieldsText_pos fields
    simp only [fieldsText, List.length_append, List.length_cons] at hsteps
    simp only [depthFields] at hdepth
    have hread := readValue_text v steps depth _ hvalid.1 (by omega) (by omega)
      (endsNumber_fieldsText fields rest)
    have hreads := readFields_fieldsText fields steps depth rest hvalid.2 (by omega) (by omega)
    refine readFields_field k (v.text ++ (fieldsText fields ++ rest)) ?_ hread hreads
    simp only [fieldsText, stringText, List.append_assoc, List.cons_append, List.nil_append]
    exact nextKey_comma _

end

/-- The text of a value that is nested less deep than the reader goes is read to its end. -/
theorem read_text {v : Json} (hvalid : v.Valid) (hdepth : v.depth < maxDepth) :
    read v.text = .ok v.reread := by
  have hread := readValue_text v (2 * v.text.length + 2) maxDepth [] hvalid
    (by omega) hdepth (by simp [EndsNumber])
  rw [List.append_nil] at hread
  rw [read, readPrefix, readWithin, hread]
  rfl

end EventHub.Json
