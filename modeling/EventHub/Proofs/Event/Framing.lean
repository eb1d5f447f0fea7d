import EventHub.Event.Frame
import EventHub.Event.Reader
import EventHub.Proofs.Json.SingleLine
import EventHub.Proofs.Text.Split
/-!
# One frame, one event

A frame is meant to be an id line, a line with the name, the lines of the data and a blank line,
and a client is meant to read one event from it. The payload never stands in the way. The name and
the id do as soon as they hold a character that ends a line, and only then.
-/

namespace EventHub.Event

/-! ## Lines -/

/-- The text has no character that ends a line. -/
def NoBreak (text : List Char) : Prop := '\n' ∉ text ∧ '\r' ∉ text

theorem noBreak_nil : NoBreak [] := by
  constructor <;> simp

theorem noBreak_cons {c : Char} {text : List Char} :
    NoBreak (c :: text) ↔ c ≠ '\n' ∧ c ≠ '\r' ∧ NoBreak text := by
  simp only [NoBreak, List.mem_cons, not_or]
  grind

theorem noBreak_append {left right : List Char} :
    NoBreak (left ++ right) ↔ NoBreak left ∧ NoBreak right := by
  simp only [NoBreak, List.mem_append, not_or]
  grind

theorem noBreak_text (v : Json) : NoBreak v.text :=
  Json.no_break_of_plain (Json.plain_text v)

theorem streamLines_cons {c : Char} (hnewline : c ≠ '\n') (hreturn : c ≠ '\r')
    (rest : List Char) :
    streamLines (c :: rest) =
      match streamLines rest with
      | [] => []
      | line :: more => (c :: line) :: more := by
  conv =>
    lhs
    unfold streamLines
  split
  case h_5 hcons =>
    cases hcons
    rfl
  all_goals simp_all

theorem streamLines_append_newline {line : List Char} (hline : NoBreak line)
    (rest : List Char) :
    streamLines (line ++ '\n' :: rest) = line :: streamLines rest := by
  induction line with
  | nil => rw [List.nil_append, streamLines]
  | cons c line ih =>
    obtain ⟨hnewline, hreturn, hline⟩ := noBreak_cons.mp hline
    rw [List.cons_append, streamLines_cons hnewline hreturn, ih hline]

theorem noBreak_of_mem_streamLines (text : List Char) :
    ∀ line ∈ streamLines text, NoBreak line := by
  fun_induction streamLines text with
  | case1 => simp
  | case2 rest ih | case3 rest ih | case4 rest _ ih =>
    intro line hline
    rcases List.mem_cons.mp hline with rfl | hline
    · exact noBreak_nil
    · exact ih line hline
  | case5 => simp
  | case6 c rest hnewline _ hreturn first more hrest ih =>
    intro line hline
    rcases List.mem_cons.mp hline with rfl | hline
    · refine noBreak_cons.mpr ⟨hnewline, hreturn, ih first ?_⟩
      rw [hrest]
      exact List.mem_cons_self
    · apply ih
      rw [hrest]
      exact List.mem_cons_of_mem _ hline

theorem lines_of_noBreak {text : List Char} (htext : NoBreak text) (hne : text ≠ []) :
    Text.lines text = [text] := by
  induction text with
  | nil => exact absurd rfl hne
  | cons c rest ih =>
    obtain ⟨hnewline, hreturn, hrest⟩ := noBreak_cons.mp htext
    rw [Text.lines]
    · cases rest with
      | nil => rw [Text.lines]
      | cons d rest => rw [ih hrest (by simp)]
    · exact hnewline
    · exact fun _ hc => absurd hc hreturn

/-! ## The lines of a frame -/

def field (name : String) (value : List Char) : List Char := name.toList ++ ':' :: ' ' :: value

theorem fieldLine_eq (name : String) (value : List Char) :
    fieldLine name value = field name value ++ ['\n'] := by
  simp [fieldLine, field]

theorem noBreak_field {name : String} (hname : NoBreak name.toList) {value : List Char} :
    NoBreak (field name value) ↔ NoBreak value := by
  simp [field, noBreak_append, noBreak_cons, hname]

def shownId (e : Event) : Option String := e.id.filter fun id => !id.isEmpty

def frameLines (e : Event) : List (List Char) :=
  (e.shownId.map fun id => field "id" id.toList).toList ++
    field "event" e.name.toList ::
      (Text.lines e.payload.withoutNulls.text).map (field "data") ++ [[]]

theorem lines_text (v : Json) : Text.lines v.text = [v.text] :=
  lines_of_noBreak (noBreak_text v) (Json.text_ne_nil v)

theorem frameChars_eq (e : Event) :
    e.frameChars =
      ((e.shownId.map fun id => field "id" id.toList ++ ['\n']).getD []) ++
        (field "event" e.name.toList ++ '\n' ::
          (field "data" e.payload.withoutNulls.text ++ '\n' :: ['\n'])) := by
  have hid : idLine e.id =
      (e.shownId.map fun id => field "id" id.toList ++ ['\n']).getD [] := by
    unfold idLine shownId
    rcases e.id with _ | id
    · rfl
    · cases hempty : id.isEmpty <;> simp [Option.filter, hempty, fieldLine_eq]
  simp [frameChars, dataLines, lines_text, fieldLine_eq, hid]

/-- Whatever the payload is, the data are one line, and the frame ends with a blank line. -/
theorem frameLines_eq (e : Event) :
    e.frameLines =
      (e.shownId.map fun id => field "id" id.toList).toList ++
        [field "event" e.name.toList, field "data" e.payload.withoutNulls.text, []] := by
  simp [frameLines, lines_text]

theorem noBreak_shownId (e : Event) :
    (∀ id ∈ e.shownId, NoBreak id.toList) ↔ ∀ id ∈ e.id, NoBreak id.toList := by
  unfold shownId
  rcases e.id with _ | id
  · simp
  · cases hempty : id.isEmpty with
    | false => simp [Option.filter, hempty]
    | true =>
      have hid : id.toList = [] := by simpa using hempty
      simp [Option.filter, hempty, hid, noBreak_nil]

theorem streamLines_frameChars {e : Event} (hname : NoBreak e.name.toList)
    (hid : ∀ id ∈ e.id, NoBreak id.toList) :
    streamLines e.frameChars = e.frameLines := by
  have hevent : NoBreak (field "event" e.name.toList) :=
    (noBreak_field (by simp [NoBreak])).mpr hname
  have hdata : NoBreak (field "data" e.payload.withoutNulls.text) :=
    (noBreak_field (by simp [NoBreak])).mpr (noBreak_text _)
  have htail : streamLines (field "event" e.name.toList ++ '\n' ::
      (field "data" e.payload.withoutNulls.text ++ '\n' :: ['\n'])) =
        [field "event" e.name.toList, field "data" e.payload.withoutNulls.text, []] := by
    rw [streamLines_append_newline hevent, streamLines_append_newline hdata]
    rfl
  rw [frameChars_eq, frameLines_eq]
  cases hshown : e.shownId with
  | none => simpa using htail
  | some id =>
    have hidline : NoBreak (field "id" id.toList) := by
      rw [noBreak_field (by simp [NoBreak])]
      exact (noBreak_shownId e).mpr hid id (by simp [hshown])
    simp only [Option.map_some, Option.getD_some, List.append_assoc, List.singleton_append]
    rw [streamLines_append_newline hidline, htail]
    rfl

/-! ## What a client reads -/

theorem takeLine_field (b : Block) {name : String} (hne : name.toList ≠ [])
    (hcolon : ':' ∉ name.toList) (value : List Char) :
    b.takeLine (field name value) = b.take name value := by
  have hhead : (field name value).head? ≠ some ':' := by
    unfold field
    cases hname : name.toList with
    | nil => exact absurd hname hne
    | cons c rest =>
      rw [hname, List.mem_cons, not_or] at hcolon
      simpa using Ne.symm hcolon.1
  have hread : readField (field name value) = (name.toList, value) := by
    simp only [readField, field, Text.splitFirst_append hcolon]
  simp [Block.takeLine, if_neg hhead, hread]

theorem field_ne_nil (name : String) (value : List Char) : field name value ≠ [] := by
  simp [field]

/-- What a client is meant to read from a frame: the name, the JSON text of the payload, and the
id, which a client passes over if it holds the null character. -/
def received (e : Event) : Received :=
  .event e.name.toList e.payload.withoutNulls.text
    ((e.shownId.map String.toList).filter fun id => !id.contains '\x00')

theorem readLines_frameLines (e : Event) : readLines {} e.frameLines = [e.received] := by
  have htail (b : Block) (hb : b.data = []) :
      readLines b [field "event" e.name.toList, field "data" e.payload.withoutNulls.text, []] =
        [.event e.name.toList e.payload.withoutNulls.text b.id] := by
    simp [readLines, field_ne_nil, takeLine_field, Block.take, Block.event?, hb,
      List.intercalate]
  rw [frameLines_eq]
  unfold received
  cases hshown : e.shownId with
  | none => exact htail {} rfl
  | some id =>
    simp only [Option.map_some, Option.toList_some, List.singleton_append]
    rw [readLines, if_neg (by simp [field_ne_nil]),
      takeLine_field _ (by simp) (by simp)]
    by_cases hnull : '\x00' ∈ id.toList
    · simpa [Block.take, hnull, Option.filter] using htail {} rfl
    · simpa [Block.take, hnull, Option.filter] using htail { id := some id.toList } rfl

/-- No byte order mark stands in front of a frame, so all of its text is read. -/
theorem readStream_frameChars (e : Event) :
    readStream e.frameChars = readLines {} (streamLines e.frameChars) := by
  have hhead : e.frameChars.head? ≠ some '\ufeff' := by
    rw [frameChars_eq]
    cases e.shownId <;> simp [field]
  rw [readStream, if_neg hhead]

/-! ## One frame, one event -/

/-- The frame has the lines that it is meant to have, only the last one of them blank, and a
client reads just the event from it. -/
structure RendersOneEvent (e : Event) : Prop where
  lines : streamLines e.frameChars = e.frameLines
  blank : ∀ line ∈ (streamLines e.frameChars).dropLast, line ≠ []
  read : readStream e.frameChars = [e.received]

/-- A frame is one event, whatever the payload, exactly if neither the name nor the id holds a
character that ends a line: both are written as they are. -/
theorem rendersOneEvent_iff (e : Event) :
    e.RendersOneEvent ↔ NoBreak e.name.toList ∧ ∀ id ∈ e.id, NoBreak id.toList := by
  constructor
  · intro hrender
    have hlines (line : List Char) (hline : line ∈ e.frameLines) : NoBreak line := by
      apply noBreak_of_mem_streamLines e.frameChars
      rwa [hrender.lines]
    rw [frameLines_eq] at hlines
    refine ⟨?_, (noBreak_shownId e).mp ?_⟩
    · exact (noBreak_field (by simp [NoBreak])).mp (hlines (field "event" _) (by simp))
    · intro id hid
      rw [Option.mem_def] at hid
      exact (noBreak_field (by simp [NoBreak])).mp (hlines (field "id" _) (by simp [hid]))
  · rintro ⟨hname, hid⟩
    have hlines := streamLines_frameChars hname hid
    refine ⟨hlines, ?_, ?_⟩
    · rw [hlines, frameLines_eq]
      cases e.shownId <;> simp [field_ne_nil]
    · rw [readStream_frameChars, hlines, readLines_frameLines]

/-- A name with line feeds makes a second event out of a single one. -/
theorem name_injects_event :
    readStream (frameChars ⟨"x\ndata: 1\n\nevent: y", .null, none⟩) =
        [.event ['x'] ['1'] none, .event ['y'] ['n', 'u', 'l', 'l'] none] ∧
      ¬ RendersOneEvent ⟨"x\ndata: 1\n\nevent: y", .null, none⟩ := by
  refine ⟨by decide +kernel, ?_⟩
  rw [rendersOneEvent_iff]
  rintro ⟨hname, _⟩
  exact hname.1 (by decide)

end EventHub.Event
