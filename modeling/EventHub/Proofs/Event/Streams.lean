import EventHub.Proofs.Event.Framing
import EventHub.Proofs.Json.Digits
/-!
# Streams of frames

A stream is any sequence of events, heartbeats and hints when to reconnect. Every frame ends with a
blank line and leaves nothing open, so a client reads a stream frame by frame: the events in order,
nothing from a heartbeat, the interval from a hint.
-/

namespace EventHub.Event

/-- What a server writes to a stream. -/
inductive Frame where
  | event (e : Event)
  | heartbeat
  | retry (interval : Time.Duration)

namespace Frame

def text : Frame → String
  | event e => e.frame
  | heartbeat => Event.heartbeat
  | retry interval => Event.retry interval

/-- Neither the name nor the id holds a character that ends a line, and the id no null character,
which would make a client pass over it. -/
def Clean : Frame → Prop
  | event e => NoBreak e.name.toList ∧ ∀ id ∈ e.id, NoBreak id.toList ∧ '\x00' ∉ id.toList
  | heartbeat => True
  | retry _ => True

/-- What a client is to take from a frame. The id of an event is there unless it is empty. -/
def content : Frame → List Received
  | event e =>
    [.event e.name.toList e.payload.withoutNulls.text
      ((e.id.filter fun id => !id.isEmpty).map String.toList)]
  | heartbeat => []
  | retry interval => [.retry interval.millis]

def lines : Frame → List (List Char)
  | event e => e.frameLines
  | heartbeat => [": heartbeat".toList, []]
  | retry interval => [field "retry" (Nat.toDigits 10 interval.millis), []]

end Frame

/-! ## The lines of a stream -/

theorem streamLines_flatMap {lines : List (List Char)} (hlines : ∀ line ∈ lines, NoBreak line) :
    streamLines (lines.flatMap (· ++ ['\n'])) = lines := by
  induction lines with
  | nil => rfl
  | cons line lines ih =>
    obtain ⟨hline, hlines⟩ := List.forall_mem_cons.mp hlines
    rw [List.flatMap_cons, List.append_assoc, List.singleton_append,
      streamLines_append_newline hline, ih hlines]

theorem Frame.text_eq (f : Frame) : f.text.toList = f.lines.flatMap (· ++ ['\n']) := by
  cases f with
  | event e =>
    rw [text, lines, frame, String.toList_ofList, frameChars_eq, frameLines_eq]
    cases e.shownId <;> simp
  | heartbeat => rfl
  | retry interval => simp [text, lines, Event.retry, field, Nat.repr]

theorem noBreak_digits (n : Nat) : NoBreak (Nat.toDigits 10 n) :=
  Json.no_break_of_plain (Json.plain_toDigits n)

theorem Frame.noBreak_lines {f : Frame} (hclean : f.Clean) :
    ∀ line ∈ f.lines, NoBreak line := by
  cases f with
  | event e =>
    obtain ⟨hname, hid⟩ := hclean
    intro line hline
    rw [lines, ← streamLines_frameChars hname fun id h => (hid id h).1] at hline
    exact noBreak_of_mem_streamLines _ line hline
  | heartbeat => simp [lines, NoBreak]
  | retry interval =>
    have hfield : NoBreak (field "retry" (Nat.toDigits 10 interval.millis)) :=
      (noBreak_field (by simp [NoBreak])).mpr (noBreak_digits _)
    simp [lines, hfield, noBreak_nil]

/-! ## What a client reads -/

theorem readLines_blank_append (b : Block) (lines rest : List (List Char)) :
    readLines b (lines ++ [] :: rest) = readLines b (lines ++ [[]]) ++ readLines {} rest := by
  induction lines generalizing b with
  | nil => simp [readLines]
  | cons line lines ih =>
    simp only [List.cons_append, readLines]
    split
    · rw [ih, List.append_assoc]
    · rw [ih, List.append_assoc]

/-- A clean event loses nothing: the id is read as it was given. -/
theorem received_of_clean {e : Event} (hclean : (Frame.event e).Clean) :
    [e.received] = (Frame.event e).content := by
  obtain ⟨_, hid⟩ := hclean
  simp only [received, Frame.content, shownId, List.cons.injEq, and_true, Received.event.injEq,
    true_and]
  cases hshown : e.id.filter fun id => !id.isEmpty with
  | none => rfl
  | some id =>
    have hnull := (hid id (Option.filter_eq_some_iff.mp hshown).1).2
    simp [Option.filter, hnull]

theorem Frame.readLines_lines_append {f : Frame} (hclean : f.Clean) (rest : List (List Char)) :
    readLines {} (f.lines ++ rest) = f.content ++ readLines {} rest := by
  -- Each frame is some lines and a blank one, so it is enough to read it alone.
  have hclosed (front : List (List Char)) (hlines : f.lines = front ++ [[]])
      (halone : readLines {} f.lines = f.content) :
      readLines {} (f.lines ++ rest) = f.content ++ readLines {} rest := by
    rw [← halone, hlines, List.append_assoc, List.singleton_append, readLines_blank_append]
  cases f with
  | event e =>
    have hlines : (event e).lines =
        ((e.shownId.map fun id => field "id" id.toList).toList ++
          [field "event" e.name.toList, field "data" e.payload.withoutNulls.text]) ++ [[]] := by
      rw [List.append_assoc]
      exact e.frameLines_eq
    exact hclosed _ hlines ((readLines_frameLines e).trans (received_of_clean hclean))
  | heartbeat => exact hclosed [": heartbeat".toList] rfl (by decide)
  | retry interval =>
    refine hclosed [field "retry" (Nat.toDigits 10 interval.millis)] rfl ?_
    simp [lines, content, readLines, field_ne_nil, takeLine_field, Block.take, Block.event?,
      Json.digitsValue?_toDigits]

/-- No frame begins with a byte order mark. -/
theorem Frame.head?_text (f : Frame) (rest : List Char) :
    (f.text.toList ++ rest).head? ≠ some '\ufeff' := by
  cases f with
  | event e =>
    rw [text, frame, String.toList_ofList, frameChars_eq]
    cases e.shownId <;> simp [field]
  | heartbeat => simp [text, Event.heartbeat]
  | retry interval => simp [text, Event.retry]

/-- From any sequence of clean frames a client reads exactly their contents, in order. -/
theorem readStream_frames (frames : List Frame) (hclean : ∀ f ∈ frames, f.Clean) :
    readStream (frames.flatMap fun f => f.text.toList) = frames.flatMap Frame.content := by
  have hhead : (frames.flatMap fun f => f.text.toList).head? ≠ some '\ufeff' := by
    cases frames with
    | nil => simp
    | cons f frames => exact f.head?_text _
  have htext : (frames.flatMap fun f => f.text.toList) =
      (frames.flatMap Frame.lines).flatMap (· ++ ['\n']) := by
    simp only [List.flatMap_assoc, Frame.text_eq]
  have hbreak : ∀ line ∈ frames.flatMap Frame.lines, NoBreak line := by
    intro line hline
    obtain ⟨f, hf, hline⟩ := List.mem_flatMap.mp hline
    exact Frame.noBreak_lines (hclean f hf) line hline
  rw [readStream, if_neg hhead, htext, streamLines_flatMap hbreak]
  clear hhead htext hbreak
  induction frames with
  | nil => rfl
  | cons f frames ih =>
    obtain ⟨hf, hframes⟩ := List.forall_mem_cons.mp hclean
    rw [List.flatMap_cons, List.flatMap_cons, Frame.readLines_lines_append hf, ih hframes]

/-- Texts that could be mistaken for the syntax around them, between frames that hold no event. -/
theorem readStream_frames_mixed :
    let frames : List Frame :=
      [.retry ⟨1500999999⟩, .event ⟨" data: x", .object [("a", .null), ("b", .string "1\n2")],
        some ": 7"⟩, .heartbeat, .event ⟨"", .null, some ""⟩]
    (∀ f ∈ frames, f.Clean) ∧
      readStream (frames.flatMap fun f => f.text.toList) =
        [.retry 1500,
          .event " data: x".toList "\x7b\"b\":\"1\\n2\"\x7d".toList (some ": 7".toList),
          .event [] "null".toList none] := by
  intro frames
  have hclean : ∀ f ∈ frames, f.Clean := by
    simp [frames, Frame.Clean, NoBreak]
  exact ⟨hclean, (readStream_frames frames hclean).trans (by decide +kernel)⟩

end EventHub.Event
