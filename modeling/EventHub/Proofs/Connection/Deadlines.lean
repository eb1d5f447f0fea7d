import EventHub.Proofs.Connection.Moves
/-!
# When those in line give up

Only the patience of the first in line runs, so a write gives up when that of the first one, of all
those between them and then its own have run out, one after the other. Nothing that others do puts
that off: each of them has left by the end of its patience, or earlier.
-/

namespace EventHub.Outbox

/-- The number of writes in line before a turn; turns are given out in order. -/
def place (o : Outbox) (id : Nat) : Nat := o.line.countP (·.id < id)

/-- When the write with the turn has given up at the latest: after the patience of the first in
line, and that of each write behind it down to the one itself. -/
def due (o : Outbox) (now id : Nat) : Nat :=
  o.deadline?.getD (now + o.patience) + o.place id * o.patience

/-- The turns are in order, and only the patience of the first in line runs. -/
structure Punctual (o : Outbox) (now : Nat) : Prop where
  sorted : o.line.Pairwise (·.id < ·.id)
  below : ∀ x ∈ o.line, x.id < o.nextTurn
  behind : ∀ x ∈ o.line.tail, x.deadline = none
  current : ∀ d, o.deadline? = some d → now ≤ d ∧ d ≤ now + o.patience

structure NoLater (now : Nat) (o o' : Outbox) : Prop where
  patience_eq : o'.patience = o.patience
  nextTurn_le : o.nextTurn ≤ o'.nextTurn
  due_le : ∀ x ∈ o'.line, x.id < o.nextTurn →
    (∃ y ∈ o.line, y.id = x.id) ∧ o'.due now x.id ≤ o.due now x.id

variable {now : Nat} {o o' : Outbox}

theorem NoLater.refl (now : Nat) (o : Outbox) : NoLater now o o :=
  ⟨rfl, Nat.le_refl _, fun x hx _ => ⟨⟨x, hx, rfl⟩, Nat.le_refl _⟩⟩

theorem NoLater.trans {o'' : Outbox} (h : NoLater now o o') (h' : NoLater now o' o'') :
    NoLater now o o'' := by
  refine ⟨h'.patience_eq.trans h.patience_eq, Nat.le_trans h.nextTurn_le h'.nextTurn_le, ?_⟩
  intro x hx hlt
  obtain ⟨⟨y, hy, hid⟩, hle⟩ := h'.due_le x hx (Nat.lt_of_lt_of_le hlt h.nextTurn_le)
  obtain ⟨hbefore, hle'⟩ := h.due_le y hy (hid ▸ hlt)
  rw [hid] at hbefore hle'
  exact ⟨hbefore, Nat.le_trans hle hle'⟩

theorem sublist_tail_or_head {line rest : List Turn} (hsub : line.Sublist rest) :
    line.Sublist rest.tail ∨ line.head? = rest.head? := by
  cases rest with
  | nil => exact .inl hsub
  | cons x rest =>
    rcases List.sublist_cons_iff.mp hsub with hsub | ⟨line', rfl, _⟩
    · exact .inl hsub
    · exact .inr rfl

/-- The patience of those behind the first in line does not run. -/
theorem Punctual.deadline_eq_none (hpunctual : o.Punctual now)
    (hsub : o'.line.Sublist o.line.tail) :
    o'.deadline? = none := by
  unfold deadline?
  cases hline : o'.line with
  | nil => rfl
  | cons x rest => exact hpunctual.behind x (hsub.subset (by simp [hline]))

theorem Punctual.of_sublist (hpunctual : o.Punctual now) (hsub : o'.line.Sublist o.line)
    (hpatience : o'.patience = o.patience) (hnext : o'.nextTurn = o.nextTurn) :
    o'.Punctual now where
  sorted := hpunctual.sorted.sublist hsub
  below x hx := hnext ▸ hpunctual.below x (hsub.subset hx)
  behind x hx := hpunctual.behind x (hsub.tail.subset hx)
  current d hd := by
    rcases sublist_tail_or_head hsub with hsub | hhead
    · rw [hpunctual.deadline_eq_none hsub] at hd
      cases hd
    · rw [hpatience]
      exact hpunctual.current d (by rwa [deadline?, ← hhead])

/-- Whoever leaves the line, the others wait no longer. -/
theorem Punctual.noLater_of_sublist (hpunctual : o.Punctual now) (hsub : o'.line.Sublist o.line)
    (hpatience : o'.patience = o.patience) (hnext : o'.nextTurn = o.nextTurn) :
    NoLater now o o' := by
  refine ⟨hpatience, Nat.le_of_eq hnext.symm, fun x hx _ =>
    ⟨⟨x, hsub.subset hx, rfl⟩, ?_⟩⟩
  rw [due, due, hpatience]
  rcases sublist_tail_or_head hsub with htail | hhead
  · -- The first in line is gone, so there is one less to wait for.
    have hplace : o'.place x.id + 1 ≤ o.place x.id := by
      have hle : o'.place x.id ≤ o.line.tail.countP (·.id < x.id) := htail.countP_le
      have hsorted := hpunctual.sorted
      have hmem := htail.subset hx
      unfold place at hle ⊢
      cases hline : o.line with
      | nil =>
        rw [hline] at hmem
        cases hmem
      | cons y rest =>
        rw [hline] at hsorted hmem hle
        have hfirst : y.id < x.id := (List.pairwise_cons.mp hsorted).1 x hmem
        rw [List.countP_cons_of_pos (by simpa using hfirst)]
        exact Nat.succ_le_succ hle
    have hmul := Nat.mul_le_mul_right o.patience hplace
    rw [Nat.succ_mul] at hmul
    have hcurrent := hpunctual.current
    rw [hpunctual.deadline_eq_none htail]
    cases hdeadline : o.deadline? with
    | none => simp only [Option.getD_none]; omega
    | some d =>
      have hd := (hcurrent d hdeadline).1
      simp only [Option.getD_none, Option.getD_some]
      omega
  · have hplace : o'.place x.id ≤ o.place x.id := hsub.countP_le
    have hdeadline : o'.deadline? = o.deadline? := by rw [deadline?, hhead, deadline?]
    rw [hdeadline]
    exact Nat.add_le_add_left (Nat.mul_le_mul_right _ hplace) _

theorem due_enter (o : Outbox) (frame : String) {id : Nat} (hid : id ≤ o.nextTurn) :
    (o.enter frame).due now id = o.due now id := by
  have hdeadline : (o.enter frame).deadline? = o.deadline? := by
    unfold deadline? enter
    cases o.line <;> rfl
  have hplace : (o.enter frame).place id = o.place id := by simp [place, enter, hid]
  rw [due, due, hdeadline, hplace, enter]

theorem Punctual.enter (hpunctual : o.Punctual now) (frame : String) :
    (o.enter frame).Punctual now where
  sorted := by
    refine List.pairwise_append.mpr ⟨hpunctual.sorted, List.pairwise_singleton _ _, ?_⟩
    intro x hx y hy
    rw [List.mem_singleton.mp hy]
    exact hpunctual.below x hx
  below x hx := by
    rcases List.mem_append.mp hx with hx | hx
    · exact Nat.lt_succ_of_lt (hpunctual.below x hx)
    · rw [List.mem_singleton.mp hx]
      exact Nat.lt_succ_self _
  behind x hx := by
    have hbehind := hpunctual.behind
    unfold Outbox.enter at hx
    cases hline : o.line with
    | nil => simp [hline] at hx
    | cons y rest =>
      rw [hline] at hx hbehind
      rcases List.mem_append.mp hx with hx | hx
      · exact hbehind x hx
      · rw [List.mem_singleton.mp hx]
  current d hd := by
    have hcurrent := hpunctual.current
    unfold deadline? at hd hcurrent
    unfold Outbox.enter at hd
    cases hline : o.line with
    | nil => simp [hline] at hd
    | cons y rest =>
      rw [hline] at hd hcurrent
      exact hcurrent d hd

theorem noLater_enter (now : Nat) (o : Outbox) (frame : String) :
    NoLater now o (o.enter frame) := by
  refine ⟨rfl, Nat.le_succ _, fun x hx hlt =>
    ⟨?_, Nat.le_of_eq (due_enter o frame (Nat.le_of_lt hlt))⟩⟩
  rcases List.mem_append.mp hx with hx | hx
  · exact ⟨x, hx, rfl⟩
  · rw [List.mem_singleton.mp hx] at hlt
    exact absurd hlt (Nat.lt_irrefl _)

theorem Punctual.le_due (hpunctual : o.Punctual now) (id : Nat) : now ≤ o.due now id := by
  have hcurrent := hpunctual.current
  unfold due
  cases hdeadline : o.deadline? with
  | none => simp only [Option.getD_none]; omega
  | some d =>
    have hd := (hcurrent d hdeadline).1
    simp only [Option.getD_some]
    omega

/-- A write that joins the line waits for those before it. -/
theorem Punctual.due_enter_le (hpunctual : o.Punctual now) (frame : String) :
    (o.enter frame).due now o.nextTurn ≤ now + (o.line.length + 1) * o.patience := by
  have hplace : o.place o.nextTurn ≤ o.line.length := List.countP_le_length
  have hmul := Nat.mul_le_mul_right o.patience hplace
  have hcurrent := hpunctual.current
  rw [due_enter o frame (Nat.le_refl _), due, Nat.succ_mul]
  cases hdeadline : o.deadline? with
  | none => simp only [Option.getD_none]; omega
  | some d =>
    have hd := (hcurrent d hdeadline).2
    simp only [Option.getD_some]
    omega

theorem Punctual.wait (hpunctual : o.Punctual now) {x : Turn} {rest : List Turn}
    (hline : o.line = x :: rest) (hlater : now < x.deadline.getD (now + o.patience))
    (hline' : o'.line = { x with deadline := some (x.deadline.getD (now + o.patience)) } :: rest)
    (hpatience : o'.patience = o.patience) (hnext : o'.nextTurn = o.nextTurn) :
    o'.Punctual now ∧ NoLater now o o' := by
  obtain ⟨hsorted, hbelow, hbehind, hcurrent⟩ := hpunctual
  have hdeadline : o.deadline? = x.deadline := by rw [deadline?, hline]; rfl
  have hdeadline' : o'.deadline? = some (x.deadline.getD (now + o.patience)) := by
    rw [deadline?, hline']
    rfl
  have hid : o'.line.map (·.id) = o.line.map (·.id) := by rw [hline, hline']; rfl
  constructor
  · constructor
    case sorted =>
      rw [← List.pairwise_map (f := Turn.id)] at hsorted ⊢
      rwa [hid]
    case below =>
      intro y hy
      obtain ⟨z, hz, hid⟩ := List.mem_map.mp (hid ▸ List.mem_map_of_mem (f := Turn.id) hy)
      rw [hnext, ← hid]
      exact hbelow z hz
    case behind =>
      rw [hline', List.tail_cons]
      rw [hline, List.tail_cons] at hbehind
      exact hbehind
    case current =>
      intro d hd
      rw [hdeadline', Option.some.injEq] at hd
      rw [hpatience, ← hd]
      refine ⟨Nat.le_of_lt hlater, ?_⟩
      cases hx : x.deadline with
      | none => exact Nat.le_refl _
      | some d => exact (hcurrent d (hdeadline.trans hx)).2
  · refine ⟨hpatience, Nat.le_of_eq hnext.symm, fun y hy _ => ⟨?_, ?_⟩⟩
    · exact List.mem_map.mp (hid ▸ List.mem_map_of_mem (f := Turn.id) hy)
    · have hplace : o'.place y.id = o.place y.id := by
        rw [place, place, hline, hline', List.countP_cons, List.countP_cons]
      rw [due, due, hplace, hdeadline, hdeadline', hpatience]
      exact Nat.le_refl _

theorem Punctual.resume (hpunctual : o.Punctual now) (id : Nat) :
    (o.resume now id).1.Punctual now ∧ NoLater now o (o.resume now id).1 := by
  have hresumed := resume_resumed o now id
  rcases hresume : o.resume now id with ⟨o', _ | r⟩
  · rcases resume_waits hresume with ⟨rfl, _⟩ | ⟨x, rest, hline, _, _, _, hlater, rfl⟩
    · exact ⟨hpunctual, .refl now _⟩
    · exact hpunctual.wait hline hlater rfl rfl rfl
  · rw [hresume] at hresumed
    obtain ⟨hsub, hpatience, hnext⟩ : o'.line.Sublist o.line ∧ o'.patience = o.patience ∧
        o'.nextTurn = o.nextTurn := by
      cases hresumed with
      | accepted x rest hline => exact ⟨hline ▸ List.sublist_cons_self _ _, rfl, rfl⟩
      | failed x rest hline => exact ⟨hline ▸ List.sublist_cons_self _ _, rfl, rfl⟩
    exact ⟨hpunctual.of_sublist hsub hpatience hnext,
      hpunctual.noLater_of_sublist hsub hpatience hnext⟩

theorem Move.noLater (hmove : Move now o o') (hpunctual : o.Punctual now) :
    o'.Punctual now ∧ NoLater now o o' := by
  cases hmove with
  | enter frame => exact ⟨hpunctual.enter frame, noLater_enter now _ frame⟩
  | resume id => exact hpunctual.resume id
  | abandon id =>
    exact ⟨hpunctual.of_sublist List.filter_sublist rfl rfl,
      hpunctual.noLater_of_sublist List.filter_sublist rfl rfl⟩
  | dispose =>
    exact ⟨hpunctual.of_sublist (.refl _) rfl rfl,
      hpunctual.noLater_of_sublist (.refl _) rfl rfl⟩

theorem Moves.noLater (hmoves : Moves now o o') (hpunctual : o.Punctual now) :
    o'.Punctual now ∧ NoLater now o o' := by
  induction hmoves with
  | refl => exact ⟨hpunctual, .refl now o⟩
  | tail _ hmove ih =>
    obtain ⟨hpunctual', hlater⟩ := hmove.noLater ih.1
    exact ⟨hpunctual', ih.2.trans hlater⟩

/-- Whoever joins the line of an outbox without room has to wait. -/
theorem enter_waits (hpunctual : o.Punctual now) (hsender : o.senderGone = false)
    (hreceiver : o.receiverGone = false) (hfull : o.capacity ≤ o.queue.length)
    (hpatience : 0 < o.patience) (hfirst : o.line ≠ [] → o.deadline? = some (now + o.patience))
    (frame : String) :
    ∃ line,
      (o.enter frame).resume now o.nextTurn = ({ o.enter frame with line := line }, none) ∧
      turns { o with line := line } = o.turns ++ [(o.nextTurn, frame)] ∧
      deadline? { o with line := line } = some (now + o.patience) := by
  cases hline : o.line with
  | nil =>
    have henter : (o.enter frame).line = [⟨o.nextTurn, frame, none⟩] := by simp [enter, hline]
    have hresume := resume_first_full now henter rfl (o := o.enter frame) hsender hreceiver hfull
      hpatience
    exact ⟨_, hresume, by simp [turns, hline], rfl⟩
  | cons x rest =>
    have henter : (o.enter frame).line = x :: (rest ++ [⟨o.nextTurn, frame, none⟩]) := by
      simp [enter, hline]
    have hother : x.id ≠ o.nextTurn := Nat.ne_of_lt (hpunctual.below x (by simp [hline]))
    refine ⟨(o.enter frame).line, ?_, by simp [turns, enter], ?_⟩
    · rw [resume, henter]
      simp only [if_pos hother]
      rw [← henter]
    · rw [← hfirst (by simp [hline])]
      simp [deadline?, enter, hline]

end EventHub.Outbox
