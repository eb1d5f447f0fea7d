import EventHub.Cluster.Sweep
import EventHub.Proofs.Cluster.Errands
import EventHub.Proofs.Cluster.Polling
/-!
# Rounds

Deliveries and sweeps look at their sends in rounds. What a round does about each member is the same
for both, whatever the token says: the accounts of the members go on as their sends do, and whoever
is not a member is left alone.
-/

namespace EventHub.Cluster

variable {ε : Type} {c c' : Cluster} {h : Nat} {cancelled : Bool} {m : Member} {ms : List Member}
  {st : Status} {a : Account} {account : Nat → Account}

def Verdict.isDead : Verdict → Bool
  | .foundDead => true
  | .answered r => isFailure r

/-- The entries of a call that makes its sends side by side. -/
structure EntryKind (ε : Type) where
  /-- What is sent. -/
  frame : String
  handle : ε → Nat
  poll : Bool → Cluster → ε → Cluster × ε × Bool
  /-- The verdict that a look at an entry comes to, if any. -/
  verdict? : Bool → Cluster → ε → Option Verdict
  /-- An entry shows where the call stands with a member. -/
  Shows : Member → ε → Status → Prop

namespace EntryKind

def verdictsAt (k : EntryKind ε) (cancelled : Bool) (c : Cluster) (entries : List ε) (h : Nat) :
    List Verdict :=
  entries.filterMap fun x => if k.handle x = h then k.verdict? cancelled c x else none

def Holds (k : EntryKind ε) (c : Cluster) (account : Nat → Account) (ms : List Member)
    (entries : List ε) : Prop :=
  List.Forall₂
    (fun m x => ∃ st, k.Shows m x st ∧ (account m.handle).Fits c k.frame m.handle st)
    ms entries

/-- What makes a look at an entry a look at a send, and at nothing else. -/
structure Lawful (k : EntryKind ε) : Prop where
  isPrivate : ∀ cancelled, Private k.handle (k.poll cancelled)
  onward : ∀ cancelled c x, Onward c (k.poll cancelled c x).1
  handle_eq : ∀ {m : Member} {x : ε} {st : Status}, k.Shows m x st → k.handle x = m.handle
  turned :
    ∀ {cancelled : Bool} {c c' : Cluster} {m : Member} {x : ε} {st : Status} {a : Account},
    c.Tidy → k.Shows m x st → a.Fits c k.frame m.handle st →
    c'.connection? m.handle = (k.poll cancelled c x).1.connection? m.handle →
    ∃ st', k.Shows m (k.poll cancelled c x).2.1 st' ∧
      (a.add (notes c c' (k.verdict? cancelled c x).toList m.handle)).Fits c' k.frame m.handle st'
  stays : ∀ {cancelled : Bool} {c : Cluster} {x : ε},
    (k.poll cancelled c x).2.2 = false → (k.poll cancelled c x).2.1 = x
  spared : ∀ {cancelled : Bool} {c c' : Cluster} {x : ε},
    c'.connection? (k.handle x) = (k.poll cancelled c x).1.connection? (k.handle x) →
    c.isLive (k.handle x) = true → c'.isLive (k.handle x) = true ∨
      ∃ e, k.verdict? cancelled c x = some (.answered (.error e)) ∧ e.isCancelled = false
  closed : ∀ {cancelled : Bool} {c c' : Cluster} {x : ε} {e : Error},
    c'.connection? (k.handle x) = (k.poll cancelled c x).1.connection? (k.handle x) →
    k.verdict? cancelled c x = some (.answered (.error e)) → e.isCancelled = false →
    c'.isLive (k.handle x) = false

variable {k : EntryKind ε} {entries : List ε}

theorem Lawful.handles (hlawful : k.Lawful) (hholds : k.Holds c account ms entries) :
    entries.map k.handle = ms.map (·.handle) := by
  induction hholds with
  | nil => rfl
  | cons hshows _ ih =>
    obtain ⟨st, hshows, _⟩ := hshows
    rw [List.map_cons, List.map_cons, ih, hlawful.handle_eq hshows]

theorem Holds.onward (hholds : k.Holds c account ms entries) (honward : Onward c c') :
    k.Holds c' account ms entries :=
  hholds.imp fun _ _ ⟨st, hshows, hfits⟩ => ⟨st, hshows, hfits.later honward.later⟩

theorem Lawful.holds_map (hlawful : k.Lawful) (htidy : c.Tidy) {verdicts : Nat → List Verdict}
    (hholds : k.Holds c account ms entries)
    (hpolled : ∀ x ∈ entries,
      c'.connection? (k.handle x) = (k.poll cancelled c x).1.connection? (k.handle x))
    (hverdicts : ∀ x ∈ entries, verdicts (k.handle x) = (k.verdict? cancelled c x).toList) :
    k.Holds c' (fun h => (account h).add (notes c c' (verdicts h) h)) ms
      (entries.map fun x => (k.poll cancelled c x).2.1) := by
  induction hholds with
  | nil => exact .nil
  | @cons m x _ _ hshows _ ih =>
    obtain ⟨st, hshows, hfits⟩ := hshows
    have hhandle := hlawful.handle_eq hshows
    have hfirst := hpolled x List.mem_cons_self
    have hverdict := hverdicts x List.mem_cons_self
    rw [hhandle] at hfirst hverdict
    obtain ⟨st', hshows', hfits'⟩ := hlawful.turned htidy hshows hfits hfirst
    refine .cons ⟨st', hshows', ?_⟩ (ih (fun y hy => hpolled y (List.mem_cons_of_mem _ hy))
      fun y hy => hverdicts y (List.mem_cons_of_mem _ hy))
    simp only [hverdict]
    exact hfits'

structure Round (k : EntryKind ε) (cancelled : Bool) (c : Cluster) (account : Nat → Account)
    (ms : List Member) (entries : List ε) (r : Cluster × List ε × Bool) : Prop where
  only : ConnectionsOnly c r.1
  onward : Onward c r.1
  untouched : ∀ h, h ∉ ms.map (·.handle) → r.1.connection? h = c.connection? h
  foreign : ∀ h, h ∉ ms.map (·.handle) → k.verdictsAt cancelled c entries h = []
  holds : k.Holds r.1
    (fun h => (account h).add (notes c r.1 (k.verdictsAt cancelled c entries h) h)) ms r.2.1
  mortality : Mortality c r.1 (k.verdictsAt cancelled c entries)
  stays : r.2.2 = false → r.2.1 = entries

theorem Lawful.round (hlawful : k.Lawful) (cancelled : Bool) (htidy : c.Tidy)
    (hnodup : (ms.map (·.handle)).Nodup) (hholds : k.Holds c account ms entries) :
    k.Round cancelled c account ms entries (pollAll (k.poll cancelled) c entries) := by
  have hhandles := hlawful.handles hholds
  have hnodup' : (entries.map k.handle).Nodup := hhandles ▸ hnodup
  have hseverally := pollAll_severally (hlawful.isPrivate cancelled) hnodup' c
  have hverdicts (x : ε) (hx : x ∈ entries) :
      k.verdictsAt cancelled c entries (k.handle x) = (k.verdict? cancelled c x).toList :=
    filterMap_own hnodup' hx _
  have hforeign (h : Nat) (hh : h ∉ ms.map (·.handle)) :
      k.verdictsAt cancelled c entries h = [] := filterMap_foreign (hhandles ▸ hh) _
  have huntouched (h : Nat) (hh : h ∉ ms.map (·.handle)) :=
    hseverally.untouched h (hhandles ▸ hh)
  have hcases (h : Nat) : (∃ x ∈ entries, k.handle x = h) ∨ h ∉ ms.map (·.handle) := by
    rw [← hhandles, List.mem_map]
    exact Decidable.em _
  refine ⟨hseverally.only, onward_pollAll (hlawful.onward cancelled) entries c,
    huntouched, hforeign,
    ?_, ⟨fun h hlive => ?_, fun h e hmem hcancelled => ?_⟩, fun hmoved => ?_⟩
  · rw [hseverally.entries_eq]
    exact hlawful.holds_map htidy hholds hseverally.polled hverdicts
  · rcases hcases h with ⟨x, hx, rfl⟩ | hh
    · simp only [hverdicts x hx, Option.mem_toList]
      exact hlawful.spared (hseverally.polled x hx) hlive
    · exact .inl ((isLive_congr (huntouched h hh)).trans hlive)
  · rcases hcases h with ⟨x, hx, rfl⟩ | hh
    · rw [hverdicts x hx, Option.mem_toList] at hmem
      exact hlawful.closed (hseverally.polled x hx) hmem hcancelled
    · rw [hforeign h hh] at hmem
      cases hmem
  · rw [hseverally.moved_eq, List.any_eq_false] at hmoved
    rw [hseverally.entries_eq]
    refine (List.map_congr_left fun x hx => ?_).trans (List.map_id _)
    exact hlawful.stays (Bool.eq_false_iff.mpr (hmoved x hx))

end EntryKind

/-! ## Records -/

section

variable {σ α : Type} (verdicts : Bool → Cluster → σ → Nat → List Verdict)

/-- What the strides of a call have done about a connection; `verdicts` says what a stride comes
to. -/
def accountOf (strides : List (Stride Cluster σ α)) (h : Nat) : Account where
  received := strides.flatMap fun t => news t.before t.after h
  joined := strides.flatMap fun t => (t.after.lineAt h).filter (· ∉ t.before.lineAt h)
  verdicts := strides.flatMap fun t => verdicts t.cancelled t.before t.state h

theorem accountOf_append (strides : List (Stride Cluster σ α))
    (t : Stride Cluster σ α) (h : Nat) :
    accountOf verdicts (strides ++ [t]) h = (accountOf verdicts strides h).add
      (notes t.before t.after (verdicts t.cancelled t.before t.state h) h) := by
  simp [accountOf, Account.add, notes]

def deadAmong (ms : List Member) (account : Nat → Account) : List ConnectionId :=
  (ms.filter fun m => (account m.handle).verdicts.any Verdict.isDead).map (·.id)

theorem deadAmong_cons {account : Nat → Account} {m : Member} {v : Verdict}
    (hverdicts : (account m.handle).verdicts = [v]) (ms : List Member) :
    deadAmong (m :: ms) account = if v.isDead then m.id :: deadAmong ms account
      else deadAmong ms account := by
  rw [deadAmong, List.filter_cons, hverdicts, List.any_cons, List.any_nil, Bool.or_false]
  cases v.isDead <;> rfl

end

/-! ## The sends of a delivery -/

def pollSlot (cancelled : Bool) (c : Cluster) : Slot → Cluster × Slot × Bool
  | .sending s =>
    let r := c.stepSend cancelled s
    (r.1, Slot.after s r.2, !r.2.isBlocked)
  | .ended h r => (c, .ended h r, false)

theorem stepSlots_eq (cancelled : Bool) (slots : List Slot) (c : Cluster) :
    c.stepSlots cancelled slots = pollAll (pollSlot cancelled) c slots := by
  induction slots generalizing c with
  | nil => rfl
  | cons slot rest ih =>
    cases slot with
    | ended h r =>
      rw [stepSlots, ih]
      rfl
    | sending s =>
      rw [stepSlots, pollAll, pollSlot]
      dsimp only
      generalize c.stepSend cancelled s = p
      obtain ⟨c', _ | s' | r⟩ := p <;> dsimp only <;> rw [ih] <;> rfl

inductive Slot.Shows (frame : String) (m : Member) : Slot → Status → Prop where
  | sending (s : Sending) : Shows frame m (.sending ⟨m.handle, frame, s⟩) (.waiting s)
  | ended (r : Except Error Unit) : Shows frame m (.ended m.handle r) (.ended (.answered r))

def Slot.verdict? (cancelled : Bool) (c : Cluster) : Slot → Option Verdict
  | .sending s => verdictOf (c.stepSend cancelled s).2
  | .ended .. => none

def slotKind (frame : String) : EntryKind Slot where
  frame := frame
  handle := Slot.handle
  poll := pollSlot
  verdict? := Slot.verdict?
  Shows := Slot.Shows frame

theorem stepSend_moved {s s' : Send} (hmoved : (c.stepSend cancelled s).2 = .moved s') :
    s' = { s with state := s'.state } := by
  cases hx : c.connection? s.handle with
  | none =>
    rw [stepSend_none hx] at hmoved
    cases hmoved
  | some x =>
    rw [stepSend_some hx] at hmoved
    dsimp only at hmoved
    generalize (x.stepSend c.now cancelled s.frame s.state).2 = p at hmoved
    cases p with
    | moved state =>
      cases hmoved
      rfl
    | blocked => cases hmoved
    | done r => cases hmoved

theorem verdictOf_eq {p : Progress Send (Except Error Unit)} {e : Error} :
    verdictOf p = some (.answered (.error e)) ↔ p = .done (.error e) := by
  cases p <;> simp [verdictOf]

theorem private_pollSlot (cancelled : Bool) : Private Slot.handle (pollSlot cancelled) where
  only c slot := by
    cases slot with
    | sending s => exact only_stepSend c cancelled s
    | ended h r => exact .refl c
  untouched c slot h hne := by
    cases slot with
    | sending s => exact connection?_stepSend c cancelled s hne
    | ended h r => rfl
  same c c' slot hnow hconnection := by
    cases slot with
    | sending s =>
      obtain ⟨hresult, hafter⟩ := stepSend_same cancelled hnow hconnection
      exact ⟨by simp only [pollSlot, hresult], hafter⟩
    | ended h r => exact ⟨rfl, hconnection⟩

theorem Slot.shows_after {frame : String} {s : Sending} :
    Slot.Shows frame m
      (Slot.after ⟨m.handle, frame, s⟩ (c.stepSend cancelled ⟨m.handle, frame, s⟩).2)
      (Status.after s (c.stepSend cancelled ⟨m.handle, frame, s⟩).2) := by
  cases hp : (c.stepSend cancelled ⟨m.handle, frame, s⟩).2 with
  | blocked => exact .sending s
  | moved s' =>
    rw [stepSend_moved hp]
    exact .sending s'.state
  | done r => exact .ended r

theorem lawful_slotKind (frame : String) : (slotKind frame).Lawful where
  isPrivate := private_pollSlot
  onward cancelled c slot := by
    cases slot with
    | sending s => exact onward_stepSend c cancelled s
    | ended h r => exact .refl c
  handle_eq hshows := by
    cases hshows <;> rfl
  turned htidy hshows hfits hc' := by
    cases hshows with
    | sending s => exact ⟨_, Slot.shows_after, hfits.polled htidy hc'⟩
    | ended r => exact ⟨_, .ended r, hfits.unmoved hc'⟩
  stays {cancelled c slot} hmoved := by
    cases slot with
    | sending s =>
      simp only [slotKind, pollSlot] at hmoved ⊢
      generalize (c.stepSend cancelled s).2 = p at hmoved
      cases p with
      | blocked => rfl
      | moved s' => cases hmoved
      | done r => cases hmoved
    | ended h r => rfl
  spared {cancelled c c' slot} hc' hlive := by
    cases slot with
    | sending s =>
      refine ((isLive_stepSend s hc').1 hlive).imp_right fun ⟨e, he, hcancelled⟩ => ?_
      exact ⟨e, verdictOf_eq.mpr he, hcancelled⟩
    | ended h r => exact .inl ((isLive_congr hc').trans hlive)
  closed {cancelled c c' slot e} hc' hverdict hcancelled := by
    cases slot with
    | sending s => exact (isLive_stepSend s hc').2 e (verdictOf_eq.mp hverdict) hcancelled
    | ended h r => cases hverdict

/-! ## Giving up -/

def dropSlot (c : Cluster) : Slot → Cluster × Slot × Bool
  | .sending s => (c.abandonSend s, .sending s, false)
  | .ended h r => (c, .ended h r, false)

theorem abandonSlots_eq (slots : List Slot) (c : Cluster) :
    c.abandonSlots slots = (pollAll dropSlot c slots).1 := by
  induction slots generalizing c with
  | nil => rfl
  | cons slot rest ih =>
    cases slot with
    | ended h r => exact ih c
    | sending s => exact ih _

theorem private_dropSlot : Private Slot.handle dropSlot where
  only c slot := by
    cases slot with
    | sending s => rfl
    | ended h r => exact .refl c
  untouched c slot h hne := by
    cases slot with
    | sending s =>
      show (c.abandonSend s).connection? h = _
      simp only [abandonSend, modifyConnection, connection?]
      exact List.getElem?_modify_ne _ _ (Ne.symm hne)
    | ended h r => rfl
  same c c' slot hnow hconnection := by
    refine ⟨by cases slot <;> rfl, ?_⟩
    cases slot with
    | sending s =>
      show (c'.abandonSend s).connection? s.handle = (c.abandonSend s).connection? s.handle
      simp only [abandonSend, modifyConnection, connection?, List.getElem?_modify_eq]
      exact congrArg _ hconnection
    | ended h r => exact hconnection

/-- A send that is over or has been given up. -/
inductive Status.Settled : Status → Prop where
  | ended (v : Verdict) : Settled (.ended v)
  | dropped : Settled .dropped

structure Dropped (c : Cluster) (frame : String) (account : Nat → Account) (ms : List Member)
    (c' : Cluster) : Prop where
  only : ConnectionsOnly c c'
  onward : Onward c c'
  untouched : ∀ h, h ∉ ms.map (·.handle) → c'.connection? h = c.connection? h
  settled : ∀ m ∈ ms, ∃ st, st.Settled ∧
    ((account m.handle).add (notes c c' [] m.handle)).Fits c' frame m.handle st
  mortality : Mortality c c' fun _ => []

theorem isLive_abandonSend (c : Cluster) (s : Send) (h : Nat) :
    (c.abandonSend s).isLive h = c.isLive h := by
  have hlive (x : Connection) : (x.abandon s.state).live = x.live := by
    cases s.state <;> rfl
  rw [isLive, isLive, abandonSend, modifyConnection, connection?, connection?,
    List.getElem?_modify]
  cases c.connections[h]? with
  | none => rfl
  | some x =>
    simp only [Option.any_some]
    split
    · exact hlive x
    · rfl

theorem isLive_abandonSlots (slots : List Slot) (c : Cluster) (h : Nat) :
    (c.abandonSlots slots).isLive h = c.isLive h := by
  induction slots generalizing c with
  | nil => rfl
  | cons slot rest ih =>
    cases slot with
    | ended h' r => exact ih c
    | sending s => exact (ih _).trans (isLive_abandonSend c s h)

theorem abandonSlots_dropped {frame : String} {slots : List Slot}
    (hnodup : (ms.map (·.handle)).Nodup) (hholds : (slotKind frame).Holds c account ms slots) :
    Dropped c frame account ms (c.abandonSlots slots) := by
  have hhandles : slots.map Slot.handle = ms.map (·.handle) :=
    (lawful_slotKind frame).handles hholds
  have hseverally := pollAll_severally private_dropSlot (hhandles ▸ hnodup) c
  have honward (c : Cluster) (slot : Slot) : Onward c (dropSlot c slot).1 := by
    cases slot with
    | sending s => exact onward_abandonSend c s
    | ended h r => exact .refl c
  have hmortality : Mortality c (c.abandonSlots slots) fun _ => [] :=
    .of_untouched fun h => isLive_abandonSlots slots c h
  rw [abandonSlots_eq] at hmortality ⊢
  refine ⟨hseverally.only, onward_pollAll honward slots c,
    fun h hh => hseverally.untouched h (hhandles ▸ hh), ?_, hmortality⟩
  have hpolled := hseverally.polled
  generalize (pollAll dropSlot c slots).1 = c' at hpolled
  -- The members and their sends are looked at one by one; the cluster stays the whole one.
  clear hnodup hhandles hseverally hmortality
  induction hholds with
  | nil => exact fun m hm => absurd hm List.not_mem_nil
  | cons hshows _ ih =>
    intro m hm
    rcases List.mem_cons.mp hm with rfl | hm
    · obtain ⟨st, hshows, hfits⟩ := hshows
      have hslot := hpolled _ List.mem_cons_self
      cases hshows with
      | sending s => exact ⟨_, .dropped, hfits.abandoned hslot⟩
      | ended r => exact ⟨_, .ended _, hfits.unmoved hslot⟩
    · exact ih (fun slot hslot => hpolled slot (List.mem_cons_of_mem _ hslot)) m hm

/-! ## The heartbeats of a sweep -/

inductive Beat.Shows (m : Member) : Beat → Status → Prop where
  | fresh : Shows m (.fresh m) (.waiting .fresh)
  | sending (s : Sending) : Shows m (.sending m ⟨m.handle, Event.heartbeat, s⟩) (.waiting s)
  | ended (v : Verdict) : Shows m (.ended m v.isDead) (.ended v)

def Beat.handle : Beat → Nat
  | .fresh m => m.handle
  | .sending _ s => s.handle
  | .ended m _ => m.handle

def Beat.verdict? (cancelled : Bool) (c : Cluster) : Beat → Option Verdict
  | .fresh m => if c.isLive m.handle then none else some .foundDead
  | .sending _ s => verdictOf (c.stepSend cancelled s).2
  | .ended .. => none

def beatKind : EntryKind Beat where
  frame := Event.heartbeat
  handle := Beat.handle
  poll cancelled c b := c.stepBeat cancelled b
  verdict? := Beat.verdict?
  Shows := Beat.Shows

theorem stepBeats_eq (cancelled : Bool) (beats : List Beat) (c : Cluster) :
    c.stepBeats cancelled beats = pollAll (beatKind.poll cancelled) c beats := by
  induction beats generalizing c with
  | nil => rfl
  | cons b rest ih =>
    simp only [stepBeats, ih]
    rfl

def Beat.after (m : Member) (s : Send) : Progress Send (Except Error Unit) → Beat
  | .blocked => .sending m s
  | .moved s => .sending m s
  | .done r => .ended m (isFailure r)

theorem stepBeat_sending (c : Cluster) (cancelled : Bool) (m : Member) (s : Send) :
    c.stepBeat cancelled (.sending m s) =
      ((c.stepSend cancelled s).1, Beat.after m s (c.stepSend cancelled s).2,
        !(c.stepSend cancelled s).2.isBlocked) := by
  rw [stepBeat]
  generalize c.stepSend cancelled s = p
  obtain ⟨c', _ | s' | r⟩ := p <;> rfl

/-- Finding out whether a connection is live changes nothing. -/
theorem stepBeat_fresh (c : Cluster) (cancelled : Bool) (m : Member) :
    c.stepBeat cancelled (.fresh m) =
      (c, if c.isLive m.handle then .sending m ⟨m.handle, Event.heartbeat, .fresh⟩
        else .ended m true, true) := by
  rw [stepBeat]
  split <;> rfl

theorem private_stepBeat (cancelled : Bool) :
    Private Beat.handle fun c b => c.stepBeat cancelled b where
  only c b := by
    cases b with
    | fresh m => rw [stepBeat_fresh]; exact .refl c
    | sending m s => rw [stepBeat_sending]; exact only_stepSend c cancelled s
    | ended m dead => exact .refl c
  untouched c b h hne := by
    cases b with
    | fresh m => rw [stepBeat_fresh]
    | sending m s => rw [stepBeat_sending]; exact connection?_stepSend c cancelled s hne
    | ended m dead => rfl
  same c c' b hnow hconnection := by
    cases b with
    | fresh m =>
      rw [stepBeat_fresh, stepBeat_fresh, isLive_congr (h := m.handle) hconnection]
      exact ⟨rfl, hconnection⟩
    | sending m s =>
      obtain ⟨hresult, hafter⟩ := stepSend_same cancelled hnow hconnection
      rw [stepBeat_sending, stepBeat_sending, hresult]
      exact ⟨rfl, hafter⟩
    | ended m dead => exact ⟨rfl, hconnection⟩

theorem Beat.shows_after {s : Sending} :
    Beat.Shows m (Beat.after m ⟨m.handle, Event.heartbeat, s⟩
        (c.stepSend cancelled ⟨m.handle, Event.heartbeat, s⟩).2)
      (Status.after s (c.stepSend cancelled ⟨m.handle, Event.heartbeat, s⟩).2) := by
  cases hp : (c.stepSend cancelled ⟨m.handle, Event.heartbeat, s⟩).2 with
  | blocked => exact .sending s
  | moved s' =>
    rw [stepSend_moved hp]
    exact .sending s'.state
  | done r => exact .ended (.answered r)

theorem Account.Fits.found (hfits : a.Fits c Event.heartbeat h (.waiting .fresh))
    (hc' : c'.connection? h = c.connection? h) :
    (a.add (notes c c' [.foundDead] h)).Fits c' Event.heartbeat h (.ended .foundDead) := by
  obtain ⟨hreceived, hverdicts, hjoined, x, hx, _⟩ := hfits
  have hnothing : notes c c' [.foundDead] h = ⟨[], [], [.foundDead]⟩ :=
    congrArg (fun b : Account => ({ b with verdicts := [.foundDead] } : Account))
      (notes_of_untouched hc')
  rw [hnothing]
  refine ⟨by simp [add, hreceived, Verdict.frames], by simp [add, hverdicts],
    x, hc'.trans hx, ?_⟩
  intro id hid
  simp only [add, List.append_nil] at hid
  exact absurd (hjoined id hid) List.not_mem_nil

theorem lawful_beatKind : beatKind.Lawful where
  isPrivate := private_stepBeat
  onward cancelled c b := by
    show Onward c (c.stepBeat cancelled b).1
    cases b with
    | fresh m => rw [stepBeat_fresh]; exact .refl c
    | sending m s => rw [stepBeat_sending]; exact onward_stepSend c cancelled s
    | ended m dead => exact .refl c
  handle_eq hshows := by
    cases hshows <;> rfl
  turned {cancelled c c' m b st a} htidy hshows hfits hc' := by
    simp only [beatKind] at hfits hc' ⊢
    cases hshows with
    | fresh =>
      rw [stepBeat_fresh] at hc' ⊢
      cases hlive : c.isLive m.handle with
      | true =>
        refine ⟨_, .sending .fresh, ?_⟩
        rw [Beat.verdict?, if_pos hlive]
        exact hfits.unmoved hc'
      | false =>
        refine ⟨_, .ended .foundDead, ?_⟩
        rw [Beat.verdict?, if_neg (Bool.eq_false_iff.mp hlive), Option.toList_some]
        exact hfits.found hc'
    | sending s =>
      rw [stepBeat_sending] at hc' ⊢
      exact ⟨_, Beat.shows_after, hfits.polled htidy hc'⟩
    | ended v => exact ⟨_, .ended v, hfits.unmoved hc'⟩
  stays {cancelled c b} hmoved := by
    simp only [beatKind] at hmoved ⊢
    cases b with
    | fresh m =>
      rw [stepBeat_fresh] at hmoved
      cases hmoved
    | sending m s =>
      rw [stepBeat_sending] at hmoved ⊢
      generalize (c.stepSend cancelled s).2 = p at hmoved
      cases p with
      | blocked => rfl
      | moved s' => cases hmoved
      | done r => cases hmoved
    | ended m dead => rfl
  spared {cancelled c c' b} hc' hlive := by
    simp only [beatKind] at hc' hlive ⊢
    cases b with
    | fresh m =>
      rw [stepBeat_fresh] at hc'
      exact .inl ((isLive_congr hc').trans hlive)
    | sending m s =>
      rw [stepBeat_sending] at hc'
      refine ((isLive_stepSend s hc').1 hlive).imp_right fun ⟨e, he, hcancelled⟩ => ?_
      exact ⟨e, verdictOf_eq.mpr he, hcancelled⟩
    | ended m dead => exact .inl ((isLive_congr hc').trans hlive)
  closed {cancelled c c' b e} hc' hverdict hcancelled := by
    simp only [beatKind] at hc' hverdict ⊢
    cases b with
    | fresh m =>
      -- A connection that is found dead has not been asked.
      rw [Beat.verdict?] at hverdict
      split at hverdict <;> cases hverdict
    | sending m s =>
      rw [stepBeat_sending] at hc'
      exact (isLive_stepSend s hc').2 e (verdictOf_eq.mp hverdict) hcancelled
    | ended m dead => cases hverdict

end EventHub.Cluster
