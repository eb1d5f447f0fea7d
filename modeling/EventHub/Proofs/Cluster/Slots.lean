import EventHub.Cluster.Delivery
import EventHub.Proofs.Connection.Writes
import Mathlib.Data.List.Nodup
/-!
# The sends of a delivery

The sends of one delivery go to different connections, so a step of all of them is a step of each
on its own: a connection takes the frame in the step in which its send succeeds, and no connection
without a send is touched.
-/

namespace EventHub.Cluster

/-! ## Connections of a cluster -/

def held (c : Cluster) (h : Nat) : List String := ((c.connection? h).map Connection.held).getD []

/-- The frames that a connection has accepted from one moment to another, as long as its stream
takes none. -/
def news (c c' : Cluster) (h : Nat) : List String := (c'.held h).drop (c.held h).length

def Sound (c : Cluster) : Prop := ∀ h x, c.connection? h = some x → x.writer.Sound

def Later (c c' : Cluster) : Prop :=
  ∀ h x, c.connection? h = some x → ∃ x', c'.connection? h = some x' ∧ x.Later x'

theorem Later.refl (c : Cluster) : Later c c := fun _ x hx => ⟨x, hx, Connection.Later.refl x⟩

theorem Later.trans {c c' c'' : Cluster} (h : Later c c') (h' : Later c' c'') : Later c c'' := by
  intro i x hx
  obtain ⟨x', hx', hlater⟩ := h i x hx
  obtain ⟨x'', hx'', hlater'⟩ := h' i x' hx'
  exact ⟨x'', hx'', hlater.trans hlater'⟩

theorem Later.of_connections {c c' : Cluster} (h : c'.connections = c.connections) :
    Later c c' := by
  intro i x hx
  rw [connection?, ← h] at hx
  exact ⟨x, hx, Connection.Later.refl x⟩

theorem connection?_setConnection {c : Cluster} {h : Nat} {x : Connection}
    (hx : c.connection? h = some x) (y : Connection) (i : Nat) :
    (c.setConnection h y).connection? i = if i = h then some y else c.connection? i := by
  have hlt : h < c.connections.length := (List.getElem?_eq_some_iff.mp hx).1
  simp only [connection?, setConnection]
  split
  · next hi => rw [hi, List.getElem?_set_self hlt]
  · next hi => rw [List.getElem?_set_ne (Ne.symm hi)]

theorem modifyConnection_of_some {c : Cluster} {h : Nat} {x : Connection}
    (hx : c.connection? h = some x) (f : Connection → Connection) :
    c.modifyConnection h f = c.setConnection h (f x) := by
  rw [connection?] at hx
  rw [modifyConnection, setConnection, List.modify_eq_set_getElem?, hx]
  rfl

theorem modifyConnection_of_none {c : Cluster} {h : Nat} (hnone : c.connection? h = none)
    (f : Connection → Connection) : c.modifyConnection h f = c := by
  rw [modifyConnection, List.modify_eq_self (List.getElem?_eq_none_iff.mp hnone)]

theorem later_setConnection {c : Cluster} {h : Nat} {x y : Connection}
    (hx : c.connection? h = some x) (hlater : x.Later y) : Later c (c.setConnection h y) := by
  intro i z hz
  rw [connection?_setConnection hx]
  split
  · next hi =>
    subst hi
    rw [hx, Option.some.injEq] at hz
    exact ⟨y, rfl, hz ▸ hlater⟩
  · exact ⟨z, hz, Connection.Later.refl z⟩

theorem Sound.setConnection {c : Cluster} (hsound : c.Sound) {h : Nat} {x y : Connection}
    (hx : c.connection? h = some x) (hy : y.writer.Sound) : (c.setConnection h y).Sound := by
  intro i z hz
  rw [connection?_setConnection hx] at hz
  split at hz
  · cases hz
    exact hy
  · exact hsound i z hz

/-! ## One send -/

def Slot.handle : Slot → Nat
  | .sending s => s.handle
  | .ended h _ => h

def Slot.succeeded : Slot → Bool
  | .ended _ (.ok ()) => true
  | _ => false

/-- A send that is under way has the frame and its place in line, and one that has failed has left
its connection dead. -/
def Slot.Fits (x : Connection) (frame : String) : Slot → Prop
  | .sending s => s.frame = frame ∧ x.Expects frame s.state
  | .ended _ (.error _) => x.live = false
  | .ended _ (.ok ()) => True

theorem Slot.Fits.later {x x' : Connection} {frame : String} {slot : Slot}
    (hfits : slot.Fits x frame) (hlater : x.Later x') : slot.Fits x' frame := by
  match slot with
  | .sending s => exact ⟨hfits.1, hfits.2.later hlater⟩
  | .ended _ (.error e) =>
    cases hlive : x'.live with
    | false => exact hlive
    | true => exact absurd (hlater.live hlive) (by simp [show x.live = false from hfits])
  | .ended _ (.ok ()) => trivial

def SlotOk (c : Cluster) (frame : String) (slot : Slot) : Prop :=
  ∃ x, c.connection? slot.handle = some x ∧ slot.Fits x frame

theorem SlotOk.later {c c' : Cluster} {frame : String} {slot : Slot} (hok : SlotOk c frame slot)
    (hlater : Later c c') : SlotOk c' frame slot := by
  obtain ⟨x, hx, hfits⟩ := hok
  obtain ⟨x', hx', hconnection⟩ := hlater _ x hx
  exact ⟨x', hx', hfits.later hconnection⟩

def Slot.after (s : Send) : Progress Send (Except Error Unit) → Slot
  | .blocked => .sending s
  | .moved s => .sending s
  | .done r => .ended s.handle r

theorem stepSend_spec {c : Cluster} (hsound : c.Sound) {frame : String} {s : Send}
    (hok : SlotOk c frame (.sending s)) :
    ∃ x x', c.connection? s.handle = some x ∧
      (c.stepSend false s).1 = c.setConnection s.handle x' ∧ x'.writer.Sound ∧ x.Later x' ∧
      (Slot.after s (c.stepSend false s).2).handle = s.handle ∧
      (Slot.after s (c.stepSend false s).2).Fits x' frame ∧
      x'.held = x.held ++
        if (Slot.after s (c.stepSend false s).2).succeeded then [frame] else [] := by
  obtain ⟨x, hx, hframe, hexpects⟩ := hok
  simp only [Slot.handle] at hx
  obtain ⟨hsound', hlater, hsent⟩ := Connection.stepSend_spec (hsound _ x hx) c.now hexpects
  refine ⟨x, (x.stepSend c.now false frame s.state).1, hx, ?_, hsound', hlater, ?_⟩
  · simp only [stepSend, hx, hframe]
  · simp only [stepSend, hx, hframe]
    generalize x.stepSend c.now false frame s.state = q at hsent hlater
    obtain ⟨x', _ | state | r⟩ := q
    · refine ⟨rfl, ⟨hframe, hexpects.later hlater⟩, ?_⟩
      simpa [Slot.after, Progress.mapState, Slot.succeeded, Connection.Sent] using hsent
    · refine ⟨rfl, ⟨rfl, hsent.2⟩, ?_⟩
      simpa [Slot.after, Progress.mapState, Slot.succeeded] using hsent.1
    · cases r with
      | ok u => exact ⟨rfl, trivial, hsent⟩
      | error e =>
        refine ⟨rfl, hsent.2, ?_⟩
        simpa [Slot.after, Progress.mapState, Slot.succeeded] using hsent.1

/-! ## All sends -/

def taken (slots : List Slot) (frame : String) (h : Nat) : List String :=
  (slots.filter fun slot => slot.succeeded && slot.handle = h).map fun _ => frame

theorem taken_cons (slot : Slot) (slots : List Slot) (frame : String) (h : Nat) :
    taken (slot :: slots) frame h =
      (if slot.succeeded && slot.handle = h then [frame] else []) ++ taken slots frame h := by
  unfold taken
  rw [List.filter_cons]
  split <;> rfl

theorem taken_of_not_mem {slots : List Slot} {h : Nat} (hslots : h ∉ slots.map Slot.handle)
    (frame : String) : taken slots frame h = [] := by
  rw [taken, List.map_eq_nil_iff, List.filter_eq_nil_iff]
  intro slot hslot
  have hne : slot.handle ≠ h := fun heq => hslots (List.mem_map.mpr ⟨slot, hslot, heq⟩)
  simp [hne]

theorem taken_length_le {slots : List Slot} (hnodup : (slots.map Slot.handle).Nodup)
    (frame : String) (h : Nat) : taken slots frame h = [] ∨ taken slots frame h = [frame] := by
  induction slots with
  | nil => exact Or.inl rfl
  | cons slot slots ih =>
    obtain ⟨hfresh, hnodup⟩ := List.nodup_cons.mp hnodup
    rw [taken_cons]
    split
    · next hslot =>
      simp only [Bool.and_eq_true, decide_eq_true_eq] at hslot
      rw [taken_of_not_mem (hslot.2 ▸ hfresh)]
      exact Or.inr rfl
    · exact ih hnodup

/-- A send to a live connection that has ended has succeeded. -/
theorem taken_of_ended {c : Cluster} {slots : List Slot} {frame : String} {h : Nat}
    (hnodup : (slots.map Slot.handle).Nodup) (hok : ∀ slot ∈ slots, SlotOk c frame slot)
    (hended : slots.all Slot.isEnded = true) (hmem : h ∈ slots.map Slot.handle)
    (hlive : c.isLive h = true) : taken slots frame h = [frame] := by
  obtain ⟨slot, hslot, rfl⟩ := List.mem_map.mp hmem
  apply (taken_length_le hnodup frame slot.handle).resolve_left
  intro hnil
  rw [taken, List.map_eq_nil_iff, List.filter_eq_nil_iff] at hnil
  have hsucceeded := hnil slot hslot
  have hend := List.all_eq_true.mp hended slot hslot
  obtain ⟨x, hx, hfits⟩ := hok slot hslot
  rw [isLive, hx, Option.any_some] at hlive
  match slot with
  | .sending s => cases hend
  | .ended _ (.error e) => exact absurd (hlive.symm.trans hfits) (by decide)
  | .ended _ (.ok ()) => simp [Slot.succeeded] at hsucceeded

structure Advance (c : Cluster) (slots : List Slot) (frame : String) (c' : Cluster)
    (slots' : List Slot) : Prop where
  others : c' = { c with connections := c'.connections }
  sound : c'.Sound
  later : Later c c'
  handles : slots'.map Slot.handle = slots.map Slot.handle
  ok : ∀ slot ∈ slots', SlotOk c' frame slot
  untouched : ∀ h, h ∉ slots.map Slot.handle → c'.connection? h = c.connection? h
  taken_eq : ∀ h, taken slots' frame h = taken slots frame h ++ news c c' h

theorem stepSlots_sending (c : Cluster) (s : Send) (rest : List Slot) :
    (c.stepSlots false (.sending s :: rest)).1 =
        ((c.stepSend false s).1.stepSlots false rest).1 ∧
      (c.stepSlots false (.sending s :: rest)).2.1 =
        Slot.after s (c.stepSend false s).2 ::
          ((c.stepSend false s).1.stepSlots false rest).2.1 := by
  rw [stepSlots]
  generalize c.stepSend false s = q
  obtain ⟨c', _ | s' | r⟩ := q <;> exact ⟨rfl, rfl⟩

theorem news_self (c : Cluster) (h : Nat) : news c c h = [] := List.drop_length

theorem news_of_untouched {c c' : Cluster} {h : Nat}
    (huntouched : c'.connection? h = c.connection? h) : news c c' h = [] := by
  rw [news, held, held, huntouched]
  exact List.drop_length

theorem news_of_found {c c' : Cluster} {h : Nat} {x x' : Connection} {frames : List String}
    (hx : c.connection? h = some x) (hx' : c'.connection? h = some x')
    (hheld : x'.held = x.held ++ frames) : news c c' h = frames := by
  rw [news, held, held, hx, hx', Option.map_some, Option.map_some, Option.getD_some,
    Option.getD_some, hheld, List.drop_left]

theorem Advance.cons_ended {c c' : Cluster} {rest rest' : List Slot} {frame : String} {h : Nat}
    {r : Except Error Unit} (hslot : SlotOk c frame (.ended h r))
    (hadvance : Advance c rest frame c' rest') :
    Advance c (.ended h r :: rest) frame c' (.ended h r :: rest') where
  others := hadvance.others
  sound := hadvance.sound
  later := hadvance.later
  handles := by simp [hadvance.handles]
  ok := by
    intro slot hmem
    rcases List.mem_cons.mp hmem with rfl | hmem
    · exact hslot.later hadvance.later
    · exact hadvance.ok slot hmem
  untouched := fun i hi => hadvance.untouched i fun hmem => hi (List.mem_cons_of_mem _ hmem)
  taken_eq := fun i => by rw [taken_cons, taken_cons, hadvance.taken_eq, List.append_assoc]

theorem Advance.cons_sending {c c' : Cluster} {s : Send} {slot : Slot} {rest rest' : List Slot}
    {frame : String} {x x' : Connection} (hx : c.connection? s.handle = some x)
    (hlater : x.Later x') (hhandle : slot.handle = s.handle) (hfits : slot.Fits x' frame)
    (hheld : x'.held = x.held ++ if slot.succeeded then [frame] else [])
    (hfresh : s.handle ∉ rest.map Slot.handle)
    (hadvance : Advance (c.setConnection s.handle x') rest frame c' rest') :
    Advance c (.sending s :: rest) frame c' (slot :: rest') := by
  obtain ⟨hothers, hsound, hlater', hhandles, hoks, huntouched, htaken⟩ := hadvance
  have hown := (huntouched s.handle hfresh).trans (connection?_setConnection hx x' s.handle)
  rw [if_pos rfl] at hown
  refine ⟨hothers, hsound, (later_setConnection hx hlater).trans hlater', ?_, ?_, ?_,
    fun i => ?_⟩
  · rw [List.map_cons, List.map_cons, hhandle, hhandles]
    rfl
  · intro slot' hmem
    rcases List.mem_cons.mp hmem with rfl | hmem
    · exact ⟨x', hhandle ▸ hown, hfits⟩
    · exact hoks slot' hmem
  · intro i hi
    rw [List.map_cons, List.mem_cons, not_or, Slot.handle] at hi
    rw [huntouched i hi.2, connection?_setConnection hx, if_neg hi.1]
  · -- What is new to the connection of the send comes from the send alone.
    rw [taken_cons, taken_cons, htaken, hhandle]
    by_cases hi : s.handle = i
    · subst hi
      rw [taken_of_not_mem hfresh, news_of_untouched (huntouched _ hfresh),
        news_of_found hx hown hheld]
      simp [show (Slot.sending s).succeeded = false from rfl]
    · have hsame : (c.setConnection s.handle x').held i = c.held i := by
        rw [held, held, connection?_setConnection hx, if_neg (Ne.symm hi)]
      simp only [Slot.handle, hi, decide_false, Bool.and_false, Bool.false_eq_true, if_false,
        List.nil_append, news, hsame]

theorem stepSlots_spec {slots : List Slot} {frame : String} {c : Cluster} (hsound : c.Sound)
    (hnodup : (slots.map Slot.handle).Nodup) (hok : ∀ slot ∈ slots, SlotOk c frame slot) :
    Advance c slots frame (c.stepSlots false slots).1 (c.stepSlots false slots).2.1 := by
  induction slots generalizing c with
  | nil =>
    exact ⟨rfl, hsound, Later.refl c, rfl, by simp [stepSlots], fun _ _ => rfl,
      fun h => by simp [stepSlots, news_self]⟩
  | cons slot rest ih =>
    obtain ⟨hfresh, hnodup'⟩ := List.nodup_cons.mp hnodup
    have hrest : ∀ slot ∈ rest, SlotOk c frame slot :=
      fun slot hslot => hok slot (List.mem_cons_of_mem _ hslot)
    have hslot := hok slot List.mem_cons_self
    match slot with
    | .ended h r =>
      rw [stepSlots]
      exact (ih hsound hnodup' hrest).cons_ended hslot
    | .sending s =>
      obtain ⟨x, x', hx, hstep, hsound', hlater, hhandle, hfits, hheld⟩ :=
        stepSend_spec hsound hslot
      obtain ⟨hfst, hsnd⟩ := stepSlots_sending c s rest
      have hmiddle := later_setConnection hx hlater
      rw [hfst, hsnd, hstep]
      refine Advance.cons_sending hx hlater hhandle hfits hheld hfresh
        (ih (hsound.setConnection hx hsound') hnodup' fun slot hmem => ?_)
      exact (hrest slot hmem).later hmiddle

end EventHub.Cluster
