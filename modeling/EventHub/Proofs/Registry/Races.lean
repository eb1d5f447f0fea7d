import EventHub.Proofs.Registry.Calls
/-!
# Registries used by many threads

While calls of several threads are under way the two tables disagree. What still has to be done to
them is known from where the calls stand: a name that is listed although its connection is gone is
one that some call is about to take off the list, a client without names is one that some call is
about to forget, and a connection that is not listed yet has a call that is about to list it. So the
tables agree once all calls have ended, provided that a name is always inserted for the same client,
and entirely if it is inserted only once.
-/

namespace EventHub.Registry

namespace Shared

open Call (Turned)

variable {s t : Shared}

def Stored (s : Shared) (m : Member) : Prop := ∃ d ∈ s.calls, d.stored? = some m

/-! ## One call of many goes on -/

section

variable {calls : List Call} {i : Nat} {c c' : Call} {P : Call → Prop}

theorem exists_set (hc : calls[i]? = some c) (hd : ∃ d ∈ calls, P d) :
    (∃ d ∈ calls.set i c', P d) ∨ P c := by
  obtain ⟨d, hd, hP⟩ := hd
  obtain ⟨j, hj⟩ := List.mem_iff_getElem?.mp hd
  by_cases hij : i = j
  · subst hij
    rw [hc, Option.some.injEq] at hj
    exact .inr (hj ▸ hP)
  · exact .inl ⟨d, List.mem_of_getElem? ((List.getElem?_set_ne hij).trans hj), hP⟩

theorem exists_append (hd : ∃ d ∈ calls, P d) : ∃ d ∈ calls ++ [c], P d :=
  hd.imp fun _ hd => hd.imp_left (List.mem_append_left _)

theorem mem_set_self (hc : calls[i]? = some c) : c' ∈ calls.set i c' :=
  List.mem_set (List.getElem?_eq_some_iff.mp hc).1 c'

end

/-! ## What always holds -/

variable {i : Nat} {c c' : Call} {r' : Registry} {m : Member}

theorem Stored.turned (hm : s.Stored m) (hc : s.calls[i]? = some c)
    (hturned : Turned s.registry c r' c') : Stored ⟨r', s.calls.set i c'⟩ m :=
  (exists_set hc hm).elim (fun h => h) fun hstored =>
    ⟨c', mem_set_self hc, hturned.stored hstored⟩

theorem Stored.started (hm : s.Stored m) (c : Call) : Stored ⟨s.registry, s.calls ++ [c]⟩ m :=
  exists_append hm

/-- Whatever is inserted: the connections in the table, those whose names are listed and those that
have been taken or found have been stored by some insertion, and a client without names is one that
some call is to forget. -/
structure Sound (s : Shared) : Prop where
  entries_nodup : (Table.keys s.registry.entries).Nodup
  names_nodup : ∀ client, (s.registry.names client).Nodup
  entry : ∀ id m, s.registry.find? id = some m → m.id = id ∧ s.Stored m
  name : ∀ client, ∀ id ∈ s.registry.names client,
    ∃ m : Member, m.id = id ∧ m.client = client ∧ s.Stored m
  taken : ∀ d ∈ s.calls, ∀ m, d.taken? = some m → s.Stored m
  returned : ∀ id m, .taken id (some m) ∈ s.calls → m.id = id
  emptied : ∀ client, s.registry.index.find? client = some [] →
    ∃ d ∈ s.calls, d.prunes? = some client
  found : ∀ d ∈ s.calls, ∀ client members, d.finds? = some (client, members) →
    ∀ m ∈ members, m.client = client ∧ s.Stored m

theorem sound_empty : Sound {} := by
  constructor <;> simp [Table.keys, names, find?, Table.find?]

theorem Sound.turned (hsound : s.Sound) (hc : s.calls[i]? = some c)
    (hstep : c.step s.registry = (r', c')) : Sound ⟨r', s.calls.set i c'⟩ := by
  have hturned : Turned s.registry c r' c' := by
    have hturned := c.step_turned s.registry
    rwa [hstep] at hturned
  have hcalls (d : Call) (hd : d ∈ s.calls.set i c') : d = c' ∨ d ∈ s.calls :=
    (List.mem_or_eq_of_mem_set hd).symm
  have hmem : c ∈ s.calls := List.mem_of_getElem? hc
  constructor
  case entries_nodup => exact hturned.nodup_entries hsound.entries_nodup
  case names_nodup => exact fun client => hturned.nodup_names (hsound.names_nodup client)
  case entry =>
    intro id m hm
    rcases hturned.found hm with hm | ⟨rfl, hid⟩
    · exact (hsound.entry id m hm).imp_right fun hstored => hstored.turned hc hturned
    · exact ⟨hid, c', mem_set_self hc, hturned.stores⟩
  case name =>
    intro client id hid
    rcases (hturned.listed hid).2 with hid | ⟨m, rfl, hclient, hid⟩
    · obtain ⟨m, hid, hclient, hstored⟩ := hsound.name client id hid
      exact ⟨m, hid, hclient, hstored.turned hc hturned⟩
    · exact ⟨m, hid, hclient, c', mem_set_self hc, hturned.stored rfl⟩
  case taken =>
    intro d hd m hm
    refine Stored.turned ?_ hc hturned
    rcases hcalls d hd with rfl | hd
    · rcases hturned.taken hm with hm | ⟨id, hfound, -⟩
      · exact hsound.taken c hmem m hm
      · exact (hsound.entry id m hfound).2
    · exact hsound.taken d hd m hm
  case returned =>
    intro id m hd
    rcases hcalls _ hd with hd | hd
    · have hresult : (c.step s.registry).2 = .taken id (some m) := by rw [hstep, ← hd]
      exact (Call.id_of_taken hresult).elim (fun h => h) fun h => hsound.returned id m (h ▸ hmem)
    · exact hsound.returned id m hd
  case emptied =>
    intro client hnil
    rcases hturned.emptied hnil with hc' | ⟨hnil, hother⟩
    · exact ⟨c', mem_set_self hc, hc'⟩
    · exact (exists_set hc (hsound.emptied client hnil)).resolve_right hother
  case found =>
    intro d hd client members hfinds m hm
    have hstored : m.client = client ∧ s.Stored m := by
      rcases hcalls d hd with rfl | hd
      · have hresult : (c.step s.registry).2.finds? = some (client, members) := by
          rw [hstep, hfinds]
        rcases Call.mem_of_finds hresult hm with ⟨before, hbefore, hm⟩ | ⟨hclient, id, hid⟩
        · exact hsound.found c hmem client before hbefore m hm
        · exact ⟨hclient, (hsound.entry id m hid).2⟩
      · exact hsound.found d hd client members hfinds m hm
    exact hstored.imp_right fun hstored => hstored.turned hc hturned

theorem Sound.started (hsound : s.Sound)
    (hfresh : (∃ m, c = .insert m) ∨ (∃ id, c = .take id) ∨ ∃ client, c = .find client) :
    Sound ⟨s.registry, s.calls ++ [c]⟩ := by
  have hcalls {d : Call} (hd : d ∈ s.calls ++ [c]) : d ∈ s.calls ∨ d = c :=
    (List.mem_append.mp hd).imp_right List.mem_singleton.mp
  constructor
  case entries_nodup => exact hsound.entries_nodup
  case names_nodup => exact hsound.names_nodup
  case entry => exact fun id m hm => (hsound.entry id m hm).imp_right (·.started c)
  case name =>
    intro client id hid
    obtain ⟨m, hid, hclient, hstored⟩ := hsound.name client id hid
    exact ⟨m, hid, hclient, hstored.started c⟩
  case taken =>
    intro d hd m hm
    rcases hcalls hd with hd | rfl
    · exact (hsound.taken d hd m hm).started c
    · rcases hfresh with ⟨_, rfl⟩ | ⟨_, rfl⟩ | ⟨_, rfl⟩ <;> cases hm
  case returned =>
    intro id m hd
    rcases hcalls hd with hd | rfl
    · exact hsound.returned id m hd
    · rcases hfresh with ⟨_, h⟩ | ⟨_, h⟩ | ⟨_, h⟩ <;> cases h
  case emptied =>
    exact fun client hnil => exists_append (hsound.emptied client hnil)
  case found =>
    intro d hd client members hfinds m hm
    rcases hcalls hd with hd | rfl
    · exact (hsound.found d hd client members hfinds m hm).imp_right (·.started c)
    · rcases hfresh with ⟨_, rfl⟩ | ⟨_, rfl⟩ | ⟨_, rfl⟩ <;> cases hfinds

theorem Reachable.sound (hs : Reachable s) : s.Sound := by
  induction hs with
  | empty => exact sound_empty
  | step _ hstep ih =>
    cases hstep with
    | advance i c hc => exact ih.turned hc rfl
    | start c hfresh => exact ih.started hfresh

/-! ## Names that are inserted for one client -/

/-- The connections that have been or are to be inserted, one for each call. -/
def inserted (s : Shared) : List Member := s.calls.filterMap Call.inserts?

def SameClients (s : Shared) : Prop :=
  ∀ m ∈ s.inserted, ∀ n ∈ s.inserted, m.id = n.id → m.client = n.client

def InsertedOnce (s : Shared) : Prop := (s.inserted.map (·.id)).Nodup

/-- No insertion and no removal is under way. -/
def Settled (s : Shared) : Prop := ∀ c ∈ s.calls, c.changes = false

instance (s : Shared) : Decidable s.SameClients :=
  inferInstanceAs
    (Decidable (∀ m ∈ s.inserted, ∀ n ∈ s.inserted, m.id = n.id → m.client = n.client))

instance (s : Shared) : Decidable s.InsertedOnce :=
  inferInstanceAs (Decidable (s.inserted.map (·.id)).Nodup)

instance (s : Shared) : Decidable s.Settled :=
  inferInstanceAs (Decidable (∀ c ∈ s.calls, c.changes = false))

/-- A call inserts the same connection all the way, and new calls come last. -/
theorem inserted_of_step (hstep : Step s t) : s.inserted <+: t.inserted := by
  cases hstep with
  | advance i c hc =>
    obtain ⟨hi, rfl⟩ := List.getElem?_eq_some_iff.mp hc
    have hmap : (s.calls.set i (s.calls[i].step s.registry).2).map Call.inserts? =
        s.calls.map Call.inserts? := by
      rw [List.map_set, (s.calls[i].step_turned s.registry).inserts, ← List.map_set,
        List.set_getElem_self]
    have hinserted := congrArg (List.filterMap id) hmap
    rw [List.filterMap_map, List.filterMap_map, Function.id_comp] at hinserted
    exact ⟨[], (List.append_nil _).trans hinserted.symm⟩
  | start d => exact ⟨[d].filterMap Call.inserts?, (List.filterMap_append).symm⟩

theorem SameClients.of_step (ht : t.SameClients) (hstep : Step s t) : s.SameClients :=
  fun m hm n hn => ht m ((inserted_of_step hstep).subset hm) n ((inserted_of_step hstep).subset hn)

theorem InsertedOnce.of_step (ht : t.InsertedOnce) (hstep : Step s t) : s.InsertedOnce :=
  List.Nodup.sublist ((inserted_of_step hstep).sublist.map _) ht

theorem InsertedOnce.sameClients (honce : s.InsertedOnce) : s.SameClients :=
  fun _ hm _ hn hid => congrArg _ (List.inj_on_of_nodup_map honce hm hn hid)

theorem InsertedOnce.eq_of_id (honce : s.InsertedOnce) {i j : Nat} {c d : Call} {m n : Member}
    (hc : s.calls[i]? = some c) (hd : s.calls[j]? = some d) (hm : c.inserts? = some m)
    (hn : d.inserts? = some n) (hid : m.id = n.id) : i = j := by
  have hpairwise : s.calls.Pairwise fun c d =>
      ∀ m, c.inserts? = some m → ∀ n, d.inserts? = some n →
      m.id ≠ n.id := List.pairwise_filterMap.mp (List.pairwise_map.mp honce)
  obtain ⟨hi, rfl⟩ := List.getElem?_eq_some_iff.mp hc
  obtain ⟨hj, rfl⟩ := List.getElem?_eq_some_iff.mp hd
  rcases Nat.lt_trichotomy i j with hij | rfl | hij
  · exact absurd hid (List.pairwise_iff_getElem.mp hpairwise i j hi hj hij m hm n hn)
  · rfl
  · exact absurd hid.symm (List.pairwise_iff_getElem.mp hpairwise j i hj hi hij n hn m hm)

theorem Stored.mem_inserted (hm : s.Stored m) : m ∈ s.inserted := by
  obtain ⟨d, hd, hm⟩ := hm
  exact List.mem_filterMap.mpr ⟨d, hd, Call.inserts_of_stored hm⟩

def Linked (s : Shared) : Prop :=
  ∀ client, ∀ id ∈ s.registry.names client, s.registry.contains id = true ∨
    ∃ d ∈ s.calls, d.clears? = some (client, id)

theorem Linked.turned (hlinked : s.Linked) (hsound : s.Sound) (hsame : s.SameClients)
    (hc : s.calls[i]? = some c) (hturned : Turned s.registry c r' c') :
    Linked ⟨r', s.calls.set i c'⟩ := by
  intro client id hid
  have hself : c' ∈ s.calls.set i c' := mem_set_self hc
  obtain ⟨hother, hlisted | ⟨m, rfl, rfl, rfl⟩⟩ := hturned.listed hid
  · rcases hlinked client id hlisted with hcontains | hclears
    · obtain ⟨m, hm⟩ := Option.isSome_iff_exists.mp hcontains
      rcases hturned.kept hm with hcontains | ⟨-, rfl⟩
      · exact .inl hcontains
      · -- the name has been stored for this client, so the removal unlinks it from there
        obtain ⟨rfl, hstored⟩ := hsound.entry id m hm
        obtain ⟨n, hn, rfl, hstored'⟩ := hsound.name client m.id hlisted
        rw [← hsame m hstored.mem_inserted n hstored'.mem_inserted hn.symm]
        exact .inr ⟨_, hself, rfl⟩
    · rcases exists_set hc hclears with hclears | hclears
      · exact .inr hclears
      · rcases hturned.clears hclears with hclears | hunlinks | hcontains
        · exact .inr ⟨c', hself, hclears⟩
        · exact absurd hunlinks hother
        · exact .inl hcontains
  · cases hturned with
    | link => exact .inr ⟨_, hself, rfl⟩
    | unlink _ _ hunlinks => cases hunlinks
    | prune _ hprunes => cases hprunes
    | pass hidle => cases hidle.links

theorem Reachable.linked (hs : Reachable s) (hsame : s.SameClients) : s.Linked := by
  induction hs with
  | empty => simp [Linked, names, Table.find?]
  | step hs hstep ih =>
    have hbefore := hsame.of_step hstep
    cases hstep with
    | advance i c hc => exact (ih hbefore).turned hs.sound hbefore hc (c.step_turned _)
    | start c =>
      intro client id hid
      exact (ih hbefore client id hid).imp_right exists_append

/-! ## Names that are inserted once -/

/-- An insertion stores the first connection under its name. -/
theorem InsertedOnce.not_stored (honce : s.InsertedOnce) (hc : s.calls[i]? = some (.insert m))
    {n : Member} (hid : n.id = m.id) : ¬ s.Stored n := by
  rintro ⟨d, hd, hn⟩
  obtain ⟨j, hj⟩ := List.mem_iff_getElem?.mp hd
  obtain rfl := honce.eq_of_id hc hj rfl (Call.inserts_of_stored hn) hid.symm
  rw [hc, Option.some.injEq] at hj
  rw [← hj] at hn
  cases hn

/-- A connection that has been stored and is not in the table does not come back. -/
theorem Stored.stays_away (hm : s.Stored m) (honce : s.InsertedOnce) (hc : s.calls[i]? = some c)
    (hturned : Turned s.registry c r' c') (hnone : s.registry.find? m.id = none) :
    r'.find? m.id = none := by
  refine Option.eq_none_iff_forall_ne_some.mpr fun n hn => ?_
  rcases hturned.found hn with hn | ⟨rfl, hid⟩
  · rw [hnone] at hn
    cases hn
  · exact honce.not_stored hc hid.symm hm

/-- What has been taken was so before, or the call that goes on finds it in the table. -/
theorem Sound.taken_before (hsound : s.Sound) (hc : s.calls[i]? = some c)
    (hturned : Turned s.registry c r' c') {j : Nat} {d : Call}
    (hd : (s.calls.set i c')[j]? = some d) (hm : d.taken? = some m) :
    (∃ e, s.calls[j]? = some e ∧ e.taken? = some m) ∨
      j = i ∧ s.registry.find? m.id = some m := by
  by_cases hij : i = j
  · subst hij
    rw [List.getElem?_set_self (List.getElem?_eq_some_iff.mp hc).1, Option.some.injEq] at hd
    subst hd
    rcases hturned.taken hm with hm | ⟨id, hfound, -⟩
    · exact .inl ⟨c, hc, hm⟩
    · exact .inr ⟨rfl, (hsound.entry id m hfound).1 ▸ hfound⟩
  · exact .inl ⟨d, (List.getElem?_set_ne hij).symm.trans hd, hm⟩

/-- A connection in the table is listed or about to be; one that is being unlinked or has been taken
is not in the table, and nobody else has taken it. -/
structure Single (s : Shared) : Prop where
  listed : ∀ id m, s.registry.find? id = some m →
    id ∈ s.registry.names m.client ∨ ∃ d ∈ s.calls, d.links? = some m
  unlinked : ∀ d ∈ s.calls, ∀ client id, d.unlinks? = some (client, id) →
    s.registry.find? id = none
  absent : ∀ d ∈ s.calls, ∀ m, d.taken? = some m → s.registry.find? m.id = none
  taken_once : ∀ (i j : Nat) (c d : Call) (m n : Member), s.calls[i]? = some c →
    s.calls[j]? = some d → c.taken? = some m → d.taken? = some n → m.id = n.id → i = j

theorem Single.turned (hsingle : s.Single) (hsound : s.Sound) (honce : s.InsertedOnce)
    (hc : s.calls[i]? = some c) (hturned : Turned s.registry c r' c') :
    Single ⟨r', s.calls.set i c'⟩ := by
  have hmem : c ∈ s.calls := List.mem_of_getElem? hc
  have hcalls {d : Call} (hd : d ∈ s.calls.set i c') : d = c' ∨ d ∈ s.calls :=
    (List.mem_or_eq_of_mem_set hd).symm
  have hnew {n : Member} (hn : c = .insert n) : s.registry.find? n.id = none := by
    refine Option.eq_none_iff_forall_ne_some.mpr fun p hp => ?_
    obtain ⟨hid, hstored⟩ := hsound.entry n.id p hp
    exact honce.not_stored (hn ▸ hc) hid hstored
  have hgone {n : Member} (hn : s.Stored n) (hnone : s.registry.find? n.id = none) :
      r'.find? n.id = none := hn.stays_away honce hc hturned hnone
  constructor
  case listed =>
    intro id m hm
    rcases hturned.found hm with hfound | ⟨rfl, rfl⟩
    · rcases hsingle.listed id m hfound with hid | hlinks
      · refine .inl ((hturned.stays hid).resolve_right fun hunlinks => ?_)
        rw [hsingle.unlinked c hmem _ _ hunlinks] at hfound
        cases hfound
      · refine (exists_set hc hlinks).symm.imp_left fun hlinks => ?_
        rw [← (hsound.entry id m hfound).1]
        obtain rfl := Call.eq_link_of_links hlinks
        exact hturned.linked
    · exact .inr ⟨c', mem_set_self hc, hturned.links (hnew rfl)⟩
  case unlinked =>
    intro d hd client id hunlinks
    rcases hcalls hd with rfl | hd
    · rcases hturned.unlinks (fun id m hm => (hsound.entry id m hm).1) hunlinks with
        hnone | ⟨m, p, hinsert, hfound⟩
      · exact hnone
      · rw [hnew hinsert] at hfound
        cases hfound
    · have hnone := hsingle.unlinked d hd client id hunlinks
      obtain ⟨n, rfl, hn | hn⟩ := Call.exists_of_unlinks hunlinks
      · exact hgone ⟨d, hd, hn⟩ hnone
      · exact hgone (hsound.taken d hd n hn) hnone
  case absent =>
    intro d hd m hm
    rcases hcalls hd with rfl | hd
    · rcases hturned.taken hm with hm | ⟨id, hfound, hnone⟩
      · exact hgone (hsound.taken c hmem m hm) (hsingle.absent c hmem m hm)
      · rwa [(hsound.entry id m hfound).1]
    · exact hgone (hsound.taken d hd m hm) (hsingle.absent d hd m hm)
  case taken_once =>
    intro j k d e m n hd he hm hn hid
    -- What this step takes is in the table, and what has been taken is not.
    rcases hsound.taken_before hc hturned hd hm with ⟨d, hd, hm⟩ | ⟨rfl, hm⟩
    · rcases hsound.taken_before hc hturned he hn with ⟨e, he, hn⟩ | ⟨-, hn⟩
      · exact hsingle.taken_once j k d e m n hd he hm hn hid
      · rw [← hid, hsingle.absent d (List.mem_of_getElem? hd) m hm] at hn
        cases hn
    · rcases hsound.taken_before hc hturned he hn with ⟨e, he, hn⟩ | ⟨rfl, -⟩
      · rw [hid, hsingle.absent e (List.mem_of_getElem? he) n hn] at hm
        cases hm
      · rfl

theorem Single.started (hsingle : s.Single)
    (hfresh : (∃ m, c = .insert m) ∨ (∃ id, c = .take id) ∨ ∃ client, c = .find client) :
    Single ⟨s.registry, s.calls ++ [c]⟩ := by
  have hcalls {j : Nat} {d : Call} {m : Member} (hd : (s.calls ++ [c])[j]? = some d)
      (hm : d.taken? = some m) : s.calls[j]? = some d := by
    by_cases hj : j < s.calls.length
    · rwa [List.getElem?_append_left hj] at hd
    · obtain rfl : d = c := by
        rw [List.getElem?_append_right (Nat.le_of_not_lt hj)] at hd
        exact List.mem_singleton.mp (List.mem_of_getElem? hd)
      rcases hfresh with ⟨_, rfl⟩ | ⟨_, rfl⟩ | ⟨_, rfl⟩ <;> cases hm
  constructor
  case listed =>
    exact fun id m hm => (hsingle.listed id m hm).imp_right exists_append
  case unlinked =>
    intro d hd client id hunlinks
    rcases List.mem_append.mp hd with hd | hd
    · exact hsingle.unlinked d hd client id hunlinks
    · obtain rfl := List.mem_singleton.mp hd
      rcases hfresh with ⟨_, rfl⟩ | ⟨_, rfl⟩ | ⟨_, rfl⟩ <;> cases hunlinks
  case absent =>
    intro d hd m hm
    obtain ⟨j, hj⟩ := List.mem_iff_getElem?.mp hd
    exact hsingle.absent d (List.mem_of_getElem? (hcalls hj hm)) m hm
  case taken_once =>
    intro j k d e m n hd he hm hn hid
    exact hsingle.taken_once j k d e m n (hcalls hd hm) (hcalls he hn) hm hn hid

theorem Reachable.single (hs : Reachable s) (honce : s.InsertedOnce) : s.Single := by
  induction hs with
  | empty => constructor <;> simp [find?, Table.find?]
  | step hs hstep ih =>
    have hbefore := honce.of_step hstep
    cases hstep with
    | advance i c hc => exact (ih hbefore).turned hs.sound hbefore hc (c.step_turned _)
    | start c hfresh => exact (ih hbefore).started hfresh

/-! ## Tables that agree at the end -/

theorem Reachable.contains_of_names (hs : Reachable s) (hsame : s.SameClients)
    (hsettled : s.Settled) {client : ClientId} {id : ConnectionId}
    (hid : id ∈ s.registry.names client) : s.registry.contains id = true := by
  refine (hs.linked hsame client id hid).resolve_right ?_
  rintro ⟨d, hd, hclears⟩
  rw [(Call.idle_of_not_changes (hsettled d hd)).clears] at hclears
  cases hclears

theorem Reachable.index_ne_nil (hs : Reachable s) (hsettled : s.Settled) (client : ClientId) :
    s.registry.index.find? client ≠ some [] := by
  intro hnil
  obtain ⟨d, hd, hprunes⟩ := hs.sound.emptied client hnil
  rw [(Call.idle_of_not_changes (hsettled d hd)).prunes] at hprunes
  cases hprunes

theorem Reachable.agrees (hs : Reachable s) (honce : s.InsertedOnce) (hsettled : s.Settled) :
    s.registry.Agrees where
  entries_nodup := hs.sound.entries_nodup
  id_eq id m hm := (hs.sound.entry id m hm).1
  names_nodup := hs.sound.names_nodup
  mem_names client id := by
    constructor
    · intro hid
      obtain ⟨m, hm⟩ := Option.isSome_iff_exists.mp
        (hs.contains_of_names honce.sameClients hsettled hid)
      obtain ⟨rfl, hstored⟩ := hs.sound.entry id m hm
      obtain ⟨n, hn, rfl, hstored'⟩ := hs.sound.name client m.id hid
      exact ⟨m, hm, honce.sameClients m hstored.mem_inserted n hstored'.mem_inserted hn.symm⟩
    · rintro ⟨m, hm, rfl⟩
      refine ((hs.single honce).listed id m hm).resolve_right ?_
      rintro ⟨d, hd, hlinks⟩
      rw [(Call.idle_of_not_changes (hsettled d hd)).links] at hlinks
      cases hlinks
  index_ne_nil := hs.index_ne_nil hsettled

/-- When no insertion and no removal is under way, nothing is listed that is not there, provided
that a name stands for one client; if no name comes twice the tables agree, and no connection is
ever taken twice. A look-up is right even while others are under way. -/
theorem Reachable.tables_settle (hs : Reachable s) :
    (s.SameClients → s.Settled →
      (∀ client, ∀ id ∈ s.registry.names client, s.registry.contains id = true) ∧
        ∀ client, s.registry.index.find? client ≠ some []) ∧
    (s.InsertedOnce → (s.Settled → s.registry.Agrees) ∧
      ∀ (i j : Nat) (id : ConnectionId) (m n : Member),
        s.calls[i]? = some (.taken id (some m)) →
        s.calls[j]? = some (.taken id (some n)) → i = j) ∧
    ∀ client members, .found client members ∈ s.calls →
      ∀ m ∈ members, m.client = client ∧ m ∈ s.inserted := by
  refine ⟨fun hsame hsettled => ⟨fun client id hid => hs.contains_of_names hsame hsettled hid,
    hs.index_ne_nil hsettled⟩, fun honce => ⟨hs.agrees honce, ?_⟩, ?_⟩
  · intro i j id m n hi hj
    have hm := hs.sound.returned id m (List.mem_of_getElem? hi)
    have hn := hs.sound.returned id n (List.mem_of_getElem? hj)
    exact (hs.single honce).taken_once i j _ _ m n hi hj rfl rfl (hm.trans hn.symm)
  · intro client members hfound m hm
    obtain ⟨hclient, hstored⟩ := hs.sound.found _ hfound client members rfl m hm
    exact ⟨hclient, hstored.mem_inserted⟩

/-! ### A race -/

def advance (s : Shared) (i : Nat) : Shared :=
  match s.calls[i]? with
  | none => s
  | some c => ⟨(c.step s.registry).1, s.calls.set i (c.step s.registry).2⟩

theorem Reachable.advance (hs : Reachable s) (i : Nat) : Reachable (s.advance i) := by
  unfold Shared.advance
  split
  · exact hs
  · next c hc => exact hs.step (.advance s i c hc)

theorem Reachable.schedule (hs : Reachable s) (schedule : List Nat) :
    Reachable (schedule.foldl Shared.advance s) := by
  induction schedule generalizing s with
  | nil => exact hs
  | cons i schedule ih => exact ih (hs.advance i)

def stays : Member := ⟨⟨"a"⟩, "anna", 1⟩

def leaves : Member := ⟨⟨"b"⟩, "anna", 2⟩

/-- While a connection is being added, another one is taken between the storing and the linking of
it, and the client is looked up. -/
def raced : Shared :=
  [0, 0, 0, 1, 2, 2, 2, 1, 3, 1, 3, 1, 3, 3, 1].foldl advance
    ⟨{}, [.insert stays, .insert leaves, .take leaves.id, .find "anna"]⟩

theorem tables_settle_raced :
    raced.Reachable ∧ raced.InsertedOnce ∧ raced.Settled ∧
      raced.calls = [.inserted stays, .inserted leaves, .taken leaves.id (some leaves),
        .found "anna" [stays]] ∧
      raced.registry.Agrees := by
  have hfresh :
      Reachable ⟨{}, [.insert stays, .insert leaves, .take leaves.id, .find "anna"]⟩ :=
    (((Reachable.empty.step (.start _ _ (.inl ⟨stays, rfl⟩))).step
      (.start _ _ (.inl ⟨leaves, rfl⟩))).step
        (.start _ _ (.inr (.inl ⟨leaves.id, rfl⟩)))).step
      (.start _ _ (.inr (.inr ⟨"anna", rfl⟩)))
  have hraced : raced.Reachable := hfresh.schedule _
  have honce : raced.InsertedOnce := by decide
  have hsettled : raced.Settled := by decide
  exact ⟨hraced, honce, hsettled, by decide,
    ((Reachable.tables_settle hraced).2.1 honce).1 hsettled⟩

end Shared

end EventHub.Registry
