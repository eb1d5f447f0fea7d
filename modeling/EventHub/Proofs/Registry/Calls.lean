import EventHub.Proofs.Registry.Agreement
import EventHub.Registry.Threads
import Mathlib.Logic.Relation
/-!
# Operations on a registry, part by part

An insertion, a removal or a look-up that no other thread comes in between does what the whole
operation does. In general each part reads and changes one table only, and from where a call stands
follows what it has done and what it has still to do.
-/

namespace EventHub.Registry

namespace Call

/-! ## Calls that no other comes in between -/

def Next (p q : Registry × Call) : Prop := q = p.2.step p.1

section

open Relation (ReflTransGen)

theorem insert_alone (r : Registry) (m : Member) :
    ReflTransGen Next (r, insert m) (r.insert m, inserted m) := by
  have hcheck (r : Registry) : ReflTransGen Next (r, check m)
      (if r.contains m.id then r else r.unindex m.client m.id, inserted m) := by
    refine .head rfl ?_
    rw [step]
    split
    · exact .refl
    · exact .head rfl (.head rfl .refl)
  refine .head rfl ?_
  rw [step, Registry.insert]
  cases r.find? m.id with
  | none => exact .head rfl (hcheck _)
  | some p =>
    simp only
    split
    · exact .head rfl (.head rfl (.head rfl (hcheck _)))
    · exact .head rfl (hcheck _)

theorem take_alone (r : Registry) (id : ConnectionId)
    (hid : ∀ m, r.find? id = some m → m.id = id) :
    ReflTransGen Next (r, take id) ((r.take id).1, taken id (r.take id).2) := by
  refine .head rfl ?_
  rw [step, Registry.take]
  cases hm : r.find? id with
  | none => exact .refl
  | some m =>
    obtain rfl := hid m hm
    exact .head rfl (.head rfl .refl)

theorem find_alone (r : Registry) (client : ClientId) :
    ReflTransGen Next (r, find client) (r, found client (r.membersOf client)) := by
  have hfinding (left : List ConnectionId) (members : List Member) :
      ReflTransGen Next (r, finding client left members)
        (r, found client
          (members ++ (left.filterMap r.find?).filter fun m => m.client = client)) := by
    induction left generalizing members with
    | nil => exact .head rfl (by rw [step]; simpa using .refl)
    | cons id left ih =>
      have hfound :
          members ++ ((id :: left).filterMap r.find?).filter (fun m => m.client = client) =
          members ++ (r.find? id).toList.filter (fun m => m.client = client) ++
            (left.filterMap r.find?).filter fun m => m.client = client := by
        cases hm : r.find? id <;> simp [List.filter_cons, hm]
        split <;> rfl
      rw [hfound]
      exact .head rfl (ih _)
  exact .head rfl (hfinding _ [])

end

/-! ## What a call has done and has still to do -/

def inserts? : Call → Option Member
  | insert m | unlinkFormer m _ | pruneFormer m _ | link m | check m | unlinkOwn m | pruneOwn m
  | inserted m => some m
  | _ => none

def stored? : Call → Option Member
  | insert _ => none
  | c => c.inserts?

def taken? : Call → Option Member
  | unlinkTaken m | pruneTaken m => some m
  | taken _ result => result
  | _ => none

/-- The name that the call takes off the list of a client next. -/
def unlinks? : Call → Option (ClientId × ConnectionId)
  | unlinkFormer m former => some (former, m.id)
  | unlinkOwn m | unlinkTaken m => some (m.client, m.id)
  | _ => none

/-- The name that the call will take off the list of its client unless it finds the connection. -/
def clears? : Call → Option (ClientId × ConnectionId)
  | check m | unlinkOwn m | unlinkTaken m => some (m.client, m.id)
  | _ => none

def links? : Call → Option Member
  | link m => some m
  | _ => none

def prunes? : Call → Option ClientId
  | pruneFormer _ former => some former
  | pruneOwn m | pruneTaken m => some m.client
  | _ => none

def finds? : Call → Option (ClientId × List Member)
  | finding client _ members | found client members => some (client, members)
  | _ => none

def changes : Call → Bool
  | inserted _ | taken .. | find _ | finding .. | found .. => false
  | _ => true

/-- The tables hold all that the call is to insert, and nothing else of them is left to do. -/
structure Idle (c : Call) : Prop where
  stored : c.stored? = c.inserts?
  unlinks : c.unlinks? = none
  clears : c.clears? = none
  prunes : c.prunes? = none
  links : c.links? = none

structure Same (c c' : Call) : Prop where
  inserts : c'.inserts? = c.inserts?
  stored : c'.stored? = c.stored?
  taken : c'.taken? = c.taken?

theorem idle_of_not_changes {c : Call} (hc : c.changes = false) : c.Idle := by
  cases c with
  | inserted | taken | find | finding | found => exact ⟨rfl, rfl, rfl, rfl, rfl⟩
  | _ => cases hc

/-- A name is unlinked for a connection that has been stored, or been taken. -/
theorem exists_of_unlinks {c : Call} {client : ClientId} {id : ConnectionId}
    (hc : c.unlinks? = some (client, id)) :
    ∃ m : Member, m.id = id ∧ (c.stored? = some m ∨ c.taken? = some m) := by
  cases c <;> cases hc
  · exact ⟨_, rfl, .inl rfl⟩
  · exact ⟨_, rfl, .inl rfl⟩
  · exact ⟨_, rfl, .inr rfl⟩

theorem eq_link_of_links {c : Call} {m : Member} (hc : c.links? = some m) : c = .link m := by
  cases c <;> cases hc
  rfl

theorem inserts_of_stored {c : Call} {m : Member} (hc : c.stored? = some m) :
    c.inserts? = some m := by
  cases c with
  | insert => cases hc
  | _ => exact hc

inductive Turned (r : Registry) : Call → Registry → Call → Prop where
  | put (m : Member) (hclient : ∀ p, r.find? m.id = some p → p.client = m.client) :
      Turned r (insert m) (r.put m) (link m)
  | replace (m p : Member) (hfound : r.find? m.id = some p) (hclient : p.client ≠ m.client) :
      Turned r (insert m) (r.put m) (unlinkFormer m p.client)
  | link (m : Member) : Turned r (link m) (r.link m.client m.id) (check m)
  | keep (m : Member) (hfound : r.contains m.id = true) : Turned r (check m) r (inserted m)
  | lose (m : Member) (hfound : r.find? m.id = none) : Turned r (check m) r (unlinkOwn m)
  | drop (id : ConnectionId) (m : Member) (hfound : r.find? id = some m) :
      Turned r (take id) (r.drop id) (unlinkTaken m)
  | unlink {c c' : Call} (client : ClientId) (id : ConnectionId)
      (hc : c.unlinks? = some (client, id)) (hc' : c'.prunes? = some client)
      (hsame : Same c c') : Turned r c (r.unlink client id) c'
  | prune {c c' : Call} (client : ClientId) (hc : c.prunes? = some client)
      (hc' : c'.unlinks? = none) (hsame : Same c c') : Turned r c (r.prune client) c'
  | pass {c c' : Call} (hc : c.Idle) (hc' : c'.Idle) (hsame : Same c c') : Turned r c r c'

theorem step_turned (r : Registry) (c : Call) : Turned r c (c.step r).1 (c.step r).2 := by
  cases c with
  | insert m =>
    rw [step]
    split
    · next p hp =>
      split
      · next hclient => exact .replace m p hp hclient
      · next hclient =>
        refine .put m fun q hq => ?_
        rw [hp, Option.some.injEq] at hq
        rw [← hq]
        exact not_not.mp hclient
    · next hnone => exact .put m fun q hq => by simp [hnone] at hq
  | unlinkFormer m former => exact .unlink _ _ rfl rfl ⟨rfl, rfl, rfl⟩
  | pruneFormer m former => exact .prune _ rfl rfl ⟨rfl, rfl, rfl⟩
  | link m => exact .link m
  | check m =>
    rw [step]
    split
    · next hfound => exact .keep m hfound
    · next hfound => exact .lose m (by simpa [contains] using hfound)
  | unlinkOwn m => exact .unlink _ _ rfl rfl ⟨rfl, rfl, rfl⟩
  | pruneOwn m => exact .prune _ rfl rfl ⟨rfl, rfl, rfl⟩
  | take id =>
    rw [step]
    split
    · exact .pass ⟨rfl, rfl, rfl, rfl, rfl⟩ ⟨rfl, rfl, rfl, rfl, rfl⟩ ⟨rfl, rfl, rfl⟩
    · next m hfound => exact .drop id m hfound
  | unlinkTaken m => exact .unlink _ _ rfl rfl ⟨rfl, rfl, rfl⟩
  | pruneTaken m => exact .prune _ rfl rfl ⟨rfl, rfl, rfl⟩
  | finding client left members =>
    cases left <;>
      exact .pass ⟨rfl, rfl, rfl, rfl, rfl⟩ ⟨rfl, rfl, rfl, rfl, rfl⟩ ⟨rfl, rfl, rfl⟩
  | inserted | taken | find | found =>
    exact .pass ⟨rfl, rfl, rfl, rfl, rfl⟩ ⟨rfl, rfl, rfl, rfl, rfl⟩ ⟨rfl, rfl, rfl⟩

variable {r r' : Registry} {c c' : Call} {m : Member}

theorem Turned.inserts (hturned : Turned r c r' c') : c'.inserts? = c.inserts? := by
  cases hturned with
  | unlink client id _ _ hsame => exact hsame.inserts
  | prune client _ _ hsame => exact hsame.inserts
  | pass _ _ hsame => exact hsame.inserts
  | _ => rfl

theorem Turned.stored (hturned : Turned r c r' c') (hc : c.stored? = some m) :
    c'.stored? = some m := by
  cases hturned with
  | unlink client id _ _ hsame => exact hsame.stored.trans hc
  | prune client _ _ hsame => exact hsame.stored.trans hc
  | pass _ _ hsame => exact hsame.stored.trans hc
  | put | replace | drop => cases hc
  | _ => exact hc

/-- A connection is taken while it is in the table, and is not there afterwards. -/
theorem Turned.taken (hturned : Turned r c r' c') (hc : c'.taken? = some m) :
    c.taken? = some m ∨ ∃ id, r.find? id = some m ∧ r'.find? id = none := by
  cases hturned with
  | drop id m' hfound => cases hc; exact .inr ⟨id, hfound, by rw [find?_drop, if_pos rfl]⟩
  | unlink client id _ _ hsame => exact .inl (hsame.taken ▸ hc)
  | prune client _ _ hsame => exact .inl (hsame.taken ▸ hc)
  | pass _ _ hsame => exact .inl (hsame.taken ▸ hc)
  | _ => cases hc

/-! ## What a step does to the tables -/

variable {client : ClientId} {id : ConnectionId}

theorem Turned.found (hturned : Turned r c r' c') (hm : r'.find? id = some m) :
    r.find? id = some m ∨ c = insert m ∧ m.id = id := by
  cases hturned with
  | put m' | replace m' =>
    rw [find?_put] at hm
    split at hm
    · next hid =>
      cases hm
      exact .inr ⟨rfl, hid⟩
    · exact .inl hm
  | drop key m' =>
    rw [find?_drop] at hm
    split at hm
    · cases hm
    · exact .inl hm
  | unlink => exact .inl (find?_unlink r _ _ _ ▸ hm)
  | prune => exact .inl (find?_prune r _ _ ▸ hm)
  | _ => exact .inl hm

/-- A connection leaves its table only when it is taken. -/
theorem Turned.kept (hturned : Turned r c r' c') (hm : r.find? id = some m) :
    r'.contains id = true ∨ c = take id ∧ c' = unlinkTaken m := by
  have hcontains : r.contains id = true := Option.isSome_of_eq_some hm
  cases hturned with
  | put m' | replace m' =>
    left
    rw [contains, find?_put]
    split
    · rfl
    · exact hcontains
  | drop key m' hfound =>
    rw [contains, find?_drop]
    split
    · next hkey =>
      rw [hkey, hm, Option.some.injEq] at hfound
      exact .inr ⟨by rw [hkey], by rw [hfound]⟩
    · exact .inl hcontains
  | unlink => exact .inl (by rw [contains, find?_unlink]; exact hcontains)
  | prune => exact .inl (by rw [contains, find?_prune]; exact hcontains)
  | _ => exact .inl hcontains

/-- A name comes to the list of a client only when it is linked; one that is unlinked is gone. -/
theorem Turned.listed (hturned : Turned r c r' c') (hid : id ∈ r'.names client) :
    c.unlinks? ≠ some (client, id) ∧
      (id ∈ r.names client ∨ ∃ m, c = .link m ∧ m.client = client ∧ m.id = id) := by
  cases hturned with
  | link m =>
    rw [names_link] at hid
    refine ⟨by simp [unlinks?], ?_⟩
    split at hid
    · next hclient =>
      split at hid
      · exact .inl hid
      · rcases List.mem_append.mp hid with hid | hid
        · exact .inl hid
        · exact .inr ⟨m, rfl, hclient, (List.mem_singleton.mp hid).symm⟩
    · exact .inl hid
  | unlink client' id' hc =>
    rw [names_unlink] at hid
    split at hid
    · next hclient =>
      obtain ⟨hid, hne⟩ := List.mem_filter.mp hid
      refine ⟨?_, .inl hid⟩
      rw [hc]
      rintro ⟨⟩
      simp at hne
    · next hclient =>
      refine ⟨?_, .inl hid⟩
      rw [hc]
      rintro ⟨⟩
      exact hclient rfl
  | prune client' hc =>
    rw [names_prune] at hid
    refine ⟨?_, .inl hid⟩
    cases c <;> simp [prunes?, unlinks?] at hc ⊢
  | pass hc => exact ⟨by simp [hc.unlinks], .inl hid⟩
  | _ => exact ⟨by simp [unlinks?], .inl hid⟩

/-- A name leaves the list of a client only when it is unlinked. -/
theorem Turned.stays (hturned : Turned r c r' c') (hid : id ∈ r.names client) :
    id ∈ r'.names client ∨ c.unlinks? = some (client, id) := by
  cases hturned with
  | link m =>
    left
    rw [names_link]
    split
    · split
      · exact hid
      · exact List.mem_append_left _ hid
    · exact hid
  | unlink client' id' hc =>
    rw [names_unlink, hc]
    split
    · next hclient =>
      by_cases hne : id = id'
      · exact .inr (by rw [hclient, hne])
      · exact .inl (List.mem_filter.mpr ⟨hid, by simpa using hne⟩)
    · exact .inl hid
  | prune => exact .inl (by rw [names_prune]; exact hid)
  | _ => exact .inl hid

/-- A list without names is left by the call that is to forget the client. -/
theorem Turned.emptied (hturned : Turned r c r' c') (hnil : r'.index.find? client = some []) :
    c'.prunes? = some client ∨ r.index.find? client = some [] ∧ c.prunes? ≠ some client := by
  cases hturned with
  | link m => exact .inr ⟨index_link_nil hnil, by simp [prunes?]⟩
  | unlink client' id' hc hc' =>
    rcases index_unlink_nil hnil with rfl | hnil
    · exact .inl hc'
    · refine .inr ⟨hnil, ?_⟩
      cases c <;> simp [prunes?, unlinks?] at hc ⊢
  | prune client' hc =>
    obtain ⟨hclient, hnil⟩ := index_prune_nil hnil
    exact .inr ⟨hnil, by simpa [hc] using hclient⟩
  | pass hc => exact .inr ⟨hnil, by simp [hc.prunes]⟩
  | _ => exact .inr ⟨hnil, by simp [prunes?]⟩

theorem Turned.stores (hturned : Turned r (insert m) r' c') : c'.stored? = some m := by
  cases hturned with
  | put | replace => rfl
  | unlink _ _ hc => cases hc
  | prune _ hc => cases hc
  | pass hidle => cases hidle.stored

/-- What is stored under a new name is linked next. -/
theorem Turned.links (hturned : Turned r (insert m) r' c') (hnone : r.find? m.id = none) :
    c'.links? = some m := by
  cases hturned with
  | put => rfl
  | replace _ p hfound => rw [hnone] at hfound; cases hfound
  | unlink _ _ hc => cases hc
  | prune _ hc => cases hc
  | pass hidle => cases hidle.stored

theorem Turned.linked (hturned : Turned r (.link m) r' c') : m.id ∈ r'.names m.client := by
  cases hturned with
  | link =>
    rw [names_link, if_pos rfl]
    split
    · next hmem => exact hmem
    · exact List.mem_append_right _ (List.mem_singleton_self m.id)
  | unlink _ _ hc => cases hc
  | prune _ hc => cases hc
  | pass hidle => cases hidle.links

theorem Turned.nodup_entries (hturned : Turned r c r' c') (hnodup : (Table.keys r.entries).Nodup) :
    (Table.keys r'.entries).Nodup := by
  cases hturned with
  | put | replace => exact Table.nodup_keys_set hnodup _ _
  | drop => exact Table.nodup_keys_erase hnodup _
  | unlink => rwa [entries_unlink]
  | prune => rwa [entries_prune]
  | _ => exact hnodup

theorem Turned.nodup_names (hturned : Turned r c r' c') (hnodup : (r.names client).Nodup) :
    (r'.names client).Nodup := by
  cases hturned with
  | link m =>
    rw [names_link]
    split
    · split
      · exact hnodup
      · next hfresh => exact List.nodup_append.mpr ⟨hnodup, List.nodup_singleton _,
          fun a ha b hb hab => hfresh (by simp_all)⟩
    · exact hnodup
  | unlink =>
    rw [names_unlink]
    split
    · exact hnodup.filter _
    · exact hnodup
  | prune => rwa [names_prune]
  | _ => exact hnodup

/-- A call comes to unlink only a name without a connection, unless it has replaced one. -/
theorem Turned.unlinks (hturned : Turned r c r' c')
    (hids : ∀ id m, r.find? id = some m → m.id = id) (hc : c'.unlinks? = some (client, id)) :
    r'.find? id = none ∨ ∃ m p, c = insert m ∧ r.find? m.id = some p := by
  cases hturned with
  | replace m p hfound => exact .inr ⟨m, p, rfl, hfound⟩
  | lose m hfound => cases hc; exact .inl hfound
  | drop key m hfound =>
    cases hc
    rw [find?_drop, hids key m hfound, if_pos rfl]
    exact .inl rfl
  | unlink _ _ _ hprunes => cases c' <;> simp [prunes?, unlinks?] at hprunes hc
  | prune _ _ hidle => rw [hidle] at hc; cases hc
  | pass _ hidle => rw [hidle.unlinks] at hc; cases hc
  | _ => cases hc

/-- A name that is to be cleared stays so until it is unlinked or its connection is found. -/
theorem Turned.clears (hturned : Turned r c r' c') (hc : c.clears? = some (client, id)) :
    c'.clears? = some (client, id) ∨ c.unlinks? = some (client, id) ∨
      r'.contains id = true := by
  cases hturned with
  | keep m hfound => cases hc; exact .inr (.inr hfound)
  | lose m => exact .inl hc
  | unlink client' id' hunlinks =>
    cases c with
    | unlinkFormer => cases hc
    | unlinkOwn | unlinkTaken => exact .inr (.inl hc)
    | _ => cases hunlinks
  | prune client' hprunes =>
    cases c with
    | pruneFormer | pruneOwn | pruneTaken => cases hc
    | _ => cases hprunes
  | pass hidle => rw [hidle.clears] at hc; cases hc
  | _ => cases hc

/-- A removal returns the connection under the name that was asked for. -/
theorem id_of_taken {id : ConnectionId} (hc : (c.step r).2 = taken id (some m)) :
    m.id = id ∨ c = taken id (some m) := by
  cases c with
  | pruneTaken => cases hc; exact .inl rfl
  | taken => exact .inr hc
  | insert | check | take => simp only [step] at hc; (repeat' split at hc) <;> cases hc
  | finding client left members => cases left <;> cases hc
  | _ => cases hc

/-- A look-up adds connections of its client only, and only those that it finds. -/
theorem mem_of_finds {client : ClientId} {members : List Member}
    (hc : (c.step r).2.finds? = some (client, members)) (hm : m ∈ members) :
    (∃ before, c.finds? = some (client, before) ∧ m ∈ before) ∨
      m.client = client ∧ ∃ id, r.find? id = some m := by
  cases c with
  | find => cases hc; cases hm
  | found => exact .inl ⟨members, hc, hm⟩
  | insert | check | take => simp only [step] at hc; (repeat' split at hc) <;> cases hc
  | finding client' left before =>
    cases left with
    | nil => exact .inl ⟨members, hc, hm⟩
    | cons id left =>
      cases hc
      rcases List.mem_append.mp hm with hm | hm
      · exact .inl ⟨before, rfl, hm⟩
      · obtain ⟨hfound, hclient⟩ := List.mem_filter.mp hm
        exact .inr ⟨of_decide_eq_true hclient, id, Option.mem_toList.mp hfound⟩
  | _ => cases hc

end Call

end EventHub.Registry
