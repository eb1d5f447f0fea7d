import EventHub.Proofs.Registry.Tables
import EventHub.Registry.Basic
import Mathlib.Data.Set.Card
/-!
# The two tables of a registry agree

Each connection stands under its own name, and the names of a client are those of its connections,
each once. Adding and taking connections keeps it so.
-/

namespace EventHub.Registry

def names (r : Registry) (client : ClientId) : List ConnectionId := (r.index.find? client).getD []

structure Agrees (r : Registry) : Prop where
  entries_nodup : (Table.keys r.entries).Nodup
  id_eq : ∀ id m, r.find? id = some m → m.id = id
  names_nodup : ∀ client, (r.names client).Nodup
  mem_names : ∀ client id,
    id ∈ r.names client ↔ ∃ m, r.find? id = some m ∧ m.client = client
  /-- No client is kept without names. -/
  index_ne_nil : ∀ client, r.index.find? client ≠ some []

theorem agrees_empty : Agrees {} where
  entries_nodup := List.nodup_nil
  id_eq := by simp [find?, Table.find?]
  names_nodup := by simp [names, Table.find?]
  mem_names := by simp [names, find?, Table.find?]
  index_ne_nil := by simp [Table.find?]

/-! ## Operations on one table -/

variable (r : Registry) (client : ClientId) (id : ConnectionId)

theorem find?_put (m : Member) : (r.put m).find? id = if m.id = id then some m else r.find? id :=
  Table.find?_set r.entries m.id id m

theorem find?_drop (key : ConnectionId) :
    (r.drop key).find? id = if key = id then none else r.find? id :=
  Table.find?_erase r.entries key id

theorem entries_unlink : (r.unlink client id).entries = r.entries := by
  unfold unlink
  split <;> rfl

theorem entries_prune : (r.prune client).entries = r.entries := by
  unfold prune
  split <;> rfl

theorem entries_unindex : (r.unindex client id).entries = r.entries := by
  rw [unindex, entries_prune, entries_unlink]

theorem find?_unlink (key : ConnectionId) : (r.unlink client id).find? key = r.find? key :=
  congrArg (Table.find? · key) (entries_unlink r client id)

theorem find?_prune (key : ConnectionId) : (r.prune client).find? key = r.find? key :=
  congrArg (Table.find? · key) (entries_prune r client)

theorem names_link (c : ClientId) : (r.link client id).names c =
    if client = c then (if id ∈ r.names c then r.names c else r.names c ++ [id])
    else r.names c := by
  unfold link names
  simp only [Table.find?_set]
  split
  · next hclient =>
    subst hclient
    simp
  · rfl

theorem names_unlink (c : ClientId) : (r.unlink client id).names c =
    if client = c then (r.names c).filter (· ≠ id) else r.names c := by
  unfold unlink names
  split
  · next hnone =>
    split
    · next hclient =>
      subst hclient
      simp [hnone]
    · rfl
  · next ids hsome =>
    simp only [Table.find?_set]
    split
    · next hclient =>
      subst hclient
      simp [hsome]
    · rfl

theorem names_prune (c : ClientId) : (r.prune client).names c = r.names c := by
  unfold prune names
  split
  · next hnil =>
    simp only [Table.find?_erase]
    split
    · next hclient =>
      subst hclient
      simp [hnil]
    · rfl
  · rfl

theorem names_unindex (c : ClientId) : (r.unindex client id).names c =
    if client = c then (r.names c).filter (· ≠ id) else r.names c := by
  rw [unindex, names_prune, names_unlink]

variable {r}

/-! ### Clients without names -/

section

variable {client id}

theorem index_link_nil {c : ClientId} (hnil : (r.link client id).index.find? c = some []) :
    r.index.find? c = some [] := by
  unfold link at hnil
  simp only [Table.find?_set] at hnil
  split at hnil
  · rw [Option.some.injEq] at hnil
    split at hnil
    · next hmem =>
      rw [hnil] at hmem
      simp at hmem
    · simp at hnil
  · exact hnil

theorem index_unlink_nil {c : ClientId} (hnil : (r.unlink client id).index.find? c = some []) :
    client = c ∨ r.index.find? c = some [] := by
  unfold unlink at hnil
  split at hnil
  · exact Or.inr hnil
  · simp only [Table.find?_set] at hnil
    split at hnil
    · next hclient => exact Or.inl hclient
    · exact Or.inr hnil

theorem index_prune_nil {c : ClientId} (hnil : (r.prune client).index.find? c = some []) :
    client ≠ c ∧ r.index.find? c = some [] := by
  unfold prune at hnil
  split at hnil
  · simp only [Table.find?_erase] at hnil
    split at hnil
    · cases hnil
    · next hclient => exact ⟨hclient, hnil⟩
  · next hother =>
    refine ⟨?_, hnil⟩
    rintro rfl
    exact hother hnil

theorem index_unindex_ne_nil (hindex : ∀ c, r.index.find? c ≠ some []) (c : ClientId) :
    (r.unindex client id).index.find? c ≠ some [] := by
  intro hnil
  obtain ⟨hclient, hnil⟩ := index_prune_nil hnil
  exact (index_unlink_nil hnil).elim hclient (hindex c)

end

/-! ## Whole operations -/

/-- The registry with a connection stored, its name no longer among those of another client. -/
def placed (r : Registry) (m : Member) : Registry :=
  match r.find? m.id with
  | some p => if p.client ≠ m.client then (r.put m).unindex p.client m.id else r.put m
  | none => r.put m

theorem entries_placed (m : Member) : (r.placed m).entries = (r.put m).entries := by
  unfold placed
  split
  · split
    · exact entries_unindex _ _ _
    · rfl
  · rfl

/-- Without other threads a connection that has just been stored is there. -/
theorem insert_eq (r : Registry) (m : Member) :
    r.insert m = (r.placed m).link m.client m.id := by
  have hcontains : ((r.placed m).link m.client m.id).contains m.id = true := by
    have hfind := find?_put r m.id m
    rw [if_pos rfl, Registry.find?, ← entries_placed] at hfind
    rw [contains, Registry.find?]
    exact Option.isSome_of_eq_some hfind
  exact if_pos hcontains

theorem find?_insert (m : Member) :
    (r.insert m).find? id = if m.id = id then some m else r.find? id := by
  rw [insert_eq, ← find?_put]
  exact congrArg (Table.find? · id) (entries_placed m)

theorem mem_names_placed (hagrees : r.Agrees) (m : Member) (c : ClientId) :
    id ∈ (r.placed m).names c ↔ id ∈ r.names c ∧ (id = m.id → c = m.client) := by
  have hput : (r.put m).names c = r.names c := rfl
  have hown : id ∈ r.names c → id = m.id → ∃ x, r.find? m.id = some x ∧ x.client = c := by
    rintro hmem rfl
    exact (hagrees.mem_names c _).mp hmem
  unfold placed
  split
  · next p hp =>
    simp only [hp, Option.some.injEq, exists_eq_left'] at hown
    split
    · next hclient =>
      rw [names_unindex, hput]
      split
      · next hc =>
        rw [List.mem_filter, decide_eq_true_eq]
        exact and_congr_right fun _ => ⟨fun hne hid => absurd hid hne,
          fun hid h => hclient (hc.trans (hid h))⟩
      · next hc =>
          exact ⟨fun hmem => ⟨hmem, fun hid => absurd (hown hmem hid) hc⟩, And.left⟩
    · next hclient =>
      rw [ne_eq, Decidable.not_not] at hclient
      exact ⟨fun hmem => ⟨hmem, fun hid => (hown hmem hid).symm.trans hclient⟩, And.left⟩
  · next hnone =>
    simp only [hnone, reduceCtorEq, false_and, exists_false] at hown
    exact ⟨fun hmem => ⟨hmem, fun hid => absurd hid (hown hmem)⟩, And.left⟩

theorem nodup_names_placed (hagrees : r.Agrees) (m : Member) (c : ClientId) :
    ((r.placed m).names c).Nodup := by
  have hput : ∀ c, (r.put m).names c = r.names c := fun _ => rfl
  have hnames := hagrees.names_nodup c
  unfold placed
  split
  · split
    · rw [names_unindex, hput]
      split
      · exact hnames.filter _
      · exact hnames
    · exact hnames
  · exact hnames

theorem index_placed_ne_nil (hindex : ∀ c, r.index.find? c ≠ some []) (m : Member)
    (c : ClientId) : (r.placed m).index.find? c ≠ some [] := by
  unfold placed
  split
  · split
    · exact index_unindex_ne_nil (r := r.put m) hindex c
    · exact hindex c
  · exact hindex c

theorem Agrees.insert (hagrees : r.Agrees) (m : Member) : (r.insert m).Agrees where
  entries_nodup := by
    rw [insert_eq]
    change (Table.keys (r.placed m).entries).Nodup
    rw [entries_placed]
    exact Table.nodup_keys_set hagrees.entries_nodup m.id m
  id_eq := by
    intro id x hx
    rw [find?_insert] at hx
    split at hx
    · next hid =>
      cases hx
      exact hid
    · exact hagrees.id_eq id x hx
  names_nodup := by
    intro c
    have hplaced := nodup_names_placed hagrees m c
    rw [insert_eq, names_link]
    split
    · split
      · exact hplaced
      · next hfresh => exact List.nodup_append.mpr ⟨hplaced, List.nodup_singleton _,
          fun a ha b hb hab => hfresh (by simp_all)⟩
    · exact hplaced
  mem_names := by
    intro c id
    have hplaced := mem_names_placed id hagrees m c
    have hlink : id ∈ (r.insert m).names c ↔
        id ∈ (r.placed m).names c ∨ c = m.client ∧ id = m.id := by
      rw [insert_eq, names_link]
      split
      · next hc =>
        split
        · next hmem => exact ⟨Or.inl, fun h => h.elim (fun h => h) (fun h => h.2 ▸ hmem)⟩
        · rw [List.mem_append, List.mem_singleton]
          exact or_congr_right ⟨fun h => ⟨hc.symm, h⟩, And.right⟩
      · next hc => exact ⟨Or.inl, fun h => h.elim (fun h => h) (fun h => absurd h.1.symm hc)⟩
    rw [hlink, hplaced, find?_insert]
    by_cases hid : m.id = id
    · subst hid
      simp only [if_true, Option.some.injEq, exists_eq_left', true_imp_iff, and_true]
      exact ⟨fun h => h.elim (fun h => h.2.symm) Eq.symm, fun h => Or.inr h.symm⟩
    · rw [if_neg hid, ← hagrees.mem_names]
      exact ⟨fun h => h.elim And.left (fun h => absurd h.2.symm hid),
        fun h => Or.inl ⟨h, fun h => absurd h.symm hid⟩⟩
  index_ne_nil := by
    rw [insert_eq]
    exact fun c hnil => index_placed_ne_nil hagrees.index_ne_nil m c (index_link_nil hnil)

theorem find?_take (key : ConnectionId) :
    (r.take key).1.find? id = if key = id then none else r.find? id := by
  unfold Registry.take
  split
  · next hnone =>
    split
    · next hkey => rw [← hkey, hnone]
    · rfl
  · rw [← find?_drop]
    exact congrArg (Table.find? · id) (entries_unindex _ _ _)

theorem Agrees.take (hagrees : r.Agrees) (key : ConnectionId) : (r.take key).1.Agrees := by
  have hfind := fun id => find?_take (r := r) id key
  unfold Registry.take at hfind ⊢
  split
  · exact hagrees
  · next m hm =>
    simp only [hm] at hfind
    refine ⟨?_, ?_, ?_, ?_, ?_⟩
    · rw [entries_unindex]
      exact Table.nodup_keys_erase hagrees.entries_nodup key
    · intro id x hx
      rw [hfind] at hx
      split at hx
      · cases hx
      · exact hagrees.id_eq id x hx
    · intro c
      rw [names_unindex]
      split
      · exact (hagrees.names_nodup c).filter _
      · exact hagrees.names_nodup c
    · intro c id
      have hnames := hagrees.mem_names c id
      rw [names_unindex, hfind]
      change (id ∈ if m.client = c then (r.names c).filter (· ≠ key) else r.names c) ↔ _
      by_cases hkey : key = id
      · subst hkey
        simp only [hm, Option.some.injEq, exists_eq_left'] at hnames
        split
        · simp
        · next hc => simp [hnames, hc]
      · rw [if_neg hkey, ← hnames]
        split
        · simp [Ne.symm hkey]
        · rfl
    · exact index_unindex_ne_nil (r := r.drop key) hagrees.index_ne_nil

/-! ## Members -/

theorem Agrees.mem_members (hagrees : r.Agrees) {m : Member} :
    m ∈ r.members ↔ r.find? m.id = some m := by
  constructor
  · intro hm
    obtain ⟨p, hp, rfl⟩ := List.mem_map.mp hm
    have hfind : r.find? p.1 = some p.2 := (Table.find?_eq_some_iff hagrees.entries_nodup).mpr hp
    rwa [hagrees.id_eq _ _ hfind]
  · intro hm
    exact List.mem_map_of_mem ((Table.find?_eq_some_iff hagrees.entries_nodup).mp hm)

theorem Agrees.nodup_members (hagrees : r.Agrees) : r.members.Nodup := by
  have hkeys : r.members.map (·.id) = Table.keys r.entries := by
    unfold members Table.values Table.keys
    rw [List.map_map]
    apply List.map_congr_left
    intro p hp
    exact hagrees.id_eq _ _ ((Table.find?_eq_some_iff hagrees.entries_nodup).mpr hp)
  exact List.Nodup.of_map (·.id) (hkeys ▸ hagrees.entries_nodup)

theorem Agrees.mem_membersOf (hagrees : r.Agrees) {client : ClientId} {m : Member} :
    m ∈ r.membersOf client ↔ m ∈ r.members ∧ m.client = client := by
  have hnames := hagrees.mem_names client m.id
  rw [membersOf, List.mem_filter, List.mem_filterMap, decide_eq_true_eq, hagrees.mem_members]
  refine and_congr_left fun hclient =>
    ⟨?_, fun hm => ⟨m.id, hnames.mpr ⟨m, hm, hclient⟩, hm⟩⟩
  rintro ⟨id, _, hid⟩
  rwa [hagrees.id_eq id m hid]

theorem Agrees.nodup_membersOf (hagrees : r.Agrees) (client : ClientId) :
    (r.membersOf client).Nodup := by
  refine List.Nodup.filter _ (List.Nodup.filterMap ?_ (hagrees.names_nodup client))
  intro id id' m hid hid'
  exact (hagrees.id_eq id m hid).symm.trans (hagrees.id_eq id' m hid')

/-- The connections of a client are those of all connections that belong to it, none left out and
none twice. -/
theorem Agrees.membersOf_perm (hagrees : r.Agrees) (client : ClientId) :
    (r.membersOf client).Perm (r.members.filter fun m => m.client = client) := by
  rw [List.perm_ext_iff_of_nodup (hagrees.nodup_membersOf client)
    (hagrees.nodup_members.filter _)]
  intro m
  rw [hagrees.mem_membersOf, List.mem_filter, decide_eq_true_eq]

theorem size_insert (m : Member) :
    (r.insert m).size = r.size + if r.contains m.id then 0 else 1 := by
  have hentries : (r.insert m).entries = (r.put m).entries :=
    (congrArg entries (insert_eq r m)).trans (entries_placed m)
  rw [size, hentries]
  exact Table.length_set r.entries m.id m

theorem Agrees.size_take (hagrees : r.Agrees) (id : ConnectionId) :
    (r.take id).1.size + (if r.contains id then 1 else 0) = r.size := by
  unfold Registry.take contains
  split
  · next hnone => simp [hnone]
  · next m hsome =>
    rw [size, entries_unindex]
    exact Table.length_erase hagrees.entries_nodup id

theorem Agrees.size_eq (hagrees : r.Agrees) :
    r.size = {id | (r.find? id).isSome = true}.ncard := by
  have hkeys : {id | (r.find? id).isSome = true} = ↑(Table.keys r.entries).toFinset := by
    ext id
    simp [Registry.find?, Table.isSome_find?]
  rw [hkeys, Set.ncard_coe_finset, List.toFinset_card_of_nodup hagrees.entries_nodup, size,
    Table.keys, List.length_map]

/-! ## Who is left -/

theorem Agrees.mem_members_insert (hagrees : r.Agrees) {m m' : Member} :
    m' ∈ (r.insert m).members ↔ m' = m ∨ m'.id ≠ m.id ∧ m' ∈ r.members := by
  rw [(hagrees.insert m).mem_members, hagrees.mem_members, find?_insert]
  split
  · next hid =>
    rw [Option.some.injEq]
    exact ⟨fun h => Or.inl h.symm, fun h => h.elim Eq.symm fun h => absurd hid.symm h.1⟩
  · next hid =>
    refine ⟨fun h => Or.inr ⟨Ne.symm hid, h⟩, ?_⟩
    rintro (rfl | h)
    · exact absurd rfl hid
    · exact h.2

theorem Agrees.mem_members_take (hagrees : r.Agrees) {id : ConnectionId} {m : Member} :
    m ∈ (r.take id).1.members ↔ m.id ≠ id ∧ m ∈ r.members := by
  rw [(hagrees.take id).mem_members, hagrees.mem_members, find?_take]
  split
  · next hid => simp [hid]
  · next hid => simp [Ne.symm hid]

def without (r : Registry) (ids : List ConnectionId) : Registry :=
  ids.foldl (fun r id => (r.take id).1) r

theorem without_append (r : Registry) (ids : List ConnectionId) (id : ConnectionId) :
    r.without (ids ++ [id]) = ((r.without ids).take id).1 := by
  simp [without]

theorem find?_without (ids : List ConnectionId) (id : ConnectionId) :
    (r.without ids).find? id = if id ∈ ids then none else r.find? id := by
  induction ids generalizing r with
  | nil => simp [without]
  | cons key ids ih =>
    have hcons : r.without (key :: ids) = (r.take key).1.without ids := rfl
    rw [hcons, ih, find?_take]
    by_cases hkey : key = id
    · simp [hkey]
    · simp [hkey, Ne.symm hkey]

theorem Agrees.without (hagrees : r.Agrees) (ids : List ConnectionId) :
    (r.without ids).Agrees := by
  induction ids generalizing r with
  | nil => exact hagrees
  | cons key ids ih => exact ih (hagrees.take key)

theorem take_of_none {id : ConnectionId} (hnone : (r.take id).2 = none) : (r.take id).1 = r := by
  unfold Registry.take at hnone ⊢
  split
  · rfl
  · next m hm =>
    rw [hm] at hnone
    cases hnone

end EventHub.Registry
