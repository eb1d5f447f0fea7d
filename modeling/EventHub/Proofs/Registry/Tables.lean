import EventHub.Table
import Mathlib.Data.List.Nodup
/-!
# What tables hold

What is found in a table after each operation. Keys stay distinct.
-/

namespace EventHub.Table

variable {κ ν : Type} [DecidableEq κ]

theorem find?_set (t : Table κ ν) (key k : κ) (value : ν) :
    find? (set t key value) k = if key = k then some value else find? t k := by
  induction t with
  | nil => rfl
  | cons p t ih =>
    obtain ⟨k', v⟩ := p
    simp only [set]
    split
    · next hkey =>
      subst hkey
      simp only [find?]
      split <;> rfl
    · next hkey =>
      simp only [find?, ih]
      split
      · next hk =>
        rw [if_neg (fun h => hkey (hk.trans h.symm))]
      · rfl

theorem find?_erase (t : Table κ ν) (key k : κ) :
    find? (erase t key) k = if key = k then none else find? t k := by
  induction t with
  | nil => simp [erase, find?]
  | cons p t ih =>
    obtain ⟨k', v⟩ := p
    simp only [erase]
    split
    · next hkey =>
      subst hkey
      rw [ih]
      simp only [find?]
      split <;> rfl
    · next hkey =>
      simp only [find?, ih]
      split
      · next hk =>
        rw [if_neg (fun h => hkey (hk.trans h.symm))]
      · rfl

theorem mem_keys_set {t : Table κ ν} {key k : κ} {value : ν} :
    k ∈ keys (set t key value) ↔ k = key ∨ k ∈ keys t := by
  induction t with
  | nil => simp [set, keys]
  | cons p t ih =>
    obtain ⟨k', v⟩ := p
    simp only [keys] at ih
    by_cases hkey : k' = key
    · simp [set, keys, hkey]
    · simp only [set, keys, hkey, if_false, List.map_cons, List.mem_cons, ih]
      tauto

theorem nodup_keys_set {t : Table κ ν} (ht : (keys t).Nodup) (key : κ) (value : ν) :
    (keys (set t key value)).Nodup := by
  induction t with
  | nil => simp [set, keys]
  | cons p t ih =>
    obtain ⟨k', v⟩ := p
    obtain ⟨hfresh, ht⟩ := List.nodup_cons.mp ht
    by_cases hkey : k' = key
    · subst hkey
      simpa [set, keys] using ⟨by simpa [keys] using hfresh, ht⟩
    · simp only [set, hkey, if_false]
      refine List.nodup_cons.mpr ⟨fun hmem => ?_, ih ht⟩
      rcases mem_keys_set.mp hmem with h | h
      · exact hkey h
      · exact hfresh h

theorem keys_erase_sublist (t : Table κ ν) (key : κ) :
    (keys (erase t key)).Sublist (keys t) := by
  induction t with
  | nil => exact List.Sublist.refl _
  | cons p t ih =>
    obtain ⟨k', v⟩ := p
    simp only [erase]
    split
    · exact ih.cons k'
    · exact ih.cons_cons k'

theorem nodup_keys_erase {t : Table κ ν} (ht : (keys t).Nodup) (key : κ) :
    (keys (erase t key)).Nodup :=
  ht.sublist (keys_erase_sublist t key)

theorem find?_eq_some_iff {t : Table κ ν} (ht : (keys t).Nodup) {key : κ} {value : ν} :
    find? t key = some value ↔ (key, value) ∈ t := by
  induction t with
  | nil => simp [find?]
  | cons p t ih =>
    obtain ⟨k, v⟩ := p
    obtain ⟨hfresh, ht⟩ := List.nodup_cons.mp ht
    simp only [find?, List.mem_cons, Prod.mk.injEq]
    split
    · next hk =>
      subst hk
      constructor
      · intro h
        exact Or.inl ⟨rfl, (Option.some.inj h).symm⟩
      · rintro (⟨_, rfl⟩ | hmem)
        · rfl
        · exact absurd (List.mem_map_of_mem hmem) hfresh
    · next hk =>
      rw [ih ht]
      constructor
      · exact Or.inr
      · rintro (⟨rfl, _⟩ | hmem)
        · exact absurd rfl hk
        · exact hmem

theorem isSome_find? {t : Table κ ν} {key : κ} :
    (find? t key).isSome = true ↔ key ∈ keys t := by
  induction t with
  | nil => simp [find?, keys]
  | cons p t ih =>
    obtain ⟨k, v⟩ := p
    simp only [find?, keys, List.map_cons, List.mem_cons]
    split
    · next hk => simp [hk]
    · next hk =>
      rw [ih]
      exact ⟨Or.inr, fun h => h.resolve_left (Ne.symm hk)⟩

theorem length_set (t : Table κ ν) (key : κ) (value : ν) : (set t key value).length =
    t.length + if (find? t key).isSome then 0 else 1 := by
  induction t with
  | nil => rfl
  | cons p t ih =>
    obtain ⟨k, v⟩ := p
    simp only [set, find?]
    split
    · rfl
    · rw [List.length_cons, ih, List.length_cons, Nat.add_right_comm]

theorem erase_of_not_mem {t : Table κ ν} {key : κ} (hkey : key ∉ keys t) :
    erase t key = t := by
  induction t with
  | nil => rfl
  | cons p t ih =>
    obtain ⟨k, v⟩ := p
    obtain ⟨hk, hrest⟩ := not_or.mp (fun h => hkey (List.mem_cons.mpr h))
    rw [erase, if_neg (Ne.symm hk), ih hrest]

theorem length_erase {t : Table κ ν} (ht : (keys t).Nodup) (key : κ) :
    (erase t key).length + (if (find? t key).isSome then 1 else 0) = t.length := by
  induction t with
  | nil => rfl
  | cons p t ih =>
    obtain ⟨k, v⟩ := p
    obtain ⟨hfresh, ht⟩ := List.nodup_cons.mp ht
    simp only [erase, find?]
    split
    · next hk =>
      rw [erase_of_not_mem (hk ▸ hfresh)]
      rfl
    · rw [List.length_cons, Nat.add_right_comm, ih ht, List.length_cons]

end EventHub.Table
