import EventHub.Text.Blank
/-!
# Trimming

What is left of a text without the white space at its ends is determined by having none there, and
by only white space having been around it.
-/

namespace EventHub.Text

def Trimmed (s : List Char) : Prop :=
  ∀ c, s.head? = some c ∨ s.getLast? = some c → isBlank c = false

/-- The second text is the first one without the white space at its ends. -/
def Trims (s t : String) : Prop :=
  ∃ front back, s.toList = front ++ t.toList ++ back ∧ (∀ c ∈ front, isBlank c = true) ∧
    (∀ c ∈ back, isBlank c = true) ∧ Trimmed t.toList

theorem trimStart_append {front : List Char} (hfront : ∀ c ∈ front, isBlank c = true)
    (rest : List Char) : trimStart (front ++ rest) = trimStart rest :=
  List.dropWhile_append_of_pos hfront

theorem trimStart_of_head {s : List Char} (hs : ∀ c, s.head? = some c → isBlank c = false) :
    trimStart s = s := by
  cases s with
  | nil => rfl
  | cons c rest => exact List.dropWhile_cons_of_neg (by simp [hs c rfl])

theorem trimEnd_append {back : List Char} (hback : ∀ c ∈ back, isBlank c = true)
    (front : List Char) : trimEnd (front ++ back) = trimEnd front := by
  rw [trimEnd, List.reverse_append, trimStart_append fun c hc => hback c (List.mem_reverse.mp hc)]
  rfl

theorem trimEnd_of_getLast {s : List Char} (hs : ∀ c, s.getLast? = some c → isBlank c = false) :
    trimEnd s = s := by
  rw [trimEnd, trimStart_of_head, List.reverse_reverse]
  rwa [List.head?_reverse]

/-- White space, and then a rest that does not begin with any. -/
theorem exists_trimStart (s : List Char) : ∃ front, s = front ++ trimStart s ∧
    (∀ c ∈ front, isBlank c = true) ∧
      ∀ c, (trimStart s).head? = some c → isBlank c = false := by
  refine ⟨s.takeWhile isBlank, List.takeWhile_append_dropWhile.symm,
    List.all_eq_true.mp List.all_takeWhile, fun c hc => ?_⟩
  have hhead := List.head?_dropWhile_not isBlank s
  rw [trimStart] at hc
  rw [hc] at hhead
  exact hhead

theorem exists_trimEnd (s : List Char) : ∃ back, s = trimEnd s ++ back ∧
    (∀ c ∈ back, isBlank c = true) ∧
      ∀ c, (trimEnd s).getLast? = some c → isBlank c = false := by
  obtain ⟨front, hsplit, hfront, hhead⟩ := exists_trimStart s.reverse
  refine ⟨front.reverse, ?_, fun c hc => hfront c (List.mem_reverse.mp hc), fun c hc => ?_⟩
  · rw [trimEnd, ← List.reverse_append, ← hsplit, List.reverse_reverse]
  · rw [trimEnd, List.getLast?_reverse] at hc
    exact hhead c hc

theorem trims_trim (s : String) : Trims s (trim s) := by
  obtain ⟨front, hfront, hblank, hhead⟩ := exists_trimStart s.toList
  obtain ⟨back, hback, hblank', hlast⟩ := exists_trimEnd (trimStart s.toList)
  refine ⟨front, back, ?_, hblank, hblank', ?_⟩
  · rw [trim, String.toList_ofList, List.append_assoc, ← hback, ← hfront]
  · rw [trim, String.toList_ofList]
    rintro c (hc | hc)
    · refine hhead c ?_
      rw [hback, List.head?_append, hc]
      rfl
    · exact hlast c hc

/-- Trimming does not depend on the end that it begins with. -/
theorem trim_of_trims {s t : String} (htrims : Trims s t) : trim s = t := by
  obtain ⟨front, back, hsplit, hfront, hback, htrimmed⟩ := htrims
  suffices h : trimEnd (trimStart (t.toList ++ back)) = t.toList by
    rw [trim, hsplit, List.append_assoc, trimStart_append hfront, h, String.ofList_toList]
  cases ht : t.toList with
  | nil =>
    rw [List.nil_append, ← List.append_nil back, trimStart_append hback]
    rfl
  | cons c rest =>
    rw [ht] at htrimmed
    rw [trimStart_of_head, trimEnd_append hback, trimEnd_of_getLast]
    · exact fun c hc => htrimmed c (.inr hc)
    · exact fun c hc => htrimmed c (.inl hc)

theorem trim_eq_iff {s t : String} : trim s = t ↔ Trims s t :=
  ⟨fun h => h ▸ trims_trim s, trim_of_trims⟩

theorem trim_eq_self {s : String} (hs : Trimmed s.toList) : trim s = s :=
  trim_of_trims ⟨[], [], by simp, by simp, by simp, hs⟩

end EventHub.Text
