import EventHub.Text.Split
/-!
# Parts of texts

What splitting makes of a text, by where the separator occurs in it.
-/

namespace EventHub.Text

variable {separator : Char} {front : List Char}

theorem splitFirst_append (hfront : separator ∉ front) (rest : List Char) :
    splitFirst separator (front ++ separator :: rest) = (front, some rest) := by
  induction front with
  | nil => simp [splitFirst]
  | cons c front ih =>
    simp only [List.mem_cons, not_or] at hfront
    rw [List.cons_append, splitFirst, if_neg (Ne.symm hfront.1), ih hfront.2]

theorem splitFirst_of_not_mem (hfront : separator ∉ front) :
    splitFirst separator front = (front, none) := by
  induction front with
  | nil => rfl
  | cons c front ih =>
    simp only [List.mem_cons, not_or] at hfront
    rw [splitFirst, if_neg (Ne.symm hfront.1), ih hfront.2]

theorem splitAll_of_not_mem (hfront : separator ∉ front) :
    splitAll separator front = [front] := by
  induction front with
  | nil => rfl
  | cons c front ih =>
    simp only [List.mem_cons, not_or] at hfront
    rw [splitAll, if_neg (Ne.symm hfront.1), ih hfront.2]

end EventHub.Text
