import EventHub.Identity
import Mathlib.Data.List.Basic
/-!
# Names that are made up

Thirty-two digits, of which the last tells a made-up name from other ends of texts.
-/

namespace EventHub

theorem isHexDigit_digitChar {n : Nat} (hn : n < 16) : isHexDigit (Nat.digitChar n) = true := by
  revert n
  decide

theorem isGenerated_generated (n : Nat) : isGenerated (generated n) = true := by
  have hdigits : ∀ c ∈ (generated n).toList, isHexDigit c = true := by
    intro c hc
    rw [generated, String.toList_ofList] at hc
    obtain ⟨i, -, rfl⟩ := List.mem_map.mp hc
    exact isHexDigit_digitChar (Nat.mod_lt _ (by decide))
  have hlength : (generated n).length = 32 := by
    simp [generated]
  simp [isGenerated, hlength, List.all_eq_true.mpr hdigits]

theorem length_of_isGenerated {text : String} (htext : isGenerated text = true) :
    text.length = 32 := by
  rw [isGenerated, Bool.and_eq_true] at htext
  exact of_decide_eq_true htext.1

theorem getLast?_append {text : String} {c : Char} (before : String)
    (htext : text.toList.getLast? = some c) : (before ++ text).toList.getLast? = some c := by
  rw [String.toList_append, List.getLast?_append, htext]
  rfl

theorem exists_getLast?_of_isGenerated {text : String} (htext : isGenerated text = true) :
    ∃ d, text.toList.getLast? = some d ∧ isHexDigit d = true := by
  have hlength := length_of_isGenerated htext
  rw [isGenerated, Bool.and_eq_true] at htext
  have hne : text.toList ≠ [] := by
    intro hnil
    rw [← String.length_toList, hnil] at hlength
    cases hlength
  exact ⟨text.toList.getLast hne, List.getLast?_eq_some_getLast hne,
    List.all_eq_true.mp htext.2 _ (List.getLast_mem hne)⟩

end EventHub
