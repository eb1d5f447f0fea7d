import EventHub.Relay.Ring
/-!
# Positions on the relay

The messages sent are counted, and each message that is kept has the number of those sent before it
as its position. A reader gets the message at its own position, or loses those that are no longer
kept.
-/

namespace EventHub.Relay.Ring

def at? (r : Ring) (position : Nat) : Option (String × String) :=
  if position < r.oldest then none else r.kept[position - r.oldest]?

def Counted (r : Ring) : Prop := r.kept.length ≤ r.sent

theorem counted_ofCapacity (capacity : Nat) : Counted (ofCapacity capacity) := Nat.le_refl 0

theorem send_kept_length (r : Ring) (channel message : String) :
    (r.send channel message).kept.length = min (r.kept.length + 1) r.capacity := by
  simp only [send, List.length_drop, List.length_append, List.length_singleton]
  omega

theorem Counted.send {r : Ring} (hcounted : r.Counted) (channel message : String) :
    (r.send channel message).Counted := by
  have hlength := send_kept_length r channel message
  unfold Counted at hcounted ⊢
  have hsent : (r.send channel message).sent = r.sent + 1 := rfl
  omega

theorem oldest_le_sent (r : Ring) : r.oldest ≤ r.sent := Nat.sub_le _ _

theorem lt_sent_of_at? {r : Ring} (hcounted : r.Counted) {position : Nat} {m : String × String}
    (hm : r.at? position = some m) : r.oldest ≤ position ∧ position < r.sent := by
  unfold at? at hm
  split at hm
  · cases hm
  · next hlow =>
    have hlt := (List.getElem?_eq_some_iff.mp hm).1
    unfold Counted at hcounted
    unfold oldest at hlow hlt ⊢
    omega

/-- A message stays at its position as long as it is kept, and the new one comes last. -/
theorem at?_send {r : Ring} (hcounted : r.Counted) (channel message : String) {position : Nat}
    {m : String × String} (hm : (r.send channel message).at? position = some m) :
    r.at? position = some m ∨ position = r.sent ∧ m = (channel, message) := by
  have hlength := send_kept_length r channel message
  have hsent : (r.send channel message).sent = r.sent + 1 := rfl
  have hkept : (r.send channel message).kept =
      (r.kept ++ [(channel, message)]).drop (r.kept.length + 1 - r.capacity) := by
    simp [send]
  have hrange := lt_sent_of_at? (hcounted.send channel message) hm
  unfold at? at hm
  rw [if_neg (Nat.not_lt.mpr hrange.1), hkept, List.getElem?_drop] at hm
  unfold Counted at hcounted
  have hindex : r.kept.length + 1 - r.capacity + (position - (r.send channel message).oldest) =
      position - r.oldest := by
    unfold oldest at hrange ⊢
    omega
  have holdest : r.oldest ≤ position := by
    unfold oldest at hrange ⊢
    omega
  rw [hindex] at hm
  rcases Nat.lt_or_ge (position - r.oldest) r.kept.length with hlt | hge
  · left
    rw [List.getElem?_append_left hlt] at hm
    rw [at?, if_neg (Nat.not_lt.mpr holdest), hm]
  · right
    have hposition : position = r.sent := by
      unfold oldest at hge holdest
      omega
    rw [List.getElem?_append_right hge, hposition] at hm
    have hzero : r.sent - r.oldest - r.kept.length = 0 := by
      unfold oldest
      omega
    rw [hzero] at hm
    exact ⟨hposition, by simpa using hm.symm⟩

/-! ## What a reader gets -/

inductive Next (r : Ring) (reader : Reader) : Option Item × Reader → Prop where
  | lost (hlow : reader.position < r.oldest) :
      Next r reader (some (.lost (r.oldest - reader.position)), ⟨reader.channels, r.oldest⟩)
  | message (channel text : String) (hmessage : r.at? reader.position = some (channel, text)) :
      Next r reader (some (.message text), ⟨reader.channels, reader.position + 1⟩)
  | nothing : Next r reader (none, reader)

theorem next_spec {r : Ring} {reader : Reader}
    (hchannels : ∀ position m, r.at? position = some m → m.1 ∈ reader.channels) :
    Next r reader (r.next reader) := by
  unfold next
  split
  · next hlow => exact .lost hlow
  · next hhigh =>
    cases hdrop : r.kept.drop (reader.position - r.oldest) with
    | nil =>
      rw [seek]
      exact .nothing
    | cons m rest =>
      obtain ⟨channel, text⟩ := m
      have hmessage : r.at? reader.position = some (channel, text) := by
        rw [at?, if_neg hhigh, ← List.head?_drop, hdrop, List.head?_cons]
      have hheard := hchannels _ _ hmessage
      rw [seek, if_pos (by simpa using hheard)]
      exact .message channel text hmessage

end EventHub.Relay.Ring
