import EventHub.Store.Commands
/-!
# Lifetimes as the store gets them

Settings compare a lifetime and a refresh interval to the nanosecond, but an expiry is written in
whole milliseconds that fit into sixty-three bits. So an interval that is accepted may be as long as
the expiry, or longer: this happens exactly if it lies in the same millisecond as the lifetime, or
beyond the largest expiry.
-/

namespace EventHub

open Time (Duration)

namespace Settings

theorem validateLifetime_eq_ok {lifetime refresh : Duration} :
    validateLifetime lifetime refresh = .ok () ↔
      0 < refresh.nanoseconds ∧ refresh < lifetime := by
  have hzero : refresh.isZero = true ↔ refresh.nanoseconds = 0 := decide_eq_true_iff
  have hnot : refresh < lifetime ↔ ¬ lifetime ≤ refresh := Nat.not_le.symm
  rw [validateLifetime, hnot]
  split
  · next h => simp [hzero.mp h]
  · next h =>
    have hpos := Nat.pos_of_ne_zero (mt hzero.mpr h)
    split
    · next hle => simp [hle]
    · next hle => simp [hle, hpos]

/-- What it means for a lifetime and a refresh interval in milliseconds to be accepted. -/
theorem validateLifetime_ofMillis {lifetime refresh : Nat} :
    validateLifetime (.ofMillis lifetime) (.ofMillis refresh) = .ok () ↔
      0 < refresh ∧ refresh < lifetime := by
  rw [validateLifetime_eq_ok]
  exact and_congr (Nat.mul_pos_iff_of_pos_right (by decide))
    (Nat.mul_lt_mul_right (by decide))

/-- A lifetime in whole milliseconds that fits reaches the store uncut. -/
theorem expiryMillis_ofMillis {lifetime : Nat} (hpos : 0 < lifetime)
    (hlimit : lifetime < Numeric.limit 63) :
    Distributed.expiryMillis (.ofMillis lifetime) = lifetime := by
  have hmillis : (Duration.ofMillis lifetime).millis = lifetime :=
    Nat.mul_div_cancel lifetime (by decide)
  rw [Distributed.expiryMillis, hmillis]
  omega

theorem lt_ofMillis {d : Duration} {n : Nat} : d < .ofMillis n ↔ d.millis < n :=
  (Nat.div_lt_iff_lt_mul (by decide)).symm

/-- The expiry is longer than an accepted interval if the lifetime has no whole millisecond, or else
if the whole milliseconds that are written are more than those of the interval. -/
theorem lt_expiryMillis_iff {lifetime refresh : Duration} (hshorter : refresh < lifetime) :
    refresh < .ofMillis (Distributed.expiryMillis lifetime) ↔
      lifetime.millis = 0 ∨ refresh.millis < min lifetime.millis (Numeric.limit 63 - 1) := by
  have hlargest : 1 ≤ Numeric.limit 63 - 1 := by decide
  have hle : refresh.millis ≤ lifetime.millis := Nat.div_le_div_right (Nat.le_of_lt hshorter)
  rw [lt_ofMillis, Distributed.expiryMillis]
  omega

end Settings

namespace Store

variable {keyPrefix key expiry : String} {lifetime refresh : Duration}

theorem expires_registerCommands {r : Record} {connectedAt : Time.Timestamp} :
    ["PEXPIRE", key, expiry] ∈ registerCommands keyPrefix r connectedAt lifetime ↔
      (key = connectionKey keyPrefix r.connection ∨ key = serverKey keyPrefix r.server) ∧
        expiry = toString (Settings.Distributed.expiryMillis lifetime) := by
  simp [registerCommands, transaction, ← or_and_right]

theorem expires_refreshCommands {server : ServerId} {ids : List ConnectionId} :
    ["PEXPIRE", key, expiry] ∈ refreshCommands keyPrefix server ids lifetime ↔
      ((∃ id ∈ ids, key = connectionKey keyPrefix id) ∨ key = serverKey keyPrefix server) ∧
        expiry = toString (Settings.Distributed.expiryMillis lifetime) := by
  simp only [refreshCommands, List.mem_append, List.mem_map, List.mem_singleton, List.cons.injEq,
    and_true, true_and]
  constructor
  · rintro (⟨id, hid, rfl, rfl⟩ | ⟨rfl, rfl⟩)
    · exact ⟨.inl ⟨id, hid, rfl⟩, rfl⟩
    · exact ⟨.inr rfl, rfl⟩
  · rintro ⟨⟨id, hid, rfl⟩ | rfl, rfl⟩
    · exact .inl ⟨id, hid, rfl, rfl⟩
    · exact .inr ⟨rfl, rfl⟩

/-- All expiries that a server writes, when it registers a connection and when it refreshes its
connections, are of one length. That length is more than the refresh interval exactly if the
lifetime has no whole millisecond, in which case it is raised to one, or if the whole milliseconds
of the interval are fewer than those of the lifetime and than the largest expiry. -/
theorem expiry_outlasts_iff (haccepted : Settings.validateLifetime lifetime refresh = .ok ())
    (keyPrefix : String) : ∃ n : Nat,
    (∀ (r : Record) (connectedAt : Time.Timestamp) (key expiry : String),
      ["PEXPIRE", key, expiry] ∈ registerCommands keyPrefix r connectedAt lifetime ↔
        (key = connectionKey keyPrefix r.connection ∨ key = serverKey keyPrefix r.server) ∧
          expiry = toString n) ∧
    (∀ (server : ServerId) (ids : List ConnectionId) (key expiry : String),
      ["PEXPIRE", key, expiry] ∈ refreshCommands keyPrefix server ids lifetime ↔
        ((∃ id ∈ ids, key = connectionKey keyPrefix id) ∨
          key = serverKey keyPrefix server) ∧
          expiry = toString n) ∧
    (refresh < .ofMillis n ↔
      lifetime.millis = 0 ∨ refresh.millis < min lifetime.millis (Numeric.limit 63 - 1)) := by
  have hshorter := (Settings.validateLifetime_eq_ok.mp haccepted).2
  exact ⟨_, fun _ _ _ _ => expires_registerCommands, fun _ _ _ _ => expires_refreshCommands,
    Settings.lt_expiryMillis_iff hshorter⟩

theorem expiry_outlasts_iff_fraction :
    Settings.validateLifetime (.ofParts 1 999999999) (.ofParts 1 500000000) = .ok () ∧
    ∃ n : Nat, ["PEXPIRE", "sse:connection:c", toString n] ∈
        refreshCommands "sse" ⟨"s"⟩ [⟨"c"⟩] (.ofParts 1 999999999) ∧
      Duration.ofParts 1 500000000 < .ofMillis n := by
  have haccepted :
      Settings.validateLifetime (.ofParts 1 999999999) (.ofParts 1 500000000) = .ok () := rfl
  obtain ⟨n, -, hrefresh, houtlasts⟩ := expiry_outlasts_iff haccepted "sse"
  refine ⟨haccepted, n, ?_, houtlasts.mpr (by decide)⟩
  exact (hrefresh _ _ _ _).mpr ⟨.inl ⟨⟨"c"⟩, by simp, rfl⟩, rfl⟩

/-- A record that lives for almost two milliseconds expires after one, and the refresh that is to
extend it comes half a millisecond later. -/
theorem expires_before_refresh :
    Settings.validateLifetime (.ofParts 0 1900000) (.ofParts 0 1500000) = .ok () ∧
      ["PEXPIRE", "sse:connection:c", "1"] ∈
        refreshCommands "sse" ⟨"s"⟩ [⟨"c"⟩] (.ofParts 0 1900000) ∧
      Duration.ofMillis 1 < .ofParts 0 1500000 :=
  ⟨rfl, expires_refreshCommands.mpr ⟨.inl ⟨⟨"c"⟩, by simp, rfl⟩, rfl⟩, by decide⟩

end Store

end EventHub
