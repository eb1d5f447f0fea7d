import EventHub.Proofs.Cluster.Keepers
import EventHub.Proofs.Store.Lifetimes
/-!
# Records that do not expire

A record in the store lives on only for its lifetime after the last call that names it. A server
names a connection when it registers it, and from then on its loop names it in every refresh. Every
connection of the server has been named so lately that the next tick comes within one refresh
interval of it, unless a refresh that has been issued is about to name it; and the interval is
shorter than the lifetime.
-/

namespace EventHub

namespace Cluster.Keeper

variable {s : Nat} {id : ServerId} {sharing : Sharing} {k k' k₀ : Keeper} {x : ConnectionId}
  {lifetime refresh : Nat}

/-! ## Every connection is named in time -/

def nextTick (k : Keeper) : Nat :=
  match k.loop with
  | .starting period => k.now + period
  | .waiting t | .working t _ => t.next

def period (k : Keeper) : Nat :=
  match k.loop with
  | .starting period => period
  | .waiting t | .working t _ => t.period

/-- The record of the connection has been written or refreshed, and no more than a refresh interval
before the time. -/
def Covered (k : Keeper) (id : ServerId) (sharing : Sharing) (x : ConnectionId) (time : Nat) :
    Prop :=
  ∃ t call, (t, call) ∈ k.log ∧ call.Renews id x sharing.lifetime ∧
    time ≤ t + sharing.refresh

/-- The loop ticks once in each interval, and at the next tick no connection of the server has gone
without a call for longer than that, but for those that a refresh is about to name. -/
structure Timely (s : Nat) (id : ServerId) (sharing : Sharing) (k : Keeper) : Prop where
  ready : k.Ready s id sharing
  period : k.period = sharing.refresh
  ahead : k.now ≤ k.nextTick
  soon : k.nextTick ≤ k.now + sharing.refresh
  past : ∀ entry ∈ k.log, entry.1 ≤ k.now
  covered : ∀ x ∈ k.ids s, k.Covered id sharing x k.nextTick ∨
    x ∈ k.issued ∧ k.Covered id sharing x k.now

theorem Covered.mono {time : Nat} (hcovered : k.Covered id sharing x time)
    (later : List (Nat × Store.Call)) (hlog : k'.log = k.log ++ later) :
    k'.Covered id sharing x time := by
  obtain ⟨t, call, hentry, hcall, htime⟩ := hcovered
  exact ⟨t, call, hlog ▸ List.mem_append_left later hentry, hcall, htime⟩

theorem past_append (hpast : ∀ entry ∈ k.log, entry.1 ≤ k.now) (calls : List Store.Call)
    (hlog : k'.log = k.log ++ calls.map (k.now, ·)) (hnow : k.now ≤ k'.now) :
    ∀ entry ∈ k'.log, entry.1 ≤ k'.now := by
  intro entry hentry
  rw [hlog, List.mem_append, List.mem_map] at hentry
  obtain hentry | ⟨call, -, rfl⟩ := hentry
  · exact (hpast entry hentry).trans hnow
  · exact hnow

theorem Starts.timely (hstarts : k.Starts s id sharing) : k.Timely s id sharing where
  ready := ⟨hstarts.shared, fun t r h => by rw [hstarts.loop] at h; cases h⟩
  period := by rw [Keeper.period, hstarts.loop]
  ahead := by rw [nextTick, hstarts.loop]; exact Nat.le_add_right _ _
  soon := by rw [nextTick, hstarts.loop]
  past := fun entry hentry => by rw [hstarts.log] at hentry; cases hentry
  covered := fun x hx => by rw [hstarts.empty] at hx; cases hx

/-- A tick at its time plans the next one a period later. -/
theorem tick_next {t : Ticker} {now : Nat} (hnow : now ≤ t.next) :
    (t.tick now).next = t.next + t.period := by
  rw [Ticker.tick, if_neg]
  omega

/-- A step at which nothing is planned anew. What is issued does not wait. -/
theorem Timely.keep (htimely : k.Timely s id sharing) (hready : k'.Ready s id sharing)
    (calls : List Store.Call) (hlog : k'.log = k.log ++ calls.map (k.now, ·))
    (hids : ∀ x ∈ k'.ids s,
      x ∈ k.ids s ∨ ∃ call ∈ calls, call.Registers id x sharing.lifetime)
    (hperiod : k'.period = k.period) (hnext : k'.nextTick = k.nextTick)
    (hissued : k'.issued = k.issued) (hnow : k.now ≤ k'.now) (hahead : k'.now ≤ k.nextTick)
    (hidle : k'.now = k.now ∨ k.issued = []) : k'.Timely s id sharing := by
  refine ⟨hready, hperiod.trans htimely.period, hnext.symm ▸ hahead, ?_,
    past_append htimely.past calls hlog hnow, fun x hx => ?_⟩
  · rw [hnext]
    exact htimely.soon.trans (Nat.add_le_add_right hnow _)
  · rw [hnext, hissued]
    obtain hx | ⟨call, hcall, hregisters⟩ := hids x hx
    · refine (htimely.covered x hx).imp (·.mono _ hlog) fun ⟨hx, hcovered⟩ => ?_
      -- What is issued is covered up to now only, so the clock may not have moved.
      obtain hsame | hnone := hidle
      · exact ⟨hx, hsame.symm ▸ hcovered.mono _ hlog⟩
      · rw [hnone] at hx
        cases hx
    · refine .inl ⟨k.now, call, ?_, .inl hregisters, htimely.soon⟩
      rw [hlog]
      exact List.mem_append_right _ (List.mem_map.mpr ⟨call, hcall, rfl⟩)

/-- At a tick every connection is within one interval of its last call, and is issued. -/
theorem Timely.ticked (htimely : k.Timely s id sharing) (hready : k'.Ready s id sharing)
    {t : Ticker} (hbefore : k.loop = .waiting t) (hdue : t.next ≤ k.now)
    (hafter : k'.loop = .working (t.tick k.now) ⟨k.ids s, .fresh⟩)
    (hcluster : k'.cluster = k.cluster) (hlog : k'.log = k.log) : k'.Timely s id sharing := by
  obtain ⟨-, hperiod, hahead, -, hpast, hcovered⟩ := htimely
  simp only [Keeper.period, nextTick, issued, hbefore] at hperiod hahead hcovered
  have hnow : k'.now = k.now := congrArg Cluster.now hcluster
  have hnext : k'.nextTick = k.now + sharing.refresh := by
    rw [nextTick, hafter]
    exact (tick_next hahead).trans (by rw [hperiod, Nat.le_antisymm hdue hahead])
  refine ⟨hready, by rw [Keeper.period, hafter]; exact hperiod, ?_, ?_, ?_, fun x hx => .inr ?_⟩
  · rw [hnext, hnow]
    exact Nat.le_add_right _ _
  · rw [hnext, hnow]
  · rw [hlog, hnow]
    exact hpast
  · rw [ids, hcluster] at hx
    refine ⟨by rw [issued, hafter]; exact hx, ?_⟩
    rw [hnow, Nat.le_antisymm hahead hdue]
    obtain hcovered | ⟨hnone, -⟩ := hcovered x hx
    · exact hcovered.mono [] (by rw [hlog, List.append_nil])
    · cases hnone

theorem Timely.refreshed (htimely : k.Timely s id sharing) (hready : k'.Ready s id sharing)
    {t : Ticker} {r : Refresh} (hbefore : k.loop = .working t r) (hafter : k'.loop = .waiting t)
    (hnow : k'.now = k.now) (hids : k'.ids s = k.ids s)
    (hlog : k'.log = k.log ++ [(k.now, .refresh id r.ids sharing.lifetime)]) :
    k'.Timely s id sharing := by
  obtain ⟨-, hperiod, hahead, hsoon, hpast, hcovered⟩ := htimely
  simp only [Keeper.period, nextTick, issued, hbefore] at hperiod hahead hsoon hcovered
  -- A connection that came after the tick is not issued, but its registration covers it.
  have hnext : k'.nextTick = t.next := by rw [nextTick, hafter]
  refine ⟨hready, by rw [Keeper.period, hafter]; exact hperiod, ?_, ?_,
    past_append hpast [_] hlog hnow.ge, fun x hx => .inl ?_⟩
  · rwa [hnext, hnow]
  · rwa [hnext, hnow]
  · rw [hnext]
    rw [hids] at hx
    obtain hcovered | ⟨hissued, -⟩ := hcovered x hx
    · exact hcovered.mono _ hlog
    · refine ⟨k.now, .refresh id r.ids sharing.lifetime, ?_,
        .inr ⟨r.ids, rfl, hissued⟩, hsoon⟩
      rw [hlog]
      exact List.mem_append_right _ (List.mem_singleton.mpr rfl)

theorem Timely.step (htimely : k.Timely s id sharing) (hstep : Step s k k') :
    k'.Timely s id sharing := by
  have hchange := htimely.ready.change hstep
  have hready := htimely.ready.after hchange
  cases hchange with
  | acted calls hacts hloop hlog =>
    have hnow : k'.now = k.now := hacts.keeps.now
    refine htimely.keep hready calls hlog hacts.ids ?_ ?_ ?_ hnow.ge (hnow.symm ▸ htimely.ahead)
      (.inl hnow)
    · rw [Keeper.period, Keeper.period, hloop]
    · rw [nextTick, nextTick, hloop, hnow]
    · rw [issued, issued, hloop]
  | started period hbefore hafter hcluster hlog =>
    have hnow : k'.now = k.now := congrArg Cluster.now hcluster
    refine htimely.keep hready [] (by rw [hlog]; simp) (fun x hx => .inl ?_) ?_ ?_ ?_
      hnow.ge (hnow.symm ▸ htimely.ahead) (.inl hnow)
    · rwa [ids, hcluster] at hx
    · rw [Keeper.period, Keeper.period, hafter, hbefore]
    · rw [nextTick, nextTick, hafter, hbefore]
    · rw [issued, issued, hafter, hbefore]
  | ticked t hbefore hdue hafter hcluster hlog =>
    exact htimely.ticked hready hbefore hdue hafter hcluster hlog
  | refreshed t r hbefore hafter hkeeps hids hlog =>
    exact htimely.refreshed hready hbefore hafter hkeeps.now hids hlog
  | passed t hbefore hafter hnow hnext hcluster hlog =>
    have hnextTick : k.nextTick = t.next := by rw [nextTick, hbefore]
    refine htimely.keep hready [] (by rw [hlog]; simp) (fun x hx => .inl ?_) ?_ ?_ ?_
      hnow (hnextTick.symm ▸ hnext) (.inr (by rw [issued, hbefore]))
    · rwa [ids, hcluster] at hx
    · rw [Keeper.period, Keeper.period, hafter, hbefore]
    · rw [hnextTick, nextTick, hafter]
    · rw [issued, issued, hafter, hbefore]

theorem Run.timely (hrun : Run s k k') (htimely : k.Timely s id sharing) :
    k'.Timely s id sharing := by
  induction hrun with
  | refl => exact htimely
  | tail _ hstep ih => exact ih.step hstep

/-! ## Time goes on -/

theorem run_turned (s : Nat) (k : Keeper) : Run s k (k.turned s) := by
  unfold turned
  split
  · next c loop hturn => exact .single (.turn true hturn)
  · exact .refl

theorem Timely.works (htimely : k.Timely s id sharing) {t : Ticker} {r : Refresh}
    (hloop : k.loop = .working t r) :
    ∃ k', Run s k k' ∧ k'.Timely s id sharing ∧ k'.now = k.now ∧ k'.loop = .waiting t := by
  have hturn := htimely.ready.stepRefreshing_working true hloop
  rw [← hloop] at hturn
  exact ⟨_, .single (.turn true hturn), htimely.step (.turn true hturn), rfl, rfl⟩

theorem Timely.awaits (htimely : k.Timely s id sharing) (hpos : 0 < sharing.refresh) {t : Ticker}
    (hloop : k.loop = .waiting t) :
    ∃ k' t', Run s k k' ∧ k'.Timely s id sharing ∧ k'.now = k.now ∧
      k'.loop = .waiting t' ∧
      k'.now < t'.next := by
  by_cases hdue : t.next ≤ k.now
  · have hturn : k.cluster.stepRefreshing false true s k.loop =
        (k.cluster, .moved (.working (t.tick k.now) (k.cluster.refreshOf s))) := by
      rw [hloop, stepRefreshing, stepLoop, Bool.false_and, if_neg Bool.false_ne_true]
      exact if_pos hdue
    have hahead := htimely.ahead
    have hperiod := htimely.period
    simp only [nextTick, Keeper.period, hloop] at hahead hperiod
    obtain ⟨k', hrun, htimely', hnow, hloop'⟩ := (htimely.step (.turn true hturn)).works rfl
    refine ⟨k', _, .head (.turn true hturn) hrun, htimely', hnow, hloop', ?_⟩
    rw [tick_next hahead, hnow]
    exact (Nat.lt_add_of_pos_right (hperiod ▸ hpos)).trans_le' hahead
  · exact ⟨k, t, .refl, htimely, rfl, hloop, Nat.lt_of_not_le hdue⟩

/-- The loop gets to wait for a tick that is still to come, while the clock stands still. -/
theorem Timely.waits (htimely : k.Timely s id sharing) (hpos : 0 < sharing.refresh) :
    ∃ k' t, Run s k k' ∧ k'.Timely s id sharing ∧ k'.now = k.now ∧ k'.loop = .waiting t ∧
      k'.now < t.next := by
  cases hloop : k.loop with
  | starting period =>
    have hturn : k.cluster.stepRefreshing false true s k.loop =
        (k.cluster, .moved (.waiting ⟨period, k.now + period⟩)) := by
      rw [hloop]
      rfl
    have hperiod := htimely.period
    simp only [Keeper.period, hloop] at hperiod
    refine ⟨_, _, .single (.turn true hturn), htimely.step (.turn true hturn), rfl, rfl, ?_⟩
    exact Nat.lt_add_of_pos_right (hperiod ▸ hpos)
  | waiting t => exact htimely.awaits hpos hloop
  | working t r =>
    obtain ⟨k₁, hrun, htimely₁, hnow, hloop₁⟩ := htimely.works hloop
    obtain ⟨k₂, t', hrun', htimely₂, hnow', hloop₂, hlt⟩ :=
      htimely₁.awaits hpos hloop₁
    exact ⟨k₂, t', hrun.trans hrun', htimely₂, hnow'.trans hnow, hloop₂, hlt⟩

/-- The loop does not hold up the clock: every later time is reached. -/
theorem Timely.reaches (htimely : k.Timely s id sharing) (hpos : 0 < sharing.refresh) {time : Nat}
    (htime : k.now ≤ time) : ∃ k', Run s k k' ∧ k'.now = time := by
  induction hleft : time - k.now using Nat.strong_induction_on generalizing k with
  | _ n ih =>
    obtain rfl | hlt := htime.eq_or_lt
    · exact ⟨k, .refl, rfl⟩
    · obtain ⟨k₁, t, hrun, htimely₁, hnow, hloop, hnext⟩ := htimely.waits hpos
      have hpass : Step s k₁ (k₁.passTo (min time t.next)) := by
        refine .pass _ (by omega) ?_ fun t' ht' => ?_
        · rw [hloop, stepRefreshing, stepLoop, Bool.false_and, if_neg Bool.false_ne_true]
          exact congrArg Prod.snd (if_neg (Nat.not_le_of_lt hnext))
        · rw [hloop] at ht'
          rw [List.mem_singleton.mp ht']
          exact Nat.min_le_right ..
      obtain ⟨k', hrun', hreached⟩ :=
        ih (time - min time t.next) (by omega) (htimely₁.step hpass) (Nat.min_le_left ..) rfl
      exact ⟨k', hrun.trans (.head hpass hrun'), hreached⟩

/-! ## Lifetimes -/

theorem Timely.fresh (htimely : k.Timely s id sharing)
    (hshorter : sharing.refresh < sharing.lifetime) (hx : x ∈ k.ids s) :
    k.Fresh id x sharing.lifetime := by
  have hcovered : k.Covered id sharing x k.now := by
    obtain ⟨t, call, hentry, hcall, htime⟩ | ⟨-, hcovered⟩ := htimely.covered x hx
    · exact ⟨t, call, hentry, hcall, htimely.ahead.trans htime⟩
    · exact hcovered
  obtain ⟨t, call, hentry, hcall, htime⟩ := hcovered
  exact ⟨t, call, hentry, hcall, htimely.past _ hentry, by omega⟩

/-! ## A connection that is gone -/

/-- Since the keeper was `k`, without the connection, the connection has not come back, and only the
refresh that had been issued then has named it, at that time. -/
structure Gone (s : Nat) (id : ServerId) (x : ConnectionId) (k k' : Keeper)
    (later : List (Nat × Store.Call)) : Prop where
  ids : x ∉ k'.ids s
  issued : x ∈ k'.issued → x ∈ k.issued ∧ k'.now = k.now
  named : ∀ time ids expiry, (time, Store.Call.refresh id ids expiry) ∈ later → x ∈ ids →
    x ∈ k.issued ∧ time = k.now

theorem Gone.acted {k'' : Keeper} {later : List (Nat × Store.Call)}
    (hgone : Gone s id x k k' later) {calls : List Store.Call}
    (hacts : Acts s id lifetime k'.cluster k''.cluster calls) (hloop : k''.loop = k'.loop)
    (habsent : ∀ call ∈ calls, ¬ call.Registers id x lifetime) :
    Gone s id x k k'' (later ++ calls.map (k'.now, ·)) := by
  refine ⟨fun hx => ?_, fun hx => ?_, fun time ids expiry hentry hx => ?_⟩
  · obtain hx | ⟨call, hcall, hregisters⟩ := hacts.ids x hx
    · exact hgone.ids hx
    · exact habsent call hcall hregisters
  · rw [Keeper.issued, hloop] at hx
    have hnow : k''.now = k'.now := hacts.keeps.now
    exact (hgone.issued hx).imp_right hnow.trans
  · obtain hentry | hentry := List.mem_append.mp hentry
    · exact hgone.named time ids expiry hentry hx
    · obtain ⟨call, hcall, heq⟩ := List.mem_map.mp hentry
      cases heq
      exact absurd hcall (hacts.others ids expiry)

theorem Gone.quiet {k'' : Keeper} {later : List (Nat × Store.Call)}
    (hgone : Gone s id x k k' later) (hids : k''.ids s = k'.ids s) (hissued : x ∉ k''.issued) :
    Gone s id x k k'' (later ++ []) :=
  ⟨hids.symm ▸ hgone.ids, fun hx => absurd hx hissued,
    (List.append_nil later).symm ▸ hgone.named⟩

theorem Gone.refreshed {k'' : Keeper} {later : List (Nat × Store.Call)}
    (hgone : Gone s id x k k' later) {t : Ticker} {r : Refresh} (hbefore : k'.loop = .working t r)
    (hafter : k''.loop = .waiting t) (hids : k''.ids s = k'.ids s) :
    Gone s id x k k'' (later ++ [(k'.now, .refresh id r.ids lifetime)]) := by
  refine ⟨hids.symm ▸ hgone.ids, fun hx => ?_, fun time ids expiry hentry hx => ?_⟩
  · rw [Keeper.issued, hafter] at hx
    cases hx
  · obtain hentry | hentry := List.mem_append.mp hentry
    · exact hgone.named time ids expiry hentry hx
    · cases List.mem_singleton.mp hentry
      exact hgone.issued (by rw [Keeper.issued, hbefore]; exact hx)

/-- A connection that is gone stays so unless a step registers it. -/
theorem Gone.step {k'' : Keeper} {later entries : List (Nat × Store.Call)}
    (hgone : Gone s id x k k' later) (hchange : Change s id lifetime k' k'')
    (hentries : k''.log = k'.log ++ entries)
    (habsent : ∀ entry ∈ entries, ¬ entry.2.Registers id x lifetime) :
    Gone s id x k k'' (later ++ entries) := by
  have hcancel {l : List (Nat × Store.Call)} (hlog : k''.log = k'.log ++ l) : l = entries :=
    List.append_cancel_left (hlog.symm.trans hentries)
  cases hchange with
  | acted calls hacts hloop hlog =>
    obtain rfl := hcancel hlog
    exact hgone.acted hacts hloop fun call hcall =>
      habsent _ (List.mem_map.mpr ⟨call, hcall, rfl⟩)
  | started period hbefore hafter hcluster hlog =>
    obtain rfl := hcancel (by rw [hlog, List.append_nil])
    exact hgone.quiet (by rw [Keeper.ids, hcluster, Keeper.ids]) (by simp [Keeper.issued, hafter])
  | ticked t hbefore hdue hafter hcluster hlog =>
    obtain rfl := hcancel (by rw [hlog, List.append_nil])
    refine hgone.quiet (by rw [Keeper.ids, hcluster, Keeper.ids]) ?_
    rw [Keeper.issued, hafter]
    exact hgone.ids
  | refreshed t r hbefore hafter hkeeps hids hlog =>
    obtain rfl := hcancel hlog
    exact hgone.refreshed hbefore hafter hids
  | passed t hbefore hafter hnow hnext hcluster hlog =>
    obtain rfl := hcancel (by rw [hlog, List.append_nil])
    exact hgone.quiet (by rw [Keeper.ids, hcluster]; rfl) (by simp [Keeper.issued, hafter])

theorem Change.exists_log (hchange : Change s id lifetime k k') :
    ∃ entries, k'.log = k.log ++ entries := by
  cases hchange with
  | acted calls hacts hloop hlog => exact ⟨_, hlog⟩
  | refreshed t r hbefore hafter hkeeps hids hlog => exact ⟨_, hlog⟩
  | started _ _ _ _ hlog | ticked _ _ _ _ _ hlog | passed _ _ _ _ _ _ hlog =>
    exact ⟨[], by rw [hlog, List.append_nil]⟩

theorem Run.gone (hrun : Run s k k') (htimely : k.Timely s id sharing) (hx : x ∉ k.ids s) :
    ∃ later, k'.log = k.log ++ later ∧
      ((∀ entry ∈ later, ¬ entry.2.Registers id x sharing.lifetime) →
        Gone s id x k k' later) := by
  induction hrun with
  | refl =>
    refine ⟨[], (List.append_nil _).symm,
      fun _ => ⟨hx, fun h => ⟨h, rfl⟩, fun _ _ _ h => ?_⟩⟩
    cases h
  | @tail k' k'' hrun hstep ih =>
    obtain ⟨later, hlog, hgone⟩ := ih
    have hchange := (Run.timely hrun htimely).ready.change hstep
    obtain ⟨entries, hentries⟩ := hchange.exists_log
    refine ⟨later ++ entries, by rw [hentries, hlog, List.append_assoc], fun habsent => ?_⟩
    refine (hgone fun entry hentry => ?_).step hchange hentries fun entry hentry => ?_
    · exact habsent entry (List.mem_append_left entries hentry)
    · exact habsent entry (List.mem_append_right later hentry)

/-- The record of a connection that is gone expires within its lifetime. -/
theorem Gone.not_fresh {later : List (Nat × Store.Call)} (hgone : Gone s id x k k' later)
    (htimely : k.Timely s id sharing) (hlog : k'.log = k.log ++ later)
    (habsent : ∀ entry ∈ later, ¬ entry.2.Registers id x lifetime)
    (hlate : k.now + lifetime ≤ k'.now) : ¬ k'.Fresh id x lifetime := by
  rintro ⟨time, call, hentry, hcall, -, hnow⟩
  have htime : time ≤ k.now := by
    rw [hlog] at hentry
    obtain hentry | hentry := List.mem_append.mp hentry
    · exact htimely.past _ hentry
    · obtain hregisters | ⟨ids, rfl, hx⟩ := hcall
      · exact absurd hregisters (habsent _ hentry)
      · exact (hgone.named time ids lifetime hentry hx).2.le
  omega

/-! ## Records of connections -/

/-- At every moment the store has been told of each connection of the server less than its whole
lifetime ago. A connection that is out of the registry is named again only when it is registered
anew, or by a refresh that had been issued before and reaches the store at the same moment; so its
record expires within its lifetime. So do all records of a server that makes no call any more. -/
theorem connections_fresh
    (hvalid : Settings.validateLifetime (.ofMillis lifetime) (.ofMillis refresh) = .ok ())
    (hlimit : lifetime < Numeric.limit 63) (hstarts : k₀.Starts s id ⟨lifetime, refresh⟩)
    (hrun : Run s k₀ k) :
    Settings.Distributed.expiryMillis (.ofMillis lifetime) = lifetime ∧
    (∀ x ∈ k.ids s, k.Fresh id x lifetime) ∧
    (∀ x ∉ k.ids s, ∀ k', Run s k k' → ∃ later, k'.log = k.log ++ later ∧
      ((∀ entry ∈ later, ¬ entry.2.Registers id x lifetime) →
        (∀ time ids expiry, (time, .refresh id ids expiry) ∈ later → x ∈ ids →
          x ∈ k.issued ∧ time = k.now) ∧
        (k.now + lifetime ≤ k'.now → ¬ k'.Fresh id x lifetime))) ∧
    ∀ k' : Keeper, k'.log = k.log → k.now + lifetime ≤ k'.now →
      ∀ x, ¬ k'.Fresh id x lifetime := by
  obtain ⟨hpos, hshorter⟩ := Settings.validateLifetime_ofMillis.mp hvalid
  have htimely := Run.timely hrun hstarts.timely
  refine ⟨Settings.expiryMillis_ofMillis (hpos.trans hshorter) hlimit,
    fun x hx => htimely.fresh hshorter hx, fun x hx k' hrun' => ?_, ?_⟩
  · obtain ⟨later, hlog, hgone⟩ := Run.gone hrun' htimely hx
    exact ⟨later, hlog, fun habsent =>
      ⟨(hgone habsent).named, (hgone habsent).not_fresh htimely hlog habsent⟩⟩
  · rintro k' hlog hlate x ⟨time, call, hentry, -, -, hnow⟩
    have htime := htimely.past _ (hlog ▸ hentry)
    omega

/-- A server whose records live for ten milliseconds and are refreshed every six. -/
def brief : Keeper where
  cluster := {
    stamp := .epoch
    connections := [⟨⟨"c"⟩, "u", none, true, .recorder {}⟩]
    servers := [{ id := ⟨"s"⟩, sharing := some ⟨10, 6⟩ }]
    ring := .ofCapacity 4 }
  loop := .starting 6

/-- A connection comes at three, and the clock moves on to the first tick. -/
def joined : Keeper :=
  let k := (brief.turned 0).passTo 3
  (k.goTo (k.cluster.stepAdd false 0 0 .fresh).1 k.loop).passTo 6

/-- The connection has been named by the refresh at six, and it is eleven. -/
def visited : Keeper := ((joined.turned 0).turned 0).passTo 11

def deserted : Keeper :=
  visited.goTo (visited.cluster.stepRemoval 0 (.fresh ⟨"c"⟩)).1 visited.loop

def quieter : Keeper := (((deserted.passTo 12).turned 0).turned 0).passTo 18

/-- The refresh at eighteen has taken place, and it is twenty-one. -/
def forgotten : Keeper := ((quieter.turned 0).turned 0).passTo 21

theorem run_passTo {time : Nat} (hnow : k.now ≤ time)
    (hblocked : (k.cluster.stepRefreshing false true s k.loop).2 = .blocked)
    (htimers : ∀ t ∈ (Activity.refreshing s k.loop).timers, time ≤ t) :
    Run s k (k.passTo time) :=
  .single (.pass time hnow hblocked htimers)

theorem run_visited : Run 0 brief visited := by
  have hfirst : Run 0 brief joined :=
    (((run_turned 0 brief).trans (run_passTo (by decide) rfl (by decide))).tail
      (.add false 0)).trans (run_passTo (by decide) rfl (by decide))
  exact ((hfirst.trans (run_turned 0 _)).trans (run_turned 0 _)).trans
    (run_passTo (by decide) rfl (by decide))

theorem run_forgotten : Run 0 deserted forgotten := by
  have hfirst : Run 0 deserted quieter :=
    (((run_passTo (by decide) rfl (by decide)).trans (run_turned 0 _)).trans
      (run_turned 0 _)).trans (run_passTo (by decide) rfl (by decide))
  exact ((hfirst.trans (run_turned 0 _)).trans (run_turned 0 _)).trans
    (run_passTo (by decide) rfl (by decide))

theorem connections_fresh_brief :
    (Run 0 brief visited ∧ ⟨"c"⟩ ∈ visited.ids 0 ∧
      visited.Fresh ⟨"s"⟩ ⟨"c"⟩ 10) ∧
      Run 0 deserted forgotten ∧ ¬ forgotten.Fresh ⟨"s"⟩ ⟨"c"⟩ 10 := by
  have hstarts : brief.Starts 0 ⟨"s"⟩ ⟨10, 6⟩ :=
    ⟨⟨⟨_, rfl, rfl, rfl⟩, rfl, rfl⟩, rfl, rfl, rfl⟩
  obtain ⟨-, hfresh, -⟩ := connections_fresh rfl (by decide) hstarts run_visited
  obtain ⟨-, -, hgone, -⟩ :=
    connections_fresh rfl (by decide) hstarts (run_visited.tail (.remove (.fresh ⟨"c"⟩)))
  obtain ⟨later, hlog, hlater⟩ := hgone ⟨"c"⟩ (by decide) forgotten run_forgotten
  obtain rfl : later = [(12, .refresh ⟨"s"⟩ [] 10), (18, .refresh ⟨"s"⟩ [] 10)] :=
    List.append_cancel_left (hlog.symm.trans rfl)
  have hmember : ⟨"c"⟩ ∈ visited.ids 0 := by decide
  refine ⟨⟨run_visited, hmember, hfresh _ hmember⟩, run_forgotten,
    (hlater ?_).2 (by decide)⟩
  rintro entry hentry ⟨record, hregister, -⟩
  simp only [List.mem_cons, List.not_mem_nil, or_false] at hentry
  obtain rfl | rfl := hentry <;> cases hregister

end Cluster.Keeper

end EventHub
