import Edfomai.Invariant

/-!
# Edfomai.MissLatch

How a record is latched as missed. `miss_latch` collects what holds of every record
in every run: the bound on its remaining time, its status and the notifications sent
since its last arming, and how both can change until the next one.

Misses are noticed by recalculations only. `miss_detected_iff` says precisely when a
miss has been noticed by the time a record stops being monitored: when some
recalculation of that arming has read a clock value past the deadline.
-/

namespace Edfomai

open History

/-! ### What a record may become until it is armed again -/

/-- `d'` is later than `d`: armings are only added, and a record that has not been
armed in between was already there, with at least as much time and no less missed. -/
structure Evolves (k : TaskName) (d d' : Driver) : Prop where
  armings_le : armings k d.kernel.history ≤ armings k d'.kernel.history
  kept : armings k d'.kernel.history = armings k d.kernel.history →
    ∀ r', d'.dtaskMap.lookup k = some r' → ∃ r, d.dtaskMap.lookup k = some r ∧
      r'.remain ≤ r.remain ∧ (r.status = .missed → r'.status = .missed)

namespace Evolves

variable {k : TaskName} {d d' d'' : Driver}

theorem refl (k : TaskName) (d : Driver) : Evolves k d d :=
  ⟨Nat.le_refl _, fun _ r hr => ⟨r, hr, UInt64.le_refl _, id⟩⟩

theorem trans (h : Evolves k d d') (h' : Evolves k d' d'') : Evolves k d d'' where
  armings_le := Nat.le_trans h.armings_le h'.armings_le
  kept heq r'' hr'' := by
    -- the number of armings cannot have gone up and down again
    have h₁ := h.armings_le
    have h₂ := h'.armings_le
    obtain ⟨r', hr', hle', hst'⟩ := h'.kept (by omega) r'' hr''
    obtain ⟨r, hr, hle, hst⟩ := h.kept (by omega) r' hr'
    exact ⟨r, hr, UInt64.le_trans hle' hle, fun hm => hst' (hst hm)⟩

/-- Arming the record itself ends the comparison. -/
theorem of_armed (h : armings k d'.kernel.history = armings k d.kernel.history + 1) :
    Evolves k d d' :=
  ⟨by omega, fun heq => by omega⟩

/-- An update that neither arms the record nor touches it. -/
theorem of_same (harm : armings k d'.kernel.history = armings k d.kernel.history)
    (hl : d'.dtaskMap.lookup k = d.dtaskMap.lookup k) : Evolves k d d' :=
  ⟨by omega, fun _ r hr => ⟨r, hl ▸ hr, UInt64.le_refl _, id⟩⟩

/-- A recalculation only takes time away and only latches. -/
theorem recalc {site : Site} {t c : UInt64} (h : Records site t d) (ht : t ≤ c) :
    Evolves k d (rtDtaskRecalculateprio c d) where
  armings_le := by rw [recalc_armings]
  kept _ r' hr' := by
    rw [recalc_lookup] at hr'
    obtain ⟨r, hr, rfl⟩ := Option.map_eq_some_iff.mp hr'
    refine ⟨r, hr, ?_, fun hm => recalc_status_eq_missed.mpr (Or.inl hm)⟩
    by_cases ha : r.Active
    · rw [latch_remain, refresh_remain ha]
      exact UInt64.le_trans (remainAt_anti _ ht) (h.2 k r hr).remainAt_le
    · simp [RtDtask.refresh, ha]

end Evolves

theorem Update.evolves {site : Site} {s s' : SerialState} (k : TaskName) (h : Inv site s)
    (hu : Update site s s') : Evolves k s.driver s'.driver := by
  cases hu with
  | tick => exact .refl k _
  | malloc p => exact .of_same rfl rfl
  | free p => exact .of_same rfl rfl
  | wait p k₀ =>
      refine ⟨Nat.le_refl _, fun _ r' hr' => ?_⟩
      rcases eq_or_ne k k₀ with rfl | hne
      · rw [Driver.adjust_dtaskMap, Table.lookup_adjust_self] at hr'
        obtain ⟨r, hr, rfl⟩ := Option.map_eq_some_iff.mp hr'
        exact ⟨r, hr, UInt64.le_refl _, id⟩
      · rw [Driver.adjust_dtaskMap, Table.lookup_adjust_ne _ _ hne] at hr'
        exact ⟨r', hr', UInt64.le_refl _, id⟩
  | erase p k₀ =>
      exact ⟨Nat.le_refl _, fun _ r hr =>
        ⟨r, (Table.lookup_erase_eq_some hr).2, UInt64.le_refl _, id⟩⟩
  | rearm hl ht hc hf =>
      next k₀ r f =>
      refine .trans ?_ (.recalc ((h.records.tick ht).rearmed hl hf) hc)
      rcases eq_or_ne k k₀ with rfl | hne
      · exact .of_armed (by simp [rearmed])
      · exact .of_same (by simp [rearmed, hne.symm]) (Table.lookup_adjust_ne _ _ hne)
  | add hl htask ht hc =>
      next d r b task =>
      refine .trans ?_ (.recalc ((h.records.tick ht).added hl htask rfl) hc)
      rcases eq_or_ne k (d.kernel.name task) with rfl | hne
      · exact .of_armed (by simp [added])
      · exact .of_same (by simp [added, hne.symm]) (Table.lookup_add_ne _ _ hne)
  | recalc ht => exact .recalc h.records ht

theorem serial_step_evolves {site : Site} {s s' : SerialState} {q : Request} (k : TaskName)
    (hs : (serial site).Reachable s) (h : (serial site).step s q s') :
    Evolves k s.driver s'.driver := by
  have hstep : ∀ s₁ s₂, Inv site s₁ ∧ Evolves k s.driver s₁.driver → Update site s₁ s₂ →
      Inv site s₂ ∧ Evolves k s.driver s₂.driver :=
    fun _ _ hinv hu => ⟨hinv.1.update hu, hinv.2.trans (hu.evolves k hinv.1)⟩
  exact ((serial_step_updates h).invariant hstep ⟨reachable_inv hs, .refl k _⟩).2

/-- Along a run, between two armings, time only runs out and the status only goes
from `OK` to `MISSED`. -/
theorem run_evolves {site : Site} {s s' : SerialState} {qs : List Request} (k : TaskName)
    (hs : (serial site).Reachable s) (hrun : (serial site).Run s qs s') :
    Evolves k s.driver s'.driver := by
  have hstep : ∀ (s₀ s₁ : SerialState) q s₂, (serial site).Reachable s₁ →
      Evolves k s₀.driver s₁.driver → (serial site).step s₁ q s₂ →
      Evolves k s₀.driver s₂.driver :=
    fun _ _ _ _ hs₁ hr h => hr.trans (serial_step_evolves k hs₁ h)
  exact hrun.relation (fun _ => .refl k _) hstep hs

/-! ### The latch -/

/-- What holds of the records of a state and of its history, and of the runs from it. -/
structure MissLatch (site : Site) (s : SerialState) : Prop where
  /-- No more time remains than the task was given. -/
  remain_le : ∀ k r, s.driver.dtaskMap.lookup k = some r → r.remain ≤ r.relativeDeadline
  /-- A record is missed exactly when it has been notified since its last arming … -/
  missed_iff : ∀ k r, s.driver.dtaskMap.lookup k = some r →
    (r.status = .missed ↔ 0 < missesSince k s.driver.kernel.history)
  /-- … which happens at most once. -/
  once : ∀ k r, s.driver.dtaskMap.lookup k = some r →
    missesSince k s.driver.kernel.history ≤ 1
  /-- A missed record has no time left. -/
  missed_remain : ∀ k r, s.driver.dtaskMap.lookup k = some r → r.status = .missed → r.remain = 0
  /-- Until it is armed again, its time does not grow and its status changes from `OK`
  to `MISSED` only. -/
  monotone : ∀ qs s', (serial site).Run s qs s' → ∀ k r r',
    s.driver.dtaskMap.lookup k = some r → s'.driver.dtaskMap.lookup k = some r' →
    armings k s'.driver.kernel.history = armings k s.driver.kernel.history →
      r'.remain ≤ r.remain ∧ (r.status = .missed → r'.status = .missed)
  /-- A recalculation that finds records is noted with the clock value it read. -/
  noted : ∀ t, s.driver.dtaskMap.keys ≠ [] →
    lastRecalc (rtDtaskRecalculateprio t s.driver).kernel.history = some t
  /-- Right after a recalculation that read `t`, an active record is missed exactly when
  its deadline is at most `t`. -/
  recalculated : ∀ t, lastRecalc s.driver.kernel.history = some t → ∀ k r,
    s.driver.dtaskMap.lookup k = some r → r.Active → (r.status = .missed ↔ r.deadline ≤ t)

/-- **The latch of missed deadlines** works in every run. -/
theorem miss_latch {site : Site} {s : SerialState} (hs : (serial site).Reachable s) :
    MissLatch site s := by
  have hinv := reachable_inv hs
  have hmisses : ∀ k r, s.driver.dtaskMap.lookup k = some r →
      missesSince k s.driver.kernel.history = if r.status = .missed then 1 else 0 :=
    fun k r hl => (hinv.records.2 k r hl).misses
  constructor
  case remain_le => exact fun k r hl => (hinv.records.2 k r hl).remain_le
  case missed_iff =>
    intro k r hl
    rw [hmisses k r hl]
    cases r.status <;> simp
  case once =>
    intro k r hl
    rw [hmisses k r hl]
    split <;> omega
  case missed_remain => exact fun k r hl hm => ((hinv.records.2 k r hl).missed hm).1
  case monotone =>
    intro qs s' hrun k r r' hl hl' heq
    obtain ⟨r₀, hr₀, hle, hst⟩ := (run_evolves k hs hrun).kept heq r' hl'
    obtain rfl : r₀ = r := Option.some.inj (hr₀.symm.trans hl)
    exact ⟨hle, hst⟩
  case noted => exact fun t hkeys => recalc_lastRecalc t hkeys
  case recalculated =>
    intro t hlast k r hl ha
    exact (hinv.settled t hlast k r hl ha).2.1

/-- A task that overruns its deadline of 10, recalculated at 20. -/
def overrunRequests : List Request :=
  [⟨.create 0 10, plainReplies 0 10⟩, ⟨.recalculateprio, plainReplies 20 20⟩]

/-- The recalculation is the last one, and finds the task's record active and past its deadline:
it is missed. -/
theorem miss_latch_overrun : MissLatch letterSite (letterRun overrunRequests) ∧
    lastRecalc (letterRun overrunRequests).driver.kernel.history = some 20 ∧
    ∃ r, (letterRun overrunRequests).driver.dtaskMap.lookup (letterName 0) = some r ∧
      r.Active ∧ r.status = .missed := by
  have hlatch : MissLatch letterSite (letterRun overrunRequests) :=
    miss_latch (letterRun_reachable (by decide +kernel) (by decide +kernel))
  have hlast : lastRecalc (letterRun overrunRequests).driver.kernel.history = some 20 := by
    decide +kernel
  have h : ((letterRun overrunRequests).driver.dtaskMap.lookup (letterName 0)).any
      (fun r => r.Active ∧ r.deadline ≤ 20) = true := by decide +kernel
  obtain ⟨r, hl, hr⟩ := (Option.any_eq_true _ _).mp h
  obtain ⟨ha, hdeadline⟩ := of_decide_eq_true hr
  exact ⟨hlatch, hlast, r, hl, ha, (hlatch.recalculated 20 hlast _ r hl ha).mpr hdeadline⟩

/-! ### When a miss is noticed -/

/-- The task whose record stops being monitored under its current arming when the
operation is carried out. -/
def Op.endsMonitoring : Op → Option RtTask
  | setdeadline task _ | resetdeadline task | goingwaitp task | stopwatchdog task => some task
  | create _ _ | delete _ | recalculateprio => none

/-- A record's arming is over once it has been armed again: what happens then is
counted for the new arming. -/
theorem rearmed_past {d : Driver} {k : TaskName} {r : RtDtask} (f : RtDtask → RtDtask)
    (c c' D : UInt64) (hl : d.dtaskMap.lookup k = some r) :
    missesOf k (armings k d.kernel.history)
        (rtDtaskRecalculateprio c' (rearmed k f c D d)).kernel.history =
      missesOf k (armings k d.kernel.history) d.kernel.history ∧
    readingsOf k (armings k d.kernel.history)
        (rtDtaskRecalculateprio c' (rearmed k f c D d)).kernel.history =
      readingsOf k (armings k d.kernel.history) d.kernel.history := by
  have hl' : (rearmed k f c D d).dtaskMap.lookup k = some (f r) := by
    simp [rearmed, Table.lookup_adjust_self, hl]
  rw [recalc_missesOf c' _ hl', recalc_readingsOf c' _ hl']
  simp [rearmed]

theorem goingwaitp_past {r : Replies} {task : RtTask} {d d' : Driver} {ret : Int32}
    (h : rtDtaskGoingwaitp r task d = some (ret, d')) (k : TaskName) (n : Nat) :
    missesOf k n d'.kernel.history = missesOf k n d.kernel.history ∧
      readingsOf k n d'.kernel.history = readingsOf k n d.kernel.history := by
  obtain ⟨b, -, ⟨rec, -, -, rfl⟩ | ⟨-, -, rfl⟩⟩ := goingwaitp_inv h
  · exact ⟨rfl, rfl⟩
  · exact ⟨rfl, rfl⟩

/-- An operation that ends an arming adds neither notifications nor recalculations to
it. -/
theorem exec_past {r : Replies} {op : Op} {d d' : Driver} {ret : Int32} {task : RtTask}
    (hop : op.endsMonitoring = some task) (h : op.exec r d = some (ret, d')) :
    missesOf (d.kernel.name task) (armings (d.kernel.name task) d.kernel.history)
        d'.kernel.history =
      missesOf (d.kernel.name task) (armings (d.kernel.name task) d.kernel.history)
        d.kernel.history ∧
    readingsOf (d.kernel.name task) (armings (d.kernel.name task) d.kernel.history)
        d'.kernel.history =
      readingsOf (d.kernel.name task) (armings (d.kernel.name task) d.kernel.history)
        d.kernel.history := by
  cases op with
  | create _ _ => simp [Op.endsMonitoring] at hop
  | delete _ => simp [Op.endsMonitoring] at hop
  | recalculateprio => simp [Op.endsMonitoring] at hop
  | setdeadline task' D =>
      obtain rfl := Option.some.inj hop
      obtain ⟨b, -, ⟨rec, hrec, -, rfl⟩ | ⟨-, -, rfl⟩⟩ := setdeadline_inv h
      · exact rearmed_past (d := d.log (.malloc (some b))) _ _ _ D hrec
      · exact ⟨rfl, rfl⟩
  | resetdeadline task' =>
      obtain rfl := Option.some.inj hop
      obtain ⟨b, -, ⟨rec, hrec, -, rfl⟩ | ⟨-, -, rfl⟩⟩ := resetdeadline_inv h
      · exact rearmed_past (d := d.log (.malloc (some b))) _ _ _ _ hrec
      · exact ⟨rfl, rfl⟩
  | goingwaitp task' => exact goingwaitp_past h _ _
  | stopwatchdog task' =>
      obtain ⟨b, -, ⟨rec, ret₁, d₁, -, -, hnested, rfl⟩ | ⟨-, -, rfl⟩⟩ := stopwatchdog_inv h
      · exact goingwaitp_past hnested _ _
      · exact ⟨rfl, rfl⟩

/-- **When a miss is noticed.** An active record stops being monitored under its
current arming; by the end of that request `deadline_missed` has been called for this
arming exactly when a recalculation of the arming read a clock value at or past the
deadline. -/
theorem miss_detected_iff {site : Site} {s s' : SerialState} {q : Request} {k : TaskName}
    {r : RtDtask} (hs : (serial site).Reachable s)
    (hl : s.driver.dtaskMap.lookup k = some r) (ha : r.Active)
    (hstep : (serial site).step s q s') (hq : q.op.endsMonitoring = some r.task) :
    0 < missesOf k (armings k s.driver.kernel.history) s'.driver.kernel.history ↔
      ∃ c ∈ readingsOf k (armings k s.driver.kernel.history) s'.driver.kernel.history,
        r.deadline ≤ c := by
  have hrec := (reachable_inv hs).records.2 k r hl
  obtain ⟨-, hexec⟩ := hstep
  obtain ⟨⟨ret, d'⟩, hres, rfl⟩ := Option.map_eq_some_iff.mp hexec
  obtain ⟨hm, hr⟩ := exec_past hq hres
  rw [hrec.named] at hm hr
  show 0 < missesOf k _ d'.kernel.history ↔ ∃ c ∈ readingsOf k _ d'.kernel.history, _
  rw [hm, hr, ← hrec.detected ha, ← missesSince, hrec.misses]
  cases r.status <;> simp

/-- In `overrunRequests` the recalculation at 20 notices the miss, so the watchdog is
stopped at 30 after the notification. -/
theorem miss_detected_overrun : ∃ r,
    (letterRun overrunRequests).driver.dtaskMap.lookup (letterName 0) = some r ∧
      (0 < missesOf (letterName 0)
          (armings (letterName 0) (letterRun overrunRequests).driver.kernel.history)
          (letterRun (overrunRequests ++
            [⟨.stopwatchdog 0, plainReplies 30 30⟩])).driver.kernel.history ↔
        ∃ c ∈ readingsOf (letterName 0)
          (armings (letterName 0) (letterRun overrunRequests).driver.kernel.history)
          (letterRun (overrunRequests ++
            [⟨.stopwatchdog 0, plainReplies 30 30⟩])).driver.kernel.history,
          r.deadline ≤ c) := by
  have h : ((letterRun overrunRequests).driver.dtaskMap.lookup (letterName 0)).any
      (fun r => r.Active ∧ r.task = 0) = true := by decide +kernel
  obtain ⟨r, hl, hr⟩ := (Option.any_eq_true _ _).mp h
  obtain ⟨ha, htask⟩ := of_decide_eq_true hr
  exact ⟨r, hl, miss_detected_iff
    (letterRun_reachable (by decide +kernel) (by decide +kernel)) hl ha
    (letterRun_step (by decide +kernel) (by decide +kernel) (by decide +kernel))
    (by rw [htask]; rfl)⟩

/-- A task with deadline 10 that is stopped at 100; nothing has recalculated in the
meantime. -/
def unnoticedRequests : List Request := [⟨.create 0 10, plainReplies 0 10⟩]

/-- A miss goes unnoticed when no recalculation runs between the deadline and the end
of the job: the watchdog is stopped at 100, past the deadline 10, and
`deadline_missed` has not been called. -/
theorem miss_unnoticed :
    (serial letterSite).Reachable (letterRun unnoticedRequests) ∧
      (serial letterSite).step (letterRun unnoticedRequests)
        ⟨.stopwatchdog 0, plainReplies 100 20⟩
        (letterRun (unnoticedRequests ++ [⟨.stopwatchdog 0, plainReplies 100 20⟩])) ∧
      (∃ r, (letterRun unnoticedRequests).driver.dtaskMap.lookup (letterName 0) = some r ∧
        r.Active ∧ r.task = 0 ∧ r.deadline ≤ 100) ∧
      missesOf (letterName 0)
        (armings (letterName 0) (letterRun unnoticedRequests).driver.kernel.history)
        (letterRun (unnoticedRequests ++
          [⟨.stopwatchdog 0, plainReplies 100 20⟩])).driver.kernel.history = 0 := by
  refine ⟨letterRun_reachable (by decide +kernel) (by decide +kernel),
    letterRun_step (by decide +kernel) (by decide +kernel) (by decide +kernel), ?_,
    by decide +kernel⟩
  have h : ((letterRun unnoticedRequests).driver.dtaskMap.lookup (letterName 0)).any
      (fun r => r.Active ∧ r.task = 0 ∧ r.deadline ≤ 100) = true := by decide +kernel
  obtain ⟨r, hl, hr⟩ := (Option.any_eq_true _ _).mp h
  exact ⟨r, hl, of_decide_eq_true hr⟩

end Edfomai
