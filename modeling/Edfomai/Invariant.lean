import Edfomai.Serial

/-!
# Edfomai.Invariant

The invariant of serialised runs. `RecordInv` ties one record to its history: to the
arming that gave it its deadline, to the notifications and the recalculations since
then, and, once it is missed, to the priority its task was last given. `PostRecalc`
describes the state a recalculation leaves.

`reachable_inv` is the only result the theorems about runs need.
-/

namespace Edfomai

/-- What holds of every record, at clock value `t`. -/
structure RecordInv (site : Site) (t : UInt64) (x : Kernel) (k : TaskName) (r : RtDtask) :
    Prop where
  /-- The record's task exists … -/
  registered : r.task ∈ site.tasks
  /-- … and the record is kept under its name. -/
  named : x.name r.task = k
  /-- The deadline is the one computed at the last arming. -/
  arming : ∃ t₀, History.lastArming k x.history = some (t₀, r.relativeDeadline) ∧
    r.deadline = t₀ + r.relativeDeadline ∧ t₀ ≤ t
  /-- No more time remains than the task was given … -/
  remain_le : r.remain ≤ r.relativeDeadline
  /-- … and the stored time is never behind the true one. -/
  remainAt_le : remainAt r.deadline t ≤ r.remain
  /-- A record is missed exactly when its notification has been sent. -/
  misses : History.missesSince k x.history = if r.status = .missed then 1 else 0
  /-- A missed record has no time left, and its task was put at the top. -/
  missed : r.status = .missed → r.remain = 0 ∧ r.deadline ≤ t ∧ x.cprio r.task = 50
  /-- While monitored, a record is missed exactly when some recalculation since its
  arming has read a clock value past its deadline. -/
  detected : r.Active → (r.status = .missed ↔
    ∃ c ∈ History.readingsOf k (History.armings k x.history) x.history, r.deadline ≤ c)

/-- The records of a state, at clock value `t`. -/
def Records (site : Site) (t : UInt64) (d : Driver) : Prop :=
  d.kernel.name = site.name ∧
    ∀ k r, d.dtaskMap.lookup k = some r → RecordInv site t d.kernel k r

/-- The state right after a recalculation that read `t`: every active record holds
its remaining time, is missed exactly when that time is over, and its task has the
priority the scale assigns. -/
def PostRecalc (t : UInt64) (d : Driver) : Prop :=
  ∀ k r, d.dtaskMap.lookup k = some r → r.Active →
    r.remain = remainAt r.deadline t ∧ (r.status = .missed ↔ r.deadline ≤ t) ∧
      d.kernel.cprio r.task =
        calculatePrio (remainAt r.deadline t) (extremes t d).minRemain (extremes t d).maxRemain

/-- The invariant of serialised runs. -/
structure Inv (site : Site) (s : SerialState) : Prop where
  records : Records site s.clock s.driver
  settled : ∀ t, History.lastRecalc s.driver.kernel.history = some t → PostRecalc t s.driver

theorem Records.isNamed {site : Site} {t : UInt64} {d : Driver} (h : Records site t d) :
    d.Named := fun k r hr => (h.2 k r hr).named

/-! ### One record -/

namespace RecordInv

variable {site : Site} {t t' : UInt64} {x : Kernel} {k : TaskName} {r : RtDtask}

theorem tick (h : RecordInv site t x k r) (ht : t ≤ t') : RecordInv site t' x k r where
  registered := h.registered
  named := h.named
  arming := by
    obtain ⟨t₀, harm, hdl, hle⟩ := h.arming
    exact ⟨t₀, harm, hdl, UInt64.le_trans hle ht⟩
  remain_le := h.remain_le
  remainAt_le := UInt64.le_trans (remainAt_anti _ ht) h.remainAt_le
  misses := h.misses
  missed hm := by
    obtain ⟨h0, hle, hp⟩ := h.missed hm
    exact ⟨h0, UInt64.le_trans hle ht, hp⟩
  detected := h.detected

theorem log_malloc (h : RecordInv site t x k r) (p : Option Block) :
    RecordInv site t (x.log (.malloc p)) k r := { h with }

theorem log_free (h : RecordInv site t x k r) (p : Option Block) :
    RecordInv site t (x.log (.free p)) k r := { h with }

/-- Arming another record changes nothing for this one. -/
theorem log_armed (h : RecordInv site t x k r) {k' : TaskName} (hne : k' ≠ k) (c D : UInt64) :
    RecordInv site t (x.log (.armed k' c D)) k r where
  registered := h.registered
  named := h.named
  arming := by simpa [hne] using h.arming
  remain_le := h.remain_le
  remainAt_le := h.remainAt_le
  misses := by simpa [History.missesSince, hne] using h.misses
  missed := h.missed
  detected := by simpa [hne] using h.detected

/-- A waiting record is not active, whatever else holds of it. -/
theorem wait (h : RecordInv site t x k r) :
    RecordInv site t x k { r with state := EdfCommand.goingWaitp.code } where
  registered := h.registered
  named := h.named
  arming := h.arming
  remain_le := h.remain_le
  remainAt_le := h.remainAt_le
  misses := h.misses
  missed := h.missed
  detected hact := absurd hact.2
    (show EdfCommand.goingWaitp.code ≠ TaskState.running.code by decide)

/-- A record just armed: its arming number is new, so nothing has happened in it. -/
theorem armed (hreg : r.task ∈ site.tasks) (hname : x.name r.task = k) {D : UInt64}
    (hrel : r.relativeDeadline = D) (hdl : r.deadline = t + D) (hrem : r.remain = D)
    (hst : r.status = .ok) : RecordInv site t (x.log (.armed k t D)) k r where
  registered := hreg
  named := hname
  arming := ⟨t, by simp [hrel], by rw [hdl, hrel], UInt64.le_refl t⟩
  remain_le := by rw [hrem, hrel]; exact UInt64.le_refl D
  remainAt_le := by rw [hdl, hrem]; exact remainAt_add_le t D
  misses := by
    simp [History.missesSince, hst,
      History.missesOf_of_lt (Nat.lt_succ_self (History.armings k x.history))]
  missed hm := by simp [hst] at hm
  detected _ := by
    simp [hst, History.readingsOf_of_lt (Nat.lt_succ_self (History.armings k x.history))]

end RecordInv

/-! ### The extremes do not move -/

/-- The extremes depend on which records are active and on their deadlines, which a
recalculation does not touch. -/
theorem extremes_recalc (t t' : UInt64) (d : Driver) :
    extremes t (rtDtaskRecalculateprio t' d) = extremes t d := by
  by_cases h : d.dtaskMap.keys = []
  · rw [recalc_of_nil t' h]
  · rw [recalc_of_ne_nil t' h]
    have hwiden : ∀ (m : Extremes) (r : RtDtask),
        m.widen t (r.refresh d.kernel t').latch = m.widen t r := by
      intro m r
      simp [Extremes.widen]
    simp only [extremes, Table.entries_mapValues, List.foldl_map, Sigma.map, hwiden]

/-! ### Recalculating -/

/-- A missed record lies at the bottom of the spread, so the scale gives its task the
highest priority. -/
theorem calculatePrio_of_missed {d : Driver} {k : TaskName} {r : RtDtask} {t : UInt64}
    (hl : d.dtaskMap.lookup k = some r) (ha : r.Active) (h0 : remainAt r.deadline t = 0) :
    calculatePrio (remainAt r.deadline t) (extremes t d).minRemain (extremes t d).maxRemain
      = 50 := by
  have hmin : (extremes t d).minRemain = 0 :=
    UInt64.le_antisymm (h0 ▸ (extremes_bounds t hl ha).1) UInt64.zero_le
  rw [h0, hmin, calculatePrio_min]

/-- The status after a recalculation. -/
theorem recalc_status_eq_missed {x : Kernel} {t : UInt64} {r : RtDtask} :
    (r.refresh x t).latch.status = .missed ↔
      r.status = .missed ∨ (r.Judged ∧ remainAt r.deadline t = 0) := by
  rw [latch_status]
  by_cases hj : r.Judged
  · simp [hj, refresh_remain (RtDtask.judged_iff.mp hj).1]
    tauto
  · simp [hj]

theorem RecordInv.recalc {site : Site} {t c : UInt64} {d : Driver} {k : TaskName} {r : RtDtask}
    (h : RecordInv site t d.kernel k r) (hd : d.Named) (hl : d.dtaskMap.lookup k = some r)
    (ht : t ≤ c) :
    RecordInv site c (rtDtaskRecalculateprio c d).kernel k (r.refresh d.kernel c).latch := by
  have hremain : (r.refresh d.kernel c).latch.remain = remainAt r.deadline c ∨
      (¬r.Active ∧ (r.refresh d.kernel c).latch.remain = r.remain) := by
    by_cases ha : r.Active
    · exact Or.inl (by rw [latch_remain, refresh_remain ha])
    · exact Or.inr ⟨ha, by simp [RtDtask.refresh, ha]⟩
  have hstored : remainAt r.deadline c ≤ r.remain :=
    UInt64.le_trans (remainAt_anti _ ht) h.remainAt_le
  constructor
  case registered => simpa using h.registered
  case named => simpa using h.named
  case arming =>
    obtain ⟨t₀, harm, hdl, hle⟩ := h.arming
    exact ⟨t₀, by simpa using harm, by simpa using hdl, UInt64.le_trans hle ht⟩
  case remain_le =>
    rw [latch_relativeDeadline, refresh_relativeDeadline]
    rcases hremain with heq | ⟨-, heq⟩ <;> rw [heq]
    · exact UInt64.le_trans hstored h.remain_le
    · exact h.remain_le
  case remainAt_le =>
    rw [latch_deadline, refresh_deadline]
    rcases hremain with heq | ⟨-, heq⟩ <;> rw [heq]
    · exact UInt64.le_refl _
    · exact hstored
  case misses =>
    rw [History.missesSince, recalc_armings, recalc_missesOf c _ hl, ← History.missesSince,
      h.misses]
    -- a notification is sent exactly where the status turns
    by_cases hj : r.Judged
    · have hok := (RtDtask.judged_iff.mp hj).2
      by_cases h0 : remainAt r.deadline c = 0 <;> simp [recalc_status_eq_missed, hj, hok, h0]
    · simp [recalc_status_eq_missed, hj]
  case missed =>
    intro hm
    rw [latch_deadline, refresh_deadline, latch_task, refresh_task, recalc_cprio c hd hl]
    rcases recalc_status_eq_missed.mp hm with hold | ⟨hj, h0⟩
    · obtain ⟨hr0, hle, hp⟩ := h.missed hold
      have hle' : r.deadline ≤ c := UInt64.le_trans hle ht
      have hnj : ¬r.Judged := fun hj => by simp [(RtDtask.judged_iff.mp hj).2] at hold
      refine ⟨?_, hle', by rw [if_neg hnj, hp]⟩
      rcases hremain with heq | ⟨-, heq⟩ <;> rw [heq]
      · exact remainAt_eq_zero.mpr hle'
      · exact hr0
    · have ha := (RtDtask.judged_iff.mp hj).1
      refine ⟨by rw [latch_remain, refresh_remain ha, h0], remainAt_eq_zero.mp h0, ?_⟩
      rw [if_pos hj, calculatePrio_of_missed hl ha h0]
  case detected =>
    intro hact
    have ha : r.Active := by simpa using hact
    rw [recalc_armings, recalc_readingsOf c _ hl, if_pos rfl, latch_deadline, refresh_deadline,
      recalc_status_eq_missed, remainAt_eq_zero, h.detected ha]
    simp only [List.mem_cons, exists_eq_or_imp]
    have hjudged : r.Judged ↔ ¬r.status = .missed := by
      rw [RtDtask.judged_iff]
      cases r.status <;> simp [ha]
    rw [hjudged, h.detected ha]
    generalize (∃ c' ∈ History.readingsOf _ _ _, r.deadline ≤ c') = earlier
    tauto

theorem Records.recalc {site : Site} {t c : UInt64} {d : Driver} (h : Records site t d)
    (ht : t ≤ c) : Records site c (rtDtaskRecalculateprio c d) := by
  refine ⟨by rw [recalc_name, h.1], fun k r' hl => ?_⟩
  rw [recalc_lookup] at hl
  obtain ⟨r, hr, rfl⟩ := Option.map_eq_some_iff.mp hl
  exact (h.2 k r hr).recalc h.isNamed hr ht

/-- A recalculation leaves `PostRecalc`. For a judged record this is the verdict just
given; a record missed before still has the priority it was given then. -/
theorem Records.postRecalc {site : Site} {t c : UInt64} {d : Driver} (h : Records site t d)
    (ht : t ≤ c) : PostRecalc c (rtDtaskRecalculateprio c d) := by
  intro k r' hl hact
  rw [recalc_lookup] at hl
  obtain ⟨r, hr, rfl⟩ := Option.map_eq_some_iff.mp hl
  have ha : r.Active := by simpa using hact
  have hinv := h.2 k r hr
  rw [latch_deadline, refresh_deadline, latch_remain, refresh_remain ha, latch_task, refresh_task,
    extremes_recalc, recalc_status_eq_missed, recalc_cprio c h.isNamed hr, remainAt_eq_zero]
  refine ⟨rfl, ?_, ?_⟩
  · constructor
    · rintro (hm | ⟨-, hle⟩)
      · exact UInt64.le_trans (hinv.missed hm).2.1 ht
      · exact hle
    · intro hle
      cases hst : r.status with
      | missed => exact Or.inl rfl
      | ok => exact Or.inr ⟨RtDtask.judged_iff.mpr ⟨ha, hst⟩, hle⟩
  · by_cases hj : r.Judged
    · rw [if_pos hj]
    · rw [if_neg hj]
      have hm : r.status = .missed := by
        cases hst : r.status with
        | missed => rfl
        | ok => exact absurd (RtDtask.judged_iff.mpr ⟨ha, hst⟩) hj
      obtain ⟨-, hle, hp⟩ := hinv.missed hm
      rw [hp, calculatePrio_of_missed hr ha (remainAt_eq_zero.mpr (UInt64.le_trans hle ht))]

/-! ### Arming -/

theorem Records.tick {site : Site} {t t' : UInt64} {d : Driver} (h : Records site t d)
    (ht : t ≤ t') : Records site t' d :=
  ⟨h.1, fun k r hl => (h.2 k r hl).tick ht⟩

theorem Records.rearmed {site : Site} {t D : UInt64} {d : Driver} {k : TaskName} {r : RtDtask}
    {f : RtDtask → RtDtask} (h : Records site t d) (hl : d.dtaskMap.lookup k = some r)
    (hf : f r = RtDtask.rearm t { r with relativeDeadline := D }) :
    Records site t (rearmed k f t D d) := by
  refine ⟨h.1, fun k' r' hl' => ?_⟩
  rcases eq_or_ne k' k with rfl | hne
  · have hl' : (d.dtaskMap.adjust k' f).lookup k' = some r' := hl'
    rw [Table.lookup_adjust_self, hl, Option.map_some, hf] at hl'
    obtain rfl := Option.some.inj hl'
    exact .armed (r := RtDtask.rearm t { r with relativeDeadline := D })
      (h.2 k' r hl).registered (h.2 k' r hl).named rfl rfl rfl rfl
  · have hl' : (d.dtaskMap.adjust k f).lookup k' = some r' := hl'
    rw [Table.lookup_adjust_ne f _ hne] at hl'
    exact (h.2 k' r' hl').log_armed hne.symm t D

theorem Records.added {site : Site} {t D : UInt64} {d : Driver} {r : Replies} {b : Block}
    {task : RtTask} (h : Records site t d) (hl : d.dtaskMap.lookup (d.kernel.name task) = none)
    (htask : task ∈ site.tasks) (ht : r.armClock = t) :
    Records site t (added (d.kernel.name task)
      (newDtask r b task D (d.kernel.rtTaskInquire task)) t D d) := by
  refine ⟨h.1, fun k' r' hl' => ?_⟩
  rcases eq_or_ne k' (d.kernel.name task) with rfl | hne
  · have hl' : (d.dtaskMap.add _ _).lookup _ = some r' := hl'
    rw [Table.lookup_add_self _ hl] at hl'
    obtain rfl := Option.some.inj hl'
    subst ht
    exact .armed (r := newDtask r b task D (d.kernel.rtTaskInquire task)) htask rfl rfl rfl rfl rfl
  · have hl' : (d.dtaskMap.add _ _).lookup _ = some r' := hl'
    rw [Table.lookup_add_ne _ _ hne] at hl'
    exact (h.2 k' r' hl').log_armed hne.symm t D

/-! ### All updates -/

/-- The state after arming and recalculating, or only recalculating. -/
theorem Inv.of_recalc {site : Site} {t c : UInt64} {d : Driver} (h : Records site t d)
    (ht : t ≤ c) : Inv site ⟨c, rtDtaskRecalculateprio c d⟩ := by
  refine ⟨h.recalc ht, fun t' hlast => ?_⟩
  by_cases hnil : d.dtaskMap.keys = []
  · intro k r hl
    rw [recalc_of_nil c hnil] at hl
    exact absurd hl (by simp [lookup_of_keys_nil hnil])
  · obtain rfl : c = t' := Option.some.inj ((recalc_lastRecalc c hnil).symm.trans hlast)
    exact h.postRecalc ht

theorem Inv.update {site : Site} {s s' : SerialState} (h : Inv site s) (hu : Update site s s') :
    Inv site s' := by
  cases hu with
  | tick ht => exact ⟨h.records.tick ht, h.settled⟩
  | malloc p =>
      exact ⟨⟨h.records.1, fun k r hl => (h.records.2 k r hl).log_malloc p⟩,
        fun _ hlast => by simp [History.lastRecalc] at hlast⟩
  | free p =>
      exact ⟨⟨h.records.1, fun k r hl => (h.records.2 k r hl).log_free p⟩, h.settled⟩
  | wait p k =>
      refine ⟨⟨h.records.1, fun k' r' hl => ?_⟩, fun _ hlast => by
        simp [History.lastRecalc] at hlast⟩
      rcases eq_or_ne k' k with rfl | hne
      · rw [Driver.adjust_dtaskMap, Table.lookup_adjust_self] at hl
        obtain ⟨r, hr, rfl⟩ := Option.map_eq_some_iff.mp hl
        exact ((h.records.2 k' r hr).log_malloc p).wait
      · rw [Driver.adjust_dtaskMap, Table.lookup_adjust_ne _ _ hne] at hl
        exact (h.records.2 k' r' hl).log_malloc p
  | erase p k =>
      refine ⟨⟨h.records.1, fun k' r' hl => ?_⟩, fun _ hlast => by
        simp [History.lastRecalc] at hlast⟩
      exact (h.records.2 k' r' (Table.lookup_erase_eq_some hl).2).log_malloc p
  | rearm hl ht hc hf => exact .of_recalc ((h.records.tick ht).rearmed hl hf) hc
  | add hl htask ht hc => exact .of_recalc ((h.records.tick ht).added hl htask rfl) hc
  | recalc ht => exact .of_recalc h.records ht

/-- **The invariant holds in every reachable state.** -/
theorem reachable_inv {site : Site} {s : SerialState} (hs : (serial site).Reachable s) :
    Inv site s := by
  refine serial_invariant ?_ (fun _ _ h hu => h.update hu) hs
  rintro ⟨clock, d⟩ ⟨x, hname, hhist, rfl⟩
  exact ⟨⟨hname, fun k r hl => by simp [rtDtaskInit] at hl⟩,
    fun t hlast => by simp [rtDtaskInit, hhist, History.lastRecalc] at hlast⟩

end Edfomai
