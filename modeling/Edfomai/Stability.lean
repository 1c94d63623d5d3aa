import Edfomai.Locality
import Mathlib.Data.UInt

/-!
# Edfomai.Stability

When a recalculation has nothing to do.

A recalculation is *quiet* when it calls neither `rt_task_set_priority` nor
`deadline_missed`. `recalc_quiet` says when: every judged record has time left, and its
task already has the priority of the scale. Both results of the module establish this
for a recalculation that follows another one:

* at the same clock value (`recalc_idempotent`), because the extremes do not move and
  the records without time left are no longer judged;
* at a later one, as long as no deadline has passed (`recalc_stable`), because the
  scale only depends on differences of deadlines.
-/

namespace Edfomai

/-! ### Quiet recalculations -/

/-- All that the recalculation leaves in the kernel is, at most, that it has read the
clock. -/
def Quiet (t : UInt64) (d : Driver) : Prop :=
  (rtDtaskRecalculateprio t d).kernel = d.kernel ∨
    (rtDtaskRecalculateprio t d).kernel = d.kernel.log (.recalculated t)

theorem Quiet.cprio {t : UInt64} {d : Driver} (h : Quiet t d) :
    (rtDtaskRecalculateprio t d).kernel.cprio = d.kernel.cprio := by
  rcases h with h | h <;> rw [h]
  rfl

/-- Every judged record has time left, and its task has the priority of the scale. -/
def Driver.Settled (t : UInt64) (d : Driver) : Prop :=
  ∀ k r, d.dtaskMap.lookup k = some r → r.Judged → remainAt r.deadline t ≠ 0 ∧
    calculatePrio (remainAt r.deadline t) (extremes t d).minRemain (extremes t d).maxRemain =
      d.kernel.cprio r.task

theorem foldl_judge_quiet {t : UInt64} {m : Extremes} {es : List (Σ _ : TaskName, RtDtask)}
    (x : Kernel) (h : ∀ e ∈ es, e.2.Judged → e.2.remain ≠ 0 ∧
      calculatePrio e.2.remain m.minRemain m.maxRemain = e.2.taskInfo.cprio) :
    es.foldl (judge t m) x = x := by
  induction es with
  | nil => rfl
  | cons e es ih =>
      have hfirst : judge t m x e = x := by
        rcases judge_cases t m x e.1 e.2 with ⟨-, hj⟩ | ⟨hj, -, hn⟩ | ⟨hj, hp, -⟩
        · exact hj
        · have h0 := (h e (List.mem_cons_self ..) hj).1
          rw [hn, notified, if_neg h0]
        · exact absurd (h e (List.mem_cons_self ..) hj).2 hp
      rw [List.foldl_cons, hfirst]
      exact ih fun e' he' => h e' (List.mem_cons_of_mem _ he')

/-- In a settled table a recalculation is quiet. -/
theorem recalc_quiet {t : UInt64} {d : Driver} (h : d.Settled t) : Quiet t d := by
  by_cases hnil : d.dtaskMap.keys = []
  · exact Or.inl (by rw [recalc_of_nil t hnil])
  · refine Or.inr ?_
    rw [recalc_of_ne_nil t hnil]
    refine foldl_judge_quiet _ fun e he hj => ?_
    obtain ⟨r, hl, heq⟩ := mem_refreshed he
    rw [heq, refresh_judged] at hj
    have ha := (RtDtask.judged_iff.mp hj).1
    rw [heq, refresh_remain ha]
    simpa [RtDtask.refresh, ha, Kernel.rtTaskInquire] using h e.1 r hl hj

/-- A record that a recalculation leaves judged had time left, so it keeps the priority
that the recalculation gave its task. -/
theorem judged_after_recalc {t : UInt64} {d : Driver} {k : TaskName} {r₁ : RtDtask}
    (hd : d.Named) (hl : (rtDtaskRecalculateprio t d).dtaskMap.lookup k = some r₁)
    (hj : r₁.Judged) :
    ∃ r, d.dtaskMap.lookup k = some r ∧ r.Judged ∧ r₁.deadline = r.deadline ∧
      remainAt r.deadline t ≠ 0 ∧
      (rtDtaskRecalculateprio t d).kernel.cprio r₁.task =
        calculatePrio (remainAt r.deadline t) (extremes t d).minRemain
          (extremes t d).maxRemain := by
  rw [recalc_lookup] at hl
  obtain ⟨r, hr, rfl⟩ := Option.map_eq_some_iff.mp hl
  obtain ⟨ha, hst⟩ := RtDtask.judged_iff.mp hj
  have hnot : ¬(r.status = .missed ∨ r.Judged ∧ remainAt r.deadline t = 0) := by
    rw [← recalc_status_eq_missed (x := d.kernel), hst]
    simp
  have hok : r.status = .ok := by
    cases hs : r.status with
    | ok => rfl
    | missed => exact absurd (Or.inl hs) hnot
  have hjr : r.Judged := RtDtask.judged_iff.mpr ⟨by simpa using ha, hok⟩
  refine ⟨r, hr, hjr, by simp, fun h0 => hnot (Or.inr ⟨hjr, h0⟩), ?_⟩
  rw [latch_task, refresh_task, recalc_cprio t hd hr, if_pos hjr]

/-! ### Twice at the same time -/

/-- A record that holds what remains at `t` and is not to be latched only has its task
info stored anew. -/
theorem refresh_latch_again {x : Kernel} {t : UInt64} {r : RtDtask}
    (hremain : r.Active → r.remain = remainAt r.deadline t)
    (hlatch : r.Judged → r.remain ≠ 0) :
    (r.refresh x t).latch =
      { r with taskInfo := if r.Active then x.rtTaskInquire r.task else r.taskInfo } := by
  have hnot : ¬((r.refresh x t).Judged ∧ (r.refresh x t).remain = 0) := by
    intro ⟨hj, h0⟩
    rw [refresh_judged] at hj
    have ha := (RtDtask.judged_iff.mp hj).1
    rw [refresh_remain ha, ← hremain ha] at h0
    exact hlatch hj h0
  rw [RtDtask.latch, if_neg hnot]
  by_cases ha : r.Active
  · rw [RtDtask.refresh, if_pos ha, if_pos ha, ← hremain ha]
  · rw [RtDtask.refresh, if_neg ha, if_neg ha]

theorem recalc_again_lookup {t : UInt64} {d : Driver} {k : TaskName} {r₁ : RtDtask} (x : Kernel)
    (hl : (rtDtaskRecalculateprio t d).dtaskMap.lookup k = some r₁) :
    (r₁.refresh x t).latch =
      { r₁ with taskInfo := if r₁.Active then x.rtTaskInquire r₁.task else r₁.taskInfo } := by
  rw [recalc_lookup] at hl
  obtain ⟨r, hr, rfl⟩ := Option.map_eq_some_iff.mp hl
  refine refresh_latch_again (fun ha => ?_) (fun hj h0 => ?_)
  · rw [latch_remain, latch_deadline, refresh_deadline, refresh_remain (by simpa using ha)]
  · -- a judged record without time left is latched, so it is not judged again
    obtain ⟨ha, hst⟩ := RtDtask.judged_iff.mp hj
    rw [latch_remain] at h0
    rw [latch_status] at hst
    split at hst
    · exact absurd hst (by decide)
    · next hnot =>
      exact hnot ⟨RtDtask.judged_iff.mpr ⟨by simpa using ha, hst⟩, h0⟩

/-- What a second recalculation at the same clock value adds to the first. -/
structure Idempotent (t : UInt64) (d : Driver) : Prop where
  /-- Nothing to the priorities … -/
  prio : (rtDtaskRecalculateprio t (rtDtaskRecalculateprio t d)).kernel.cprio =
    (rtDtaskRecalculateprio t d).kernel.cprio
  /-- … and nothing to the records, except that it stores the task infos anew. -/
  records : (rtDtaskRecalculateprio t (rtDtaskRecalculateprio t d)).dtaskMap =
    (rtDtaskRecalculateprio t d).dtaskMap.mapValues fun _ r =>
      { r with taskInfo :=
        if r.Active then (rtDtaskRecalculateprio t d).kernel.rtTaskInquire r.task
        else r.taskInfo }
  /-- It makes neither a `rt_task_set_priority` call nor a `deadline_missed` call. -/
  quiet : Quiet t (rtDtaskRecalculateprio t d)

theorem settled_recalc {t : UInt64} {d : Driver} (hd : d.Named) :
    (rtDtaskRecalculateprio t d).Settled t := by
  intro k r₁ hl hj
  obtain ⟨r, hr, -, hdl, h0, hp⟩ := judged_after_recalc hd hl hj
  rw [hdl, extremes_recalc, hp]
  exact ⟨h0, rfl⟩

theorem idempotent {d : Driver} (t : UInt64) (hd : d.Named) : Idempotent t d := by
  have hquiet : Quiet t (rtDtaskRecalculateprio t d) := recalc_quiet (settled_recalc hd)
  refine ⟨hquiet.cprio, ?_, hquiet⟩
  rw [recalc_dtaskMap t (rtDtaskRecalculateprio t d)]
  exact Table.mapValues_congr fun e he => recalc_again_lookup _ (lookup_of_mem_entries he)

/-- **Recalculating is idempotent at a fixed time**, in every reachable state; nothing is
asked of the clock value. -/
theorem recalc_idempotent {site : Site} {s : SerialState} (hs : (serial site).Reachable s)
    (t : UInt64) : Idempotent t s.driver :=
  idempotent t (reachable_inv hs).records.isNamed

theorem recalc_idempotent_three : Idempotent 15 (letterRun threeRequests).driver :=
  recalc_idempotent (letterRun_reachable (by decide +kernel) (by decide +kernel)) 15

/-! ### Later, before any deadline -/

theorem remainAt_of_lt {deadline t : UInt64} (h : t < deadline) :
    remainAt deadline t = deadline - t := if_pos h

/-- The scale does not see a common shift of its arguments. Only the divisor for equal
extremes would, and then the dividend is `0`. -/
theorem calculatePrio_sub {remain minRemain maxRemain : UInt64} (t : UInt64)
    (hmin : minRemain ≤ remain) (hmax : remain ≤ maxRemain) :
    calculatePrio (remain - t) (minRemain - t) (maxRemain - t) =
      calculatePrio remain minRemain maxRemain := by
  have hsub : ∀ a b : UInt64, (a - t) - (b - t) = a - b := fun a b => sub_sub_sub_cancel_right a b t
  rcases eq_or_ne minRemain maxRemain with rfl | hne
  · obtain rfl : remain = minRemain := UInt64.le_antisymm hmax hmin
    rw [calculatePrio_min, calculatePrio_min]
  · have hspread : maxRemain - minRemain ≠ 0 := fun h0 => hne (sub_eq_zero.mp h0).symm
    simp only [calculatePrio, prioDividend, prioDivisor, hsub, if_neg hspread]

/-- Every active record has status `OK` and a deadline after `t`. -/
def Driver.AllInTime (t : UInt64) (d : Driver) : Prop :=
  ∀ k r, d.dtaskMap.lookup k = some r → r.Active → r.status = .ok ∧ t < r.deadline

theorem Driver.AllInTime.anti {t t' : UInt64} {d : Driver} (h : d.AllInTime t') (ht : t ≤ t') :
    d.AllInTime t := fun k r hl ha =>
  ⟨(h k r hl ha).1, UInt64.lt_of_le_of_lt ht (h k r hl ha).2⟩

/-- Before any deadline the scale can be read off the deadlines alone. -/
theorem scaled_of_allInTime {t : UInt64} {d : Driver} {k : TaskName} {r : RtDtask}
    (h : d.AllInTime t) (hl : d.dtaskMap.lookup k = some r) (ha : r.Active) :
    calculatePrio (remainAt r.deadline t) (extremes t d).minRemain (extremes t d).maxRemain =
      calculatePrio r.deadline (extremes 0 d).minRemain (extremes 0 d).maxRemain := by
  obtain ⟨hmin, hmax⟩ := extremes_bounds 0 hl ha
  obtain ⟨⟨k₁, r₁, hl₁, ha₁, h₁⟩, k₂, r₂, hl₂, ha₂, h₂⟩ := extremes_attained 0 hl ha
  rw [remainAt_zero] at hmin hmax h₁ h₂
  have hlt₁ : t < (extremes 0 d).minRemain := h₁ ▸ (h k₁ r₁ hl₁ ha₁).2
  have hlt₂ : t < (extremes 0 d).maxRemain := h₂ ▸ (h k₂ r₂ hl₂ ha₂).2
  rw [extremes_eq t hl ha, remainAt_of_lt (h k r hl ha).2, remainAt_of_lt hlt₁,
    remainAt_of_lt hlt₂, calculatePrio_sub t hmin hmax]

/-- What a verdict does to the priorities. -/
theorem judge_cprio (t : UInt64) (m : Extremes) (x : Kernel) (k : TaskName) (r : RtDtask) :
    (judge t m x ⟨k, r⟩).cprio =
      if r.Judged ∧ calculatePrio r.remain m.minRemain m.maxRemain ≠ r.taskInfo.cprio then
        Function.update x.cprio r.task (calculatePrio r.remain m.minRemain m.maxRemain)
      else x.cprio := by
  rcases judge_cases t m x k r with ⟨hj, h⟩ | ⟨hj, hp, h⟩ | ⟨hj, hp, h⟩
  · simp [h, hj]
  · simp [h, hp]
  · simp [h, hj, hp]

/-- Two second passes that scale every judged record alike set the same priorities. -/
theorem foldl_judge_lockstep {t t' : UInt64} {m m' : Extremes} {y : Kernel}
    {es : List (Σ _ : TaskName, RtDtask)}
    (h : ∀ e ∈ es, e.2.Judged →
      calculatePrio (remainAt e.2.deadline t) m.minRemain m.maxRemain =
        calculatePrio (remainAt e.2.deadline t') m'.minRemain m'.maxRemain)
    {x x' : Kernel} (hx : x.cprio = x'.cprio) :
    ((es.map (.map id fun _ => RtDtask.refresh y t)).foldl (judge t m) x).cprio =
      ((es.map (.map id fun _ => RtDtask.refresh y t')).foldl (judge t' m') x').cprio := by
  induction es generalizing x x' with
  | nil => exact hx
  | cons e es ih =>
      refine ih (fun e' he' => h e' (List.mem_cons_of_mem _ he')) ?_
      show (judge t m x ⟨e.1, e.2.refresh y t⟩).cprio =
        (judge t' m' x' ⟨e.1, e.2.refresh y t'⟩).cprio
      rw [judge_cprio, judge_cprio]
      by_cases hj : e.2.Judged
      · -- the cached priority is that of `y` in both passes
        have ha := (RtDtask.judged_iff.mp hj).1
        have hinfo : ∀ t, (e.2.refresh y t).taskInfo = y.rtTaskInquire e.2.task := fun t => by
          simp [RtDtask.refresh, ha]
        simp only [refresh_judged, refresh_task, hj, refresh_remain ha, hinfo,
          h e (List.mem_cons_self ..) hj, hx]
      · simp [hj, hx]

/-- What a recalculation at `t'` adds to one at `t`. -/
structure Stable (t t' : UInt64) (d : Driver) : Prop where
  /-- From the same table, both give every task the same priority. -/
  prio : ∀ task, (rtDtaskRecalculateprio t d).kernel.cprio task =
    (rtDtaskRecalculateprio t' d).kernel.cprio task
  /-- So the one at `t'` changes no priority after the one at `t`. -/
  quiet : d.Named → Quiet t' (rtDtaskRecalculateprio t d)

/-- **Priorities are stable** while every active record is in time. -/
theorem recalc_stable {t t' : UInt64} {d : Driver} (ht : t ≤ t') (h : d.AllInTime t') :
    Stable t t' d := by
  have hscale : ∀ k r, d.dtaskMap.lookup k = some r → r.Judged →
      calculatePrio (remainAt r.deadline t) (extremes t d).minRemain (extremes t d).maxRemain =
        calculatePrio (remainAt r.deadline t') (extremes t' d).minRemain
          (extremes t' d).maxRemain := by
    intro k r hl hj
    have ha := (RtDtask.judged_iff.mp hj).1
    rw [scaled_of_allInTime (h.anti ht) hl ha, scaled_of_allInTime h hl ha]
  constructor
  case prio =>
    intro task
    by_cases hnil : d.dtaskMap.keys = []
    · rw [recalc_of_nil t hnil, recalc_of_nil t' hnil]
    · rw [recalc_of_ne_nil t hnil, recalc_of_ne_nil t' hnil]
      have hjudged : (judged t d).cprio = (judged t' d).cprio := by
        unfold judged refreshed
        refine foldl_judge_lockstep (fun e he hj => ?_) rfl
        exact hscale e.1 e.2 (lookup_of_mem_entries he) hj
      exact congrFun hjudged task
  case quiet =>
    intro hd
    refine recalc_quiet fun k r₁ hl hj => ?_
    obtain ⟨r, hr, hjr, hdl, -, hp⟩ := judged_after_recalc hd hl hj
    have hlt := (h k r hr (RtDtask.judged_iff.mp hjr).1).2
    rw [hdl, extremes_recalc, hp, hscale k r hr hjr]
    refine ⟨fun h0 => ?_, rfl⟩
    exact absurd (remainAt_eq_zero.mp h0) (UInt64.not_le.mpr hlt)

theorem recalc_stable_three : Stable 1 5 (letterRun threeRequests).driver := by
  have h : ∀ e ∈ (letterRun threeRequests).driver.dtaskMap.entries,
      e.2.Active → e.2.status = .ok ∧ 5 < e.2.deadline := by decide +kernel
  exact recalc_stable (by decide) fun k r hl => h ⟨k, r⟩ (mem_entries_of_lookup hl)

end Edfomai
