import Edfomai.Recalc
import Mathlib.Data.UInt

/-!
# Edfomai.Scale

How good the scale of `_calculate_prio` is, and that `rt_dtask_recalculateprio` only
uses it where it is good.

* `prio_accurate`: as long as the product does not wrap, the priority is the one that
  exact arithmetic gives or the next lower one, and exact at both ends.
* `prio_calls_safe`: the second pass calls `_calculate_prio` only with a remaining time
  between the extremes, because every record it judges has just been refreshed by the
  first. So no subtraction underflows, and the result lies between `MINPRIO` and
  `MAXPRIO` even when the product wraps.
-/

namespace Edfomai

/-! ### Accuracy -/

/-- The number of levels below `MAXPRIO` over the integers. -/
def exactLevel (remain minRemain maxRemain : UInt64) : Nat :=
  (maxPrio - minPrio) * (remain.toNat - minRemain.toNat) / (maxRemain.toNat - minRemain.toNat)

/-- The priority over the integers. -/
def exactPrio (remain minRemain maxRemain : UInt64) : Int :=
  maxPrio - exactLevel remain minRemain maxRemain

section Level

variable {remain minRemain maxRemain : UInt64}

/-- Without a wrap the operands of the division are the ones of `exactLevel`. -/
theorem prioLevel_eq_quot (hmin : minRemain ≤ remain) (hmax : remain ≤ maxRemain)
    (hlt : minRemain < maxRemain) (hw : NoWrap (maxRemain.toNat - minRemain.toNat)) :
    prioLevel remain minRemain maxRemain =
      ShiftDiv.quot (divShift (prioDivisor remain minRemain maxRemain))
        ((maxPrio - minPrio) * (remain.toNat - minRemain.toNat))
        (maxRemain.toNat - minRemain.toNat) := by
  have hle := UInt64.le_iff_toNat_le.mp hmax
  unfold NoWrap at hw
  have hdividend : (prioDividend remain minRemain).toNat =
      (maxPrio - minPrio) * (remain.toNat - minRemain.toNat) := by
    rw [prioDividend_toNat hmin, Nat.mod_eq_of_lt (by omega), Nat.mul_comm]
    rfl
  rw [prioLevel, div64_64_toNat, hdividend, prioDivisor_toNat hlt]

/-- The exact level is at most the number of levels. -/
theorem exactLevel_le (hmax : remain ≤ maxRemain) :
    exactLevel remain minRemain maxRemain ≤ maxPrio - minPrio := by
  have hle := UInt64.le_iff_toNat_le.mp hmax
  have hsub : remain.toNat - minRemain.toNat ≤ maxRemain.toNat - minRemain.toNat := by omega
  exact Nat.div_le_of_le_mul (by rw [Nat.mul_comm]; exact Nat.mul_le_mul_right _ hsub)

theorem exactLevel_max (hlt : minRemain < maxRemain) :
    exactLevel maxRemain minRemain maxRemain = maxPrio - minPrio := by
  have hlt' := UInt64.lt_iff_toNat_lt.mp hlt
  exact Nat.mul_div_cancel _ (by omega)

theorem exactLevel_le_prioLevel (hmin : minRemain ≤ remain) (hmax : remain ≤ maxRemain)
    (hlt : minRemain < maxRemain) (hw : NoWrap (maxRemain.toNat - minRemain.toNat)) :
    exactLevel remain minRemain maxRemain ≤ prioLevel remain minRemain maxRemain := by
  rw [prioLevel_eq_quot hmin hmax hlt hw]
  refine ShiftDiv.div_le_quot ?_
  have hb : (prioDivisor remain minRemain maxRemain).toNat = _ := prioDivisor_toNat hlt
  rw [← hb]
  exact shortened_pos (prioDivisor_ne_zero _ _ _)

/-- A divisor that is shifted keeps its 32 leading bits, so the level is at most one too
far down. -/
theorem prioLevel_le_succ (hmin : minRemain ≤ remain) (hmax : remain ≤ maxRemain)
    (hlt : minRemain < maxRemain) (hw : NoWrap (maxRemain.toNat - minRemain.toNat)) :
    prioLevel remain minRemain maxRemain ≤ exactLevel remain minRemain maxRemain + 1 := by
  have hb : (prioDivisor remain minRemain maxRemain).toNat = _ := prioDivisor_toNat hlt
  rw [prioLevel_eq_quot hmin hmax hlt hw]
  by_cases hsmall : (prioDivisor remain minRemain maxRemain).toNat < 2 ^ 32
  · rw [divShift_of_lt hsmall, ShiftDiv.quot_zero_shift]
    exact Nat.le_succ _
  · refine ShiftDiv.quot_le_succ ?_
    have hlead := (divShift_of_le (Nat.le_of_not_lt hsmall)).2.1
    rw [hb] at hlead
    calc exactLevel remain minRemain maxRemain ≤ maxPrio - minPrio := exactLevel_le hmax
      _ < 2 ^ 31 := by decide
      _ ≤ _ := hlead

/-- A divisor that fits in 32 bits is not shifted. -/
theorem prioLevel_eq_exactLevel (hmin : minRemain ≤ remain) (hmax : remain ≤ maxRemain)
    (hlt : minRemain < maxRemain) (hw : NoWrap (maxRemain.toNat - minRemain.toNat))
    (hsmall : maxRemain.toNat - minRemain.toNat < 2 ^ 32) :
    prioLevel remain minRemain maxRemain = exactLevel remain minRemain maxRemain := by
  have hb : (prioDivisor remain minRemain maxRemain).toNat = _ := prioDivisor_toNat hlt
  rw [prioLevel_eq_quot hmin hmax hlt hw, divShift_of_lt (by rw [hb]; exact hsmall),
    ShiftDiv.quot_zero_shift, exactLevel]

end Level

/-- How `_calculate_prio` compares with the exact scale. -/
structure PrioAccurate (remain minRemain maxRemain : UInt64) : Prop where
  /-- The priority is the exact one or one less … -/
  close : (calculatePrio remain minRemain maxRemain).toInt = exactPrio remain minRemain maxRemain ∨
    (calculatePrio remain minRemain maxRemain).toInt =
      exactPrio remain minRemain maxRemain - 1
  /-- … and the exact one when the spread fits in 32 bits. -/
  exact : maxRemain.toNat - minRemain.toNat < 2 ^ 32 →
    (calculatePrio remain minRemain maxRemain).toInt = exactPrio remain minRemain maxRemain
  /-- The ends of the scale are attained. -/
  top : (calculatePrio minRemain minRemain maxRemain).toInt = maxPrio
  bottom : (calculatePrio maxRemain minRemain maxRemain).toInt = minPrio
  /-- More remaining time never means a higher priority. -/
  antitone : ∀ remain', remain ≤ remain' → remain' ≤ maxRemain →
    (calculatePrio remain' minRemain maxRemain).toInt ≤
      (calculatePrio remain minRemain maxRemain).toInt

/-- **The scale is accurate to one level** as long as the product does not wrap. -/
theorem prio_accurate {remain minRemain maxRemain : UInt64} (hmin : minRemain ≤ remain)
    (hmax : remain ≤ maxRemain) (hlt : minRemain < maxRemain)
    (hw : (maxRemain.toNat - minRemain.toNat) * 50 < 2 ^ 64) :
    PrioAccurate remain minRemain maxRemain := by
  have hprio := calculatePrio_toInt hmin hmax
  have hexact : exactPrio remain minRemain maxRemain =
      50 - (exactLevel remain minRemain maxRemain : Int) := rfl
  have hlo := exactLevel_le_prioLevel hmin hmax hlt hw
  have hhi := prioLevel_le_succ hmin hmax hlt hw
  constructor
  case close =>
    rw [hprio, hexact]
    omega
  case exact =>
    intro hsmall
    rw [hprio, hexact, prioLevel_eq_exactLevel hmin hmax hlt hw hsmall]
  case top =>
    rw [calculatePrio_min]
    decide
  case bottom =>
    have hle := UInt64.le_of_lt hlt
    have hlo := exactLevel_le_prioLevel hle (UInt64.le_refl _) hlt hw
    have hhi := prioLevel_le hle (UInt64.le_refl maxRemain)
    rw [exactLevel_max hlt] at hlo
    rw [calculatePrio_toInt hle (UInt64.le_refl _)]
    unfold maxPrio minPrio at *
    omega
  case antitone =>
    intro remain' hle hmax'
    have hmono := prioLevel_mono hmin hle hmax' hw
    rw [hprio, calculatePrio_toInt (UInt64.le_trans hmin hle) hmax']
    omega

theorem prio_accurate_wide : PrioAccurate (3 * 2 ^ 40) (2 ^ 40) (7 * 2 ^ 40) :=
  prio_accurate (by decide) (by decide) (by decide) (by decide)

/-! ### The calls of the second pass

`tracedRecalculateprio` is `rt_dtask_recalculateprio` with a note of every call of
`_calculate_prio` it makes. -/

/-- The arguments of a call of `_calculate_prio`. -/
structure PrioCall where
  remain : UInt64
  minRemain : UInt64
  maxRemain : UInt64
  deriving DecidableEq

/-- What `_calculate_prio` returns. -/
def PrioCall.result (c : PrioCall) : Int32 := calculatePrio c.remain c.minRemain c.maxRemain

/-- One round of the second `HASH_ITER`, with the calls so far. -/
def tracedBody (currTime : UInt64) (m : Extremes) (k : TaskName) (s : Kernel × List PrioCall)
    (r : RtDtask) : (Kernel × List PrioCall) × RtDtask :=
  if r.Judged then
    let (x, r) :=
      if r.remain = 0 then
        (s.1.log (.deadlineMissed k r.task currTime), { r with status := .missed })
      else (s.1, r)
    let call : PrioCall := ⟨r.remain, m.minRemain, m.maxRemain⟩
    let newprio := call.result
    ((if newprio.toUInt32 ≠ r.taskInfo.cprio.toUInt32 then x.rtTaskSetPriority r.task newprio
        else x,
      s.2 ++ [call]), r)
  else (s, r)

/-- `rt_dtask_recalculateprio`, with its calls of `_calculate_prio`. -/
def tracedRecalculateprio (currTime : UInt64) (d : Driver) : Driver × List PrioCall :=
  if d.dtaskMap.keys.length = 0 then (d, [])
  else
    let x := d.kernel.log (.recalculated currTime)
    let first := Table.thread (firstPassBody x currTime) .start d.dtaskMap
    let second := Table.thread (tracedBody currTime first.1) (x, []) first.2
    (⟨second.2, second.1.1⟩, second.1.2)

/-- The call made for a record. -/
def prioCall (m : Extremes) (r : RtDtask) : Option PrioCall :=
  if r.Judged then some ⟨r.remain, m.minRemain, m.maxRemain⟩ else none

theorem tracedBody_eq (t : UInt64) (m : Extremes) (k : TaskName) (s : Kernel × List PrioCall)
    (r : RtDtask) :
    tracedBody t m k s r =
      ((judge t m s.1 ⟨k, r⟩, s.2 ++ (prioCall m r).toList), r.latch) := by
  rw [judge, ← secondPassBody_snd t m k s.1 r]
  by_cases hj : r.Judged
  · by_cases h0 : r.remain = 0 <;>
      simp [tracedBody, secondPassBody, prioCall, PrioCall.result, hj, h0]
  · simp [tracedBody, secondPassBody, prioCall, hj]

/-- Taking notes changes nothing, and one call is noted for each judged record. -/
theorem foldl_traced (t : UInt64) (m : Extremes) (es : List (Σ _ : TaskName, RtDtask))
    (s : Kernel × List PrioCall) :
    es.foldl (fun s e => (tracedBody t m e.1 s e.2).1) s =
      (es.foldl (judge t m) s.1, s.2 ++ es.filterMap fun e => prioCall m e.2) := by
  induction es generalizing s with
  | nil => simp
  | cons e es ih =>
      rw [List.foldl_cons, ih, tracedBody_eq]
      cases hc : prioCall m e.2 with
      | none => simp [hc]
      | some c => simp [hc]

theorem tracedRecalculateprio_of_ne_nil {d : Driver} (t : UInt64) (h : d.dtaskMap.keys ≠ []) :
    tracedRecalculateprio t d =
      (rtDtaskRecalculateprio t d,
        (refreshed t d).entries.filterMap fun e => prioCall (extremes t d) e.2) := by
  have hlen : ¬d.dtaskMap.keys.length = 0 := fun h0 => h (List.length_eq_zero_iff.mp h0)
  have hpure : ∀ k s r, (tracedBody t (extremes t d) k s r).2 = RtDtask.latch r := by
    intro k s r
    rw [tracedBody_eq]
  unfold tracedRecalculateprio rtDtaskRecalculateprio
  rw [if_neg hlen, if_neg hlen]
  simp only [firstPass_fst, firstPass_snd, secondPass_snd]
  rw [Table.thread_snd_of_pure hpure, Table.thread_fst_of_pure hpure,
    Table.thread_fst_of_pure (fun k x r => secondPassBody_snd t (extremes t d) k x r),
    foldl_traced]
  rfl

theorem tracedRecalculateprio_fst (t : UInt64) (d : Driver) :
    (tracedRecalculateprio t d).1 = rtDtaskRecalculateprio t d := by
  by_cases h : d.dtaskMap.keys = []
  · simp [tracedRecalculateprio, recalc_of_nil t h, h]
  · rw [tracedRecalculateprio_of_ne_nil t h]

/-- `_calculate_prio` is called once for each judged record, and `remain` is then what
the first pass has stored: a judged record is active. -/
theorem mem_prioCalls {t : UInt64} {d : Driver} {c : PrioCall} :
    c ∈ (tracedRecalculateprio t d).2 ↔ ∃ k r, d.dtaskMap.lookup k = some r ∧ r.Judged ∧
      c = ⟨remainAt r.deadline t, (extremes t d).minRemain, (extremes t d).maxRemain⟩ := by
  by_cases hnil : d.dtaskMap.keys = []
  · simp [tracedRecalculateprio, hnil, lookup_of_keys_nil hnil]
  rw [tracedRecalculateprio_of_ne_nil t hnil, List.mem_filterMap]
  constructor
  · rintro ⟨e, he, hc⟩
    obtain ⟨r, hl, heq⟩ := mem_refreshed he
    unfold prioCall at hc
    split at hc
    · next hj =>
      rw [heq, refresh_judged] at hj
      rw [heq, refresh_remain (RtDtask.judged_iff.mp hj).1] at hc
      exact ⟨e.1, r, hl, hj, (Option.some.inj hc).symm⟩
    · exact absurd hc (by simp)
  · intro ⟨k, r, hl, hj, hc⟩
    refine ⟨_, refreshed_mem t hl, ?_⟩
    rw [prioCall, if_pos (by simpa using hj), refresh_remain (RtDtask.judged_iff.mp hj).1, hc]

/-- What a call of `_calculate_prio` has to meet. -/
structure PrioCall.Safe (c : PrioCall) : Prop where
  lower : c.minRemain ≤ c.remain
  upper : c.remain ≤ c.maxRemain
  /-- Neither subtraction underflows. -/
  sub_remain : ((c.remain - c.minRemain).toNat : Int) = c.remain.toNat - c.minRemain.toNat
  sub_spread : ((c.maxRemain - c.minRemain).toNat : Int) = c.maxRemain.toNat - c.minRemain.toNat
  /-- `do_div` does not divide by zero. -/
  divisor : (doDivArgs (prioDividend c.remain c.minRemain)
    (prioDivisor c.remain c.minRemain c.maxRemain)).2 ≠ 0
  prio_ge : (minPrio : Int) ≤ c.result.toInt
  prio_le : c.result.toInt ≤ maxPrio

/-- Between the extremes everything is safe; nothing is asked of the product. -/
theorem PrioCall.Safe.of_bounds {c : PrioCall} (hmin : c.minRemain ≤ c.remain)
    (hmax : c.remain ≤ c.maxRemain) : c.Safe := by
  have hmin' := UInt64.le_iff_toNat_le.mp hmin
  have hmax' := UInt64.le_iff_toNat_le.mp hmax
  have hspread := UInt64.toNat_sub_of_le _ _ (UInt64.le_trans hmin hmax)
  have hlevel := prioLevel_le hmin hmax
  have hprio : c.result.toInt = 50 - (prioLevel c.remain c.minRemain c.maxRemain : Int) :=
    calculatePrio_toInt hmin hmax
  constructor
  case lower => exact hmin
  case upper => exact hmax
  case sub_remain =>
    rw [UInt64.toNat_sub_of_le _ _ hmin]
    omega
  case sub_spread =>
    rw [hspread]
    omega
  case divisor =>
    intro h0
    have hpos := shortened_pos (prioDivisor_ne_zero c.remain c.minRemain c.maxRemain)
    rw [← (doDivArgs_toNat (prioDividend c.remain c.minRemain) _).2, h0] at hpos
    exact absurd hpos (by decide)
  case prio_ge =>
    unfold maxPrio at hlevel
    unfold minPrio
    omega
  case prio_le =>
    unfold maxPrio
    omega

/-- **Every call of `_calculate_prio` is safe**, whatever the deadlines and the clock,
and its result is in range. The calls are those for the judged records. -/
theorem prio_calls_safe (t : UInt64) (d : Driver) :
    (tracedRecalculateprio t d).1 = rtDtaskRecalculateprio t d ∧
      (∀ c, c ∈ (tracedRecalculateprio t d).2 ↔
        ∃ k r, d.dtaskMap.lookup k = some r ∧ r.Judged ∧
          c = ⟨remainAt r.deadline t, (extremes t d).minRemain, (extremes t d).maxRemain⟩) ∧
      ∀ c ∈ (tracedRecalculateprio t d).2, c.Safe := by
  refine ⟨tracedRecalculateprio_fst t d, fun _ => mem_prioCalls, ?_⟩
  intro c hc
  obtain ⟨k, r, hl, hj, rfl⟩ := mem_prioCalls.mp hc
  obtain ⟨hmin, hmax⟩ := extremes_bounds t hl (RtDtask.judged_iff.mp hj).1
  exact .of_bounds hmin hmax

end Edfomai
