import Edfomai.Invariant
import Edfomai.Lib.Dispatch
import Mathlib.Data.UInt

/-!
# Edfomai.EdfOrder

What the priorities assigned by a recalculation have to do with deadlines. Right
after a recalculation every active task's priority is `MAXPRIO` minus its level on
the scale of `_calculate_prio` (`prio_eq_level`), whether its record was just judged
or missed earlier. The earliest ones are at the top of the scale, and as long as the
product in `_calculate_prio` does not wrap, the scale is monotone, so priorities follow
deadlines; but it has only 51 levels, so tasks close to the earliest one share its
priority.
-/

namespace Edfomai

/-- The records `rt_dtask_recalculateprio` considers. -/
def activeRecords (d : Driver) : Set RtDtask :=
  {r | ∃ k, d.dtaskMap.lookup k = some r ∧ r.Active}

/-- The remaining time of a record at clock value `t`. -/
def remaining (t : UInt64) (r : RtDtask) : ℕ := (remainAt r.deadline t).toNat

/-- The current priority of a record's task. -/
def prioOf (d : Driver) (r : RtDtask) : ℤ := (d.kernel.cprio r.task).toInt

/-- The level of a record on the scale of the recalculation that read `t`. -/
def levelOf (t : UInt64) (d : Driver) (r : RtDtask) : ℕ :=
  prioLevel (remainAt r.deadline t) (extremes t d).minRemain (extremes t d).maxRemain

/-- The remaining times of the active records at clock value `t` are close enough
together for the 64-bit product in `_calculate_prio`. -/
def SpreadFits (t : UInt64) (d : Driver) : Prop :=
  ∀ r ∈ activeRecords d, ∀ r' ∈ activeRecords d, NoWrap (remaining t r' - remaining t r)

/-- Priorities follow deadlines: an active task whose deadline is not later does not
have a lower priority. -/
def EdfOrdered (d : Driver) : Prop :=
  ∀ k₁ r₁ k₂ r₂, d.dtaskMap.lookup k₁ = some r₁ → r₁.Active →
    d.dtaskMap.lookup k₂ = some r₂ → r₂.Active →
      r₁.deadline ≤ r₂.deadline → d.kernel.cprio r₂.task ≤ d.kernel.cprio r₁.task

/-- Every active task whose priority is highest among the active ones has the
earliest deadline. -/
def EdfDispatched (d : Driver) : Prop :=
  ∀ r ∈ activeRecords d, IsMaxOn (prioOf d) (activeRecords d) r →
    IsMinOn (fun r => r.deadline.toNat) (activeRecords d) r

/-- Every active task with the earliest deadline has the highest priority. -/
def EarliestOnTop (d : Driver) : Prop :=
  ∀ e ∈ activeRecords d, IsMinOn (fun r => r.deadline.toNat) (activeRecords d) e →
    IsMaxOn (prioOf d) (activeRecords d) e

/-- What a scale of 51 levels leaves of `EdfDispatched` at clock value `t`: the
earliest active tasks have the highest priority, and an active task with the highest
priority has, compared with an earliest one, the same remaining time or one that is
longer by less than a fiftieth of the spread. -/
def DispatchedNearEarliest (t : UInt64) (d : Driver) : Prop :=
  ∀ e ∈ activeRecords d, IsMinOn (fun r => r.deadline.toNat) (activeRecords d) e →
    IsMaxOn (prioOf d) (activeRecords d) e ∧
      ∀ r ∈ activeRecords d, IsMaxOn (prioOf d) (activeRecords d) r →
        remaining t r = remaining t e ∨
          ∃ l ∈ activeRecords d,
            50 * (remaining t r - remaining t e) < remaining t l - remaining t e

/-! ### The scale of one recalculation -/

section Scale

variable {t : UInt64} {d : Driver} {r : RtDtask}

/-- The extremes are the remaining times of two active records, so their distance is
one that `SpreadFits` bounds. -/
theorem noWrap_extremes (hfit : SpreadFits t d) (hr : r ∈ activeRecords d) :
    NoWrap ((extremes t d).maxRemain.toNat - (extremes t d).minRemain.toNat) := by
  obtain ⟨k, hl, ha⟩ := hr
  obtain ⟨⟨k₁, r₁, hl₁, ha₁, hmin⟩, ⟨k₂, r₂, hl₂, ha₂, hmax⟩⟩ := extremes_attained t hl ha
  have h := hfit r₁ ⟨k₁, hl₁, ha₁⟩ r₂ ⟨k₂, hl₂, ha₂⟩
  rwa [remaining, remaining, hmin, hmax] at h

theorem spreadFits_of_extremes
    (hw : NoWrap ((extremes t d).maxRemain.toNat - (extremes t d).minRemain.toNat)) :
    SpreadFits t d := by
  intro r ⟨k, hl, ha⟩ r' ⟨k', hl', ha'⟩
  have hlo := UInt64.le_iff_toNat_le.mp (extremes_bounds t hl ha).1
  have hhi := UInt64.le_iff_toNat_le.mp (extremes_bounds t hl' ha').2
  unfold NoWrap remaining at *
  omega

/-- An active task's priority is read off the scale. -/
theorem prio_eq_level (hpost : PostRecalc t d) (hr : r ∈ activeRecords d) :
    prioOf d r = 50 - levelOf t d r := by
  obtain ⟨k, hl, ha⟩ := hr
  obtain ⟨hlo, hhi⟩ := extremes_bounds t hl ha
  rw [prioOf, (hpost k r hl ha).2.2, calculatePrio_toInt hlo hhi, levelOf]

theorem level_mono (hfit : SpreadFits t d) {r₁ r₂ : RtDtask} (h₁ : r₁ ∈ activeRecords d)
    (h₂ : r₂ ∈ activeRecords d) (h : r₁.deadline.toNat ≤ r₂.deadline.toNat) :
    levelOf t d r₁ ≤ levelOf t d r₂ := by
  have hw := noWrap_extremes hfit h₁
  obtain ⟨k₁, hl₁, ha₁⟩ := h₁
  obtain ⟨k₂, hl₂, ha₂⟩ := h₂
  exact prioLevel_mono (extremes_bounds t hl₁ ha₁).1
    (remainAt_mono t (UInt64.le_iff_toNat_le.mpr h)) (extremes_bounds t hl₂ ha₂).2 hw

/-- Priorities follow deadlines after a recalculation without wrapping. -/
theorem follows_of_postRecalc (hpost : PostRecalc t d) (hfit : SpreadFits t d) :
    Dispatch.Follows (activeRecords d) (fun r => r.deadline.toNat) (prioOf d) :=
  Dispatch.follows_of_level (levelOf t d) (fun _ h₁ _ h₂ h => level_mono hfit h₁ h₂ h)
    fun _ hr => prio_eq_level hpost hr

/-- The earliest record attains the smaller extreme. -/
theorem remainAt_of_isMinOn (hr : r ∈ activeRecords d)
    (hmin : IsMinOn (fun r => r.deadline.toNat) (activeRecords d) r) :
    remainAt r.deadline t = (extremes t d).minRemain := by
  obtain ⟨k, hl, ha⟩ := hr
  obtain ⟨⟨k', e, hl', ha', heq⟩, -⟩ := extremes_attained t hl ha
  refine UInt64.le_antisymm ?_ (extremes_bounds t hl ha).1
  rw [← heq]
  exact remainAt_mono t (UInt64.le_iff_toNat_le.mpr (isMinOn_iff.mp hmin e ⟨k', hl', ha'⟩))

/-- So it is at the top of the scale. -/
theorem level_of_isMinOn (hr : r ∈ activeRecords d)
    (hmin : IsMinOn (fun r => r.deadline.toNat) (activeRecords d) r) : levelOf t d r = 0 := by
  rw [levelOf, remainAt_of_isMinOn hr hmin, prioLevel_min]

end Scale

/-! ### Runs -/

/-- **EDF order.** In every run, right after a recalculation whose product does not
wrap, the priorities of the active tasks follow their deadlines. Earlier
recalculations need not meet the condition: a priority they left wrong is either
reassigned now or belongs to a missed task, which is at the top in any case. -/
theorem edf_order {site : Site} {s : SerialState} {t : UInt64}
    (hs : (serial site).Reachable s)
    (ht : History.lastRecalc s.driver.kernel.history = some t)
    (hfit : SpreadFits t s.driver) : EdfOrdered s.driver := by
  intro k₁ r₁ k₂ r₂ hl₁ ha₁ hl₂ ha₂ hle
  have hfollows := follows_of_postRecalc ((reachable_inv hs).settled t ht) hfit
  exact Int32.le_iff_toInt_le.mpr
    (hfollows r₁ ⟨k₁, hl₁, ha₁⟩ r₂ ⟨k₂, hl₂, ha₂⟩ (UInt64.le_iff_toNat_le.mp hle))

/-- Three tasks created at time 0 with deadlines 1000, 1001 and 10000. -/
def closeRequests : List Request :=
  [⟨.create 0 1000, plainReplies 0 10⟩, ⟨.create 1 1001, plainReplies 0 20⟩,
    ⟨.create 2 10000, plainReplies 0 30⟩]

theorem edf_order_close : EdfOrdered (letterRun closeRequests).driver :=
  edf_order (letterRun_reachable (by decide +kernel) (by decide +kernel))
    (t := 0) (by decide +kernel) (spreadFits_of_extremes (by decide +kernel))

/-- Three tasks created at time 0 with relative deadlines in the ratio of a few
hundred years: the product for the last one is a multiple of `2 ^ 64`. -/
def wrappingRequests : List Request :=
  [⟨.create 0 1, plainReplies 0 10⟩, ⟨.create 1 (2 ^ 62 + 1), plainReplies 0 20⟩,
    ⟨.create 2 (2 ^ 63 + 1), plainReplies 0 30⟩]

/-- When the product wraps, the task with the latest deadline can be given the
highest priority: here task `2` gets 50, and task `1`, due earlier, gets 49. -/
theorem edf_order_fails_on_wrap :
    (serial letterSite).Reachable (letterRun wrappingRequests) ∧
      History.lastRecalc (letterRun wrappingRequests).driver.kernel.history = some 0 ∧
      ¬EdfOrdered (letterRun wrappingRequests).driver := by
  refine ⟨letterRun_reachable (by decide +kernel) (by decide +kernel), by decide +kernel, ?_⟩
  intro hord
  have h₁ : ((letterRun wrappingRequests).driver.dtaskMap.lookup (letterName 1)).any
      (fun r => r.Active ∧ r.deadline = 2 ^ 62 + 1 ∧ r.task = 1) = true := by decide +kernel
  have h₂ : ((letterRun wrappingRequests).driver.dtaskMap.lookup (letterName 2)).any
      (fun r => r.Active ∧ r.deadline = 2 ^ 63 + 1 ∧ r.task = 2) = true := by decide +kernel
  obtain ⟨r₁, hl₁, hr₁⟩ := (Option.any_eq_true _ _).mp h₁
  obtain ⟨r₂, hl₂, hr₂⟩ := (Option.any_eq_true _ _).mp h₂
  obtain ⟨ha₁, hd₁, ht₁⟩ := of_decide_eq_true hr₁
  obtain ⟨ha₂, hd₂, ht₂⟩ := of_decide_eq_true hr₂
  have hle := hord _ r₁ _ r₂ hl₁ ha₁ hl₂ ha₂ (by rw [hd₁, hd₂]; decide +kernel)
  rw [ht₁, ht₂] at hle
  exact absurd hle (by decide +kernel)

/-- **What is left of EDF dispatching.** Right after a recalculation the highest priority
is held by every task with the earliest deadline, and if its product does not wrap,
otherwise only by tasks within one level of it. -/
theorem dispatch_near_earliest {site : Site} {s : SerialState} {t : UInt64}
    (hs : (serial site).Reachable s)
    (ht : History.lastRecalc s.driver.kernel.history = some t) :
    EarliestOnTop s.driver ∧ (SpreadFits t s.driver → DispatchedNearEarliest t s.driver) := by
  have hpost := (reachable_inv hs).settled t ht
  have htop : EarliestOnTop s.driver := fun e he hmin =>
    Dispatch.isMaxOn_of_level_eq_zero _ (fun _ h => prio_eq_level hpost h) he
      (level_of_isMinOn he hmin)
  refine ⟨htop, fun hfit e he hmin => ⟨htop e he hmin, fun r hr hmax => ?_⟩⟩
  have hlevel : levelOf t s.driver r = 0 :=
    Dispatch.level_eq_zero_of_isMaxOn _ (fun _ h => prio_eq_level hpost h) he
      (level_of_isMinOn he hmin) hr hmax
  have hw := noWrap_extremes hfit hr
  obtain ⟨k, hl, ha⟩ := hr
  obtain ⟨hlo, hhi⟩ := extremes_bounds t hl ha
  obtain ⟨-, ⟨k₂, r₂, hl₂, ha₂, heq₂⟩⟩ := extremes_attained t hl ha
  have hearliest : remaining t e = (extremes t s.driver).minRemain.toNat := by
    rw [remaining, remainAt_of_isMinOn he hmin]
  rcases close_of_prioLevel_eq_zero hlo hhi hw hlevel with heq | hlt
  · exact Or.inl (by rw [hearliest, remaining, heq])
  · refine Or.inr ⟨r₂, ⟨k₂, hl₂, ha₂⟩, ?_⟩
    rwa [hearliest, remaining, remaining, heq₂]

theorem dispatch_near_earliest_close :
    EarliestOnTop (letterRun closeRequests).driver ∧
      DispatchedNearEarliest 0 (letterRun closeRequests).driver := by
  have hs : (serial letterSite).Reachable (letterRun closeRequests) :=
    letterRun_reachable (by decide +kernel) (by decide +kernel)
  obtain ⟨htop, hnear⟩ := dispatch_near_earliest hs (t := 0) (by decide +kernel)
  exact ⟨htop, hnear (spreadFits_of_extremes (by decide +kernel))⟩

/-- Task `1` of `closeRequests`, due second, has the highest priority: it shares the
top level with task `0`. -/
theorem edf_dispatch_fails_on_shared_level :
    (serial letterSite).Reachable (letterRun closeRequests) ∧
      History.lastRecalc (letterRun closeRequests).driver.kernel.history = some 0 ∧
      ¬EdfDispatched (letterRun closeRequests).driver := by
  have hs : (serial letterSite).Reachable (letterRun closeRequests) :=
    letterRun_reachable (by decide +kernel) (by decide +kernel)
  have hlast : History.lastRecalc (letterRun closeRequests).driver.kernel.history = some 0 := by
    decide +kernel
  refine ⟨hs, hlast, fun hdisp => ?_⟩
  have h₀ : ((letterRun closeRequests).driver.dtaskMap.lookup (letterName 0)).any
      (fun r => r.Active ∧ r.deadline.toNat = 1000) = true := by decide +kernel
  have h₁ : ((letterRun closeRequests).driver.dtaskMap.lookup (letterName 1)).any
      (fun r => r.Active ∧ r.deadline.toNat = 1001 ∧ r.task = 1) = true := by decide +kernel
  obtain ⟨r₀, hl₀, hr₀⟩ := (Option.any_eq_true _ _).mp h₀
  obtain ⟨r₁, hl₁, hr₁⟩ := (Option.any_eq_true _ _).mp h₁
  obtain ⟨ha₀, hd₀⟩ := of_decide_eq_true hr₀
  obtain ⟨ha₁, hd₁, ht₁⟩ := of_decide_eq_true hr₁
  have hprio : prioOf (letterRun closeRequests).driver r₁ = 50 := by
    rw [prioOf, ht₁]
    decide +kernel
  have hpost := (reachable_inv hs).settled 0 hlast
  have hlevel : levelOf 0 (letterRun closeRequests).driver r₁ = 0 := by
    have hscale := prio_eq_level hpost ⟨_, hl₁, ha₁⟩
    omega
  have hmax := Dispatch.isMaxOn_of_level_eq_zero _ (fun _ h => prio_eq_level hpost h)
    ⟨_, hl₁, ha₁⟩ hlevel
  have hmin := isMinOn_iff.mp (hdisp r₁ ⟨_, hl₁, ha₁⟩ hmax) r₀ ⟨_, hl₀, ha₀⟩
  simp only [hd₀, hd₁] at hmin
  omega

end Edfomai
