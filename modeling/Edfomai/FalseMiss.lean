import Edfomai.Invariant

/-!
# Edfomai.FalseMiss

When `deadline_missed` is called although the deadline has not passed. The absolute
deadline is the 64-bit sum of a clock reading and the relative deadline, which the
driver takes from the user unchecked. `no_false_miss_iff` shows that the wrap-around
of this sum is the only cause of false notifications, and that each wrap-around
does cause one: the recalculation at the end of the arming operation itself reads a
clock value past the wrapped deadline.
-/

namespace Edfomai

open History

/-! ### Notifications in time and armings that fit -/

/-- A notification for record `k` by a recalculation that read `t` is justified: the
record was last armed at `t₀` with relative deadline `D`, and `t₀ + D ≤ t` over the
integers. -/
def OnTime (k : TaskName) (t : UInt64) (h : List Event) : Prop :=
  ∃ t₀ D : UInt64, lastArming k h = some (t₀, D) ∧ t₀.toNat + D.toNat ≤ t.toNat

instance (k : TaskName) (t : UInt64) (h : List Event) : Decidable (OnTime k t h) :=
  decidable_of_iff (∃ p ∈ lastArming k h, p.1.toNat + p.2.toNat ≤ t.toNat)
    ⟨fun ⟨p, hp, hle⟩ => ⟨p.1, p.2, hp, hle⟩, fun ⟨t₀, D, harm, hle⟩ => ⟨(t₀, D), harm, hle⟩⟩

/-- All notifications in the history were justified when they were sent. -/
def NoFalseMiss : List Event → Prop
  | [] => True
  | .deadlineMissed k _ t :: h => OnTime k t h ∧ NoFalseMiss h
  | _ :: h => NoFalseMiss h

instance : DecidablePred NoFalseMiss := fun h => decide h
where decide : (h : List Event) → Decidable (NoFalseMiss h)
  | [] => isTrue trivial
  | .deadlineMissed .. :: h => @instDecidableAnd _ _ _ (decide h)
  | .malloc _ :: h | .free _ :: h | .armed .. :: h | .recalculated _ :: h
  | .setPriority .. :: h => decide h

/-- No arming with a deadline made the 64-bit sum wrap around. -/
def ArmingsFit (h : List Event) : Prop :=
  ∀ k t D, .armed k t D ∈ h → D ≠ deadlineNotSet → t.toNat + D.toNat < 2 ^ 64

@[simp] theorem noFalseMiss_malloc (p : Option Block) (h : List Event) :
    NoFalseMiss (.malloc p :: h) ↔ NoFalseMiss h := Iff.rfl
@[simp] theorem noFalseMiss_free (p : Option Block) (h : List Event) :
    NoFalseMiss (.free p :: h) ↔ NoFalseMiss h := Iff.rfl
@[simp] theorem noFalseMiss_armed (k : TaskName) (t D : UInt64) (h : List Event) :
    NoFalseMiss (.armed k t D :: h) ↔ NoFalseMiss h := Iff.rfl
@[simp] theorem noFalseMiss_recalculated (t : UInt64) (h : List Event) :
    NoFalseMiss (.recalculated t :: h) ↔ NoFalseMiss h := Iff.rfl
@[simp] theorem noFalseMiss_setPriority (T : RtTask) (p : Int32) (h : List Event) :
    NoFalseMiss (.setPriority T p :: h) ↔ NoFalseMiss h := Iff.rfl
@[simp] theorem noFalseMiss_deadlineMissed (k : TaskName) (T : RtTask) (t : UInt64)
    (h : List Event) :
    NoFalseMiss (.deadlineMissed k T t :: h) ↔ OnTime k t h ∧ NoFalseMiss h := Iff.rfl

theorem armingsFit_cons_armed {k : TaskName} {t D : UInt64} {h : List Event} :
    ArmingsFit (.armed k t D :: h) ↔
      (D ≠ deadlineNotSet → t.toNat + D.toNat < 2 ^ 64) ∧ ArmingsFit h := by
  constructor
  · intro hfit
    exact ⟨hfit k t D (List.mem_cons_self ..),
      fun k' t' D' hmem => hfit k' t' D' (List.mem_cons_of_mem _ hmem)⟩
  · rintro ⟨hD, hfit⟩ k' t' D' hmem
    rcases List.mem_cons.mp hmem with heq | hmem
    · cases heq
      exact hD
    · exact hfit k' t' D' hmem

/-- Any other event arms nothing. -/
theorem armingsFit_cons_of_ne {e : Event} {h : List Event} (he : ∀ k t D, .armed k t D ≠ e) :
    ArmingsFit (e :: h) ↔ ArmingsFit h := by
  constructor
  · exact fun hfit k t D hmem => hfit k t D (List.mem_cons_of_mem _ hmem)
  · intro hfit k t D hmem
    rcases List.mem_cons.mp hmem with heq | hmem
    · exact absurd heq (he k t D)
    · exact hfit k t D hmem

/-- The last arming is one of the armings of the history. -/
theorem mem_of_lastArming {k : TaskName} {t D : UInt64} {h : List Event}
    (harm : lastArming k h = some (t, D)) : .armed k t D ∈ h := by
  induction h with
  | nil => simp [lastArming] at harm
  | cons e h ih =>
      cases e with
      | armed k' t' D' =>
          rw [lastArming_armed] at harm
          split at harm
          · next hk =>
            obtain ⟨rfl, rfl⟩ := Prod.mk.inj (Option.some.inj harm)
            rw [hk]
            exact List.mem_cons_self ..
          · exact List.mem_cons_of_mem _ (ih harm)
      | _ => exact List.mem_cons_of_mem _ (ih harm)

/-! ### What a recalculation adds -/

/-- A recalculation arms nothing. -/
theorem recalc_armingsFit (t : UInt64) (d : Driver) :
    ArmingsFit (rtDtaskRecalculateprio t d).kernel.history ↔ ArmingsFit d.kernel.history :=
  iff_of_eq (recalc_history_of_ignored
    (fun _ _ _ _ => propext (armingsFit_cons_of_ne (by simp)))
    (fun _ _ _ => propext (armingsFit_cons_of_ne (by simp)))
    (fun _ _ => propext (armingsFit_cons_of_ne (by simp))) t d)

theorem judge_onTime (t t' : UInt64) (m : Extremes) (x : Kernel) (e : Σ _ : TaskName, RtDtask)
    (k : TaskName) : OnTime k t' (judge t m x e).history ↔ OnTime k t' x.history :=
  iff_of_eq (judge_history_of_ignored (fun _ _ _ _ => rfl) (fun _ _ _ => rfl) t m x e)

/-- One verdict notifies only where no time remains. -/
theorem judge_noFalseMiss (t : UInt64) (m : Extremes) (x : Kernel) (k : TaskName) (r : RtDtask) :
    NoFalseMiss (judge t m x ⟨k, r⟩).history ↔
      (r.Judged → r.remain = 0 → OnTime k t x.history) ∧ NoFalseMiss x.history := by
  have hn : NoFalseMiss (notified t k x r).history ↔
      (r.remain = 0 → OnTime k t x.history) ∧ NoFalseMiss x.history := by
    unfold notified
    split <;> simp_all
  rcases judge_cases t m x k r with ⟨hj, h⟩ | ⟨hj, -, h⟩ | ⟨hj, -, h⟩
  · simp [h, hj]
  · simp [h, hj, hn]
  · simp [h, hj, hn]

theorem foldl_judge_noFalseMiss (t : UInt64) (m : Extremes)
    (es : List (Σ _ : TaskName, RtDtask)) (x : Kernel) :
    NoFalseMiss (es.foldl (judge t m) x).history ↔
      (∀ e ∈ es, e.2.Judged → e.2.remain = 0 → OnTime e.1 t x.history) ∧
        NoFalseMiss x.history := by
  induction es generalizing x with
  | nil => simp
  | cons e es ih =>
      -- the verdict on `e` does not change which armings are the last ones
      rw [List.foldl_cons, ih, judge_noFalseMiss, List.forall_mem_cons]
      simp only [judge_onTime]
      tauto

/-- After a recalculation no notification is false exactly when none was before and
every record found without remaining time was due. -/
theorem recalc_noFalseMiss (t : UInt64) (d : Driver) :
    NoFalseMiss (rtDtaskRecalculateprio t d).kernel.history ↔
      (∀ k r, d.dtaskMap.lookup k = some r → r.Judged → remainAt r.deadline t = 0 →
        OnTime k t d.kernel.history) ∧ NoFalseMiss d.kernel.history := by
  by_cases hnil : d.dtaskMap.keys = []
  · simp [recalc_of_nil t hnil, lookup_of_keys_nil hnil]
  · rw [recalc_of_ne_nil t hnil]
    refine (foldl_judge_noFalseMiss t _ _ _).trans (and_congr ?_ Iff.rfl)
    constructor
    · intro h k r hl hj h0
      exact h _ (refreshed_mem t hl) ((refresh_judged ..).mpr hj)
        ((refresh_remain (RtDtask.judged_iff.mp hj).1).trans h0)
    · intro h e he hj h0
      obtain ⟨r, hl, heq⟩ := mem_refreshed he
      rw [heq] at hj h0
      have hj' := (refresh_judged ..).mp hj
      rw [refresh_remain (RtDtask.judged_iff.mp hj').1] at h0
      exact h _ r hl hj' h0

/-! ### One record -/

/-- While all armings fit, the stored deadline is the true one, so a record without
remaining time is due. -/
theorem RecordInv.onTime {site : Site} {t c : UInt64} {x : Kernel} {k : TaskName} {r : RtDtask}
    (h : RecordInv site t x k r) (hfit : ArmingsFit x.history) (hj : r.Judged)
    (h0 : remainAt r.deadline c = 0) : OnTime k c x.history := by
  obtain ⟨t₀, harm, hdl, -⟩ := h.arming
  have hlt := hfit k t₀ r.relativeDeadline (mem_of_lastArming harm) hj.1
  have hle : r.deadline.toNat ≤ c.toNat := UInt64.le_iff_toNat_le.mp (remainAt_eq_zero.mp h0)
  refine ⟨t₀, r.relativeDeadline, harm, ?_⟩
  rwa [hdl, UInt64.toNat_add, Nat.mod_eq_of_lt hlt] at hle

/-- A record armed so that the sum wraps has no time left at once, although it is
never due: no clock value reaches a sum of `2 ^ 64` or more. -/
theorem fits_of_onTime {k : TaskName} {c c' D : UInt64} {h : List Event} (hc : c ≤ c')
    (hdue : remainAt (c + D) c' = 0 → OnTime k c' (.armed k c D :: h)) :
    c.toNat + D.toNat < 2 ^ 64 := by
  by_contra hwrap
  have hD := D.toNat_lt
  have hc' := c'.toNat_lt
  have hle := UInt64.le_iff_toNat_le.mp hc
  have h0 : remainAt (c + D) c' = 0 := by
    rw [remainAt_eq_zero, UInt64.le_iff_toNat_le, UInt64.toNat_add]
    omega
  obtain ⟨t₀, D', harm, hdue⟩ := hdue h0
  rw [lastArming_armed, if_pos rfl] at harm
  obtain ⟨rfl, rfl⟩ := Prod.mk.inj (Option.some.inj harm)
  omega

/-! ### Runs -/

/-- The equivalence that runs keep. -/
def MissesJustified (d : Driver) : Prop :=
  NoFalseMiss d.kernel.history ↔ ArmingsFit d.kernel.history

theorem MissesJustified.log {d : Driver} (h : MissesJustified d) {e : Event}
    (he : ∀ k t D, .armed k t D ≠ e) (hm : ∀ k T t, .deadlineMissed k T t ≠ e) :
    MissesJustified (d.log e) := by
  have hn : NoFalseMiss (e :: d.kernel.history) ↔ NoFalseMiss d.kernel.history := by
    cases e with
    | deadlineMissed k T t => exact absurd rfl (hm k T t)
    | _ => exact Iff.rfl
  exact hn.trans (h.trans (armingsFit_cons_of_ne he).symm)

theorem MissesJustified.recalc {site : Site} {t c : UInt64} {d : Driver}
    (h : MissesJustified d) (hrec : Records site t d) :
    MissesJustified (rtDtaskRecalculateprio c d) := by
  rw [MissesJustified, recalc_noFalseMiss, recalc_armingsFit]
  constructor
  · exact fun hall => h.mp hall.2
  · intro hfit
    exact ⟨fun k r hl hj h0 => (hrec.2 k r hl).onTime hfit hj h0, h.mpr hfit⟩

/-- Arming a record and recalculating. `d` is the state before, `d₁` the state in
between. -/
theorem MissesJustified.arm {site : Site} {c c' D : UInt64} {d d₁ : Driver} {k : TaskName}
    {r : RtDtask} (h : MissesJustified d) (hrec : Records site c d₁) (hc : c ≤ c')
    (hhist : d₁.kernel.history = .armed k c D :: d.kernel.history)
    (hl : d₁.dtaskMap.lookup k = some r) (hrel : r.relativeDeadline = D)
    (hdl : r.deadline = c + D) (hst : r.status = .ok)
    (hrun : r.state = TaskState.running.code) :
    MissesJustified (rtDtaskRecalculateprio c' d₁) := by
  have hbefore : NoFalseMiss d₁.kernel.history ↔ ArmingsFit d.kernel.history := by
    rw [hhist]
    exact h
  rw [MissesJustified, recalc_noFalseMiss, recalc_armingsFit, hbefore]
  constructor
  · rintro ⟨hdue, hfit⟩
    rw [hhist, armingsFit_cons_armed]
    refine ⟨fun hD => fits_of_onTime (k := k) (h := d.kernel.history) hc fun h0 => ?_, hfit⟩
    have hj : r.Judged := ⟨hrel ▸ hD, hst, hrun⟩
    exact hhist ▸ hdue k r hl hj (hdl ▸ h0)
  · intro hfit
    refine ⟨fun k' r' hl' hj h0 => (hrec.2 k' r' hl').onTime hfit hj h0, ?_⟩
    rw [hhist, armingsFit_cons_armed] at hfit
    exact hfit.2

theorem MissesJustified.update {site : Site} {s s' : SerialState} (h : MissesJustified s.driver)
    (hinv : Inv site s) (hu : Update site s s') : MissesJustified s'.driver := by
  cases hu with
  | tick => exact h
  | malloc p => exact h.log (by simp) (by simp)
  | free p => exact h.log (by simp) (by simp)
  | wait p k => exact h.log (e := .malloc p) (by simp) (by simp)
  | erase p k => exact h.log (e := .malloc p) (by simp) (by simp)
  | rearm hl ht hc hf =>
      next d k r f =>
      refine h.arm (r := f r) ((hinv.records.tick ht).rearmed hl hf) hc rfl ?_ ?_ ?_ ?_ ?_
      · simp [Edfomai.rearmed, Table.lookup_adjust_self, hl]
      all_goals rw [hf]; rfl
  | add hl htask ht hc =>
      exact h.arm ((hinv.records.tick ht).added hl htask rfl) hc rfl (Table.lookup_add_self _ hl)
        rfl rfl rfl rfl
  | recalc ht => exact h.recalc hinv.records

/-- **False misses come from wrapped deadlines only.** In every reachable state, all
notifications so far were justified if and only if no arming with a deadline made the
sum of the clock and the relative deadline wrap around. -/
theorem no_false_miss_iff {site : Site} {s : SerialState} (hs : (serial site).Reachable s) :
    NoFalseMiss s.driver.kernel.history ↔ ArmingsFit s.driver.kernel.history := by
  have hinit : ∀ s₀, (serial site).init s₀ → Inv site s₀ ∧ MissesJustified s₀.driver := by
    intro s₀ h₀
    refine ⟨reachable_inv (.init h₀), ?_⟩
    obtain ⟨x, -, hhist, hinit⟩ := h₀
    simp [MissesJustified, hinit, rtDtaskInit, hhist, NoFalseMiss, ArmingsFit]
  have hupdate : ∀ s₁ s₂, Inv site s₁ ∧ MissesJustified s₁.driver → Update site s₁ s₂ →
      Inv site s₂ ∧ MissesJustified s₂.driver :=
    fun _ _ h hu => ⟨h.1.update hu, h.2.update h.1 hu⟩
  exact (serial_invariant hinit hupdate hs).2

/-- At clock 10 a task is created with a relative deadline of `2 ^ 64 - 2`. -/
def hugeDeadlineRequests : List Request := [⟨.create 0 (-2), plainReplies 10 10⟩]

theorem no_false_miss_iff_huge :
    NoFalseMiss (letterRun hugeDeadlineRequests).driver.kernel.history ↔
      ArmingsFit (letterRun hugeDeadlineRequests).driver.kernel.history :=
  no_false_miss_iff (letterRun_reachable (by decide +kernel) (by decide +kernel))

/-- Its absolute deadline wraps to 8, and the recalculation at 10 calls
`deadline_missed`, `2 ^ 64 - 2` too early. -/
theorem false_miss_on_wrap : (serial letterSite).Reachable (letterRun hugeDeadlineRequests) ∧
    ¬NoFalseMiss (letterRun hugeDeadlineRequests).driver.kernel.history :=
  ⟨letterRun_reachable (by decide +kernel) (by decide +kernel), by decide +kernel⟩

end Edfomai
