import Edfomai.Acceptance
import Edfomai.Isolation

/-!
# Edfomai.Outcome

What a writer learns of its request: `edf_rtdm_write_nrt` keeps the status of the lock and
the status of the operation in one variable, so the second is overwritten by the first
before it is tested.

An operation returns `0` exactly if it is carried out (`Op.exec_status_eq_zero`), and the
handler returns `nbyte` in any case. `failures_reported_iff` is what follows: the writer
learns the outcome just when there is no failure to learn of.
-/

namespace Edfomai

/-- The operation finds its task as it needs it: without a record to create one, with a
record to do anything else. -/
def Op.CarriedOut (d : Driver) : Op → Prop
  | create task _ => d.dtaskMap.lookup (d.kernel.name task) = none
  | setdeadline task _ | resetdeadline task | goingwaitp task | stopwatchdog task
  | delete task => (d.dtaskMap.lookup (d.kernel.name task)).isSome
  | recalculateprio => True

/-- An operation returns `0` exactly if it is carried out. -/
theorem Op.exec_status_eq_zero {op : Op} {r : Replies} {d d' : Driver} {ret : Int32}
    (h : op.exec r d = some (ret, d')) : ret = 0 ↔ op.CarriedOut d := by
  cases op with
  | recalculateprio =>
      obtain ⟨rfl, -⟩ := Prod.mk.inj (Option.some.inj h)
      exact iff_of_true rfl trivial
  | create task D =>
      rw [Op.exec_status rfl h]
      cases hl : d.dtaskMap.lookup (d.kernel.name task) <;> simp [status, CarriedOut, hl]
  | setdeadline task D =>
      rw [Op.exec_status rfl h]
      cases hl : d.dtaskMap.lookup (d.kernel.name task) <;> simp [status, CarriedOut, hl]
  | resetdeadline task | goingwaitp task | stopwatchdog task | delete task =>
      rw [Op.exec_status rfl h]
      cases hl : d.dtaskMap.lookup (d.kernel.name task) <;> simp [status, CarriedOut, hl]

/-- An operation that is not carried out returns if it gets its block. -/
theorem Op.exec_isSome_of_vain {op : Op} {r : Replies} {d : Driver} (h : ¬op.CarriedOut d) :
    (op.exec r d).isSome = r.block.isSome := by
  cases op with
  | recalculateprio => exact absurd trivial h
  | create task D =>
      rw [Op.exec_isSome rfl, armingAt_isSome]
      simp only [CarriedOut, ← ne_eq, ← Option.isSome_iff_ne_none] at h
      simp [completes, h]
  | setdeadline task D | resetdeadline task | goingwaitp task | delete task =>
      rw [Op.exec_isSome rfl]
      rfl
  | stopwatchdog task =>
      rw [Op.exec_isSome rfl, armingAt_isSome]
      simp only [CarriedOut, Bool.not_eq_true] at h
      simp [completes, h]

section Write

variable {registry : Registry} {w : WriteReplies} {nbyte : UInt64} {d : Driver}

/-- A well-formed message that got its block leads to an operation. -/
theorem WellFormed.writeOp_isSome (h : WellFormed registry w nbyte) {b : Block}
    (hb : w.message = some b) : (writeOp registry w).isSome := by
  obtain ⟨o, hbind, -⟩ := h.bound
  have hname : cString (w.buffer.taskMemory w.beyond) = cString w.buffer.task := by
    rw [EdfMessage.taskMemory, List.append_assoc, List.append_assoc]
    exact cString_append h.terminated _
  have htask : getHandle registry (w.buffer.taskMemory w.beyond) = some o.desc := by
    simp [getHandle, hname, hbind, xnregistryFetch, List.mem_of_find?_eq_some hbind]
  have hcopy : w.copy ≠ efault := by rw [h.copied]; decide
  simp [writeOp, hb, hcopy, htask, h.command]

/-- The operation a write comes to returned the given status. -/
def OperationReturns (registry : Registry) (w : WriteReplies) (d : Driver) (status : Int32) :
    Prop :=
  ∃ op d₁, writeOp registry w = some op ∧
    op.exec w.op (d.log (.malloc w.message)) = some (status, d₁)

/-- The write returned the given value. -/
def WriteReturns (registry : Registry) (w : WriteReplies) (nbyte : UInt64) (d : Driver)
    (ret : Int64) : Prop :=
  ∃ d', edfRtdmWriteNrt registry w nbyte d = some (ret, d')

/-- What a writer may expect of the value that its write returns. -/
structure OutcomeReported (registry : Registry) (w : WriteReplies) (nbyte : UInt64)
    (d : Driver) : Prop where
  /-- It is `nbyte` exactly if the operation returned `0`, … -/
  success : WriteReturns registry w nbyte d nbyte.toInt64 ↔ OperationReturns registry w d 0
  /-- … and negative if the operation returned anything else. -/
  failure : ∀ status, status ≠ 0 → OperationReturns registry w d status →
    ∃ ret < 0, WriteReturns registry w nbyte d ret

/-- **When the outcome of an operation is reported**: when there is no failure to report,
because the operation is carried out, or does not even get the block it starts with. -/
theorem failures_reported_iff (hwf : WellFormed registry w nbyte) :
    OutcomeReported registry w nbyte d ↔
      ∀ op, writeOp registry w = some op → op.CarriedOut d ∨ w.op.block = none := by
  constructor
  · intro hrep op hop
    by_contra hneither
    obtain ⟨hvain, hblock⟩ := not_or.mp hneither
    obtain ⟨b, hb⟩ := writeOp_message hop
    obtain ⟨⟨status, d₁⟩, hexec⟩ := Option.isSome_iff_exists.mp
      ((Op.exec_isSome_of_vain (d := d.log (.malloc (some b))) hvain).trans
        (Option.isSome_iff_ne_none.mpr hblock))
    -- the handler returns `nbyte` whatever the operation returned
    have hreturns : WriteReturns registry w nbyte d nbyte.toInt64 :=
      ⟨d₁.log (.free (some b)), by rw [edfRtdmWriteNrt_of_op nbyte d hb hop, hexec]; rfl⟩
    obtain ⟨op', d₂, hop', hexec'⟩ := hrep.success.mp hreturns
    obtain rfl : op' = op := Option.some.inj (hop'.symm.trans hop)
    rw [hb] at hexec'
    exact hvain ((Op.exec_status_eq_zero hexec').mp rfl)
  · intro hcond
    have hzero : ∀ status, OperationReturns registry w d status → status = 0 := by
      rintro status ⟨op, d₁, hop, hexec⟩
      rw [Op.exec_status_eq_zero hexec]
      by_contra hvain
      have hblock : w.op.block = none := (hcond op hop).resolve_left hvain
      have hsome := Op.exec_isSome_of_vain (r := w.op) hvain
      simp [hexec, hblock] at hsome
    refine ⟨⟨?_, ?_⟩, fun status hne hop => absurd (hzero status hop) hne⟩
    · rintro ⟨d', hrun⟩
      obtain ⟨b, hb, ⟨op, status, d₁, hop, -, hexec, -⟩ | ⟨hnone, -⟩⟩ := edfRtdmWriteNrt_inv hrun
      · rw [← hb] at hexec
        have hop₁ : OperationReturns registry w d status := ⟨op, d₁, hop, hexec⟩
        exact hzero status hop₁ ▸ hop₁
      · have hsome := hwf.writeOp_isSome hb
        simp [hnone] at hsome
    · rintro ⟨op, d₁, hop, hexec⟩
      obtain ⟨b, hb⟩ := writeOp_message hop
      rw [hb] at hexec
      exact ⟨d₁.log (.free (some b)), by rw [edfRtdmWriteNrt_of_op nbyte d hb hop, hexec]; rfl⟩

end Write

theorem failures_reported_created :
    OutcomeReported letterRegistry copiedWrite 40 letterStart.driver := by
  refine (failures_reported_iff ⟨rfl, by decide, by decide, by decide, ⟨_, rfl, rfl⟩⟩).mpr ?_
  intro op hop
  obtain rfl : Op.create 0 10 = op := by
    rw [← Option.some.injEq, ← hop]
    decide +kernel
  exact Or.inl rfl

/-- A `RESET_DEADLINE` for a task without a record. -/
def vainWrite : WriteReplies :=
  ⟨some 9, 0, letterMessage .resetDeadline 0 0, [], plainReplies 0 10⟩

/-- It returns 40, although `rt_dtask_resetdeadline` returned `-1`. -/
theorem failure_not_reported :
    WellFormed letterRegistry vainWrite 40 ∧
      ¬OutcomeReported letterRegistry vainWrite 40 letterStart.driver := by
  refine ⟨⟨rfl, by decide, by decide, by decide, ⟨_, rfl, rfl⟩⟩, fun h => ?_⟩
  obtain ⟨op, d₁, hop, hexec⟩ := h.success.mp ⟨_, rfl⟩
  obtain rfl : Op.resetdeadline 0 = op := by
    rw [← Option.some.injEq, ← hop]
    decide +kernel
  have hret := Op.exec_status rfl hexec
  exact absurd hret (by decide)

end Edfomai
