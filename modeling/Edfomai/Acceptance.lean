import Edfomai.Write

/-!
# Edfomai.Acceptance

What `edf_rtdm_write_nrt` acts on. Its comment promises that only `EDFMessage`s are
interpreted and that a negative value is returned otherwise, but of the conditions
that make a buffer a message it tests two: that the name leads to an object, and
that the command is known. The copy's status is compared with `EFAULT`, which is
never returned, and `nbyte` is not looked at.

`acts_on_wellFormed_iff` is the exact extent of the damage.
-/

namespace Edfomai

/-- `sizeof(EDFMessage)`: the command, the name, the padding, the deadline. -/
def sizeofEdfMessage : Nat := 4 + (tnameLen + 1) + 3 + 8

/-- What a message has to be for the driver to act on it. -/
structure WellFormed (registry : Registry) (w : WriteReplies) (nbyte : UInt64) : Prop where
  /-- It was copied from user space, … -/
  copied : w.copy = 0
  /-- … where all of it was written; … -/
  whole : sizeofEdfMessage ≤ nbyte.toNat
  /-- … its command is one of `EDFCommand`, … -/
  command : (EdfCommand.ofCode w.buffer.command).isSome
  /-- … its name is a string, … -/
  terminated : 0 ∈ w.buffer.task
  /-- … and the name of a task. -/
  bound : ∃ o, xnregistryBind registry (cString w.buffer.task) = some o ∧ o.kind = .task

/-- The driver acts on well-formed messages only. -/
structure ActsOnWellFormed (registry : Registry) (w : WriteReplies) (nbyte : UInt64)
    (d : Driver) : Prop where
  /-- It runs an operation for nothing else, … -/
  runs : ∀ op, writeOp registry w = some op → WellFormed registry w nbyte
  /-- … and refuses everything else with a negative value, changing neither the table nor
  a priority. -/
  refuses : ¬WellFormed registry w nbyte → ∃ ret d',
    edfRtdmWriteNrt registry w nbyte d = some (ret, d') ∧ ret < 0 ∧
      d'.dtaskMap = d.dtaskMap ∧ d'.kernel.cprio = d.kernel.cprio

/-- The name in the message leads to no object, or its command is unknown while `nbyte` is
negative as a `ssize_t`: the two ways in which the handler refuses a message by itself. -/
def Dropped (registry : Registry) (w : WriteReplies) (nbyte : UInt64) : Prop :=
  getHandle registry (w.buffer.taskMemory w.beyond) = none ∨
    (EdfCommand.ofCode w.buffer.command = none ∧ nbyte.toInt64 < 0)

/-- What a write that comes to no operation returns is negative just when the message is
dropped. -/
theorem refused_write {registry : Registry} {w : WriteReplies} (nbyte : UInt64) (d : Driver)
    {b : Block} (hb : w.message = some b) (hne : w.copy ≠ efault)
    (hop : writeOp registry w = none) :
    ∃ ret, edfRtdmWriteNrt registry w nbyte d =
        some (ret, (d.log (.malloc (some b))).log (.free (some b))) ∧
      (ret < 0 ↔ Dropped registry w nbyte) := by
  have hrun := edfRtdmWriteNrt_of_no_op nbyte d hb hop
  rw [if_neg hne] at hrun
  by_cases htask : getHandle registry (w.buffer.taskMemory w.beyond) = none
  · rw [if_pos htask] at hrun
    exact ⟨_, hrun, iff_of_true (by decide) (Or.inl htask)⟩
  · rw [if_neg htask] at hrun
    refine ⟨_, hrun, ?_⟩
    have hcommand : EdfCommand.ofCode w.buffer.command = none := by
      obtain ⟨task, htask⟩ := Option.ne_none_iff_exists'.mp htask
      simpa [writeOp, hb, hne, htask] using hop
    simp [Dropped, htask, hcommand]

/-- **When the driver acts on well-formed messages only**: when the message is well formed,
or the handler happens to refuse it. `rtdm_copy_from_user` returns `0` or `-EFAULT`. -/
theorem acts_on_wellFormed_iff {registry : Registry} {w : WriteReplies} {nbyte : UInt64}
    {d : Driver} (hcopy : w.copy = 0 ∨ w.copy = -efault) :
    ActsOnWellFormed registry w nbyte d ↔
      WellFormed registry w nbyte ∨ (w.message ≠ none ∧ Dropped registry w nbyte) := by
  have hne : w.copy ≠ efault := by
    rcases hcopy with h | h <;> rw [h] <;> decide
  by_cases hwf : WellFormed registry w nbyte
  · exact ⟨fun _ => Or.inl hwf, fun _ => ⟨fun _ _ => hwf, fun h => absurd hwf h⟩⟩
  cases hb : w.message with
  | none =>
      -- the handler writes through the null pointer
      refine ⟨fun h => ?_, fun h => ?_⟩
      · obtain ⟨ret, d', hrun, -⟩ := h.refuses hwf
        simp [edfRtdmWriteNrt, hb] at hrun
      · simp [hwf] at h
  | some b =>
      cases hop : writeOp registry w with
      | some op =>
          -- the operation runs although the message is not well formed
          refine ⟨fun h => absurd (h.runs op hop) hwf, ?_⟩
          rintro (h | ⟨-, htask | ⟨hcommand, -⟩⟩)
          · exact absurd h hwf
          · simp [writeOp, htask] at hop
          · simp [writeOp, hcommand] at hop
      | none =>
          obtain ⟨ret, hrun, hneg⟩ := refused_write nbyte d hb hne hop
          rw [or_iff_right hwf]
          constructor
          · intro h
            obtain ⟨ret', d', hrun', hlt, -⟩ := h.refuses hwf
            obtain ⟨rfl, -⟩ := Prod.mk.inj (Option.some.inj (hrun.symm.trans hrun'))
            exact ⟨by simp, hneg.mp hlt⟩
          · rintro ⟨-, hdropped⟩
            refine ⟨fun op hop' => ?_, fun _ => ⟨ret, _, hrun, hneg.mpr hdropped, rfl, rfl⟩⟩
            simp [hop] at hop'

/-- A message copied from user space in full. -/
def copiedWrite : WriteReplies :=
  ⟨some 9, 0, letterMessage .createTask 0 10, [], plainReplies 0 10⟩

theorem acts_on_wellFormed_iff_copied :
    ActsOnWellFormed letterRegistry copiedWrite 40 letterStart.driver :=
  (acts_on_wellFormed_iff (Or.inl rfl)).mpr (Or.inl
    ⟨rfl, by decide, by decide, by decide, ⟨_, rfl, rfl⟩⟩)

/-- The copy fails, and the block that `rtdm_malloc` returned still holds the message of an
earlier request. -/
def failedWrite : WriteReplies := { copiedWrite with copy := -efault }

/-- The driver creates a task that nobody asked for. -/
theorem acts_on_failed_copy :
    ¬ActsOnWellFormed letterRegistry failedWrite 40 letterStart.driver := by
  intro h
  have hop : writeOp letterRegistry failedWrite = some (.create 0 10) := by decide +kernel
  have hcopied := (h.runs _ hop).copied
  exact absurd hcopied (by decide)

end Edfomai
