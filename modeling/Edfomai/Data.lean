import Mathlib.Data.List.Basic
import Mathlib.Tactic.NormNum

/-!
# Edfomai.Data

The data of the driver: the constants, enumerations and structures of
`edfomai-data.h` and `edfomai-drv-data.h`, and the few Xenomai types they rest on.

Two points of the C declarations matter later and are kept:

* `state` is declared with the enumeration `TaskState`, but the driver also
  stores a value of `EDFCommand` in it. Enumeration values are therefore given
  as their codes, and the field holds a code.
* `DEADLINENOTSET` is the `int` `-1`; compared with an `unsigned long long` it is
  the largest 64-bit value.
-/

namespace Edfomai

/-! ### Xenomai's names and handles -/

/-- `XNOBJECT_NAME_LEN`: the size of a name buffer, its NUL included. -/
def xnobjectNameLen : Nat := 32

/-- A task name as Xenomai stores it: a C string that fits its buffer. -/
structure TaskName where
  chars : List UInt8
  /-- The string ends at its first NUL. -/
  noNul : 0 ∉ chars
  /-- The terminator still fits. -/
  short : chars.length < xnobjectNameLen
  deriving DecidableEq

@[ext] theorem TaskName.ext {n n' : TaskName} (h : n.chars = n'.chars) : n = n' := by
  cases n; cases n'; cases h; rfl

/-- The empty name. -/
def TaskName.empty : TaskName := ⟨[], List.not_mem_nil, by decide⟩

/-- An `RT_TASK *`: the address of a task descriptor. -/
abbrev RtTask := Nat

/-- The address of a block obtained with `rtdm_malloc`. -/
abbrev Block := Nat

/-- The fields of `RT_TASK_INFO` that the driver reads. -/
structure RtTaskInfo where
  name : TaskName
  cprio : Int32
  deriving DecidableEq

/-! ### `edfomai-data.h` -/

/-- `TNAME_LEN`. -/
def tnameLen : Nat := 24

/-- `DEADLINENOTSET`, as the `unsigned long long` it is compared as. -/
def deadlineNotSet : UInt64 := -1

/-- `EDFCommand`. -/
inductive EdfCommand
  | createTask
  | startTask
  | resetDeadline
  | setDeadline
  | stopWatchd
  | goingWaitp
  deriving DecidableEq, Repr

/-- The value the C enumeration gives a command. -/
def EdfCommand.code : EdfCommand → UInt32
  | createTask => 0
  | startTask => 1
  | resetDeadline => 2
  | setDeadline => 3
  | stopWatchd => 4
  | goingWaitp => 5

/-! ### `edfomai-drv-data.h` -/

/-- `TaskState`. -/
inductive TaskState
  | running
  | waitingPeriod
  deriving DecidableEq, Repr

/-- The value the C enumeration gives a task state. -/
def TaskState.code : TaskState → UInt32
  | running => 0
  | waitingPeriod => 1

/-- `DeadlineState`. -/
inductive DeadlineState
  | ok
  | missed
  deriving DecidableEq, Repr

/-- `RT_DEADLINE_TASK`. -/
structure RtDeadlineTask where
  deadline : UInt64
  remain : UInt64
  relativeDeadline : UInt64
  status : DeadlineState
  /-- A code: see the module documentation. -/
  state : UInt32
  task : RtTask
  /-- `NULL` when `init_dtask` could not allocate it. -/
  watchd : Option Block
  taskInfo : RtTaskInfo
  deriving DecidableEq

/-- `RT_DTASK`: the record and where `rtdm_malloc` put it. Its hash handle `hh` is
the record's place in `dtask_map`. -/
structure RtDtask extends RtDeadlineTask where
  addr : Block
  deriving DecidableEq

/-- The test both passes of `rt_dtask_recalculateprio` make: a deadline is set and
the task is running. -/
def RtDtask.Active (r : RtDtask) : Prop :=
  r.relativeDeadline ≠ deadlineNotSet ∧ r.state = TaskState.running.code

instance (r : RtDtask) : Decidable r.Active := by unfold RtDtask.Active; infer_instance

/-- The remaining time the first pass stores: `0` once the deadline has passed. -/
def remainAt (deadline currTime : UInt64) : UInt64 :=
  if deadline > currTime then deadline - currTime else 0

theorem remainAt_toNat (d t : UInt64) : (remainAt d t).toNat = d.toNat - t.toNat := by
  unfold remainAt
  split
  · next h => exact UInt64.toNat_sub_of_le _ _ (UInt64.le_of_lt h)
  · next h =>
    have := UInt64.le_iff_toNat_le.mp (UInt64.not_lt.mp h)
    simp only [UInt64.toNat_zero]
    omega

theorem remainAt_eq_zero {d t : UInt64} : remainAt d t = 0 ↔ d ≤ t := by
  rw [← UInt64.toNat_inj, remainAt_toNat, UInt64.le_iff_toNat_le, UInt64.toNat_zero]
  omega

/-- Later deadlines leave more time. -/
theorem remainAt_mono {d d' : UInt64} (t : UInt64) (h : d ≤ d') :
    remainAt d t ≤ remainAt d' t := by
  rw [UInt64.le_iff_toNat_le] at h ⊢
  rw [remainAt_toNat, remainAt_toNat]
  omega

/-- Time only consumes the remaining time. -/
theorem remainAt_anti (d : UInt64) {t t' : UInt64} (h : t ≤ t') :
    remainAt d t' ≤ remainAt d t := by
  rw [UInt64.le_iff_toNat_le] at h ⊢
  rw [remainAt_toNat, remainAt_toNat]
  omega

/-- At the time of arming no more than the relative deadline remains, also when
the sum that makes the absolute deadline wraps. -/
theorem remainAt_add_le (t D : UInt64) : remainAt (t + D) t ≤ D := by
  have hD := D.toNat_lt
  have ht := t.toNat_lt
  rw [UInt64.le_iff_toNat_le, remainAt_toNat, UInt64.toNat_add]
  omega

end Edfomai
