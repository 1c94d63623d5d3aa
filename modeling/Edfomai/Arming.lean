import Edfomai.Serial

/-!
# Edfomai.Arming

What a record is armed with: its relative and absolute deadline and its state. A
recalculation leaves this alone for every record (`recalc_armingAt`), and an
operation on a task changes it for no record but the task's own
(`Op.exec_armingAt`).
-/

namespace Edfomai

/-- The part of a record that only operations on its task write. -/
structure Arming where
  relativeDeadline : UInt64
  deadline : UInt64
  state : UInt32
  deriving DecidableEq

/-- What a record is armed with. -/
def RtDtask.arming (r : RtDtask) : Arming := ⟨r.relativeDeadline, r.deadline, r.state⟩

/-- What the record under a name is armed with, if there is one. -/
def Driver.armingAt (k : TaskName) (d : Driver) : Option Arming :=
  (d.dtaskMap.lookup k).map RtDtask.arming

@[simp] theorem armingAt_log (k : TaskName) (e : Event) (d : Driver) :
    (d.log e).armingAt k = d.armingAt k := rfl

theorem armingAt_adjust_ne {k k' : TaskName} (f : RtDtask → RtDtask) (d : Driver) (h : k ≠ k') :
    (d.adjust k' f).armingAt k = d.armingAt k := by
  rw [Driver.armingAt, Driver.adjust_dtaskMap, Table.lookup_adjust_ne f _ h, Driver.armingAt]

/-- A recalculation changes no arming. -/
@[simp] theorem recalc_armingAt (k : TaskName) (t : UInt64) (d : Driver) :
    (rtDtaskRecalculateprio t d).armingAt k = d.armingAt k := by
  rw [Driver.armingAt, recalc_lookup, Option.map_map, Driver.armingAt]
  congr 1
  funext r
  simp [RtDtask.arming]

theorem goingwaitp_armingAt {r : Replies} {task : RtTask} {d d' : Driver} {ret : Int32}
    {k : TaskName} (h : rtDtaskGoingwaitp r task d = some (ret, d'))
    (hk : k ≠ d.kernel.name task) : d'.armingAt k = d.armingAt k := by
  obtain ⟨b, -, ⟨rec, -, -, rfl⟩ | ⟨-, -, rfl⟩⟩ := goingwaitp_inv h
  · exact armingAt_adjust_ne _ (d.log (.malloc (some b))) hk
  · rfl

/-- **An operation on a task arms no other record.** -/
theorem Op.exec_armingAt {op : Op} {r : Replies} {task : RtTask} {d d' : Driver} {ret : Int32}
    {k : TaskName} (hd : d.Named) (htask : op.task? = some task)
    (h : op.exec r d = some (ret, d')) (hk : k ≠ d.kernel.name task) :
    d'.armingAt k = d.armingAt k := by
  cases op with
  | create task' D =>
      obtain rfl := Option.some.inj htask
      obtain ⟨b, d₁, -, hinsert, rfl⟩ := create_inv h
      rw [recalc_armingAt]
      rcases insertDtask_inv hinsert with ⟨-, -, -, rfl⟩ | ⟨-, -, rfl⟩
      · exact congrArg (Option.map RtDtask.arming) (Table.lookup_add_ne _ _ hk)
      · rfl
  | setdeadline task' D =>
      obtain rfl := Option.some.inj htask
      obtain ⟨b, -, ⟨rec, -, -, rfl⟩ | ⟨-, -, rfl⟩⟩ := setdeadline_inv h
      · rw [recalc_armingAt]
        exact armingAt_adjust_ne _ (d.log (.malloc (some b))) hk
      · rfl
  | resetdeadline task' =>
      obtain rfl := Option.some.inj htask
      obtain ⟨b, -, ⟨rec, -, -, rfl⟩ | ⟨-, -, rfl⟩⟩ := resetdeadline_inv h
      · rw [armingAt_log, recalc_armingAt]
        exact armingAt_adjust_ne _ (d.log (.malloc (some b))) hk
      · rfl
  | goingwaitp task' =>
      obtain rfl := Option.some.inj htask
      exact goingwaitp_armingAt h hk
  | stopwatchdog task' =>
      obtain rfl := Option.some.inj htask
      obtain ⟨b, -, ⟨rec, ret₁, d₁, hrec, -, hnested, rfl⟩ | ⟨-, -, rfl⟩⟩ := stopwatchdog_inv h
      · -- the nested operation works on the task stored in the record
        have hk' : k ≠ (d.log (.malloc (some b))).kernel.name rec.task := by
          rw [Driver.log_kernel, Kernel.log_name, hd _ _ hrec]
          exact hk
        calc (d₁.log (.free (some b))).armingAt k
          _ = d₁.armingAt k := armingAt_log ..
          _ = (d.log (.malloc (some b))).armingAt k := goingwaitp_armingAt hnested hk'
          _ = d.armingAt k := armingAt_log ..
      · rfl
  | delete task' =>
      obtain rfl := Option.some.inj htask
      obtain ⟨b, -, ⟨rec, -, -, rfl⟩ | ⟨-, -, rfl⟩⟩ := delete_inv h
      · exact congrArg (Option.map RtDtask.arming) (AList.lookup_erase_ne hk)
      · rfl
  | recalculateprio => simp [Op.task?] at htask

end Edfomai
