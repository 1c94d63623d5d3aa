import Edfomai.Kernel
import Edfomai.Prio
import Edfomai.Lib.Table

/-!
# Edfomai.Driver

The data-structure half of the driver, `edfomai-drv-data.c`: the table `dtask_map`
of deadline tasks, the recalculation of the priorities, and the operations that
the write handler and the delete hook run.

* `dtask_map` is a `uthash` table keyed by the task's name; `HASH_ITER` visits it in
  insertion order. `Table` has exactly this behaviour.
* Everything the kernel answers while an operation runs (clock readings,
  addresses of allocated blocks) is collected in a `Replies` record, so operations
  are functions.
* The result is `none` when the operation dereferences a `NULL` block; no operation
  checks the result of `rtdm_malloc`.
-/

namespace Edfomai

/-- The driver's state: `dtask_map`, and Xenomai. -/
structure Driver where
  dtaskMap : Table TaskName RtDtask
  kernel : Kernel

namespace Driver

/-- Log a call of the driver. -/
def log (e : Event) (d : Driver) : Driver := { d with kernel := d.kernel.log e }

/-- Rewrite one record in place. -/
def adjust (k : TaskName) (f : RtDtask → RtDtask) (d : Driver) : Driver :=
  { d with dtaskMap := d.dtaskMap.adjust k f }

@[simp] theorem log_dtaskMap (e : Event) (d : Driver) : (d.log e).dtaskMap = d.dtaskMap := rfl
@[simp] theorem log_kernel (e : Event) (d : Driver) : (d.log e).kernel = d.kernel.log e := rfl
@[simp] theorem adjust_dtaskMap (k : TaskName) (f : RtDtask → RtDtask) (d : Driver) :
    (d.adjust k f).dtaskMap = d.dtaskMap.adjust k f := rfl
@[simp] theorem adjust_kernel (k : TaskName) (f : RtDtask → RtDtask) (d : Driver) :
    (d.adjust k f).kernel = d.kernel := rfl

end Driver

/-- What the kernel answers while one operation runs. An operation that does not
ask leaves the answer unused. -/
structure Replies where
  /-- `rt_timer_read` in an operation that arms a record. -/
  armClock : UInt64
  /-- `rt_timer_read` in `rt_dtask_recalculateprio`. -/
  recalcClock : UInt64
  /-- `rtdm_malloc` of the operation's own block: the record that
  `rt_dtask_create` makes, the `RT_TASK_INFO` buffer of the others. -/
  block : Option Block
  /-- `rtdm_malloc` in `init_dtask`. -/
  watchd : Option Block
  /-- `rtdm_malloc` of the buffer of the nested `rt_dtask_goingwaitp`. -/
  nested : Option Block
  /-- Whether `HASH_ADD_STR` got the memory it may ask for. -/
  table : Bool
  deriving DecidableEq

/-! ### `rt_dtask_recalculateprio` -/

/-- `min_remain` and `max_remain`. -/
structure Extremes where
  minRemain : UInt64
  maxRemain : UInt64
  deriving DecidableEq

/-- Their values before the first pass. -/
def Extremes.start : Extremes := ⟨0xffffffffffffffff, 0⟩

/-- One round of the first `HASH_ITER`. -/
def firstPassBody (x : Kernel) (currTime : UInt64) (_ : TaskName) (m : Extremes) (r : RtDtask) :
    Extremes × RtDtask :=
  if r.Active then
    let remain := remainAt r.deadline currTime
    ({ minRemain := if remain < m.minRemain then remain else m.minRemain
       maxRemain := if remain > m.maxRemain then remain else m.maxRemain },
     { r with remain := remain, taskInfo := x.rtTaskInquire r.task })
  else (m, r)

/-- The test of the second pass: active and not yet missed. -/
def RtDtask.Judged (r : RtDtask) : Prop :=
  r.relativeDeadline ≠ deadlineNotSet ∧ r.status = .ok ∧ r.state = TaskState.running.code

instance (r : RtDtask) : Decidable r.Judged := by unfold RtDtask.Judged; infer_instance

/-- One round of the second `HASH_ITER`. `newprio` is unsigned in the source, so the
comparison with the cached `cprio` is one of unsigned numbers. -/
def secondPassBody (currTime : UInt64) (m : Extremes) (k : TaskName) (x : Kernel) (r : RtDtask) :
    Kernel × RtDtask :=
  if r.Judged then
    let (x, r) :=
      if r.remain = 0 then
        (x.log (.deadlineMissed k r.task currTime), { r with status := .missed })
      else (x, r)
    let newprio := calculatePrio r.remain m.minRemain m.maxRemain
    (if newprio.toUInt32 ≠ r.taskInfo.cprio.toUInt32 then x.rtTaskSetPriority r.task newprio else x,
      r)
  else (x, r)

/-- `rt_dtask_recalculateprio`, which always returns `0`. An empty table is not even
worth a clock reading. -/
def rtDtaskRecalculateprio (currTime : UInt64) (d : Driver) : Driver :=
  if d.dtaskMap.keys.length = 0 then d
  else
    let x := d.kernel.log (.recalculated currTime)
    let first := Table.thread (firstPassBody x currTime) .start d.dtaskMap
    let second := Table.thread (secondPassBody currTime first.1) x first.2
    ⟨second.2, second.1⟩

/-! ### The operations

All but `rt_dtask_create` begin alike: they allocate a buffer, fill it with
`rt_task_inquire` and look the name up. -/

/-- Allocate the buffer, inquire, `HASH_FIND_STR`, and run `found` on the record if
there is one. -/
def withTaskInfo (r : Replies) (task : RtTask) (d : Driver)
    (found : TaskName → RtDtask → Driver → Option Driver) : Option (Int32 × Driver) :=
  match r.block with
  | none => none
  | some b =>
      let d := d.log (.malloc (some b))
      let info := d.kernel.rtTaskInquire task
      match d.dtaskMap.lookup info.name with
      | some rtdtask => (found info.name rtdtask d).map fun d => (0, d)
      | none => some (-1, d)

/-- `rtdm_free(task_info)` at the end of an operation. -/
def freeTaskInfo (r : Replies) (res : Int32 × Driver) : Int32 × Driver :=
  (res.1, res.2.log (.free r.block))

/-- `rt_dtask_goingwaitp`. The value stored in `state` belongs to `EDFCommand`. -/
def rtDtaskGoingwaitp (r : Replies) (task : RtTask) (d : Driver) : Option (Int32 × Driver) :=
  (withTaskInfo r task d fun k _ d =>
    some (d.adjust k fun rec => { rec with state := EdfCommand.goingWaitp.code })).map
    (freeTaskInfo r)

/-- `rt_dtask_stopwatchdog`. What the nested operation returns is ignored. -/
def rtDtaskStopwatchdog (r : Replies) (task : RtTask) (d : Driver) : Option (Int32 × Driver) :=
  (withTaskInfo r task d fun _ rtdtask d =>
    (rtDtaskGoingwaitp { r with block := r.nested } rtdtask.task d).map Prod.snd).map
    (freeTaskInfo r)

/-- The assignments by which `rt_dtask_resetdeadline` and `rt_dtask_setdeadline` arm a
record. -/
def RtDtask.rearm (clock : UInt64) (r : RtDtask) : RtDtask :=
  { r with
    deadline := clock + r.relativeDeadline
    remain := r.relativeDeadline
    status := .ok
    state := TaskState.running.code }

/-- `rt_dtask_resetdeadline`. -/
def rtDtaskResetdeadline (r : Replies) (task : RtTask) (d : Driver) : Option (Int32 × Driver) :=
  (withTaskInfo r task d fun k rtdtask d =>
    let d := d.adjust k (RtDtask.rearm r.armClock)
    let d := d.log (.armed k r.armClock rtdtask.relativeDeadline)
    some (rtDtaskRecalculateprio r.recalcClock d)).map
    (freeTaskInfo r)

/-- `rt_dtask_setdeadline`. The buffer is not freed on any path. -/
def rtDtaskSetdeadline (r : Replies) (task : RtTask) (newdeadline : UInt64) (d : Driver) :
    Option (Int32 × Driver) :=
  withTaskInfo r task d fun k _ d =>
    let d := d.adjust k fun rec =>
      RtDtask.rearm r.armClock { rec with relativeDeadline := newdeadline }
    let d := d.log (.armed k r.armClock newdeadline)
    some (rtDtaskRecalculateprio r.recalcClock d)

/-- The record `rt_dtask_create` fills in, `init_dtask` included. -/
def newDtask (r : Replies) (b : Block) (task : RtTask) (deadline : UInt64) (info : RtTaskInfo) :
    RtDtask where
  deadline := r.armClock + deadline
  remain := deadline
  relativeDeadline := deadline
  status := .ok
  state := TaskState.running.code
  task := task
  watchd := r.watchd
  taskInfo := info
  addr := b

/-- `rt_dtask_create` up to its recalculation: the new record is added unless the
name is taken, in which case the record is freed again but its `watchd` is not. -/
def insertDtask (r : Replies) (b : Block) (task : RtTask) (deadline : UInt64) (d : Driver) :
    Option (Int32 × Driver) :=
  let d := (d.log (.malloc (some b))).log (.malloc r.watchd)
  let info := d.kernel.rtTaskInquire task
  let rtdtask := newDtask r b task deadline info
  match d.dtaskMap.lookup info.name with
  | none =>
      if r.table then
        let d := { d with dtaskMap := d.dtaskMap.add info.name rtdtask }
        some (0, d.log (.armed info.name r.armClock deadline))
      else none
  | some _ => some (-1, d.log (.free (some b)))

/-- `rt_dtask_create`. -/
def rtDtaskCreate (r : Replies) (task : RtTask) (deadline : UInt64) (d : Driver) :
    Option (Int32 × Driver) :=
  match r.block with
  | none => none
  | some b =>
      (insertDtask r b task deadline d).map fun res =>
        (res.1, rtDtaskRecalculateprio r.recalcClock res.2)

/-- `rt_dtask_delete`: `HASH_DEL`, then the watchdog's block and the record's. -/
def rtDtaskDelete (r : Replies) (task : RtTask) (d : Driver) : Option (Int32 × Driver) :=
  (withTaskInfo r task d fun k rtdtask d =>
    let d := { d with dtaskMap := d.dtaskMap.erase k }
    some ((d.log (.free rtdtask.watchd)).log (.free (some rtdtask.addr)))).map
    (freeTaskInfo r)

/-- `rt_dtask_init`. -/
def rtDtaskInit (x : Kernel) : Driver := ⟨∅, x⟩

/-! ### What an operation can do

One lemma for each operation. Proofs about operations begin with these and unfold
nothing. -/

section Spec

variable {r : Replies} {task : RtTask} {d d' : Driver} {ret : Int32}

/-- An operation that completes got its buffer, and either ran on the record under
the task's name or found none. -/
theorem withTaskInfo_inv {found : TaskName → RtDtask → Driver → Option Driver}
    (h : withTaskInfo r task d found = some (ret, d')) :
    ∃ b, r.block = some b ∧
      ((∃ rec, d.dtaskMap.lookup (d.kernel.name task) = some rec ∧ ret = 0 ∧
          found (d.kernel.name task) rec (d.log (.malloc (some b))) = some d') ∨
        (d.dtaskMap.lookup (d.kernel.name task) = none ∧ ret = -1 ∧
          d' = d.log (.malloc (some b)))) := by
  unfold withTaskInfo at h
  cases hb : r.block with
  | none => simp [hb] at h
  | some b =>
      refine ⟨b, rfl, ?_⟩
      simp only [hb, Driver.log_dtaskMap, Driver.log_kernel, Kernel.rtTaskInquire_log] at h
      change (match d.dtaskMap.lookup (d.kernel.name task) with
        | some rec => _
        | none => _) = _ at h
      cases hl : d.dtaskMap.lookup (d.kernel.name task) with
      | none =>
          rw [hl] at h
          obtain ⟨rfl, rfl⟩ := Prod.mk.inj (Option.some.inj h)
          exact Or.inr ⟨rfl, rfl, rfl⟩
      | some rec =>
          rw [hl] at h
          obtain ⟨d₁, hfound, hd₁⟩ := Option.map_eq_some_iff.mp h
          obtain ⟨rfl, rfl⟩ := Prod.mk.inj hd₁
          exact Or.inl ⟨rec, rfl, rfl, hfound⟩

/-- The same for an operation that frees its buffer at the end. -/
theorem freed_inv {found : TaskName → RtDtask → Driver → Option Driver}
    (h : (withTaskInfo r task d found).map (freeTaskInfo r) = some (ret, d')) :
    ∃ b, r.block = some b ∧
      ((∃ rec d₁, d.dtaskMap.lookup (d.kernel.name task) = some rec ∧ ret = 0 ∧
          found (d.kernel.name task) rec (d.log (.malloc (some b))) = some d₁ ∧
          d' = d₁.log (.free (some b))) ∨
        (d.dtaskMap.lookup (d.kernel.name task) = none ∧ ret = -1 ∧
          d' = (d.log (.malloc (some b))).log (.free (some b)))) := by
  obtain ⟨res, hres, heq⟩ := Option.map_eq_some_iff.mp h
  obtain ⟨rfl, rfl⟩ := Prod.mk.inj heq
  obtain ⟨b, hb, ⟨rec, hrec, hret, hfound⟩ | ⟨hnone, hret, hd⟩⟩ := withTaskInfo_inv hres
  · exact ⟨b, hb, Or.inl ⟨rec, res.2, hrec, hret, hfound, by rw [hb]⟩⟩
  · exact ⟨b, hb, Or.inr ⟨hnone, hret, by rw [hb, hd]⟩⟩

theorem goingwaitp_inv (h : rtDtaskGoingwaitp r task d = some (ret, d')) :
    ∃ b, r.block = some b ∧
      ((∃ rec, d.dtaskMap.lookup (d.kernel.name task) = some rec ∧ ret = 0 ∧
          d' = ((d.log (.malloc (some b))).adjust (d.kernel.name task) fun rec =>
            { rec with state := EdfCommand.goingWaitp.code }).log (.free (some b))) ∨
        (d.dtaskMap.lookup (d.kernel.name task) = none ∧ ret = -1 ∧
          d' = (d.log (.malloc (some b))).log (.free (some b)))) := by
  obtain ⟨b, hb, ⟨rec, d₁, hrec, hret, hfound, hd⟩ | hnone⟩ := freed_inv h
  · exact ⟨b, hb, Or.inl ⟨rec, hrec, hret, by rw [hd, ← Option.some.inj hfound]⟩⟩
  · exact ⟨b, hb, Or.inr hnone⟩

theorem stopwatchdog_inv (h : rtDtaskStopwatchdog r task d = some (ret, d')) :
    ∃ b, r.block = some b ∧
      ((∃ rec ret₁ d₁, d.dtaskMap.lookup (d.kernel.name task) = some rec ∧ ret = 0 ∧
          rtDtaskGoingwaitp { r with block := r.nested } rec.task (d.log (.malloc (some b))) =
            some (ret₁, d₁) ∧ d' = d₁.log (.free (some b))) ∨
        (d.dtaskMap.lookup (d.kernel.name task) = none ∧ ret = -1 ∧
          d' = (d.log (.malloc (some b))).log (.free (some b)))) := by
  obtain ⟨b, hb, ⟨rec, d₁, hrec, hret, hfound, hd⟩ | hnone⟩ := freed_inv h
  · obtain ⟨⟨ret₁, d₂⟩, hnested, rfl⟩ := Option.map_eq_some_iff.mp hfound
    exact ⟨b, hb, Or.inl ⟨rec, ret₁, d₂, hrec, hret, hnested, hd⟩⟩
  · exact ⟨b, hb, Or.inr hnone⟩

theorem resetdeadline_inv (h : rtDtaskResetdeadline r task d = some (ret, d')) :
    ∃ b, r.block = some b ∧
      ((∃ rec, d.dtaskMap.lookup (d.kernel.name task) = some rec ∧ ret = 0 ∧
          d' = (rtDtaskRecalculateprio r.recalcClock
            (((d.log (.malloc (some b))).adjust (d.kernel.name task)
              (RtDtask.rearm r.armClock)).log
              (.armed (d.kernel.name task) r.armClock rec.relativeDeadline))).log
            (.free (some b))) ∨
        (d.dtaskMap.lookup (d.kernel.name task) = none ∧ ret = -1 ∧
          d' = (d.log (.malloc (some b))).log (.free (some b)))) := by
  obtain ⟨b, hb, ⟨rec, d₁, hrec, hret, hfound, hd⟩ | hnone⟩ := freed_inv h
  · exact ⟨b, hb, Or.inl ⟨rec, hrec, hret, by rw [hd, ← Option.some.inj hfound]⟩⟩
  · exact ⟨b, hb, Or.inr hnone⟩

theorem setdeadline_inv {newdeadline : UInt64}
    (h : rtDtaskSetdeadline r task newdeadline d = some (ret, d')) :
    ∃ b, r.block = some b ∧
      ((∃ rec, d.dtaskMap.lookup (d.kernel.name task) = some rec ∧ ret = 0 ∧
          d' = rtDtaskRecalculateprio r.recalcClock
            (((d.log (.malloc (some b))).adjust (d.kernel.name task) fun rec =>
              RtDtask.rearm r.armClock { rec with relativeDeadline := newdeadline }).log
              (.armed (d.kernel.name task) r.armClock newdeadline))) ∨
        (d.dtaskMap.lookup (d.kernel.name task) = none ∧ ret = -1 ∧
          d' = d.log (.malloc (some b)))) := by
  obtain ⟨b, hb, ⟨rec, hrec, hret, hfound⟩ | hnone⟩ := withTaskInfo_inv h
  · exact ⟨b, hb, Or.inl ⟨rec, hrec, hret, (Option.some.inj hfound).symm⟩⟩
  · exact ⟨b, hb, Or.inr hnone⟩

theorem insertDtask_inv {b : Block} {deadline : UInt64}
    (h : insertDtask r b task deadline d = some (ret, d')) :
    (d.dtaskMap.lookup (d.kernel.name task) = none ∧ r.table = true ∧ ret = 0 ∧
        d' = { (d.log (.malloc (some b))).log (.malloc r.watchd) with
          dtaskMap := d.dtaskMap.add (d.kernel.name task)
            (newDtask r b task deadline (d.kernel.rtTaskInquire task)) }.log
          (.armed (d.kernel.name task) r.armClock deadline)) ∨
      ((∃ rec, d.dtaskMap.lookup (d.kernel.name task) = some rec) ∧ ret = -1 ∧
        d' = ((d.log (.malloc (some b))).log (.malloc r.watchd)).log (.free (some b))) := by
  simp only [insertDtask, Driver.log_dtaskMap, Driver.log_kernel, Kernel.rtTaskInquire_log] at h
  split at h
  · next hnone =>
    split at h
    · next htable =>
      obtain ⟨rfl, rfl⟩ := Prod.mk.inj (Option.some.inj h)
      exact Or.inl ⟨hnone, htable, rfl, rfl⟩
    · exact absurd h (by simp)
  · next rec hrec =>
    obtain ⟨rfl, rfl⟩ := Prod.mk.inj (Option.some.inj h)
    exact Or.inr ⟨⟨rec, hrec⟩, rfl, rfl⟩

theorem create_inv {deadline : UInt64} (h : rtDtaskCreate r task deadline d = some (ret, d')) :
    ∃ b d₁, r.block = some b ∧ insertDtask r b task deadline d = some (ret, d₁) ∧
      d' = rtDtaskRecalculateprio r.recalcClock d₁ := by
  unfold rtDtaskCreate at h
  split at h
  · exact absurd h (by simp)
  · next b hb =>
    obtain ⟨⟨ret₁, d₁⟩, hinsert, heq⟩ := Option.map_eq_some_iff.mp h
    obtain ⟨rfl, rfl⟩ := Prod.mk.inj heq
    exact ⟨b, d₁, hb, hinsert, rfl⟩

theorem delete_inv (h : rtDtaskDelete r task d = some (ret, d')) :
    ∃ b, r.block = some b ∧
      ((∃ rec, d.dtaskMap.lookup (d.kernel.name task) = some rec ∧ ret = 0 ∧
          d' = (({ d.log (.malloc (some b)) with
            dtaskMap := d.dtaskMap.erase (d.kernel.name task) }.log (.free rec.watchd)).log
              (.free (some rec.addr))).log (.free (some b))) ∨
        (d.dtaskMap.lookup (d.kernel.name task) = none ∧ ret = -1 ∧
          d' = (d.log (.malloc (some b))).log (.free (some b)))) := by
  obtain ⟨b, hb, ⟨rec, d₁, hrec, hret, hfound, hd⟩ | hnone⟩ := freed_inv h
  · exact ⟨b, hb, Or.inl ⟨rec, hrec, hret, by rw [hd, ← Option.some.inj hfound]; rfl⟩⟩
  · exact ⟨b, hb, Or.inr hnone⟩

end Spec

end Edfomai
