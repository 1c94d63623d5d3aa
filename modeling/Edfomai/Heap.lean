import Edfomai.Elements
import Edfomai.Requests

/-!
# Edfomai.Heap

The functions of `edfomai-drv-data.c` once more, and `edf_rtdm_write_nrt` and the hook that call
them, on the memory that `uthash` keeps: `dtask_map`
is a pointer, records are found by following the links of a bucket and visited by following
those of `HASH_ITER`, and a record is a block that `rtdm_malloc` has returned and `rtdm_free`
takes back.

What the functions do to one record is taken from `Edfomai.Driver`. What they do to the table
is not: nothing in this module mentions `Table`. A load or a store through a pointer to a
block that is not allocated makes the result `none`, as a `NULL` does.
-/

namespace Edfomai

/-- The driver as it is in memory. `dtaskMap.links.live` says which `RT_DTASK` blocks are
allocated. -/
structure HeapDriver where
  dtaskMap : UtHash Block
  /-- The member `dtask` of the block at an address. -/
  dtask : Block → RtDeadlineTask
  kernel : Kernel

namespace HeapDriver

/-- Log a call of the driver. -/
def log (e : Event) (c : HeapDriver) : HeapDriver := { c with kernel := c.kernel.log e }

/-- The bytes `hh.key` leads to: `HASH_ADD_STR` is given the name in the record itself. -/
def key (c : HeapDriver) (p : Block) : List UInt8 := (c.dtask p).taskInfo.name.chars

/-! ### Memory -/

/-- Read a record. -/
def load (p : Block) (c : HeapDriver) : Option RtDtask :=
  if c.dtaskMap.links.live p then some ⟨c.dtask p, p⟩ else none

/-- Write a record. -/
def store (p : Block) (r : RtDeadlineTask) (c : HeapDriver) : Option HeapDriver :=
  if c.dtaskMap.links.live p then some { c with dtask := Function.update c.dtask p r } else none

/-- `rtdm_malloc` returns a block for a record. -/
def alloc (p : Block) (c : HeapDriver) : HeapDriver :=
  { c with dtaskMap := { c.dtaskMap with links := c.dtaskMap.links.alloc p } }.log
    (.malloc (some p))

/-- `rtdm_free` of a record. -/
def free (p : Block) (c : HeapDriver) : Option HeapDriver :=
  if c.dtaskMap.links.live p then
    some ({ c with dtaskMap := { c.dtaskMap with links := c.dtaskMap.links.free p } }.log
      (.free (some p)))
  else none

/-- Rewrite a record. -/
def adjust (p : Block) (f : RtDtask → RtDtask) (c : HeapDriver) : Option HeapDriver := do
  let r ← c.load p
  c.store p (f r).toRtDeadlineTask

section Uthash

variable (hashFcn : List UInt8 → UInt32)

/-- `HASH_FIND_STR` in `dtask_map`. -/
def find (name : TaskName) (c : HeapDriver) : Option (Option Block) :=
  c.dtaskMap.hashFindStr hashFcn c.key name.chars

/-- `HASH_ADD_STR` to `dtask_map`. -/
def add (mem : Bool) (p : Block) (c : HeapDriver) : Option HeapDriver :=
  (c.dtaskMap.hashAddStr hashFcn c.key mem p).map fun map => { c with dtaskMap := map }

/-- `HASH_DEL` from `dtask_map`. -/
def delete (p : Block) (c : HeapDriver) : Option HeapDriver :=
  (c.dtaskMap.hashDelete p).map fun map => { c with dtaskMap := map }

/-! ### `rt_dtask_recalculateprio` -/

/-- One round of a pass. -/
def passBody {σ : Type} (body : TaskName → σ → RtDtask → σ × RtDtask) (rtdtask : Block)
    (s : σ × HeapDriver) : Option (σ × HeapDriver) := do
  let r ← s.2.load rtdtask
  let res := body r.taskInfo.name s.1 r
  (s.2.store rtdtask res.2.toRtDeadlineTask).map fun c => (res.1, c)

/-- A pass: `HASH_ITER` with a body that rewrites the record it is at. -/
def pass {σ : Type} (body : TaskName → σ → RtDtask → σ × RtDtask) (a : σ) (c : HeapDriver) :
    Option (σ × HeapDriver) :=
  UtHash.hashIter (fun s : σ × HeapDriver => s.2.dtaskMap) (passBody body) (a, c)

/-- `rt_dtask_recalculateprio`. -/
def rtDtaskRecalculateprio (currTime : UInt64) (c : HeapDriver) : Option HeapDriver := do
  let count ← c.dtaskMap.hashCount
  if count = 0 then some c
  else
    let x := c.kernel.log (.recalculated currTime)
    let (m, c) ← pass (firstPassBody x currTime) .start c
    let (x, c) ← pass (secondPassBody currTime m) x c
    some { c with kernel := x }

/-! ### The operations -/

/-- Allocate the buffer, inquire, `HASH_FIND_STR`, and run `found` on the record if
there is one. -/
def withTaskInfo (r : Replies) (task : RtTask) (c : HeapDriver)
    (found : Block → HeapDriver → Option HeapDriver) : Option (Int32 × HeapDriver) :=
  match r.block with
  | none => none
  | some b => do
      let c := c.log (.malloc (some b))
      let info := c.kernel.rtTaskInquire task
      match ← c.find hashFcn info.name with
      | some rtdtask => (found rtdtask c).map fun c => (0, c)
      | none => some (-1, c)

/-- `rtdm_free(task_info)` at the end of an operation. -/
def freeTaskInfo (r : Replies) (res : Int32 × HeapDriver) : Int32 × HeapDriver :=
  (res.1, res.2.log (.free r.block))

/-- `rt_dtask_goingwaitp`. -/
def rtDtaskGoingwaitp (r : Replies) (task : RtTask) (c : HeapDriver) :
    Option (Int32 × HeapDriver) :=
  (withTaskInfo hashFcn r task c fun rtdtask c =>
    c.adjust rtdtask fun rec => { rec with state := EdfCommand.goingWaitp.code }).map
    (freeTaskInfo r)

/-- `rt_dtask_stopwatchdog`. -/
def rtDtaskStopwatchdog (r : Replies) (task : RtTask) (c : HeapDriver) :
    Option (Int32 × HeapDriver) :=
  (withTaskInfo hashFcn r task c fun rtdtask c => do
    let rec ← c.load rtdtask
    (rtDtaskGoingwaitp hashFcn { r with block := r.nested } rec.task c).map Prod.snd).map
    (freeTaskInfo r)

/-- `rt_dtask_resetdeadline`. -/
def rtDtaskResetdeadline (r : Replies) (task : RtTask) (c : HeapDriver) :
    Option (Int32 × HeapDriver) :=
  (withTaskInfo hashFcn r task c fun rtdtask c => do
    let rec ← c.load rtdtask
    let c ← c.adjust rtdtask (RtDtask.rearm r.armClock)
    let c := c.log (.armed rec.taskInfo.name r.armClock rec.relativeDeadline)
    rtDtaskRecalculateprio r.recalcClock c).map
    (freeTaskInfo r)

/-- `rt_dtask_setdeadline`. -/
def rtDtaskSetdeadline (r : Replies) (task : RtTask) (newdeadline : UInt64) (c : HeapDriver) :
    Option (Int32 × HeapDriver) :=
  withTaskInfo hashFcn r task c fun rtdtask c => do
    let rec ← c.load rtdtask
    let c ← c.adjust rtdtask fun rec =>
      RtDtask.rearm r.armClock { rec with relativeDeadline := newdeadline }
    let c := c.log (.armed rec.taskInfo.name r.armClock newdeadline)
    rtDtaskRecalculateprio r.recalcClock c

/-- `rt_dtask_create` up to its recalculation. -/
def insertDtask (r : Replies) (b : Block) (task : RtTask) (deadline : UInt64) (c : HeapDriver) :
    Option (Int32 × HeapDriver) := do
  let c := (c.alloc b).log (.malloc r.watchd)
  let info := c.kernel.rtTaskInquire task
  let c ← c.store b (newDtask r b task deadline info).toRtDeadlineTask
  match ← c.find hashFcn info.name with
  | none =>
      let c ← c.add hashFcn r.table b
      some (0, c.log (.armed info.name r.armClock deadline))
  | some _ => (c.free b).map fun c => (-1, c)

/-- `rt_dtask_create`. -/
def rtDtaskCreate (r : Replies) (task : RtTask) (deadline : UInt64) (c : HeapDriver) :
    Option (Int32 × HeapDriver) :=
  match r.block with
  | none => none
  | some b => do
      let res ← insertDtask hashFcn r b task deadline c
      (rtDtaskRecalculateprio r.recalcClock res.2).map fun c => (res.1, c)

/-- `HASH_DEL`, `clear_dtask` and `rtdm_free`, as `rt_dtask_delete` and `rt_dtask_dispose` do
them. -/
def remove (rtdtask : Block) (c : HeapDriver) : Option HeapDriver := do
  let c ← c.delete rtdtask
  let rec ← c.load rtdtask
  (c.log (.free rec.watchd)).free rtdtask

/-- `rt_dtask_delete`. -/
def rtDtaskDelete (r : Replies) (task : RtTask) (c : HeapDriver) : Option (Int32 × HeapDriver) :=
  (withTaskInfo hashFcn r task c remove).map (freeTaskInfo r)

/-- `rt_dtask_init`: only the pointer is set. -/
def rtDtaskInit (x : Kernel) : HeapDriver where
  dtaskMap :=
    { head := none
      tbl := none
      links := ⟨fun _ => false, fun _ _ => none⟩
      keylen := fun _ => 0
      hashv := fun _ => 0 }
  dtask := fun _ =>
    ⟨0, 0, 0, .ok, 0, 0, none, ⟨.empty, 0⟩⟩
  kernel := x

/-- `rt_dtask_dispose`. -/
def rtDtaskDispose (c : HeapDriver) : Option HeapDriver :=
  UtHash.hashIter HeapDriver.dtaskMap remove c

/-- Run an operation. -/
def exec (r : Replies) : Op → HeapDriver → Option (Int32 × HeapDriver)
  | .create task deadline, c => rtDtaskCreate hashFcn r task deadline c
  | .setdeadline task newdeadline, c => rtDtaskSetdeadline hashFcn r task newdeadline c
  | .resetdeadline task, c => rtDtaskResetdeadline hashFcn r task c
  | .goingwaitp task, c => rtDtaskGoingwaitp hashFcn r task c
  | .stopwatchdog task, c => rtDtaskStopwatchdog hashFcn r task c
  | .delete task, c => rtDtaskDelete hashFcn r task c
  | .recalculateprio, c => (rtDtaskRecalculateprio r.recalcClock c).map fun c => (0, c)

/-! ### The callers -/

/-- A branch of the switch of `edf_rtdm_write_nrt`. -/
def serve (r : Replies) (op : Op) (c : HeapDriver) : Option (Int32 × HeapDriver) :=
  if mtxAcquire ≠ 0 then some (mtxAcquire, c)
  else (exec hashFcn r op c).map fun res => (mtxRelease, res.2)

/-- `edf_rtdm_write_nrt`. -/
def edfRtdmWriteNrt (registry : Registry) (w : WriteReplies) (nbyte : UInt64) (c : HeapDriver) :
    Option (Int64 × HeapDriver) :=
  match w.message with
  | none => none
  | some b =>
      let c := c.log (.malloc (some b))
      if w.copy = efault then some (-efault.toInt64, c.log (.free (some b)))
      else
        match getHandle registry (w.buffer.taskMemory w.beyond) with
        | none => some (-1, c.log (.free (some b)))
        | some task =>
            match EdfCommand.ofCode w.buffer.command with
            | none => some (nbyte.toInt64, c.log (.free (some b)))
            | some command =>
                (serve hashFcn w.op (command.op task w.buffer.deadline) c).map fun res =>
                  (if res.1 ≠ 0 then res.1.toInt64 else nbyte.toInt64,
                    res.2.log (.free (some b)))

/-- Handle a call. -/
def handle : Call → HeapDriver → Option HeapDriver
  | .write registry w nbyte, c => (edfRtdmWriteNrt hashFcn registry w nbyte c).map Prod.snd
  | .deleteHook task r, c => (rtDtaskDelete hashFcn r task c).map Prod.snd
  | .service currTime, c => rtDtaskRecalculateprio currTime c
  | .dispose, c => rtDtaskDispose c

end Uthash

end HeapDriver

end Edfomai
