import Edfomai.Message
import Edfomai.Serial

/-!
# Edfomai.Write

`edf_rtdm_write_nrt` of `edfomai-drv.c`: it copies a message from user space,
resolves the name in it and runs the operation the command selects, under
`edf_data_lock`.

The lock functions set `status` to `0` and never to anything else, and `status` is
what the branches of the switch test; what the operation returned is overwritten
before the test.
-/

namespace Edfomai

/-- `EFAULT`, which the status of the copy is compared with. -/
def efault : Int32 := 14

/-- `_mtx_acquire`: what it returns. -/
def mtxAcquire : Int32 := 0

/-- `_mtx_release`: what it returns. -/
def mtxRelease : Int32 := 0

/-- The command with the given code. -/
def EdfCommand.ofCode (code : UInt32) : Option EdfCommand :=
  [createTask, startTask, resetDeadline, setDeadline, stopWatchd, goingWaitp].find?
    (·.code = code)

theorem EdfCommand.ofCode_code (command : EdfCommand) : ofCode command.code = some command := by
  cases command <;> decide

/-- The operation a branch of the switch runs. -/
def EdfCommand.op (task : RtTask) (deadline : UInt64) : EdfCommand → Op
  | createTask => .create task deadline
  | startTask => .setdeadline task deadline
  | resetDeadline => .resetdeadline task
  | setDeadline => .setdeadline task deadline
  | stopWatchd => .stopwatchdog task
  | goingWaitp => .goingwaitp task

/-- Every command is about the task the message names. -/
@[simp] theorem EdfCommand.op_task (task : RtTask) (deadline : UInt64) (command : EdfCommand) :
    (command.op task deadline).task? = some task := by
  cases command <;> rfl

/-- A branch of the switch: the value of `status` at its end. -/
def serve (r : Replies) (op : Op) (d : Driver) : Option (Int32 × Driver) :=
  if mtxAcquire ≠ 0 then some (mtxAcquire, d)
  else (op.exec r d).map fun res => (mtxRelease, res.2)

/-- What the kernel answers while a message is written. -/
structure WriteReplies where
  /-- `rtdm_malloc` of the message. -/
  message : Option Block
  /-- What `rtdm_copy_from_user` returned … -/
  copy : Int32
  /-- … and what the message holds after it. -/
  buffer : EdfMessage
  /-- The memory after the message. -/
  beyond : List UInt8
  /-- For the operation. -/
  op : Replies

/-- `edf_rtdm_write_nrt`. `nbyte` is only returned. -/
def edfRtdmWriteNrt (registry : Registry) (w : WriteReplies) (nbyte : UInt64) (d : Driver) :
    Option (Int64 × Driver) :=
  match w.message with
  | none => none
  | some b =>
      let d := d.log (.malloc (some b))
      if w.copy = efault then some (-efault.toInt64, d.log (.free (some b)))
      else
        match getHandle registry (w.buffer.taskMemory w.beyond) with
        | none => some (-1, d.log (.free (some b)))
        | some task =>
            match EdfCommand.ofCode w.buffer.command with
            | none => some (nbyte.toInt64, d.log (.free (some b)))
            | some command =>
                (serve w.op (command.op task w.buffer.deadline) d).map fun res =>
                  (if res.1 ≠ 0 then res.1.toInt64 else nbyte.toInt64,
                    res.2.log (.free (some b)))

theorem serve_eq (r : Replies) (op : Op) (d : Driver) :
    serve r op d = (op.exec r d).map fun res => (0, res.2) := rfl

/-- The operation the handler runs, if it comes to one. -/
def writeOp (registry : Registry) (w : WriteReplies) : Option Op :=
  if w.message = none ∨ w.copy = efault then none
  else
    (getHandle registry (w.buffer.taskMemory w.beyond)).bind fun task =>
      (EdfCommand.ofCode w.buffer.command).map fun command => command.op task w.buffer.deadline

/-- A write that comes to an operation has got its message. -/
theorem writeOp_message {registry : Registry} {w : WriteReplies} {op : Op}
    (hop : writeOp registry w = some op) : ∃ b, w.message = some b := by
  refine Option.ne_none_iff_exists'.mp fun hnone => ?_
  simp [writeOp, hnone] at hop

/-- A write that comes to an operation runs it between the allocation and the release of
its message. -/
theorem edfRtdmWriteNrt_of_op {registry : Registry} {w : WriteReplies} {b : Block} {op : Op}
    (nbyte : UInt64) (d : Driver) (hb : w.message = some b) (hop : writeOp registry w = some op) :
    edfRtdmWriteNrt registry w nbyte d =
      (op.exec w.op (d.log (.malloc (some b)))).map fun res =>
        (nbyte.toInt64, res.2.log (.free (some b))) := by
  have hcopy : ¬w.copy = efault := fun h => by simp [writeOp, h] at hop
  simp only [writeOp, hb, hcopy, or_self, if_false, reduceCtorEq] at hop
  obtain ⟨task, htask, hmap⟩ := Option.bind_eq_some_iff.mp hop
  obtain ⟨command, hcommand, rfl⟩ := Option.map_eq_some_iff.mp hmap
  simp only [edfRtdmWriteNrt, hb, if_neg hcopy, htask, hcommand, serve_eq, Option.map_map]
  rfl

/-- Any other write that gets its message only returns a value. -/
theorem edfRtdmWriteNrt_of_no_op {registry : Registry} {w : WriteReplies} {b : Block}
    (nbyte : UInt64) (d : Driver) (hb : w.message = some b) (hop : writeOp registry w = none) :
    edfRtdmWriteNrt registry w nbyte d =
      some (if w.copy = efault then -efault.toInt64
        else if getHandle registry (w.buffer.taskMemory w.beyond) = none then -1
        else nbyte.toInt64, (d.log (.malloc (some b))).log (.free (some b))) := by
  simp only [edfRtdmWriteNrt, hb]
  by_cases hcopy : w.copy = efault
  · rw [if_pos hcopy, if_pos hcopy]
  simp only [writeOp, hb, hcopy, or_self, if_false, reduceCtorEq] at hop
  rw [if_neg hcopy, if_neg hcopy]
  cases htask : getHandle registry (w.buffer.taskMemory w.beyond) with
  | none => rw [if_pos rfl]
  | some task =>
      rw [htask, Option.bind_some, Option.map_eq_none_iff] at hop
      rw [hop, if_neg (by simp)]

/-- A completed write allocated its message, and either ran its operation between the
allocation and the release of the message, or did nothing else. -/
theorem edfRtdmWriteNrt_inv {registry : Registry} {w : WriteReplies} {nbyte : UInt64}
    {d d' : Driver} {ret : Int64} (h : edfRtdmWriteNrt registry w nbyte d = some (ret, d')) :
    ∃ b, w.message = some b ∧
      ((∃ op status d₁, writeOp registry w = some op ∧ ret = nbyte.toInt64 ∧
          op.exec w.op (d.log (.malloc (some b))) = some (status, d₁) ∧
          d' = d₁.log (.free (some b))) ∨
        (writeOp registry w = none ∧
          d' = (d.log (.malloc (some b))).log (.free (some b)))) := by
  cases hb : w.message with
  | none => simp [edfRtdmWriteNrt, hb] at h
  | some b =>
      refine ⟨b, rfl, ?_⟩
      cases hop : writeOp registry w with
      | some op =>
          rw [edfRtdmWriteNrt_of_op nbyte d hb hop] at h
          obtain ⟨⟨status, d₁⟩, hexec, heq⟩ := Option.map_eq_some_iff.mp h
          obtain ⟨rfl, rfl⟩ := Prod.mk.inj heq
          exact Or.inl ⟨op, status, d₁, rfl, rfl, hexec, rfl⟩
      | none =>
          rw [edfRtdmWriteNrt_of_no_op nbyte d hb hop] at h
          exact Or.inr ⟨rfl, (Prod.mk.inj (Option.some.inj h)).2.symm⟩

/-- A message that was copied, with a command and the name of a task, is carried out. -/
theorem edfRtdmWriteNrt_eq_some {registry : Registry} {w : WriteReplies} {nbyte : UInt64}
    {d d' : Driver} {ret : Int64} {task : RtTask} {command : EdfCommand} (hcopy : w.copy = 0)
    (htask : getHandle registry (w.buffer.taskMemory w.beyond) = some task)
    (hcommand : w.buffer.command = command.code)
    (h : edfRtdmWriteNrt registry w nbyte d = some (ret, d')) :
    ∃ status d₁, (command.op task w.buffer.deadline).exec w.op (d.log (.malloc w.message)) =
        some (status, d₁) ∧ d' = d₁.log (.free w.message) := by
  obtain ⟨b, hb, hrun⟩ := edfRtdmWriteNrt_inv h
  have hop : writeOp registry w = some (command.op task w.buffer.deadline) := by
    have hne : ¬w.copy = efault := by rw [hcopy]; decide
    simp [writeOp, hb, hne, htask, hcommand, EdfCommand.ofCode_code]
  rcases hrun with ⟨op, status, d₁, hop', -, hexec, hd⟩ | ⟨hnone, -⟩
  · obtain rfl : op = command.op task w.buffer.deadline := Option.some.inj (hop'.symm.trans hop)
    exact ⟨status, d₁, by rw [hb, hexec], by rw [hb, hd]⟩
  · simp [hop] at hnone

/-! ### Messages to a small site -/

/-- The tasks of `letterSite`, registered. -/
def letterRegistry : Registry :=
  [⟨letterName 0, .task, 0⟩, ⟨letterName 1, .task, 1⟩, ⟨letterName 2, .task, 2⟩]

/-- A message for one of the tasks. -/
def letterMessage (command : EdfCommand) (task : RtTask) (deadline : UInt64) : EdfMessage where
  command := command.code
  task := strncpy (letterName task).chars tnameLen ++ [0]
  taskSize := by rw [List.length_append, length_strncpy, List.length_singleton]
  padding := List.replicate 3 0
  paddingSize := List.length_replicate
  deadline := deadline

end Edfomai
