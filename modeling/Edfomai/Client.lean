import Edfomai.Kernel
import Edfomai.Message
import Edfomai.Write

/-!
# Edfomai.Client

The user library, `edfomai-app.c`: `edf_task_start` and `edf_task_wait_period`, as
the list of calls they make and the value they return.

The comparisons of a copy's result with its destination never fail, and the
library's own mutex functions always return `0`: both are commented down to this in
the source.
-/

namespace Edfomai

/-- The calls of the library that leave it. -/
inductive ClientCall
  /-- `rt_dev_write`. -/
  | rtDevWrite (device : Int32) (message : EdfMessage)
  /-- `rt_task_start`. -/
  | rtTaskStart (task : RtTask)
  /-- `rt_task_wait_period`. -/
  | rtTaskWaitPeriod
  deriving DecidableEq

/-- What the rest of the system answers to the library. -/
structure ClientReplies where
  /-- `rt_task_self`. -/
  self : Option RtTask
  /-- What `rt_task_inquire` returned. -/
  inquire : Int32
  /-- What the last `rt_dev_write` returned. -/
  write : Int32
  /-- What `rt_task_start` returned. -/
  start : Int32
  /-- What the padding of the freshly allocated message holds. -/
  padding : List UInt8
  paddingSize : padding.length = 3

/-- The message both functions fill in: the name is copied with `strncpy` and
terminated. -/
def clientMessage (r : ClientReplies) (command : EdfCommand) (info : RtTaskInfo)
    (deadline : UInt64) : EdfMessage where
  command := command.code
  task := strncpy info.name.chars tnameLen ++ [0]
  taskSize := by simp
  padding := r.padding
  paddingSize := r.paddingSize
  deadline := deadline

/-- `edf_task_start`. -/
def edfTaskStart (r : ClientReplies) (x : Kernel) (device : Int32) (task : RtTask)
    (deadline : UInt64) : Int32 × List ClientCall :=
  if r.inquire ≠ 0 then (-1, [])
  else if device = -1 then (-1, [])
  else
    -- what the write returns is overwritten
    (r.start, [.rtDevWrite device (clientMessage r .createTask (x.rtTaskInquire task) deadline),
      .rtTaskStart task])

/-- `edf_task_wait_period`. The result of waiting is overwritten; the first message
is written even without a device. -/
def edfTaskWaitPeriod (r : ClientReplies) (x : Kernel) (device : Int32) :
    Int32 × List ClientCall :=
  match r.self with
  | none => (-1, [])
  | some task =>
      if r.inquire ≠ 0 then (-1, [])
      else
        let message command := clientMessage r command (x.rtTaskInquire task) deadlineNotSet
        let calls := [.rtDevWrite device (message .stopWatchd), .rtTaskWaitPeriod]
        if device = -1 then (-1, calls)
        else (if r.write ≠ 0 then -1 else 0, calls ++ [.rtDevWrite device (message .resetDeadline)])

/-- The messages a task's calls of the library write. -/
def SentFor (x : Kernel) (task : RtTask) (m : EdfMessage) : Prop :=
  (∃ r device deadline, .rtDevWrite device m ∈ (edfTaskStart r x device task deadline).2) ∨
    ∃ r device, r.self = some task ∧ .rtDevWrite device m ∈ (edfTaskWaitPeriod r x device).2

/-- All of them carry the copied name. -/
theorem SentFor.eq_clientMessage {x : Kernel} {task : RtTask} {m : EdfMessage}
    (h : SentFor x task m) :
    ∃ r command deadline, m = clientMessage r command (x.rtTaskInquire task) deadline := by
  rcases h with ⟨r, device, deadline, hmem⟩ | ⟨r, device, hself, hmem⟩
  · unfold edfTaskStart at hmem
    split_ifs at hmem <;> simp at hmem
    exact ⟨r, .createTask, deadline, hmem⟩
  · simp only [edfTaskWaitPeriod, hself] at hmem
    split_ifs at hmem <;> simp at hmem
    · exact ⟨r, .stopWatchd, deadlineNotSet, hmem⟩
    -- with a device, whatever the second write returns
    all_goals
      rcases hmem with hstop | hreset
      · exact ⟨r, .stopWatchd, deadlineNotSet, hstop⟩
      · exact ⟨r, .resetDeadline, deadlineNotSet, hreset⟩

/-- What the driver reads of the name in such a message. -/
theorem cString_clientMessage (r : ClientReplies) (command : EdfCommand) (info : RtTaskInfo)
    (deadline : UInt64) (beyond : List UInt8) :
    cString ((clientMessage r command info deadline).taskMemory beyond) =
      info.name.chars.take tnameLen := by
  simp only [EdfMessage.taskMemory, clientMessage, List.append_assoc, List.cons_append,
    List.nil_append]
  exact cString_strncpy info.name.noNul _ _

end Edfomai
