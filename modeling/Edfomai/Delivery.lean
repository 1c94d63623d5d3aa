import Edfomai.Arming
import Edfomai.Client

/-!
# Edfomai.Delivery

Whether a request reaches the task it is about. The name of a task travels from
`rt_task_inquire` in the client through the 24 characters of a message to
`xnregistry_bind` in the driver, and from the task found there back to
`rt_task_inquire` and the table. `delivered_iff` shows that the whole way works
precisely for names that the copy does not cut off.
-/

namespace Edfomai

/-- The message reaches the task: the driver resolves its name to the task and to no
other, what it carries out is the command on this task, and no other record is armed
by it. -/
structure Delivered (registry : Registry) (d : Driver) (task : RtTask) (m : EdfMessage) :
    Prop where
  resolved : ∀ beyond, getHandle registry (m.taskMemory beyond) = some task
  applied : ∀ (w : WriteReplies) nbyte ret d', w.copy = 0 → w.buffer = m →
    edfRtdmWriteNrt registry w nbyte d = some (ret, d') →
      ∃ (command : EdfCommand) (status : Int32) (d₁ : Driver), command.code = m.command ∧
        (command.op task m.deadline).exec w.op (d.log (.malloc w.message)) = some (status, d₁) ∧
          d' = d₁.log (.free w.message)
  others : ∀ (w : WriteReplies) nbyte ret d', w.copy = 0 → w.buffer = m →
    edfRtdmWriteNrt registry w nbyte d = some (ret, d') →
      ∀ k, k ≠ d.kernel.name task → d'.armingAt k = d.armingAt k

/-- A message the driver resolves to the task is delivered. -/
theorem delivered_of_resolved {registry : Registry} {d : Driver} {task : RtTask}
    {m : EdfMessage} {command : EdfCommand} (hd : d.Named) (hcommand : m.command = command.code)
    (hresolved : ∀ beyond, getHandle registry (m.taskMemory beyond) = some task) :
    Delivered registry d task m := by
  have hexec : ∀ (w : WriteReplies) nbyte ret d', w.copy = 0 → w.buffer = m →
      edfRtdmWriteNrt registry w nbyte d = some (ret, d') →
        ∃ status d₁, (command.op task m.deadline).exec w.op (d.log (.malloc w.message)) =
          some (status, d₁) ∧ d' = d₁.log (.free w.message) := by
    rintro w nbyte ret d' hcopy rfl hwrite
    exact edfRtdmWriteNrt_eq_some hcopy (hresolved w.beyond) hcommand hwrite
  constructor
  case resolved => exact hresolved
  case applied =>
    intro w nbyte ret d' hcopy hbuffer hwrite
    obtain ⟨status, d₁, hop, hd'⟩ := hexec w nbyte ret d' hcopy hbuffer hwrite
    exact ⟨command, status, d₁, hcommand.symm, hop, hd'⟩
  case others =>
    intro w nbyte ret d' hcopy hbuffer hwrite k hk
    obtain ⟨status, d₁, hop, rfl⟩ := hexec w nbyte ret d' hcopy hbuffer hwrite
    rw [armingAt_log, Op.exec_armingAt (d := d.log (.malloc w.message)) hd
      (EdfCommand.op_task ..) hop hk, armingAt_log]

/-- The driver reads the first 24 characters of the task's name. -/
theorem SentFor.cString_taskMemory {x : Kernel} {task : RtTask} {m : EdfMessage}
    (h : SentFor x task m) (beyond : List UInt8) :
    cString (m.taskMemory beyond) = (x.name task).chars.take tnameLen := by
  obtain ⟨r, command, deadline, rfl⟩ := h.eq_clientMessage
  exact cString_clientMessage r command (x.rtTaskInquire task) deadline beyond

/-- **Which requests arrive.** A message that the library sends for a registered task
is delivered to it if and only if the task's name has at most `TNAME_LEN`
characters. -/
theorem delivered_iff {registry : Registry} {d : Driver} {task : RtTask} {m : EdfMessage}
    (hreg : registry.OfTasks d.kernel.name) (hd : d.Named)
    (htask : registry.HasTask (d.kernel.name task) task) (hm : SentFor d.kernel task m) :
    Delivered registry d task m ↔ (d.kernel.name task).chars.length ≤ tnameLen := by
  constructor
  · intro h
    obtain ⟨o, ho, hkey, hdesc⟩ := getHandle_eq_some (h.resolved [])
    rw [hreg.named o ho, hdesc, hm.cString_taskMemory] at hkey
    rw [hkey]
    exact List.length_take_le ..
  · intro hlen
    obtain ⟨r, command, deadline, heq⟩ := hm.eq_clientMessage
    have hcommand : m.command = command.code := by rw [heq, clientMessage]
    refine delivered_of_resolved hd hcommand fun beyond => ?_
    refine getHandle_of_mem hreg.distinct htask ?_
    rw [hm.cString_taskMemory, List.take_of_length_le hlen]

/-! ### Two names with a common beginning -/

/-- Task 0 has a name of 25 letters, task 1 the first 24 of them. -/
def longName : RtTask → TaskName
  | 0 => ⟨List.replicate 25 97, by decide, by decide⟩
  | _ => ⟨List.replicate 24 97, by decide, by decide⟩

/-- Both tasks are registered. -/
def longRegistry : Registry := [⟨longName 0, .task, 0⟩, ⟨longName 1, .task, 1⟩]

/-- The driver before any request. -/
def longDriver : Driver := rtDtaskInit ⟨longName, fun _ => 25, []⟩

/-- What the library sends for `edf_task_start` with deadline 10. -/
def longStart (task : RtTask) : EdfMessage :=
  clientMessage ⟨some task, 0, 0, 0, [0, 0, 0], rfl⟩ .createTask
    (longDriver.kernel.rtTaskInquire task) 10

theorem longStart_sentFor (task : RtTask) : SentFor longDriver.kernel task (longStart task) :=
  Or.inl ⟨⟨some task, 0, 0, 0, [0, 0, 0], rfl⟩, 3, 10, by simp [edfTaskStart, longStart]⟩

theorem longRegistry_ofTasks : longRegistry.OfTasks longDriver.kernel.name where
  distinct := by decide
  tasks := by decide
  named := by decide

/-- The name of task 1 just fits. -/
theorem delivered_iff_short : Delivered longRegistry longDriver 1 (longStart 1) ↔
    (longDriver.kernel.name 1).chars.length ≤ tnameLen :=
  delivered_iff longRegistry_ofTasks (fun _ _ h => by simp [longDriver, rtDtaskInit] at h)
    (by simp [longRegistry, Registry.HasTask, longDriver, rtDtaskInit]) (longStart_sentFor 1)

/-- The `CREATE_TASK` of task 0 is resolved to task 1. -/
theorem long_name_reaches_other_task :
    longRegistry.OfTasks longDriver.kernel.name ∧
      longRegistry.HasTask (longDriver.kernel.name 0) 0 ∧
      SentFor longDriver.kernel 0 (longStart 0) ∧
      getHandle longRegistry ((longStart 0).taskMemory []) = some 1 :=
  ⟨longRegistry_ofTasks, by simp [longRegistry, Registry.HasTask, longDriver, rtDtaskInit],
    longStart_sentFor 0, by decide +kernel⟩

end Edfomai
