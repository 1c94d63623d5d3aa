import Edfomai.LifeCycle
import Edfomai.Start

/-!
# Edfomai.Sessions

**The library and the driver together.** Any number of tasks call `edf_task_start` and
`edf_task_wait_period`, each of which writes messages in between other calls; the driver handles
the messages one after the other, and between them deletion hooks and rounds of the service.
Tasks come and go meanwhile.

A task that is inside a function of the library is kept with the calls that the function still has
to make, which are those of `edfTaskStart` and `edfTaskWaitPeriod`. `started` and `released` follow
the tasks, not the driver: when a task has been started, with which deadline, and when it was last
let go. `InStep` says that the driver knows exactly this, and `sessions_in_step` that it does as
long as the messages get through.
-/

namespace Edfomai

/-- What a task does in the library, with the calls it still has to make. -/
inductive Activity
  /-- In `edf_task_start`. -/
  | starting (task : RtTask) (deadline : UInt64) (calls : List ClientCall)
  /-- In `edf_task_wait_period`. -/
  | waiting (calls : List ClientCall)

namespace Activity

/-- The calls that are left; nothing is left to do for a task outside the library. -/
def calls : Activity → List ClientCall
  | starting _ _ calls | waiting calls => calls

/-- The next call has returned. -/
def advance : Activity → Activity
  | starting task deadline calls => starting task deadline calls.tail
  | waiting calls => waiting calls.tail

/-- The message that it is about to write. -/
def message? (a : Activity) : Option EdfMessage :=
  match a.calls with
  | .rtDevWrite _ m :: _ => some m
  | _ => none

/-- The task that it starts. -/
def starts? : Activity → Option RtTask
  | starting task _ _ => some task
  | waiting _ => none

/-- The first message of `edf_task_wait_period` has been written, and the second has not. -/
def stopped : Activity → Bool
  | starting _ _ _ => false
  | waiting calls => decide (calls.length = 1 ∨ calls.length = 2)

end Activity

/-- The tasks and the driver. -/
structure Sessions where
  registry : Registry
  driver : Driver
  /-- The last clock value that the driver has been given. -/
  clock : UInt64
  activity : RtTask → Activity
  /-- The deadline that a task under EDF was started with. -/
  started : RtTask → Option UInt64
  /-- The clock value at which it was last let go. -/
  released : RtTask → UInt64

/-- What happens. -/
inductive SessionStep
  /-- A task calls `edf_task_start`. -/
  | taskStart (self : RtTask) (r : ClientReplies) (task : RtTask) (deadline : UInt64)
  /-- A task calls `edf_task_wait_period`. -/
  | waitPeriod (self : RtTask) (r : ClientReplies)
  /-- The driver handles the message that a task writes. -/
  | write (self : RtTask) (w : WriteReplies)
  /-- Another call of a task returns. -/
  | returns (self : RtTask)
  /-- A task is created, which registers it under its name. -/
  | spawn (task : RtTask)
  /-- A task is deleted, and its hook called. -/
  | delete (task : RtTask) (r : Replies)
  /-- A round of the service. -/
  | service (currTime : UInt64)

namespace Sessions

/-- The task is registered. -/
def Live (s : Sessions) (task : RtTask) : Prop := ∃ o ∈ s.registry, o.desc = task

instance (s : Sessions) (task : RtTask) : Decidable (s.Live task) :=
  inferInstanceAs (Decidable (∃ o ∈ s.registry, o.desc = task))

/-- A task does something else. -/
def become (self : RtTask) (a : Activity) (s : Sessions) : Sessions :=
  { s with activity := Function.update s.activity self a }

/-- What the message that a task writes is to mean: the start of a task that has not been started,
or the end of a wait. -/
def meant (self : RtTask) (clock : UInt64) (s : Sessions) : Sessions :=
  match s.activity self with
  | .starting task deadline _ =>
      if s.Live task ∧ s.started task = none then
        { s with
          started := Function.update s.started task (some deadline)
          released := Function.update s.released task clock }
      else s
  | .waiting calls =>
      if calls.length = 1 then { s with released := Function.update s.released self clock } else s

/-- One step. -/
def exec (device : Int32) (s : Sessions) : SessionStep → Option Sessions
  | .taskStart self r task deadline =>
      if (s.activity self).calls = [] then
        some (s.become self (.starting task deadline
          (edfTaskStart r s.driver.kernel device task deadline).2))
      else none
  | .waitPeriod self r =>
      if (s.activity self).calls = [] ∧ s.Live self ∧ r.self = some self then
        some (s.become self (.waiting (edfTaskWaitPeriod r s.driver.kernel device).2))
      else none
  | .write self w =>
      if (s.activity self).message?.isSome then
        (edfRtdmWriteNrt s.registry w (UInt64.ofNat sizeofEdfMessage) s.driver).map fun res =>
          { (s.meant self w.op.armClock).become self (s.activity self).advance with
            driver := res.2
            clock := w.op.recalcClock }
      else none
  | .returns self =>
      match (s.activity self).calls with
      | .rtTaskStart _ :: _ | .rtTaskWaitPeriod :: _ =>
          some (s.become self (s.activity self).advance)
      | _ => none
  | .spawn task =>
      if s.Live task then none
      else some { s with registry := s.registry ++ [⟨s.driver.kernel.name task, .task, task⟩] }
  | .delete task r =>
      if s.Live task then
        (rtDtaskDelete r task s.driver).map fun res =>
          { s.become task (.waiting []) with
            registry := s.registry.filter fun o => o.desc ≠ task
            driver := res.2
            clock := r.recalcClock
            started := Function.update s.started task none }
      else none
  | .service currTime =>
      some { s with driver := rtDtaskRecalculateprio currTime s.driver, clock := currTime }

/-- Tasks of the site are created and started, and what is copied is the message that the task
writes. -/
def Valid (site : Site) (s : Sessions) : SessionStep → Prop
  | .taskStart _ _ task _ | .spawn task => task ∈ site.tasks
  | .write self w => ∀ m ∈ (s.activity self).message?, w.copy = 0 → w.buffer = m
  | _ => True

instance (site : Site) [DecidablePred (· ∈ site.tasks)] (s : Sessions) (l : SessionStep) :
    Decidable (s.Valid site l) := by
  cases l <;> unfold Valid <;> infer_instance

/-- The condition: messages get through, and no task waits that has yet to be started. -/
def Heard (s : Sessions) : SessionStep → Prop
  | .write self w => w.copy = 0 ∧ ∀ task ∈ (s.activity self).starts?,
      s.started task = none → (s.activity task).stopped = false
  | _ => True

instance (s : Sessions) (l : SessionStep) : Decidable (s.Heard l) := by
  cases l <;> unfold Heard <;> infer_instance

/-- The driver is in step with the tasks: a task that has been started has a record with its
deadline, counted from when it was last let go, which waits while the task does; another task has
no record. -/
def InStep (site : Site) (s : Sessions) : Prop :=
  ∀ task ∈ site.tasks, s.driver.armingAt (site.name task) =
    (s.started task).map fun deadline =>
      ⟨deadline, s.released task + deadline, codeOf (s.activity task).stopped⟩

/-- The module has just been loaded, and no task uses the library. -/
structure Init (site : Site) (s : Sessions) : Prop where
  registry : s.registry.OfTasks site.name
  tasks : ∀ task, s.Live task → task ∈ site.tasks
  driver : ∃ x : Kernel, x.name = site.name ∧ x.history = [] ∧ s.driver = rtDtaskInit x
  activity : ∀ self, (s.activity self).calls = []
  started : ∀ task, s.started task = none

end Sessions

/-- The sessions of the tasks of a site, with the device that `edf_init` has opened. -/
def sessions (site : Site) (device : Int32) : TransitionSystem Sessions SessionStep where
  init := Sessions.Init site
  step s l s' := s.Valid site l ∧ s.exec device l = some s'

/-- Tasks may leave. -/
theorem Registry.OfTasks.sublist {registry registry' : Registry} {name : RtTask → TaskName}
    (h : registry.OfTasks name) (hsub : registry'.Sublist registry) : registry'.OfTasks name where
  distinct := h.distinct.sublist (hsub.map _)
  tasks o ho := h.tasks o (hsub.subset ho)
  named o ho := h.named o (hsub.subset ho)

/-! ### Messages -/

/-- A message about a task, as the library writes it. -/
def Says (name : RtTask → TaskName) (command : EdfCommand) (task : RtTask) (deadline : UInt64)
    (m : EdfMessage) : Prop :=
  ∃ r info, info.name = name task ∧ m = clientMessage r command info deadline

namespace Sessions

variable {site : Site} {s s' : Sessions} {device : Int32} {self task : RtTask} {D : UInt64}
  {command : EdfCommand} {m : EdfMessage} {w : WriteReplies}

/-- What is registered are tasks of the site, under their names, and the records are kept under
these. -/
structure Named (site : Site) (s : Sessions) : Prop where
  driver : s.driver.NamedBy site.name
  registry : s.registry.OfTasks site.name
  tasks : ∀ task, s.Live task → task ∈ site.tasks

/-- The driver resolves the name in a message to the task the message is about, if this is
registered. -/
theorem Named.writeOp (h : s.Named site) (htask : task ∈ site.tasks)
    (hshort : (site.name task).chars.length ≤ tnameLen)
    (hm : Says site.name command task D w.buffer) (hcopy : w.copy = 0)
    {b : Block} (hb : w.message = some b) :
    Edfomai.writeOp s.registry w = if s.Live task then some (command.op task D) else none := by
  obtain ⟨r, info, hname, hbuffer⟩ := hm
  have hread : cString (w.buffer.taskMemory w.beyond) = (site.name task).chars := by
    rw [hbuffer, cString_clientMessage, hname, List.take_of_length_le hshort]
  have hcommand : EdfCommand.ofCode w.buffer.command = some command := by
    rw [hbuffer]
    exact EdfCommand.ofCode_code command
  have hdeadline : w.buffer.deadline = D := by rw [hbuffer]; rfl
  have hne : ¬w.copy = efault := by rw [hcopy]; decide
  have hget : getHandle s.registry (w.buffer.taskMemory w.beyond) =
      if s.Live task then some task else none := by
    split
    · next hlive =>
      obtain ⟨o, ho, rfl⟩ := hlive
      exact getHandle_of_mem h.registry.distinct ho (by rw [hread, h.registry.named o ho])
    · next hdead =>
      by_contra hsome
      obtain ⟨task', htask'⟩ := Option.ne_none_iff_exists'.mp hsome
      obtain ⟨o, ho, hkey, rfl⟩ := getHandle_eq_some htask'
      rw [hread, h.registry.named o ho] at hkey
      have hsame : o.desc = task :=
        site.distinct (h.tasks _ ⟨o, ho, rfl⟩) htask (TaskName.ext hkey)
      exact hdead ⟨o, ho, hsame⟩
  simp only [Edfomai.writeOp, hb, hne, or_self, reduceCtorEq, if_false, hget, hcommand, hdeadline,
    Option.map_some]
  split <;> rfl

/-- **What a message does** to the armings of the tasks of the site. -/
theorem Named.write (h : s.Named site) (htask : task ∈ site.tasks)
    (hshort : (site.name task).chars.length ≤ tnameLen)
    (hm : Says site.name command task D w.buffer) (hcopy : w.copy = 0) {nbyte : UInt64}
    {ret : Int64} {d' : Driver}
    (hwrite : edfRtdmWriteNrt s.registry w nbyte s.driver = some (ret, d')) :
    d'.NamedBy site.name ∧ ∀ task' ∈ site.tasks, d'.armingAt (site.name task') =
      if s.Live task ∧ task' = task then
        (command.op task D).arm w.op.armClock (s.driver.armingAt (site.name task'))
      else s.driver.armingAt (site.name task') := by
  have hexec : (Call.write s.registry w nbyte).exec s.driver = some d' := by
    rw [Call.exec, hwrite]
    rfl
  obtain ⟨b, hb, -⟩ := edfRtdmWriteNrt_inv hwrite
  refine ⟨Call.exec_named h.driver hexec, fun task' htask' => ?_⟩
  rw [Call.exec_armUnder h.driver.named (by simp) hexec, h.driver.name_eq, Call.armUnder,
    Call.request?, h.writeOp htask hshort hm hcopy hb]
  by_cases hlive : s.Live task
  · have hname : site.name task = site.name task' ↔ task' = task :=
      ⟨fun heq => (site.distinct htask htask' heq).symm, fun heq => heq ▸ rfl⟩
    simp only [hlive, if_true, Option.map_some, EdfCommand.op_task, Option.some_inj, hname,
      true_and]
  · simp [hlive]

/-! ### The invariant -/

/-- Where a task can be in a function of the library. -/
inductive InLibrary (site : Site) (live : RtTask → Prop) (self : RtTask) : Activity → Prop
  | outside {a : Activity} : a.calls = [] → InLibrary site live self a
  | create {task : RtTask} {D : UInt64} {device : Int32} {m : EdfMessage} : task ∈ site.tasks →
      Says site.name .createTask task D m →
      InLibrary site live self (.starting task D [.rtDevWrite device m, .rtTaskStart task])
  | start {task : RtTask} {D : UInt64} :
      InLibrary site live self (.starting task D [.rtTaskStart task])
  | stop {device : Int32} {m m' : EdfMessage} : live self →
      Says site.name .stopWatchd self deadlineNotSet m →
      Says site.name .resetDeadline self deadlineNotSet m' →
      InLibrary site live self
        (.waiting [.rtDevWrite device m, .rtTaskWaitPeriod, .rtDevWrite device m'])
  | wait {device : Int32} {m' : EdfMessage} : live self →
      Says site.name .resetDeadline self deadlineNotSet m' →
      InLibrary site live self (.waiting [.rtTaskWaitPeriod, .rtDevWrite device m'])
  | reset {device : Int32} {m' : EdfMessage} : live self →
      Says site.name .resetDeadline self deadlineNotSet m' →
      InLibrary site live self (.waiting [.rtDevWrite device m'])

theorem InLibrary.mono {live live' : RtTask → Prop} {a : Activity}
    (h : InLibrary site live self a) (hlive : live self → live' self) :
    InLibrary site live' self a := by
  cases h with
  | outside h => exact .outside h
  | create htask hm => exact .create htask hm
  | start => exact .start
  | stop hl hm hm' => exact .stop (hlive hl) hm hm'
  | wait hl hm' => exact .wait (hlive hl) hm'
  | reset hl hm' => exact .reset (hlive hl) hm'

theorem stopped_of_nil {a : Activity} (h : a.calls = []) : a.stopped = false := by
  cases a with
  | starting task D calls => rfl
  | waiting calls =>
      obtain rfl : calls = [] := h
      rfl

/-- The invariant. -/
structure Inv (site : Site) (s : Sessions) : Prop where
  named : s.Named site
  activity : ∀ self, InLibrary site s.Live self (s.activity self)
  inStep : s.InStep site

/-- A step of one task that registers nobody keeps the invariant if it keeps the driver in step. -/
theorem Inv.turn {s₁ : Sessions} {a : Activity} {d' : Driver} {clock : UInt64} (h : Inv site s)
    (hregistry : s₁.registry = s.registry) (hactivity : s₁.activity = s.activity)
    (ha : InLibrary site s.Live self a) (hd : d'.NamedBy site.name)
    (hstep : InStep site { s₁.become self a with driver := d', clock := clock }) :
    Inv site { s₁.become self a with driver := d', clock := clock } where
  named := ⟨hd, hregistry ▸ h.named.registry,
    fun task htask => h.named.tasks task (by simpa [Live, Sessions.become, hregistry] using htask)⟩
  activity task := by
    have hlive : Live { s₁.become self a with driver := d', clock := clock } = s.Live := by
      funext task
      simp [Live, Sessions.become, hregistry]
    rw [hlive]
    show InLibrary site s.Live task (Function.update s₁.activity self a task)
    rw [hactivity]
    rcases eq_or_ne task self with rfl | hne
    · rwa [Function.update_self]
    · rw [Function.update_of_ne hne]
      exact h.activity task
  inStep := hstep

/-- Who waits, when one task does something else. -/
theorem update_stopped {activity : RtTask → Activity} {a : Activity} :
    (Function.update activity self a task).stopped =
      if task = self then a.stopped else (activity task).stopped := by
  rcases eq_or_ne task self with rfl | hne
  · rw [Function.update_self, if_pos rfl]
  · rw [Function.update_of_ne hne, if_neg hne]

/-- It does not change who waits as long as the task does not. -/
theorem update_stopped_eq {activity : RtTask → Activity} {a : Activity}
    (h : a.stopped = (activity self).stopped) :
    (Function.update activity self a task).stopped = (activity task).stopped := by
  rw [update_stopped]
  split
  · next heq => rw [h, heq]
  · rfl

/-- A task goes on, without stopping or being let go. -/
theorem Inv.become {a : Activity} (h : Inv site s) (ha : InLibrary site s.Live self a)
    (hstopped : a.stopped = (s.activity self).stopped) : Inv site (s.become self a) := by
  refine h.turn rfl rfl ha h.named.driver fun task htask => ?_
  show _ = (s.started task).map fun D => (⟨D, s.released task + D,
    codeOf (Function.update s.activity self a task).stopped⟩ : Arming)
  rw [update_stopped_eq hstopped]
  exact h.inStep task htask

/-- `edf_task_start` begins with its message. -/
theorem taskStart_inLibrary {r : ClientReplies} {x : Kernel} (hname : x.name = site.name)
    (htask : task ∈ site.tasks) :
    InLibrary site s.Live self (.starting task D (edfTaskStart r x device task D).2) := by
  unfold edfTaskStart
  split
  · exact .outside rfl
  · split
    · exact .outside rfl
    · exact .create htask ⟨r, x.rtTaskInquire task, by rw [← hname]; rfl, rfl⟩

/-- So does `edf_task_wait_period`. -/
theorem waitPeriod_inLibrary {r : ClientReplies} {x : Kernel} (hname : x.name = site.name)
    (hself : r.self = some self) (hlive : s.Live self) (hdevice : device ≠ -1) :
    InLibrary site s.Live self (.waiting (edfTaskWaitPeriod r x device).2) ∧
      (Activity.waiting (edfTaskWaitPeriod r x device).2).stopped = false := by
  have hinfo : (x.rtTaskInquire self).name = site.name self := by rw [← hname]; rfl
  unfold edfTaskWaitPeriod
  rw [hself]
  by_cases hinquire : r.inquire = 0
  · simp only [hinquire, ne_eq, not_true_eq_false, if_false, hdevice]
    exact ⟨.stop hlive ⟨r, _, hinfo, rfl⟩ ⟨r, _, hinfo, rfl⟩, rfl⟩
  · simp only [ne_eq, hinquire, not_false_eq_true, if_true]
    exact ⟨.outside rfl, rfl⟩

/-- What a message is to mean concerns neither what is registered nor what the tasks do. -/
@[simp] theorem meant_registry (clock : UInt64) : (s.meant self clock).registry = s.registry := by
  unfold meant
  split <;> split <;> rfl

@[simp] theorem meant_activity (clock : UInt64) : (s.meant self clock).activity = s.activity := by
  unfold meant
  split <;> split <;> rfl

/-! ### One lemma for each step -/

section Step

variable {ret : Int64} {nbyte : UInt64} {d' : Driver} {m' : EdfMessage}
  {rest : List ClientCall}

/-- The message of `edf_task_start`. -/
theorem Inv.create (h : Inv site s) (hshort : ∀ task ∈ site.tasks,
      (site.name task).chars.length ≤ tnameLen)
    (hcalls : s.activity self = .starting task D [.rtDevWrite device m, .rtTaskStart task])
    (htask : task ∈ site.tasks) (hm : Says site.name .createTask task D w.buffer)
    (hcopy : w.copy = 0) (hstopped : s.started task = none → (s.activity task).stopped = false)
    (hwrite : edfRtdmWriteNrt s.registry w nbyte s.driver = some (ret, d')) :
    Inv site { (s.meant self w.op.armClock).become self
      (.starting task D [.rtTaskStart task]) with
        driver := d'
        clock := w.op.recalcClock } := by
  obtain ⟨hnamed, harm⟩ := h.named.write htask (hshort task htask) hm hcopy hwrite
  refine h.turn (meant_registry _) (meant_activity _) .start hnamed fun task' htask' => ?_
  have hsame : (Function.update s.activity self (.starting task D [.rtTaskStart task])
      task').stopped = (s.activity task').stopped := update_stopped_eq (by rw [hcalls]; rfl)
  show d'.armingAt (site.name task') = ((s.meant self w.op.armClock).started task').map
    fun D' => (⟨D', (s.meant self w.op.armClock).released task' + D',
      codeOf (Function.update (s.meant self w.op.armClock).activity self _ task').stopped⟩ :
        Arming)
  rw [meant_activity, hsame, harm task' htask', h.inStep task' htask']
  by_cases hnew : s.Live task ∧ s.started task = none
  · have hmeant : s.meant self w.op.armClock = { s with
        started := Function.update s.started task (some D)
        released := Function.update s.released task w.op.armClock } := by
      rw [meant, hcalls]
      exact if_pos hnew
    rw [hmeant]
    by_cases heq : task' = task
    · subst heq
      simp only [hnew, and_self, if_true, Option.map_none, Function.update_self, Option.map_some,
        hstopped hnew.2]
      rfl
    · simp only [heq, and_false, if_false, ne_eq, not_false_eq_true, Function.update_of_ne]
  · have hmeant : s.meant self w.op.armClock = s := by
      rw [meant, hcalls]
      exact if_neg hnew
    rw [hmeant]
    split
    · next hboth =>
      obtain ⟨hlive, rfl⟩ := hboth
      -- it has been started before
      obtain ⟨D', hD'⟩ := Option.ne_none_iff_exists'.mp fun hnone => hnew ⟨hlive, hnone⟩
      rw [hD']
      rfl
    · rfl

/-- The first message of `edf_task_wait_period`. -/
theorem Inv.stop (h : Inv site s) (hshort : ∀ task ∈ site.tasks,
      (site.name task).chars.length ≤ tnameLen)
    (hcalls : s.activity self =
      .waiting [.rtDevWrite device m, .rtTaskWaitPeriod, .rtDevWrite device m'])
    (hlive : s.Live self) (hm : Says site.name .stopWatchd self deadlineNotSet w.buffer)
    (hm' : Says site.name .resetDeadline self deadlineNotSet m') (hcopy : w.copy = 0)
    (hwrite : edfRtdmWriteNrt s.registry w nbyte s.driver = some (ret, d')) :
    Inv site { (s.meant self w.op.armClock).become self
      (.waiting [.rtTaskWaitPeriod, .rtDevWrite device m']) with
        driver := d'
        clock := w.op.recalcClock } := by
  have htask := h.named.tasks self hlive
  obtain ⟨hnamed, harm⟩ := h.named.write htask (hshort self htask) hm hcopy hwrite
  have hmeant : s.meant self w.op.armClock = s := by
    rw [meant, hcalls]
    exact if_neg (by simp)
  rw [hmeant]
  refine h.turn rfl rfl (.wait hlive hm') hnamed fun task' htask' => ?_
  show d'.armingAt (site.name task') = (s.started task').map fun D' =>
    (⟨D', s.released task' + D', codeOf (Function.update s.activity self _ task').stopped⟩ :
      Arming)
  rw [harm task' htask', h.inStep task' htask', update_stopped]
  by_cases heq : task' = self
  · subst heq
    rw [if_pos ⟨hlive, rfl⟩, if_pos rfl]
    cases s.started task' <;> rfl
  · rw [if_neg (fun hboth => heq hboth.2), if_neg heq]

/-- Its second message. -/
theorem Inv.reset (h : Inv site s) (hshort : ∀ task ∈ site.tasks,
      (site.name task).chars.length ≤ tnameLen)
    (hcalls : s.activity self = .waiting [.rtDevWrite device m]) (hlive : s.Live self)
    (hm : Says site.name .resetDeadline self deadlineNotSet w.buffer) (hcopy : w.copy = 0)
    (hwrite : edfRtdmWriteNrt s.registry w nbyte s.driver = some (ret, d')) :
    Inv site { (s.meant self w.op.armClock).become self (.waiting []) with
      driver := d'
      clock := w.op.recalcClock } := by
  have htask := h.named.tasks self hlive
  obtain ⟨hnamed, harm⟩ := h.named.write htask (hshort self htask) hm hcopy hwrite
  have hmeant : s.meant self w.op.armClock =
      { s with released := Function.update s.released self w.op.armClock } := by
    rw [meant, hcalls]
    exact if_pos rfl
  rw [hmeant]
  refine h.turn rfl rfl (.outside rfl) hnamed fun task' htask' => ?_
  show d'.armingAt (site.name task') = (s.started task').map fun D' =>
    (⟨D', Function.update s.released self w.op.armClock task' + D',
      codeOf (Function.update s.activity self _ task').stopped⟩ : Arming)
  rw [harm task' htask', h.inStep task' htask', update_stopped]
  by_cases heq : task' = self
  · subst heq
    rw [if_pos ⟨hlive, rfl⟩, if_pos rfl, Function.update_self]
    cases s.started task' <;> rfl
  · rw [if_neg (fun hboth => heq hboth.2), if_neg heq, Function.update_of_ne heq]

/-- A task of the site is created. -/
theorem Inv.spawn (h : Inv site s) (htask : task ∈ site.tasks) (hdead : ¬s.Live task) :
    Inv site { s with registry := s.registry ++ [⟨s.driver.kernel.name task, .task, task⟩] } := by
  have hmem : ∀ o ∈ s.registry ++ [⟨s.driver.kernel.name task, .task, task⟩],
      o ∈ s.registry ∨ o = ⟨site.name task, .task, task⟩ := by
    intro o ho
    rw [h.named.driver.name_eq] at ho
    simpa using ho
  refine ⟨⟨h.named.driver, ⟨?_, fun o ho => ?_, fun o ho => ?_⟩, ?_⟩, fun self => ?_, h.inStep⟩
  · -- nobody else has its name
    have hnew : site.name task ∉ s.registry.map NativeObject.key := by
      intro hkey
      obtain ⟨o, ho, heq⟩ := List.mem_map.mp hkey
      rw [h.named.registry.named o ho] at heq
      exact hdead ⟨o, ho, site.distinct (h.named.tasks _ ⟨o, ho, rfl⟩) htask heq⟩
    have hdistinct : (s.registry.map NativeObject.key).Nodup := h.named.registry.distinct
    rw [Registry.Distinct, h.named.driver.name_eq, ← List.concat_eq_append, List.map_concat]
    exact (List.nodup_concat _ _).mpr ⟨hnew, hdistinct⟩
  · rcases hmem o ho with hold | rfl
    · exact h.named.registry.tasks o hold
    · rfl
  · rcases hmem o ho with hold | rfl
    · exact h.named.registry.named o hold
    · rfl
  · rintro task' ⟨o, ho, rfl⟩
    rcases hmem o ho with hold | rfl
    · exact h.named.tasks _ ⟨o, hold, rfl⟩
    · exact htask
  · refine (h.activity self).mono ?_
    rintro ⟨o, ho, rfl⟩
    exact ⟨o, List.mem_append_left _ ho, rfl⟩

/-- A task of the site is deleted. -/
theorem Inv.delete {r : Replies} {status : Int32} (h : Inv site s) (hlive : s.Live task)
    (hdelete : rtDtaskDelete r task s.driver = some (status, d')) :
    Inv site { s.become task (.waiting []) with
      registry := s.registry.filter fun o => o.desc ≠ task
      driver := d'
      clock := r.recalcClock
      started := Function.update s.started task none } := by
  have hexec : (Call.deleteHook task r).exec s.driver = some d' := by
    rw [Call.exec, hdelete]
    rfl
  have hsub : (s.registry.filter fun o => o.desc ≠ task).Sublist s.registry :=
    List.filter_sublist
  refine ⟨⟨Call.exec_named h.named.driver hexec, h.named.registry.sublist hsub, ?_⟩,
    fun self => ?_, fun task' htask' => ?_⟩
  · rintro task' ⟨o, ho, rfl⟩
    exact h.named.tasks _ ⟨o, hsub.subset ho, rfl⟩
  · show InLibrary site _ self (Function.update s.activity task (.waiting []) self)
    rcases eq_or_ne self task with rfl | hne
    · rw [Function.update_self]
      exact .outside rfl
    · rw [Function.update_of_ne hne]
      refine (h.activity self).mono ?_
      rintro ⟨o, ho, rfl⟩
      exact ⟨o, List.mem_filter.mpr ⟨ho, by simpa using hne⟩, rfl⟩
  · show d'.armingAt (site.name task') = (Function.update s.started task none task').map
      fun D' => (⟨D', s.released task' + D',
        codeOf (Function.update s.activity task (.waiting []) task').stopped⟩ : Arming)
    rw [Call.exec_armUnder h.named.driver.named (by simp) hexec, h.named.driver.name_eq,
      Call.armUnder, h.inStep task' htask', update_stopped]
    have hname : some (site.name task) = some (site.name task') ↔ task' = task :=
      ⟨fun heq => (site.distinct (h.named.tasks task hlive) htask'
        (Option.some.inj heq)).symm, fun heq => heq ▸ rfl⟩
    by_cases heq : task' = task
    · subst heq
      rw [Function.update_self]
      exact if_pos rfl
    · rw [if_neg heq, Function.update_of_ne heq]
      exact if_neg (hname.not.mpr heq)

/-- A round of the service. -/
theorem Inv.service (h : Inv site s) (t : UInt64) :
    Inv site { s with driver := rtDtaskRecalculateprio t s.driver, clock := t } where
  named := ⟨Call.exec_named (c := .service t) h.named.driver rfl, h.named.registry,
    h.named.tasks⟩
  activity := h.activity
  inStep task htask := (recalc_armingAt ..).trans (h.inStep task htask)

/-- **Every step keeps the invariant.** -/
theorem Inv.step {l : SessionStep} (h : Inv site s)
    (hshort : ∀ task ∈ site.tasks, (site.name task).chars.length ≤ tnameLen)
    (hdevice : device ≠ -1) (hstep : (sessions site device).step s l s') (hheard : s.Heard l) :
    Inv site s' := by
  obtain ⟨hvalid, hexec⟩ := hstep
  cases l with
  | taskStart self r task D =>
      obtain ⟨hout, heq⟩ := Option.ite_none_right_eq_some.mp hexec
      obtain rfl := Option.some.inj heq
      exact h.become (taskStart_inLibrary h.named.driver.name_eq hvalid)
        (stopped_of_nil hout).symm
  | waitPeriod self r =>
      obtain ⟨⟨hout, hlive, hself⟩, heq⟩ := Option.ite_none_right_eq_some.mp hexec
      obtain rfl := Option.some.inj heq
      have hwait := waitPeriod_inLibrary (r := r) h.named.driver.name_eq hself hlive hdevice
      exact h.become hwait.1 (hwait.2.trans (stopped_of_nil hout).symm)
  | returns self =>
      have hself := h.activity self
      generalize ha : s.activity self = a at hself
      cases hself with
      | start =>
          simp only [exec, ha, Activity.calls, Option.some.injEq] at hexec
          subst hexec
          exact h.become (.outside rfl) (by rw [ha]; rfl)
      | wait hlive hm' =>
          simp only [exec, ha, Activity.calls, Option.some.injEq] at hexec
          subst hexec
          exact h.become (.reset hlive hm') (by rw [ha]; rfl)
      | outside hnil => simp [exec, ha, hnil] at hexec
      | create | stop | reset => simp [exec, ha, Activity.calls] at hexec
  | spawn task =>
      obtain ⟨hdead, heq⟩ := Option.ite_none_left_eq_some.mp hexec
      obtain rfl := Option.some.inj heq
      exact h.spawn hvalid hdead
  | delete task r =>
      obtain ⟨hlive, heq⟩ := Option.ite_none_right_eq_some.mp hexec
      obtain ⟨⟨status, d'⟩, hdelete, rfl⟩ := Option.map_eq_some_iff.mp heq
      exact h.delete hlive hdelete
  | service t =>
      obtain rfl := Option.some.inj hexec
      exact h.service t
  | write self w =>
      obtain ⟨hcopy, hstart⟩ := hheard
      obtain ⟨hmessage, heq⟩ := Option.ite_none_right_eq_some.mp hexec
      obtain ⟨⟨ret, d'⟩, hwrite, rfl⟩ := Option.map_eq_some_iff.mp heq
      have hself := h.activity self
      generalize ha : s.activity self = a at hself
      rw [ha] at hmessage
      cases hself with
      | outside hnil => simp [Activity.message?, hnil] at hmessage
      | start | wait => simp [Activity.message?, Activity.calls] at hmessage
      | create htask hm =>
          obtain rfl := hvalid _ (by rw [ha]; rfl) hcopy
          exact h.create hshort ha htask hm hcopy (hstart _ (by rw [ha]; rfl)) hwrite
      | stop hlive hm hm' =>
          obtain rfl := hvalid _ (by rw [ha]; rfl) hcopy
          exact h.stop hshort ha hlive hm hm' hcopy hwrite
      | reset hlive hm' =>
          obtain rfl := hvalid _ (by rw [ha]; rfl) hcopy
          exact h.reset hshort ha hlive hm' hcopy hwrite

/-- It holds in the beginning. -/
theorem Init.inv (h : s.Init site) : Inv site s := by
  obtain ⟨x, hname, -, hdriver⟩ := h.driver
  refine ⟨⟨?_, h.registry, h.tasks⟩, fun self => .outside (h.activity self), fun task _ => ?_⟩
  · rw [hdriver, ← hname]
    exact rtDtaskInit_namedBy x
  · rw [hdriver, h.started]
    rfl

end Step

end Sessions

/-- **The driver is in step with the tasks**, in every order in which their messages, deletions
and rounds of the service arrive, if every message gets through and no task waits that has yet to
be started. The tasks keep their names, which fit into a message, the device is open, and
deadlines are sums modulo `2 ^ 64`. -/
theorem sessions_in_step {site : Site} {device : Int32} {s : Sessions}
    (hshort : ∀ task ∈ site.tasks, (site.name task).chars.length ≤ tnameLen)
    (hdevice : device ≠ -1)
    (hs : ((sessions site device).restrict Sessions.Heard).Reachable s) : s.InStep site := by
  have hinv : Sessions.Inv site s := by
    refine hs.invariant ?_ ?_
    · exact fun _ hinit => Sessions.Init.inv hinit
    · exact fun _ _ _ h hstep => h.step hshort hdevice hstep.1 hstep.2
  exact hinv.inStep

/-- Follow steps of the tasks of `letterSite` that meet a condition. -/
def letterSessions (ok : Sessions → SessionStep → Prop) [∀ s l, Decidable (ok s l)] :
    List SessionStep → Sessions → Option Sessions
  | [], s => some s
  | l :: ls, s =>
      if s.Valid letterSite l ∧ ok s l then (s.exec 3 l).bind (letterSessions ok ls) else none

theorem letterSessions_reachable {ok : Sessions → SessionStep → Prop} [∀ s l, Decidable (ok s l)]
    {ls : List SessionStep} {s s' : Sessions}
    (hs : ((sessions letterSite 3).restrict ok).Reachable s)
    (h : letterSessions ok ls s = some s') :
    ((sessions letterSite 3).restrict ok).Reachable s' := by
  induction ls generalizing s with
  | nil => exact Option.some.inj h ▸ hs
  | cons l ls ih =>
      obtain ⟨hok, heq⟩ := Option.ite_none_right_eq_some.mp h
      obtain ⟨s₁, hs₁, hrest⟩ := Option.bind_eq_some_iff.mp heq
      exact ih (hs.step ⟨⟨hok.1, hs₁⟩, hok.2⟩) hrest

/-- Nobody uses the library. -/
def letterIdle : Sessions :=
  ⟨letterRegistry, letterStart.driver, 0, fun _ => .waiting [], fun _ => none, fun _ => 0⟩

theorem letterIdle_init : (sessions letterSite 3).init letterIdle where
  registry := ⟨by decide, by decide, by decide⟩
  tasks := by
    rintro task ⟨o, ho, rfl⟩
    exact (by decide : ∀ o ∈ letterRegistry, o.desc ∈ letterSite.tasks) o ho
  driver := ⟨letterStart.driver.kernel, rfl, rfl, rfl⟩
  activity := fun _ => rfl
  started := fun _ => rfl

/-- The names of `letterSite` fit into a message. -/
theorem letterSite_short : ∀ task ∈ letterSite.tasks,
    (letterSite.name task).chars.length ≤ tnameLen :=
  fun task htask =>
    (by decide : ∀ i : Fin 3, (letterName i).chars.length ≤ tnameLen) ⟨task, htask⟩

/-- A message of the library about a task of `letterSite`, handled without a hitch. -/
def sessionWrite (self : RtTask) (command : EdfCommand) (task : RtTask) (deadline clock : UInt64)
    (b : Block) : SessionStep :=
  .write self ⟨some (b + 3), 0, clientMessage plainClient command
    (letterStart.driver.kernel.rtTaskInquire task) deadline, [], plainReplies clock b⟩

/-- Task `2` starts task `0`, and then task `1` while task `0` waits for its period. -/
def letterTurns : List SessionStep :=
  [.taskStart 2 plainClient 0 10, sessionWrite 2 .createTask 0 10 4 0, .returns 2,
    .waitPeriod 0 plainClient, sessionWrite 0 .stopWatchd 0 deadlineNotSet 6 10,
    .taskStart 2 plainClient 1 20, .service 8, .returns 0, sessionWrite 2 .createTask 1 20 9 20,
    sessionWrite 0 .resetDeadline 0 deadlineNotSet 11 30, .delete 1 (plainReplies 12 40),
    .spawn 1]

theorem sessions_in_step_letter : ∃ s,
    letterSessions Sessions.Heard letterTurns letterIdle = some s ∧
      s.InStep letterSite ∧ s.started 0 = some 10 ∧ s.released 0 = 11 := by
  have hend : ((letterSessions Sessions.Heard letterTurns letterIdle).map fun s =>
      (s.started 0, s.released 0)) = some (some 10, 11) := by decide +kernel
  obtain ⟨s, hs, hfields⟩ := Option.map_eq_some_iff.mp hend
  obtain ⟨hstarted, hreleased⟩ := Prod.mk.inj hfields
  exact ⟨s, hs, sessions_in_step letterSite_short (by decide)
    (letterSessions_reachable (.init letterIdle_init) hs), hstarted, hreleased⟩

end Edfomai
