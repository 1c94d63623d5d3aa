import Edfomai.Steps
import Edfomai.Write

/-!
# Edfomai.System

The threads of the driver, interleaved step by step: the service loop
`_edf_service`, any number of write handlers, and the hooks, over the registry of
tasks, which are created and deleted at any time.

* `System.step` is executable; `System.Step` lists once what a step can do, and every
  invariant is proved by its cases.
* `edf_data_lock` is a spin lock: a thread that finds it held stays where it is.
  Hooks do not take it.
* `edf_event` has the behaviour RTDM documents: a signal makes it signalled, waiting
  returns once it is signalled and resets it, clearing resets it.

The buffer of a message belongs to its handler alone and is left out here, as is what
a handler returns.
-/

namespace Edfomai

/-! ### Threads -/

/-- The service thread, and the threads that write messages, each named by its
task. -/
inductive Thread
  | service
  | writer (w : RtTask)
  deriving DecidableEq

/-- Where a thread is. -/
inductive Pc
  /-- Outside the driver; the service is in `rtdm_event_wait`. -/
  | outside
  /-- About to call `rtdm_lock_get`. -/
  | acquire (op : Op)
  /-- In `rtdm_lock_get`, the lock having been found held. -/
  | spin (op : Op)
  /-- Holding the lock, about to call the operation. -/
  | critical (op : Op)
  /-- Inside the `rt_dtask_recalculateprio` of an operation, which will free the
  buffer afterwards. -/
  | recalculating (buffer : Option Block) (rpc : RecalcPc)
  /-- About to call `rtdm_lock_put`. -/
  | release
  /-- About to call `rtdm_event_clear`. -/
  | clear
  deriving DecidableEq

namespace Pc

/-- The thread holds `edf_data_lock`. -/
def Inside : Pc → Prop
  | critical _ | recalculating _ _ | release => True
  | outside | acquire _ | spin _ | clear => False

/-- The next record that the thread has saved, inside a pass. -/
def saved : Pc → Option (Option Block)
  | recalculating _ rpc => rpc.saved
  | _ => none

@[simp] theorem inside_outside : Inside outside ↔ False := Iff.rfl
@[simp] theorem inside_acquire (op : Op) : Inside (acquire op) ↔ False := Iff.rfl
@[simp] theorem inside_spin (op : Op) : Inside (spin op) ↔ False := Iff.rfl
@[simp] theorem inside_critical (op : Op) : Inside (critical op) ↔ True := Iff.rfl
@[simp] theorem inside_recalculating (buffer : Option Block) (rpc : RecalcPc) :
    Inside (recalculating buffer rpc) ↔ True := Iff.rfl
@[simp] theorem inside_release : Inside release ↔ True := Iff.rfl
@[simp] theorem inside_clear : Inside clear ↔ False := Iff.rfl

@[simp] theorem saved_outside : saved outside = none := rfl
@[simp] theorem saved_acquire (op : Op) : saved (acquire op) = none := rfl
@[simp] theorem saved_spin (op : Op) : saved (spin op) = none := rfl
@[simp] theorem saved_critical (op : Op) : saved (critical op) = none := rfl
@[simp] theorem saved_recalculating (buffer : Option Block) (rpc : RecalcPc) :
    saved (recalculating buffer rpc) = rpc.saved := rfl
@[simp] theorem saved_release : saved release = none := rfl
@[simp] theorem saved_clear : saved clear = none := rfl

/-- A thread inside a pass holds the lock. -/
theorem inside_of_saved {p : Pc} {next : Option Block} (h : p.saved = some next) : p.Inside := by
  cases p <;> simp_all

end Pc

/-- Where the deletion hook of a task is. -/
inductive HookPc
  /-- Not called, or returned. -/
  | idle
  /-- About to call `rt_dtask_delete`. -/
  | delete
  /-- About to call `rtdm_event_signal`. -/
  | signal
  deriving DecidableEq

/-- What the order of wake-ups is read off. -/
inductive Mark
  /-- `rtdm_event_signal`. -/
  | signal
  /-- The service has called `rt_dtask_recalculateprio`. -/
  | recalculation
  deriving DecidableEq

/-- The state of the driver and its threads. -/
structure System where
  driver : Driver
  registry : Registry
  lock : Option Thread
  event : Bool
  pc : Thread → Pc
  hook : RtTask → HookPc
  /-- Newest first. -/
  marks : List Mark

namespace System

/-- A thread moves on. -/
def goto (i : Thread) (p : Pc) (s : System) : System :=
  { s with pc := Function.update s.pc i p }

/-- `rtdm_event_signal`. -/
def signal (s : System) : System := { s with event := true, marks := .signal :: s.marks }

@[simp] theorem goto_driver (i : Thread) (p : Pc) (s : System) :
    (s.goto i p).driver = s.driver := rfl
@[simp] theorem goto_registry (i : Thread) (p : Pc) (s : System) :
    (s.goto i p).registry = s.registry := rfl
@[simp] theorem goto_lock (i : Thread) (p : Pc) (s : System) : (s.goto i p).lock = s.lock := rfl
@[simp] theorem goto_event (i : Thread) (p : Pc) (s : System) : (s.goto i p).event = s.event := rfl
@[simp] theorem goto_pc (i : Thread) (p : Pc) (s : System) :
    (s.goto i p).pc = Function.update s.pc i p := rfl
@[simp] theorem goto_hook (i : Thread) (p : Pc) (s : System) : (s.goto i p).hook = s.hook := rfl
@[simp] theorem goto_marks (i : Thread) (p : Pc) (s : System) : (s.goto i p).marks = s.marks := rfl
@[simp] theorem signal_driver (s : System) : s.signal.driver = s.driver := rfl
@[simp] theorem signal_registry (s : System) : s.signal.registry = s.registry := rfl
@[simp] theorem signal_lock (s : System) : s.signal.lock = s.lock := rfl
@[simp] theorem signal_event (s : System) : s.signal.event = true := rfl
@[simp] theorem signal_pc (s : System) : s.signal.pc = s.pc := rfl
@[simp] theorem signal_hook (s : System) : s.signal.hook = s.hook := rfl
@[simp] theorem signal_marks (s : System) : s.signal.marks = .signal :: s.marks := rfl

/-- The task is registered. -/
def Live (s : System) (task : RtTask) : Prop := ∃ o ∈ s.registry, o.desc = task

instance (s : System) (task : RtTask) : Decidable (s.Live task) := by
  unfold Live; infer_instance

/-- The memory allocator returns no block that is in use. -/
def Fresh (s : System) (r : Replies) : Prop := ∀ b ∈ r.block, b ∉ s.driver.addrs

instance (s : System) (r : Replies) : Decidable (s.Fresh r) := by
  unfold Fresh; infer_instance

/-- Nothing refers to the descriptor any more, so its memory may be used again. -/
def Gone (s : System) (task : RtTask) : Prop :=
  ¬s.Live task ∧ s.hook task = .idle ∧ s.pc (.writer task) = .outside

instance (s : System) (task : RtTask) : Decidable (s.Gone task) := by
  unfold Gone; infer_instance

/-- The descriptor of a task reports another name. -/
def rename (task : RtTask) (name : TaskName) (d : Driver) : Driver :=
  { d with kernel := { d.kernel with name := Function.update d.kernel.name task name } }

/-- A new task has a name and a priority. -/
def enter (task : RtTask) (name : TaskName) (prio : Int32) (d : Driver) : Driver :=
  { d with kernel := { d.kernel with
      name := Function.update d.kernel.name task name
      cprio := Function.update d.kernel.cprio task prio } }

@[simp] theorem rename_nodes (task : RtTask) (name : TaskName) (d : Driver) :
    (rename task name d).nodes = d.nodes := rfl
@[simp] theorem rename_name (task : RtTask) (name : TaskName) (d : Driver) :
    (rename task name d).kernel.name = Function.update d.kernel.name task name := rfl
@[simp] theorem rename_cprio (task : RtTask) (name : TaskName) (d : Driver) :
    (rename task name d).kernel.cprio = d.kernel.cprio := rfl
@[simp] theorem enter_nodes (task : RtTask) (name : TaskName) (prio : Int32) (d : Driver) :
    (enter task name prio d).nodes = d.nodes := rfl
@[simp] theorem enter_name (task : RtTask) (name : TaskName) (prio : Int32) (d : Driver) :
    (enter task name prio d).kernel.name = Function.update d.kernel.name task name := rfl
@[simp] theorem enter_cprio (task : RtTask) (name : TaskName) (prio : Int32) (d : Driver) :
    (enter task name prio d).kernel.cprio = Function.update d.kernel.cprio task prio := rfl

end System

/-! ### Steps -/

/-- The steps. -/
inductive Label
  /-- A thread writes a message: its handler copies it and resolves the name. -/
  | write (w : RtTask) (m : EdfMessage) (beyond : List UInt8)
  /-- The service returns from `rtdm_event_wait`. -/
  | wake
  /-- `rtdm_lock_get`, or one more look at the lock. -/
  | lockGet (i : Thread)
  /-- The operation, up to its recalculation. -/
  | run (i : Thread) (r : Replies)
  /-- One step of the recalculation. -/
  | recalc (i : Thread) (clock : UInt64)
  /-- `rtdm_lock_put`. -/
  | lockPut (i : Thread)
  /-- `rtdm_event_clear`. -/
  | clear
  /-- `edf_startswitch_hook`. -/
  | start
  /-- A task is created. -/
  | spawn (task : RtTask) (name : TaskName) (prio : Int32)
  /-- A task is deleted: it leaves the registry, and its hook is called. -/
  | kill (task : RtTask)
  /-- `rt_dtask_delete` in `edf_delete_hook`. -/
  | hookDelete (task : RtTask) (r : Replies)
  /-- `rtdm_event_signal` in `edf_delete_hook`. -/
  | hookSignal (task : RtTask)
  /-- The memory of a deleted task's descriptor is used for something else. -/
  | forget (task : RtTask) (name : TaskName)

/-- The thread that moves. -/
def Label.actor : Label → Option Thread
  | write w _ _ => some (.writer w)
  | wake | clear => some .service
  | lockGet i | run i _ | recalc i _ | lockPut i => some i
  | start | spawn _ _ _ | kill _ | hookDelete _ _ | hookSignal _ | forget _ _ => none

/-- The task whose deletion hook moves. -/
def Label.hookTask : Label → Option RtTask
  | kill task | hookDelete task _ | hookSignal task => some task
  | _ => none

namespace System

/-- Where a thread goes after `rtdm_lock_put`. -/
def afterPut : Thread → Pc
  | .service => .clear
  | .writer _ => .outside

/-- The mark an operation leaves when it begins to recalculate. -/
def marked (i : Thread) (marks : List Mark) : List Mark :=
  if i = .service then .recalculation :: marks else marks

/-- `rtdm_lock_get`. -/
def lockGet (i : Thread) (op : Op) (s : System) : System :=
  match s.lock with
  | none => { s.goto i (.critical op) with lock := some i }
  | some _ => s.goto i (.spin op)

/-- One step, if it is possible. -/
def step (s : System) : Label → Option System
  | .write w m beyond =>
      if s.pc (.writer w) = .outside then
        match getHandle s.registry (m.taskMemory beyond), EdfCommand.ofCode m.command with
        | some task, some command =>
            some (s.goto (.writer w) (.acquire (command.op task m.deadline)))
        | _, _ => some s
      else none
  | .wake =>
      if s.pc .service = .outside ∧ s.event then
        some { s.goto .service (.acquire .recalculateprio) with event := false }
      else none
  | .lockGet i =>
      match s.pc i with
      | .acquire op | .spin op => some (s.lockGet i op)
      | _ => none
  | .run i r =>
      match s.pc i with
      | .critical op =>
          if s.Fresh r then
            (op.begin r s.driver).map fun
              | .returned _ d => { s.goto i .release with driver := d }
              | .recalculate _ d buffer =>
                  { s.goto i (.recalculating buffer .entry) with
                    driver := d, marks := marked i s.marks }
          else none
      | _ => none
  | .recalc i clock =>
      match s.pc i with
      | .recalculating buffer rpc =>
          (rpc.step clock s.driver).map fun res =>
            if res.1 = .done then { s.goto i .release with driver := freeBuffer buffer res.2 }
            else { s.goto i (.recalculating buffer res.1) with driver := res.2 }
      | _ => none
  | .lockPut i =>
      if s.pc i = .release then some { s.goto i (afterPut i) with lock := none } else none
  | .clear =>
      if s.pc .service = .clear then some { s.goto .service .outside with event := false }
      else none
  | .start => some s.signal
  | .spawn task name prio =>
      if s.Gone task ∧ ∀ o ∈ s.registry, o.key ≠ name then
        some { s with
          registry := ⟨name, .task, task⟩ :: s.registry
          driver := enter task name prio s.driver }
      else none
  | .kill task =>
      if s.Live task then
        some { s with
          registry := s.registry.filter fun o => o.desc ≠ task
          hook := Function.update s.hook task .delete }
      else none
  | .hookDelete task r =>
      if s.hook task = .delete then
        (rtDtaskDelete r task s.driver).map fun res =>
          { s with driver := res.2, hook := Function.update s.hook task .signal }
      else none
  | .hookSignal task =>
      if s.hook task = .signal then
        some { s.signal with hook := Function.update s.hook task .idle }
      else none
  | .forget task name =>
      if s.Gone task then some { s with driver := rename task name s.driver } else none

/-- **What a step can do.** -/
inductive Step : System → Label → System → Prop
  | refused {s : System} {w : RtTask} {m : EdfMessage} {beyond : List UInt8} :
      Step s (.write w m beyond) s
  | resolved {s : System} {w : RtTask} {m : EdfMessage} {beyond : List UInt8} {task : RtTask}
      (command : EdfCommand) : s.pc (.writer w) = .outside →
      getHandle s.registry (m.taskMemory beyond) = some task →
      Step s (.write w m beyond) (s.goto (.writer w) (.acquire (command.op task m.deadline)))
  | wake {s : System} : s.pc .service = .outside → s.event = true →
      Step s .wake { s.goto .service (.acquire .recalculateprio) with event := false }
  | taken {s : System} {i : Thread} {op : Op} : s.pc i = .acquire op ∨ s.pc i = .spin op →
      s.lock = none → Step s (.lockGet i) { s.goto i (.critical op) with lock := some i }
  | spins {s : System} {i j : Thread} {op : Op} : s.pc i = .acquire op ∨ s.pc i = .spin op →
      s.lock = some j → Step s (.lockGet i) (s.goto i (.spin op))
  | returned {s : System} {i : Thread} {op : Op} {r : Replies} {ret : Int32} {d : Driver} :
      s.pc i = .critical op → s.Fresh r → op.begin r s.driver = some (.returned ret d) →
      Step s (.run i r) { s.goto i .release with driver := d }
  | begun {s : System} {i : Thread} {op : Op} {r : Replies} {ret : Int32} {d : Driver}
      {buffer : Option Block} : s.pc i = .critical op → s.Fresh r →
      op.begin r s.driver = some (.recalculate ret d buffer) →
      Step s (.run i r) { s.goto i (.recalculating buffer .entry) with
        driver := d, marks := marked i s.marks }
  | recalc {s : System} {i : Thread} {buffer : Option Block} {rpc rpc' : RecalcPc} {d : Driver}
      {clock : UInt64} : s.pc i = .recalculating buffer rpc →
      rpc.step clock s.driver = some (rpc', d) →
      Step s (.recalc i clock) { s.goto i (.recalculating buffer rpc') with driver := d }
  | recalculated {s : System} {i : Thread} {buffer : Option Block} {rpc : RecalcPc} {d : Driver}
      {clock : UInt64} : s.pc i = .recalculating buffer rpc →
      rpc.step clock s.driver = some (.done, d) →
      Step s (.recalc i clock) { s.goto i .release with driver := freeBuffer buffer d }
  | put {s : System} {i : Thread} : s.pc i = .release →
      Step s (.lockPut i) { s.goto i (afterPut i) with lock := none }
  | clear {s : System} : s.pc .service = .clear →
      Step s .clear { s.goto .service .outside with event := false }
  | start {s : System} : Step s .start s.signal
  | spawn {s : System} {task : RtTask} {name : TaskName} {prio : Int32} : s.Gone task →
      (∀ o ∈ s.registry, o.key ≠ name) →
      Step s (.spawn task name prio) { s with
        registry := ⟨name, .task, task⟩ :: s.registry
        driver := enter task name prio s.driver }
  | kill {s : System} {task : RtTask} : s.Live task →
      Step s (.kill task) { s with
        registry := s.registry.filter fun o => o.desc ≠ task
        hook := Function.update s.hook task .delete }
  | hookDelete {s : System} {task : RtTask} {r : Replies} {ret : Int32} {d : Driver} :
      s.hook task = .delete → rtDtaskDelete r task s.driver = some (ret, d) →
      Step s (.hookDelete task r) { s with
        driver := d, hook := Function.update s.hook task .signal }
  | hookSignal {s : System} {task : RtTask} : s.hook task = .signal →
      Step s (.hookSignal task) { s.signal with hook := Function.update s.hook task .idle }
  | forget {s : System} {task : RtTask} {name : TaskName} : s.Gone task →
      Step s (.forget task name) { s with driver := rename task name s.driver }

theorem Step.of_step {s s' : System} {l : Label} (h : s.step l = some s') : Step s l s' := by
  cases l with
  | write w m beyond =>
      simp only [step] at h
      split at h
      · next hpc =>
        split at h
        · next task command hget _ =>
          obtain rfl := Option.some.inj h
          exact .resolved command hpc hget
        · obtain rfl := Option.some.inj h
          exact .refused
      · exact absurd h (by simp)
  | wake =>
      simp only [step] at h
      split at h
      · next hw =>
        obtain rfl := Option.some.inj h
        exact .wake hw.1 hw.2
      · exact absurd h (by simp)
  | lockGet i =>
      have hget : ∀ op, (s.pc i = .acquire op ∨ s.pc i = .spin op) → s.lockGet i op = s' →
          Step s (.lockGet i) s' := by
        rintro op hpc rfl
        unfold System.lockGet
        split
        · next hfree => exact .taken hpc hfree
        · next j hheld => exact .spins hpc hheld
      simp only [step] at h
      split at h
      · next op hpc => exact hget op (Or.inl hpc) (Option.some.inj h)
      · next op hpc => exact hget op (Or.inr hpc) (Option.some.inj h)
      · exact absurd h (by simp)
  | run i r =>
      simp only [step] at h
      split at h
      · next op hpc =>
        split at h
        · next hfresh =>
          obtain ⟨p, hbegin, rfl⟩ := Option.map_eq_some_iff.mp h
          cases p with
          | returned ret d => exact .returned hpc hfresh hbegin
          | recalculate ret d buffer => exact .begun hpc hfresh hbegin
        · exact absurd h (by simp)
      · exact absurd h (by simp)
  | recalc i clock =>
      simp only [step] at h
      split at h
      · next buffer rpc hpc =>
        obtain ⟨⟨rpc', d⟩, hstep, rfl⟩ := Option.map_eq_some_iff.mp h
        by_cases hdone : rpc' = .done
        · subst hdone
          exact .recalculated hpc hstep
        · simp only [if_neg hdone]
          exact .recalc hpc hstep
      · exact absurd h (by simp)
  | lockPut i =>
      simp only [step] at h
      split at h
      · next hpc =>
        obtain rfl := Option.some.inj h
        exact .put hpc
      · exact absurd h (by simp)
  | clear =>
      simp only [step] at h
      split at h
      · next hpc =>
        obtain rfl := Option.some.inj h
        exact .clear hpc
      · exact absurd h (by simp)
  | start =>
      obtain rfl := Option.some.inj h
      exact .start
  | spawn task name prio =>
      simp only [step] at h
      split at h
      · next hok =>
        obtain rfl := Option.some.inj h
        exact .spawn hok.1 hok.2
      · exact absurd h (by simp)
  | kill task =>
      simp only [step] at h
      split at h
      · next hlive =>
        obtain rfl := Option.some.inj h
        exact .kill hlive
      · exact absurd h (by simp)
  | hookDelete task r =>
      simp only [step] at h
      split at h
      · next hhook =>
        obtain ⟨⟨ret, d⟩, hdel, rfl⟩ := Option.map_eq_some_iff.mp h
        exact .hookDelete hhook hdel
      · exact absurd h (by simp)
  | hookSignal task =>
      simp only [step] at h
      split at h
      · next hhook =>
        obtain rfl := Option.some.inj h
        exact .hookSignal hhook
      · exact absurd h (by simp)
  | forget task name =>
      simp only [step] at h
      split at h
      · next hgone =>
        obtain rfl := Option.some.inj h
        exact .forget hgone
      · exact absurd h (by simp)

/-! ### Runs -/

/-- The state in which the module has been loaded, for any registry of tasks. -/
structure Init (s : System) : Prop where
  empty : s.driver.dtaskMap = ∅
  registry : s.registry.OfTasks s.driver.kernel.name
  lock : s.lock = none
  event : s.event = false
  pc : ∀ i, s.pc i = .outside
  hook : ∀ task, s.hook task = .idle
  marks : s.marks = []

end System

/-- The interleaved threads. -/
def concurrent : TransitionSystem System Label where
  init := System.Init
  step s l s' := s.step l = some s'

namespace System

/-- Make the given steps. -/
def execAll : List Label → System → Option System
  | [], s => some s
  | l :: ls, s => (s.step l).bind (execAll ls)

/-- The given steps, as far as they are possible, meet a condition. -/
def Allowed (ok : System → Label → Prop) : List Label → System → Prop
  | [], _ => True
  | l :: ls, s => ok s l ∧ ∀ s' ∈ s.step l, Allowed ok ls s'

theorem allowed_of_forall {ok : System → Label → Prop} {ls : List Label} {s : System}
    (h : ∀ l ∈ ls, ∀ s, ok s l) : Allowed ok ls s := by
  induction ls generalizing s with
  | nil => trivial
  | cons l ls ih =>
      exact ⟨h l (List.mem_cons_self ..) s, fun s' _ =>
        ih fun l' hl' => h l' (List.mem_cons_of_mem _ hl')⟩

theorem reachable_of_execAll {ok : System → Label → Prop} {s s' : System} {ls : List Label}
    (hs : (concurrent.restrict ok).Reachable s) (hok : Allowed ok ls s)
    (h : s.execAll ls = some s') : (concurrent.restrict ok).Reachable s' := by
  induction ls generalizing s with
  | nil =>
      obtain rfl := Option.some.inj h
      exact hs
  | cons l ls ih =>
      obtain ⟨s₁, h₁, h⟩ := Option.bind_eq_some_iff.mp h
      exact ih (hs.step ⟨h₁, hok.1⟩) (hok.2 s₁ h₁) h

instance (ok : System → Label → Prop) [∀ s l, Decidable (ok s l)] :
    (ls : List Label) → (s : System) → Decidable (Allowed ok ls s)
  | [], _ => isTrue trivial
  | l :: ls, s =>
      have : ∀ s', Decidable (Allowed ok ls s') := instDecidableAllowed ok ls
      inferInstanceAs (Decidable (ok s l ∧ ∀ s' ∈ s.step l, Allowed ok ls s'))

/-! ### What a step leaves alone -/

theorem Step.pc_of_ne {s s' : System} {l : Label} {j : Thread} (h : l.actor ≠ some j)
    (hstep : Step s l s') : s'.pc j = s.pc j := by
  have hne : ∀ {i : Thread} {p : Pc}, l.actor = some i → Function.update s.pc i p j = s.pc j := by
    intro i p hi
    refine Function.update_of_ne ?_ _ _
    rintro rfl
    exact h hi
  cases hstep with
  | resolved | wake | taken | spins | returned | begun | recalc | recalculated | put | clear =>
      exact hne rfl
  | _ => rfl

theorem Step.hook_of_ne {s s' : System} {l : Label} {task : RtTask} (h : l.hookTask ≠ some task)
    (hstep : Step s l s') : s'.hook task = s.hook task := by
  have hne : ∀ {task' : RtTask} {p : HookPc}, l.hookTask = some task' →
      Function.update s.hook task' p task = s.hook task := by
    intro task' p hl
    refine Function.update_of_ne ?_ _ _
    rintro rfl
    exact h hl
  cases hstep with
  | kill | hookDelete | hookSignal => exact hne rfl
  | _ => rfl

/-- Threads and hooks without a step stay where they are. -/
theorem execAll_stays {ls : List Label} {s s' : System} (h : s.execAll ls = some s') :
    (∀ j, (∀ l ∈ ls, l.actor ≠ some j) → s'.pc j = s.pc j) ∧
      ∀ task, (∀ l ∈ ls, l.hookTask ≠ some task) → s'.hook task = s.hook task := by
  induction ls generalizing s with
  | nil =>
      obtain rfl := Option.some.inj h
      exact ⟨fun _ _ => rfl, fun _ _ => rfl⟩
  | cons l ls ih =>
      obtain ⟨s₁, h₁, h⟩ := Option.bind_eq_some_iff.mp h
      have hstep := Step.of_step h₁
      obtain ⟨hpc, hhook⟩ := ih h
      refine ⟨fun j hj => ?_, fun task htask => ?_⟩
      · obtain ⟨hl, hls⟩ := List.forall_mem_cons.mp hj
        rw [hpc j hls, hstep.pc_of_ne hl]
      · obtain ⟨hl, hls⟩ := List.forall_mem_cons.mp htask
        rw [hhook task hls, hstep.hook_of_ne hl]

/-! ### A small system

The tasks of `letterSite`, for the concrete runs of later modules. -/

/-- The driver after it has been loaded, with three registered tasks. -/
def letterSystem : System where
  driver := letterStart.driver
  registry := [⟨letterName 0, .task, 0⟩, ⟨letterName 1, .task, 1⟩, ⟨letterName 2, .task, 2⟩]
  lock := none
  event := false
  pc _ := .outside
  hook _ := .idle
  marks := []

theorem letterSystem_init : letterSystem.Init where
  empty := rfl
  registry := ⟨by decide, by decide, by decide⟩
  lock := rfl
  event := rfl
  pc _ := rfl
  hook _ := rfl
  marks := rfl

/-- The steps of a whole operation that takes `n` steps to recalculate. -/
def wholeOperation (i : Thread) (r : Replies) (n : Nat) : List Label :=
  [.lockGet i, .run i r] ++ List.replicate n (.recalc i r.recalcClock) ++ [.lockPut i]

/-- The steps of a whole request. -/
def wholeRequest (w : RtTask) (m : EdfMessage) (r : Replies) (n : Nat) : List Label :=
  .write w m [] :: wholeOperation (.writer w) r n

/-- The state after the given steps. -/
def letterSteps (ls : List Label) : System := (letterSystem.execAll ls).getD letterSystem

theorem letterSteps_restrict {ok : System → Label → Prop} {ls : List Label}
    (hok : Allowed ok ls letterSystem) (h : (letterSystem.execAll ls).isSome) :
    (concurrent.restrict ok).Reachable (letterSteps ls) := by
  obtain ⟨s, hs⟩ := Option.isSome_iff_exists.mp h
  rw [letterSteps, hs, Option.getD_some]
  exact reachable_of_execAll (.init letterSystem_init) hok hs

theorem execAll_append (ls ls' : List Label) (s : System) :
    s.execAll (ls ++ ls') = (s.execAll ls).bind (execAll ls') := by
  induction ls generalizing s with
  | nil => rfl
  | cons l ls ih =>
      simp only [List.cons_append, execAll, Option.bind_assoc]
      exact congrArg _ (funext ih)

/-- One more step. -/
theorem letterSteps_step {ls : List Label} {l : Label}
    (h : (letterSystem.execAll (ls ++ [l])).isSome) :
    (letterSteps ls).step l = some (letterSteps (ls ++ [l])) := by
  obtain ⟨s', hs'⟩ := Option.isSome_iff_exists.mp h
  have hall := hs'
  rw [execAll_append] at hs'
  obtain ⟨s, hs, hl⟩ := Option.bind_eq_some_iff.mp hs'
  rw [letterSteps, letterSteps, hs, hall, Option.getD_some, Option.getD_some]
  simpa [execAll] using hl

theorem letterSteps_stays {ls : List Label} (h : (letterSystem.execAll ls).isSome) :
    (∀ j, (∀ l ∈ ls, l.actor ≠ some j) → (letterSteps ls).pc j = .outside) ∧
      ∀ task, (∀ l ∈ ls, l.hookTask ≠ some task) → (letterSteps ls).hook task = .idle := by
  obtain ⟨s, hs⟩ := Option.isSome_iff_exists.mp h
  rw [letterSteps, hs, Option.getD_some]
  exact execAll_stays hs

theorem letterSteps_reachable {ls : List Label} (h : (letterSystem.execAll ls).isSome) :
    concurrent.Reachable (letterSteps ls) :=
  (letterSteps_restrict (allowed_of_forall fun _ _ _ => trivial) h).of_restrict

/-! ### Mutual exclusion -/

/-- The threads inside are those that the lock says hold it. -/
def HeldBy (pc : Thread → Pc) (lock : Option Thread) : Prop := ∀ i, (pc i).Inside ↔ lock = some i

namespace HeldBy

variable {pc : Thread → Pc} {lock : Option Thread} {i : Thread} {p : Pc}

theorem move (h : HeldBy pc lock) (hp : p.Inside ↔ (pc i).Inside) :
    HeldBy (Function.update pc i p) lock := by
  intro j
  rcases eq_or_ne j i with rfl | hne
  · rw [Function.update_self, hp, h]
  · rw [Function.update_of_ne hne, h]

theorem take (h : HeldBy pc none) (hp : p.Inside) : HeldBy (Function.update pc i p) (some i) := by
  intro j
  rcases eq_or_ne j i with rfl | hne
  · simp [hp]
  · rw [Function.update_of_ne hne, h]
    simp [hne.symm]

theorem put (h : HeldBy pc lock) (hi : (pc i).Inside) (hp : ¬p.Inside) :
    HeldBy (Function.update pc i p) none := by
  intro j
  rcases eq_or_ne j i with rfl | hne
  · simp [hp]
  · rw [Function.update_of_ne hne, h, (h i).mp hi]
    simp [hne.symm]

end HeldBy

theorem Step.heldBy {s s' : System} {l : Label} (h : HeldBy s.pc s.lock) (hstep : Step s l s') :
    HeldBy s'.pc s'.lock := by
  cases hstep with
  | refused => exact h
  | resolved command hpc => exact h.move (by simp [hpc])
  | wake hpc => exact h.move (by simp [hpc])
  | taken hpc hlock =>
      rw [hlock] at h
      exact h.take trivial
  | spins hpc => exact h.move (by rcases hpc with hpc | hpc <;> simp [hpc])
  | returned hpc => exact h.move (by simp [hpc])
  | begun hpc => exact h.move (by simp [hpc])
  | recalc hpc => exact h.move (by simp [hpc])
  | recalculated hpc => exact h.move (by simp [hpc])
  | @put i hpc => exact h.put (by simp [hpc]) (by cases i <;> simp [afterPut])
  | clear hpc => exact h.move (by simp [hpc])
  | start => exact h
  | spawn => exact h
  | kill => exact h
  | hookDelete => exact h
  | hookSignal => exact h
  | forget => exact h

/-- **At most one thread is inside.** -/
theorem heldBy_of_reachable {s : System} (hs : concurrent.Reachable s) : HeldBy s.pc s.lock := by
  have hinit : ∀ s, concurrent.init s → HeldBy s.pc s.lock := by
    intro s h i
    rw [h.pc, h.lock]
    simp
  have hstep : ∀ s l s', HeldBy s.pc s.lock → concurrent.step s l s' → HeldBy s'.pc s'.lock :=
    fun _ _ _ h hstep => (Step.of_step hstep).heldBy h
  exact hs.invariant hinit hstep

end System
end Edfomai
