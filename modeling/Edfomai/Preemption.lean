import Edfomai.Iteration
import Mathlib.Data.Int.ConditionallyCompleteOrder
import Mathlib.Order.WithBot

/-!
# Edfomai.Preemption

The threads on **one processor with preemptive priorities**: only the ready thread of
highest priority makes steps. A thread that spins on `edf_data_lock` stays ready, and
the thread that holds the lock is not protected from preemption; so a thread that
finds the lock held by one of lower priority spins for ever.

`no_hang` shows when this does not happen: the processor cannot hang as long as a
thread that asks for the held lock does not have a higher priority than its holder,
and no `rt_task_set_priority` in the holder's second pass reverses the order of the
holder and a thread that spins.
-/

namespace Edfomai

/-- The threads on one processor. -/
structure Processor where
  system : System
  /-- Which threads are ready to run outside the driver. -/
  awake : RtTask → Bool

namespace Processor

/-- The priorities of the threads: the service is above all tasks. -/
def prioOf (cprio : RtTask → Int32) : Thread → WithTop Int
  | .service => ⊤
  | .writer w => (cprio w).toInt

/-- The current priority of a thread. -/
def prio (c : Processor) : Thread → WithTop Int := prioOf c.system.driver.kernel.cprio

/-- A thread inside the driver is ready, spinning or not; the service is blocked only in
`rtdm_event_wait`. -/
def Ready (c : Processor) : Thread → Prop
  | .service => c.system.pc .service ≠ .outside ∨ c.system.event = true
  | .writer w => c.system.pc (.writer w) ≠ .outside ∨ c.awake w = true

/-- The ready thread of highest priority. -/
def Runs (c : Processor) (i : Thread) : Prop := c.Ready i ∧ ∀ j, c.Ready j → c.prio j ≤ c.prio i

/-- The steps: of the running thread or of a hook, and threads that go to sleep and
wake up outside the driver. -/
inductive Label
  | step (l : Edfomai.Label)
  | sleep (w : RtTask)
  | awaken (w : RtTask)

/-- What a step does. -/
def Step (c : Processor) : Label → Processor → Prop
  | .step l, c' => (∀ i ∈ l.actor, c.Runs i) ∧ c.system.step l = some c'.system ∧
      c'.awake = c.awake
  | .sleep w, c' => c' = { c with awake := Function.update c.awake w false }
  | .awaken w, c' => c' = { c with awake := Function.update c.awake w true }

/-- Threads scheduled by priority. -/
def scheduled : TransitionSystem Processor Label where
  init c := c.system.Init
  step := Step

/-- The running thread spins on the lock, and a ready thread of lower priority holds
it. -/
def Hangs (c : Processor) : Prop :=
  ∃ i j op, c.Runs i ∧ c.system.pc i = .spin op ∧ c.system.lock = some j ∧ c.Ready j ∧
    c.prio j < c.prio i

/-- The condition: whoever asks for the held lock is not above its holder, and no
priority set by the holder's recalculation puts a spinning thread above the holder. -/
def KeepsOrder (c : Processor) : Label → Prop
  | .step (.lockGet i) => ∀ j, c.system.lock = some j → c.prio i ≤ c.prio j
  | .step (.recalc j _) => ∀ buffer rpc task prio,
      c.system.pc j = .recalculating buffer rpc →
      rpc.setsPriority c.system.driver = some (task, prio) →
      ∀ i op, c.system.pc i = .spin op →
        prioOf (Function.update c.system.driver.kernel.cprio task prio) i ≤
          prioOf (Function.update c.system.driver.kernel.cprio task prio) j
  | _ => True

/-! ### Spinning threads are not above the holder -/

/-- The invariant. -/
def SpinsBelow (pc : Thread → Pc) (lock : Option Thread) (cprio : RtTask → Int32) : Prop :=
  ∀ i j op, pc i = .spin op → lock = some j → prioOf cprio i ≤ prioOf cprio j

namespace SpinsBelow

variable {pc : Thread → Pc} {lock : Option Thread} {cprio : RtTask → Int32} {i : Thread} {p : Pc}

theorem congr {cprio' : RtTask → Int32} (h : SpinsBelow pc lock cprio) (hc : cprio' = cprio) :
    SpinsBelow pc lock cprio' := hc ▸ h

/-- A thread moves on without beginning to spin. -/
theorem move (h : SpinsBelow pc lock cprio) (hp : ∀ op, p ≠ .spin op) :
    SpinsBelow (Function.update pc i p) lock cprio := by
  intro k j op hk hlock
  rcases eq_or_ne k i with rfl | hne
  · rw [Function.update_self] at hk
    exact absurd hk (hp op)
  · rw [Function.update_of_ne hne] at hk
    exact h k j op hk hlock

/-- A thread begins to spin. -/
theorem spin (h : SpinsBelow pc lock cprio)
    (hi : ∀ j, lock = some j → prioOf cprio i ≤ prioOf cprio j) :
    SpinsBelow (Function.update pc i p) lock cprio := by
  intro k j op hk hlock
  rcases eq_or_ne k i with rfl | hne
  · exact hi j hlock
  · rw [Function.update_of_ne hne] at hk
    exact h k j op hk hlock

theorem unlocked : SpinsBelow pc none cprio := fun _ _ _ _ hlock => absurd hlock (by simp)

end SpinsBelow

theorem begin_cprio {op : Op} {r : Replies} {d : Driver} {p : Progress}
    (h : op.begin r d = some p) : p.driver.kernel.cprio = d.kernel.cprio := by
  rcases Op.begin_inv h with hsame | ⟨_, _, _, _, _, _, _, hcprio, _⟩ | ⟨_, _, _, hdel⟩
  · exact hsame.cprio
  · exact hcprio
  · exact (delete_nodes hdel).2.1

theorem prioOf_update_of_ne {cprio : RtTask → Int32} {task : RtTask} {prio : Int32} {i : Thread}
    (h : i ≠ .writer task) : prioOf (Function.update cprio task prio) i = prioOf cprio i := by
  cases i with
  | service => rfl
  | writer w =>
      have hne : w ≠ task := fun heq => h (heq ▸ rfl)
      simp [prioOf, hne]

/-- A step of the holder's recalculation. -/
theorem recalc_spinsBelow {c : Processor} {i : Thread} {buffer : Option Block}
    {rpc rpc' : RecalcPc} {d : Driver} {clock : UInt64}
    (hheld : System.HeldBy c.system.pc c.system.lock)
    (h : SpinsBelow c.system.pc c.system.lock c.system.driver.kernel.cprio)
    (hok : c.KeepsOrder (.step (.recalc i clock)))
    (hpc : c.system.pc i = .recalculating buffer rpc)
    (hrec : rpc.step clock c.system.driver = some (rpc', d)) :
    SpinsBelow c.system.pc c.system.lock d.kernel.cprio := by
  obtain ⟨-, -, -, hcprio⟩ := RecalcPc.step_inv hrec
  cases hset : rpc.setsPriority c.system.driver with
  | none =>
      rw [hset] at hcprio
      exact h.congr hcprio
  | some call =>
      rw [hset] at hcprio
      refine SpinsBelow.congr (fun k j op hk hlock => ?_) hcprio
      have hi := (hheld i).mp (by rw [hpc]; trivial)
      obtain rfl : i = j := Option.some.inj (hi.symm.trans hlock)
      exact hok buffer rpc call.1 call.2 hpc hset k op hk

/-- A new task is neither spinning nor inside. -/
theorem spawn_spinsBelow {c : Processor} {task : RtTask} (prio : Int32)
    (hheld : System.HeldBy c.system.pc c.system.lock)
    (h : SpinsBelow c.system.pc c.system.lock c.system.driver.kernel.cprio)
    (hgone : c.system.Gone task) :
    SpinsBelow c.system.pc c.system.lock
      (Function.update c.system.driver.kernel.cprio task prio) := by
  obtain ⟨-, -, hout⟩ := hgone
  intro i j op hi hlock
  have hi' : i ≠ .writer task := by
    rintro rfl
    rw [hout] at hi
    exact absurd hi (by simp)
  have hj' : j ≠ .writer task := by
    rintro rfl
    have hinside := (hheld _).mpr hlock
    rw [hout] at hinside
    exact hinside
  rw [prioOf_update_of_ne hi', prioOf_update_of_ne hj']
  exact h i j op hi hlock

theorem Step.spinsBelow {c c' : Processor} {l : Label}
    (hheld : System.HeldBy c.system.pc c.system.lock)
    (h : SpinsBelow c.system.pc c.system.lock c.system.driver.kernel.cprio)
    (hok : c.KeepsOrder l) (hstep : c.Step l c') :
    SpinsBelow c'.system.pc c'.system.lock c'.system.driver.kernel.cprio := by
  cases l with
  | sleep w =>
      obtain rfl := hstep
      exact h
  | awaken w =>
      obtain rfl := hstep
      exact h
  | step l =>
      obtain ⟨hruns, hs, -⟩ := hstep
      generalize c'.system = s' at hs
      have hstep := System.Step.of_step hs
      cases hstep with
      | resolved => exact h.move (by simp)
      | wake => exact h.move (by simp)
      | @taken i op hpc hlock =>
          -- whoever else spins is ready, and the running thread is above it
          intro k j op' hk hj
          obtain rfl := Option.some.inj hj
          have hne : k ≠ i := by
            rintro rfl
            simp at hk
          simp only [System.goto_pc, Function.update_of_ne hne] at hk
          refine (hruns i rfl).2 k ?_
          cases k <;> exact Or.inl (by simp [hk])
      | spins hpc hlock => exact h.spin fun j' hj' => hok j' hj'
      | returned hpc hfresh hbegin => exact (h.congr (begin_cprio hbegin)).move (by simp)
      | begun hpc hfresh hbegin => exact (h.congr (begin_cprio hbegin)).move (by simp)
      | recalc hpc hrec => exact (recalc_spinsBelow hheld h hok hpc hrec).move (by simp)
      | recalculated hpc hrec =>
          exact ((recalc_spinsBelow hheld h hok hpc hrec).congr (freeBuffer_cprio ..)).move
            (by simp)
      | put => exact SpinsBelow.unlocked
      | clear => exact h.move (by simp)
      | spawn hgone => exact spawn_spinsBelow _ hheld h hgone
      | hookDelete hhook hdel => exact h.congr (delete_nodes hdel).2.1
      | _ => exact h

theorem Step.heldBy {c c' : Processor} {l : Label}
    (h : System.HeldBy c.system.pc c.system.lock) (hstep : c.Step l c') :
    System.HeldBy c'.system.pc c'.system.lock := by
  cases l with
  | sleep w =>
      obtain rfl := hstep
      exact h
  | awaken w =>
      obtain rfl := hstep
      exact h
  | step l => exact (System.Step.of_step hstep.2.1).heldBy h

/-- Asking for the lock of a thread of lower priority hangs the processor at once: the
running thread keeps running, and it spins. -/
theorem hangs_of_lockGet {c : Processor} {s' : System} {i j : Thread} {op : Op}
    (hruns : c.Runs i) (hpc : c.system.pc i = .acquire op) (hlock : c.system.lock = some j)
    (hready : c.Ready j) (hlt : c.prio j < c.prio i)
    (hstep : c.system.step (.lockGet i) = some s') : Hangs ⟨s', c.awake⟩ := by
  have hs' : s' = c.system.goto i (.spin op) := by
    simpa [System.step, hpc, System.lockGet, hlock, eq_comm] using hstep
  subst hs'
  -- no thread but `i` has moved, and `i` is inside the driver as before
  have hsame : ∀ k, Ready ⟨c.system.goto i (.spin op), c.awake⟩ k ↔ c.Ready k := by
    intro k
    rcases eq_or_ne k i with rfl | hne
    · cases k <;> simp [Ready, hpc]
    · cases k <;> simp [Ready, Function.update_of_ne hne]
  refine ⟨i, j, op, ⟨(hsame i).mpr hruns.1, fun k hk => hruns.2 k ((hsame k).mp hk)⟩, by simp,
    hlock, (hsame j).mpr hready, hlt⟩

/-! ### Runs of the small system -/

instance (c : Processor) : DecidablePred c.Ready
  | .service => inferInstanceAs (Decidable (_ ∨ _))
  | .writer _ => inferInstanceAs (Decidable (_ ∨ _))

/-- The threads that take part in the runs below. -/
def letterThreads : List Thread := [.service, .writer 0, .writer 1]

/-- The threads of tasks 0 and 1 are awake, the others asleep. -/
def letterProcessor (s : System) : Processor := ⟨s, fun w => w = 0 ∨ w = 1⟩

/-- Nobody else is ready. -/
def OthersIdle (s : System) : Prop := ∀ i, i ∉ letterThreads → ¬(letterProcessor s).Ready i

/-- The call of `rt_task_set_priority` that a thread makes next. -/
def nextCall (s : System) (j : Thread) : Option (RtTask × Int32) :=
  match s.pc j with
  | .recalculating _ rpc => rpc.setsPriority s.driver
  | _ => none

/-- `KeepsOrder`, with a look at the threads that take part only: after a call of
`rt_task_set_priority` none of them that is ready is above the holder. -/
def KeepsOrderAmong (s : System) : Edfomai.Label → Prop
  | .lockGet i => ∀ j ∈ s.lock, (letterProcessor s).prio i ≤ (letterProcessor s).prio j
  | .recalc j _ => ∀ call ∈ nextCall s j, ∀ i ∈ letterThreads, (letterProcessor s).Ready i →
      prioOf (Function.update s.driver.kernel.cprio call.1 call.2) i ≤
        prioOf (Function.update s.driver.kernel.cprio call.1 call.2) j
  | _ => True

instance (s : System) : DecidablePred (KeepsOrderAmong s)
  | .lockGet _ | .recalc _ _ => by unfold KeepsOrderAmong; infer_instance
  | .write .. | .wake | .run .. | .lockPut _ | .clear | .start | .spawn .. | .kill _
  | .hookDelete .. | .hookSignal _ | .forget .. => isTrue trivial

/-- It is the turn of the thread that moves, and it keeps the order. -/
def Turn (s : System) (l : Edfomai.Label) : Prop :=
  (∀ i ∈ l.actor, i ∈ letterThreads ∧ (letterProcessor s).Ready i ∧
    ∀ j ∈ letterThreads, (letterProcessor s).Ready j →
      (letterProcessor s).prio j ≤ (letterProcessor s).prio i) ∧ KeepsOrderAmong s l

instance (s : System) : DecidablePred (Turn s) :=
  fun _ => inferInstanceAs (Decidable (_ ∧ _))

section Turn

variable {s s' : System} {l : Edfomai.Label}

theorem OthersIdle.runs {i : Thread} (h : OthersIdle s) (hready : (letterProcessor s).Ready i)
    (hmax : ∀ j ∈ letterThreads, (letterProcessor s).Ready j →
      (letterProcessor s).prio j ≤ (letterProcessor s).prio i) : (letterProcessor s).Runs i := by
  refine ⟨hready, fun j hj => hmax j ?_ hj⟩
  by_contra hother
  exact h j hother hj

theorem OthersIdle.keepsOrder (h : OthersIdle s) (hok : KeepsOrderAmong s l) :
    (letterProcessor s).KeepsOrder (.step l) := by
  cases l with
  | lockGet i => exact hok
  | recalc j clock =>
      intro buffer rpc task prio hpc hset i op hi
      replace hpc : s.pc j = .recalculating buffer rpc := hpc
      replace hi : s.pc i = .spin op := hi
      have hready : (letterProcessor s).Ready i := by
        cases i <;> exact Or.inl (by simp [letterProcessor, hi])
      have hmem : i ∈ letterThreads := by
        by_contra hother
        exact h i hother hready
      have hcall : (task, prio) ∈ nextCall s j := by
        rw [nextCall, hpc]
        exact hset
      exact hok (task, prio) hcall i hmem hready
  | _ => trivial

/-- A step of a thread that takes part leaves the others idle. -/
theorem OthersIdle.step (h : OthersIdle s) (hturn : Turn s l) (hstep : s.step l = some s') :
    OthersIdle s' := by
  intro i hi hready
  cases i with
  | service => exact hi (by decide)
  | writer w =>
      have hactor : l.actor ≠ some (.writer w) := fun heq => hi (hturn.1 _ heq).1
      refine h (.writer w) hi ?_
      rw [Ready, letterProcessor, (System.Step.of_step hstep).pc_of_ne hactor] at hready
      exact hready

/-- Steps in turn make a run. -/
theorem scheduled_of_turns {ls : List Edfomai.Label} (hidle : OthersIdle s)
    (hs : (scheduled.restrict KeepsOrder).Reachable (letterProcessor s))
    (hturns : System.Allowed Turn ls s) (h : s.execAll ls = some s') :
    OthersIdle s' ∧ (scheduled.restrict KeepsOrder).Reachable (letterProcessor s') := by
  induction ls generalizing s with
  | nil =>
      obtain rfl := Option.some.inj h
      exact ⟨hidle, hs⟩
  | cons l ls ih =>
      obtain ⟨s₁, h₁, h⟩ := Option.bind_eq_some_iff.mp h
      obtain ⟨hturn, hturns⟩ := hturns
      have hruns : ∀ i ∈ l.actor, (letterProcessor s).Runs i := fun i hi =>
        hidle.runs (hturn.1 i hi).2.1 (hturn.1 i hi).2.2
      exact ih (hidle.step hturn h₁)
        (hs.step (l := .step l) ⟨⟨hruns, h₁, rfl⟩, hidle.keepsOrder hturn.2⟩) (hturns s₁ h₁) h

theorem letterSystem_othersIdle : OthersIdle System.letterSystem := by
  intro i hi hready
  cases i with
  | service => exact hi (by decide)
  | writer w =>
      obtain hpc | hawake := hready
      · exact hpc rfl
      · have hw : w = 0 ∨ w = 1 := of_decide_eq_true hawake
        rcases hw with rfl | rfl <;> exact hi (by decide)

theorem letterProcessor_reachable {ls : List Edfomai.Label}
    (hturns : System.Allowed Turn ls System.letterSystem)
    (h : (System.letterSystem.execAll ls).isSome) :
    OthersIdle (System.letterSteps ls) ∧
      (scheduled.restrict KeepsOrder).Reachable (letterProcessor (System.letterSteps ls)) := by
  obtain ⟨s, hs⟩ := Option.isSome_iff_exists.mp h
  rw [System.letterSteps, hs, Option.getD_some]
  exact scheduled_of_turns letterSystem_othersIdle (.init System.letterSystem_init) hturns hs

end Turn

/-! ### No hang -/

/-- **The processor does not hang** in a run in which no thread asks for the held lock
with a higher priority than its holder's, and no priority set by the holder while
another thread spins puts that thread above the holder. -/
theorem no_hang {c : Processor} (hc : (scheduled.restrict KeepsOrder).Reachable c) :
    ¬c.Hangs := by
  have hinit : ∀ c, (scheduled.restrict KeepsOrder).init c →
      System.HeldBy c.system.pc c.system.lock ∧
        SpinsBelow c.system.pc c.system.lock c.system.driver.kernel.cprio := by
    intro c h
    refine ⟨System.heldBy_of_reachable (.init h), ?_⟩
    rw [h.lock]
    exact SpinsBelow.unlocked
  have hstep : ∀ c l c', System.HeldBy c.system.pc c.system.lock ∧
        SpinsBelow c.system.pc c.system.lock c.system.driver.kernel.cprio →
      (scheduled.restrict KeepsOrder).step c l c' →
        System.HeldBy c'.system.pc c'.system.lock ∧
          SpinsBelow c'.system.pc c'.system.lock c'.system.driver.kernel.cprio :=
    fun _ _ _ h hstep => ⟨Step.heldBy h.1 hstep.1, Step.spinsBelow h.1 h.2 hstep.2 hstep.1⟩
  obtain ⟨-, hbelow⟩ := hc.invariant hinit hstep
  rintro ⟨i, j, op, -, hi, hj, -, hlt⟩
  exact absurd (hbelow i j op hi hj) (not_le_of_gt hlt)

/-- Tasks 0 and 1 get the same deadline and the same priority. The thread of task 0 shortens its
own; while it holds the lock the thread of task 1 asks for it and spins, and the second pass then
lowers the priority of task 1. -/
def contendedSteps : List Edfomai.Label :=
  System.wholeRequest 0 (letterMessage .createTask 0 10) (plainReplies 0 10) 5 ++
    System.wholeRequest 0 (letterMessage .createTask 1 10) (plainReplies 0 20) 7 ++
    [.write 0 (letterMessage .setDeadline 0 5) [], .lockGet (.writer 0),
      .run (.writer 0) (plainReplies 1 30), .recalc (.writer 0) 1, .recalc (.writer 0) 1,
      .write 1 (letterMessage .resetDeadline 1 0) [], .lockGet (.writer 1),
      .recalc (.writer 0) 1, .lockGet (.writer 1), .recalc (.writer 0) 1, .recalc (.writer 0) 1,
      .recalc (.writer 0) 1]

/-- Task 1 spins with priority 0, having asked for the lock with that of its holder, task 0. -/
theorem no_hang_contended :
    (System.letterSteps contendedSteps).lock = some (.writer 0) ∧
      (System.letterSteps contendedSteps).pc (.writer 1) = .spin (.resetdeadline 1) ∧
      (System.letterSteps contendedSteps).driver.kernel.cprio 1 = 0 ∧
      ¬(letterProcessor (System.letterSteps contendedSteps)).Hangs :=
  ⟨by decide +kernel, by decide +kernel, by decide +kernel,
    no_hang (letterProcessor_reachable (by decide +kernel) (by decide +kernel)).2⟩

/-- The thread of task 0 has taken the lock for its request when a hook signals, and the service
preempts it. -/
def signalledSteps : List Edfomai.Label :=
  [.write 0 (letterMessage .resetDeadline 0 0) [], .lockGet (.writer 0), .start, .wake]

/-- The service then asks for the lock, and spins for ever. -/
theorem hang_on_signal : ∃ c, scheduled.Reachable c ∧ c.Hangs := by
  have hturns : System.Allowed Turn signalledSteps System.letterSystem := by decide +kernel
  obtain ⟨hidle, hc⟩ := letterProcessor_reachable hturns (by decide +kernel)
  have hstep : (System.letterSteps signalledSteps).step (.lockGet .service) =
      some (System.letterSteps (signalledSteps ++ [.lockGet .service])) :=
    System.letterSteps_step (by decide +kernel)
  have hruns : (letterProcessor (System.letterSteps signalledSteps)).Runs .service :=
    hidle.runs (by decide +kernel) (by decide +kernel)
  have hpc : (System.letterSteps signalledSteps).pc .service = .acquire .recalculateprio := by
    decide +kernel
  have hlock : (System.letterSteps signalledSteps).lock = some (.writer 0) := by decide +kernel
  refine ⟨⟨_, _⟩, hc.of_restrict.step (l := .step (.lockGet .service))
    ⟨fun i hi => ?_, hstep, rfl⟩, hangs_of_lockGet hruns hpc hlock ?_ ?_ hstep⟩
  · obtain rfl := Option.some.inj hi
    exact hruns
  · exact Or.inl (by decide +kernel)
  · exact WithTop.coe_lt_top _

end Processor
end Edfomai
