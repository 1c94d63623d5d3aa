import Edfomai.Atomic

/-!
# Edfomai.Linear

**The interleaved threads are serialisable**: an operation takes many steps, and other threads,
hooks and tasks make theirs in between, but it might as well be carried out in one piece where its
thread runs it (`serialisable`).

While a thread is inside `rt_dtask_recalculateprio` its operation has not had its effect yet. So the
driver is compared with what it will be once that thread has finished (`SettlesTo`). A step of the
pass does not change that, and what the others do meanwhile commutes with the rest of the pass,
because it is about tasks that have no record. The hook of a task that has one is the exception: it
deletes the record at once, without waiting for the lock.

The operation begins before its pass has read the clock. `linearise` therefore looks ahead in the
steps for the value that will be read.
-/

namespace Edfomai

/-! ### Changes of the kernel during a pass -/

/-- A change of what the kernel knows that is about one task only. -/
structure Kernel.Elsewhere (task : RtTask) (f : Kernel → Kernel) : Prop where
  inquire : ∀ x u, u ≠ task → (f x).rtTaskInquire u = x.rtTaskInquire u
  log : ∀ x e, f (Kernel.log e x) = Kernel.log e (f x)
  setPriority : ∀ x u p, u ≠ task → f (x.rtTaskSetPriority u p) = (f x).rtTaskSetPriority u p

/-- Change what the kernel knows. -/
def Driver.onKernel (f : Kernel → Kernel) (d : Driver) : Driver := { d with kernel := f d.kernel }

/-- What a new task changes. -/
def Kernel.enter (task : RtTask) (name : TaskName) (prio : Int32) (x : Kernel) : Kernel :=
  { x with name := Function.update x.name task name, cprio := Function.update x.cprio task prio }

/-- What the reuse of a descriptor changes. -/
def Kernel.rename (task : RtTask) (name : TaskName) (x : Kernel) : Kernel :=
  { x with name := Function.update x.name task name }

theorem Kernel.enter_elsewhere (task : RtTask) (name : TaskName) (prio : Int32) :
    Kernel.Elsewhere task (Kernel.enter task name prio) where
  inquire x u hu := by simp [rtTaskInquire, enter, hu]
  log x e := rfl
  setPriority x u p hu := by
    simp only [rtTaskSetPriority, enter, Kernel.log, Function.update_comm hu]

theorem Kernel.rename_elsewhere (task : RtTask) (name : TaskName) :
    Kernel.Elsewhere task (Kernel.rename task name) where
  inquire x u hu := by simp [rtTaskInquire, rename, hu]
  log x e := rfl
  setPriority x u p hu := rfl

section Elsewhere

variable {task : RtTask} {f : Kernel → Kernel} {t : UInt64} {d d' : Driver} {pc pc' : RecalcPc}

theorem firstPassBody_elsewhere (hf : Kernel.Elsewhere task f) (x : Kernel) (k : TaskName)
    (m : Extremes) {r : RtDtask} (hr : r.task ≠ task) :
    firstPassBody (f x) t k m r = firstPassBody x t k m r := by
  unfold firstPassBody
  rw [hf.inquire x r.task hr]

theorem secondPassBody_elsewhere (hf : Kernel.Elsewhere task f) (m : Extremes) (k : TaskName)
    (x : Kernel) {r : RtDtask} (hr : r.task ≠ task) :
    secondPassBody t m k (f x) r = (secondPassBody t m k x r).map f id := by
  unfold secondPassBody
  split
  · by_cases hremain : r.remain = 0 <;> simp only [hremain, if_true, if_false] <;> split <;>
      simp [hf.setPriority _ _ _ hr, hf.log]
  · rfl

/-- A step of a pass does not see a change about a task that has no record. -/
theorem RecalcPc.step_elsewhere (hf : Kernel.Elsewhere task f)
    (hno : ∀ n ∈ d.nodes, n.task ≠ task) (h : pc.step t d = some (pc', d')) :
    pc.step t (d.onKernel f) = some (pc', d'.onKernel f) := by
  have hrec : ∀ k r, d.dtaskMap.lookup k = some r → r.task ≠ task := fun k r hl =>
    hno ⟨k, r.task, r.addr⟩ (Driver.mem_nodes.mpr ⟨r, hl, rfl, rfl⟩)
  cases pc with
  | entry =>
      rw [step] at h
      split at h
      · next hempty =>
        obtain ⟨rfl, rfl⟩ := Prod.mk.inj (Option.some.inj h)
        have hempty' : (d.onKernel f).dtaskMap.keys.length = 0 := hempty
        rw [step, if_pos hempty']
      · next hempty =>
        obtain ⟨rfl, rfl⟩ := Prod.mk.inj (Option.some.inj h)
        have hempty' : ¬(d.onKernel f).dtaskMap.keys.length = 0 := hempty
        have hlog : (d.log (.recalculated t)).onKernel f =
            (d.onKernel f).log (.recalculated t) := by
          rw [Driver.onKernel, Driver.log, hf.log]
          rfl
        rw [step, if_neg hempty', hlog]
        rfl
  | firstPass u m next =>
      cases next with
      | none =>
          obtain ⟨rfl, rfl⟩ := Prod.mk.inj (Option.some.inj h)
          rfl
      | some b =>
          obtain ⟨v, hv, heq⟩ := Option.map_eq_some_iff.mp h
          obtain ⟨rfl, rfl⟩ := Prod.mk.inj heq
          have hvisit : Table.visit (fun r => r.addr) (firstPassBody (f d.kernel) u) m b
              d.dtaskMap = some v := by
            rw [← hv]
            exact Table.visit_congr
              fun k m r hl => firstPassBody_elsewhere hf d.kernel k m (hrec k r hl)
          exact Option.map_eq_some_iff.mpr ⟨v, hvisit, rfl⟩
  | secondPass u m next =>
      cases next with
      | none =>
          obtain ⟨rfl, rfl⟩ := Prod.mk.inj (Option.some.inj h)
          rfl
      | some b =>
          obtain ⟨v, hv, heq⟩ := Option.map_eq_some_iff.mp h
          obtain ⟨rfl, rfl⟩ := Prod.mk.inj heq
          have hvisit : Table.visit (fun r => r.addr) (secondPassBody u m) (f d.kernel) b
              d.dtaskMap = some (f v.1, v.2) := by
            rw [Table.visit_map (fun k x r hl =>
              secondPassBody_elsewhere hf m k x (hrec k r hl)) d.kernel b, hv]
            rfl
          exact Option.map_eq_some_iff.mpr ⟨_, hvisit, rfl⟩
  | done => cases h

/-- Nor does the rest of the pass. -/
theorem RecalcSteps.elsewhere (hf : Kernel.Elsewhere task f) {c c' : RecalcPc × Driver}
    (hno : ∀ n ∈ c.2.nodes, n.task ≠ task) (h : RecalcSteps t c c') :
    RecalcSteps t (c.1, c.2.onKernel f) (c'.1, c'.2.onKernel f) := by
  induction h using Relation.ReflTransGen.head_induction_on with
  | refl => exact .refl
  | @head c₁ c₂ hstep _ ih =>
      have hnodes := (RecalcPc.step_inv hstep).1
      exact .head (RecalcPc.step_elsewhere hf hno hstep) (ih (by rwa [hnodes]))

end Elsewhere

/-! ### What happens to the driver in one piece -/

/-- An operation, or a change of the tasks it may be about. -/
inductive DriverEvent
  | request (q : Request)
  | spawn (task : RtTask) (name : TaskName) (prio : Int32)
  | forget (task : RtTask) (name : TaskName)
  deriving DecidableEq

namespace DriverEvent

/-- Carry out an event. -/
def exec : DriverEvent → Driver → Option Driver
  | request q, d => (q.op.exec q.replies d).map Prod.snd
  | spawn task name prio, d => some (d.onKernel (Kernel.enter task name prio))
  | forget task name, d => some (d.onKernel (Kernel.rename task name))

/-- Carry out events, one after the other. -/
def execAll : List DriverEvent → Driver → Option Driver
  | [], d => some d
  | e :: es, d => (e.exec d).bind (execAll es)

theorem execAll_append (es es' : List DriverEvent) (d : Driver) :
    execAll (es ++ es') d = (execAll es d).bind (execAll es') := by
  induction es generalizing d with
  | nil => rfl
  | cons e es ih =>
      simp only [List.cons_append, execAll, Option.bind_assoc]
      exact congrArg _ (funext ih)

end DriverEvent

/-- The pass that a thread is in, and the buffer of its operation. -/
def Pc.pass : Pc → Option (Option Block × RecalcPc)
  | recalculating buffer rpc => some (buffer, rpc)
  | _ => none

theorem Pc.pass_eq_some {p : Pc} {buffer : Option Block} {rpc : RecalcPc} :
    p.pass = some (buffer, rpc) ↔ p = .recalculating buffer rpc := by
  cases p <;> simp [pass]

/-- The clock value that a step of a pass is given. -/
def Label.passClock : Label → Option UInt64
  | recalc _ clock => some clock
  | _ => none

/-- The clock value of the next step of a pass, or else `t`. -/
def nextClock (t : UInt64) (ls : List Label) : UInt64 := (ls.findSome? Label.passClock).getD t

theorem nextClock_cons (t : UInt64) (l : Label) (ls : List Label) :
    nextClock t (l :: ls) = l.passClock.getD (nextClock t ls) := by
  rw [nextClock, List.findSome?_cons]
  cases l.passClock <;> rfl

namespace System

/-- Nobody is inside a pass. -/
def Settled (s : System) : Prop := ∀ i ∈ s.lock, (s.pc i).pass = none

instance (s : System) : Decidable s.Settled :=
  inferInstanceAs (Decidable (∀ i ∈ s.lock, (s.pc i).pass = none))

/-- The clock value that the pass which has begun will read, if one has. -/
def reading (t : UInt64) (ls : List Label) (s : System) : UInt64 :=
  if s.Settled then t else nextClock t ls

/-- What a step comes to, if everything is done in one piece. The clock value that an operation
reads for its pass is found among the steps that follow. -/
def effect (s : System) (l : Label) (s' : System) (ls : List Label) : Option DriverEvent :=
  match l with
  | .run i r =>
      match s.pc i with
      | .critical op =>
          some (.request ⟨op, { r with recalcClock := s'.reading r.armClock ls }⟩)
      | _ => none
  | .hookDelete task r => some (.request ⟨.delete task, { r with recalcClock := r.armClock }⟩)
  | .spawn task name prio => some (.spawn task name prio)
  | .forget task name => some (.forget task name)
  | _ => none

/-- The events of a run: the operations in the order in which the lock was taken for them, and
between them the hooks and the changes of tasks in the order in which they happened. -/
def linearise : List Label → System → List DriverEvent
  | [], _ => []
  | l :: ls, s =>
      match s.step l with
      | some s' => (s.effect l s' ls).toList ++ linearise ls s'
      | none => []

/-- The condition: while a thread is inside a pass no deletion hook is at work, and the descriptors
of the tasks that have records are not used for something else. -/
def Undisturbed (s : System) : Label → Prop
  | .hookDelete _ _ => s.Settled
  | .spawn task _ _ | .forget task _ => s.Settled ∨ ∀ n ∈ s.driver.nodes, n.task ≠ task
  | _ => True

instance (s : System) : (l : Label) → Decidable (Undisturbed s l)
  | .hookDelete _ _ => inferInstanceAs (Decidable s.Settled)
  | .spawn task _ _ | .forget task _ =>
      inferInstanceAs (Decidable (s.Settled ∨ ∀ n ∈ s.driver.nodes, n.task ≠ task))
  | .write .. | .wake | .lockGet _ | .run .. | .recalc .. | .lockPut _ | .clear | .start | .kill _
  | .hookSignal _ => isTrue trivial

/-- What the driver will be when nobody is inside a pass any more, if the next clock value is
`t`. -/
inductive SettlesTo (s : System) (t : UInt64) : Driver → Prop
  | settled : s.Settled → SettlesTo s t s.driver
  | inPass {i : Thread} {buffer : Option Block} {rpc : RecalcPc} {d : Driver} :
      s.lock = some i → s.pc i = .recalculating buffer rpc →
      RecalcSteps t (rpc, s.driver) (.done, d) → SettlesTo s t (freeBuffer buffer d)

/-! ### The steps of a pass -/

end System

section Pass

variable {t t' : UInt64} {d d' : Driver} {pc pc' : RecalcPc} {c : RecalcPc × Driver}

/-- Only the first step looks at the clock. -/
theorem RecalcPc.step_clock (h : pc ≠ .entry) (t t' : UInt64) (d : Driver) :
    pc.step t d = pc.step t' d := by
  cases pc with
  | entry => exact absurd rfl h
  | firstPass u m next => cases next <;> rfl
  | secondPass u m next => cases next <;> rfl
  | done => rfl

theorem RecalcPc.step_ne_entry (h : pc.step t d = some (pc', d')) : pc' ≠ .entry := by
  rintro rfl
  cases pc with
  | entry =>
      rw [step] at h
      split at h <;> cases h
  | firstPass u m next =>
      cases next with
      | none => cases h
      | some b =>
          obtain ⟨v, -, heq⟩ := Option.map_eq_some_iff.mp h
          cases heq
  | secondPass u m next =>
      cases next with
      | none => cases h
      | some b =>
          obtain ⟨v, -, heq⟩ := Option.map_eq_some_iff.mp h
          cases heq
  | done => cases h

/-- After the first step the rest does not depend on the clock. -/
theorem RecalcSteps.of_clock {c' : RecalcPc × Driver} (hc : c.1 ≠ .entry)
    (h : RecalcSteps t c c') : RecalcSteps t' c c' := by
  induction h using Relation.ReflTransGen.head_induction_on with
  | refl => exact .refl
  | @head c₁ c₂ hstep _ ih =>
      have hstep' : c₁.1.step t' c₁.2 = some c₂ := by
        rw [RecalcPc.step_clock hc t' t]
        exact hstep
      exact .head hstep' (ih (RecalcPc.step_ne_entry hstep))

/-- What is left of a pass after one of its steps. -/
theorem RecalcSteps.rest (hstep : pc.step t d = some c) (h : RecalcSteps t (pc, d) (.done, d'))
    (t' : UInt64) : RecalcSteps t' c (.done, d') := by
  rcases Relation.ReflTransGen.cases_head h with heq | ⟨c', hstep', hrest⟩
  · obtain ⟨rfl, -⟩ := Prod.mk.inj heq
    cases hstep
  · have hc : c = c' := Option.some.inj (hstep.symm.trans hstep')
    subst hc
    exact RecalcSteps.of_clock (RecalcPc.step_ne_entry hstep) hrest

/-- Nothing is left of it at the `return`. -/
theorem RecalcSteps.of_done (h : RecalcSteps t (.done, d) (.done, d')) : d' = d := by
  rcases Relation.ReflTransGen.cases_head h with heq | ⟨c', hstep, -⟩
  · exact (Prod.mk.inj heq).2.symm
  · cases hstep

end Pass

/-- The beginning of an operation does not read the clock for the pass. -/
theorem Op.begin_clock (op : Op) (r : Replies) (t : UInt64) (d : Driver) :
    op.begin { r with recalcClock := t } d = op.begin r d := by
  cases op <;> rfl

/-- An operation that has begun, in one piece. -/
theorem DriverEvent.exec_of_begin {op : Op} {r : Replies} {d : Driver} {p : Progress}
    (h : op.begin r d = some p) (t : UInt64) :
    (DriverEvent.request ⟨op, { r with recalcClock := t }⟩).exec d = some (p.finish t).2 := by
  rw [exec, Op.exec_eq_begin, Op.begin_clock, h]
  rfl

/-! ### Steps -/

namespace System

variable {s s' : System} {l : Label} {ls : List Label} {t : UInt64} {d : Driver}

theorem linearise_cons (h : s.step l = some s') :
    s.linearise (l :: ls) = (s.effect l s' ls).toList ++ s'.linearise ls := by
  rw [linearise, h]

theorem settled_of_free (h : s.lock = none) : s.Settled := by
  intro i hi
  rw [h] at hi
  cases hi

theorem settled_iff {i : Thread} (h : s.lock = some i) : s.Settled ↔ (s.pc i).pass = none := by
  rw [Settled, h]
  simp

theorem settled_at {i : Thread} {p : Pc} (h : s.lock = some i) (hpc : s.pc i = p)
    (hp : p.pass = none) : s.Settled := by
  rw [settled_iff h, hpc]
  exact hp

theorem not_settled_at {i : Thread} {buffer : Option Block} {rpc : RecalcPc} (h : s.lock = some i)
    (hpc : s.pc i = .recalculating buffer rpc) : ¬s.Settled := by
  rw [settled_iff h, hpc]
  simp [Pc.pass]

theorem settled_congr (hlock : s'.lock = s.lock) (hpc : ∀ i ∈ s.lock, s'.pc i = s.pc i) :
    s'.Settled ↔ s.Settled := by
  rw [Settled, Settled, hlock]
  exact forall₂_congr fun i hi => by rw [hpc i hi]

namespace SettlesTo

theorem eq_of_settled (h : s.SettlesTo t d) (hs : s.Settled) : d = s.driver := by
  cases h with
  | settled => rfl
  | inPass hlock hpc hsteps => exact absurd hs (not_settled_at hlock hpc)

/-- Steps that leave the driver and the thread that holds the lock alone. -/
theorem congr (h : s.SettlesTo t d) (hdriver : s'.driver = s.driver) (hlock : s'.lock = s.lock)
    (hpc : ∀ i ∈ s.lock, s'.pc i = s.pc i) : s'.SettlesTo t d := by
  cases h with
  | settled hs =>
      rw [← hdriver]
      exact .settled ((settled_congr hlock hpc).mpr hs)
  | @inPass i buffer rpc d hheld hat hsteps =>
      rw [← hdriver] at hsteps
      exact .inPass (hlock.trans hheld) ((hpc i hheld).trans hat) hsteps

/-- What happens to tasks without records. -/
theorem onKernel {task : RtTask} {f : Kernel → Kernel} (h : s.SettlesTo t d)
    (hf : Kernel.Elsewhere task f) (hok : s.Settled ∨ ∀ n ∈ s.driver.nodes, n.task ≠ task)
    (hdriver : s'.driver = s.driver.onKernel f) (hlock : s'.lock = s.lock) (hpc : s'.pc = s.pc) :
    s'.SettlesTo t (d.onKernel f) := by
  have hpc' : ∀ i ∈ s.lock, s'.pc i = s.pc i := fun i _ => by rw [hpc]
  cases h with
  | settled hs =>
      rw [← hdriver]
      exact .settled ((settled_congr hlock hpc').mpr hs)
  | @inPass i buffer rpc d hheld hat hsteps =>
      have hno : ∀ n ∈ s.driver.nodes, n.task ≠ task :=
        hok.resolve_left (not_settled_at hheld hat)
      have hrest := RecalcSteps.elsewhere hf hno hsteps
      rw [← hdriver] at hrest
      have hbuffer : (freeBuffer buffer d).onKernel f = freeBuffer buffer (d.onKernel f) := by
        cases buffer with
        | none => rfl
        | some b =>
            rw [freeBuffer, Driver.onKernel, Driver.log, hf.log]
            rfl
      rw [hbuffer]
      exact .inPass (hlock.trans hheld) ((hpc' i hheld).trans hat) hrest

end SettlesTo

/-- A thread outside does not hold the lock. -/
theorem HeldBy.pc_update {pc : Thread → Pc} {lock : Option Thread} {i : Thread} {p : Pc}
    (h : HeldBy pc lock) (hi : ¬(pc i).Inside) :
    ∀ j ∈ lock, Function.update pc i p j = pc j := by
  intro j hj
  refine Function.update_of_ne ?_ _ _
  rintro rfl
  exact hi ((h j).mpr hj)

/-- **One step.** What the driver will be changes by what the step comes to. -/
theorem Step.settlesTo (h : HeldBy s.pc s.lock) (hnd : s.driver.addrs.Nodup)
    (hok : Undisturbed s l) (hstep : Step s l s') (hd : s.SettlesTo (nextClock t (l :: ls)) d) :
    ∃ d' t', DriverEvent.execAll (s.effect l s' ls).toList d = some d' ∧
      s'.SettlesTo (nextClock t' ls) d' := by
  rw [nextClock_cons] at hd
  -- steps that come to nothing
  have hquiet : s.effect l s' ls = none → s'.SettlesTo (nextClock t ls) d →
      ∃ d' t', DriverEvent.execAll (s.effect l s' ls).toList d = some d' ∧
        s'.SettlesTo (nextClock t' ls) d' := by
    intro hnone hd'
    rw [hnone]
    exact ⟨d, t, rfl, hd'⟩
  cases hstep with
  | refused => exact hquiet rfl hd
  | resolved command hpc =>
      exact hquiet rfl (hd.congr rfl rfl (h.pc_update (by simp [hpc])))
  | wake hpc => exact hquiet rfl (hd.congr rfl rfl (h.pc_update (by simp [hpc])))
  | @taken i op hpc hfree =>
      refine hquiet rfl ?_
      obtain rfl := hd.eq_of_settled (settled_of_free hfree)
      exact .settled (settled_at rfl (Function.update_self ..) rfl)
  | spins hpc =>
      refine hquiet rfl (hd.congr rfl rfl (h.pc_update ?_))
      rcases hpc with hpc | hpc <;> simp [hpc]
  | @returned i op r ret d₁ hpc hfresh hbegin =>
      have hheld : s.lock = some i := (h i).mp (by rw [hpc]; trivial)
      obtain rfl := hd.eq_of_settled (settled_at hheld hpc rfl)
      refine ⟨d₁, t, ?_, .settled (settled_at hheld (Function.update_self ..) rfl)⟩
      simp only [effect, hpc, Option.toList_some, DriverEvent.execAll,
        DriverEvent.exec_of_begin hbegin]
      rfl
  | @begun i op r ret d₁ buffer hpc hfresh hbegin =>
      have hheld : s.lock = some i := (h i).mp (by rw [hpc]; trivial)
      obtain rfl := hd.eq_of_settled (settled_at hheld hpc rfl)
      have hnot : ¬({ s.goto i (.recalculating buffer .entry) with
          driver := d₁, marks := marked i s.marks } : System).Settled :=
        not_settled_at hheld (Function.update_self ..)
      have hnd₁ : d₁.addrs.Nodup := begin_addrs_nodup hbegin hfresh hnd
      refine ⟨_, r.armClock, ?_,
        .inPass hheld (Function.update_self ..) (recalc_steps (nextClock r.armClock ls) hnd₁)⟩
      simp only [effect, hpc, reading, if_neg hnot, Option.toList_some, DriverEvent.execAll,
        DriverEvent.exec_of_begin hbegin]
      rfl
  | @recalc i buffer rpc rpc' d₁ clock hpc hrec =>
      have hheld : s.lock = some i := (h i).mp (by rw [hpc]; trivial)
      refine hquiet rfl ?_
      cases hd with
      | settled hs => exact absurd hs (not_settled_at hheld hpc)
      | @inPass j buffer' rpc₁ d₂ hlock hat hsteps =>
          obtain rfl : i = j := Option.some.inj (hheld.symm.trans hlock)
          obtain ⟨rfl, rfl⟩ := Pc.recalculating.inj (hpc.symm.trans hat)
          exact .inPass hheld (Function.update_self ..) (RecalcSteps.rest hrec hsteps _)
  | @recalculated i buffer rpc d₁ clock hpc hrec =>
      have hheld : s.lock = some i := (h i).mp (by rw [hpc]; trivial)
      refine hquiet rfl ?_
      cases hd with
      | settled hs => exact absurd hs (not_settled_at hheld hpc)
      | @inPass j buffer' rpc₁ d₂ hlock hat hsteps =>
          obtain rfl : i = j := Option.some.inj (hheld.symm.trans hlock)
          obtain ⟨rfl, rfl⟩ := Pc.recalculating.inj (hpc.symm.trans hat)
          obtain rfl := RecalcSteps.of_done (RecalcSteps.rest hrec hsteps t)
          exact .settled (settled_at hheld (Function.update_self ..) rfl)
  | @put i hpc =>
      have hheld : s.lock = some i := (h i).mp (by rw [hpc]; trivial)
      obtain rfl := hd.eq_of_settled (settled_at hheld hpc rfl)
      exact hquiet rfl (.settled (settled_of_free rfl))
  | clear hpc => exact hquiet rfl (hd.congr rfl rfl (h.pc_update (by simp [hpc])))
  | start => exact hquiet rfl (hd.congr rfl rfl fun _ _ => rfl)
  | @spawn task name prio =>
      exact ⟨_, t, rfl, hd.onKernel (Kernel.enter_elsewhere task name prio) hok rfl rfl rfl⟩
  | kill => exact hquiet rfl (hd.congr rfl rfl fun _ _ => rfl)
  | @hookDelete task r ret d₁ hhook hdel =>
      obtain rfl := hd.eq_of_settled hok
      refine ⟨d₁, t, ?_, .settled hok⟩
      have hexec : (DriverEvent.request
          ⟨.delete task, { r with recalcClock := r.armClock }⟩).exec s.driver = some d₁ := by
        show (rtDtaskDelete r task s.driver).map Prod.snd = some d₁
        rw [hdel]
        rfl
      simp only [effect, Option.toList_some, DriverEvent.execAll, hexec]
      rfl
  | hookSignal => exact hquiet rfl (hd.congr rfl rfl fun _ _ => rfl)
  | @forget task name =>
      exact ⟨_, t, rfl, hd.onKernel (Kernel.rename_elsewhere task name) hok rfl rfl rfl⟩

/-- **A run.** -/
theorem execAll_settlesTo (hrun : s.execAll ls = some s') (h : HeldBy s.pc s.lock)
    (hnd : s.driver.addrs.Nodup) (hok : Allowed Undisturbed ls s)
    (hd : s.SettlesTo (nextClock t ls) d) :
    ∃ d' t', DriverEvent.execAll (s.linearise ls) d = some d' ∧ s'.SettlesTo t' d' := by
  induction ls generalizing s t d with
  | nil =>
      obtain rfl := Option.some.inj hrun
      exact ⟨d, _, rfl, hd⟩
  | cons l ls ih =>
      obtain ⟨s₁, hs₁, hrun⟩ := Option.bind_eq_some_iff.mp hrun
      have hstep := Step.of_step hs₁
      obtain ⟨d₁, t₁, heffect, hd₁⟩ := hstep.settlesTo h hnd hok.1 hd
      obtain ⟨d', t', hrest, hd'⟩ := ih hrun (hstep.heldBy h) (hstep.addrs_nodup hnd)
        (hok.2 s₁ hs₁) hd₁
      refine ⟨d', t', ?_, hd'⟩
      rw [linearise_cons hs₁, DriverEvent.execAll_append, heffect]
      exact hrest

/-- From a moment at which nobody is inside a pass to another. -/
theorem execAll_linearise (h : HeldBy s.pc s.lock) (hnd : s.driver.addrs.Nodup)
    (hsettled : s.Settled) (hok : Allowed Undisturbed ls s) (hrun : s.execAll ls = some s')
    (hsettled' : s'.Settled) :
    DriverEvent.execAll (s.linearise ls) s.driver = some s'.driver := by
  obtain ⟨d', t', hexec, hd'⟩ := execAll_settlesTo (t := 0) hrun h hnd hok (.settled hsettled)
  rw [hexec, hd'.eq_of_settled hsettled']

/-- **Interleavings are serialisable.** From any moment at which nobody is inside a pass to any
other, the steps of all threads, hooks and tasks come to the same as their operations carried out
one after the other, if nothing disturbs a pass. -/
theorem serialisable (hs : concurrent.Reachable s) (hsettled : s.Settled)
    (hok : Allowed Undisturbed ls s) (hrun : s.execAll ls = some s') (hsettled' : s'.Settled) :
    DriverEvent.execAll (s.linearise ls) s.driver = some s'.driver :=
  execAll_linearise (heldBy_of_reachable hs) (addrs_nodup hs) hsettled hok hrun hsettled'

theorem letterSteps_eq (h : (letterSystem.execAll ls).isSome) :
    letterSystem.execAll ls = some (letterSteps ls) := by
  obtain ⟨s, hs⟩ := Option.isSome_iff_exists.mp h
  rw [letterSteps, hs]
  rfl

/-- While the service recalculates, task `1` asks for the lock and a new task appears. -/
def interleavedSteps : List Label :=
  wholeRequest 0 (letterMessage .createTask 0 10) (plainReplies 0 10) 5 ++
    [.start, .wake, .lockGet .service, .run .service (plainReplies 4 30), .recalc .service 5,
      .write 1 (letterMessage .createTask 1 20) [], .recalc .service 5, .lockGet (.writer 1),
      .spawn 3 ⟨[100], by decide, by decide⟩ 25, .recalc .service 5, .lockGet (.writer 1),
      .recalc .service 5, .recalc .service 5, .lockPut .service, .lockGet (.writer 1), .clear,
      .run (.writer 1) (plainReplies 6 20)] ++
    List.replicate 7 (.recalc (.writer 1) 7)

theorem serialisable_interleaved :
    DriverEvent.execAll (letterSystem.linearise interleavedSteps) letterSystem.driver =
      some (letterSteps interleavedSteps).driver :=
  serialisable (.init letterSystem_init) (by decide +kernel) (by decide +kernel)
    (letterSteps_eq (by decide +kernel)) (by decide +kernel)

end System
end Edfomai
