import Edfomai.System

/-!
# Edfomai.Iteration

Whether the table stays as it is while a thread iterates over it. Whoever changes
the table from a write handler holds `edf_data_lock`, and so does whoever iterates;
but `edf_delete_hook` removes a record without taking the lock.

`iteration_intact` shows that this is the only danger: in runs in which no deletion
hook removes a record while a thread is inside a pass, every saved record is still in
the table.
-/

namespace Edfomai
namespace System

/-- The condition: a deletion hook does not find a record to remove while a thread is
inside a pass. -/
def HookSpares (s : System) : Label → Prop
  | .hookDelete task _ =>
      s.driver.dtaskMap.lookup (s.driver.kernel.name task) ≠ none → ∀ i, (s.pc i).saved = none
  | _ => True

/-- The table is intact for everyone who iterates over it. -/
structure IterationIntact (s : System) : Prop where
  /-- The saved next record is in the table, so it is when it is visited. -/
  present : ∀ i b, (s.pc i).saved = some (some b) →
    ∃ k r, s.driver.dtaskMap.lookup k = some r ∧ r.addr = b
  /-- The steps that do not add, remove or move a record while a thread iterates are
  those that meet the condition. -/
  unchanged : ∀ l s', s.step l = some s' →
    (HookSpares s l ↔ ∀ i, (s.pc i).saved ≠ none → s'.driver.nodes = s.driver.nodes)

/-- While a thread iterates, nobody else is at an operation. -/
theorem not_critical_of_saved {s : System} {i j : Thread} {op : Op} (h : HeldBy s.pc s.lock)
    (hi : (s.pc i).saved ≠ none) : s.pc j ≠ .critical op := by
  intro hj
  obtain ⟨next, hnext⟩ := Option.ne_none_iff_exists'.mp hi
  have hlock := (h i).mp (Pc.inside_of_saved hnext)
  have hlock' := (h j).mp (by rw [hj]; trivial)
  obtain rfl : i = j := Option.some.inj (hlock.symm.trans hlock')
  rw [hj] at hi
  exact hi rfl

theorem Step.nodes_of_saved {s s' : System} {l : Label} {i : Thread} (h : HeldBy s.pc s.lock)
    (hok : HookSpares s l) (hi : (s.pc i).saved ≠ none) (hstep : Step s l s') :
    s'.driver.nodes = s.driver.nodes := by
  cases hstep with
  | returned hpc => exact absurd hpc (not_critical_of_saved h hi)
  | begun hpc => exact absurd hpc (not_critical_of_saved h hi)
  | recalc hpc hrec => exact (RecalcPc.step_inv hrec).1
  | recalculated hpc hrec =>
      rw [freeBuffer_nodes]
      exact (RecalcPc.step_inv hrec).1
  | hookDelete hhook hdel =>
      obtain ⟨-, -, -, -, hnone⟩ := delete_nodes hdel
      refine hnone ?_
      by_contra hrecord
      exact hi (hok hrecord i)
  | _ => rfl

/-- Conversely, a deletion that leaves the table alone found nothing to remove. -/
theorem Step.hookSpares {s s' : System} {l : Label} (hstep : Step s l s')
    (h : ∀ i, (s.pc i).saved ≠ none → s'.driver.nodes = s.driver.nodes) : HookSpares s l := by
  cases hstep with
  | hookDelete hhook hdel =>
      intro hrecord i
      by_contra hi
      obtain ⟨r, hl⟩ := Option.ne_none_iff_exists'.mp hrecord
      obtain ⟨-, -, -, hgone, -⟩ := delete_nodes hdel
      have hn := Driver.mem_nodes (n := ⟨_, r.task, r.addr⟩).mpr ⟨r, hl, rfl, rfl⟩
      rw [← h i hi] at hn
      exact hgone _ hn rfl
  | _ => trivial

/-- The saved records of all threads are in the table. -/
def SavedIn (s : System) : Prop := ∀ i b, (s.pc i).saved = some (some b) → b ∈ s.driver.addrs

/-- A step by which a thread gets a new program counter without a saved record. -/
theorem SavedIn.move {s s' : System} {i : Thread} {p : Pc} (h : SavedIn s)
    (hnodes : ∀ j, (s.pc j).saved ≠ none → s'.driver.nodes = s.driver.nodes)
    (hpc : s'.pc = Function.update s.pc i p)
    (hp : ∀ b, p.saved = some (some b) → b ∈ s'.driver.addrs) : SavedIn s' := by
  intro j b hj
  rw [hpc] at hj
  rcases eq_or_ne j i with rfl | hne
  · rw [Function.update_self] at hj
    exact hp b hj
  · rw [Function.update_of_ne hne] at hj
    rw [Driver.addrs_eq, hnodes j (by simp [hj]), ← Driver.addrs_eq]
    exact h j b hj

theorem Step.savedIn {s s' : System} {l : Label} (h : HeldBy s.pc s.lock) (hsaved : SavedIn s)
    (hok : HookSpares s l) (hstep : Step s l s') : SavedIn s' := by
  have hnodes : ∀ j, (s.pc j).saved ≠ none → s'.driver.nodes = s.driver.nodes :=
    fun j hj => hstep.nodes_of_saved h hok hj
  -- steps that do not move a thread
  have hstay : s'.pc = s.pc → SavedIn s' := by
    intro hpc j b hj
    rw [hpc] at hj
    rw [Driver.addrs_eq, hnodes j (by simp [hj]), ← Driver.addrs_eq]
    exact hsaved j b hj
  cases hstep with
  | refused => exact hsaved
  | resolved => exact hsaved.move hnodes rfl (by simp)
  | wake => exact hsaved.move hnodes rfl (by simp)
  | taken => exact hsaved.move hnodes rfl (by simp)
  | spins => exact hsaved.move hnodes rfl (by simp)
  | returned => exact hsaved.move hnodes rfl (by simp)
  | begun => exact hsaved.move hnodes rfl (by simp [RecalcPc.saved])
  | recalc hpc hrec =>
      obtain ⟨hsame, -, hnext, -⟩ := RecalcPc.step_inv hrec
      refine hsaved.move hnodes rfl fun b hb => ?_
      rw [Driver.addrs_eq, hsame, ← Driver.addrs_eq]
      exact hnext b hb
  | recalculated => exact hsaved.move hnodes rfl (by simp)
  | @put i => exact hsaved.move hnodes rfl (by cases i <;> simp [afterPut])
  | clear => exact hsaved.move hnodes rfl (by simp)
  | start => exact hsaved
  | spawn => exact hsaved
  | kill => exact hsaved
  | hookDelete => exact hstay rfl
  | hookSignal => exact hsaved
  | forget => exact hsaved

/-- **Iteration is safe from everyone but the deletion hook.** In a run in which no
deletion hook removes a record while a thread is inside a pass, every record a pass
visits is in the table when it is visited, and nothing else changes the table in the
meantime. -/
theorem iteration_intact {s : System} (hs : (concurrent.restrict HookSpares).Reachable s) :
    IterationIntact s := by
  have hheld := heldBy_of_reachable hs.of_restrict
  have hsaved : SavedIn s := by
    have hboth : HeldBy s.pc s.lock ∧ SavedIn s := by
      have hinit : ∀ s, (concurrent.restrict HookSpares).init s → HeldBy s.pc s.lock ∧ SavedIn s :=
        fun s h => ⟨heldBy_of_reachable (.init h), fun i b hb => by simp [h.pc] at hb⟩
      have hstep : ∀ s l s', HeldBy s.pc s.lock ∧ SavedIn s →
          (concurrent.restrict HookSpares).step s l s' → HeldBy s'.pc s'.lock ∧ SavedIn s' :=
        fun _ _ _ h hstep => ⟨(Step.of_step hstep.1).heldBy h.1,
          (Step.of_step hstep.1).savedIn h.1 h.2 hstep.2⟩
      exact hs.invariant hinit hstep
    exact hboth.2
  constructor
  case present =>
    intro i b hb
    have hmem := hsaved i b hb
    rw [Driver.addrs_eq] at hmem
    obtain ⟨n, hn, rfl⟩ := List.mem_map.mp hmem
    obtain ⟨r, hl, -, haddr⟩ := Driver.mem_nodes.mp hn
    exact ⟨n.name, r, hl, haddr⟩
  case unchanged =>
    intro l s' hstep
    have hstep := Step.of_step hstep
    exact ⟨fun hok i hi => hstep.nodes_of_saved hheld hok hi, hstep.hookSpares⟩

/-- Two tasks are created; the service is woken and has visited the first record in
its second pass. -/
def halfwaySteps : List Label :=
  wholeRequest 0 (letterMessage .createTask 0 10) (plainReplies 0 10) 5 ++
    wholeRequest 1 (letterMessage .createTask 1 20) (plainReplies 0 20) 7 ++
    [.start, .wake, .lockGet .service, .run .service (plainReplies 5 30)] ++
    List.replicate 5 (.recalc .service 5)

/-- The step is not one of a deletion hook. -/
def NotHook : Label → Prop
  | .hookDelete _ _ => False
  | _ => True

instance : DecidablePred NotHook
  | .hookDelete .. => isFalse id
  | .write .. | .wake | .lockGet _ | .run .. | .recalc .. | .lockPut _ | .clear | .start | .spawn ..
  | .kill _ | .hookSignal _ | .forget .. => isTrue trivial

theorem NotHook.spares {l : Label} (h : NotHook l) (s : System) : HookSpares s l := by
  cases l with
  | hookDelete task r => exact absurd h (by simp [NotHook])
  | _ => trivial

theorem iteration_intact_halfway : IterationIntact (letterSteps halfwaySteps) := by
  have hno : ∀ l ∈ halfwaySteps, NotHook l := by decide +kernel
  exact iteration_intact (letterSteps_restrict (allowed_of_forall fun l hl => (hno l hl).spares)
    (by decide +kernel))

/-- The record the service visits next belongs to a task whose deletion hook runs now,
as it can after any step of the second pass: the record is freed under the service's
feet. -/
theorem iteration_broken_by_hook :
    concurrent.Reachable
        (letterSteps (halfwaySteps ++ [.kill 1, .hookDelete 1 (plainReplies 5 40)])) ∧
      ∃ b, ((letterSteps (halfwaySteps ++ [.kill 1, .hookDelete 1 (plainReplies 5 40)])).pc
          .service).saved = some (some b) ∧
        b ∉ (letterSteps
          (halfwaySteps ++ [.kill 1, .hookDelete 1 (plainReplies 5 40)])).driver.addrs :=
  ⟨letterSteps_reachable (by decide +kernel), 20, by decide +kernel, by decide +kernel⟩

end System
end Edfomai
