import Edfomai.System

/-!
# Edfomai.Lifetime

Whether the records belong to tasks that exist. A write handler resolves the name of
a task before it takes the lock, and the deletion hook of a task runs only once; so a
`CREATE_TASK` that was resolved before and is carried out after that makes a record
that nobody will ever remove.

`records_alive` shows that nothing else can go wrong: in runs in which
`rt_dtask_create` is not called for a task whose hook has already removed its record,
the records always belong to live tasks, apart from those whose hook is still to run.
-/

namespace Edfomai
namespace System

/-- The deletion hook of the task has not removed its record. -/
def Attached (s : System) (task : RtTask) : Prop := s.Live task ∨ s.hook task = .delete

instance (s : System) (task : RtTask) : Decidable (s.Attached task) := by
  unfold Attached; infer_instance

/-- The task a thread is about to call `rt_dtask_create` for. -/
def creating : Pc → Option RtTask
  | .critical (.create task _) => some task
  | _ => none

/-- The condition: `rt_dtask_create` is called for no task whose hook has removed its
record. -/
def CreatesAttached (s : System) : Label → Prop
  | .run i _ => ∀ task ∈ creating (s.pc i), s.Attached task
  | _ => True

instance (s : System) : (l : Label) → Decidable (CreatesAttached s l)
  | .run i _ => inferInstanceAs (Decidable (∀ task ∈ creating (s.pc i), s.Attached task))
  | .write .. | .wake | .lockGet _ | .recalc .. | .lockPut _ | .clear | .start | .spawn .. | .kill _
  | .hookDelete .. | .hookSignal _ | .forget .. => isTrue trivial

/-- No request and no deletion hook is half-way through. -/
def Quiescent (s : System) : Prop :=
  (∀ w, s.pc (.writer w) = .outside) ∧ ∀ task, s.hook task = .idle

/-- The records are those of live tasks, one for each at most. -/
structure RecordsAlive (s : System) : Prop where
  alive : ∀ k r, s.driver.dtaskMap.lookup k = some r →
    s.registry.HasTask k r.task ∧ s.driver.kernel.name r.task = k
  once : ∀ k₁ k₂ r₁ r₂, s.driver.dtaskMap.lookup k₁ = some r₁ →
    s.driver.dtaskMap.lookup k₂ = some r₂ → r₁.task = r₂.task → k₁ = k₂

/-- The invariant: the registry tells the truth, and every record belongs to an
attached task of its name. -/
structure Owned (s : System) : Prop where
  registry : s.registry.OfTasks s.driver.kernel.name
  owned : ∀ n ∈ s.driver.nodes, s.driver.kernel.name n.task = n.name ∧ s.Attached n.task

namespace Owned

variable {s s' : System}

/-- A step that changes neither the registry nor names nor nodes, and takes no hook
away from its task. -/
theorem congr (h : Owned s) (hreg : s'.registry = s.registry)
    (hname : s'.driver.kernel.name = s.driver.kernel.name)
    (hnodes : s'.driver.nodes = s.driver.nodes)
    (hhook : ∀ task, s.hook task = .delete → s'.hook task = .delete) : Owned s' where
  registry := by rw [hreg, hname]; exact h.registry
  owned n hn := by
    rw [hnodes] at hn
    obtain ⟨hn, hatt⟩ := h.owned n hn
    rw [hname]
    refine ⟨hn, ?_⟩
    rcases hatt with hlive | hdel
    · exact Or.inl (by rw [Live, hreg]; exact hlive)
    · exact Or.inr (hhook _ hdel)

/-- A task that is gone has no record, and no object in the registry. -/
theorem of_gone (h : Owned s) {task : RtTask} (hgone : s.Gone task) :
    (∀ o ∈ s.registry, o.desc ≠ task) ∧ ∀ n ∈ s.driver.nodes, n.task ≠ task := by
  obtain ⟨hlive, hidle, -⟩ := hgone
  constructor
  · exact fun o ho heq => hlive ⟨o, ho, heq⟩
  · rintro n hn rfl
    rcases (h.owned n hn).2 with hl | hd
    · exact hlive hl
    · rw [hidle] at hd
      exact absurd hd (by decide)

end Owned

theorem Step.owned {s s' : System} {l : Label} (h : Owned s) (hok : CreatesAttached s l)
    (hstep : Step s l s') : Owned s' := by
  have hbegin : ∀ {i : Thread} {op : Op} {r : Replies} {p : Progress}, l = .run i r →
      s.pc i = .critical op → op.begin r s.driver = some p →
      ∀ s₁ : System, s₁.registry = s.registry → s₁.hook = s.hook → s₁.driver = p.driver →
        Owned s₁ := by
    rintro i op r p rfl hpc hbegin s₁ hreg hhook hdriver
    have hatt : ∀ task, s.Attached task → s₁.Attached task := by
      intro task hatt
      rwa [Attached, Live, hreg, hhook]
    rcases Op.begin_inv hbegin with ⟨hname, -, hnodes⟩ | hcreate | hdelete
    · exact h.congr hreg (by rw [hdriver, hname]) (by rw [hdriver, hnodes]) (by simp [hhook])
    · obtain ⟨task, deadline, b, rfl, -, -, hname, -, hnodes⟩ := hcreate
      refine ⟨by rw [hreg, hdriver, hname]; exact h.registry, fun n hn => ?_⟩
      rw [hdriver, hnodes] at hn
      rw [hdriver, hname]
      rcases List.mem_append.mp hn with hn | hn
      · exact ⟨(h.owned n hn).1, hatt _ (h.owned n hn).2⟩
      · obtain rfl := List.mem_singleton.mp hn
        exact ⟨rfl, hatt _ (hok task (by rw [hpc]; rfl))⟩
    · obtain ⟨task, ret, -, hdel⟩ := hdelete
      obtain ⟨hname, -, hsub, -, -⟩ := delete_nodes hdel
      refine ⟨by rw [hreg, hdriver, hname]; exact h.registry, fun n hn => ?_⟩
      rw [hdriver] at hn
      rw [hdriver, hname]
      exact ⟨(h.owned n (hsub.subset hn)).1, hatt _ (h.owned n (hsub.subset hn)).2⟩
  cases hstep with
  | returned hpc _ hb => exact hbegin rfl hpc hb _ rfl rfl rfl
  | begun hpc _ hb => exact hbegin rfl hpc hb _ rfl rfl rfl
  | recalc hpc hrec =>
      obtain ⟨hnodes, hname, -, -⟩ := RecalcPc.step_inv hrec
      exact h.congr rfl hname hnodes fun _ => id
  | recalculated hpc hrec =>
      obtain ⟨hnodes, hname, -, -⟩ := RecalcPc.step_inv hrec
      exact h.congr rfl (by rw [freeBuffer_name, hname]) (by rw [freeBuffer_nodes, hnodes])
        fun _ => id
  | @spawn task name prio hgone hfree =>
      obtain ⟨hobjects, hrecords⟩ := h.of_gone hgone
      constructor
      · refine ⟨?_, ?_, ?_⟩
        · exact List.nodup_cons.mpr ⟨fun hmem => by
            obtain ⟨o, ho, hkey⟩ := List.mem_map.mp hmem
            exact hfree o ho hkey, h.registry.distinct⟩
        · exact List.forall_mem_cons.mpr ⟨rfl, h.registry.tasks⟩
        · refine List.forall_mem_cons.mpr ⟨by simp, fun o ho => ?_⟩
          simp [hobjects o ho, h.registry.named o ho]
      · intro n hn
        obtain ⟨hname, hatt⟩ := h.owned n hn
        refine ⟨by simpa [hrecords n hn] using hname, ?_⟩
        rcases hatt with ⟨o, ho, hdesc⟩ | hdel
        · exact Or.inl ⟨o, List.mem_cons_of_mem _ ho, hdesc⟩
        · exact Or.inr hdel
  | @kill task hlive =>
      constructor
      · exact ⟨h.registry.distinct.sublist (List.Sublist.map _ List.filter_sublist),
          fun o ho => h.registry.tasks o (List.mem_of_mem_filter ho),
          fun o ho => h.registry.named o (List.mem_of_mem_filter ho)⟩
      · intro n hn
        obtain ⟨hname, hatt⟩ := h.owned n hn
        refine ⟨hname, ?_⟩
        by_cases hn' : n.task = task
        · exact Or.inr (by simp [hn'])
        · rcases hatt with ⟨o, ho, hdesc⟩ | hdel
          · exact Or.inl ⟨o, List.mem_filter.mpr ⟨ho, by simp [hdesc, hn']⟩, hdesc⟩
          · exact Or.inr (by simp [hn', hdel])
  | @hookDelete task r ret d hhook hdel =>
      obtain ⟨hname, -, hsub, hgone, -⟩ := delete_nodes hdel
      refine ⟨by rw [hname]; exact h.registry, fun n hn => ?_⟩
      obtain ⟨hn', hatt⟩ := h.owned n (hsub.subset hn)
      -- what is left has another name, so it is another task's
      have hne : n.task ≠ task := fun heq => hgone n hn (by rw [← hn', heq])
      refine ⟨by rw [hname]; exact hn', ?_⟩
      rcases hatt with hlive | hd
      · exact Or.inl hlive
      · exact Or.inr (by simp [hne, hd])
  | @hookSignal task hhook =>
      refine h.congr rfl rfl rfl fun task' hd => ?_
      rcases eq_or_ne task' task with rfl | hne
      · rw [hhook] at hd
        exact absurd hd (by decide)
      · simpa [hne] using hd
  | @forget task name hgone =>
      obtain ⟨hobjects, hrecords⟩ := h.of_gone hgone
      constructor
      · refine ⟨h.registry.distinct, h.registry.tasks, fun o ho => ?_⟩
        simp [hobjects o ho, h.registry.named o ho]
      · intro n hn
        obtain ⟨hname, hatt⟩ := h.owned n hn
        exact ⟨by simpa [hrecords n hn] using hname, hatt⟩
  | _ => exact h.congr rfl rfl rfl fun _ => id

/-- **The records belong to live tasks.** In a run in which `rt_dtask_create` is called
for no task whose deletion hook has already removed its record, every record found
when no request and no hook is half-way through is the only one of a live task, kept
under this task's name. -/
theorem records_alive {s : System} (hs : (concurrent.restrict CreatesAttached).Reachable s)
    (hq : s.Quiescent) : RecordsAlive s := by
  have hinit : ∀ s, (concurrent.restrict CreatesAttached).init s → Owned s :=
    fun s h => ⟨h.registry, fun n hn => by simp [Driver.nodes, h.empty] at hn⟩
  have hstep : ∀ s l s', Owned s → (concurrent.restrict CreatesAttached).step s l s' → Owned s' :=
    fun _ _ _ h hstep => (Step.of_step hstep.1).owned h hstep.2
  have howned := hs.invariant hinit hstep
  have hname : ∀ k r, s.driver.dtaskMap.lookup k = some r →
      s.driver.kernel.name r.task = k ∧ s.Attached r.task := fun k r hl =>
    howned.owned ⟨k, r.task, r.addr⟩ (Driver.mem_nodes.mpr ⟨r, hl, rfl, rfl⟩)
  constructor
  case alive =>
    intro k r hl
    obtain ⟨hk, hatt⟩ := hname k r hl
    refine ⟨?_, hk⟩
    rcases hatt with ⟨o, ho, hdesc⟩ | hdel
    · have hkey := howned.registry.named o ho
      have hkind := howned.registry.tasks o ho
      obtain ⟨key, kind, desc⟩ := o
      simp only at hdesc hkey hkind
      rw [hdesc, hk] at hkey
      rw [hkey, hkind, hdesc] at ho
      exact ho
    · rw [hq.2] at hdel
      exact absurd hdel (by decide)
  case once =>
    intro k₁ k₂ r₁ r₂ h₁ h₂ heq
    rw [← (hname k₁ r₁ h₁).1, ← (hname k₂ r₂ h₂).1, heq]

/-- Task 1 creates a record for task 0. -/
def createSteps : List Label :=
  wholeRequest 1 (letterMessage .createTask 0 10) (plainReplies 0 10) 5

/-- A state in which at most the thread of task 1 and the hook of task 0 have moved. -/
theorem quiescent_of_letterSteps {ls : List Label} (h : (letterSystem.execAll ls).isSome)
    (hactor : ∀ l ∈ ls, ∀ i ∈ l.actor, i = .writer 1)
    (hhook : ∀ l ∈ ls, ∀ task ∈ l.hookTask, task = 0)
    (hpc : (letterSteps ls).pc (.writer 1) = .outside) (hidle : (letterSteps ls).hook 0 = .idle) :
    (letterSteps ls).Quiescent := by
  obtain ⟨hpcs, hhooks⟩ := letterSteps_stays h
  constructor
  · intro w
    rcases eq_or_ne w 1 with rfl | hne
    · exact hpc
    · exact hpcs _ fun l hl heq => hne (Thread.writer.inj (hactor l hl _ heq))
  · intro task
    rcases eq_or_ne task 0 with rfl | hne
    · exact hidle
    · exact hhooks _ fun l hl heq => hne (hhook l hl _ heq)

theorem records_alive_created : RecordsAlive (letterSteps createSteps) :=
  records_alive (letterSteps_restrict (by decide +kernel) (by decide +kernel))
    (quiescent_of_letterSteps (by decide +kernel) (by decide +kernel) (by decide +kernel)
      (by decide +kernel) (by decide +kernel))

/-- The name is resolved, the task is deleted and its hook runs, and then the request
goes on. -/
def lateSteps : List Label :=
  [.write 1 (letterMessage .createTask 0 10) [], .kill 0, .hookDelete 0 (plainReplies 0 30),
    .hookSignal 0] ++ wholeOperation (.writer 1) (plainReplies 0 10) 5

/-- The record made for the deleted task stays. -/
theorem record_of_dead_task : concurrent.Reachable (letterSteps lateSteps) ∧
    (letterSteps lateSteps).Quiescent ∧ ¬RecordsAlive (letterSteps lateSteps) := by
  refine ⟨letterSteps_reachable (by decide +kernel), quiescent_of_letterSteps (by decide +kernel)
    (by decide +kernel) (by decide +kernel) (by decide +kernel) (by decide +kernel), fun h => ?_⟩
  have hrecord : ((letterSteps lateSteps).driver.dtaskMap.lookup (letterName 0)).any
      (fun r => r.task = 0) = true := by decide +kernel
  obtain ⟨r, hl, htask⟩ := (Option.any_eq_true _ _).mp hrecord
  have halive := (h.alive _ r hl).1
  rw [of_decide_eq_true htask] at halive
  exact absurd halive (by unfold Registry.HasTask; decide +kernel)

end System
end Edfomai
