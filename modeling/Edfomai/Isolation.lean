import Edfomai.Requests

/-!
# Edfomai.Isolation

Tasks do not disturb each other's arming.

Of a run of calls, a task's record sees a private machine: `Op.arm` says what an
operation makes of the arming of its own task. The shape of the argument:

* an operation takes its task's arming along `Op.arm` (`Op.exec_self`) and leaves the
  others alone (`Op.exec_armingAt`), and whether it completes depends on its own
  task's record only (`Op.exec_isSome`);
* hence the arming at the end of a run is a fold of the private machine over the
  calls (`handleAll_armingAt`), in which the calls about other tasks are the identity.
-/

namespace Edfomai

/-! ### The private machine -/

/-- What an operation makes of the arming of its own task, at clock value `clock`. -/
def Op.arm (clock : UInt64) : Op → Option Arming → Option Arming
  | create _ D, none => some ⟨D, clock + D, TaskState.running.code⟩
  | setdeadline _ D, some _ => some ⟨D, clock + D, TaskState.running.code⟩
  | resetdeadline _, some a =>
      some ⟨a.relativeDeadline, clock + a.relativeDeadline, TaskState.running.code⟩
  | goingwaitp _, some a | stopwatchdog _, some a =>
      some { a with state := EdfCommand.goingWaitp.code }
  | delete _, _ => none
  | _, a => a

/-- What an operation returns, given whether its task has a record. -/
def Op.status (present : Bool) : Op → Int32
  | create _ _ => if present then -1 else 0
  | recalculateprio => 0
  | _ => if present then 0 else -1

/-- Whether an operation gets the memory it needs. -/
def Op.completes (r : Replies) (present : Bool) : Op → Bool
  | create _ _ => r.block.isSome && (present || r.table)
  | stopwatchdog _ => r.block.isSome && (!present || r.nested.isSome)
  | recalculateprio => true
  | _ => r.block.isSome

section Op

variable {r : Replies} {op : Op} {task : RtTask} {d d' : Driver} {ret : Int32}

theorem armingAt_of_lookup {k : TaskName} {rec : RtDtask} (h : d.dtaskMap.lookup k = some rec) :
    d.armingAt k = some rec.arming := by
  rw [Driver.armingAt, h, Option.map_some]

theorem armingAt_of_lookup_none {k : TaskName} (h : d.dtaskMap.lookup k = none) :
    d.armingAt k = none := by
  rw [Driver.armingAt, h, Option.map_none]

theorem armingAt_adjust {k : TaskName} {rec : RtDtask} (f : RtDtask → RtDtask)
    (h : d.dtaskMap.lookup k = some rec) : (d.adjust k f).armingAt k = some (f rec).arming := by
  rw [Driver.armingAt, Driver.adjust_dtaskMap, Table.lookup_adjust_self, h]
  rfl

@[simp] theorem armingAt_isSome (k : TaskName) (d : Driver) :
    (d.armingAt k).isSome = (d.dtaskMap.lookup k).isSome := Option.isSome_map

/-- What an operation returns depends on whether its task has a record. -/
theorem Op.exec_status (htask : op.task? = some task) (h : op.exec r d = some (ret, d')) :
    ret = op.status (d.dtaskMap.lookup (d.kernel.name task)).isSome := by
  cases op with
  | create task' D =>
      obtain rfl := Option.some.inj htask
      obtain ⟨b, d₁, -, hinsert, -⟩ := create_inv h
      rcases insertDtask_inv hinsert with ⟨hnone, -, rfl, -⟩ | ⟨⟨rec, hrec⟩, rfl, -⟩
      · rw [hnone]
        rfl
      · rw [hrec]
        rfl
  | setdeadline task' D =>
      obtain rfl := Option.some.inj htask
      obtain ⟨b, -, ⟨rec, hl, rfl, -⟩ | ⟨hl, rfl, -⟩⟩ := setdeadline_inv h <;> rw [hl] <;> rfl
  | resetdeadline task' =>
      obtain rfl := Option.some.inj htask
      obtain ⟨b, -, ⟨rec, hl, rfl, -⟩ | ⟨hl, rfl, -⟩⟩ := resetdeadline_inv h <;> rw [hl] <;> rfl
  | goingwaitp task' =>
      obtain rfl := Option.some.inj htask
      obtain ⟨b, -, ⟨rec, hl, rfl, -⟩ | ⟨hl, rfl, -⟩⟩ := goingwaitp_inv h <;> rw [hl] <;> rfl
  | stopwatchdog task' =>
      obtain rfl := Option.some.inj htask
      obtain ⟨b, -, ⟨rec, ret₁, d₁, hl, rfl, -⟩ | ⟨hl, rfl, -⟩⟩ := stopwatchdog_inv h <;>
        rw [hl] <;> rfl
  | delete task' =>
      obtain rfl := Option.some.inj htask
      obtain ⟨b, -, ⟨rec, hl, rfl, -⟩ | ⟨hl, rfl, -⟩⟩ := delete_inv h <;> rw [hl] <;> rfl
  | recalculateprio => simp [Op.task?] at htask

theorem create_self {D : UInt64} (h : rtDtaskCreate r task D d = some (ret, d')) :
    d'.armingAt (d.kernel.name task) =
      (Op.create task D).arm r.armClock (d.armingAt (d.kernel.name task)) := by
  obtain ⟨b, d₁, -, hinsert, rfl⟩ := create_inv h
  rw [recalc_armingAt]
  rcases insertDtask_inv hinsert with ⟨hnone, -, -, rfl⟩ | ⟨⟨rec, hrec⟩, -, rfl⟩
  · rw [armingAt_of_lookup_none hnone]
    show ((d.dtaskMap.add _ _).lookup _).map RtDtask.arming = _
    rw [Table.lookup_add_self _ hnone]
    rfl
  · rw [armingAt_log, armingAt_log, armingAt_log, armingAt_of_lookup hrec]
    rfl

theorem goingwaitp_self (h : rtDtaskGoingwaitp r task d = some (ret, d')) :
    d'.armingAt (d.kernel.name task) =
      (Op.goingwaitp task).arm r.armClock (d.armingAt (d.kernel.name task)) := by
  obtain ⟨b, -, ⟨rec, hrec, -, rfl⟩ | ⟨hnone, -, rfl⟩⟩ := goingwaitp_inv h
  · rw [armingAt_log, armingAt_adjust (d := d.log _) _ hrec, armingAt_of_lookup hrec]
    rfl
  · rw [armingAt_log, armingAt_log, armingAt_of_lookup_none hnone]
    rfl

/-- An operation takes the arming of its task along the private machine. -/
theorem Op.exec_self (hd : d.Named) (htask : op.task? = some task)
    (h : op.exec r d = some (ret, d')) :
    d'.armingAt (d.kernel.name task) =
      op.arm r.armClock (d.armingAt (d.kernel.name task)) := by
  cases op with
  | create task' D =>
      obtain rfl := Option.some.inj htask
      exact create_self h
  | setdeadline task' D =>
      obtain rfl := Option.some.inj htask
      obtain ⟨b, -, ⟨rec, hrec, -, rfl⟩ | ⟨hnone, -, rfl⟩⟩ := setdeadline_inv h
      · rw [recalc_armingAt, armingAt_log, armingAt_adjust (d := d.log _) _ hrec,
          armingAt_of_lookup hrec]
        rfl
      · rw [armingAt_log, armingAt_of_lookup_none hnone]
        rfl
  | resetdeadline task' =>
      obtain rfl := Option.some.inj htask
      obtain ⟨b, -, ⟨rec, hrec, -, rfl⟩ | ⟨hnone, -, rfl⟩⟩ := resetdeadline_inv h
      · rw [armingAt_log, recalc_armingAt, armingAt_log, armingAt_adjust (d := d.log _) _ hrec,
          armingAt_of_lookup hrec]
        rfl
      · rw [armingAt_log, armingAt_log, armingAt_of_lookup_none hnone]
        rfl
  | goingwaitp task' =>
      obtain rfl := Option.some.inj htask
      exact goingwaitp_self h
  | stopwatchdog task' =>
      obtain rfl := Option.some.inj htask
      obtain ⟨b, -, ⟨rec, ret₁, d₁, hrec, -, hnested, rfl⟩ | ⟨hnone, -, rfl⟩⟩ :=
        stopwatchdog_inv h
      · -- the nested operation finds the same record, by the task stored in it
        have hself := goingwaitp_self hnested
        rw [Driver.log_kernel, Kernel.log_name, hd _ _ hrec, armingAt_log] at hself
        rw [armingAt_log, hself, armingAt_of_lookup hrec]
        rfl
      · rw [armingAt_log, armingAt_log, armingAt_of_lookup_none hnone]
        rfl
  | delete task' =>
      obtain rfl := Option.some.inj htask
      obtain ⟨b, -, ⟨rec, hrec, -, rfl⟩ | ⟨hnone, -, rfl⟩⟩ := delete_inv h
      · rw [armingAt_of_lookup hrec]
        exact armingAt_of_lookup_none (AList.lookup_erase _ _)
      · rw [armingAt_log, armingAt_log, armingAt_of_lookup_none hnone]
        rfl
  | recalculateprio => simp [Op.task?] at htask

theorem withTaskInfo_isSome {found : TaskName → RtDtask → Driver → Option Driver} :
    (withTaskInfo r task d found).isSome ↔ ∃ b, r.block = some b ∧
      ∀ rec, d.dtaskMap.lookup (d.kernel.name task) = some rec →
        (found (d.kernel.name task) rec (d.log (.malloc (some b)))).isSome := by
  cases hb : r.block with
  | none => simp [withTaskInfo, hb]
  | some b =>
      cases hl : d.dtaskMap.lookup (d.kernel.name task) with
      | none => simp [withTaskInfo, Kernel.rtTaskInquire, hb, hl]
      | some rec => simp [withTaskInfo, Kernel.rtTaskInquire, hb, hl]

theorem create_isSome (D : UInt64) : (rtDtaskCreate r task D d).isSome ↔ r.block.isSome ∧
    ((d.dtaskMap.lookup (d.kernel.name task)).isSome ∨ r.table) := by
  cases hb : r.block with
  | none => simp [rtDtaskCreate, hb]
  | some b =>
      cases hl : d.dtaskMap.lookup (d.kernel.name task) with
      | none =>
          cases ht : r.table <;>
            simp [rtDtaskCreate, insertDtask, Kernel.rtTaskInquire, hb, hl, ht]
      | some rec => simp [rtDtaskCreate, insertDtask, Kernel.rtTaskInquire, hb, hl]

/-- Whether an operation completes depends on its memory and on whether its task has a
record. -/
theorem Op.exec_isSome (htask : op.task? = some task) :
    (op.exec r d).isSome = op.completes r (d.armingAt (d.kernel.name task)).isSome := by
  rw [armingAt_isSome, Bool.eq_iff_iff]
  cases op with
  | create task' D =>
      obtain rfl := Option.some.inj htask
      simp only [exec, create_isSome, completes]
      simp
  | setdeadline task' D =>
      obtain rfl := Option.some.inj htask
      simp only [exec, rtDtaskSetdeadline, withTaskInfo_isSome, completes]
      simp [Option.isSome_iff_exists]
  | resetdeadline task' =>
      obtain rfl := Option.some.inj htask
      simp only [exec, rtDtaskResetdeadline, Option.isSome_map, withTaskInfo_isSome, completes]
      simp [Option.isSome_iff_exists]
  | goingwaitp task' =>
      obtain rfl := Option.some.inj htask
      simp only [exec, rtDtaskGoingwaitp, Option.isSome_map, withTaskInfo_isSome, completes]
      simp [Option.isSome_iff_exists]
  | stopwatchdog task' =>
      obtain rfl := Option.some.inj htask
      simp only [exec, rtDtaskStopwatchdog, rtDtaskGoingwaitp, Option.isSome_map,
        withTaskInfo_isSome, completes]
      cases hl : d.dtaskMap.lookup (d.kernel.name task') <;>
        simp [Option.isSome_iff_exists]
  | delete task' =>
      obtain rfl := Option.some.inj htask
      simp only [exec, rtDtaskDelete, Option.isSome_map, withTaskInfo_isSome, completes]
      simp [Option.isSome_iff_exists]
  | recalculateprio => simp [Op.task?] at htask

end Op

/-! ### Calls -/

namespace Call

/-- The call is about an existing task, if about any, and is not `rt_dtask_dispose`. -/
structure InSite (site : Site) (c : Call) : Prop where
  task : ∀ task ∈ c.task?, task ∈ site.tasks
  not_dispose : c ≠ .dispose

/-- What a call is to a task: the operation on it, and the clock value its arming reads. -/
def own (task : RtTask) (c : Call) : Option (Op × UInt64) :=
  c.request?.bind fun q =>
    if q.op.task? = some task then some (q.op, q.replies.armClock) else none

theorem own_eq_some {task : RtTask} {c : Call} {op : Op} {clock : UInt64} :
    c.own task = some (op, clock) ↔
      ∃ q, c.request? = some q ∧ q.op.task? = some task ∧ q.op = op ∧
        q.replies.armClock = clock := by
  simp only [own, Option.bind_eq_some_iff, Option.ite_none_right_eq_some, Option.some.injEq,
    Prod.mk.injEq]

theorem own_isSome {task : RtTask} {c : Call} : (c.own task).isSome ↔ c.task? = some task := by
  unfold own task?
  cases c.request? with
  | none => simp
  | some q => simp

/-- What a call makes of the arming kept under a name, when tasks have the given names. -/
def armUnder (name : RtTask → TaskName) (k : TaskName) (a : Option Arming) (c : Call) :
    Option Arming :=
  match c.request? with
  | some q => if q.op.task?.map name = some k then q.op.arm q.replies.armClock a else a
  | none => a

/-- A call takes the arming of a task along the private machine if it is about this task,
and leaves it alone if it is not. -/
def arm (task : RtTask) (a : Option Arming) (c : Call) : Option Arming :=
  match c.own task with
  | some (op, clock) => op.arm clock a
  | none => a

end Call

section Run

variable {site : Site} {task : RtTask} {d d' : Driver} {c : Call} {cs : List Call}

/-- What a request makes of the arming under a name. -/
theorem Request.exec_armUnder {q : Request} {ret : Int32} (hd : d.Named)
    (h : q.op.exec q.replies d = some (ret, d')) (k : TaskName) :
    d'.armingAt k =
      if q.op.task?.map d.kernel.name = some k then
        q.op.arm q.replies.armClock (d.armingAt k)
      else d.armingAt k := by
  cases htask : q.op.task? with
  | none =>
      obtain ⟨op, r⟩ := q
      cases op with
      | recalculateprio =>
          obtain ⟨-, rfl⟩ := Prod.mk.inj (Option.some.inj h)
          exact recalc_armingAt ..
      | _ => simp [Op.task?] at htask
  | some task =>
      by_cases hk : k = d.kernel.name task
      · subst hk
        rw [Option.map_some, if_pos rfl]
        exact Op.exec_self hd htask h
      · rw [Option.map_some, if_neg (by simpa using Ne.symm hk)]
        exact Op.exec_armingAt hd htask h hk

/-- So do calls, except for the last one. -/
theorem Call.exec_armUnder (hd : d.Named) (hc : c ≠ .dispose) (h : c.exec d = some d')
    (k : TaskName) : d'.armingAt k = c.armUnder d.kernel.name k (d.armingAt k) := by
  rcases c.exec_inv h with ⟨q, b, ret, d₁, hq, hexec, rfl⟩ | ⟨q, ret, hq, hexec⟩ |
    ⟨b, hq, rfl⟩ | ⟨t, rfl, rfl⟩ | ⟨rfl, -⟩
  · rw [armingAt_log, Request.exec_armUnder (d := d.log _) hd hexec, armUnder, hq]
    rfl
  · rw [Request.exec_armUnder hd hexec, armUnder, hq]
  · rw [armUnder, hq]
    rfl
  · exact recalc_armingAt ..
  · exact absurd rfl hc

theorem Call.exec_armingAt (hd : d.NamedBy site.name) (htask : task ∈ site.tasks)
    (hc : c.InSite site) (h : c.exec d = some d') :
    d'.armingAt (site.name task) = c.arm task (d.armingAt (site.name task)) := by
  rw [c.exec_armUnder hd.named hc.not_dispose h, hd.name_eq, armUnder, arm, own]
  cases hq : c.request? with
  | none => rfl
  | some q =>
      -- distinct tasks have distinct names
      have hname : q.op.task?.map site.name = some (site.name task) ↔ q.op.task? = some task := by
        constructor
        · intro hmap
          obtain ⟨task', htask', heq⟩ := Option.map_eq_some_iff.mp hmap
          have hin : task' ∈ site.tasks := hc.task task' (by simp [Call.task?, hq, htask'])
          rw [htask', site.distinct hin htask heq]
        · intro hown
          rw [hown, Option.map_some]
      by_cases hown : q.op.task? = some task <;> simp [hname, hown]

/-- The arming of a task at the end of a run. -/
theorem handleAll_armingAt (hd : d.NamedBy site.name) (htask : task ∈ site.tasks)
    (hcs : ∀ c ∈ cs, c.InSite site) (h : handleAll cs d = some d') :
    d'.armingAt (site.name task) = cs.foldl (Call.arm task) (d.armingAt (site.name task)) := by
  induction cs generalizing d with
  | nil => rw [← Option.some.inj h, List.foldl_nil]
  | cons c cs ih =>
      obtain ⟨d₁, hc, hrest⟩ := handleAll_cons.mp h
      have hin := hcs c (List.mem_cons_self ..)
      rw [ih (c.exec_named hd hc) (fun c' hc' => hcs c' (List.mem_cons_of_mem _ hc')) hrest,
        c.exec_armingAt hd htask hin hc, List.foldl_cons]

/-- Only the calls about the task count, and of these the operation and the clock value. -/
theorem foldl_arm_eq (a : Option Arming) :
    cs.foldl (Call.arm task) a =
      (cs.filterMap (Call.own task)).foldl (fun a p => p.1.arm p.2 a) a := by
  induction cs generalizing a with
  | nil => rfl
  | cons c cs ih =>
      cases hown : c.own task with
      | none => simp [ih, hown, Call.arm]
      | some p => simp [ih, hown, Call.arm]

theorem filterMap_own_filter :
    (cs.filter fun c => c.task? = some task).filterMap (Call.own task) =
      cs.filterMap (Call.own task) := by
  induction cs with
  | nil => rfl
  | cons c cs ih =>
      by_cases hc : c.task? = some task
      · simp [hc, ih, List.filterMap_cons]
      · have hown : c.own task = none := by
          rw [← Option.not_isSome_iff_eq_none, Call.own_isSome]
          exact hc
        simp [hc, ih, hown]

/-! ### The run without the other tasks -/

/-- A call about a task completes wherever the task's record is there as well. -/
theorem Call.exec_isSome {d₂ : Driver} (hd : d.NamedBy site.name) (hd₂ : d₂.NamedBy site.name)
    (hown : c.task? = some task)
    (hsame : d₂.armingAt (site.name task) = d.armingAt (site.name task))
    (h : (c.exec d).isSome) : (c.exec d₂).isSome := by
  obtain ⟨q, hq, htask⟩ := Option.bind_eq_some_iff.mp hown
  have hop : ∀ {e e₂ : Driver}, e.kernel.name = site.name → e₂.kernel.name = site.name →
      e₂.armingAt (site.name task) = e.armingAt (site.name task) →
      (q.op.exec q.replies e₂).isSome = (q.op.exec q.replies e).isSome := by
    intro e e₂ he he₂ heq
    rw [Op.exec_isSome htask, Op.exec_isSome htask, he, he₂, heq]
  cases c with
  | write registry w nbyte =>
      obtain ⟨op, hwrite, rfl⟩ := Option.map_eq_some_iff.mp hq
      obtain ⟨b, hb⟩ := writeOp_message hwrite
      simp only [exec, edfRtdmWriteNrt_of_op nbyte _ hb hwrite, Option.isSome_map] at h ⊢
      rw [← h]
      exact hop hd.name_eq hd₂.name_eq hsame
  | deleteHook task' r =>
      obtain rfl := Option.some.inj hq
      simp only [exec, Option.isSome_map] at h ⊢
      rw [← h]
      exact hop hd.name_eq hd₂.name_eq hsame
  | service t => simp [Call.request?] at hq
  | dispose => simp [Call.request?] at hq

/-- The calls about a task can be handled alone. -/
theorem handleAll_filter {d₂ : Driver} (hd : d.NamedBy site.name) (hd₂ : d₂.NamedBy site.name)
    (htask : task ∈ site.tasks) (hcs : ∀ c ∈ cs, c.InSite site)
    (hsame : d₂.armingAt (site.name task) = d.armingAt (site.name task))
    (h : handleAll cs d = some d') :
    ∃ d₂', handleAll (cs.filter fun c => c.task? = some task) d₂ = some d₂' := by
  induction cs generalizing d d₂ with
  | nil => exact ⟨d₂, rfl⟩
  | cons c cs ih =>
      obtain ⟨d₁, hc, hrest⟩ := handleAll_cons.mp h
      have hin := hcs c (List.mem_cons_self ..)
      have htail : ∀ c' ∈ cs, c'.InSite site := fun c' hc' => hcs c' (List.mem_cons_of_mem _ hc')
      have harm := c.exec_armingAt hd htask hin hc
      by_cases hown : c.task? = some task
      · obtain ⟨d₃, hc₂⟩ := Option.isSome_iff_exists.mp
          (c.exec_isSome hd hd₂ hown hsame (by simp [hc]))
        have harm₂ := c.exec_armingAt hd₂ htask hin hc₂
        obtain ⟨d₂', hrun⟩ := ih (c.exec_named hd hc) (c.exec_named hd₂ hc₂) htail
          (by rw [harm, harm₂, hsame]) hrest
        exact ⟨d₂', by simpa [hown] using handleAll_cons.mpr ⟨d₃, hc₂, hrun⟩⟩
      · have hown' : c.own task = none := by
          rw [← Option.not_isSome_iff_eq_none, Call.own_isSome]
          exact hown
        have hkeep : c.arm task (d.armingAt (site.name task)) = d.armingAt (site.name task) := by
          rw [Call.arm, hown']
        obtain ⟨d₂', hrun⟩ := ih (c.exec_named hd hc) hd₂ htail (by rw [harm, hkeep, hsame]) hrest
        exact ⟨d₂', by simpa [hown] using hrun⟩

end Run

/-! ### The relative deadline that was set last -/

/-- The relative deadline that an operation sets, if it sets one. -/
def Op.relative? : Op → Option UInt64
  | create _ D | setdeadline _ D => some D
  | _ => none

namespace Call

/-- What the operation returns that a call comes to. -/
def status (c : Call) (d : Driver) : Option Int32 :=
  match c with
  | write registry w _ =>
      (writeOp registry w).bind fun op => (op.exec w.op (d.log (.malloc w.message))).map Prod.fst
  | deleteHook task r => (rtDtaskDelete r task d).map Prod.fst
  | service _ | dispose => none

/-- The relative deadline that a call sets for a task: a `CREATE_TASK`, `START_TASK` or
`SET_DEADLINE` that succeeds. -/
def sets (task : RtTask) (c : Call) (d : Driver) : Option UInt64 :=
  match c.own task with
  | some (op, _) => if c.status d = some 0 then op.relative? else none
  | none => none

end Call

/-- The relative deadline of the task's last successful `CREATE_TASK`, `START_TASK` or
`SET_DEADLINE` in a run. -/
def lastSet (task : RtTask) : Option UInt64 → List Call → Driver → Option UInt64
  | last, [], _ => last
  | last, c :: cs, d =>
      match c.exec d with
      | some d₁ => lastSet task ((c.sets task d).or last) cs d₁
      | none => last

section Last

variable {site : Site} {task : RtTask} {d d' : Driver} {c : Call} {cs : List Call}

/-- What the operation of a completed call returned. -/
theorem Call.status_of_request {q : Request} (hq : c.request? = some q)
    (htask : q.op.task? = some task) (h : c.exec d = some d') :
    c.status d = some (q.op.status (d.armingAt (d.kernel.name task)).isSome) := by
  rw [armingAt_isSome]
  cases c with
  | write registry w nbyte =>
      obtain ⟨op, hwrite, rfl⟩ := Option.map_eq_some_iff.mp hq
      obtain ⟨b, hb⟩ := writeOp_message hwrite
      simp only [exec, edfRtdmWriteNrt_of_op nbyte _ hb hwrite, Option.map_map,
        Option.map_eq_some_iff] at h
      obtain ⟨⟨ret, d₁⟩, hexec, -⟩ := h
      have hstatus := Op.exec_status htask hexec
      rw [Driver.log_kernel, Kernel.log_name, Driver.log_dtaskMap] at hstatus
      simp only [status, hwrite, hb, Option.bind_some, hexec, Option.map_some, hstatus]
  | deleteHook task' r =>
      obtain rfl := Option.some.inj hq
      obtain ⟨⟨ret, d₁⟩, hdelete, -⟩ := Option.map_eq_some_iff.mp h
      have hexec : (Op.delete task').exec r d = some (ret, d₁) := hdelete
      simp only [status, hdelete, Option.map_some, Op.exec_status htask hexec]
  | service t => simp [Call.request?] at hq
  | dispose => simp [Call.request?] at hq

theorem Call.status_eq {op : Op} {clock : UInt64} (hd : d.NamedBy site.name)
    (hown : c.own task = some (op, clock)) (h : c.exec d = some d') :
    c.status d = some (op.status (d.armingAt (site.name task)).isSome) := by
  obtain ⟨q, hq, htask, rfl, -⟩ := Call.own_eq_some.mp hown
  rw [c.status_of_request hq htask h, hd.name_eq]

/-- The private machine keeps the relative deadline unless it is set. -/
theorem Op.arm_relativeDeadline {op : Op} {clock : UInt64} {a₀ : Option Arming} {a : Arming}
    {last : Option UInt64} (hlast : ∀ a, a₀ = some a → last = some a.relativeDeadline)
    (h : op.arm clock a₀ = some a) :
    (if op.status a₀.isSome = 0 then op.relative? else none).or last =
      some a.relativeDeadline := by
  cases a₀ with
  | none =>
      cases op with
      | create task D =>
          obtain rfl := Option.some.inj h
          simp [status, relative?]
      | _ => simp [arm] at h
  | some a₁ =>
      have hrel := hlast a₁ rfl
      cases op with
      | setdeadline task D =>
          obtain rfl := Option.some.inj h
          simp [status, relative?]
      | delete task => simp [arm] at h
      | _ =>
          obtain rfl := Option.some.inj h
          simpa [status, relative?] using hrel

theorem lastSet_eq {last : Option UInt64} (hd : d.NamedBy site.name) (htask : task ∈ site.tasks)
    (hcs : ∀ c ∈ cs, c.InSite site)
    (hlast : ∀ a, d.armingAt (site.name task) = some a → last = some a.relativeDeadline)
    (h : handleAll cs d = some d') {a : Arming} (ha : d'.armingAt (site.name task) = some a) :
    lastSet task last cs d = some a.relativeDeadline := by
  induction cs generalizing d last with
  | nil =>
      rw [← Option.some.inj h] at ha
      exact hlast a ha
  | cons c cs ih =>
      obtain ⟨d₁, hc, hrest⟩ := handleAll_cons.mp h
      simp only [lastSet, hc]
      refine ih (c.exec_named hd hc) (fun c' hc' => hcs c' (List.mem_cons_of_mem _ hc')) ?_ hrest
      intro a₁ ha₁
      rw [c.exec_armingAt hd htask (hcs c (List.mem_cons_self ..)) hc, Call.arm] at ha₁
      unfold Call.sets
      cases hown : c.own task with
      | none =>
          rw [hown] at ha₁
          simpa using hlast a₁ ha₁
      | some p =>
          rw [hown] at ha₁
          simp only [c.status_eq hd hown hc, Option.some.injEq]
          exact Op.arm_relativeDeadline hlast ha₁

/-- What is left of the other tasks in a task's arming, at the end of a run of calls from
the initial state: nothing. -/
structure Isolated (site : Site) (x : Kernel) (task : RtTask) (cs : List Call) (d' : Driver) :
    Prop where
  /-- Without the calls that are not about the task, its record and the arming of it are
  the same. -/
  erased : ∃ d₁, handleAll (cs.filter fun c => c.task? = some task) (rtDtaskInit x) = some d₁ ∧
    d₁.armingAt (site.name task) = d'.armingAt (site.name task)
  /-- So they are in every other run with the same operations on the task and the same clock
  readings for its arming. -/
  same : ∀ (y : Kernel) (cs₁ : List Call) (d₁ : Driver), y.name = site.name →
    (∀ c ∈ cs₁, c.InSite site) → handleAll cs₁ (rtDtaskInit y) = some d₁ →
      cs₁.filterMap (Call.own task) = cs.filterMap (Call.own task) →
        d₁.armingAt (site.name task) = d'.armingAt (site.name task)
  /-- A `CREATE_TASK` for a task that is present changes nothing. -/
  create : ∀ (c : Call) (D clock : UInt64) (d₂ : Driver) (a : Arming),
    c.own task = some (.create task D, clock) → c.exec d' = some d₂ →
    d'.armingAt (site.name task) = some a → d₂.armingAt (site.name task) = some a
  /-- A `RESET_DEADLINE` leaves the relative deadline that was set last, and an absolute
  deadline that is the (64-bit) sum of the clock value and it. -/
  reset : ∀ (c : Call) (clock : UInt64) (d₂ : Driver) (a : Arming),
    c.own task = some (.resetdeadline task, clock) → c.exec d' = some d₂ →
    d₂.armingAt (site.name task) = some a →
      lastSet task none cs (rtDtaskInit x) = some a.relativeDeadline ∧
        a.deadline = clock + a.relativeDeadline

/-- **Tasks do not disturb each other's arming.** -/
theorem arming_isolated {x : Kernel} (hx : x.name = site.name) (htask : task ∈ site.tasks)
    (hcs : ∀ c ∈ cs, c.InSite site) (h : handleAll cs (rtDtaskInit x) = some d') :
    Isolated site x task cs d' := by
  have hinit : ∀ y : Kernel, y.name = site.name → (rtDtaskInit y).NamedBy site.name :=
    fun y hy => hy ▸ rtDtaskInit_namedBy y
  have hempty : ∀ y : Kernel, (rtDtaskInit y).armingAt (site.name task) = none := fun _ => rfl
  have hd' := handleAll_named (hinit x hx) h
  have hrun := handleAll_armingAt (hinit x hx) htask hcs h
  -- a further call about the task takes one more step of the private machine
  have hnext : ∀ (c : Call) (op : Op) (clock : UInt64) (d₂ : Driver),
      c.own task = some (op, clock) → c.exec d' = some d₂ →
      d₂.armingAt (site.name task) = op.arm clock (d'.armingAt (site.name task)) := by
    intro c op clock d₂ hown hc
    have htask? : c.task? = some task := Call.own_isSome.mp (by simp [hown])
    have hin : c.InSite site := by
      refine ⟨fun task' htask' => ?_, ?_⟩
      · rw [htask?, Option.mem_some_iff] at htask'
        exact htask' ▸ htask
      · rintro rfl
        simp [Call.own, Call.request?] at hown
    rw [c.exec_armingAt hd' htask hin hc, Call.arm, hown]
  constructor
  case erased =>
    obtain ⟨d₁, hfilter⟩ := handleAll_filter (hinit x hx) (hinit x hx) htask hcs rfl h
    refine ⟨d₁, hfilter, ?_⟩
    rw [handleAll_armingAt (hinit x hx) htask (fun c hc => hcs c (List.mem_of_mem_filter hc))
      hfilter, hrun, foldl_arm_eq, foldl_arm_eq, filterMap_own_filter]
  case same =>
    intro y cs₁ d₁ hy hcs₁ h₁ hown
    rw [handleAll_armingAt (hinit y hy) htask hcs₁ h₁, hrun, foldl_arm_eq, foldl_arm_eq, hown,
      hempty, hempty]
  case create =>
    intro c D clock d₂ a hown hc ha
    rw [hnext c _ clock d₂ hown hc, ha]
    rfl
  case reset =>
    intro c clock d₂ a hown hc ha
    rw [hnext c _ clock d₂ hown hc] at ha
    cases hbefore : d'.armingAt (site.name task) with
    | none => simp [hbefore, Op.arm] at ha
    | some a₀ =>
        rw [hbefore] at ha
        obtain rfl := Option.some.inj ha
        have hlast : lastSet task none cs (rtDtaskInit x) = some a₀.relativeDeadline :=
          lastSet_eq (hinit x hx) htask hcs (fun a ha => by simp [hempty] at ha) h hbefore
        exact ⟨hlast, rfl⟩

end Last

/-- Two tasks whose requests interleave; in the end the second is deleted. -/
def interleavedCalls : List Call :=
  [letterWrite .createTask 0 10 0 10, letterWrite .createTask 1 20 1 20,
    letterWrite .setDeadline 1 30 2 30, letterWrite .resetDeadline 0 0 3 40,
    .deleteHook 1 (plainReplies 4 50)]

theorem arming_isolated_interleaved :
    Isolated letterSite letterStart.driver.kernel 0 interleavedCalls
      (letterHandled interleavedCalls) := by
  refine arming_isolated rfl (show (0 : Nat) < 3 by decide) (fun c hc => ?_)
    (letterHandled_eq (by decide +kernel))
  simp only [interleavedCalls, List.mem_cons, List.not_mem_nil, or_false] at hc
  rcases hc with rfl | rfl | rfl | rfl | rfl <;> exact ⟨by decide +kernel, nofun⟩

end Edfomai
