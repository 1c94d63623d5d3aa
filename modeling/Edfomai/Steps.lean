import Edfomai.Serial
import Edfomai.Lib.Cursor

/-!
# Edfomai.Steps

The operations as other threads see them: up to its recalculation an operation is one
step, and the recalculation is one step per record of each pass.

* `RecalcPc.step` is `rt_dtask_recalculateprio` in steps. Between two steps of a pass
  the iteration has saved the address of the next record. `recalc_steps` shows that
  uninterrupted steps are `rtDtaskRecalculateprio`.
* `Op.begin` is an operation up to its recalculation. `Op.exec_eq_begin` shows that
  an operation is its beginning, the recalculation and the release of its buffer.
-/

namespace Edfomai

/-! ### The records as nodes of the table -/

/-- What a step of a recalculation keeps of a record. -/
structure Node where
  name : TaskName
  task : RtTask
  addr : Block
  deriving DecidableEq

/-- The records, in the order in which `HASH_ITER` visits them. -/
def Driver.nodes (d : Driver) : List Node :=
  d.dtaskMap.entries.map fun e => ⟨e.1, e.2.task, e.2.addr⟩

/-- Their addresses. -/
def Driver.addrs (d : Driver) : List Block := d.dtaskMap.addrs fun r => r.addr

theorem Driver.addrs_eq (d : Driver) : d.addrs = d.nodes.map Node.addr := by
  simp [addrs, nodes, Table.addrs]

theorem Driver.mem_nodes {d : Driver} {n : Node} :
    n ∈ d.nodes ↔ ∃ r, d.dtaskMap.lookup n.name = some r ∧ r.task = n.task ∧ r.addr = n.addr := by
  constructor
  · intro h
    obtain ⟨e, he, rfl⟩ := List.mem_map.mp h
    exact ⟨e.2, lookup_of_mem_entries he, rfl, rfl⟩
  · rintro ⟨r, hl, htask, haddr⟩
    exact List.mem_map.mpr ⟨⟨n.name, r⟩, mem_entries_of_lookup hl, by simp [htask, haddr]⟩

@[simp] theorem nodes_log (e : Event) (d : Driver) : (d.log e).nodes = d.nodes := rfl

/-- Rewriting a record in place keeps the nodes, unless the record is given another
task or moved. -/
theorem nodes_of_adjust {d d' : Driver} {k : TaskName} {f : RtDtask → RtDtask}
    (hd' : d'.dtaskMap = d.dtaskMap.adjust k f)
    (hf : ∀ r, d.dtaskMap.lookup k = some r → (f r).task = r.task ∧ (f r).addr = r.addr) :
    d'.nodes = d.nodes := by
  rw [Driver.nodes, hd', Driver.nodes, Table.adjust, Table.entries_mapValues, List.map_map]
  refine List.map_congr_left fun e he => ?_
  by_cases hk : e.1 = k
  · obtain ⟨htask, haddr⟩ := hf e.2 (hk ▸ lookup_of_mem_entries he)
    simp [Sigma.map, hk, htask, haddr]
  · simp [Sigma.map, hk]

/-- A new record is the last node. -/
theorem nodes_of_add {d d' : Driver} {k : TaskName} {r : RtDtask}
    (h : d.dtaskMap.lookup k = none) (hd' : d'.dtaskMap = d.dtaskMap.add k r) :
    d'.nodes = d.nodes ++ [⟨k, r.task, r.addr⟩] := by
  rw [Driver.nodes, hd', Table.entries_add r h, List.map_append]
  rfl

/-! ### `rt_dtask_recalculateprio` in steps -/

/-- Where a thread is inside `rt_dtask_recalculateprio`. -/
inductive RecalcPc
  /-- Called. -/
  | entry
  /-- In the first pass, at the end of a round: the next record has been saved. -/
  | firstPass (currTime : UInt64) (m : Extremes) (next : Option Block)
  /-- In the second pass, at the end of a round. -/
  | secondPass (currTime : UInt64) (m : Extremes) (next : Option Block)
  /-- At the `return`. -/
  | done
  deriving DecidableEq

/-- `tmp` of the `HASH_ITER` the thread is in. -/
def RecalcPc.saved : RecalcPc → Option (Option Block)
  | .firstPass _ _ next | .secondPass _ _ next => some next
  | .entry | .done => none

/-- Where an iteration over the table begins. -/
def Driver.first (d : Driver) : Option Block :=
  Table.first (fun r : RtDtask => r.addr) d.dtaskMap.entries

/-- One step: the test of `HASH_COUNT` and the clock reading, or one round of a pass.
There is no step when the saved record is not in the table. -/
def RecalcPc.step (clock : UInt64) : RecalcPc → Driver → Option (RecalcPc × Driver)
  | .entry, d =>
      if d.dtaskMap.keys.length = 0 then some (.done, d)
      else some (.firstPass clock .start d.first, d.log (.recalculated clock))
  | .firstPass t m (some b), d =>
      (Table.visit (fun r => r.addr) (firstPassBody d.kernel t) m b d.dtaskMap).map fun v =>
        (.firstPass t v.1 v.2.1, ⟨v.2.2, d.kernel⟩)
  | .firstPass t m none, d => some (.secondPass t m d.first, d)
  | .secondPass t m (some b), d =>
      (Table.visit (fun r => r.addr) (secondPassBody t m) d.kernel b d.dtaskMap).map fun v =>
        (.secondPass t m v.2.1, ⟨v.2.2, v.1⟩)
  | .secondPass _ _ none, d => some (.done, d)
  | .done, _ => none

/-- The call of `rt_task_set_priority` that the next step of a recalculation makes, if
it makes one. -/
def RecalcPc.setsPriority (d : Driver) : RecalcPc → Option (RtTask × Int32)
  | .secondPass _ m (some b) =>
      match Table.elementAt (fun r : RtDtask => r.addr) b d.dtaskMap.entries with
      | some (⟨_, r⟩, _) =>
          let newprio := calculatePrio r.remain m.minRemain m.maxRemain
          if r.Judged ∧ newprio ≠ r.taskInfo.cprio then some (r.task, newprio) else none
      | none => none
  | _ => none

theorem firstPassBody_addr (x : Kernel) (t : UInt64) (k : TaskName) (m : Extremes) (r : RtDtask) :
    (firstPassBody x t k m r).2.addr = r.addr := by
  unfold firstPassBody; split <;> rfl

theorem firstPassBody_task (x : Kernel) (t : UInt64) (k : TaskName) (m : Extremes) (r : RtDtask) :
    (firstPassBody x t k m r).2.task = r.task := by
  rw [firstPassBody_eq, refresh_task]

theorem secondPassBody_addr (t : UInt64) (m : Extremes) (k : TaskName) (x : Kernel) (r : RtDtask) :
    (secondPassBody t m k x r).2.addr = r.addr := by
  rw [secondPassBody_snd, RtDtask.latch]; split <;> rfl

theorem secondPassBody_task (t : UInt64) (m : Extremes) (k : TaskName) (x : Kernel) (r : RtDtask) :
    (secondPassBody t m k x r).2.task = r.task := by
  rw [secondPassBody_snd, latch_task]

/-- **What a step of a recalculation can do**: the table keeps its nodes, names stay,
the saved record is one of the table, and priorities change by the announced call
only. -/
theorem RecalcPc.step_inv {clock : UInt64} {pc pc' : RecalcPc} {d d' : Driver}
    (h : pc.step clock d = some (pc', d')) :
    d'.nodes = d.nodes ∧ d'.kernel.name = d.kernel.name ∧
      (∀ b, pc'.saved = some (some b) → b ∈ d.addrs) ∧
      d'.kernel.cprio = match pc.setsPriority d with
        | some (task, prio) => Function.update d.kernel.cprio task prio
        | none => d.kernel.cprio := by
  cases pc with
  | entry =>
      rw [step] at h
      split at h
      · obtain ⟨rfl, rfl⟩ := Prod.mk.inj (Option.some.inj h)
        exact ⟨rfl, rfl, by simp [saved], rfl⟩
      · obtain ⟨rfl, rfl⟩ := Prod.mk.inj (Option.some.inj h)
        exact ⟨rfl, rfl, fun b hb => Table.first_mem (Option.some.inj hb), rfl⟩
  | firstPass t m next =>
      cases next with
      | none =>
          obtain ⟨rfl, rfl⟩ := Prod.mk.inj (Option.some.inj h)
          exact ⟨rfl, rfl, fun b hb => Table.first_mem (Option.some.inj hb), rfl⟩
      | some b =>
          obtain ⟨⟨m', next', map'⟩, hv, heq⟩ := Option.map_eq_some_iff.mp h
          obtain ⟨rfl, rfl⟩ := Prod.mk.inj heq
          obtain ⟨k, r, hl, -, -, hmap, hnext⟩ := Table.visit_eq_some hv
          refine ⟨nodes_of_adjust hmap fun r' hr' => ?_, rfl, ?_, rfl⟩
          · obtain rfl := Option.some.inj (hl.symm.trans hr')
            exact ⟨firstPassBody_task .., firstPassBody_addr ..⟩
          · exact fun b' hb' => hnext b' (Option.some.inj hb')
  | secondPass t m next =>
      cases next with
      | none =>
          obtain ⟨rfl, rfl⟩ := Prod.mk.inj (Option.some.inj h)
          exact ⟨rfl, rfl, by simp [saved], rfl⟩
      | some b =>
          obtain ⟨v, hv, heq⟩ := Option.map_eq_some_iff.mp h
          obtain ⟨rfl, rfl⟩ := Prod.mk.inj heq
          obtain ⟨⟨⟨k, r⟩, next'⟩, hfound, rfl⟩ := Option.map_eq_some_iff.mp hv
          obtain ⟨hmem, -, hnext⟩ := Table.elementAt_eq_some hfound
          have hl := lookup_of_mem_entries hmem
          refine ⟨nodes_of_adjust rfl fun r' hr' => ?_, judge_name t m d.kernel ⟨k, r⟩, ?_, ?_⟩
          · obtain rfl := Option.some.inj (hl.symm.trans hr')
            exact ⟨secondPassBody_task .., secondPassBody_addr ..⟩
          · exact fun b' hb' => hnext b' (Option.some.inj hb')
          · simp only [setsPriority, hfound]
            show (judge t m d.kernel ⟨k, r⟩).cprio = _
            rcases judge_cases t m d.kernel k r with ⟨hj, hres⟩ | ⟨hj, hp, hres⟩ | ⟨hj, hp, hres⟩
            · simp [hres, hj]
            · simp [hres, hp]
            · simp [hres, hj, hp]
  | done => simp [step] at h

/-! ### Uninterrupted steps -/

/-- Any number of steps, reading the clock at `t`. -/
def RecalcSteps (t : UInt64) : RecalcPc × Driver → RecalcPc × Driver → Prop :=
  Relation.ReflTransGen fun c c' => c.1.step t c.2 = some c'

/-- The state of the first pass, as the state of a thread. -/
def firstPassState (t : UInt64) (x : Kernel)
    (c : Extremes × Option Block × Table TaskName RtDtask) : RecalcPc × Driver :=
  (.firstPass t c.1 c.2.1, ⟨c.2.2, x⟩)

/-- The state of the second pass, as the state of a thread. -/
def secondPassState (t : UInt64) (m : Extremes)
    (c : Kernel × Option Block × Table TaskName RtDtask) : RecalcPc × Driver :=
  (.secondPass t m c.2.1, ⟨c.2.2, c.1⟩)

theorem firstPass_steps {t : UInt64} {x : Kernel}
    {c c' : Extremes × Option Block × Table TaskName RtDtask}
    (h : Relation.ReflTransGen (Table.Visits (fun r => r.addr) (firstPassBody x t)) c c') :
    RecalcSteps t (firstPassState t x c) (firstPassState t x c') := by
  refine h.lift (firstPassState t x) ?_
  rintro _ _ ⟨hv⟩
  simp only [Function.onFun, firstPassState, RecalcPc.step, hv, Option.map_some]

theorem secondPass_steps {t : UInt64} {m : Extremes}
    {c c' : Kernel × Option Block × Table TaskName RtDtask}
    (h : Relation.ReflTransGen (Table.Visits (fun r => r.addr) (secondPassBody t m)) c c') :
    RecalcSteps t (secondPassState t m c) (secondPassState t m c') := by
  refine h.lift (secondPassState t m) ?_
  rintro _ _ ⟨hv⟩
  simp only [Function.onFun, secondPassState, RecalcPc.step, hv, Option.map_some]

/-- **Uninterrupted, the steps are `rt_dtask_recalculateprio`.** -/
theorem recalc_steps {d : Driver} (t : UInt64) (hnd : d.addrs.Nodup) :
    RecalcSteps t (.entry, d) (.done, rtDtaskRecalculateprio t d) := by
  by_cases hempty : d.dtaskMap.keys.length = 0
  · refine .single ?_
    simp only [RecalcPc.step, rtDtaskRecalculateprio, if_pos hempty]
  · let x := d.kernel.log (.recalculated t)
    let first := Table.thread (firstPassBody x t) .start d.dtaskMap
    let second := Table.thread (secondPassBody t first.1) x first.2
    have hentry : RecalcSteps t (.entry, d)
        (firstPassState t x (.start, d.first, d.dtaskMap)) := by
      refine .single ?_
      simp only [RecalcPc.step, if_neg hempty]
      rfl
    have hfirst := firstPass_steps
      (Table.visits_thread (firstPassBody_addr x t) .start d.dtaskMap hnd)
    have hbetween : RecalcSteps t (firstPassState t x (first.1, none, first.2))
        (secondPassState t first.1
          (x, Table.first (fun r => r.addr) first.2.entries, first.2)) := .single rfl
    -- the first pass moves no record
    have hnd' : (first.2.addrs fun r => r.addr).Nodup := by
      have haddrs : (first.2.addrs fun r => r.addr) = d.addrs := by
        rw [firstPass_snd, Driver.addrs, Table.addrs, Table.entries_mapValues, List.map_map]
        refine List.map_congr_left fun e _ => ?_
        simp only [Function.comp_apply, Sigma.map, RtDtask.refresh]
        split <;> rfl
      rw [haddrs]
      exact hnd
    have hsecond := secondPass_steps
      (Table.visits_thread (secondPassBody_addr t first.1) x first.2 hnd')
    have hdone : RecalcSteps t (secondPassState t first.1 (second.1, none, second.2))
        (.done, rtDtaskRecalculateprio t d) := by
      refine .single ?_
      simp only [secondPassState, RecalcPc.step, rtDtaskRecalculateprio, if_neg hempty]
      rfl
    exact (((hentry.trans hfirst).trans hbetween).trans hsecond).trans hdone

/-! ### Operations up to their recalculation -/

/-- An operation that has run up to its recalculation. -/
inductive Progress
  /-- It has returned: there was nothing to recalculate. -/
  | returned (ret : Int32) (d : Driver)
  /-- It is about to recalculate, and will then free its buffer, if it does that. -/
  | recalculate (ret : Int32) (d : Driver) (buffer : Option Block)

/-- Free a buffer that is to be freed. -/
def freeBuffer : Option Block → Driver → Driver
  | none, d => d
  | some b, d => d.log (.free (some b))

/-- The rest of an operation. -/
def Progress.finish (clock : UInt64) : Progress → Int32 × Driver
  | .returned ret d => (ret, d)
  | .recalculate ret d buffer => (ret, freeBuffer buffer (rtDtaskRecalculateprio clock d))

/-- What the two operations on deadlines do to the record they have found. -/
def armFound (clock : UInt64) (newdeadline : Option UInt64) (k : TaskName) (r : RtDtask)
    (d : Driver) : Driver :=
  let relative := newdeadline.getD r.relativeDeadline
  (d.adjust k fun rec => RtDtask.rearm clock
    { rec with relativeDeadline := newdeadline.getD rec.relativeDeadline }).log
    (.armed k clock relative)

/-- An operation up to its recalculation. -/
def Op.begin (r : Replies) : Op → Driver → Option Progress
  | .create task deadline, d =>
      r.block.bind fun b => (insertDtask r b task deadline d).map fun res =>
        .recalculate res.1 res.2 none
  | .setdeadline task newdeadline, d =>
      (withTaskInfo r task d fun k rec d => some (armFound r.armClock newdeadline k rec d)).map
        fun res => if res.1 = 0 then .recalculate 0 res.2 none else .returned res.1 res.2
  | .resetdeadline task, d =>
      (withTaskInfo r task d fun k rec d => some (armFound r.armClock none k rec d)).map
        fun res => if res.1 = 0 then .recalculate 0 res.2 r.block
          else .returned res.1 (freeBuffer r.block res.2)
  | .recalculateprio, d => some (.recalculate 0 d none)
  | op, d => (op.exec r d).map fun res => .returned res.1 res.2

/-- **An operation is its beginning, the recalculation and the rest.** -/
theorem Op.exec_eq_begin (r : Replies) (op : Op) (d : Driver) :
    op.exec r d = (op.begin r d).map (Progress.finish r.recalcClock) := by
  cases op with
  | create task D =>
      simp only [exec, rtDtaskCreate, begin]
      cases r.block with
      | none => rfl
      | some b =>
          simp only [Option.bind_some, Option.map_map]
          rfl
  | setdeadline task D =>
      simp only [exec, rtDtaskSetdeadline, begin, withTaskInfo]
      cases hb : r.block with
      | none => rfl
      | some b =>
          simp only []
          split <;> rfl
  | resetdeadline task =>
      simp only [exec, rtDtaskResetdeadline, begin, withTaskInfo]
      cases hb : r.block with
      | none => rfl
      | some b =>
          simp only []
          split <;> simp [freeTaskInfo, Progress.finish, freeBuffer, armFound, hb]
  | goingwaitp task =>
      simp only [begin, Option.map_map]
      exact Option.map_id'.symm
  | stopwatchdog task =>
      simp only [begin, Option.map_map]
      exact Option.map_id'.symm
  | delete task =>
      simp only [begin, Option.map_map]
      exact Option.map_id'.symm
  | recalculateprio => rfl

/-! ### What the beginning of an operation can do -/

/-- The state a beginning leaves. -/
def Progress.driver : Progress → Driver
  | .returned _ d | .recalculate _ d _ => d

@[simp] theorem freeBuffer_nodes (b : Option Block) (d : Driver) :
    (freeBuffer b d).nodes = d.nodes := by cases b <;> rfl

@[simp] theorem freeBuffer_name (b : Option Block) (d : Driver) :
    (freeBuffer b d).kernel.name = d.kernel.name := by cases b <;> rfl

@[simp] theorem freeBuffer_cprio (b : Option Block) (d : Driver) :
    (freeBuffer b d).kernel.cprio = d.kernel.cprio := by cases b <;> rfl

/-- Neither names nor priorities nor nodes change. -/
structure Driver.Same (d d' : Driver) : Prop where
  name : d'.kernel.name = d.kernel.name
  cprio : d'.kernel.cprio = d.kernel.cprio
  nodes : d'.nodes = d.nodes

theorem armFound_same (clock : UInt64) (newdeadline : Option UInt64) (k : TaskName) (r : RtDtask)
    (d : Driver) : d.Same (armFound clock newdeadline k r d) :=
  ⟨rfl, rfl, nodes_of_adjust rfl fun _ _ => ⟨rfl, rfl⟩⟩

theorem Driver.Same.of_log {d d' : Driver} {e : Event} (h : (d.log e).Same d') : d.Same d' :=
  ⟨h.name, h.cprio, h.nodes⟩

theorem goingwaitp_same {r : Replies} {task : RtTask} {d d' : Driver} {ret : Int32}
    (h : rtDtaskGoingwaitp r task d = some (ret, d')) : d.Same d' := by
  obtain ⟨b, -, ⟨rec, -, -, rfl⟩ | ⟨-, -, rfl⟩⟩ := goingwaitp_inv h
  · exact ⟨rfl, rfl, nodes_of_adjust (d := d) rfl fun _ _ => ⟨rfl, rfl⟩⟩
  · exact ⟨rfl, rfl, rfl⟩

theorem stopwatchdog_same {r : Replies} {task : RtTask} {d d' : Driver} {ret : Int32}
    (h : rtDtaskStopwatchdog r task d = some (ret, d')) : d.Same d' := by
  obtain ⟨b, -, ⟨rec, ret₁, d₁, -, -, hnested, rfl⟩ | ⟨-, -, rfl⟩⟩ := stopwatchdog_inv h
  · obtain ⟨hname, hcprio, hnodes⟩ := goingwaitp_same hnested
    exact ⟨hname, hcprio, hnodes⟩
  · exact ⟨rfl, rfl, rfl⟩

/-- **What `rt_dtask_delete` can do**: it removes the record under the task's name. -/
theorem delete_nodes {r : Replies} {task : RtTask} {d d' : Driver} {ret : Int32}
    (h : rtDtaskDelete r task d = some (ret, d')) :
    d'.kernel.name = d.kernel.name ∧ d'.kernel.cprio = d.kernel.cprio ∧
      d'.nodes.Sublist d.nodes ∧ (∀ n ∈ d'.nodes, n.name ≠ d.kernel.name task) ∧
      (d.dtaskMap.lookup (d.kernel.name task) = none → d'.nodes = d.nodes) := by
  obtain ⟨b, -, ⟨rec, hrec, -, rfl⟩ | ⟨hnone, -, rfl⟩⟩ := delete_inv h
  · refine ⟨rfl, rfl, (List.kerase_sublist ..).map _, fun n hn => ?_, fun hnone => ?_⟩
    · obtain ⟨r, hl, -⟩ := Driver.mem_nodes.mp hn
      exact (Table.lookup_erase_eq_some hl).1
    · rw [hnone] at hrec
      exact absurd hrec (by simp)
  · refine ⟨rfl, rfl, List.Sublist.refl _, fun n hn heq => ?_, fun _ => rfl⟩
    obtain ⟨r, hl, -⟩ := Driver.mem_nodes.mp hn
    rw [heq] at hl
    exact absurd (hl.symm.trans hnone) (by simp)

/-- **What the beginning of an operation can do**: names and priorities stay, and the
table keeps its nodes unless a new record is created or one is deleted. -/
theorem Op.begin_inv {op : Op} {r : Replies} {d : Driver} {p : Progress}
    (h : op.begin r d = some p) :
    d.Same p.driver ∨
      (∃ task deadline b, op = .create task deadline ∧ r.block = some b ∧
        d.dtaskMap.lookup (d.kernel.name task) = none ∧
        p.driver.kernel.name = d.kernel.name ∧ p.driver.kernel.cprio = d.kernel.cprio ∧
        p.driver.nodes = d.nodes ++ [⟨d.kernel.name task, task, b⟩]) ∨
      ∃ task ret, op = .delete task ∧ rtDtaskDelete r task d = some (ret, p.driver) := by
  cases op with
  | create task deadline =>
      obtain ⟨b, hb, h⟩ := Option.bind_eq_some_iff.mp h
      obtain ⟨res, hres, rfl⟩ := Option.map_eq_some_iff.mp h
      rcases insertDtask_inv hres with ⟨hnone, -, -, hd⟩ | ⟨-, -, hd⟩
      · refine Or.inr (Or.inl ⟨task, deadline, b, rfl, hb, hnone, ?_⟩)
        show res.2.kernel.name = _ ∧ res.2.kernel.cprio = _ ∧ res.2.nodes = _
        rw [hd]
        refine ⟨rfl, rfl, ?_⟩
        exact nodes_of_add (r := newDtask r b task deadline (d.kernel.rtTaskInquire task)) hnone rfl
      · refine Or.inl ?_
        show d.Same res.2
        rw [hd]
        exact ⟨rfl, rfl, rfl⟩
  | setdeadline task newdeadline =>
      refine Or.inl ?_
      obtain ⟨⟨ret, d₁⟩, hres, rfl⟩ := Option.map_eq_some_iff.mp h
      obtain ⟨b, -, ⟨rec, -, rfl, hd⟩ | ⟨-, rfl, rfl⟩⟩ := withTaskInfo_inv hres
      · rw [← Option.some.inj hd]
        exact (armFound_same ..).of_log
      · exact ⟨rfl, rfl, rfl⟩
  | resetdeadline task =>
      refine Or.inl ?_
      obtain ⟨⟨ret, d₁⟩, hres, rfl⟩ := Option.map_eq_some_iff.mp h
      obtain ⟨b, -, ⟨rec, -, rfl, hd⟩ | ⟨-, rfl, rfl⟩⟩ := withTaskInfo_inv hres
      · rw [← Option.some.inj hd]
        exact (armFound_same ..).of_log
      · exact ⟨freeBuffer_name .., freeBuffer_cprio .., freeBuffer_nodes ..⟩
  | goingwaitp task =>
      obtain ⟨⟨ret, d₁⟩, hres, rfl⟩ := Option.map_eq_some_iff.mp h
      exact Or.inl (goingwaitp_same hres)
  | stopwatchdog task =>
      obtain ⟨⟨ret, d₁⟩, hres, rfl⟩ := Option.map_eq_some_iff.mp h
      exact Or.inl (stopwatchdog_same hres)
  | delete task =>
      obtain ⟨⟨ret, d₁⟩, hres, rfl⟩ := Option.map_eq_some_iff.mp h
      exact Or.inr (Or.inr ⟨task, ret, rfl, hres⟩)
  | recalculateprio =>
      obtain rfl := Option.some.inj h
      exact Or.inl ⟨rfl, rfl, rfl⟩

end Edfomai
