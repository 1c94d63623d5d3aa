import Edfomai.Recalc
import Edfomai.Lib.Transition

/-!
# Edfomai.Serial

Runs of **serialised driver operations**: the operations of `edfomai-drv-data.c` on
any number of distinctly named tasks, one after the other, with clock readings
that never decrease.

Each operation is a short sequence of *updates* (`Update`): a call logged, a record
armed and the priorities recalculated, a record put to waiting, a record erased.
`Op.exec_updates` decomposes all seven operations once; an invariant of the runs is
then proved by one lemma per update.
-/

namespace Edfomai

/-- The tasks that exist and their names, which are distinct. -/
structure Site where
  tasks : Set RtTask
  name : RtTask → TaskName
  distinct : Set.InjOn name tasks

/-- A driver operation with its arguments. -/
inductive Op
  | create (task : RtTask) (deadline : UInt64)
  | setdeadline (task : RtTask) (newdeadline : UInt64)
  | resetdeadline (task : RtTask)
  | goingwaitp (task : RtTask)
  | stopwatchdog (task : RtTask)
  | delete (task : RtTask)
  | recalculateprio
  deriving DecidableEq

namespace Op

/-- Run an operation: what it returns and the state it leaves. -/
def exec (r : Replies) : Op → Driver → Option (Int32 × Driver)
  | create task deadline, d => rtDtaskCreate r task deadline d
  | setdeadline task newdeadline, d => rtDtaskSetdeadline r task newdeadline d
  | resetdeadline task, d => rtDtaskResetdeadline r task d
  | goingwaitp task, d => rtDtaskGoingwaitp r task d
  | stopwatchdog task, d => rtDtaskStopwatchdog r task d
  | delete task, d => rtDtaskDelete r task d
  | recalculateprio, d => some (0, rtDtaskRecalculateprio r.recalcClock d)

/-- The task an operation is about. -/
def task? : Op → Option RtTask
  | create task _ | setdeadline task _ | resetdeadline task | goingwaitp task
  | stopwatchdog task | delete task => some task
  | recalculateprio => none

end Op

/-- An operation, and what the kernel answers while it runs. -/
structure Request where
  op : Op
  replies : Replies
  deriving DecidableEq

/-- The driver, and the last clock value read. -/
structure SerialState where
  clock : UInt64
  driver : Driver

/-- The operation is about an existing task, and time has not run backwards: neither
since the last request nor between the readings of this one. -/
def Request.Ok (site : Site) (clock : UInt64) (q : Request) : Prop :=
  (∀ task ∈ q.op.task?, task ∈ site.tasks) ∧ clock ≤ q.replies.armClock ∧
    q.replies.armClock ≤ q.replies.recalcClock

/-- Serve one request. -/
def SerialState.exec (q : Request) (s : SerialState) : Option SerialState :=
  (q.op.exec q.replies s.driver).map fun res => ⟨q.replies.recalcClock, res.2⟩

/-- The runs of serialised operations, from the state `rt_dtask_init` leaves, whatever
the priorities are by then. -/
def serial (site : Site) : TransitionSystem SerialState Request where
  init s := ∃ x : Kernel, x.name = site.name ∧ x.history = [] ∧ s.driver = rtDtaskInit x
  step s q s' := q.Ok site s.clock ∧ s.exec q = some s'

/-- Serve a list of requests. -/
def SerialState.execAll : List Request → SerialState → Option SerialState
  | [], s => some s
  | q :: qs, s => (s.exec q).bind (execAll qs)

/-- The requests of a list are in order when each is, at the clock value the previous
one left. -/
def Request.AllOk (site : Site) : UInt64 → List Request → Prop
  | _, [] => True
  | t, q :: qs => q.Ok site t ∧ AllOk site q.replies.recalcClock qs

instance (site : Site) [DecidablePred (· ∈ site.tasks)] (clock : UInt64) (q : Request) :
    Decidable (q.Ok site clock) := by
  unfold Request.Ok; infer_instance

/-- Whether a list of requests is in order can be computed. -/
def Request.decidableAllOk (site : Site) [DecidablePred (· ∈ site.tasks)] :
    (clock : UInt64) → (qs : List Request) → Decidable (AllOk site clock qs)
  | _, [] => isTrue trivial
  | _, q :: qs => @instDecidableAnd _ _ _ (decidableAllOk site q.replies.recalcClock qs)

instance (site : Site) [DecidablePred (· ∈ site.tasks)] (clock : UInt64) (qs : List Request) :
    Decidable (Request.AllOk site clock qs) := Request.decidableAllOk ..

theorem SerialState.exec_clock {q : Request} {s s' : SerialState} (h : s.exec q = some s') :
    s'.clock = q.replies.recalcClock := by
  obtain ⟨res, -, rfl⟩ := Option.map_eq_some_iff.mp h
  rfl

theorem SerialState.execAll_append (qs qs' : List Request) (s : SerialState) :
    s.execAll (qs ++ qs') = (s.execAll qs).bind (execAll qs') := by
  induction qs generalizing s with
  | nil => rfl
  | cons q qs ih =>
      simp only [List.cons_append, execAll, Option.bind_assoc]
      exact congrArg _ (funext ih)

/-- A list of requests served in order is a run. -/
theorem reachable_of_execAll {site : Site} {s s' : SerialState} {qs : List Request}
    (hs : (serial site).Reachable s) (hok : Request.AllOk site s.clock qs)
    (h : s.execAll qs = some s') : (serial site).Reachable s' := by
  induction qs generalizing s with
  | nil =>
      obtain rfl := Option.some.inj h
      exact hs
  | cons q qs ih =>
      obtain ⟨s₁, h₁, h⟩ := Option.bind_eq_some_iff.mp h
      refine ih (hs.step ⟨hok.1, h₁⟩) ?_ h
      rw [SerialState.exec_clock h₁]
      exact hok.2

/-! ### A small site

Three tasks named by one letter each, for the concrete runs of later modules. -/

/-- The names of the tasks of `letterSite`. -/
def letterName : RtTask → TaskName
  | 0 => ⟨[97], by decide, by decide⟩
  | 1 => ⟨[98], by decide, by decide⟩
  | _ => ⟨[99], by decide, by decide⟩

/-- The tasks `0`, `1` and `2`. -/
def letterSite : Site where
  tasks := {task | task < 3}
  name := letterName
  distinct := by
    have hall : ∀ i j : Fin 3, letterName i = letterName j → i = j := by decide
    intro i hi j hj hij
    exact congrArg Fin.val (hall ⟨i, hi⟩ ⟨j, hj⟩ hij)

/-- The driver after `rt_dtask_init`, every task at priority 25. -/
def letterStart : SerialState := ⟨0, rtDtaskInit ⟨letterName, fun _ => 25, []⟩⟩

/-- A kernel with memory to spare, and no time passing during the operation. -/
def plainReplies (clock : UInt64) (b : Block) : Replies :=
  ⟨clock, clock, some b, some (b + 1), some (b + 2), true⟩

/-- The state after the given requests. -/
def letterRun (qs : List Request) : SerialState := (letterStart.execAll qs).getD letterStart

instance : DecidablePred (· ∈ letterSite.tasks) := fun task =>
  inferInstanceAs (Decidable (task < 3))

theorem letterRun_reachable {qs : List Request} (hok : Request.AllOk letterSite 0 qs)
    (h : (letterStart.execAll qs).isSome) : (serial letterSite).Reachable (letterRun qs) := by
  obtain ⟨s, hs⟩ := Option.isSome_iff_exists.mp h
  have hinit : (serial letterSite).Reachable letterStart :=
    .init ⟨⟨letterName, fun _ => 25, []⟩, rfl, rfl, rfl⟩
  rw [letterRun, hs, Option.getD_some]
  exact reachable_of_execAll hinit hok hs

/-- One more request extends the run by a step. -/
theorem letterRun_step {qs : List Request} {q : Request} (h : (letterStart.execAll qs).isSome)
    (hok : q.Ok letterSite (letterRun qs).clock) (hq : ((letterRun qs).exec q).isSome) :
    (serial letterSite).step (letterRun qs) q (letterRun (qs ++ [q])) := by
  refine ⟨hok, ?_⟩
  obtain ⟨s, hs⟩ := Option.isSome_iff_exists.mp h
  have hrun : letterRun qs = s := by rw [letterRun, hs, Option.getD_some]
  obtain ⟨s', hs'⟩ := Option.isSome_iff_exists.mp hq
  rw [hrun] at hs' ⊢
  have happ : letterStart.execAll (qs ++ [q]) = some s' := by
    rw [SerialState.execAll_append, hs]
    simp [SerialState.execAll, hs']
  rw [letterRun, happ, Option.getD_some, hs']

/-! ### Updates -/

/-- Arming the record under a name: it gets a new absolute deadline, and all
priorities are recalculated. `f` is the assignment the operation makes. -/
def rearmed (k : TaskName) (f : RtDtask → RtDtask) (clock relative : UInt64) (d : Driver) :
    Driver :=
  (d.adjust k f).log (.armed k clock relative)

/-- A new record, armed. -/
def added (k : TaskName) (r : RtDtask) (clock relative : UInt64) (d : Driver) : Driver :=
  { d with dtaskMap := d.dtaskMap.add k r }.log (.armed k clock relative)

/-- The updates operations are made of. -/
inductive Update (site : Site) : SerialState → SerialState → Prop
  /-- Time passes. -/
  | tick {t t' : UInt64} {d : Driver} : t ≤ t' → Update site ⟨t, d⟩ ⟨t', d⟩
  /-- A block is allocated. -/
  | malloc {t : UInt64} {d : Driver} (p : Option Block) :
      Update site ⟨t, d⟩ ⟨t, d.log (.malloc p)⟩
  /-- A block is freed. -/
  | free {t : UInt64} {d : Driver} (p : Option Block) :
      Update site ⟨t, d⟩ ⟨t, d.log (.free p)⟩
  /-- The task under `k` is put to waiting. -/
  | wait {t : UInt64} {d : Driver} (p : Option Block) (k : TaskName) :
      Update site ⟨t, d⟩ ⟨t, (d.log (.malloc p)).adjust k fun rec =>
        { rec with state := EdfCommand.goingWaitp.code }⟩
  /-- The record under `k` is removed. -/
  | erase {t : UInt64} {d : Driver} (p : Option Block) (k : TaskName) :
      Update site ⟨t, d⟩
        ⟨t, { d.log (.malloc p) with dtaskMap := d.dtaskMap.erase k }⟩
  /-- An existing record is armed. -/
  | rearm {t c c' D : UInt64} {d : Driver} {k : TaskName} {r : RtDtask} {f : RtDtask → RtDtask} :
      d.dtaskMap.lookup k = some r → t ≤ c → c ≤ c' →
      f r = RtDtask.rearm c { r with relativeDeadline := D } →
      Update site ⟨t, d⟩ ⟨c', rtDtaskRecalculateprio c' (rearmed k f c D d)⟩
  /-- A new record is armed. -/
  | add {t c' D : UInt64} {d : Driver} {r : Replies} {b : Block} {task : RtTask} :
      d.dtaskMap.lookup (d.kernel.name task) = none → task ∈ site.tasks →
      t ≤ r.armClock → r.armClock ≤ c' →
      Update site ⟨t, d⟩ ⟨c', rtDtaskRecalculateprio c' (added (d.kernel.name task)
        (newDtask r b task D (d.kernel.rtTaskInquire task)) r.armClock D d)⟩
  /-- The priorities are recalculated. -/
  | recalc {t c : UInt64} {d : Driver} :
      t ≤ c → Update site ⟨t, d⟩ ⟨c, rtDtaskRecalculateprio c d⟩

/-- Any number of updates. -/
abbrev Updates (site : Site) := Relation.ReflTransGen (Update site)

open Relation.ReflTransGen in
theorem goingwaitp_updates (site : Site) {t : UInt64} {r : Replies} {task : RtTask} {d d' : Driver}
    {ret : Int32} (h : rtDtaskGoingwaitp r task d = some (ret, d')) :
    Updates site ⟨t, d⟩ ⟨t, d'⟩ := by
  obtain ⟨b, -, ⟨rec, -, -, rfl⟩ | ⟨-, -, rfl⟩⟩ := goingwaitp_inv h
  · exact (single (.wait _ _)).tail (.free _)
  · exact (single (.malloc _)).tail (.free _)

open Relation.ReflTransGen in
/-- **What an operation can do.** -/
theorem Op.exec_updates {site : Site} {t : UInt64} {q : Request} {d d' : Driver} {ret : Int32}
    (hok : q.Ok site t) (h : q.op.exec q.replies d = some (ret, d')) :
    Updates site ⟨t, d⟩ ⟨q.replies.recalcClock, d'⟩ := by
  obtain ⟨op, r⟩ := q
  obtain ⟨htask, harm, hrecalc⟩ := hok
  have htick : t ≤ r.recalcClock := UInt64.le_trans harm hrecalc
  -- an operation that finds no record does nothing but allocate and free its buffer
  have hnone : ∀ b, Updates site ⟨t, d⟩
      ⟨r.recalcClock, (d.log (.malloc (some b))).log (.free (some b))⟩ :=
    fun b => ((single (.malloc _)).tail (.free _)).tail (.tick htick)
  cases op with
  | create task D =>
      obtain ⟨b, d₁, -, hinsert, rfl⟩ := create_inv h
      have hallocs : Updates site ⟨t, d⟩
          ⟨t, (d.log (.malloc (some b))).log (.malloc r.watchd)⟩ :=
        (single (.malloc _)).tail (.malloc _)
      rcases insertDtask_inv hinsert with ⟨hl, -, -, rfl⟩ | ⟨-, -, rfl⟩
      · exact hallocs.tail (.add (r := r) (b := b) hl (htask _ rfl) harm hrecalc)
      · exact (hallocs.tail (.free _)).tail (.recalc htick)
  | setdeadline task D =>
      obtain ⟨b, -, ⟨rec, hrec, -, rfl⟩ | ⟨-, -, rfl⟩⟩ := setdeadline_inv h
      · exact (single (.malloc (some b))).tail (.rearm hrec harm hrecalc rfl)
      · exact (single (.malloc _)).tail (.tick htick)
  | resetdeadline task =>
      obtain ⟨b, -, ⟨rec, hrec, -, rfl⟩ | ⟨-, -, rfl⟩⟩ := resetdeadline_inv h
      · exact ((single (.malloc (some b))).tail (.rearm hrec harm hrecalc rfl)).tail (.free _)
      · exact hnone b
  | goingwaitp task => exact (goingwaitp_updates site h).tail (.tick htick)
  | stopwatchdog task =>
      obtain ⟨b, -, ⟨rec, ret₁, d₁, -, -, hnested, rfl⟩ | ⟨-, -, rfl⟩⟩ := stopwatchdog_inv h
      · exact (((single (.malloc _)).trans (goingwaitp_updates site hnested)).tail (.free _)).tail
          (.tick htick)
      · exact hnone b
  | delete task =>
      obtain ⟨b, -, ⟨rec, -, -, rfl⟩ | ⟨-, -, rfl⟩⟩ := delete_inv h
      · exact ((((single (.erase (some b) _)).tail (.free _)).tail (.free _)).tail (.free _)).tail
          (.tick htick)
      · exact hnone b
  | recalculateprio =>
      obtain ⟨rfl, rfl⟩ := Prod.mk.inj (Option.some.inj h)
      exact single (.recalc htick)

/-- A step of the serialised system is a sequence of updates. -/
theorem serial_step_updates {site : Site} {s s' : SerialState} {q : Request}
    (h : (serial site).step s q s') : Updates site s s' := by
  obtain ⟨hok, hexec⟩ := h
  obtain ⟨⟨ret, d'⟩, hres, rfl⟩ := Option.map_eq_some_iff.mp hexec
  exact Op.exec_updates hok hres

theorem Updates.invariant {site : Site} {Inv : SerialState → Prop}
    (hupdate : ∀ s s', Inv s → Update site s s' → Inv s') {s s' : SerialState}
    (h : Updates site s s') (hs : Inv s) : Inv s' := by
  induction h with
  | refl => exact hs
  | tail _ hu ih => exact hupdate _ _ ih hu

/-- **The invariant rule for serialised runs**: one lemma per update. -/
theorem serial_invariant {site : Site} {Inv : SerialState → Prop}
    (hinit : ∀ s, (serial site).init s → Inv s)
    (hupdate : ∀ s s', Inv s → Update site s s' → Inv s') {s : SerialState}
    (hs : (serial site).Reachable s) : Inv s := by
  exact hs.invariant hinit fun _ _ _ hinv hstep =>
    (serial_step_updates hstep).invariant hupdate hinv

end Edfomai
