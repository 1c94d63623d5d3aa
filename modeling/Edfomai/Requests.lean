import Edfomai.Arming
import Edfomai.Write

/-!
# Edfomai.Requests

The driver as the rest of the system calls it, one call after the other: write
requests, deletion hooks, rounds of the service, and the final `rt_dtask_dispose`.

Unlike the runs of `Edfomai.Serial` these start at the handler, so a call may also
come to nothing, and no order of the clock readings is assumed. What a run keeps
whatever it does is that every record is kept under its task's name
(`handleAll_named`).
-/

namespace Edfomai

/-- One round of the loop of `rt_dtask_dispose`: `HASH_DEL`, then the watchdog's block and
the record's. -/
def disposeBody (d : Driver) (e : Σ _ : TaskName, RtDtask) : Driver :=
  ({ d with dtaskMap := d.dtaskMap.erase e.1 }.log (.free e.2.watchd)).log
    (.free (some e.2.addr))

/-- `rt_dtask_dispose`. `HASH_ITER` has saved the next record before the current one is
removed, so the loop visits all that were there at its start. -/
def rtDtaskDispose (d : Driver) : Driver := d.dtaskMap.entries.foldl disposeBody d

/-- No record is left. -/
theorem dispose_keys (d : Driver) : (rtDtaskDispose d).dtaskMap.keys = [] := by
  unfold rtDtaskDispose
  generalize hes : d.dtaskMap.entries = es
  induction es generalizing d with
  | nil =>
      show d.dtaskMap.entries.keys = []
      rw [hes]
      rfl
  | cons e es ih =>
      refine ih (disposeBody d e) ?_
      show d.dtaskMap.entries.kerase e.1 = es
      rw [hes, List.kerase_cons_eq rfl]

/-- A call of the driver, with what the kernel answers meanwhile. -/
inductive Call
  /-- `edf_rtdm_write_nrt`. -/
  | write (registry : Registry) (w : WriteReplies) (nbyte : UInt64)
  /-- `edf_delete_hook`, which deletes the record and signals the service. -/
  | deleteHook (task : RtTask) (r : Replies)
  /-- A round of `_edf_service`. -/
  | service (currTime : UInt64)
  /-- `rt_dtask_dispose`. -/
  | dispose

namespace Call

/-- Handle a call. -/
def exec : Call → Driver → Option Driver
  | write registry w nbyte, d => (edfRtdmWriteNrt registry w nbyte d).map Prod.snd
  | deleteHook task r, d => (rtDtaskDelete r task d).map Prod.snd
  | service currTime, d => some (rtDtaskRecalculateprio currTime d)
  | dispose, d => some (rtDtaskDispose d)

/-- The operation on a task that a call comes to. -/
def request? : Call → Option Request
  | write registry w _ => (writeOp registry w).map fun op => ⟨op, w.op⟩
  | deleteHook task r => some ⟨.delete task, r⟩
  | service _ | dispose => none

/-- The task a call is about. -/
def task? (c : Call) : Option RtTask := c.request?.bind fun q => q.op.task?

end Call

/-- Handle a list of calls. -/
def handleAll : List Call → Driver → Option Driver
  | [], d => some d
  | c :: cs, d => (c.exec d).bind (handleAll cs)

theorem handleAll_cons {c : Call} {cs : List Call} {d d' : Driver} :
    handleAll (c :: cs) d = some d' ↔ ∃ d₁, c.exec d = some d₁ ∧ handleAll cs d₁ = some d' :=
  Option.bind_eq_some_iff

theorem handleAll_append {cs₁ cs₂ : List Call} {d d₁ : Driver} (h : handleAll cs₁ d = some d₁) :
    handleAll (cs₁ ++ cs₂) d = handleAll cs₂ d₁ := by
  induction cs₁ generalizing d with
  | nil => rw [List.nil_append, Option.some.inj h]
  | cons c cs₁ ih =>
      obtain ⟨d₂, hc, hrest⟩ := handleAll_cons.mp h
      rw [List.cons_append, handleAll, hc, Option.bind_some, ih hrest]

/-- **The run rule**: what every call of a run keeps, the run keeps. -/
theorem handleAll_invariant {P : Driver → Prop} {cs : List Call} {d d' : Driver}
    (hstep : ∀ c ∈ cs, ∀ d d', P d → c.exec d = some d' → P d') (hd : P d)
    (h : handleAll cs d = some d') : P d' := by
  induction cs generalizing d with
  | nil => exact Option.some.inj h ▸ hd
  | cons c cs ih =>
      obtain ⟨d₁, hc, hrest⟩ := handleAll_cons.mp h
      have hd₁ := hstep c (List.mem_cons_self ..) d d₁ hd hc
      exact ih (fun c' hc' => hstep c' (List.mem_cons_of_mem _ hc')) hd₁ hrest

/-- **What a call can do.** It runs the operation it comes to, a write between the allocation
and the release of the message, or does nothing with the table, or recalculates, or disposes
of everything. -/
theorem Call.exec_inv {c : Call} {d d' : Driver} (h : c.exec d = some d') :
    (∃ q b ret d₁, c.request? = some q ∧
        q.op.exec q.replies (d.log (.malloc (some b))) = some (ret, d₁) ∧
        d' = d₁.log (.free (some b))) ∨
      (∃ q ret, c.request? = some q ∧ q.op.exec q.replies d = some (ret, d')) ∨
      (∃ b, c.request? = none ∧ d' = (d.log (.malloc (some b))).log (.free (some b))) ∨
      (∃ t, c = .service t ∧ d' = rtDtaskRecalculateprio t d) ∨
      (c = .dispose ∧ d' = rtDtaskDispose d) := by
  cases c with
  | write registry w nbyte =>
      obtain ⟨⟨ret, d₁⟩, hwrite, rfl⟩ := Option.map_eq_some_iff.mp h
      obtain ⟨b, -, ⟨op, status, d₂, hop, -, hexec, hd⟩ | ⟨hnone, hd⟩⟩ := edfRtdmWriteNrt_inv hwrite
      · exact Or.inl ⟨⟨op, w.op⟩, b, status, d₂, by simp [request?, hop], hexec, hd⟩
      · exact Or.inr (Or.inr (Or.inl ⟨b, by simp [request?, hnone], hd⟩))
  | deleteHook task r =>
      obtain ⟨⟨ret, d₁⟩, hdelete, rfl⟩ := Option.map_eq_some_iff.mp h
      exact Or.inr (Or.inl ⟨⟨.delete task, r⟩, ret, rfl, hdelete⟩)
  | service t =>
      exact Or.inr (Or.inr (Or.inr (Or.inl ⟨t, rfl, (Option.some.inj h).symm⟩)))
  | dispose => exact Or.inr (Or.inr (Or.inr (Or.inr ⟨rfl, (Option.some.inj h).symm⟩)))

/-! ### What a record keeps

`task` and `watchd` are written when a record is made and never again. -/

namespace Driver

/-- Every record has a property of its name and of the fields it keeps. -/
def Every (P : TaskName → RtTask → Option Block → Prop) (d : Driver) : Prop :=
  ∀ k r, d.dtaskMap.lookup k = some r → P k r.task r.watchd

namespace Every

variable {P : TaskName → RtTask → Option Block → Prop} {d : Driver}

theorem log (h : d.Every P) (e : Event) : (d.log e).Every P := h

theorem adjust (h : d.Every P) (k : TaskName) {f : RtDtask → RtDtask}
    (htask : ∀ r, (f r).task = r.task) (hwatchd : ∀ r, (f r).watchd = r.watchd) :
    (d.adjust k f).Every P := by
  intro k' r' hl
  rw [adjust_dtaskMap, Table.adjust, Table.lookup_mapValues] at hl
  obtain ⟨r, hr, rfl⟩ := Option.map_eq_some_iff.mp hl
  split
  · rw [htask, hwatchd]
    exact h k' r hr
  · exact h k' r hr

theorem recalc (h : d.Every P) (t : UInt64) : (rtDtaskRecalculateprio t d).Every P := by
  intro k r' hl
  rw [recalc_lookup] at hl
  obtain ⟨r, hr, rfl⟩ := Option.map_eq_some_iff.mp hl
  simpa using h k r hr

theorem erase (h : d.Every P) (k : TaskName) :
    ({ d with dtaskMap := d.dtaskMap.erase k } : Driver).Every P :=
  fun k' r hl => h k' r (Table.lookup_erase_eq_some hl).2

theorem add (h : d.Every P) {k : TaskName} {r : RtDtask} (hl : d.dtaskMap.lookup k = none)
    (hr : P k r.task r.watchd) :
    ({ d with dtaskMap := d.dtaskMap.add k r } : Driver).Every P := by
  intro k' r' hl'
  rcases eq_or_ne k' k with rfl | hne
  · rw [Table.lookup_add_self _ hl] at hl'
    obtain rfl := Option.some.inj hl'
    exact hr
  · rw [Table.lookup_add_ne _ _ hne] at hl'
    exact h k' r' hl'

end Every

end Driver

open Driver

section Kept

variable {P : TaskName → RtTask → Option Block → Prop} {d d' : Driver} {r : Replies}
  {task : RtTask} {ret : Int32}

theorem goingwaitp_every (hd : d.Every P) (h : rtDtaskGoingwaitp r task d = some (ret, d')) :
    d'.Every P := by
  obtain ⟨b, -, ⟨rec, -, -, rfl⟩ | ⟨-, -, rfl⟩⟩ := goingwaitp_inv h
  · exact ((hd.log _).adjust _ (fun _ => by rfl) (fun _ => by rfl)).log _
  · exact (hd.log _).log _

theorem goingwaitp_name (h : rtDtaskGoingwaitp r task d = some (ret, d')) :
    d'.kernel.name = d.kernel.name := by
  obtain ⟨b, -, ⟨rec, -, -, rfl⟩ | ⟨-, -, rfl⟩⟩ := goingwaitp_inv h
  · rfl
  · rfl

/-- An operation that makes a record has to see to the property; the others keep it. -/
theorem Op.exec_every {op : Op} (hd : d.Every P)
    (hcreate : ∀ task D, op = .create task D → P (d.kernel.name task) task r.watchd)
    (h : op.exec r d = some (ret, d')) : d'.Every P := by
  cases op with
  | create task D =>
      obtain ⟨b, d₁, -, hinsert, rfl⟩ := create_inv h
      refine Every.recalc ?_ _
      rcases insertDtask_inv hinsert with ⟨hl, -, -, rfl⟩ | ⟨-, -, rfl⟩
      · exact (((hd.log _).log _).add hl (hcreate task D rfl)).log _
      · exact ((hd.log _).log _).log _
  | setdeadline task D =>
      obtain ⟨b, -, ⟨rec, -, -, rfl⟩ | ⟨-, -, rfl⟩⟩ := setdeadline_inv h
      · exact (((hd.log _).adjust _ (fun _ => by rfl) (fun _ => by rfl)).log _).recalc _
      · exact hd.log _
  | resetdeadline task =>
      obtain ⟨b, -, ⟨rec, -, -, rfl⟩ | ⟨-, -, rfl⟩⟩ := resetdeadline_inv h
      · exact ((((hd.log _).adjust _ (fun _ => by rfl) (fun _ => by rfl)).log _).recalc _).log _
      · exact (hd.log _).log _
  | goingwaitp task => exact goingwaitp_every hd h
  | stopwatchdog task =>
      obtain ⟨b, -, ⟨rec, ret₁, d₁, -, -, hnested, rfl⟩ | ⟨-, -, rfl⟩⟩ := stopwatchdog_inv h
      · exact (goingwaitp_every (hd.log _) hnested).log _
      · exact (hd.log _).log _
  | delete task =>
      obtain ⟨b, -, ⟨rec, -, -, rfl⟩ | ⟨-, -, rfl⟩⟩ := delete_inv h
      · exact ((((hd.log _).erase _).log _).log _).log _
      · exact (hd.log _).log _
  | recalculateprio =>
      obtain ⟨rfl, rfl⟩ := Prod.mk.inj (Option.some.inj h)
      exact hd.recalc _

/-- No operation renames a task. -/
theorem Op.exec_name {op : Op} (h : op.exec r d = some (ret, d')) :
    d'.kernel.name = d.kernel.name := by
  cases op with
  | create task D =>
      obtain ⟨b, d₁, -, hinsert, rfl⟩ := create_inv h
      rw [recalc_name]
      rcases insertDtask_inv hinsert with ⟨-, -, -, rfl⟩ | ⟨-, -, rfl⟩ <;> rfl
  | setdeadline task D =>
      obtain ⟨b, -, ⟨rec, -, -, rfl⟩ | ⟨-, -, rfl⟩⟩ := setdeadline_inv h
      · exact recalc_name ..
      · rfl
  | resetdeadline task =>
      obtain ⟨b, -, ⟨rec, -, -, rfl⟩ | ⟨-, -, rfl⟩⟩ := resetdeadline_inv h
      · exact recalc_name ..
      · rfl
  | goingwaitp task => exact goingwaitp_name h
  | stopwatchdog task =>
      obtain ⟨b, -, ⟨rec, ret₁, d₁, -, -, hnested, rfl⟩ | ⟨-, -, rfl⟩⟩ := stopwatchdog_inv h
      · show d₁.kernel.name = _
        rw [goingwaitp_name hnested]
        rfl
      · rfl
  | delete task =>
      obtain ⟨b, -, ⟨rec, -, -, rfl⟩ | ⟨-, -, rfl⟩⟩ := delete_inv h <;> rfl
  | recalculateprio =>
      obtain ⟨rfl, rfl⟩ := Prod.mk.inj (Option.some.inj h)
      exact recalc_name ..

theorem dispose_every (hd : d.Every P) : (rtDtaskDispose d).Every P := by
  unfold rtDtaskDispose
  generalize d.dtaskMap.entries = es
  induction es generalizing d with
  | nil => exact hd
  | cons e es ih => exact ih (hd.erase e.1)

theorem dispose_name : (rtDtaskDispose d).kernel.name = d.kernel.name := by
  unfold rtDtaskDispose
  generalize d.dtaskMap.entries = es
  induction es generalizing d with
  | nil => rfl
  | cons e es ih => exact ih

theorem Call.exec_every {c : Call} (hd : d.Every P)
    (hcreate : ∀ q task D, c.request? = some q → q.op = .create task D →
      P (d.kernel.name task) task q.replies.watchd)
    (h : c.exec d = some d') : d'.Every P := by
  rcases c.exec_inv h with ⟨q, b, ret, d₁, hq, hexec, rfl⟩ | ⟨q, ret, hq, hexec⟩ | ⟨b, -, rfl⟩ |
    ⟨t, -, rfl⟩ | ⟨-, rfl⟩
  · exact (Op.exec_every (hd.log _) (fun task D hop => hcreate q task D hq hop) hexec).log _
  · exact Op.exec_every hd (fun task D hop => hcreate q task D hq hop) hexec
  · exact (hd.log _).log _
  · exact hd.recalc t
  · exact dispose_every hd

theorem Call.exec_name {c : Call} (h : c.exec d = some d') : d'.kernel.name = d.kernel.name := by
  rcases c.exec_inv h with ⟨q, b, ret, d₁, -, hexec, rfl⟩ | ⟨q, ret, -, hexec⟩ | ⟨b, -, rfl⟩ |
    ⟨t, -, rfl⟩ | ⟨-, rfl⟩
  · show d₁.kernel.name = _
    rw [Op.exec_name hexec]
    rfl
  · exact Op.exec_name hexec
  · rfl
  · exact recalc_name ..
  · exact dispose_name

end Kept

/-! ### Names -/

/-- A driver whose tasks have the given names and whose records are kept under them. -/
structure Driver.NamedBy (name : RtTask → TaskName) (d : Driver) : Prop where
  name_eq : d.kernel.name = name
  named : d.Named

theorem Driver.NamedBy.log {name : RtTask → TaskName} {d : Driver} (h : d.NamedBy name)
    (e : Event) : (d.log e).NamedBy name := ⟨h.name_eq, h.named⟩

section Names

variable {name : RtTask → TaskName} {d d' : Driver}

theorem Call.exec_named {c : Call} (hd : d.NamedBy name) (h : c.exec d = some d') :
    d'.NamedBy name := by
  have hname := c.exec_name h
  refine ⟨hname.trans hd.name_eq, ?_⟩
  intro k r hl
  rw [hname]
  exact c.exec_every (P := fun k task _ => d.kernel.name task = k) hd.named
    (fun _ _ _ _ _ => rfl) h k r hl

theorem handleAll_named {cs : List Call} (hd : d.NamedBy name) (h : handleAll cs d = some d') :
    d'.NamedBy name :=
  handleAll_invariant (fun c _ _ _ hd hc => c.exec_named hd hc) hd h

end Names

/-- The driver after `rt_dtask_init` has no record to keep. -/
theorem rtDtaskInit_namedBy (x : Kernel) : (rtDtaskInit x).NamedBy x.name :=
  ⟨rfl, fun k r hl => by simp [rtDtaskInit] at hl⟩

/-! ### Calls at a small site -/

/-- A request about a task of `letterSite`, handled at the given clock value with blocks
from the given one on. -/
def letterWrite (command : EdfCommand) (task : RtTask) (deadline clock : UInt64) (b : Block) :
    Call :=
  .write letterRegistry
    ⟨some (b + 3), 0, letterMessage command task deadline, [], plainReplies clock b⟩ 40

/-- The driver after the given calls. -/
def letterHandled (cs : List Call) : Driver :=
  (handleAll cs letterStart.driver).getD letterStart.driver

theorem letterHandled_eq {cs : List Call} (h : (handleAll cs letterStart.driver).isSome) :
    handleAll cs letterStart.driver = some (letterHandled cs) := by
  obtain ⟨d, hd⟩ := Option.isSome_iff_exists.mp h
  rw [letterHandled, hd, Option.getD_some]

end Edfomai
