import Edfomai.Acceptance
import Edfomai.Arming
import Edfomai.Client

/-!
# Edfomai.Start

`edf_task_start` and the driver together: what the client does depending on what
became of its `CREATE_TASK` message.

A refusal would have to come back through two layers, and is lost in both: the handler
overwrites what `rt_dtask_create` returned with what releasing the lock returned, and
the client overwrites what `rt_dev_write` returned with `0`. So the task is started
whatever the driver did, and `start_sound_iff` says when that is right.
-/

namespace Edfomai

/-- What becomes of the message that `edf_task_start` writes. -/
inductive DevWrite
  /-- `rt_dev_write` fails without reaching the driver. -/
  | failed (code : Int64)
  /-- The driver handles the message. -/
  | handled (w : WriteReplies)

namespace DevWrite

/-- What `rt_dev_write` returns, and the driver after it. -/
def run (registry : Registry) (d : Driver) : DevWrite → Option (Int64 × Driver)
  | failed code => some (code, d)
  | handled w => edfRtdmWriteNrt registry w (UInt64.ofNat sizeofEdfMessage) d

/-- A failure is negative, and what is copied from user space is the message. -/
def Carries (m : EdfMessage) : DevWrite → Prop
  | failed code => code < 0
  | handled w => w.copy = 0 → w.buffer = m

/-- The request was refused: the message got lost, its name is unknown, or
`rt_dtask_create` did not accept the task. -/
def Refused (registry : Registry) (d : Driver) : DevWrite → Prop
  | failed _ => True
  | handled w =>
      w.copy ≠ 0 ∨ getHandle registry (w.buffer.taskMemory w.beyond) = none ∨
        ∃ task ret d₁, getHandle registry (w.buffer.taskMemory w.beyond) = some task ∧
          rtDtaskCreate w.op task w.buffer.deadline (d.log (.malloc w.message)) =
            some (ret, d₁) ∧ ret ≠ 0

end DevWrite

/-- `edf_task_start` with the driver at the other end of `rt_dev_write`: what it returns, the
calls it makes, and the driver after the write. -/
def startTask (registry : Registry) (r : ClientReplies) (u : DevWrite) (device : Int32)
    (task : RtTask) (deadline : UInt64) (d : Driver) :
    Option ((Int32 × List ClientCall) × Driver) :=
  if r.inquire ≠ 0 ∨ device = -1 then
    some (edfTaskStart r d.kernel device task deadline, d)
  else
    (u.run registry d).map fun res =>
      (edfTaskStart { r with write := res.1.toInt32 } d.kernel device task deadline, res.2)

/-- The relative deadline of the record under a name. -/
def Driver.relativeAt (k : TaskName) (d : Driver) : Option UInt64 :=
  (d.armingAt k).map Arming.relativeDeadline

/-- The task is started only if the driver has accepted it. -/
structure StartSound (registry : Registry) (u : DevWrite) (task : RtTask) (deadline : UInt64)
    (d : Driver) (out : Int32 × List ClientCall) (d' : Driver) : Prop where
  /-- After a successful start the task has a record with the deadline that was passed. -/
  started : .rtTaskStart task ∈ out.2 → out.1 = 0 →
    d'.relativeAt (d.kernel.name task) = some deadline
  /-- A refusal is reported, and then the task is not started. -/
  refused : u.Refused registry d → out.1 ≠ 0 ∧ .rtTaskStart task ∉ out.2

/-- The request comes out as it should: it creates the record of a task without one, and,
unless `rt_task_start` fails anyway, this is the record of the task that is started, or that
task already had one with the same deadline. -/
def Accepted (registry : Registry) (r : ClientReplies) (task : RtTask) (deadline : UInt64)
    (d : Driver) : DevWrite → Prop
  | .failed _ => False
  | .handled w => w.copy = 0 ∧ ∃ task',
      getHandle registry (w.buffer.taskMemory w.beyond) = some task' ∧
        d.dtaskMap.lookup (d.kernel.name task') = none ∧
          (r.start = 0 → d.kernel.name task' = d.kernel.name task ∨
            d.relativeAt (d.kernel.name task) = some deadline)

section Create

variable {r : Replies} {task : RtTask} {D : UInt64} {d d' : Driver} {ret : Int32}

/-- What `rt_dtask_create` returns, and whose relative deadline it sets. -/
theorem create_relativeAt (h : rtDtaskCreate r task D d = some (ret, d')) :
    (ret = 0 ↔ d.dtaskMap.lookup (d.kernel.name task) = none) ∧
      ∀ k, d'.relativeAt k = if ret = 0 ∧ k = d.kernel.name task then some D
        else d.relativeAt k := by
  obtain ⟨b, d₁, -, hinsert, rfl⟩ := create_inv h
  simp only [Driver.relativeAt, recalc_armingAt]
  rcases insertDtask_inv hinsert with ⟨hnone, -, rfl, rfl⟩ | ⟨⟨rec, hrec⟩, rfl, rfl⟩
  · refine ⟨by simp [hnone], fun k => ?_⟩
    show (((d.dtaskMap.add _ _).lookup k).map RtDtask.arming).map _ = _
    by_cases hk : k = d.kernel.name task
    · rw [hk, Table.lookup_add_self _ hnone, if_pos ⟨rfl, rfl⟩]
      rfl
    · rw [Table.lookup_add_ne _ _ hk, if_neg (by simp [hk])]
      rfl
  · exact ⟨by simp [hrec], fun k => by simp⟩

end Create

section Client

variable {registry : Registry} {r : ClientReplies} {u : DevWrite} {device : Int32}
  {task : RtTask} {deadline : UInt64} {d d' : Driver} {out : Int32 × List ClientCall}

/-- Unless it stops before the write, the client goes on to start the task, whatever the
write returned. -/
theorem startTask_inv (h : startTask registry r u device task deadline d = some (out, d')) :
    ((r.inquire ≠ 0 ∨ device = -1) ∧ out = (-1, [])) ∨
      (¬(r.inquire ≠ 0 ∨ device = -1) ∧ out.1 = r.start ∧ .rtTaskStart task ∈ out.2 ∧
        ∃ res, u.run registry d = some (res, d')) := by
  unfold startTask at h
  by_cases hstop : r.inquire ≠ 0 ∨ device = -1
  · rw [if_pos hstop] at h
    obtain ⟨rfl, -⟩ := Prod.mk.inj (Option.some.inj h)
    refine Or.inl ⟨hstop, ?_⟩
    rcases hstop with hinquire | hdevice
    · simp [edfTaskStart, hinquire]
    · simp [edfTaskStart, hdevice]
  · rw [if_neg hstop] at h
    obtain ⟨⟨res, d₁⟩, hrun, heq⟩ := Option.map_eq_some_iff.mp h
    obtain ⟨rfl, rfl⟩ := Prod.mk.inj heq
    obtain ⟨hinquire, hdevice⟩ := not_or.mp hstop
    rw [not_not] at hinquire
    refine Or.inr ⟨hstop, ?_, ?_, res, hrun⟩ <;> simp [edfTaskStart, hinquire, hdevice]

/-- Once the message has reached a task, the request was refused exactly when that task has
a record already, and otherwise it has set the relative deadline of that task alone. -/
theorem handled_create {w : WriteReplies} {task' : RtTask} {res : Int64}
    (hbuffer : w.buffer = clientMessage r .createTask (d.kernel.rtTaskInquire task) deadline)
    (hcopy : w.copy = 0)
    (htask : getHandle registry (w.buffer.taskMemory w.beyond) = some task')
    (hrun : (DevWrite.handled w).run registry d = some (res, d')) :
    ((DevWrite.handled w).Refused registry d ↔
        d.dtaskMap.lookup (d.kernel.name task') ≠ none) ∧
      (d.dtaskMap.lookup (d.kernel.name task') = none → ∀ k,
        d'.relativeAt k = if k = d.kernel.name task' then some deadline else d.relativeAt k) := by
  have hcommand : w.buffer.command = EdfCommand.createTask.code := by rw [hbuffer]; rfl
  obtain ⟨ret, d₁, hexec, rfl⟩ := edfRtdmWriteNrt_eq_some hcopy htask hcommand hrun
  have hdeadline : w.buffer.deadline = deadline := by rw [hbuffer]; rfl
  obtain ⟨hret, hrel⟩ := create_relativeAt hexec
  change ret = 0 ↔ d.dtaskMap.lookup (d.kernel.name task') = none at hret
  constructor
  · rw [← not_iff_not, not_not, ← hret]
    constructor
    · intro hok
      by_contra hne
      exact hok (Or.inr (Or.inr ⟨task', ret, d₁, htask, hexec, hne⟩))
    · rintro rfl (hc | hnone | ⟨task₁, ret₁, d₂, htask₁, hexec₁, hne⟩)
      · exact hc hcopy
      · simp [htask] at hnone
      · obtain rfl : task' = task₁ := Option.some.inj (htask.symm.trans htask₁)
        obtain ⟨rfl, -⟩ := Prod.mk.inj (Option.some.inj (hexec.symm.trans hexec₁))
        exact hne rfl
  · intro hnone k
    show d₁.relativeAt k = _
    rw [hrel, hdeadline]
    simp only [hret.mpr hnone, true_and]
    rfl

/-- Acceptance, once the message has reached a task. -/
theorem accepted_handled_iff {w : WriteReplies} {task' : RtTask} (hcopy : w.copy = 0)
    (htask : getHandle registry (w.buffer.taskMemory w.beyond) = some task') :
    Accepted registry r task deadline d (.handled w) ↔
      d.dtaskMap.lookup (d.kernel.name task') = none ∧
        (r.start = 0 → d.kernel.name task' = d.kernel.name task ∨
          d.relativeAt (d.kernel.name task) = some deadline) := by
  constructor
  · rintro ⟨-, task₁, htask₁, hacc⟩
    obtain rfl : task' = task₁ := Option.some.inj (htask.symm.trans htask₁)
    exact hacc
  · exact fun hacc => ⟨hcopy, task', htask, hacc⟩

/-- **When `edf_task_start` is right**: when it stops before the write, or the driver accepts
the request for the task that is started. -/
theorem start_sound_iff
    (hu : u.Carries (clientMessage r .createTask (d.kernel.rtTaskInquire task) deadline))
    (h : startTask registry r u device task deadline d = some (out, d')) :
    StartSound registry u task deadline d out d' ↔
      r.inquire ≠ 0 ∨ device = -1 ∨ Accepted registry r task deadline d u := by
  rw [← or_assoc]
  rcases startTask_inv h with ⟨hstop, rfl⟩ | ⟨hgo, hret, hstart, res, hrun⟩
  · exact ⟨fun _ => Or.inl hstop, fun _ => ⟨by simp, fun _ => by simp⟩⟩
  rw [or_iff_right hgo]
  -- the task is started, so a request that was refused is not reported
  have hnot : u.Refused registry d → ¬StartSound registry u task deadline d out d' :=
    fun hrefused hsound => (hsound.refused hrefused).2 hstart
  cases u with
  | failed code => exact iff_of_false (hnot trivial) id
  | handled w =>
      by_cases hcopy : w.copy = 0
      case neg => exact iff_of_false (hnot (Or.inl hcopy)) fun hacc => hcopy hacc.1
      cases htask : getHandle registry (w.buffer.taskMemory w.beyond) with
      | none =>
          refine iff_of_false (hnot (Or.inr (Or.inl htask))) fun hacc => ?_
          obtain ⟨-, task', htask', -⟩ := hacc
          simp [htask] at htask'
      | some task' =>
          obtain ⟨hrefused, hrel⟩ := handled_create (hu hcopy) hcopy htask hrun
          rw [accepted_handled_iff hcopy htask]
          by_cases hnone : d.dtaskMap.lookup (d.kernel.name task') = none
          case neg => exact iff_of_false (hnot (hrefused.mpr hnone)) fun hacc => hnone hacc.1
          have hafter : d'.relativeAt (d.kernel.name task) = some deadline ↔
              d.kernel.name task' = d.kernel.name task ∨
                d.relativeAt (d.kernel.name task) = some deadline := by
            rw [hrel hnone]
            by_cases hname : d.kernel.name task = d.kernel.name task'
            · simp [hname]
            · simp [hname, Ne.symm hname]
          constructor
          · intro hsound
            exact ⟨hnone, fun hzero => hafter.mp (hsound.started hstart (hret.trans hzero))⟩
          · rintro ⟨-, hacc⟩
            refine ⟨fun _ hzero => hafter.mpr (hacc (hret.symm.trans hzero)), fun href => ?_⟩
            exact absurd hnone (hrefused.mp href)

end Client

/-- A client for which everything goes well. -/
def plainClient : ClientReplies := ⟨some 0, 0, 0, 0, [1, 2, 3], rfl⟩

/-- What it writes to start task 0 of `letterSite`, handled without a hitch. -/
def startWrite (deadline : UInt64) : DevWrite :=
  .handled ⟨some 9, 0, clientMessage plainClient .createTask
    (letterStart.driver.kernel.rtTaskInquire 0) deadline, [], plainReplies 0 10⟩

/-- The state after `startTask`. -/
def letterStarted (u : DevWrite) (deadline : UInt64) (d : Driver) :
    (Int32 × List ClientCall) × Driver :=
  (startTask letterRegistry plainClient u 3 0 deadline d).getD ((0, []), d)

theorem letterStarted_eq {u : DevWrite} {deadline : UInt64} {d : Driver}
    (h : (startTask letterRegistry plainClient u 3 0 deadline d).isSome) :
    startTask letterRegistry plainClient u 3 0 deadline d =
      some ((letterStarted u deadline d).1, (letterStarted u deadline d).2) := by
  obtain ⟨res, hres⟩ := Option.isSome_iff_exists.mp h
  rw [letterStarted, hres, Option.getD_some]

/-- A task without a record is accepted and started. -/
theorem start_sound_iff_new :
    StartSound letterRegistry (startWrite 10) 0 10 letterStart.driver
      (letterStarted (startWrite 10) 10 letterStart.driver).1
      (letterStarted (startWrite 10) 10 letterStart.driver).2 := by
  have hcarries : (startWrite 10).Carries (clientMessage plainClient .createTask
      (letterStart.driver.kernel.rtTaskInquire 0) 10) := fun _ => rfl
  exact (start_sound_iff hcarries (letterStarted_eq (by decide +kernel))).mpr
    (Or.inr (Or.inr ⟨rfl, 0, by decide +kernel, by decide +kernel, fun _ => Or.inl rfl⟩))

/-- The task already has a record, with deadline 10. -/
def onceStarted : Driver := (letterStarted (startWrite 10) 10 letterStart.driver).2

/-- Starting it again with deadline 20 is refused by `rt_dtask_create`, and yet the task is
started and `0` is returned. -/
theorem start_unsound :
    (startWrite 20).Carries (clientMessage plainClient .createTask
        (onceStarted.kernel.rtTaskInquire 0) 20) ∧
      startTask letterRegistry plainClient (startWrite 20) 3 0 20 onceStarted =
        some ((letterStarted (startWrite 20) 20 onceStarted).1,
          (letterStarted (startWrite 20) 20 onceStarted).2) ∧
      ¬StartSound letterRegistry (startWrite 20) 0 20 onceStarted
        (letterStarted (startWrite 20) 20 onceStarted).1
        (letterStarted (startWrite 20) 20 onceStarted).2 := by
  refine ⟨fun _ => ?_, letterStarted_eq (by decide +kernel), fun h => ?_⟩
  · decide +kernel
  · have hrel := h.started (by decide +kernel) (by decide +kernel)
    exact absurd hrel (by decide +kernel)

end Edfomai
