import Edfomai.Data

/-!
# Edfomai.Kernel

What the driver sees of Xenomai: the names and current priorities that
`rt_task_inquire` reports, the effect of `rt_task_set_priority`, and a **history**
of the calls the driver makes, newest first. The history is what temporal
properties are read off, so a few *marks* are interleaved with the calls: one
where a record is armed (created, or given a new absolute deadline) and one where
`rt_dtask_recalculateprio` reads the clock.

The second half of the module defines the questions asked of a history: how often
a record has been armed, how often `deadline_missed` was called for it during one
arming, which clock values the recalculations of that arming read.
-/

namespace Edfomai

/-- The driver's calls, and two marks. -/
inductive Event
  /-- `rtdm_malloc`, with what it returned (`none` is `NULL`). -/
  | malloc (p : Option Block)
  /-- `rtdm_free`. -/
  | free (p : Option Block)
  /-- Mark: the record is armed at the given clock value with the given relative
  deadline. -/
  | armed (record : TaskName) (clock relative : UInt64)
  /-- Mark: `rt_dtask_recalculateprio` has read the clock. -/
  | recalculated (clock : UInt64)
  /-- `rt_task_set_priority`. -/
  | setPriority (task : RtTask) (prio : Int32)
  /-- `deadline_missed` for a record, called by the recalculation that read the
  given clock value. -/
  | deadlineMissed (record : TaskName) (cookie : RtTask) (clock : UInt64)
  deriving DecidableEq

/-- Xenomai as the driver sees it, and the driver's history. -/
structure Kernel where
  name : RtTask → TaskName
  cprio : RtTask → Int32
  history : List Event

namespace Kernel

/-- Append an event to the history. -/
def log (e : Event) (x : Kernel) : Kernel := { x with history := e :: x.history }

@[simp] theorem log_name (e : Event) (x : Kernel) : (x.log e).name = x.name := rfl
@[simp] theorem log_cprio (e : Event) (x : Kernel) : (x.log e).cprio = x.cprio := rfl
@[simp] theorem log_history (e : Event) (x : Kernel) :
    (x.log e).history = e :: x.history := rfl

/-- `rt_task_inquire`: what it stores through its second argument. -/
def rtTaskInquire (x : Kernel) (task : RtTask) : RtTaskInfo := ⟨x.name task, x.cprio task⟩

@[simp] theorem rtTaskInquire_log (e : Event) (x : Kernel) (task : RtTask) :
    (x.log e).rtTaskInquire task = x.rtTaskInquire task := rfl

/-- `rt_task_set_priority`. -/
def rtTaskSetPriority (x : Kernel) (task : RtTask) (prio : Int32) : Kernel :=
  { x with cprio := Function.update x.cprio task prio }.log (.setPriority task prio)

@[simp] theorem rtTaskSetPriority_name (x : Kernel) (task : RtTask) (prio : Int32) :
    (x.rtTaskSetPriority task prio).name = x.name := rfl
@[simp] theorem rtTaskSetPriority_history (x : Kernel) (task : RtTask) (prio : Int32) :
    (x.rtTaskSetPriority task prio).history = .setPriority task prio :: x.history := rfl
@[simp] theorem rtTaskSetPriority_cprio (x : Kernel) (task : RtTask) (prio : Int32) :
    (x.rtTaskSetPriority task prio).cprio = Function.update x.cprio task prio := rfl

end Kernel

/-! ### Questions asked of a history -/

namespace History

/-- How often the record has been armed. -/
def armings (k : TaskName) : List Event → Nat
  | [] => 0
  | .armed k' _ _ :: h => armings k h + if k' = k then 1 else 0
  | _ :: h => armings k h

/-- The clock value and the relative deadline of the record's last arming. -/
def lastArming (k : TaskName) : List Event → Option (UInt64 × UInt64)
  | [] => none
  | .armed k' t D :: h => if k' = k then some (t, D) else lastArming k h
  | _ :: h => lastArming k h

/-- How often `deadline_missed` was called for the record during its `n`-th
arming. -/
def missesOf (k : TaskName) (n : Nat) : List Event → Nat
  | [] => 0
  | .deadlineMissed k' _ _ :: h =>
      missesOf k n h + if k' = k ∧ armings k h = n then 1 else 0
  | _ :: h => missesOf k n h

/-- The clock values read by recalculations during the record's `n`-th arming. -/
def readingsOf (k : TaskName) (n : Nat) : List Event → List UInt64
  | [] => []
  | .recalculated t :: h => if armings k h = n then t :: readingsOf k n h else readingsOf k n h
  | _ :: h => readingsOf k n h

/-- How often `deadline_missed` has been called for the record since its last
arming. -/
def missesSince (k : TaskName) (h : List Event) : Nat := missesOf k (armings k h) h

/-- The clock value read by the recalculation the driver has just completed:
everything newer in the history is what that recalculation did, or the release of
its caller's buffer. -/
def lastRecalc : List Event → Option UInt64
  | .free _ :: h => lastRecalc h
  | .setPriority _ _ :: h => lastRecalc h
  | .deadlineMissed _ _ _ :: h => lastRecalc h
  | .recalculated t :: _ => some t
  | _ => none

/-! One simp lemma per question and event; the questions are not unfolded below. -/

section Simp

variable (k k' : TaskName) (n : Nat) (h : List Event) (t D : UInt64) (p : Option Block)
  (T : RtTask) (q : Int32)

@[simp] theorem armings_malloc : armings k (.malloc p :: h) = armings k h := rfl
@[simp] theorem armings_free : armings k (.free p :: h) = armings k h := rfl
@[simp] theorem armings_armed :
    armings k (.armed k' t D :: h) = armings k h + if k' = k then 1 else 0 := rfl
@[simp] theorem armings_recalculated : armings k (.recalculated t :: h) = armings k h := rfl
@[simp] theorem armings_setPriority : armings k (.setPriority T q :: h) = armings k h := rfl
@[simp] theorem armings_deadlineMissed :
    armings k (.deadlineMissed k' T t :: h) = armings k h := rfl

@[simp] theorem lastArming_malloc : lastArming k (.malloc p :: h) = lastArming k h := rfl
@[simp] theorem lastArming_free : lastArming k (.free p :: h) = lastArming k h := rfl
@[simp] theorem lastArming_armed : lastArming k (.armed k' t D :: h) =
    if k' = k then some (t, D) else lastArming k h := rfl
@[simp] theorem lastArming_recalculated :
    lastArming k (.recalculated t :: h) = lastArming k h := rfl
@[simp] theorem lastArming_setPriority :
    lastArming k (.setPriority T q :: h) = lastArming k h := rfl
@[simp] theorem lastArming_deadlineMissed :
    lastArming k (.deadlineMissed k' T t :: h) = lastArming k h := rfl

@[simp] theorem missesOf_malloc : missesOf k n (.malloc p :: h) = missesOf k n h := rfl
@[simp] theorem missesOf_free : missesOf k n (.free p :: h) = missesOf k n h := rfl
@[simp] theorem missesOf_armed : missesOf k n (.armed k' t D :: h) = missesOf k n h := rfl
@[simp] theorem missesOf_recalculated :
    missesOf k n (.recalculated t :: h) = missesOf k n h := rfl
@[simp] theorem missesOf_setPriority :
    missesOf k n (.setPriority T q :: h) = missesOf k n h := rfl
@[simp] theorem missesOf_deadlineMissed : missesOf k n (.deadlineMissed k' T t :: h) =
    missesOf k n h + if k' = k ∧ armings k h = n then 1 else 0 := rfl

@[simp] theorem readingsOf_malloc : readingsOf k n (.malloc p :: h) = readingsOf k n h := rfl
@[simp] theorem readingsOf_free : readingsOf k n (.free p :: h) = readingsOf k n h := rfl
@[simp] theorem readingsOf_armed :
    readingsOf k n (.armed k' t D :: h) = readingsOf k n h := rfl
@[simp] theorem readingsOf_recalculated : readingsOf k n (.recalculated t :: h) =
    if armings k h = n then t :: readingsOf k n h else readingsOf k n h := rfl
@[simp] theorem readingsOf_setPriority :
    readingsOf k n (.setPriority T q :: h) = readingsOf k n h := rfl
@[simp] theorem readingsOf_deadlineMissed :
    readingsOf k n (.deadlineMissed k' T t :: h) = readingsOf k n h := rfl

end Simp

/-- Nothing has happened yet during an arming that is still to come. -/
theorem missesOf_of_lt {k : TaskName} {n : Nat} :
    ∀ {h : List Event}, armings k h < n → missesOf k n h = 0 := by
  intro h
  induction h with
  | nil => intro _; rfl
  | cons e h ih =>
      intro hlt
      cases e with
      | armed k' t D => exact ih (by simp only [armings_armed] at hlt; omega)
      | deadlineMissed k' T t =>
          rw [armings_deadlineMissed] at hlt
          simp [ih hlt, Nat.ne_of_lt hlt]
      | _ => exact ih hlt

theorem readingsOf_of_lt {k : TaskName} {n : Nat} :
    ∀ {h : List Event}, armings k h < n → readingsOf k n h = [] := by
  intro h
  induction h with
  | nil => intro _; rfl
  | cons e h ih =>
      intro hlt
      cases e with
      | armed k' t D => exact ih (by simp only [armings_armed] at hlt; omega)
      | recalculated t =>
          rw [armings_recalculated] at hlt
          simp [ih hlt, Nat.ne_of_lt hlt]
      | _ => exact ih hlt

end History

end Edfomai
