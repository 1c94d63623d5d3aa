import Edfomai.Acceptance
import Edfomai.Client
import Edfomai.Requests

/-!
# Edfomai.Period

What a task learns from `edf_task_wait_period`. The function folds three calls with
three conventions into one `int`: `rt_dev_write` returns a number of bytes or a negative
error, `rt_task_wait_period` returns `0` or a negative error, and the caller is to get `0`
or `-1`.

Two variables carry the results, and both are assigned again before they are looked at:
`edfTaskWaitPeriodFrom` keeps them, and `edfTaskWaitPeriodFrom_eq` says that the first write
and the waiting leave no trace in the result. What is left is the second write, whose
number of bytes is taken for an error.
-/

namespace Edfomai

/-- The error numbers that `_wait_period` knows. -/
def ewouldblock : Int32 := 11
def eintr : Int32 := 4
def etimedout : Int32 := 110
def eperm : Int32 := 1

/-- `_wait_period`, when `rt_task_wait_period` returns `ret`. -/
def waitPeriod (ret : Int32) : Int32 :=
  if -ret = ewouldblock then -1
  else if -ret = eintr then -1
  else if -ret = etimedout then -1
  else if -ret = eperm then ret
  else 0

/-- The result variables of `edf_task_wait_period`. -/
structure WaitLocals where
  ret : Int32
  ret1 : Int32

/-- `edf_task_wait_period`, when the first write returns `stop` and `rt_task_wait_period`
returns `wait`. The library's lock functions return what the driver's return. -/
def edfTaskWaitPeriodFrom (r : ClientReplies) (stop wait : Int32) (x : Kernel) (device : Int32) :
    Int32 × List ClientCall :=
  match r.self with
  | none => (-1, [])
  | some task =>
      if r.inquire ≠ 0 then (-1, [])
      else
        let message command := clientMessage r command (x.rtTaskInquire task) deadlineNotSet
        let calls := [.rtDevWrite device (message .stopWatchd), .rtTaskWaitPeriod]
        let v : WaitLocals := ⟨r.inquire, stop⟩
        let v : WaitLocals := { v with ret := waitPeriod wait }
        let v : WaitLocals := { v with ret := mtxAcquire }
        if v.ret ≠ 0 then (-1, calls)
        else
          let v : WaitLocals := { v with ret1 := if device = -1 then -1 else r.write }
          let calls := if device = -1 then calls
            else calls ++ [.rtDevWrite device (message .resetDeadline)]
          let v : WaitLocals := { v with ret := mtxRelease }
          (if v.ret ≠ 0 ∨ v.ret1 ≠ 0 then -1 else 0, calls)

/-- What the first write and the waiting return is lost. -/
theorem edfTaskWaitPeriodFrom_eq (r : ClientReplies) (stop wait : Int32) (x : Kernel)
    (device : Int32) :
    edfTaskWaitPeriodFrom r stop wait x device = edfTaskWaitPeriod r x device := by
  cases hself : r.self with
  | none => simp [edfTaskWaitPeriodFrom, edfTaskWaitPeriod, hself]
  | some task =>
      by_cases hinquire : r.inquire = 0
      · by_cases hdevice : device = -1 <;>
          simp [edfTaskWaitPeriodFrom, edfTaskWaitPeriod, hself, hinquire, hdevice, mtxAcquire,
            mtxRelease]
      · simp [edfTaskWaitPeriodFrom, edfTaskWaitPeriod, hself, hinquire]

/-- The function gives up before it resets the deadline. -/
def GivesUp (r : ClientReplies) (device : Int32) : Prop :=
  r.self = none ∨ r.inquire ≠ 0 ∨ device = -1

/-- The task waited for its period, successfully. -/
def PeriodWaited (wait : Int32) (out : Int32 × List ClientCall) : Prop :=
  .rtTaskWaitPeriod ∈ out.2 ∧ wait = 0

/-- The `RESET_DEADLINE` message was written, all of it. -/
def ResetAccepted (r : ClientReplies) (device : Int32) (out : Int32 × List ClientCall) : Prop :=
  (∃ m, m.command = EdfCommand.resetDeadline.code ∧ .rtDevWrite device m ∈ out.2) ∧
    r.write = Int32.ofNat sizeofEdfMessage

/-- The value returned is the outcome. -/
structure Truthful (r : ClientReplies) (wait device : Int32) (out : Int32 × List ClientCall) :
    Prop where
  success : out.1 = 0 ↔ PeriodWaited wait out ∧ ResetAccepted r device out
  failure : out.1 ≠ 0 → out.1 = -1

section Outcome

variable {r : ClientReplies} {x : Kernel} {device : Int32} {stop wait : Int32}
  {out : Int32 × List ClientCall}

/-- What the function can do: give up, or wait and send the reset. -/
theorem waitPeriod_inv (h : edfTaskWaitPeriodFrom r stop wait x device = out) :
    (GivesUp r device ∧ out.1 = -1 ∧
        ∀ m, .rtDevWrite device m ∈ out.2 → m.command = EdfCommand.stopWatchd.code) ∨
      (¬GivesUp r device ∧ out.1 = (if r.write ≠ 0 then -1 else 0) ∧
        .rtTaskWaitPeriod ∈ out.2 ∧
        ∃ m, m.command = EdfCommand.resetDeadline.code ∧ .rtDevWrite device m ∈ out.2) := by
  rw [edfTaskWaitPeriodFrom_eq] at h
  subst h
  cases hself : r.self with
  | none => simp [edfTaskWaitPeriod, GivesUp, hself]
  | some task =>
      by_cases hinquire : r.inquire = 0
      · by_cases hdevice : device = -1
        · left
          simp [edfTaskWaitPeriod, GivesUp, hself, hinquire, hdevice, clientMessage]
        · right
          refine ⟨by simp [GivesUp, hself, hinquire, hdevice], ?_, ?_,
            clientMessage r .resetDeadline (x.rtTaskInquire task) deadlineNotSet, rfl, ?_⟩ <;>
            simp [edfTaskWaitPeriod, hself, hinquire, hdevice]
      · simp [edfTaskWaitPeriod, GivesUp, hself, hinquire]

/-- **When the outcome of a period is reported**: when it is a failure. -/
theorem wait_period_truthful_iff :
    Truthful r wait device (edfTaskWaitPeriodFrom r stop wait x device) ↔
      GivesUp r device ∨
        (r.write ≠ 0 ∧ (wait ≠ 0 ∨ r.write ≠ Int32.ofNat sizeofEdfMessage)) := by
  generalize hout : edfTaskWaitPeriodFrom r stop wait x device = out
  rcases waitPeriod_inv hout with ⟨hup, hret, hstop⟩ | ⟨hdown, hret, hwait, hreset⟩
  · refine iff_of_true ⟨iff_of_false (by rw [hret]; decide) ?_, fun _ => hret⟩ (Or.inl hup)
    rintro ⟨-, ⟨m, hm, hmem⟩, -⟩
    rw [hstop m hmem] at hm
    exact absurd hm (by decide)
  · rw [or_iff_right hdown]
    have hsuccess : PeriodWaited wait out ∧ ResetAccepted r device out ↔
        wait = 0 ∧ r.write = Int32.ofNat sizeofEdfMessage := by
      simp only [PeriodWaited, ResetAccepted, hwait, hreset, true_and]
    by_cases hwrite : r.write = 0
    · -- an empty write counts as a success
      have hshort : r.write ≠ Int32.ofNat sizeofEdfMessage := by rw [hwrite]; decide
      refine iff_of_false (fun h => ?_) (fun h => h.1 hwrite)
      exact hshort (hsuccess.mp (h.success.mp (by rw [hret, if_neg (by simpa using hwrite)]))).2
    · rw [if_pos hwrite] at hret
      have hne : out.1 ≠ 0 := by rw [hret]; decide
      constructor
      · intro h
        refine ⟨hwrite, not_and_or.mp fun hboth => hne (h.success.mpr (hsuccess.mpr hboth))⟩
      · rintro ⟨-, hfail⟩
        refine ⟨iff_of_false hne fun hboth => ?_, fun _ => hret⟩
        exact not_and_or.mpr hfail (hsuccess.mp hboth)

/-- The driver's handler returns the size of the message or an error, so with the driver at
the other end the function always fails. -/
theorem waitPeriod_handled {registry : Registry} {w : WriteReplies} {d d' : Driver} {ret : Int64}
    (h : edfRtdmWriteNrt registry w (UInt64.ofNat sizeofEdfMessage) d = some (ret, d')) :
    (edfTaskWaitPeriodFrom { r with write := ret.toInt32 } stop wait x device).1 = -1 := by
  have hret : ret.toInt32 ≠ 0 := by
    obtain ⟨b, hb, ⟨op, status, d₁, -, rfl, -⟩ | ⟨hnone, -⟩⟩ := edfRtdmWriteNrt_inv h
    · decide
    · rw [edfRtdmWriteNrt_of_no_op _ d hb hnone] at h
      obtain ⟨rfl, -⟩ := Prod.mk.inj (Option.some.inj h)
      split_ifs <;> decide
  rcases waitPeriod_inv rfl with ⟨-, hup, -⟩ | ⟨-, hdown, -⟩
  · exact hup
  · rw [hdown]
    exact if_pos hret

end Outcome

/-- What a task is answered whose period goes well: the driver takes both messages. -/
def goodPeriod : ClientReplies := ⟨some 0, 0, 40, 0, [1, 1, 1], rfl⟩

/-- The `RESET_DEADLINE` of that task, at the driver. -/
def resetWrite : WriteReplies :=
  ⟨some 9, 0, letterMessage .resetDeadline 0 deadlineNotSet, [], plainReplies 5 10⟩

/-- It returns `-1`, although the wait and the reset both succeed. -/
theorem good_period_not_reported :
    (∃ d', edfRtdmWriteNrt letterRegistry resetWrite 40
        (letterHandled [letterWrite .createTask 0 10 0 10]) = some (40, d')) ∧
      goodPeriod.write = 40 ∧
      ¬Truthful goodPeriod 0 3
        (edfTaskWaitPeriodFrom goodPeriod 40 0 letterStart.driver.kernel 3) := by
  refine ⟨⟨_, rfl⟩, rfl, fun h => ?_⟩
  have hzero := h.success.mpr ⟨⟨by decide +kernel, rfl⟩,
    ⟨clientMessage goodPeriod .resetDeadline ⟨letterName 0, 0⟩ deadlineNotSet, rfl,
      by decide +kernel⟩, rfl⟩
  exact absurd hzero (by decide +kernel)

end Edfomai
