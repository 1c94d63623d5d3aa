import Edfomai.Isolation

/-!
# Edfomai.LifeCycle

The `state` field of a record, over the whole history of its task's requests.

The field is a `TaskState`, but `rt_dtask_goingwaitp` stores a value of `EDFCommand` in it,
which C lets pass. `waiting` follows the requests of a run, and the shape of the argument is:

* `Op.arm_state` says what one operation stores, and `handleAll_tracks` what a run leaves:
  the code of `GOING_WAITP` where the life cycle has `WAITING_PERIOD`;
* so the life cycle is kept as long as no task waits (`life_cycle_iff`).
-/

namespace Edfomai

/-! ### Who waits -/

/-- What an operation that is carried out makes of its task: `true` if it is to wait for its
period, `false` if it is armed. -/
def Op.waits? : Op → Option Bool
  | goingwaitp _ | stopwatchdog _ => some true
  | create _ _ | setdeadline _ _ | resetdeadline _ => some false
  | delete _ | recalculateprio => none

namespace Call

/-- Whether the task of the given name waits after a call, given whether it waited before. An
operation that returns `0` has been carried out. -/
def waits (k : TaskName) (w : Bool) (c : Call) (d : Driver) : Bool :=
  match c.request? with
  | some q =>
      if q.op.task?.map d.kernel.name = some k ∧ c.status d = some 0 then q.op.waits?.getD w
      else w
  | none => w

end Call

/-- Whether a `STOP_WATCHD` or `GOING_WAITP` has been carried out for the task of the given name
since its last arming, at the end of a run. -/
def waiting (k : TaskName) : Bool → List Call → Driver → Bool
  | w, [], _ => w
  | w, c :: cs, d => ((c.exec d).map (waiting k (c.waits k w d) cs)).getD w

/-- The `state` of a record: the life cycle's, … -/
def stateOf (w : Bool) : TaskState := if w then .waitingPeriod else .running

/-- … and the value that is stored. -/
def codeOf (w : Bool) : UInt32 :=
  if w then EdfCommand.goingWaitp.code else TaskState.running.code

/-- The records' states follow who waits. -/
def Tracks (w : TaskName → Bool) (d : Driver) : Prop :=
  ∀ k a, d.armingAt k = some a → a.state = codeOf (w k)

section Step

variable {w : Bool} {d d' : Driver} {c : Call} {op : Op}

/-- The private machine stores the code of what the operation makes of the task. -/
theorem Op.arm_state {clock : UInt64} {a₀ : Option Arming} {a : Arming}
    (hw : ∀ a, a₀ = some a → a.state = codeOf w) (h : op.arm clock a₀ = some a) :
    a.state = codeOf (if op.status a₀.isSome = 0 then op.waits?.getD w else w) := by
  cases a₀ with
  | none =>
      cases op with
      | create task D =>
          obtain rfl := Option.some.inj h
          simp [status, waits?, codeOf]
      | _ => simp [arm] at h
  | some a₁ =>
      have hstate := hw a₁ rfl
      cases op with
      | create task D =>
          obtain rfl := Option.some.inj h
          simpa [status] using hstate
      | delete task => simp [arm] at h
      | recalculateprio =>
          obtain rfl := Option.some.inj h
          simpa [waits?] using hstate
      | _ =>
          obtain rfl := Option.some.inj h
          simp [status, waits?, codeOf]

/-- An operation that makes its task wait is carried out if the task has a record. -/
theorem Op.waits_inv (h : op.waits? = some true) :
    ∃ task, op.task? = some task ∧ op.status false = -1 ∧
      ∀ clock a, op.arm clock (some a) = some { a with state := EdfCommand.goingWaitp.code } := by
  cases op with
  | goingwaitp task | stopwatchdog task => exact ⟨task, rfl, rfl, fun _ _ => rfl⟩
  | _ => simp [waits?] at h

/-- A call keeps what is tracked up to date. -/
theorem Call.exec_tracks {w : TaskName → Bool} (hd : d.Named) (htracks : Tracks w d)
    (h : c.exec d = some d') : Tracks (fun k => c.waits k (w k) d) d' := by
  intro k a ha
  show a.state = codeOf (c.waits k (w k) d)
  by_cases hdispose : c = .dispose
  · -- no record is left
    subst hdispose
    rw [← Option.some.inj h, Driver.armingAt, lookup_of_keys_nil (dispose_keys d)] at ha
    simp at ha
  rw [c.exec_armUnder hd hdispose h, Call.armUnder] at ha
  rw [Call.waits]
  cases hq : c.request? with
  | none =>
      rw [hq] at ha
      exact htracks k a ha
  | some q =>
      simp only [hq] at ha
      by_cases hk : q.op.task?.map d.kernel.name = some k
      · obtain ⟨task, htask, rfl⟩ := Option.map_eq_some_iff.mp hk
        rw [if_pos hk] at ha
        have hstate := Op.arm_state (htracks (d.kernel.name task)) ha
        simpa [c.status_of_request hq htask h, htask] using hstate
      · rw [if_neg hk] at ha
        simpa [hk] using htracks k a ha

/-- A call about a task with a record that is to wait leaves the code of `GOING_WAITP`. -/
theorem Call.exec_waits {q : Request} {task : RtTask} {rec : RtDtask} (hd : d.Named)
    (hq : c.request? = some q) (hwaits : q.op.waits? = some true) (htask : q.op.task? = some task)
    (hrec : d.dtaskMap.lookup (d.kernel.name task) = some rec) (h : c.exec d = some d') :
    ∃ r, d'.dtaskMap.lookup (d.kernel.name task) = some r ∧
      r.state = EdfCommand.goingWaitp.code := by
  obtain ⟨-, -, -, harm⟩ := Op.waits_inv hwaits
  have hdispose : c ≠ .dispose := by
    rintro rfl
    simp [Call.request?] at hq
  have hself := c.exec_armUnder hd hdispose h (d.kernel.name task)
  simp only [Call.armUnder, hq, htask, Option.map_some, if_true, armingAt_of_lookup hrec,
    harm] at hself
  obtain ⟨r, hr, harming⟩ := Option.map_eq_some_iff.mp hself
  exact ⟨r, hr, congrArg Arming.state harming⟩

end Step

section Run

variable {x : Kernel} {d d' : Driver} {cs : List Call} {w : TaskName → Bool}

/-- **What the records' states are after a run.** -/
theorem handleAll_tracks {name : RtTask → TaskName} (hd : d.NamedBy name) (htracks : Tracks w d)
    (h : handleAll cs d = some d') : Tracks (fun k => waiting k (w k) cs d) d' := by
  induction cs generalizing d w with
  | nil =>
      obtain rfl := Option.some.inj h
      exact htracks
  | cons c cs ih =>
      obtain ⟨d₁, hc, hrest⟩ := handleAll_cons.mp h
      simp only [waiting, hc, Option.map_some, Option.getD_some]
      exact ih (c.exec_named hd hc) (c.exec_tracks hd.named htracks hc) hrest

/-- Every record of every state of a run from the initial state is where its task is in its
life cycle: waiting for its period if a `STOP_WATCHD` or `GOING_WAITP` has been carried out
since its last arming, running otherwise. -/
def LifeCycle (x : Kernel) (cs : List Call) : Prop :=
  ∀ cs₁ cs₂ d, cs = cs₁ ++ cs₂ → handleAll cs₁ (rtDtaskInit x) = some d →
    ∀ k r, d.dtaskMap.lookup k = some r →
      r.state = (stateOf (waiting k false cs₁ (rtDtaskInit x))).code

/-- No `STOP_WATCHD` or `GOING_WAITP` that is handled in a run finds a record for its task. -/
def NoWait : List Call → Driver → Prop
  | [], _ => True
  | c :: cs, d => ∀ d₁, c.exec d = some d₁ →
      (∀ q task, c.request? = some q → q.op.waits? = some true → q.op.task? = some task →
        d.dtaskMap.lookup (d.kernel.name task) = none) ∧ NoWait cs d₁

/-- Then no task waits. -/
theorem NoWait.waiting_eq {k : TaskName} {cs₂ : List Call} (h : NoWait (cs ++ cs₂) d) :
    waiting k false cs d = false := by
  induction cs generalizing d with
  | nil => rfl
  | cons c cs ih =>
      cases hexec : c.exec d with
      | none => simp [waiting, hexec]
      | some d₁ =>
          obtain ⟨hnone, hrest⟩ := h d₁ hexec
          have hc : c.waits k false d = false := by
            unfold Call.waits
            cases hq : c.request? with
            | none => rfl
            | some q =>
                show (if _ then q.op.waits?.getD false else false) = false
                cases hw : q.op.waits? with
                | none => exact ite_self _
                | some b =>
                    cases b with
                    | false => exact ite_self _
                    | true =>
                        obtain ⟨task, htask, hvain, -⟩ := Op.waits_inv hw
                        refine if_neg fun hcond => ?_
                        have hstatus := c.status_of_request hq htask hexec
                        rw [armingAt_isSome, hnone q task hq hw htask, Option.isSome_none, hvain,
                          hcond.2] at hstatus
                        exact absurd hstatus (by decide)
          rw [waiting, hexec, Option.map_some, Option.getD_some, hc]
          exact ih hrest

/-- **When records keep to the life cycle**: as long as no task waits. -/
theorem life_cycle_iff : LifeCycle x cs ↔ NoWait cs (rtDtaskInit x) := by
  have hinit := rtDtaskInit_namedBy x
  constructor
  · intro hlife
    suffices h : ∀ cs₂ cs₁ d, cs = cs₁ ++ cs₂ → handleAll cs₁ (rtDtaskInit x) = some d →
        NoWait cs₂ d from h cs [] _ rfl rfl
    intro cs₂
    induction cs₂ with
    | nil => exact fun _ _ _ _ => trivial
    | cons c cs₂ ih =>
        intro cs₁ d hsplit hrun
        have hnext : ∀ d₁, c.exec d = some d₁ →
            handleAll (cs₁ ++ [c]) (rtDtaskInit x) = some d₁ := by
          intro d₁ hc
          rw [handleAll_append hrun]
          exact handleAll_cons.mpr ⟨d₁, hc, rfl⟩
        have hsplit' : cs = (cs₁ ++ [c]) ++ cs₂ := by simp [hsplit]
        refine fun d₁ hc => ⟨fun q task hq hwaits htask => ?_, ih _ d₁ hsplit' (hnext d₁ hc)⟩
        by_contra hne
        obtain ⟨rec, hrec⟩ := Option.ne_none_iff_exists'.mp hne
        obtain ⟨r, hr, hstate⟩ :=
          c.exec_waits (handleAll_named hinit hrun).named hq hwaits htask hrec hc
        have hcode := hlife _ cs₂ d₁ hsplit' (hnext d₁ hc) _ r hr
        rw [hstate] at hcode
        generalize waiting _ false (cs₁ ++ [c]) (rtDtaskInit x) = w at hcode
        cases w <;> exact absurd hcode (by decide)
  · rintro hnone cs₁ cs₂ d rfl hrun k r hr
    have htracks := handleAll_tracks (w := fun _ => false) hinit
      (fun k a ha => by simp [Driver.armingAt, rtDtaskInit] at ha) hrun
    have hstate : r.state = codeOf (waiting k false cs₁ (rtDtaskInit x)) :=
      htracks k r.arming (armingAt_of_lookup hr)
    rw [hnone.waiting_eq] at hstate ⊢
    exact hstate

end Run

/-- A task is created, and goes to wait for its period. -/
def goingCalls : List Call :=
  [letterWrite .createTask 0 10 0 10, letterWrite .goingWaitp 0 0 1 20]

/-- Its state is then 5, which is no `TaskState`. -/
theorem life_cycle_left :
    (∃ r, (letterHandled goingCalls).dtaskMap.lookup (letterName 0) = some r ∧
        ∀ s : TaskState, r.state ≠ s.code) ∧
      ¬LifeCycle letterStart.driver.kernel goingCalls := by
  have hstate : ∃ r, (letterHandled goingCalls).dtaskMap.lookup (letterName 0) = some r ∧
      r.state = 5 := by decide +kernel
  obtain ⟨r, hr, hfive⟩ := hstate
  have hnone : ∀ s : TaskState, r.state ≠ s.code := by
    intro s
    rw [hfive]
    cases s <;> decide
  refine ⟨⟨r, hr, hnone⟩, fun h => ?_⟩
  have hrun : handleAll goingCalls (rtDtaskInit letterStart.driver.kernel) =
      some (letterHandled goingCalls) := letterHandled_eq (by decide +kernel)
  exact hnone _ (h goingCalls [] _ (List.append_nil _).symm hrun _ r hr)

end Edfomai
