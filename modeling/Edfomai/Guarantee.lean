import Edfomai.EdfOrder
import Edfomai.Sessions

/-!
# Edfomai.Guarantee

What the tasks get from the library and the driver together, in terms of what the tasks have done.

A task is under EDF (`UnderEdf`) while it has been started with a deadline and does not wait. Its
deadline counts from the moment at which it was last let go. `sessions_served` says that right
after every recalculation the priorities of these tasks follow their deadlines, and that a task
has been notified, once, if its deadline has passed.

The argument: the driver is in step with the tasks (`Inv`), and what it does is a sequence of
`Update`s, so the invariant of `serial` holds as well (`Both`). The records that the driver
considers are then those of the tasks under EDF (`mem_activeRecords_iff`).
-/

namespace Edfomai

/-- A call is a sequence of updates, the last of which leaves the clock at `t'`. -/
theorem Call.exec_updates {site : Site} {c : Call} {t t' : UInt64} {d d' : Driver} (hle : t ≤ t')
    (hrequest : ∀ q, c.request? = some q → q.Ok site t ∧ q.replies.recalcClock = t')
    (hservice : ∀ clock, c = .service clock → clock = t') (hc : c ≠ .dispose)
    (h : c.exec d = some d') : Updates site ⟨t, d⟩ ⟨t', d'⟩ := by
  rcases c.exec_inv h with ⟨q, b, ret, d₁, hq, hexec, rfl⟩ | ⟨q, ret, hq, hexec⟩ |
    ⟨b, -, rfl⟩ | ⟨clock, hclock, rfl⟩ | ⟨rfl, -⟩
  · obtain ⟨hok, rfl⟩ := hrequest q hq
    exact ((Relation.ReflTransGen.single (.malloc _)).trans (Op.exec_updates hok hexec)).tail
      (.free _)
  · obtain ⟨hok, rfl⟩ := hrequest q hq
    exact Op.exec_updates hok hexec
  · exact ((Relation.ReflTransGen.single (.malloc _)).tail (.free _)).tail (.tick hle)
  · obtain rfl := hservice clock hclock
    exact .single (.recalc hle)
  · exact absurd rfl hc

/-- The clock values that a step gives the driver, in order. -/
def SessionStep.clocks : SessionStep → List UInt64
  | write _ w => [w.op.armClock, w.op.recalcClock]
  | delete _ r => [r.armClock, r.recalcClock]
  | service currTime => [currTime]
  | taskStart .. | waitPeriod .. | returns _ | spawn _ => []

namespace Sessions

/-- The condition: the clock does not run backwards. -/
def Timely (s : Sessions) (l : SessionStep) : Prop := (s.clock :: l.clocks).Pairwise (· ≤ ·)

instance (s : Sessions) (l : SessionStep) : Decidable (s.Timely l) := by
  unfold Timely; infer_instance

/-- The task has been started with a deadline, and does not wait. -/
structure UnderEdf (s : Sessions) (task : RtTask) (deadline : UInt64) : Prop where
  started : s.started task = some deadline
  set : deadline ≠ deadlineNotSet
  running : (s.activity task).stopped = false

/-- The remaining times of the tasks under EDF at clock value `t` are close enough together for
the 64-bit product in `_calculate_prio`. -/
def SpreadFits (site : Site) (t : UInt64) (s : Sessions) : Prop :=
  ∀ a ∈ site.tasks, ∀ b ∈ site.tasks, ∀ D E, s.UnderEdf a D → s.UnderEdf b E →
    NoWrap ((remainAt (s.released b + E) t).toNat - (remainAt (s.released a + D) t).toNat)

/-- What the tasks get, right after a recalculation that read `t`. -/
structure Served (site : Site) (s : Sessions) : Prop where
  /-- Of two tasks under EDF, one whose deadline is not later does not have a lower priority. -/
  ordered : ∀ t, History.lastRecalc s.driver.kernel.history = some t → s.SpreadFits site t →
    ∀ a ∈ site.tasks, ∀ b ∈ site.tasks, ∀ D E, s.UnderEdf a D → s.UnderEdf b E →
      s.released a + D ≤ s.released b + E →
        s.driver.kernel.cprio b ≤ s.driver.kernel.cprio a
  /-- Since a task was last let go its miss has been notified once if its deadline has passed, and
  not at all if it has not. -/
  notified : ∀ t, History.lastRecalc s.driver.kernel.history = some t →
    ∀ a ∈ site.tasks, ∀ D, s.UnderEdf a D →
      History.missesSince (site.name a) s.driver.kernel.history =
        if s.released a + D ≤ t then 1 else 0

variable {site : Site} {s s' : Sessions} {device : Int32} {l : SessionStep} {a : RtTask}
  {D : UInt64} {r : RtDtask}

/-! ### Both invariants -/

/-- The driver is in step with the tasks, and in a state as after serialised operations. -/
structure Both (site : Site) (s : Sessions) : Prop where
  inv : Sessions.Inv site s
  serial : Edfomai.Inv site ⟨s.clock, s.driver⟩

/-- An operation that a message comes to is about a task that is registered. -/
theorem Named.writeOp_task (h : s.Named site) {w : WriteReplies} {op : Op}
    (hop : Edfomai.writeOp s.registry w = some op) : ∀ task ∈ op.task?, task ∈ site.tasks := by
  unfold Edfomai.writeOp at hop
  split at hop
  · cases hop
  · obtain ⟨task, hget, hmap⟩ := Option.bind_eq_some_iff.mp hop
    obtain ⟨command, -, rfl⟩ := Option.map_eq_some_iff.mp hmap
    obtain ⟨o, ho, -, rfl⟩ := getHandle_eq_some hget
    intro task htask
    obtain rfl : o.desc = task := by simpa using htask
    exact h.tasks _ ⟨o, ho, rfl⟩

/-- The two clock values that an operation is given are in order. -/
theorem Timely.of_clocks {t t' : UInt64} (h : s.Timely l) (hl : l.clocks = [t, t']) :
    s.clock ≤ t ∧ s.clock ≤ t' ∧ t ≤ t' := by
  rw [Timely, hl] at h
  simpa [and_assoc] using h

/-- **What a step does to the driver** is a sequence of updates. -/
theorem exec_updates (h : s.Named site) (htimely : s.Timely l)
    (hexec : s.exec device l = some s') :
    Updates site ⟨s.clock, s.driver⟩ ⟨s'.clock, s'.driver⟩ := by
  cases l with
  | taskStart self r task D =>
      obtain ⟨-, heq⟩ := Option.ite_none_right_eq_some.mp hexec
      obtain rfl := Option.some.inj heq
      exact .refl
  | waitPeriod self r =>
      obtain ⟨-, heq⟩ := Option.ite_none_right_eq_some.mp hexec
      obtain rfl := Option.some.inj heq
      exact .refl
  | returns self =>
      simp only [exec] at hexec
      split at hexec
      · obtain rfl := Option.some.inj hexec
        exact .refl
      · obtain rfl := Option.some.inj hexec
        exact .refl
      · cases hexec
  | spawn task =>
      obtain ⟨-, heq⟩ := Option.ite_none_left_eq_some.mp hexec
      obtain rfl := Option.some.inj heq
      exact .refl
  | write self w =>
      obtain ⟨-, heq⟩ := Option.ite_none_right_eq_some.mp hexec
      obtain ⟨⟨ret, d'⟩, hwrite, rfl⟩ := Option.map_eq_some_iff.mp heq
      have hcall : (Call.write s.registry w (UInt64.ofNat sizeofEdfMessage)).exec s.driver =
          some d' := by
        rw [Call.exec, hwrite]
        rfl
      obtain ⟨harm, hle, hrecalc⟩ := htimely.of_clocks rfl
      refine Call.exec_updates hle (fun q hq => ?_) (by simp) (by simp) hcall
      obtain ⟨op, hop, rfl⟩ := Option.map_eq_some_iff.mp hq
      exact ⟨⟨h.writeOp_task hop, harm, hrecalc⟩, rfl⟩
  | delete task r =>
      obtain ⟨hlive, heq⟩ := Option.ite_none_right_eq_some.mp hexec
      obtain ⟨⟨status, d'⟩, hdelete, rfl⟩ := Option.map_eq_some_iff.mp heq
      have hcall : (Call.deleteHook task r).exec s.driver = some d' := by
        rw [Call.exec, hdelete]
        rfl
      obtain ⟨harm, hle, hrecalc⟩ := htimely.of_clocks rfl
      refine Call.exec_updates hle (fun q hq => ?_) (by simp) (by simp) hcall
      obtain rfl := Option.some.inj hq
      refine ⟨⟨fun task' htask' => ?_, harm, hrecalc⟩, rfl⟩
      obtain rfl := Option.some.inj htask'
      exact h.tasks _ hlive
  | service currTime =>
      obtain rfl := Option.some.inj hexec
      have hle : s.clock ≤ currTime := by simpa [Timely, SessionStep.clocks] using htimely
      exact .single (.recalc hle)

theorem Both.step (h : Both site s)
    (hshort : ∀ task ∈ site.tasks, (site.name task).chars.length ≤ tnameLen)
    (hdevice : device ≠ -1) (hstep : (sessions site device).step s l s') (hheard : s.Heard l)
    (htimely : s.Timely l) : Both site s' :=
  ⟨h.inv.step hshort hdevice hstep hheard,
    (exec_updates h.inv.named htimely hstep.2).invariant (fun _ _ hs hu => hs.update hu) h.serial⟩

theorem Init.both (h : s.Init site) : Both site s := by
  refine ⟨h.inv, ?_⟩
  obtain ⟨x, hname, hhistory, hdriver⟩ := h.driver
  exact reachable_inv (.init ⟨x, hname, hhistory, hdriver⟩)

/-! ### Tasks and records -/

/-- A record is kept under the name of its task, which is a task of the site. -/
theorem Both.named (h : Both site s) {k : TaskName} (hl : s.driver.dtaskMap.lookup k = some r) :
    r.task ∈ site.tasks ∧ site.name r.task = k := by
  have hrecord := h.serial.records.2 k r hl
  rw [← h.serial.records.1]
  exact ⟨hrecord.registered, hrecord.named⟩

/-- A task under EDF has an active record, with its deadline. -/
theorem Both.record (h : Both site s) (ha : a ∈ site.tasks) (hedf : s.UnderEdf a D) :
    ∃ r, s.driver.dtaskMap.lookup (site.name a) = some r ∧ r.Active ∧ r.task = a ∧
      r.deadline = s.released a + D := by
  have harming := h.inv.inStep a ha
  rw [hedf.started, Option.map_some, hedf.running] at harming
  obtain ⟨r, hl, hr⟩ := Option.map_eq_some_iff.mp harming
  obtain ⟨htask, hname⟩ := h.named hl
  simp only [RtDtask.arming, Arming.mk.injEq] at hr
  exact ⟨r, hl, ⟨by rw [hr.1]; exact hedf.set, hr.2.2⟩, site.distinct htask ha hname, hr.2.1⟩

/-- **The records that a recalculation considers** are those of the tasks under EDF. -/
theorem Both.mem_activeRecords_iff (h : Both site s) :
    r ∈ activeRecords s.driver ↔ ∃ a ∈ site.tasks, ∃ D, s.UnderEdf a D ∧
      s.driver.dtaskMap.lookup (site.name a) = some r ∧ r.deadline = s.released a + D := by
  constructor
  · rintro ⟨k, hl, hset, hstate⟩
    obtain ⟨htask, hname⟩ := h.named hl
    have harming := h.inv.inStep r.task htask
    rw [hname, armingAt_of_lookup hl] at harming
    obtain ⟨D, hstarted, hr⟩ := Option.map_eq_some_iff.mp harming.symm
    simp only [RtDtask.arming, Arming.mk.injEq] at hr
    obtain ⟨rfl, hdeadline, hcode⟩ := hr
    refine ⟨r.task, htask, _, ⟨hstarted, hset, ?_⟩, by rwa [hname], hdeadline.symm⟩
    -- a record that waits has the code of `GOING_WAITP`
    cases hstopped : (s.activity r.task).stopped with
    | false => rfl
    | true =>
        rw [hstopped, hstate] at hcode
        exact absurd hcode (by decide)
  · rintro ⟨a, ha, D, hedf, hl, -⟩
    obtain ⟨r', hl', hactive, -⟩ := h.record ha hedf
    obtain rfl := Option.some.inj (hl.symm.trans hl')
    exact ⟨_, hl, hactive⟩

/-- The driver's products do not wrap if those of the tasks do not. -/
theorem Both.spreadFits {t : UInt64} (h : Both site s) (hfit : s.SpreadFits site t) :
    Edfomai.SpreadFits t s.driver := by
  intro r hr r' hr'
  obtain ⟨a, ha, D, hedf, -, hdeadline⟩ := h.mem_activeRecords_iff.mp hr
  obtain ⟨b, hb, E, hedf', -, hdeadline'⟩ := h.mem_activeRecords_iff.mp hr'
  rw [remaining, remaining, hdeadline, hdeadline']
  exact hfit a ha b hb D E hedf hedf'

theorem Both.served (h : Both site s) : s.Served site where
  ordered t ht hfit a ha b hb D E hedf hedf' hle := by
    obtain ⟨r, hl, hactive, rfl, hdeadline⟩ := h.record ha hedf
    obtain ⟨r', hl', hactive', rfl, hdeadline'⟩ := h.record hb hedf'
    rw [← hdeadline, ← hdeadline'] at hle
    have hfollows := follows_of_postRecalc (h.serial.settled t ht) (h.spreadFits hfit)
    exact Int32.le_iff_toInt_le.mpr (hfollows r ⟨_, hl, hactive⟩ r' ⟨_, hl', hactive'⟩
      (UInt64.le_iff_toNat_le.mp hle))
  notified t ht a ha D hedf := by
    obtain ⟨r, hl, hactive, -, hdeadline⟩ := h.record ha hedf
    have hmissed := (h.serial.settled t ht _ r hl hactive).2.1
    rw [(h.serial.records.2 _ r hl).misses, ← hdeadline]
    simp only [hmissed]

end Sessions

/-- **What the tasks get.** In every order in which the messages, deletions and rounds of the
service arrive, the tasks that have been started and do not wait are scheduled by the deadlines
that they were started with, counted modulo `2 ^ 64` from when they were last let go. -/
theorem sessions_served {site : Site} {device : Int32} {s : Sessions}
    (hshort : ∀ task ∈ site.tasks, (site.name task).chars.length ≤ tnameLen)
    (hdevice : device ≠ -1)
    (hs : ((sessions site device).restrict fun s l => s.Heard l ∧ s.Timely l).Reachable s) :
    s.Served site := by
  have hboth : Sessions.Both site s := by
    refine hs.invariant ?_ ?_
    · exact fun _ hinit => Sessions.Init.both hinit
    · exact fun _ _ _ h hstep => h.step hshort hdevice hstep.1 hstep.2.1 hstep.2.2
  exact hboth.served

/-- Both tasks are under EDF when the service recalculates. -/
def servedTurns : List SessionStep := letterTurns.take 10 ++ [.service 13]

theorem sessions_served_letter : ∃ s,
    letterSessions (fun s l => s.Heard l ∧ s.Timely l) servedTurns letterIdle = some s ∧
      s.driver.kernel.cprio 1 ≤ s.driver.kernel.cprio 0 := by
  have hend : ((letterSessions (fun s l => s.Heard l ∧ s.Timely l) servedTurns letterIdle).map
      fun s => (History.lastRecalc s.driver.kernel.history,
        (s.started 0, s.released 0, (s.activity 0).stopped),
        (s.started 1, s.released 1, (s.activity 1).stopped), s.started 2)) =
      some (some 13, (some 10, 11, false), (some 20, 9, false), none) := by decide +kernel
  obtain ⟨s, hs, hfields⟩ := Option.map_eq_some_iff.mp hend
  simp only [Prod.mk.injEq] at hfields
  obtain ⟨hlast, ⟨hstarted, hreleased, hruns⟩, ⟨hstarted', hreleased', hruns'⟩, hidle⟩ := hfields
  have hserved := sessions_served letterSite_short (by decide)
    (letterSessions_reachable (.init letterIdle_init) hs)
  have hdue : ∀ a ∈ letterSite.tasks, ∀ D, s.UnderEdf a D → (s.released a + D).toNat ≤ 29 := by
    intro a ha D hedf
    have hD := hedf.started
    have hall : ∀ i : Fin 3, i.val = 0 ∨ i.val = 1 ∨ i.val = 2 := by decide
    obtain rfl | rfl | rfl : a = 0 ∨ a = 1 ∨ a = 2 := hall ⟨a, ha⟩
    · obtain rfl := Option.some.inj (hstarted.symm.trans hD)
      rw [hreleased]
      decide
    · obtain rfl := Option.some.inj (hstarted'.symm.trans hD)
      rw [hreleased']
      decide
    · rw [hidle] at hD
      cases hD
  have hfit : s.SpreadFits letterSite 13 := by
    intro a ha b hb D E hD hE
    have hle := hdue b hb E hE
    unfold NoWrap
    rw [remainAt_toNat]
    omega
  refine ⟨s, hs, hserved.ordered 13 hlast hfit 0 (by decide) 1 (by decide) 10 20
    ⟨hstarted, by decide, hruns⟩ ⟨hstarted', by decide, hruns'⟩ ?_⟩
  rw [hreleased, hreleased']
  decide

end Edfomai
