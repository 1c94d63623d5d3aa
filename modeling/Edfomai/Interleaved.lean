import Edfomai.Linear
import Edfomai.EdfOrder
import Edfomai.MissLatch

/-!
# Edfomai.Interleaved

What the serialised operations guarantee, the interleaved threads guarantee too.

In a run that is not disturbed, in which clocks do not run backwards and the tasks stay the same,
the events of `linearise` are requests of `serial` on the tasks that are registered at the start
(`linearise_requests`). So whenever nobody is inside a pass the driver is in a state that `serial`
reaches (`reachable_serial`). The priorities then follow the deadlines, and misses are caught and
latched, whichever threads have done the work (`kept_of_interleaved`).
-/

namespace Edfomai

/-- The clock value a step is given. -/
def Label.clock : Label → Option UInt64
  | run _ r | hookDelete _ r => some r.armClock
  | recalc _ clock => some clock
  | _ => none

/-- No task is created, and no descriptor used for something else. -/
def Label.Stays : Label → Prop
  | spawn _ _ _ | forget _ _ => False
  | _ => True

instance : DecidablePred Label.Stays
  | .spawn .. | .forget .. => isFalse id
  | .write .. | .wake | .lockGet _ | .run .. | .recalc .. | .lockPut _ | .clear | .start | .kill _
  | .hookDelete .. | .hookSignal _ => isTrue trivial

/-- The clock values of the steps, from `t` on, do not run backwards. -/
def Forward (t : UInt64) (ls : List Label) : Prop :=
  (t :: ls.filterMap Label.clock).Pairwise (· ≤ ·)

instance (t : UInt64) (ls : List Label) : Decidable (Forward t ls) := by
  unfold Forward; infer_instance

/-- The operation that a thread is about to carry out. -/
def Pc.op : Pc → Option Op
  | acquire op | spin op | critical op => some op
  | _ => none

namespace Forward

variable {t c : UInt64} {l : Label} {ls : List Label}

theorem tail (h : Forward t (l :: ls)) (hl : l.clock = none) : Forward t ls := by
  rw [Forward, List.filterMap_cons_none hl] at h
  exact h

theorem next (h : Forward t (l :: ls)) (hl : l.clock = some c) : t ≤ c ∧ Forward c ls := by
  rw [Forward, List.filterMap_cons_some hl] at h
  obtain ⟨hle, htail⟩ := List.pairwise_cons.mp h
  exact ⟨hle c (List.mem_cons_self ..), htail⟩

/-- The clock value of a pass is a later one. -/
theorem le_nextClock (h : Forward t ls) : t ≤ nextClock t ls := by
  rw [nextClock]
  cases hfind : ls.findSome? Label.passClock with
  | none => exact UInt64.le_refl t
  | some c =>
      obtain ⟨l, hl, hclock⟩ := List.exists_of_findSome?_eq_some hfind
      have hc : l.clock = some c := by
        cases l <;> first | exact hclock | cases hclock
      exact (List.pairwise_cons.mp h).1 c (List.mem_filterMap.mpr ⟨l, hl, hc⟩)

theorem le_reading (h : Forward t ls) (s : System) : t ≤ s.reading t ls := by
  rw [System.reading]
  split
  · exact UInt64.le_refl t
  · exact h.le_nextClock

end Forward

namespace System

variable {s s' : System} {l : Label} {ls : List Label} {t : UInt64} {site : Site}

/-! ### Requests are about the tasks of the site -/

/-- Threads and hooks are about tasks of the site. -/
structure OnSite (site : Site) (s : System) : Prop where
  live : ∀ task, s.Live task → task ∈ site.tasks
  pc : ∀ i, ∀ op ∈ (s.pc i).op, ∀ task ∈ op.task?, task ∈ site.tasks
  hook : ∀ task, s.hook task ≠ .idle → task ∈ site.tasks

theorem OnSite.move {i : Thread} {p : Pc} (h : OnSite site s) (hreg : s'.registry = s.registry)
    (hpc : s'.pc = Function.update s.pc i p) (hhook : s'.hook = s.hook)
    (hp : ∀ op ∈ p.op, ∀ task ∈ op.task?, task ∈ site.tasks) : OnSite site s' where
  live task hlive := h.live task (by rwa [Live, hreg] at hlive)
  pc j := by
    rw [hpc]
    rcases eq_or_ne j i with rfl | hne
    · rw [Function.update_self]
      exact hp
    · rw [Function.update_of_ne hne]
      exact h.pc j
  hook task hidle := h.hook task (by rwa [hhook] at hidle)

theorem OnSite.moveHook {task : RtTask} {p : HookPc} (h : OnSite site s)
    (hreg : ∀ o ∈ s'.registry, o ∈ s.registry) (hpc : s'.pc = s.pc)
    (hhook : s'.hook = Function.update s.hook task p) (htask : task ∈ site.tasks) :
    OnSite site s' where
  live task' hlive := by
    obtain ⟨o, ho, heq⟩ := hlive
    exact h.live task' ⟨o, hreg o ho, heq⟩
  pc i := by
    rw [hpc]
    exact h.pc i
  hook task' hidle := by
    rcases eq_or_ne task' task with rfl | hne
    · exact htask
    · rw [hhook, Function.update_of_ne hne] at hidle
      exact h.hook task' hidle

/-- The task of a request is one that its handler has found. -/
theorem command_task {command : EdfCommand} {task task' : RtTask} {deadline : UInt64}
    (h : task' ∈ (command.op task deadline).task?) : task' = task := by
  cases command <;> simp_all [EdfCommand.op, Op.task?]

theorem Step.onSite (h : OnSite site s) (hstays : l.Stays) (hstep : Step s l s') :
    OnSite site s' := by
  cases hstep with
  | refused => exact h
  | resolved command hpc hget =>
      refine h.move rfl rfl rfl fun op hop task htask => ?_
      obtain rfl := Option.some.inj hop
      obtain ⟨o, ho, -, rfl⟩ := getHandle_eq_some hget
      obtain rfl := command_task htask
      exact h.live o.desc ⟨o, ho, rfl⟩
  | wake hpc =>
      refine h.move rfl rfl rfl fun op hop task htask => ?_
      obtain rfl := Option.some.inj hop
      cases htask
  | @taken i op hpc hfree =>
      refine h.move rfl rfl rfl ?_
      rcases hpc with hpc | hpc <;> simpa [hpc, Pc.op] using h.pc i
  | @spins i j op hpc =>
      refine h.move rfl rfl rfl ?_
      rcases hpc with hpc | hpc <;> simpa [hpc, Pc.op] using h.pc i
  | returned | begun | recalc | recalculated | clear => exact h.move rfl rfl rfl (by simp [Pc.op])
  | @put i hpc => exact h.move rfl rfl rfl (by cases i <;> simp [afterPut, Pc.op])
  | start => exact ⟨h.live, h.pc, h.hook⟩
  | spawn => exact hstays.elim
  | @kill task hlive =>
      exact h.moveHook (fun o ho => List.mem_of_mem_filter ho) rfl rfl (h.live task hlive)
  | @hookDelete task r ret d hhook =>
      exact h.moveHook (fun o ho => ho) rfl rfl (h.hook task (by simp [hhook]))
  | @hookSignal task hhook =>
      exact h.moveHook (fun o ho => ho) rfl rfl (h.hook task (by simp [hhook]))
  | forget => exact hstays.elim

/-! ### The events are requests -/

/-- **What a step comes to**, where tasks stay the same: nothing, a reading of the clock in a pass,
or a request. -/
theorem Step.effect_cases (ls : List Label) (h : HeldBy s.pc s.lock) (hsite : OnSite site s)
    (hok : Undisturbed s l) (hstays : l.Stays) (hstep : Step s l s') :
    (s.effect l s' ls = none ∧ l.clock = none ∧ l.passClock = none ∧ (s'.Settled ↔ s.Settled)) ∨
      (∃ i c, l = .recalc i c ∧ ¬s.Settled) ∨
      ∃ (op : Op) (r : Replies), s.effect l s' ls =
          some (.request ⟨op, { r with recalcClock := s'.reading r.armClock ls }⟩) ∧
        l.clock = some r.armClock ∧ s.Settled ∧ ∀ task ∈ op.task?, task ∈ site.tasks := by
  cases hstep with
  | refused => exact Or.inl ⟨rfl, rfl, rfl, Iff.rfl⟩
  | resolved command hpc =>
      exact Or.inl ⟨rfl, rfl, rfl, settled_congr rfl (h.pc_update (by simp [hpc]))⟩
  | wake hpc => exact Or.inl ⟨rfl, rfl, rfl, settled_congr rfl (h.pc_update (by simp [hpc]))⟩
  | taken hpc hfree =>
      have hs := settled_of_free hfree
      exact Or.inl ⟨rfl, rfl, rfl,
        iff_of_true (settled_at rfl (Function.update_self ..) rfl) hs⟩
  | spins hpc =>
      refine Or.inl ⟨rfl, rfl, rfl, settled_congr rfl (h.pc_update ?_)⟩
      rcases hpc with hpc | hpc <;> simp [hpc]
  | @returned i op r ret d hpc =>
      have hheld : s.lock = some i := (h i).mp (by rw [hpc]; trivial)
      refine Or.inr (Or.inr ⟨op, r, ?_, rfl, settled_at hheld hpc rfl, hsite.pc i op ?_⟩)
      · simp only [effect, hpc]
      · rw [hpc]
        rfl
  | @begun i op r ret d buffer hpc =>
      have hheld : s.lock = some i := (h i).mp (by rw [hpc]; trivial)
      refine Or.inr (Or.inr ⟨op, r, ?_, rfl, settled_at hheld hpc rfl, hsite.pc i op ?_⟩)
      · simp only [effect, hpc]
      · rw [hpc]
        rfl
  | @recalc i buffer rpc rpc' d clock hpc =>
      have hheld : s.lock = some i := (h i).mp (by rw [hpc]; trivial)
      exact Or.inr (Or.inl ⟨i, clock, rfl, not_settled_at hheld hpc⟩)
  | @recalculated i buffer rpc d clock hpc =>
      have hheld : s.lock = some i := (h i).mp (by rw [hpc]; trivial)
      exact Or.inr (Or.inl ⟨i, clock, rfl, not_settled_at hheld hpc⟩)
  | @put i hpc =>
      have hheld : s.lock = some i := (h i).mp (by rw [hpc]; trivial)
      exact Or.inl ⟨rfl, rfl, rfl,
        iff_of_true (settled_of_free rfl) (settled_at hheld hpc rfl)⟩
  | clear hpc => exact Or.inl ⟨rfl, rfl, rfl, settled_congr rfl (h.pc_update (by simp [hpc]))⟩
  | start => exact Or.inl ⟨rfl, rfl, rfl, settled_congr rfl fun _ _ => rfl⟩
  | spawn => exact hstays.elim
  | kill => exact Or.inl ⟨rfl, rfl, rfl, settled_congr rfl fun _ _ => rfl⟩
  | @hookDelete task r ret d hhook hdel =>
      have hreading : ({ s with driver := d, hook := Function.update s.hook task .signal } :
          System).reading r.armClock ls = r.armClock := if_pos hok
      refine Or.inr (Or.inr ⟨.delete task, r, ?_, rfl, hok, fun task' htask => ?_⟩)
      · rw [hreading]
        rfl
      · obtain rfl := Option.some.inj htask
        exact hsite.hook task (by simp [hhook])
  | hookSignal => exact Or.inl ⟨rfl, rfl, rfl, settled_congr rfl fun _ _ => rfl⟩
  | forget => exact hstays.elim

/-- Requests that are in order are in order from an earlier time on. -/
theorem allOk_of_le {t' : UInt64} {qs : List Request} (hle : t ≤ t')
    (h : Request.AllOk site t' qs) : Request.AllOk site t qs := by
  cases qs with
  | nil => trivial
  | cons q qs => exact ⟨⟨h.1.1, UInt64.le_trans hle h.1.2.1, h.1.2.2⟩, h.2⟩

/-- **The events of a run are requests of `serial`**, in order from the clock value on that the pass
in progress will read. -/
theorem linearise_requests (hrun : s.execAll ls = some s') (h : HeldBy s.pc s.lock)
    (hsite : OnSite site s) (hok : Allowed Undisturbed ls s) (hstays : ∀ l ∈ ls, l.Stays)
    (hfwd : Forward t ls) :
    ∃ qs : List Request, s.linearise ls = qs.map .request ∧
      Request.AllOk site (s.reading t ls) qs := by
  induction ls generalizing s t with
  | nil => exact ⟨[], rfl, trivial⟩
  | cons l ls ih =>
      obtain ⟨s₁, hs₁, hrun⟩ := Option.bind_eq_some_iff.mp hrun
      have hstep := Step.of_step hs₁
      obtain ⟨hl, hls⟩ := List.forall_mem_cons.mp hstays
      have hrest : ∀ {t : UInt64}, Forward t ls → ∃ qs : List Request,
          s₁.linearise ls = qs.map .request ∧ Request.AllOk site (s₁.reading t ls) qs :=
        fun hfwd => ih hrun (hstep.heldBy h) (hstep.onSite hsite hl) (hok.2 s₁ hs₁) hls hfwd
      rw [linearise_cons hs₁]
      rcases hstep.effect_cases ls h hsite hok.1 hl with
        ⟨hnone, hclock, hpass, hsettled⟩ | ⟨i, c, rfl, hnot⟩ |
        ⟨op, r, heffect, hclock, hsettled, htask⟩
      · obtain ⟨qs, hqs, hall⟩ := hrest (hfwd.tail hclock)
        have hreading : s.reading t (l :: ls) = s₁.reading t ls := by
          simp only [reading, hsettled, nextClock_cons, hpass, Option.getD_none]
        rw [hnone, hreading]
        exact ⟨qs, hqs, hall⟩
      · obtain ⟨-, hfwd₁⟩ := hfwd.next rfl
        obtain ⟨qs, hqs, hall⟩ := hrest hfwd₁
        have hreading : s.reading t (.recalc i c :: ls) = c := by
          rw [reading, if_neg hnot, nextClock_cons]
          rfl
        rw [hreading]
        exact ⟨qs, hqs, allOk_of_le (hfwd₁.le_reading s₁) hall⟩
      · obtain ⟨hle, hfwd₁⟩ := hfwd.next hclock
        obtain ⟨qs, hqs, hall⟩ := hrest hfwd₁
        have hreading : s.reading t (l :: ls) = t := if_pos hsettled
        rw [hreading, heffect]
        refine ⟨⟨op, { r with recalcClock := s₁.reading r.armClock ls }⟩ :: qs, ?_,
          ⟨htask, hle, hfwd₁.le_reading s₁⟩, hall⟩
        rw [List.map_cons, hqs]
        rfl

/-! ### The runs of `serial` -/

/-- The tasks that are registered, under their names. -/
def siteOf (s : System) (h : s.registry.OfTasks s.driver.kernel.name) : Site where
  tasks := {task | s.Live task}
  name := s.driver.kernel.name
  distinct := by
    rintro _ ⟨o, ho, rfl⟩ _ ⟨o', ho', rfl⟩ hname
    rw [← h.named o ho, ← h.named o' ho'] at hname
    rw [h.distinct.eq_of_key ho ho' hname]

end System

theorem exec_requests {qs : List Request} {d d' : Driver} {t : UInt64}
    (h : DriverEvent.execAll (qs.map .request) d = some d') :
    ∃ t', SerialState.execAll qs ⟨t, d⟩ = some ⟨t', d'⟩ := by
  induction qs generalizing d t with
  | nil =>
      obtain rfl := Option.some.inj h
      exact ⟨t, rfl⟩
  | cons q qs ih =>
      obtain ⟨d₁, hexec, h⟩ := Option.bind_eq_some_iff.mp h
      obtain ⟨res, hres, rfl⟩ := Option.map_eq_some_iff.mp hexec
      obtain ⟨t', hrest⟩ := ih (t := q.replies.recalcClock) h
      refine ⟨t', ?_⟩
      rw [SerialState.execAll, SerialState.exec, hres]
      exact hrest

namespace System

/-- **Refinement.** When nobody is inside a pass, the driver is in a state that `serial` reaches. -/
theorem reachable_serial {s s' : System} {ls : List Label} (hinit : s.Init)
    (hhistory : s.driver.kernel.history = []) (hok : Allowed Undisturbed ls s)
    (hstays : ∀ l ∈ ls, l.Stays) (hfwd : Forward 0 ls) (hrun : s.execAll ls = some s')
    (hsettled : s'.Settled) :
    ∃ t, (serial (s.siteOf hinit.registry)).Reachable ⟨t, s'.driver⟩ := by
  have hs : concurrent.Reachable s := .init hinit
  have hsite : OnSite (s.siteOf hinit.registry) s :=
    ⟨fun task hlive => hlive, fun i op hop => by simp [hinit.pc, Pc.op] at hop,
      fun task hidle => absurd (hinit.hook task) hidle⟩
  have hfree : s.Settled := settled_of_free hinit.lock
  have hexec := execAll_linearise (heldBy_of_reachable hs) (addrs_nodup hs) hfree hok hrun
    hsettled
  obtain ⟨qs, hqs, hall⟩ := linearise_requests hrun (heldBy_of_reachable hs) hsite hok hstays hfwd
  rw [hqs] at hexec
  obtain ⟨t, ht⟩ := exec_requests (t := 0) hexec
  have hreading : s.reading 0 ls = 0 := if_pos hfree
  rw [hreading] at hall
  have hstart : (serial (s.siteOf hinit.registry)).Reachable ⟨0, s.driver⟩ := by
    refine .init ⟨s.driver.kernel, rfl, hhistory, ?_⟩
    show s.driver = ⟨∅, s.driver.kernel⟩
    rw [← hinit.empty]
  exact ⟨t, Edfomai.reachable_of_execAll hstart hall ht⟩

end System

/-- What the driver is for. -/
structure Driver.Kept (d : Driver) : Prop where
  /-- Right after a recalculation whose product does not wrap, priorities follow deadlines. -/
  ordered : ∀ t, History.lastRecalc d.kernel.history = some t → SpreadFits t d → EdfOrdered d
  /-- A record is missed exactly when it has been notified since its last arming … -/
  missed_iff : ∀ k r, d.dtaskMap.lookup k = some r →
    (r.status = .missed ↔ 0 < History.missesSince k d.kernel.history)
  /-- … which happens at most once. -/
  once : ∀ k r, d.dtaskMap.lookup k = some r → History.missesSince k d.kernel.history ≤ 1
  /-- Right after a recalculation that read `t`, the active records that are missed are those whose
  deadline is at most `t`. -/
  caught : ∀ t, History.lastRecalc d.kernel.history = some t → ∀ k r,
    d.dtaskMap.lookup k = some r → r.Active → (r.status = .missed ↔ r.deadline ≤ t)

theorem kept_of_serial {site : Site} {s : SerialState} (hs : (serial site).Reachable s) :
    s.driver.Kept := by
  have hinv := reachable_inv hs
  have hmisses : ∀ k r, s.driver.dtaskMap.lookup k = some r →
      History.missesSince k s.driver.kernel.history = if r.status = .missed then 1 else 0 :=
    fun k r hl => (hinv.records.2 k r hl).misses
  constructor
  case ordered =>
    intro t ht hfit k₁ r₁ k₂ r₂ hl₁ ha₁ hl₂ ha₂ hle
    have hfollows := follows_of_postRecalc (hinv.settled t ht) hfit
    exact Int32.le_iff_toInt_le.mpr
      (hfollows r₁ ⟨k₁, hl₁, ha₁⟩ r₂ ⟨k₂, hl₂, ha₂⟩ (UInt64.le_iff_toNat_le.mp hle))
  case missed_iff =>
    intro k r hl
    rw [hmisses k r hl]
    cases r.status <;> simp
  case once =>
    intro k r hl
    rw [hmisses k r hl]
    split <;> omega
  case caught => exact fun t ht k r hl ha => (hinv.settled t ht k r hl ha).2.1

namespace System

/-- **EDF across threads.** In every interleaving that is not disturbed, in which clocks do not run
backwards and the tasks stay the same, whenever nobody is inside a pass: priorities follow
deadlines, and misses are caught and latched. -/
theorem kept_of_interleaved {s s' : System} {ls : List Label} (hinit : s.Init)
    (hhistory : s.driver.kernel.history = []) (hok : Allowed Undisturbed ls s)
    (hstays : ∀ l ∈ ls, l.Stays) (hfwd : Forward 0 ls) (hrun : s.execAll ls = some s')
    (hsettled : s'.Settled) : s'.driver.Kept := by
  obtain ⟨t, ht⟩ := reachable_serial hinit hhistory hok hstays hfwd hrun hsettled
  exact kept_of_serial ht

/-- The steps of `interleavedSteps`, without the new task. -/
theorem kept_of_interleaved_letter :
    (letterSteps (interleavedSteps.filter fun l => l.Stays)).driver.Kept :=
  kept_of_interleaved letterSystem_init rfl (by decide +kernel) (by decide +kernel)
    (by decide +kernel) (letterSteps_eq (by decide +kernel)) (by decide +kernel)

end System
end Edfomai
