import Edfomai.Iteration
import Edfomai.Linear

/-!
# Edfomai.Rounds

**How long `edf_data_lock` is held.** A thread that finds it held spins, so what a recalculation
costs is what everyone else waits. The source estimates it at "O(N+N)".

`RecalcPc.left` counts the steps that a thread inside `rt_dtask_recalculateprio` still has to make:
one for each record that an iteration has not visited yet, in both passes. No other thread, hook or
task adds to them or takes any away, as long as deletion hooks remove no record meanwhile, and the
thread can always make the next one (`pass_rounds`).
-/

namespace Edfomai

/-- The steps of a pass that are left. -/
def RecalcPc.left (d : Driver) : RecalcPc → ℕ
  | entry => if d.addrs = [] then 1 else 2 * d.addrs.length + 3
  | firstPass _ _ next => Table.visitsLeft next d.addrs + d.addrs.length + 2
  | secondPass _ _ next => Table.visitsLeft next d.addrs + 1
  | done => 0

section Left

variable {clock : UInt64} {pc pc' : RecalcPc} {d d' : Driver}

theorem addrs_eq_nil_iff : d.addrs = [] ↔ d.dtaskMap.keys.length = 0 := by
  rw [Driver.addrs, Table.addrs, List.map_eq_nil_iff, List.length_eq_zero_iff]
  simp [AList.keys, List.keys]

theorem addrs_first : Table.visitsLeft d.first d.addrs = d.addrs.length := by
  rw [Driver.first, Driver.addrs, Table.addrs, Table.visitsLeft_first, List.length_map]

/-- **One step** is one step. -/
theorem RecalcPc.step_left (hnd : d.addrs.Nodup) (h : pc.step clock d = some (pc', d')) :
    pc.left d = pc'.left d' + 1 := by
  have haddrs : d'.addrs = d.addrs := by
    rw [Driver.addrs_eq, (RecalcPc.step_inv h).1, ← Driver.addrs_eq]
  cases pc with
  | entry =>
      rw [step] at h
      split at h
      · next hempty =>
        obtain ⟨rfl, rfl⟩ := Prod.mk.inj (Option.some.inj h)
        rw [left, if_pos (addrs_eq_nil_iff.mpr hempty)]
        rfl
      · next hempty =>
        obtain ⟨rfl, rfl⟩ := Prod.mk.inj (Option.some.inj h)
        rw [left, if_neg (fun hnil => hempty (addrs_eq_nil_iff.mp hnil)), left, haddrs,
          addrs_first]
        omega
  | firstPass t m next =>
      cases next with
      | none =>
          obtain ⟨rfl, rfl⟩ := Prod.mk.inj (Option.some.inj h)
          rw [left, left, addrs_first]
          simp [Table.visitsLeft]
      | some b =>
          obtain ⟨v, hv, heq⟩ := Option.map_eq_some_iff.mp h
          obtain ⟨rfl, rfl⟩ := Prod.mk.inj heq
          rw [left, left, haddrs, Driver.addrs, Table.visitsLeft_visit hv hnd]
          omega
  | secondPass t m next =>
      cases next with
      | none =>
          obtain ⟨rfl, rfl⟩ := Prod.mk.inj (Option.some.inj h)
          rfl
      | some b =>
          obtain ⟨v, hv, heq⟩ := Option.map_eq_some_iff.mp h
          obtain ⟨rfl, rfl⟩ := Prod.mk.inj heq
          rw [left, left, haddrs, Driver.addrs, Table.visitsLeft_visit hv hnd]
  | done => cases h

/-- The next step can be made if the saved record is in the table. -/
theorem RecalcPc.step_isSome (h : ∀ b, pc.saved = some (some b) → b ∈ d.addrs)
    (hdone : pc ≠ .done) : (pc.step clock d).isSome := by
  have hvisit : ∀ {σ : Type} (body : TaskName → σ → RtDtask → σ × RtDtask) (s : σ) (b : Block),
      b ∈ d.addrs → (d.dtaskMap.visit (fun r => r.addr) body s b).isSome := by
    intro σ body s b hb
    rw [Table.visit, Option.isSome_map]
    exact Table.elementAt_isSome hb
  cases pc with
  | entry =>
      rw [step]
      split <;> rfl
  | firstPass t m next =>
      cases next with
      | none => rfl
      | some b =>
          rw [step, Option.isSome_map]
          exact hvisit _ _ b (h b rfl)
  | secondPass t m next =>
      cases next with
      | none => rfl
      | some b =>
          rw [step, Option.isSome_map]
          exact hvisit _ _ b (h b rfl)
  | done => exact absurd rfl hdone

/-- Once the clock has been read, at most two steps are left for each record, and two more. -/
theorem RecalcPc.left_le (h : pc ≠ .entry) : pc.left d ≤ 2 * d.addrs.length + 2 := by
  have hvisits : ∀ next, Table.visitsLeft next d.addrs ≤ d.addrs.length := by
    intro next
    cases next with
    | none => exact Nat.zero_le _
    | some b => exact (List.dropWhile_sublist _).length_le
  cases pc with
  | entry => exact absurd rfl h
  | firstPass t m next =>
      have hle := hvisits next
      rw [left]
      omega
  | secondPass t m next =>
      have hle := hvisits next
      rw [left]
      omega
  | done => exact Nat.zero_le _

end Left

/-- The step is one of the thread's pass. -/
def Label.recalcs (i : Thread) : Label → Bool
  | recalc j _ => j = i
  | _ => false

namespace System

/-- The steps of its pass that a thread still has to make. -/
def left (i : Thread) (s : System) : ℕ :=
  match s.pc i with
  | .recalculating _ rpc => rpc.left s.driver
  | _ => 0

/-- A pass that has read the clock takes the steps that are left, whatever else happens. -/
structure PassBounded (s : System) (i : Thread) : Prop where
  /-- The thread is not stuck. -/
  moves : ∀ clock, (s.step (.recalc i clock)).isSome
  left_le : s.left i ≤ 2 * s.driver.addrs.length + 2
  /-- While it holds the lock, no step but its own counts. -/
  steps : ∀ ls s', (concurrent.restrict HookSpares).Run s ls s' → .lockPut i ∉ ls →
    s.left i = s'.left i + ls.countP (Label.recalcs i)

end System

/-- Inside a pass that has read the clock, or at its end. -/
def Pc.AtWork (p : Pc) : Prop :=
  (∃ buffer rpc, p = .recalculating buffer rpc ∧ rpc ≠ .entry) ∨ p = .release

theorem Pc.AtWork.inside {p : Pc} (h : p.AtWork) : p.Inside := by
  rcases h with ⟨buffer, rpc, rfl, -⟩ | rfl <;> trivial

namespace System

variable {s s' : System} {l : Label} {i : Thread}

theorem left_of_release (h : s.pc i = .release) : s.left i = 0 := by
  rw [left, h]

theorem left_of_pass {buffer : Option Block} {rpc : RecalcPc}
    (h : s.pc i = .recalculating buffer rpc) : s.left i = rpc.left s.driver := by
  rw [left, h]

/-- A thread at work goes on with its pass, or releases the lock. -/
theorem Step.actor_of_atWork (hat : (s.pc i).AtWork) (hactor : l.actor = some i)
    (hstep : Step s l s') :
    (s' = s ∧ l.recalcs i = false) ∨ (∃ clock, l = .recalc i clock) ∨ l = .lockPut i := by
  have hin := hat.inside
  cases hstep with
  | refused => exact Or.inl ⟨rfl, rfl⟩
  | resolved command hpc | wake hpc | clear hpc =>
      obtain rfl := Option.some.inj hactor
      rw [hpc] at hin
      exact hin.elim
  | taken hpc | spins hpc =>
      obtain rfl := Option.some.inj hactor
      rcases hpc with hpc | hpc <;> rw [hpc] at hin <;> exact hin.elim
  | returned hpc | begun hpc =>
      obtain rfl := Option.some.inj hactor
      rw [hpc] at hat
      rcases hat with ⟨buffer, rpc, heq, -⟩ | heq <;> cases heq
  | @recalc j buffer rpc rpc' d clock | @recalculated j buffer rpc d clock =>
      obtain rfl := Option.some.inj hactor
      exact Or.inr (Or.inl ⟨clock, rfl⟩)
  | put =>
      obtain rfl := Option.some.inj hactor
      exact Or.inr (Or.inr rfl)
  | _ => cases hactor

/-- Its own step. -/
theorem Step.left_recalc {clock : UInt64} (hnd : s.driver.addrs.Nodup)
    (hstep : Step s (.recalc i clock) s') : (s'.pc i).AtWork ∧ s.left i = s'.left i + 1 := by
  cases hstep with
  | @recalc _ buffer rpc rpc' d _ hpc hrec =>
      have hpc' : ({ s.goto i (.recalculating buffer rpc') with driver := d } : System).pc i =
          .recalculating buffer rpc' := Function.update_self ..
      refine ⟨Or.inl ⟨buffer, rpc', hpc', RecalcPc.step_ne_entry hrec⟩, ?_⟩
      rw [left_of_pass hpc, left_of_pass hpc']
      exact RecalcPc.step_left hnd hrec
  | @recalculated _ buffer rpc d _ hpc hrec =>
      have hpc' : ({ s.goto i .release with driver := freeBuffer buffer d } : System).pc i =
          .release := Function.update_self ..
      refine ⟨Or.inr hpc', ?_⟩
      rw [left_of_pass hpc, left_of_release hpc']
      exact RecalcPc.step_left hnd hrec

/-- A step of anyone else. -/
theorem Step.left_of_ne (h : HeldBy s.pc s.lock) (hok : HookSpares s l) (hat : (s.pc i).AtWork)
    (hne : l.actor ≠ some i) (hstep : Step s l s') :
    (s'.pc i).AtWork ∧ s'.left i = s.left i := by
  have hpc := hstep.pc_of_ne hne
  rw [hpc]
  refine ⟨hat, ?_⟩
  rcases hat with ⟨buffer, rpc, hpass, hentry⟩ | hrelease
  · rw [left_of_pass hpass, left_of_pass (hpc.trans hpass)]
    by_cases hdone : rpc = .done
    · rw [hdone, RecalcPc.left, RecalcPc.left]
    · have hsaved : (s.pc i).saved ≠ none := by
        rw [hpass]
        cases rpc <;> simp_all [Pc.saved, RecalcPc.saved]
      have hnodes := hstep.nodes_of_saved h hok hsaved
      have haddrs : s'.driver.addrs = s.driver.addrs := by
        rw [Driver.addrs_eq, hnodes, ← Driver.addrs_eq]
      cases rpc <;> simp only [RecalcPc.left, haddrs]
  · rw [left_of_release hrelease, left_of_release (hpc.trans hrelease)]

/-- **One step** of anyone. -/
theorem Step.left_step (h : HeldBy s.pc s.lock) (hnd : s.driver.addrs.Nodup)
    (hok : HookSpares s l) (hat : (s.pc i).AtWork) (hput : l ≠ .lockPut i) (hstep : Step s l s') :
    (s'.pc i).AtWork ∧ s.left i = s'.left i + [l].countP (Label.recalcs i) := by
  by_cases hactor : l.actor = some i
  · rcases hstep.actor_of_atWork hat hactor with ⟨rfl, hother⟩ | ⟨clock, rfl⟩ | rfl
    · exact ⟨hat, by simp [hother]⟩
    · have hown : [Label.recalc i clock].countP (Label.recalcs i) = 1 := by
        simp [Label.recalcs]
      rw [hown]
      exact hstep.left_recalc hnd
    · exact absurd rfl hput
  · have hother : l.recalcs i = false := by
      cases l with
      | recalc j clock =>
          have hne : j ≠ i := fun heq => hactor (heq ▸ rfl)
          simp [Label.recalcs, hne]
      | _ => rfl
    obtain ⟨hat', heq⟩ := hstep.left_of_ne h hok hat hactor
    exact ⟨hat', by simp [hother, heq]⟩

/-! ### Runs -/

/-- Nobody waits at the `return` of a pass. -/
def NoneDone (s : System) : Prop := ∀ i buffer, s.pc i ≠ .recalculating buffer .done

theorem NoneDone.move {p : Pc} (h : NoneDone s) (hpc : s'.pc = Function.update s.pc i p)
    (hp : ∀ buffer, p ≠ .recalculating buffer .done) : NoneDone s' := by
  intro j buffer
  rw [hpc]
  rcases eq_or_ne j i with rfl | hne
  · rw [Function.update_self]
    exact hp buffer
  · rw [Function.update_of_ne hne]
    exact h j buffer

theorem NoneDone.of_other (h : NoneDone s) (hne : ∀ i clock, l ≠ .recalc i clock)
    (hstep : Step s l s') : NoneDone s' := by
  cases hstep with
  | resolved | wake | taken | spins | returned | begun | clear => exact h.move rfl (by simp)
  | @put i => exact h.move rfl (by cases i <;> simp [afterPut])
  | recalc | recalculated => exact absurd rfl (hne _ _)
  | _ => exact h

theorem NoneDone.step (h : NoneDone s) (hstep : s.step l = some s') : NoneDone s' := by
  cases l with
  | recalc i clock =>
      simp only [System.step] at hstep
      split at hstep
      · obtain ⟨⟨rpc', d⟩, -, rfl⟩ := Option.map_eq_some_iff.mp hstep
        by_cases hdone : rpc' = .done
        · rw [if_pos hdone]
          exact h.move rfl (by simp)
        · rw [if_neg hdone]
          exact h.move rfl (by simp [hdone])
      · cases hstep
  | _ => exact h.of_other (by simp) (Step.of_step hstep)

/-- What the steps of a pass rely on. -/
structure Sound (s : System) : Prop where
  held : HeldBy s.pc s.lock
  saved : SavedIn s
  nodup : s.driver.addrs.Nodup
  noneDone : NoneDone s

theorem sound_of_reachable (hs : (concurrent.restrict HookSpares).Reachable s) : Sound s := by
  refine hs.invariant (fun s h => ?_) fun s l s' h hstep => ?_
  · have hreach : concurrent.Reachable s := .init h
    exact ⟨heldBy_of_reachable hreach, fun i b hb => by simp [h.pc] at hb, addrs_nodup hreach,
      fun i buffer heq => by simp [h.pc] at heq⟩
  · have hstep' := Step.of_step hstep.1
    exact ⟨hstep'.heldBy h.held, hstep'.savedIn h.held h.saved hstep.2,
      hstep'.addrs_nodup h.nodup, h.noneDone.step hstep.1⟩

/-- **A run.** -/
theorem left_run {ls : List Label} (hs : (concurrent.restrict HookSpares).Reachable s)
    (hat : (s.pc i).AtWork) (hrun : (concurrent.restrict HookSpares).Run s ls s')
    (hput : .lockPut i ∉ ls) :
    (s'.pc i).AtWork ∧ s.left i = s'.left i + ls.countP (Label.recalcs i) := by
  induction hrun with
  | refl => exact ⟨hat, rfl⟩
  | @tail s₁ s₂ ls l hrun hstep ih =>
      simp only [List.mem_append, List.mem_singleton, not_or] at hput
      obtain ⟨hat₁, heq⟩ := ih hput.1
      have hsound := sound_of_reachable (hs.run hrun)
      obtain ⟨hat₂, heq₂⟩ := (Step.of_step hstep.1).left_step hsound.held hsound.nodup hstep.2 hat₁
        (Ne.symm hput.2)
      refine ⟨hat₂, ?_⟩
      rw [heq, heq₂, List.countP_append]
      omega

/-- **The lock is held for a bounded number of steps.** A thread inside a pass that has read the
clock is not stuck and has at most two more steps to make for each record, and two at the end. This
holds while no hook removes a record, be it visited or not, with a thread inside a pass. -/
theorem pass_rounds {buffer : Option Block} {rpc : RecalcPc}
    (hs : (concurrent.restrict HookSpares).Reachable s)
    (hpc : s.pc i = .recalculating buffer rpc) (hread : rpc ≠ .entry) : PassBounded s i := by
  have hsound := sound_of_reachable hs
  constructor
  case moves =>
    intro clock
    simp only [step, hpc, Option.isSome_map]
    refine RecalcPc.step_isSome (fun b hb => hsound.saved i b ?_) ?_
    · rw [hpc]
      exact hb
    · rintro rfl
      exact hsound.noneDone i buffer hpc
  case left_le =>
    rw [left_of_pass hpc]
    exact RecalcPc.left_le hread
  case steps =>
    intro ls s' hrun hput
    exact (left_run hs (Or.inl ⟨buffer, rpc, hpc, hread⟩) hrun hput).2

/-- The service has visited the first of two records in its second pass. -/
theorem pass_rounds_halfway : PassBounded (letterSteps halfwaySteps) .service ∧
    (letterSteps halfwaySteps).left .service = 2 := by
  have hno : ∀ l ∈ halfwaySteps, NotHook l := by decide +kernel
  have hs := letterSteps_restrict (allowed_of_forall fun l hl => (hno l hl).spares)
    (by decide +kernel)
  have hpc : ((letterSteps halfwaySteps).pc .service).pass.map
      (fun p => decide (p.2 ≠ .entry)) = some true := by decide +kernel
  obtain ⟨⟨buffer, rpc⟩, hpass, hread⟩ := Option.map_eq_some_iff.mp hpc
  exact ⟨pass_rounds hs (Pc.pass_eq_some.mp hpass) (of_decide_eq_true hread), by decide +kernel⟩

end System
end Edfomai
