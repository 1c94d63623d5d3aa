import Mathlib.Logic.Relation

/-!
# Edfomai.Lib.Transition

**Labelled transition systems** and the two rules by which properties of whole runs
are proved: an invariant established initially and kept by every step holds of
every reachable state, and a relation kept by every step relates the two ends of a
run.

`restrict` removes the steps that do not meet a condition on the state they start
from. A theorem about the reachable states of a restricted system is a theorem
about exactly those runs all of whose steps meet the condition.
-/

universe u v

/-- Initial states, and labelled steps between states. -/
structure TransitionSystem (σ : Type u) (ℓ : Type v) where
  init : σ → Prop
  step : σ → ℓ → σ → Prop

namespace TransitionSystem

variable {σ : Type u} {ℓ : Type v} {S : TransitionSystem σ ℓ}

/-- A run: the labels of consecutive steps. -/
inductive Run (S : TransitionSystem σ ℓ) : σ → List ℓ → σ → Prop
  | refl (s : σ) : Run S s [] s
  | tail {s s' s'' : σ} {ls : List ℓ} {l : ℓ} :
      Run S s ls s' → S.step s' l s'' → Run S s (ls ++ [l]) s''

/-- A run may also begin with a step. -/
theorem Run.cons {s s' s'' : σ} {ls : List ℓ} {l : ℓ} (h : S.step s l s')
    (hr : S.Run s' ls s'') : S.Run s (l :: ls) s'' := by
  induction hr with
  | refl => exact .tail (.refl s) h
  | tail _ hstep ih => exact ih.tail hstep

/-- The states reached by the runs from an initial state. -/
inductive Reachable (S : TransitionSystem σ ℓ) : σ → Prop
  | init {s : σ} : S.init s → Reachable S s
  | step {s s' : σ} {l : ℓ} : Reachable S s → S.step s l s' → Reachable S s'

/-- A run from a reachable state ends in one. -/
theorem Reachable.run {s s' : σ} {ls : List ℓ} (hs : S.Reachable s) (hr : S.Run s ls s') :
    S.Reachable s' := by
  induction hr with
  | refl => exact hs
  | tail _ hstep ih => exact ih.step hstep

/-- **The invariant rule.** -/
theorem Reachable.invariant {Inv : σ → Prop} (hinit : ∀ s, S.init s → Inv s)
    (hstep : ∀ s l s', Inv s → S.step s l s' → Inv s') {s : σ} (hs : S.Reachable s) : Inv s := by
  induction hs with
  | init h => exact hinit _ h
  | step _ h ih => exact hstep _ _ _ ih h

/-- **The run rule**: what every step keeps relative to its start, a run keeps
relative to its start. The steps may use that they start from a reachable state. -/
theorem Run.relation {R : σ → σ → Prop} (hrefl : ∀ s, R s s)
    (hstep : ∀ s₀ s l s', S.Reachable s → R s₀ s → S.step s l s' → R s₀ s') {s s' : σ}
    {ls : List ℓ} (hs : S.Reachable s) (hr : S.Run s ls s') : R s s' := by
  induction hr with
  | refl => exact hrefl _
  | tail hrun h ih => exact hstep _ _ _ _ (hs.run hrun) ih h

/-- The same system without the steps that start from a state in which their label
does not meet the condition. -/
def restrict (S : TransitionSystem σ ℓ) (ok : σ → ℓ → Prop) : TransitionSystem σ ℓ where
  init := S.init
  step s l s' := S.step s l s' ∧ ok s l

theorem Reachable.of_restrict {ok : σ → ℓ → Prop} {s : σ} (h : (S.restrict ok).Reachable s) :
    S.Reachable s := by
  induction h with
  | init h => exact .init h
  | step _ h ih => exact ih.step h.1

/-- A run whose labels meet the condition in every state is one of the restricted system. -/
theorem Run.restrict {ok : σ → ℓ → Prop} {s s' : σ} {ls : List ℓ} (hr : S.Run s ls s')
    (hok : ∀ l ∈ ls, ∀ s, ok s l) : (S.restrict ok).Run s ls s' := by
  induction hr with
  | refl => exact .refl _
  | tail _ hstep ih =>
      obtain ⟨hls, hl⟩ := List.forall_mem_append.mp hok
      exact (ih hls).tail ⟨hstep, hl _ (List.mem_singleton_self _) _⟩

/-! ### Guards -/

/-- The same system without the steps that lead to a state without the property. -/
def within (S : TransitionSystem σ ℓ) (P : σ → Prop) : TransitionSystem σ ℓ where
  init := S.init
  step s l s' := S.step s l s' ∧ P s'

/-- **The guard rule.** Where the invariant holds, the steps that meet the guard keep it, and the
others lead to a state without the property. The guard then admits exactly the runs on which
every state has the property. -/
theorem run_restrict_iff {ok : σ → ℓ → Prop} {P Inv : σ → Prop} (hprop : ∀ s, Inv s → P s)
    (hkeep : ∀ s l s', Inv s → S.step s l s' → ok s l → Inv s')
    (hexact : ∀ s l s', Inv s → S.step s l s' → P s' → ok s l) {s s' : σ} {ls : List ℓ}
    (hs : Inv s) : (S.restrict ok).Run s ls s' ↔ (S.within P).Run s ls s' := by
  constructor
  · intro hrun
    have hboth : (S.within P).Run s ls s' ∧ Inv s' := by
      induction hrun with
      | refl => exact ⟨.refl s, hs⟩
      | tail _ hstep ih =>
          have hinv := hkeep _ _ _ ih.2 hstep.1 hstep.2
          exact ⟨ih.1.tail ⟨hstep.1, hprop _ hinv⟩, hinv⟩
    exact hboth.1
  · intro hrun
    have hboth : (S.restrict ok).Run s ls s' ∧ Inv s' := by
      induction hrun with
      | refl => exact ⟨.refl s, hs⟩
      | tail _ hstep ih =>
          have hok := hexact _ _ _ ih.2 hstep.1 hstep.2
          exact ⟨ih.1.tail ⟨hstep.1, hok⟩, hkeep _ _ _ ih.2 hstep.1 hok⟩
    exact hboth.1

/-! ### Idle steps -/

/-- **The erasure rule.** Idle steps do not change what is seen of a state, and what the others
come to can be seen. The idle steps of a run can then be left out. -/
theorem Run.erase {τ : Type*} {view : σ → τ} {idle : ℓ → Bool}
    (hidle : ∀ s l s', idle l = true → S.step s l s' → view s' = view s)
    (hbusy : ∀ s t l s', idle l = false → view s = view t → S.step s l s' →
      ∃ t', S.step t l t' ∧ view s' = view t')
    {s s' : σ} {ls : List ℓ} (hr : S.Run s ls s') :
    ∃ t', S.Run s (ls.filter fun l => !idle l) t' ∧ view s' = view t' := by
  induction hr with
  | refl => exact ⟨s, .refl s, rfl⟩
  | @tail s₁ s₂ ls l _ hstep ih =>
      obtain ⟨t, hrun, hview⟩ := ih
      rw [List.filter_append]
      cases hl : idle l with
      | true =>
          have hnil : [l].filter (fun l => !idle l) = [] := by simp [hl]
          rw [hnil, List.append_nil]
          exact ⟨t, hrun, (hidle s₁ l s₂ hl hstep).trans hview⟩
      | false =>
          have hone : [l].filter (fun l => !idle l) = [l] := by simp [hl]
          obtain ⟨t', ht', hview'⟩ := hbusy s₁ t l s₂ hl hview hstep
          rw [hone]
          exact ⟨t', hrun.tail ht', hview'⟩

/-! ### Refinement -/

section Simulation

variable {τ : Type*} {κ : Type*} {T : TransitionSystem τ κ} {f : ℓ → κ} {R : σ → τ → Prop}

/-- A forward simulation along a map of labels: `T` can start where `S` starts, and follows each
step by one with the corresponding label. -/
structure Simulation (S : TransitionSystem σ ℓ) (T : TransitionSystem τ κ) (f : ℓ → κ)
    (R : σ → τ → Prop) : Prop where
  init : ∀ s, S.init s → ∃ t, T.init t ∧ R s t
  step : ∀ s l s' t, R s t → S.step s l s' → ∃ t', T.step t (f l) t' ∧ R s' t'

/-- **The simulation rule.** A run is followed, label for label. -/
theorem Simulation.run (h : Simulation S T f R) {s s' : σ} {ls : List ℓ} {t : τ} (hR : R s t)
    (hr : S.Run s ls s') : ∃ t', T.Run t (ls.map f) t' ∧ R s' t' := by
  induction hr with
  | refl => exact ⟨t, .refl t, hR⟩
  | tail _ hstep ih =>
      obtain ⟨t₁, hrun, hR₁⟩ := ih
      obtain ⟨t', ht', hR'⟩ := h.step _ _ _ t₁ hR₁ hstep
      rw [List.map_append, List.map_singleton]
      exact ⟨t', hrun.tail ht', hR'⟩

/-- Every reachable state has a reachable counterpart. -/
theorem Simulation.reachable (h : Simulation S T f R) {s : σ} (hs : S.Reachable s) :
    ∃ t, T.Reachable t ∧ R s t := by
  induction hs with
  | init hinit =>
      obtain ⟨t, ht, hR⟩ := h.init _ hinit
      exact ⟨t, .init ht, hR⟩
  | step _ hstep ih =>
      obtain ⟨t, ht, hR⟩ := ih
      obtain ⟨t', ht', hR'⟩ := h.step _ _ _ t hR hstep
      exact ⟨t', ht.step ht', hR'⟩

end Simulation

end TransitionSystem
