import Edfomai.System

/-!
# Edfomai.Atomic

The interleaved threads refine the serialised operations: a thread that takes the
free lock, runs its operation step by step and releases the lock, without another
step in between, leaves the state that the operation itself computes
(`operation_uninterrupted`). Interleaving is therefore all that the runs of
`concurrent` add to those of `serial`.

The steps need the records' addresses to be distinct, which the memory allocator
ensures (`addrs_nodup`).
-/

namespace Edfomai

/-! ### Addresses -/

theorem begin_addrs_nodup {op : Op} {r : Replies} {d : Driver} {p : Progress}
    (h : op.begin r d = some p) (hfresh : ∀ b ∈ r.block, b ∉ d.addrs) (hnd : d.addrs.Nodup) :
    p.driver.addrs.Nodup := by
  rw [Driver.addrs_eq] at hnd ⊢
  rcases Op.begin_inv h with hsame | hcreate | ⟨task, ret, -, hdel⟩
  · rw [hsame.nodes]
    exact hnd
  · obtain ⟨task, deadline, b, -, hb, -, -, -, hnodes⟩ := hcreate
    have hnotin := hfresh b hb
    rw [Driver.addrs_eq] at hnotin
    rw [hnodes, List.map_append, List.nodup_append]
    refine ⟨hnd, List.nodup_singleton _, fun a ha b' hb' => ?_⟩
    obtain rfl : b' = b := by simpa using hb'
    rintro rfl
    exact hnotin ha
  · obtain ⟨-, -, hsub, -, -⟩ := delete_nodes hdel
    exact hnd.sublist (hsub.map _)

namespace System

theorem Step.addrs_nodup {s s' : System} {l : Label} (h : s.driver.addrs.Nodup)
    (hstep : Step s l s') : s'.driver.addrs.Nodup := by
  have hnodes : ∀ {d : Driver}, d.nodes = s.driver.nodes → d.addrs.Nodup := by
    intro d hd
    rw [Driver.addrs_eq, hd, ← Driver.addrs_eq]
    exact h
  cases hstep with
  | returned hpc hfresh hbegin => exact begin_addrs_nodup hbegin hfresh h
  | begun hpc hfresh hbegin => exact begin_addrs_nodup hbegin hfresh h
  | recalc hpc hrec => exact hnodes (RecalcPc.step_inv hrec).1
  | recalculated hpc hrec =>
      exact hnodes ((freeBuffer_nodes ..).trans (RecalcPc.step_inv hrec).1)
  | hookDelete hhook hdel =>
      obtain ⟨-, -, hsub, -, -⟩ := delete_nodes hdel
      rw [Driver.addrs_eq] at h ⊢
      exact h.sublist (hsub.map _)
  | _ => exact h

/-- No two records lie at one address. -/
theorem addrs_nodup {s : System} (hs : concurrent.Reachable s) : s.driver.addrs.Nodup := by
  have hinit : ∀ s, concurrent.init s → s.driver.addrs.Nodup :=
    fun s h => by simp [Driver.addrs, Table.addrs, h.empty]
  have hstep : ∀ s l s', s.driver.addrs.Nodup → concurrent.step s l s' → s'.driver.addrs.Nodup :=
    fun _ _ _ h hstep => (Step.of_step hstep).addrs_nodup h
  exact hs.invariant hinit hstep

/-! ### Uninterrupted operations -/

/-- The state in which a thread has returned from its operation with the given
driver. -/
def returnedWith (i : Thread) (d : Driver) (s : System) : System :=
  { s.goto i .release with driver := d }

/-- An uninterrupted recalculation. -/
theorem recalc_uninterrupted {t : UInt64} {i : Thread} {buffer : Option Block} {d₁ : Driver}
    {c : RecalcPc × Driver} (h : RecalcSteps t c (.done, d₁)) {s : System}
    (hpc : s.pc i = .recalculating buffer c.1) (hd : s.driver = c.2) (hne : c.1 ≠ .done) :
    ∃ n, s.execAll (List.replicate n (.recalc i t)) =
      some (s.returnedWith i (freeBuffer buffer d₁)) := by
  induction h using Relation.ReflTransGen.head_induction_on generalizing s with
  | refl => exact absurd rfl hne
  | @head c c' hstep hrest ih =>
      have hs : c.1.step t s.driver = some c' := by rw [hd]; exact hstep
      by_cases hdone : c'.1 = .done
      · -- there is no step from the `return`
        have heq : c' = (.done, d₁) := by
          rcases Relation.ReflTransGen.cases_head hrest with heq | ⟨c'', hstep', -⟩
          · exact heq
          · rw [hdone] at hstep'
            exact absurd hstep' (by simp [RecalcPc.step])
        subst heq
        exact ⟨1, by simp [execAll, step, hpc, hs, returnedWith]⟩
      · let s₁ : System := { s.goto i (.recalculating buffer c'.1) with driver := c'.2 }
        have hs₁ : s.step (.recalc i t) = some s₁ := by simp [step, hpc, hs, hdone, s₁]
        obtain ⟨n, hn⟩ := ih (s := s₁) (by simp [s₁]) rfl hdone
        refine ⟨n + 1, ?_⟩
        rw [List.replicate_succ, execAll, hs₁, Option.bind_some, hn]
        simp [returnedWith, s₁, goto]

/-- **An operation that is not interrupted is the serialised operation.** -/
theorem operation_uninterrupted {s : System} {i : Thread} {op : Op} {r : Replies} {ret : Int32}
    {d' : Driver} (hs : concurrent.Reachable s) (hpc : s.pc i = .acquire op)
    (hlock : s.lock = none) (hfresh : s.Fresh r) (hexec : op.exec r s.driver = some (ret, d')) :
    ∃ n s', s.execAll (wholeOperation i r n) = some s' ∧ s'.driver = d' ∧ s'.lock = none ∧
      s'.pc = Function.update s.pc i (afterPut i) := by
  rw [Op.exec_eq_begin] at hexec
  obtain ⟨p, hbegin, hfinish⟩ := Option.map_eq_some_iff.mp hexec
  let s₁ : System := { s.goto i (.critical op) with lock := some i }
  have hget : s.step (.lockGet i) = some s₁ := by simp [step, hpc, lockGet, hlock, s₁]
  have hpc₁ : s₁.pc i = .critical op := by simp [s₁]
  have hfresh₁ : s₁.Fresh r := hfresh
  cases p with
  | returned ret' d =>
      obtain rfl : d = d' := (Prod.mk.inj hfinish).2
      have hrun : s₁.step (.run i r) = some (s₁.returnedWith i d) := by
        simp only [step, hpc₁, if_pos hfresh₁]
        exact congrArg (Option.map _) hbegin
      refine ⟨0, { (s₁.returnedWith i d).goto i (afterPut i) with lock := none }, ?_, rfl, rfl,
        by simp [returnedWith, s₁]⟩
      simp [wholeOperation, execAll, hget, hrun]
      simp [step, returnedWith]
  | recalculate ret' d buffer =>
      obtain rfl : freeBuffer buffer (rtDtaskRecalculateprio r.recalcClock d) = d' :=
        (Prod.mk.inj hfinish).2
      let s₂ : System := { s₁.goto i (.recalculating buffer .entry) with
        driver := d, marks := marked i s₁.marks }
      have hrun : s₁.step (.run i r) = some s₂ := by
        simp only [step, hpc₁, if_pos hfresh₁]
        exact congrArg (Option.map _) hbegin
      have hnd := begin_addrs_nodup hbegin hfresh (addrs_nodup hs)
      have hpc₂ : s₂.pc i = .recalculating buffer .entry := by simp [s₂]
      obtain ⟨n, hn⟩ := recalc_uninterrupted (recalc_steps r.recalcClock hnd) hpc₂ rfl (by simp)
      let s₃ := s₂.returnedWith i (freeBuffer buffer (rtDtaskRecalculateprio r.recalcClock d))
      have hn : s₂.execAll (List.replicate n (.recalc i r.recalcClock)) = some s₃ := hn
      refine ⟨n, { s₃.goto i (afterPut i) with lock := none }, ?_, rfl, rfl,
        by simp [s₃, returnedWith, s₁, s₂]⟩
      simp only [wholeOperation, List.cons_append, List.nil_append, execAll, hget, hrun,
        Option.bind_some, execAll_append, hn]
      simp [step, returnedWith, s₃]

end System
end Edfomai
