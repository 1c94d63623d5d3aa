import Mathlib.Order.Filter.Extr
import Mathlib.Order.Monotone.Defs
import Mathlib.Data.Int.ConditionallyCompleteOrder

/-!
# Edfomai.Lib.Dispatch

What it means for **fixed priorities to stand in for deadlines**. The ideal
scheduler runs an active job with the earliest deadline (`IsMinOn deadline active`);
the real one only knows priorities and runs a job with the highest one
(`IsMaxOn prio active`), however it breaks ties.

`Follows` says that priorities never contradict deadlines. It is more than is needed for
every earliest job to be a possible choice of the real scheduler: on a scale whose top
the earliest jobs reach, they are, whatever the order of the others
(`isMaxOn_of_level_eq_zero`). The converse, that only earliest jobs are chosen, fails as
soon as two deadlines share a priority; for priorities obtained by *quantising* a key,
what remains of it is `level_eq_zero_of_isMaxOn`.
-/

universe u v w

namespace Dispatch

variable {α : Type u} {δ : Type v} {π : Type w} {active : Set α}

section Preorder

variable [Preorder δ] [Preorder π] {deadline : α → δ} {prio : α → π}

/-- An earlier or equal deadline never comes with a lower priority. -/
def Follows (active : Set α) (deadline : α → δ) (prio : α → π) : Prop :=
  ∀ i ∈ active, ∀ j ∈ active, deadline i ≤ deadline j → prio j ≤ prio i

end Preorder

/-! ### Priorities on a scale -/

section Scale

variable [Preorder δ] {deadline : α → δ} {prio : α → ℤ} (level : α → ℕ) {top : ℤ}

/-- A scale that is monotone in the deadline follows it. -/
theorem follows_of_level
    (hlevel : ∀ i ∈ active, ∀ j ∈ active, deadline i ≤ deadline j → level i ≤ level j)
    (hprio : ∀ i ∈ active, prio i = top - level i) : Follows active deadline prio := by
  intro i hi j hj hij
  rw [hprio i hi, hprio j hj]
  have := hlevel i hi j hj hij
  omega

/-- No job is above the top of the scale. -/
theorem isMaxOn_of_level_eq_zero (hprio : ∀ i ∈ active, prio i = top - level i) {j : α}
    (hj : j ∈ active) (hzero : level j = 0) : IsMaxOn prio active j := by
  refine isMaxOn_iff.mpr fun i hi => ?_
  rw [hprio i hi, hprio j hj, hzero]
  omega

/-- When the top of the scale is in use, only jobs at the top have the highest
priority. -/
theorem level_eq_zero_of_isMaxOn (hprio : ∀ i ∈ active, prio i = top - level i) {i j : α}
    (hi : i ∈ active) (hzero : level i = 0) (hj : j ∈ active) (hmax : IsMaxOn prio active j) :
    level j = 0 := by
  have hle := isMaxOn_iff.mp hmax i hi
  rw [hprio i hi, hprio j hj, hzero] at hle
  omega

end Scale

end Dispatch
