import Mathlib.Data.Multiset.AddSub

/-!
# Edfomai.Lib.Ledger

**Ledgers of resources** that are taken and given back: blocks of an allocator,
descriptors of a device. A ledger is a history, newest entry first.

`outstanding` is what has been taken and not yet given back, with multiplicity, and
`Sound` says that nothing was ever given back that was not outstanding then: the
absence of double releases. `Account` states both at once; its three rules are how a
program's operations are booked.
-/

universe u

namespace Ledger

variable {α : Type u}

/-- An entry. -/
inductive Entry (α : Type u)
  | take (a : α)
  | give (a : α)

variable [DecidableEq α]

/-- What has been taken and not given back. -/
def outstanding : List (Entry α) → Multiset α
  | [] => 0
  | .take a :: h => {a} + outstanding h
  | .give a :: h => (outstanding h).erase a

/-- Only what is outstanding is given back. -/
def Sound : List (Entry α) → Prop
  | [] => True
  | .take _ :: h => Sound h
  | .give a :: h => a ∈ outstanding h ∧ Sound h

/-- The ledger is sound, and exactly `m` is outstanding. -/
structure Account (h : List (Entry α)) (m : Multiset α) : Prop where
  sound : Sound h
  outstanding_eq : outstanding h = m

namespace Account

variable {h : List (Entry α)} {m m' : Multiset α}

theorem nil : Account ([] : List (Entry α)) 0 := ⟨trivial, rfl⟩

theorem take (acc : Account h m) (a : α) : Account (.take a :: h) ({a} + m) :=
  ⟨acc.sound, by rw [outstanding, acc.outstanding_eq]⟩

/-- What is given back has to be singled out among what is outstanding. -/
theorem give {a : α} (acc : Account h ({a} + m)) : Account (.give a :: h) m := by
  have hmem : a ∈ outstanding h := by
    rw [acc.outstanding_eq]
    exact Multiset.mem_add.mpr (Or.inl (Multiset.mem_singleton_self a))
  refine ⟨⟨hmem, acc.sound⟩, ?_⟩
  rw [outstanding, acc.outstanding_eq, Multiset.singleton_add, Multiset.erase_cons_head]

theorem of_eq (acc : Account h m) (heq : m = m') : Account h m' := heq ▸ acc

end Account

end Ledger
