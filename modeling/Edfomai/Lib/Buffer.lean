import Mathlib.Data.List.Basic

/-!
# Edfomai.Lib.Buffer

**Stores into a buffer.** A store is an index and what is put there. `run` is the
buffer after a list of stores, the first one first; a store beyond its end leaves the
buffer as it is, since it hits something else.

Most code stores one element after the other. `consecutive` is that pattern, and
`run_consecutive` what it leaves: the stored elements as far as they fit, between what
the buffer held before them and after them.
-/

universe u

namespace Buffer

variable {α : Type u}

/-- The buffer after the given stores. -/
def run (stores : List (Nat × α)) (mem : List α) : List α :=
  stores.foldl (fun mem s => mem.set s.1 s.2) mem

/-- The stores that put a list into a buffer, from an index on. -/
def consecutive (i : Nat) : List α → List (Nat × α)
  | [] => []
  | a :: as => (i, a) :: consecutive (i + 1) as

theorem consecutive_append (i : Nat) (as bs : List α) :
    consecutive i (as ++ bs) = consecutive i as ++ consecutive (i + as.length) bs := by
  induction as generalizing i with
  | nil => rfl
  | cons a as ih =>
      simp only [List.cons_append, consecutive, ih, List.length_cons]
      congr 3
      omega

/-- All of the stores are within a buffer when the list fits. -/
theorem consecutive_lt {i : Nat} {as : List α} {s : Nat × α} (h : s ∈ consecutive i as) :
    s.1 < i + as.length := by
  induction as generalizing i with
  | nil => exact absurd h List.not_mem_nil
  | cons a as ih =>
      rw [List.length_cons]
      rcases List.mem_cons.mp h with rfl | h
      · exact Nat.lt_add_of_pos_right (Nat.succ_pos _)
      · have := ih h
        omega

/-- **What consecutive stores leave.** -/
theorem run_consecutive (i : Nat) (as mem : List α) :
    run (consecutive i as) mem =
      (mem.take i ++ as ++ mem.drop (i + as.length)).take mem.length := by
  induction as generalizing i mem with
  | nil => simp [run, consecutive]
  | cons a as ih =>
      show run (consecutive (i + 1) as) (mem.set i a) = _
      rw [ih, List.length_set]
      rcases Nat.lt_or_ge i mem.length with hlt | hge
      · have htake : (mem.set i a).take (i + 1) = mem.take i ++ [a] := by
          rw [List.take_succ_eq_append_getElem (by simpa using hlt),
            List.take_set_of_le (Nat.le_refl i), List.getElem_set_self]
        have hdrop : (mem.set i a).drop (i + 1 + as.length) = mem.drop (i + (a :: as).length) := by
          rw [List.drop_set_of_lt (by omega), List.length_cons]
          congr 1
          omega
        rw [htake, hdrop, List.append_assoc (mem.take i), List.singleton_append]
      · -- beyond the end of the buffer nothing is stored
        have hset : mem.set i a = mem := List.set_eq_of_length_le hge
        simp [hset, List.take_of_length_le hge, List.take_of_length_le (Nat.le_succ_of_le hge)]

/-- A buffer that is filled from its start keeps nothing of what it held but its rest. -/
theorem run_consecutive_zero (as mem : List α) :
    run (consecutive 0 as) mem = as.take mem.length ++ mem.drop as.length := by
  rw [run_consecutive, List.take_zero, List.nil_append, Nat.zero_add, List.take_append]
  congr 1
  exact List.take_of_length_le (Nat.le_of_eq List.length_drop)

end Buffer
