import Mathlib.Data.Set.Function

/-!
# Edfomai.Lib.Reads

**Which cells a computation reads.** A computation on a memory with holes comes to nothing when
it reads a hole. `Reads f S` says that `f` reads the cells of `S`, all of them, and no others: it
has a result exactly when none of them is a hole, and the result depends on nothing else.
-/

/-- `f` reads the cells of `S`. -/
structure Reads {ι β α : Type*} (f : (ι → Option β) → Option α) (S : Set ι) : Prop where
  isSome : ∀ m, (f m).isSome ↔ ∀ i ∈ S, (m i).isSome
  congr : ∀ m m', Set.EqOn m m' S → f m = f m'

namespace Reads

variable {ι β α γ : Type*} {S T : Set ι} {f : (ι → Option β) → Option α}

/-- A result that is there already reads nothing. -/
theorem pure (a : α) : Reads (fun _ : ι → Option β => some a) ∅ :=
  ⟨by simp, fun _ _ _ => rfl⟩

/-- Reading a cell. -/
theorem cell (i : ι) : Reads (fun m : ι → Option β => m i) {i} :=
  ⟨by simp, fun m m' h => h rfl⟩

/-- **One computation after the other.** What the second reads may not depend on what the first
has read. -/
theorem bind {g : α → (ι → Option β) → Option γ} (hf : Reads f S)
    (hg : ∀ m a, f m = some a → Reads (g a) T) :
    Reads (fun m => (f m).bind fun a => g a m) (S ∪ T) where
  isSome m := by
    have hunion : (∀ i ∈ S ∪ T, (m i).isSome) ↔ (f m).isSome ∧ ∀ i ∈ T, (m i).isSome := by
      rw [hf.isSome]
      simp only [Set.mem_union, or_imp, forall_and]
    rw [hunion]
    cases hm : f m with
    | none => simp
    | some a => simpa using (hg m a hm).isSome m
  congr m m' h := by
    have hfm := hf.congr m m' (h.mono Set.subset_union_left)
    show (f m).bind _ = (f m').bind _
    rw [← hfm]
    cases hm : f m with
    | none => rfl
    | some a => exact (hg m a hm).congr m m' (h.mono Set.subset_union_right)

theorem map (g : α → γ) (hf : Reads f S) : Reads (fun m => (f m).map g) S where
  isSome m := by rw [Option.isSome_map, hf.isSome]
  congr m m' h := by rw [hf.congr m m' h]

theorem bind_some (g : α → γ) (hf : Reads f S) :
    Reads (fun m => (f m).bind fun a => some (g a)) S := by
  simpa only [Option.map_eq_bind, Function.comp_def] using hf.map g

theorem of_eq (h : Reads f S) (hS : S = T) : Reads f T := hS ▸ h

end Reads
