import Mathlib.Data.List.AList

/-!
# Edfomai.Lib.Table

**Insertion-ordered tables**: association lists with distinct keys that are
extended at the *end*, the observable behaviour of a hash table whose elements
are also linked in the order in which they were added. The carrier is Mathlib's
`AList`, so distinctness of the keys is part of the type, and lookup and erasure
are Mathlib's.

On top of it this module provides

* `add`, which appends an entry (Mathlib's `insert` prepends);
* `mapValues` and `adjust`, the in-place updates;
* `thread`, the loop over all entries in order that rewrites each value and
  threads a state, with the two lemmas that take such a loop apart when the new
  values do not depend on the state.
-/

universe u v w

/-- A table from `κ` to `α` in insertion order. -/
abbrev Table (κ : Type u) (α : Type v) := AList (fun _ : κ => α)

namespace Table

variable {κ : Type u} {α : Type v} {σ : Type w}

/-! ### Updating values in place -/

/-- Rewrite every value. -/
def mapValues (f : κ → α → α) (t : Table κ α) : Table κ α :=
  ⟨t.entries.map (.map id f), t.nodupKeys.map₂ f⟩

@[simp] theorem entries_mapValues (f : κ → α → α) (t : Table κ α) :
    (t.mapValues f).entries = t.entries.map (.map id f) := rfl

@[simp] theorem keys_mapValues (f : κ → α → α) (t : Table κ α) :
    (t.mapValues f).keys = t.keys := List.map₂_keys f t.entries

/-- Only the values that are there matter. -/
theorem mapValues_congr {f g : κ → α → α} {t : Table κ α}
    (h : ∀ e ∈ t.entries, f e.1 e.2 = g e.1 e.2) : t.mapValues f = t.mapValues g := by
  apply AList.ext
  refine List.map_congr_left fun e he => ?_
  simp [Sigma.map, h e he]

/-! ### Looping over the entries -/

/-- The entries after a loop that threads a state through them. -/
def threadEntries (body : κ → σ → α → σ × α) :
    σ → List (Σ _ : κ, α) → σ × List (Σ _ : κ, α)
  | s, [] => (s, [])
  | s, e :: es =>
      let r := body e.1 s e.2
      let rest := threadEntries body r.1 es
      (rest.1, ⟨e.1, r.2⟩ :: rest.2)

theorem threadEntries_keys (body : κ → σ → α → σ × α) (s : σ) (es : List (Σ _ : κ, α)) :
    (threadEntries body s es).2.keys = es.keys := by
  induction es generalizing s with
  | nil => rfl
  | cons e es ih => simp [threadEntries, ih]

/-- Visit the entries in order; each visit may rewrite the value it is at and
passes a state on to the next one. -/
def thread (body : κ → σ → α → σ × α) (s : σ) (t : Table κ α) : σ × Table κ α :=
  ((threadEntries body s t.entries).1,
    ⟨(threadEntries body s t.entries).2, by
      rw [List.NodupKeys, threadEntries_keys]
      exact t.nodupKeys⟩)

variable {body : κ → σ → α → σ × α} {f : κ → α → α}

theorem threadEntries_of_pure (h : ∀ k s a, (body k s a).2 = f k a) (s : σ)
    (es : List (Σ _ : κ, α)) :
    threadEntries body s es =
      (es.foldl (fun s e => (body e.1 s e.2).1) s, es.map (.map id f)) := by
  induction es generalizing s with
  | nil => rfl
  | cons e es ih => simp [threadEntries, ih, h, Sigma.map]

/-- When the new values do not depend on the state, the loop is an in-place
rewrite of the values … -/
theorem thread_snd_of_pure (h : ∀ k s a, (body k s a).2 = f k a) (s : σ) (t : Table κ α) :
    (thread body s t).2 = t.mapValues f := by
  apply AList.ext
  simp [thread, threadEntries_of_pure h]

/-- … and, for the state, a fold over the old values. -/
theorem thread_fst_of_pure (h : ∀ k s a, (body k s a).2 = f k a) (s : σ) (t : Table κ α) :
    (thread body s t).1 = t.entries.foldl (fun s e => (body e.1 s e.2).1) s := by
  simp [thread, threadEntries_of_pure h]

/-! ### Lookups -/

variable [DecidableEq κ]

@[simp] theorem lookup_mapValues (f : κ → α → α) (t : Table κ α) (k : κ) :
    (t.mapValues f).lookup k = (t.lookup k).map (f k) := List.dlookup_map₂ k

/-- Rewrite the value at `k`, if there is one. -/
def adjust (k : κ) (f : α → α) (t : Table κ α) : Table κ α :=
  t.mapValues fun k' a => if k' = k then f a else a

theorem lookup_adjust_self (k : κ) (f : α → α) (t : Table κ α) :
    (t.adjust k f).lookup k = (t.lookup k).map f := by
  simp [adjust]

theorem lookup_adjust_ne {k k' : κ} (f : α → α) (t : Table κ α) (h : k' ≠ k) :
    (t.adjust k f).lookup k' = t.lookup k' := by
  simp [adjust, h]

/-! ### Adding at the end -/

/-- Append an entry. A key that is already there keeps its value. -/
def add (k : κ) (a : α) (t : Table κ α) : Table κ α := t ∪ AList.singleton k a

theorem lookup_singleton (k : κ) (a : α) :
    (AList.singleton k a : Table κ α).lookup k = some a := by
  simp [AList.lookup]

theorem lookup_add_self {k : κ} {t : Table κ α} (a : α) (h : t.lookup k = none) :
    (t.add k a).lookup k = some a := by
  rw [add, AList.lookup_union_right (AList.lookup_eq_none.mp h), lookup_singleton]

theorem lookup_add_ne {k k' : κ} (a : α) (t : Table κ α) (h : k' ≠ k) :
    (t.add k a).lookup k' = t.lookup k' := by
  by_cases hmem : k' ∈ t
  · exact AList.lookup_union_left hmem
  · rw [add, AList.lookup_union_right hmem, AList.lookup_eq_none.mpr hmem,
      AList.lookup_eq_none]
    simpa [AList.mem_keys] using h

theorem entries_add {k : κ} {t : Table κ α} (a : α) (h : t.lookup k = none) :
    (t.add k a).entries = t.entries ++ [⟨k, a⟩] := by
  have hk : k ∉ t.entries.keys := AList.lookup_eq_none.mp h
  rw [add, AList.union_entries]
  show List.kunion t.entries [⟨k, a⟩] = _
  generalize t.entries = es at hk ⊢
  induction es with
  | nil => rfl
  | cons e es ih =>
      simp only [List.keys_cons, List.mem_cons, not_or] at hk
      rw [List.kunion_cons, List.kerase_of_notMem_keys (by simpa using Ne.symm hk.1), ih hk.2,
        List.cons_append]

/-! ### Erasing -/

theorem lookup_erase_eq_some {k k' : κ} {t : Table κ α} {a : α}
    (h : AList.lookup k' (t.erase k) = some a) : k' ≠ k ∧ t.lookup k' = some a := by
  rcases eq_or_ne k' k with rfl | hne
  · simp at h
  · exact ⟨hne, by rwa [AList.lookup_erase_ne hne] at h⟩

/-- Erasing takes exactly one entry away. -/
theorem entries_perm_erase {k : κ} {t : Table κ α} {a : α} (h : t.lookup k = some a) :
    t.entries.Perm (⟨k, a⟩ :: (t.erase k).entries) := by
  have hnotin : k ∉ (t.erase k).entries.keys := by
    rw [← AList.keys, ← AList.mem_keys, ← AList.lookup_eq_none]
    exact AList.lookup_erase k t
  refine List.lookup_ext t.nodupKeys (List.nodupKeys_cons.mpr ⟨hnotin, (t.erase k).nodupKeys⟩) ?_
  intro k' a'
  rcases eq_or_ne k' k with rfl | hne
  · rw [List.dlookup_cons_eq]
    exact iff_of_eq (congrArg (a' ∈ ·) h)
  · rw [List.dlookup_cons_ne _ _ hne]
    exact iff_of_eq (congrArg (a' ∈ ·) (AList.lookup_erase_ne hne).symm)

end Table
