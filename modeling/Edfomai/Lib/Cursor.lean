import Edfomai.Lib.Table
import Mathlib.Logic.Relation

/-!
# Edfomai.Lib.Cursor

**Iterating over a table with a saved next element**, the way a "safe" iteration
macro of an intrusive hash table does: each visit finds the element at the address
saved before, saves the address of its successor, and then runs the loop body, which
may rewrite the element it is at.

A visit fails when no element of the table lies at the saved address any more. As
long as nobody else touches the table this does not happen, and the visits together
are the loop `Table.thread` over the whole table (`visits_thread`).
-/

universe u v w x

namespace Table

variable {κ : Type u} {α : Type v} {β : Type w} {σ : Type x}

section Find

variable (addr : α → β)

/-- The addresses of the elements, in order. -/
def addrs (t : Table κ α) : List β := t.entries.map fun e => addr e.2

/-- Where an iteration over the given elements begins. -/
def first (es : List (Σ _ : κ, α)) : Option β := es.head?.map fun e => addr e.2

variable {addr} in
theorem first_mem {es : List (Σ _ : κ, α)} {b : β} (h : first addr es = some b) :
    b ∈ es.map fun e => addr e.2 := by
  cases es with
  | nil => simp [first] at h
  | cons e es =>
      obtain rfl : addr e.2 = b := by simpa [first] using h
      exact List.mem_cons_self ..

variable [DecidableEq β]

/-- The element at an address, with its key, and the address of its successor. -/
def elementAt (b : β) : List (Σ _ : κ, α) → Option ((Σ _ : κ, α) × Option β)
  | [] => none
  | e :: es => if addr e.2 = b then some (e, first addr es) else elementAt b es

variable {addr}

theorem elementAt_eq_some {b : β} {es : List (Σ _ : κ, α)} {e : Σ _ : κ, α} {next : Option β}
    (h : elementAt addr b es = some (e, next)) :
    e ∈ es ∧ addr e.2 = b ∧ ∀ b', next = some b' → b' ∈ es.map fun e => addr e.2 := by
  induction es with
  | nil => simp [elementAt] at h
  | cons e' es ih =>
      rw [elementAt] at h
      split at h
      · next heq =>
        obtain ⟨rfl, rfl⟩ := Prod.mk.inj (Option.some.inj h)
        exact ⟨List.mem_cons_self .., heq, fun b' hb' => List.mem_cons_of_mem _ (first_mem hb')⟩
      · obtain ⟨hmem, heq, hnext⟩ := ih h
        exact ⟨List.mem_cons_of_mem _ hmem, heq, fun b' hb' =>
          List.mem_cons_of_mem _ (hnext b' hb')⟩

/-- How many visits are left, with the given address saved. -/
def visitsLeft (next : Option β) (bs : List β) : ℕ :=
  match next with
  | some b => (bs.dropWhile (· ≠ b)).length
  | none => 0

theorem visitsLeft_first (es : List (Σ _ : κ, α)) :
    visitsLeft (first addr es) (es.map fun e => addr e.2) = es.length := by
  cases es with
  | nil => rfl
  | cons e es => simp [first, visitsLeft]

/-- Before a visit there is one more. -/
theorem visitsLeft_elementAt {b : β} {es : List (Σ _ : κ, α)} {e : Σ _ : κ, α} {next : Option β}
    (h : elementAt addr b es = some (e, next)) (hnd : (es.map fun e => addr e.2).Nodup) :
    visitsLeft (some b) (es.map fun e => addr e.2) =
      visitsLeft next (es.map fun e => addr e.2) + 1 := by
  induction es with
  | nil => simp [elementAt] at h
  | cons e' es ih =>
      rw [List.map_cons, List.nodup_cons] at hnd
      -- the addresses of the others
      have hdrop : ∀ b', b' ∈ es.map (fun e => addr e.2) →
          visitsLeft (some b') ((e' :: es).map fun e => addr e.2) =
            visitsLeft (some b') (es.map fun e => addr e.2) := by
        intro b' hb'
        have hne : addr e'.2 ≠ b' := fun heq => hnd.1 (heq ▸ hb')
        simp [visitsLeft, hne]
      rw [elementAt] at h
      split at h
      · next heq =>
        obtain ⟨rfl, rfl⟩ := Prod.mk.inj (Option.some.inj h)
        have hall : visitsLeft (some b) ((e' :: es).map fun e => addr e.2) = es.length + 1 := by
          simp [visitsLeft, heq]
        rw [hall, ← @visitsLeft_first κ α β addr _ es]
        cases hfirst : first addr es with
        | none => rfl
        | some b' => rw [hdrop b' (first_mem hfirst)]
      · next hne =>
        obtain ⟨hmem, rfl, hnext⟩ := elementAt_eq_some h
        rw [hdrop _ (List.mem_map.mpr ⟨e, hmem, rfl⟩), ih h hnd.2]
        cases next with
        | none => rfl
        | some b' => rw [hdrop b' (hnext b' rfl)]

/-- An element that is there is found. -/
theorem elementAt_isSome {b : β} {es : List (Σ _ : κ, α)}
    (h : b ∈ es.map fun e => addr e.2) : (elementAt addr b es).isSome := by
  induction es with
  | nil => cases h
  | cons e es ih =>
      rw [elementAt]
      split
      · rfl
      · next hne =>
        rw [List.map_cons, List.mem_cons] at h
        exact ih (h.resolve_left (Ne.symm hne))

/-- The element in the middle of a list without repeated addresses. -/
theorem elementAt_middle {pre es : List (Σ _ : κ, α)} {e : Σ _ : κ, α}
    (h : addr e.2 ∉ pre.map fun e => addr e.2) :
    elementAt addr (addr e.2) (pre ++ e :: es) = some (e, first addr es) := by
  induction pre with
  | nil => simp [elementAt]
  | cons e' pre ih =>
      simp only [List.map_cons, List.mem_cons, not_or] at h
      rw [List.cons_append, elementAt, if_neg (Ne.symm h.1), ih h.2]

end Find

/-! ### Visits -/

variable [DecidableEq κ] [DecidableEq β]

/-- One visit: find the element at the saved address, save its successor, run the
body. -/
def visit (addr : α → β) (body : κ → σ → α → σ × α) (s : σ) (b : β) (t : Table κ α) :
    Option (σ × Option β × Table κ α) :=
  (elementAt addr b t.entries).map fun found =>
    let res := body found.1.1 s found.1.2
    (res.1, found.2, t.adjust found.1.1 fun _ => res.2)

/-- The state of an iteration, and the step to the next visit. -/
inductive Visits (addr : α → β) (body : κ → σ → α → σ × α) :
    σ × Option β × Table κ α → σ × Option β × Table κ α → Prop
  | visit {s : σ} {b : β} {t : Table κ α} {v : σ × Option β × Table κ α} :
      Table.visit addr body s b t = some v → Visits addr body (s, some b, t) v

variable {addr : α → β} {body : κ → σ → α → σ × α}

theorem visit_eq_some {s s' : σ} {b : β} {next : Option β} {t t' : Table κ α}
    (h : t.visit addr body s b = some (s', next, t')) :
    ∃ k a, t.lookup k = some a ∧ addr a = b ∧ (body k s a).1 = s' ∧
      t' = t.adjust k (fun _ => (body k s a).2) ∧ ∀ b', next = some b' → b' ∈ t.addrs addr := by
  obtain ⟨⟨⟨k, a⟩, next'⟩, hfound, heq⟩ := Option.map_eq_some_iff.mp h
  obtain ⟨hmem, haddr, hnext⟩ := elementAt_eq_some hfound
  obtain ⟨hs, heq'⟩ := Prod.mk.inj heq
  obtain ⟨rfl, ht⟩ := Prod.mk.inj heq'
  exact ⟨k, a, AList.mem_lookup_iff.mpr hmem, haddr, hs, ht.symm, hnext⟩

/-- Before a visit there is one more. -/
theorem visitsLeft_visit {s : σ} {b : β} {t : Table κ α} {v : σ × Option β × Table κ α}
    (h : t.visit addr body s b = some v) (hnd : (t.addrs addr).Nodup) :
    visitsLeft (some b) (t.addrs addr) = visitsLeft v.2.1 (t.addrs addr) + 1 := by
  obtain ⟨⟨e, next⟩, hfound, rfl⟩ := Option.map_eq_some_iff.mp h
  exact visitsLeft_elementAt hfound hnd

/-- A change of the state that commutes with the body at the elements of the table commutes with
a visit. -/
theorem visit_map {τ : Type*} {g : σ → τ} {body' : κ → τ → α → τ × α} {t : Table κ α}
    (hbody : ∀ k s a, t.lookup k = some a → body' k (g s) a = (body k s a).map g id) (s : σ)
    (b : β) : t.visit addr body' (g s) b = (t.visit addr body s b).map fun v => (g v.1, v.2) := by
  rw [visit, visit, Option.map_map]
  refine Option.map_congr fun found hfound => ?_
  have hl : t.lookup found.1.1 = some found.1.2 :=
    AList.mem_lookup_iff.mpr (elementAt_eq_some hfound).1
  simp only [Function.comp_apply, hbody _ s _ hl, Prod.map_fst, Prod.map_snd, id_eq]

/-- A visit depends on what the body does to the elements of the table. -/
theorem visit_congr {body' : κ → σ → α → σ × α} {t : Table κ α}
    (hbody : ∀ k s a, t.lookup k = some a → body' k s a = body k s a) {s : σ} {b : β} :
    t.visit addr body' s b = t.visit addr body s b :=
  (visit_map (g := id) hbody s b).trans Option.map_id'

/-- Rewriting the element in the middle. -/
theorem entries_adjust_middle {t : Table κ α} {pre es : List (Σ _ : κ, α)} {k : κ} {a : α}
    (f : α → α) (h : t.entries = pre ++ ⟨k, a⟩ :: es) :
    (t.adjust k f).entries = pre ++ ⟨k, f a⟩ :: es := by
  have hnd := t.nodupKeys
  rw [h, List.nodupKeys_middle, List.nodupKeys_cons, List.keys_append, List.mem_append,
    not_or] at hnd
  have hkeep : ∀ l : List (Σ _ : κ, α), k ∉ l.keys →
      l.map (.map id fun k' a => if k' = k then f a else a) = l := by
    intro l hl
    refine (List.map_congr_left fun e he => ?_).trans (List.map_id l)
    have hne : e.1 ≠ k := fun heq => hl (heq ▸ List.mem_keys_of_mem he)
    simp [Sigma.map, hne]
  simp only [adjust, entries_mapValues, h, List.map_append, List.map_cons, hkeep pre hnd.1.1,
    hkeep es hnd.1.2]
  simp [Sigma.map]

/-- From any point on, uninterrupted visits are the rest of the loop. -/
theorem visits_from (hbody : ∀ k s a, addr (body k s a).2 = addr a) {post : List (Σ _ : κ, α)}
    {pre : List (Σ _ : κ, α)} {s : σ} {t : Table κ α} (ht : t.entries = pre ++ post)
    (hnd : (t.addrs addr).Nodup) :
    ∃ t', t'.entries = pre ++ (threadEntries body s post).2 ∧
      Relation.ReflTransGen (Visits addr body) (s, first addr post, t)
        ((threadEntries body s post).1, none, t') := by
  induction post generalizing pre s t with
  | nil => exact ⟨t, ht, .refl⟩
  | cons e post ih =>
      obtain ⟨k, a⟩ := e
      have hnotin : addr a ∉ pre.map fun e => addr e.2 := by
        rw [addrs, ht, List.map_append, List.nodup_append] at hnd
        exact fun hmem => hnd.2.2 _ hmem _ (List.mem_cons_self ..) rfl
      have hvisit : t.visit addr body s (addr a) = some ((body k s a).1, first addr post,
          t.adjust k fun _ => (body k s a).2) := by
        rw [visit, ht, elementAt_middle (e := ⟨k, a⟩) hnotin]
        rfl
      have hentries := entries_adjust_middle (fun _ => (body k s a).2) ht
      have haddrs : (t.adjust k fun _ => (body k s a).2).addrs addr = t.addrs addr := by
        rw [addrs, hentries, addrs, ht]
        simp [hbody]
      have hpast : (t.adjust k fun _ => (body k s a).2).entries =
          (pre ++ [⟨k, (body k s a).2⟩]) ++ post := by
        rw [hentries, List.append_assoc, List.singleton_append]
      obtain ⟨t', ht', hsteps⟩ := ih hpast (haddrs ▸ hnd)
      refine ⟨t', ?_, .head (.visit hvisit) hsteps⟩
      rw [ht', threadEntries]
      simp

/-- **Uninterrupted visits are the loop.** -/
theorem visits_thread (hbody : ∀ k s a, addr (body k s a).2 = addr a) (s : σ) (t : Table κ α)
    (hnd : (t.addrs addr).Nodup) :
    Relation.ReflTransGen (Visits addr body) (s, first addr t.entries, t)
      ((thread body s t).1, none, (thread body s t).2) := by
  obtain ⟨t', ht', hsteps⟩ := visits_from hbody (List.nil_append t.entries).symm hnd
  have heq : t' = (thread body s t).2 := AList.ext ht'
  rw [← heq]
  exact hsteps

end Table
