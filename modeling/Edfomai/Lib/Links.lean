import Mathlib.Data.List.Nodup
import Mathlib.Logic.Function.Basic

/-!
# Edfomai.Lib.Links

**Intrusive doubly linked lists.** A node has several pointer fields, so that it can be
in several lists at once; an `Order` names the two fields of one of them. Loads and
stores fail on a node that is not allocated, so a result of one of the operations below
is also a statement about memory.

`Seg` says that some nodes are linked in a given order. The operations (`pushFront`,
`pushBack`, `unlink`) and the two loops (`search`, `forEach`) each have one lemma that
says what they do to the listed nodes; `Frame` says what they leave alone, and the
lemmas `Seg.frame` and `Seg.frame_disjoint` turn that into lists that are still there.
-/

universe u w

/-- Two pointer fields that link nodes into a list. -/
structure Order (φ : Type u) where
  prev : φ
  next : φ
  ne : prev ≠ next

/-- The pointer fields of the nodes at the addresses `P`, and which of these are
allocated. -/
structure LinkHeap (φ P : Type u) where
  live : P → Bool
  field : φ → P → Option P

namespace LinkHeap

variable {φ P : Type u}

/-- Read a field. -/
def load (f : φ) (x : P) (m : LinkHeap φ P) : Option (Option P) :=
  if m.live x then some (m.field f x) else none

theorem load_of_live {m : LinkHeap φ P} {f : φ} {x : P} (h : m.live x) :
    m.load f x = some (m.field f x) := if_pos h

/-! ### Linked nodes -/

variable {m m' : LinkHeap φ P} {o o' : Order φ} {b e : Option P} {xs ys : List P}

/-- The nodes `xs` are allocated and linked in this order; `b` comes before the first of
them and `e` after the last. -/
def Seg (m : LinkHeap φ P) (o : Order φ) : Option P → List P → Option P → Prop
  | _, [], _ => True
  | b, x :: xs, e =>
      m.live x ∧ m.field o.prev x = b ∧ m.field o.next x = xs.head?.or e ∧
        m.Seg o (some x) xs e

theorem Seg.live (h : m.Seg o b xs e) : ∀ x ∈ xs, m.live x := by
  induction xs generalizing b with
  | nil => exact fun x hx => absurd hx List.not_mem_nil
  | cons y xs ih =>
      intro x hx
      rcases List.mem_cons.mp hx with rfl | hx
      · exact h.1
      · exact ih h.2.2.2 x hx

/-- Lists are taken apart where one wishes. -/
theorem seg_append : m.Seg o b (xs ++ ys) e ↔
    m.Seg o b xs (ys.head?.or e) ∧ m.Seg o (xs.getLast?.or b) ys e := by
  induction xs generalizing b with
  | nil => simp [Seg]
  | cons x xs ih =>
      have hhead : (xs ++ ys).head?.or e = xs.head?.or (ys.head?.or e) := by
        cases xs <;> rfl
      have hlast : (x :: xs).getLast?.or b = xs.getLast?.or (some x) := by
        rw [List.getLast?_cons]
        cases xs.getLast? <;> rfl
      simp only [List.cons_append, Seg, ih, hhead, hlast, and_assoc]

/-- Only the fields of the listed nodes matter. -/
theorem Seg.congr (h : m.Seg o b xs e) (hx : ∀ x ∈ xs, m'.live x = m.live x ∧
    m'.field o.prev x = m.field o.prev x ∧ m'.field o.next x = m.field o.next x) :
    m'.Seg o b xs e := by
  induction xs generalizing b with
  | nil => trivial
  | cons x xs ih =>
      obtain ⟨hlive, hprev, hnext⟩ := hx x (List.mem_cons_self ..)
      refine ⟨hlive ▸ h.1, hprev.trans h.2.1, hnext.trans h.2.2.1, ih h.2.2.2 ?_⟩
      exact fun y hy => hx y (List.mem_cons_of_mem _ hy)

/-- The list that begins at a node is determined by the links. -/
theorem Seg.unique {b' : Option P} (h : m.Seg o b xs none) (h' : m.Seg o b' ys none)
    (hhead : xs.head? = ys.head?) : xs = ys := by
  induction xs generalizing b b' ys with
  | nil => exact (List.head?_eq_none_iff.mp hhead.symm).symm
  | cons x xs ih =>
      cases ys with
      | nil => cases hhead
      | cons y ys =>
          obtain rfl : x = y := Option.some.inj hhead
          have hnext : xs.head? = ys.head? := by
            simpa using h.2.2.1.symm.trans h'.2.2.1
          rw [ih h.2.2.2 h'.2.2.2 hnext]

/-- A list that ends has no node twice. -/
theorem Seg.nodup (h : m.Seg o b xs none) : xs.Nodup := by
  induction xs generalizing b with
  | nil => exact List.nodup_nil
  | cons x xs ih =>
      refine List.nodup_cons.mpr ⟨fun hmem => ?_, ih h.2.2.2⟩
      obtain ⟨l, l', hxs⟩ := List.append_of_mem hmem
      have hrest : m.Seg o (l.getLast?.or (some x)) (x :: l') none := by
        have := h.2.2.2
        rw [hxs] at this
        exact (seg_append.mp this).2
      have hlen : xs.length = l'.length := by rw [(List.cons.inj (h.unique hrest rfl)).2]
      have : xs.length = l.length + (l'.length + 1) := by rw [hxs]; simp
      omega

/-- Between the two heaps at most the fields of one order have changed, and only at the
given nodes. -/
structure Frame (o : Order φ) (xs : List P) (m m' : LinkHeap φ P) : Prop where
  live : m'.live = m.live
  field : ∀ f x, (f ≠ o.prev ∧ f ≠ o.next) ∨ x ∉ xs → m'.field f x = m.field f x

theorem Frame.refl (o : Order φ) (xs : List P) (m : LinkHeap φ P) : Frame o xs m m :=
  ⟨rfl, fun _ _ _ => rfl⟩

theorem Frame.trans {m'' : LinkHeap φ P} (h : Frame o xs m m') (h' : Frame o xs m' m'') :
    Frame o xs m m'' :=
  ⟨h'.live.trans h.live, fun f x hx => (h'.field f x hx).trans (h.field f x hx)⟩

theorem Frame.mono (h : Frame o xs m m') (hsub : xs ⊆ ys) : Frame o ys m m' :=
  ⟨h.live, fun f x hx => h.field f x (hx.imp_right fun hy hmem => hy (hsub hmem))⟩

/-- A list of another order is still there. -/
theorem Seg.frame (h : m.Seg o' b ys e) (hf : Frame o xs m m')
    (hprev : o'.prev ≠ o.prev ∧ o'.prev ≠ o.next) (hnext : o'.next ≠ o.prev ∧ o'.next ≠ o.next) :
    m'.Seg o' b ys e :=
  h.congr fun x _ => ⟨by rw [hf.live], hf.field _ x (Or.inl hprev), hf.field _ x (Or.inl hnext)⟩

/-- A list of other nodes is still there. -/
theorem Seg.frame_disjoint (h : m.Seg o b ys e) (hf : Frame o xs m m')
    (hdisj : ∀ y ∈ ys, y ∉ xs) : m'.Seg o b ys e :=
  h.congr fun y hy =>
    ⟨by rw [hf.live], hf.field _ y (Or.inr (hdisj y hy)), hf.field _ y (Or.inr (hdisj y hy))⟩

/-! ### Stores -/

section Stores

variable [DecidableEq φ] [DecidableEq P]

/-- The heap with one field changed. -/
def put (f : φ) (x : P) (v : Option P) (m : LinkHeap φ P) : LinkHeap φ P :=
  { m with field := Function.update m.field f (Function.update (m.field f) x v) }

/-- Write a field. -/
def store (f : φ) (x : P) (v : Option P) (m : LinkHeap φ P) : Option (LinkHeap φ P) :=
  if m.live x then some (m.put f x v) else none

/-- Allocate a node. Its fields hold what was there before. -/
def alloc (x : P) (m : LinkHeap φ P) : LinkHeap φ P :=
  { m with live := Function.update m.live x true }

/-- Free a node. -/
def free (x : P) (m : LinkHeap φ P) : LinkHeap φ P :=
  { m with live := Function.update m.live x false }

variable {f g : φ} {x y : P} {v : Option P}

theorem store_of_live (h : m.live x) : m.store f x v = some (m.put f x v) := if_pos h

@[simp] theorem put_live : (m.put f x v).live = m.live := rfl

@[simp] theorem put_field_self : (m.put f x v).field f x = v := by simp [put]

theorem put_field_of_ne (h : g ≠ f ∨ y ≠ x) : (m.put f x v).field g y = m.field g y := by
  rcases eq_or_ne g f with rfl | hg
  · simp [put, h.resolve_left (· rfl)]
  · simp [put, hg]

theorem frame_put (hf : f = o.prev ∨ f = o.next) (hx : x ∈ xs) : Frame o xs m (m.put f x v) := by
  refine ⟨rfl, fun g y hy => put_field_of_ne ?_⟩
  rcases hy with ⟨hp, hn⟩ | hy
  · rcases hf with rfl | rfl
    · exact Or.inl hp
    · exact Or.inl hn
  · exact Or.inr fun hyx => hy (hyx ▸ hx)

/-- Another node is put before the first one. -/
theorem Seg.put_prev (h : m.Seg o b (y :: ys) e) (hy : y ∉ ys) :
    (m.put o.prev y v).Seg o v (y :: ys) e := by
  have hframe : Frame o [y] m (m.put o.prev y v) :=
    frame_put (Or.inl rfl) (List.mem_singleton_self y)
  refine ⟨h.1, put_field_self, ?_, h.2.2.2.frame_disjoint hframe fun z hz hzy => ?_⟩
  · rw [put_field_of_ne (Or.inl o.ne.symm), h.2.2.1]
  · exact hy (List.mem_singleton.mp hzy ▸ hz)

/-- Another node is put after the last one. -/
theorem Seg.put_next (h : m.Seg o b (xs ++ [x]) e) (hx : x ∉ xs) :
    (m.put o.next x v).Seg o b (xs ++ [x]) v := by
  have hframe : Frame o [x] m (m.put o.next x v) :=
    frame_put (Or.inr rfl) (List.mem_singleton_self x)
  obtain ⟨hxs, hlive, hprev, -, -⟩ := seg_append.mp h
  refine seg_append.mpr ⟨hxs.frame_disjoint hframe fun z hz hzx => ?_, hlive, ?_, ?_, trivial⟩
  · exact hx (List.mem_singleton.mp hzx ▸ hz)
  · rw [put_field_of_ne (Or.inl o.ne), hprev]
  · simp

/-! ### Changing a list -/

/-- Link `x` in front of the list that begins at `head`. -/
def pushFront (o : Order φ) (head : Option P) (x : P) (m : LinkHeap φ P) :
    Option (LinkHeap φ P) := do
  let m ← m.store o.next x head
  let m ← m.store o.prev x none
  match head with
  | some h => m.store o.prev h (some x)
  | none => some m

/-- Link `x` after the last node of a list. -/
def pushBack (o : Order φ) (tail : P) (x : P) (m : LinkHeap φ P) : Option (LinkHeap φ P) := do
  let m ← m.store o.next x none
  let m ← m.store o.next tail (some x)
  m.store o.prev x (some tail)

/-- Let the node before `x` pass it over. -/
def skipNext (o : Order φ) (x : P) (m : LinkHeap φ P) : Option (LinkHeap φ P) := do
  match ← m.load o.prev x with
  | some p => m.store o.next p (← m.load o.next x)
  | none => some m

/-- Let the node after `x` pass it over. -/
def skipPrev (o : Order φ) (x : P) (m : LinkHeap φ P) : Option (LinkHeap φ P) := do
  match ← m.load o.next x with
  | some n => m.store o.prev n (← m.load o.prev x)
  | none => some m

/-- Link the neighbours of `x` to each other. -/
def unlink (o : Order φ) (x : P) (m : LinkHeap φ P) : Option (LinkHeap φ P) := do
  (← m.skipNext o x).skipPrev o x

/-- **In front.** The new node begins the list. -/
theorem pushFront_seg (h : m.Seg o none xs none) (hx : m.live x) (hnew : x ∉ xs) :
    ∃ m', m.pushFront o xs.head? x = some m' ∧ m'.Seg o none (x :: xs) none ∧
      Frame o (x :: xs) m m' := by
  let m₂ := (m.put o.next x xs.head?).put o.prev x none
  have hframe : Frame o [x] m m₂ :=
    (frame_put (Or.inr rfl) (List.mem_singleton_self x)).trans
      (frame_put (Or.inl rfl) (List.mem_singleton_self x))
  have hxs : m₂.Seg o none xs none := h.frame_disjoint hframe fun y hy hyx =>
    hnew (List.mem_singleton.mp hyx ▸ hy)
  have hprev : m₂.field o.prev x = none := put_field_self
  have hnext : m₂.field o.next x = xs.head? :=
    (put_field_of_ne (Or.inl o.ne.symm)).trans put_field_self
  cases xs with
  | nil =>
      refine ⟨m₂, ?_, ⟨hx, hprev, by simpa using hnext, trivial⟩, hframe.mono (by simp)⟩
      simp [pushFront, store_of_live, hx, m₂]
  | cons y ys =>
      have hy : m.live y := h.1
      have hxy : x ≠ y := fun hxy => hnew (hxy ▸ List.mem_cons_self ..)
      have hframe' : Frame o [y] m₂ (m₂.put o.prev y (some x)) :=
        frame_put (Or.inl rfl) (List.mem_singleton_self y)
      have hseg := hxs.put_prev (v := some x) (List.nodup_cons.mp hxs.nodup).1
      refine ⟨m₂.put o.prev y (some x), ?_, ⟨hx, ?_, ?_, hseg⟩, ?_⟩
      · simp [pushFront, store_of_live, hx, hy, m₂]
      · rw [put_field_of_ne (Or.inr hxy), hprev]
      · rw [put_field_of_ne (Or.inl o.ne.symm), hnext]
        rfl
      · exact (hframe.mono (by simp)).trans (hframe'.mono (by simp))

/-- **At the end.** The new node ends the list. -/
theorem pushBack_seg {t : P} (h : m.Seg o none (xs ++ [t]) none) (hx : m.live x)
    (hnew : x ∉ xs ++ [t]) :
    ∃ m', m.pushBack o t x = some m' ∧ m'.Seg o none (xs ++ [t] ++ [x]) none ∧
      Frame o (xs ++ [t] ++ [x]) m m' := by
  have ht : m.live t := h.live t (by simp)
  have hxt : x ≠ t := fun hxt => hnew (hxt ▸ by simp)
  let m₁ := m.put o.next x none
  let m₂ := m₁.put o.next t (some x)
  let m₃ := m₂.put o.prev x (some t)
  have hf₁ : Frame o [x] m m₁ := frame_put (Or.inr rfl) (List.mem_singleton_self x)
  have hf₂ : Frame o [t] m₁ m₂ := frame_put (Or.inr rfl) (List.mem_singleton_self t)
  have hf₃ : Frame o [x] m₂ m₃ := frame_put (Or.inl rfl) (List.mem_singleton_self x)
  have hother : ∀ y ∈ xs ++ [t], y ∉ [x] := fun y hy hyx =>
    hnew (List.mem_singleton.mp hyx ▸ hy)
  have hseg : m₃.Seg o none (xs ++ [t]) (some x) := by
    have h₁ := h.frame_disjoint hf₁ hother
    have hnotin : t ∉ xs := fun ht => (List.nodup_append.mp h.nodup).2.2 t ht t (by simp) rfl
    exact (h₁.put_next hnotin).frame_disjoint hf₃ hother
  refine ⟨m₃, ?_, seg_append.mpr ⟨by simpa using hseg, hx, ?_, ?_, trivial⟩, ?_⟩
  · simp [pushBack, store_of_live, hx, ht, m₁, m₂, m₃]
  · simp [m₃]
  · have hnext : m₃.field o.next x = m₁.field o.next x :=
      (put_field_of_ne (Or.inl o.ne.symm)).trans (put_field_of_ne (Or.inr hxt))
    rw [hnext]
    simp [m₁]
  · exact ((hf₁.mono (by simp)).trans (hf₂.mono (by simp))).trans (hf₃.mono (by simp))

theorem skipNext_seg (h : m.Seg o none xs (some x)) (hx : m.live x) (hnotin : x ∉ xs)
    (hnd : xs.Nodup) (hprev : m.field o.prev x = xs.getLast?) :
    ∃ m', m.skipNext o x = some m' ∧ m'.Seg o none xs (m.field o.next x) ∧ Frame o xs m m' := by
  rcases List.eq_nil_or_concat' xs with rfl | ⟨xs, p, rfl⟩
  · refine ⟨m, ?_, trivial, .refl o [] m⟩
    simp [skipNext, load_of_live hx, hprev]
  · have hp : m.live p := h.live p (by simp)
    have hpx : p ∉ xs := fun hp => (List.nodup_append.mp hnd).2.2 p hp p (by simp) rfl
    refine ⟨m.put o.next p (m.field o.next x), ?_, h.put_next hpx, frame_put (Or.inr rfl) (by simp)⟩
    simp [skipNext, load_of_live hx, hprev, store_of_live hp]

theorem skipPrev_seg (h : m.Seg o (some x) ys none) (hx : m.live x)
    (hnext : m.field o.next x = ys.head?) :
    ∃ m', m.skipPrev o x = some m' ∧ m'.Seg o (m.field o.prev x) ys none ∧ Frame o ys m m' := by
  cases ys with
  | nil =>
      refine ⟨m, ?_, trivial, .refl o [] m⟩
      simp [skipPrev, load_of_live hx, hnext]
  | cons n ys =>
      have hn : m.live n := h.1
      refine ⟨m.put o.prev n (m.field o.prev x), ?_, h.put_prev (List.nodup_cons.mp h.nodup).1,
        frame_put (Or.inl rfl) (by simp)⟩
      simp [skipPrev, load_of_live hx, hnext, store_of_live hn]

/-- **Out of the list.** The nodes before and after stay in their order. -/
theorem unlink_seg (h : m.Seg o none (xs ++ x :: ys) none) :
    ∃ m', m.unlink o x = some m' ∧ m'.Seg o none (xs ++ ys) none ∧
      Frame o (xs ++ ys) m m' := by
  have hnd := h.nodup
  obtain ⟨hxs, hx, hprev, hnext, hys⟩ := seg_append.mp h
  rw [Option.or_none] at hprev hnext
  have hxxs : x ∉ xs := fun hmem => (List.nodup_append.mp hnd).2.2 x hmem x (by simp) rfl
  have hdisj : ∀ y ∈ ys, y ∉ xs := fun y hy hmem =>
    (List.nodup_append.mp hnd).2.2 y hmem y (List.mem_cons_of_mem _ hy) rfl
  obtain ⟨m₁, hm₁, hseg₁, hf₁⟩ := skipNext_seg hxs hx hxxs (List.nodup_append.mp hnd).1 hprev
  have hkeep : ∀ f, m₁.field f x = m.field f x := fun f => hf₁.field f x (Or.inr hxxs)
  obtain ⟨m₂, hm₂, hseg₂, hf₂⟩ := skipPrev_seg (hys.frame_disjoint hf₁ hdisj)
    (by rw [hf₁.live]; exact hx) (by rw [hkeep, hnext])
  refine ⟨m₂, by simp [unlink, hm₁, hm₂], seg_append.mpr ⟨?_, ?_⟩, ?_⟩
  · have hseg := hseg₁.frame_disjoint hf₂ fun y hy hmem => hdisj y hmem hy
    simpa [hnext] using hseg
  · simpa [hkeep, hprev] using hseg₂
  · exact (hf₁.mono (by simp)).trans (hf₂.mono (by simp))

end Stores

/-! ### Loops -/

/-- `while (x) { if (test x) break; x = x->next; }`, for at most `n` rounds: where the loop
stops, or `none` when it does not stop in time. -/
def search (o : Order φ) (test : P → Bool) (m : LinkHeap φ P) : Nat → Option P → Option (Option P)
  | _, none => some none
  | 0, some _ => none
  | n + 1, some x => do
      let next ← m.load o.next x
      if test x then some (some x) else search o test m n next

/-- The loop stops at the first node that passes the test. -/
theorem search_seg (test : P → Bool) {n : Nat} (h : m.Seg o b xs none) (hn : xs.length ≤ n) :
    m.search o test n xs.head? = some (xs.find? test) := by
  induction xs generalizing b n with
  | nil => cases n <;> rfl
  | cons x xs ih =>
      obtain ⟨hx, -, hnext, hxs⟩ := h
      cases n with
      | zero => simp at hn
      | succ n =>
          have hrest := ih hxs (Nat.le_of_succ_le_succ hn)
          rw [Option.or_none] at hnext
          cases htest : test x <;> simp [search, load_of_live hx, htest, hnext, hrest]

/-- `while (x) { next = x->next; body; x = next; }`, for at most `n` rounds. The body may
change the links, of the node it is at too. -/
def forEach {σ : Type w} (o : Order φ) (links : σ → LinkHeap φ P) (body : P → σ → Option σ) :
    Nat → Option P → σ → Option σ
  | _, none, s => some s
  | 0, some _, _ => none
  | n + 1, some x, s =>
      ((links s).load o.next x).bind fun next => (body x s).bind (forEach o links body n next)

/-- **The loop rule.** `I xs s` says that the nodes `xs` are still to be visited in state
`s`: the first of them leads on to the second, and the body at the first leaves a state in
which the others are still to be visited. -/
theorem forEach_rule {σ : Type w} (o : Order φ) (links : σ → LinkHeap φ P)
    (body : P → σ → Option σ) (I : List P → σ → Prop)
    (hnext : ∀ x xs s, I (x :: xs) s → (links s).load o.next x = some xs.head?)
    (hbody : ∀ x xs s, I (x :: xs) s → ∃ s', body x s = some s' ∧ I xs s') {n : Nat} {s : σ}
    (hs : I xs s) (hn : xs.length ≤ n) :
    ∃ s', forEach o links body n xs.head? s = some s' ∧ I [] s' := by
  induction xs generalizing n s with
  | nil => exact ⟨s, by cases n <;> rfl, hs⟩
  | cons x xs ih =>
      cases n with
      | zero => simp at hn
      | succ n =>
          obtain ⟨s₁, hs₁, hI⟩ := hbody x xs s hs
          obtain ⟨s₂, hs₂, hdone⟩ := ih hI (Nat.le_of_succ_le_succ hn)
          refine ⟨s₂, ?_, hdone⟩
          show ((links s).load o.next x).bind _ = _
          rw [hnext x xs s hs, Option.bind_some, hs₁, Option.bind_some, hs₂]

end LinkHeap
