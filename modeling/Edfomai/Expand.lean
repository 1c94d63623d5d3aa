import Edfomai.Buckets
import Mathlib.Algebra.BigOperators.Group.List.Basic

/-!
# Edfomai.Expand

`HASH_EXPAND_BUCKETS`: every item is moved from its old bucket to its new one, one after
the other, and on the way the macro counts the items that lie too deep in theirs.

`Rehashing` is the state of the two loops after some items have been moved. One item is
`rehashItem_spec`, one old bucket `rehashBucket_spec`, the array of old buckets
`rehash_spec`. Unmoved items still have their old links, which is what the walk over the old
buckets depends on.
-/

namespace Edfomai

open UtHash

variable {P : Type}

/-- The last count at which the macro has set `expand_mult`. -/
def expandMultOf (idealChainMaxlen count : Nat) : Nat :=
  if count > idealChainMaxlen then count / idealChainMaxlen else 0

/-- The items of some buckets that lie deeper than the ideal length. -/
def nonidealOf (idealChainMaxlen : Nat) (bs : List (UtHashBucket P)) : Nat :=
  (bs.map fun b => b.count - idealChainMaxlen).sum

theorem nonidealOf_set (ideal : Nat) {bs : List (UtHashBucket P)} {i : Nat} {b : UtHashBucket P}
    (b' : UtHashBucket P)
    (hb : bs[i]? = some b) : nonidealOf ideal (bs.set i b') + (b.count - ideal) =
      nonidealOf ideal bs + (b'.count - ideal) := by
  induction bs generalizing i with
  | nil => simp at hb
  | cons c bs ih =>
      cases i with
      | zero =>
          obtain rfl : c = b := by simpa using hb
          simp only [List.set_cons_zero, nonidealOf, List.map_cons, List.sum_cons]
          omega
      | succ i =>
          have := ih (by simpa using hb)
          simp only [List.set_cons_succ, nonidealOf, List.map_cons, List.sum_cons] at this ⊢
          omega

/-- The ideal length is what the comment of the macro says: the number of items over the
doubled number of buckets, rounded up. -/
theorem idealChainMaxlen_eq {t : UtHashTable P} (hlog : t.numBuckets = 2 ^ t.log2NumBuckets) :
    idealChainMaxlen t = (t.numItems + (t.numBuckets * 2 - 1)) / (t.numBuckets * 2) := by
  have hdouble : t.numBuckets * 2 = 2 ^ (t.log2NumBuckets + 1) := by rw [hlog, pow_succ]
  rw [idealChainMaxlen, Nat.shiftRight_eq_div_pow, hdouble, Nat.and_two_pow_sub_one_eq_mod]
  have hq : 0 < 2 ^ (t.log2NumBuckets + 1) := Nat.two_pow_pos _
  generalize 2 ^ (t.log2NumBuckets + 1) = q at hq
  have hdiv := Nat.div_add_mod t.numItems q
  have hmod := Nat.mod_lt t.numItems hq
  refine (Nat.div_eq_of_lt_le ?_ ?_).symm
  · split
    · rw [Nat.add_mul, Nat.mul_comm]
      omega
    · rw [Nat.add_zero, Nat.mul_comm]
      omega
  · split
    · rw [Nat.add_mul, Nat.add_mul, Nat.mul_comm]
      omega
    · rw [Nat.add_mul, Nat.add_zero, Nat.mul_comm]
      omega

/-- The items of the first `i` buckets. -/
def itemsBelow (hashv : P → UInt32) (n : Nat) (items : List P) (i : Nat) : List P :=
  items.filter fun p => hashToBkt (hashv p) n < i

theorem itemsBelow_succ (hashv : P → UInt32) (n : Nat) (items : List P) (i : Nat) :
    (itemsBelow hashv n items i ++ itemsOf hashv n items i).Perm
      (itemsBelow hashv n items (i + 1)) := by
  induction items with
  | nil => exact .refl _
  | cons p items ih =>
      simp only [itemsBelow, itemsOf] at ih ⊢
      rcases Nat.lt_trichotomy (hashToBkt (hashv p) n) i with h | h | h
      · simp only [List.filter_cons, h, Nat.ne_of_lt h, Nat.lt_succ_of_lt h, decide_true,
          decide_false, if_true, Bool.false_eq_true, if_false]
        exact ih.cons p
      · simp only [List.filter_cons, h, Nat.lt_irrefl, Nat.lt_succ_self, decide_true,
          decide_false, if_true, Bool.false_eq_true, if_false]
        exact List.perm_middle.trans (ih.cons p)
      · simp only [List.filter_cons, Nat.ne_of_gt h, Nat.not_lt_of_gt h,
          Nat.not_lt_of_ge (Nat.succ_le_of_lt h), decide_false, Bool.false_eq_true, if_false]
        exact ih

/-- Every item is in one of the buckets. -/
theorem itemsBelow_all {hashv : P → UInt32} {t : UtHashTable P} {items : List P}
    (hlen : t.buckets.length = t.numBuckets) (hlog : t.numBuckets = 2 ^ t.log2NumBuckets) :
    itemsBelow hashv t.buckets.length items t.buckets.length = items := by
  refine List.filter_eq_self.mpr fun p _ => decide_eq_true ?_
  rw [hlen, hlog]
  exact hashToBkt_lt _ _

/-- The loops have moved the items `done`; `m₀` are the links before. -/
structure Rehashing (hashv : P → UInt32) (m₀ : LinkHeap UtHashField P) (n ideal : Nat)
    (done : List P) (e : Rehash P) : Prop where
  length : e.newBuckets.length = n
  hold : BucketsHold hashv e.links e.newBuckets done
  frame : m₀.Frame bktOrder done e.links
  expandMult : ∀ b ∈ e.newBuckets, b.expandMult = expandMultOf ideal b.count
  nonideal : e.nonidealItems = nonidealOf ideal e.newBuckets

variable [DecidableEq P] {hashv : P → UInt32} {m₀ : LinkHeap UtHashField P} {n k ideal : Nat}
  {done xs items : List P} {e : Rehash P} {p : P}

/-- One item. -/
theorem rehashItem_spec (h : Rehashing hashv m₀ (2 ^ k) ideal done e) (hideal : 0 < ideal)
    (hp : m₀.live p) (hnew : p ∉ done) :
    ∃ e', rehashItem hashv (2 ^ k) ideal p e = some e' ∧
      Rehashing hashv m₀ (2 ^ k) ideal (done ++ [p]) e' := by
  obtain ⟨i, hi⟩ : ∃ i, hashToBkt (hashv p) (2 ^ k) = i := ⟨_, rfl⟩
  have hlt : i < e.newBuckets.length := by
    rw [h.length, ← hi]
    exact hashToBkt_lt _ k
  obtain ⟨b, hb⟩ : ∃ b, e.newBuckets[i]? = some b := ⟨_, List.getElem?_eq_getElem hlt⟩
  have hmult := h.expandMult b (List.mem_of_getElem? hb)
  have hnonideal := h.nonideal
  obtain ⟨c, hc⟩ : ∃ c : UtHashBucket P,
      c = ⟨some p, b.count + 1, expandMultOf ideal (b.count + 1)⟩ := ⟨_, rfl⟩
  obtain ⟨m', hm', hold, hframe⟩ := h.hold.pushFront (by rw [h.frame.live]; exact hp) hnew
    (by rw [h.length, hi]) hb (expandMultOf ideal (b.count + 1))
  rw [← hc] at hold
  have hsum := nonidealOf_set ideal c hb
  refine ⟨⟨m', e.newBuckets.set i c, nonidealOf ideal (e.newBuckets.set i c)⟩, ?_, ?_⟩
  · by_cases hdeep : b.count + 1 > ideal
    · have hone : nonidealOf ideal (e.newBuckets.set i c) = e.nonidealItems + 1 := by
        simp only [hc] at hsum ⊢
        omega
      have hm : c = ⟨some p, b.count + 1, (b.count + 1) / ideal⟩ := by
        rw [hc, expandMultOf, if_pos hdeep]
      rw [hone, hm]
      simp only [rehashItem, hi, hb, hm', Option.bind_eq_bind, Option.bind_some, if_pos hdeep,
        if_neg (Nat.ne_of_gt hideal)]
    · have hsame : nonidealOf ideal (e.newBuckets.set i c) = e.nonidealItems := by
        simp only [hc] at hsum ⊢
        omega
      have hm : c = ⟨some p, b.count + 1, b.expandMult⟩ := by
        rw [hc, hmult, expandMultOf, if_neg hdeep, expandMultOf, if_neg (by omega)]
      rw [hsame, hm]
      simp only [rehashItem, hi, hb, hm', Option.bind_eq_bind, Option.bind_some, if_neg hdeep]
  · refine ⟨by simpa using h.length, hold, ?_, ?_, rfl⟩
    · exact (h.frame.mono (by simp)).trans (hframe.mono (by simp))
    · intro d hd
      rcases List.mem_or_eq_of_mem_set hd with hd | rfl
      · exact h.expandMult d hd
      · rw [hc]

/-- One old bucket. -/
theorem rehashBucket_spec {b : Option P} {fuel : Nat} (hideal : 0 < ideal)
    (h : Rehashing hashv m₀ (2 ^ k) ideal done e) (hxs : m₀.Seg bktOrder b xs none)
    (hdisj : ∀ p ∈ xs, p ∉ done) (hfuel : xs.length ≤ fuel) :
    ∃ e', LinkHeap.forEach bktOrder Rehash.links (rehashItem hashv (2 ^ k) ideal) fuel xs.head? e =
        some e' ∧ Rehashing hashv m₀ (2 ^ k) ideal (done ++ xs) e' := by
  -- what is left to visit is the rest of the old bucket, and its links are the old ones
  let I : List P → Rehash P → Prop := fun rest e =>
    ∃ moved, moved ++ rest = xs ∧ Rehashing hashv m₀ (2 ^ k) ideal (done ++ moved) e
  have hI : ∀ {moved rest : List P} {p : P}, moved ++ p :: rest = xs →
      m₀.live p ∧ m₀.field .hhNext p = rest.head? ∧ p ∉ done ++ moved := by
    intro moved rest p heq
    subst heq
    obtain ⟨-, hlive, -, hnext, -⟩ := LinkHeap.seg_append.mp hxs
    refine ⟨hlive, hnext.trans (Option.or_none ..), fun hmem => ?_⟩
    rcases List.mem_append.mp hmem with hmem | hmem
    · exact hdisj p (by simp) hmem
    · exact (List.nodup_append.mp hxs.nodup).2.2 p hmem p (by simp) rfl
  obtain ⟨e', he', moved, hmoved, hdone⟩ := LinkHeap.forEach_rule (s := e)
    (n := fuel) bktOrder Rehash.links (rehashItem hashv (2 ^ k) ideal) I
    (fun p rest e ⟨moved, heq, hre⟩ => by
      obtain ⟨hlive, hnext, hnotin⟩ := hI heq
      have hfield : e.links.field .hhNext p = m₀.field .hhNext p :=
        hre.frame.field _ p (Or.inr hnotin)
      rw [LinkHeap.load_of_live (by rw [hre.frame.live]; exact hlive)]
      exact congrArg some (hfield.trans hnext))
    (fun p rest e ⟨moved, heq, hre⟩ => by
      obtain ⟨hlive, -, hnotin⟩ := hI heq
      obtain ⟨e', he', hre'⟩ := rehashItem_spec hre hideal hlive hnotin
      exact ⟨e', he', moved ++ [p], by simpa using heq, by simpa using hre'⟩)
    ⟨[], rfl, by simpa using h⟩ hfuel
  obtain rfl : moved = xs := by simpa using hmoved
  exact ⟨e', he', hdone⟩

/-- The array of old buckets. -/
theorem rehash_spec {t : UtHashTable P} (ht : t.Holds hashv m₀ items) (hideal : 0 < ideal) :
    ∃ e', rehash hashv ideal t ⟨m₀, List.replicate (2 * t.numBuckets) UtHashBucket.zero, 0⟩ =
        some e' ∧ ∃ moved, moved.Perm items ∧
          Rehashing hashv m₀ (2 ^ (t.log2NumBuckets + 1)) ideal moved e' := by
  have hdouble : t.numBuckets * 2 = 2 ^ (t.log2NumBuckets + 1) := by
    rw [ht.log2, pow_succ]
  let body := fun (e : Rehash P) (i : Nat) => (t.buckets[i]?).bind fun b =>
    LinkHeap.forEach bktOrder Rehash.links (rehashItem hashv (t.numBuckets * 2) ideal) t.numItems
      b.hhHead e
  have hloop : ∀ i ≤ t.numBuckets, ∃ e', (List.range i).foldlM body
      ⟨m₀, List.replicate (2 * t.numBuckets) UtHashBucket.zero, 0⟩ = some e' ∧
        ∃ moved, moved.Perm (itemsBelow hashv t.buckets.length items i) ∧
          Rehashing hashv m₀ (2 ^ (t.log2NumBuckets + 1)) ideal moved e' := by
    intro i
    induction i with
    | zero =>
        refine fun _ => ⟨_, rfl, [], by simp [itemsBelow], ?_⟩
        refine ⟨by simp [Nat.mul_comm 2, hdouble], .replicate_zero _ _ _, .refl _ _ _, ?_, ?_⟩
        · intro b hb
          obtain rfl := (List.mem_replicate.mp hb).2
          simp [UtHashBucket.zero, expandMultOf]
        · simp [nonidealOf, UtHashBucket.zero]
    | succ i ih =>
        intro hi
        obtain ⟨e, he, moved, hmoved, hre⟩ := ih (Nat.le_of_succ_le hi)
        have hib : i < t.buckets.length := ht.length ▸ hi
        obtain ⟨xs, hxs, hperm⟩ := ht.hold i _ (List.getElem?_eq_getElem hib)
        have hdisj : ∀ p ∈ xs, p ∉ moved := by
          intro p hp hmem
          have hlt := (List.mem_filter.mp (hmoved.mem_iff.mp hmem)).2
          have heq := (BucketsHold.mem_items hperm hp).2
          simp [heq] at hlt
        have hfuel : xs.length ≤ t.numItems := by
          rw [hperm.length_eq, ht.numItems]
          exact List.length_filter_le ..
        obtain ⟨e', he', hre'⟩ := rehashBucket_spec hideal hre hxs.seg hdisj hfuel
        refine ⟨e', ?_, moved ++ xs, (hmoved.append hperm).trans (itemsBelow_succ ..), hre'⟩
        rw [List.range_succ, List.foldlM_append, he]
        simp [body, hib, hdouble, hxs.hhHead, he']
  obtain ⟨e', he', moved, hmoved, hre⟩ := hloop t.numBuckets (Nat.le_refl _)
  refine ⟨e', he', moved, ?_, hre⟩
  rwa [← ht.length, itemsBelow_all ht.length ht.log2] at hmoved

/-! ### The expansion -/

omit [DecidableEq P] in
/-- The ideal length is never zero, so nothing is divided by zero. -/
theorem idealChainMaxlen_pos {t : UtHashTable P} {m : LinkHeap UtHashField P}
    (h : t.Holds hashv m items) (hne : items ≠ []) : 0 < idealChainMaxlen t := by
  have hpos : 0 < t.numItems := h.numItems ▸ List.length_pos_iff.mpr hne
  have hq : 0 < t.numBuckets * 2 := by
    have := Nat.two_pow_pos t.log2NumBuckets
    have := h.log2
    omega
  rw [idealChainMaxlen_eq h.log2]
  exact Nat.div_pos (by omega) hq

/-- **Expansion.** It never runs off a list, indexes outside an array or divides by zero; the
new buckets hold the same items, and nothing but the links inside the buckets has changed. -/
theorem hashExpandBuckets_spec {t : UtHashTable P} {s : UtHash P}
    (h : t.Holds s.hashv s.links items) (hne : items ≠ []) :
    ∃ e, hashExpandBuckets true t s = some { s with links := e.links, tbl := some (expanded t e) } ∧
      (expanded t e).Holds s.hashv e.links items ∧ s.links.Frame bktOrder items e.links ∧
      (∀ b ∈ e.newBuckets, b.expandMult = expandMultOf (idealChainMaxlen t) b.count) ∧
      e.nonidealItems = nonidealOf (idealChainMaxlen t) e.newBuckets := by
  have hideal := idealChainMaxlen_pos h hne
  obtain ⟨e, he, moved, hperm, hre⟩ := rehash_spec h hideal
  refine ⟨e, by simp [hashExpandBuckets, he], ⟨h.numItems, ?_, ?_, hre.hold.perm hperm⟩,
    hre.frame.mono hperm.subset, hre.expandMult, hre.nonideal⟩
  · rw [expanded, hre.length, h.log2, pow_succ]
  · rw [expanded, h.log2, pow_succ]

end Edfomai
