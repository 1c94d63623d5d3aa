import Edfomai.Uthash
import Mathlib.Data.List.Perm.Basic

/-!
# Edfomai.Buckets

What the array of buckets of a hash holds, and what the operations on it do.
-/

namespace Edfomai

variable {P : Type}

/-- A bucket index is an index. -/
theorem hashToBkt_lt (hashv : UInt32) (k : Nat) : hashToBkt hashv (2 ^ k) < 2 ^ k := by
  rw [hashToBkt, Nat.and_two_pow_sub_one_eq_mod]
  exact Nat.mod_lt _ (Nat.two_pow_pos k)

/-- The items that belong into the bucket with index `i` out of `n`. -/
def itemsOf (hashv : P → UInt32) (n : Nat) (items : List P) (i : Nat) : List P :=
  items.filter fun p => hashToBkt (hashv p) n = i

/-- A bucket holds the given items: it leads to them, and counts them. -/
structure UtHashBucket.Holds (b : UtHashBucket P) (m : LinkHeap UtHashField P) (xs : List P) :
    Prop where
  hhHead : b.hhHead = xs.head?
  count : b.count = xs.length
  seg : m.Seg bktOrder none xs none

/-- The buckets hold the given items, each in the bucket of its hash value. -/
def BucketsHold (hashv : P → UInt32) (m : LinkHeap UtHashField P) (bs : List (UtHashBucket P))
    (items : List P) : Prop :=
  ∀ (i : Nat) (b : UtHashBucket P), bs[i]? = some b →
    ∃ xs : List P, b.Holds m xs ∧ xs.Perm (itemsOf hashv bs.length items i)

/-- A table holds the given items: its buckets do, and its counters are right. -/
structure UtHashTable.Holds (t : UtHashTable P) (hashv : P → UInt32)
    (m : LinkHeap UtHashField P) (items : List P) : Prop where
  numItems : t.numItems = items.length
  length : t.buckets.length = t.numBuckets
  log2 : t.numBuckets = 2 ^ t.log2NumBuckets
  hold : BucketsHold hashv m t.buckets items

namespace BucketsHold

variable {hashv hashv' : P → UInt32} {m m' : LinkHeap UtHashField P} {bs : List (UtHashBucket P)}
  {items items' : List P} {p : P} {i : Nat} {b : UtHashBucket P}

/-- Empty buckets hold nothing. -/
theorem replicate_zero (hashv : P → UInt32) (m : LinkHeap UtHashField P) (n : Nat) :
    BucketsHold hashv m (List.replicate n UtHashBucket.zero) [] := by
  intro i b hb
  obtain rfl : b = UtHashBucket.zero := (List.mem_replicate.mp (List.mem_of_getElem? hb)).2
  exact ⟨[], ⟨rfl, rfl, trivial⟩, .refl _⟩

/-- The order of the items does not matter. -/
theorem perm (h : BucketsHold hashv m bs items) (hp : items.Perm items') :
    BucketsHold hashv m bs items' := by
  intro i b hb
  obtain ⟨xs, hxs, hperm⟩ := h i b hb
  exact ⟨xs, hxs, hperm.trans (hp.filter _)⟩

/-- Only the hash values of the items matter. -/
theorem congr_hashv (h : BucketsHold hashv m bs items) (hv : ∀ p ∈ items, hashv' p = hashv p) :
    BucketsHold hashv' m bs items := by
  intro i b hb
  obtain ⟨xs, hxs, hperm⟩ := h i b hb
  have heq : itemsOf hashv' bs.length items i = itemsOf hashv bs.length items i :=
    List.filter_congr fun p hp => by rw [hv p hp]
  exact ⟨xs, hxs, heq ▸ hperm⟩

theorem mem_items {xs : List P} (hperm : xs.Perm (itemsOf hashv bs.length items i)) {q : P}
    (hq : q ∈ xs) : q ∈ items ∧ hashToBkt (hashv q) bs.length = i := by
  simpa [itemsOf] using hperm.mem_iff.mp hq

/-- Changes elsewhere do not matter. -/
theorem congr_links (h : BucketsHold hashv m bs items) (hm : ∀ p ∈ items, m'.live p = m.live p ∧
    m'.field .hhPrev p = m.field .hhPrev p ∧ m'.field .hhNext p = m.field .hhNext p) :
    BucketsHold hashv m' bs items := by
  intro i b hb
  obtain ⟨xs, hxs, hperm⟩ := h i b hb
  refine ⟨xs, ⟨hxs.hhHead, hxs.count, hxs.seg.congr fun p hp => ?_⟩, hperm⟩
  exact hm p (mem_items hperm hp).1

variable [DecidableEq P]

/-- **Adding to a bucket.** -/
theorem pushFront (h : BucketsHold hashv m bs items) (hp : m.live p) (hnew : p ∉ items)
    (hi : hashToBkt (hashv p) bs.length = i) (hb : bs[i]? = some b) (mult : Nat) :
    ∃ m', m.pushFront bktOrder b.hhHead p = some m' ∧
      BucketsHold hashv m' (bs.set i ⟨some p, b.count + 1, mult⟩) (items ++ [p]) ∧
      m.Frame bktOrder (p :: items) m' := by
  obtain ⟨xs, hxs, hperm⟩ := h i b hb
  have hsub : ∀ q ∈ xs, q ∈ items := fun q hq => (mem_items hperm hq).1
  obtain ⟨m', hm', hseg, hframe⟩ :=
    LinkHeap.pushFront_seg hxs.seg hp fun hmem => hnew (hsub p hmem)
  refine ⟨m', hxs.hhHead ▸ hm', fun j c hc => ?_, hframe.mono ?_⟩
  · rw [List.length_set]
    have happ : itemsOf hashv bs.length (items ++ [p]) j =
        itemsOf hashv bs.length items j ++ if i = j then [p] else [] := by
      simp [itemsOf, List.filter_append, List.filter_cons, hi]
    rw [happ]
    rcases eq_or_ne i j with rfl | hij
    · rw [List.getElem?_set_self (List.getElem?_eq_some_iff.mp hb).1] at hc
      obtain rfl := Option.some.inj hc
      refine ⟨p :: xs, ⟨rfl, by simp [hxs.count], hseg⟩, ?_⟩
      simpa using (hperm.cons p).trans (List.perm_append_singleton p _).symm
    · rw [List.getElem?_set_ne hij] at hc
      obtain ⟨ys, hys, hperm'⟩ := h j c hc
      refine ⟨ys, ⟨hys.hhHead, hys.count, hys.seg.frame_disjoint hframe fun q hq => ?_⟩, ?_⟩
      · -- an item of another bucket is neither the new one nor in the bucket it went to
        obtain ⟨hqi, hqj⟩ := mem_items hperm' hq
        intro hmem
        rcases List.mem_cons.mp hmem with rfl | hmem
        · exact hnew hqi
        · exact hij ((mem_items hperm hmem).2.symm.trans hqj)
      · simpa [hij] using hperm'
  · exact List.cons_subset_cons p hsub

theorem itemsOf_erase (hashv : P → UInt32) (n : Nat) (items : List P) (i : Nat) (p : P) :
    itemsOf hashv n (items.erase p) i = (itemsOf hashv n items i).erase p :=
  List.erase_filter.symm

/-- **Taking out of a bucket.** -/
theorem delInBkt (h : BucketsHold hashv m bs items) (hp : p ∈ items)
    (hi : hashToBkt (hashv p) bs.length = i) (hb : bs[i]? = some b) :
    ∃ b' m', UtHash.hashDelInBkt b p m = some (b', m') ∧ b'.count + 1 = b.count ∧
      b'.expandMult = b.expandMult ∧ BucketsHold hashv m' (bs.set i b') (items.erase p) ∧
      m.Frame bktOrder items m' := by
  obtain ⟨xs, hxs, hperm⟩ := h i b hb
  have hmem : p ∈ xs := hperm.mem_iff.mpr (by simpa [itemsOf, hi] using hp)
  obtain ⟨l, l', rfl⟩ := List.append_of_mem hmem
  have hsub : ∀ q ∈ l ++ l', q ∈ l ++ p :: l' := by simp +contextual [or_imp]
  have hndx := hxs.seg.nodup
  have hpl : p ∉ l := fun hpl => (List.nodup_append.mp hndx).2.2 p hpl p (by simp) rfl
  obtain ⟨m', hm', hseg, hframe⟩ := LinkHeap.unlink_seg hxs.seg
  have hhead : (if b.hhHead = some p then m.load .hhNext p else some b.hhHead) =
      some (l ++ l').head? := by
    rw [hxs.hhHead]
    cases l with
    | nil =>
        obtain ⟨hlive, -, hnext, -⟩ := hxs.seg
        rw [if_pos (by rfl), LinkHeap.load_of_live hlive]
        exact congrArg some (hnext.trans (Option.or_none ..))
    | cons q l =>
        have hqp : q ≠ p := fun hqp => hpl (hqp ▸ List.mem_cons_self ..)
        simp [hqp]
  refine ⟨⟨(l ++ l').head?, b.count - 1, b.expandMult⟩, m', ?_, ?_, rfl, fun j c hc => ?_,
    hframe.mono fun q hq => (mem_items hperm (hsub q hq)).1⟩
  · unfold UtHash.hashDelInBkt
    rw [hhead]
    simp [hm']
  · simp [hxs.count]
    omega
  · rw [List.length_set, itemsOf_erase]
    rcases eq_or_ne i j with rfl | hij
    · rw [List.getElem?_set_self (List.getElem?_eq_some_iff.mp hb).1] at hc
      obtain rfl := Option.some.inj hc
      refine ⟨l ++ l', ⟨rfl, by simp [hxs.count], hseg⟩, ?_⟩
      have herase : (l ++ p :: l').erase p = l ++ l' := by
        rw [List.erase_append_right _ hpl, List.erase_cons_head]
      exact herase ▸ hperm.erase p
    · rw [List.getElem?_set_ne hij] at hc
      obtain ⟨ys, hys, hperm'⟩ := h j c hc
      refine ⟨ys, ⟨hys.hhHead, hys.count, hys.seg.frame_disjoint hframe fun q hq hmem => ?_⟩, ?_⟩
      · -- an item of another bucket is not in the one the item was taken out of
        exact hij ((mem_items hperm (hsub q hmem)).2.symm.trans (mem_items hperm' hq).2)
      · rwa [List.erase_of_not_mem (by simp [itemsOf, hi, hij])]

end BucketsHold

end Edfomai
