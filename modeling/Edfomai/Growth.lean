import Edfomai.Expand
import Mathlib.Algebra.Order.BigOperators.Group.List

/-!
# Edfomai.Growth

**How long the buckets of a hash get.** The comment over `HASH_EXPAND_BUCKETS` says that the hash
keeps a bound on the length of its chains. `UtHashTable.Bounded` is that bound, as far as there is
one: it holds until two expansions in a row have left most items too deep, and then expansion is
inhibited for good.

What carries the invariant is the sum of all `expand_mult`, which is never more than the number of
buckets. So there are at most twenty items for each bucket when one of them overflows, the ideal
length of a chain is at most ten, and no new bucket is too long already.
-/

namespace Edfomai

open UtHash

variable {P : Type}

/-- The chain of a bucket is as short as it should be. -/
def UtHashBucket.Short (b : UtHashBucket P) : Prop :=
  b.count ≤ hashBktCapacityThresh ∨ b.count < (b.expandMult + 1) * hashBktCapacityThresh

/-- What bounds the chains of a table. -/
structure UtHashTable.Bounded (t : UtHashTable P) : Prop where
  log2 : hashInitialNumBucketsLog2 ≤ t.log2NumBuckets
  expandMult : (t.buckets.map (·.expandMult)).sum ≤ t.numBuckets
  ideal : t.idealChainMaxlen ≤ hashBktCapacityThresh
  latch : t.noexpand = if t.ineffExpands > 1 then 1 else 0
  ineff : t.ineffExpands ≤ 2
  nonideal : t.nonidealItems ≤ hashBktCapacityThresh * t.numBuckets
  short : t.noexpand ≠ 1 → ∀ b ∈ t.buckets, b.Short

/-- What one operation may do to the number of buckets. -/
def UtHashTable.Grows (t t' : UtHashTable P) : Prop :=
  (t'.numBuckets = t.numBuckets ∧ t'.noexpand = t.noexpand) ∨
    (t'.numBuckets = t.numBuckets * 2 ∧ t.noexpand ≠ 1)

/-- Only these fields matter. -/
theorem UtHashTable.Grows.congr {t₀ t t' : UtHashTable P} (h : t.Grows t')
    (hnum : t.numBuckets = t₀.numBuckets) (hno : t.noexpand = t₀.noexpand) : t₀.Grows t' := by
  rw [Grows, ← hnum, ← hno]
  exact h

/-! ### Sums over buckets -/

/-- Not all items of some short buckets fit into twenty for each. -/
theorem sum_count_le {bs : List (UtHashBucket P)} (h : ∀ b ∈ bs, b.Short) :
    (bs.map (·.count)).sum + min 1 (bs.map (·.expandMult)).sum ≤
      10 * (bs.map (·.expandMult)).sum + 10 * bs.length := by
  induction bs with
  | nil => simp
  | cons b bs ih =>
      have hrest := ih fun c hc => h c (List.mem_cons_of_mem _ hc)
      have hshort := h b (List.mem_cons_self ..)
      simp only [UtHashBucket.Short, hashBktCapacityThresh] at hshort
      simp only [List.map_cons, List.sum_cons, List.length_cons]
      omega

/-- Items that lie too deep are items. -/
theorem nonidealOf_le (ideal : Nat) (bs : List (UtHashBucket P)) :
    nonidealOf ideal bs ≤ (bs.map (·.count)).sum :=
  List.sum_le_sum fun _ _ => Nat.sub_le ..

theorem sum_expandMult_mul_le (ideal : Nat) {bs : List (UtHashBucket P)}
    (h : ∀ b ∈ bs, b.expandMult * ideal ≤ b.count) :
    (bs.map (·.expandMult)).sum * ideal ≤ (bs.map (·.count)).sum := by
  induction bs with
  | nil => simp
  | cons b bs ih =>
      have hrest := ih fun c hc => h c (List.mem_cons_of_mem _ hc)
      have hb := h b (List.mem_cons_self ..)
      simp only [List.map_cons, List.sum_cons, Nat.add_mul]
      omega

theorem sum_count_set {bs : List (UtHashBucket P)} {i : Nat} {b c : UtHashBucket P}
    (hb : bs[i]? = some b) :
    ((bs.set i c).map (·.count)).sum + b.count = (bs.map (·.count)).sum + c.count :=
  nonidealOf_set 0 c hb

theorem map_expandMult_set {bs : List (UtHashBucket P)} {i : Nat} {b c : UtHashBucket P}
    (hb : bs[i]? = some b) (hc : c.expandMult = b.expandMult) :
    (bs.set i c).map (·.expandMult) = bs.map (·.expandMult) := by
  induction bs generalizing i with
  | nil => rfl
  | cons d bs ih =>
      cases i with
      | zero =>
          obtain rfl : d = b := by simpa using hb
          simp [hc]
      | succ i => simp [ih (by simpa using hb)]

/-! ### The operations -/

/-- A table without items. -/
theorem newTable_bounded (head : P) : (newTable head).Bounded where
  log2 := Nat.le_refl _
  expandMult := by simp [newTable, UtHashBucket.zero]
  ideal := Nat.zero_le _
  latch := rfl
  ineff := Nat.zero_le _
  nonideal := Nat.zero_le _
  short _ b hb := by
    obtain rfl := (List.mem_replicate.mp hb).2
    exact Or.inl (Nat.zero_le _)

namespace UtHashTable.Bounded

variable {t t' : UtHashTable P} {i : Nat} {b c : UtHashBucket P}

theorem numBuckets_pos (h : t.Bounded) (hlog : t.numBuckets = 2 ^ t.log2NumBuckets) :
    32 ≤ t.numBuckets := by
  rw [hlog]
  exact Nat.pow_le_pow_right (n := 2) (by decide) h.log2

/-- Only these fields matter. -/
theorem congr (h : t.Bounded) (hbuckets : t'.buckets = t.buckets)
    (hnum : t'.numBuckets = t.numBuckets) (hlog : t'.log2NumBuckets = t.log2NumBuckets)
    (hideal : t'.idealChainMaxlen = t.idealChainMaxlen)
    (hnonideal : t'.nonidealItems = t.nonidealItems)
    (hineff : t'.ineffExpands = t.ineffExpands) (hno : t'.noexpand = t.noexpand) :
    t'.Bounded := by
  refine ⟨hlog ▸ h.log2, ?_, hideal ▸ h.ideal, ?_, hineff ▸ h.ineff, ?_, ?_⟩
  · rw [hbuckets, hnum]
    exact h.expandMult
  · rw [hno, hineff]
    exact h.latch
  · rw [hnonideal, hnum]
    exact h.nonideal
  · rw [hno, hbuckets]
    exact h.short

/-- One bucket is written. -/
theorem set (h : t.Bounded) (hb : t.buckets[i]? = some b) (hc : c.expandMult = b.expandMult)
    (hshort : t.noexpand ≠ 1 → c.Short) : ({ t with buckets := t.buckets.set i c }).Bounded where
  log2 := h.log2
  expandMult := by
    rw [map_expandMult_set hb hc]
    exact h.expandMult
  ideal := h.ideal
  latch := h.latch
  ineff := h.ineff
  nonideal := h.nonideal
  short hno d hd := by
    rcases List.mem_or_eq_of_mem_set hd with hd | rfl
    · exact h.short hno d hd
    · exact hshort hno

/-- An item is taken out of a bucket. -/
theorem pop (h : t.Bounded) (hb : t.buckets[i]? = some b) (hc : c.expandMult = b.expandMult)
    (hcount : c.count + 1 = b.count) : ({ t with buckets := t.buckets.set i c }).Bounded := by
  refine h.set hb hc fun hno => ?_
  have hshort := h.short hno b (List.mem_of_getElem? hb)
  simp only [UtHashBucket.Short, hc] at hshort ⊢
  omega

/-- An item is put into a bucket that does not overflow. -/
theorem push (h : t.Bounded) (hb : t.buckets[i]? = some b) (hc : c.expandMult = b.expandMult)
    (hfits : ¬c.Overfull { t with buckets := t.buckets.set i c }) :
    ({ t with buckets := t.buckets.set i c }).Bounded := by
  refine h.set hb hc fun hno => Or.inr ?_
  exact Nat.lt_of_not_ge fun hge => hfits ⟨hge, hno⟩

/-- When a bucket overflows there are at most twenty items for each bucket. -/
theorem items_le (h : t.Bounded) (hno : t.noexpand ≠ 1) (hlen : t.buckets.length = t.numBuckets)
    (hlog : t.numBuckets = 2 ^ t.log2NumBuckets) (hb : t.buckets[i]? = some b)
    (hcount : c.count = b.count + 1) :
    ((t.buckets.set i c).map (·.count)).sum ≤ 20 * t.numBuckets := by
  have hsum := sum_count_le (h.short hno)
  have hset := sum_count_set (c := c) hb
  have hmult := h.expandMult
  have hpos := h.numBuckets_pos hlog
  rw [hlen] at hsum
  omega

end UtHashTable.Bounded

theorem expandMultOf_mul_le (ideal count : Nat) : expandMultOf ideal count * ideal ≤ count := by
  unfold expandMultOf
  split
  · exact Nat.div_mul_le_self count ideal
  · simp

/-- The ideal length leaves room for all items. -/
theorem numItems_le_ideal_mul {t : UtHashTable P} (hlog : t.numBuckets = 2 ^ t.log2NumBuckets) :
    t.numItems ≤ idealChainMaxlen t * (t.numBuckets * 2) := by
  have hpos : 0 < t.numBuckets * 2 := by
    have := Nat.two_pow_pos t.log2NumBuckets
    omega
  have hlt := Nat.lt_div_mul_add (a := t.numItems + (t.numBuckets * 2 - 1)) hpos
  rw [idealChainMaxlen_eq hlog]
  omega

/-- **Expansion.** The new buckets are short. -/
theorem expanded_bounded {t : UtHashTable P} {e : Rehash P}
    (hlog2 : hashInitialNumBucketsLog2 ≤ t.log2NumBuckets)
    (hlog : t.numBuckets = 2 ^ t.log2NumBuckets)
    (hlatch : t.noexpand = if t.ineffExpands > 1 then 1 else 0) (hno : t.noexpand ≠ 1)
    (hitems : t.numItems ≤ 20 * t.numBuckets) (hideal : 0 < idealChainMaxlen t)
    (hsum : (e.newBuckets.map (·.count)).sum = t.numItems)
    (hmult : ∀ b ∈ e.newBuckets, b.expandMult = expandMultOf (idealChainMaxlen t) b.count)
    (hnonideal : e.nonidealItems = nonidealOf (idealChainMaxlen t) e.newBuckets) :
    (expanded t e).Bounded := by
  have hten : idealChainMaxlen t ≤ hashBktCapacityThresh := by
    have hpos := Nat.two_pow_pos t.log2NumBuckets
    rw [idealChainMaxlen_eq hlog]
    refine Nat.le_of_lt_succ (Nat.div_lt_of_lt_mul ?_)
    simp only [hashBktCapacityThresh]
    omega
  refine ⟨Nat.le_succ_of_le hlog2, ?_, hten, ?_, ?_, ?_, fun _ b hb => ?_⟩
  · have hle := sum_expandMult_mul_le (idealChainMaxlen t) fun b hb => by
      rw [hmult b hb]
      exact expandMultOf_mul_le ..
    refine Nat.le_of_mul_le_mul_right (Nat.le_trans hle ?_) hideal
    rw [hsum, Nat.mul_comm]
    exact numItems_le_ideal_mul hlog
  · have hzero : t.noexpand = 0 := by
      rw [hlatch] at hno ⊢
      split
      · next hlt => exact absurd (if_pos hlt) hno
      · rfl
    simp only [expanded, hzero]
  · have hone : t.ineffExpands ≤ 1 := by
      by_contra hlt
      rw [hlatch, if_pos (Nat.lt_of_not_ge hlt)] at hno
      exact hno rfl
    simp only [expanded]
    split <;> omega
  · have hle := nonidealOf_le (idealChainMaxlen t) e.newBuckets
    simp only [expanded, hashBktCapacityThresh]
    omega
  · have hb' := hmult b hb
    by_cases hdeep : b.count > idealChainMaxlen t
    · right
      rw [hb', expandMultOf, if_pos hdeep]
      refine Nat.lt_of_lt_of_le ?_ (Nat.mul_le_mul_left _ hten)
      rw [Nat.add_mul, Nat.one_mul]
      exact Nat.lt_div_mul_add hideal
    · exact Or.inl (Nat.le_trans (Nat.le_of_not_gt hdeep) hten)

end Edfomai
