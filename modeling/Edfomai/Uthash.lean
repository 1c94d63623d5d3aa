import Mathlib.Algebra.Order.Ring.Nat
import Edfomai.Lib.Links

/-!
# Edfomai.Uthash

The macros of `datastructures/uthash.h` that the driver uses, on memory: the pointer
fields of every hash handle, the array of buckets, the counters.

* An element and its hash handle have the same address here; `hho`, the distance between
  the two, is not needed.
* All elements of a hash lead to one table, so `hh.tbl` is not a field of each. It is
  read through an element all the same (`UtHash.table`).
* A `NULL` or freed element, an index outside the array and a division by zero make the
  result `none`, and so does a failed `uthash_malloc`: `uthash_fatal` of the module only
  prints, and `memset` on `NULL` follows. `mem` says what `uthash_malloc` answers.
* The `while` loops have no bound of their own. Here they are cut off, also with `none`,
  after as many rounds as the table says it has items.
* The counters are `unsigned` in the source and natural numbers here. `counters_fit` of
  `Edfomai.UthashRuns` says for which hashes that is the same: with fewer than 2^32 items and
  at most 2^28 buckets none of them wraps.

`HASH_FCN` is a parameter, `hashFcn`, as it is in the source; `key` is what the key pointers
of the elements lead to. `HASH_BLOOM`, `HASH_EMIT_KEYS` and the debug output are not compiled.
-/

namespace Edfomai

/-- The pointers of a `UT_hash_handle`. -/
inductive UtHashField
  /-- In the order of insertion. -/
  | prev
  | next
  /-- Inside a bucket. -/
  | hhPrev
  | hhNext
  deriving DecidableEq

/-- The order of insertion, which `HASH_ITER` follows. -/
def appOrder : Order UtHashField := ⟨.prev, .next, by decide⟩

/-- The order of a bucket. -/
def bktOrder : Order UtHashField := ⟨.hhPrev, .hhNext, by decide⟩

/-- `UT_hash_bucket`. -/
structure UtHashBucket (P : Type) where
  hhHead : Option P
  count : Nat
  expandMult : Nat
  deriving DecidableEq

/-- A bucket after `memset`. -/
def UtHashBucket.zero {P : Type} : UtHashBucket P := ⟨none, 0, 0⟩

/-- `UT_hash_table`. -/
structure UtHashTable (P : Type) where
  buckets : List (UtHashBucket P)
  numBuckets : Nat
  log2NumBuckets : Nat
  numItems : Nat
  tail : Option P
  idealChainMaxlen : Nat
  nonidealItems : Nat
  ineffExpands : Nat
  noexpand : Nat
  deriving DecidableEq

/-- A hash: the pointer to its first element, its table, and the handles in memory. -/
structure UtHash (P : Type) where
  head : Option P
  tbl : Option (UtHashTable P)
  links : LinkHeap UtHashField P
  keylen : P → Nat
  hashv : P → UInt32

/-- `HASH_INITIAL_NUM_BUCKETS`. -/
def hashInitialNumBuckets : Nat := 32

/-- `HASH_INITIAL_NUM_BUCKETS_LOG2`. -/
def hashInitialNumBucketsLog2 : Nat := 5

/-- `HASH_BKT_CAPACITY_THRESH`. -/
def hashBktCapacityThresh : Nat := 10

/-- `HASH_TO_BKT`. -/
def hashToBkt (hashv : UInt32) (numBkts : Nat) : Nat := hashv.toNat &&& (numBkts - 1)

/-- `HASH_KEYCMP`, which is `memcmp`: whether it returns zero. -/
def hashKeycmp (a b : List UInt8) (len : Nat) : Bool := a.take len == b.take len

/-- The test of `HASH_ADD_TO_BKT`: the bucket has become too long, and expansion is not
inhibited. -/
def UtHashBucket.Overfull {P : Type} (b : UtHashBucket P) (t : UtHashTable P) : Prop :=
  b.count ≥ (b.expandMult + 1) * hashBktCapacityThresh ∧ t.noexpand ≠ 1

instance {P : Type} (b : UtHashBucket P) (t : UtHashTable P) : Decidable (b.Overfull t) := by
  unfold UtHashBucket.Overfull; infer_instance

namespace UtHash

variable {P : Type} [DecidableEq P]

/-- `(head)->hh.tbl`. -/
def table (s : UtHash P) : Option (UtHashTable P) := do
  let head ← s.head
  if s.links.live head then s.tbl else none

/-! ### Adding -/

/-- The table that `HASH_MAKE_TABLE` fills in. -/
def newTable (head : P) : UtHashTable P where
  buckets := List.replicate hashInitialNumBuckets UtHashBucket.zero
  numBuckets := hashInitialNumBuckets
  log2NumBuckets := hashInitialNumBucketsLog2
  numItems := 0
  tail := some head
  idealChainMaxlen := 0
  nonidealItems := 0
  ineffExpands := 0
  noexpand := 0

/-- `HASH_MAKE_TABLE`. -/
def hashMakeTable (mem : Bool) (head : P) : Option (UtHashTable P) :=
  if mem then some (newTable head) else none

/-- What the loops of `HASH_EXPAND_BUCKETS` change. -/
structure Rehash (P : Type) where
  links : LinkHeap UtHashField P
  newBuckets : List (UtHashBucket P)
  nonidealItems : Nat

/-- One round of the inner loop of `HASH_EXPAND_BUCKETS`: the item moves to the front of
its new bucket. -/
def rehashItem (hashv : P → UInt32) (numBkts idealChainMaxlen : Nat) (thh : P) (e : Rehash P) :
    Option (Rehash P) := do
  let i := hashToBkt (hashv thh) numBkts
  let b ← e.newBuckets[i]?
  let links ← e.links.pushFront bktOrder b.hhHead thh
  let count := b.count + 1
  if count > idealChainMaxlen then
    if idealChainMaxlen = 0 then none
    else
      some ⟨links, e.newBuckets.set i ⟨some thh, count, count / idealChainMaxlen⟩,
        e.nonidealItems + 1⟩
  else some ⟨links, e.newBuckets.set i ⟨some thh, count, b.expandMult⟩, e.nonidealItems⟩

/-- The two loops of `HASH_EXPAND_BUCKETS`. -/
def rehash (hashv : P → UInt32) (idealChainMaxlen : Nat) (t : UtHashTable P) (e : Rehash P) :
    Option (Rehash P) :=
  (List.range t.numBuckets).foldlM
    (fun e i => do
      let b ← t.buckets[i]?
      LinkHeap.forEach bktOrder Rehash.links
        (rehashItem hashv (t.numBuckets * 2) idealChainMaxlen) t.numItems b.hhHead e)
    e

/-- `tbl->ideal_chain_maxlen`, for the doubled number of buckets. -/
def idealChainMaxlen (t : UtHashTable P) : Nat :=
  (t.numItems >>> (t.log2NumBuckets + 1)) +
    if t.numItems &&& (t.numBuckets * 2 - 1) ≠ 0 then 1 else 0

/-- The table after the loops of `HASH_EXPAND_BUCKETS`. -/
def expanded (t : UtHashTable P) (e : Rehash P) : UtHashTable P :=
  let ineffExpands := if e.nonidealItems > t.numItems >>> 1 then t.ineffExpands + 1 else 0
  { t with
    buckets := e.newBuckets
    numBuckets := t.numBuckets * 2
    log2NumBuckets := t.log2NumBuckets + 1
    idealChainMaxlen := idealChainMaxlen t
    nonidealItems := e.nonidealItems
    ineffExpands := ineffExpands
    noexpand := if ineffExpands > 1 then 1 else t.noexpand }

/-- `HASH_EXPAND_BUCKETS`. -/
def hashExpandBuckets (mem : Bool) (t : UtHashTable P) (s : UtHash P) : Option (UtHash P) :=
  if mem then
    (rehash s.hashv (idealChainMaxlen t) t
      ⟨s.links, List.replicate (2 * t.numBuckets) UtHashBucket.zero, 0⟩).map fun e =>
        { s with links := e.links, tbl := some (expanded t e) }
  else none

/-- `HASH_ADD_TO_BKT`, on the bucket with index `i`. -/
def hashAddToBkt (mem : Bool) (i : Nat) (addhh : P) (s : UtHash P) : Option (UtHash P) := do
  let t ← s.table
  let b ← t.buckets[i]?
  let links ← s.links.pushFront bktOrder b.hhHead addhh
  let b := { b with count := b.count + 1, hhHead := some addhh }
  let t := { t with buckets := t.buckets.set i b }
  let s := { s with links := links, tbl := some t }
  if b.Overfull t then hashExpandBuckets mem t s else some s

section Keys

variable (hashFcn : List UInt8 → UInt32) (key : P → List UInt8)

/-- The links and the table of `HASH_ADD_KEYPTR`, before the new element is counted. -/
def hashAppend (mem : Bool) (add : P) (s : UtHash P) : Option (UtHash P) :=
  match s.head with
  | none => do
      let links ← s.links.store .next add none
      let links ← links.store .prev add none
      let t ← hashMakeTable mem add
      some { s with head := some add, links := links, tbl := some t }
  | some _ => do
      let t ← s.table
      let links ← s.links.pushBack appOrder (← t.tail) add
      some { s with links := links, tbl := some { t with tail := some add } }

/-- `HASH_ADD_KEYPTR` with the length of the key that `HASH_ADD_STR` passes. -/
def hashAddStr (mem : Bool) (add : P) (s : UtHash P) : Option (UtHash P) := do
  let s ← hashAppend mem add s
  let t ← s.table
  let t := { t with numItems := t.numItems + 1 }
  let hashv := hashFcn (key add)
  hashAddToBkt mem (hashToBkt hashv t.numBuckets) add
    { s with
      tbl := some t
      keylen := Function.update s.keylen add (key add).length
      hashv := Function.update s.hashv add hashv }

/-! ### Finding -/

/-- The test of `HASH_FIND_IN_BKT`. -/
def hasKey (keyptr : List UInt8) (s : UtHash P) (out : P) : Bool :=
  s.keylen out == keyptr.length && hashKeycmp (key out) keyptr keyptr.length

/-- `HASH_FIND` with the length of the key that `HASH_FIND_STR` passes. -/
def hashFindStr (keyptr : List UInt8) (s : UtHash P) : Option (Option P) :=
  match s.head with
  | none => some none
  | some _ => do
      let t ← s.table
      let b ← t.buckets[hashToBkt (hashFcn keyptr) t.numBuckets]?
      s.links.search bktOrder (s.hasKey key keyptr) t.numItems b.hhHead

end Keys

/-! ### Deleting -/

/-- `HASH_DEL_IN_BKT`. -/
def hashDelInBkt (b : UtHashBucket P) (hhDel : P) (links : LinkHeap UtHashField P) :
    Option (UtHashBucket P × LinkHeap UtHashField P) := do
  let hhHead ← (if b.hhHead = some hhDel then links.load .hhNext hhDel else some b.hhHead)
  let links ← links.unlink bktOrder hhDel
  some ({ b with count := b.count - 1, hhHead := hhHead }, links)

/-- `HASH_DELETE`. -/
def hashDelete (delptr : P) (s : UtHash P) : Option (UtHash P) := do
  let prev ← s.links.load .prev delptr
  let next ← s.links.load .next delptr
  let t ← s.table
  if prev = none ∧ next = none then some { s with head := none, tbl := none }
  else
    let t := if t.tail = some delptr then { t with tail := prev } else t
    let links ← s.links.unlink appOrder delptr
    let head := if prev = none then next else s.head
    let s := { s with head := head, links := links, tbl := some t }
    -- the table is read through the head the list has now
    let t ← s.table
    let i := hashToBkt (s.hashv delptr) t.numBuckets
    let b ← t.buckets[i]?
    let (b, links) ← hashDelInBkt b delptr s.links
    some
      { s with
        links := links
        tbl := some { t with buckets := t.buckets.set i b, numItems := t.numItems - 1 } }

/-! ### Going over all elements -/

/-- `HASH_COUNT`. -/
def hashCount (s : UtHash P) : Option Nat :=
  match s.head with
  | none => some 0
  | some _ => s.table.map (·.numItems)

/-- `HASH_ITER` on a state that contains the hash. -/
def hashIter {σ : Type} (hash : σ → UtHash P) (body : P → σ → Option σ) (s : σ) : Option σ := do
  let n ← (hash s).hashCount
  LinkHeap.forEach appOrder (fun s => (hash s).links) body n (hash s).head s

/-! ### Checking -/

/-- A loop of `HASH_FSCK`: the number of nodes, or `none` when one of them does not lead
back to the node before it. -/
def fsckList (o : Order UtHashField) (m : LinkHeap UtHashField P) :
    Nat → Option P → Option P → Option Nat
  | _, _, none => some 0
  | 0, _, some _ => none
  | n + 1, prev, some thh => do
      if (← m.load o.prev thh) = prev then
        (fsckList o m n (some thh) (← m.load o.next thh)).map (· + 1)
      else none

/-- `HASH_FSCK`: whether it finds nothing wrong. -/
def hashFsck (s : UtHash P) : Bool :=
  match s.head with
  | none => true
  | some _ =>
      match s.table with
      | none => false
      | some t =>
          let counts := (List.range t.numBuckets).map fun i =>
            t.buckets[i]?.bind fun b => fsckList bktOrder s.links t.numItems none b.hhHead
          decide (counts = t.buckets.map fun b => some b.count) &&
            decide ((t.buckets.map (·.count)).sum = t.numItems) &&
            decide (fsckList appOrder s.links t.numItems none s.head = some t.numItems)

end UtHash

end Edfomai
