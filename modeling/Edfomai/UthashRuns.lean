import Edfomai.Elements
import Edfomai.Lib.Transition

/-!
# Edfomai.UthashRuns

**Runs of the macros.** Elements are allocated and get a key, are added, deleted and freed, in
any order, as long as each macro gets what it asks of its caller. The hash then is a list
(`UtHashOp.model`): `HASH_ADD_STR` appends, `HASH_DEL` takes out, and everything else that can be
observed of the hash can be read off the list. `exec_elements` is one operation, `run_elements`
a run. `uthash_malloc` succeeds in these runs.
-/

namespace Edfomai

/-- A hash, and what the key pointers of the blocks lead to. -/
structure Keyed (P : Type) where
  hash : UtHash P
  key : P → List UInt8

/-- What a user of `uthash` does. -/
inductive UtHashOp (P : Type)
  /-- Allocate an element and write its key. -/
  | alloc (p : P) (k : List UInt8)
  | free (p : P)
  /-- `HASH_ADD_STR`; `uthash_malloc` does not fail. -/
  | add (p : P)
  | del (p : P)
  deriving DecidableEq

/-- The elements in the order in which `HASH_ITER` visits them. -/
def UtHash.collect {P : Type} (s : UtHash P) : Option (List P) :=
  (hashIter (fun st : UtHash P × List P => st.1) (fun p st => some (st.1, st.2 ++ [p]))
    (s, [])).map Prod.snd

variable {P : Type}

namespace UtHash.Elements

variable {hashFcn : List UInt8 → UInt32} {s : Keyed P} {items : List P}

/-- An element is found under its key, and nothing else is. -/
theorem find_self_iff (h : Elements hashFcn s.key s.hash items) (p : P) :
    s.hash.hashFindStr hashFcn s.key (s.key p) = some (some p) ↔ p ∈ items := by
  obtain ⟨out, hout, hiff⟩ := h.hashFindStr (s.key p)
  rw [hout, Option.some_inj, hiff]
  exact and_iff_left rfl

theorem find_none_iff (h : Elements hashFcn s.key s.hash items) (k : List UInt8) :
    s.hash.hashFindStr hashFcn s.key k = some none ↔ k ∉ items.map s.key := by
  obtain ⟨out, hout, hiff⟩ := h.hashFindStr k
  rw [hout, Option.some_inj, Option.eq_none_iff_forall_ne_some, List.mem_map]
  constructor
  · rintro hnone ⟨p, hp, rfl⟩
    exact hnone p ((hiff p).mpr ⟨hp, rfl⟩)
  · intro hnot p hp
    exact hnot ⟨p, (hiff p).mp hp⟩

/-- **`HASH_FIND_STR`** is a search of the list. -/
theorem hashFindStr_eq (h : Elements hashFcn s.key s.hash items) (k : List UInt8) :
    s.hash.hashFindStr hashFcn s.key k = some (items.find? fun p => s.key p = k) := by
  obtain ⟨out, hout, hiff⟩ := h.hashFindStr k
  rw [hout]
  cases hfind : items.find? fun p => s.key p = k with
  | some p =>
      have hk : s.key p = k := by simpa using List.find?_some hfind
      exact congrArg some ((hiff p).mpr ⟨List.mem_of_find?_eq_some hfind, hk⟩)
  | none =>
      refine congrArg some (Option.eq_none_iff_forall_ne_some.mpr fun p hp => ?_)
      obtain ⟨hp, hk⟩ := (hiff p).mp hp
      exact absurd hk (by simpa using List.find?_eq_none.mp hfind p hp)

/-- **`HASH_ITER`** visits the list. -/
theorem collect (h : Elements hashFcn s.key s.hash items) : s.hash.collect = some items := by
  obtain ⟨st, hiter, hst, hdone⟩ := UtHash.Elements.hashIter (s := (s.hash, []))
    (Prod.fst : UtHash P × List P → UtHash P) (fun p st => some (st.1, st.2 ++ [p]))
    (fun rest st => st.1 = s.hash ∧ st.2 ++ rest = items) h
    (fun p rest st ⟨hst, hitems⟩ => by
      have happ := h.app
      rw [← hitems] at happ
      obtain ⟨-, hlive, -, hnext, -⟩ := LinkHeap.seg_append.mp happ
      rw [hst, LinkHeap.load_of_live hlive]
      exact congrArg some (hnext.trans (Option.or_none ..)))
    (fun p rest st ⟨hst, hitems⟩ => ⟨_, rfl, hst, by simpa using hitems⟩)
    ⟨rfl, rfl⟩
  rw [List.append_nil] at hdone
  rw [UtHash.collect]
  exact Option.map_eq_some_iff.mpr ⟨st, hiter, hdone⟩

end UtHash.Elements

variable [DecidableEq P]

namespace UtHashOp

/-- What the operation does to the list of elements. -/
def model : UtHashOp P → List P → List P
  | add p, l => l ++ [p]
  | del p, l => l.erase p
  | alloc _ _, l | free _, l => l

variable (hashFcn : List UInt8 → UInt32)

/-- Run an operation. -/
def exec : UtHashOp P → Keyed P → Option (Keyed P)
  | alloc p k, s =>
      some ⟨{ s.hash with links := s.hash.links.alloc p }, Function.update s.key p k⟩
  | free p, s =>
      if s.hash.links.live p then some ⟨{ s.hash with links := s.hash.links.free p }, s.key⟩
      else none
  | add p, s => (s.hash.hashAddStr hashFcn s.key true p).map fun hash => ⟨hash, s.key⟩
  | del p, s => (s.hash.hashDelete p).map fun hash => ⟨hash, s.key⟩

/-- What the caller has to see to: an element to be added is allocated and its key is not in the
hash, an element to be deleted is in the hash, one to be freed is not. -/
def Ok : UtHashOp P → Keyed P → Prop
  | alloc p _, s => s.hash.links.live p = false
  | free p, s =>
      s.hash.links.live p = true ∧
        s.hash.hashFindStr hashFcn s.key (s.key p) ≠ some (some p)
  | add p, s =>
      s.hash.links.live p = true ∧ s.hash.hashFindStr hashFcn s.key (s.key p) = some none
  | del p, s => s.hash.hashFindStr hashFcn s.key (s.key p) = some (some p)

instance : (op : UtHashOp P) → (s : Keyed P) → Decidable (op.Ok hashFcn s)
  | alloc p _, s => inferInstanceAs (Decidable (s.hash.links.live p = false))
  | free p, s => inferInstanceAs (Decidable (s.hash.links.live p = true ∧
      s.hash.hashFindStr hashFcn s.key (s.key p) ≠ some (some p)))
  | add p, s => inferInstanceAs (Decidable (s.hash.links.live p = true ∧
      s.hash.hashFindStr hashFcn s.key (s.key p) = some none))
  | del p, s => inferInstanceAs (Decidable
      (s.hash.hashFindStr hashFcn s.key (s.key p) = some (some p)))

/-- Run operations, as long as they get what they ask for. -/
def execAll : List (UtHashOp P) → Keyed P → Option (Keyed P)
  | [], s => some s
  | op :: ops, s => if op.Ok hashFcn s then (op.exec hashFcn s).bind (execAll ops) else none

end UtHashOp

/-- The hashes that come about so, from an empty one. -/
def hashes (P : Type) [DecidableEq P] (hashFcn : List UInt8 → UInt32) :
    TransitionSystem (Keyed P) (UtHashOp P) where
  init s := s.hash.head = none ∧ s.hash.tbl = none
  step s op s' := op.Ok hashFcn s ∧ op.exec hashFcn s = some s'

/-! ### One operation -/

variable {hashFcn : List UInt8 → UInt32} {s s' : Keyed P} {op : UtHashOp P} {items : List P}

namespace UtHashOp

/-- **One operation.** -/
theorem exec_elements (h : s.hash.Elements hashFcn s.key items) (hok : op.Ok hashFcn s) :
    ∃ s', op.exec hashFcn s = some s' ∧ s'.hash.Elements hashFcn s'.key (op.model items) ∧
      ∀ t t', s.hash.tbl = some t → s'.hash.tbl = some t' → t.Grows t' := by
  have hsame : ∀ t t' : UtHashTable P, s.hash.tbl = some t → s.hash.tbl = some t' →
      t.Grows t' := by
    intro t t' ht ht'
    obtain rfl : t = t' := Option.some.inj (ht.symm.trans ht')
    exact Or.inl ⟨rfl, rfl⟩
  cases op with
  | alloc p k =>
      have hfree : s.hash.links.live p = false := hok
      have hne : ∀ q ∈ items, q ≠ p := by
        intro q hq hqp
        have hlive := h.app.live q hq
        rw [hqp, hfree] at hlive
        cases hlive
      have halloc := h.congr_live (m := s.hash.links.alloc p) rfl fun q hq =>
        Function.update_of_ne (hne q hq) ..
      exact ⟨_, rfl, halloc.congr_key fun q hq => Function.update_of_ne (hne q hq) .., hsame⟩
  | free p =>
      have hne : ∀ q ∈ items, q ≠ p := fun q hq hqp => hok.2 ((h.find_self_iff p).mpr (hqp ▸ hq))
      refine ⟨_, if_pos hok.1, h.congr_live rfl fun q hq => ?_, hsame⟩
      exact Function.update_of_ne (hne q hq) ..
  | add p =>
      obtain ⟨hlive, hnone⟩ := hok
      have hkey := (h.find_none_iff _).mp hnone
      have hnew : p ∉ items := fun hp => hkey (List.mem_map_of_mem hp)
      obtain ⟨hash, hadd, helements, -, hgrows⟩ := h.hashAddStr hlive hnew hkey
      exact ⟨_, Option.map_eq_some_iff.mpr ⟨hash, hadd, rfl⟩, helements, hgrows⟩
  | del p =>
      obtain ⟨hash, hdel, helements, -, hgrows⟩ := h.hashDelete ((h.find_self_iff p).mp hok)
      exact ⟨_, Option.map_eq_some_iff.mpr ⟨hash, hdel, rfl⟩, helements, hgrows⟩

/-- **A run.** -/
theorem run_elements {s₀ : Keyed P} {ops : List (UtHashOp P)} (hinit : (hashes P hashFcn).init s₀)
    (hrun : (hashes P hashFcn).Run s₀ ops s) :
    s.hash.Elements hashFcn s.key (ops.foldl (fun l op => op.model l) []) := by
  induction hrun with
  | refl => exact .empty hinit.1 hinit.2
  | tail hrun hstep ih =>
      obtain ⟨s', hexec, helements, -⟩ := exec_elements ih hstep.1
      rw [hstep.2] at hexec
      cases hexec
      rw [List.foldl_append]
      exact helements

end UtHashOp

theorem run_of_execAll {ops : List (UtHashOp P)} (h : UtHashOp.execAll hashFcn ops s = some s') :
    (hashes P hashFcn).Run s ops s' := by
  induction ops generalizing s with
  | nil =>
      obtain rfl := Option.some.inj h
      exact .refl s
  | cons op ops ih =>
      rw [UtHashOp.execAll] at h
      split at h
      · next hok =>
        obtain ⟨s₁, hexec, h⟩ := Option.bind_eq_some_iff.mp h
        exact .cons ⟨hok, hexec⟩ (ih h)
      · cases h

/-- No element, no table and no block. -/
def noElements : Keyed Nat :=
  ⟨⟨none, none, ⟨fun _ => false, fun _ _ => none⟩, fun _ => 0, fun _ => 0⟩, fun _ => []⟩

/-- `n` elements with keys of one byte, allocated and added. -/
def addedBytes (first n : Nat) : List (UtHashOp Nat) :=
  (List.range' first n).flatMap fun p => [.alloc p [UInt8.ofNat p], .add p]

/-- **A hash is a list.** After any run `HASH_ITER` visits the elements that were added and not
deleted since, in the order of their addition, `HASH_COUNT` counts them, `HASH_FIND_STR` searches
them, `HASH_FSCK` finds the hash in order, and the next operation completes, as long as
`uthash_malloc` succeeds. -/
theorem hash_is_list {s₀ : Keyed P} {ops : List (UtHashOp P)} (hinit : (hashes P hashFcn).init s₀)
    (hrun : (hashes P hashFcn).Run s₀ ops s) :
    s.hash.collect = some (ops.foldl (fun l op => op.model l) []) ∧
      s.hash.hashCount = some (ops.foldl (fun l op => op.model l) []).length ∧
      (∀ k, s.hash.hashFindStr hashFcn s.key k =
        some ((ops.foldl (fun l op => op.model l) []).find? fun p => s.key p = k)) ∧
      s.hash.hashFsck = true ∧ ∀ op : UtHashOp P, op.Ok hashFcn s → (op.exec hashFcn s).isSome := by
  have h := UtHashOp.run_elements hinit hrun
  refine ⟨h.collect, h.hashCount, h.hashFindStr_eq, h.hashFsck, fun op hok => ?_⟩
  obtain ⟨s', hexec, -⟩ := UtHashOp.exec_elements h hok
  rw [hexec]
  rfl

theorem hash_is_list_bytes : ∃ s, (hashes Nat fun _ => 7).Run noElements
    (addedBytes 0 3 ++ [.del 1]) s ∧ s.hash.collect = some [0, 2] ∧ s.hash.hashFsck = true := by
  have hsome : (UtHashOp.execAll (fun _ => 7) (addedBytes 0 3 ++ [.del 1]) noElements).isSome := by
    decide +kernel
  obtain ⟨s, hs⟩ := Option.isSome_iff_exists.mp hsome
  have hrun := run_of_execAll hs
  obtain ⟨hcollect, -, -, hfsck, -⟩ := hash_is_list ⟨rfl, rfl⟩ hrun
  exact ⟨s, hrun, hcollect, hfsck⟩

/-! ### The buckets -/

/-- In every reachable state there is a list of elements. -/
theorem reachable_elements (hs : (hashes P hashFcn).Reachable s) :
    ∃ items, s.hash.Elements hashFcn s.key items := by
  induction hs with
  | init hinit => exact ⟨[], .empty hinit.1 hinit.2⟩
  | step _ hstep ih =>
      obtain ⟨items, h⟩ := ih
      obtain ⟨s', hexec, helements, -⟩ := UtHashOp.exec_elements h hstep.1
      rw [hstep.2] at hexec
      cases hexec
      exact ⟨_, helements⟩

/-- A table is in order, and there are elements in it. -/
theorem reachable_table {t : UtHashTable P} (hs : (hashes P hashFcn).Reachable s)
    (ht : s.hash.tbl = some t) :
    ∃ items, s.hash.Elements hashFcn s.key items ∧ items ≠ [] ∧
      t.Holds s.hash.hashv s.hash.links items ∧ t.Bounded := by
  obtain ⟨items, h⟩ := reachable_elements hs
  have htable := h.table
  rw [ht] at htable
  obtain ⟨hne, -, hold, hbd⟩ := htable
  exact ⟨items, h, hne, hold, hbd⟩

/-- **The hash keeps a bound on the length of its chains**, until two expansions in a row have
not helped. -/
theorem chains_bounded {t : UtHashTable P} (hs : (hashes P hashFcn).Reachable s)
    (ht : s.hash.tbl = some t) :
    t.idealChainMaxlen ≤ hashBktCapacityThresh ∧
      (t.buckets.map (·.expandMult)).sum ≤ t.numBuckets ∧
      (t.noexpand = 1 ↔ t.ineffExpands > 1) ∧
      (t.ineffExpands ≤ 1 → t.numItems ≤ 20 * t.numBuckets ∧ ∀ b ∈ t.buckets,
        b.count ≤ hashBktCapacityThresh ∨
          b.count < (b.expandMult + 1) * hashBktCapacityThresh) := by
  obtain ⟨items, -, -, hold, hbd⟩ := reachable_table hs ht
  have hlatch : t.noexpand = 1 ↔ t.ineffExpands > 1 := by
    rw [hbd.latch]
    split <;> simp_all
  refine ⟨hbd.ideal, hbd.expandMult, hlatch, fun hineff => ?_⟩
  have hshort := hbd.short fun hno => absurd (hlatch.mp hno) (Nat.not_lt.mpr hineff)
  refine ⟨?_, hshort⟩
  have hsum := sum_count_le hshort
  have hmult := hbd.expandMult
  rw [UtHash.Elements.sum_count hold, ← hold.numItems, hold.length] at hsum
  omega

/-- No counter reaches the end of its 32 bits, nor does what is calculated from it. -/
structure UtHashTable.CountersFit (t : UtHashTable P) : Prop where
  /-- `HASH_EXPAND_BUCKETS` shifts by one more and doubles the number of buckets. -/
  log2NumBuckets : t.log2NumBuckets + 1 < 32
  numBuckets : t.numBuckets * 2 < 2 ^ 32
  idealChainMaxlen : t.idealChainMaxlen < 2 ^ 32
  nonidealItems : t.nonidealItems < 2 ^ 32
  ineffExpands : t.ineffExpands < 2 ^ 32
  count : ∀ b ∈ t.buckets, b.count < 2 ^ 32
  /-- `HASH_ADD_TO_BKT` compares `count` with this. -/
  expandMult : ∀ b ∈ t.buckets, (b.expandMult + 1) * hashBktCapacityThresh < 2 ^ 32

/-- **Natural numbers will do** for the counters of a hash with fewer than 2^32 items and at most
2^28 buckets. -/
theorem counters_fit {t : UtHashTable P} (hs : (hashes P hashFcn).Reachable s)
    (ht : s.hash.tbl = some t) (hitems : t.numItems < 2 ^ 32) (hbuckets : t.numBuckets ≤ 2 ^ 28) :
    t.CountersFit := by
  obtain ⟨items, -, -, hold, hbd⟩ := reachable_table hs ht
  have hideal := hbd.ideal
  have hnonideal := hbd.nonideal
  simp only [hashBktCapacityThresh] at hideal hnonideal
  constructor
  case log2NumBuckets =>
    rw [hold.log2] at hbuckets
    have hle : t.log2NumBuckets ≤ 28 := (Nat.pow_le_pow_iff_right (by decide)).mp hbuckets
    omega
  case numBuckets => omega
  case idealChainMaxlen => omega
  case nonidealItems => omega
  case ineffExpands => exact Nat.lt_of_le_of_lt hbd.ineff (by decide)
  case count =>
    intro b hb
    have hle := List.single_le_sum (l := t.buckets.map (·.count)) (by simp) _
      (List.mem_map_of_mem hb)
    rw [UtHash.Elements.sum_count hold, ← hold.numItems] at hle
    exact Nat.lt_of_le_of_lt hle hitems
  case expandMult =>
    intro b hb
    have hle := List.single_le_sum (l := t.buckets.map (·.expandMult)) (by simp) _
      (List.mem_map_of_mem hb)
    have hmult := hbd.expandMult
    simp only [hashBktCapacityThresh]
    omega

/-- Ten bytes have the same value. -/
def tenHashes (k : List UInt8) : UInt32 := (k.headD 0 / 10).toUInt32

/-- Twenty elements in two chains. -/
def twoChains : Keyed Nat :=
  (UtHashOp.execAll tenHashes (addedBytes 0 20) noElements).getD noElements

theorem twoChains_reachable : (hashes Nat tenHashes).Reachable twoChains := by
  have hsome : (UtHashOp.execAll tenHashes (addedBytes 0 20) noElements).isSome := by
    decide +kernel
  obtain ⟨s, hs⟩ := Option.isSome_iff_exists.mp hsome
  have hinit : (hashes Nat tenHashes).Reachable noElements := .init ⟨rfl, rfl⟩
  rw [twoChains, hs, Option.getD_some]
  exact hinit.run (run_of_execAll hs)

theorem chains_bounded_twoChains : ∃ t, twoChains.hash.tbl = some t ∧ t.idealChainMaxlen ≤ 10 := by
  have hsome : twoChains.hash.tbl.isSome := by decide +kernel
  obtain ⟨t, ht⟩ := Option.isSome_iff_exists.mp hsome
  exact ⟨t, ht, (chains_bounded twoChains_reachable ht).1⟩

/-- The steps that do not take out the last element. -/
def KeepsTable (s : Keyed P) (op : UtHashOp P) : Prop :=
  ∀ p, op = .del p → s.hash.hashCount ≠ some 1

/-- Elements that stay have a table. -/
theorem model_ne_nil (h : s.hash.Elements hashFcn s.key items) (hne : items ≠ [])
    (hkeep : KeepsTable s op) : op.model items ≠ [] := by
  cases op with
  | alloc p k => exact hne
  | free p => exact hne
  | add p => simp [UtHashOp.model]
  | del p =>
      have hcount := hkeep p rfl
      rw [h.hashCount, ne_eq, Option.some_inj] at hcount
      have hpos := List.length_pos_iff.mpr hne
      refine List.length_pos_iff.mp (?_ : 0 < (items.erase p).length)
      rw [List.length_erase]
      split <;> omega

/-- Elements that stay keep the table, and one step makes it grow at most once. -/
theorem step_grows {t : UtHashTable P} (h : s.hash.Elements hashFcn s.key items)
    (hne : items ≠ []) (ht : s.hash.tbl = some t)
    (hstep : ((hashes P hashFcn).restrict KeepsTable).step s op s') :
    s'.hash.Elements hashFcn s'.key (op.model items) ∧ op.model items ≠ [] ∧
      ∃ t', s'.hash.tbl = some t' ∧ t.Grows t' := by
  obtain ⟨⟨hok, hexec⟩, hkeep⟩ := hstep
  obtain ⟨s₁, hexec₁, helements, hgrows⟩ := UtHashOp.exec_elements h hok
  rw [hexec] at hexec₁
  cases hexec₁
  have hne' := model_ne_nil h hne hkeep
  obtain ⟨t', ht', -⟩ := helements.table_eq hne'
  exact ⟨helements, hne', t', ht', hgrows t t' ht ht'⟩

/-- **Inhibited expansion stays inhibited**, and the number of buckets what it is, for as long as
there are elements. -/
theorem noexpand_stays {s' : Keyed P} {t : UtHashTable P} {ops : List (UtHashOp P)}
    (hs : (hashes P hashFcn).Reachable s) (ht : s.hash.tbl = some t) (hno : t.noexpand = 1)
    (hrun : ((hashes P hashFcn).restrict KeepsTable).Run s ops s') :
    ∃ t', s'.hash.tbl = some t' ∧ t'.noexpand = 1 ∧ t'.numBuckets = t.numBuckets := by
  have hinv : ∃ items, s'.hash.Elements hashFcn s'.key items ∧ items ≠ [] ∧
      ∃ t', s'.hash.tbl = some t' ∧ t'.noexpand = 1 ∧ t'.numBuckets = t.numBuckets := by
    induction hrun with
    | refl =>
        obtain ⟨items, h, hne, -⟩ := reachable_table hs ht
        exact ⟨items, h, hne, t, ht, hno, rfl⟩
    | tail hrun hstep ih =>
        obtain ⟨items, h, hne, t', ht', hno', hnum⟩ := ih
        obtain ⟨helements, hne', t'', ht'', hgrows⟩ := step_grows h hne ht' hstep
        obtain ⟨hnum', hno''⟩ | ⟨-, habs⟩ := hgrows
        · exact ⟨_, helements, hne', t'', ht'', hno''.trans hno', hnum'.trans hnum⟩
        · exact absurd hno' habs
  obtain ⟨-, -, -, ht'⟩ := hinv
  exact ht'

/-- A third chain fills its bucket, which would have been expanded before. -/
theorem noexpand_stays_twoChains :
    ∃ t s' t', twoChains.hash.tbl = some t ∧
      ((hashes Nat tenHashes).restrict KeepsTable).Run twoChains (addedBytes 20 10) s' ∧
      s'.hash.tbl = some t' ∧ (∃ b ∈ t'.buckets, b.count = 10 ∧ b.expandMult = 0) ∧
      t'.noexpand = 1 ∧ t'.numBuckets = t.numBuckets := by
  have hno : twoChains.hash.tbl.map (·.noexpand) = some 1 := by decide +kernel
  obtain ⟨t, ht, hno⟩ := Option.map_eq_some_iff.mp hno
  have hfull : ((UtHashOp.execAll tenHashes (addedBytes 20 10) twoChains).bind (·.hash.tbl)).any
      (fun t => t.buckets.any fun b => b.count = 10 ∧ b.expandMult = 0) = true := by
    decide +kernel
  obtain ⟨t', htbl, hfull⟩ := (Option.any_eq_true _ _).mp hfull
  obtain ⟨s', hs', ht'⟩ := Option.bind_eq_some_iff.mp htbl
  have hadds : ∀ op ∈ addedBytes 20 10, ∀ p, op ≠ .del p := by
    intro op hop p
    obtain ⟨q, -, hop⟩ := List.mem_flatMap.mp hop
    rintro rfl
    simp at hop
  have hrun : ((hashes Nat tenHashes).restrict KeepsTable).Run twoChains (addedBytes 20 10) s' :=
    (run_of_execAll hs').restrict fun op hop _ p hp => absurd hp (hadds op hop p)
  obtain ⟨t'', ht'', hno', hnum⟩ := noexpand_stays twoChains_reachable ht hno hrun
  obtain rfl : t'' = t' := Option.some.inj (ht''.symm.trans ht')
  obtain ⟨b, hb, hfull⟩ := List.any_eq_true.mp hfull
  exact ⟨t, s', t'', ht, hrun, ht'', ⟨b, hb, of_decide_eq_true hfull⟩, hno', hnum⟩

end Edfomai
