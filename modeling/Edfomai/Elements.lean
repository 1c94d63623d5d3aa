import Edfomai.Growth

/-!
# Edfomai.Elements

**What a hash contains.** `UtHash.Elements` is the invariant that ties everything `uthash` keeps
in memory to one list: the elements in the order in which they were added. Each macro has one
lemma here that says what it does to that list; a caller needs nothing else. The lemmas also say
that the macro gets to its end, that is, that it touches nothing freed.
-/

namespace Edfomai

open UtHash

namespace UtHash

variable {P : Type}

theorem table_of_live {s : UtHash P} {t : UtHashTable P} (items : List P)
    (hhead : s.head = items.head?) (hne : items ≠ []) (hlive : ∀ p ∈ items, s.links.live p)
    (ht : s.tbl = some t) : s.table = some t := by
  obtain ⟨q, qs, rfl⟩ := List.exists_cons_of_ne_nil hne
  have hq : s.links.live q := hlive q (List.mem_cons_self ..)
  simp [table, hhead, hq, ht]

/-- The hash has the given elements, in this order. -/
structure Elements (hashFcn : List UInt8 → UInt32) (key : P → List UInt8) (s : UtHash P)
    (items : List P) : Prop where
  head : s.head = items.head?
  app : s.links.Seg appOrder none items none
  keylen : ∀ p ∈ items, s.keylen p = (key p).length
  hashv : ∀ p ∈ items, s.hashv p = hashFcn (key p)
  /-- No two elements have the same key. -/
  distinct : (items.map key).Nodup
  /-- There is a table as long as there are elements. -/
  table : match s.tbl with
    | some t =>
        items ≠ [] ∧ t.tail = items.getLast? ∧ t.Holds s.hashv s.links items ∧ t.Bounded
    | none => items = []

namespace Elements

variable {hashFcn : List UInt8 → UInt32} {key key' : P → List UInt8} {s : UtHash P}
  {items : List P} {p : P}

/-- Before the first element is added. -/
theorem empty (hhead : s.head = none) (htbl : s.tbl = none) : Elements hashFcn key s [] := by
  refine ⟨hhead, trivial, by simp, by simp, by simp, ?_⟩
  rw [htbl]

theorem nodup (h : Elements hashFcn key s items) : items.Nodup := h.app.nodup

/-- Without elements there is no table. -/
theorem tbl_nil (h : Elements hashFcn key s []) : s.tbl = none := by
  have htable := h.table
  cases htbl : s.tbl with
  | none => rfl
  | some t =>
      rw [htbl] at htable
      exact absurd rfl htable.1

/-- The table, as the macros reach it. -/
theorem table_eq (h : Elements hashFcn key s items) (hne : items ≠ []) :
    ∃ t, s.tbl = some t ∧ s.table = some t ∧ t.tail = items.getLast? ∧
      t.Holds s.hashv s.links items ∧ t.Bounded := by
  have htable := h.table
  cases htbl : s.tbl with
  | none => exact absurd (by simpa [htbl] using htable) hne
  | some t =>
      simp only [htbl] at htable
      obtain ⟨-, htail, hold, hbd⟩ := htable
      exact ⟨t, rfl, table_of_live items h.head hne h.app.live htbl, htail, hold, hbd⟩

/-- The bucket of a hash value is there. -/
theorem bucket {t : UtHashTable P} (ht : t.Holds s.hashv s.links items) (v : UInt32) :
    ∃ b xs, t.buckets[hashToBkt v t.numBuckets]? = some b ∧ b.Holds s.links xs ∧
      xs.Perm (itemsOf s.hashv t.numBuckets items (hashToBkt v t.numBuckets)) := by
  have hlt : hashToBkt v t.numBuckets < t.buckets.length := by
    rw [ht.length, ht.log2]
    exact hashToBkt_lt _ _
  obtain ⟨xs, hxs, hperm⟩ := ht.hold _ _ (List.getElem?_eq_getElem hlt)
  rw [ht.length] at hperm
  exact ⟨_, xs, List.getElem?_eq_getElem hlt, hxs, hperm⟩

/-- No bucket is longer than the hash has items, so no loop over one is cut off. -/
theorem length_le {t : UtHashTable P} {n i : Nat} {xs : List P}
    (ht : t.Holds s.hashv s.links items) (hperm : xs.Perm (itemsOf s.hashv n items i)) :
    xs.length ≤ t.numItems := by
  rw [hperm.length_eq, ht.numItems]
  exact List.length_filter_le ..

/-- Only the keys of the elements matter. -/
theorem congr_key (h : Elements hashFcn key s items) (hk : ∀ p ∈ items, key' p = key p) :
    Elements hashFcn key' s items where
  head := h.head
  app := h.app
  keylen p hp := by rw [hk p hp]; exact h.keylen p hp
  hashv p hp := by rw [hk p hp]; exact h.hashv p hp
  distinct := by
    rw [List.map_congr_left hk]
    exact h.distinct
  table := h.table

/-- Only the links of the elements matter: other blocks may be allocated and freed. -/
theorem congr_live (h : Elements hashFcn key s items) {m : LinkHeap UtHashField P}
    (hfield : m.field = s.links.field) (hlive : ∀ p ∈ items, m.live p = s.links.live p) :
    Elements hashFcn key { s with links := m } items where
  head := h.head
  app := h.app.congr fun p hp => ⟨hlive p hp, by rw [hfield], by rw [hfield]⟩
  keylen := h.keylen
  hashv := h.hashv
  distinct := h.distinct
  table := by
    have htable := h.table
    cases htbl : s.tbl with
    | none => simpa [htbl] using htable
    | some t =>
        simp only [htbl] at htable ⊢
        obtain ⟨hne, htail, ht, hbd⟩ := htable
        exact ⟨hne, htail, ⟨ht.numItems, ht.length, ht.log2, ht.hold.congr_links fun p hp =>
          ⟨hlive p hp, by rw [hfield], by rw [hfield]⟩⟩, hbd⟩

/-! ### Finding -/

/-- The macro's test finds out whether the key is the one sought. -/
theorem hasKey_iff (h : Elements hashFcn key s items) (hp : p ∈ items) (k : List UInt8) :
    s.hasKey key k p = true ↔ key p = k := by
  have hlen := h.keylen p hp
  simp only [hasKey, hashKeycmp, Bool.and_eq_true, beq_iff_eq, hlen]
  constructor
  · rintro ⟨hlen, hcmp⟩
    rwa [← hlen, List.take_length, hlen, List.take_length] at hcmp
  · rintro rfl
    exact ⟨rfl, rfl⟩

/-- **`HASH_FIND_STR`** finds the element with the key, if there is one. -/
theorem hashFindStr (h : Elements hashFcn key s items) (k : List UInt8) :
    ∃ out, s.hashFindStr hashFcn key k = some out ∧
      ∀ p, out = some p ↔ p ∈ items ∧ key p = k := by
  rcases List.eq_nil_or_concat' items with rfl | hcons
  · exact ⟨none, by simp [UtHash.hashFindStr, h.head], by simp⟩
  · have hne : items ≠ [] := by
      obtain ⟨l, p, rfl⟩ := hcons
      simp
    obtain ⟨t, -, htable, -, ht, -⟩ := h.table_eq hne
    obtain ⟨b, xs, hb, hxs, hperm⟩ := bucket ht (hashFcn k)
    have hmem : ∀ p, p ∈ xs ↔ p ∈ items ∧
        hashToBkt (s.hashv p) t.numBuckets = hashToBkt (hashFcn k) t.numBuckets := by
      intro p
      simpa [itemsOf] using hperm.mem_iff (a := p)
    obtain ⟨q, qs, hq⟩ := List.exists_cons_of_ne_nil hne
    refine ⟨xs.find? (s.hasKey key k), ?_, fun p => ⟨fun hfind => ?_, fun hpk => ?_⟩⟩
    · have hsearch := LinkHeap.search_seg (s.hasKey key k) hxs.seg (length_le ht hperm)
      simp [UtHash.hashFindStr, h.head, hq, htable, hb, hxs.hhHead, hsearch]
    · have hp := ((hmem p).mp (List.mem_of_find?_eq_some hfind)).1
      exact ⟨hp, (h.hasKey_iff hp k).mp (List.find?_some hfind)⟩
    · obtain ⟨hp, hk⟩ := hpk
      have hpxs : p ∈ xs := (hmem p).mpr ⟨hp, by rw [h.hashv p hp, hk]⟩
      cases hfind : xs.find? (s.hasKey key k) with
      | none =>
          exact absurd ((h.hasKey_iff hp k).mpr hk) (List.find?_eq_none.mp hfind p hpxs)
      | some q =>
          have hqi := ((hmem q).mp (List.mem_of_find?_eq_some hfind)).1
          have hqk := (h.hasKey_iff hqi k).mp (List.find?_some hfind)
          rw [List.inj_on_of_nodup_map h.distinct hqi hp (hqk.trans hk.symm)]

/-! ### Counting, iterating, checking -/

/-- **`HASH_COUNT`** -/
theorem hashCount (h : Elements hashFcn key s items) : s.hashCount = some items.length := by
  cases hitems : items with
  | nil => simp [UtHash.hashCount, h.head, hitems]
  | cons q qs =>
      obtain ⟨t, -, htable, -, ht, -⟩ := h.table_eq (by simp [hitems])
      simp [UtHash.hashCount, h.head, hitems, htable, ht.numItems]

/-- **`HASH_ITER`** visits what it finds linked: the rule for loops over the elements. -/
theorem hashIter {σ : Type} (hash : σ → UtHash P) (body : P → σ → Option σ)
    (I : List P → σ → Prop) {s : σ} (h : Elements hashFcn key (hash s) items)
    (hnext : ∀ x xs s, I (x :: xs) s → (hash s).links.load .next x = some xs.head?)
    (hbody : ∀ x xs s, I (x :: xs) s → ∃ s', body x s = some s' ∧ I xs s') (hs : I items s) :
    ∃ s', UtHash.hashIter hash body s = some s' ∧ I [] s' := by
  obtain ⟨s', hloop, hdone⟩ := LinkHeap.forEach_rule appOrder
    (fun s => (hash s).links) body I hnext hbody hs (Nat.le_refl _)
  refine ⟨s', ?_, hdone⟩
  simp only [UtHash.hashIter, h.hashCount, h.head, Option.bind_eq_bind, Option.bind_some]
  exact hloop

theorem fsckList_seg {o : Order UtHashField} {m : LinkHeap UtHashField P} {b : Option P}
    {xs : List P} {n : Nat} [DecidableEq P] (h : m.Seg o b xs none) (hn : xs.length ≤ n) :
    fsckList o m n b xs.head? = some xs.length := by
  induction xs generalizing b n with
  | nil => cases n <;> rfl
  | cons x xs ih =>
      obtain ⟨hx, hprev, hnext, hxs⟩ := h
      cases n with
      | zero => simp at hn
      | succ n =>
          have hrest := ih hxs (Nat.le_of_succ_le_succ hn)
          rw [Option.or_none] at hnext
          simp [fsckList, LinkHeap.load_of_live hx, hprev, hnext, hrest]

/-- The buckets together count every item once. -/
theorem sum_count {hashv : P → UInt32} {m : LinkHeap UtHashField P} {t : UtHashTable P}
    (ht : t.Holds hashv m items) : (t.buckets.map (·.count)).sum = items.length := by
  have hsum : ∀ i ≤ t.buckets.length, ((t.buckets.take i).map (·.count)).sum =
      (itemsBelow hashv t.buckets.length items i).length := by
    intro i
    induction i with
    | zero => intro _; simp [itemsBelow]
    | succ i ih =>
        intro hi
        have hget := List.getElem?_eq_getElem (l := t.buckets) (i := i) hi
        obtain ⟨xs, hxs, hperm⟩ := ht.hold i _ hget
        rw [List.take_succ_eq_append_getElem hi, List.map_append, List.sum_append,
          ih (Nat.le_of_succ_le hi), ← (itemsBelow_succ hashv _ items i).length_eq,
          List.length_append, ← hperm.length_eq]
        simp [hxs.count]
  have hall := hsum _ (Nat.le_refl _)
  rw [List.take_length] at hall
  rw [hall, itemsBelow_all ht.length ht.log2]

/-- **`HASH_FSCK`** finds nothing wrong. -/
theorem hashFsck [DecidableEq P] (h : Elements hashFcn key s items) : s.hashFsck = true := by
  cases hitems : items with
  | nil => simp [UtHash.hashFsck, h.head, hitems]
  | cons q qs =>
      obtain ⟨t, -, htable, -, ht, -⟩ := h.table_eq (by simp [hitems])
      have hhead : s.head = some q := by rw [h.head, hitems, List.head?_cons]
      have happ : fsckList appOrder s.links t.numItems none (some q) = some t.numItems := by
        rw [← hhead, h.head, ht.numItems]
        exact fsckList_seg h.app (Nat.le_refl _)
      have hcounts : ((List.range t.numBuckets).map fun i =>
          t.buckets[i]?.bind fun b => fsckList bktOrder s.links t.numItems none b.hhHead) =
            t.buckets.map fun b => some b.count := by
        refine List.ext_getElem (by simp [ht.length]) fun i hi hi' => ?_
        have hib : i < t.buckets.length := by simpa using hi'
        obtain ⟨xs, hxs, hperm⟩ := ht.hold i _ (List.getElem?_eq_getElem hib)
        simp [hib, hxs.hhHead, hxs.count, fsckList_seg hxs.seg (length_le ht hperm)]
      have hsum := (sum_count ht).trans ht.numItems.symm
      simp [UtHash.hashFsck, hhead, htable, happ, hcounts, hsum]

/-! ### Adding -/

section Adding

variable [DecidableEq P]

/-- The new element is linked at the end; the buckets are as before. -/
theorem hashAppend (h : Elements hashFcn key s items) (hp : s.links.live p) (hnew : p ∉ items) :
    ∃ m t, s.hashAppend true p = some { s with
        head := (items ++ [p]).head?, links := m, tbl := some t } ∧
      m.Seg appOrder none (items ++ [p]) none ∧ t.tail = some p ∧ t.Holds s.hashv m items ∧
      t.Bounded ∧
      (∀ t₀, s.tbl = some t₀ → t.numBuckets = t₀.numBuckets ∧ t.noexpand = t₀.noexpand) ∧
      m.live = s.links.live := by
  rcases List.eq_nil_or_concat' items with rfl | ⟨l, q, rfl⟩
  · let m := (s.links.put .next p none).put .prev p none
    have hprev : m.field .prev p = none := LinkHeap.put_field_self
    have hnext : m.field .next p = none :=
      (LinkHeap.put_field_of_ne (Or.inl (by decide))).trans LinkHeap.put_field_self
    refine ⟨m, newTable p, ?_, ⟨hp, hprev, hnext, trivial⟩, rfl,
      ⟨rfl, List.length_replicate, rfl, BucketsHold.replicate_zero _ _ _⟩, newTable_bounded p,
      by simp [h.tbl_nil], rfl⟩
    simp [UtHash.hashAppend, h.head, LinkHeap.store_of_live, hp, hashMakeTable, m]
  · have hne : l ++ [q] ≠ [] := by simp
    obtain ⟨t, htbl, htable, htail, ht, hbd⟩ := h.table_eq hne
    obtain ⟨m, hm, hseg, hframe⟩ := LinkHeap.pushBack_seg h.app hp hnew
    have hhead : (l ++ [q] ++ [p]).head? = (l ++ [q]).head? := by cases l <;> rfl
    obtain ⟨q', hq'⟩ : ∃ q', (l ++ [q]).head? = some q' := by cases l <;> exact ⟨_, rfl⟩
    refine ⟨m, { t with tail := some p }, ?_, hseg, rfl,
      ⟨ht.numItems, ht.length, ht.log2, ht.hold.congr_links fun x _ => ?_⟩,
      hbd.congr rfl rfl rfl rfl rfl rfl rfl, fun t₀ ht₀ => ?_, hframe.live⟩
    · rw [hhead, ← h.head]
      have htail' : t.tail = some q := by rw [htail]; simp
      simp [UtHash.hashAppend, h.head, hq', htable, htail', hm]
    · exact ⟨by rw [hframe.live], hframe.field _ x (Or.inl (by decide)),
        hframe.field _ x (Or.inl (by decide))⟩
    · rw [htbl] at ht₀
      cases ht₀
      exact ⟨rfl, rfl⟩

/-- The new element is put into its bucket; if that is too long now, the buckets are
expanded. -/
theorem hashAddToBkt {t : UtHashTable P} {i : Nat} (htable : s.table = some t)
    (hnum : t.numItems = items.length + 1) (hlen : t.buckets.length = t.numBuckets)
    (hlog : t.numBuckets = 2 ^ t.log2NumBuckets)
    (hold : BucketsHold s.hashv s.links t.buckets items) (hbd : t.Bounded) (hp : s.links.live p)
    (hnew : p ∉ items) (hi : hashToBkt (s.hashv p) t.numBuckets = i) :
    ∃ m t', UtHash.hashAddToBkt true i p s = some { s with links := m, tbl := some t' } ∧
      t'.Holds s.hashv m (items ++ [p]) ∧ s.links.Frame bktOrder (p :: items) m ∧
      t'.tail = t.tail ∧ t'.Bounded ∧ t.Grows t' := by
  have hlt : i < t.buckets.length := by
    rw [hlen, ← hi, hlog]
    exact hashToBkt_lt _ _
  have hb : t.buckets[i]? = some t.buckets[i] := List.getElem?_eq_getElem hlt
  generalize t.buckets[i] = b at hb
  obtain ⟨m, hm, hold', hframe⟩ :=
    hold.pushFront hp hnew (by rw [hlen, hi]) hb b.expandMult
  let t₁ := { t with buckets := t.buckets.set i ⟨some p, b.count + 1, b.expandMult⟩ }
  let s₁ := { s with links := m, tbl := some t₁ }
  have ht₁ : t₁.Holds s.hashv m (items ++ [p]) :=
    ⟨by simpa using hnum, by simpa [t₁] using hlen, hlog, hold'⟩
  by_cases hover : UtHashBucket.Overfull ⟨some p, b.count + 1, b.expandMult⟩ t₁
  · obtain ⟨e, he, hte, hframe', hmult, hnonideal⟩ := hashExpandBuckets_spec (s := s₁) ht₁ (by simp)
    have hitems : t₁.numItems ≤ 20 * t₁.numBuckets := by
      rw [ht₁.numItems, ← sum_count ht₁]
      exact hbd.items_le hover.2 hlen hlog hb rfl
    have hbd' := expanded_bounded (t := t₁) (e := e) hbd.log2 hlog hbd.latch hover.2 hitems
      (idealChainMaxlen_pos ht₁ (by simp)) ((sum_count hte).trans ht₁.numItems.symm) hmult
      hnonideal
    refine ⟨e.links, expanded t₁ e, ?_, hte, hframe.trans (hframe'.mono ?_), rfl, hbd',
      Or.inr ⟨rfl, hover.2⟩⟩
    · simp only [UtHash.hashAddToBkt, htable, hb, hm, Option.bind_eq_bind, Option.bind_some]
      rw [if_pos hover]
      exact he
    · simp
  · refine ⟨m, t₁, ?_, ht₁, hframe, rfl, hbd.push hb rfl hover, Or.inl ⟨rfl, rfl⟩⟩
    simp only [UtHash.hashAddToBkt, htable, hb, hm, Option.bind_eq_bind, Option.bind_some]
    exact if_neg hover

/-- **`HASH_ADD_STR`** adds an element after those that are there. -/
theorem hashAddStr (h : Elements hashFcn key s items) (hp : s.links.live p) (hnew : p ∉ items)
    (hkey : key p ∉ items.map key) :
    ∃ s', s.hashAddStr hashFcn key true p = some s' ∧
      Elements hashFcn key s' (items ++ [p]) ∧ s'.links.live = s.links.live ∧
      ∀ t t', s.tbl = some t → s'.tbl = some t' → t.Grows t' := by
  obtain ⟨m, t, happ, hseg, htail, ht, hbd, hgrow, hlive⟩ := h.hashAppend hp hnew
  have hold : ∀ q ∈ items, q ≠ p := fun q hq hqp => hnew (hqp ▸ hq)
  let hashv := Function.update s.hashv p (hashFcn (key p))
  have hhashv : ∀ q ∈ items, hashv q = s.hashv q := fun q hq =>
    Function.update_of_ne (hold q hq) ..
  let s₁ : UtHash P :=
    { head := (items ++ [p]).head?
      tbl := some { t with numItems := t.numItems + 1 }
      links := m
      keylen := Function.update s.keylen p (key p).length
      hashv := hashv }
  have htable : s₁.table = some { t with numItems := t.numItems + 1 } :=
    table_of_live (items ++ [p]) rfl (by simp) hseg.live rfl
  obtain ⟨m', t', hadd, ht', hframe, htail', hbd', hgrow'⟩ := hashAddToBkt (s := s₁) htable
    (by simp [ht.numItems]) ht.length ht.log2 (ht.hold.congr_hashv hhashv)
    (hbd.congr rfl rfl rfl rfl rfl rfl rfl) (by rw [hlive]; exact hp) hnew rfl
  refine ⟨{ s₁ with links := m', tbl := some t' }, ?_,
    ⟨rfl, hseg.frame hframe (by decide) (by decide), ?_, ?_, ?_, ?_⟩, hframe.live.trans hlive, ?_⟩
  · have htable₀ : ({ s with head := (items ++ [p]).head?, links := m, tbl := some t } :
        UtHash P).table = some t :=
      table_of_live (items ++ [p]) rfl (by simp) hseg.live rfl
    have hv : s₁.hashv p = hashFcn (key p) := Function.update_self ..
    rw [hv] at hadd
    simp only [UtHash.hashAddStr, happ, Option.bind_eq_bind, Option.bind_some, htable₀]
    exact hadd
  · intro q hq
    rcases List.mem_append.mp hq with hq | hq
    · exact (Function.update_of_ne (hold q hq) ..).trans (h.keylen q hq)
    · obtain rfl := List.mem_singleton.mp hq
      exact Function.update_self ..
  · intro q hq
    rcases List.mem_append.mp hq with hq | hq
    · exact (hhashv q hq).trans (h.hashv q hq)
    · obtain rfl := List.mem_singleton.mp hq
      exact Function.update_self ..
  · rw [List.map_append, List.nodup_append]
    exact ⟨h.distinct, by simp, fun k hk k' hk' hkk => hkey (by simp_all)⟩
  · exact ⟨by simp, by simp [htail', htail], ht', hbd'⟩
  · intro t₀ t₁ ht₀ ht₁
    cases ht₁
    obtain ⟨hnum, hno⟩ := hgrow t₀ ht₀
    exact hgrow'.congr hnum hno

/-! ### Deleting -/

omit [DecidableEq P] in
/-- The head of the list without an element. -/
theorem head_delete (l l' : List P) (p : P) :
    (if l.getLast? = none then l'.head? else (l ++ p :: l').head?) = (l ++ l').head? := by
  cases l <;> simp

/-- Its tail. -/
theorem tail_delete {t : UtHashTable P} {l l' : List P}
    (htail : t.tail = (l ++ p :: l').getLast?) (hp : p ∉ l') :
    (if t.tail = some p then { t with tail := l.getLast? } else t) =
      { t with tail := (l ++ l').getLast? } := by
  cases l' with
  | nil => simp [htail]
  | cons q l' =>
      have hlast : t.tail = (q :: l').getLast? := by
        rw [htail]
        simp [List.getLast?_append, List.getLast?_cons]
      have hne : t.tail ≠ some p := fun hq => hp (List.mem_of_getLast? (hlast ▸ hq))
      have hsame : (l ++ q :: l').getLast? = t.tail := by
        rw [hlast]
        simp [List.getLast?_append, List.getLast?_cons]
      rw [if_neg hne, hsame]

/-- **`HASH_DEL`** takes out the element; the others keep their order. -/
theorem hashDelete (h : Elements hashFcn key s items) (hp : p ∈ items) :
    ∃ s', s.hashDelete p = some s' ∧ Elements hashFcn key s' (items.erase p) ∧
      s'.links.live = s.links.live ∧ ∀ t t', s.tbl = some t → s'.tbl = some t' → t.Grows t' := by
  obtain ⟨l, l', rfl⟩ := List.append_of_mem hp
  have hnd := h.nodup
  have hpl : p ∉ l := fun hpl => (List.nodup_append.mp hnd).2.2 p hpl p (by simp) rfl
  have hpl' : p ∉ l' := (List.nodup_cons.mp (List.nodup_append.mp hnd).2.1).1
  have herase : (l ++ p :: l').erase p = l ++ l' := by
    rw [List.erase_append_right _ hpl, List.erase_cons_head]
  obtain ⟨t, htbl, htable, htail, ht, hbd⟩ := h.table_eq (by simp)
  obtain ⟨-, hlive, hprev, hnext, -⟩ := LinkHeap.seg_append.mp h.app
  replace hprev : s.links.field .prev p = l.getLast? := hprev.trans (Option.or_none ..)
  replace hnext : s.links.field .next p = l'.head? := hnext.trans (Option.or_none ..)
  by_cases hlast : l ++ l' = []
  · -- the last element takes the table with it
    rw [herase]
    obtain ⟨rfl, rfl⟩ := List.append_eq_nil_iff.mp hlast
    refine ⟨{ s with head := none, tbl := none }, ?_, .empty rfl rfl, rfl, by simp⟩
    simp [UtHash.hashDelete, LinkHeap.load_of_live hlive, hprev, hnext, htable]
  · obtain ⟨m, hm, hseg, hframe⟩ := LinkHeap.unlink_seg h.app
    let s₁ : UtHash P :=
      { s with
        head := (l ++ l').head?
        links := m
        tbl := some { t with tail := (l ++ l').getLast? } }
    have htable₁ : s₁.table = some { t with tail := (l ++ l').getLast? } :=
      table_of_live _ rfl hlast hseg.live rfl
    have hold : BucketsHold s.hashv m t.buckets (l ++ p :: l') := ht.hold.congr_links fun q _ =>
      ⟨by rw [hframe.live], hframe.field _ q (Or.inl (by decide)),
        hframe.field _ q (Or.inl (by decide))⟩
    obtain ⟨b, -, hb, -, -⟩ := bucket ht (s.hashv p)
    obtain ⟨b', m', hdel, hcount, hmult, hold', hframe'⟩ :=
      hold.delInBkt hp (by rw [ht.length]) hb
    have hnum : t.numItems - 1 = ((l ++ p :: l').erase p).length := by
      simp [herase, ht.numItems]
    have hsub : ∀ q ∈ (l ++ p :: l').erase p, q ∈ l ++ p :: l' := fun q => List.mem_of_mem_erase
    let t' : UtHashTable P :=
      { t with
        tail := (l ++ l').getLast?
        buckets := t.buckets.set (hashToBkt (s.hashv p) t.numBuckets) b'
        numItems := t.numItems - 1 }
    have ht' : t'.Holds s.hashv m' ((l ++ p :: l').erase p) :=
      ⟨hnum, List.length_set.trans ht.length, ht.log2, hold'⟩
    refine ⟨{ s₁ with links := m', tbl := some t' }, ?_,
      ⟨herase ▸ rfl, ?_, ?_, ?_, ?_, herase ▸ hlast, herase ▸ rfl, ht', ?_⟩,
      hframe'.live.trans hframe.live, ?_⟩
    · have hnone : ¬(l.getLast? = none ∧ l'.head? = none) := by simpa using hlast
      simp only [UtHash.hashDelete, LinkHeap.load_of_live hlive, hprev, hnext, htable,
        Option.bind_eq_bind, Option.bind_some, if_neg hnone, hm, h.head, head_delete,
        tail_delete htail hpl']
      show (s₁.table.bind _) = _
      simp only [htable₁, hb, hdel, Option.bind_some]
      rfl
    · rw [herase]
      exact hseg.frame hframe' (by decide) (by decide)
    · exact fun q hq => h.keylen q (hsub q hq)
    · exact fun q hq => h.hashv q (hsub q hq)
    · exact h.distinct.sublist (List.erase_sublist.map key)
    · exact (hbd.pop hb hmult hcount).congr rfl rfl rfl rfl rfl rfl rfl
    · intro t₀ t₁ ht₀ ht₁
      rw [htbl] at ht₀
      cases ht₀
      cases ht₁
      exact Or.inl ⟨rfl, rfl⟩

end Adding

end Elements

/-! ### Without memory

Where `uthash_malloc` is not asked, its answer does not matter, and where it is asked a macro
that completes has got what it asked for. -/

section Memory

variable [DecidableEq P] {hashFcn : List UInt8 → UInt32} {key : P → List UInt8} {s s' : UtHash P}
  {mem : Bool} {p : P} {i : Nat}

theorem hashAppend_of_some (h : s.hashAppend mem p = some s') : s.hashAppend true p = some s' := by
  cases mem with
  | true => exact h
  | false =>
      unfold hashAppend at h ⊢
      cases hhead : s.head with
      | none => simp [hhead, hashMakeTable] at h
      | some q => simpa [hhead] using h

theorem hashAddToBkt_of_some (h : hashAddToBkt mem i p s = some s') :
    hashAddToBkt true i p s = some s' := by
  cases mem with
  | true => exact h
  | false =>
      obtain ⟨t, ht, h⟩ := Option.bind_eq_some_iff.mp h
      obtain ⟨b, hb, h⟩ := Option.bind_eq_some_iff.mp h
      obtain ⟨m, hm, h⟩ := Option.bind_eq_some_iff.mp h
      simp only [hashAddToBkt, ht, hb, hm, Option.bind_eq_bind, Option.bind_some]
      dsimp only at h
      split at h
      · simp [hashExpandBuckets] at h
      · next hover => rwa [if_neg hover]

theorem hashAddStr_of_some (h : s.hashAddStr hashFcn key mem p = some s') :
    s.hashAddStr hashFcn key true p = some s' := by
  obtain ⟨s₁, hs₁, h⟩ := Option.bind_eq_some_iff.mp h
  obtain ⟨t, ht, h⟩ := Option.bind_eq_some_iff.mp h
  simp only [hashAddStr, hashAppend_of_some hs₁, ht, Option.bind_eq_bind, Option.bind_some]
  exact hashAddToBkt_of_some h

end Memory

end UtHash

end Edfomai
