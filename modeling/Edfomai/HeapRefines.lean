import Edfomai.Heap
import Edfomai.Steps

/-!
# Edfomai.HeapRefines

**The pointers implement the table.** `Shows` relates the driver in memory to the driver of
`Edfomai.Driver`: the elements of the hash, in order, are the entries of the table, under the
names that are in them. Everything the functions do to memory has one lemma that says what it
does to the table; `exec_rel` puts these together for the operations, which give the same
result on both sides and leave related states, or come to nothing on both sides.
-/

namespace Edfomai

namespace HeapDriver

/-- The entry of the table that the record at an address is. -/
def entry (c : HeapDriver) (p : Block) : Σ _ : TaskName, RtDtask :=
  ⟨(c.dtask p).taskInfo.name, ⟨c.dtask p, p⟩⟩

theorem entry_eq {c : HeapDriver} {r : RtDtask} (h : c.dtask r.addr = r.toRtDeadlineTask) :
    c.entry r.addr = ⟨r.taskInfo.name, r⟩ := by
  rw [entry, h]

/-- Memory shows the table. The blocks `spare` are allocated but not in the table: an operation
has just allocated them, or is about to free them. -/
structure Shows (hashFcn : List UInt8 → UInt32) (items spare : List Block) (c : HeapDriver)
    (d : Driver) : Prop where
  elements : c.dtaskMap.Elements hashFcn c.key items
  entries : d.dtaskMap.entries = items.map c.entry
  kernel : d.kernel = c.kernel
  /-- A record holds the name of its task. -/
  named : ∀ p ∈ items, c.kernel.name (c.dtask p).task = (c.dtask p).taskInfo.name
  /-- No other block is allocated. -/
  live : ∀ p, c.dtaskMap.links.live p = true ↔ p ∈ items ∨ p ∈ spare
  apart : ∀ p ∈ spare, p ∉ items

variable {hashFcn : List UInt8 → UInt32} {items spare : List Block} {c : HeapDriver} {d : Driver}
  {p : Block}

namespace Shows

theorem log (h : Shows hashFcn items spare c d) (e : Event) :
    Shows hashFcn items spare (c.log e) (d.log e) :=
  ⟨h.elements, h.entries, congrArg (·.log e) h.kernel, h.named, h.live, h.apart⟩

/-- The addresses of the records are the addresses in the table. -/
theorem addrs (h : Shows hashFcn items spare c d) : d.addrs = items := by
  rw [Driver.addrs, Table.addrs, h.entries, List.map_map]
  exact List.map_id' items

theorem lookup (h : Shows hashFcn items spare c d) (hp : p ∈ items) :
    d.dtaskMap.lookup (c.dtask p).taskInfo.name = some ⟨c.dtask p, p⟩ := by
  refine AList.mem_lookup_iff.mpr ?_
  rw [h.entries]
  exact List.mem_map_of_mem (f := c.entry) hp

/-- Distinct records have distinct names. -/
theorem name_inj (h : Shows hashFcn items spare c d) {q : Block} (hp : p ∈ items) (hq : q ∈ items)
    (hname : (c.dtask p).taskInfo.name = (c.dtask q).taskInfo.name) : p = q :=
  List.inj_on_of_nodup_map h.elements.distinct hp hq (congrArg TaskName.chars hname)

/-- **`HASH_FIND_STR`** returns the record that the table has under the name. -/
theorem find (h : Shows hashFcn items spare c d) (name : TaskName) :
    (c.find hashFcn name = some none ∧ d.dtaskMap.lookup name = none) ∨
      ∃ p ∈ items, c.find hashFcn name = some (some p) ∧
        d.dtaskMap.lookup name = some ⟨c.dtask p, p⟩ ∧ (c.dtask p).taskInfo.name = name := by
  obtain ⟨out, hout, hiff⟩ := h.elements.hashFindStr name.chars
  cases out with
  | some p =>
      obtain ⟨hp, hkey⟩ := (hiff p).mp rfl
      obtain rfl : (c.dtask p).taskInfo.name = name := TaskName.ext hkey
      exact Or.inr ⟨p, hp, hout, h.lookup hp, rfl⟩
  | none =>
      refine Or.inl ⟨hout, AList.lookup_eq_none.mpr fun hmem => ?_⟩
      have hkeys : name ∈ d.dtaskMap.entries.keys := hmem
      rw [h.entries, List.keys, List.map_map] at hkeys
      obtain ⟨p, hp, rfl⟩ := List.mem_map.mp hkeys
      exact absurd ((hiff p).mpr ⟨hp, rfl⟩) (by simp)

/-! ### Rewriting a record -/

/-- A record has been rewritten: what the table has to be then. -/
theorem rewrite (h : Shows hashFcn items spare c d) {c' : HeapDriver} {d' : Driver}
    (hmap : c'.dtaskMap = c.dtaskMap) (hkernel : c'.kernel.name = c.kernel.name)
    (hname : ∀ q ∈ items, (c'.dtask q).taskInfo.name = (c.dtask q).taskInfo.name)
    (htask : ∀ q ∈ items, (c'.dtask q).task = (c.dtask q).task)
    (hentries : d'.dtaskMap.entries = items.map c'.entry) (hk : d'.kernel = c'.kernel) :
    Shows hashFcn items spare c' d' where
  elements := by
    rw [hmap]
    exact h.elements.congr_key fun q hq => congrArg TaskName.chars (hname q hq)
  entries := hentries
  kernel := hk
  named q hq := by
    rw [hkernel, htask q hq, hname q hq]
    exact h.named q hq
  live := by
    rw [hmap]
    exact h.live
  apart := h.apart

/-- Rewriting the record found under a name. -/
theorem adjust (h : Shows hashFcn items spare c d) (hp : p ∈ items) {f : RtDtask → RtDtask}
    (haddr : ∀ r, (f r).addr = r.addr) (htask : ∀ r, (f r).task = r.task)
    (hinfo : ∀ r, (f r).taskInfo = r.taskInfo) :
    ∃ c', c.adjust p f = some c' ∧
      Shows hashFcn items spare c' (d.adjust (c.dtask p).taskInfo.name f) := by
  have hlive : c.dtaskMap.links.live p = true := (h.live p).mpr (Or.inl hp)
  let c' : HeapDriver :=
    { c with dtask := Function.update c.dtask p (f ⟨c.dtask p, p⟩).toRtDeadlineTask }
  have hself : c'.dtask p = (f ⟨c.dtask p, p⟩).toRtDeadlineTask := Function.update_self ..
  have hother : ∀ q, q ≠ p → c'.dtask q = c.dtask q := fun q hq => Function.update_of_ne hq ..
  refine ⟨c', by simp [HeapDriver.adjust, HeapDriver.load, HeapDriver.store, hlive, c'],
    h.rewrite rfl rfl (fun q _ => ?_) (fun q _ => ?_) ?_ h.kernel⟩
  · rcases eq_or_ne q p with rfl | hq
    · rw [hself, hinfo]
    · rw [hother q hq]
  · rcases eq_or_ne q p with rfl | hq
    · rw [hself, htask]
    · rw [hother q hq]
  · rw [Driver.adjust_dtaskMap, Table.adjust, Table.entries_mapValues, h.entries, List.map_map]
    refine List.map_congr_left fun q hq => ?_
    rcases eq_or_ne q p with rfl | hqp
    · have hentry : c'.entry q = ⟨(f ⟨c.dtask q, q⟩).taskInfo.name, f ⟨c.dtask q, q⟩⟩ := by
        have hq' : (f ⟨c.dtask q, q⟩).addr = q := haddr _
        rw [← entry_eq (by rw [hq', hself]), hq']
      rw [hentry]
      simp [entry, Sigma.map, hinfo]
    · have hne : (c.dtask q).taskInfo.name ≠ (c.dtask p).taskInfo.name :=
        fun hname => hqp (h.name_inj hq hp hname)
      simp [entry, Sigma.map, hne, hother q hqp]

/-! ### Blocks -/

/-- A block that is not in use is allocated. -/
theorem alloc (h : Shows hashFcn items [] c d) (hfresh : p ∉ items) :
    Shows hashFcn items [p] (c.alloc p) (d.log (.malloc (some p))) where
  elements := by
    refine h.elements.congr_live rfl fun q hq => ?_
    have hqp : q ≠ p := fun hqp => hfresh (hqp ▸ hq)
    exact Function.update_of_ne hqp ..
  entries := h.entries
  kernel := congrArg (Kernel.log (.malloc (some p))) h.kernel
  named := h.named
  live q := by
    rcases eq_or_ne q p with rfl | hq
    · simp [HeapDriver.alloc, HeapDriver.log, LinkHeap.alloc]
    · simpa [HeapDriver.alloc, HeapDriver.log, LinkHeap.alloc, hq] using h.live q
  apart := by simpa using hfresh

/-- A block that is not in the table is freed. -/
theorem free (h : Shows hashFcn items [p] c d) :
    ∃ c', c.free p = some c' ∧ Shows hashFcn items [] c' (d.log (.free (some p))) := by
  have hp : c.dtaskMap.links.live p = true := (h.live p).mpr (by simp)
  have hnotin : p ∉ items := h.apart p (by simp)
  refine ⟨_, if_pos hp, ?_, h.entries,
    congrArg (Kernel.log (.free (some p))) h.kernel, h.named, fun q => ?_, by simp⟩
  · refine h.elements.congr_live rfl fun q hq => ?_
    have hqp : q ≠ p := fun hqp => hnotin (hqp ▸ hq)
    exact Function.update_of_ne hqp ..
  · rcases eq_or_ne q p with rfl | hq
    · simp [HeapDriver.log, LinkHeap.free, hnotin]
    · simpa [HeapDriver.log, LinkHeap.free, hq] using h.live q

/-- A record that is not in the table is filled in. -/
theorem store (h : Shows hashFcn items [p] c d) (r : RtDeadlineTask) :
    ∃ c', c.store p r = some c' ∧ Shows hashFcn items [p] c' d ∧ c'.dtask p = r ∧
      c'.kernel = c.kernel := by
  have hp : c.dtaskMap.links.live p = true := (h.live p).mpr (by simp)
  let c' : HeapDriver := { c with dtask := Function.update c.dtask p r }
  have hother : ∀ q ∈ items, c'.dtask q = c.dtask q := by
    intro q hq
    have hqp : q ≠ p := fun hqp => h.apart p (by simp) (hqp ▸ hq)
    exact Function.update_of_ne hqp ..
  refine ⟨c', if_pos hp, h.rewrite rfl rfl ?_ ?_ ?_ h.kernel, Function.update_self .., rfl⟩
  · exact fun q hq => by rw [hother q hq]
  · exact fun q hq => by rw [hother q hq]
  · rw [h.entries]
    refine List.map_congr_left fun q hq => ?_
    rw [entry, entry, hother q hq]

/-- **`HASH_ADD_STR`** adds the record to the table. -/
theorem add (h : Shows hashFcn items [p] c d)
    (hnamed : c.kernel.name (c.dtask p).task = (c.dtask p).taskInfo.name)
    (hnone : d.dtaskMap.lookup (c.dtask p).taskInfo.name = none) :
    ∃ c', c.add hashFcn true p = some c' ∧ Shows hashFcn (items ++ [p]) [] c'
      { d with dtaskMap := d.dtaskMap.add (c.dtask p).taskInfo.name ⟨c.dtask p, p⟩ } := by
  have hkey : c.key p ∉ items.map c.key := by
    intro hmem
    obtain ⟨q, hq, hqp⟩ := List.mem_map.mp hmem
    have hl := h.lookup hq
    rw [TaskName.ext hqp, hnone] at hl
    cases hl
  obtain ⟨map, hadd, helements, hlive, -⟩ :=
    h.elements.hashAddStr ((h.live p).mpr (by simp)) (h.apart p (by simp)) hkey
  refine ⟨{ c with dtaskMap := map }, by simp [HeapDriver.add, hadd], helements, ?_, h.kernel,
    fun q hq => ?_, fun q => ?_, by simp⟩
  · rw [Table.entries_add _ hnone, h.entries, List.map_append]
    rfl
  · rcases List.mem_append.mp hq with hq | hq
    · exact h.named q hq
    · obtain rfl := List.mem_singleton.mp hq
      exact hnamed
  · show map.links.live q = true ↔ _
    rw [hlive, h.live q]
    simp

/-- Removing an entry of the table. -/
theorem kerase_entries (h : Shows hashFcn items spare c d) (hp : p ∈ items) :
    (items.map c.entry).kerase (c.dtask p).taskInfo.name = (items.erase p).map c.entry := by
  have hinj : ∀ q ∈ items, (c.dtask p).taskInfo.name = (c.dtask q).taskInfo.name → p = q :=
    fun q hq hname => h.name_inj hp hq hname
  clear h hp
  induction items with
  | nil => rfl
  | cons q qs ih =>
      rcases eq_or_ne q p with rfl | hqp
      · rw [List.erase_cons_head, List.map_cons]
        exact List.kerase_cons_eq rfl
      · have hne : (c.dtask p).taskInfo.name ≠ (c.entry q).1 := fun hname =>
          hqp (hinj q (List.mem_cons_self ..) hname).symm
        rw [List.erase_cons_tail (by simpa using hqp), List.map_cons, List.kerase_cons_ne hne,
          ih fun q' hq' => hinj q' (List.mem_cons_of_mem _ hq'), List.map_cons]

/-- **`HASH_DEL`** takes the record out of the table. -/
theorem delete (h : Shows hashFcn items [] c d) (hp : p ∈ items) :
    ∃ c', c.delete p = some c' ∧ Shows hashFcn (items.erase p) [p] c'
      { d with dtaskMap := d.dtaskMap.erase (c.dtask p).taskInfo.name } ∧ c'.dtask = c.dtask := by
  obtain ⟨map, hdel, helements, hlive, -⟩ := h.elements.hashDelete hp
  have hnd := h.elements.nodup
  refine ⟨{ c with dtaskMap := map }, by simp [HeapDriver.delete, hdel],
    ⟨helements, ?_, h.kernel, fun q hq => h.named q (List.mem_of_mem_erase hq), fun q => ?_, ?_⟩,
    rfl⟩
  · show d.dtaskMap.entries.kerase _ = _
    rw [h.entries]
    exact h.kerase_entries hp
  · show map.links.live q = true ↔ _
    rw [hlive, h.live q]
    rcases eq_or_ne q p with rfl | hqp
    · simp [hp]
    · simp [List.mem_erase_of_ne hqp, hqp]
  · simpa using hnd.not_mem_erase

/-- **`HASH_DEL`, `clear_dtask` and `rtdm_free`** leave no trace of the record. -/
theorem remove (h : Shows hashFcn items [] c d) (hp : p ∈ items) :
    ∃ c', c.remove p = some c' ∧ Shows hashFcn (items.erase p) [] c'
      (({ d with dtaskMap := d.dtaskMap.erase (c.dtask p).taskInfo.name }.log
        (.free (c.dtask p).watchd)).log (.free (some p))) := by
  obtain ⟨c₁, hdel, h₁, hdtask⟩ := h.delete hp
  have hlive : c₁.dtaskMap.links.live p = true := (h₁.live p).mpr (by simp)
  obtain ⟨c₂, hfree, h₂⟩ := (h₁.log (.free (c.dtask p).watchd)).free
  refine ⟨c₂, ?_, h₂⟩
  simp [HeapDriver.remove, hdel, HeapDriver.load, hlive, hdtask, hfree]

/-! ### A pass over the records -/

/-- What a pass may do to a record: it stays where it is, with its task and the task's name. -/
def Keeps {σ : Type} (x : Kernel) (body : TaskName → σ → RtDtask → σ × RtDtask) : Prop :=
  ∀ k a r, x.name r.task = r.taskInfo.name → (body k a r).2.addr = r.addr ∧
    (body k a r).2.task = r.task ∧ (body k a r).2.taskInfo.name = r.taskInfo.name

/-- The state of a pass that has the records `rest` before it. -/
structure Passing {σ : Type} (body : TaskName → σ → RtDtask → σ × RtDtask) (items : List Block)
    (c : HeapDriver) (a : σ) (rest : List Block) (s : σ × HeapDriver) : Prop where
  dtaskMap : s.2.dtaskMap = c.dtaskMap
  kernel : s.2.kernel = c.kernel
  name : ∀ q ∈ items, (s.2.dtask q).taskInfo.name = (c.dtask q).taskInfo.name
  task : ∀ q ∈ items, (s.2.dtask q).task = (c.dtask q).task
  /-- What the loop over the table still has to do. -/
  entries : ∃ done, done ++ rest = items ∧ Table.threadEntries body a (items.map c.entry) =
    ((Table.threadEntries body s.1 (rest.map s.2.entry)).1,
      done.map s.2.entry ++ (Table.threadEntries body s.1 (rest.map s.2.entry)).2)

/-- One round of a pass. -/
theorem passBody (h : Shows hashFcn items spare c d) {σ : Type}
    {body : TaskName → σ → RtDtask → σ × RtDtask} (hbody : Keeps c.kernel body) {a : σ}
    {rest : List Block} {s : σ × HeapDriver} (hs : Passing body items c a (p :: rest) s) :
    ∃ s', HeapDriver.passBody body p s = some s' ∧ Passing body items c a rest s' := by
  obtain ⟨done, hdone, hentries⟩ := hs.entries
  have hp : p ∈ items := hdone ▸ by simp
  have hlive : s.2.dtaskMap.links.live p = true := hs.dtaskMap ▸ (h.live p).mpr (Or.inl hp)
  let r : RtDtask := ⟨s.2.dtask p, p⟩
  let res := body r.taskInfo.name s.1 r
  have hnamed : c.kernel.name r.task = r.taskInfo.name := by
    show c.kernel.name (s.2.dtask p).task = (s.2.dtask p).taskInfo.name
    rw [hs.task p hp, hs.name p hp]
    exact h.named p hp
  obtain ⟨haddr, htask, hname⟩ := hbody r.taskInfo.name s.1 r hnamed
  let c' : HeapDriver :=
    { s.2 with dtask := Function.update s.2.dtask p res.2.toRtDeadlineTask }
  have hself : c'.dtask p = res.2.toRtDeadlineTask := Function.update_self ..
  have hother : ∀ q, q ≠ p → c'.dtask q = s.2.dtask q := fun q hq => Function.update_of_ne hq ..
  refine ⟨(res.1, c'), ?_, hs.dtaskMap, hs.kernel, fun q hq => ?_, fun q hq => ?_,
    done ++ [p], by simpa using hdone, ?_⟩
  · simp [HeapDriver.passBody, HeapDriver.load, HeapDriver.store, hlive, c', res, r]
  · rcases eq_or_ne q p with rfl | hqp
    · exact (congrArg (·.taskInfo.name) hself).trans (hname.trans (hs.name q hq))
    · exact (congrArg (·.taskInfo.name) (hother q hqp)).trans (hs.name q hq)
  · rcases eq_or_ne q p with rfl | hqp
    · exact (congrArg (·.task) hself).trans (htask.trans (hs.task q hq))
    · exact (congrArg (·.task) (hother q hqp)).trans (hs.task q hq)
  · -- the records before and after this one are as they were
    have hnd := h.elements.nodup
    rw [← hdone] at hnd
    have hkeep : ∀ qs : List Block, p ∉ qs → qs.map c'.entry = qs.map s.2.entry := by
      intro qs hqs
      refine List.map_congr_left fun q hq => ?_
      have hqp : q ≠ p := fun hqp => hqs (hqp ▸ hq)
      rw [entry, entry, hother q hqp]
    have hentry : c'.entry p = ⟨(s.2.dtask p).taskInfo.name, res.2⟩ := by
      have := entry_eq (c := c') (r := res.2) (by rw [haddr, hself])
      rw [haddr] at this
      rw [this, hname]
    have hpd : p ∉ done := fun hmem => (List.nodup_append.mp hnd).2.2 p hmem p (by simp) rfl
    have hpr : p ∉ rest := (List.nodup_cons.mp (List.nodup_append.mp hnd).2.1).1
    rw [hentries, List.map_append, hkeep done hpd, hkeep rest hpr, List.map_singleton, hentry]
    simp [Table.threadEntries, entry, res, r]

/-- **`HASH_ITER`** with a body that rewrites records is the loop over the table. -/
theorem pass (h : Shows hashFcn items spare c d) {σ : Type}
    {body : TaskName → σ → RtDtask → σ × RtDtask} (hbody : Keeps c.kernel body) (a : σ) :
    ∃ c', HeapDriver.pass body a c = some ((Table.thread body a d.dtaskMap).1, c') ∧
      Shows hashFcn items spare c' ⟨(Table.thread body a d.dtaskMap).2, c'.kernel⟩ ∧
      c'.kernel = c.kernel := by
  obtain ⟨⟨a', c'⟩, hpass, hdone⟩ := UtHash.Elements.hashIter (s := (a, c))
    (fun s : σ × HeapDriver => s.2.dtaskMap) (HeapDriver.passBody body)
    (Passing body items c a) h.elements
    (fun p rest s hs => by
      obtain ⟨done, hdone, -⟩ := hs.entries
      have happ := h.elements.app
      rw [← hdone] at happ
      obtain ⟨-, hlive, -, hnext, -⟩ := LinkHeap.seg_append.mp happ
      rw [hs.dtaskMap, LinkHeap.load_of_live hlive]
      exact congrArg some (hnext.trans (Option.or_none ..)))
    (fun p rest s hs => h.passBody hbody hs)
    ⟨rfl, rfl, fun _ _ => rfl, fun _ _ => rfl, [], rfl, rfl⟩
  obtain ⟨done, hitems, hentries⟩ := hdone.entries
  obtain rfl : done = items := by simpa using hitems
  rw [← h.entries] at hentries
  have hthread : Table.threadEntries body a d.dtaskMap.entries = (a', done.map c'.entry) := by
    simpa [Table.threadEntries] using hentries
  refine ⟨c', ?_, h.rewrite hdone.dtaskMap (congrArg Kernel.name hdone.kernel) hdone.name
    hdone.task ?_ rfl, hdone.kernel⟩
  · have hfst : (Table.thread body a d.dtaskMap).1 = a' := congrArg Prod.fst hthread
    rw [hfst]
    exact hpass
  · simp [Table.thread, hthread]

/-! ### `rt_dtask_recalculateprio` -/

theorem keeps_firstPassBody (x y : Kernel) (t : UInt64) (hxy : y.name = x.name) :
    Keeps x (firstPassBody y t) := by
  intro k m r hr
  rw [firstPassBody_eq]
  refine ⟨refresh_addr .., refresh_task .., ?_⟩
  by_cases ha : r.Active
  · simp [RtDtask.refresh, ha, Kernel.rtTaskInquire, hxy, hr]
  · simp [RtDtask.refresh, ha]

theorem keeps_secondPassBody (x : Kernel) (t : UInt64) (m : Extremes) :
    Keeps x (secondPassBody t m) := by
  intro k y r _
  rw [secondPassBody_snd]
  refine ⟨latch_addr .., latch_task .., ?_⟩
  unfold RtDtask.latch
  split <;> rfl

/-- Both sides count alike. -/
theorem length_keys (h : Shows hashFcn items spare c d) :
    d.dtaskMap.keys.length = items.length := by
  show (d.dtaskMap.entries.keys).length = _
  rw [h.entries]
  simp [List.keys]

/-- **`rt_dtask_recalculateprio`** on both sides. -/
theorem recalc (h : Shows hashFcn items spare c d) (t : UInt64) :
    ∃ c', HeapDriver.rtDtaskRecalculateprio t c = some c' ∧
      Shows hashFcn items spare c' (Edfomai.rtDtaskRecalculateprio t d) := by
  have hcount := h.elements.hashCount
  by_cases hitems : items.length = 0
  · refine ⟨c, ?_, ?_⟩
    · simp [HeapDriver.rtDtaskRecalculateprio, hcount, hitems]
    · rwa [Edfomai.rtDtaskRecalculateprio, if_pos (h.length_keys.trans hitems)]
  · let x := c.kernel.log (.recalculated t)
    obtain ⟨c₁, hpass₁, h₁, hk₁⟩ := h.pass (keeps_firstPassBody c.kernel x t rfl) .start
    let m := (Table.thread (firstPassBody x t) .start d.dtaskMap).1
    obtain ⟨c₂, hpass₂, h₂, hk₂⟩ := h₁.pass (keeps_secondPassBody c₁.kernel t m) x
    let map := (Table.thread (firstPassBody x t) .start d.dtaskMap).2
    let second := Table.thread (secondPassBody t m) x map
    have hd : Edfomai.rtDtaskRecalculateprio t d = ⟨second.2, second.1⟩ := by
      rw [Edfomai.rtDtaskRecalculateprio, if_neg (h.length_keys ▸ hitems), h.kernel]
    have hname := recalc_name t d
    rw [hd] at hname ⊢
    refine ⟨{ c₂ with kernel := second.1 }, ?_, h₂.rewrite rfl ?_ (fun _ _ => rfl)
      (fun _ _ => rfl) h₂.entries rfl⟩
    · simp only [HeapDriver.rtDtaskRecalculateprio, hcount, Option.bind_eq_bind, Option.bind_some,
        if_neg hitems]
      rw [hpass₁, Option.bind_some]
      show (HeapDriver.pass (secondPassBody t m) x c₁).bind _ = _
      rw [hpass₂, Option.bind_some]
    · rw [hk₂, hk₁, ← h.kernel]
      exact hname

end Shows

/-! ### The operations -/

/-- Two states are related. -/
def Refines (hashFcn : List UInt8 → UInt32) (c : HeapDriver) (d : Driver) : Prop :=
  ∃ items, Shows hashFcn items [] c d

/-- Two results are related: the same value is returned, and the states are related. -/
def Agree (hashFcn : List UInt8 → UInt32) (res : Int32 × HeapDriver) (res' : Int32 × Driver) :
    Prop :=
  res.1 = res'.1 ∧ Refines hashFcn res.2 res'.2

theorem rel_map {α β γ δ : Type} {R : α → β → Prop} {S : γ → δ → Prop} {f : α → γ} {g : β → δ}
    {x : Option α} {y : Option β} (h : Option.Rel R x y) (hfg : ∀ a b, R a b → S (f a) (g b)) :
    Option.Rel S (x.map f) (y.map g) := by
  cases h with
  | none => exact .none
  | some h => exact .some (hfg _ _ h)

section Op

variable {r : Replies} {task : RtTask}

/-- The beginning that most operations share. -/
theorem withTaskInfo_rel (h : Shows hashFcn items [] c d)
    {found : Block → HeapDriver → Option HeapDriver}
    {found' : TaskName → RtDtask → Driver → Option Driver}
    (hfound : ∀ b, ∀ p ∈ items, Option.Rel (Refines hashFcn) (found p (c.log (.malloc (some b))))
      (found' (c.dtask p).taskInfo.name ⟨c.dtask p, p⟩ (d.log (.malloc (some b))))) :
    Option.Rel (Agree hashFcn) (withTaskInfo hashFcn r task c found)
      (Edfomai.withTaskInfo r task d found') := by
  unfold withTaskInfo Edfomai.withTaskInfo
  cases r.block with
  | none => exact .none
  | some b =>
      have hlog := h.log (.malloc (some b))
      have hinfo : (c.log (.malloc (some b))).kernel.rtTaskInquire task =
          (d.log (.malloc (some b))).kernel.rtTaskInquire task := by rw [hlog.kernel]
      simp only [hinfo]
      rcases hlog.find ((d.log (.malloc (some b))).kernel.rtTaskInquire task).name with
        ⟨hfind, hl⟩ | ⟨p, hp, hfind, hl, hname⟩
      · simp only [hfind, hl, Option.bind_eq_bind, Option.bind_some]
        exact .some ⟨rfl, _, hlog⟩
      · simp only [hfind, hl, Option.bind_eq_bind, Option.bind_some]
        rw [← hname]
        exact rel_map (hfound b p hp) fun _ _ href => ⟨rfl, href⟩

theorem freeTaskInfo_rel {x : Option (Int32 × HeapDriver)} {y : Option (Int32 × Driver)}
    (h : Option.Rel (Agree hashFcn) x y) :
    Option.Rel (Agree hashFcn) (x.map (freeTaskInfo r)) (y.map (Edfomai.freeTaskInfo r)) :=
  rel_map h fun _ _ ⟨hret, items, href⟩ => ⟨hret, items, href.log _⟩

theorem goingwaitp_rel (h : Shows hashFcn items [] c d) :
    Option.Rel (Agree hashFcn) (rtDtaskGoingwaitp hashFcn r task c)
      (Edfomai.rtDtaskGoingwaitp r task d) := by
  refine freeTaskInfo_rel (withTaskInfo_rel h fun b p hp => ?_)
  obtain ⟨c', hadj, hshow⟩ := (h.log (.malloc (some b))).adjust hp
    (f := fun rec => { rec with state := EdfCommand.goingWaitp.code }) (fun _ => rfl)
    (fun _ => rfl) (fun _ => rfl)
  rw [hadj]
  exact .some ⟨items, hshow⟩

theorem load_eq (h : Shows hashFcn items [] c d) (hp : p ∈ items) :
    c.load p = some ⟨c.dtask p, p⟩ := if_pos ((h.live p).mpr (Or.inl hp))

theorem stopwatchdog_rel (h : Shows hashFcn items [] c d) :
    Option.Rel (Agree hashFcn) (rtDtaskStopwatchdog hashFcn r task c)
      (Edfomai.rtDtaskStopwatchdog r task d) := by
  refine freeTaskInfo_rel (withTaskInfo_rel h fun b p hp => ?_)
  have hlog := h.log (.malloc (some b))
  simp only [load_eq hlog hp, Option.bind_eq_bind, Option.bind_some]
  exact rel_map (goingwaitp_rel hlog) fun _ _ href => href.2

/-- Arming a record and recalculating. -/
theorem rearm_rel (h : Shows hashFcn items [] c d) (hp : p ∈ items) {f : RtDtask → RtDtask}
    (haddr : ∀ r, (f r).addr = r.addr) (htask : ∀ r, (f r).task = r.task)
    (hinfo : ∀ r, (f r).taskInfo = r.taskInfo) (e : Event) (t : UInt64) :
    Option.Rel (Refines hashFcn)
      ((c.adjust p f).bind fun c => rtDtaskRecalculateprio t (c.log e))
      (some (Edfomai.rtDtaskRecalculateprio t
        ((d.adjust (c.dtask p).taskInfo.name f).log e))) := by
  obtain ⟨c₁, hadj, h₁⟩ := h.adjust hp haddr htask hinfo
  obtain ⟨c₂, hrecalc, h₂⟩ := (h₁.log e).recalc t
  rw [hadj, Option.bind_some, hrecalc]
  exact .some ⟨items, h₂⟩

theorem resetdeadline_rel (h : Shows hashFcn items [] c d) :
    Option.Rel (Agree hashFcn) (rtDtaskResetdeadline hashFcn r task c)
      (Edfomai.rtDtaskResetdeadline r task d) := by
  refine freeTaskInfo_rel (withTaskInfo_rel h fun b p hp => ?_)
  have hlog := h.log (.malloc (some b))
  simp only [load_eq hlog hp, Option.bind_eq_bind, Option.bind_some]
  exact rearm_rel (f := RtDtask.rearm r.armClock) hlog hp (fun _ => rfl) (fun _ => rfl)
    (fun _ => rfl) _ _

theorem setdeadline_rel {newdeadline : UInt64} (h : Shows hashFcn items [] c d) :
    Option.Rel (Agree hashFcn) (rtDtaskSetdeadline hashFcn r task newdeadline c)
      (Edfomai.rtDtaskSetdeadline r task newdeadline d) := by
  refine withTaskInfo_rel h fun b p hp => ?_
  have hlog := h.log (.malloc (some b))
  simp only [load_eq hlog hp, Option.bind_eq_bind, Option.bind_some]
  exact rearm_rel
    (f := fun rec => RtDtask.rearm r.armClock { rec with relativeDeadline := newdeadline }) hlog hp
    (fun _ => rfl) (fun _ => rfl) (fun _ => rfl) _ _

theorem insertDtask_rel {b : Block} {deadline : UInt64} (h : Shows hashFcn items [] c d)
    (hfresh : b ∉ items) (htable : r.table = true) :
    Option.Rel (Agree hashFcn) (insertDtask hashFcn r b task deadline c)
      (Edfomai.insertDtask r b task deadline d) := by
  have h₁ := (h.alloc hfresh).log (.malloc r.watchd)
  let info := ((d.log (.malloc (some b))).log (.malloc r.watchd)).kernel.rtTaskInquire task
  have hinfo : ((c.alloc b).log (.malloc r.watchd)).kernel.rtTaskInquire task = info := by
    rw [← h₁.kernel]
  obtain ⟨c₂, hstore, h₂, hself, hk₂⟩ :=
    h₁.store (newDtask r b task deadline info).toRtDeadlineTask
  have hname : (c₂.dtask b).taskInfo.name = info.name := by rw [hself]; rfl
  have hnamed : c₂.kernel.name (c₂.dtask b).task = (c₂.dtask b).taskInfo.name := by
    rw [hname, hself, ← h₂.kernel]
    rfl
  have hrecord : (⟨c₂.dtask b, b⟩ : RtDtask) = newDtask r b task deadline info := by
    rw [hself]
    rfl
  unfold insertDtask Edfomai.insertDtask
  simp only [hinfo, hstore, Option.bind_eq_bind, Option.bind_some]
  rcases h₂.find info.name with ⟨hfind, hl⟩ | ⟨q, hq, hfind, hl, -⟩
  · obtain ⟨c₃, hadd, h₃⟩ := h₂.add hnamed (by rw [hname]; exact hl)
    rw [hname, hrecord] at h₃
    simp only [hfind, hl, hadd, htable, if_true, Option.bind_some, info]
    exact .some ⟨rfl, _, h₃.log _⟩
  · obtain ⟨c₃, hfree, h₃⟩ := h₂.free
    simp only [hfind, hl, hfree, Option.bind_some, Option.map_some, info]
    exact .some ⟨rfl, _, h₃⟩

theorem create_rel {deadline : UInt64} (h : Shows hashFcn items [] c d)
    (hfresh : ∀ b ∈ r.block, b ∉ items) (htable : r.table = true) :
    Option.Rel (Agree hashFcn) (rtDtaskCreate hashFcn r task deadline c)
      (Edfomai.rtDtaskCreate r task deadline d) := by
  unfold rtDtaskCreate Edfomai.rtDtaskCreate
  cases hb : r.block with
  | none => exact .none
  | some b =>
      have hinsert : Option.Rel (Agree hashFcn) (insertDtask hashFcn r b task deadline c)
          (Edfomai.insertDtask r b task deadline d) :=
        insertDtask_rel h (hfresh b (by rw [hb]; rfl)) htable
      show Option.Rel _
        ((insertDtask hashFcn r b task deadline c).bind fun res =>
          (rtDtaskRecalculateprio r.recalcClock res.2).map fun c => (res.1, c))
        ((Edfomai.insertDtask r b task deadline d).map fun res =>
          (res.1, Edfomai.rtDtaskRecalculateprio r.recalcClock res.2))
      generalize insertDtask hashFcn r b task deadline c = x at hinsert ⊢
      generalize Edfomai.insertDtask r b task deadline d = y at hinsert ⊢
      cases hinsert with
      | none => exact .none
      | some hagree =>
          obtain ⟨hret, items', hshow⟩ := hagree
          obtain ⟨c', hrecalc, hshow'⟩ := hshow.recalc r.recalcClock
          rw [Option.bind_some, hrecalc]
          exact .some ⟨hret, items', hshow'⟩

theorem delete_rel (h : Shows hashFcn items [] c d) :
    Option.Rel (Agree hashFcn) (rtDtaskDelete hashFcn r task c)
      (Edfomai.rtDtaskDelete r task d) := by
  refine freeTaskInfo_rel (withTaskInfo_rel h fun b p hp => ?_)
  obtain ⟨c', hremove, hshow⟩ := (h.log (.malloc (some b))).remove hp
  rw [hremove]
  exact .some ⟨_, hshow⟩

/-- **The operations agree**: on memory they return what they return on the table, and leave
memory showing the table they leave, or come to nothing where those do. -/
theorem exec_rel (h : Shows hashFcn items [] c d) (hfresh : ∀ b ∈ r.block, b ∉ items)
    (htable : r.table = true) (op : Op) :
    Option.Rel (Agree hashFcn) (exec hashFcn r op c) (op.exec r d) := by
  cases op with
  | create task deadline => exact create_rel h hfresh htable
  | setdeadline task newdeadline => exact setdeadline_rel h
  | resetdeadline task => exact resetdeadline_rel h
  | goingwaitp task => exact goingwaitp_rel h
  | stopwatchdog task => exact stopwatchdog_rel h
  | delete task => exact delete_rel h
  | recalculateprio =>
      obtain ⟨c', hrecalc, hshow⟩ := h.recalc r.recalcClock
      show Option.Rel _ ((rtDtaskRecalculateprio r.recalcClock c).map _) _
      rw [hrecalc]
      exact .some ⟨rfl, items, hshow⟩

end Op

/-! ### `rt_dtask_dispose` -/

/-- What of the table is left when the loop of `rt_dtask_dispose` has `rest` before it. -/
def Disposing (hashFcn : List UInt8 → UInt32) (d₀ : Driver) (rest : List Block) (c : HeapDriver) :
    Prop :=
  ∃ d, Shows hashFcn rest [] c d ∧ Edfomai.rtDtaskDispose d = d₀

/-- One round: the record at the front goes. -/
theorem dispose_cons (h : Shows hashFcn (p :: items) [] c d) :
    ∃ c', c.remove p = some c' ∧ ∃ d', Shows hashFcn items [] c' d' ∧
      Edfomai.rtDtaskDispose d' = Edfomai.rtDtaskDispose d := by
  obtain ⟨c', hremove, hshow⟩ := h.remove (List.mem_cons_self ..)
  rw [List.erase_cons_head] at hshow
  refine ⟨c', hremove, _, hshow, ?_⟩
  have hbody : disposeBody d (c.entry p) =
      ({ d with dtaskMap := d.dtaskMap.erase (c.dtask p).taskInfo.name }.log
        (.free (c.dtask p).watchd)).log (.free (some p)) := rfl
  have hentries := h.entries
  rw [List.map_cons] at hentries
  rw [← hbody] at hshow ⊢
  have hrest : (disposeBody d (c.entry p)).dtaskMap.entries = items.map c.entry := by
    show d.dtaskMap.entries.kerase (c.entry p).1 = _
    rw [hentries, List.kerase_cons_eq rfl]
  rw [Edfomai.rtDtaskDispose, Edfomai.rtDtaskDispose, hrest, hentries, List.foldl_cons]

/-- **`rt_dtask_dispose`** saves the next record before it frees the one it is at, and so gets
to the end. -/
theorem dispose_rel (h : Shows hashFcn items [] c d) :
    ∃ c', HeapDriver.rtDtaskDispose c = some c' ∧
      Shows hashFcn [] [] c' (Edfomai.rtDtaskDispose d) := by
  obtain ⟨c', hiter, d', hshow, hd⟩ := UtHash.Elements.hashIter (s := c)
    HeapDriver.dtaskMap HeapDriver.remove (Disposing hashFcn (Edfomai.rtDtaskDispose d)) h.elements
    (fun p rest c ⟨d, hshow, _⟩ => by
      obtain ⟨hlive, -, hnext, -⟩ := hshow.elements.app
      rw [LinkHeap.load_of_live hlive]
      exact congrArg some (hnext.trans (Option.or_none ..)))
    (fun p rest c ⟨d, hshow, hd⟩ => by
      obtain ⟨c', hremove, d', hshow', hd'⟩ := dispose_cons hshow
      exact ⟨c', hremove, d', hshow', hd'.trans hd⟩)
    ⟨d, h, rfl⟩
  refine ⟨c', hiter, ?_⟩
  have hnil : Edfomai.rtDtaskDispose d' = d' := by
    rw [Edfomai.rtDtaskDispose, hshow.entries]
    rfl
  rw [← hd, hnil]
  exact hshow

end HeapDriver

end Edfomai
