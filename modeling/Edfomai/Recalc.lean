import Edfomai.Driver

/-!
# Edfomai.Recalc

What one `rt_dtask_recalculateprio` does, read off its two loops once and for all:

* `recalc_dtaskMap`: to the records — an active one gets its remaining time and a
  fresh task info, and is latched as missed when no time remains;
* `recalc_cprio`: to the priorities — the task of a judged record gets the scaled
  priority, every other task keeps its own;
* `recalc_missesOf` and its companions: to the history.

The extremes of the first pass enter as `extremes`, of which only the bounds and
their being attained are used.
-/

namespace Edfomai

/-! ### The loop bodies -/

/-- A record after its visit by the first pass. -/
def RtDtask.refresh (x : Kernel) (t : UInt64) (r : RtDtask) : RtDtask :=
  if r.Active then { r with remain := remainAt r.deadline t, taskInfo := x.rtTaskInquire r.task }
  else r

/-- A record after its visit by the second pass. -/
def RtDtask.latch (r : RtDtask) : RtDtask :=
  if r.Judged ∧ r.remain = 0 then { r with status := .missed } else r

/-- The extremes after the first pass has visited a record. -/
def Extremes.widen (t : UInt64) (m : Extremes) (r : RtDtask) : Extremes :=
  if r.Active then
    { minRemain := if remainAt r.deadline t < m.minRemain then remainAt r.deadline t
        else m.minRemain
      maxRemain := if remainAt r.deadline t > m.maxRemain then remainAt r.deadline t
        else m.maxRemain }
  else m

theorem RtDtask.judged_iff {r : RtDtask} : r.Judged ↔ r.Active ∧ r.status = .ok := by
  unfold RtDtask.Judged RtDtask.Active
  tauto

theorem firstPassBody_eq (x : Kernel) (t : UInt64) (k : TaskName) (m : Extremes) (r : RtDtask) :
    firstPassBody x t k m r = (m.widen t r, r.refresh x t) := by
  unfold firstPassBody Extremes.widen RtDtask.refresh
  split <;> rfl

theorem secondPassBody_snd (t : UInt64) (m : Extremes) (k : TaskName) (x : Kernel) (r : RtDtask) :
    (secondPassBody t m k x r).2 = r.latch := by
  unfold secondPassBody RtDtask.latch
  by_cases hj : r.Judged
  · by_cases h0 : r.remain = 0 <;> simp [hj, h0]
  · simp [hj]

/-- What the second pass does to the kernel at one record. -/
def judge (t : UInt64) (m : Extremes) (x : Kernel) (e : Σ _ : TaskName, RtDtask) : Kernel :=
  (secondPassBody t m e.1 x e.2).1

@[simp] theorem refresh_deadline (x : Kernel) (t : UInt64) (r : RtDtask) :
    (r.refresh x t).deadline = r.deadline := by
  unfold RtDtask.refresh; split <;> rfl

@[simp] theorem refresh_relativeDeadline (x : Kernel) (t : UInt64) (r : RtDtask) :
    (r.refresh x t).relativeDeadline = r.relativeDeadline := by
  unfold RtDtask.refresh; split <;> rfl

@[simp] theorem refresh_status (x : Kernel) (t : UInt64) (r : RtDtask) :
    (r.refresh x t).status = r.status := by
  unfold RtDtask.refresh; split <;> rfl

@[simp] theorem refresh_state (x : Kernel) (t : UInt64) (r : RtDtask) :
    (r.refresh x t).state = r.state := by
  unfold RtDtask.refresh; split <;> rfl

@[simp] theorem refresh_task (x : Kernel) (t : UInt64) (r : RtDtask) :
    (r.refresh x t).task = r.task := by
  unfold RtDtask.refresh; split <;> rfl

@[simp] theorem refresh_watchd (x : Kernel) (t : UInt64) (r : RtDtask) :
    (r.refresh x t).watchd = r.watchd := by
  unfold RtDtask.refresh; split <;> rfl

@[simp] theorem refresh_addr (x : Kernel) (t : UInt64) (r : RtDtask) :
    (r.refresh x t).addr = r.addr := by
  unfold RtDtask.refresh; split <;> rfl

theorem refresh_remain {x : Kernel} {t : UInt64} {r : RtDtask} (h : r.Active) :
    (r.refresh x t).remain = remainAt r.deadline t := by
  simp [RtDtask.refresh, h]

@[simp] theorem refresh_active (x : Kernel) (t : UInt64) (r : RtDtask) :
    (r.refresh x t).Active ↔ r.Active := by
  simp [RtDtask.Active]

@[simp] theorem refresh_judged (x : Kernel) (t : UInt64) (r : RtDtask) :
    (r.refresh x t).Judged ↔ r.Judged := by
  simp [RtDtask.judged_iff]

@[simp] theorem latch_deadline (r : RtDtask) : r.latch.deadline = r.deadline := by
  unfold RtDtask.latch; split <;> rfl

@[simp] theorem latch_remain (r : RtDtask) : r.latch.remain = r.remain := by
  unfold RtDtask.latch; split <;> rfl

@[simp] theorem latch_relativeDeadline (r : RtDtask) :
    r.latch.relativeDeadline = r.relativeDeadline := by
  unfold RtDtask.latch; split <;> rfl

@[simp] theorem latch_state (r : RtDtask) : r.latch.state = r.state := by
  unfold RtDtask.latch; split <;> rfl

@[simp] theorem latch_task (r : RtDtask) : r.latch.task = r.task := by
  unfold RtDtask.latch; split <;> rfl

@[simp] theorem latch_watchd (r : RtDtask) : r.latch.watchd = r.watchd := by
  unfold RtDtask.latch; split <;> rfl

@[simp] theorem latch_addr (r : RtDtask) : r.latch.addr = r.addr := by
  unfold RtDtask.latch; split <;> rfl

theorem latch_status (r : RtDtask) :
    r.latch.status = if r.Judged ∧ r.remain = 0 then .missed else r.status := by
  unfold RtDtask.latch; split <;> rfl

@[simp] theorem latch_active (r : RtDtask) : r.latch.Active ↔ r.Active := by
  simp [RtDtask.Active]

/-! ### The records -/

theorem firstPass_snd (x : Kernel) (t : UInt64) (m : Extremes) (map : Table TaskName RtDtask) :
    (Table.thread (firstPassBody x t) m map).2 = map.mapValues fun _ => RtDtask.refresh x t :=
  Table.thread_snd_of_pure (fun k m r => by rw [firstPassBody_eq]) m map

theorem secondPass_snd (t : UInt64) (m : Extremes) (x : Kernel) (map : Table TaskName RtDtask) :
    (Table.thread (secondPassBody t m) x map).2 = map.mapValues fun _ => RtDtask.latch :=
  Table.thread_snd_of_pure (fun k x r => secondPassBody_snd t m k x r) x map

/-- `min_remain` and `max_remain` after the first pass. -/
def extremes (t : UInt64) (d : Driver) : Extremes :=
  d.dtaskMap.entries.foldl (fun m e => m.widen t e.2) .start

theorem firstPass_fst (x : Kernel) (t : UInt64) (d : Driver) :
    (Table.thread (firstPassBody x t) .start d.dtaskMap).1 = extremes t d := by
  rw [Table.thread_fst_of_pure (f := fun _ => RtDtask.refresh x t)
    (fun k m r => by rw [firstPassBody_eq])]
  simp only [firstPassBody_eq, extremes]

/-- The table after the first pass. -/
def refreshed (t : UInt64) (d : Driver) : Table TaskName RtDtask :=
  d.dtaskMap.mapValues fun _ => RtDtask.refresh d.kernel t

/-- The kernel after the second pass. -/
def judged (t : UInt64) (d : Driver) : Kernel :=
  (refreshed t d).entries.foldl (judge t (extremes t d)) (d.kernel.log (.recalculated t))

theorem recalc_of_ne_nil {d : Driver} (t : UInt64) (h : d.dtaskMap.keys ≠ []) :
    rtDtaskRecalculateprio t d =
      ⟨d.dtaskMap.mapValues fun _ r => (r.refresh d.kernel t).latch, judged t d⟩ := by
  have hlen : ¬d.dtaskMap.keys.length = 0 := fun h0 => h (List.length_eq_zero_iff.mp h0)
  unfold rtDtaskRecalculateprio
  rw [if_neg hlen]
  simp only [firstPass_fst, firstPass_snd, secondPass_snd]
  congr 1
  · apply AList.ext
    simp [RtDtask.refresh, Function.comp_def, Sigma.map]
  · rw [Table.thread_fst_of_pure (f := fun _ => RtDtask.latch)
      (fun k x r => secondPassBody_snd _ _ k x r)]
    rfl

theorem recalc_of_nil {d : Driver} (t : UInt64) (h : d.dtaskMap.keys = []) :
    rtDtaskRecalculateprio t d = d := by
  simp [rtDtaskRecalculateprio, h]

theorem lookup_of_keys_nil {d : Driver} (h : d.dtaskMap.keys = []) (k : TaskName) :
    d.dtaskMap.lookup k = none := by
  rw [AList.lookup_eq_none, AList.mem_keys, h]
  exact List.not_mem_nil

/-- The records after a recalculation. -/
theorem recalc_dtaskMap (t : UInt64) (d : Driver) :
    (rtDtaskRecalculateprio t d).dtaskMap =
      d.dtaskMap.mapValues fun _ r => (r.refresh d.kernel t).latch := by
  by_cases h : d.dtaskMap.keys = []
  · have hentries : d.dtaskMap.entries = [] := List.map_eq_nil_iff.mp h
    rw [recalc_of_nil t h]
    apply AList.ext
    simp [hentries]
  · rw [recalc_of_ne_nil t h]

theorem recalc_lookup (t : UInt64) (d : Driver) (k : TaskName) :
    (rtDtaskRecalculateprio t d).dtaskMap.lookup k =
      (d.dtaskMap.lookup k).map fun r => (r.refresh d.kernel t).latch := by
  rw [recalc_dtaskMap, Table.lookup_mapValues]

/-! ### The extremes -/

theorem widen_le (t : UInt64) (m : Extremes) (r : RtDtask) :
    (m.widen t r).minRemain ≤ m.minRemain ∧ m.maxRemain ≤ (m.widen t r).maxRemain := by
  unfold Extremes.widen
  split <;> grind

theorem widen_bounds {t : UInt64} (m : Extremes) {r : RtDtask} (h : r.Active) :
    (m.widen t r).minRemain ≤ remainAt r.deadline t ∧
      remainAt r.deadline t ≤ (m.widen t r).maxRemain := by
  unfold Extremes.widen
  grind

theorem foldl_widen_le (t : UInt64) (es : List (Σ _ : TaskName, RtDtask)) (m : Extremes) :
    (es.foldl (fun m e => m.widen t e.2) m).minRemain ≤ m.minRemain ∧
      m.maxRemain ≤ (es.foldl (fun m e => m.widen t e.2) m).maxRemain := by
  induction es generalizing m with
  | nil => exact ⟨UInt64.le_refl _, UInt64.le_refl _⟩
  | cons e es ih =>
      obtain ⟨h1, h2⟩ := ih (m.widen t e.2)
      obtain ⟨w1, w2⟩ := widen_le t m e.2
      exact ⟨UInt64.le_trans h1 w1, UInt64.le_trans w2 h2⟩

theorem foldl_widen_bounds {t : UInt64} {es : List (Σ _ : TaskName, RtDtask)} (m : Extremes)
    {e : Σ _ : TaskName, RtDtask} (he : e ∈ es) (ha : e.2.Active) :
    (es.foldl (fun m e => m.widen t e.2) m).minRemain ≤ remainAt e.2.deadline t ∧
      remainAt e.2.deadline t ≤ (es.foldl (fun m e => m.widen t e.2) m).maxRemain := by
  induction es generalizing m with
  | nil => exact absurd he List.not_mem_nil
  | cons e' es ih =>
      rcases List.mem_cons.mp he with rfl | he
      · obtain ⟨h1, h2⟩ := foldl_widen_le t es (m.widen t e.2)
        obtain ⟨w1, w2⟩ := widen_bounds (t := t) m ha
        exact ⟨UInt64.le_trans h1 w1, UInt64.le_trans w2 h2⟩
      · exact ih (m.widen t e'.2) he

/-- The extremes are remaining times of active records, or still the start values. -/
theorem foldl_widen_attained (t : UInt64) (es : List (Σ _ : TaskName, RtDtask)) (m : Extremes) :
    ((es.foldl (fun m e => m.widen t e.2) m).minRemain = m.minRemain ∨
        ∃ e ∈ es, e.2.Active ∧
          (es.foldl (fun m e => m.widen t e.2) m).minRemain = remainAt e.2.deadline t) ∧
      ((es.foldl (fun m e => m.widen t e.2) m).maxRemain = m.maxRemain ∨
        ∃ e ∈ es, e.2.Active ∧
          (es.foldl (fun m e => m.widen t e.2) m).maxRemain = remainAt e.2.deadline t) := by
  induction es generalizing m with
  | nil => exact ⟨Or.inl rfl, Or.inl rfl⟩
  | cons e es ih =>
      obtain ⟨hmin, hmax⟩ := ih (m.widen t e.2)
      rw [List.foldl_cons]
      generalize es.foldl (fun m e => m.widen t e.2) (m.widen t e.2) = m' at *
      unfold Extremes.widen at hmin hmax
      constructor
      · rcases hmin with h | ⟨e', he', h⟩
        · grind
        · exact Or.inr ⟨e', List.mem_cons_of_mem _ he', h⟩
      · rcases hmax with h | ⟨e', he', h⟩
        · grind
        · exact Or.inr ⟨e', List.mem_cons_of_mem _ he', h⟩

theorem mem_entries_of_lookup {d : Driver} {k : TaskName} {r : RtDtask}
    (h : d.dtaskMap.lookup k = some r) : (⟨k, r⟩ : Σ _ : TaskName, RtDtask) ∈ d.dtaskMap.entries :=
  AList.mem_lookup_iff.mp h

theorem lookup_of_mem_entries {d : Driver} {e : Σ _ : TaskName, RtDtask}
    (h : e ∈ d.dtaskMap.entries) : d.dtaskMap.lookup e.1 = some e.2 :=
  AList.mem_lookup_iff.mpr h

/-- Every active record's remaining time lies between the extremes. -/
theorem extremes_bounds {d : Driver} {k : TaskName} {r : RtDtask} (t : UInt64)
    (h : d.dtaskMap.lookup k = some r) (ha : r.Active) :
    (extremes t d).minRemain ≤ remainAt r.deadline t ∧
      remainAt r.deadline t ≤ (extremes t d).maxRemain :=
  foldl_widen_bounds .start (mem_entries_of_lookup h) ha

/-- With at least one active record, both extremes are attained. -/
theorem extremes_attained {d : Driver} {k : TaskName} {r : RtDtask} (t : UInt64)
    (h : d.dtaskMap.lookup k = some r) (ha : r.Active) :
    (∃ k' r', d.dtaskMap.lookup k' = some r' ∧ r'.Active ∧
        remainAt r'.deadline t = (extremes t d).minRemain) ∧
      ∃ k' r', d.dtaskMap.lookup k' = some r' ∧ r'.Active ∧
        remainAt r'.deadline t = (extremes t d).maxRemain := by
  obtain ⟨hmin, hmax⟩ := foldl_widen_attained t d.dtaskMap.entries .start
  obtain ⟨hlo, hhi⟩ := extremes_bounds t h ha
  constructor
  · rcases hmin with heq | ⟨e, he, hact, heq⟩
    · -- the start value is the largest number, so `r` itself attains it
      refine ⟨k, r, h, ha, UInt64.le_antisymm ?_ hlo⟩
      change (extremes t d).minRemain = 0xffffffffffffffff at heq
      rw [heq, UInt64.le_iff_toNat_le]
      have := (remainAt r.deadline t).toNat_lt
      show _ ≤ 2 ^ 64 - 1
      omega
    · exact ⟨e.1, e.2, lookup_of_mem_entries he, hact, heq.symm⟩
  · rcases hmax with heq | ⟨e, he, hact, heq⟩
    · refine ⟨k, r, h, ha, UInt64.le_antisymm hhi ?_⟩
      change (extremes t d).maxRemain = 0 at heq
      rw [heq]
      exact UInt64.zero_le
    · exact ⟨e.1, e.2, lookup_of_mem_entries he, hact, heq.symm⟩

/-! ### One verdict of the second pass -/

/-- The kernel right after the notification a judged record may cause. -/
def notified (t : UInt64) (k : TaskName) (x : Kernel) (r : RtDtask) : Kernel :=
  if r.remain = 0 then x.log (.deadlineMissed k r.task t) else x

@[simp] theorem notified_cprio (t : UInt64) (k : TaskName) (x : Kernel) (r : RtDtask) :
    (notified t k x r).cprio = x.cprio := by
  unfold notified; split <;> rfl

@[simp] theorem notified_name (t : UInt64) (k : TaskName) (x : Kernel) (r : RtDtask) :
    (notified t k x r).name = x.name := by
  unfold notified; split <;> rfl

/-- The second pass at one record: a record that is not judged is passed over; for
a judged one the notification comes first, then the priority is set if the cached
one differs. -/
theorem judge_cases (t : UInt64) (m : Extremes) (x : Kernel) (k : TaskName) (r : RtDtask) :
    (¬r.Judged ∧ judge t m x ⟨k, r⟩ = x) ∨
      (r.Judged ∧ calculatePrio r.remain m.minRemain m.maxRemain = r.taskInfo.cprio ∧
        judge t m x ⟨k, r⟩ = notified t k x r) ∨
      (r.Judged ∧ calculatePrio r.remain m.minRemain m.maxRemain ≠ r.taskInfo.cprio ∧
        judge t m x ⟨k, r⟩ = (notified t k x r).rtTaskSetPriority r.task
          (calculatePrio r.remain m.minRemain m.maxRemain)) := by
  by_cases hj : r.Judged
  · by_cases hp : calculatePrio r.remain m.minRemain m.maxRemain = r.taskInfo.cprio
    · refine Or.inr (Or.inl ⟨hj, hp, ?_⟩)
      by_cases h0 : r.remain = 0 <;>
        simp_all [judge, secondPassBody, notified]
    · have hne : (calculatePrio r.remain m.minRemain m.maxRemain).toUInt32
          ≠ r.taskInfo.cprio.toUInt32 := fun h => hp (by
        rw [← Int32.toInt32_toUInt32 (calculatePrio _ _ _), h, Int32.toInt32_toUInt32])
      refine Or.inr (Or.inr ⟨hj, hp, ?_⟩)
      by_cases h0 : r.remain = 0 <;>
        simp_all [judge, secondPassBody, notified]
  · exact Or.inl ⟨hj, by simp [judge, secondPassBody, hj]⟩

@[simp] theorem judge_name (t : UInt64) (m : Extremes) (x : Kernel)
    (e : Σ _ : TaskName, RtDtask) : (judge t m x e).name = x.name := by
  rcases judge_cases t m x e.1 e.2 with ⟨-, h⟩ | ⟨-, -, h⟩ | ⟨-, -, h⟩ <;> simp [h]

/-- The verdict on one record leaves the priorities of other tasks alone. -/
theorem judge_cprio_ne {t : UInt64} {m : Extremes} {x : Kernel} {e : Σ _ : TaskName, RtDtask}
    {task : RtTask} (h : task ≠ e.2.task) : (judge t m x e).cprio task = x.cprio task := by
  rcases judge_cases t m x e.1 e.2 with ⟨-, hj⟩ | ⟨-, -, hj⟩ | ⟨-, -, hj⟩ <;> simp [hj, h]

/-- A judged record's task ends up with the scaled priority: when the cached
priority already equals it, nothing needs to be set because the cache is fresh. -/
theorem judge_cprio_self {t : UInt64} {m : Extremes} {x : Kernel} {k : TaskName} {r : RtDtask}
    (hfresh : r.Judged → r.taskInfo.cprio = x.cprio r.task) :
    (judge t m x ⟨k, r⟩).cprio r.task =
      if r.Judged then calculatePrio r.remain m.minRemain m.maxRemain else x.cprio r.task := by
  rcases judge_cases t m x k r with ⟨hn, hj⟩ | ⟨hy, hp, hj⟩ | ⟨hy, -, hj⟩
  · simp [hj, hn]
  · simp [hj, hy, hp, hfresh hy]
  · simp [hj, hy]

/-- A question about one record: priority changes and the notifications of other records
have no part in it. -/
structure History.About {β : Type} (k : TaskName) (q : List Event → β) : Prop where
  setPriority : ∀ T p h, q (.setPriority T p :: h) = q h
  other : ∀ k' T t h, k' ≠ k → q (.deadlineMissed k' T t :: h) = q h
  /-- What the answer was before is all that counts when a notification is added. -/
  notice : ∀ T t h h', q h = q h' →
    q (.deadlineMissed k T t :: h) = q (.deadlineMissed k T t :: h')

/-- Of a verdict the history shows the notification, apart from priority changes. -/
theorem judge_history {β : Type} {q : List Event → β}
    (hs : ∀ T p h, q (.setPriority T p :: h) = q h)
    (t : UInt64) (m : Extremes) (x : Kernel) (k : TaskName) (r : RtDtask) :
    q (judge t m x ⟨k, r⟩).history =
      q (if r.Judged ∧ r.remain = 0 then .deadlineMissed k r.task t :: x.history
        else x.history) := by
  have hn : (notified t k x r).history =
      if r.remain = 0 then .deadlineMissed k r.task t :: x.history else x.history := by
    unfold notified
    split <;> rfl
  rcases judge_cases t m x k r with ⟨hj, h⟩ | ⟨hj, -, h⟩ | ⟨hj, -, h⟩
  · simp [h, hj]
  · simp [h, hj, hn]
  · simp [h, hj, hn, hs]

/-- Whatever ignores notifications and priority changes is unaffected by a
verdict. -/
theorem judge_history_of_ignored {β : Type} {q : List Event → β}
    (hm : ∀ k T t h, q (.deadlineMissed k T t :: h) = q h)
    (hs : ∀ T p h, q (.setPriority T p :: h) = q h)
    (t : UInt64) (m : Extremes) (x : Kernel) (e : Σ _ : TaskName, RtDtask) :
    q (judge t m x e).history = q x.history := by
  rw [judge_history hs]
  split
  · exact hm _ _ _ _
  · rfl

/-! ### The whole second pass -/

section Fold

variable (t : UInt64) (m : Extremes)

theorem foldl_judge_name (es : List (Σ _ : TaskName, RtDtask)) (x : Kernel) :
    (es.foldl (judge t m) x).name = x.name := by
  induction es generalizing x with
  | nil => rfl
  | cons e es ih => rw [List.foldl_cons, ih, judge_name]

theorem foldl_judge_cprio_ne {es : List (Σ _ : TaskName, RtDtask)} {task : RtTask} (x : Kernel)
    (h : ∀ e ∈ es, task ≠ e.2.task) : (es.foldl (judge t m) x).cprio task = x.cprio task := by
  induction es generalizing x with
  | nil => rfl
  | cons e es ih =>
      rw [List.foldl_cons, ih _ fun e' he' => h e' (List.mem_cons_of_mem _ he'),
        judge_cprio_ne (h e (List.mem_cons_self ..))]

/-- Distinct records have distinct tasks, so each priority is decided by the one
verdict on its record. -/
theorem foldl_judge_cprio {es : List (Σ _ : TaskName, RtDtask)} {x : Kernel}
    (hnd : es.NodupKeys) (hname : ∀ e ∈ es, x.name e.2.task = e.1)
    (hfresh : ∀ e ∈ es, e.2.Judged → e.2.taskInfo.cprio = x.cprio e.2.task)
    {e : Σ _ : TaskName, RtDtask} (he : e ∈ es) :
    (es.foldl (judge t m) x).cprio e.2.task =
      if e.2.Judged then calculatePrio e.2.remain m.minRemain m.maxRemain
      else x.cprio e.2.task := by
  induction es generalizing x with
  | nil => exact absurd he List.not_mem_nil
  | cons e₀ es ih =>
      obtain ⟨hnotin, hnd'⟩ := List.nodupKeys_cons.mp hnd
      have htasks : ∀ e' ∈ es, e'.2.task ≠ e₀.2.task := by
        intro e' he' heq
        have h1 := hname e' (List.mem_cons_of_mem _ he')
        have h0 := hname e₀ (List.mem_cons_self ..)
        rw [heq, h0] at h1
        exact hnotin (h1 ▸ List.mem_keys_of_mem he')
      rw [List.foldl_cons]
      rcases List.mem_cons.mp he with rfl | he
      · rw [foldl_judge_cprio_ne t m _ fun e' he' => (htasks e' he').symm]
        exact judge_cprio_self (hfresh e (List.mem_cons_self ..))
      · rw [ih hnd' (fun e' he' => ?_) (fun e' he' hj => ?_) he,
          judge_cprio_ne (htasks e he)]
        · rw [judge_name]
          exact hname e' (List.mem_cons_of_mem _ he')
        · rw [judge_cprio_ne (htasks e' he')]
          exact hfresh e' (List.mem_cons_of_mem _ he') hj

theorem foldl_judge_history_of_ignored {β : Type} {q : List Event → β}
    (hm : ∀ k T t h, q (.deadlineMissed k T t :: h) = q h)
    (hs : ∀ T p h, q (.setPriority T p :: h) = q h)
    (es : List (Σ _ : TaskName, RtDtask)) (x : Kernel) :
    q (es.foldl (judge t m) x).history = q x.history := by
  induction es generalizing x with
  | nil => rfl
  | cons e es ih => rw [List.foldl_cons, ih, judge_history_of_ignored hm hs]

theorem foldl_judge_history_ne {β : Type} {q : List Event → β} {k : TaskName}
    (hq : History.About k q) {es : List (Σ _ : TaskName, RtDtask)} (x : Kernel)
    (h : k ∉ es.keys) : q (es.foldl (judge t m) x).history = q x.history := by
  induction es generalizing x with
  | nil => rfl
  | cons e es ih =>
      simp only [List.keys_cons, List.mem_cons, not_or] at h
      rw [List.foldl_cons, ih _ h.2, judge_history hq.setPriority]
      split
      · exact hq.other _ _ _ _ (Ne.symm h.1)
      · rfl

/-- A question about a record is decided by the one verdict on it. -/
theorem foldl_judge_history {β : Type} {q : List Event → β} {k : TaskName}
    (hq : History.About k q) {es : List (Σ _ : TaskName, RtDtask)} {r : RtDtask} (x : Kernel)
    (hnd : es.NodupKeys) (he : ⟨k, r⟩ ∈ es) :
    q (es.foldl (judge t m) x).history =
      q (if r.Judged ∧ r.remain = 0 then .deadlineMissed k r.task t :: x.history
        else x.history) := by
  induction es generalizing x with
  | nil => exact absurd he List.not_mem_nil
  | cons e₀ es ih =>
      obtain ⟨hnotin, hnd'⟩ := List.nodupKeys_cons.mp hnd
      rw [List.foldl_cons]
      rcases List.mem_cons.mp he with rfl | he
      · rw [foldl_judge_history_ne t m hq _ hnotin, judge_history hq.setPriority]
      · have hne : e₀.1 ≠ k := fun h => hnotin (h ▸ List.mem_keys_of_mem he)
        have hfirst : q (judge t m x e₀).history = q x.history := by
          rw [judge_history hq.setPriority]
          split
          · exact hq.other _ _ _ _ hne
          · rfl
        rw [ih _ hnd' he]
        split
        · exact hq.notice _ _ _ _ hfirst
        · exact hfirst

end Fold

/-! ### The recalculation -/

/-- Each record is kept under the name of its task. -/
def Driver.Named (d : Driver) : Prop :=
  ∀ k r, d.dtaskMap.lookup k = some r → d.kernel.name r.task = k

/-- The entries the second pass works on. -/
theorem mem_refreshed {d : Driver} {t : UInt64} {e : Σ _ : TaskName, RtDtask}
    (h : e ∈ (refreshed t d).entries) :
    ∃ r, d.dtaskMap.lookup e.1 = some r ∧ e.2 = r.refresh d.kernel t := by
  have hl : (refreshed t d).lookup e.1 = some e.2 := AList.mem_lookup_iff.mpr h
  rw [refreshed, Table.lookup_mapValues] at hl
  obtain ⟨r, hr, heq⟩ := Option.map_eq_some_iff.mp hl
  exact ⟨r, hr, heq.symm⟩

theorem refreshed_mem {d : Driver} {k : TaskName} {r : RtDtask} (t : UInt64)
    (h : d.dtaskMap.lookup k = some r) :
    (⟨k, r.refresh d.kernel t⟩ : Σ _ : TaskName, RtDtask) ∈ (refreshed t d).entries :=
  AList.mem_lookup_iff.mp (by simp [refreshed, h])

theorem keys_ne_nil_of_lookup {d : Driver} {k : TaskName} {r : RtDtask}
    (h : d.dtaskMap.lookup k = some r) : d.dtaskMap.keys ≠ [] := fun h0 => by
  rw [lookup_of_keys_nil h0] at h
  exact absurd h (by simp)

@[simp] theorem recalc_name (t : UInt64) (d : Driver) :
    (rtDtaskRecalculateprio t d).kernel.name = d.kernel.name := by
  by_cases h : d.dtaskMap.keys = []
  · rw [recalc_of_nil t h]
  · rw [recalc_of_ne_nil t h]
    exact foldl_judge_name ..

/-- The priorities after a recalculation. -/
theorem recalc_cprio {d : Driver} {k : TaskName} {r : RtDtask} (t : UInt64) (hd : d.Named)
    (h : d.dtaskMap.lookup k = some r) :
    (rtDtaskRecalculateprio t d).kernel.cprio r.task =
      if r.Judged then
        calculatePrio (remainAt r.deadline t) (extremes t d).minRemain (extremes t d).maxRemain
      else d.kernel.cprio r.task := by
  rw [recalc_of_ne_nil t (keys_ne_nil_of_lookup h)]
  have hfold := foldl_judge_cprio t (extremes t d) (x := d.kernel.log (.recalculated t))
    (refreshed t d).nodupKeys (fun e he => ?_) (fun e he hj => ?_) (refreshed_mem t h)
  · simp only [refresh_task, refresh_judged, Kernel.log_cprio] at hfold
    show (judged t d).cprio r.task = _
    rw [judged, hfold]
    by_cases hj : r.Judged
    · rw [if_pos hj, if_pos hj, refresh_remain (RtDtask.judged_iff.mp hj).1]
    · rw [if_neg hj, if_neg hj]
  · obtain ⟨r', hl, heq⟩ := mem_refreshed he
    rw [heq, refresh_task, Kernel.log_name]
    exact hd _ _ hl
  · obtain ⟨r', hl, heq⟩ := mem_refreshed he
    rw [heq, refresh_judged] at hj
    simp [heq, RtDtask.refresh, (RtDtask.judged_iff.mp hj).1, Kernel.rtTaskInquire]

/-- A question that ignores what recalculations do is not affected by one. -/
theorem recalc_history_of_ignored {β : Type} {q : List Event → β}
    (hm : ∀ k T t h, q (.deadlineMissed k T t :: h) = q h)
    (hs : ∀ T p h, q (.setPriority T p :: h) = q h)
    (hr : ∀ t h, q (.recalculated t :: h) = q h) (t : UInt64) (d : Driver) :
    q (rtDtaskRecalculateprio t d).kernel.history = q d.kernel.history := by
  by_cases h : d.dtaskMap.keys = []
  · rw [recalc_of_nil t h]
  · rw [recalc_of_ne_nil t h]
    exact (foldl_judge_history_of_ignored t _ hm hs _ _).trans (hr _ _)

@[simp] theorem recalc_armings (k : TaskName) (t : UInt64) (d : Driver) :
    History.armings k (rtDtaskRecalculateprio t d).kernel.history =
      History.armings k d.kernel.history :=
  recalc_history_of_ignored (fun _ _ _ _ => rfl) (fun _ _ _ => rfl) (fun _ _ => rfl) t d

@[simp] theorem recalc_lastArming (k : TaskName) (t : UInt64) (d : Driver) :
    History.lastArming k (rtDtaskRecalculateprio t d).kernel.history =
      History.lastArming k d.kernel.history :=
  recalc_history_of_ignored (fun _ _ _ _ => rfl) (fun _ _ _ => rfl) (fun _ _ => rfl) t d

/-- What a recalculation answers to a question about a record. -/
theorem recalc_history {β : Type} {q : List Event → β} {d : Driver} {k : TaskName} {r : RtDtask}
    (hq : History.About k q) (hr : ∀ t h, q (.recalculated t :: h) = q h) (t : UInt64)
    (h : d.dtaskMap.lookup k = some r) :
    q (rtDtaskRecalculateprio t d).kernel.history =
      q (if r.Judged ∧ remainAt r.deadline t = 0 then
          .deadlineMissed k r.task t :: d.kernel.history
        else d.kernel.history) := by
  rw [recalc_of_ne_nil t (keys_ne_nil_of_lookup h)]
  refine (foldl_judge_history t _ hq _ (refreshed t d).nodupKeys (refreshed_mem t h)).trans ?_
  by_cases hj : r.Judged
  · simp only [refresh_judged, hj, refresh_remain (RtDtask.judged_iff.mp hj).1, true_and,
      refresh_task, Kernel.log_history]
    split
    · exact hq.notice _ _ _ _ (hr _ _)
    · exact hr _ _
  · simpa [hj] using hr _ _

theorem recalc_missesOf {d : Driver} {k : TaskName} {r : RtDtask} (t : UInt64) (n : Nat)
    (h : d.dtaskMap.lookup k = some r) :
    History.missesOf k n (rtDtaskRecalculateprio t d).kernel.history =
      History.missesOf k n d.kernel.history +
        if r.Judged ∧ remainAt r.deadline t = 0 ∧ History.armings k d.kernel.history = n then 1
        else 0 := by
  -- to count, the question has to know the number of the current arming as well
  have hq : History.About k fun h => (History.missesOf k n h, History.armings k h) := by
    constructor
    case setPriority => intros; rfl
    case other => intro k' T t h hne; simp [hne]
    case notice => intro T t h h' heq; simp_all
  refine (congrArg Prod.fst (recalc_history hq (fun _ _ => rfl) t h)).trans ?_
  by_cases hj : r.Judged ∧ remainAt r.deadline t = 0
  · simp [hj]
  · rw [if_neg hj, if_neg (by tauto)]
    rfl

theorem recalc_readingsOf {d : Driver} {k : TaskName} {r : RtDtask} (t : UInt64) (n : Nat)
    (h : d.dtaskMap.lookup k = some r) :
    History.readingsOf k n (rtDtaskRecalculateprio t d).kernel.history =
      if History.armings k d.kernel.history = n then
        t :: History.readingsOf k n d.kernel.history
      else History.readingsOf k n d.kernel.history := by
  rw [recalc_of_ne_nil t (keys_ne_nil_of_lookup h)]
  exact foldl_judge_history_of_ignored t _ (fun _ _ _ _ => rfl) (fun _ _ _ => rfl) _ _

theorem recalc_lastRecalc {d : Driver} (t : UInt64) (h : d.dtaskMap.keys ≠ []) :
    History.lastRecalc (rtDtaskRecalculateprio t d).kernel.history = some t := by
  rw [recalc_of_ne_nil t h]
  exact foldl_judge_history_of_ignored t _ (fun _ _ _ _ => rfl) (fun _ _ _ => rfl) _ _

end Edfomai
