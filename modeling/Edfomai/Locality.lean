import Edfomai.Invariant
import Mathlib.Order.Bounds.Basic

/-!
# Edfomai.Locality

What a recalculation decides about a task depends on that task's record and on the
extreme deadlines, on nothing else in the table.

The shape of the argument:

* the two passes are already read off per record (`recalc_lookup`, `recalc_cprio`,
  `recalc_history`), so all that the other records contribute is `extremes`;
* `extremes_eq` reduces the extremes at any clock value to those of the deadlines
  themselves, and `extremes_congr` says that these are the least and the greatest
  deadline of the active records, whatever the order of the table.
-/

namespace Edfomai

/-! ### The extreme deadlines -/

/-- The deadlines of the active records. -/
def Driver.activeDeadlines (d : Driver) : Set Nat :=
  { n | ∃ k r, d.dtaskMap.lookup k = some r ∧ r.Active ∧ r.deadline.toNat = n }

/-- At clock value `0` the remaining times are the deadlines themselves. -/
theorem remainAt_zero (deadline : UInt64) : remainAt deadline 0 = deadline :=
  UInt64.toNat_inj.mp (by rw [remainAt_toNat, UInt64.toNat_zero, Nat.sub_zero])

/-- The extremes at any clock value are what then remains of the extreme deadlines:
remaining time is monotone in the deadline, also where it saturates. -/
theorem extremes_eq {d : Driver} {k : TaskName} {r : RtDtask} (t : UInt64)
    (hl : d.dtaskMap.lookup k = some r) (ha : r.Active) :
    extremes t d =
      ⟨remainAt (extremes 0 d).minRemain t, remainAt (extremes 0 d).maxRemain t⟩ := by
  obtain ⟨⟨k₁, r₁, hl₁, ha₁, h₁⟩, k₂, r₂, hl₂, ha₂, h₂⟩ := extremes_attained t hl ha
  obtain ⟨⟨k₃, r₃, hl₃, ha₃, h₃⟩, k₄, r₄, hl₄, ha₄, h₄⟩ := extremes_attained 0 hl ha
  have hmin : (extremes t d).minRemain = remainAt (extremes 0 d).minRemain t := by
    apply UInt64.le_antisymm
    · rw [← h₃, remainAt_zero]
      exact (extremes_bounds t hl₃ ha₃).1
    · rw [← h₁]
      have hle := (extremes_bounds 0 hl₁ ha₁).1
      rw [remainAt_zero] at hle
      exact remainAt_mono t hle
  have hmax : (extremes t d).maxRemain = remainAt (extremes 0 d).maxRemain t := by
    apply UInt64.le_antisymm
    · rw [← h₂]
      have hle := (extremes_bounds 0 hl₂ ha₂).2
      rw [remainAt_zero] at hle
      exact remainAt_mono t hle
    · rw [← h₄, remainAt_zero]
      exact (extremes_bounds t hl₄ ha₄).2
  rw [← hmin, ← hmax]

/-- The extremes at clock value `0` are the least and the greatest active deadline. -/
theorem extremes_isLeast {d : Driver} {k : TaskName} {r : RtDtask}
    (hl : d.dtaskMap.lookup k = some r) (ha : r.Active) :
    IsLeast d.activeDeadlines (extremes 0 d).minRemain.toNat ∧
      IsGreatest d.activeDeadlines (extremes 0 d).maxRemain.toNat := by
  obtain ⟨⟨k₁, r₁, hl₁, ha₁, h₁⟩, k₂, r₂, hl₂, ha₂, h₂⟩ := extremes_attained 0 hl ha
  rw [remainAt_zero] at h₁ h₂
  refine ⟨⟨⟨k₁, r₁, hl₁, ha₁, by rw [h₁]⟩, ?_⟩, ⟨⟨k₂, r₂, hl₂, ha₂, by rw [h₂]⟩, ?_⟩⟩
  · intro n ⟨k', r', hl', ha', hn⟩
    have hle := UInt64.le_iff_toNat_le.mp (extremes_bounds 0 hl' ha').1
    rwa [remainAt_zero, hn] at hle
  · intro n ⟨k', r', hl', ha', hn⟩
    have hle := UInt64.le_iff_toNat_le.mp (extremes_bounds 0 hl' ha').2
    rwa [remainAt_zero, hn] at hle

/-- Two tables whose active records have the same least and the same greatest
deadline. -/
structure SameExtremes (d d' : Driver) : Prop where
  least : ∀ n, IsLeast d.activeDeadlines n ↔ IsLeast d'.activeDeadlines n
  greatest : ∀ n, IsGreatest d.activeDeadlines n ↔ IsGreatest d'.activeDeadlines n

theorem SameExtremes.of_eq {d d' : Driver} (h : d.activeDeadlines = d'.activeDeadlines) :
    SameExtremes d d' := by
  constructor <;> intro n <;> rw [h]

/-- Then the first pass finds the same extremes, at every clock value, provided that
there is an active record at all. -/
theorem extremes_congr {d d' : Driver} {k k' : TaskName} {r r' : RtDtask} (t : UInt64)
    (h : SameExtremes d d') (hl : d.dtaskMap.lookup k = some r) (ha : r.Active)
    (hl' : d'.dtaskMap.lookup k' = some r') (ha' : r'.Active) :
    extremes t d = extremes t d' := by
  obtain ⟨hleast, hgreatest⟩ := extremes_isLeast hl ha
  obtain ⟨hleast', hgreatest'⟩ := extremes_isLeast hl' ha'
  have hmin := UInt64.toNat_inj.mp (((h.least _).mp hleast).unique hleast')
  have hmax := UInt64.toNat_inj.mp (((h.greatest _).mp hgreatest).unique hgreatest')
  rw [extremes_eq t hl ha, extremes_eq t hl' ha', hmin, hmax]

/-- Neither the order of the table … -/
theorem SameExtremes.of_perm {d d' : Driver}
    (h : d.dtaskMap.entries.Perm d'.dtaskMap.entries) : SameExtremes d d' := by
  refine .of_eq ?_
  have hlookup : ∀ k, d.dtaskMap.lookup k = d'.dtaskMap.lookup k := fun k =>
    AList.perm_lookup h
  simp only [Driver.activeDeadlines, hlookup]

/-- A record that leaves the extremes alone: it is inactive, or its deadline lies strictly
between two active ones. -/
def Inner (d : Driver) (r : RtDtask) : Prop :=
  ¬r.Active ∨ (∃ n ∈ d.activeDeadlines, n < r.deadline.toNat) ∧
    ∃ n ∈ d.activeDeadlines, r.deadline.toNat < n

/-- A subset with a member at or below every member of the whole set has the same least
element. -/
theorem isLeast_iff_of_subset {α : Type} [PartialOrder α] {S S' : Set α} (hsub : S' ⊆ S)
    (hbelow : ∀ n ∈ S, ∃ n' ∈ S', n' ≤ n) (n : α) : IsLeast S n ↔ IsLeast S' n := by
  constructor
  · intro ⟨hmem, hle⟩
    obtain ⟨n', hn', hle'⟩ := hbelow n hmem
    obtain rfl : n' = n := le_antisymm hle' (hle (hsub hn'))
    exact ⟨hn', fun n₁ hn₁ => hle (hsub hn₁)⟩
  · intro ⟨hmem, hle⟩
    refine ⟨hsub hmem, fun n₁ hn₁ => ?_⟩
    obtain ⟨n', hn', hle'⟩ := hbelow n₁ hn₁
    exact le_trans (hle hn') hle'

/-- … nor an inner record has a part in the extremes. -/
theorem SameExtremes.of_erase {d : Driver} {k : TaskName} {r : RtDtask}
    (hl : d.dtaskMap.lookup k = some r) (hinner : Inner d r) :
    SameExtremes d { d with dtaskMap := d.dtaskMap.erase k } := by
  let d' : Driver := { d with dtaskMap := d.dtaskMap.erase k }
  have hsub : d'.activeDeadlines ⊆ d.activeDeadlines := by
    intro n ⟨k', r', hl', ha', hn⟩
    exact ⟨k', r', (Table.lookup_erase_eq_some hl').2, ha', hn⟩
  -- the only deadline that can have gone is the one of the erased record
  have hkeep : ∀ n ∈ d.activeDeadlines,
      n ∈ d'.activeDeadlines ∨ r.Active ∧ n = r.deadline.toNat := by
    intro n ⟨k', r', hl', ha', hn⟩
    by_cases hk : k' = k
    · rw [hk, hl] at hl'
      obtain rfl := Option.some.inj hl'
      exact Or.inr ⟨ha', hn.symm⟩
    · exact Or.inl ⟨k', r', (AList.lookup_erase_ne hk).trans hl', ha', hn⟩
  have hother : ∀ n ∈ d.activeDeadlines, n ≠ r.deadline.toNat → n ∈ d'.activeDeadlines := by
    intro n hn hne
    rcases hkeep n hn with h | ⟨-, heq⟩
    · exact h
    · exact absurd heq hne
  constructor
  case least =>
    refine isLeast_iff_of_subset hsub fun n hn => ?_
    rcases hkeep n hn with h | ⟨ha, rfl⟩
    · exact ⟨n, h, le_rfl⟩
    · rcases hinner with hna | ⟨⟨n', hn', hlt⟩, -⟩
      · exact absurd ha hna
      · exact ⟨n', hother n' hn' (Nat.ne_of_lt hlt), hlt.le⟩
  case greatest =>
    refine @isLeast_iff_of_subset ℕᵒᵈ _ _ _ hsub fun n hn => ?_
    rcases hkeep n hn with h | ⟨ha, rfl⟩
    · exact ⟨n, h, le_rfl⟩
    · rcases hinner with hna | ⟨-, n', hn', hlt⟩
      · exact absurd ha hna
      · exact ⟨n', hother n' hn' (Nat.ne_of_gt hlt), hlt.le⟩

/-! ### The decision -/

/-- The calls of `deadline_missed` made for a record, newest first, with their arguments. -/
def History.notices (k : TaskName) : List Event → List (RtTask × UInt64)
  | [] => []
  | .deadlineMissed k' task t :: h =>
      if k' = k then (task, t) :: notices k h else notices k h
  | _ :: h => notices k h

theorem notices_about (k : TaskName) : History.About k (History.notices k) := by
  constructor
  case setPriority => intros; rfl
  case other => intro k' T t h hne; simp [History.notices, hne]
  case notice => intro T t h h' heq; simp [History.notices, heq]

/-- The calls of `deadline_missed` that a recalculation makes for a record. -/
theorem recalc_notices {d : Driver} {k : TaskName} {r : RtDtask} (t : UInt64)
    (hl : d.dtaskMap.lookup k = some r) :
    History.notices k (rtDtaskRecalculateprio t d).kernel.history =
      (if r.Judged ∧ remainAt r.deadline t = 0 then [(r.task, t)] else []) ++
        History.notices k d.kernel.history := by
  rw [recalc_history (notices_about k) (fun _ _ => rfl) t hl]
  split
  · simp [History.notices]
  · rfl

/-- A recalculation decides the same about a record in both tables: the record, the
priority of its task, and the calls of `deadline_missed`. -/
structure SameDecision (t : UInt64) (k : TaskName) (r : RtDtask) (d d' : Driver) : Prop where
  record : ∃ r₁, (rtDtaskRecalculateprio t d).dtaskMap.lookup k = some r₁ ∧
    (rtDtaskRecalculateprio t d').dtaskMap.lookup k = some r₁
  prio : (rtDtaskRecalculateprio t d).kernel.cprio r.task =
    (rtDtaskRecalculateprio t d').kernel.cprio r.task
  notices : ∃ new,
    History.notices k (rtDtaskRecalculateprio t d).kernel.history =
      new ++ History.notices k d.kernel.history ∧
    History.notices k (rtDtaskRecalculateprio t d').kernel.history =
      new ++ History.notices k d'.kernel.history

theorem sameDecision {d d' : Driver} {k : TaskName} {r : RtDtask} (t : UInt64) (hd : d.Named)
    (hd' : d'.Named) (hl : d.dtaskMap.lookup k = some r) (hl' : d'.dtaskMap.lookup k = some r)
    (hp : d.kernel.cprio r.task = d'.kernel.cprio r.task) (hsame : SameExtremes d d') :
    SameDecision t k r d d' := by
  constructor
  case record =>
    have hinfo : d.kernel.rtTaskInquire r.task = d'.kernel.rtTaskInquire r.task := by
      simp only [Kernel.rtTaskInquire, hd k r hl, hd' k r hl', hp]
    have hrefresh : r.refresh d.kernel t = r.refresh d'.kernel t := by
      simp only [RtDtask.refresh, hinfo]
    refine ⟨(r.refresh d.kernel t).latch, by rw [recalc_lookup, hl]; rfl, ?_⟩
    rw [recalc_lookup, hl', hrefresh]
    rfl
  case prio =>
    rw [recalc_cprio t hd hl, recalc_cprio t hd' hl']
    by_cases hj : r.Judged
    · have ha := (RtDtask.judged_iff.mp hj).1
      rw [if_pos hj, if_pos hj, extremes_congr t hsame hl ha hl' ha]
    · rw [if_neg hj, if_neg hj, hp]
  case notices => exact ⟨_, recalc_notices t hl, recalc_notices t hl'⟩

/-- A recalculation does nothing to an inactive record: neither to it nor to the priority
of its task, and it sends no notification for it. -/
structure Untouched (t : UInt64) (k : TaskName) (r : RtDtask) (d : Driver) : Prop where
  record : (rtDtaskRecalculateprio t d).dtaskMap.lookup k = some r
  prio : (rtDtaskRecalculateprio t d).kernel.cprio r.task = d.kernel.cprio r.task
  notices : History.notices k (rtDtaskRecalculateprio t d).kernel.history =
    History.notices k d.kernel.history

theorem untouched {d : Driver} {k : TaskName} {r : RtDtask} (t : UInt64) (hd : d.Named)
    (hl : d.dtaskMap.lookup k = some r) (hna : ¬r.Active) : Untouched t k r d := by
  have hnj : ¬r.Judged := fun hj => hna (RtDtask.judged_iff.mp hj).1
  constructor
  case record => simp [recalc_lookup, hl, RtDtask.refresh, RtDtask.latch, hna, hnj]
  case prio => rw [recalc_cprio t hd hl, if_neg hnj]
  case notices => simp [recalc_notices t hl, hnj]

/-- What a recalculation at `t` decides about the record under `k` is local to it. -/
structure Local (t : UInt64) (k : TaskName) (r : RtDtask) (d : Driver) : Prop where
  /-- It is the same for every table with this record and these extreme deadlines. -/
  decision : ∀ d' : Driver, d'.Named → d'.dtaskMap.lookup k = some r →
    d.kernel.cprio r.task = d'.kernel.cprio r.task → SameExtremes d d' → SameDecision t k r d d'
  /-- The order of the table has no part in it, … -/
  order : ∀ d' : Driver, d'.kernel = d.kernel →
    d.dtaskMap.entries.Perm d'.dtaskMap.entries → SameDecision t k r d d'
  /-- … nor has another record that is inactive or lies strictly between the extremes. -/
  inner : ∀ k' r', k' ≠ k → d.dtaskMap.lookup k' = some r' → Inner d r' →
    SameDecision t k r d { d with dtaskMap := d.dtaskMap.erase k' }
  /-- An inactive record is left alone. -/
  inactive : ¬r.Active → Untouched t k r d

/-- **A recalculation's decision is local**, in every table whose records are kept under
the names of their tasks. -/
theorem recalc_local {d : Driver} {k : TaskName} {r : RtDtask} (t : UInt64) (hd : d.Named)
    (hl : d.dtaskMap.lookup k = some r) : Local t k r d := by
  constructor
  case decision =>
    intro d' hd' hl' hp hsame
    exact sameDecision t hd hd' hl hl' hp hsame
  case order =>
    intro d' hkernel hperm
    have hlookup : ∀ k', d.dtaskMap.lookup k' = d'.dtaskMap.lookup k' := fun _ =>
      AList.perm_lookup hperm
    refine sameDecision t hd ?_ hl (by rw [← hlookup, hl]) (by rw [hkernel]) (.of_perm hperm)
    intro k' r' hr'
    rw [hkernel]
    exact hd k' r' (by rw [hlookup, hr'])
  case inner =>
    intro k' r' hne hl' hinner
    refine sameDecision t hd ?_ hl ((AList.lookup_erase_ne hne.symm).trans hl) rfl
      (.of_erase hl' hinner)
    intro k₁ r₁ hr₁
    exact hd k₁ r₁ (Table.lookup_erase_eq_some hr₁).2
  case inactive => exact untouched t hd hl

/-- Three running tasks with deadlines 10, 20 and 30. -/
def threeRequests : List Request :=
  [⟨.create 0 10, plainReplies 0 10⟩, ⟨.create 1 20, plainReplies 0 20⟩,
    ⟨.create 2 30, plainReplies 0 30⟩]

theorem recalc_local_three : ∃ r,
    (letterRun threeRequests).driver.dtaskMap.lookup (letterName 1) = some r ∧ r.Active ∧
      Local 15 (letterName 1) r (letterRun threeRequests).driver := by
  have h : ((letterRun threeRequests).driver.dtaskMap.lookup (letterName 1)).any
      (fun r => r.Active) = true := by decide +kernel
  obtain ⟨r, hl, ha⟩ := (Option.any_eq_true _ _).mp h
  have hreach : (serial letterSite).Reachable (letterRun threeRequests) :=
    letterRun_reachable (by decide +kernel) (by decide +kernel)
  exact ⟨r, hl, of_decide_eq_true ha,
    recalc_local 15 (reachable_inv hreach).records.isNamed hl⟩

end Edfomai
