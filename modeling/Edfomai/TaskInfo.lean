import Edfomai.Serial
import Edfomai.Recalc

/-!
# Edfomai.TaskInfo

**The task info in a record is never used before it is refreshed.** Each record keeps a copy of what
`rt_task_inquire` reported. `rt_dtask_updateinfo` brings the copy up to date; nothing calls it.

`forget` is what is left of a state without the copies, and without the driver's `rtdm_malloc` and
`rtdm_free` calls. What an operation returns and what is left after it depends on what was left
before (`Op.exec_alike`): the first pass of a recalculation refreshes the copies that the second
one reads. So calls of `rt_dtask_updateinfo` can be left out of a run (`updateinfo_idle`).
-/

namespace Edfomai

/-- `rt_dtask_updateinfo`. `rt_task_inquire` does not fail. -/
def rtDtaskUpdateinfo (r : Replies) (task : RtTask) (d : Driver) : Option (Int32 × Driver) :=
  (withTaskInfo r task d fun k rtdtask d =>
    some (d.adjust k fun rec => { rec with taskInfo := d.kernel.rtTaskInquire rtdtask.task })).map
    (freeTaskInfo r)

/-! ### What is left without the copies -/

/-- The calls of `rtdm_malloc` and `rtdm_free`. -/
def Event.isMemory : Event → Bool
  | .malloc _ | .free _ => true
  | _ => false

/-- The history without them. -/
def Kernel.forget (x : Kernel) : Kernel :=
  { x with history := x.history.filter fun e => !e.isMemory }

/-- A record without its task info. -/
def RtDtask.forget (r : RtDtask) : RtDtask :=
  { r with taskInfo := ⟨.empty, 0⟩ }

/-- A state without the task infos. -/
def Driver.forget (d : Driver) : Driver :=
  ⟨d.dtaskMap.mapValues fun _ => RtDtask.forget, d.kernel.forget⟩

/-- The two states differ in the task infos and in the use of memory at most. -/
def Driver.Alike (d d' : Driver) : Prop := d.forget = d'.forget

/-- What an operation returns, and what it leaves. -/
def answer (res : Option (Int32 × Driver)) : Option (Int32 × Driver) :=
  res.map fun res => (res.1, res.2.forget)

namespace Driver.Alike

variable {d d' : Driver}

theorem name (h : Alike d d') : d.kernel.name = d'.kernel.name := congrArg (·.kernel.name) h

theorem cprio (h : Alike d d') : d.kernel.cprio = d'.kernel.cprio := congrArg (·.kernel.cprio) h

theorem inquire (h : Alike d d') (task : RtTask) :
    d.kernel.rtTaskInquire task = d'.kernel.rtTaskInquire task := by
  rw [Kernel.rtTaskInquire, Kernel.rtTaskInquire, h.name, h.cprio]

theorem table (h : Alike d d') : (d.dtaskMap.mapValues fun _ => RtDtask.forget) =
    d'.dtaskMap.mapValues fun _ => RtDtask.forget := congrArg Driver.dtaskMap h

theorem kernel (h : Alike d d') : d.kernel.forget = d'.kernel.forget := congrArg Driver.kernel h

theorem keys (h : Alike d d') : d.dtaskMap.keys = d'.dtaskMap.keys := by
  rw [← Table.keys_mapValues fun _ => RtDtask.forget, h.table, Table.keys_mapValues]

theorem lookup (h : Alike d d') (k : TaskName) :
    (d.dtaskMap.lookup k).map RtDtask.forget = (d'.dtaskMap.lookup k).map RtDtask.forget := by
  rw [← Table.lookup_mapValues (fun _ => RtDtask.forget), h.table, Table.lookup_mapValues]

/-- Both have a record under a name, or neither has. -/
theorem lookup_cases (h : Alike d d') {k k' : TaskName} (hk : k = k') :
    (d.dtaskMap.lookup k = none ∧ d'.dtaskMap.lookup k' = none) ∨
      ∃ r r', d.dtaskMap.lookup k = some r ∧ d'.dtaskMap.lookup k' = some r' ∧
        r.forget = r'.forget := by
  subst hk
  have hl := h.lookup k
  cases hd : d.dtaskMap.lookup k with
  | none =>
      rw [hd, Option.map_none] at hl
      exact Or.inl ⟨rfl, Option.map_eq_none_iff.mp hl.symm⟩
  | some r =>
      rw [hd, Option.map_some] at hl
      obtain ⟨r', hr', heq⟩ := Option.map_eq_some_iff.mp hl.symm
      exact Or.inr ⟨r, r', rfl, hr', heq.symm⟩

end Driver.Alike

/-! ### Logging and rewriting -/

section Updates

variable {d d' : Driver}

/-- Memory calls leave no trace. -/
theorem forget_log_memory {e : Event} (he : e.isMemory = true) (d : Driver) :
    (d.log e).forget = d.forget := by
  have hhistory : (e :: d.kernel.history).filter (fun e => !e.isMemory) =
      d.kernel.history.filter fun e => !e.isMemory :=
    List.filter_cons_of_neg (by simp [he])
  show (⟨_, ⟨_, _, (e :: d.kernel.history).filter _⟩⟩ : Driver) = _
  rw [hhistory]
  rfl

/-- Other calls leave the same trace. -/
theorem forget_log {e : Event} (he : e.isMemory = false) (d : Driver) :
    (d.log e).forget = d.forget.log e := by
  have hhistory : (e :: d.kernel.history).filter (fun e => !e.isMemory) =
      e :: d.kernel.history.filter fun e => !e.isMemory :=
    List.filter_cons_of_pos (by simp [he])
  show (⟨_, ⟨_, _, (e :: d.kernel.history).filter _⟩⟩ : Driver) = _
  rw [hhistory]
  rfl

theorem Driver.Alike.log_memory {e e' : Event} (h : d.Alike d') (he : e.isMemory = true)
    (he' : e'.isMemory = true) : (d.log e).Alike (d'.log e') := by
  rw [Driver.Alike, forget_log_memory he, forget_log_memory he']
  exact h

theorem Driver.Alike.log {e : Event} (h : d.Alike d') (he : e.isMemory = false) :
    (d.log e).Alike (d'.log e) := by
  rw [Driver.Alike, forget_log he, forget_log he]
  exact congrArg (·.log e) h

/-- What is left of rewritten records depends on what was left of the records. -/
theorem mapValues_forget {g g' : TaskName → RtDtask → RtDtask}
    (hg : ∀ k r, (g k r).forget = (g' k r.forget).forget) (t : Table TaskName RtDtask) :
    ((t.mapValues g).mapValues fun _ => RtDtask.forget) =
      (((t.mapValues fun _ => RtDtask.forget).mapValues g').mapValues fun _ => RtDtask.forget) := by
  refine AList.ext ?_
  simp only [Table.entries_mapValues, List.map_map]
  exact List.map_congr_left fun e _ => by simp [Sigma.map, hg]

theorem Driver.Alike.adjust (h : d.Alike d') (k : TaskName) {f : RtDtask → RtDtask}
    (hf : ∀ r, (f r).forget = (f r.forget).forget) : (d.adjust k f).Alike (d'.adjust k f) := by
  have hg : ∀ (k' : TaskName) (r : RtDtask), (if k' = k then f r else r).forget =
      (if k' = k then f r.forget else r.forget).forget := by
    intro k' r
    split
    · exact hf r
    · rfl
  have htable := (mapValues_forget hg d.dtaskMap).trans
    ((congrArg (fun t : Table TaskName RtDtask =>
      (t.mapValues fun k' r => if k' = k then f r else r).mapValues fun _ => RtDtask.forget)
      h.table).trans (mapValues_forget hg d'.dtaskMap).symm)
  show (⟨_, d.kernel.forget⟩ : Driver) = ⟨_, d'.kernel.forget⟩
  rw [h.kernel]
  exact congrArg (Driver.mk · d'.kernel.forget) htable

theorem adjust_forget {f : RtDtask → RtDtask} (k : TaskName) (hf : ∀ r, (f r).forget = r.forget)
    (d : Driver) : (d.adjust k f).forget = d.forget := by
  have hentries : (d.adjust k f).forget.dtaskMap = d.forget.dtaskMap := by
    refine AList.ext ?_
    show List.map _ (List.map _ d.dtaskMap.entries) = List.map _ d.dtaskMap.entries
    rw [List.map_map]
    refine List.map_congr_left fun e _ => ?_
    by_cases he : e.1 = k <;> simp [Sigma.map, he, hf]
  exact congrArg (Driver.mk · d.kernel.forget) hentries

theorem Driver.Alike.erase (h : d.Alike d') (k : TaskName) :
    Driver.Alike { d with dtaskMap := d.dtaskMap.erase k }
      { d' with dtaskMap := d'.dtaskMap.erase k } := by
  have herase : ∀ t : Table TaskName RtDtask,
      Table.mapValues (fun _ => RtDtask.forget) (t.erase k) =
        AList.erase k (t.mapValues fun _ => RtDtask.forget) := by
    intro t
    refine AList.ext ?_
    show List.map _ (List.eraseP _ t.entries) = List.eraseP _ (List.map _ t.entries)
    rw [List.eraseP_map]
    rfl
  show (⟨_, d.kernel.forget⟩ : Driver) = ⟨_, d'.kernel.forget⟩
  rw [herase, herase, h.table, h.kernel]

theorem Driver.Alike.add (h : d.Alike d') {k : TaskName} (hl : d.dtaskMap.lookup k = none)
    (hl' : d'.dtaskMap.lookup k = none) (r : RtDtask) :
    Driver.Alike { d with dtaskMap := d.dtaskMap.add k r }
      { d' with dtaskMap := d'.dtaskMap.add k r } := by
  have htable : ((d.dtaskMap.add k r).mapValues fun _ => RtDtask.forget) =
      (d'.dtaskMap.add k r).mapValues fun _ => RtDtask.forget := by
    have hentries := congrArg AList.entries h.table
    refine AList.ext ?_
    simp only [Table.entries_mapValues, Table.entries_add r hl, Table.entries_add r hl',
      List.map_append] at hentries ⊢
    rw [hentries]
  show (⟨_, d.kernel.forget⟩ : Driver) = ⟨_, d'.kernel.forget⟩
  rw [htable, h.kernel]

end Updates

/-! ### Recalculating -/

/-- The first pass gives every active record the same task info, whatever it had. -/
theorem refresh_forget_of_active (x : Kernel) (t : UInt64) {r : RtDtask} (h : r.Active) :
    r.forget.refresh x.forget t = r.refresh x t := by
  have hforget : r.forget.Active := h
  rw [RtDtask.refresh, RtDtask.refresh, if_pos h, if_pos hforget]
  rfl

theorem latch_forget (r : RtDtask) : r.latch.forget = r.forget.latch := by
  have hiff : (r.forget.Judged ∧ r.forget.remain = 0) ↔ r.Judged ∧ r.remain = 0 := Iff.rfl
  by_cases h : r.Judged ∧ r.remain = 0
  · rw [RtDtask.latch, RtDtask.latch, if_pos h, if_pos (hiff.mpr h)]
    rfl
  · rw [RtDtask.latch, RtDtask.latch, if_neg h, if_neg (mt hiff.mp h)]

theorem refresh_forget (x y : Kernel) (t : UInt64) (r : RtDtask) :
    (r.refresh x t).forget = (r.forget.refresh y t).forget := by
  have hiff : r.forget.Active ↔ r.Active := Iff.rfl
  by_cases h : r.Active
  · rw [RtDtask.refresh, RtDtask.refresh, if_pos h, if_pos (hiff.mpr h)]
    rfl
  · rw [RtDtask.refresh, RtDtask.refresh, if_neg h, if_neg (mt hiff.mp h)]
    rfl

/-- The verdict on one record. -/
theorem judge_eq (t : UInt64) (m : Extremes) (x : Kernel) (k : TaskName) (r : RtDtask) :
    judge t m x ⟨k, r⟩ =
      if r.Judged then
        if calculatePrio r.remain m.minRemain m.maxRemain = r.taskInfo.cprio then
          notified t k x r
        else
          (notified t k x r).rtTaskSetPriority r.task
            (calculatePrio r.remain m.minRemain m.maxRemain)
      else x := by
  rcases judge_cases t m x k r with ⟨hj, heq⟩ | ⟨hj, hp, heq⟩ | ⟨hj, hp, heq⟩
  · rw [heq, if_neg hj]
  · rw [heq, if_pos hj, if_pos hp]
  · rw [heq, if_pos hj, if_neg hp]

theorem Kernel.forget_log {e : Event} (he : e.isMemory = false) (x : Kernel) :
    (x.log e).forget = x.forget.log e := by
  show (⟨_, _, (e :: x.history).filter _⟩ : Kernel) = _
  rw [List.filter_cons_of_pos (by simp [he])]
  rfl

theorem notified_forget (t : UInt64) (k : TaskName) (x : Kernel) (r : RtDtask) :
    (notified t k x r).forget = notified t k x.forget r := by
  unfold notified
  split
  · exact Kernel.forget_log rfl x
  · rfl

/-- It does not look at the history. -/
theorem judge_forget (t : UInt64) (m : Extremes) (x : Kernel) (e : Σ _ : TaskName, RtDtask) :
    (judge t m x e).forget = judge t m x.forget e := by
  obtain ⟨k, r⟩ := e
  have hset : ((notified t k x r).rtTaskSetPriority r.task
      (calculatePrio r.remain m.minRemain m.maxRemain)).forget =
      (notified t k x.forget r).rtTaskSetPriority r.task
        (calculatePrio r.remain m.minRemain m.maxRemain) := by
    rw [← notified_forget]
    exact Kernel.forget_log rfl _
  rw [judge_eq, judge_eq, apply_ite Kernel.forget, apply_ite Kernel.forget, notified_forget, hset]

/-- What the second pass does to the kernel, if the first has refreshed the records. -/
theorem foldl_judge_forget (t : UInt64) (m : Extremes) (y x : Kernel)
    (es : List (Σ _ : TaskName, RtDtask)) :
    ((es.map fun e => ⟨e.1, e.2.refresh y t⟩).foldl (judge t m) x).forget =
      (es.map fun e => ⟨e.1, e.2.forget.refresh y.forget t⟩).foldl (judge t m) x.forget := by
  induction es generalizing x with
  | nil => rfl
  | cons e es ih =>
      obtain ⟨k, r⟩ := e
      have hverdict : (judge t m x ⟨k, r.refresh y t⟩).forget =
          judge t m x.forget ⟨k, r.forget.refresh y.forget t⟩ := by
        rw [judge_forget]
        by_cases ha : r.Active
        · rw [refresh_forget_of_active y t ha]
        · have hj : ¬(r.refresh y t).Judged := fun hj =>
            ha ((RtDtask.judged_iff.mp ((refresh_judged y t r).mp hj)).1)
          have hj' : ¬(r.forget.refresh y.forget t).Judged := fun hj =>
            ha ((RtDtask.judged_iff.mp ((refresh_judged y.forget t r.forget).mp hj)).1)
          rw [judge_eq, judge_eq, if_neg hj, if_neg hj']
      rw [List.map_cons, List.map_cons, List.foldl_cons, List.foldl_cons, ih, hverdict]

theorem extremes_forget (t : UInt64) (d : Driver) : extremes t d.forget = extremes t d := by
  show (List.map _ d.dtaskMap.entries).foldl _ _ = _
  rw [List.foldl_map]
  rfl

theorem Kernel.forget_forget (x : Kernel) : x.forget.forget = x.forget := by
  show (⟨_, _, List.filter _ (List.filter _ x.history)⟩ : Kernel) = _
  rw [List.filter_filter]
  simp only [Bool.and_self]
  rfl

theorem judged_forget (t : UInt64) (d : Driver) : (judged t d).forget = judged t d.forget := by
  refine (foldl_judge_forget t (extremes t d) d.kernel _ d.dtaskMap.entries).trans ?_
  rw [Kernel.forget_log rfl, judged, extremes_forget]
  show _ = List.foldl _ _ (List.map _ (List.map _ d.dtaskMap.entries))
  rw [List.map_map]
  rfl

/-- **A recalculation** leaves what it leaves without the task infos. -/
theorem recalc_forget (t : UInt64) (d : Driver) :
    (rtDtaskRecalculateprio t d).forget = (rtDtaskRecalculateprio t d.forget).forget := by
  have hkeys : d.forget.dtaskMap.keys = d.dtaskMap.keys := Table.keys_mapValues ..
  have htable : Table.mapValues (fun _ => RtDtask.forget) (rtDtaskRecalculateprio t d).dtaskMap =
      Table.mapValues (fun _ => RtDtask.forget) (rtDtaskRecalculateprio t d.forget).dtaskMap := by
    rw [recalc_dtaskMap, recalc_dtaskMap]
    refine mapValues_forget (fun _ r => ?_) d.dtaskMap
    rw [latch_forget, latch_forget, refresh_forget d.kernel d.forget.kernel]
  have hkernel : (rtDtaskRecalculateprio t d).kernel.forget =
      (rtDtaskRecalculateprio t d.forget).kernel.forget := by
    by_cases hnil : d.dtaskMap.keys = []
    · rw [recalc_of_nil t hnil, recalc_of_nil t (hkeys.trans hnil)]
      exact (Kernel.forget_forget d.kernel).symm
    · rw [recalc_of_ne_nil t hnil, recalc_of_ne_nil t (hkeys ▸ hnil)]
      show (judged t d).forget = (judged t d.forget).forget
      rw [← judged_forget, Kernel.forget_forget]
  show (⟨_, _⟩ : Driver) = ⟨_, _⟩
  rw [htable, hkernel]

theorem Driver.Alike.recalc {d d' : Driver} (h : d.Alike d') (t : UInt64) :
    (rtDtaskRecalculateprio t d).Alike (rtDtaskRecalculateprio t d') := by
  rw [Driver.Alike, recalc_forget, recalc_forget t d']
  exact congrArg (fun d => (rtDtaskRecalculateprio t d).forget) h

/-! ### The operations -/

section Op

variable {r : Replies} {task : RtTask} {d d' : Driver}

/-- The beginning that most operations share. -/
theorem withTaskInfo_alike {found : TaskName → RtDtask → Driver → Option Driver}
    (hfound : ∀ k rec rec' d d', rec.forget = rec'.forget → Driver.Alike d d' →
      (found k rec d).map Driver.forget = (found k rec' d').map Driver.forget)
    (h : d.Alike d') :
    answer (withTaskInfo r task d found) = answer (withTaskInfo r task d' found) := by
  unfold withTaskInfo
  cases r.block with
  | none => rfl
  | some b =>
      have hlog : (d.log (.malloc (some b))).Alike (d'.log (.malloc (some b))) :=
        h.log_memory rfl rfl
      have hname := congrArg RtTaskInfo.name (hlog.inquire task)
      rcases hlog.lookup_cases hname with ⟨hl, hl'⟩ | ⟨rec, rec', hl, hl', heq⟩
      · simp only [hl, hl', answer, Option.map_some]
        rw [hlog]
      · have hrec := hfound ((d.log (.malloc (some b))).kernel.rtTaskInquire task).name rec rec'
          _ _ heq hlog
        have hmap := congrArg (Option.map fun d => ((0 : Int32), d)) hrec
        rw [Option.map_map, Option.map_map] at hmap
        simp only [hl, hl', ← hname, answer, Option.map_map]
        exact hmap

/-- Freeing the buffer leaves no trace. -/
theorem answer_freeTaskInfo (res : Option (Int32 × Driver)) :
    answer (res.map (freeTaskInfo r)) = answer res := by
  cases res with
  | none => rfl
  | some res =>
      show some (res.1, (res.2.log (.free r.block)).forget) = some (res.1, res.2.forget)
      rw [forget_log_memory rfl]

/-- What is done to the state afterwards. -/
theorem answer_map {f : Driver → Driver}
    (hf : ∀ {d d' : Driver}, d.Alike d' → (f d).Alike (f d')) {x y : Option (Int32 × Driver)}
    (h : answer x = answer y) :
    answer (x.map fun res => (res.1, f res.2)) = answer (y.map fun res => (res.1, f res.2)) := by
  cases x with
  | none =>
      rw [Option.map_eq_none_iff.mp h.symm]
  | some res =>
      obtain ⟨res', rfl, heq⟩ := Option.map_eq_some_iff.mp h.symm
      obtain ⟨hret, hleft⟩ := Prod.mk.inj heq
      have hleft' : (f res.2).forget = (f res'.2).forget := hf hleft.symm
      show some (res.1, (f res.2).forget) = some (res'.1, (f res'.2).forget)
      rw [hret, hleft']

theorem goingwaitp_alike (r : Replies) (task : RtTask) (h : d.Alike d') :
    answer (rtDtaskGoingwaitp r task d) = answer (rtDtaskGoingwaitp r task d') := by
  rw [rtDtaskGoingwaitp, rtDtaskGoingwaitp, answer_freeTaskInfo, answer_freeTaskInfo]
  refine withTaskInfo_alike (fun k _ _ d d' _ h => ?_) h
  exact congrArg some (h.adjust k fun _ => rfl)

theorem stopwatchdog_alike (h : d.Alike d') :
    answer (rtDtaskStopwatchdog r task d) = answer (rtDtaskStopwatchdog r task d') := by
  rw [rtDtaskStopwatchdog, rtDtaskStopwatchdog, answer_freeTaskInfo, answer_freeTaskInfo]
  refine withTaskInfo_alike (fun _ rec rec' _ _ heq h => ?_) h
  have htask : rec.forget.task = rec'.forget.task := by rw [heq]
  replace htask : rec.task = rec'.task := htask
  have hnested := congrArg (Option.map Prod.snd)
    (goingwaitp_alike { r with block := r.nested } rec.task h)
  rw [answer, answer, Option.map_map, Option.map_map] at hnested
  rw [Option.map_map, Option.map_map, ← htask]
  exact hnested

theorem resetdeadline_alike (h : d.Alike d') :
    answer (rtDtaskResetdeadline r task d) = answer (rtDtaskResetdeadline r task d') := by
  rw [rtDtaskResetdeadline, rtDtaskResetdeadline, answer_freeTaskInfo, answer_freeTaskInfo]
  refine withTaskInfo_alike (fun k rec rec' _ _ heq h => ?_) h
  have hrelative : rec.forget.relativeDeadline = rec'.forget.relativeDeadline := by rw [heq]
  replace hrelative : rec.relativeDeadline = rec'.relativeDeadline := hrelative
  rw [hrelative]
  exact congrArg some (((h.adjust k fun _ => rfl).log rfl).recalc _)

theorem setdeadline_alike {newdeadline : UInt64} (h : d.Alike d') :
    answer (rtDtaskSetdeadline r task newdeadline d) =
      answer (rtDtaskSetdeadline r task newdeadline d') :=
  withTaskInfo_alike (fun k _ _ _ _ _ h =>
    congrArg some (((h.adjust k fun _ => rfl).log rfl).recalc _)) h

theorem delete_alike (h : d.Alike d') :
    answer (rtDtaskDelete r task d) = answer (rtDtaskDelete r task d') := by
  rw [rtDtaskDelete, rtDtaskDelete, answer_freeTaskInfo, answer_freeTaskInfo]
  refine withTaskInfo_alike (fun k rec rec' d d' _ h => ?_) h
  exact congrArg some (((h.erase k).log_memory rfl rfl).log_memory rfl rfl)

theorem insertDtask_alike {b : Block} {deadline : UInt64} (h : d.Alike d') :
    answer (insertDtask r b task deadline d) = answer (insertDtask r b task deadline d') := by
  have hlog : Driver.Alike ((d.log (.malloc (some b))).log (.malloc r.watchd))
      ((d'.log (.malloc (some b))).log (.malloc r.watchd)) :=
    (h.log_memory rfl rfl).log_memory rfl rfl
  have hinfo := hlog.inquire task
  unfold insertDtask
  rcases hlog.lookup_cases (congrArg RtTaskInfo.name hinfo) with
    ⟨hl, hl'⟩ | ⟨rec, rec', hl, hl', -⟩
  · simp only [hl, hl']
    cases r.table with
    | false => rfl
    | true =>
        rw [← hinfo]
        exact congrArg (fun d => some ((0 : Int32), d)) ((hlog.add hl (hinfo ▸ hl') _).log rfl)
  · simp only [hl, hl']
    exact congrArg (fun d => some ((-1 : Int32), d)) (hlog.log_memory rfl rfl)

theorem create_alike {deadline : UInt64} (h : d.Alike d') :
    answer (rtDtaskCreate r task deadline d) = answer (rtDtaskCreate r task deadline d') := by
  unfold rtDtaskCreate
  cases r.block with
  | none => rfl
  | some b => exact answer_map (fun h => h.recalc r.recalcClock) (insertDtask_alike h)

/-- **The operations** return and leave what they return and leave without the task infos. -/
theorem Op.exec_alike (op : Op) (h : d.Alike d') :
    answer (op.exec r d) = answer (op.exec r d') := by
  cases op with
  | create task deadline => exact create_alike h
  | setdeadline task newdeadline => exact setdeadline_alike h
  | resetdeadline task => exact resetdeadline_alike h
  | goingwaitp task => exact goingwaitp_alike r task h
  | stopwatchdog task => exact stopwatchdog_alike h
  | delete task => exact delete_alike h
  | recalculateprio => exact congrArg (fun d => some ((0 : Int32), d)) (h.recalc r.recalcClock)

/-- **`rt_dtask_updateinfo`** leaves what there was. -/
theorem updateinfo_forget {ret : Int32} (h : rtDtaskUpdateinfo r task d = some (ret, d')) :
    d'.forget = d.forget := by
  obtain ⟨b, -, ⟨rec, d₁, -, -, hfound, rfl⟩ | ⟨-, -, rfl⟩⟩ := freed_inv h
  · obtain rfl := Option.some.inj hfound
    rw [forget_log_memory rfl]
    refine (adjust_forget _ ?_ _).trans (forget_log_memory (e := .malloc (some b)) rfl d)
    intro r
    rfl
  · rw [forget_log_memory rfl, forget_log_memory rfl]

end Op

/-! ### Runs -/

/-- A request, or a call of `rt_dtask_updateinfo`. -/
inductive Upkeep
  | request (q : Request)
  | updateinfo (task : RtTask) (r : Replies)

/-- The call is one of `rt_dtask_updateinfo`. -/
def Upkeep.isUpdateinfo : Upkeep → Bool
  | request _ => false
  | updateinfo _ _ => true

/-- Run a call. The state is the driver, and the results of the requests, newest first. -/
def Upkeep.exec : Upkeep → List Int32 × Driver → Option (List Int32 × Driver)
  | request q, s => (q.op.exec q.replies s.2).map fun res => (res.1 :: s.1, res.2)
  | updateinfo task r, s => (rtDtaskUpdateinfo r task s.2).map fun res => (s.1, res.2)

/-- Requests and calls of `rt_dtask_updateinfo` in any order, from any state. -/
def upkeep : TransitionSystem (List Int32 × Driver) Upkeep where
  init _ := True
  step s call s' := call.exec s = some s'

/-- **Bringing the task infos up to date is idle.** Without its calls of `rt_dtask_updateinfo` a run
has the same results, sets the same priorities and sends the same notifications in the same
order, and leaves the same records, task infos apart. -/
theorem updateinfo_idle {s s' : List Int32 × Driver} {run : List Upkeep}
    (h : upkeep.Run s run s') :
    ∃ t, upkeep.Run s (run.filter fun call => !call.isUpdateinfo) t ∧ s'.1 = t.1 ∧
      s'.2.forget = t.2.forget := by
  have hidle : ∀ (s : List Int32 × Driver) call s', call.isUpdateinfo = true →
      upkeep.step s call s' → (s'.1, s'.2.forget) = (s.1, s.2.forget) := by
    intro s call s' hcall hstep
    cases call with
    | request q => cases hcall
    | updateinfo task r =>
        obtain ⟨⟨ret, d'⟩, hexec, rfl⟩ := Option.map_eq_some_iff.mp hstep
        rw [updateinfo_forget hexec]
  have hbusy : ∀ (s t : List Int32 × Driver) call s', call.isUpdateinfo = false →
      (s.1, s.2.forget) = (t.1, t.2.forget) → upkeep.step s call s' →
      ∃ t', upkeep.step t call t' ∧ (s'.1, s'.2.forget) = (t'.1, t'.2.forget) := by
    intro s t call s' hcall hview hstep
    obtain ⟨hresults, halike⟩ := Prod.mk.inj hview
    cases call with
    | updateinfo task r => cases hcall
    | request q =>
        obtain ⟨res, hexec, rfl⟩ := Option.map_eq_some_iff.mp hstep
        have hanswer := q.op.exec_alike (r := q.replies) halike
        rw [hexec] at hanswer
        obtain ⟨res', hexec', heq⟩ := Option.map_eq_some_iff.mp hanswer.symm
        obtain ⟨hret, hleft⟩ := Prod.mk.inj heq
        refine ⟨(res'.1 :: t.1, res'.2), Option.map_eq_some_iff.mpr ⟨res', hexec', rfl⟩, ?_⟩
        rw [hresults, hret, hleft]
  obtain ⟨t, hrun, hview⟩ := TransitionSystem.Run.erase hidle hbusy h
  obtain ⟨hresults, hleft⟩ := Prod.mk.inj hview
  exact ⟨t, hrun, hresults, hleft⟩

/-- Task `1` is created, updated and given a new deadline. -/
def letterUpkeep : List Upkeep :=
  [.request ⟨.create 1 5, plainReplies 0 10⟩, .updateinfo 1 (plainReplies 3 20),
    .request ⟨.setdeadline 1 9, plainReplies 7 30⟩]

theorem updateinfo_idle_letter : ∃ s t, upkeep.Run ([], letterStart.driver) letterUpkeep s ∧
    upkeep.Run ([], letterStart.driver) [.request ⟨.create 1 5, plainReplies 0 10⟩,
      .request ⟨.setdeadline 1 9, plainReplies 7 30⟩] t ∧
    s.1 = t.1 ∧ s.2.forget = t.2.forget := by
  have hsome : ((Upkeep.exec (.request ⟨.create 1 5, plainReplies 0 10⟩)
      ([], letterStart.driver)).bind fun s =>
        (Upkeep.exec (.updateinfo 1 (plainReplies 3 20)) s).bind fun s =>
          Upkeep.exec (.request ⟨.setdeadline 1 9, plainReplies 7 30⟩) s).isSome := by
    decide +kernel
  obtain ⟨s, hs⟩ := Option.isSome_iff_exists.mp hsome
  obtain ⟨s₁, hs₁, hs⟩ := Option.bind_eq_some_iff.mp hs
  obtain ⟨s₂, hs₂, hs⟩ := Option.bind_eq_some_iff.mp hs
  have hrun : upkeep.Run ([], letterStart.driver) letterUpkeep s :=
    .cons hs₁ (.cons hs₂ (.cons hs (.refl s)))
  obtain ⟨t, hrun', hresults, hleft⟩ := updateinfo_idle hrun
  exact ⟨s, t, hrun, hrun', hresults, hleft⟩

end Edfomai
