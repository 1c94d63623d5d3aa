import Edfomai.Isolation

/-!
# Edfomai.Memory

The driver when `rtdm_malloc` fails. No block is tested before it is used, so what a failure
leads to depends on the block alone: most are dereferenced at once, and the watchdog's, which
nothing uses, is stored as it is.

* `History.failures` counts the allocations that failed, and `Op.exec_failures` finds the
  only one that an operation survives.
* `Op.Gets` says what an operation has to be given; `oom_safe_iff` is the outcome for a call.
-/

namespace Edfomai

/-- How many allocations have failed. -/
def History.failures : List Event → Nat
  | [] => 0
  | .malloc p :: h => failures h + if p = none then 1 else 0
  | _ :: h => failures h

/-- How many allocations have failed in the driver's history. -/
def Driver.failures (d : Driver) : Nat := History.failures d.kernel.history

/-! ### What operations survive -/

/-- `rtdm_malloc` gives an operation what it asks for. A watchdog is asked for whether the
record is added or not, but not missed if it is not. -/
def Op.Gets (r : Replies) (d : Driver) : Op → Prop
  | create task _ =>
      r.block.isSome ∧
        ((d.dtaskMap.lookup (d.kernel.name task)).isSome ∨ (r.table ∧ r.watchd.isSome))
  | stopwatchdog task =>
      r.block.isSome ∧ ((d.dtaskMap.lookup (d.kernel.name task)).isSome → r.nested.isSome)
  | setdeadline _ _ | resetdeadline _ | goingwaitp _ | delete _ => r.block.isSome
  | recalculateprio => True

/-- The allocations that fail in an operation that completes. -/
def Op.failures (r : Replies) : Op → Nat
  | create _ _ => if r.watchd = none then 1 else 0
  | _ => 0

section Failures

variable {d : Driver}

@[simp] theorem failures_malloc (p : Option Block) :
    (d.log (.malloc p)).failures = d.failures + if p = none then 1 else 0 := rfl
@[simp] theorem failures_free (p : Option Block) : (d.log (.free p)).failures = d.failures := rfl
@[simp] theorem failures_armed (k : TaskName) (t D : UInt64) :
    (d.log (.armed k t D)).failures = d.failures := rfl
@[simp] theorem failures_adjust (k : TaskName) (f : RtDtask → RtDtask) :
    (d.adjust k f).failures = d.failures := rfl
theorem failures_map (t : Table TaskName RtDtask) :
    ({ d with dtaskMap := t } : Driver).failures = d.failures := rfl

/-- A recalculation allocates nothing. -/
@[simp] theorem recalc_failures (t : UInt64) :
    (rtDtaskRecalculateprio t d).failures = d.failures :=
  recalc_history_of_ignored (fun _ _ _ _ => rfl) (fun _ _ _ => rfl) (fun _ _ => rfl) t d

end Failures

section Op

variable {r : Replies} {op : Op} {task : RtTask} {d d' : Driver} {ret : Int32}

theorem goingwaitp_failures (h : rtDtaskGoingwaitp r task d = some (ret, d')) :
    d'.failures = d.failures := by
  obtain ⟨b, -, ⟨rec, -, -, rfl⟩ | ⟨-, -, rfl⟩⟩ := goingwaitp_inv h <;> simp

/-- **What fails in an operation that completes**: nothing but the allocation of a watchdog. -/
theorem Op.exec_failures (h : op.exec r d = some (ret, d')) :
    d'.failures = d.failures + op.failures r := by
  cases op with
  | create task D =>
      obtain ⟨b, d₁, -, hinsert, rfl⟩ := create_inv h
      rw [recalc_failures]
      rcases insertDtask_inv hinsert with ⟨-, -, -, rfl⟩ | ⟨-, -, rfl⟩
      · rw [failures_armed, failures_map]
        simp [failures]
      · simp [failures]
  | setdeadline task D =>
      obtain ⟨b, -, ⟨rec, -, -, rfl⟩ | ⟨-, -, rfl⟩⟩ := setdeadline_inv h <;> simp [failures]
  | resetdeadline task =>
      obtain ⟨b, -, ⟨rec, -, -, rfl⟩ | ⟨-, -, rfl⟩⟩ := resetdeadline_inv h <;> simp [failures]
  | goingwaitp task => exact goingwaitp_failures h
  | stopwatchdog task =>
      obtain ⟨b, -, ⟨rec, ret₁, d₁, -, -, hnested, rfl⟩ | ⟨-, -, rfl⟩⟩ := stopwatchdog_inv h
      · rw [failures_free, goingwaitp_failures hnested]
        simp [failures]
      · simp [failures]
  | delete task =>
      obtain ⟨b, -, ⟨rec, -, -, rfl⟩ | ⟨-, -, rfl⟩⟩ := delete_inv h
      · rw [failures_free, failures_free, failures_free, failures_map]
        simp [failures]
      · simp [failures]
  | recalculateprio =>
      obtain ⟨rfl, rfl⟩ := Prod.mk.inj (Option.some.inj h)
      exact recalc_failures _

/-- An operation completes if it gets what it asks for. -/
theorem Op.Gets.exec_isSome (h : op.Gets r d) : (op.exec r d).isSome := by
  cases op with
  | recalculateprio => rfl
  | create task D =>
      rw [Op.exec_isSome rfl, armingAt_isSome]
      obtain ⟨hblock, hl | ⟨htable, -⟩⟩ := h
      · simp [completes, hblock, hl]
      · simp [completes, hblock, htable]
  | stopwatchdog task =>
      rw [Op.exec_isSome rfl, armingAt_isSome]
      obtain ⟨hblock, hnested⟩ := h
      by_cases hl : (d.dtaskMap.lookup (d.kernel.name task)).isSome <;>
        simp [completes, hblock, hl, hnested]
  | setdeadline task D | resetdeadline task | goingwaitp task | delete task =>
      rw [Op.exec_isSome rfl]
      exact h

/-- It then refuses if an allocation fails all the same, and arms nothing. -/
theorem Op.Gets.refuses (hgets : op.Gets r d) (h : op.exec r d = some (ret, d'))
    (hfail : d.failures < d'.failures) : ret ≠ 0 ∧ ∀ k, d'.armingAt k = d.armingAt k := by
  rw [Op.exec_failures h] at hfail
  cases op with
  | create task D =>
      have hwatchd : r.watchd = none := by
        by_contra hne
        simp [failures, hne] at hfail
      have hl : (d.dtaskMap.lookup (d.kernel.name task)).isSome := by
        simpa [hwatchd] using hgets.2
      obtain ⟨b, d₁, -, hinsert, rfl⟩ := create_inv h
      rcases insertDtask_inv hinsert with ⟨hnone, -⟩ | ⟨-, rfl, rfl⟩
      · simp [hnone] at hl
      · exact ⟨by decide, fun k => by simp⟩
  | _ => exact absurd hfail (lt_irrefl _)

/-- An operation that completes and, if an allocation failed, armed nothing, got what it
asked for. -/
theorem Op.gets_of_exec (h : op.exec r d = some (ret, d'))
    (hclean : d.failures < d'.failures → ∀ k, d'.armingAt k = d.armingAt k) : op.Gets r d := by
  have hsome : (op.exec r d).isSome := by rw [h]; rfl
  cases op with
  | recalculateprio => trivial
  | create task D =>
      rw [Op.exec_isSome rfl, armingAt_isSome] at hsome
      simp only [completes, Bool.and_eq_true, Bool.or_eq_true] at hsome
      refine ⟨hsome.1, ?_⟩
      cases hl : d.dtaskMap.lookup (d.kernel.name task) with
      | some rec => exact Or.inl rfl
      | none =>
          refine Or.inr ⟨by simpa [hl] using hsome.2, Option.isSome_iff_ne_none.mpr ?_⟩
          intro hwatchd
          -- the record is added without a watchdog
          have hfail : d.failures < d'.failures := by
            simp [Op.exec_failures h, failures, hwatchd]
          have hsame := hclean hfail (d.kernel.name task)
          rw [create_self h, armingAt_of_lookup_none hl] at hsame
          simp [arm] at hsame
  | stopwatchdog task =>
      rw [Op.exec_isSome rfl, armingAt_isSome] at hsome
      simp only [completes, Bool.and_eq_true, Bool.or_eq_true, Bool.not_eq_true'] at hsome
      exact ⟨hsome.1, fun hl => hsome.2.resolve_left (by simp [hl])⟩
  | setdeadline task D | resetdeadline task | goingwaitp task | delete task =>
      rw [Op.exec_isSome rfl] at hsome
      exact hsome

end Op

/-! ### Requests and deletion hooks -/

namespace Call

/-- What `edf_rtdm_write_nrt` returns. -/
def reply : Call → Driver → Option Int64
  | write registry w nbyte, d => (edfRtdmWriteNrt registry w nbyte d).map Prod.fst
  | deleteHook _ _, _ | service _, _ | dispose, _ => none

/-- The operation returns a non-zero value, or the request a negative one. -/
def Refused (c : Call) (d : Driver) : Prop :=
  (∃ status, c.status d = some status ∧ status ≠ 0) ∨ ∃ ret, c.reply d = some ret ∧ ret < 0

/-- What is expected of a call during which allocations may fail. -/
structure OomSafe (c : Call) (d : Driver) : Prop where
  /-- No `NULL` is dereferenced, … -/
  completes : (c.exec d).isSome
  /-- … and if an allocation fails, the call is refused and leaves every record as it is. -/
  refused : ∀ d', c.exec d = some d' → d.failures < d'.failures →
    c.Refused d ∧ ∀ k, d'.armingAt k = d.armingAt k

/-- `rtdm_malloc` gives a call what it asks for: its message, and what its operation asks
for. -/
def Gets (d : Driver) : Call → Prop
  | write registry w _ =>
      w.message.isSome ∧ ∀ op, writeOp registry w = some op → op.Gets w.op d
  | deleteHook task r => (Op.delete task).Gets r d
  | service _ | dispose => True

end Call

theorem dispose_failures (d : Driver) : (rtDtaskDispose d).failures = d.failures := by
  unfold rtDtaskDispose
  generalize d.dtaskMap.entries = es
  induction es generalizing d with
  | nil => rfl
  | cons e es ih =>
      rw [List.foldl_cons, ih, disposeBody, failures_free, failures_free, failures_map]

/-- A call is as safe as its operation, if what it does before and after the operation
neither fails to allocate nor arms a record. -/
theorem Call.oomSafe_iff_gets {c : Call} {d : Driver} {op : Op} {r : Replies} (d₀ : Driver)
    (finish : Driver → Driver)
    (hexec : c.exec d = (op.exec r d₀).map fun res => finish res.2)
    (hstatus : c.status d = (op.exec r d₀).map Prod.fst)
    (hstart : d₀.failures = d.failures) (hstart' : ∀ k, d₀.armingAt k = d.armingAt k)
    (hfinish : ∀ e, (finish e).failures = e.failures)
    (hfinish' : ∀ e k, (finish e).armingAt k = e.armingAt k) :
    c.OomSafe d ↔ op.Gets r d₀ := by
  constructor
  · intro h
    have hsome := h.completes
    rw [hexec, Option.isSome_map] at hsome
    obtain ⟨⟨ret, d₁⟩, hop⟩ := Option.isSome_iff_exists.mp hsome
    refine Op.gets_of_exec hop fun hfail k => ?_
    have hrefused := h.refused (finish d₁) (by rw [hexec, hop, Option.map_some])
      (by rw [hfinish, ← hstart]; exact hfail)
    rw [← hfinish', hrefused.2 k, hstart']
  · intro hgets
    refine ⟨by rw [hexec, Option.isSome_map]; exact hgets.exec_isSome, fun d' h hfail => ?_⟩
    rw [hexec] at h
    obtain ⟨⟨ret, d₁⟩, hop, rfl⟩ := Option.map_eq_some_iff.mp h
    rw [hfinish, ← hstart] at hfail
    obtain ⟨hret, harm⟩ := hgets.refuses hop hfail
    refine ⟨Or.inl ⟨ret, by rw [hstatus, hop, Option.map_some], hret⟩, fun k => ?_⟩
    rw [hfinish', harm k, hstart']

/-- **When a call is safe against lack of memory**: when it gets what it asks for. -/
theorem oom_safe_iff {c : Call} {d : Driver} : c.OomSafe d ↔ c.Gets d := by
  cases c with
  | write registry w nbyte =>
      cases hb : w.message with
      | none =>
          -- the message is copied to `NULL`
          refine iff_of_false (fun h => ?_) (fun h => ?_)
          · simpa [Call.exec, edfRtdmWriteNrt, hb] using h.completes
          · simpa [hb] using h.1
      | some b =>
          cases hop : writeOp registry w with
          | none =>
              refine iff_of_true ⟨?_, fun d' h hfail => ?_⟩ ⟨by simp [hb], by simp [hop]⟩
              · simp [Call.exec, edfRtdmWriteNrt_of_no_op nbyte d hb hop]
              · simp only [Call.exec, edfRtdmWriteNrt_of_no_op nbyte d hb hop, Option.map_some,
                  Option.some.injEq] at h
                subst h
                simp at hfail
          | some op =>
              have hgets : (Call.write registry w nbyte).Gets d ↔ op.Gets w.op d := by
                simp [Call.Gets, hb, hop]
              rw [hgets]
              exact Call.oomSafe_iff_gets (d.log (.malloc (some b)))
                (fun d₁ => d₁.log (.free (some b)))
                (by simp [Call.exec, edfRtdmWriteNrt_of_op nbyte d hb hop, Function.comp_def])
                (by simp [Call.status, hop, hb]) (by simp) (fun _ => rfl) (fun _ => rfl)
                (fun _ _ => rfl)
  | deleteHook task r =>
      show _ ↔ (Op.delete task).Gets r d
      exact Call.oomSafe_iff_gets d id rfl rfl rfl (fun _ => rfl) (fun _ => rfl) (fun _ _ => rfl)
  | service t =>
      refine iff_of_true ⟨rfl, fun d' h hfail => ?_⟩ trivial
      rw [← Option.some.inj h, recalc_failures] at hfail
      exact absurd hfail (lt_irrefl _)
  | dispose =>
      refine iff_of_true ⟨rfl, fun d' h hfail => ?_⟩ trivial
      rw [← Option.some.inj h, dispose_failures] at hfail
      exact absurd hfail (lt_irrefl _)

/-- A `CREATE_TASK` with the given answers to its allocations. -/
def starvedCreate (r : Replies) : Call :=
  .write letterRegistry ⟨some 9, 0, letterMessage .createTask 0 10, [], r⟩ 40

/-- Without memory for the record it dereferences `NULL`; without memory for the watchdog it
adds a record, and returns 40. -/
theorem oom_unsafe :
    ¬(starvedCreate { plainReplies 0 10 with block := none }).OomSafe letterStart.driver ∧
      ¬(starvedCreate { plainReplies 0 10 with watchd := none }).OomSafe letterStart.driver := by
  constructor
  · intro h
    exact absurd h.completes (by decide +kernel)
  · intro h
    have hsame := (h.refused _ rfl (by decide +kernel)).2 (letterName 0)
    exact absurd hsame (by decide +kernel)

end Edfomai
