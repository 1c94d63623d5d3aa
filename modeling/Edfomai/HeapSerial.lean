import Edfomai.HeapRuns
import Edfomai.Invariant

/-!
# Edfomai.HeapSerial

**The invariant of serialised runs, in memory.** The runs of `Edfomai.Serial` once more, on the
pointers of `Edfomai.Heap`.

Each of them is followed by a run on the table (`serialSimulation`). What `reachable_inv` says of
the records of the table is then true of every record that `HASH_FIND_STR` returns.
-/

namespace Edfomai

/-- The same request when `uthash_malloc` does not fail. -/
def Request.withTable (q : Request) : Request :=
  { q with replies := { q.replies with table := true } }

/-- The driver in memory, and the last clock value read. -/
structure HeapSerialState where
  clock : UInt64
  driver : HeapDriver

namespace HeapDriver

variable {hashFcn : List UInt8 → UInt32} {site : Site} {s s' : HeapSerialState} {q : Request}

/-- Serve one request, unless `rtdm_malloc` is said to return a record that is in use. -/
def execRequest (hashFcn : List UInt8 → UInt32) (q : Request) (s : HeapSerialState) :
    Option HeapSerialState :=
  if ∀ b ∈ q.replies.block, s.driver.dtaskMap.links.live b = false then
    (exec hashFcn q.replies q.op s.driver).map fun res => ⟨q.replies.recalcClock, res.2⟩
  else none

/-- The runs of serialised operations in memory, from the state `rt_dtask_init` leaves. -/
def serialMemory (site : Site) (hashFcn : List UInt8 → UInt32) :
    TransitionSystem HeapSerialState Request where
  init s := ∃ x : Kernel, x.name = site.name ∧ x.history = [] ∧ s.driver = rtDtaskInit x
  step s q s' := q.Ok site s.clock ∧ execRequest hashFcn q s = some s'

/-- The states agree: they are at the same time, and memory shows the table. -/
def SerialRefines (hashFcn : List UInt8 → UInt32) (s : HeapSerialState) (t : SerialState) : Prop :=
  s.clock = t.clock ∧ Refines hashFcn s.driver t.driver

theorem execRequest_inv (h : execRequest hashFcn q s = some s') :
    (∀ b ∈ q.replies.block, s.driver.dtaskMap.links.live b = false) ∧
      ∃ ret, exec hashFcn q.replies q.op s.driver = some (ret, s'.driver) ∧
        s'.clock = q.replies.recalcClock := by
  unfold execRequest at h
  split at h
  · next hfresh =>
    obtain ⟨⟨ret, c'⟩, hexec, rfl⟩ := Option.map_eq_some_iff.mp h
    exact ⟨hfresh, ret, hexec, rfl⟩
  · cases h

/-- **A run in memory is a run of the same requests on the table**, with the memory `uthash`
asked for. -/
theorem serialSimulation (site : Site) (hashFcn : List UInt8 → UInt32) :
    TransitionSystem.Simulation (serialMemory site hashFcn) (serial site) Request.withTable
      (SerialRefines hashFcn) where
  init := by
    rintro ⟨clock, c⟩ ⟨x, hname, hhistory, hc⟩
    obtain rfl : c = rtDtaskInit x := hc
    exact ⟨⟨clock, Edfomai.rtDtaskInit x⟩, ⟨x, hname, hhistory, rfl⟩, rfl, refines_init hashFcn x⟩
  step := by
    intro s q s' t hrefines hstep
    obtain ⟨hclock, items, hshow⟩ := hrefines
    obtain ⟨hok, hrequest⟩ := hstep
    obtain ⟨hfresh, ret, hexec, hclock'⟩ := execRequest_inv hrequest
    have hnew : ∀ b ∈ q.withTable.replies.block, b ∉ items := by
      intro b hb hmem
      have hlive := (hshow.live b).mpr (Or.inl hmem)
      rw [hfresh b hb] at hlive
      cases hlive
    have hrel : Option.Rel (Agree hashFcn) (exec hashFcn q.withTable.replies q.op s.driver)
        (q.op.exec q.withTable.replies t.driver) := exec_rel hshow hnew rfl q.op
    have hexec' : exec hashFcn q.withTable.replies q.op s.driver = some (ret, s'.driver) :=
      exec_of_some hexec
    rw [hexec'] at hrel
    cases hres : q.op.exec q.withTable.replies t.driver with
    | none => simp [hres] at hrel
    | some res =>
        rw [hres, Option.rel_some_some] at hrel
        refine ⟨⟨q.replies.recalcClock, res.2⟩, ⟨?_, ?_⟩, hclock', hrel.2⟩
        · rw [← hclock]
          exact hok
        · exact Option.map_eq_some_iff.mpr ⟨res, hres, rfl⟩

/-- **The records in memory.** Every record that is found under a name belongs to the task of that
name and satisfies the invariant of the runs. Right after a recalculation an active one holds the
time that remained, and is missed exactly when none did. -/
theorem memory_records (hs : (serialMemory site hashFcn).Reachable s) {k : TaskName} {p : Block}
    (hfind : s.driver.find hashFcn k = some (some p)) :
    RecordInv site s.clock s.driver.kernel k ⟨s.driver.dtask p, p⟩ ∧
      ∀ t, History.lastRecalc s.driver.kernel.history = some t →
        (⟨s.driver.dtask p, p⟩ : RtDtask).Active →
        (s.driver.dtask p).remain = remainAt (s.driver.dtask p).deadline t ∧
          ((s.driver.dtask p).status = .missed ↔ (s.driver.dtask p).deadline ≤ t) := by
  obtain ⟨a, ha, hclock, items, hshow⟩ := (serialSimulation site hashFcn).reachable hs
  have hinv := reachable_inv ha
  have hlookup : a.driver.dtaskMap.lookup k = some ⟨s.driver.dtask p, p⟩ := by
    rcases hshow.find k with ⟨hnone, -⟩ | ⟨q, -, hq, hl, -⟩
    · rw [hfind] at hnone
      cases hnone
    · rw [hfind] at hq
      cases hq
      exact hl
  rw [hclock, ← hshow.kernel]
  refine ⟨hinv.records.2 k _ hlookup, fun t hlast hactive => ?_⟩
  obtain ⟨hremain, hmissed, -⟩ := hinv.settled t hlast k _ hlookup hactive
  exact ⟨hremain, hmissed⟩

/-- Serve requests on the tasks of `letterSite`, with the hash function of the driver. -/
def letterRequests : List Request → HeapSerialState → Option HeapSerialState
  | [], s => some s
  | q :: qs, s =>
      if q.Ok letterSite s.clock then
        (execRequest (hashJenOf signedChar) q s).bind (letterRequests qs)
      else none

theorem letterRequests_reachable {qs : List Request}
    (hs : (serialMemory letterSite (hashJenOf signedChar)).Reachable s)
    (h : letterRequests qs s = some s') :
    (serialMemory letterSite (hashJenOf signedChar)).Reachable s' := by
  induction qs generalizing s with
  | nil =>
      obtain rfl := Option.some.inj h
      exact hs
  | cons q qs ih =>
      rw [letterRequests] at h
      split at h
      · next hok =>
        obtain ⟨s₁, hs₁, h⟩ := Option.bind_eq_some_iff.mp h
        exact ih (hs.step ⟨hok, hs₁⟩) h
      · cases h

/-- Task `1` misses its deadline, at a recalculation that the creation of task `0` makes. -/
theorem memory_records_letter : ∃ s,
    letterRequests [⟨.create 1 5, plainReplies 0 10⟩, ⟨.create 0 90, plainReplies 7 0⟩]
      ⟨0, letterEmpty⟩ = some s ∧
    (s.driver.dtask 10).status = .missed ∧ s.driver.kernel.cprio 1 = 50 := by
  let qs : List Request := [⟨.create 1 5, plainReplies 0 10⟩, ⟨.create 0 90, plainReplies 7 0⟩]
  have hfind : (letterRequests qs ⟨0, letterEmpty⟩).bind
      (fun s => s.driver.find (hashJenOf signedChar) (letterName 1)) = some (some 10) := by
    decide +kernel
  have hmissed : (letterRequests qs ⟨0, letterEmpty⟩).map
      (fun s => ((s.driver.dtask 10).status, (s.driver.dtask 10).task)) = some (.missed, 1) := by
    decide +kernel
  obtain ⟨s, hs, hfind⟩ := Option.bind_eq_some_iff.mp hfind
  rw [hs, Option.map_some, Option.some_inj, Prod.mk.injEq] at hmissed
  have hreach := letterRequests_reachable (.init ⟨_, rfl, rfl, rfl⟩) hs
  obtain ⟨hinv, -⟩ := memory_records hreach hfind
  refine ⟨s, hs, hmissed.1, ?_⟩
  rw [← hmissed.2]
  exact (hinv.missed hmissed.1).2.2

end HeapDriver

end Edfomai
