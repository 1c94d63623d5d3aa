import Edfomai.MissLatch
import Edfomai.Lib.Outbox

/-!
# Edfomai.NoticeQueue

The queue that misses are notified through. `deadline_missed` ends with an
`rt_queue_write` to `edf_dmissed_q` and does not look at what it returns, so the driver runs
as if there were no queue, and what becomes of its messages is read off its history:
`edfDmissedQ` replays the writes, while the readers do as they like in between.

The shape of the argument:

* `recalc_messages` lists the notifications of a recalculation, one for each record that it
  latches, and `Outbox.sendAll_log` says what becomes of such a list;
* `Records.messages_nodup` shows that no arming is notified twice, so a message that is
  refused is the only one about its miss;
* hence the latch and the messages agree exactly as long as the queue has a place for each.
-/

namespace Edfomai

open History

/-! ### The queue -/

/-- A queue of Xenomai, with what the driver writes to it: `rt_queue_write` hands the message
to a reader that waits, or stores it if the pool has room. It returns the number of readers
it woke, or a negative error. -/
structure RtQueue where
  State : Type
  waiting : State → Prop
  room : State → Prop
  rtQueueWrite : State → Int32 × State
  taken : ∀ q, waiting q ∨ room q → 0 ≤ (rtQueueWrite q).1
  full : ∀ q, ¬(waiting q ∨ room q) → (rtQueueWrite q).1 < 0 ∧ (rtQueueWrite q).2 = q

/-- The queue as a channel. -/
def RtQueue.channel (Q : RtQueue) : Channel Q.State where
  Free q := Q.waiting q ∨ Q.room q
  write q := (decide (0 ≤ (Q.rtQueueWrite q).1), (Q.rtQueueWrite q).2)
  taken q h := decide_eq_true (Q.taken q h)
  full q h := ⟨decide_eq_false (Int32.not_le.mpr (Q.full q h).1), (Q.full q h).2⟩

/-- The messages of a history, newest first: the record, and the number of the arming
that it has missed the deadline of. -/
def History.messages : List Event → List (TaskName × Nat)
  | [] => []
  | .deadlineMissed k _ _ :: h => (k, armings k h) :: messages h
  | _ :: h => messages h

section Queue

variable (Q : RtQueue) (pace : Nat → Q.State → Q.State) (q₀ : Q.State)

/-- `edf_dmissed_q` at the end of a history, and the messages written to it. The driver finds
it in the state `q₀`, changed by `pace` before each of the writes. -/
def edfDmissedQ : List Event → Outbox Q.State (TaskName × Nat)
  | [] => ⟨q₀, []⟩
  | .deadlineMissed k _ _ :: h => (edfDmissedQ h).send Q.channel pace (k, armings k h)
  | _ :: h => edfDmissedQ h

theorem edfDmissedQ_eq (h : List Event) :
    edfDmissedQ Q pace q₀ h = Outbox.sendAll Q.channel pace (messages h).reverse ⟨q₀, []⟩ := by
  induction h with
  | nil => rfl
  | cons e h ih =>
      cases e with
      | deadlineMissed k T t =>
          rw [edfDmissedQ, messages, List.reverse_cons, Outbox.sendAll_append, ← ih]
          rfl
      | _ => exact ih

/-- The log of the queue has the notifications of the history, all of them accepted exactly if
there was a place for each. -/
theorem edfDmissedQ_log (h : List Event) :
    (edfDmissedQ Q pace q₀ h).log.map Prod.fst = messages h ∧
      ((∀ e ∈ (edfDmissedQ Q pace q₀ h).log, e.2 = true) ↔
        Outbox.Takes Q.channel pace 0 (messages h).length q₀) := by
  obtain ⟨new, hlog, hmap, htaken⟩ :=
    Outbox.sendAll_log Q.channel pace (messages h).reverse ⟨q₀, []⟩
  rw [← edfDmissedQ_eq, List.append_nil] at hlog
  rw [List.reverse_reverse] at hmap
  rw [List.length_reverse] at htaken
  rw [hlog]
  exact ⟨hmap, htaken⟩

/-- A longer history continues with the further notifications. -/
theorem edfDmissedQ_of_messages {h h' : List Event} {ns : List (TaskName × Nat)}
    (heq : messages h' = ns.reverse ++ messages h) :
    edfDmissedQ Q pace q₀ h' = Outbox.sendAll Q.channel pace ns (edfDmissedQ Q pace q₀ h) := by
  rw [edfDmissedQ_eq, edfDmissedQ_eq, heq, List.reverse_append, List.reverse_reverse,
    Outbox.sendAll_append]

end Queue

/-! ### The notifications of a recalculation -/

/-- The recalculation that reads `t` finds that the record has missed its deadline. -/
def RtDtask.Due (t : UInt64) (r : RtDtask) : Prop := r.Judged ∧ remainAt r.deadline t = 0

instance (t : UInt64) (r : RtDtask) : Decidable (r.Due t) :=
  inferInstanceAs (Decidable (_ ∧ _))

/-- The notifications that are due, in the order in which they are written. -/
def Driver.due (t : UInt64) (d : Driver) : List (TaskName × Nat) :=
  (d.dtaskMap.entries.filter fun e => e.2.Due t).map fun e => (e.1, armings e.1 d.kernel.history)

theorem mem_due {t : UInt64} {d : Driver} {k : TaskName} {n : Nat} :
    (k, n) ∈ d.due t ↔ n = armings k d.kernel.history ∧
      ∃ r, d.dtaskMap.lookup k = some r ∧ r.Due t := by
  simp only [Driver.due, List.mem_map, List.mem_filter, decide_eq_true_eq, Prod.mk.injEq]
  constructor
  · rintro ⟨e, ⟨he, hdue⟩, rfl, rfl⟩
    exact ⟨rfl, e.2, lookup_of_mem_entries he, hdue⟩
  · rintro ⟨rfl, r, hl, hdue⟩
    exact ⟨⟨k, r⟩, ⟨mem_entries_of_lookup hl, hdue⟩, rfl, rfl⟩

theorem messages_foldl_judge (h₀ : List Event) (t : UInt64) (m : Extremes)
    (es : List (Σ _ : TaskName, RtDtask)) {x : Kernel}
    (harm : ∀ k, armings k x.history = armings k h₀) :
    messages (es.foldl (judge t m) x).history =
      ((es.filter fun e => e.2.Judged ∧ e.2.remain = 0).map
        fun e => (e.1, armings e.1 h₀)).reverse ++ messages x.history := by
  induction es generalizing x with
  | nil => rfl
  | cons e es ih =>
      have harm' : ∀ k, armings k (judge t m x e).history = armings k h₀ := by
        intro k
        rw [judge_history_of_ignored (q := armings k) (fun _ _ _ _ => rfl) (fun _ _ _ => rfl), harm]
      have hfirst := judge_history (q := messages) (fun _ _ _ => rfl) t m x e.1 e.2
      rw [List.foldl_cons, ih harm', hfirst]
      by_cases hdue : e.2.Judged ∧ e.2.remain = 0
      · rw [if_pos hdue, List.filter_cons_of_pos (by simpa using hdue), List.map_cons,
          List.reverse_cons, List.append_assoc, messages, harm]
        rfl
      · rw [if_neg hdue, List.filter_cons_of_neg (by simpa using hdue)]

/-- **The notifications of a recalculation.** -/
theorem recalc_messages (t : UInt64) (d : Driver) :
    messages (rtDtaskRecalculateprio t d).kernel.history =
      (d.due t).reverse ++ messages d.kernel.history := by
  by_cases hnil : d.dtaskMap.keys = []
  · have hentries : d.dtaskMap.entries = [] := List.map_eq_nil_iff.mp hnil
    rw [recalc_of_nil t hnil, Driver.due, hentries]
    rfl
  · have hrefresh : ∀ r : RtDtask, ((r.refresh d.kernel t).Judged ∧
        (r.refresh d.kernel t).remain = 0) ↔ r.Due t := by
      intro r
      rw [refresh_judged, RtDtask.Due]
      refine and_congr_right fun hj => ?_
      rw [refresh_remain (RtDtask.judged_iff.mp hj).1]
    rw [recalc_of_ne_nil t hnil]
    have harm : ∀ k, armings k (d.kernel.log (.recalculated t)).history =
        armings k d.kernel.history := fun _ => rfl
    show messages (judged t d).history = _
    rw [judged, messages_foldl_judge d.kernel.history t _ _ harm]
    simp only [refreshed, Table.entries_mapValues, List.filter_map, List.map_map, Driver.due]
    show _ ++ messages d.kernel.history = _
    congr 3
    exact List.filter_congr fun e _ => decide_eq_decide.mpr (hrefresh e.2)

/-! ### Latching and notifying -/

section Latch

variable (Q : RtQueue) (pace : Nat → Q.State → Q.State) (q₀ : Q.State)

/-- A recalculation latches a miss only together with its notification. -/
def LatchedWithNotice (t : UInt64) (d : Driver) : Prop :=
  ∃ new, (edfDmissedQ Q pace q₀ (rtDtaskRecalculateprio t d).kernel.history).log =
      new ++ (edfDmissedQ Q pace q₀ d.kernel.history).log ∧
    -- a record that becomes missed has had its notification accepted, …
    (∀ k r r', d.dtaskMap.lookup k = some r →
      (rtDtaskRecalculateprio t d).dtaskMap.lookup k = some r' →
        r.status = .ok → r'.status = .missed → ((k, armings k d.kernel.history), true) ∈ new) ∧
    -- … and one whose notification was refused is still to be judged
    ∀ k n r', ((k, n), false) ∈ new →
      (rtDtaskRecalculateprio t d).dtaskMap.lookup k = some r' → r'.status = .ok

/-- The queue has a place for each notification of a recalculation when it is written. -/
def FindsRoom (t : UInt64) (d : Driver) : Prop :=
  Outbox.Takes Q.channel pace (edfDmissedQ Q pace q₀ d.kernel.history).log.length (d.due t).length
    (edfDmissedQ Q pace q₀ d.kernel.history).channel

/-- No miss that has been latched is missing from the accepted notifications. -/
structure NothingLost (d : Driver) : Prop where
  /-- Every miss that was noticed in some arming has been notified, … -/
  misses : ∀ k n, 0 < missesOf k n d.kernel.history →
    ((k, n), true) ∈ (edfDmissedQ Q pace q₀ d.kernel.history).log
  /-- … in particular those that are latched now. -/
  latched : ∀ k r, d.dtaskMap.lookup k = some r → r.status = .missed →
    ((k, armings k d.kernel.history), true) ∈ (edfDmissedQ Q pace q₀ d.kernel.history).log

/-- The queue had a place for each notification of a run when it was written. -/
def FoundRoom (d : Driver) : Prop :=
  Outbox.Takes Q.channel pace 0 (messages d.kernel.history).length q₀

/-- For one message it is enough that the queue takes the first. -/
theorem findsRoom_of_one {t : UInt64} {d : Driver} (hlog : messages d.kernel.history = [])
    (hdue : (d.due t).length = 1) (hfree : Q.channel.Free (pace 0 q₀)) :
    FindsRoom Q pace q₀ t d := by
  rw [FindsRoom, edfDmissedQ_eq, hlog, hdue]
  exact ⟨hfree, trivial⟩

theorem foundRoom_of_one {d : Driver} (hone : (messages d.kernel.history).length = 1)
    (hfree : Q.channel.Free (pace 0 q₀)) : FoundRoom Q pace q₀ d := by
  rw [FoundRoom, hone]
  exact ⟨hfree, trivial⟩

/-- A record that a recalculation latches was due. -/
theorem recalc_due {t : UInt64} {d : Driver} {k : TaskName} {r r' : RtDtask}
    (hr : d.dtaskMap.lookup k = some r)
    (hr' : (rtDtaskRecalculateprio t d).dtaskMap.lookup k = some r') :
    r'.status = .missed ↔ r.status = .missed ∨ r.Due t := by
  rw [recalc_lookup, hr] at hr'
  obtain rfl := Option.some.inj hr'
  exact recalc_status_eq_missed

theorem latchedWithNotice_iff (t : UInt64) (d : Driver) :
    LatchedWithNotice Q pace q₀ t d ↔ FindsRoom Q pace q₀ t d := by
  obtain ⟨new, hlog, hmap, htaken⟩ :=
    Outbox.sendAll_log Q.channel pace (d.due t) (edfDmissedQ Q pace q₀ d.kernel.history)
  rw [← edfDmissedQ_of_messages Q pace q₀ (recalc_messages t d)] at hlog
  -- the messages are those about the records that are due
  have hmem : ∀ k n, (k, n) ∈ new.map Prod.fst ↔ (k, n) ∈ d.due t := by
    intro k n
    rw [hmap, List.mem_reverse]
  rw [FindsRoom, ← htaken]
  constructor
  · rintro ⟨new', hlog', -, hrefused⟩ ⟨⟨k, n⟩, accepted⟩ he
    obtain rfl : new' = new := List.append_cancel_right (hlog'.symm.trans hlog)
    cases accepted with
    | true => rfl
    | false =>
        obtain ⟨-, r, hr, hdue⟩ := mem_due.mp ((hmem k n).mp (List.mem_map_of_mem he))
        obtain ⟨r', hr'⟩ : ∃ r', (rtDtaskRecalculateprio t d).dtaskMap.lookup k = some r' := by
          rw [recalc_lookup, hr]
          exact ⟨_, rfl⟩
        have hmissed := (recalc_due hr hr').mpr (Or.inr hdue)
        rw [hrefused k n r' he hr'] at hmissed
        exact absurd hmissed (by decide)
  · intro hall
    refine ⟨new, hlog, fun k r r' hr hr' hok hmissed => ?_, fun k n r' he => ?_⟩
    · have hdue : r.Due t := by
        rcases (recalc_due hr hr').mp hmissed with hold | hdue
        · rw [hok] at hold
          exact absurd hold (by decide)
        · exact hdue
      obtain ⟨⟨kn, accepted⟩, he, rfl⟩ :=
        List.mem_map.mp ((hmem k _).mpr (mem_due.mpr ⟨rfl, r, hr, hdue⟩))
      obtain rfl : accepted = true := hall _ he
      exact he
    · exact absurd (hall _ he) Bool.false_ne_true

/-! ### Runs -/

/-- The misses of a history are its notifications. -/
theorem missesOf_pos_iff {k : TaskName} {n : Nat} {h : List Event} :
    0 < missesOf k n h ↔ (k, n) ∈ messages h := by
  induction h with
  | nil => simp [missesOf, messages]
  | cons e h ih =>
      cases e with
      | deadlineMissed k' T t =>
          rw [missesOf_deadlineMissed, messages, List.mem_cons, Prod.mk.injEq, ← ih]
          by_cases heq : k' = k ∧ armings k h = n
          · obtain ⟨rfl, rfl⟩ := heq
            simp
          · rw [if_neg heq, Nat.add_zero, or_iff_right]
            rintro ⟨rfl, rfl⟩
            exact heq ⟨rfl, rfl⟩
      | _ => exact ih

/-- No recalculation notifies an arming again. -/
theorem Records.messages_nodup {site : Site} {t c : UInt64} {d : Driver} (h : Records site t d)
    (hnd : (messages d.kernel.history).Nodup) :
    (messages (rtDtaskRecalculateprio c d).kernel.history).Nodup := by
  rw [recalc_messages]
  refine List.Nodup.append (List.nodup_reverse.mpr ?_) hnd ?_
  · -- each record is notified once, …
    refine List.Nodup.of_map Prod.fst ?_
    have hsub : (d.dtaskMap.entries.filter fun e => e.2.Due c).Sublist d.dtaskMap.entries :=
      List.filter_sublist
    rw [Driver.due, List.map_map]
    exact (hsub.map Sigma.fst).nodup d.dtaskMap.nodupKeys
  · -- … and those notified before are missed already
    rintro ⟨k, n⟩ hdue hold
    obtain ⟨rfl, r, hr, hj, -⟩ := mem_due.mp (List.mem_reverse.mp hdue)
    have hmisses := (h.2 k r hr).misses
    have hpos : 0 < missesSince k d.kernel.history := missesOf_pos_iff.mpr hold
    rw [hmisses, (RtDtask.judged_iff.mp hj).2] at hpos
    exact absurd hpos (by decide)

theorem Update.messages_nodup {site : Site} {s s' : SerialState} (h : Inv site s)
    (hnd : (messages s.driver.kernel.history).Nodup) (hu : Update site s s') :
    (messages s'.driver.kernel.history).Nodup := by
  cases hu with
  | tick | malloc | free | wait | erase => exact hnd
  | rearm hl ht hc hf => exact ((h.records.tick ht).rearmed hl hf).messages_nodup hnd
  | add hl htask ht hc => exact ((h.records.tick ht).added hl htask rfl).messages_nodup hnd
  | recalc ht => exact h.records.messages_nodup hnd

/-- In a run no arming is notified twice. -/
theorem reachable_messages_nodup {site : Site} {s : SerialState} (hs : (serial site).Reachable s) :
    (messages s.driver.kernel.history).Nodup := by
  have hinit : ∀ s, (serial site).init s →
      Inv site s ∧ (messages s.driver.kernel.history).Nodup := by
    intro s hinit
    refine ⟨reachable_inv (.init hinit), ?_⟩
    obtain ⟨x, -, hhist, hd⟩ := hinit
    simp [hd, rtDtaskInit, hhist, messages]
  have hstep : ∀ s s', Inv site s ∧ (messages s.driver.kernel.history).Nodup →
      Update site s s' → Inv site s' ∧ (messages s'.driver.kernel.history).Nodup :=
    fun _ _ hinv hu => ⟨hinv.1.update hu, hu.messages_nodup hinv.1 hinv.2⟩
  exact (serial_invariant hinit hstep hs).2

/-- In a run, nothing is lost exactly if there was a place for every notification. -/
theorem nothingLost_iff {site : Site} {s : SerialState} (hs : (serial site).Reachable s) :
    NothingLost Q pace q₀ s.driver ↔ FoundRoom Q pace q₀ s.driver := by
  obtain ⟨hmap, htaken⟩ := edfDmissedQ_log Q pace q₀ s.driver.kernel.history
  rw [FoundRoom, ← htaken]
  constructor
  · rintro hlost ⟨⟨k, n⟩, accepted⟩ he
    have hnotice : (k, n) ∈ messages s.driver.kernel.history := hmap ▸ List.mem_map_of_mem he
    have htrue := hlost.misses k n (missesOf_pos_iff.mpr hnotice)
    -- there is no other message about that arming
    have hnd := reachable_messages_nodup hs
    rw [← hmap] at hnd
    exact congrArg Prod.snd (List.inj_on_of_nodup_map hnd he htrue rfl)
  · intro hall
    have hmisses : ∀ k n, 0 < missesOf k n s.driver.kernel.history →
        ((k, n), true) ∈ (edfDmissedQ Q pace q₀ s.driver.kernel.history).log := by
      intro k n hpos
      rw [missesOf_pos_iff, ← hmap] at hpos
      obtain ⟨⟨kn, accepted⟩, he, rfl⟩ := List.mem_map.mp hpos
      obtain rfl : accepted = true := hall _ he
      exact he
    exact ⟨hmisses, fun k r hl hm => hmisses _ _ (((miss_latch hs).missed_iff k r hl).mp hm)⟩

/-- **When a miss is latched only together with its notification**: in a recalculation, if
and only if the queue has a place for each message that is due; in a run, if and only if it
had one for each message of the run. -/
theorem latch_noticed_iff :
    (∀ t d, LatchedWithNotice Q pace q₀ t d ↔ FindsRoom Q pace q₀ t d) ∧
      ∀ site s, (serial site).Reachable s →
        (NothingLost Q pace q₀ s.driver ↔ FoundRoom Q pace q₀ s.driver) :=
  ⟨fun t d => latchedWithNotice_iff Q pace q₀ t d, fun _ _ hs => nothingLost_iff Q pace q₀ hs⟩

end Latch

/-! ### A pool of 1024 bytes -/

/-- `DMISSEDQUEUE_SIZE`. -/
def dmissedqueueSize : Nat := 1024

/-- `ENOMEM`. -/
def enomem : Int32 := 12

/-- The bytes of the pool that are taken, and the readers that wait. -/
structure PoolState where
  used : Nat
  readers : Nat

/-- A queue on a pool of `dmissedqueueSize` bytes, of which a message takes `block`. -/
def poolQueue (block : Nat) : RtQueue where
  State := PoolState
  waiting q := 0 < q.readers
  room q := q.used + block ≤ dmissedqueueSize
  rtQueueWrite q :=
    if 0 < q.readers then (1, { q with readers := q.readers - 1 })
    else if q.used + block ≤ dmissedqueueSize then (0, { q with used := q.used + block })
    else (-enomem, q)
  taken q h := by
    by_cases hwaiting : 0 < q.readers
    · rw [if_pos hwaiting]
      exact (by decide : (0 : Int32) ≤ 1)
    · rw [if_neg hwaiting, if_pos (h.resolve_left hwaiting)]
      exact Int32.le_refl 0
  full q h := by
    obtain ⟨hwaiting, hroom⟩ := not_or.mp h
    rw [if_neg hwaiting, if_neg hroom]
    exact ⟨(by decide : -enomem < 0), rfl⟩

/-- With an empty pool the recalculation at 20 latches with its notification, and nothing is lost
by then. -/
theorem latch_noticed_overrun :
    LatchedWithNotice (poolQueue 40) (fun _ q => q) ⟨0, 0⟩ 20
        (letterRun unnoticedRequests).driver ∧
      NothingLost (poolQueue 40) (fun _ q => q) ⟨0, 0⟩ (letterRun overrunRequests).driver := by
  obtain ⟨hrecalc, hrun⟩ := latch_noticed_iff (poolQueue 40) (fun _ q => q) ⟨0, 0⟩
  have hfree : (poolQueue 40).channel.Free ⟨0, 0⟩ :=
    Or.inr (by decide : 0 + 40 ≤ dmissedqueueSize)
  constructor
  · exact (hrecalc 20 _).mpr (findsRoom_of_one _ _ _ (by decide +kernel) (by decide +kernel) hfree)
  · exact (hrun letterSite _ (letterRun_reachable (by decide +kernel) (by decide +kernel))).mpr
      (foundRoom_of_one _ _ _ (by decide +kernel) hfree)

/-- While the pool is full and nobody reads, the miss is latched and its message is lost. -/
theorem miss_latched_unnoticed :
    ¬LatchedWithNotice (poolQueue 40) (fun _ q => q) ⟨1024, 0⟩ 20
        (letterRun [⟨.create 0 10, plainReplies 0 10⟩]).driver ∧
      ¬NothingLost (poolQueue 40) (fun _ q => q) ⟨1024, 0⟩ (letterRun overrunRequests).driver := by
  constructor
  · rintro ⟨new, hlog, hlatched, -⟩
    have hnew : new = [((letterName 0, 1), false)] := by
      rw [← List.append_nil new]
      exact hlog.symm.trans (by decide +kernel)
    have hmem := hlatched (letterName 0) _ _ rfl rfl (by decide +kernel) (by decide +kernel)
    rw [hnew] at hmem
    exact absurd hmem (by decide +kernel)
  · intro h
    have hmem := h.misses (letterName 0) 1 (by decide +kernel)
    exact absurd hmem (by decide +kernel)

end Edfomai
