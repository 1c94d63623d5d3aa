import Edfomai.HeapRefines
import Edfomai.Jenkins
import Edfomai.Memory

/-!
# Edfomai.HeapRuns

**Runs of the driver in memory**: write requests, deletion hooks, rounds of the service and
`rt_dtask_dispose`, one after the other, from an empty `dtask_map`. `rtdm_malloc` may return any
block that is not a record in use, and may fail.

`handle_rel` is the one fact about a call. A run in memory is followed by a run of the same calls
on the table (`simulation`), a call that gets its memory completes, and what is allocated is what
is in the table.
-/

namespace Edfomai

/-- The calls the driver gets, on the table. -/
def calls : TransitionSystem Driver Call where
  init d := ∃ x : Kernel, d = rtDtaskInit x
  step d call d' := call.exec d = some d'

/-- The same call when `uthash_malloc` does not fail. -/
def Call.withTable : Call → Call
  | write registry w nbyte => write registry { w with op := { w.op with table := true } } nbyte
  | deleteHook task r => deleteHook task { r with table := true }
  | service currTime => service currTime
  | dispose => dispose

/-- No allocation of an operation fails. -/
def Replies.Fed (r : Replies) : Prop :=
  r.block.isSome ∧ r.watchd.isSome ∧ r.nested.isSome ∧ r.table = true

instance (r : Replies) : Decidable r.Fed :=
  inferInstanceAs (Decidable (_ ∧ _ ∧ _ ∧ _))

/-- No allocation of a call fails. -/
def Call.Fed : Call → Prop
  | write _ w _ => w.message.isSome ∧ w.op.Fed
  | deleteHook _ r => r.Fed
  | service _ | dispose => True

theorem Replies.Fed.gets {r : Replies} (h : r.Fed) (op : Op) (d : Driver) : op.Gets r d := by
  obtain ⟨hblock, hwatchd, hnested, htable⟩ := h
  cases op with
  | create task deadline => exact ⟨hblock, Or.inr ⟨htable, hwatchd⟩⟩
  | stopwatchdog task => exact ⟨hblock, fun _ => hnested⟩
  | setdeadline task newdeadline => exact hblock
  | resetdeadline task => exact hblock
  | goingwaitp task => exact hblock
  | delete task => exact hblock
  | recalculateprio => trivial

theorem Call.Fed.table {call : Call} (h : call.Fed) :
    ∀ q ∈ call.request?, q.replies.table = true := by
  intro q hq
  cases call with
  | write registry w nbyte =>
      obtain ⟨op, -, rfl⟩ := Option.map_eq_some_iff.mp hq
      exact h.2.2.2.2
  | deleteHook task r =>
      obtain rfl := Option.some.inj hq
      exact h.2.2.2
  | service currTime => cases hq
  | dispose => cases hq

/-- On the table such a call completes. -/
theorem Call.Fed.exec_isSome {call : Call} (h : call.Fed) (d : Driver) : (call.exec d).isSome := by
  cases call with
  | write registry w nbyte =>
      obtain ⟨hmessage, hfed⟩ := h
      obtain ⟨b, hb⟩ := Option.isSome_iff_exists.mp hmessage
      cases hop : writeOp registry w with
      | none => simp [exec, edfRtdmWriteNrt_of_no_op nbyte d hb hop]
      | some op =>
          simpa [exec, edfRtdmWriteNrt_of_op nbyte d hb hop] using (hfed.gets op _).exec_isSome
  | deleteHook task r =>
      rw [exec, Option.isSome_map]
      exact (h.gets (.delete task) d).exec_isSome
  | service currTime => rfl
  | dispose => rfl

namespace HeapDriver

/-- `rtdm_malloc` does not return a record that is in use. -/
def Fresh (call : Call) (c : HeapDriver) : Prop :=
  ∀ q ∈ call.request?, ∀ b ∈ q.replies.block, c.dtaskMap.links.live b = false

instance (call : Call) (c : HeapDriver) : Decidable (Fresh call c) :=
  inferInstanceAs (Decidable (∀ q ∈ call.request?, ∀ b ∈ q.replies.block, _ = false))

/-- The calls the driver gets, in memory. -/
def memory (hashFcn : List UInt8 → UInt32) : TransitionSystem HeapDriver Call where
  init c := ∃ x : Kernel, c = rtDtaskInit x
  step c call c' := Fresh call c ∧ handle hashFcn call c = some c'

variable {hashFcn : List UInt8 → UInt32} {items : List Block} {c c' : HeapDriver} {d : Driver}

/-! ### Without memory for the table -/

section Memory

variable {r : Replies} {task : RtTask} {res : Int32 × HeapDriver}

theorem add_of_some {mem : Bool} {p : Block} (h : c.add hashFcn mem p = some c') :
    c.add hashFcn true p = some c' := by
  obtain ⟨map, hmap, rfl⟩ := Option.map_eq_some_iff.mp h
  simp [add, UtHash.hashAddStr_of_some hmap]

theorem insertDtask_of_some {b : Block} {deadline : UInt64}
    (h : insertDtask hashFcn r b task deadline c = some res) :
    insertDtask hashFcn { r with table := true } b task deadline c = some res := by
  obtain ⟨c₁, hstore, h⟩ := Option.bind_eq_some_iff.mp h
  obtain ⟨found, hfind, h⟩ := Option.bind_eq_some_iff.mp h
  refine Option.bind_eq_some_iff.mpr ⟨c₁, hstore, Option.bind_eq_some_iff.mpr ⟨found, hfind, ?_⟩⟩
  cases found with
  | none =>
      obtain ⟨c₂, hadd, h⟩ := Option.bind_eq_some_iff.mp h
      exact Option.bind_eq_some_iff.mpr ⟨c₂, add_of_some hadd, h⟩
  | some _ => exact h

theorem exec_of_some {op : Op} (h : exec hashFcn r op c = some res) :
    exec hashFcn { r with table := true } op c = some res := by
  cases op with
  | create task deadline =>
      simp only [exec, rtDtaskCreate] at h ⊢
      cases hb : r.block with
      | none => simp [hb] at h
      | some b =>
          simp only [hb] at h ⊢
          obtain ⟨res₁, hinsert, h⟩ := Option.bind_eq_some_iff.mp h
          exact Option.bind_eq_some_iff.mpr ⟨res₁, insertDtask_of_some hinsert, h⟩
  | setdeadline task newdeadline => exact h
  | resetdeadline task => exact h
  | goingwaitp task => exact h
  | stopwatchdog task => exact h
  | delete task => exact h
  | recalculateprio => exact h

theorem serve_of_some {op : Op} (h : serve hashFcn r op c = some res) :
    serve hashFcn { r with table := true } op c = some res := by
  obtain ⟨res₁, hexec, heq⟩ := Option.map_eq_some_iff.mp h
  exact Option.map_eq_some_iff.mpr ⟨res₁, exec_of_some hexec, heq⟩

theorem write_of_some {registry : Registry} {w : WriteReplies} {nbyte : UInt64}
    {res : Int64 × HeapDriver} (h : edfRtdmWriteNrt hashFcn registry w nbyte c = some res) :
    edfRtdmWriteNrt hashFcn registry { w with op := { w.op with table := true } } nbyte c =
      some res := by
  unfold edfRtdmWriteNrt at h ⊢
  cases hb : w.message with
  | none => simp [hb] at h
  | some b =>
      simp only [hb] at h ⊢
      split at h
      · next hcopy => rwa [if_pos hcopy]
      · next hcopy =>
        rw [if_neg hcopy]
        cases htask : getHandle registry (w.buffer.taskMemory w.beyond) with
        | none => simpa [htask] using h
        | some task =>
            simp only [htask] at h ⊢
            cases hcommand : EdfCommand.ofCode w.buffer.command with
            | none => simpa [hcommand] using h
            | some command =>
                simp only [hcommand] at h ⊢
                obtain ⟨res₁, hserve, heq⟩ := Option.map_eq_some_iff.mp h
                exact Option.map_eq_some_iff.mpr ⟨res₁, serve_of_some hserve, heq⟩

end Memory

/-- A call that completes completes with the memory that `uthash` may ask for. -/
theorem handle_of_some {call : Call} (h : handle hashFcn call c = some c') :
    handle hashFcn call.withTable c = some c' := by
  cases call with
  | write registry w nbyte =>
      obtain ⟨res, hwrite, rfl⟩ := Option.map_eq_some_iff.mp h
      exact Option.map_eq_some_iff.mpr ⟨res, write_of_some hwrite, rfl⟩
  | deleteHook task r => exact h
  | service currTime => exact h
  | dispose => exact h

/-! ### One call -/

theorem Shows.not_mem_of_fresh {call : Call} (h : Shows hashFcn items [] c d)
    (hfresh : Fresh call c) : ∀ q ∈ call.request?, ∀ b ∈ q.replies.block, b ∉ items := by
  intro q hq b hb hmem
  have hlive := (h.live b).mpr (Or.inl hmem)
  rw [hfresh q hq b hb] at hlive
  cases hlive

/-- What a call gives is related: the operation it comes to gets a new block, and memory for
the table. -/
theorem write_rel {registry : Registry} {w : WriteReplies} (nbyte : UInt64)
    (h : Shows hashFcn items [] c d)
    (hop : ∀ op, writeOp registry w = some op →
      (∀ b ∈ w.op.block, b ∉ items) ∧ w.op.table = true) :
    Option.Rel (fun res res' => res.1 = res'.1 ∧ Refines hashFcn res.2 res'.2)
      (edfRtdmWriteNrt hashFcn registry w nbyte c)
      (Edfomai.edfRtdmWriteNrt registry w nbyte d) := by
  unfold edfRtdmWriteNrt Edfomai.edfRtdmWriteNrt
  cases hb : w.message with
  | none => exact .none
  | some b =>
      have hlog := h.log (.malloc (some b))
      by_cases hcopy : w.copy = efault
      · simp only [if_pos hcopy]
        exact .some ⟨rfl, items, hlog.log _⟩
      simp only [if_neg hcopy]
      cases htask : getHandle registry (w.buffer.taskMemory w.beyond) with
      | none => exact .some ⟨rfl, items, hlog.log _⟩
      | some task =>
          cases hcommand : EdfCommand.ofCode w.buffer.command with
          | none => exact .some ⟨rfl, items, hlog.log _⟩
          | some command =>
              obtain ⟨hfresh, htable⟩ := hop (command.op task w.buffer.deadline)
                (by simp [writeOp, hb, hcopy, htask, hcommand])
              have hexec := exec_rel hlog hfresh htable (command.op task w.buffer.deadline)
              refine rel_map (rel_map hexec fun res res' hres => ?_)
                (R := fun res res' => res.1 = res'.1 ∧ Refines hashFcn res.2 res'.2)
                fun res res' hres => ?_
              · exact ⟨rfl, hres.2⟩
              · obtain ⟨hret, items', hshow⟩ := hres
                exact ⟨by rw [hret], items', hshow.log _⟩

/-- **A call.** On memory it does what it does on the table. -/
theorem handle_rel {call : Call} (h : Shows hashFcn items [] c d) (hfresh : Fresh call c)
    (htable : ∀ q ∈ call.request?, q.replies.table = true) :
    Option.Rel (Refines hashFcn) (handle hashFcn call c) (call.exec d) := by
  have hnew := h.not_mem_of_fresh hfresh
  cases call with
  | write registry w nbyte =>
      refine rel_map (write_rel nbyte h fun op hop => ?_) fun _ _ hres => hres.2
      have hq : (⟨op, w.op⟩ : Request) ∈ (Call.write registry w nbyte).request? := by
        simp [Call.request?, hop]
      exact ⟨hnew _ hq, htable _ hq⟩
  | deleteHook task r => exact rel_map (delete_rel h) fun _ _ hres => hres.2
  | service currTime =>
      obtain ⟨c', hrecalc, hshow⟩ := h.recalc currTime
      rw [handle, hrecalc]
      exact .some ⟨items, hshow⟩
  | dispose =>
      obtain ⟨c', hdispose, hshow⟩ := dispose_rel h
      rw [handle, hdispose]
      exact .some ⟨[], hshow⟩

theorem withTable_table (call : Call) : ∀ q ∈ call.withTable.request?, q.replies.table = true := by
  intro q hq
  cases call with
  | write registry w nbyte =>
      obtain ⟨op, -, rfl⟩ := Option.map_eq_some_iff.mp hq
      rfl
  | deleteHook task r =>
      obtain rfl := Option.some.inj hq
      rfl
  | service currTime => cases hq
  | dispose => cases hq

theorem Fresh.withTable {call : Call} (h : Fresh call c) : Fresh call.withTable c := by
  intro q hq b hb
  cases call with
  | write registry w nbyte =>
      obtain ⟨op, hop, rfl⟩ := Option.map_eq_some_iff.mp hq
      exact h ⟨op, w.op⟩ (Option.map_eq_some_iff.mpr ⟨op, hop, rfl⟩) b hb
  | deleteHook task r =>
      obtain rfl := Option.some.inj hq
      exact h ⟨.delete task, r⟩ rfl b hb
  | service currTime => cases hq
  | dispose => cases hq

/-- A call that completes leaves memory in order. -/
theorem handle_shows {call : Call} (h : Shows hashFcn items [] c d) (hfresh : Fresh call c)
    (hc' : handle hashFcn call c = some c') :
    ∃ d', call.withTable.exec d = some d' ∧ Refines hashFcn c' d' := by
  have hrel := handle_rel h hfresh.withTable (withTable_table call)
  rw [handle_of_some hc'] at hrel
  cases hd' : call.withTable.exec d with
  | none => simp [hd'] at hrel
  | some d' =>
      rw [hd', Option.rel_some_some] at hrel
      exact ⟨d', rfl, hrel⟩

/-! ### Runs -/

theorem refines_init (hashFcn : List UInt8 → UInt32) (x : Kernel) :
    Refines hashFcn (rtDtaskInit x) (Edfomai.rtDtaskInit x) :=
  ⟨[], .empty rfl rfl, rfl, rfl, by simp, by simp [rtDtaskInit], by simp⟩

/-- **A run in memory is a run of the same calls on the table.** -/
theorem simulation (hashFcn : List UInt8 → UInt32) :
    TransitionSystem.Simulation (memory hashFcn) calls Call.withTable (Refines hashFcn) where
  init := by
    rintro c ⟨x, rfl⟩
    exact ⟨_, ⟨x, rfl⟩, refines_init hashFcn x⟩
  step := by
    rintro c call c' d ⟨items, hshow⟩ ⟨hfresh, hc'⟩
    exact handle_shows hshow hfresh hc'

/-- Handle some calls, with the hash function of the driver. -/
def letterRuns : List Call → HeapDriver → Option HeapDriver
  | [], c => some c
  | call :: cs, c =>
      if Fresh call c then (handle (hashJenOf signedChar) call c).bind (letterRuns cs) else none

theorem letterRuns_run {cs : List Call} {c₀ : HeapDriver} (h : letterRuns cs c₀ = some c) :
    (memory (hashJenOf signedChar)).Run c₀ cs c := by
  induction cs generalizing c₀ with
  | nil =>
      obtain rfl := Option.some.inj h
      exact .refl c₀
  | cons call cs ih =>
      rw [letterRuns] at h
      split at h
      · next hfresh =>
        obtain ⟨c₁, hc₁, h⟩ := Option.bind_eq_some_iff.mp h
        exact (ih h).cons ⟨hfresh, hc₁⟩
      · cases h

/-- No record yet. -/
def letterEmpty : HeapDriver := rtDtaskInit letterStart.driver.kernel

/-- Tasks `0` and `1` of `letterSite` are created. -/
def letterCalls : List Call :=
  [letterWrite .createTask 0 10 0 0, letterWrite .createTask 1 20 3 10]

/-- The memory after that. -/
def letterMemory : HeapDriver := (letterRuns letterCalls letterEmpty).getD letterEmpty

theorem letterMemory_run :
    (memory (hashJenOf signedChar)).Run letterEmpty letterCalls letterMemory := by
  have hsome : (letterRuns letterCalls letterEmpty).isSome := by decide +kernel
  obtain ⟨c, hc⟩ := Option.isSome_iff_exists.mp hsome
  rw [letterMemory, hc, Option.getD_some]
  exact letterRuns_run hc

theorem letterMemory_reachable : (memory (hashJenOf signedChar)).Reachable letterMemory :=
  .run (.init ⟨_, rfl⟩) letterMemory_run

/-- **What a run in memory comes to** is what the same calls come to on the table, and there a
further request is answered alike. -/
theorem memory_refines {x : Kernel} {cs : List Call}
    (hrun : (memory hashFcn).Run (rtDtaskInit x) cs c) :
    ∃ d, calls.Run (Edfomai.rtDtaskInit x) (cs.map Call.withTable) d ∧ Refines hashFcn c d ∧
      ∀ registry w nbyte ret c', Fresh (.write registry w nbyte) c →
        edfRtdmWriteNrt hashFcn registry w nbyte c = some (ret, c') →
        ∃ d', Edfomai.edfRtdmWriteNrt registry { w with op := { w.op with table := true } } nbyte
          d = some (ret, d') ∧ Refines hashFcn c' d' := by
  obtain ⟨d, hd, items, hshow⟩ := (simulation hashFcn).run (refines_init hashFcn x) hrun
  refine ⟨d, hd, ⟨items, hshow⟩, fun registry w nbyte ret c' hfresh hwrite => ?_⟩
  have hnew := hshow.not_mem_of_fresh hfresh.withTable
  have hrel := write_rel nbyte hshow fun op hop =>
    ⟨hnew ⟨op, _⟩ (Option.map_eq_some_iff.mpr ⟨op, hop, rfl⟩), rfl⟩
  rw [write_of_some hwrite] at hrel
  cases hd' : Edfomai.edfRtdmWriteNrt registry { w with op := { w.op with table := true } } nbyte
    d with
  | none => simp [hd'] at hrel
  | some res =>
      rw [hd', Option.rel_some_some] at hrel
      obtain ⟨hret, hrefines⟩ := hrel
      obtain ⟨ret', d'⟩ := res
      obtain rfl : ret = ret' := hret
      exact ⟨d', rfl, hrefines⟩

theorem memory_refines_letter :
    ∃ d, calls.Run (Edfomai.rtDtaskInit letterStart.driver.kernel)
        (letterCalls.map Call.withTable) d ∧
      Refines (hashJenOf signedChar) letterMemory d := by
  obtain ⟨d, hd, hrefines, -⟩ := memory_refines letterMemory_run
  exact ⟨d, hd, hrefines⟩

/-- **A call completes** if no allocation fails: it follows no pointer that is `NULL` or leads to
a freed record, frees no record twice and gets to the end of every list. -/
theorem call_completes {call : Call} (hc : (memory hashFcn).Reachable c) (hfresh : Fresh call c)
    (hfed : call.Fed) : (handle hashFcn call c).isSome := by
  obtain ⟨d, -, items, hshow⟩ := (simulation hashFcn).reachable hc
  have hrel := handle_rel hshow hfresh hfed.table
  obtain ⟨d', hd'⟩ := Option.isSome_iff_exists.mp (hfed.exec_isSome d)
  rw [hd'] at hrel
  cases hc' : handle hashFcn call c with
  | none => simp [hc'] at hrel
  | some c' => rfl

theorem call_completes_letter :
    (handle (hashJenOf signedChar) (letterWrite .createTask 2 20 5 20) letterMemory).isSome :=
  call_completes letterMemory_reachable (by decide +kernel) ⟨rfl, by decide⟩

/-- A record is allocated if and only if it is found under its name. -/
theorem Shows.live_iff_find (h : Shows hashFcn items [] c d) (p : Block) :
    c.dtaskMap.links.live p = true ↔
      c.find hashFcn (c.dtask p).taskInfo.name = some (some p) := by
  obtain ⟨out, hout, hiff⟩ := h.elements.hashFindStr (c.dtask p).taskInfo.name.chars
  have hlive : c.dtaskMap.links.live p = true ↔ p ∈ items := by simpa using h.live p
  rw [hlive, HeapDriver.find, hout, Option.some_inj, hiff]
  exact ⟨fun hp => ⟨hp, rfl⟩, And.left⟩

/-- **What is allocated is in the table**, under its name, and the table is in order. -/
theorem allocated_iff_found (hc : (memory hashFcn).Reachable c) :
    c.dtaskMap.hashFsck = true ∧ ∀ p, c.dtaskMap.links.live p = true ↔
      c.find hashFcn (c.dtask p).taskInfo.name = some (some p) := by
  obtain ⟨d, -, items, hshow⟩ := (simulation hashFcn).reachable hc
  exact ⟨hshow.elements.hashFsck, hshow.live_iff_find⟩

theorem allocated_iff_found_letter : letterMemory.dtaskMap.hashFsck = true ∧
    letterMemory.find (hashJenOf signedChar) (letterMemory.dtask 0).taskInfo.name =
      some (some 0) := by
  obtain ⟨hfsck, hlive⟩ := allocated_iff_found letterMemory_reachable
  exact ⟨hfsck, (hlive 0).mp (by decide +kernel)⟩

/-- **`rt_dtask_dispose` leaves nothing.** -/
theorem dispose_frees (hc : (memory hashFcn).Reachable c) :
    ∃ c', rtDtaskDispose c = some c' ∧ (∀ p, c'.dtaskMap.links.live p = false) ∧
      c'.dtaskMap.head = none ∧ c'.dtaskMap.tbl = none := by
  obtain ⟨d, -, items, hshow⟩ := (simulation hashFcn).reachable hc
  obtain ⟨c', hdispose, hshow'⟩ := dispose_rel hshow
  refine ⟨c', hdispose, fun p => ?_, hshow'.elements.head, ?_⟩
  · simpa using hshow'.live p
  · exact hshow'.elements.tbl_nil

theorem dispose_frees_letter : ∃ c', rtDtaskDispose letterMemory = some c' ∧
    ∀ p, c'.dtaskMap.links.live p = false := by
  obtain ⟨c', hc', hlive, -⟩ := dispose_frees letterMemory_reachable
  exact ⟨c', hc', hlive⟩

end HeapDriver

end Edfomai
