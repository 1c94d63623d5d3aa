import Edfomai.Client
import Edfomai.Lib.Ledger
import Mathlib.Data.List.Induction

/-!
# Edfomai.Device

The library's global `device` and the descriptors behind it: `edf_init`, `edf_dispose`
and the two task functions of `Edfomai.Client`, called any number of times in any order
by the tasks of one process.

The shape of the argument:

* the descriptors are a ledger, of which the library's calls to the device are the
  entries;
* `Client.Consistent` is what should hold of the handle between two calls;
* `exec_consistent` and `keeps_of_consistent` find out which calls keep it, and
  `handle_invariant_iff` adds them up over a run.
-/

namespace Edfomai

/-! ### Descriptors -/

/-- The answer of `rt_dev_close`. A failing close may or may not have given the
descriptor back. -/
structure CloseReply where
  ret : Int32
  released : Bool

/-- A call of the library to the device. -/
inductive DeviceCall
  /-- `rt_dev_open`, which returned a descriptor or an error. -/
  | rtDevOpen (opened : Int32)
  /-- `rt_dev_close`. -/
  | rtDevClose (device : Int32) (closed : CloseReply)
  /-- `rt_dev_write`. -/
  | rtDevWrite (device : Int32)

namespace DeviceCall

/-- What a call does to the descriptors that are open. -/
def entry : DeviceCall → Option (Ledger.Entry Int32)
  | rtDevOpen opened => if opened < 0 then none else some (.take opened)
  | rtDevClose device closed =>
      if closed.ret = 0 ∨ closed.released then some (.give device) else none
  | rtDevWrite _ => none

/-- The descriptor a call is made with. -/
def uses : DeviceCall → Option Int32
  | rtDevOpen _ => none
  | rtDevClose device _ => some device
  | rtDevWrite device => some device

end DeviceCall

/-- The descriptors that the library has opened and that are still open. -/
def openFds (calls : List DeviceCall) : Multiset Int32 :=
  Ledger.outstanding (calls.filterMap DeviceCall.entry)

/-- Every call was made with a descriptor that was open then. -/
def UsesOpen : List DeviceCall → Prop
  | [] => True
  | c :: calls => (∀ fd, c.uses = some fd → fd ≠ -1 ∧ fd ∈ openFds calls) ∧ UsesOpen calls

section Descriptors

variable {calls : List DeviceCall} {fd : Int32}

@[simp] theorem openFds_nil : openFds [] = 0 := rfl

@[simp] theorem openFds_write : openFds (.rtDevWrite fd :: calls) = openFds calls := rfl

theorem openFds_open :
    openFds (.rtDevOpen fd :: calls) = if fd < 0 then openFds calls else {fd} + openFds calls := by
  unfold openFds
  split_ifs with h <;> simp [DeviceCall.entry, h, Ledger.outstanding]

theorem openFds_close (closed : CloseReply) :
    openFds (.rtDevClose fd closed :: calls) =
      if closed.ret = 0 ∨ closed.released then (openFds calls).erase fd else openFds calls := by
  unfold openFds
  split_ifs with h <;> simp [DeviceCall.entry, h, Ledger.outstanding]

/-- A close does not open anything. -/
theorem openFds_close_le (closed : CloseReply) :
    openFds (.rtDevClose fd closed :: calls) ≤ openFds calls := by
  rw [openFds_close]
  split_ifs
  · exact Multiset.erase_le _ _
  · exact le_rfl

end Descriptors

/-! ### The library -/

/-- The library in a process: the global `device`, and the calls made to the device,
newest first. -/
structure Client where
  device : Int32
  calls : List DeviceCall

namespace Client

/-- `int device=-1;` -/
def initial : Client := ⟨-1, []⟩

/-- The open descriptors. -/
def openFds (s : Client) : Multiset Int32 := Edfomai.openFds s.calls

/-- Of the calls of a task function only the writes concern the device. -/
def log (s : Client) : ClientCall → Client
  | .rtDevWrite device _ => { s with calls := .rtDevWrite device :: s.calls }
  | .rtTaskStart _ | .rtTaskWaitPeriod => s

end Client

/-- `edf_init`. The handle is forgotten before the device is opened. -/
def edfInit (opened : Int32) (s : Client) : Int32 × Client :=
  let calls := .rtDevOpen opened :: s.calls
  if opened < 0 then (-1, ⟨-1, calls⟩) else (0, ⟨opened, calls⟩)

/-- `edf_dispose`. The handle is reset where closing fails, and only there. -/
def edfDispose (closed : CloseReply) (s : Client) : Int32 × Client :=
  if s.device = -1 then (-1, s)
  else
    let calls := .rtDevClose s.device closed :: s.calls
    if closed.ret ≠ 0 then (-2, ⟨-1, calls⟩) else (0, ⟨s.device, calls⟩)

/-- A call of a function of the library, with all that the system answers to it. -/
inductive LibraryCall
  | init (opened : Int32)
  | dispose (closed : CloseReply)
  | taskStart (r : ClientReplies) (x : Kernel) (task : RtTask) (deadline : UInt64)
  | taskWaitPeriod (r : ClientReplies) (x : Kernel)

/-- The library after a call. -/
def LibraryCall.exec (s : Client) : LibraryCall → Client
  | init opened => (edfInit opened s).2
  | dispose closed => (edfDispose closed s).2
  | taskStart r x task deadline => (edfTaskStart r x s.device task deadline).2.foldl Client.log s
  | taskWaitPeriod r x => (edfTaskWaitPeriod r x s.device).2.foldl Client.log s

/-- The library after a sequence of calls in a new process. -/
def runCalls (cs : List LibraryCall) : Client := cs.foldl LibraryCall.exec .initial

theorem runCalls_concat (cs : List LibraryCall) (c : LibraryCall) :
    runCalls (cs ++ [c]) = c.exec (runCalls cs) := by
  simp [runCalls]

/-! ### What should hold of the handle -/

/-- The handle is unset or open, no second descriptor is open, and no call was made
with any but an open one. -/
structure Client.Consistent (s : Client) : Prop where
  device_open : s.device = -1 ∨ s.device ∈ s.openFds
  single : s.openFds.card ≤ 1
  usesOpen : UsesOpen s.calls

/-- The handle is consistent all along, and nothing is open once the library has been
disposed of. -/
structure HandleInvariant (cs : List LibraryCall) : Prop where
  consistent : ∀ cs₁, cs₁ <+: cs → (runCalls cs₁).Consistent
  disposed : ∀ cs₁ closed, cs₁ ++ [.dispose closed] <+: cs →
    (edfDispose closed (runCalls cs₁)).1 = 0 →
      (runCalls (cs₁ ++ [.dispose closed])).openFds = 0

/-- The calls that keep the handle consistent: an `edf_init` that opens nothing or finds
nothing open, an `edf_dispose` that does nothing or fails to close, and an
`edf_task_wait_period` that has a device or gives up before the first write. -/
def LibraryCall.Keeps (s : Client) : LibraryCall → Prop
  | init opened => opened < 0 ∨ s.openFds = 0
  | dispose closed => s.device = -1 ∨ closed.ret ≠ 0
  | taskStart _ _ _ _ => True
  | taskWaitPeriod r _ => s.device ≠ -1 ∨ r.self = none ∨ r.inquire ≠ 0

/-! ### The calls of the task functions -/

/-- `edf_task_start` writes to the device, if there is one. -/
theorem edfTaskStart_write {r : ClientReplies} {x : Kernel} {device fd : Int32} {task : RtTask}
    {deadline : UInt64} {m : EdfMessage}
    (h : .rtDevWrite fd m ∈ (edfTaskStart r x device task deadline).2) :
    fd = device ∧ device ≠ -1 := by
  unfold edfTaskStart at h
  split_ifs at h with hinquire hdevice <;> simp at h
  exact ⟨h.1, hdevice⟩

/-- `edf_task_wait_period` writes to the device, whether there is one or not. -/
theorem edfTaskWaitPeriod_write {r : ClientReplies} {x : Kernel} {device fd : Int32}
    {m : EdfMessage} (h : .rtDevWrite fd m ∈ (edfTaskWaitPeriod r x device).2) :
    fd = device ∧ r.self ≠ none ∧ r.inquire = 0 := by
  unfold edfTaskWaitPeriod at h
  split at h
  · simp at h
  · next task hself =>
      split_ifs at h with hinquire hdevice <;> simp at h
      · exact ⟨h.1, by simp [hself], not_not.mp hinquire⟩
      -- with a device there are two writes
      all_goals exact ⟨by rcases h with h | h <;> exact h.1, by simp [hself], not_not.mp hinquire⟩

theorem mem_edfTaskWaitPeriod {r : ClientReplies} {x : Kernel} {device : Int32}
    (hself : r.self ≠ none) (hinquire : r.inquire = 0) :
    ∃ m, .rtDevWrite device m ∈ (edfTaskWaitPeriod r x device).2 := by
  obtain ⟨task, hself⟩ := Option.ne_none_iff_exists'.mp hself
  simp only [edfTaskWaitPeriod, hself, hinquire, ne_eq, not_true_eq_false, ↓reduceIte]
  split_ifs <;> exact ⟨_, List.mem_cons_self ..⟩

namespace Client

variable {s : Client} {cs : List ClientCall}

@[simp] theorem log_device (c : ClientCall) : (s.log c).device = s.device := by
  cases c <;> rfl

@[simp] theorem log_openFds (c : ClientCall) : (s.log c).openFds = s.openFds := by
  cases c <;> rfl

/-- Writing to the open handle keeps it consistent. -/
theorem Consistent.log (hs : s.Consistent) {c : ClientCall}
    (hwrite : ∀ fd m, c = .rtDevWrite fd m → fd = s.device ∧ s.device ≠ -1) :
    (s.log c).Consistent := by
  refine ⟨by simpa using hs.device_open, by simpa using hs.single, ?_⟩
  cases c with
  | rtDevWrite fd m =>
      obtain ⟨rfl, hdevice⟩ := hwrite fd m rfl
      refine ⟨?_, hs.usesOpen⟩
      rintro fd ⟨⟩
      exact ⟨hdevice, hs.device_open.resolve_left hdevice⟩
  | rtTaskStart task => exact hs.usesOpen
  | rtTaskWaitPeriod => exact hs.usesOpen

theorem Consistent.logAll (hs : s.Consistent)
    (hwrite : ∀ fd m, .rtDevWrite fd m ∈ cs → fd = s.device ∧ s.device ≠ -1) :
    (cs.foldl Client.log s).Consistent := by
  induction cs generalizing s with
  | nil => exact hs
  | cons c cs ih =>
      refine ih (hs.log fun fd m hc => hwrite fd m (by simp [hc])) fun fd m hmem => ?_
      rw [log_device]
      exact hwrite fd m (List.mem_cons_of_mem _ hmem)

/-- Logging keeps the calls logged before. -/
theorem UsesOpen.of_logAll (h : UsesOpen (cs.foldl Client.log s).calls) : UsesOpen s.calls := by
  induction cs generalizing s with
  | nil => exact h
  | cons c cs ih =>
      have hlog := ih h
      cases c with
      | rtDevWrite fd m => exact hlog.2
      | rtTaskStart task => exact hlog
      | rtTaskWaitPeriod => exact hlog

/-- A write among consistent calls is not made with `-1`. -/
theorem ne_of_usesOpen {fd : Int32} {m : EdfMessage} (hmem : .rtDevWrite fd m ∈ cs)
    (h : UsesOpen (cs.foldl Client.log s).calls) : fd ≠ -1 := by
  induction cs generalizing s with
  | nil => simp at hmem
  | cons c cs ih =>
      rcases List.mem_cons.mp hmem with rfl | hmem
      · have hlog : UsesOpen (s.log (.rtDevWrite fd m)).calls := UsesOpen.of_logAll h
        exact (hlog.1 fd rfl).1
      · exact ih hmem h

end Client

/-! ### One call -/

section Step

variable {s : Client}

theorem edfInit_consistent (hs : s.Consistent) {opened : Int32}
    (hkeeps : opened < 0 ∨ s.openFds = 0) : (edfInit opened s).2.Consistent := by
  have huses : UsesOpen (.rtDevOpen opened :: s.calls) := ⟨by simp [DeviceCall.uses], hs.usesOpen⟩
  unfold edfInit
  split_ifs with hopened
  · refine ⟨.inl rfl, ?_, huses⟩
    rw [Client.openFds, openFds_open, if_pos hopened]
    exact hs.single
  · -- the new descriptor is the only one
    have hnone : openFds s.calls = 0 := hkeeps.resolve_left hopened
    have hfds : Client.openFds ⟨opened, .rtDevOpen opened :: s.calls⟩ = {opened} := by
      rw [Client.openFds, openFds_open, if_neg hopened, hnone]
      rfl
    exact ⟨.inr (by simp [hfds]), by simp [hfds], huses⟩

theorem edfDispose_consistent (hs : s.Consistent) {closed : CloseReply}
    (hkeeps : s.device = -1 ∨ closed.ret ≠ 0) : (edfDispose closed s).2.Consistent := by
  unfold edfDispose
  split_ifs with hdevice hclosed
  · exact hs
  · refine ⟨.inl rfl, ?_, ?_, hs.usesOpen⟩
    · exact (Multiset.card_le_card (openFds_close_le closed)).trans hs.single
    · rintro fd ⟨⟩
      exact ⟨hdevice, hs.device_open.resolve_left hdevice⟩
  · exact absurd (hkeeps.resolve_left hdevice) hclosed

/-- **Calls that keep the handle consistent do so.** -/
theorem LibraryCall.exec_consistent {c : LibraryCall} (hs : s.Consistent) (hkeeps : c.Keeps s) :
    (c.exec s).Consistent := by
  cases c with
  | init opened => exact edfInit_consistent hs hkeeps
  | dispose closed => exact edfDispose_consistent hs hkeeps
  | taskStart r x task deadline => exact hs.logAll fun fd m hmem => edfTaskStart_write hmem
  | taskWaitPeriod r x =>
      refine hs.logAll fun fd m hmem => ?_
      obtain ⟨hfd, hself, hinquire⟩ := edfTaskWaitPeriod_write hmem
      exact ⟨hfd, hkeeps.resolve_right fun h => h.elim hself (absurd hinquire)⟩

/-- Closing the only open descriptor leaves none. -/
theorem edfDispose_stale (hs : s.Consistent) {closed : CloseReply} (hdevice : s.device ≠ -1)
    (hclosed : closed.ret = 0) : ¬ (edfDispose closed s).2.Consistent := by
  intro h
  have hmem : s.device ∈ s.openFds := hs.device_open.resolve_left hdevice
  have hnone : s.openFds.erase s.device = 0 := by
    have hcard := Multiset.card_erase_of_mem hmem
    have hsingle := hs.single
    exact Multiset.card_eq_zero.mp (by rw [hcard, Nat.pred_eq_sub_one]; omega)
  have hstale := h.device_open
  rw [edfDispose, if_neg hdevice, if_neg (not_not.mpr hclosed), Client.openFds, openFds_close,
    if_pos (Or.inl hclosed)] at hstale
  rw [Client.openFds] at hnone
  simp [hnone, hdevice] at hstale

/-- **No others do.** -/
theorem LibraryCall.keeps_of_consistent {c : LibraryCall} (hs : s.Consistent)
    (h : (c.exec s).Consistent) : c.Keeps s := by
  cases c with
  | init opened =>
      by_contra hkeeps
      obtain ⟨hopened, hsome⟩ := not_or.mp hkeeps
      have hsingle := h.single
      simp only [exec, edfInit, if_neg hopened, Client.openFds, openFds_open, Multiset.card_add,
        Multiset.card_singleton] at hsingle
      exact hsome (Multiset.card_eq_zero.mp (by rw [Client.openFds]; omega))
  | dispose closed =>
      by_contra hkeeps
      obtain ⟨hdevice, hclosed⟩ := not_or.mp hkeeps
      exact edfDispose_stale hs hdevice (not_not.mp hclosed) h
  | taskStart r x task deadline => trivial
  | taskWaitPeriod r x =>
      by_contra hkeeps
      obtain ⟨hdevice, hwrites⟩ := not_or.mp hkeeps
      obtain ⟨hself, hinquire⟩ := not_or.mp hwrites
      obtain ⟨m, hmem⟩ := mem_edfTaskWaitPeriod (x := x) hself (not_not.mp hinquire)
      exact hdevice (Client.ne_of_usesOpen hmem h.usesOpen)

end Step

/-! ### Runs -/

theorem initial_consistent : Client.initial.Consistent :=
  ⟨.inl rfl, Nat.zero_le 1, trivial⟩

/-- A run of calls that keep the handle consistent. -/
theorem runCalls_consistent {cs : List LibraryCall}
    (hkeeps : ∀ cs₁ c, cs₁ ++ [c] <+: cs → c.Keeps (runCalls cs₁)) : (runCalls cs).Consistent := by
  induction cs using List.reverseRecOn with
  | nil => exact initial_consistent
  | append_singleton cs c ih =>
      rw [runCalls_concat]
      refine LibraryCall.exec_consistent (ih fun cs₁ c₁ hpre => ?_) (hkeeps cs c List.prefix_rfl)
      exact hkeeps cs₁ c₁ (hpre.trans (List.prefix_append ..))

/-- **When the handle stays consistent.** In a sequence of calls the invariant of the handle
holds exactly if every call of it keeps the handle consistent. -/
theorem handle_invariant_iff (cs : List LibraryCall) :
    HandleInvariant cs ↔ ∀ cs₁ c, cs₁ ++ [c] <+: cs → c.Keeps (runCalls cs₁) := by
  constructor
  · intro h cs₁ c hpre
    have hbefore := h.consistent cs₁ ((List.prefix_append ..).trans hpre)
    have hafter := h.consistent _ hpre
    rw [runCalls_concat] at hafter
    exact LibraryCall.keeps_of_consistent hbefore hafter
  · intro hkeeps
    refine ⟨fun cs₁ hcs₁ => runCalls_consistent fun cs₂ c hpre =>
      hkeeps cs₂ c (hpre.trans hcs₁), ?_⟩
    -- no dispose that keeps the handle consistent returns 0
    intro cs₁ closed hpre hret
    have hdispose : (runCalls cs₁).device = -1 ∨ closed.ret ≠ 0 := hkeeps cs₁ _ hpre
    unfold edfDispose at hret
    split_ifs at hret with hdevice hclosed
    · simp at hret
    · simp at hret
    · exact absurd (hdispose.resolve_left hdevice) hclosed

/-- One `edf_init` and one `edf_dispose`, both successful: the handle is the closed
descriptor. -/
theorem handle_invariant_disposed : ¬ HandleInvariant [.init 3, .dispose ⟨0, true⟩] := by
  intro h
  have hdevice := (h.consistent _ List.prefix_rfl).device_open
  revert hdevice
  decide

/-- Nested inits open two descriptors. -/
example : (runCalls [.init 3, .init 4]).openFds.card = 2 := by decide

end Edfomai
