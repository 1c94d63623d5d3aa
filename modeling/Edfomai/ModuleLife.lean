import Edfomai.HeapRuns

/-!
# Edfomai.ModuleLife

**Loading and unloading the module**: `edf_rtdm_init` and `edf_rtdm_exit`, call by call, while
the entry points that are registered already, or are registered still, are used.

`edf_rtdm_init` registers the device first and `edf_rtdm_exit` unregisters it last. So requests are
served before `dtask_map` is set to `NULL` and after `rt_dtask_dispose`. Only the result of the
last call decides whether `edf_rtdm_init` reports a failure, and a failure undoes nothing.

`Clean` is what an administrator counts on, `Harmless` says in which states which call keeps it, and
`clean_iff_harmless` is the exact statement, for any number of loads and unloads.
-/

namespace Edfomai

/-- The calls of `edf_rtdm_init`. -/
inductive InitCall
  | devRegister
  | dtaskInit
  | mtxCreate
  | queueCreate
  | eventInit
  | taskInit
  | addStartHook
  | addDeleteHook
  deriving DecidableEq

/-- The calls of `edf_rtdm_exit`. -/
inductive ExitCall
  | removeStartHook
  | removeDeleteHook
  | queueDelete
  | taskDestroy
  | eventDestroy
  | dtaskDispose
  | mtxDelete
  | devUnregister
  deriving DecidableEq

/-- `edf_rtdm_init`, if the device can be registered. -/
def edfRtdmInit : List InitCall :=
  [.devRegister, .dtaskInit, .mtxCreate, .queueCreate, .eventInit, .taskInit, .addStartHook,
    .addDeleteHook]

/-- `edf_rtdm_exit`. -/
def edfRtdmExit : List ExitCall :=
  [.removeStartHook, .removeDeleteHook, .queueDelete, .taskDestroy, .eventDestroy, .dtaskDispose,
    .mtxDelete, .devUnregister]

/-- Where the module is, with the calls that are still to be made. -/
inductive Stage
  | unloaded
  | loading (rest : List InitCall)
  | loaded
  | unloading (rest : List ExitCall)
  deriving DecidableEq

/-- The call of `edf_rtdm_init` that comes next. -/
def Stage.initCall : Stage → Option InitCall
  | loading (call :: _) => some call
  | _ => none

/-- The call of `edf_rtdm_exit` that comes next. -/
def Stage.exitCall : Stage → Option ExitCall
  | unloading (call :: _) => some call
  | _ => none

/-- The module, and what the kernel knows of it. -/
structure ModuleState where
  stage : Stage
  /-- `res` of `edf_rtdm_init`. -/
  res : Int32
  device : Bool
  queue : Bool
  event : Bool
  svc : Bool
  startHook : Bool
  deleteHook : Bool
  driver : HeapDriver

/-- `dtask_map = NULL`, which loading the module and `rt_dtask_init` come to. -/
def HeapDriver.clearMap (c : HeapDriver) : HeapDriver :=
  { c with dtaskMap := { c.dtaskMap with head := none, tbl := none } }

/-- A call of `edf_rtdm_init`, and what it returns where that is not always the same. The results of
`rt_queue_create` and `rtdm_task_init` are not looked at. -/
def InitCall.exec (reply : Int32) (s : ModuleState) : InitCall → ModuleState
  | devRegister => { s with res := reply, device := reply = 0 }
  | dtaskInit => { s with res := 0, driver := s.driver.clearMap }
  | mtxCreate => { s with res := 0 }
  | queueCreate => { s with queue := reply = 0 }
  | eventInit => { s with event := true }
  | taskInit => { s with svc := reply = 0 }
  | addStartHook => { s with res := reply, startHook := reply = 0 }
  | addDeleteHook => { s with res := reply, deleteHook := reply = 0 }

/-- Where `edf_rtdm_init` is after a call. If it returns an error the module is discarded. -/
def InitCall.next (call : InitCall) (rest : List InitCall) (res : Int32) : Stage :=
  if rest = [] ∨ (call = devRegister ∧ res ≠ 0) then
    if res = 0 then .loaded else .unloaded
  else .loading rest

/-- A call of `edf_rtdm_exit`. No result is looked at. -/
def ExitCall.exec (reply : Int32) (s : ModuleState) : ExitCall → Option ModuleState
  | removeStartHook => some { s with startHook := s.startHook && reply ≠ 0 }
  | removeDeleteHook => some { s with deleteHook := s.deleteHook && reply ≠ 0 }
  | queueDelete => some { s with queue := false }
  | taskDestroy => some { s with svc := false }
  | eventDestroy => some { s with event := false }
  | dtaskDispose => (HeapDriver.rtDtaskDispose s.driver).map fun c => { s with driver := c }
  | mtxDelete => some s
  | devUnregister => some { s with device := s.device && reply ≠ 0 }

/-- The entry point of a call is registered. -/
def Call.Enabled (s : ModuleState) : Call → Prop
  | write _ _ _ => s.device = true
  | deleteHook _ _ => s.deleteHook = true
  | service _ => s.svc = true
  | dispose => False

instance (s : ModuleState) : (call : Call) → Decidable (call.Enabled s)
  | .write _ _ _ => inferInstanceAs (Decidable (s.device = true))
  | .deleteHook _ _ => inferInstanceAs (Decidable (s.deleteHook = true))
  | .service _ => inferInstanceAs (Decidable (s.svc = true))
  | .dispose => inferInstanceAs (Decidable False)

/-- What happens to the module. -/
inductive ModuleEvent
  | insmod
  | init (reply : Int32)
  | rmmod
  | exit (reply : Int32)
  | call (call : Call)

/-- The call of an entry point that an event is. -/
def ModuleEvent.entry? : ModuleEvent → Option Call
  | .call c => some c
  | _ => none

/-- One event. The code that has been discarded does not run. -/
def ModuleState.exec (hashFcn : List UInt8 → UInt32) (s : ModuleState) :
    ModuleEvent → Option ModuleState
  | .insmod =>
      match s.stage with
      | .unloaded => some { s with stage := .loading edfRtdmInit, driver := s.driver.clearMap }
      | _ => none
  | .init reply =>
      match s.stage with
      | .loading (call :: rest) =>
          let s' := call.exec reply s
          some { s' with stage := call.next rest s'.res }
      | _ => none
  | .rmmod =>
      match s.stage with
      | .loaded => some { s with stage := .unloading edfRtdmExit }
      | _ => none
  | .exit reply =>
      match s.stage with
      | .unloading (call :: rest) =>
          (call.exec reply s).map fun s' =>
            { s' with stage := if rest = [] then .unloaded else .unloading rest }
      | _ => none
  | .call call =>
      if s.stage ≠ .unloaded ∧ call.Enabled s then
        (HeapDriver.handle hashFcn call s.driver).map fun c => { s with driver := c }
      else none

/-- Nothing of the module is registered. -/
structure ModuleState.Gone (s : ModuleState) : Prop where
  device : s.device = false
  queue : s.queue = false
  event : s.event = false
  svc : s.svc = false
  startHook : s.startHook = false
  deleteHook : s.deleteHook = false

/-- The life of the module, from before it is loaded for the first time. -/
def moduleLife (hashFcn : List UInt8 → UInt32) : TransitionSystem ModuleState ModuleEvent where
  init s := s.stage = .unloaded ∧ s.Gone ∧ ∃ x : Kernel, s.driver = HeapDriver.rtDtaskInit x
  step s e s' :=
    (∀ call ∈ e.entry?, HeapDriver.Fresh call s.driver) ∧ s.exec hashFcn e = some s'

/-- No record is lost: what is allocated is found. Nothing is left of a module that is not
loaded. -/
structure Clean (hashFcn : List UInt8 → UInt32) (s : ModuleState) : Prop where
  found : ∀ p, s.driver.dtaskMap.links.live p = true ↔
    s.driver.find hashFcn (s.driver.dtask p).taskInfo.name = some (some p)
  gone : s.stage = .unloaded → s.Gone ∧ ∀ p, s.driver.dtaskMap.links.live p = false

/-- When the calls that can do harm do none: nobody has added a record before `rt_dtask_init`, the
last hook can be registered, and when the device goes there is no hook and no record any more. -/
def Harmless (s : ModuleState) : ModuleEvent → Prop
  | .init reply =>
      (s.stage.initCall = some .dtaskInit → s.driver.dtaskMap.head = none) ∧
        (s.stage.initCall = some .addDeleteHook → reply = 0)
  | .exit reply =>
      s.stage.exitCall = some .devUnregister →
        reply = 0 ∧ s.startHook = false ∧ s.deleteHook = false ∧ s.driver.dtaskMap.head = none
  | _ => True

instance (s : ModuleState) : (e : ModuleEvent) → Decidable (Harmless s e)
  | .insmod | .rmmod | .call _ => inferInstanceAs (Decidable True)
  | .init reply => inferInstanceAs (Decidable
      ((s.stage.initCall = some .dtaskInit → s.driver.dtaskMap.head = none) ∧
        (s.stage.initCall = some .addDeleteHook → reply = 0)))
  | .exit reply => inferInstanceAs (Decidable (s.stage.exitCall = some .devUnregister →
      reply = 0 ∧ s.startHook = false ∧ s.deleteHook = false ∧ s.driver.dtaskMap.head = none))

/-! ### The invariant of harmless runs -/

/-- What is registered, and in `dtask_map`, at each stage. -/
def Stage.Fits (s : ModuleState) : Stage → Prop
  | unloaded => s.Gone ∧ s.driver.dtaskMap.head = none
  | loading rest =>
      (rest = edfRtdmInit ∧ s.Gone ∧ s.driver.dtaskMap.head = none) ∨
        (rest ≠ [] ∧ rest <:+ edfRtdmInit.tail ∧ s.device = true)
  | loaded => s.device = true
  | unloading rest =>
      rest ≠ [] ∧ rest <:+ edfRtdmExit ∧ s.device = true ∧
        (.queueDelete ∉ rest → s.queue = false) ∧ (.taskDestroy ∉ rest → s.svc = false) ∧
        (.eventDestroy ∉ rest → s.event = false)

/-- The invariant: the stage fits, and memory shows a table. -/
structure Orderly (hashFcn : List UInt8 → UInt32) (s : ModuleState) : Prop where
  fits : s.stage.Fits s
  shows : ∃ d items, HeapDriver.Shows hashFcn items [] s.driver d

variable {hashFcn : List UInt8 → UInt32} {s s' : ModuleState} {c c' : HeapDriver} {d : Driver}
  {items : List Block}

namespace HeapDriver

/-- Nothing is allocated if and only if `dtask_map` is `NULL`. -/
theorem Shows.head_eq_none_iff (h : Shows hashFcn items [] c d) :
    c.dtaskMap.head = none ↔ ∀ p, c.dtaskMap.links.live p = false := by
  rw [h.elements.head, List.head?_eq_none_iff]
  constructor
  · intro hnil p
    have hlive := h.live p
    rw [hnil] at hlive
    simpa using hlive
  · intro hdead
    refine List.eq_nil_iff_forall_not_mem.mpr fun p hp => ?_
    have hlive := (h.live p).mpr (Or.inl hp)
    rw [hdead p] at hlive
    cases hlive

/-- Where it is `NULL`, setting it to `NULL` changes nothing. -/
theorem Shows.clearMap (h : Shows hashFcn items [] c d) (hhead : c.dtaskMap.head = none) :
    c.clearMap = c := by
  have hnil : items = [] := by
    rw [h.elements.head, List.head?_eq_none_iff] at hhead
    exact hhead
  subst hnil
  have htbl := h.elements.tbl_nil
  obtain ⟨⟨head, tbl, links, keylen, hashv⟩, dtask, kernel⟩ := c
  obtain rfl : head = none := hhead
  obtain rfl : tbl = none := htbl
  rfl

/-- Once it has been set to `NULL` no record is found. -/
theorem find_clearMap (name : TaskName) : c.clearMap.find hashFcn name = some none := rfl

end HeapDriver

/-- An orderly module is clean. -/
theorem Orderly.clean (h : Orderly hashFcn s) : Clean hashFcn s := by
  obtain ⟨d, items, hshow⟩ := h.shows
  refine ⟨hshow.live_iff_find, fun hstage => ?_⟩
  have hfits := h.fits
  rw [hstage] at hfits
  exact ⟨hfits.1, hshow.head_eq_none_iff.mp hfits.2⟩

theorem Orderly.of_init (h : (moduleLife hashFcn).init s) : Orderly hashFcn s := by
  obtain ⟨hstage, hgone, x, hx⟩ := h
  have hhead : s.driver.dtaskMap.head = none := by rw [hx]; rfl
  obtain ⟨items, hshow⟩ := HeapDriver.refines_init hashFcn x
  refine ⟨?_, _, items, by rw [hx]; exact hshow⟩
  rw [hstage]
  exact ⟨hgone, hhead⟩

/-! ### Steps -/

theorem Stage.initCall_eq_some {stage : Stage} {call : InitCall} (h : stage.initCall = some call) :
    ∃ rest, stage = .loading (call :: rest) := by
  unfold initCall at h
  split at h
  · next call' rest =>
    obtain rfl := Option.some.inj h
    exact ⟨rest, rfl⟩
  · cases h

theorem Stage.exitCall_eq_some {stage : Stage} {call : ExitCall} (h : stage.exitCall = some call) :
    ∃ rest, stage = .unloading (call :: rest) := by
  unfold exitCall at h
  split at h
  · next call' rest =>
    obtain rfl := Option.some.inj h
    exact ⟨rest, rfl⟩
  · cases h

/-- Which calls come last. -/
theorem InitCall.last {call : InitCall} {rest : List InitCall}
    (h : call :: rest <:+ edfRtdmInit.tail) :
    call ≠ .devRegister ∧ (rest = [] ↔ call = .addDeleteHook) := by
  simp only [edfRtdmInit, List.tail_cons, List.suffix_cons_iff, List.suffix_nil,
    List.cons.injEq, reduceCtorEq, or_false] at h
  rcases h with ⟨rfl, rfl⟩ | ⟨rfl, rfl⟩ | ⟨rfl, rfl⟩ | ⟨rfl, rfl⟩ | ⟨rfl, rfl⟩ | ⟨rfl, rfl⟩ |
    ⟨rfl, rfl⟩ <;> simp

theorem ExitCall.last {call : ExitCall} {rest : List ExitCall} (h : call :: rest <:+ edfRtdmExit) :
    rest = [] ↔ call = .devUnregister := by
  simp only [edfRtdmExit, List.suffix_cons_iff, List.suffix_nil, List.cons.injEq, reduceCtorEq,
    or_false] at h
  rcases h with ⟨rfl, rfl⟩ | ⟨rfl, rfl⟩ | ⟨rfl, rfl⟩ | ⟨rfl, rfl⟩ | ⟨rfl, rfl⟩ | ⟨rfl, rfl⟩ |
    ⟨rfl, rfl⟩ | ⟨rfl, rfl⟩ <;> simp

/-- Registering the device, the first call. -/
theorem devRegister_orderly {reply : Int32} (h : Orderly hashFcn s) (hgone : s.Gone)
    (hhead : s.driver.dtaskMap.head = none) :
    Orderly hashFcn { InitCall.devRegister.exec reply s with
      stage := InitCall.devRegister.next edfRtdmInit.tail reply } := by
  refine ⟨?_, h.shows⟩
  by_cases hreply : reply = 0
  · have hnext : InitCall.devRegister.next edfRtdmInit.tail reply = .loading edfRtdmInit.tail := by
      simp [InitCall.next, hreply, edfRtdmInit]
    show Stage.Fits _ (InitCall.devRegister.next edfRtdmInit.tail reply)
    rw [hnext]
    exact Or.inr ⟨by simp [edfRtdmInit], List.suffix_refl _, decide_eq_true hreply⟩
  · have hnext : InitCall.devRegister.next edfRtdmInit.tail reply = .unloaded := by
      simp [InitCall.next, hreply]
    show Stage.Fits _ (InitCall.devRegister.next edfRtdmInit.tail reply)
    rw [hnext]
    exact ⟨{ hgone with device := decide_eq_false hreply }, hhead⟩

/-- A later call of `edf_rtdm_init`. -/
theorem initCall_orderly {call : InitCall} {rest : List InitCall} {reply : Int32}
    (h : Orderly hashFcn s) (hsuffix : call :: rest <:+ edfRtdmInit.tail)
    (hdevice : s.device = true)
    (hinit : call = .dtaskInit → s.driver.dtaskMap.head = none)
    (hlast : call = .addDeleteHook → reply = 0) :
    Orderly hashFcn { call.exec reply s with stage := call.next rest (call.exec reply s).res } := by
  obtain ⟨hne, hend⟩ := InitCall.last hsuffix
  have hdevice' : (call.exec reply s).device = true := by
    cases call with
    | devRegister => exact absurd rfl hne
    | _ => exact hdevice
  obtain ⟨d, items, hshow⟩ := h.shows
  have hshow' : HeapDriver.Shows hashFcn items [] (call.exec reply s).driver d := by
    cases call with
    | dtaskInit =>
        show HeapDriver.Shows hashFcn items [] s.driver.clearMap d
        rw [hshow.clearMap (hinit rfl)]
        exact hshow
    | _ => exact hshow
  refine ⟨?_, d, items, hshow'⟩
  show Stage.Fits _ (call.next rest (call.exec reply s).res)
  by_cases hrest : rest = []
  · obtain rfl := hend.mp hrest
    have hnext : InitCall.addDeleteHook.next rest reply = .loaded := by
      simp [InitCall.next, hrest, hlast rfl]
    show Stage.Fits _ (InitCall.addDeleteHook.next rest reply)
    rw [hnext]
    exact hdevice'
  · have hnext : call.next rest (call.exec reply s).res = .loading rest := by
      simp [InitCall.next, hrest, hne]
    rw [hnext]
    exact Or.inr ⟨hrest, (List.suffix_cons call rest).trans hsuffix, hdevice'⟩

/-- A call of `edf_rtdm_exit` leaves memory in order. -/
theorem exitCall_shows {call : ExitCall} {reply : Int32} (h : Orderly hashFcn s)
    (hexec : call.exec reply s = some s') :
    ∃ d items, HeapDriver.Shows hashFcn items [] s'.driver d := by
  cases call with
  | dtaskDispose =>
      obtain ⟨d, items, hshow⟩ := h.shows
      obtain ⟨c', hdispose, hshow'⟩ := HeapDriver.dispose_rel hshow
      obtain ⟨c, hc, rfl⟩ := Option.map_eq_some_iff.mp hexec
      rw [hdispose] at hc
      cases hc
      exact ⟨_, [], hshow'⟩
  | _ =>
      obtain rfl := Option.some.inj hexec
      exact h.shows

/-- What a call of `edf_rtdm_exit` takes away. -/
theorem ExitCall.exec_inv {call : ExitCall} {reply : Int32} (h : call.exec reply s = some s') :
    (call ≠ .devUnregister → s'.device = s.device) ∧
      (s'.queue = if call = .queueDelete then false else s.queue) ∧
      (s'.svc = if call = .taskDestroy then false else s.svc) ∧
      (s'.event = if call = .eventDestroy then false else s.event) := by
  cases call with
  | dtaskDispose =>
      obtain ⟨c, -, rfl⟩ := Option.map_eq_some_iff.mp h
      exact ⟨fun _ => rfl, rfl, rfl, rfl⟩
  | devUnregister =>
      obtain rfl := Option.some.inj h
      exact ⟨fun hne => absurd rfl hne, rfl, rfl, rfl⟩
  | _ =>
      obtain rfl := Option.some.inj h
      exact ⟨fun _ => rfl, rfl, rfl, rfl⟩

/-- What has been taken away is not there afterwards. -/
theorem taken_of_not_mem {call taking : ExitCall} {rest : List ExitCall} {b b' : Bool}
    (hb' : b' = if call = taking then false else b) (hb : taking ∉ call :: rest → b = false)
    (hrest : taking ∉ rest) : b' = false := by
  by_cases hcall : call = taking
  · rw [hb', if_pos hcall]
  · rw [hb', if_neg hcall]
    exact hb (by simp [hrest, Ne.symm hcall])

/-- A call of `edf_rtdm_exit`. -/
theorem exitCall_orderly {call : ExitCall} {rest : List ExitCall} {reply : Int32}
    (h : Orderly hashFcn s) (hstage : s.stage = .unloading (call :: rest))
    (hexec : call.exec reply s = some s')
    (hlast : call = .devUnregister →
      reply = 0 ∧ s.startHook = false ∧ s.deleteHook = false ∧ s.driver.dtaskMap.head = none) :
    Orderly hashFcn { s' with stage := if rest = [] then .unloaded else .unloading rest } := by
  have hfits := h.fits
  rw [hstage] at hfits
  obtain ⟨-, hsuffix, hdevice, hqueue, hsvc, hevent⟩ := hfits
  have hend := ExitCall.last hsuffix
  obtain ⟨hdevice', hqueue', hsvc', hevent'⟩ := ExitCall.exec_inv hexec
  have hshows := exitCall_shows h hexec
  refine ⟨?_, hshows⟩
  show Stage.Fits _ (if rest = [] then .unloaded else .unloading rest)
  by_cases hrest : rest = []
  · obtain rfl := hend.mp hrest
    obtain ⟨rfl, hstart, hdelete, hhead⟩ := hlast rfl
    obtain rfl := Option.some.inj hexec
    rw [if_pos hrest]
    refine ⟨⟨?_, hqueue ?_, hevent ?_, hsvc ?_, hstart, hdelete⟩, hhead⟩
    · show (s.device && decide ((0 : Int32) ≠ 0)) = false
      simp
    all_goals simp [hrest]
  · have hne : call ≠ .devUnregister := fun hcall => hrest (hend.mpr hcall)
    rw [if_neg hrest]
    exact ⟨hrest, (List.suffix_cons call rest).trans hsuffix, (hdevice' hne).trans hdevice,
      taken_of_not_mem hqueue' hqueue, taken_of_not_mem hsvc' hsvc,
      taken_of_not_mem hevent' hevent⟩

/-- A call of an entry point, at whatever stage. -/
theorem call_orderly {call : Call} (h : Orderly hashFcn s) (hstage : s.stage ≠ .unloaded)
    (henabled : call.Enabled s) (hfresh : HeapDriver.Fresh call s.driver)
    (hc' : HeapDriver.handle hashFcn call s.driver = some c') :
    Orderly hashFcn { s with driver := c' } := by
  obtain ⟨d, items, hshow⟩ := h.shows
  obtain ⟨d', -, items', hshow'⟩ := HeapDriver.handle_shows hshow hfresh hc'
  refine ⟨?_, d', items', hshow'⟩
  have hfits := h.fits
  show s.stage.Fits _
  cases hs : s.stage with
  | unloaded => exact absurd hs hstage
  | loading rest =>
      rw [hs] at hfits
      rcases hfits with ⟨-, hgone, -⟩ | hfits
      · -- before the device is registered there is no entry point
        cases call with
        | write registry w nbyte => exact absurd (hgone.device.symm.trans henabled) (by decide)
        | deleteHook task r => exact absurd (hgone.deleteHook.symm.trans henabled) (by decide)
        | service currTime => exact absurd (hgone.svc.symm.trans henabled) (by decide)
        | dispose => exact henabled.elim
      · exact Or.inr hfits
  | loaded =>
      rw [hs] at hfits
      exact hfits
  | unloading rest =>
      rw [hs] at hfits
      exact hfits

/-- **A harmless step keeps the module orderly.** -/
theorem step_orderly {e : ModuleEvent} (h : Orderly hashFcn s)
    (hstep : (moduleLife hashFcn).step s e s') (hharmless : Harmless s e) : Orderly hashFcn s' := by
  obtain ⟨hfresh, hexec⟩ := hstep
  have hfits := h.fits
  cases e with
  | insmod =>
      simp only [ModuleState.exec] at hexec
      split at hexec
      · next hstage =>
        rw [hstage] at hfits
        obtain ⟨d, items, hshow⟩ := h.shows
        obtain rfl := Option.some.inj hexec
        rw [hshow.clearMap hfits.2]
        exact ⟨Or.inl ⟨rfl, { hfits.1 with }, hfits.2⟩, d, items, hshow⟩
      · cases hexec
  | init reply =>
      simp only [ModuleState.exec] at hexec
      split at hexec
      · next call rest hstage =>
        rw [hstage] at hfits
        obtain rfl := Option.some.inj hexec
        obtain ⟨hinit, hlast⟩ := hharmless
        rcases hfits with ⟨hall, hgone, hhead⟩ | ⟨-, hsuffix, hdevice⟩
        · obtain ⟨rfl, rfl⟩ := List.cons.inj hall
          exact devRegister_orderly h hgone hhead
        · have hnext : s.stage.initCall = some call := by rw [hstage]; rfl
          exact initCall_orderly h hsuffix hdevice (fun hcall => hinit (hcall ▸ hnext))
            fun hcall => hlast (hcall ▸ hnext)
      · cases hexec
  | rmmod =>
      simp only [ModuleState.exec] at hexec
      split at hexec
      · next hstage =>
        rw [hstage] at hfits
        obtain rfl := Option.some.inj hexec
        exact ⟨⟨by decide, List.suffix_refl _, hfits, fun hno => absurd (by decide) hno,
          fun hno => absurd (by decide) hno, fun hno => absurd (by decide) hno⟩, h.shows⟩
      · cases hexec
  | exit reply =>
      simp only [ModuleState.exec] at hexec
      split at hexec
      · next call rest hstage =>
        obtain ⟨s₁, hcall, rfl⟩ := Option.map_eq_some_iff.mp hexec
        have hnext : s.stage.exitCall = some call := by rw [hstage]; rfl
        exact exitCall_orderly h hstage hcall fun heq => hharmless (heq ▸ hnext)
      · cases hexec
  | call call =>
      simp only [ModuleState.exec] at hexec
      split at hexec
      · next hok =>
        obtain ⟨c', hc', rfl⟩ := Option.map_eq_some_iff.mp hexec
        exact call_orderly h hok.1 hok.2 (hfresh call rfl) hc'
      · cases hexec

/-- **A step that is not harmless does not leave the module clean.** -/
theorem harmless_of_clean {e : ModuleEvent} (h : Orderly hashFcn s)
    (hstep : (moduleLife hashFcn).step s e s') (hclean : Clean hashFcn s') : Harmless s e := by
  obtain ⟨-, hexec⟩ := hstep
  have hfits := h.fits
  obtain ⟨d, items, hshow⟩ := h.shows
  cases e with
  | insmod => trivial
  | rmmod => trivial
  | call call => trivial
  | init reply =>
      refine ⟨fun hnext => ?_, fun hnext => ?_⟩ <;>
        obtain ⟨rest, hstage⟩ := Stage.initCall_eq_some hnext
      · -- no record is found any more, so there was none
        simp only [ModuleState.exec, hstage, Option.some_inj] at hexec
        subst hexec
        refine hshow.head_eq_none_iff.mpr fun p => ?_
        rw [← Bool.not_eq_true]
        intro hlive
        have hfound : s.driver.clearMap.find hashFcn (s.driver.dtask p).taskInfo.name =
            some (some p) := (hclean.found p).mp hlive
        rw [HeapDriver.find_clearMap] at hfound
        cases hfound
      · -- the device is registered, so the module must not be discarded
        rw [hstage] at hfits
        rcases hfits with ⟨hall, -⟩ | ⟨-, hsuffix, hdevice⟩
        · cases hall
        · obtain rfl := (InitCall.last hsuffix).2.mpr rfl
          simp only [ModuleState.exec, hstage, Option.some_inj] at hexec
          subst hexec
          by_contra hreply
          have hunloaded : InitCall.addDeleteHook.next [] reply = .unloaded := by
            simp [InitCall.next, hreply]
          have hgone : s.device = false := (hclean.gone hunloaded).1.device
          rw [hdevice] at hgone
          cases hgone
  | exit reply =>
      intro hnext
      obtain ⟨rest, hstage⟩ := Stage.exitCall_eq_some hnext
      rw [hstage] at hfits
      obtain ⟨-, hsuffix, hdevice, -⟩ := hfits
      obtain rfl := (ExitCall.last hsuffix).mpr rfl
      simp only [ModuleState.exec, hstage, ExitCall.exec, Option.map_some, Option.some_inj] at hexec
      subst hexec
      obtain ⟨hgone, hdead⟩ := hclean.gone rfl
      refine ⟨?_, hgone.startHook, hgone.deleteHook, hshow.head_eq_none_iff.mpr hdead⟩
      have hunregistered : (s.device && decide (reply ≠ 0)) = false := hgone.device
      simpa [hdevice] using hunregistered

/-- **Loading and unloading.** The runs on which no record is ever lost, and on which nothing is
left of the module whenever it is not loaded, are those all of whose steps are harmless. -/
theorem clean_iff_harmless {events : List ModuleEvent} (hinit : (moduleLife hashFcn).init s) :
    ((moduleLife hashFcn).within (Clean hashFcn)).Run s events s' ↔
      ((moduleLife hashFcn).restrict Harmless).Run s events s' :=
  (TransitionSystem.run_restrict_iff (fun _ h => Orderly.clean h)
    (fun _ _ _ h hstep hok => step_orderly h hstep hok)
    (fun _ _ _ h hstep hclean => harmless_of_clean h hstep hclean) (Orderly.of_init hinit)).symm

/-- Follow events as long as they are harmless, with the hash function of the driver. -/
def letterEvents : List ModuleEvent → ModuleState → Option ModuleState
  | [], s => some s
  | e :: es, s =>
      if Harmless s e ∧ ∀ call ∈ e.entry?, HeapDriver.Fresh call s.driver then
        (s.exec (hashJenOf signedChar) e).bind (letterEvents es)
      else none

theorem letterEvents_run {es : List ModuleEvent} (h : letterEvents es s = some s') :
    ((moduleLife (hashJenOf signedChar)).restrict Harmless).Run s es s' := by
  induction es generalizing s with
  | nil =>
      obtain rfl := Option.some.inj h
      exact .refl s
  | cons e es ih =>
      rw [letterEvents] at h
      split at h
      · next hok =>
        obtain ⟨s₁, hs₁, h⟩ := Option.bind_eq_some_iff.mp h
        exact .cons ⟨⟨hok.2, hs₁⟩, hok.1⟩ (ih h)
      · cases h

/-- Before the module is loaded. -/
def letterUnloaded : ModuleState :=
  ⟨.unloaded, 0, false, false, false, false, false, false, HeapDriver.letterEmpty⟩

/-- The module is loaded, serves a request and is unloaded. -/
def letterLife : List ModuleEvent :=
  .insmod :: List.replicate 8 (.init 0) ++ .call (letterWrite .createTask 0 10 0 0) :: .rmmod ::
    List.replicate 8 (.exit 0)

theorem clean_iff_harmless_letter : ∃ s,
    ((moduleLife (hashJenOf signedChar)).within (Clean (hashJenOf signedChar))).Run
      letterUnloaded letterLife s ∧ s.stage = .unloaded := by
  have hunloaded : (letterEvents letterLife letterUnloaded).map (·.stage) = some .unloaded := by
    decide +kernel
  obtain ⟨s, hs, hstage⟩ := Option.map_eq_some_iff.mp hunloaded
  have hinit : (moduleLife (hashJenOf signedChar)).init letterUnloaded :=
    ⟨rfl, ⟨rfl, rfl, rfl, rfl, rfl, rfl⟩, _, rfl⟩
  exact ⟨s, (clean_iff_harmless hinit).mpr (letterEvents_run hs), hstage⟩

end Edfomai
