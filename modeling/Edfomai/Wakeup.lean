import Edfomai.System

/-!
# Edfomai.Wakeup

Whether every signal of a hook is followed by a recalculation. `_edf_service` waits
for `edf_event`, recalculates, and then clears the event, although waiting has reset
it already. A signal that arrives after the recalculation has begun and before the
event is cleared is forgotten.

`no_lost_wakeup` shows that these are the only signals that are lost.
-/

namespace Edfomai
namespace System

/-- The last recalculation of the service began after the most recent signal. -/
def Heeded : List Mark → Prop
  | .signal :: _ => False
  | _ => True

instance : DecidablePred Heeded
  | .signal :: _ => isFalse id
  | [] | .recalculation :: _ => isTrue trivial

/-- The service has begun a recalculation and has not cleared the event since. -/
def InWindow : Pc → Prop
  | .recalculating _ _ | .release | .clear => True
  | .outside | .acquire _ | .spin _ | .critical _ => False

instance : DecidablePred InWindow
  | .recalculating _ _ | .release | .clear => isTrue trivial
  | .outside | .acquire _ | .spin _ | .critical _ => isFalse id

/-- The condition: hooks signal the event outside this window. -/
def SignalsOutside (s : System) : Label → Prop
  | .start | .hookSignal _ => ¬InWindow (s.pc .service)
  | _ => True

instance (s : System) : (l : Label) → Decidable (SignalsOutside s l)
  | .start | .hookSignal _ => inferInstanceAs (Decidable ¬InWindow (s.pc .service))
  | .write .. | .wake | .lockGet _ | .run .. | .recalc .. | .lockPut _ | .clear | .spawn ..
  | .kill _ | .hookDelete .. | .forget .. => isTrue trivial

/-- The service is blocked in `rtdm_event_wait`. -/
def Blocked (s : System) : Prop := s.pc .service = .outside ∧ s.event = false

/-- The invariant. -/
structure Awake (s : System) : Prop where
  /-- The service does nothing but recalculate. -/
  op : ∀ op, s.pc .service = .acquire op ∨ s.pc .service = .spin op ∨
    s.pc .service = .critical op → op = .recalculateprio
  /-- In the window there is no unheeded signal … -/
  window : InWindow (s.pc .service) → Heeded s.marks
  /-- … and while the service waits, an unheeded signal is pending. -/
  pending : s.pc .service = .outside → s.event = false → Heeded s.marks

namespace Awake

variable {s s' : System}

/-- A step that the service, the event and the marks do not take part in. -/
theorem congr (h : Awake s) (hpc : s'.pc .service = s.pc .service) (hevent : s'.event = s.event)
    (hmarks : s'.marks = s.marks) : Awake s' where
  op := by rw [hpc]; exact h.op
  window := by rw [hpc, hmarks]; exact h.window
  pending := by rw [hpc, hevent, hmarks]; exact h.pending

/-- A signal outside the window stays pending. -/
theorem signal (h : Awake s) (hok : ¬InWindow (s.pc .service))
    (hpc : s'.pc .service = s.pc .service) (hevent : s'.event = true) : Awake s' where
  op := by rw [hpc]; exact h.op
  window hw := absurd (hpc ▸ hw) hok
  pending _ hno := by rw [hevent] at hno; exact absurd hno (by decide)

/-- The step of a thread. Only where the service itself moves is there anything to
show. -/
theorem move (h : Awake s) (i : Thread) {p : Pc} (hpc : s'.pc = Function.update s.pc i p)
    (hother : i ≠ .service → s'.event = s.event ∧ s'.marks = s.marks)
    (hop : i = .service → ∀ op, p = .acquire op ∨ p = .spin op ∨ p = .critical op →
      op = .recalculateprio)
    (hwindow : i = .service → InWindow p → Heeded s'.marks)
    (hpending : i = .service → p = .outside → s'.event = false → Heeded s'.marks) : Awake s' := by
  rcases eq_or_ne i .service with rfl | hne
  · have hp : s'.pc .service = p := by rw [hpc, Function.update_self]
    exact ⟨by rw [hp]; exact hop rfl, by rw [hp]; exact hwindow rfl,
      by rw [hp]; exact hpending rfl⟩
  · obtain ⟨hevent, hmarks⟩ := hother hne
    exact h.congr (by rw [hpc, Function.update_of_ne hne.symm]) hevent hmarks

end Awake

theorem Step.awake {s s' : System} {l : Label} (h : Awake s) (hok : SignalsOutside s l)
    (hstep : Step s l s') : Awake s' := by
  cases hstep with
  | refused => exact h
  | resolved command hpc =>
      exact h.move (.writer _) rfl (fun _ => ⟨rfl, rfl⟩) (by simp) (by simp) (by simp)
  | wake hpc hevent =>
      exact h.move .service rfl (by simp) (by simp [eq_comm]) (by simp [InWindow]) (by simp)
  | @taken i op hpc =>
      refine h.move i rfl (fun _ => ⟨rfl, rfl⟩) ?_ (by simp [InWindow]) (by simp)
      rintro rfl op' hop'
      obtain rfl : op = op' := by simpa using hop'
      exact h.op op (by tauto)
  | @spins i j op hpc =>
      refine h.move i rfl (fun _ => ⟨rfl, rfl⟩) ?_ (by simp [InWindow]) (by simp)
      rintro rfl op' hop'
      obtain rfl : op = op' := by simpa using hop'
      exact h.op op (by tauto)
  | @returned i op r ret d hpc hfresh hbegin =>
      refine h.move i rfl (fun _ => ⟨rfl, rfl⟩) (by simp) ?_ (by simp)
      -- the service's operation does not return before it has recalculated
      rintro rfl -
      obtain rfl := h.op op (Or.inr (Or.inr hpc))
      simp [Op.begin] at hbegin
  | @begun i op r ret d buffer hpc hfresh hbegin =>
      refine h.move i rfl (fun hne => ⟨rfl, by simp [marked, hne]⟩) (by simp) ?_ (by simp)
      rintro rfl -
      simp [marked, Heeded]
  | @recalc i buffer rpc rpc' d clock hpc =>
      refine h.move i rfl (fun _ => ⟨rfl, rfl⟩) (by simp) ?_ (by simp)
      rintro rfl -
      exact h.window (by rw [hpc]; trivial)
  | @recalculated i buffer rpc d clock hpc =>
      refine h.move i rfl (fun _ => ⟨rfl, rfl⟩) (by simp) ?_ (by simp)
      rintro rfl -
      exact h.window (by rw [hpc]; trivial)
  | @put i hpc =>
      refine h.move i rfl (fun _ => ⟨rfl, rfl⟩) ?_ ?_ ?_
      · rintro rfl
        simp [afterPut]
      · rintro rfl -
        exact h.window (by rw [hpc]; trivial)
      · rintro rfl
        simp [afterPut]
  | clear hpc =>
      refine h.move .service rfl (by simp) (by simp) (by simp [InWindow]) ?_
      -- the event is reset here, so nothing unheeded may be pending
      rintro - - -
      exact h.window (by rw [hpc]; trivial)
  | start => exact h.signal hok rfl rfl
  | hookSignal => exact h.signal hok rfl rfl
  | spawn => exact h.congr rfl rfl rfl
  | kill => exact h.congr rfl rfl rfl
  | hookDelete => exact h.congr rfl rfl rfl
  | forget => exact h.congr rfl rfl rfl

/-- **No wake-up is lost outside the window.** In a run in which no hook signals the
event between the beginning of a recalculation of the service and the
`rtdm_event_clear` after it, whenever the service is blocked its last recalculation
began after the most recent signal. -/
theorem no_lost_wakeup {s : System} (hs : (concurrent.restrict SignalsOutside).Reachable s)
    (hb : s.Blocked) : Heeded s.marks := by
  have hinit : ∀ s, (concurrent.restrict SignalsOutside).init s → Awake s := by
    intro s h
    refine ⟨fun op hop => ?_, fun _ => ?_, fun _ _ => ?_⟩
    · simp [h.pc] at hop
    · rw [h.marks]
      trivial
    · rw [h.marks]
      trivial
  have hstep : ∀ s l s', Awake s → (concurrent.restrict SignalsOutside).step s l s' → Awake s' :=
    fun _ _ _ h hstep => (Step.of_step hstep.1).awake h hstep.2
  exact (hs.invariant hinit hstep).pending hb.1 hb.2

/-- One round of the service over the empty table. -/
def serviceRound : List Label :=
  [.start, .wake, .lockGet .service, .run .service (plainReplies 0 10), .recalc .service 0,
    .lockPut .service, .clear]

theorem no_lost_wakeup_round : Heeded (letterSteps serviceRound).marks :=
  no_lost_wakeup (letterSteps_restrict (by decide +kernel) (by decide +kernel))
    ⟨by decide +kernel, by decide +kernel⟩

/-- A second signal arrives while the service recalculates: the service clears the
event and blocks, and no recalculation has begun since. -/
def lateSignal : List Label :=
  [.start, .wake, .lockGet .service, .run .service (plainReplies 0 10), .recalc .service 0,
    .start, .lockPut .service, .clear]

theorem wakeup_lost_in_window : concurrent.Reachable (letterSteps lateSignal) ∧
    (letterSteps lateSignal).Blocked ∧ ¬Heeded (letterSteps lateSignal).marks :=
  ⟨letterSteps_reachable (by decide +kernel), ⟨by decide +kernel, by decide +kernel⟩,
    by decide +kernel⟩

end System
end Edfomai
