import Edfomai.HeapRuns
import Edfomai.UthashRuns

/-!
# Edfomai.Interrupts

**Deletion hooks during a pass.** `edf_delete_hook` does not take the lock, so it can run while
`rt_dtask_recalculateprio` is in one of its loops. Here it runs on the real links: `HASH_ITER` has
read the link to the next record before the body of the loop, and follows it after the body.

A pass that starts in good order then is lost in two ways only, as `Intact` says: a hook deletes
the record that the loop is at before its body is done with it, or the record that the loop has
saved to go on with.
-/

namespace Edfomai

namespace HeapDriver

variable {hashFcn : List UInt8 → UInt32} {items : List Block} {c c' : HeapDriver} {d : Driver}
  {σ : Type}

/-- The tasks that are deleted in the round of a loop at a record, before the body and after it,
with what the kernel answers to their hooks. -/
structure Hooks where
  before : Block → List (RtTask × Replies)
  after : Block → List (RtTask × Replies)

/-- No hook gets a `NULL` for its buffer. -/
def Hooks.Fed (hooks : Hooks) : Prop :=
  ∀ p, ∀ h ∈ hooks.before p ++ hooks.after p, h.2.block.isSome

section Interrupted

variable (hashFcn : List UInt8 → UInt32)

/-- Some hooks, one after the other. -/
def runHooks (hs : List (RtTask × Replies)) (s : σ × HeapDriver) : Option (σ × HeapDriver) :=
  hs.foldlM (fun s h => (rtDtaskDelete hashFcn h.2 h.1 s.2).map fun res => (s.1, res.2)) s

/-- A round of a pass with its hooks. -/
def interruptedBody (hooks : Hooks) (body : TaskName → σ → RtDtask → σ × RtDtask)
    (rtdtask : Block) (s : σ × HeapDriver) : Option (σ × HeapDriver) := do
  let s ← runHooks hashFcn (hooks.before rtdtask) s
  let s ← passBody body rtdtask s
  runHooks hashFcn (hooks.after rtdtask) s

/-- A pass with the hooks that run during it. -/
def interruptedPass (hooks : Hooks) (body : TaskName → σ → RtDtask → σ × RtDtask) (a : σ)
    (c : HeapDriver) : Option (σ × HeapDriver) :=
  UtHash.hashIter (fun s : σ × HeapDriver => s.2.dtaskMap) (interruptedBody hashFcn hooks body)
    (a, c)

end Interrupted

/-- Whether one of the hooks deletes the record at an address. -/
def gone (c : HeapDriver) (hs : List (RtTask × Replies)) (p : Block) : Bool :=
  hs.any fun h => c.kernel.name h.1 = (c.dtask p).taskInfo.name

/-- The loop over the given records is not led astray: at no record does it lose that record
before the body is done, or the next one during the round. Those that go otherwise are not
visited. -/
inductive Intact (before during : Block → Block → Bool) : List Block → Prop
  | nil : Intact before during []
  | cons {p : Block} {rest : List Block} :
      before p p = false → (∀ q ∈ rest.head?, during p q = false) →
      Intact before during (rest.filter fun q => !during p q) → Intact before during (p :: rest)

/-- A pass over the records of a state survives its hooks. -/
def Survives (hooks : Hooks) (c : HeapDriver) : Prop :=
  ∃ items, c.dtaskMap.collect = some items ∧
    Intact (fun p => c.gone (hooks.before p)) (fun p => c.gone (hooks.before p ++ hooks.after p))
      items

/-! ### Hooks -/

theorem remove_keeps {p : Block} (h : c.remove p = some c') :
    c'.dtask = c.dtask ∧ c'.kernel.name = c.kernel.name := by
  obtain ⟨c₁, hdel, h⟩ := Option.bind_eq_some_iff.mp h
  obtain ⟨map, -, rfl⟩ := Option.map_eq_some_iff.mp hdel
  obtain ⟨r, -, h⟩ := Option.bind_eq_some_iff.mp h
  unfold free at h
  split at h
  · cases h
    exact ⟨rfl, rfl⟩
  · cases h

/-- What is left when the record of a task has been removed. -/
theorem filter_eq_erase (h : Shows hashFcn items [] c d) {p : Block} (hp : p ∈ items) :
    (items.filter fun q => decide ((c.dtask p).taskInfo.name ≠ (c.dtask q).taskInfo.name)) =
      items.erase p := by
  rw [h.elements.nodup.erase_eq_filter]
  refine List.filter_congr fun q hq => ?_
  have hiff : (c.dtask p).taskInfo.name = (c.dtask q).taskInfo.name ↔ q = p :=
    ⟨fun hname => (h.name_inj hp hq hname).symm, fun hqp => by rw [hqp]⟩
  by_cases hqp : q = p <;> simp [hiff, hqp]

/-- **One hook.** The record of its task is gone. -/
theorem hook_shows (h : Shows hashFcn items [] c d) {r : Replies} (hr : r.block.isSome)
    (task : RtTask) :
    ∃ ret c' d', rtDtaskDelete hashFcn r task c = some (ret, c') ∧
      Shows hashFcn (items.filter fun q => !c.gone [(task, r)] q) [] c' d' ∧
      c'.dtask = c.dtask ∧ c'.kernel.name = c.kernel.name := by
  obtain ⟨b, hb⟩ := Option.isSome_iff_exists.mp hr
  have hlog := h.log (.malloc (some b))
  have hgone : ∀ q, (!c.gone [(task, r)] q) =
      decide (c.kernel.name task ≠ (c.dtask q).taskInfo.name) := fun q => by simp [gone]
  have hinfo : ((c.log (.malloc (some b))).kernel.rtTaskInquire task).name = c.kernel.name task :=
    rfl
  simp only [hgone, rtDtaskDelete, withTaskInfo, hb, hinfo, Option.bind_eq_bind]
  rcases hlog.find (c.kernel.name task) with ⟨hfind, hl⟩ | ⟨p, hp, hfind, -, hname⟩
  · -- there is no such record
    have hall : (items.filter fun q => decide (c.kernel.name task ≠ (c.dtask q).taskInfo.name)) =
        items := by
      refine List.filter_eq_self.mpr fun q hq => decide_eq_true fun heq => ?_
      have hq' := hlog.lookup hq
      rw [show ((c.log (.malloc (some b))).dtask q).taskInfo.name = c.kernel.name task from
        heq.symm, hl] at hq'
      cases hq'
    simp only [hfind, Option.bind_some, hall]
    exact ⟨-1, _, _, rfl, hlog.log (.free r.block), rfl, rfl⟩
  · have hname' : c.kernel.name task = (c.dtask p).taskInfo.name := hname.symm
    obtain ⟨c₁, hremove, hshow⟩ := hlog.remove hp
    obtain ⟨hdtask, hkernel⟩ := remove_keeps hremove
    simp only [hfind, Option.bind_some, hremove, Option.map_some]
    rw [hname', filter_eq_erase h hp]
    exact ⟨0, _, _, rfl, hshow.log (.free r.block), hdtask, hkernel⟩

/-- **Some hooks.** -/
theorem hooks_shows {hs : List (RtTask × Replies)} {s : σ × HeapDriver}
    (h : Shows hashFcn items [] s.2 d) (hfed : ∀ h ∈ hs, h.2.block.isSome) :
    ∃ s' d', runHooks hashFcn hs s = some s' ∧
      Shows hashFcn (items.filter fun q => !s.2.gone hs q) [] s'.2 d' ∧
      s'.2.dtask = s.2.dtask ∧ s'.2.kernel.name = s.2.kernel.name := by
  induction hs generalizing items s d with
  | nil => exact ⟨s, d, rfl, by simpa [gone] using h, rfl, rfl⟩
  | cons e hs ih =>
      obtain ⟨task, r⟩ := e
      obtain ⟨ret, c₁, d₁, hdel, h₁, hdtask₁, hname₁⟩ :=
        hook_shows h (hfed (task, r) (List.mem_cons_self ..)) task
      obtain ⟨s', d', hrun, h', hdtask', hname'⟩ := ih (s := (s.1, c₁)) h₁ fun h hh =>
        hfed h (List.mem_cons_of_mem _ hh)
      refine ⟨s', d', ?_, ?_, hdtask'.trans hdtask₁, hname'.trans hname₁⟩
      · simp only [runHooks, List.foldlM_cons, hdel, Option.map_some]
        exact hrun
      · have hgone : ∀ q, (!c₁.gone hs q && !s.2.gone [(task, r)] q) =
            !s.2.gone ((task, r) :: hs) q := by
          intro q
          simp only [gone, hdtask₁, hname₁, List.any_cons, List.any_nil, Bool.or_false,
            Bool.not_or, Bool.and_comm]
        simpa only [List.filter_filter, hgone] using h'

/-! ### The loop -/

/-- Records that are in order can be shown by a table. -/
theorem exists_shows (helements : c.dtaskMap.Elements hashFcn c.key items)
    (hnamed : ∀ p ∈ items, c.kernel.name (c.dtask p).task = (c.dtask p).taskInfo.name)
    (hlive : ∀ p, c.dtaskMap.links.live p = true ↔ p ∈ items) :
    ∃ d, Shows hashFcn items [] c d := by
  have hkeys : (items.map c.entry).NodupKeys := by
    have hchars : (items.map c.entry).keys.map TaskName.chars = items.map c.key := by
      rw [List.keys, List.map_map, List.map_map]
      rfl
    have hdistinct := helements.distinct
    rw [← hchars] at hdistinct
    exact List.Nodup.of_map _ hdistinct
  exact ⟨⟨⟨items.map c.entry, hkeys⟩, c.kernel⟩, helements, rfl, rfl, hnamed, by simpa using hlive,
    by simp⟩

/-- **The body of a pass** rewrites the record it is at, if that is still there. -/
theorem passBody_shows {p : Block} {s : σ × HeapDriver} (h : Shows hashFcn items [] s.2 d)
    {body : TaskName → σ → RtDtask → σ × RtDtask} (hbody : Shows.Keeps s.2.kernel body)
    (hp : p ∈ items) :
    ∃ s' d', passBody body p s = some s' ∧ Shows hashFcn items [] s'.2 d' ∧
      (∀ q, (s'.2.dtask q).taskInfo.name = (s.2.dtask q).taskInfo.name) ∧
      s'.2.kernel = s.2.kernel := by
  have hlive : s.2.dtaskMap.links.live p = true := (h.live p).mpr (Or.inl hp)
  let r : RtDtask := ⟨s.2.dtask p, p⟩
  let res := body r.taskInfo.name s.1 r
  obtain ⟨-, htask, hname⟩ := hbody r.taskInfo.name s.1 r (h.named p hp)
  let c' : HeapDriver :=
    { s.2 with dtask := Function.update s.2.dtask p res.2.toRtDeadlineTask }
  have hself : c'.dtask p = res.2.toRtDeadlineTask := Function.update_self ..
  have hother : ∀ q, q ≠ p → c'.dtask q = s.2.dtask q := fun q hq => Function.update_of_ne hq ..
  have hnames : ∀ q, (c'.dtask q).taskInfo.name = (s.2.dtask q).taskInfo.name := by
    intro q
    rcases eq_or_ne q p with rfl | hq
    · exact (congrArg (·.taskInfo.name) hself).trans hname
    · rw [hother q hq]
  have htasks : ∀ q, (c'.dtask q).task = (s.2.dtask q).task := by
    intro q
    rcases eq_or_ne q p with rfl | hq
    · exact (congrArg (·.task) hself).trans htask
    · rw [hother q hq]
  obtain ⟨d', hd'⟩ : ∃ d', Shows hashFcn items [] c' d' := exists_shows
    (h.elements.congr_key fun q _ => congrArg TaskName.chars (hnames q))
    (fun q hq => by rw [htasks, hnames]; exact h.named q hq) (by simpa using h.live)
  refine ⟨(res.1, c'), d', ?_, hd', hnames, rfl⟩
  simp [passBody, load, store, hlive, c', res, r]

/-- The body touches a record that is gone. -/
theorem passBody_of_not_mem {p : Block} {s : σ × HeapDriver} (h : Shows hashFcn items [] s.2 d)
    (body : TaskName → σ → RtDtask → σ × RtDtask) (hp : p ∉ items) : passBody body p s = none := by
  have hlive : ¬s.2.dtaskMap.links.live p = true := fun hlive =>
    hp (by simpa using (h.live p).mp hlive)
  simp [passBody, load, hlive]

/-- The hooks of a state delete what those of another delete, if nothing is renamed. -/
theorem gone_congr {hs : List (RtTask × Replies)} {p : Block}
    (hname : (c'.dtask p).taskInfo.name = (c.dtask p).taskInfo.name)
    (hkernel : c'.kernel.name = c.kernel.name) : c'.gone hs p = c.gone hs p := by
  rw [gone, gone, hname, hkernel]

/-- **One round.** The loop is still at the record when its body runs, or is lost. -/
theorem round_shows {hooks : Hooks} (hfed : hooks.Fed) {p : Block} {s : σ × HeapDriver}
    (h : Shows hashFcn items [] s.2 d) {body : TaskName → σ → RtDtask → σ × RtDtask}
    (hbody : ∀ x : Kernel, x.name = s.2.kernel.name → Shows.Keeps x body) (hp : p ∈ items) :
    (s.2.gone (hooks.before p) p = true ∧ interruptedBody hashFcn hooks body p s = none) ∨
      (s.2.gone (hooks.before p) p = false ∧
        ∃ s' d', interruptedBody hashFcn hooks body p s = some s' ∧
          Shows hashFcn (items.filter fun q => !s.2.gone (hooks.before p ++ hooks.after p) q) []
            s'.2 d' ∧
          (∀ q, (s'.2.dtask q).taskInfo.name = (s.2.dtask q).taskInfo.name) ∧
          s'.2.kernel.name = s.2.kernel.name) := by
  obtain ⟨s₁, d₁, hrun₁, h₁, hdtask₁, hkernel₁⟩ :=
    hooks_shows h fun e he => hfed p e (List.mem_append_left _ he)
  cases hgone : s.2.gone (hooks.before p) p with
  | true =>
      refine Or.inl ⟨rfl, ?_⟩
      have hnone := passBody_of_not_mem h₁ body (p := p) (by simp [hgone])
      simp [interruptedBody, hrun₁, hnone]
  | false =>
      obtain ⟨s₂, d₂, hrun₂, h₂, hnames₂, hkernel₂⟩ :=
        passBody_shows h₁ (hbody _ hkernel₁) (p := p) (by simp [hp, hgone])
      obtain ⟨s₃, d₃, hrun₃, h₃, hdtask₃, hkernel₃⟩ :=
        hooks_shows h₂ fun e he => hfed p e (List.mem_append_right _ he)
      have hnames : ∀ q, (s₂.2.dtask q).taskInfo.name = (s.2.dtask q).taskInfo.name := fun q => by
        rw [hnames₂, hdtask₁]
      have hkernel : s₂.2.kernel.name = s.2.kernel.name := by rw [hkernel₂, hkernel₁]
      refine Or.inr ⟨rfl, s₃, d₃, ?_, ?_, fun q => by rw [hdtask₃, hnames],
        by rw [hkernel₃, hkernel]⟩
      · simp [interruptedBody, hrun₁, hrun₂, hrun₃]
      · have hboth : ∀ q, (!s₂.2.gone (hooks.after p) q && !s.2.gone (hooks.before p) q) =
            !s.2.gone (hooks.before p ++ hooks.after p) q := by
          intro q
          rw [gone_congr (hnames q) hkernel, Bool.and_comm, ← Bool.not_or]
          simp only [gone, List.any_append]
        simpa only [List.filter_filter, hboth] using h₃

/-- **On to the record that was saved.** It is still there, or the loop is lost; those after it
that are gone are not linked any more. -/
theorem forEach_next {n : Nat} {f : Block → σ × HeapDriver → Option (σ × HeapDriver)}
    {lost : Block → Bool} {q : Block} {rest : List Block} {s : σ × HeapDriver}
    (h : Shows hashFcn (items.filter fun q => !lost q) [] s.2 d) (hq : lost q = true) :
    LinkHeap.forEach appOrder (fun s : σ × HeapDriver => s.2.dtaskMap.links) f n
      (q :: rest).head? s = none := by
  have hlive : ¬s.2.dtaskMap.links.live q = true := by
    intro hlive
    have hmem := (h.live q).mp hlive
    simp [hq] at hmem
  cases n with
  | zero => rfl
  | succ n =>
      show ((s.2.dtaskMap.links.load .next q).bind _) = none
      rw [LinkHeap.load, if_neg hlive, Option.bind_none]

/-- **The loop** over what is left, `rest`, gets to its end exactly when it is not led astray. -/
theorem loop_isSome_iff {hooks : Hooks} (hfed : hooks.Fed)
    {body : TaskName → σ → RtDtask → σ × RtDtask}
    (hbody : ∀ x : Kernel, x.name = c.kernel.name → Shows.Keeps x body) {n : Nat}
    (visited : List Block) {rest : List Block} {s : σ × HeapDriver} (hn : rest.length ≤ n)
    (h : Shows hashFcn (visited ++ rest) [] s.2 d)
    (hnames : ∀ q, (s.2.dtask q).taskInfo.name = (c.dtask q).taskInfo.name)
    (hkernel : s.2.kernel.name = c.kernel.name) :
    (LinkHeap.forEach appOrder (fun s : σ × HeapDriver => s.2.dtaskMap.links)
        (interruptedBody hashFcn hooks body) n rest.head? s).isSome ↔
      Intact (fun p => c.gone (hooks.before p))
        (fun p => c.gone (hooks.before p ++ hooks.after p)) rest := by
  induction n generalizing visited rest s d with
  | zero =>
      obtain rfl := List.eq_nil_of_length_eq_zero (Nat.le_zero.mp hn)
      exact iff_of_true rfl .nil
  | succ n ih =>
      cases rest with
      | nil => exact iff_of_true rfl .nil
      | cons p rest =>
          obtain ⟨-, hlive, -, hnext, -⟩ := LinkHeap.seg_append.mp h.elements.app
          replace hnext : s.2.dtaskMap.links.field .next p = rest.head? :=
            hnext.trans (Option.or_none ..)
          have hgones : ∀ hs q, s.2.gone hs q = c.gone hs q := fun hs q =>
            gone_congr (hnames q) hkernel
          show ((s.2.dtaskMap.links.load .next p).bind fun next =>
            (interruptedBody hashFcn hooks body p s).bind _).isSome ↔ _
          rw [LinkHeap.load_of_live hlive, hnext, Option.bind_some]
          rcases round_shows hfed h (fun x hx => hbody x (hx.trans hkernel)) (p := p) (by simp) with
            ⟨hgone, hlost⟩ | ⟨hgone, s', d', hround, h', hnames', hkernel'⟩
          · rw [hgones] at hgone
            refine iff_of_false (by simp [hlost]) fun hintact => ?_
            cases hintact with
            | cons hbefore _ _ =>
                rw [hgone] at hbefore
                cases hbefore
          · rw [hgones] at hgone
            simp only [hgones] at h'
            rw [hround, Option.bind_some]
            have hrest : (rest.filter fun q => !c.gone (hooks.before p ++ hooks.after p) q).length ≤
                n := Nat.le_trans (List.length_filter_le ..) (Nat.le_of_succ_le_succ hn)
            have hloop := ih
              ((visited ++ [p]).filter fun q => !c.gone (hooks.before p ++ hooks.after p) q) hrest
              (by rw [← List.filter_append, List.append_assoc]; exact h')
              (fun q => (hnames' q).trans (hnames q)) (hkernel'.trans hkernel)
            cases rest with
            | nil => exact iff_of_true (by cases n <;> rfl) (.cons hgone (by simp) .nil)
            | cons q rest =>
                cases hq : c.gone (hooks.before p ++ hooks.after p) q with
                | true =>
                    rw [forEach_next h' hq]
                    refine iff_of_false (by simp) fun hintact => ?_
                    cases hintact with
                    | cons _ hnext' _ =>
                        rw [hnext' q rfl] at hq
                        cases hq
                | false =>
                    rw [List.filter_cons_of_pos (by simpa using hq)] at hloop
                    refine hloop.trans ⟨fun hintact => .cons hgone ?_ ?_, fun hintact => ?_⟩
                    · rintro q' ⟨⟩
                      exact hq
                    · rwa [List.filter_cons_of_pos (by simpa using hq)]
                    · cases hintact with
                      | cons _ _ hrest' =>
                          rwa [List.filter_cons_of_pos (by simpa using hq)] at hrest'

/-- A pass that starts in good order. -/
theorem interruptedPass_isSome_iff {hooks : Hooks} (hfed : hooks.Fed)
    (h : Shows hashFcn items [] c d) {body : TaskName → σ → RtDtask → σ × RtDtask}
    (hbody : ∀ x : Kernel, x.name = c.kernel.name → Shows.Keeps x body) (a : σ) :
    (interruptedPass hashFcn hooks body a c).isSome ↔ Survives hooks c := by
  have hcollect : c.dtaskMap.collect = some items :=
    UtHash.Elements.collect (s := ⟨c.dtaskMap, c.key⟩) h.elements
  have hloop := loop_isSome_iff hfed hbody [] (s := (a, c)) (Nat.le_refl items.length)
    h (fun _ => rfl) rfl
  have hpass : interruptedPass hashFcn hooks body a c =
      LinkHeap.forEach appOrder (fun s : σ × HeapDriver => s.2.dtaskMap.links)
        (interruptedBody hashFcn hooks body) items.length items.head? (a, c) := by
    simp only [interruptedPass, UtHash.hashIter, h.elements.hashCount, h.elements.head,
      Option.bind_eq_bind, Option.bind_some]
  rw [hpass, hloop]
  constructor
  · exact fun hintact => ⟨items, hcollect, hintact⟩
  · rintro ⟨items', hcollect', hintact⟩
    rw [hcollect] at hcollect'
    cases hcollect'
    exact hintact

/-- **When hooks do harm.** In every reachable state either pass of a recalculation, interrupted
by deletion hooks that get their buffers in whatever way, gets to its end exactly when no hook
deletes the record that the loop is at before the body has run, or the one it goes on with. -/
theorem recalc_interrupted_iff {hooks : Hooks} (hc : (memory hashFcn).Reachable c)
    (hfed : hooks.Fed) (x : Kernel) (hx : x.name = c.kernel.name) (currTime : UInt64)
    (m : Extremes) :
    ((interruptedPass hashFcn hooks (firstPassBody x currTime) .start c).isSome ↔
        Survives hooks c) ∧
      ((interruptedPass hashFcn hooks (secondPassBody currTime m) x c).isSome ↔
        Survives hooks c) := by
  obtain ⟨d, -, items, h⟩ := (simulation hashFcn).reachable hc
  exact ⟨interruptedPass_isSome_iff hfed h
      (fun y hy => Shows.keeps_firstPassBody y x currTime (hx.trans hy.symm)) .start,
    interruptedPass_isSome_iff hfed h
      (fun y _ => Shows.keeps_secondPassBody y currTime m) x⟩

/-- Tasks `0` and `1` are in the table, in this order. In the round at record `0` a hook deletes
the given task. -/
def letterHooks (task : RtTask) : Hooks where
  before _ := []
  after p := if p = 0 then [(task, plainReplies 9 30)] else []

theorem letterHooks_fed (task : RtTask) : (letterHooks task).Fed := by
  intro p h hh
  simp only [letterHooks, List.nil_append] at hh
  split at hh
  · obtain rfl := List.mem_singleton.mp hh
    rfl
  · cases hh

/-- A hook may delete the record that has been dealt with, but not the one that comes next. -/
theorem recalc_interrupted_letter :
    (interruptedPass (hashJenOf signedChar) (letterHooks 0) (firstPassBody letterMemory.kernel 5)
        .start letterMemory).isSome ∧
      ¬(interruptedPass (hashJenOf signedChar) (letterHooks 1) (firstPassBody letterMemory.kernel 5)
        .start letterMemory).isSome := by
  have hcollect : letterMemory.dtaskMap.collect = some [0, 10] := by decide +kernel
  have hiff := fun task => (recalc_interrupted_iff letterMemory_reachable (letterHooks_fed task)
    letterMemory.kernel rfl 5 .start).1
  rw [hiff, hiff]
  constructor
  · refine ⟨[0, 10], hcollect, .cons (by decide +kernel) (by decide +kernel) ?_⟩
    have hrest : [10].filter (fun q => !letterMemory.gone
        ((letterHooks 0).before 0 ++ (letterHooks 0).after 0) q) = [10] := by decide +kernel
    rw [hrest]
    exact .cons (by decide +kernel) (by decide +kernel) .nil
  · rintro ⟨items, hitems, hintact⟩
    rw [hcollect] at hitems
    cases hitems
    cases hintact with
    | cons _ hnext _ => exact absurd (hnext 10 rfl) (by decide +kernel)

end HeapDriver

end Edfomai
