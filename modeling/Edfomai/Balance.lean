import Edfomai.Requests
import Edfomai.Lib.Ledger
import Mathlib.Algebra.BigOperators.Group.List.Basic
import Mathlib.Algebra.Order.Group.Multiset
import Mathlib.Tactic.Abel

/-!
# Edfomai.Balance

The driver's memory, as a ledger of its `rtdm_malloc` and `rtdm_free` calls. What is
outstanding between two calls are the two blocks of each record, and whatever has been
lost.

The shape of the argument:

* the rules of `Ledger.Account` give one lemma for each thing an operation does with a
  block (`Books.malloc`, `Books.free`, `Books.add`, …);
* `Op.exec_books` and `Call.exec_books` book an operation and a call, and find out which
  lose a block: `rt_dtask_setdeadline`, which never frees its buffer, and an
  `rt_dtask_create` that finds its name taken and forgets the watchdog;
* `handleAll_books` adds the losses of a run up.
-/

namespace Edfomai

/-! ### The ledger of a history -/

/-- The blocks allocated and freed in a history. Freeing `NULL` does nothing. -/
def History.ledger : List Event → List (Ledger.Entry Block)
  | [] => []
  | .malloc (some b) :: h => .take b :: ledger h
  | .free (some b) :: h => .give b :: ledger h
  | _ :: h => ledger h

/-- The block at an address, if it is not `NULL`. -/
def blockAt : Option Block → Multiset Block
  | some b => {b}
  | none => 0

/-- The blocks a record holds: its own and its watchdog's. -/
def RtDtask.blocks (r : RtDtask) : Multiset Block := {r.addr} + blockAt r.watchd

/-- The blocks the records of a table hold. -/
def blocksOf (t : Table TaskName RtDtask) : Multiset Block :=
  (t.entries.map fun e => e.2.blocks).sum

theorem blocksOf_mapValues {f : TaskName → RtDtask → RtDtask} (t : Table TaskName RtDtask)
    (hf : ∀ k r, (f k r).blocks = r.blocks) : blocksOf (t.mapValues f) = blocksOf t := by
  simp [blocksOf, Function.comp_def, Sigma.map, hf]

theorem blocksOf_add {t : Table TaskName RtDtask} {k : TaskName} (r : RtDtask)
    (h : t.lookup k = none) : blocksOf (t.add k r) = blocksOf t + r.blocks := by
  simp [blocksOf, Table.entries_add r h]

theorem blocksOf_erase {t : Table TaskName RtDtask} {k : TaskName} {r : RtDtask}
    (h : t.lookup k = some r) : blocksOf t = r.blocks + blocksOf (t.erase k) := by
  have hperm := (Table.entries_perm_erase h).map fun e => e.2.blocks
  rw [blocksOf, hperm.sum_eq, List.map_cons, List.sum_cons, blocksOf]

/-- Each record holds two blocks, unless it has no watchdog. -/
theorem card_blocksOf {t : Table TaskName RtDtask}
    (h : ∀ k r, t.lookup k = some r → r.watchd.isSome) :
    (blocksOf t).card = 2 * t.keys.length := by
  have hentry : ∀ e ∈ t.entries, e.2.blocks.card = 2 := by
    intro e he
    obtain ⟨w, hw⟩ := Option.isSome_iff_exists.mp (h e.1 e.2 (AList.mem_lookup_iff.mpr he))
    simp [RtDtask.blocks, blockAt, hw]
  rw [blocksOf, AList.keys, List.keys, List.length_map]
  generalize t.entries = es at hentry
  induction es with
  | nil => rfl
  | cons e es ih =>
      rw [List.map_cons, List.sum_cons, Multiset.card_add, hentry e (List.mem_cons_self ..),
        ih fun e' he' => hentry e' (List.mem_cons_of_mem _ he'), List.length_cons]
      omega

/-! ### Keeping books -/

/-- The driver's books: outstanding are the blocks of the records, and the lost ones. -/
def Driver.Books (lost : Multiset Block) (d : Driver) : Prop :=
  Ledger.Account (History.ledger d.kernel.history) (blocksOf d.dtaskMap + lost)

namespace Driver.Books

variable {lost : Multiset Block} {d : Driver}

theorem of_eq {lost' : Multiset Block} (h : d.Books lost) (heq : lost = lost') : d.Books lost' :=
  heq ▸ h

theorem malloc (h : d.Books lost) (p : Option Block) :
    (d.log (.malloc p)).Books (blockAt p + lost) := by
  cases p with
  | none => exact Ledger.Account.of_eq h (by simp [blockAt])
  | some b =>
      refine (Ledger.Account.take h b).of_eq ?_
      simp only [blockAt, log_dtaskMap]
      abel

theorem free {p : Option Block} (h : d.Books (blockAt p + lost)) :
    (d.log (.free p)).Books lost := by
  cases p with
  | none => exact Ledger.Account.of_eq h (by simp [blockAt])
  | some b =>
      refine Ledger.Account.give (Ledger.Account.of_eq h ?_)
      simp only [blockAt, log_dtaskMap]
      abel

theorem armed (h : d.Books lost) (k : TaskName) (t D : UInt64) :
    (d.log (.armed k t D)).Books lost := h

theorem adjust (h : d.Books lost) (k : TaskName) {f : RtDtask → RtDtask}
    (hf : ∀ r, (f r).blocks = r.blocks) : (d.adjust k f).Books lost := by
  refine Ledger.Account.of_eq h ?_
  rw [adjust_dtaskMap, Table.adjust, blocksOf_mapValues]
  intro k' r
  split
  · exact hf r
  · rfl

theorem recalc (h : d.Books lost) (t : UInt64) : (rtDtaskRecalculateprio t d).Books lost := by
  have hledger : History.ledger (rtDtaskRecalculateprio t d).kernel.history =
      History.ledger d.kernel.history :=
    recalc_history_of_ignored (fun _ _ _ _ => rfl) (fun _ _ _ => rfl) (fun _ _ => rfl) t d
  unfold Books
  rw [hledger, recalc_dtaskMap, blocksOf_mapValues]
  · exact h
  · intro k r
    simp [RtDtask.blocks]

theorem add {k : TaskName} {r : RtDtask} (h : d.Books (r.blocks + lost))
    (hl : d.dtaskMap.lookup k = none) :
    ({ d with dtaskMap := d.dtaskMap.add k r } : Driver).Books lost :=
  Ledger.Account.of_eq h (by rw [blocksOf_add r hl, add_assoc])

theorem erase {k : TaskName} {r : RtDtask} (h : d.Books lost)
    (hl : d.dtaskMap.lookup k = some r) :
    ({ d with dtaskMap := d.dtaskMap.erase k } : Driver).Books (r.blocks + lost) := by
  refine Ledger.Account.of_eq h ?_
  rw [blocksOf_erase hl]
  abel

end Driver.Books

open Driver

/-! ### What operations lose -/

/-- An operation loses a block: `rt_dtask_setdeadline` its buffer, always, and
`rt_dtask_create` the watchdog of a record that it does not add. -/
def Op.Loses (d : Driver) : Op → Prop
  | setdeadline _ _ => True
  | create task _ => (d.dtaskMap.lookup (d.kernel.name task)).isSome
  | _ => False

instance (d : Driver) (op : Op) : Decidable (op.Loses d) :=
  match op with
  | .setdeadline _ _ => isTrue trivial
  | .create task _ =>
      inferInstanceAs (Decidable ((d.dtaskMap.lookup (d.kernel.name task)).isSome))
  | .resetdeadline _ | .goingwaitp _ | .stopwatchdog _ | .delete _ | .recalculateprio =>
      isFalse id

section Op

variable {lost : Multiset Block} {d d' : Driver} {r : Replies} {task : RtTask} {ret : Int32}

/-- A buffer that is freed at the end of its operation is not missed. -/
theorem books_of_buffer (h : d.Books lost) (b : Block) :
    ((d.log (.malloc (some b))).log (.free (some b))).Books lost := (h.malloc (some b)).free

theorem goingwaitp_books (h : d.Books lost) (hexec : rtDtaskGoingwaitp r task d = some (ret, d')) :
    d'.Books lost := by
  obtain ⟨b, -, ⟨rec, -, -, rfl⟩ | ⟨-, -, rfl⟩⟩ := goingwaitp_inv hexec
  · exact ((h.malloc (some b)).adjust _ fun _ => by rfl).free
  · exact books_of_buffer h b

/-- **The books after an operation.** -/
theorem Op.exec_books {op : Op} (h : d.Books lost) (hwatchd : r.watchd.isSome)
    (hexec : op.exec r d = some (ret, d')) :
    ∃ new : Multiset Block, d'.Books (new + lost) ∧ new.card = if op.Loses d then 1 else 0 := by
  obtain ⟨w, hw⟩ := Option.isSome_iff_exists.mp hwatchd
  cases op with
  | create task D =>
      obtain ⟨b, d₁, -, hinsert, rfl⟩ := create_inv hexec
      have halloc := (h.malloc (some b)).malloc r.watchd
      rcases insertDtask_inv hinsert with ⟨hl, -, -, rfl⟩ | ⟨⟨rec, hrec⟩, -, rfl⟩
      · -- both blocks belong to the new record
        refine ⟨0, ((Books.add (halloc.of_eq ?_) hl).armed _ _ _).recalc _, by simp [Loses, hl]⟩
        simp only [RtDtask.blocks, newDtask, blockAt]
        abel
      · -- the record's block is freed, its watchdog's is not
        refine ⟨{w}, (Books.free (halloc.of_eq ?_)).recalc _, by simp [Loses, hrec]⟩
        simp only [hw, blockAt]
        abel
  | setdeadline task D =>
      obtain ⟨b, -, ⟨rec, -, -, rfl⟩ | ⟨-, -, rfl⟩⟩ := setdeadline_inv hexec
      · exact ⟨{b}, (((h.malloc (some b)).adjust _ fun _ => by rfl).armed _ _ _).recalc _,
          by simp [Loses]⟩
      · exact ⟨{b}, h.malloc (some b), by simp [Loses]⟩
  | resetdeadline task =>
      refine ⟨0, ?_, by simp [Loses]⟩
      rw [zero_add]
      obtain ⟨b, -, ⟨rec, -, -, rfl⟩ | ⟨-, -, rfl⟩⟩ := resetdeadline_inv hexec
      · exact ((((h.malloc (some b)).adjust _ fun _ => by rfl).armed _ _ _).recalc _).free
      · exact books_of_buffer h b
  | goingwaitp task =>
      exact ⟨0, by rw [zero_add]; exact goingwaitp_books h hexec, by simp [Loses]⟩
  | stopwatchdog task =>
      refine ⟨0, ?_, by simp [Loses]⟩
      rw [zero_add]
      obtain ⟨b, -, ⟨rec, ret₁, d₁, -, -, hnested, rfl⟩ | ⟨-, -, rfl⟩⟩ := stopwatchdog_inv hexec
      · exact (goingwaitp_books (h.malloc (some b)) hnested).free
      · exact books_of_buffer h b
  | delete task =>
      refine ⟨0, ?_, by simp [Loses]⟩
      rw [zero_add]
      obtain ⟨b, -, ⟨rec, hrec, -, rfl⟩ | ⟨-, -, rfl⟩⟩ := delete_inv hexec
      · have herased := (h.malloc (some b)).erase hrec
        refine Books.free (Books.free (Books.free (herased.of_eq ?_)))
        simp only [RtDtask.blocks, blockAt]
        abel
      · exact books_of_buffer h b
  | recalculateprio =>
      obtain ⟨rfl, rfl⟩ := Prod.mk.inj (Option.some.inj hexec)
      exact ⟨0, by rw [zero_add]; exact h.recalc _, by simp [Loses]⟩

/-- `rt_dtask_dispose` gives back the blocks of all records. -/
theorem dispose_books (h : d.Books lost) : (rtDtaskDispose d).Books lost := by
  unfold rtDtaskDispose
  generalize hes : d.dtaskMap.entries = es
  induction es generalizing d with
  | nil => exact h
  | cons e es ih =>
      have hl : d.dtaskMap.lookup e.1 = some e.2 :=
        lookup_of_mem_entries (by rw [hes]; exact List.mem_cons_self ..)
      refine ih (d := disposeBody d e) ?_ ?_
      · have herased := h.erase hl
        refine Books.free (Books.free (herased.of_eq ?_))
        simp only [RtDtask.blocks, blockAt]
        abel
      · show d.dtaskMap.entries.kerase e.1 = es
        rw [hes, List.kerase_cons_eq rfl]

end Op

/-! ### What runs lose -/

namespace Call

/-- The call comes to an operation that loses a block. -/
def Loses (d : Driver) (c : Call) : Prop := ∃ q ∈ c.request?, q.op.Loses d

instance (d : Driver) (c : Call) : Decidable (c.Loses d) :=
  match h : c.request? with
  | some q => decidable_of_iff (q.op.Loses d) (by simp [Loses, h])
  | none => isFalse (by simp [Loses, h])

/-- `rtdm_malloc` succeeds when it is asked for a watchdog. -/
def Supplied (c : Call) : Prop := ∀ q ∈ c.request?, q.replies.watchd.isSome

instance (c : Call) : Decidable c.Supplied :=
  inferInstanceAs (Decidable (∀ q ∈ c.request?, q.replies.watchd.isSome))

end Call

/-- The number of calls of a run that lose a block. -/
def losses : List Call → Driver → Nat
  | [], _ => 0
  | c :: cs, d => (if c.Loses d then 1 else 0) + ((c.exec d).map (losses cs)).getD 0

section Run

variable {lost : Multiset Block} {d d' : Driver} {c : Call} {cs : List Call}

theorem Call.exec_books (h : d.Books lost) (hsup : c.Supplied) (hexec : c.exec d = some d') :
    ∃ new : Multiset Block, d'.Books (new + lost) ∧ new.card = if c.Loses d then 1 else 0 := by
  have hloses : ∀ q, c.request? = some q → (c.Loses d ↔ q.op.Loses d) := by
    intro q hq
    simp [Call.Loses, hq]
  have hnone : c.request? = none → ¬c.Loses d := by
    intro hq
    simp [Call.Loses, hq]
  rcases c.exec_inv hexec with ⟨q, b, ret, d₁, hq, hop, rfl⟩ | ⟨q, ret, hq, hop⟩ |
    ⟨b, hq, rfl⟩ | ⟨t, rfl, rfl⟩ | ⟨rfl, rfl⟩
  · -- the message counts as lost until it is freed
    obtain ⟨new, hbooks, hcard⟩ := Op.exec_books (h.malloc (some b)) (hsup q hq) hop
    refine ⟨new, Books.free (hbooks.of_eq ?_), ?_⟩
    · abel
    · rw [hcard, if_congr (hloses q hq) rfl rfl]
      rfl
  · obtain ⟨new, hbooks, hcard⟩ := Op.exec_books h (hsup q hq) hop
    exact ⟨new, hbooks, by rw [hcard, if_congr (hloses q hq) rfl rfl]⟩
  · exact ⟨0, by rw [zero_add]; exact books_of_buffer h b, by rw [if_neg (hnone hq)]; rfl⟩
  · exact ⟨0, by rw [zero_add]; exact h.recalc t, by rw [if_neg (hnone rfl)]; rfl⟩
  · exact ⟨0, by rw [zero_add]; exact dispose_books h, by rw [if_neg (hnone rfl)]; rfl⟩

/-- **The books after a run.** -/
theorem handleAll_books (h : d.Books lost) (hsup : ∀ c ∈ cs, c.Supplied)
    (hrun : handleAll cs d = some d') :
    ∃ new : Multiset Block, d'.Books (new + lost) ∧ new.card = losses cs d := by
  induction cs generalizing d lost with
  | nil => exact ⟨0, by rw [zero_add, ← Option.some.inj hrun]; exact h, rfl⟩
  | cons c cs ih =>
      obtain ⟨d₁, hc, hrest⟩ := handleAll_cons.mp hrun
      obtain ⟨new, hbooks, hcard⟩ := c.exec_books h (hsup c (List.mem_cons_self ..)) hc
      obtain ⟨new', hbooks', hcard'⟩ :=
        ih hbooks (fun c' hc' => hsup c' (List.mem_cons_of_mem _ hc')) hrest
      refine ⟨new' + new, hbooks'.of_eq (add_assoc ..).symm, ?_⟩
      rw [Multiset.card_add, hcard, hcard', losses, hc, Option.map_some, Option.getD_some,
        Nat.add_comm]

end Run

/-! ### The balance -/

/-- The number of blocks that are allocated and not freed. -/
def Driver.outstanding (d : Driver) : Nat :=
  (Ledger.outstanding (History.ledger d.kernel.history)).card

/-- The memory is balanced: two blocks for each record, none freed twice, and none left once
`rt_dtask_dispose` has emptied the table. -/
structure Balanced (d : Driver) : Prop where
  count : d.outstanding = 2 * d.dtaskMap.keys.length
  once : Ledger.Sound (History.ledger d.kernel.history)
  disposed : (rtDtaskDispose d).dtaskMap.keys = [] ∧ (rtDtaskDispose d).outstanding = 0

/-- The memory is balanced in every state of a run between two calls. -/
def BalancedAlong (cs : List Call) (d₀ : Driver) : Prop :=
  ∀ cs₁ cs₂ d, cs = cs₁ ++ cs₂ → handleAll cs₁ d₀ = some d → Balanced d

/-- No call of a run loses a block. -/
def NoLoss : List Call → Driver → Prop
  | [], _ => True
  | c :: cs, d => ¬c.Loses d ∧ ∀ d₁, c.exec d = some d₁ → NoLoss cs d₁

theorem losses_eq_zero {cs : List Call} {d d' : Driver} (h : handleAll cs d = some d') :
    losses cs d = 0 ↔ NoLoss cs d := by
  induction cs generalizing d with
  | nil => exact iff_of_true rfl trivial
  | cons c cs ih =>
      obtain ⟨d₁, hc, hrest⟩ := handleAll_cons.mp h
      by_cases hloses : c.Loses d <;> simp [losses, NoLoss, hc, hloses, ih hrest]

/-- Nor does a call of the run's beginning. -/
theorem NoLoss.of_append {cs₁ cs₂ : List Call} {d : Driver} (h : NoLoss (cs₁ ++ cs₂) d) :
    NoLoss cs₁ d := by
  induction cs₁ generalizing d with
  | nil => trivial
  | cons c cs₁ ih => exact ⟨h.1, fun d₁ hc => ih (h.2 d₁ hc)⟩

section Balance

variable {x : Kernel} {cs : List Call} {d d' : Driver}

/-- Between two calls the books show two blocks for each record, and the losses so far. -/
theorem outstanding_eq {lost : Multiset Block} (h : d.Books lost)
    (hwatchd : ∀ k r, d.dtaskMap.lookup k = some r → r.watchd.isSome) :
    d.outstanding = 2 * d.dtaskMap.keys.length + lost.card := by
  rw [Driver.outstanding, h.outstanding_eq, Multiset.card_add, card_blocksOf hwatchd]

theorem handleAll_watchd (hd : d.Every fun _ _ w => w.isSome) (hsup : ∀ c ∈ cs, c.Supplied)
    (h : handleAll cs d = some d') : d'.Every fun _ _ w => w.isSome := by
  refine handleAll_invariant (fun c hc d d' hd hexec => ?_) hd h
  exact c.exec_every hd (fun q _ _ hq _ => hsup c hc q hq) hexec

/-- The state after a run is balanced exactly when nothing was lost. -/
theorem balanced_iff (hx : x.history = []) (hsup : ∀ c ∈ cs, c.Supplied)
    (h : handleAll cs (rtDtaskInit x) = some d) :
    Balanced d ↔ losses cs (rtDtaskInit x) = 0 := by
  have hinit : (rtDtaskInit x).Books 0 := by
    have hhist : (rtDtaskInit x).kernel.history = [] := hx
    unfold Books
    rw [hhist]
    exact Ledger.Account.nil
  obtain ⟨new, hbooks, hcard⟩ := handleAll_books hinit hsup h
  rw [add_zero] at hbooks
  have hwatchd := handleAll_watchd (fun k r hl => by simp [rtDtaskInit] at hl) hsup h
  have hcount := outstanding_eq hbooks hwatchd
  have hdisposed := dispose_books hbooks
  have hempty := dispose_keys d
  rw [← hcard]
  constructor
  · intro hb
    have := hb.count
    omega
  · intro hnew
    refine ⟨by omega, hbooks.sound, hempty, ?_⟩
    have hdispose := outstanding_eq hdisposed fun k r hl => by
      simp [lookup_of_keys_nil hempty] at hl
    rw [hdispose, hempty, hnew]
    rfl

/-- **When the memory is balanced**: in every state of a run between two calls, if and only
if no call of the run loses a block. -/
theorem alloc_balance_iff (hx : x.history = []) (hsup : ∀ c ∈ cs, c.Supplied)
    (h : handleAll cs (rtDtaskInit x) = some d') :
    BalancedAlong cs (rtDtaskInit x) ↔ NoLoss cs (rtDtaskInit x) := by
  constructor
  · intro hall
    have hend := hall cs [] d' (List.append_nil cs).symm h
    exact (losses_eq_zero h).mp ((balanced_iff hx hsup h).mp hend)
  · rintro hnone cs₁ cs₂ d rfl hrun
    have hsup₁ : ∀ c ∈ cs₁, c.Supplied := fun c hc => hsup c (List.mem_append_left _ hc)
    exact (balanced_iff hx hsup₁ hrun).mpr ((losses_eq_zero hrun).mpr hnone.of_append)

end Balance

/-- A task is created, put to waiting, reset and deleted. -/
def tidyCalls : List Call :=
  [letterWrite .createTask 0 10 0 10, letterWrite .goingWaitp 0 0 1 20,
    letterWrite .resetDeadline 0 0 2 30, .deleteHook 0 (plainReplies 3 40)]

theorem alloc_balance_iff_tidy :
    BalancedAlong tidyCalls (rtDtaskInit letterStart.driver.kernel) := by
  have hrun : handleAll tidyCalls letterStart.driver = some (letterHandled tidyCalls) :=
    letterHandled_eq (by decide +kernel)
  refine (alloc_balance_iff rfl (fun c hc => ?_) hrun).mpr
    ((losses_eq_zero hrun).mp (by decide +kernel))
  simp only [tidyCalls, List.mem_cons, List.not_mem_nil, or_false] at hc
  rcases hc with rfl | rfl | rfl | rfl <;> decide +kernel

/-- A task whose deadline is set again. -/
def resettingCalls : List Call :=
  [letterWrite .createTask 0 10 0 10, letterWrite .setDeadline 0 20 1 20]

/-- The buffer of `rt_dtask_setdeadline` is lost: one record, and three blocks. -/
theorem alloc_unbalanced :
    (∀ c ∈ resettingCalls, c.Supplied) ∧
      handleAll resettingCalls (rtDtaskInit letterStart.driver.kernel) =
        some (letterHandled resettingCalls) ∧
      ¬Balanced (letterHandled resettingCalls) := by
  refine ⟨fun c hc => ?_, letterHandled_eq (by decide +kernel), fun h => ?_⟩
  · simp only [resettingCalls, List.mem_cons, List.not_mem_nil, or_false] at hc
    rcases hc with rfl | rfl <;> decide +kernel
  · have hcount := h.count
    exact absurd hcount (by decide +kernel)

end Edfomai
