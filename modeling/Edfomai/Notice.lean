import Edfomai.Data
import Edfomai.Lib.Buffer
import Edfomai.Lib.CString

/-!
# Edfomai.Notice

The bytes of a notification: `deadline_missed` of `edfomai-drv.c` copies the name of the
task into an array on its stack and hands the whole array to `rt_queue_write`.

The loop stops at the end of the name or at `TNAME_LEN` characters, and a NUL is stored
where it stopped. `deadlineMissedStores_eq` says that the stores are those of the name's
first `TNAME_LEN` characters and a NUL, one after the other. Everything else follows:

* the NUL of a name with `TNAME_LEN` characters or more lies beyond the array
  (`notice_in_buffer_iff`);
* what lies after the NUL of a name with fewer is sent as it was found on the stack
  (`notice_no_leak_iff`).
-/

namespace Edfomai

/-- `char message [TNAME_LEN]`, with whatever the stack holds there. -/
structure StackMessage where
  bytes : List UInt8
  size : bytes.length = tnameLen

/-- `t->rname[i]`. Nothing after the first NUL is read. -/
def rnameAt (name : TaskName) (i : Nat) : UInt8 := name.chars.getD i 0

/-- The loop of `deadline_missed`, from index `i` on and with `left` rounds to go: the
stores it makes, and the index at which it ends. -/
def copyLoop (name : TaskName) : (left i : Nat) → List (Nat × UInt8) × Nat
  | 0, i => ([], i)
  | left + 1, i =>
      if rnameAt name i ≠ 0 then
        let (stores, i') := copyLoop name left (i + 1)
        ((i, rnameAt name i) :: stores, i')
      else ([], i)

/-- The stores that `deadline_missed` makes into `message`. -/
def deadlineMissedStores (name : TaskName) : List (Nat × UInt8) :=
  let (stores, i) := copyLoop name tnameLen 0
  stores ++ [(if i < tnameLen then i else tnameLen, 0)]

/-- The bytes that `deadline_missed` hands to `rt_queue_write`. -/
def deadlineMissedBytes (name : TaskName) (message : StackMessage) : List UInt8 :=
  Buffer.run (deadlineMissedStores name) message.bytes

/-! ### The copy -/

theorem copyLoop_eq (name : TaskName) (left i : Nat) :
    copyLoop name left i =
      (Buffer.consecutive i ((name.chars.drop i).take left),
        i + ((name.chars.drop i).take left).length) := by
  induction left generalizing i with
  | zero => simp [copyLoop, Buffer.consecutive]
  | succ left ih =>
      rcases Nat.lt_or_ge i name.chars.length with hlt | hge
      · have hget : rnameAt name i = name.chars[i] := by simp [rnameAt, hlt]
        have hne : name.chars[i] ≠ 0 := fun h0 => name.noNul (h0 ▸ List.getElem_mem hlt)
        have hdrop : name.chars.drop i = name.chars[i] :: name.chars.drop (i + 1) :=
          List.drop_eq_getElem_cons hlt
        rw [copyLoop, hget, if_pos hne, ih, hdrop, List.take_succ_cons, List.length_cons]
        simp only [Buffer.consecutive, Prod.mk.injEq, true_and]
        omega
      · -- the name ends here
        have hget : rnameAt name i = 0 := by simp [rnameAt, hge]
        simp [copyLoop, hget, List.drop_of_length_le hge, Buffer.consecutive]

/-- **What `deadline_missed` stores**: the name's first characters and a NUL. -/
theorem deadlineMissedStores_eq (name : TaskName) :
    deadlineMissedStores name = Buffer.consecutive 0 (name.chars.take tnameLen ++ [0]) := by
  have hend : (if (name.chars.take tnameLen).length < tnameLen then
      (name.chars.take tnameLen).length else tnameLen) = (name.chars.take tnameLen).length := by
    have := List.length_take_le tnameLen name.chars
    split <;> omega
  rw [deadlineMissedStores, copyLoop_eq, List.drop_zero, Nat.zero_add, Buffer.consecutive_append,
    Nat.zero_add]
  simp only [hend, Buffer.consecutive]

/-- A name that leaves room for the NUL is sent with it, and then what the stack held. -/
theorem deadlineMissedBytes_of_lt {name : TaskName} (h : name.chars.length < tnameLen)
    (message : StackMessage) :
    deadlineMissedBytes name message =
      name.chars ++ 0 :: message.bytes.drop (name.chars.length + 1) := by
  rw [deadlineMissedBytes, deadlineMissedStores_eq, Buffer.run_consecutive_zero, message.size,
    List.take_of_length_le (Nat.le_of_lt h),
    List.take_of_length_le (by simpa using Nat.succ_le_of_lt h), List.append_assoc,
    List.length_append]
  rfl

/-- Of any other name `TNAME_LEN` characters are sent, and no NUL. -/
theorem deadlineMissedBytes_of_le {name : TaskName} (h : tnameLen ≤ name.chars.length)
    (message : StackMessage) : deadlineMissedBytes name message = name.chars.take tnameLen := by
  have hlen : (name.chars.take tnameLen).length = tnameLen := by
    rw [List.length_take, Nat.min_eq_left h]
  rw [deadlineMissedBytes, deadlineMissedStores_eq, Buffer.run_consecutive_zero, message.size,
    List.take_left' hlen, List.length_append, hlen, List.drop_of_length_le, List.append_nil]
  rw [message.size]
  exact Nat.le_succ tnameLen

/-! ### The end of the array -/

/-- `deadline_missed` stays in its array, and sends the name as far as it fits with its
NUL. -/
structure InBuffer (name : TaskName) (message : StackMessage) : Prop where
  bounds : ∀ s ∈ deadlineMissedStores name, s.1 < tnameLen
  terminated : 0 ∈ deadlineMissedBytes name message
  string : cString (deadlineMissedBytes name message) =
    if name.chars.length < tnameLen then name.chars else name.chars.take (tnameLen - 1)

/-- **When `deadline_missed` stays in its array**: when the name and its NUL fit. -/
theorem notice_in_buffer_iff (name : TaskName) (message : StackMessage) :
    InBuffer name message ↔ name.chars.length < tnameLen := by
  constructor
  · intro h
    by_contra hlong
    have hnul := h.terminated
    rw [deadlineMissedBytes_of_le (Nat.le_of_not_lt hlong)] at hnul
    exact name.noNul (List.mem_of_mem_take hnul)
  · intro h
    have hbytes := deadlineMissedBytes_of_lt h message
    constructor
    case bounds =>
      intro s hs
      rw [deadlineMissedStores_eq, List.take_of_length_le (Nat.le_of_lt h)] at hs
      have hlt := Buffer.consecutive_lt hs
      rw [List.length_append, List.length_singleton, Nat.zero_add] at hlt
      omega
    case terminated =>
      rw [hbytes]
      exact List.mem_append_right _ (List.mem_cons_self ..)
    case string => rw [hbytes, if_pos h, cString_terminated name.noNul]

/-- A stack full of one byte. -/
def stackOf (b : UInt8) : StackMessage := ⟨List.replicate tnameLen b, List.length_replicate⟩

/-- The shortest name that does not fit. -/
def boundaryName : TaskName := ⟨List.replicate 24 120, by decide, by decide⟩

/-- The NUL is stored one byte after the array, and the string that is sent has none. -/
theorem notice_out_of_buffer :
    (24, 0) ∈ deadlineMissedStores boundaryName ∧ ¬InBuffer boundaryName (stackOf 0) := by
  refine ⟨by decide, fun h => ?_⟩
  exact absurd (h.bounds (24, 0) (by decide)) (by decide)

/-! ### What was on the stack -/

/-- The bytes sent are determined by the name alone. -/
def NoLeak (name : TaskName) : Prop :=
  ∀ message message' : StackMessage,
    deadlineMissedBytes name message = deadlineMissedBytes name message'

/-- **When a notification leaks nothing of the stack**: when the name and its NUL fill the
array. -/
theorem notice_no_leak_iff (name : TaskName) : NoLeak name ↔ tnameLen - 1 ≤ name.chars.length := by
  constructor
  · intro h
    by_contra hshort
    have hlt : name.chars.length < tnameLen := by omega
    have heq := h (stackOf 0) (stackOf 1)
    rw [deadlineMissedBytes_of_lt hlt, deadlineMissedBytes_of_lt hlt] at heq
    -- at least one byte lies behind the NUL
    have hrest := List.cons_inj_right _ |>.mp (List.append_cancel_left heq)
    simp only [stackOf, List.drop_replicate] at hrest
    rcases (List.replicate_inj.mp hrest).2 with hzero | hbyte
    · omega
    · exact absurd hbyte (by decide)
  · intro h message message'
    rcases Nat.lt_or_ge name.chars.length tnameLen with hlt | hge
    · have hrest : ∀ m : StackMessage, m.bytes.drop (name.chars.length + 1) = [] := fun m =>
        List.drop_of_length_le (by rw [m.size]; omega)
      rw [deadlineMissedBytes_of_lt hlt, deadlineMissedBytes_of_lt hlt, hrest, hrest]
    · rw [deadlineMissedBytes_of_le hge, deadlineMissedBytes_of_le hge]

/-- `T1`, of which only three bytes are stored. -/
def shortName : TaskName := ⟨[84, 49], by decide, by decide⟩

/-- The other 21 bytes are sent as they are found. -/
theorem notice_leaks : ¬NoLeak shortName := by
  intro h
  exact absurd (h (stackOf 0) (stackOf 1)) (by decide)

end Edfomai
