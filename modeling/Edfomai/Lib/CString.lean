import Mathlib.Data.List.TakeWhile

/-!
# Edfomai.Lib.CString

**NUL-terminated strings in memory.** A string is the list of its characters, none
of which is NUL; `cString` reads one from the bytes that start at a pointer, and
`strncpy` is the bytes the C function of that name stores.

The lemmas say what is read back: a terminated string reads as itself whatever
follows it, and a string copied with `strncpy` and then terminated reads as its
first `n` characters.
-/

/-- The C string that starts at the first byte. -/
def cString (mem : List UInt8) : List UInt8 := mem.takeWhile (· ≠ 0)

/-- The bytes `strncpy` stores when the source is the string `s` and `n` bytes are
to be written: at most `n` characters, and NULs up to `n` bytes. -/
def strncpy (s : List UInt8) (n : Nat) : List UInt8 :=
  s.take n ++ List.replicate (n - s.length) 0

@[simp] theorem length_strncpy (s : List UInt8) (n : Nat) : (strncpy s n).length = n := by
  simp only [strncpy, List.length_append, List.length_take, List.length_replicate]
  omega

/-- A terminated string reads as itself. -/
theorem cString_terminated {s : List UInt8} (h : 0 ∉ s) (rest : List UInt8) :
    cString (s ++ 0 :: rest) = s := by
  have hall : ∀ b ∈ s, decide (b ≠ 0) = true := by
    intro b hb
    exact decide_eq_true fun h0 => h (h0 ▸ hb)
  rw [cString, List.takeWhile_append_of_pos hall]
  simp

/-- What follows the first NUL is not read. -/
theorem cString_append {s : List UInt8} (h : 0 ∈ s) (rest : List UInt8) :
    cString (s ++ rest) = cString s := by
  induction s with
  | nil => exact absurd h List.not_mem_nil
  | cons b s ih =>
      by_cases hb : b = 0
      · simp [cString, hb]
      · have htail : 0 ∈ s := (List.mem_cons.mp h).resolve_left (Ne.symm hb)
        have hkeep : decide (b ≠ 0) = true := decide_eq_true hb
        have hrest : (s ++ rest).takeWhile (· ≠ 0) = s.takeWhile (· ≠ 0) := ih htail
        simp only [cString, List.cons_append, List.takeWhile_cons, hkeep, if_true, hrest]

/-- **A copied string reads as its first `n` characters**: the padding, or the
terminator stored after the copy, ends it. -/
theorem cString_strncpy {s : List UInt8} (h : 0 ∉ s) (n : Nat) (rest : List UInt8) :
    cString (strncpy s n ++ 0 :: rest) = s.take n := by
  have htake : 0 ∉ s.take n := fun h0 => h (List.mem_of_mem_take h0)
  rw [strncpy, List.append_assoc]
  cases hpad : n - s.length with
  | zero => exact cString_terminated htake rest
  | succ m => exact cString_terminated htake (List.replicate m 0 ++ 0 :: rest)
