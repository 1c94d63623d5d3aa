import Mathlib.Data.Nat.Basic
import Mathlib.Tactic.Ring

/-!
# Edfomai.Lib.ShiftDiv

Division with **dropped low bits**: both operands are shifted right by the same
amount before they are divided, the usual way to fit a wide division into a
narrow divide instruction. The result is not the quotient, but it keeps the two
properties that callers rely on: it is monotone in the dividend, and it does not
exceed a bound `k` that holds of the exact quotient as long as the shortened
divisor is not smaller than `k`. It is never below the exact quotient either
(`div_le_quot`), and by no more than one above it as long as the divisor keeps enough
(`quot_le_succ_of_mul_mod_le`).
-/

namespace ShiftDiv

/-- The quotient of `a` by `b` after both have lost their `s` low bits. -/
def quot (s a b : ℕ) : ℕ := (a / 2 ^ s) / (b / 2 ^ s)

@[simp] theorem quot_zero_shift (a b : ℕ) : quot 0 a b = a / b := by
  simp [quot]

@[simp] theorem quot_zero_left (s b : ℕ) : quot s 0 b = 0 := by
  simp [quot]

theorem quot_mono {s a a' : ℕ} (b : ℕ) (h : a ≤ a') : quot s a b ≤ quot s a' b :=
  Nat.div_le_div_right (Nat.div_le_div_right h)

/-- A vanishing quotient still bounds the dividend by the *whole* divisor: the
bits dropped from `a` are made up for by rounding `b` down. -/
theorem lt_of_quot_eq_zero {s a b : ℕ} (hb : 0 < b / 2 ^ s) (h : quot s a b = 0) :
    a < b := by
  have hlt : a / 2 ^ s < b / 2 ^ s := by
    rcases Nat.div_eq_zero_iff.mp h with h0 | hlt
    · omega
    · exact hlt
  by_contra hle
  exact absurd (Nat.div_le_div_right (c := 2 ^ s) (Nat.le_of_not_lt hle)) (by omega)

/-- Scaling by `k` and then dropping bits exceeds `k` times the shortened number
by less than `k`. -/
theorem mul_div_two_pow_lt {k : ℕ} (s b : ℕ) (hk : 0 < k) :
    k * b / 2 ^ s < k * (b / 2 ^ s) + k := by
  have hpow : 0 < 2 ^ s := Nat.two_pow_pos s
  rw [Nat.div_lt_iff_lt_mul hpow]
  have hmod : b < 2 ^ s * (b / 2 ^ s) + 2 ^ s := Nat.lt_mul_div_succ b hpow
  calc k * b < k * (2 ^ s * (b / 2 ^ s) + 2 ^ s) := Nat.mul_lt_mul_of_pos_left hmod hk
    _ = (k * (b / 2 ^ s) + k) * 2 ^ s := by ring

/-- A bound on the exact quotient survives the shift when the shortened divisor
is at least that bound. -/
theorem quot_le_of_le_mul {s a b k : ℕ} (h : a ≤ k * b) (hb : k ≤ b / 2 ^ s) :
    quot s a b ≤ k := by
  rcases Nat.eq_zero_or_pos k with rfl | hk
  · obtain rfl : a = 0 := by omega
    simp
  · have hlt : a / 2 ^ s < k * (b / 2 ^ s) + k :=
      lt_of_le_of_lt (Nat.div_le_div_right h) (mul_div_two_pow_lt s b hk)
    have hsucc : a / 2 ^ s < (k + 1) * (b / 2 ^ s) := by
      calc a / 2 ^ s < k * (b / 2 ^ s) + k := hlt
        _ ≤ k * (b / 2 ^ s) + b / 2 ^ s := by omega
        _ = (k + 1) * (b / 2 ^ s) := by ring
    exact Nat.le_of_lt_succ (Nat.div_lt_of_lt_mul (by rwa [Nat.mul_comm] at hsucc))

/-- The dropped bits never make the quotient smaller: the divisor is rounded down more
than the dividend. -/
theorem div_le_quot {s a b : ℕ} (hb : 0 < b / 2 ^ s) : a / b ≤ quot s a b := by
  have hpow : 0 < 2 ^ s := Nat.two_pow_pos s
  rw [quot, Nat.le_div_iff_mul_le hb, Nat.le_div_iff_mul_le hpow]
  calc a / b * (b / 2 ^ s) * 2 ^ s = a / b * (b / 2 ^ s * 2 ^ s) := Nat.mul_assoc ..
    _ ≤ a / b * b := Nat.mul_le_mul_left _ (Nat.div_mul_le_self b _)
    _ ≤ a := Nat.div_mul_le_self a b

/-- They make it larger by one at most when what the divisor loses, counted once for each
unit of the quotient and once more, does not exceed what it keeps. -/
theorem quot_le_succ_of_mul_mod_le {s a b : ℕ} (hb : 0 < b / 2 ^ s)
    (h : (a / b + 1) * (b % 2 ^ s) ≤ 2 ^ s * (b / 2 ^ s)) : quot s a b ≤ a / b + 1 := by
  have hpos : 0 < b := Nat.pos_of_ne_zero fun h0 => by simp [h0] at hb
  have hlt : a < 2 ^ s * (b / 2 ^ s) * (a / b + 2) := by
    calc a < b * (a / b + 1) := Nat.lt_mul_div_succ a hpos
      _ = (2 ^ s * (b / 2 ^ s) + b % 2 ^ s) * (a / b + 1) := by rw [Nat.div_add_mod]
      _ = 2 ^ s * (b / 2 ^ s) * (a / b + 1) + (a / b + 1) * (b % 2 ^ s) := by ring
      _ ≤ 2 ^ s * (b / 2 ^ s) * (a / b + 1) + 2 ^ s * (b / 2 ^ s) := Nat.add_le_add_left h _
      _ = 2 ^ s * (b / 2 ^ s) * (a / b + 2) := by ring
  rw [quot, Nat.div_div_eq_div_mul]
  exact Nat.le_of_lt_succ (Nat.div_lt_of_lt_mul hlt)

/-- So it is when the shortened divisor exceeds the quotient. -/
theorem quot_le_succ {s a b : ℕ} (h : a / b < b / 2 ^ s) : quot s a b ≤ a / b + 1 := by
  have hmod : b % 2 ^ s ≤ 2 ^ s := (Nat.mod_lt b (Nat.two_pow_pos s)).le
  refine quot_le_succ_of_mul_mod_le (Nat.zero_lt_of_lt h) ?_
  rw [Nat.mul_comm (2 ^ s)]
  exact Nat.mul_le_mul h hmod

/-- And so it is when the shift leaves the `n` leading bits of the divisor of a dividend of at
most `2 * n` bits. -/
theorem quot_le_succ_of_leading {n s a b : ℕ} (hs : 0 < s) (hsn : s ≤ n) (ha : a < 2 ^ (2 * n))
    (hlead : 2 ^ (n - 1) ≤ b / 2 ^ s) : quot s a b ≤ a / b + 1 := by
  have hsplit : 2 ^ (n - 1 + s) ≤ 2 ^ s * (b / 2 ^ s) := by
    rw [pow_add, Nat.mul_comm]
    exact Nat.mul_le_mul_left _ hlead
  have hb : 2 ^ (n - 1 + s) ≤ b := hsplit.trans (Nat.mul_div_le b _)
  -- the quotient has no more than `n + 1 - s` bits
  have hq : a / b + 1 ≤ 2 ^ (n + 1 - s) := by
    refine Nat.succ_le_of_lt (Nat.div_lt_of_lt_mul (ha.trans_le ?_))
    calc 2 ^ (2 * n) = 2 ^ (n - 1 + s) * 2 ^ (n + 1 - s) := by
          rw [← pow_add]
          congr 1
          omega
      _ ≤ b * 2 ^ (n + 1 - s) := Nat.mul_le_mul_right _ hb
  have hmod : b % 2 ^ s ≤ 2 ^ s - 1 := Nat.le_sub_one_of_lt (Nat.mod_lt b (Nat.two_pow_pos s))
  refine quot_le_succ_of_mul_mod_le (lt_of_lt_of_le (Nat.two_pow_pos _) hlead) ?_
  calc (a / b + 1) * (b % 2 ^ s) ≤ 2 ^ (n + 1 - s) * (2 ^ s - 1) := Nat.mul_le_mul hq hmod
    _ ≤ 2 ^ (n - 1 + s) := by
        rw [Nat.mul_sub, ← pow_add, Nat.mul_one, Nat.sub_add_cancel (by omega)]
        rcases Nat.lt_or_ge s 2 with h1 | h2
        · -- one bit is lost: half of the bound is left
          obtain rfl : s = 1 := by omega
          rw [Nat.add_sub_cancel, Nat.sub_add_cancel hsn, pow_succ]
          omega
        · exact (Nat.sub_le _ _).trans (Nat.pow_le_pow_right (by decide) (by omega))
    _ ≤ 2 ^ s * (b / 2 ^ s) := hsplit

end ShiftDiv
