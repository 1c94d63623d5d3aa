import Edfomai.Lib.ShiftDiv
import Mathlib.Data.Nat.Log
import Mathlib.Tactic.NormNum

/-!
# Edfomai.Prio

The priority scale of `edfomai-drv-data.c`: `div64_64`, the 64-by-64 bit division
borrowed from the kernel, and `_calculate_prio`, which maps a remaining time onto
the fixed priorities `MINPRIO .. MAXPRIO`.

The code's own types are kept (`uint64_t` is `UInt64`, so products and sums wrap),
and each function comes with the lemma that reads it as natural-number
arithmetic. `div64_64_accurate` bounds the error of the division. Everything later
developments need about the scale is one of `calculatePrio_toInt`, `prioLevel_le`,
`prioLevel_mono` and `close_of_prioLevel_eq_zero`; no other module unfolds the
division.
-/

namespace Edfomai

/-- `MAXPRIO`. -/
def maxPrio : Nat := 50

/-- `MINPRIO`. -/
def minPrio : Nat := 0

/-! ### `div64_64` -/

/-- The kernel's `fls`: the 1-based index of the highest set bit, `0` for `0`. -/
def fls (x : UInt32) : UInt32 := if x = 0 then 0 else UInt32.ofNat (x.toNat.log2 + 1)

/-- The kernel's `do_div`: the 64-bit dividend over a 32-bit divisor. -/
def doDiv (n : UInt64) (base : UInt32) : UInt64 := n / base.toUInt64

/-- What `div64_64` hands to `do_div`: the operands, both shifted right until the
divisor fits in 32 bits. -/
def doDivArgs (dividend divisor : UInt64) : UInt64 × UInt32 :=
  let high : UInt32 := (divisor >>> 32).toUInt32
  if high ≠ 0 then
    let shift := fls high
    (dividend >>> shift.toUInt64, (divisor >>> shift.toUInt64).toUInt32)
  else
    (dividend, divisor.toUInt32)

/-- `div64_64`. -/
def div64_64 (dividend divisor : UInt64) : UInt64 :=
  let args := doDivArgs dividend divisor
  doDiv args.1 args.2

/-- The number of low bits `div64_64` drops from both operands. -/
def divShift (divisor : UInt64) : Nat := (fls (divisor >>> 32).toUInt32).toNat

theorem fls_toNat {x : UInt32} (h : x ≠ 0) : (fls x).toNat = x.toNat.log2 + 1 := by
  have hx : x.toNat ≠ 0 := fun h0 => h (UInt32.toNat_inj.mp (by simpa using h0))
  have hlog : x.toNat.log2 < 32 := (Nat.log2_lt hx).mpr x.toNat_lt
  rw [fls, if_neg h, UInt32.toNat_ofNat']
  omega

theorem high_toNat (b : UInt64) : (b >>> 32).toUInt32.toNat = b.toNat / 2 ^ 32 := by
  have hb := b.toNat_lt
  have h32 : (32 : UInt64).toNat % 64 = 32 := rfl
  rw [UInt64.toNat_toUInt32, UInt64.toNat_shiftRight, Nat.shiftRight_eq_div_pow, h32]
  omega

/-- A divisor that already fits is not shifted. -/
theorem divShift_of_lt {b : UInt64} (h : b.toNat < 2 ^ 32) : divShift b = 0 := by
  have hz : (b >>> 32).toUInt32 = 0 := by
    apply UInt32.toNat_inj.mp
    rw [high_toNat, Nat.div_eq_of_lt h]
    rfl
  simp [divShift, hz, fls]

/-- A wider divisor is shifted until exactly its 32 leading bits remain. -/
theorem divShift_of_le {b : UInt64} (h : 2 ^ 32 ≤ b.toNat) :
    divShift b ≤ 32 ∧ 2 ^ 31 ≤ b.toNat / 2 ^ divShift b ∧ b.toNat / 2 ^ divShift b < 2 ^ 32 := by
  have hb := b.toNat_lt
  have hpos : 0 < b.toNat / 2 ^ 32 := Nat.div_pos h (by norm_num)
  have hhigh : (b >>> 32).toUInt32 ≠ 0 := fun h0 => by
    have := high_toNat b
    rw [h0] at this
    simp at this
    omega
  have hs : divShift b = (b.toNat / 2 ^ 32).log2 + 1 := by
    rw [divShift, fls_toNat hhigh, high_toNat]
  have hne : b.toNat / 2 ^ 32 ≠ 0 := by omega
  have hle : (b.toNat / 2 ^ 32).log2 < 32 := (Nat.log2_lt hne).mpr (by omega)
  have hlo : 2 ^ (b.toNat / 2 ^ 32).log2 ≤ b.toNat / 2 ^ 32 := Nat.log2_self_le hne
  have hhi : b.toNat / 2 ^ 32 < 2 ^ ((b.toNat / 2 ^ 32).log2 + 1) := Nat.lt_log2_self
  generalize hL : (b.toNat / 2 ^ 32).log2 = L at *
  rw [hs]
  refine ⟨by omega, ?_, ?_⟩
  · rw [Nat.le_div_iff_mul_le (Nat.two_pow_pos _)]
    calc 2 ^ 31 * 2 ^ (L + 1) = 2 ^ L * 2 ^ 32 := by ring
      _ ≤ b.toNat := (Nat.le_div_iff_mul_le (by norm_num)).mp hlo
  · rw [Nat.div_lt_iff_lt_mul (Nat.two_pow_pos _)]
    calc b.toNat < 2 ^ (L + 1) * 2 ^ 32 := (Nat.div_lt_iff_lt_mul (by norm_num)).mp hhi
      _ = 2 ^ 32 * 2 ^ (L + 1) := by ring

theorem divShift_lt (b : UInt64) : divShift b < 64 := by
  by_cases h : b.toNat < 2 ^ 32
  · simp [divShift_of_lt h]
  · have := (divShift_of_le (Nat.le_of_not_lt h)).1
    omega

theorem shortened_lt (b : UInt64) : b.toNat / 2 ^ divShift b < 2 ^ 32 := by
  by_cases h : b.toNat < 2 ^ 32
  · simpa [divShift_of_lt h] using h
  · exact (divShift_of_le (Nat.le_of_not_lt h)).2.2

/-- Both branches of `div64_64` are one shift by `divShift`. -/
theorem doDivArgs_toNat (a b : UInt64) :
    (doDivArgs a b).1.toNat = a.toNat / 2 ^ divShift b ∧
      (doDivArgs a b).2.toNat = b.toNat / 2 ^ divShift b := by
  have hs := divShift_lt b
  have hd := shortened_lt b
  unfold doDivArgs
  dsimp only
  split
  · have hmod : (fls (b >>> 32).toUInt32).toUInt64.toNat % 64 = divShift b := by
      rw [UInt32.toNat_toUInt64]
      exact Nat.mod_eq_of_lt hs
    simp only [UInt64.toNat_toUInt32, UInt64.toNat_shiftRight, hmod,
      Nat.shiftRight_eq_div_pow]
    exact ⟨trivial, Nat.mod_eq_of_lt hd⟩
  · next hhigh =>
    have hz : divShift b = 0 := by
      simp only [ne_eq, not_not] at hhigh
      simp [divShift, hhigh, fls]
    rw [hz] at hd ⊢
    simp only [pow_zero, Nat.div_one] at hd ⊢
    exact ⟨trivial, by rw [UInt64.toNat_toUInt32]; exact Nat.mod_eq_of_lt hd⟩

theorem div64_64_toNat (a b : UInt64) :
    (div64_64 a b).toNat = ShiftDiv.quot (divShift b) a.toNat b.toNat := by
  obtain ⟨h1, h2⟩ := doDivArgs_toNat a b
  simp only [div64_64, doDiv, UInt64.toNat_div, UInt32.toNat_toUInt64, h1, h2, ShiftDiv.quot]

/-- The shortened divisor is never `0` unless the divisor itself is. -/
theorem shortened_pos {b : UInt64} (h : b ≠ 0) : 0 < b.toNat / 2 ^ divShift b := by
  by_cases hlt : b.toNat < 2 ^ 32
  · rw [divShift_of_lt hlt]
    have : b.toNat ≠ 0 := fun h0 => h (UInt64.toNat_inj.mp (by simpa using h0))
    simp only [pow_zero, Nat.div_one]
    omega
  · have := (divShift_of_le (Nat.le_of_not_lt hlt)).2.1
    omega

/-- How `div64_64` compares with the exact quotient. -/
structure DivAccurate (dividend divisor : UInt64) : Prop where
  /-- `do_div` is not asked to divide by zero. -/
  divides : (doDivArgs dividend divisor).2 ≠ 0
  /-- The quotient is exact for a divisor of 32 bits … -/
  narrow : divisor.toNat < 2 ^ 32 →
    (div64_64 dividend divisor).toNat = dividend.toNat / divisor.toNat
  /-- … and at most one too large for a wider one. -/
  wide : 2 ^ 32 ≤ divisor.toNat →
    (div64_64 dividend divisor).toNat = dividend.toNat / divisor.toNat ∨
      (div64_64 dividend divisor).toNat = dividend.toNat / divisor.toNat + 1

/-- **`div64_64` is off by one at most.** -/
theorem div64_64_accurate {a b : UInt64} (hb : b ≠ 0) : DivAccurate a b := by
  have hpos := shortened_pos hb
  constructor
  case divides =>
    intro h0
    have hdivisor := (doDivArgs_toNat a b).2
    rw [h0, UInt32.toNat_zero] at hdivisor
    omega
  case narrow =>
    intro hlt
    rw [div64_64_toNat, divShift_of_lt hlt, ShiftDiv.quot_zero_shift]
  case wide =>
    intro hle
    obtain ⟨hshift, hlead, hshort⟩ := divShift_of_le hle
    have hs : 0 < divShift b := by
      refine Nat.pos_of_ne_zero fun h0 => ?_
      rw [h0, pow_zero, Nat.div_one] at hshort
      omega
    have hlo : a.toNat / b.toNat ≤ (div64_64 a b).toNat := by
      rw [div64_64_toNat]
      exact ShiftDiv.div_le_quot hpos
    have hhi : (div64_64 a b).toNat ≤ a.toNat / b.toNat + 1 := by
      rw [div64_64_toNat]
      exact ShiftDiv.quot_le_succ_of_leading hs hshift a.toNat_lt hlead
    omega

/-- A divisor just above 32 bits, where the quotient is one too large. -/
theorem div64_64_accurate_tight : DivAccurate 0xfffffffffffffffe 0x100000001 :=
  div64_64_accurate (by decide)

example : (div64_64 0xfffffffffffffffe 0x100000001).toNat =
    0xfffffffffffffffe / 0x100000001 + 1 := by decide +kernel

/-! ### `_calculate_prio` -/

/-- `a` in `_calculate_prio`. -/
def prioDividend (remain minRemain : UInt64) : UInt64 :=
  (remain - minRemain) * UInt64.ofNat (maxPrio - minPrio)

/-- `b` in `_calculate_prio`. -/
def prioDivisor (remain minRemain maxRemain : UInt64) : UInt64 :=
  if maxRemain - minRemain = 0 then (if remain ≠ 0 then remain else 1) else maxRemain - minRemain

/-- `_calculate_prio`: `MAXPRIO` for the smallest remaining time, `MINPRIO` for
the largest. -/
def calculatePrio (remain minRemain maxRemain : UInt64) : Int32 :=
  let a := prioDividend remain minRemain
  let b := prioDivisor remain minRemain maxRemain
  let r := div64_64 a b
  Int32.ofNat maxPrio - r.toUInt32.toInt32

/-- The number of levels below `MAXPRIO` at which `_calculate_prio` puts a
remaining time. -/
def prioLevel (remain minRemain maxRemain : UInt64) : Nat :=
  (div64_64 (prioDividend remain minRemain) (prioDivisor remain minRemain maxRemain)).toNat

theorem prioDivisor_ne_zero (remain minRemain maxRemain : UInt64) :
    prioDivisor remain minRemain maxRemain ≠ 0 := by
  unfold prioDivisor
  split
  · split
    · assumption
    · decide
  · assumption

theorem prioDividend_toNat {remain minRemain : UInt64} (h : minRemain ≤ remain) :
    (prioDividend remain minRemain).toNat =
      (remain.toNat - minRemain.toNat) * 50 % 2 ^ 64 := by
  rw [prioDividend, UInt64.toNat_mul, UInt64.toNat_sub_of_le _ _ h]
  rfl

theorem prioDivisor_toNat {remain minRemain maxRemain : UInt64} (h : minRemain < maxRemain) :
    (prioDivisor remain minRemain maxRemain).toNat = maxRemain.toNat - minRemain.toNat := by
  have hsub : (maxRemain - minRemain).toNat = maxRemain.toNat - minRemain.toNat :=
    UInt64.toNat_sub_of_le _ _ (UInt64.le_of_lt h)
  have hlt : minRemain.toNat < maxRemain.toNat := UInt64.lt_iff_toNat_lt.mp h
  have hne : maxRemain - minRemain ≠ 0 := fun h0 => by
    rw [h0] at hsub
    simp at hsub
    omega
  rw [prioDivisor, if_neg hne, hsub]

@[simp] theorem prioLevel_min (minRemain maxRemain : UInt64) :
    prioLevel minRemain minRemain maxRemain = 0 := by
  simp [prioLevel, div64_64_toNat, prioDividend]

/-- No remaining time between the extremes lies more than 50 levels down, not
even when the product in `_calculate_prio` wraps. -/
theorem prioLevel_le {remain minRemain maxRemain : UInt64}
    (hmin : minRemain ≤ remain) (hmax : remain ≤ maxRemain) :
    prioLevel remain minRemain maxRemain ≤ maxPrio := by
  rcases eq_or_ne minRemain maxRemain with rfl | hne
  · obtain rfl : remain = minRemain := UInt64.le_antisymm hmax hmin
    simp
  have hlt : minRemain < maxRemain :=
    UInt64.lt_of_le_of_ne (UInt64.le_trans hmin hmax) hne
  have hle := UInt64.le_iff_toNat_le.mp hmax
  have hbound : (prioDividend remain minRemain).toNat
      ≤ 50 * (prioDivisor remain minRemain maxRemain).toNat := by
    rw [prioDividend_toNat hmin, prioDivisor_toNat hlt]
    exact le_trans (Nat.mod_le _ _) (by omega)
  rw [prioLevel, div64_64_toNat]
  generalize prioDivisor remain minRemain maxRemain = b at *
  by_cases hb : b.toNat < 2 ^ 32
  · rw [divShift_of_lt hb, ShiftDiv.quot_zero_shift]
    exact Nat.div_le_of_le_mul (by rwa [Nat.mul_comm] at hbound)
  · have hshort := (divShift_of_le (Nat.le_of_not_lt hb)).2.1
    exact ShiftDiv.quot_le_of_le_mul hbound (le_trans (by decide) hshort)

/-- The product of `_calculate_prio` fits in 64 bits. -/
def NoWrap (spread : Nat) : Prop := spread * 50 < 2 ^ 64

instance (spread : Nat) : Decidable (NoWrap spread) := by unfold NoWrap; infer_instance

/-- While the product does not wrap, the scale is monotone: more remaining time
never means a higher priority. -/
theorem prioLevel_mono {r₁ r₂ minRemain maxRemain : UInt64} (hmin : minRemain ≤ r₁)
    (h : r₁ ≤ r₂) (hmax : r₂ ≤ maxRemain)
    (hw : NoWrap (maxRemain.toNat - minRemain.toNat)) :
    prioLevel r₁ minRemain maxRemain ≤ prioLevel r₂ minRemain maxRemain := by
  rcases eq_or_ne minRemain maxRemain with rfl | hne
  · obtain rfl : r₁ = minRemain := UInt64.le_antisymm (UInt64.le_trans h hmax) hmin
    simp
  have hlt : minRemain < maxRemain :=
    UInt64.lt_of_le_of_ne (UInt64.le_trans hmin (UInt64.le_trans h hmax)) hne
  have h12 := UInt64.le_iff_toNat_le.mp h
  have h2m := UInt64.le_iff_toNat_le.mp hmax
  have hdiv : prioDivisor r₁ minRemain maxRemain = prioDivisor r₂ minRemain maxRemain :=
    UInt64.toNat_inj.mp (by rw [prioDivisor_toNat hlt, prioDivisor_toNat hlt])
  unfold NoWrap at hw
  rw [prioLevel, prioLevel, div64_64_toNat, div64_64_toNat, hdiv]
  apply ShiftDiv.quot_mono
  rw [prioDividend_toNat hmin, prioDividend_toNat (UInt64.le_trans hmin h),
    Nat.mod_eq_of_lt (by omega), Nat.mod_eq_of_lt (by omega)]
  omega

/-- A remaining time that shares the top level with the smallest one lies within
one fiftieth of the spread of it. -/
theorem close_of_prioLevel_eq_zero {remain minRemain maxRemain : UInt64}
    (hmin : minRemain ≤ remain) (hmax : remain ≤ maxRemain)
    (hw : NoWrap (maxRemain.toNat - minRemain.toNat))
    (h : prioLevel remain minRemain maxRemain = 0) :
    remain = minRemain ∨
      50 * (remain.toNat - minRemain.toNat) < maxRemain.toNat - minRemain.toNat := by
  rcases eq_or_ne minRemain maxRemain with rfl | hne
  · exact Or.inl (UInt64.le_antisymm hmax hmin)
  have hlt : minRemain < maxRemain :=
    UInt64.lt_of_le_of_ne (UInt64.le_trans hmin hmax) hne
  have hle := UInt64.le_iff_toNat_le.mp hmax
  rw [prioLevel, div64_64_toNat] at h
  have hclose := ShiftDiv.lt_of_quot_eq_zero
    (shortened_pos (prioDivisor_ne_zero remain minRemain maxRemain)) h
  unfold NoWrap at hw
  rw [prioDividend_toNat hmin, prioDivisor_toNat hlt, Nat.mod_eq_of_lt (by omega)] at hclose
  exact Or.inr (by omega)

/-- `_calculate_prio` is `MAXPRIO` minus the level; the conversions to `int` lose
nothing. -/
theorem calculatePrio_toInt {remain minRemain maxRemain : UInt64}
    (hmin : minRemain ≤ remain) (hmax : remain ≤ maxRemain) :
    (calculatePrio remain minRemain maxRemain).toInt =
      50 - (prioLevel remain minRemain maxRemain : Int) := by
  have hle := prioLevel_le hmin hmax
  unfold prioLevel at hle ⊢
  simp only [calculatePrio]
  generalize div64_64 _ _ = r at *
  have hall : ∀ n : Fin 51, (Int32.ofNat maxPrio - (UInt64.ofNat n).toUInt32.toInt32).toInt
      = 50 - ((UInt64.ofNat n).toNat : Int) := by decide
  have hr : r = UInt64.ofNat r.toNat := UInt64.ofNat_toNat.symm
  rw [hr]
  exact hall ⟨r.toNat, Nat.lt_succ_of_le hle⟩

@[simp] theorem calculatePrio_min (minRemain maxRemain : UInt64) :
    calculatePrio minRemain minRemain maxRemain = 50 := by
  have hz : div64_64 (prioDividend minRemain minRemain)
      (prioDivisor minRemain minRemain maxRemain) = 0 :=
    UInt64.toNat_inj.mp (prioLevel_min minRemain maxRemain)
  simp only [calculatePrio, hz]
  decide

end Edfomai
