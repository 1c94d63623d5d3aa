import Edfomai.Lib.Reads
import Mathlib.Tactic.IntervalCases

/-!
# Edfomai.Jenkins

`HASH_JEN` of `datastructures/uthash.h`, which is `HASH_FCN` for the driver. The key is a pointer
and a length here, as it is in the source: `key i` is the byte at offset `i` from the pointer,
`none` where nothing may be read.

Two tasks' names lie in different places, one in its record and one in a buffer that was
allocated for the search, with other bytes after them. That both hash to the same value rests on
`hashJen_reads`: the macro reads the bytes of the key, all of them, and no others.
-/

namespace Edfomai

/-- `_hj_i`, `_hj_j` and `hashv`. -/
structure JenState where
  i : UInt32
  j : UInt32
  hashv : UInt32
  deriving DecidableEq

/-- `HASH_JEN_MIX`. -/
def JenState.mix (s : JenState) : JenState :=
  let a := s.i
  let b := s.j
  let c := s.hashv
  let a := ((a - b) - c) ^^^ (c >>> 13)
  let b := ((b - c) - a) ^^^ (a <<< 8)
  let c := ((c - a) - b) ^^^ (b >>> 13)
  let a := ((a - b) - c) ^^^ (c >>> 12)
  let b := ((b - c) - a) ^^^ (a <<< 16)
  let c := ((c - a) - b) ^^^ (b >>> 5)
  let a := ((a - b) - c) ^^^ (c >>> 3)
  let b := ((b - c) - a) ^^^ (a <<< 10)
  let c := ((c - a) - b) ^^^ (b >>> 15)
  ⟨a, b, c⟩

/-- A `char` as an `unsigned` where `char` is signed, as it is on x86. -/
def signedChar (b : UInt8) : UInt32 := b.toInt8.toInt32.toUInt32

section HashJen

variable (char : UInt8 → UInt32) (key : Nat → Option UInt8)

/-- Four bytes of a block. -/
def hashJenWord (o : Nat) : Option UInt32 := do
  let b₀ ← key o
  let b₁ ← key (o + 1)
  let b₂ ← key (o + 2)
  let b₃ ← key (o + 3)
  some (char b₀ + (char b₁ <<< 8) + (char b₂ <<< 16) + (char b₃ <<< 24))

/-- The body of the loop, with `_hj_key` at offset `o`. -/
def hashJenBlock (o : Nat) (s : JenState) : Option JenState := do
  let i ← hashJenWord char key o
  let j ← hashJenWord char key (o + 4)
  let hashv ← hashJenWord char key (o + 8)
  some (JenState.mix ⟨s.i + i, s.j + j, s.hashv + hashv⟩)

/-- The loop, for at most `n` rounds: the offset of `_hj_key`, `_hj_k` and the variables
afterwards. -/
def hashJenLoop : Nat → Nat → Nat → JenState → Option (Nat × Nat × JenState)
  | 0, o, k, s => if k ≥ 12 then none else some (o, k, s)
  | n + 1, o, k, s =>
      if k ≥ 12 then (hashJenBlock char key o s).bind (hashJenLoop n (o + 12) (k - 12))
      else some (o, k, s)

/-- The statement under a `case` label. -/
def hashJenCase (o : Nat) (label : Nat) (s : JenState) : Option JenState :=
  match label with
  | 11 => (key (o + 10)).map fun b => { s with hashv := s.hashv + (char b <<< 24) }
  | 10 => (key (o + 9)).map fun b => { s with hashv := s.hashv + (char b <<< 16) }
  | 9 => (key (o + 8)).map fun b => { s with hashv := s.hashv + (char b <<< 8) }
  | 8 => (key (o + 7)).map fun b => { s with j := s.j + (char b <<< 24) }
  | 7 => (key (o + 6)).map fun b => { s with j := s.j + (char b <<< 16) }
  | 6 => (key (o + 5)).map fun b => { s with j := s.j + (char b <<< 8) }
  | 5 => (key (o + 4)).map fun b => { s with j := s.j + char b }
  | 4 => (key (o + 3)).map fun b => { s with i := s.i + (char b <<< 24) }
  | 3 => (key (o + 2)).map fun b => { s with i := s.i + (char b <<< 16) }
  | 2 => (key (o + 1)).map fun b => { s with i := s.i + (char b <<< 8) }
  | 1 => (key o).map fun b => { s with i := s.i + char b }
  | _ => some s

/-- The switch: no `case` ends in a `break`. -/
def hashJenSwitch (o : Nat) : Nat → JenState → Option JenState
  | 0, s => some s
  | label + 1, s => (hashJenCase char key o (label + 1) s).bind (hashJenSwitch o label)

/-- `HASH_JEN`: the value of `hashv`. -/
def hashJen (keylen : Nat) : Option UInt32 := do
  let (o, k, s) ← hashJenLoop char key keylen 0 (keylen % 2 ^ 32)
    ⟨0x9e3779b9, 0x9e3779b9, 0xfeedbeef⟩
  let s ← hashJenSwitch char key o k { s with hashv := s.hashv + UInt32.ofNat keylen }
  some s.mix.hashv

end HashJen

/-- The value for a key, wherever it lies. -/
def hashJenOf (char : UInt8 → UInt32) (bytes : List UInt8) : UInt32 :=
  (hashJen char (fun i => bytes[i]?) bytes.length).getD 0

/-! ### What is read -/

section Reads

variable (char : UInt8 → UInt32)

theorem hashJenWord_reads (o : Nat) :
    Reads (fun key => hashJenWord char key o) (Set.Ico o (o + 4)) := by
  refine Reads.of_eq (.bind (.cell o) fun _ b₀ _ => .bind (.cell (o + 1)) fun _ b₁ _ =>
    .bind (.cell (o + 2)) fun _ b₂ _ => .bind_some _ (.cell (o + 3))) ?_
  ext i
  simp only [Set.mem_union, Set.mem_singleton_iff, Set.mem_Ico]
  omega

theorem hashJenBlock_reads (o : Nat) (s : JenState) :
    Reads (fun key => hashJenBlock char key o s) (Set.Ico o (o + 12)) := by
  refine Reads.of_eq (.bind (hashJenWord_reads char o) fun _ i _ =>
    .bind (hashJenWord_reads char (o + 4)) fun _ j _ =>
      .bind_some _ (hashJenWord_reads char (o + 8))) ?_
  ext i
  simp only [Set.mem_union, Set.mem_Ico]
  omega

/-- Where the loop ends. -/
theorem hashJenLoop_end {char : UInt8 → UInt32} {key : Nat → Option UInt8} {n o k o' k' : Nat}
    {s s' : JenState} (h : hashJenLoop char key n o k s = some (o', k', s')) :
    o' = o + 12 * (k / 12) ∧ k' = k % 12 := by
  induction n generalizing o k s with
  | zero =>
      rw [hashJenLoop] at h
      split at h
      · cases h
      · cases h
        omega
  | succ n ih =>
      rw [hashJenLoop] at h
      split at h
      · obtain ⟨s₁, -, h⟩ := Option.bind_eq_some_iff.mp h
        have := ih h
        omega
      · cases h
        omega

theorem hashJenLoop_reads {n o k : Nat} (s : JenState) (hn : k ≤ n) :
    Reads (fun key => hashJenLoop char key n o k s) (Set.Ico o (o + 12 * (k / 12))) := by
  induction n generalizing o k s with
  | zero =>
      obtain rfl : k = 0 := by omega
      exact (Reads.pure _).of_eq (by simp)
  | succ n ih =>
      by_cases hk : k ≥ 12
      · simp only [hashJenLoop, if_pos hk]
        refine (Reads.bind (hashJenBlock_reads char o s) fun _ s₁ _ =>
          ih s₁ (o := o + 12) (k := k - 12) (by omega)).of_eq ?_
        ext i
        simp only [Set.mem_union, Set.mem_Ico]
        omega
      · simp only [hashJenLoop, if_neg hk]
        refine (Reads.pure _).of_eq ?_
        rw [show k / 12 = 0 by omega, Nat.mul_zero, Nat.add_zero, Set.Ico_self]

/-- A statement of the switch reads the byte before its label. -/
theorem hashJenCase_reads (o : Nat) {n : Nat} (hn : n < 11) (s : JenState) :
    Reads (fun key => hashJenCase char key o (n + 1) s) {o + n} := by
  interval_cases n <;> exact .map _ (.cell _)

theorem hashJenSwitch_reads (o : Nat) {n : Nat} (hn : n < 12) (s : JenState) :
    Reads (fun key => hashJenSwitch char key o n s) (Set.Ico o (o + n)) := by
  induction n generalizing s with
  | zero => exact (Reads.pure s).of_eq (by simp)
  | succ n ih =>
      refine (Reads.bind (hashJenCase_reads char o (Nat.lt_of_succ_lt_succ hn) s) fun _ s₁ _ =>
        ih (Nat.lt_of_succ_lt hn) s₁).of_eq ?_
      ext i
      simp only [Set.mem_union, Set.mem_singleton_iff, Set.mem_Ico]
      omega

/-- **`HASH_JEN` reads the bytes of the key.** -/
theorem hashJen_reads {keylen : Nat} (hlen : keylen < 2 ^ 32) :
    Reads (fun key => hashJen char key keylen) (Set.Iio keylen) := by
  have hmod : keylen % 2 ^ 32 = keylen := Nat.mod_eq_of_lt hlen
  refine (Reads.bind (hashJenLoop_reads char (o := 0) (k := keylen % 2 ^ 32)
    ⟨0x9e3779b9, 0x9e3779b9, 0xfeedbeef⟩ (Nat.mod_le ..)) (T := Set.Ico (12 * (keylen / 12)) keylen)
    fun key ⟨o, k, s⟩ hloop => ?_).of_eq ?_
  · obtain ⟨rfl, rfl⟩ := hashJenLoop_end hloop
    show Reads (fun key => (hashJenSwitch char key _ _ _).bind fun s => some s.mix.hashv) _
    refine (Reads.bind_some _ (hashJenSwitch_reads char _ (Nat.mod_lt _ (by decide)) _)).of_eq ?_
    rw [hmod, Nat.zero_add, Nat.div_add_mod]
  · ext i
    rw [hmod]
    simp only [Set.mem_union, Set.mem_Ico, Set.mem_Iio]
    omega

end Reads

/-- **The value belongs to the key alone.** Wherever the bytes of a key lie and whatever lies
around them, the macro computes the same value from them; and it needs them all. -/
theorem hashJen_exact (char : UInt8 → UInt32) (key : Nat → Option UInt8) {keylen : Nat}
    (hlen : keylen < 2 ^ 32) :
    (∀ bytes : List UInt8, bytes.length = keylen → (∀ i < keylen, key i = bytes[i]?) →
        hashJen char key keylen = some (hashJenOf char bytes)) ∧
      ((∃ i < keylen, key i = none) → hashJen char key keylen = none) := by
  have hreads := hashJen_reads char hlen
  constructor
  · rintro bytes rfl hkey
    have hall : (hashJen char (fun i => bytes[i]?) bytes.length).isSome :=
      (hreads.isSome _).mpr fun i hi => by simpa using hi
    obtain ⟨v, hv⟩ := Option.isSome_iff_exists.mp hall
    rw [hreads.congr key (fun i => bytes[i]?) hkey, hashJenOf, hv, Option.getD_some]
  · rintro ⟨i, hi, hnone⟩
    by_contra hne
    have hsome := (hreads.isSome key).mp (Option.isSome_iff_ne_none.mpr hne) i hi
    rw [hnone] at hsome
    cases hsome

/-- A name that is longer than one block. -/
def letterKey : List UInt8 := [97, 98, 99, 100, 101, 102, 103, 104, 105, 106, 107, 108, 228, 110]

/-- Its terminator and a byte lie behind it; without its last byte there is no value. -/
theorem hashJen_exact_letter :
    hashJen signedChar (fun i => (letterKey ++ [0, 7])[i]?) 14 =
        some (hashJenOf signedChar letterKey) ∧
      hashJen signedChar (fun i => (letterKey.take 13)[i]?) 14 = none := by
  obtain ⟨hvalue, -⟩ := hashJen_exact signedChar (fun i => (letterKey ++ [0, 7])[i]?)
    (by decide : 14 < 2 ^ 32)
  obtain ⟨-, hnone⟩ := hashJen_exact signedChar (fun i => (letterKey.take 13)[i]?)
    (by decide : 14 < 2 ^ 32)
  exact ⟨hvalue letterKey rfl fun i hi => List.getElem?_append_left hi,
    hnone ⟨13, by decide, rfl⟩⟩

end Edfomai
