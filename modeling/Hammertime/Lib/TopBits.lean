import Mathlib.Data.Int.Bitwise
import Mathlib.Data.Nat.Size
import Mathlib.Tactic

/-!
# The leading bits of fixed-width numbers

A `w`-bit number is read from its most significant bit. `top w l v` is the number that its first `l`
bits spell, and `cleared w l v` keeps those bits and zeroes the rest. Two numbers share a prefix of
length `l` exactly when their `top`s agree, and everything here is said in those terms: prefixes of a
shared prefix are shared, one more bit is a doubling, and the order of numbers is the order of
their tops wherever these differ. Integers enter through `residue w`, the low `w` bits of a number in
two's complement, which is all that a masked operation sees of it.
-/

namespace Hammertime.Bits

/-- The first `l` bits of the `w`-bit number `v`, as a number. -/
def top (w l v : ℕ) : ℕ := v / 2^(w - l)

/-- The `w`-bit number `v` with all but its first `l` bits zeroed. -/
def cleared (w l v : ℕ) : ℕ := v / 2^(w - l) * 2^(w - l)

/-- The low `w` bits of an integer, in two's complement. -/
def residue (w : ℕ) (n : ℤ) : ℕ := (n % 2^w).toNat

section Top

variable {w k l u v : ℕ}

/-- All `w` bits of a number are the number. -/
@[simp]
theorem top_self (w v : ℕ) : top w w v = v := by simp [top]

/-- A `w`-bit number has nothing above its first bit. -/
theorem top_zero (h : v < 2^w) : top w 0 v = 0 := by
  simpa [top] using Nat.div_eq_of_lt h

/-- The first `k` bits are the first `k` of the first `l`. -/
theorem top_top (hk : k ≤ l) (hl : l ≤ w) (v : ℕ) : top l k (top w l v) = top w k v := by
  unfold top
  rw [Nat.div_div_eq_div_mul, ← pow_add]
  congr 2
  omega

/-- Numbers that share `l` bits share every shorter prefix. -/
theorem top_eq_of_le (hk : k ≤ l) (hl : l ≤ w) (h : top w l u = top w l v) :
    top w k u = top w k v := by
  rw [← top_top hk hl u, ← top_top hk hl v, h]

/-- One more bit doubles the number, and adds the bit. -/
theorem top_succ (hl : l < w) (v : ℕ) : top w (l + 1) v = 2 * top w l v + top w (l + 1) v % 2 := by
  have h : top w (l + 1) v / 2 = top w l v := by
    unfold top
    rw [Nat.div_div_eq_div_mul, ← pow_succ]
    congr 2
    omega
  omega

/-- A smaller prefix is a smaller number. -/
theorem lt_of_top_lt (h : top w l u < top w l v) : u < v := by
  by_contra hle
  exact absurd (Nat.div_le_div_right (not_lt.mp hle)) (not_le.mpr h)

/-- Zeroing the rest keeps the first `l` bits. -/
@[simp]
theorem top_cleared (w l v : ℕ) : top w l (cleared w l v) = top w l v := by
  simp [top, cleared]

/-- Zeroing the rest keeps every prefix of the bits that are kept. -/
theorem top_cleared_of_le (hk : k ≤ l) (hl : l ≤ w) (v : ℕ) :
    top w k (cleared w l v) = top w k v :=
  top_eq_of_le hk hl (top_cleared w l v)

/-- All `w` bits kept are the number. -/
@[simp]
theorem cleared_self (w v : ℕ) : cleared w w v = v := by simp [cleared]

/-- Zeroing bits does not raise a number. -/
theorem cleared_le (w l v : ℕ) : cleared w l v ≤ v := Nat.div_mul_le_self _ _

/-- Two numbers agree once cleared exactly when they share the bits that are kept. -/
theorem cleared_eq_iff : cleared w l u = cleared w l v ↔ top w l u = top w l v := by
  constructor
  · intro h
    rw [← top_cleared w l u, h, top_cleared]
  · intro h
    unfold cleared
    unfold top at h
    rw [h]

/-- Clearing twice keeps the shorter prefix. -/
theorem cleared_cleared (hk : k ≤ l) (hl : l ≤ w) (v : ℕ) :
    cleared w k (cleared w l v) = cleared w k v :=
  cleared_eq_iff.2 (top_cleared_of_le hk hl v)

/-- Keeping more bits does not lower a number. -/
theorem cleared_mono (hk : k ≤ l) (hl : l ≤ w) (v : ℕ) : cleared w k v ≤ cleared w l v := by
  rw [← cleared_cleared hk hl v]
  exact cleared_le w k _

/-- A cleared number has nothing below the bits that it keeps. -/
theorem cleared_mod (w l v : ℕ) : cleared w l v % 2^(w - l) = 0 := by simp [cleared]

/-- A number with nothing below its first `l` bits is its own clearing. -/
theorem cleared_of_mod (h : v % 2^(w - l) = 0) : cleared w l v = v := by
  have := Nat.div_add_mod v (2^(w - l))
  unfold cleared
  rw [mul_comm]
  omega

/-- Two numbers share `l` bits exactly when they agree on every bit position at or above
`w - l`. -/
theorem top_eq_iff_testBit (hu : u < 2^w) (hv : v < 2^w) :
    top w l u = top w l v ↔ ∀ i, w - l ≤ i → i < w → u.testBit i = v.testBit i := by
  constructor
  · intro h i hi _
    have hbit := congrArg (fun n => n.testBit (i - (w - l))) h
    simpa [top, Nat.testBit_div_two_pow, Nat.sub_add_cancel hi] using hbit
  · intro h
    apply Nat.eq_of_testBit_eq
    intro i
    unfold top
    rw [Nat.testBit_div_two_pow, Nat.testBit_div_two_pow]
    by_cases hi : i + (w - l) < w
    · exact h _ (by omega) hi
    · have hw : 2^w ≤ 2^(i + (w - l)) := Nat.pow_le_pow_right (by norm_num) (by omega)
      rw [Nat.testBit_lt_two_pow (by omega), Nat.testBit_lt_two_pow (by omega)]

end Top

section Residue

variable {w : ℕ}

/-- A residue has `w` bits. -/
theorem residue_lt (w : ℕ) (n : ℤ) : residue w n < 2^w := by
  have hpos : (0 : ℤ) < 2^w := by positivity
  have h1 := Int.emod_nonneg n hpos.ne'
  have h2 := Int.emod_lt_of_pos n hpos
  unfold residue
  zify
  rw [Int.toNat_of_nonneg h1]
  exact h2

/-- A number of `w` bits is its own residue. -/
theorem residue_natCast {v : ℕ} (h : v < 2^w) : residue w (v : ℤ) = v := by
  unfold residue
  rw [Int.emod_eq_of_lt (by positivity) (by exact_mod_cast h)]
  rfl

/-- The bits of a residue are the integer's low `w` bits. -/
theorem testBit_residue (w : ℕ) (n : ℤ) (i : ℕ) :
    (residue w n).testBit i = (decide (i < w) && n.testBit i) := by
  rcases n with m | m
  · have h : residue w (Int.ofNat m) = m % 2^w := by
      unfold residue
      norm_cast
    rw [h, Nat.testBit_mod_two_pow]
    rfl
  · have hlt : m % 2^w < 2^w := Nat.mod_lt _ (by positivity)
    have h : residue w (Int.negSucc m) = 2^w - (m % 2^w + 1) := by
      unfold residue
      rw [Int.negSucc_emod _ (by positivity)]
      have : ((m : ℤ) % 2^w) = ((m % 2^w : ℕ) : ℤ) := by push_cast; rfl
      have hw : ((2 : ℤ)^w) = ((2^w : ℕ) : ℤ) := by push_cast; rfl
      rw [this, hw]
      omega
    rw [h, Nat.testBit_two_pow_sub_succ hlt, Nat.testBit_mod_two_pow]
    simp only [Int.testBit]
    by_cases hi : i < w <;> simp [hi]

/-- One bit of a residue, read at an index counted from the most significant bit. -/
theorem top_residue_mod_two {i : ℕ} (hi : i < w) (n : ℤ) :
    top w (i + 1) (residue w n) % 2 = (n >>> (w - 1 - i) % 2).toNat := by
  have hpow : (2 : ℤ)^w = 2^(w - 1 - i) * (2 * 2^i) := by
    rw [← pow_succ', ← pow_add]
    congr 1
    omega
  have hr : ((residue w n : ℕ) : ℤ) = n % 2^w :=
    Int.toNat_of_nonneg (Int.emod_nonneg _ (by positivity))
  have he : w - (i + 1) = w - 1 - i := by omega
  have hne : (2 : ℤ)^(w - 1 - i) ≠ 0 := by positivity
  zify
  rw [Int.toNat_of_nonneg (Int.emod_nonneg _ (by norm_num))]
  unfold top
  rw [he, Int.shiftRight_eq_div_pow]
  push_cast
  rw [hr, hpow, Int.emod_def n, mul_assoc]
  -- The quotient that the residue drops is even, so it does not reach the bit.
  rw [Int.sub_mul_ediv_left _ _ hne, mul_assoc, Int.sub_mul_emod_self_left]

end Residue

end Hammertime.Bits
