import Mathlib.Algebra.Order.Round
import Mathlib.Tactic

/-!
# Rounding to the nearest integer, ties up

`round` of an ordered field is the nearest integer and, of two that are as near, the larger one. It is
monotone. A quotient of integers is rounded without leaving the integers, by adding half of the
divisor, itself rounded down, before the floor division: for an odd divisor the half is short by one
half, but then there is no tie for it to miss.
-/

namespace Hammertime.Lib

variable {K : Type*} [Field K] [LinearOrder K]

/-- `n` is as near to `x` as any integer, and the largest integer that is. -/
structure NearestUp (x : K) (n : ℤ) : Prop where
  nearest : ∀ m : ℤ, |x - n| ≤ |x - m|
  ties : ∀ m : ℤ, |x - m| = |x - n| → m ≤ n

/-- There is one such integer at most. -/
theorem NearestUp.unique {x : K} {m n : ℤ} (hm : NearestUp x m) (hn : NearestUp x n) : m = n := by
  have heq : |x - m| = |x - n| := le_antisymm (hm.nearest n) (hn.nearest m)
  exact le_antisymm (hn.ties m heq) (hm.ties n heq.symm)

variable [IsStrictOrderedRing K] [FloorRing K]

theorem nearestUp_round (x : K) : NearestUp x (round x) := by
  refine ⟨round_le x, fun m hm => ?_⟩
  by_contra hlt
  -- An integer beyond the rounded value is more than one half away.
  have hnext : ((round x + 1 : ℤ) : K) ≤ m := Int.cast_le.mpr (by omega)
  push_cast at hnext
  have hlow := sub_half_lt_round x
  have hfar : 1 / 2 < |x - m| := by
    rw [abs_sub_comm]
    exact lt_of_lt_of_le (by linarith) (le_abs_self _)
  linarith [abs_sub_round x]

theorem round_mono : Monotone (round : K → ℤ) := by
  intro x y h
  rw [round_eq, round_eq]
  exact Int.floor_mono (by linarith)

/-- A quotient of integers is rounded by a floor division, whatever the parity of the divisor. -/
theorem round_intCast_div (a : ℤ) {b : ℤ} (hb : 0 < b) :
    round ((a : K) / b) = (a + b.fdiv 2).fdiv b := by
  have hb' : (0 : K) < b := Int.cast_pos.mpr hb
  rw [Int.fdiv_eq_ediv_of_nonneg _ hb.le, Int.fdiv_eq_ediv_of_nonneg _ (by norm_num)]
  have hlow := Int.mul_ediv_self_le (x := a + b / 2) hb.ne'
  have hhigh := Int.lt_mul_ediv_self_add (x := a + b / 2) hb
  generalize (a + b / 2) / b = n at hlow hhigh
  have hlow2 : (2 * n - 1) * b ≤ 2 * a := by
    have h := Int.mul_ediv_self_le (x := b) (two_ne_zero)
    linarith
  have hhigh2 : 2 * a < (2 * n + 1) * b := by
    have hparity : (2 * n + 1) * b = 2 * (b * n) + b := by ring
    omega
  rw [round_eq_iff]
  constructor
  · rw [le_div_iff₀ hb']
    have h : (((2 * n - 1) * b : ℤ) : K) ≤ ((2 * a : ℤ) : K) := Int.cast_le.mpr hlow2
    push_cast at h
    linarith
  · rw [div_lt_iff₀ hb']
    have h : ((2 * a : ℤ) : K) < (((2 * n + 1) * b : ℤ) : K) := Int.cast_lt.mpr hhigh2
    push_cast at h
    linarith

end Hammertime.Lib
