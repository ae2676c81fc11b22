import Mathlib.Data.Int.Log
import Mathlib.Tactic
import Hammertime.Lib.Json

/-!
# Narrowing a fraction to a float

`float` of a fraction is the float nearest to it. The float is written down bit by bit: the exponent is
that of the fraction, or the least one, and the significand is the fraction in units of its last place,
rounded to an integer. Where the rounding carries into the next power of two, the carry of the bits is
the carry into the exponent. No other finite float is nearer, of any exponent and either sign.
-/

namespace Hammertime.Lib

/-! ### The nearest integer -/

/-- The nearest integer, and the even one of two that are as near. -/
def roundHalfEven (q : ℚ) : ℤ :=
  let rest := q - ⌊q⌋
  if rest < 1 / 2 then ⌊q⌋
  else if 1 / 2 < rest then ⌊q⌋ + 1
  else if ⌊q⌋ % 2 = 0 then ⌊q⌋
  else ⌊q⌋ + 1

/-- No integer is nearer. -/
theorem abs_sub_roundHalfEven_le (q : ℚ) (m : ℤ) : |q - roundHalfEven q| ≤ |q - m| := by
  have hlow := Int.floor_le q
  have hhigh := Int.lt_floor_add_one q
  -- An integer is at or below the floor, or above it.
  have hm : q - ⌊q⌋ ≤ |q - m| ∨ ⌊q⌋ + 1 - q ≤ |q - m| := by
    rcases le_or_gt m ⌊q⌋ with hle | hgt
    · left
      have hcast : (m : ℚ) ≤ ⌊q⌋ := Int.cast_le.mpr hle
      exact (by linarith : q - ⌊q⌋ ≤ q - m).trans (le_abs_self _)
    · right
      have hcast : ((⌊q⌋ + 1 : ℤ) : ℚ) ≤ m := Int.cast_le.mpr hgt
      push_cast at hcast
      rw [abs_sub_comm]
      exact (by linarith : (⌊q⌋ : ℚ) + 1 - q ≤ m - q).trans (le_abs_self _)
  have hfloor : |q - ⌊q⌋| = q - ⌊q⌋ := abs_of_nonneg (by linarith)
  have hceil : |q - ((⌊q⌋ + 1 : ℤ) : ℚ)| = ⌊q⌋ + 1 - q := by
    push_cast
    rw [abs_of_nonpos (by linarith)]
    ring
  unfold roundHalfEven
  dsimp only
  split_ifs
  · rw [hfloor]
    rcases hm with hm | hm <;> linarith
  · rw [hceil]
    rcases hm with hm | hm <;> linarith
  · rw [hfloor]
    rcases hm with hm | hm <;> linarith
  · rw [hceil]
    rcases hm with hm | hm <;> linarith

theorem le_roundHalfEven {q : ℚ} {n : ℤ} (h : n ≤ q) : n ≤ roundHalfEven q := by
  by_contra hlt
  have hcast : ((roundHalfEven q + 1 : ℤ) : ℚ) ≤ n := Int.cast_le.mpr (not_le.mp hlt)
  push_cast at hcast
  have hnear := abs_sub_roundHalfEven_le q n
  rw [abs_of_nonneg (by linarith), abs_of_nonneg (by linarith)] at hnear
  linarith

theorem roundHalfEven_le {q : ℚ} {n : ℤ} (h : q ≤ n) : roundHalfEven q ≤ n := by
  by_contra hlt
  have hcast : ((n + 1 : ℤ) : ℚ) ≤ roundHalfEven q := Int.cast_le.mpr (not_le.mp hlt)
  push_cast at hcast
  have hnear := abs_sub_roundHalfEven_le q n
  rw [abs_of_nonpos (by linarith), abs_of_nonpos (by linarith)] at hnear
  linarith

/-! ### Floats by their units -/

namespace Float64

/-- The float of so many units of an exponent, the units carrying into the exponent. -/
def ofUnits (k units : ℕ) : Float64 := ⟨BitVec.ofNat 64 (k * 2 ^ 52 + units)⟩

/-- It is the number that it should be, unless the units are too few for the exponent. -/
theorem ofUnits_spec {k units : ℕ} (hk : k ≤ 2044) (hunits : units ≤ 2 ^ 53)
    (hnormal : k = 0 ∨ 2 ^ 52 ≤ units) :
    (ofUnits k units).isFinite = true ∧
      (ofUnits k units).value = units * (2 : ℚ) ^ ((k : ℤ) - 1074) := by
  have hbits : (ofUnits k units).bits.toNat = k * 2 ^ 52 + units := by
    unfold ofUnits
    rw [BitVec.toNat_ofNat]
    exact Nat.mod_eq_of_lt (by omega)
  have hmsb : (ofUnits k units).bits.msb = false := by
    rw [BitVec.msb_eq_decide, decide_eq_false_iff_not, hbits]
    omega
  unfold isFinite value
  rw [hmsb, if_neg Bool.false_ne_true]
  have hdouble : ∀ n : ℤ, (2 : ℚ) ^ (n + 1) = 2 * 2 ^ n := by
    intro n
    rw [zpow_add_one₀ two_ne_zero, mul_comm]
  rcases Nat.lt_or_ge units (2 ^ 52) with hsmall | hlarge
  · -- A subnormal float.
    have hzero : k = 0 := hnormal.resolve_right (not_le.mpr hsmall)
    have hexponent : (ofUnits k units).exponent = 0 := by
      unfold exponent
      rw [hbits]
      omega
    have hsignificand : (ofUnits k units).significand = units := by
      unfold significand
      rw [hbits]
      omega
    rw [hexponent, hsignificand, hzero, if_pos rfl]
    exact ⟨by decide, rfl⟩
  · rcases Nat.lt_or_ge units (2 ^ 53) with hbelow | hcarry
    · have hexponent : (ofUnits k units).exponent = k + 1 := by
        unfold exponent
        rw [hbits]
        omega
      have hsignificand : (ofUnits k units).significand = units - 2 ^ 52 := by
        unfold significand
        rw [hbits]
        omega
      rw [hexponent, hsignificand, if_neg (Nat.succ_ne_zero k)]
      refine ⟨decide_eq_true (by omega), ?_⟩
      have hshift : ((k + 1 : ℕ) : ℤ) - 1075 = k - 1074 := by
        push_cast
        ring
      rw [hshift, Nat.cast_sub hlarge]
      push_cast
      ring
    · -- The carry.
      have hunits' : units = 2 ^ 53 := le_antisymm hunits hcarry
      have hexponent : (ofUnits k units).exponent = k + 2 := by
        unfold exponent
        rw [hbits]
        omega
      have hsignificand : (ofUnits k units).significand = 0 := by
        unfold significand
        rw [hbits]
        omega
      rw [hexponent, hsignificand, if_neg (Nat.succ_ne_zero _), hunits']
      refine ⟨decide_eq_true (by omega), ?_⟩
      push_cast
      have hshift : (k : ℤ) + 2 - 1075 = k - 1074 + 1 := by ring
      rw [hshift, hdouble]
      ring

/-- A float is so many units of an exponent, of either sign. -/
theorem exists_units (f : Float64) : ∃ k units : ℕ,
    units < 2 ^ 53 ∧ |f.value| = units * (2 : ℚ) ^ ((k : ℤ) - 1074) := by
  have hsign : |f.value| = if f.exponent = 0 then f.significand * (2 : ℚ) ^ (-1074 : ℤ)
      else (2 ^ 52 + f.significand) * (2 : ℚ) ^ ((f.exponent : ℤ) - 1075) := by
    have hmagnitude : (0 : ℚ) ≤ if f.exponent = 0 then f.significand * (2 : ℚ) ^ (-1074 : ℤ)
        else (2 ^ 52 + f.significand) * (2 : ℚ) ^ ((f.exponent : ℤ) - 1075) := by
      split_ifs <;> positivity
    unfold value
    dsimp only
    split_ifs at hmagnitude ⊢ <;> simp only [abs_neg, abs_of_nonneg hmagnitude]
  have hsignificand : f.significand < 2 ^ 52 := Nat.mod_lt _ (by norm_num)
  rw [hsign]
  split_ifs with hzero
  · exact ⟨0, f.significand, by omega, rfl⟩
  · refine ⟨f.exponent - 1, 2 ^ 52 + f.significand, by omega, ?_⟩
    have hshift : ((f.exponent - 1 : ℕ) : ℤ) - 1074 = f.exponent - 1075 := by
      have hpos : 1 ≤ f.exponent := Nat.one_le_iff_ne_zero.mpr hzero
      push_cast [hpos]
      ring
    rw [hshift]
    push_cast
    rfl

end Float64

/-! ### The nearest float -/

/-- `float` of a fraction that is not negative, below the largest float. -/
def floatOfFraction (q : ℚ) : Float64 :=
  if q = 0 then .zero
  else
    let exponent := max (Int.log 2 q) (-1022)
    .ofUnits (exponent + 1022).toNat (roundHalfEven (q / 2 ^ (exponent - 52))).toNat

/-- A float that is as near to a fraction as any finite one. -/
structure NearestFloat (q : ℚ) (f : Float64) : Prop where
  finite : f.isFinite = true
  nearest : ∀ g : Float64, g.isFinite = true → |f.value - q| ≤ |g.value - q|

theorem nearestFloat_zero : NearestFloat 0 .zero := by
  have hzero : Float64.zero.value = 0 := by decide +kernel
  refine ⟨by decide, fun g _ => ?_⟩
  rw [hzero, sub_zero, abs_zero]
  exact abs_nonneg _

/-- **`float` of a fraction is the nearest float.** -/
theorem nearestFloat_floatOfFraction {q : ℚ} (h0 : 0 ≤ q) (h1 : q < 2 ^ (1022 : ℤ)) :
    NearestFloat q (floatOfFraction q) := by
  unfold floatOfFraction
  split_ifs with hq
  · rw [hq]
    exact nearestFloat_zero
  have hpos : 0 < q := lt_of_le_of_ne h0 (Ne.symm hq)
  dsimp only
  generalize hexponent : max (Int.log 2 q) (-1022) = e
  have htwo : (1 : ℕ) < 2 := one_lt_two
  have hlog : Int.log 2 q < 1022 := (Int.lt_zpow_iff_log_lt htwo hpos).mp (by exact_mod_cast h1)
  have he : -1022 ≤ e ∧ e ≤ 1021 := by omega
  obtain ⟨k, hk⟩ := Int.eq_ofNat_of_zero_le (by omega : 0 ≤ e + 1022)
  have hunit : (0 : ℚ) < 2 ^ (e - 52) := zpow_pos two_pos _
  have hpow : ∀ n : ℕ, (2 : ℚ) ^ n * 2 ^ (e - 52) = 2 ^ (e - 52 + n) := by
    intro n
    rw [zpow_add₀ two_ne_zero, zpow_natCast, mul_comm]
  -- The units are below the next power of two, and not too few.
  have hbelow : q < 2 ^ (53 : ℕ) * 2 ^ (e - 52) := by
    have hlt := Int.lt_zpow_succ_log_self (R := ℚ) htwo q
    rw [hpow]
    refine (by exact_mod_cast hlt : q < (2 : ℚ) ^ (Int.log 2 q + 1)).trans_le ?_
    exact zpow_le_zpow_right₀ one_le_two (by push_cast; omega)
  have habove : e = -1022 ∨ 2 ^ (52 : ℕ) * 2 ^ (e - 52) ≤ q := by
    rcases le_or_gt (Int.log 2 q) (-1022) with hlow | hhigh
    · exact .inl (by omega)
    · right
      have hle := Int.zpow_log_le_self (R := ℚ) htwo hpos
      have hsame : e - 52 + (52 : ℕ) = Int.log 2 q := by
        push_cast
        omega
      rw [hpow, hsame]
      exact_mod_cast hle
  have hunits : 0 ≤ roundHalfEven (q / 2 ^ (e - 52)) :=
    le_roundHalfEven (by rw [Int.cast_zero]; positivity)
  have hunitsLe : roundHalfEven (q / 2 ^ (e - 52)) ≤ 2 ^ 53 := by
    refine roundHalfEven_le ?_
    rw [div_le_iff₀ hunit]
    push_cast
    exact hbelow.le
  have hunitsGe : e = -1022 ∨ 2 ^ 52 ≤ roundHalfEven (q / 2 ^ (e - 52)) := by
    refine habove.imp id fun h => le_roundHalfEven ?_
    rw [le_div_iff₀ hunit]
    push_cast
    exact h
  obtain ⟨units, hround⟩ := Int.eq_ofNat_of_zero_le hunits
  obtain ⟨hfinite, hvalue⟩ := Float64.ofUnits_spec (by omega : k ≤ 2044)
    (by exact_mod_cast hround ▸ hunitsLe : units ≤ 2 ^ 53)
    (hunitsGe.imp (fun h => by omega) fun h => by exact_mod_cast hround ▸ h)
  have hplace : (k : ℤ) - 1074 = e - 52 := by omega
  rw [hplace] at hvalue
  have hkNat : (e + 1022).toNat = k := by rw [hk]; rfl
  have hunitsNat : (roundHalfEven (q / 2 ^ (e - 52))).toNat = units := by rw [hround]; rfl
  rw [hkNat, hunitsNat]
  -- No multiple of the unit is nearer.
  have hmultiple : ∀ m : ℤ, |(Float64.ofUnits k units).value - q| ≤ |m * 2 ^ (e - 52) - q| := by
    intro m
    have hnear := abs_sub_roundHalfEven_le (q / 2 ^ (e - 52)) m
    have hscale : ∀ n : ℚ, |n * 2 ^ (e - 52) - q| = |q / 2 ^ (e - 52) - n| * 2 ^ (e - 52) := by
      intro n
      rw [← abs_of_pos hunit, ← abs_mul, abs_of_pos hunit, sub_mul, div_mul_cancel₀ _ hunit.ne',
        abs_sub_comm]
    rw [hround] at hnear
    rw [hvalue, hscale, hscale]
    exact mul_le_mul_of_nonneg_right (by exact_mod_cast hnear) hunit.le
  refine ⟨hfinite, fun g _ => ?_⟩
  rcases le_or_gt g.value 0 with hneg | hgpos
  · -- Zero is at least as near as what is negative.
    have hzero := hmultiple 0
    rw [Int.cast_zero, zero_mul] at hzero
    refine hzero.trans ?_
    rw [abs_of_nonpos (by linarith), abs_of_nonpos (by linarith)]
    linarith
  obtain ⟨k', units', hunits', hg'⟩ := Float64.exists_units g
  rw [abs_of_pos hgpos] at hg'
  rcases Nat.lt_or_ge k' k with hlt | hge
  · -- A float of a smaller exponent is below the least one of this exponent, and that below `q`.
    have hleast : 2 ^ (52 : ℕ) * 2 ^ (e - 52) ≤ q := habove.resolve_left (by omega)
    have hsmall : g.value ≤ 2 ^ (52 : ℕ) * 2 ^ (e - 52) := by
      have hle : (units' : ℚ) ≤ 2 ^ (53 : ℕ) := by exact_mod_cast hunits'.le
      rw [hg', hpow]
      refine (mul_le_mul_of_nonneg_right hle (by positivity)).trans ?_
      rw [← zpow_natCast, ← zpow_add₀ two_ne_zero]
      exact zpow_le_zpow_right₀ one_le_two (by push_cast; omega)
    have hat := hmultiple (2 ^ 52)
    push_cast at hat
    refine hat.trans ?_
    rw [abs_of_nonpos (by linarith), abs_of_nonpos (by linarith)]
    linarith
  · -- A float of a larger exponent is a multiple of the unit.
    have hmul : g.value = ((units' * 2 ^ (k' - k) : ℕ) : ℤ) * 2 ^ (e - 52) := by
      have hsplit : (k' : ℤ) - 1074 = e - 52 + (k' - k : ℕ) := by omega
      rw [hg', hsplit, ← hpow]
      push_cast
      ring
    rw [hmul]
    exact hmultiple _

namespace NearestFloat

variable {q : ℚ} {f : Float64}

/-- A finite float that the fraction does not exceed is not exceeded. -/
theorem value_le (h : NearestFloat q f) {g : Float64} (hg : g.isFinite = true) (hq : q ≤ g.value) :
    f.value ≤ g.value := by
  by_contra hlt
  have hnear := h.nearest g hg
  rw [abs_of_nonneg (by linarith), abs_of_nonneg (by linarith)] at hnear
  linarith

theorem le_value (h : NearestFloat q f) {g : Float64} (hg : g.isFinite = true) (hq : g.value ≤ q) :
    g.value ≤ f.value := by
  by_contra hlt
  have hnear := h.nearest g hg
  rw [abs_of_nonpos (by linarith), abs_of_nonpos (by linarith)] at hnear
  linarith

/-- A fraction that is the value of a float is narrowed without loss. -/
theorem exact (h : NearestFloat q f) {g : Float64} (hg : g.isFinite = true) (hq : g.value = q) :
    f.value = q :=
  le_antisymm (hq ▸ h.value_le hg hq.ge) (hq ▸ h.le_value hg hq.le)

end NearestFloat

end Hammertime.Lib
