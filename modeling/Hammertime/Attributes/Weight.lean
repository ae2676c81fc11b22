import Hammertime.Attributes.Document
import Hammertime.Codec.Wire
import Hammertime.Lib.Rounding

/-!
# The weight

`threshold_ratio` of `hammertime.core.state.weight` is the count in thousandths of the threshold,
rounded to the nearest integer with ties up and then clamped. So it is monotone in the count and
antitone in the threshold, and a count at the threshold is at least 1000. What a promotion carries
passes the validation of attribute documents.
-/

namespace Hammertime

open Lib Attributes

/-- A count in thousandths of a threshold. -/
def thousandths (count threshold : ℤ) : ℚ := ((1000 * count : ℤ) : ℚ) / threshold

/-! ### The rounded ratio -/

section

variable {count count' threshold threshold' : ℤ}

theorem thousandths_mono (hpos : 1 ≤ threshold) (h : count ≤ count') :
    thousandths count threshold ≤ thousandths count' threshold := by
  have hthreshold : (0 : ℚ) ≤ threshold := Int.cast_nonneg (by omega)
  have hcount : ((1000 * count : ℤ) : ℚ) ≤ ((1000 * count' : ℤ) : ℚ) := Int.cast_le.mpr (by omega)
  exact div_le_div_of_nonneg_right hcount hthreshold

/-- A higher threshold lowers the ratio. -/
theorem thousandths_anti (hcount : 0 ≤ count) (hpos : 1 ≤ threshold) (h : threshold ≤ threshold') :
    thousandths count threshold' ≤ thousandths count threshold := by
  have hthreshold : (0 : ℚ) < threshold := Int.cast_pos.mpr (by omega)
  have hnonneg : (0 : ℚ) ≤ ((1000 * count : ℤ) : ℚ) := Int.cast_nonneg (by omega)
  exact div_le_div_of_nonneg_left hnonneg hthreshold (Int.cast_le.mpr h)

theorem thousandths_self (hpos : 1 ≤ threshold) : thousandths threshold threshold = 1000 := by
  have hthreshold : (threshold : ℚ) ≠ 0 := Int.cast_ne_zero.mpr (by omega)
  unfold thousandths
  push_cast
  exact mul_div_cancel_right₀ _ hthreshold

theorem round_thousandths_nonneg (hcount : 0 ≤ count) (hpos : 1 ≤ threshold) :
    0 ≤ round (thousandths count threshold) := by
  have hzero : thousandths 0 threshold = 0 := by
    unfold thousandths
    rw [mul_zero, Int.cast_zero, zero_div]
  calc (0 : ℤ) = round (thousandths 0 threshold) := by rw [hzero, round_zero]
    _ ≤ round (thousandths count threshold) := round_mono (thousandths_mono hpos hcount)

/-- From the threshold on the ratio is at least 1000. -/
theorem le_round_thousandths (hpos : 1 ≤ threshold) (h : threshold ≤ count) :
    1000 ≤ round (thousandths count threshold) := by
  calc (1000 : ℤ) = round (thousandths threshold threshold) := by
        rw [thousandths_self hpos, round_ofNat]
    _ ≤ round (thousandths count threshold) := round_mono (thousandths_mono hpos h)

end

/-! ### The weight -/

section

variable {config config' : DetectionConfig} {count count' : ℤ}

/-- The weight is the rounded ratio, clamped from above. -/
theorem thresholdRatio_eq (hhot : 1 ≤ config.hotThreshold) (hcount : 0 ≤ count) :
    thresholdRatio count config =
      .ok (min (round (thousandths count config.hotThreshold)) config.weightMax) := by
  have hround : round (thousandths count config.hotThreshold) =
      (1000 * count + config.hotThreshold.fdiv 2).fdiv config.hotThreshold :=
    round_intCast_div (1000 * count) (by omega)
  unfold thresholdRatio
  rw [if_neg (by omega), ← hround]
  dsimp only
  rw [max_eq_left (round_thousandths_nonneg hcount hhot)]

theorem thresholdRatio_mono (hhot : 1 ≤ config.hotThreshold) (hcount : 0 ≤ count)
    (h : count ≤ count') {weight weight' : ℤ} (hw : thresholdRatio count config = .ok weight)
    (hw' : thresholdRatio count' config = .ok weight') : weight ≤ weight' := by
  rw [thresholdRatio_eq hhot hcount] at hw
  rw [thresholdRatio_eq hhot (hcount.trans h)] at hw'
  cases hw
  cases hw'
  exact min_le_min_right _ (round_mono (thousandths_mono hhot h))

theorem thresholdRatio_anti (hhot : 1 ≤ config.hotThreshold) (hcount : 0 ≤ count)
    (h : config.hotThreshold ≤ config'.hotThreshold) (hmax : config'.weightMax = config.weightMax)
    {weight weight' : ℤ} (hw : thresholdRatio count config = .ok weight)
    (hw' : thresholdRatio count config' = .ok weight') : weight' ≤ weight := by
  rw [thresholdRatio_eq hhot hcount] at hw
  rw [thresholdRatio_eq (hhot.trans h) hcount, hmax] at hw'
  cases hw
  cases hw'
  exact min_le_min_right _ (round_mono (thousandths_anti hcount hhot h))

/-- The attribute document of a weight within the bounds is valid. -/
theorem canonicalize_weightDocument (format : FloatFormat) {weight : ℤ} (h : 0 ≤ weight)
    (hmax : weight ≤ 1000000) : ∃ c, canonicalizeIpAttributes format.repr
      (Document.ofJson (weightDocument weight)).heap (Document.ofJson (weightDocument weight)).root =
        .ok c :=
  ⟨⟨_, Json.text format.repr (weightDocument weight)⟩,
    (canonicalize_ofJson format _ _).mpr ⟨rfl, Codec.admissible_weight h hmax, rfl⟩⟩

/-- The weight, for every threshold, maximum and count. It is within `[0, weight_max]`; before the
clamp it is the integer nearest to the count in thousandths of the threshold, with ties up; it does
not fall when the count rises nor rise when the threshold does; and from the threshold on it is at
least 1000. The attribute document of a transition at that count is valid. -/
theorem weight_arithmetic (config : DetectionConfig) (hhot : 1 ≤ config.hotThreshold) (count : ℤ)
    (hcount : 0 ≤ count) :
    ∃ weight ratio : ℤ, thresholdRatio count config = .ok weight ∧
      0 ≤ weight ∧ weight ≤ config.weightMax ∧
      NearestUp (thousandths count config.hotThreshold) ratio ∧ weight = min ratio config.weightMax ∧
      (∀ count' weight', count ≤ count' → thresholdRatio count' config = .ok weight' →
        weight ≤ weight') ∧
      (∀ (config' : DetectionConfig) (weight' : ℤ), config'.weightMax = config.weightMax →
        config.hotThreshold ≤ config'.hotThreshold → thresholdRatio count config' = .ok weight' →
        weight' ≤ weight) ∧
      (config.hotThreshold ≤ count → 1000 ≤ weight) ∧
      ∀ format : FloatFormat, ∃ document c, transitionAttributes count config = .ok document ∧
        canonicalizeIpAttributes format.repr (Document.ofJson document).heap
          (Document.ofJson document).root = .ok c := by
  have hw := thresholdRatio_eq hhot hcount
  have hlow : 0 ≤ min (round (thousandths count config.hotThreshold)) config.weightMax :=
    le_min (round_thousandths_nonneg hcount hhot) (by linarith [config.weightMax_range.1])
  have hhigh := min_le_right (round (thousandths count config.hotThreshold)) config.weightMax
  refine ⟨_, _, hw, hlow, hhigh, nearestUp_round _, rfl, fun count' weight' h hw' => ?_,
    fun config' weight' hmax h hw' => ?_, fun h => ?_, fun format => ?_⟩
  · exact thresholdRatio_mono hhot hcount h hw hw'
  · exact thresholdRatio_anti hhot hcount h hmax hw hw'
  · exact le_min (le_round_thousandths hhot h) config.weightMax_range.1
  · obtain ⟨c, hc⟩ := canonicalize_weightDocument format hlow
      (hhigh.trans config.weightMax_range.2)
    refine ⟨_, c, ?_, hc⟩
    unfold transitionAttributes computeWeight
    cases config.weightFunction with
    | thresholdRatio =>
      rw [hw]
      rfl

end

/-- A threshold at which a count can be a tie. -/
def tieConfig : DetectionConfig :=
  { DetectionConfig.shipped with
    hotThreshold := 16
    coldThreshold := 8
    weightMax := 1000
    cold_lt_hot := by decide
    weightMax_range := by decide }

/-- One sixteenth is 62.5 thousandths, and its weight 63. -/
theorem weight_arithmetic_tie : thresholdRatio 1 tieConfig = .ok 63 ∧
    NearestUp (thousandths 1 tieConfig.hotThreshold) 63 := by
  obtain ⟨weight, ratio, hw, -, -, hnearest, hmin, -⟩ :=
    weight_arithmetic tieConfig (by decide) 1 (by decide)
  have heq : thresholdRatio 1 tieConfig = .ok 63 := by decide
  rw [heq] at hw
  cases hw
  have hratio : ratio = 63 := by
    have hmax : tieConfig.weightMax = 1000 := rfl
    omega
  exact ⟨heq, hratio ▸ hnearest⟩

end Hammertime
