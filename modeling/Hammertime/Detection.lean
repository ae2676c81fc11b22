import Mathlib.Data.Int.Basic
import Mathlib.Tactic

/-!
# The detection configuration, the state machine and the weight

The parts of `hammertime.core` that every service evaluates by: `DetectionConfig` with the checks of
its constructor, the buckets of `time.buckets`, the HOT/COLD state machine of `state.machine` and
the weight of `state.weight`. Python's `//` and `%` round towards minus infinity, which are
`Int.fdiv` and `Int.fmod`.

The constructor's checks do not bound the thresholds or the bucket from below; the schema
`detection_config.v1.json` does. `DetectionConfig.SchemaValid` is what the schema adds.
-/

namespace Hammertime

/-- What the modelled code can raise. -/
inductive Failure where
  /-- A `ValueError` with its text. -/
  | valueError (text : String)
  /-- A missing dictionary key. -/
  | keyError
  /-- A division by zero. -/
  | zeroDivision
  /-- An integer that no index can hold. -/
  | overflowError
  /-- A list that no address space can hold. -/
  | memoryError
  /-- A time that `datetime` cannot hold. -/
  | timeOutOfRange
  /-- A `CodecError`. -/
  | codecError (text : String)
  /-- A store or a bus call that failed. -/
  | unavailable
  /-- `ShardOwnedElsewhereError`. -/
  | shardOwnedElsewhere (shard : ℕ) (owner : String)
  /-- `ShardHeldBySameMemberError`. -/
  | shardHeldBySameMember (shard : ℕ) (owner : String)
  /-- `ShardLeaseLostError`. -/
  | shardLeaseLost (shard : ℕ) (owner : String)
deriving DecidableEq, Repr

/-- `IpState`. -/
inductive IpState where
  | cold
  | hot
deriving DecidableEq, Repr

/-- `WEIGHT_FUNCTIONS`: v1 knows one. -/
inductive WeightFunction where
  | thresholdRatio
deriving DecidableEq, Repr

/-- `DetectionConfig`, with the checks of `__post_init__` as fields. A zero `bucket_seconds` makes
the divisibility check itself raise. The two fields that only the detector reads are left out. -/
@[ext]
structure DetectionConfig where
  configVersion : ℤ
  windowSeconds : ℤ
  bucketSeconds : ℤ
  hotThreshold : ℤ
  coldThreshold : ℤ
  allowedLatenessSeconds : ℤ
  stateRetentionSeconds : ℤ
  weightFunction : WeightFunction
  weightMax : ℤ
  /-- `config_version must be >= 1`. -/
  configVersion_pos : 1 ≤ configVersion
  /-- `cold_threshold must be strictly below hot_threshold`. -/
  cold_lt_hot : coldThreshold < hotThreshold
  /-- The remainder below is computed. -/
  bucketSeconds_ne : bucketSeconds ≠ 0
  /-- `window_seconds must be a whole multiple of bucket_seconds`. -/
  bucketSeconds_dvd : windowSeconds.fmod bucketSeconds = 0
  /-- `state_retention_seconds must cover at least one window`. -/
  window_le_retention : windowSeconds ≤ stateRetentionSeconds
  /-- `weight_max must be within [1000, 1000000]`. -/
  weightMax_range : 1000 ≤ weightMax ∧ weightMax ≤ 1000000
deriving DecidableEq

namespace DetectionConfig

/-- The defaults that are shipped. -/
def shipped : DetectionConfig where
  configVersion := 1
  windowSeconds := 300
  bucketSeconds := 10
  hotThreshold := 1000
  coldThreshold := 800
  allowedLatenessSeconds := 30
  stateRetentionSeconds := 600
  weightFunction := .thresholdRatio
  weightMax := 1000000
  configVersion_pos := by decide
  cold_lt_hot := by decide
  bucketSeconds_ne := by decide
  bucketSeconds_dvd := by decide
  window_le_retention := by decide
  weightMax_range := by decide

/-- `DetectionConfig.bucket_count`. -/
def bucketCount (config : DetectionConfig) : ℤ := config.windowSeconds.fdiv config.bucketSeconds

/-- The bounds of `schemas/detection_config.v1.json` that `__post_init__` does not check. -/
structure SchemaValid (config : DetectionConfig) : Prop where
  windowSeconds : 1 ≤ config.windowSeconds
  bucketSeconds : 1 ≤ config.bucketSeconds
  hotThreshold : 1 ≤ config.hotThreshold
  coldThreshold : 0 ≤ config.coldThreshold
  allowedLatenessSeconds : 0 ≤ config.allowedLatenessSeconds
  stateRetentionSeconds : 1 ≤ config.stateRetentionSeconds

instance (config : DetectionConfig) : Decidable config.SchemaValid :=
  decidable_of_iff (1 ≤ config.windowSeconds ∧ 1 ≤ config.bucketSeconds ∧
      1 ≤ config.hotThreshold ∧ 0 ≤ config.coldThreshold ∧ 0 ≤ config.allowedLatenessSeconds ∧
      1 ≤ config.stateRetentionSeconds)
    ⟨fun ⟨a, b, c, d, e, f⟩ => ⟨a, b, c, d, e, f⟩, fun ⟨a, b, c, d, e, f⟩ => ⟨a, b, c, d, e, f⟩⟩

/-- The buckets cover the window exactly. -/
theorem bucketSeconds_mul_bucketCount (config : DetectionConfig) :
    config.bucketSeconds * config.bucketCount = config.windowSeconds := by
  have h := Int.fmod_add_mul_fdiv config.windowSeconds config.bucketSeconds
  rw [config.bucketSeconds_dvd, zero_add] at h
  exact h

theorem SchemaValid.bucketCount_pos {config : DetectionConfig} (h : config.SchemaValid) :
    0 < config.bucketCount := by
  have hw := h.windowSeconds
  rw [← config.bucketSeconds_mul_bucketCount] at hw
  have hb : 0 < config.bucketSeconds := by linarith [h.bucketSeconds]
  exact (mul_pos_iff_of_pos_left hb).mp (by omega)

end DetectionConfig

/-! ### Buckets -/

/-- `bucket_start`: the epoch second at which the containing bucket begins. -/
def bucketStart (eventEpochSeconds bucketSeconds : ℤ) : ℤ :=
  eventEpochSeconds.fdiv bucketSeconds * bucketSeconds

/-- `bucket_index`: the slot of the ring that holds this bucket. -/
def bucketIndex (eventEpochSeconds bucketSeconds bucketCount : ℤ) : ℤ :=
  (eventEpochSeconds.fdiv bucketSeconds).fmod bucketCount

/-- A bucket starts at a multiple of the bucket length. -/
theorem bucketStart_fmod (eventEpochSeconds bucketSeconds : ℤ) :
    (bucketStart eventEpochSeconds bucketSeconds).fmod bucketSeconds = 0 :=
  Int.mul_fmod_left _ _

/-! ### The state machine -/

/-- `evaluate_ip_state`: the state an IP should hold given its sliding-window count. -/
def evaluateIpState (previousState : IpState) (count : ℤ) (config : DetectionConfig) : IpState :=
  match previousState with
  | .cold => if config.hotThreshold ≤ count then .hot else .cold
  | .hot => if count < config.coldThreshold then .cold else .hot

theorem evaluateIpState_cold_eq_hot {count : ℤ} {config : DetectionConfig} :
    evaluateIpState .cold count config = .hot ↔ config.hotThreshold ≤ count := by
  unfold evaluateIpState
  dsimp only
  split_ifs with h <;> simp [h]

theorem evaluateIpState_hot_eq_cold {count : ℤ} {config : DetectionConfig} :
    evaluateIpState .hot count config = .cold ↔ count < config.coldThreshold := by
  unfold evaluateIpState
  dsimp only
  split_ifs with h <;> simp [h]

/-! ### The weight -/

/-- `threshold_ratio`: `window_count` in thousandths of `hot_threshold`, clamped. -/
def thresholdRatio (windowCount : ℤ) (config : DetectionConfig) : Except Failure ℤ :=
  if config.hotThreshold = 0 then .error .zeroDivision
  else
    let ratio := (1000 * windowCount + config.hotThreshold.fdiv 2).fdiv config.hotThreshold
    .ok (min (max ratio 0) config.weightMax)

/-- `compute_weight`: dispatch on the weight function. -/
def computeWeight (windowCount : ℤ) (config : DetectionConfig) : Except Failure ℤ :=
  match config.weightFunction with
  | .thresholdRatio => Hammertime.thresholdRatio windowCount config

/-- A weight is computed for every threshold but zero, and it is within `[0, weight_max]`. -/
theorem computeWeight_ok (windowCount : ℤ) {config : DetectionConfig}
    (h : config.hotThreshold ≠ 0) :
    ∃ weight, computeWeight windowCount config = .ok weight ∧ 0 ≤ weight ∧
      weight ≤ config.weightMax := by
  have hmax := config.weightMax_range.1
  simp only [computeWeight, thresholdRatio, if_neg h]
  exact ⟨_, rfl, le_min (le_max_right _ _) (by omega), min_le_right _ _⟩

end Hammertime
