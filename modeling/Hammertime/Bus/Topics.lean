import Hammertime.Events

/-!
# The topics and their partitions

The registry of `hammertime.bus.topics`, and `partition_for`, by which a key is mapped to a partition
of its topic: the 32-bit FNV-1a hash of the key's bytes, modulo the number of partitions. An aggregator
owns the IPs whose texts are mapped to its partitions of the observations.
-/

namespace Hammertime.Bus

/-- `_FNV1A_32_OFFSET_BASIS`. -/
def fnv1a32OffsetBasis : ℕ := 0x811C9DC5

/-- `_FNV1A_32_PRIME`. -/
def fnv1a32Prime : ℕ := 0x01000193

/-- `_UINT32_MASK`. -/
def uint32Mask : ℕ := 0xFFFFFFFF

/-- The `digest` of `partition_for`. -/
def fnv1a32 (data : Bytes) : ℕ :=
  data.foldl (fun digest byte => ((digest ^^^ byte.toNat) * fnv1a32Prime) &&& uint32Mask)
    fnv1a32OffsetBasis

/-- What the functions of the registry raise. -/
inductive TopicError where
  /-- `partitions must be positive, got {partitions!r}`. -/
  | partitionsNotPositive (partitions : ℤ)
  /-- `partition must be non-negative, got {partition!r}`. -/
  | negativePartition (partition : ℤ)
  /-- The `ValueError` of an integer with more digits than the interpreter writes. -/
  | tooManyDigits (partition : ℤ)
deriving DecidableEq

/-- `partition_for`. -/
def partitionFor (key : Bytes ⊕ String) (partitions : ℤ) : Except TopicError ℤ :=
  if partitions < 1 then .error (.partitionsNotPositive partitions)
  else
    let data := key.elim id utf8
    .ok (fnv1a32 data % partitions)

/-- `TopicSpec`. The selectors of keys stand where the events are published. -/
structure TopicSpec where
  name : String
  partitions : ℕ
  retentionSeconds : ℕ
deriving DecidableEq

/-- `_ONE_DAY_SECONDS`. -/
def oneDaySeconds : ℕ := 24 * 60 * 60

/-- `OBSERVATIONS`. -/
def observations : TopicSpec := ⟨"hammertime.observations.v1", 128, oneDaySeconds⟩

/-- `OBSERVATIONS_RECONCILIATION`. -/
def observationsReconciliation : TopicSpec :=
  ⟨"hammertime.observations-reconciliation.v1", 8, 7 * oneDaySeconds⟩

/-- `HOT_IP`. -/
def hotIp : TopicSpec := ⟨"hammertime.hot-ip.v1", 32, 30 * oneDaySeconds⟩

/-- `PREFIX_STATS`. -/
def prefixStats : TopicSpec := ⟨"hammertime.prefix-stats.v1", 4, oneDaySeconds⟩

/-- `all_topics`. -/
def allTopics : List TopicSpec := [observations, observationsReconciliation, hotIp, prefixStats]

/-- A key is mapped to one of the partitions, whatever their number. -/
theorem partitionFor_range {key : Bytes ⊕ String} {partitions partition : ℤ}
    (h : partitionFor key partitions = .ok partition) : 0 ≤ partition ∧ partition < partitions := by
  unfold partitionFor at h
  split_ifs at h with hpositive
  cases h
  have hpos : 0 < partitions := by omega
  exact ⟨Int.emod_nonneg _ hpos.ne', Int.emod_lt_of_pos _ hpos⟩

end Hammertime.Bus
