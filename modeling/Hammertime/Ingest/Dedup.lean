import Hammertime.Aggregator.Worker
import Hammertime.Store.Dedup

/-!
# Ingest's dedup retention and the aggregator's horizon

`DedupService` of the ingest service: a claim of `(agent_id, sequence)` is kept for
`allowed_lateness_seconds` and the window length that the message itself names. The aggregator counts
an observation for as long as its bucket is in the configured window. Nothing relates the two lengths,
so a retry that the store has forgotten may still be counted.
-/

namespace Hammertime.Ingest

open Lib Store Aggregator

/-- `DedupService`, less the store it is injected with. -/
structure DedupService where
  allowedLatenessSeconds : ℤ

namespace DedupService

/-- The service of a process that runs under the configuration. -/
def ofConfig (config : DetectionConfig) : DedupService := ⟨config.allowedLatenessSeconds⟩

variable (service : DedupService)

/-- The retention of `mark_seen` and `claim`. -/
def ttlSeconds (windowSeconds : ℤ) : ℤ := service.allowedLatenessSeconds + windowSeconds

/-- `claim`. -/
def claim (clock : ℕ → ℤ) (agentId : String) (sequence windowSeconds : ℤ) :
    Program Failure Keeper Bool :=
  Keeper.claim clock agentId sequence (service.ttlSeconds windowSeconds)

end DedupService

/-! ### Buckets and time -/

/-- A later time is in the same bucket or in a later one. -/
theorem bucketStart_mono {s t bucketSeconds : ℤ} (hb : 0 < bucketSeconds) (h : s ≤ t) :
    bucketStart s bucketSeconds ≤ bucketStart t bucketSeconds := by
  unfold bucketStart
  rw [Int.fdiv_eq_ediv_of_nonneg s hb.le, Int.fdiv_eq_ediv_of_nonneg t hb.le]
  exact mul_le_mul_of_nonneg_right (Int.ediv_le_ediv hb h) hb.le

/-- An observation that the configured window admits is counted exactly while its bucket is in the
window, which it is before it is late. -/
theorem classifyObservation_eq_applied {config : DetectionConfig} (hconfig : config.SchemaValid)
    {windowStart windowSeconds now : ℤ} (hlong : windowSeconds ≤ config.windowSeconds)
    (hnow : windowStart ≤ now) :
    classifyObservation windowStart windowSeconds now config = .applied ↔
      bucketStart now config.bucketSeconds - bucketStart windowStart config.bucketSeconds <
        config.windowSeconds := by
  unfold classifyObservation
  rw [if_neg (by omega), if_neg (by omega)]
  have hb : 0 < config.bucketSeconds := by linarith [hconfig.bucketSeconds]
  have hlate := hconfig.allowedLatenessSeconds
  -- An observation older than the window has left it.
  have hold : config.windowSeconds ≤ now - windowStart → config.windowSeconds ≤
      bucketStart now config.bucketSeconds - bucketStart windowStart config.bucketSeconds := by
    intro hage
    have hmono := bucketStart_mono hb (show windowStart + config.windowSeconds ≤ now by omega)
    have hshift : bucketStart (windowStart + config.windowSeconds) config.bucketSeconds =
        bucketStart windowStart config.bucketSeconds + config.windowSeconds := by
      rw [← config.bucketSeconds_mul_bucketCount]
      unfold bucketStart
      rw [Int.fdiv_eq_ediv_of_nonneg _ hb.le, Int.fdiv_eq_ediv_of_nonneg _ hb.le,
        Int.add_mul_ediv_left _ _ hb.ne']
      ring
    omega
  split_ifs with h h'
  · exact iff_of_false (by decide) (by have := hold (by omega); omega)
  · exact iff_of_false (by decide) (by omega)
  · exact iff_of_true rfl (by omega)

/-! ### The retention against the horizon -/

/-- The retention covers the horizon of an observation exactly when its message is too long to be
counted at all, or its bucket has left the window by the time that the earliest possible claim is
forgotten. -/
theorem retention_covers_horizon (config : DetectionConfig) (hconfig : config.SchemaValid)
    (windowStart windowSeconds : ℤ) :
    (∀ t₁ t₂ t, windowStart ≤ t₁ → t₁ ≤ t₂ →
        t₁ + (DedupService.ofConfig config).ttlSeconds windowSeconds ≤ t₂ → t₂ ≤ t →
        classifyObservation windowStart windowSeconds t config ≠ .applied) ↔
      config.windowSeconds < windowSeconds ∨ config.windowSeconds ≤
        bucketStart (windowStart + (DedupService.ofConfig config).ttlSeconds windowSeconds)
          config.bucketSeconds - bucketStart windowStart config.bucketSeconds := by
  have hb : 0 < config.bucketSeconds := by linarith [hconfig.bucketSeconds]
  generalize httl : (DedupService.ofConfig config).ttlSeconds windowSeconds = ttl
  constructor
  · intro h
    by_contra hcond
    push Not at hcond
    obtain ⟨hlong, hlive⟩ := hcond
    -- The claim at the start of the window, retried as soon as it is forgotten.
    have hnot := h windowStart (max windowStart (windowStart + ttl))
      (max windowStart (windowStart + ttl)) (le_refl _) (le_max_left _ _) (le_max_right _ _)
      (le_refl _)
    rw [Ne, classifyObservation_eq_applied hconfig hlong (le_max_left _ _)] at hnot
    have hwindow := hconfig.windowSeconds
    rcases max_choice windowStart (windowStart + ttl) with hmax | hmax
    · rw [hmax] at hnot
      omega
    · rw [hmax] at hnot
      omega
  · rintro (hlong | hlive) t₁ t₂ t h₁ h₂ hend ht happlied
    · unfold classifyObservation at happlied
      rw [if_pos hlong] at happlied
      cases happlied
    · by_cases hlong : config.windowSeconds < windowSeconds
      · unfold classifyObservation at happlied
        rw [if_pos hlong] at happlied
        cases happlied
      · rw [classifyObservation_eq_applied hconfig (not_lt.mp hlong) (by omega)] at happlied
        have hmono := bucketStart_mono hb (show windowStart + ttl ≤ t by omega)
        omega

/-- The shipped defaults. -/
def defaultConfig : DetectionConfig := .shipped

/-- The same in the next version. -/
def nextDefaultConfig : DetectionConfig :=
  { defaultConfig with configVersion := 2, configVersion_pos := by decide }

/-- A message as long as the configured window is covered. -/
theorem retention_covers_full_window : defaultConfig.SchemaValid ∧
    ∀ t₁ t₂ t, 7 ≤ t₁ → t₁ ≤ t₂ →
      t₁ + (DedupService.ofConfig defaultConfig).ttlSeconds 300 ≤ t₂ → t₂ ≤ t →
      classifyObservation 7 300 t defaultConfig ≠ .applied :=
  ⟨by decide, (retention_covers_horizon defaultConfig (by decide) 7 300).mpr (Or.inr (by decide))⟩

/-- Under the defaults a message of one bucket is claimed at 0 and again at 40, both times with
success, and at 40 the aggregator still counts it. -/
theorem retry_is_counted_twice : ∃ k k' : Keeper,
    (DedupService.ofConfig defaultConfig).claim (fun n => if n < 3 then 0 else 40) "agent" 1 10
        ⟨0, ⟨1, .empty, .empty, []⟩⟩ = .ok true k ∧
      (DedupService.ofConfig defaultConfig).claim (fun n => if n < 3 then 0 else 40) "agent" 1 10 k =
        .ok true k' ∧
      0 + (DedupService.ofConfig defaultConfig).ttlSeconds 10 ≤ 40 ∧
      classifyObservation 0 10 0 defaultConfig = .applied ∧
      classifyObservation 0 10 40 defaultConfig = .applied := by
  exact ⟨_, _, rfl, rfl, by decide, by decide, by decide⟩

end Hammertime.Ingest
