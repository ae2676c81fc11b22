import Hammertime.Lib.Dict
import Hammertime.Lib.TokenBucket

/-!
# The rate limiter

`RateLimiter` of `hammertime.ingest.ratelimit`: a token bucket for each key, in an ordered dictionary
whose oldest entry is dropped when a new key finds it full. A key that has none starts with a full
bucket, so that an evicted key starts over.

`check_spec` says what a call does while nothing is evicted: the bucket of the key is refilled to its
level, and charged if that is enough. Tokens are rational numbers here.
-/

namespace Hammertime.Ingest

open Lib

/-- `_Bucket`. -/
structure Bucket where
  tokens : ℚ
  /-- The clock tells whole seconds. -/
  lastRefill : ℤ

/-- What `check` refuses to begin with, and the values that its message quotes. -/
inductive Refusal where
  /-- `limit_rps must be a positive, finite number, got {limit_rps!r}`. -/
  | limitRps (limitRps : ℚ)
  /-- `capacity must be a positive, finite number, got {resolved_capacity!r}`. -/
  | capacity (resolvedCapacity : ℚ)
  /-- `cost must be a positive, finite number, got {cost!r}`. -/
  | cost (cost : ℚ)
  /-- `cost {cost} exceeds bucket capacity ({resolved_capacity}); no request of this size could ever
  succeed at this rate`. -/
  | unaffordable (cost resolvedCapacity : ℚ)

/-- What `check` raises. -/
inductive CheckError where
  | valueError (refusal : Refusal)
  /-- `RateLimitExceeded`, with its `retry_after`. -/
  | exceeded (retryAfter : ℚ)

/-- `RateLimiter`. -/
structure RateLimiter where
  maxKeys : ℕ
  /-- The buckets, the one touched last at the end. -/
  buckets : Dict String Bucket
  /-- `max_keys must be positive`. -/
  maxKeys_pos : 0 < maxKeys

namespace RateLimiter

variable (limiter : RateLimiter)

/-- `popitem(last=False)`. -/
def popOldest (buckets : Dict String Bucket) : Dict String Bucket where
  items := buckets.items.tail
  nodup := buckets.nodup.sublist (List.Sublist.map _ (List.tail_sublist _))

/-- `_evict_if_full`. -/
def evictIfFull : Dict String Bucket :=
  if limiter.maxKeys ≤ limiter.buckets.size then popOldest limiter.buckets else limiter.buckets

/-- `move_to_end`, with what has become of the bucket. -/
def moveToEnd (buckets : Dict String Bucket) (key : String) (bucket : Bucket) :
    Dict String Bucket :=
  (buckets.erase key).set key bucket

/-- The key's bucket at the time, in its place. -/
def touch (now : ℤ) (key : String) (limitRps capacity : ℚ) : Bucket × Dict String Bucket :=
  match limiter.buckets.get? key with
  | none =>
    let bucket : Bucket := ⟨capacity, now⟩
    (bucket, limiter.evictIfFull.set key bucket)
  | some bucket =>
    let elapsed := now - bucket.lastRefill
    let bucket :=
      if 0 < elapsed then ⟨min capacity (bucket.tokens + elapsed * limitRps), now⟩ else bucket
    (bucket, moveToEnd limiter.buckets key bucket)

/-- `check`. -/
def check (now : ℤ) (key : String) (limitRps : ℚ) (cost : ℚ) (capacity : Option ℚ) :
    RateLimiter × Except CheckError Unit :=
  let resolvedCapacity := capacity.getD limitRps
  if limitRps ≤ 0 then
    (limiter, .error (.valueError (.limitRps limitRps)))
  else if resolvedCapacity ≤ 0 then
    (limiter, .error (.valueError (.capacity resolvedCapacity)))
  else if cost ≤ 0 then (limiter, .error (.valueError (.cost cost)))
  else if resolvedCapacity < cost then
    (limiter, .error (.valueError (.unaffordable cost resolvedCapacity)))
  else
    let (bucket, buckets) := limiter.touch now key limitRps resolvedCapacity
    if bucket.tokens < cost then
      ({ limiter with buckets }, .error (.exceeded ((cost - bucket.tokens) / limitRps)))
    else
      ({ limiter with buckets := buckets.set key { bucket with tokens := bucket.tokens - cost } },
        .ok ())

/-- The limiter with no bucket. -/
def empty (maxKeys : ℕ) (h : 0 < maxKeys) : RateLimiter := ⟨maxKeys, .empty, h⟩

/-! ### Levels -/

/-- What the bucket of a key would hold at a time. -/
def level (key : String) (limitRps capacity : ℚ) (t : ℚ) : ℚ :=
  match limiter.buckets.get? key with
  | none => capacity
  | some bucket => TokenBucket.refill capacity limitRps bucket.tokens (t - bucket.lastRefill)

/-- The keys are among those given, which fit, and each bucket is as calls until the time leave it. -/
structure Valid (keys : Finset String) (capacity : ℚ) (t : ℚ) : Prop where
  fits : keys.card ≤ limiter.maxKeys
  keys : ∀ key ∈ limiter.buckets.keys, key ∈ keys
  buckets : ∀ key bucket, limiter.buckets.get? key = some bucket →
    0 ≤ bucket.tokens ∧ bucket.tokens ≤ capacity ∧ (bucket.lastRefill : ℚ) ≤ t

variable {limiter} {keys : Finset String} {capacity limitRps : ℚ}

theorem valid_empty {maxKeys : ℕ} (h : 0 < maxKeys) (hfits : keys.card ≤ maxKeys) (t : ℚ) :
    (empty maxKeys h).Valid keys capacity t :=
  ⟨hfits, fun _ hkey => absurd hkey List.not_mem_nil, fun key bucket hget => by
    cases (show (Dict.empty : Dict String Bucket).get? key = some bucket from hget)⟩

theorem Valid.later {t u : ℚ} (h : limiter.Valid keys capacity t) (htu : t ≤ u) :
    limiter.Valid keys capacity u :=
  ⟨h.fits, h.keys, fun key bucket hget =>
    ⟨(h.buckets key bucket hget).1, (h.buckets key bucket hget).2.1,
      (h.buckets key bucket hget).2.2.trans htu⟩⟩

theorem level_nonneg {key : String} {t : ℚ} (hrate : 0 ≤ limitRps) (hcapacity : 0 ≤ capacity)
    (h : ∀ bucket, limiter.buckets.get? key = some bucket →
      0 ≤ bucket.tokens ∧ (bucket.lastRefill : ℚ) ≤ t) :
    0 ≤ limiter.level key limitRps capacity t := by
  unfold level
  cases hget : limiter.buckets.get? key with
  | none => exact hcapacity
  | some bucket =>
    obtain ⟨htokens, hrefill⟩ := h bucket hget
    exact TokenBucket.refill_nonneg hrate hcapacity htokens (by linarith)

theorem Valid.level_nonneg {t : ℚ} (h : limiter.Valid keys capacity t) (hrate : 0 ≤ limitRps)
    (hcapacity : 0 ≤ capacity) (key : String) : 0 ≤ limiter.level key limitRps capacity t :=
  RateLimiter.level_nonneg hrate hcapacity fun bucket hget =>
    ⟨(h.buckets key bucket hget).1, (h.buckets key bucket hget).2.2⟩

/-- A bucket that has just been refilled is at its level. -/
theorem level_of_refilled {key : String} {tokens : ℚ} {now : ℤ}
    (hget : limiter.buckets.get? key = some ⟨tokens, now⟩) (hfull : tokens ≤ capacity) :
    limiter.level key limitRps capacity now = tokens := by
  unfold level
  rw [hget]
  dsimp only
  rw [sub_self, TokenBucket.refill_zero hfull]

theorem level_le_capacity (key : String) (t : ℚ) :
    limiter.level key limitRps capacity t ≤ capacity := by
  unfold level
  cases limiter.buckets.get? key with
  | none => exact le_refl _
  | some bucket => exact TokenBucket.refill_le_capacity _

/-- A level refills like a bucket. -/
theorem level_refill (hrate : 0 ≤ limitRps) (key : String) {t u : ℚ} (htu : t ≤ u) :
    limiter.level key limitRps capacity u =
      TokenBucket.refill capacity limitRps (limiter.level key limitRps capacity t) (u - t) := by
  unfold level
  cases limiter.buckets.get? key with
  | none =>
    have hgrow : 0 ≤ (u - t) * limitRps := mul_nonneg (by linarith) hrate
    exact (min_eq_left (by linarith)).symm
  | some bucket =>
    dsimp only
    rw [TokenBucket.refill_refill hrate (by linarith)]
    congr 1
    ring

/-! ### What a call does -/

/-- A new key finds room. -/
theorem Valid.evictIfFull_eq {t : ℚ} (h : limiter.Valid keys capacity t) {key : String}
    (hkey : key ∈ keys) (hnew : limiter.buckets.get? key = none) :
    limiter.evictIfFull = limiter.buckets := by
  have hnot : key ∉ limiter.buckets.keys := Dict.get?_eq_none_iff.mp hnew
  have hsub : limiter.buckets.keys.toFinset ⊆ keys.erase key := by
    intro other hother
    have hmem : other ∈ limiter.buckets.keys := List.mem_toFinset.mp hother
    exact Finset.mem_erase.mpr ⟨fun heq => hnot (heq ▸ hmem), h.keys other hmem⟩
  have hcard : limiter.buckets.size < keys.card := by
    have hle := Finset.card_le_card hsub
    have hpos := Finset.card_pos.mpr ⟨key, hkey⟩
    rw [List.toFinset_card_of_nodup limiter.buckets.keys_nodup, Finset.card_erase_of_mem hkey] at hle
    have hsize : limiter.buckets.keys.length = limiter.buckets.size := List.length_map _
    omega
  have hfits := h.fits
  exact if_neg (by omega)

/-- The bucket that a call looks at holds the key's level. -/
theorem touch_fst {now : ℤ} {key : String}
    (h : ∀ bucket, limiter.buckets.get? key = some bucket →
      bucket.tokens ≤ capacity ∧ bucket.lastRefill ≤ now) :
    (limiter.touch now key limitRps capacity).1 =
      ⟨limiter.level key limitRps capacity now, now⟩ := by
  unfold touch level
  cases hget : limiter.buckets.get? key with
  | none => rfl
  | some bucket =>
    obtain ⟨hfull, hle⟩ := h bucket hget
    dsimp only
    split_ifs with helapsed
    · unfold TokenBucket.refill
      push_cast
      rfl
    · -- With no time between, the bucket is left as it is, and is at its level.
      have heq : bucket.lastRefill = now := by omega
      obtain ⟨tokens, lastRefill⟩ := bucket
      dsimp only at heq hfull ⊢
      rw [heq, sub_self, TokenBucket.refill_zero hfull]

/-- It is put back in its place. -/
theorem get?_touch_self (limiter : RateLimiter) (now : ℤ) (key : String) (limitRps capacity : ℚ) :
    (limiter.touch now key limitRps capacity).2.get? key =
      some (limiter.touch now key limitRps capacity).1 := by
  unfold touch
  cases limiter.buckets.get? key with
  | none => exact Dict.get?_set_self _ _ _
  | some bucket => exact Dict.get?_set_self _ _ _

/-- No other bucket is touched, unless it has to make room for a new one. -/
theorem get?_touch_of_ne {now : ℤ} {key other : String} (hne : key ≠ other)
    (hroom : limiter.buckets.get? key = none → limiter.evictIfFull = limiter.buckets) :
    (limiter.touch now key limitRps capacity).2.get? other = limiter.buckets.get? other := by
  unfold touch
  cases hget : limiter.buckets.get? key with
  | none =>
    dsimp only
    rw [hroom hget, Dict.get?_set_of_ne _ hne]
  | some bucket =>
    dsimp only
    unfold moveToEnd
    rw [Dict.get?_set_of_ne _ hne, Dict.get?_erase, if_neg hne]

/-- The bucket that a call looks at holds the key's level, and no other bucket is touched. -/
theorem Valid.touch_spec {now : ℤ} (h : limiter.Valid keys capacity now) {key : String}
    (hkey : key ∈ keys) :
    (limiter.touch now key limitRps capacity).1 =
        ⟨limiter.level key limitRps capacity now, now⟩ ∧
      ∀ other, (limiter.touch now key limitRps capacity).2.get? other =
        if key = other then some ⟨limiter.level key limitRps capacity now, now⟩
        else limiter.buckets.get? other := by
  have hbucket : (limiter.touch now key limitRps capacity).1 =
      ⟨limiter.level key limitRps capacity now, now⟩ := by
    refine touch_fst fun bucket hget => ?_
    obtain ⟨-, hfull, hrefill⟩ := h.buckets key bucket hget
    exact ⟨hfull, by exact_mod_cast hrefill⟩
  refine ⟨hbucket, fun other => ?_⟩
  split_ifs with heq
  · rw [← heq, get?_touch_self, hbucket]
  · exact get?_touch_of_ne heq fun hnew => h.evictIfFull_eq hkey hnew

/-- With a positive rate and a cost within the capacity a call raises no `ValueError`. -/
theorem check_ne_valueError (limiter : RateLimiter) (now : ℤ) (key : String)
    {limitRps cost capacity : ℚ} (hrate : 0 < limitRps) (hcost : 0 < cost)
    (hcapacity : cost ≤ capacity) (refusal : Refusal) :
    (limiter.check now key limitRps cost (some capacity)).2 ≠ .error (.valueError refusal) := by
  unfold RateLimiter.check
  dsimp only [Option.getD_some]
  rw [if_neg (by linarith), if_neg (by linarith), if_neg (by linarith), if_neg (by linarith)]
  split_ifs
  · nofun
  · nofun

/-- What a call with a cost within the capacity answers and leaves. -/
structure CheckSpec (limiter : RateLimiter) (now : ℤ) (key : String) (limitRps cost capacity : ℚ)
    (result : RateLimiter × Except CheckError Unit) : Prop where
  maxKeys : result.1.maxKeys = limiter.maxKeys
  admitted : result.2 = .ok () ↔ cost ≤ limiter.level key limitRps capacity now
  refused : limiter.level key limitRps capacity now < cost →
    ∃ retryAfter, result.2 = .error (.exceeded retryAfter)
  buckets : ∀ other, result.1.buckets.get? other =
    if key = other then
      some ⟨limiter.level key limitRps capacity now -
        (if cost ≤ limiter.level key limitRps capacity now then cost else 0), now⟩
    else limiter.buckets.get? other

theorem Valid.check_spec {now : ℤ} (h : limiter.Valid keys capacity now) {key : String}
    (hkey : key ∈ keys) (hrate : 0 < limitRps) {cost : ℚ} (hcost : 0 < cost)
    (hcapacity : cost ≤ capacity) :
    CheckSpec limiter now key limitRps cost capacity
      (limiter.check now key limitRps cost (some capacity)) := by
  have htouch : (limiter.touch now key limitRps capacity).1 =
      ⟨limiter.level key limitRps capacity now, now⟩ ∧ _ := h.touch_spec hkey
  obtain ⟨hbucket, hbuckets⟩ := htouch
  have hcheck : limiter.check now key limitRps cost (some capacity) =
      if limiter.level key limitRps capacity now < cost then
        ({ limiter with buckets := (limiter.touch now key limitRps capacity).2 },
          .error (.exceeded ((cost - limiter.level key limitRps capacity now) / limitRps)))
      else
        ({ limiter with
            buckets := (limiter.touch now key limitRps capacity).2.set key
              ⟨limiter.level key limitRps capacity now - cost, now⟩ }, .ok ()) := by
    unfold RateLimiter.check
    dsimp only [Option.getD_some]
    rw [if_neg (by linarith), if_neg (by linarith), if_neg (by linarith), if_neg (by linarith),
      hbucket]
  rw [hcheck]
  by_cases hlevel : limiter.level key limitRps capacity now < cost
  · rw [if_pos hlevel]
    refine ⟨rfl, ⟨fun hok => (by cases hok), fun hle => absurd hlevel (not_lt.mpr hle)⟩,
      fun _ => ⟨_, rfl⟩, fun other => ?_⟩
    rw [if_neg (not_le.mpr hlevel), sub_zero]
    exact hbuckets other
  · rw [if_neg hlevel]
    refine ⟨rfl, ⟨fun _ => not_lt.mp hlevel, fun _ => rfl⟩, fun hlt => absurd hlt hlevel,
      fun other => ?_⟩
    rw [if_pos (not_lt.mp hlevel)]
    show ((limiter.touch now key limitRps capacity).2.set key _).get? other = _
    rw [Dict.get?_set, hbuckets]
    split_ifs with heq
    · rfl
    · rfl

/-- A call leaves the limiter valid. -/
theorem CheckSpec.valid {now : ℤ} (h : limiter.Valid keys capacity now) {key : String}
    (hkey : key ∈ keys) (hrate : 0 < limitRps) {cost : ℚ} (hcost : 0 < cost)
    (hcapacity : cost ≤ capacity) {result : RateLimiter × Except CheckError Unit}
    (hspec : CheckSpec limiter now key limitRps cost capacity result) :
    result.1.Valid keys capacity now := by
  have hlevel := h.level_nonneg hrate.le (hcost.le.trans hcapacity) key
  have hfull : limiter.level key limitRps capacity now ≤ capacity := level_le_capacity key now
  refine ⟨hspec.maxKeys ▸ h.fits, fun other hother => ?_, fun other bucket hget => ?_⟩
  · obtain ⟨bucket, hget⟩ := Dict.mem_keys_iff.mp hother
    rw [hspec.buckets] at hget
    by_cases heq : key = other
    · exact heq ▸ hkey
    · rw [if_neg heq] at hget
      exact h.keys other (Dict.mem_keys_iff.mpr ⟨bucket, hget⟩)
  · rw [hspec.buckets] at hget
    by_cases heq : key = other
    · rw [if_pos heq] at hget
      cases hget
      dsimp only
      split_ifs with hcharge
      · exact ⟨by linarith, by linarith, le_refl _⟩
      · exact ⟨by linarith, by linarith, le_refl _⟩
    · rw [if_neg heq] at hget
      exact h.buckets other bucket hget

/-- A call lowers the level of its own key by the cost, if it is admitted, and no other. -/
theorem CheckSpec.level_eq {now : ℤ} {key : String} {cost : ℚ}
    {result : RateLimiter × Except CheckError Unit}
    (hspec : CheckSpec limiter now key limitRps cost capacity result) (hcost : 0 ≤ cost)
    (other : String) :
    result.1.level other limitRps capacity now =
      limiter.level other limitRps capacity now -
        (if key = other ∧ cost ≤ limiter.level key limitRps capacity now then cost else 0) := by
  by_cases heq : key = other
  · subst heq
    have hbucket := hspec.buckets key
    rw [if_pos rfl] at hbucket
    have hfull : limiter.level key limitRps capacity now -
        (if cost ≤ limiter.level key limitRps capacity now then cost else 0) ≤ capacity := by
      have hle : limiter.level key limitRps capacity now ≤ capacity := level_le_capacity key now
      split_ifs <;> linarith
    have hself : result.1.level key limitRps capacity now =
        limiter.level key limitRps capacity now -
          (if cost ≤ limiter.level key limitRps capacity now then cost else 0) :=
      level_of_refilled hbucket hfull
    simp only [hself, true_and]
  · have hbucket := hspec.buckets other
    rw [if_neg heq] at hbucket
    have hself : result.1.level other limitRps capacity now =
        limiter.level other limitRps capacity now := by
      rw [level, hbucket]
      rfl
    rw [hself, if_neg fun h => heq h.1, sub_zero]

end RateLimiter

end Hammertime.Ingest
