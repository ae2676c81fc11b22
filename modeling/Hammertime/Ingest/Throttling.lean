import Hammertime.Ingest.RateLimit

/-!
# The budget of one key

A key that is used with one rate and one capacity on a limiter that does not evict it. Its tokens
stay within the capacity whatever the clock does, and while the clock does not step back the costs
admitted in an interval are at most the capacity and what refills. A call that is refused tells when
the next one of its cost succeeds, counted from the bucket's last refill: a clock that has stepped back
behind it refills nothing until it has caught up.
-/

namespace Hammertime.Ingest

open Lib

/-- A call of `check`, with what the clock reads in it. -/
structure Check where
  now : ℤ
  key : String
  limitRps : ℚ
  cost : ℚ
  capacity : Option ℚ

/-- The key is used with one rate, one capacity and the costs that this allows. -/
def Check.Uses (key : String) (rate capacity : ℚ) (call : Check) : Prop :=
  call.key = key → call.limitRps = rate ∧ call.capacity.getD call.limitRps = capacity ∧
    0 < call.cost ∧ call.cost ≤ capacity

/-- The time-based refill of a bucket. -/
def Bucket.refilled (bucket : Bucket) (now : ℤ) (rate capacity : ℚ) : Bucket :=
  if 0 < now - bucket.lastRefill then
    ⟨min capacity (bucket.tokens + (now - bucket.lastRefill : ℤ) * rate), now⟩
  else bucket

namespace Bucket

variable {bucket : Bucket} {rate capacity : ℚ}

/-- A refill adds, up to the capacity. -/
theorem refilled_tokens (hrate : 0 ≤ rate) (hfull : bucket.tokens ≤ capacity) (now : ℤ) :
    bucket.tokens ≤ (bucket.refilled now rate capacity).tokens ∧
      (bucket.refilled now rate capacity).tokens ≤ capacity := by
  unfold refilled
  split_ifs with helapsed
  · have hgrow : 0 ≤ ((now - bucket.lastRefill : ℤ) : ℚ) * rate :=
      mul_nonneg (by exact_mod_cast helapsed.le) hrate
    exact ⟨le_min hfull (by linarith), min_le_left _ _⟩
  · exact ⟨le_refl _, hfull⟩

theorem refilled_lastRefill (bucket : Bucket) (now : ℤ) (rate capacity : ℚ) :
    (bucket.refilled now rate capacity).lastRefill = max now bucket.lastRefill := by
  unfold refilled
  split_ifs with helapsed
  · have hlt : bucket.lastRefill ≤ now := by omega
    exact (max_eq_left hlt).symm
  · have hle : now ≤ bucket.lastRefill := by omega
    exact (max_eq_right hle).symm

/-- A refill in between, at whatever time, takes nothing from a later one. -/
theorem refilled_refilled (hrate : 0 ≤ rate) (hfull : bucket.tokens ≤ capacity) (between now : ℤ) :
    (bucket.refilled now rate capacity).tokens ≤
      ((bucket.refilled between rate capacity).refilled now rate capacity).tokens := by
  by_cases hbetween : 0 < between - bucket.lastRefill
  · have hfirst : bucket.refilled between rate capacity =
        ⟨min capacity (bucket.tokens + (between - bucket.lastRefill : ℤ) * rate), between⟩ :=
      if_pos hbetween
    by_cases hnow : 0 < now - between
    · -- Both refills are of the time since the one before.
      have hgrow : 0 ≤ ((now - between : ℤ) : ℚ) * rate :=
        mul_nonneg (by exact_mod_cast hnow.le) hrate
      have hsum : ((now - bucket.lastRefill : ℤ) : ℚ) * rate =
          ((between - bucket.lastRefill : ℤ) : ℚ) * rate + ((now - between : ℤ) : ℚ) * rate := by
        push_cast
        ring
      rw [hfirst, refilled, refilled, if_pos (by omega), if_pos hnow]
      dsimp only
      refine le_min (min_le_left _ _) ?_
      rcases min_choice capacity (bucket.tokens + ((between - bucket.lastRefill : ℤ) : ℚ) * rate)
        with hmin | hmin
      · rw [hmin]
        exact (min_le_left _ _).trans (by linarith)
      · rw [hmin]
        exact (min_le_right _ _).trans (by linarith)
    · -- The time is not past the refill in between, which was the larger one.
      have hstays : (bucket.refilled between rate capacity).refilled now rate capacity =
          bucket.refilled between rate capacity := by
        rw [hfirst]
        exact if_neg hnow
      rw [hstays, hfirst, refilled]
      split_ifs with helapsed
      · have hle : ((now - bucket.lastRefill : ℤ) : ℚ) * rate ≤
            ((between - bucket.lastRefill : ℤ) : ℚ) * rate :=
          mul_le_mul_of_nonneg_right (by exact_mod_cast (by omega)) hrate
        exact min_le_min_left _ (by linarith)
      · have hgrow : 0 ≤ ((between - bucket.lastRefill : ℤ) : ℚ) * rate :=
          mul_nonneg (by exact_mod_cast hbetween.le) hrate
        exact le_min hfull (by linarith)
  · have hstays : bucket.refilled between rate capacity = bucket := if_neg hbetween
    rw [hstays]

end Bucket

namespace RateLimiter

/-- Make the call. -/
def perform (limiter : RateLimiter) (call : Check) : RateLimiter × Except CheckError Unit :=
  limiter.check call.now call.key call.limitRps call.cost call.capacity

/-- The limiter after the calls of a list. -/
def performAll (limiter : RateLimiter) (calls : List Check) : RateLimiter :=
  calls.foldl (fun limiter call => (limiter.perform call).1) limiter

/-- The call does not evict the key. -/
def Keeps (key : String) (limiter : RateLimiter) (call : Check) : Prop :=
  key ∈ limiter.buckets.keys → key ∈ (limiter.perform call).1.buckets.keys

/-- The call is one of a run that uses the key with one rate and one capacity and does not evict it. -/
structure Admits (key : String) (rate capacity : ℚ) (limiter : RateLimiter) (call : Check) :
    Prop where
  uses : call.Uses key rate capacity
  keeps : limiter.Keeps key call

/-- What the key pays for the call. -/
def paid (key : String) (call : Check) : Except CheckError Unit → ℚ
  | .ok _ => if call.key = key then call.cost else 0
  | .error _ => 0

variable {limiter : RateLimiter} {key : String} {rate capacity : ℚ} {call : Check}

/-! ### One call -/

/-- The bucket that a call of the key looks at: a full one, or its own after the refill. -/
theorem touch_fst_eq (limiter : RateLimiter) (now : ℤ) (key : String) (rate capacity : ℚ) :
    (limiter.touch now key rate capacity).1 =
      ((limiter.buckets.get? key).map fun bucket => bucket.refilled now rate capacity).getD
        ⟨capacity, now⟩ := by
  unfold touch
  cases limiter.buckets.get? key with
  | none => rfl
  | some bucket => rfl

/-- A call that raises no `ValueError` takes its cost from the bucket that it looks at, or is refused
for what is missing. -/
theorem perform_eq (limiter : RateLimiter) (hrate : 0 < call.limitRps) (hcost : 0 < call.cost)
    (hcapacity : call.cost ≤ call.capacity.getD call.limitRps) :
    limiter.perform call =
      let touched := limiter.touch call.now call.key call.limitRps
        (call.capacity.getD call.limitRps)
      if touched.1.tokens < call.cost then
        ({ limiter with buckets := touched.2 },
          .error (.exceeded ((call.cost - touched.1.tokens) / call.limitRps)))
      else
        ({ limiter with
            buckets := touched.2.set call.key
              { touched.1 with tokens := touched.1.tokens - call.cost } }, .ok ()) := by
  unfold perform check
  dsimp only
  rw [if_neg (not_le.mpr hrate), if_neg (not_le.mpr (hcost.trans_le hcapacity)),
    if_neg (not_le.mpr hcost), if_neg (not_lt.mpr hcapacity)]

/-- A call of the key: it is refused and leaves the bucket refilled, or it pays. -/
theorem perform_own (hrate : 0 < rate) (huses : call.Uses key rate capacity)
    (hkey : call.key = key) {bucket : Bucket}
    (hbucket : (limiter.touch call.now key rate capacity).1 = bucket) :
    (bucket.tokens < call.cost ∧
        (limiter.perform call).2 = .error (.exceeded ((call.cost - bucket.tokens) / rate)) ∧
        (limiter.perform call).1.buckets.get? key = some bucket) ∨
      (call.cost ≤ bucket.tokens ∧ (limiter.perform call).2 = .ok () ∧
        (limiter.perform call).1.buckets.get? key =
          some ⟨bucket.tokens - call.cost, bucket.lastRefill⟩) := by
  obtain ⟨hlimit, hfull, hcost, hle⟩ := huses hkey
  have heq := perform_eq limiter (hlimit ▸ hrate) hcost (hfull ▸ hle)
  rw [hfull, hlimit, hkey] at heq
  dsimp only at heq
  rw [hbucket] at heq
  by_cases hlt : bucket.tokens < call.cost
  · rw [if_pos hlt] at heq
    rw [heq]
    refine Or.inl ⟨hlt, rfl, ?_⟩
    show (limiter.touch call.now key rate capacity).2.get? key = _
    rw [get?_touch_self, hbucket]
  · rw [if_neg hlt] at heq
    rw [heq]
    exact Or.inr ⟨not_lt.mp hlt, rfl, Dict.get?_set_self _ _ _⟩

/-- A call of another key leaves the bucket, or evicts it. -/
theorem get?_perform_of_ne (limiter : RateLimiter) (hne : call.key ≠ key) :
    (limiter.perform call).1.buckets.get? key = limiter.buckets.get? key ∨
      (limiter.perform call).1.buckets.get? key = none := by
  have hpop : ∀ buckets : Dict String Bucket,
      (popOldest buckets).get? key = buckets.get? key ∨ (popOldest buckets).get? key = none := by
    intro buckets
    cases hget : (popOldest buckets).get? key with
    | none => exact Or.inr rfl
    | some bucket =>
      have hmem := List.mem_of_mem_tail (Dict.mem_items_iff.mpr hget)
      exact Or.inl (Dict.mem_items_iff.mp hmem).symm
  have htouch : ∀ rate capacity,
      (limiter.touch call.now call.key rate capacity).2.get? key = limiter.buckets.get? key ∨
        (limiter.touch call.now call.key rate capacity).2.get? key = none := by
    intro rate capacity
    unfold touch
    cases limiter.buckets.get? call.key with
    | none =>
      dsimp only
      rw [Dict.get?_set_of_ne _ hne]
      unfold evictIfFull
      split_ifs
      · exact hpop limiter.buckets
      · exact Or.inl rfl
    | some bucket =>
      dsimp only
      unfold moveToEnd
      rw [Dict.get?_set_of_ne _ hne, Dict.get?_erase, if_neg hne]
      exact Or.inl rfl
  unfold perform check
  dsimp only
  split_ifs
  · exact Or.inl rfl
  · exact Or.inl rfl
  · exact Or.inl rfl
  · exact Or.inl rfl
  · exact htouch _ _
  · show ((limiter.touch call.now call.key call.limitRps _).2.set call.key _).get? key = _ ∨
      ((limiter.touch call.now call.key call.limitRps _).2.set call.key _).get? key = none
    rw [Dict.get?_set_of_ne _ hne]
    exact htouch _ _

theorem perform_other (hne : call.key ≠ key) (hkeeps : limiter.Keeps key call) :
    (limiter.perform call).1.buckets.get? key = limiter.buckets.get? key := by
  rcases get?_perform_of_ne limiter hne with hsame | hnone
  · exact hsame
  · cases hget : limiter.buckets.get? key with
    | none => exact hnone
    | some bucket =>
      have hmem := hkeeps (Dict.mem_keys_iff.mpr ⟨bucket, hget⟩)
      exact absurd hmem (Dict.get?_eq_none_iff.mp hnone)

/-- A refused call refills the bucket of its key, and that is all it does. -/
theorem perform_exceeded {retryAfter : ℚ}
    (h : (limiter.perform call).2 = .error (.exceeded retryAfter)) :
    ∃ bucket, limiter.buckets.get? call.key = some bucket ∧
      (limiter.perform call).1.buckets.get? call.key =
        some (bucket.refilled call.now call.limitRps (call.capacity.getD call.limitRps)) ∧
      ∀ other, call.key ≠ other →
        (limiter.perform call).1.buckets.get? other = limiter.buckets.get? other := by
  unfold perform check at h ⊢
  dsimp only at h ⊢
  split_ifs at h ⊢ with hrate hcapacity hcost hfull hlevel
  · cases h
  · cases h
  · cases h
  · cases h
  · have htouched := touch_fst_eq limiter call.now call.key call.limitRps
      (call.capacity.getD call.limitRps)
    cases hget : limiter.buckets.get? call.key with
    | none =>
      -- A key without a bucket would find a full one.
      rw [hget] at htouched
      rw [htouched] at hlevel
      exact absurd hlevel hfull
    | some bucket =>
      rw [hget] at htouched
      refine ⟨bucket, rfl, ?_, fun other hne => ?_⟩
      · rw [get?_touch_self, htouched]
        rfl
      · refine get?_touch_of_ne hne fun hnone => ?_
        rw [hget] at hnone
        cases hnone

/-! ### The tokens -/

/-- The tokens of the key are within its capacity. -/
def Filled (key : String) (capacity : ℚ) (limiter : RateLimiter) : Prop :=
  ∀ bucket, limiter.buckets.get? key = some bucket → 0 ≤ bucket.tokens ∧ bucket.tokens ≤ capacity

/-- The bucket that a call of the key looks at is within the capacity. -/
theorem Filled.touch (h : Filled key capacity limiter) (hrate : 0 ≤ rate) (hcapacity : 0 ≤ capacity)
    (now : ℤ) :
    0 ≤ (limiter.touch now key rate capacity).1.tokens ∧
      (limiter.touch now key rate capacity).1.tokens ≤ capacity := by
  rw [touch_fst_eq]
  cases hget : limiter.buckets.get? key with
  | none => exact ⟨hcapacity, le_refl _⟩
  | some bucket =>
    obtain ⟨hle, hfull⟩ := Bucket.refilled_tokens hrate (h bucket hget).2 now
    exact ⟨(h bucket hget).1.trans hle, hfull⟩

/-- Every call keeps the tokens within the capacity. -/
theorem Filled.perform (h : Filled key capacity limiter) (hrate : 0 < rate) (hcapacity : 0 < capacity)
    (hadmits : Admits key rate capacity limiter call) :
    Filled key capacity (limiter.perform call).1 := by
  intro bucket hget
  by_cases hkey : call.key = key
  · obtain ⟨hnonneg, hfull⟩ := h.touch hrate.le hcapacity.le call.now
    obtain ⟨-, -, hleft⟩ | ⟨hle, -, hleft⟩ := perform_own hrate hadmits.uses hkey
      (rfl : (limiter.touch call.now key rate capacity).1 = _)
    · rw [hleft] at hget
      cases hget
      exact ⟨hnonneg, hfull⟩
    · rw [hleft] at hget
      cases hget
      have hcost := (hadmits.uses hkey).2.2.1
      exact ⟨sub_nonneg.mpr hle, by dsimp only; linarith⟩
  · rw [perform_other hkey hadmits.keeps] at hget
    exact h bucket hget

/-- A bucket was last refilled when a call of its key was made. -/
def RefilledBy (key : String) (calls : List Check) (limiter : RateLimiter) : Prop :=
  ∀ bucket, limiter.buckets.get? key = some bucket → ∃ call ∈ calls, bucket.lastRefill = call.now

theorem RefilledBy.perform {calls : List Check} (h : RefilledBy key calls limiter) (hrate : 0 < rate)
    (hadmits : Admits key rate capacity limiter call) :
    RefilledBy key (calls ++ [call]) (limiter.perform call).1 := by
  intro bucket hget
  have hlater : ∀ old, limiter.buckets.get? key = some old →
      ∃ call' ∈ calls ++ [call], old.lastRefill = call'.now := by
    intro old hold
    obtain ⟨call', hmem, heq⟩ := h old hold
    exact ⟨call', List.mem_append_left _ hmem, heq⟩
  by_cases hkey : call.key = key
  · have htouched : ∃ call' ∈ calls ++ [call],
        (limiter.touch call.now key rate capacity).1.lastRefill = call'.now := by
      have hself : call ∈ calls ++ [call] := List.mem_append_right _ (List.mem_singleton.mpr rfl)
      rw [touch_fst_eq]
      cases hold : limiter.buckets.get? key with
      | none => exact ⟨call, hself, rfl⟩
      | some old =>
        show ∃ call' ∈ calls ++ [call], (old.refilled call.now rate capacity).lastRefill = call'.now
        rw [Bucket.refilled_lastRefill]
        rcases max_choice call.now old.lastRefill with hmax | hmax
        · exact ⟨call, hself, hmax⟩
        · rw [hmax]
          exact hlater old hold
    obtain ⟨-, -, hleft⟩ | ⟨-, -, hleft⟩ := perform_own hrate hadmits.uses hkey
      (rfl : (limiter.touch call.now key rate capacity).1 = _)
    · rw [hleft] at hget
      cases hget
      exact htouched
    · rw [hleft] at hget
      cases hget
      exact htouched
  · rw [perform_other hkey hadmits.keeps] at hget
    exact hlater bucket hget

/-! ### The costs -/

/-- The tokens are within the capacity, and the clock has not stepped back behind the last refill. -/
structure Current (key : String) (capacity : ℚ) (limiter : RateLimiter) (t : ℚ) : Prop where
  filled : Filled key capacity limiter
  refilled : ∀ bucket, limiter.buckets.get? key = some bucket → (bucket.lastRefill : ℚ) ≤ t

/-- What a call of the key looks at is its level. -/
theorem Current.touch (h : Current key capacity limiter call.now) :
    (limiter.touch call.now key rate capacity).1 =
      ⟨limiter.level key rate capacity call.now, call.now⟩ :=
  touch_fst fun bucket hget =>
    ⟨(h.filled bucket hget).2, by exact_mod_cast h.refilled bucket hget⟩

/-- A call takes what it pays from the level. -/
theorem Current.perform (h : Current key capacity limiter call.now) (hrate : 0 < rate)
    (hcapacity : 0 < capacity) (hadmits : Admits key rate capacity limiter call) :
    Current key capacity (limiter.perform call).1 call.now ∧
      (limiter.perform call).1.level key rate capacity call.now +
          paid key call (limiter.perform call).2 =
        limiter.level key rate capacity call.now := by
  have hfilled := h.filled.perform hrate hcapacity hadmits
  by_cases hkey : call.key = key
  · have hleft : ∀ tokens, (limiter.perform call).1.buckets.get? key = some ⟨tokens, call.now⟩ →
        Current key capacity (limiter.perform call).1 call.now ∧
          (limiter.perform call).1.level key rate capacity call.now = tokens := by
      intro tokens hget
      refine ⟨⟨hfilled, fun bucket hbucket => ?_⟩, level_of_refilled hget (hfilled _ hget).2⟩
      rw [hget] at hbucket
      cases hbucket
      exact le_refl _
    obtain ⟨-, hanswer, hget⟩ | ⟨-, hanswer, hget⟩ := perform_own hrate hadmits.uses hkey h.touch
    · obtain ⟨hcurrent, hlevel⟩ := hleft _ hget
      refine ⟨hcurrent, ?_⟩
      rw [hlevel, hanswer, paid, add_zero]
    · obtain ⟨hcurrent, hlevel⟩ := hleft _ hget
      refine ⟨hcurrent, ?_⟩
      rw [hlevel, hanswer, paid, if_pos hkey, sub_add_cancel]
  · have hsame := perform_other hkey hadmits.keeps
    refine ⟨⟨hfilled, fun bucket hget => h.refilled bucket (hsame ▸ hget)⟩, ?_⟩
    have hlevel : (limiter.perform call).1.level key rate capacity call.now =
        limiter.level key rate capacity call.now := by
      unfold level
      rw [hsame]
    have hpaid : paid key call (limiter.perform call).2 = 0 := by
      unfold paid
      split
      · exact if_neg hkey
      · rfl
    rw [hlevel, hpaid, add_zero]

/-- The key is priced by its level. -/
theorem priced (hrate : 0 < rate) (hcapacity : 0 < capacity) :
    TokenBucket.Priced perform (Admits key rate capacity) (fun call => (call.now : ℚ)) (paid key)
      capacity rate (fun limiter t => limiter.level key rate capacity t) (Current key capacity) where
  rate_nonneg := hrate.le
  nonneg limiter t h := level_nonneg hrate.le hcapacity.le fun bucket hget =>
    ⟨(h.filled bucket hget).1, h.refilled bucket hget⟩
  le_capacity limiter t _ := level_le_capacity key t
  refills limiter t u _ htu := level_refill hrate.le key htu
  later limiter t u h htu := ⟨h.filled, fun bucket hget => (h.refilled bucket hget).trans htu⟩
  valid_step limiter call hadmits h := (h.perform hrate hcapacity hadmits).1
  cost_nonneg limiter call hadmits := by
    unfold paid
    split
    · split_ifs with hkey
      · exact (hadmits.uses hkey).2.2.1.le
      · exact le_refl 0
    · exact le_refl 0
  charge limiter call hadmits h := (h.perform hrate hcapacity hadmits).2.le

/-! ### When a refused call succeeds -/

/-- `Retry-After`, as `throttled_response` computes it. -/
def retryAfterSeconds (retryAfter : ℚ) : ℤ := max 1 ⌈retryAfter⌉

/-- The call is not an admitted one of the key. -/
def NotAdmitted (key : String) (limiter : RateLimiter) (call : Check) : Prop :=
  call.key = key → (limiter.perform call).2 ≠ .ok ()

/-- The bucket, refilled at the time, will hold the cost. -/
def Suffices (key : String) (rate capacity cost : ℚ) (now : ℤ) (limiter : RateLimiter) : Prop :=
  ∃ bucket, limiter.buckets.get? key = some bucket ∧ bucket.tokens ≤ capacity ∧
    cost ≤ (bucket.refilled now rate capacity).tokens

/-- A call that is refused leaves enough from its retry time on. -/
theorem suffices_of_refused (hrate : 0 < rate) (hfilled : Filled key capacity limiter)
    (huses : call.Uses key rate capacity) (hkey : call.key = key) {old : Bucket} {retryAfter : ℚ}
    (hold : limiter.buckets.get? key = some old)
    (hrefused : (limiter.perform call).2 = .error (.exceeded retryAfter)) {now : ℤ}
    (hlate : max call.now old.lastRefill + retryAfterSeconds retryAfter ≤ now) :
    Suffices key rate capacity call.cost now (limiter.perform call).1 := by
  have htouched : (limiter.touch call.now key rate capacity).1 =
      old.refilled call.now rate capacity := by
    rw [touch_fst_eq, hold]
    rfl
  obtain ⟨hlt, hanswer, hleft⟩ | ⟨-, hanswer, -⟩ := perform_own hrate huses hkey htouched
  · rw [hrefused] at hanswer
    cases hanswer
    have hfull := (Bucket.refilled_tokens hrate.le (hfilled old hold).2 call.now).2
    refine ⟨_, hleft, hfull, ?_⟩
    have hlast := Bucket.refilled_lastRefill old call.now rate capacity
    generalize old.refilled call.now rate capacity = bucket at *
    rw [← hlast] at hlate
    have hone : 1 ≤ retryAfterSeconds ((call.cost - bucket.tokens) / rate) := le_max_left _ _
    -- What is missing refills in the time that was answered.
    have hmissing : (call.cost - bucket.tokens) / rate ≤ ((now - bucket.lastRefill : ℤ) : ℚ) := by
      have hceil : ⌈(call.cost - bucket.tokens) / rate⌉ ≤ now - bucket.lastRefill := by
        have hle : ⌈(call.cost - bucket.tokens) / rate⌉ ≤
            retryAfterSeconds ((call.cost - bucket.tokens) / rate) := le_max_right _ _
        omega
      exact Int.ceil_le.mp hceil
    have hrefills : call.cost - bucket.tokens ≤ ((now - bucket.lastRefill : ℤ) : ℚ) * rate :=
      (div_le_iff₀ hrate).mp hmissing
    unfold Bucket.refilled
    rw [if_pos (by omega)]
    exact le_min (huses hkey).2.2.2 (by linarith)
  · rw [hrefused] at hanswer
    cases hanswer

/-- A call that is not admitted takes nothing. -/
theorem Suffices.perform {cost : ℚ} {now : ℤ} (h : Suffices key rate capacity cost now limiter)
    (hrate : 0 < rate) (hadmits : Admits key rate capacity limiter call)
    (hnot : NotAdmitted key limiter call) :
    Suffices key rate capacity cost now (limiter.perform call).1 := by
  obtain ⟨bucket, hget, hfull, hcost⟩ := h
  by_cases hkey : call.key = key
  · have htouched : (limiter.touch call.now key rate capacity).1 =
        bucket.refilled call.now rate capacity := by
      rw [touch_fst_eq, hget]
      rfl
    obtain ⟨-, -, hleft⟩ | ⟨-, hanswer, -⟩ := perform_own hrate hadmits.uses hkey htouched
    · exact ⟨_, hleft, (Bucket.refilled_tokens hrate.le hfull call.now).2,
        hcost.trans (Bucket.refilled_refilled hrate.le hfull call.now now)⟩
    · exact absurd hanswer (hnot hkey)
  · exact ⟨bucket, (perform_other hkey hadmits.keeps).trans hget, hfull, hcost⟩

/-- A call whose cost the bucket will hold succeeds. -/
theorem Suffices.admitted (h : Suffices key rate capacity call.cost call.now limiter)
    (hrate : 0 < rate) (huses : call.Uses key rate capacity) (hkey : call.key = key) :
    (limiter.perform call).2 = .ok () := by
  obtain ⟨bucket, hget, -, hcost⟩ := h
  have htouched : (limiter.touch call.now key rate capacity).1 =
      bucket.refilled call.now rate capacity := by
    rw [touch_fst_eq, hget]
    rfl
  obtain ⟨hlt, -, -⟩ | ⟨-, hanswer, -⟩ := perform_own hrate huses hkey htouched
  · exact absurd hcost (not_le.mpr hlt)
  · exact hanswer

/-! ### Every run -/

/-- The calls, from the limiter on, use the key with one rate and one capacity and do not evict it. -/
def Run (key : String) (rate capacity : ℚ) (limiter : RateLimiter) (calls : List Check) : Prop :=
  Along (fun limiter call => (limiter.perform call).1) (Admits key rate capacity) limiter calls

/-- A call that is refused with `retryAfter` is followed by others of which none is admitted, and then
by another one of its cost. -/
structure Retries (key : String) (rate capacity : ℚ) (limiter : RateLimiter) (call again : Check)
    (retryAfter : ℚ) (between : List Check) : Prop where
  uses : call.Uses key rate capacity
  own : call.key = key
  refused : (limiter.perform call).2 = .error (.exceeded retryAfter)
  between : Along (fun limiter call => (limiter.perform call).1)
    (fun limiter call => Admits key rate capacity limiter call ∧ NotAdmitted key limiter call)
    (limiter.perform call).1 between
  again_uses : again.Uses key rate capacity
  again_key : again.key = key
  again_cost : again.cost = call.cost

/-- The answer to the call that comes again. -/
def answerAgain (limiter : RateLimiter) (call again : Check) (between : List Check) :
    Except CheckError Unit :=
  (((limiter.perform call).1.performAll between).perform again).2

/-- What holds of a key after the calls of a list. -/
structure Budget (key : String) (rate capacity : ℚ) (start : RateLimiter) (calls : List Check) :
    Prop where
  /-- The tokens are within the capacity. -/
  within : Filled key capacity (start.performAll calls)
  /-- What is admitted in an interval is bounded while the clock does not step back. -/
  admitted : (calls.map Check.now).Pairwise (· ≤ ·) → ∀ t₁ t₂ : ℤ, t₁ ≤ t₂ →
    TokenBucket.paidWithin (fun call => (call.now : ℚ)) (paid key) t₁ t₂
      (answers perform start calls) ≤ capacity + rate * (t₂ - t₁)
  /-- A refused call, of any key, refills the bucket of its key and changes no other. -/
  refused : ∀ call retryAfter,
    ((start.performAll calls).perform call).2 = .error (.exceeded retryAfter) →
    ∃ bucket, (start.performAll calls).buckets.get? call.key = some bucket ∧
      ((start.performAll calls).perform call).1.buckets.get? call.key =
        some (bucket.refilled call.now call.limitRps (call.capacity.getD call.limitRps)) ∧
      ∀ other, call.key ≠ other → ((start.performAll calls).perform call).1.buckets.get? other =
        (start.performAll calls).buckets.get? other
  /-- The bucket was last refilled at a reading of the clock in the run. -/
  lastRefill : RefilledBy key calls (start.performAll calls)
  /-- From its retry time on, counted from the last refill, a refused call succeeds. -/
  retries : ∀ call again retryAfter between,
    Retries key rate capacity (start.performAll calls) call again retryAfter between →
    ∀ old, (start.performAll calls).buckets.get? key = some old →
      max call.now old.lastRefill + retryAfterSeconds retryAfter ≤ again.now →
      (start.performAll calls).answerAgain call again between = .ok ()

/-- What every run keeps of the key's bucket. -/
theorem run_keeps (hrate : 0 < rate) (hcapacity : 0 < capacity) {earlier calls : List Check}
    (hfilled : Filled key capacity limiter) (hrefilled : RefilledBy key earlier limiter)
    (hrun : Run key rate capacity limiter calls) :
    Filled key capacity (limiter.performAll calls) ∧
      RefilledBy key (earlier ++ calls) (limiter.performAll calls) := by
  induction calls generalizing limiter earlier with
  | nil =>
    rw [List.append_nil]
    exact ⟨hfilled, hrefilled⟩
  | cons call rest ih =>
    obtain ⟨hadmits, hrun⟩ := hrun
    have hnext := ih (hfilled.perform hrate hcapacity hadmits) (hrefilled.perform hrate hadmits) hrun
    rw [List.append_assoc] at hnext
    exact hnext

/-- **The budget of one key**, in every run from an empty limiter that uses the key with one rate and
one capacity and does not evict it. -/
theorem budget (key : String) (rate capacity : ℚ) (maxKeys : ℕ) (hmax : 0 < maxKeys)
    (hrate : 0 < rate) (hcapacity : 0 < capacity) (calls : List Check)
    (hrun : Run key rate capacity (empty maxKeys hmax) calls) :
    Budget key rate capacity (empty maxKeys hmax) calls := by
  have hempty : ∀ bucket, (empty maxKeys hmax).buckets.get? key ≠ some bucket := by
    intro bucket hget
    cases (show (Dict.empty : Dict String Bucket).get? key = some bucket from hget)
  have hstart : ∀ t, Current key capacity (empty maxKeys hmax) t := fun t =>
    ⟨fun bucket hget => absurd hget (hempty bucket), fun bucket hget => absurd hget (hempty bucket)⟩
  have hnone : RefilledBy key [] (empty maxKeys hmax) :=
    fun bucket hget => absurd hget (hempty bucket)
  obtain ⟨hfilled, hrefilled⟩ := run_keeps hrate hcapacity (hstart 0).filled hnone hrun
  refine ⟨hfilled, fun hsorted t₁ t₂ hinterval => ?_, fun _ _ => perform_exceeded, hrefilled, ?_⟩
  · have htimes : (calls.map fun call => (call.now : ℚ)).Pairwise (· ≤ ·) := by
      rw [List.pairwise_map] at hsorted ⊢
      exact hsorted.imp fun hle => by exact_mod_cast hle
    have hcast : (t₁ : ℚ) ≤ t₂ := by exact_mod_cast hinterval
    have hle := (priced hrate hcapacity).paidWithin_le hcast hstart calls hrun htimes
    calc _ ≤ capacity + ((t₂ : ℚ) - t₁) * rate := hle
      _ = capacity + rate * (t₂ - t₁) := by ring
  · intro call again retryAfter between h old hold hlate
    have hsuffices := suffices_of_refused hrate hfilled h.uses h.own hold h.refused hlate
    rw [← h.again_cost] at hsuffices
    have hlast := h.between.invariant
      (fun limiter call hs hadmits => Suffices.perform hs hrate hadmits.1 hadmits.2) hsuffices
    exact hlast.admitted hrate h.again_uses h.again_key

/-- A key that is used alone is not evicted. -/
theorem run_alone (hrate : 0 < rate) {calls : List Check}
    (h : ∀ call ∈ calls, call.Uses key rate capacity ∧ call.key = key) :
    Run key rate capacity limiter calls := by
  refine Along.of_forall fun limiter call hcall => ?_
  obtain ⟨huses, hkey⟩ := h call hcall
  refine ⟨huses, fun _ => Dict.mem_keys_iff.mpr ?_⟩
  obtain ⟨-, -, hleft⟩ | ⟨-, -, hleft⟩ := perform_own hrate huses hkey
    (rfl : (limiter.touch call.now key rate capacity).1 = _)
  · exact ⟨_, hleft⟩
  · exact ⟨_, hleft⟩

/-- A call of an agent that is allowed one request a second. -/
def agentCheck (now : ℤ) : Check := ⟨now, "agent", 1, 1, none⟩

theorem agentCheck_uses (now : ℤ) : (agentCheck now).Uses "agent" 1 1 :=
  fun _ => ⟨rfl, rfl, zero_lt_one, le_refl _⟩

/-- Two calls at one time: the second is refused. -/
theorem budget_agent : Budget "agent" 1 1 (empty 1 Nat.one_pos) [agentCheck 0, agentCheck 0] := by
  refine budget "agent" 1 1 1 Nat.one_pos zero_lt_one zero_lt_one _ (run_alone zero_lt_one ?_)
  intro call hcall
  simp only [List.mem_cons, List.not_mem_nil, or_false, or_self] at hcall
  rw [hcall]
  exact ⟨agentCheck_uses 0, rfl⟩

/-- A clock behind the last refill of an empty bucket: the call is refused, and the bucket stays. -/
theorem agentCheck_refused {now : ℤ} (hnow : now ≤ 100)
    (hget : limiter.buckets.get? "agent" = some ⟨0, 100⟩) :
    (limiter.perform (agentCheck now)).2 = .error (.exceeded 1) ∧
      (limiter.perform (agentCheck now)).1.buckets.get? "agent" = some ⟨0, 100⟩ := by
  have htouched : (limiter.touch (agentCheck now).now "agent" 1 1).1 = ⟨0, 100⟩ := by
    rw [touch_fst_eq, hget]
    exact if_neg (not_lt.mpr (sub_nonpos.mpr hnow))
  obtain ⟨-, hanswer, hleft⟩ | ⟨hle, -, -⟩ :=
    perform_own zero_lt_one (agentCheck_uses now) rfl htouched
  · refine ⟨?_, hleft⟩
    rw [hanswer]
    norm_num [agentCheck]
  · exact absurd hle (by norm_num [agentCheck])

/-- The clock steps back by 100 seconds after a call. The next one is refused for one second, and it
is refused again after that second. -/
theorem stepped_back_refused_again : ∃ retryAfter,
    Run "agent" 1 1 (empty 1 Nat.one_pos) [agentCheck 100] ∧
    Retries "agent" 1 1 ((empty 1 Nat.one_pos).performAll [agentCheck 100]) (agentCheck 0)
      (agentCheck 1) retryAfter [] ∧
    (agentCheck 0).now + retryAfterSeconds retryAfter ≤ (agentCheck 1).now ∧
    ((empty 1 Nat.one_pos).performAll [agentCheck 100]).answerAgain (agentCheck 0) (agentCheck 1) [] ≠
      .ok () := by
  have hrun : Run "agent" 1 1 (empty 1 Nat.one_pos) [agentCheck 100] := by
    refine run_alone zero_lt_one fun call hcall => ?_
    rw [List.mem_singleton.mp hcall]
    exact ⟨agentCheck_uses 100, rfl⟩
  have hspent : ((empty 1 Nat.one_pos).performAll [agentCheck 100]).buckets.get? "agent" =
      some ⟨0, 100⟩ := by
    have htouched : ((empty 1 Nat.one_pos).touch (agentCheck 100).now "agent" 1 1).1 = ⟨1, 100⟩ := rfl
    obtain ⟨hlt, -, -⟩ | ⟨-, -, hleft⟩ :=
      perform_own zero_lt_one (agentCheck_uses 100) rfl htouched
    · exact absurd hlt (by norm_num [agentCheck])
    · rw [show (⟨0, 100⟩ : Bucket) = ⟨1 - (agentCheck 100).cost, 100⟩ by norm_num [agentCheck]]
      exact hleft
  obtain ⟨hrefused, hstays⟩ := agentCheck_refused (by norm_num : (0 : ℤ) ≤ 100) hspent
  obtain ⟨hagain, -⟩ := agentCheck_refused (by norm_num : (1 : ℤ) ≤ 100) hstays
  refine ⟨1, hrun, ⟨agentCheck_uses 0, rfl, hrefused, trivial, agentCheck_uses 1, rfl, rfl⟩, ?_, ?_⟩
  · show (0 : ℤ) + max 1 ⌈(1 : ℚ)⌉ ≤ 1
    norm_num
  · intro hok
    cases hagain.symm.trans hok

end RateLimiter

end Hammertime.Ingest
