import Mathlib.Algebra.BigOperators.Fin
import Mathlib.Data.List.Sort
import Hammertime.Detection

/-!
# Per-IP ring of buckets with a maintained running total

`IpCounter` of the aggregator's `window/counter.py`: `bucketCount` slots of `bucketSeconds` each. A
bucket that starts at `S` lives in slot `bucketIndex S` and is live at `now` while
`0 ≤ bucketStart now - S < windowSeconds`.

The counter carries what its operations keep: an occupied slot holds an aligned bucket that hashes
to it, an empty slot counts nothing, no count is negative, and the running total is the sum of the
counts. Nothing in it says that the occupied slots are live: only a sweep or a collision removes a
bucket that has left the window.
-/

namespace Hammertime.Aggregator

open scoped BigOperators

/-- The slot of a bucket start is a slot of the ring. -/
theorem bucketIndex_lt (start bucketSeconds : ℤ) {bucketCount : ℕ} (h : 0 < bucketCount) :
    (bucketIndex start bucketSeconds bucketCount).toNat < bucketCount := by
  have hpos : (0 : ℤ) < bucketCount := by exact_mod_cast h
  have hlt := Int.fmod_lt_of_pos (start.fdiv bucketSeconds) hpos
  unfold bucketIndex
  omega

/-- `buckets.bucket_index` as an index of the ring. -/
def slotOf (start bucketSeconds : ℤ) {bucketCount : ℕ} (h : 0 < bucketCount) : Fin bucketCount :=
  ⟨(bucketIndex start bucketSeconds bucketCount).toNat, bucketIndex_lt start bucketSeconds h⟩

/-- `IpCounter`. -/
structure IpCounter where
  bucketSeconds : ℤ
  bucketCount : ℕ
  /-- `_starts`: the bucket each slot holds, if any. -/
  starts : Fin bucketCount → Option ℤ
  /-- `_counts`. -/
  counts : Fin bucketCount → ℤ
  /-- `_total`, the maintained running total. -/
  total : ℤ
  bucketSeconds_pos : 0 < bucketSeconds
  bucketCount_pos : 0 < bucketCount
  /-- An occupied slot holds a bucket that hashes to it. -/
  slot_eq : ∀ i start, starts i = some start → slotOf start bucketSeconds bucketCount_pos = i
  /-- The bucket of an occupied slot is aligned. -/
  aligned : ∀ i start, starts i = some start → start.fmod bucketSeconds = 0
  /-- An empty slot counts nothing. -/
  count_empty : ∀ i, starts i = none → counts i = 0
  counts_nonneg : ∀ i, 0 ≤ counts i
  /-- The running total is the sum that is never recomputed. -/
  total_eq : total = ∑ i, counts i

namespace IpCounter

/-- `IpCounter(bucket_seconds=..., bucket_count=...)` where the ring can be allocated: an empty one, or
the refusal of one of the two checks. -/
def makeRing (bucketSeconds bucketCount : ℤ) : Except Failure IpCounter :=
  if hs : 0 < bucketSeconds then
    if hc : 0 < bucketCount then
      .ok
        { bucketSeconds := bucketSeconds
          bucketCount := bucketCount.toNat
          starts := fun _ => none
          counts := fun _ => 0
          total := 0
          bucketSeconds_pos := hs
          bucketCount_pos := by omega
          slot_eq := by simp
          aligned := by simp
          count_empty := by simp
          counts_nonneg := by simp
          total_eq := by simp }
    else .error (.valueError s!"bucket_count must be positive, got {bucketCount}")
  else .error (.valueError s!"bucket_seconds must be positive, got {bucketSeconds}")

/-- `sys.maxsize`, of a 64-bit interpreter. -/
def maxsize : ℤ := 2 ^ 63 - 1

/-- The most pointers that a list can be given: their bytes are at most `maxsize`. -/
def maxSlots : ℤ := maxsize / 8

/-- `IpCounter(bucket_seconds=..., bucket_count=...)`: `[None] * bucket_count` raises for more slots than
a list can have. Below that bound it is a matter of the machine whether there is memory for the ring,
which is taken for granted. -/
def make (bucketSeconds bucketCount : ℤ) : Except Failure IpCounter :=
  match makeRing bucketSeconds bucketCount with
  | .error e => .error e
  | .ok counter =>
    if maxsize < bucketCount then .error .overflowError
    else if maxSlots < bucketCount then .error .memoryError
    else .ok counter

variable (c : IpCounter)

/-- `window_seconds`. -/
def windowSeconds : ℤ := c.bucketSeconds * c.bucketCount

/-- The slot of a bucket. -/
def slot (start : ℤ) : Fin c.bucketCount := slotOf start c.bucketSeconds c.bucketCount_pos

/-- `is_live`: the bucket starting at `start` is in the ring at `now`. -/
def isLive (start now : ℤ) : Bool :=
  let age := bucketStart now c.bucketSeconds - start
  decide (0 ≤ age ∧ age < c.windowSeconds)

/-- The first half of `observe`: a slot that holds another bucket is emptied for `start`. Where it
holds `start` already, every write below writes back what is there. -/
def claimSlot (start : ℤ) (haligned : start.fmod c.bucketSeconds = 0) : IpCounter :=
  let held := c.starts (c.slot start) = some start
  { c with
    total := if held then c.total else c.total - c.counts (c.slot start)
    starts := Function.update c.starts (c.slot start) (some start)
    counts := Function.update c.counts (c.slot start) (if held then c.counts (c.slot start) else 0)
    slot_eq := by
      intro i s hs
      rw [Function.update_apply] at hs
      split_ifs at hs with hi
      · cases hs
        exact hi.symm
      · exact c.slot_eq i s hs
    aligned := by
      intro i s hs
      rw [Function.update_apply] at hs
      split_ifs at hs with hi
      · cases hs
        exact haligned
      · exact c.aligned i s hs
    count_empty := by
      intro i hi
      rw [Function.update_apply] at hi ⊢
      split_ifs at hi ⊢ with h
      exact c.count_empty i hi
    counts_nonneg := by
      intro i
      rw [Function.update_apply]
      split_ifs
      · exact c.counts_nonneg _
      · exact le_refl 0
      · exact c.counts_nonneg i
    total_eq := by
      rw [Finset.sum_update_of_mem (Finset.mem_univ _), c.total_eq,
        ← Finset.add_sum_erase _ _ (Finset.mem_univ (c.slot start)),
        Finset.sdiff_singleton_eq_erase]
      split_ifs <;> ring }

/-- The second half of `observe`: the delta is added to the slot that holds `start`. -/
def deposit (start delta : ℤ) (hslot : c.starts (c.slot start) = some start)
    (hdelta : 0 ≤ delta) : IpCounter :=
  { c with
    counts := Function.update c.counts (c.slot start) (c.counts (c.slot start) + delta)
    total := c.total + delta
    count_empty := by
      intro i hi
      rw [Function.update_apply]
      split_ifs with h
      · rw [h, hslot] at hi
        cases hi
      · exact c.count_empty i hi
    counts_nonneg := by
      intro i
      rw [Function.update_apply]
      split_ifs with h
      · exact add_nonneg (c.counts_nonneg _) hdelta
      · exact c.counts_nonneg i
    total_eq := by
      rw [Finset.sum_update_of_mem (Finset.mem_univ _), c.total_eq,
        ← Finset.add_sum_erase _ _ (Finset.mem_univ (c.slot start)),
        Finset.sdiff_singleton_eq_erase]
      ring }

theorem claimSlot_starts (start : ℤ) (h : start.fmod c.bucketSeconds = 0) :
    (c.claimSlot start h).starts ((c.claimSlot start h).slot start) = some start := by
  show Function.update c.starts (c.slot start) (some start) (c.slot start) = some start
  exact Function.update_self _ _ _

/-- The counter with an accepted observation added. -/
def add (start delta : ℤ) (haligned : start.fmod c.bucketSeconds = 0) (hdelta : 0 ≤ delta) :
    IpCounter :=
  (c.claimSlot start haligned).deposit start delta (c.claimSlot_starts start haligned) hdelta

/-- `observe`: add `delta` to the bucket starting at `start`. The answer is whether the bucket was
live; a bucket that is not changes nothing. -/
def observe (start delta now : ℤ) : Except Failure (Bool × IpCounter) :=
  if haligned : start.fmod c.bucketSeconds = 0 then
    if hdelta : 0 ≤ delta then
      if c.isLive start now then .ok (true, c.add start delta haligned hdelta)
      else .ok (false, c)
    else .error (.valueError s!"delta must be non-negative, got {delta}")
  else
    .error (.valueError
      s!"bucket start {start} is not a multiple of bucket_seconds {c.bucketSeconds}")

/-- The slot holds a bucket that is not in the window at `now`. -/
def expired (now : ℤ) (i : Fin c.bucketCount) : Bool :=
  match c.starts i with
  | none => false
  | some start => !c.isLive start now

/-- The amount `expire` takes out. -/
def expiredCount (now : ℤ) : ℤ := ∑ i, if c.expired now i then c.counts i else 0

/-- `expire`: every slot whose bucket has left the window is emptied; the amount removed comes
with the counter. -/
def expire (now : ℤ) : ℤ × IpCounter :=
  (c.expiredCount now,
    { c with
      starts := fun i => if c.expired now i then none else c.starts i
      counts := fun i => if c.expired now i then 0 else c.counts i
      total := c.total - c.expiredCount now
      slot_eq := by
        intro i s hs
        split_ifs at hs
        exact c.slot_eq i s hs
      aligned := by
        intro i s hs
        split_ifs at hs
        exact c.aligned i s hs
      count_empty := by
        intro i hi
        split_ifs at hi ⊢
        · rfl
        · exact c.count_empty i hi
      counts_nonneg := by
        intro i
        split_ifs
        · exact le_refl 0
        · exact c.counts_nonneg i
      total_eq := by
        rw [c.total_eq, expiredCount, ← Finset.sum_sub_distrib]
        refine Finset.sum_congr rfl fun i _ => ?_
        split_ifs <;> ring })

/-- The `(start, count)` pairs of the slots that count something, in slot order. -/
def occupied : List (ℤ × ℤ) :=
  (List.finRange c.bucketCount).filterMap fun i =>
    match c.starts i with
    | none => none
    | some start => if 0 < c.counts i then some (start, c.counts i) else none

/-- `next_expiry`: the oldest bucket that counts something, plus the window. -/
def nextExpiry : Option ℤ :=
  (c.occupied.map Prod.fst).min?.map fun oldest => oldest + c.windowSeconds

/-- `live_buckets`: the pairs of the live slots that count something, oldest first. -/
def liveBuckets (now : ℤ) : List (ℤ × ℤ) :=
  (c.occupied.filter fun p => c.isLive p.1 now).insertionSort fun p q =>
    p.1 < q.1 ∨ p.1 = q.1 ∧ p.2 ≤ q.2

/-! ### What the operations do to the total and the geometry -/

theorem total_nonneg : 0 ≤ c.total := by
  rw [c.total_eq]
  exact Finset.sum_nonneg fun i _ => c.counts_nonneg i

theorem expiredCount_nonneg (now : ℤ) : 0 ≤ c.expiredCount now := by
  refine Finset.sum_nonneg fun i _ => ?_
  split_ifs
  · exact c.counts_nonneg i
  · exact le_refl 0

theorem expire_total (now : ℤ) : (c.expire now).2.total = c.total - (c.expire now).1 := rfl

theorem expire_fst_nonneg (now : ℤ) : 0 ≤ (c.expire now).1 := c.expiredCount_nonneg now

variable {c}

/-- What an accepted observation is: aligned, not negative, live, and added. -/
theorem observe_true {start delta now : ℤ} {c' : IpCounter}
    (h : c.observe start delta now = .ok (true, c')) :
    ∃ haligned hdelta, c.isLive start now = true ∧ c' = c.add start delta haligned hdelta := by
  unfold observe at h
  split_ifs at h with ha hd hl
  · exact ⟨ha, hd, hl, by simpa using h.symm⟩
  · simp at h

/-- An observation of a bucket that is not live changes nothing. -/
theorem observe_false {start delta now : ℤ} {c' : IpCounter}
    (h : c.observe start delta now = .ok (false, c')) :
    c.isLive start now = false ∧ c' = c := by
  unfold observe at h
  split_ifs at h with ha hd hl
  · simp at h
  · exact ⟨by simpa using hl, by simpa using h.symm⟩

/-- An aligned observation with a count is not refused. -/
theorem exists_observe (c : IpCounter) (start now : ℤ) {delta : ℤ}
    (haligned : start.fmod c.bucketSeconds = 0) (hdelta : 0 ≤ delta) :
    ∃ answer, c.observe start delta now = .ok answer := by
  unfold observe
  rw [dif_pos haligned, dif_pos hdelta]
  split_ifs
  · exact ⟨_, rfl⟩
  · exact ⟨_, rfl⟩

/-- No observation changes the geometry. -/
theorem observe_bucketSeconds {start delta now : ℤ} {answer : Bool × IpCounter}
    (h : c.observe start delta now = .ok answer) : answer.2.bucketSeconds = c.bucketSeconds := by
  obtain ⟨applied, c'⟩ := answer
  cases applied with
  | true =>
    obtain ⟨_, _, -, rfl⟩ := observe_true h
    rfl
  | false => rw [(observe_false h).2]

theorem makeRing_ok {bucketSeconds bucketCount : ℤ}
    (h : makeRing bucketSeconds bucketCount = .ok c) :
    c.bucketSeconds = bucketSeconds ∧ c.total = 0 := by
  unfold makeRing at h
  split_ifs at h
  cases h
  exact ⟨rfl, rfl⟩

theorem exists_makeRing {bucketSeconds bucketCount : ℤ} (hs : 0 < bucketSeconds)
    (hc : 0 < bucketCount) : ∃ c, makeRing bucketSeconds bucketCount = .ok c := by
  unfold makeRing
  rw [dif_pos hs, dif_pos hc]
  exact ⟨_, rfl⟩

/-- The constructor returns exactly for a positive geometry with no more slots than a list can have. -/
theorem exists_make_iff {bucketSeconds bucketCount : ℤ} (hs : 0 < bucketSeconds)
    (hc : 0 < bucketCount) :
    (∃ c, make bucketSeconds bucketCount = .ok c) ↔ bucketCount ≤ maxSlots := by
  obtain ⟨c, hc⟩ := exists_makeRing hs hc
  unfold make
  rw [hc]
  dsimp only
  constructor
  · rintro ⟨c', hc'⟩
    split_ifs at hc' with hmax hslots
    exact not_lt.mp hslots
  · intro hle
    have hmax : bucketCount ≤ maxsize := hle.trans (by decide)
    rw [if_neg (not_lt.mpr hmax), if_neg (not_lt.mpr hle)]
    exact ⟨c, rfl⟩

/-- The pairs of `live_buckets` count something. -/
theorem pos_of_mem_liveBuckets {now : ℤ} {bucket : ℤ × ℤ} (h : bucket ∈ c.liveBuckets now) :
    0 < bucket.2 := by
  unfold liveBuckets at h
  rw [List.mem_insertionSort, List.mem_filter] at h
  obtain ⟨hm, -⟩ := h
  obtain ⟨i, -, hi⟩ := List.mem_filterMap.mp hm
  split at hi
  · cases hi
  · split_ifs at hi with hpos
    cases hi
    exact hpos

end IpCounter

end Hammertime.Aggregator
