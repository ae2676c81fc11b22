import Hammertime.Aggregator.Ring
import Hammertime.Aggregator.WindowSpec

/-!
# Rebucketing one counter

`apply_config` gives an IP a ring of the new geometry and observes each live pair of the old ring
again, at its start under the new bucket length. All of it happens at one time, so nothing that is
observed displaces anything: the new ring holds the groups of the old pairs that are live under the
new window, and its total is their sum.
-/

namespace Hammertime.Aggregator

open Lib
open scoped BigOperators

namespace IpCounter

variable {c : IpCounter} {start delta now : ℤ}

/-! ### The pairs of `live_buckets` -/

theorem mem_occupied {bucket : ℤ × ℤ} :
    bucket ∈ c.occupied ↔ c.held bucket.1 = bucket.2 ∧ 0 < bucket.2 := by
  obtain ⟨start, count⟩ := bucket
  unfold occupied
  rw [List.mem_filterMap]
  constructor
  · rintro ⟨i, -, hi⟩
    cases hstarts : c.starts i with
    | none => simp [hstarts] at hi
    | some old =>
      simp only [hstarts] at hi
      split_ifs at hi with hpos
      cases hi
      exact ⟨held_of_starts hstarts, hpos⟩
  · rintro ⟨hheld, hpos⟩
    have hstarts : c.starts (c.slot start) = some start := by
      by_contra hne
      have hzero : c.held start = 0 := if_neg hne
      dsimp only at hheld hpos
      omega
    refine ⟨c.slot start, List.mem_finRange _, ?_⟩
    have hcounts : c.counts (c.slot start) = count := (held_of_starts hstarts).symm.trans hheld
    simp only [hstarts, hcounts]
    exact if_pos hpos

/-- The pairs are the live buckets that count something, each with its count. -/
theorem mem_liveBuckets {bucket : ℤ × ℤ} :
    bucket ∈ c.liveBuckets now ↔
      c.isLive bucket.1 now = true ∧ c.held bucket.1 = bucket.2 ∧ 0 < bucket.2 := by
  unfold liveBuckets
  rw [List.mem_insertionSort, List.mem_filter, mem_occupied]
  exact and_comm

/-- The order of the pairs. -/
def before (p q : ℤ × ℤ) : Prop := p.1 < q.1 ∨ p.1 = q.1 ∧ p.2 ≤ q.2

instance : DecidableRel before := fun p q =>
  inferInstanceAs (Decidable (p.1 < q.1 ∨ p.1 = q.1 ∧ p.2 ≤ q.2))

instance : Std.Total before := ⟨fun p q => by unfold before; omega⟩

instance : IsTrans (ℤ × ℤ) before := ⟨fun p q r => by unfold before; omega⟩

instance : Std.Antisymm before := ⟨fun p q h h' => by
  unfold before at h h'
  exact Prod.ext (by omega) (by omega)⟩

theorem occupied_nodup (c : IpCounter) : c.occupied.Nodup := by
  unfold occupied
  refine (List.nodup_finRange _).filterMap ?_
  intro i j bucket hi hj
  split at hi
  · cases hi
  · next start hstart =>
    split at hj
    · cases hj
    · next start' hstart' =>
      obtain ⟨-, hi⟩ := Option.ite_none_right_eq_some.mp hi
      obtain ⟨-, hj⟩ := Option.ite_none_right_eq_some.mp hj
      -- Both slots are that of the bucket's start.
      have hsame : start = start' :=
        (congrArg Prod.fst (Option.some.inj hi)).trans (congrArg Prod.fst (Option.some.inj hj)).symm
      rw [← hsame] at hstart'
      exact (c.slot_eq i _ hstart).symm.trans (c.slot_eq j _ hstart')

theorem liveBuckets_nodup (c : IpCounter) (now : ℤ) : (c.liveBuckets now).Nodup :=
  (List.perm_insertionSort _ _).nodup_iff.mpr ((occupied_nodup c).filter _)

theorem liveBuckets_sorted (c : IpCounter) (now : ℤ) : (c.liveBuckets now).Pairwise before :=
  List.pairwise_insertionSort before _

/-! ### Observations at one time -/

/-- The counts of the pairs of one bucket. -/
def groupSum (buckets : List (ℤ × ℤ)) (start : ℤ) : ℤ :=
  ((buckets.filter fun bucket => bucket.1 = start).map Prod.snd).sum

theorem groupSum_cons (bucket : ℤ × ℤ) (buckets : List (ℤ × ℤ)) (start : ℤ) :
    groupSum (bucket :: buckets) start =
      (if bucket.1 = start then bucket.2 else 0) + groupSum buckets start := by
  unfold groupSum
  by_cases h : bucket.1 = start
  · simp [h]
  · simp [h]

theorem isLive_congr {d : IpCounter} (hseconds : d.bucketSeconds = c.bucketSeconds)
    (hcount : d.bucketCount = c.bucketCount) (start now : ℤ) :
    d.isLive start now = c.isLive start now := by
  unfold isLive windowSeconds
  rw [hseconds, hcount]

/-- Every bucket of the ring is live. -/
def Live (c : IpCounter) (now : ℤ) : Prop :=
  ∀ i start, c.starts i = some start → c.isLive start now = true

/-- What observations at one time make of a ring of live buckets. -/
structure Gathers (c : IpCounter) (now : ℤ) (buckets : List (ℤ × ℤ)) (d : IpCounter) : Prop where
  bucketSeconds : d.bucketSeconds = c.bucketSeconds
  bucketCount : d.bucketCount = c.bucketCount
  live : d.Live now
  held : ∀ start, c.isLive start now = true → d.held start = c.held start + groupSum buckets start
  starts : ∀ i start, d.starts i = some start →
    (∃ j, c.starts j = some start) ∨ ∃ bucket ∈ buckets, bucket.1 = start
  total : d.total = c.total +
    ((buckets.filter fun bucket => c.isLive bucket.1 now).map Prod.snd).sum

theorem Gathers.nil (h : c.Live now) : Gathers c now [] c := by
  refine ⟨rfl, rfl, h, fun start _ => ?_, fun i start hi => Or.inl ⟨i, hi⟩, ?_⟩
  · exact (add_zero _).symm
  · exact (add_zero _).symm

/-- In a ring of live buckets an observation displaces nothing. -/
theorem add_total_of_live (h : c.Live now) (haligned : start.fmod c.bucketSeconds = 0)
    (hdelta : 0 ≤ delta) (hlive : c.isLive start now = true) :
    (c.add start delta haligned hdelta).total = c.total + delta := by
  have hslot : c.counts (c.slot start) = c.held start := by
    cases hold : c.starts (c.slot start) with
    | none =>
      have hheld : c.held start = 0 := if_neg (by rw [hold]; simp)
      rw [hheld, c.count_empty _ hold]
    | some old =>
      have hsame : old = start := by
        by_contra hne
        have hgone := displaced_not_live haligned hlive hold hne
        rw [h _ _ hold] at hgone
        cases hgone
      rw [hsame] at hold
      exact (held_of_starts hold).symm
  rw [add_total, hslot]
  ring

/-- One more observation, before the others. -/
theorem Gathers.cons {bucket : ℤ × ℤ} {buckets : List (ℤ × ℤ)} {d : IpCounter} (hc : c.Live now)
    (haligned : bucket.1.fmod c.bucketSeconds = 0) (hdelta : 0 ≤ bucket.2)
    (h : (c.observed bucket.1 bucket.2 now).Live now →
      Gathers (c.observed bucket.1 bucket.2 now) now buckets d) :
    Gathers c now (bucket :: buckets) d := by
  by_cases hlive : c.isLive bucket.1 now = true
  · rw [observed_of_applied haligned hdelta hlive] at h
    -- The slots start where they did, but the one that takes the bucket.
    have hstarts : ∀ i start, (c.add bucket.1 bucket.2 haligned hdelta).starts i = some start →
        (∃ j, c.starts j = some start) ∨ bucket.1 = start := by
      intro i start hi
      have hupdate : Function.update c.starts (c.slot bucket.1) (some bucket.1)
        (show Fin c.bucketCount from i) = some start := hi
      rw [Function.update_apply] at hupdate
      split_ifs at hupdate
      · exact Or.inr (Option.some.inj hupdate)
      · exact Or.inl ⟨i, hupdate⟩
    have hg := h fun i start hi => by
      obtain ⟨j, hj⟩ | rfl := hstarts i start hi
      · exact hc j start hj
      · exact hlive
    refine ⟨hg.bucketSeconds, hg.bucketCount, hg.live, fun start hstart => ?_,
      fun i start hi => ?_, ?_⟩
    · rw [hg.held start hstart, groupSum_cons]
      by_cases heq : bucket.1 = start
      · subst heq
        rw [if_pos rfl, held_add_self]
        ring
      · rw [if_neg heq, held_add_of_ne haligned hdelta hlive (Ne.symm heq) hstart]
        ring
    · obtain ⟨j, hj⟩ | ⟨other, hother, heq⟩ := hg.starts i start hi
      · obtain hj | hj := hstarts j start hj
        · exact Or.inl hj
        · exact Or.inr ⟨bucket, List.mem_cons_self, hj⟩
      · exact Or.inr ⟨other, List.mem_cons_of_mem _ hother, heq⟩
    · have hsame : ∀ other : ℤ × ℤ, (c.add bucket.1 bucket.2 haligned hdelta).isLive other.1 now =
        c.isLive other.1 now := fun _ => rfl
      have htotal := hg.total
      simp only [hsame] at htotal
      rw [htotal, add_total_of_live hc haligned hdelta hlive,
        List.filter_cons_of_pos (by simpa using hlive), List.map_cons, List.sum_cons]
      ring
  · rw [observed_of_not_applied fun hall => hlive hall.2.2] at h
    have hg := h hc
    refine ⟨hg.bucketSeconds, hg.bucketCount, hg.live, fun start hstart => ?_,
      fun i start hi => ?_, ?_⟩
    -- A bucket that is not live adds to no group that is.
    · have hne : bucket.1 ≠ start := fun heq => hlive (heq ▸ hstart)
      rw [hg.held start hstart, groupSum_cons, if_neg hne, zero_add]
    · obtain hj | ⟨other, hother, heq⟩ := hg.starts i start hi
      · exact Or.inl hj
      · exact Or.inr ⟨other, List.mem_cons_of_mem _ hother, heq⟩
    · rw [hg.total, List.filter_cons_of_neg (by simpa using hlive)]

theorem observed_geometry (c : IpCounter) (start delta now : ℤ) :
    (c.observed start delta now).bucketSeconds = c.bucketSeconds ∧
      (c.observed start delta now).bucketCount = c.bucketCount := by
  by_cases h : start.fmod c.bucketSeconds = 0 ∧ 0 ≤ delta ∧ c.isLive start now = true
  · rw [observed_of_applied h.1 h.2.1 h.2.2]
    exact ⟨rfl, rfl⟩
  · rw [observed_of_not_applied h]
    exact ⟨rfl, rfl⟩

theorem gathers_observeAll (c : IpCounter) (now : ℤ) (buckets : List (ℤ × ℤ))
    (hbuckets : ∀ bucket ∈ buckets, bucket.1.fmod c.bucketSeconds = 0 ∧ 0 ≤ bucket.2)
    (hc : c.Live now) : Gathers c now buckets (c.observeAll now buckets) := by
  induction buckets generalizing c with
  | nil => exact Gathers.nil hc
  | cons bucket rest ih =>
    obtain ⟨haligned, hdelta⟩ := hbuckets bucket List.mem_cons_self
    refine Gathers.cons hc haligned hdelta fun hlive => ih _ (fun other hother => ?_) hlive
    rw [(observed_geometry c bucket.1 bucket.2 now).1]
    exact hbuckets other (List.mem_cons_of_mem _ hother)

/-- A ring of live buckets has nothing to sweep. -/
theorem Live.expire_total (h : c.Live now) : (c.expire now).2.total = c.total := by
  have hzero : (c.expire now).1 = 0 := by
    show ∑ i, (if c.expired now i then c.counts i else 0) = 0
    refine Finset.sum_eq_zero fun i _ => if_neg ?_
    unfold expired
    cases hi : c.starts i with
    | none => simp
    | some start => simp [h i start hi]
  rw [IpCounter.expire_total, hzero, sub_zero]

end IpCounter

namespace ShardWindow

variable {config : DetectionConfig} {fresh counter : IpCounter} {now : ℤ}

/-! ### The rebuild -/

/-- The pairs at their starts under a bucket length. -/
def rebucketed (bucketSeconds : ℤ) (buckets : List (ℤ × ℤ)) : List (ℤ × ℤ) :=
  buckets.map fun bucket => (bucketStart bucket.1 bucketSeconds, bucket.2)

/-- The pairs grouped under a bucket length and summed, oldest first, where `live` admits the
group. -/
def grouped (bucketSeconds : ℤ) (live : ℤ → Bool) (buckets : List (ℤ × ℤ)) : List (ℤ × ℤ) :=
  let starts := ((rebucketed bucketSeconds buckets).map Prod.fst).dedup
  ((starts.filter live).insertionSort (· ≤ ·)).map fun start =>
    (start, IpCounter.groupSum (rebucketed bucketSeconds buckets) start)

theorem rebuild_eq (hfresh : newCounter config = .ok fresh) (counter : IpCounter) (now : ℤ) :
    rebuild config now counter = .ok (fresh.observeAll now
      (rebucketed config.bucketSeconds (counter.liveBuckets now))) := by
  have hpos : ∀ bucket ∈ counter.liveBuckets now, 0 < bucket.2 := fun _ =>
    IpCounter.pos_of_mem_liveBuckets
  -- Every bucket is observed at an aligned start, so that no observation is refused.
  have loop : ∀ (buckets : List (ℤ × ℤ)) (c : IpCounter), (∀ bucket ∈ buckets, 0 < bucket.2) →
      c.bucketSeconds = config.bucketSeconds →
      buckets.foldlM (fun rebuilt bucket =>
          Prod.snd <$> rebuilt.observe (bucketStart bucket.1 config.bucketSeconds) bucket.2 now) c =
        .ok (c.observeAll now (rebucketed config.bucketSeconds buckets)) := by
    intro buckets
    induction buckets with
    | nil => exact fun c _ _ => rfl
    | cons bucket rest ih =>
      intro c hb hc
      obtain ⟨⟨answer, c'⟩, hanswer⟩ :=
        c.exists_observe (bucketStart bucket.1 config.bucketSeconds) now
          (by rw [hc]; exact bucketStart_fmod _ _) (hb bucket List.mem_cons_self).le
      have hobserved : c.observed (bucketStart bucket.1 config.bucketSeconds) bucket.2 now = c' := by
        unfold IpCounter.observed
        rw [hanswer]
      have hgeometry := (c.observed_geometry (bucketStart bucket.1 config.bucketSeconds) bucket.2
        now).1
      rw [hobserved] at hgeometry
      have hrest := ih c' (fun b hm => hb b (List.mem_cons_of_mem _ hm)) (hgeometry.trans hc)
      rw [List.foldlM_cons, hanswer]
      refine hrest.trans ?_
      unfold rebucketed IpCounter.observeAll
      rw [List.map_cons, List.foldl_cons, hobserved]
  unfold rebuild
  rw [hfresh]
  exact loop (counter.liveBuckets now) fresh hpos (newCounter_ok hfresh).1

theorem newCounter_empty (h : newCounter config = .ok fresh) :
    (fresh.bucketCount : ℤ) = config.bucketCount ∧ (∀ i, fresh.starts i = none) := by
  unfold newCounter IpCounter.makeRing at h
  split_ifs at h with hseconds hcount
  cases h
  exact ⟨Int.toNat_of_nonneg hcount.le, fun _ => rfl⟩

/-- What a rebuild makes of a counter. -/
structure Rebuilt (config : DetectionConfig) (now : ℤ) (counter counter' : IpCounter) : Prop where
  bucketSeconds : counter'.bucketSeconds = config.bucketSeconds
  bucketCount : (counter'.bucketCount : ℤ) = config.bucketCount
  live : counter'.Live now
  /-- The live pairs are the groups of the old ones that are live under the new window. -/
  liveBuckets : counter'.liveBuckets now =
    grouped config.bucketSeconds (fun start => counter'.isLive start now) (counter.liveBuckets now)
  /-- Nothing else is counted. -/
  total : counter'.total = ((counter'.liveBuckets now).map Prod.snd).sum
  /-- Where every group stays live, no count is lost. -/
  kept : (∀ bucket ∈ counter.liveBuckets now,
      counter'.isLive (bucketStart bucket.1 config.bucketSeconds) now = true) →
    counter'.total = ((counter.liveBuckets now).map Prod.snd).sum
  past : ∀ t, counter.Past t → counter'.Past t

theorem mem_grouped {bucketSeconds : ℤ} {live : ℤ → Bool} {buckets : List (ℤ × ℤ)}
    {bucket : ℤ × ℤ} : bucket ∈ grouped bucketSeconds live buckets ↔
      live bucket.1 = true ∧ (∃ old ∈ buckets, bucketStart old.1 bucketSeconds = bucket.1) ∧
        IpCounter.groupSum (rebucketed bucketSeconds buckets) bucket.1 = bucket.2 := by
  unfold grouped rebucketed
  simp only [List.mem_map, List.mem_insertionSort, List.mem_filter, List.mem_dedup]
  constructor
  · rintro ⟨start, ⟨⟨-, ⟨old, hold, rfl⟩, rfl⟩, hlive⟩, rfl⟩
    exact ⟨hlive, ⟨old, hold, rfl⟩, rfl⟩
  · rintro ⟨hlive, ⟨old, hold, heq⟩, hsum⟩
    exact ⟨bucket.1, ⟨⟨_, ⟨old, hold, rfl⟩, heq⟩, hlive⟩, Prod.ext rfl hsum⟩

theorem grouped_nodup (bucketSeconds : ℤ) (live : ℤ → Bool) (buckets : List (ℤ × ℤ)) :
    (grouped bucketSeconds live buckets).Nodup := by
  unfold grouped
  refine List.Nodup.map (fun start start' h => congrArg Prod.fst h) ?_
  exact (List.perm_insertionSort _ _).nodup_iff.mpr ((List.nodup_dedup _).filter _)

theorem grouped_sorted (bucketSeconds : ℤ) (live : ℤ → Bool) (buckets : List (ℤ × ℤ)) :
    (grouped bucketSeconds live buckets).Pairwise IpCounter.before := by
  unfold grouped
  refine List.pairwise_map.mpr ((List.pairwise_insertionSort (· ≤ ·) _).imp fun {a b} h => ?_)
  obtain hlt | rfl := lt_or_eq_of_le h
  · exact Or.inl hlt
  · exact Or.inr ⟨rfl, le_refl _⟩

/-- The count of a group is positive, once it has a pair. -/
theorem groupSum_pos {buckets : List (ℤ × ℤ)} (hpos : ∀ bucket ∈ buckets, 0 < bucket.2) {start : ℤ} :
    0 < IpCounter.groupSum buckets start ↔ ∃ bucket ∈ buckets, bucket.1 = start := by
  have hnonneg : ∀ buckets : List (ℤ × ℤ), (∀ bucket ∈ buckets, 0 < bucket.2) →
      0 ≤ IpCounter.groupSum buckets start := by
    intro buckets hpos
    unfold IpCounter.groupSum
    refine List.sum_nonneg fun count hcount => ?_
    obtain ⟨bucket, hbucket, rfl⟩ := List.mem_map.mp hcount
    exact (hpos bucket (List.mem_filter.mp hbucket).1).le
  induction buckets with
  | nil => simp [IpCounter.groupSum]
  | cons bucket rest ih =>
    have hrest := fun other hother => hpos other (List.mem_cons_of_mem bucket hother)
    have hhead := hpos bucket List.mem_cons_self
    have hsum := hnonneg rest hrest
    rw [IpCounter.groupSum_cons]
    by_cases heq : bucket.1 = start
    · rw [if_pos heq]
      exact ⟨fun _ => ⟨bucket, List.mem_cons_self, heq⟩, fun _ => by omega⟩
    · rw [if_neg heq, zero_add]
      refine (ih hrest).trans ?_
      simp [heq]

theorem rebuild_ok (hfresh : newCounter config = .ok fresh) (counter : IpCounter) (now : ℤ) :
    ∃ counter', rebuild config now counter = .ok counter' ∧
      Rebuilt config now counter counter' := by
  have hpos : ∀ bucket ∈ rebucketed config.bucketSeconds (counter.liveBuckets now),
      0 < bucket.2 := by
    intro bucket hbucket
    obtain ⟨old, hold, rfl⟩ := List.mem_map.mp hbucket
    exact (IpCounter.pos_of_mem_liveBuckets hold : 0 < old.2)
  obtain ⟨hseconds, hzero⟩ := newCounter_ok hfresh
  obtain ⟨hcount, hempty⟩ := newCounter_empty hfresh
  have hlive : fresh.Live now := by
    intro i start hi
    rw [hempty i] at hi
    cases hi
  have hg := IpCounter.gathers_observeAll fresh now
    (rebucketed config.bucketSeconds (counter.liveBuckets now))
    (fun bucket hbucket => ⟨by
      obtain ⟨old, -, rfl⟩ := List.mem_map.mp hbucket
      rw [hseconds]
      exact bucketStart_fmod _ _, (hpos bucket hbucket).le⟩) hlive
  refine ⟨_, rebuild_eq hfresh counter now, ?_⟩
  generalize fresh.observeAll now (rebucketed config.bucketSeconds (counter.liveBuckets now)) =
    counter' at hg
  have hsame := IpCounter.isLive_congr hg.bucketSeconds hg.bucketCount
  have hheld : ∀ start, counter'.isLive start now = true → counter'.held start =
      IpCounter.groupSum (rebucketed config.bucketSeconds (counter.liveBuckets now)) start := by
    intro start hstart
    rw [hsame] at hstart
    have hnone : fresh.held start = 0 := if_neg (by rw [hempty]; simp)
    rw [hg.held start hstart, hnone, zero_add]
  have hkept : counter'.total = (((rebucketed config.bucketSeconds
      (counter.liveBuckets now)).filter fun bucket => counter'.isLive bucket.1 now).map
        Prod.snd).sum := by
    simp only [hsame]
    rw [hg.total, hzero, zero_add]
  refine ⟨hg.bucketSeconds.trans hseconds, by rw [hg.bucketCount]; exact hcount, hg.live, ?_, ?_,
    fun hall => ?_, fun t hpast i start hi => ?_⟩
  · refine List.Perm.eq_of_pairwise' (counter'.liveBuckets_sorted now) (grouped_sorted _ _ _) ?_
    refine (List.perm_ext_iff_of_nodup (counter'.liveBuckets_nodup now)
      (grouped_nodup _ _ _)).mpr fun bucket => ?_
    rw [IpCounter.mem_liveBuckets, mem_grouped]
    refine and_congr_right fun hlive => ?_
    rw [hheld bucket.1 hlive, and_comm]
    refine and_congr_left fun hsum => ?_
    rw [← hsum, groupSum_pos hpos]
    constructor
    · rintro ⟨pair, hpair, heq⟩
      obtain ⟨old, hold, rfl⟩ := List.mem_map.mp hpair
      exact ⟨old, hold, heq⟩
    · rintro ⟨old, hold, heq⟩
      exact ⟨_, List.mem_map_of_mem hold, heq⟩
  · rw [IpCounter.sum_liveBuckets, hg.live.expire_total]
  · rw [hkept, List.filter_eq_self.mpr]
    · unfold rebucketed
      rw [List.map_map]
      rfl
    · intro bucket hbucket
      obtain ⟨old, hold, rfl⟩ := List.mem_map.mp hbucket
      exact hall old hold
  · obtain ⟨j, hj⟩ | ⟨bucket, hbucket, rfl⟩ := hg.starts i start hi
    · rw [hempty j] at hj
      cases hj
    · obtain ⟨old, hold, rfl⟩ := List.mem_map.mp hbucket
      have hle := bucketStart_le (show 0 < config.bucketSeconds by
        rw [← hseconds]
        exact fresh.bucketSeconds_pos) old.1
      -- The old bucket is held, so it has started.
      obtain ⟨-, hheld, hcount⟩ := IpCounter.mem_liveBuckets.mp hold
      have hstarts : counter.starts (counter.slot old.1) = some old.1 := by
        by_contra hne
        have hnone : counter.held old.1 = 0 := if_neg hne
        omega
      exact hle.trans (hpast _ _ hstarts)

/-- The rebuild refuses no window, once a ring of the geometry can be built. -/
theorem exists_rebuildAll (hfresh : newCounter config = .ok fresh) (now : ℤ) (w : ShardWindow) :
    ∃ w', rebuildAll config now w = .ok ⟨⟩ w' := by
  unfold rebuildAll
  generalize w.entries.items = items
  induction items generalizing w with
  | nil => exact ⟨w, rfl⟩
  | cons item rest ih =>
    obtain ⟨c, hc, -⟩ := rebuild_ok hfresh item.2.counter now
    have hhead : ∃ w₁, rebuildEntry config now item w = .ok ⟨⟩ w₁ := by
      unfold rebuildEntry
      rw [hc]
      exact ⟨_, rfl⟩
    obtain ⟨w₁, hw₁⟩ := hhead
    obtain ⟨w', hw'⟩ := ih w₁
    exact ⟨w', Program.bind_ok.mpr ⟨⟨⟩, w₁, hw₁, hw'⟩⟩

/-- A rebuild that raises has changed nothing. -/
theorem rebuildAll_error {e : Failure} {w w' : ShardWindow}
    (h : rebuildAll config now w = .error e w') : w' = w ∧ ∀ c, newCounter config ≠ .ok c := by
  have hnone : ∀ c, newCounter config ≠ .ok c := by
    intro c hc
    obtain ⟨w'', hw''⟩ := exists_rebuildAll hc now w
    rw [hw''] at h
    cases h
  refine ⟨?_, hnone⟩
  unfold rebuildAll at h
  cases hitems : w.entries.items with
  | nil =>
    rw [hitems] at h
    cases h
  | cons item rest =>
    -- The first entry is refused a counter.
    have hrefused : ∃ e', rebuildEntry config now item w = .error e' w := by
      unfold rebuildEntry rebuild
      cases hc : newCounter config with
      | ok c => exact absurd hc (hnone c)
      | error e' => exact ⟨e', rfl⟩
    obtain ⟨e', he'⟩ := hrefused
    rw [hitems] at h
    obtain herror | ⟨a, t, hok, -⟩ := Program.bind_error.mp h
    · rw [he'] at herror
      cases herror
      rfl
    · rw [he'] at hok
      cases hok

end ShardWindow

end Hammertime.Aggregator
