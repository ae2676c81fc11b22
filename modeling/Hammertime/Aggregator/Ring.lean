import Hammertime.Aggregator.Counter

/-!
# The ring is an exact sliding window

What `IpCounter` keeps over every sequence of calls under a clock that does not run backwards. An
aligned bucket is live from its start until one window later (`isLive_iff`), so two live buckets
never share a slot, and a slot is only ever taken from a bucket that has left the window. From this
the ledger of what was applied agrees with the ring: after a sweep the running total is the sum of
the deltas applied to the buckets that are live.
-/

namespace Hammertime.Aggregator

open scoped BigOperators

/-! ### Multiples of the bucket length -/

/-- A multiple of the length stands before a point exactly when it stands before the point's bucket. -/
theorem mul_le_bucketStart_iff {length : ℤ} (hlength : 0 < length) (k now : ℤ) :
    length * k ≤ bucketStart now length ↔ length * k ≤ now := by
  have hdiv := Int.fmod_add_mul_fdiv now length
  have hnonneg := Int.fmod_nonneg_of_pos now hlength
  have hlt := Int.fmod_lt_of_pos now hlength
  unfold bucketStart
  rw [mul_comm (now.fdiv length)]
  constructor
  · intro h
    linarith
  · intro h
    have hk : k < now.fdiv length + 1 := by
      by_contra hge
      have hmul := mul_le_mul_of_nonneg_left (not_lt.mp hge) hlength.le
      linarith [mul_add length (now.fdiv length) 1]
    exact mul_le_mul_of_nonneg_left (by omega) hlength.le

theorem eq_mul_of_aligned {start length : ℤ} (h : start.fmod length = 0) :
    start = length * start.fdiv length := by
  have hdiv := Int.fmod_add_mul_fdiv start length
  rw [h, zero_add] at hdiv
  exact hdiv.symm

/-- A bucket starts at or before every point of it. -/
theorem bucketStart_le {length : ℤ} (hlength : 0 < length) (now : ℤ) :
    bucketStart now length ≤ now := by
  have h := mul_le_bucketStart_iff hlength (now.fdiv length) now
  rw [mul_comm] at h
  exact h.mp (le_refl _)

namespace IpCounter

variable {c : IpCounter} {start start' delta now now' : ℤ}

/-! ### Live buckets -/

/-- An aligned bucket is live from its start until one window later. -/
theorem isLive_iff (h : start.fmod c.bucketSeconds = 0) :
    c.isLive start now = true ↔ start ≤ now ∧ now < start + c.windowSeconds := by
  have hstart := eq_mul_of_aligned h
  have hle := mul_le_bucketStart_iff c.bucketSeconds_pos (start.fdiv c.bucketSeconds) now
  have hend := mul_le_bucketStart_iff c.bucketSeconds_pos
    (start.fdiv c.bucketSeconds + c.bucketCount) now
  rw [mul_add, ← hstart] at hend
  rw [← hstart] at hle
  unfold isLive windowSeconds
  simp only [decide_eq_true_eq]
  omega

theorem isLive_eq_false_iff (h : start.fmod c.bucketSeconds = 0) :
    c.isLive start now = false ↔ now < start ∨ start + c.windowSeconds ≤ now := by
  rw [← Bool.not_eq_true, isLive_iff h]
  omega

/-- Two aligned buckets of one slot are a whole number of windows apart. -/
theorem windowSeconds_dvd_sub (h : start.fmod c.bucketSeconds = 0)
    (h' : start'.fmod c.bucketSeconds = 0) (hslot : c.slot start = c.slot start') :
    c.windowSeconds ∣ start - start' := by
  have hpos : (0 : ℤ) < c.bucketCount := by exact_mod_cast c.bucketCount_pos
  have hindex : bucketIndex start c.bucketSeconds c.bucketCount =
      bucketIndex start' c.bucketSeconds c.bucketCount := by
    have hnat := Fin.mk.inj_iff.mp hslot
    have hnonneg := Int.fmod_nonneg_of_pos (start.fdiv c.bucketSeconds) hpos
    have hnonneg' := Int.fmod_nonneg_of_pos (start'.fdiv c.bucketSeconds) hpos
    unfold bucketIndex at hnat ⊢
    omega
  unfold bucketIndex at hindex
  rw [Int.fmod_eq_emod_of_nonneg _ hpos.le, Int.fmod_eq_emod_of_nonneg _ hpos.le] at hindex
  have hdvd := Int.dvd_of_emod_eq_zero (Int.emod_eq_emod_iff_emod_sub_eq_zero.mp hindex)
  rw [eq_mul_of_aligned h, eq_mul_of_aligned h', ← mul_sub]
  exact mul_dvd_mul_left _ hdvd

/-- Two live buckets never share a slot. -/
theorem eq_of_slot_eq (h : start.fmod c.bucketSeconds = 0) (h' : start'.fmod c.bucketSeconds = 0)
    (hlive : c.isLive start now = true) (hlive' : c.isLive start' now = true)
    (hslot : c.slot start = c.slot start') : start = start' := by
  have hbounds := (isLive_iff h).mp hlive
  have hbounds' := (isLive_iff h').mp hlive'
  have hdvd := windowSeconds_dvd_sub h h' hslot
  have hzero := Int.eq_zero_of_abs_lt_dvd hdvd (abs_lt.mpr (by constructor <;> linarith))
  linarith

/-- Every bucket of the ring has started. -/
def Past (c : IpCounter) (now : ℤ) : Prop := ∀ i start, c.starts i = some start → start ≤ now

theorem Past.mono (h : c.Past now) (hle : now ≤ now') : c.Past now' :=
  fun i start hi => (h i start hi).trans hle

/-- A bucket that has started and is not live has left the window. -/
theorem Past.left (h : c.Past now) {i : Fin c.bucketCount} (hi : c.starts i = some start)
    (hlive : c.isLive start now = false) : start + c.windowSeconds ≤ now := by
  have hstarted := h i start hi
  have hcases := (isLive_eq_false_iff (c.aligned i start hi)).mp hlive
  omega

/-- What has left the window does not come back. -/
theorem Past.isLive_false (h : c.Past now) {i : Fin c.bucketCount} (hi : c.starts i = some start)
    (hlive : c.isLive start now = false) (hle : now ≤ now') : c.isLive start now' = false := by
  rw [isLive_eq_false_iff (c.aligned i start hi)]
  exact Or.inr ((h.left hi hlive).trans hle)

/-- The bucket that an observation displaces is not live. -/
theorem displaced_not_live (haligned : start.fmod c.bucketSeconds = 0)
    (hlive : c.isLive start now = true) {old : ℤ} (hold : c.starts (c.slot start) = some old)
    (hne : old ≠ start) : c.isLive old now = false := by
  by_contra h
  rw [Bool.not_eq_false] at h
  have hslot := c.slot_eq _ _ hold
  exact hne (eq_of_slot_eq (c.aligned _ _ hold) haligned h hlive hslot)

/-! ### What is held of a bucket -/

/-- The count of a bucket in the ring. -/
def held (c : IpCounter) (start : ℤ) : ℤ :=
  if c.starts (c.slot start) = some start then c.counts (c.slot start) else 0

theorem held_of_starts {i : Fin c.bucketCount} (hi : c.starts i = some start) :
    c.held start = c.counts i := by
  have hslot : c.slot start = i := c.slot_eq i start hi
  unfold held
  rw [hslot, if_pos hi]

theorem held_of_unaligned (h : start.fmod c.bucketSeconds ≠ 0) : c.held start = 0 :=
  if_neg fun hc => h (c.aligned _ _ hc)

section

variable (haligned : start.fmod c.bucketSeconds = 0) (hdelta : 0 ≤ delta)

theorem add_starts : (c.add start delta haligned hdelta).starts =
    Function.update c.starts (c.slot start) (some start) := rfl

theorem add_counts : (c.add start delta haligned hdelta).counts =
    Function.update c.counts (c.slot start) (c.held start + delta) := by
  show Function.update (Function.update c.counts (c.slot start) (c.held start)) (c.slot start)
    (Function.update c.counts (c.slot start) (c.held start) (c.slot start) + delta) = _
  rw [Function.update_idem, Function.update_self]

theorem add_total : (c.add start delta haligned hdelta).total =
    c.total - c.counts (c.slot start) + c.held start + delta := by
  show (if c.starts (c.slot start) = some start then c.total
    else c.total - c.counts (c.slot start)) + delta = _
  unfold held
  split_ifs <;> ring

theorem held_add_self : (c.add start delta haligned hdelta).held start = c.held start + delta := by
  have hstarts : (c.add start delta haligned hdelta).starts (c.slot start) = some start := by
    rw [add_starts]
    exact Function.update_self _ _ _
  rw [held_of_starts hstarts, add_counts]
  exact Function.update_self _ _ _

theorem held_add_of_slot_ne (h : c.slot start' ≠ c.slot start) :
    (c.add start delta haligned hdelta).held start' = c.held start' := by
  show (if (c.add start delta haligned hdelta).starts (c.slot start') = some start' then
    (c.add start delta haligned hdelta).counts (c.slot start') else 0) = _
  rw [add_starts, add_counts]
  have hstarts : Function.update c.starts (c.slot start) (some start) (c.slot start') =
    c.starts (c.slot start') := Function.update_of_ne h _ _
  have hcounts : Function.update c.counts (c.slot start) (c.held start + delta) (c.slot start') =
    c.counts (c.slot start') := Function.update_of_ne h _ _
  rw [hstarts, hcounts]
  rfl

/-- No other live bucket loses anything to an observation. -/
theorem held_add_of_ne (hlive : c.isLive start now = true) (hne : start' ≠ start)
    (hlive' : c.isLive start' now = true) :
    (c.add start delta haligned hdelta).held start' = c.held start' := by
  by_cases haligned' : start'.fmod c.bucketSeconds = 0
  · refine held_add_of_slot_ne haligned hdelta fun hslot => hne ?_
    exact eq_of_slot_eq haligned' haligned hlive' hlive hslot
  · rw [held_of_unaligned haligned', held_of_unaligned]
    exact haligned'

theorem Past.add (h : c.Past now) (hstart : start ≤ now) :
    (c.add start delta haligned hdelta).Past now := by
  intro i start' hi
  have hupdate : Function.update c.starts (c.slot start) (some start) (show Fin c.bucketCount from i) =
    some start' := hi
  rw [Function.update_apply] at hupdate
  split_ifs at hupdate
  · cases hupdate
    exact hstart
  · exact h i start' hupdate

end

theorem Past.expire (h : c.Past now) (now' : ℤ) : (c.expire now').2.Past now := by
  intro i start hi
  have hstarts : (if c.expired now' i then none else c.starts i) = some start := hi
  split_ifs at hstarts
  exact h i start hstarts

/-! ### The live part of the total -/

/-- What a slot has in the live part. -/
def livePart (c : IpCounter) (now : ℤ) (i : Fin c.bucketCount) : ℤ :=
  if c.expired now i then 0 else c.counts i

theorem expire_total_eq (c : IpCounter) (now : ℤ) :
    (c.expire now).2.total = ∑ i, c.livePart now i := (c.expire now).2.total_eq

theorem livePart_of_starts {i : Fin c.bucketCount} (hi : c.starts i = some start) (now : ℤ) :
    c.livePart now i = if c.isLive start now then c.counts i else 0 := by
  unfold livePart expired
  rw [hi]
  by_cases hlive : c.isLive start now = true
  · simp [hlive]
  · simp [hlive]

theorem livePart_of_empty {i : Fin c.bucketCount} (hi : c.starts i = none) (now : ℤ) :
    c.livePart now i = 0 := by
  unfold livePart expired
  rw [hi]
  exact c.count_empty i hi

/-- The slot that an observation takes holds that bucket, or nothing that will be live. -/
theorem livePart_slot (hpast : c.Past now) (haligned : start.fmod c.bucketSeconds = 0)
    (hlive : c.isLive start now = true) (hle : now ≤ now') :
    c.livePart now' (c.slot start) = if c.isLive start now' then c.held start else 0 := by
  cases hold : c.starts (c.slot start) with
  | none =>
    have hheld : c.held start = 0 := if_neg (by rw [hold]; simp)
    rw [livePart_of_empty hold, hheld, ite_self]
  | some old =>
    by_cases hne : old = start
    · subst hne
      rw [livePart_of_starts hold, held_of_starts hold]
    · have hgone := hpast.isLive_false hold (displaced_not_live haligned hlive hold hne) hle
      have hheld : c.held start = 0 := if_neg (by rw [hold]; simpa using hne)
      rw [livePart_of_starts hold, hgone, hheld, ite_self]
      rfl

/-- What an observation adds to the live part: its delta, while its bucket is live. -/
theorem expire_add_total (hpast : c.Past now) (haligned : start.fmod c.bucketSeconds = 0)
    (hdelta : 0 ≤ delta) (hlive : c.isLive start now = true) (hle : now ≤ now') :
    ((c.add start delta haligned hdelta).expire now').2.total =
      (c.expire now').2.total + if c.isLive start now' then delta else 0 := by
  have hslot : (c.add start delta haligned hdelta).livePart now' (c.slot start) =
      c.livePart now' (c.slot start) + if c.isLive start now' then delta else 0 := by
    have hstarts : (c.add start delta haligned hdelta).starts (c.slot start) = some start :=
      Function.update_self _ _ _
    have hcounts : (c.add start delta haligned hdelta).counts (c.slot start) =
        c.held start + delta := by
      rw [add_counts]
      exact Function.update_self _ _ _
    have hlive' : (c.add start delta haligned hdelta).isLive start now' = c.isLive start now' := rfl
    rw [livePart_of_starts hstarts, livePart_slot hpast haligned hlive hle, hcounts, hlive']
    split_ifs <;> ring
  have hother : ∀ i, i ≠ c.slot start →
      (c.add start delta haligned hdelta).livePart now' i = c.livePart now' i := by
    intro i hi
    have hstarts : (c.add start delta haligned hdelta).starts i = c.starts i :=
      Function.update_of_ne hi _ _
    have hcounts : (c.add start delta haligned hdelta).counts i = c.counts i := by
      rw [add_counts]
      exact Function.update_of_ne hi _ _
    cases hc : c.starts i with
    | none => rw [livePart_of_empty hc, livePart_of_empty (hstarts.trans hc)]
    | some s =>
      rw [livePart_of_starts hc, livePart_of_starts (hstarts.trans hc), hcounts]
      rfl
  have hparts : (fun i : Fin c.bucketCount => (c.add start delta haligned hdelta).livePart now' i) =
      Function.update (c.livePart now') (c.slot start)
        (c.livePart now' (c.slot start) + if c.isLive start now' then delta else 0) := by
    funext i
    by_cases hi : i = c.slot start
    · rw [hi, hslot, Function.update_self]
    · rw [hother i hi, Function.update_of_ne hi]
  calc ((c.add start delta haligned hdelta).expire now').2.total
      = ∑ i : Fin c.bucketCount, (c.add start delta haligned hdelta).livePart now' i :=
        expire_total_eq _ _
    _ = ∑ i, Function.update (c.livePart now') (c.slot start)
          (c.livePart now' (c.slot start) + if c.isLive start now' then delta else 0) i :=
        congrArg (fun f => ∑ i, f i) hparts
    _ = (c.expire now').2.total + if c.isLive start now' then delta else 0 := by
        rw [Finset.sum_update_of_mem (Finset.mem_univ _), expire_total_eq,
          ← Finset.add_sum_erase _ (c.livePart now') (Finset.mem_univ (c.slot start)),
          Finset.sdiff_singleton_eq_erase]
        ring

/-- A sweep takes nothing from the live part, now or later. -/
theorem expire_expire_total (hpast : c.Past now) (hle : now ≤ now') :
    ((c.expire now).2.expire now').2.total = (c.expire now').2.total := by
  rw [expire_total_eq, expire_total_eq]
  refine Finset.sum_congr rfl fun (i : Fin c.bucketCount) _ => ?_
  have hstarts : (c.expire now).2.starts i = if c.expired now i then none else c.starts i := rfl
  have hcounts : (c.expire now).2.counts i = if c.expired now i then 0 else c.counts i := rfl
  by_cases hexpired : c.expired now i
  · rw [if_pos hexpired] at hstarts
    rw [livePart_of_empty hstarts]
    unfold expired at hexpired
    cases hc : c.starts i with
    | none => rw [livePart_of_empty hc]
    | some start =>
      rw [hc] at hexpired
      have hgone := hpast.isLive_false hc (by simpa using hexpired) hle
      rw [livePart_of_starts hc, hgone]
      rfl
  · rw [if_neg hexpired] at hstarts hcounts
    cases hc : c.starts i with
    | none => rw [livePart_of_empty hc, livePart_of_empty (hstarts.trans hc)]
    | some start =>
      rw [livePart_of_starts hc, livePart_of_starts (hstarts.trans hc), hcounts]
      rfl

/-- A sweep twice at one time is a sweep once. -/
theorem expiredCount_expire (c : IpCounter) (now : ℤ) : (c.expire now).2.expiredCount now = 0 := by
  refine Finset.sum_eq_zero fun (i : Fin c.bucketCount) _ => ?_
  have hcounts : (c.expire now).2.counts i = if c.expired now i then 0 else c.counts i := rfl
  have hstarts : (c.expire now).2.starts i = if c.expired now i then none else c.starts i := rfl
  by_cases hexpired : c.expired now i
  · rw [hcounts, if_pos hexpired, ite_self]
  · have hsame : (c.expire now).2.expired now i = c.expired now i := by
      unfold expired
      rw [hstarts, if_neg hexpired]
      rfl
    rw [hsame, if_neg hexpired]

theorem expire_fst_expire (c : IpCounter) (now : ℤ) : ((c.expire now).2.expire now).1 = 0 :=
  expiredCount_expire c now

/-! ### The pairs of the live slots -/

/-- The sum over a filtered list of pairs, slot by slot. -/
theorem sum_filter_filterMap {α : Type} (l : List α) (f : α → Option (ℤ × ℤ)) (p : ℤ × ℤ → Bool) :
    (((l.filterMap f).filter p).map Prod.snd).sum =
      (l.map fun i => ((f i).elim 0 fun pair => if p pair then pair.2 else 0)).sum := by
  induction l with
  | nil => rfl
  | cons i rest ih =>
    rw [List.map_cons, List.sum_cons, ← ih]
    cases hf : f i with
    | none => rw [List.filterMap_cons_none hf, Option.elim_none, zero_add]
    | some pair =>
      rw [List.filterMap_cons_some hf, Option.elim_some]
      by_cases hp : p pair
      · rw [List.filter_cons_of_pos hp, if_pos hp, List.map_cons, List.sum_cons]
      · rw [List.filter_cons_of_neg hp, if_neg hp, zero_add]

/-- The live pairs add up to the live part of the total. -/
theorem sum_liveBuckets (c : IpCounter) (now : ℤ) :
    ((c.liveBuckets now).map Prod.snd).sum = (c.expire now).2.total := by
  have hperm := ((List.perm_insertionSort (fun p q : ℤ × ℤ => p.1 < q.1 ∨ p.1 = q.1 ∧ p.2 ≤ q.2)
    (c.occupied.filter fun p => c.isLive p.1 now)).map Prod.snd).sum_eq
  unfold liveBuckets
  rw [hperm, expire_total_eq, Fin.sum_univ_def]
  unfold occupied
  rw [sum_filter_filterMap]
  refine congrArg List.sum (List.map_congr_left fun i _ => ?_)
  cases hc : c.starts i with
  | none => rw [livePart_of_empty hc, Option.elim_none]
  | some start =>
    rw [livePart_of_starts hc]
    dsimp only
    have hnonneg := c.counts_nonneg i
    by_cases hpos : 0 < c.counts i
    · rw [if_pos hpos, Option.elim_some]
    · have hzero : c.counts i = 0 := by omega
      rw [if_neg hpos, Option.elim_none, hzero, ite_self]

/-! ### The order of the observations -/

/-- The counter after an observation, whatever it answered; one that raises changes nothing. -/
def observed (c : IpCounter) (start delta now : ℤ) : IpCounter :=
  match c.observe start delta now with
  | .ok (_, c') => c'
  | .error _ => c

theorem observed_of_applied (haligned : start.fmod c.bucketSeconds = 0) (hdelta : 0 ≤ delta)
    (hlive : c.isLive start now = true) :
    c.observed start delta now = c.add start delta haligned hdelta := by
  unfold observed observe
  rw [dif_pos haligned, dif_pos hdelta, if_pos hlive]

theorem observed_of_not_applied
    (h : ¬ (start.fmod c.bucketSeconds = 0 ∧ 0 ≤ delta ∧ c.isLive start now = true)) :
    c.observed start delta now = c := by
  unfold observed observe
  by_cases haligned : start.fmod c.bucketSeconds = 0
  · by_cases hdelta : 0 ≤ delta
    · have hlive : ¬ c.isLive start now = true := fun hc => h ⟨haligned, hdelta, hc⟩
      rw [dif_pos haligned, dif_pos hdelta, if_neg hlive]
    · rw [dif_pos haligned, dif_neg hdelta]
  · rw [dif_neg haligned]

/-- A counter is its geometry and its slots. -/
theorem ext_slots {c d : IpCounter} (hseconds : c.bucketSeconds = d.bucketSeconds)
    (hcount : c.bucketCount = d.bucketCount) (hstarts : HEq c.starts d.starts)
    (hcounts : HEq c.counts d.counts) : c = d := by
  obtain ⟨seconds, count, starts, counts, total, hs, hc, h₁, h₂, h₃, h₄, htotal⟩ := c
  obtain ⟨seconds', count', starts', counts', total', hs', hc', h₁', h₂', h₃', h₄', htotal'⟩ := d
  cases hseconds
  cases hcount
  cases hstarts
  cases hcounts
  obtain rfl : total = total' := htotal.trans htotal'.symm
  rfl

theorem add_add_counts {delta' : ℤ} (haligned : start.fmod c.bucketSeconds = 0) (hdelta : 0 ≤ delta)
    (haligned' : start'.fmod c.bucketSeconds = 0) (hdelta' : 0 ≤ delta') :
    ((c.add start delta haligned hdelta).add start' delta' haligned' hdelta').counts =
      Function.update (Function.update c.counts (c.slot start) (c.held start + delta))
        (c.slot start') ((c.add start delta haligned hdelta).held start' + delta') := by
  generalize hheld : (c.add start delta haligned hdelta).held start' + delta' = count
  have hsecond := add_counts (c := c.add start delta haligned hdelta) haligned' hdelta'
  rw [hheld] at hsecond
  exact hsecond.trans (congrArg (fun f : Fin c.bucketCount → ℤ =>
    Function.update f (c.slot start') count) (add_counts haligned hdelta))

/-- Two live observations at one time can be exchanged. -/
theorem add_add_comm {delta' : ℤ} (haligned : start.fmod c.bucketSeconds = 0) (hdelta : 0 ≤ delta)
    (haligned' : start'.fmod c.bucketSeconds = 0) (hdelta' : 0 ≤ delta')
    (hlive : c.isLive start now = true) (hlive' : c.isLive start' now = true) :
    (c.add start delta haligned hdelta).add start' delta' haligned' hdelta' =
      (c.add start' delta' haligned' hdelta').add start delta haligned hdelta := by
  refine ext_slots rfl rfl (heq_of_eq ?_) (heq_of_eq ?_)
  · show Function.update (Function.update c.starts (c.slot start) (some start)) (c.slot start')
        (some start') =
      Function.update (Function.update c.starts (c.slot start') (some start')) (c.slot start)
        (some start)
    by_cases hslot : c.slot start = c.slot start'
    · rw [eq_of_slot_eq haligned haligned' hlive hlive' hslot]
    · exact Function.update_comm hslot _ _ _
  · refine (add_add_counts haligned hdelta haligned' hdelta').trans
      (Eq.trans ?_ (add_add_counts haligned' hdelta' haligned hdelta).symm)
    by_cases hslot : c.slot start = c.slot start'
    · have heq := eq_of_slot_eq haligned haligned' hlive hlive' hslot
      subst heq
      rw [held_add_self, held_add_self, Function.update_idem, Function.update_idem,
        add_right_comm]
    · rw [held_add_of_slot_ne _ _ (Ne.symm hslot), held_add_of_slot_ne _ _ hslot]
      exact Function.update_comm hslot _ _ _

/-- Two observations at one time can be exchanged, whatever they answer. -/
theorem observed_comm (c : IpCounter) (now : ℤ) (a b : ℤ × ℤ) :
    (c.observed a.1 a.2 now).observed b.1 b.2 now =
      (c.observed b.1 b.2 now).observed a.1 a.2 now := by
  by_cases ha : a.1.fmod c.bucketSeconds = 0 ∧ 0 ≤ a.2 ∧ c.isLive a.1 now = true
  · by_cases hb : b.1.fmod c.bucketSeconds = 0 ∧ 0 ≤ b.2 ∧ c.isLive b.1 now = true
    · rw [observed_of_applied ha.1 ha.2.1 ha.2.2, observed_of_applied hb.1 hb.2.1 hb.2.2,
        observed_of_applied (c := c.add a.1 a.2 ha.1 ha.2.1) hb.1 hb.2.1 hb.2.2,
        observed_of_applied (c := c.add b.1 b.2 hb.1 hb.2.1) ha.1 ha.2.1 ha.2.2]
      exact add_add_comm ha.1 ha.2.1 hb.1 hb.2.1 ha.2.2 hb.2.2
    · rw [observed_of_not_applied hb, observed_of_applied ha.1 ha.2.1 ha.2.2]
      exact observed_of_not_applied (c := c.add a.1 a.2 ha.1 ha.2.1) hb
  · rw [observed_of_not_applied ha]
    by_cases hb : b.1.fmod c.bucketSeconds = 0 ∧ 0 ≤ b.2 ∧ c.isLive b.1 now = true
    · rw [observed_of_applied hb.1 hb.2.1 hb.2.2]
      exact (observed_of_not_applied (c := c.add b.1 b.2 hb.1 hb.2.1) ha).symm
    · rw [observed_of_not_applied hb, observed_of_not_applied ha]

/-- The observations of a list, all at one time. -/
def observeAll (c : IpCounter) (now : ℤ) (observations : List (ℤ × ℤ)) : IpCounter :=
  observations.foldl (fun c bucket => c.observed bucket.1 bucket.2 now) c

theorem observeAll_perm (c : IpCounter) (now : ℤ) {observations observations' : List (ℤ × ℤ)}
    (h : observations.Perm observations') :
    c.observeAll now observations = c.observeAll now observations' :=
  h.foldl_eq' (fun a _ b _ c => observed_comm c now a b) c

/-! ### Runs -/

/-- A call of the counter, with the time that it is given. -/
inductive Call where
  | observe (start delta now : ℤ)
  | expire (now : ℤ)

/-- The time of a call. -/
def Call.time : Call → ℤ
  | .observe _ _ now => now
  | .expire now => now

/-- The counter after a call. -/
def call (c : IpCounter) : Call → IpCounter
  | .observe start delta now => c.observed start delta now
  | .expire now => (c.expire now).2

/-- What a call applies: the bucket and the delta of an observation that answers `True`. -/
def applies (c : IpCounter) : Call → List (ℤ × ℤ)
  | .observe start delta now =>
    match c.observe start delta now with
    | .ok (true, _) => [(start, delta)]
    | _ => []
  | .expire _ => []

theorem applies_of_not_applied
    (h : ¬ (start.fmod c.bucketSeconds = 0 ∧ 0 ≤ delta ∧ c.isLive start now = true)) :
    c.applies (.observe start delta now) = [] := by
  unfold applies
  dsimp only
  split
  next c' hobserve =>
    obtain ⟨haligned, hdelta, hlive, -⟩ := observe_true hobserve
    exact absurd ⟨haligned, hdelta, hlive⟩ h
  next => rfl

/-- A counter with the ledger of what was applied to it. -/
structure Ledger where
  counter : IpCounter
  applied : List (ℤ × ℤ)

/-- One call, with what it applies entered. -/
def Ledger.call (ledger : Ledger) (call : Call) : Ledger :=
  ⟨ledger.counter.call call, ledger.applied ++ ledger.counter.applies call⟩

/-- The deltas applied to the buckets that are live. -/
def Ledger.liveSum (ledger : Ledger) (now : ℤ) : ℤ :=
  ((ledger.applied.filter fun bucket => ledger.counter.isLive bucket.1 now).map Prod.snd).sum

/-- The ledger agrees with the ring from `t` on. -/
structure Ledger.Agrees (ledger : Ledger) (t : ℤ) : Prop where
  past : ledger.counter.Past t
  live : ∀ now, t ≤ now → (ledger.counter.expire now).2.total = ledger.liveSum now

theorem Ledger.Agrees.mono {ledger : Ledger} {t t' : ℤ} (h : ledger.Agrees t) (hle : t ≤ t') :
    ledger.Agrees t' :=
  ⟨h.past.mono hle, fun now hnow => h.live now (hle.trans hnow)⟩

/-- One call keeps the ledger in agreement. -/
theorem Ledger.Agrees.call {ledger : Ledger} {call : Call} (h : ledger.Agrees call.time) :
    (ledger.call call).Agrees call.time := by
  obtain ⟨c, applied⟩ := ledger
  cases call with
  | expire now =>
    refine ⟨h.past.expire now, fun now' hle => ?_⟩
    have hsame : (Ledger.call ⟨c, applied⟩ (.expire now)).liveSum now' =
        Ledger.liveSum ⟨c, applied⟩ now' := by
      unfold Ledger.call Ledger.liveSum
      dsimp only [applies]
      rw [List.append_nil]
      rfl
    rw [hsame, ← h.live now' hle]
    exact expire_expire_total h.past hle
  | observe start delta now =>
    by_cases happlied : start.fmod c.bucketSeconds = 0 ∧ 0 ≤ delta ∧ c.isLive start now = true
    · obtain ⟨haligned, hdelta, hlive⟩ := happlied
      have hcall : Ledger.call ⟨c, applied⟩ (.observe start delta now) =
          ⟨c.add start delta haligned hdelta, applied ++ [(start, delta)]⟩ := by
        have hobserve : c.observe start delta now =
            .ok (true, c.add start delta haligned hdelta) := by
          unfold IpCounter.observe
          rw [dif_pos haligned, dif_pos hdelta, if_pos hlive]
        unfold Ledger.call IpCounter.call applies
        dsimp only
        rw [observed_of_applied haligned hdelta hlive, hobserve]
      rw [hcall]
      refine ⟨Past.add haligned hdelta h.past ((isLive_iff haligned).mp hlive).1,
        fun now' hle => ?_⟩
      have htotal := expire_add_total h.past haligned hdelta hlive hle
      have hsum := h.live now' hle
      unfold Ledger.liveSum at hsum ⊢
      dsimp only at hsum ⊢
      rw [htotal, hsum, List.filter_append, List.map_append, List.sum_append]
      congr 1
      by_cases hlive' : c.isLive start now' = true
      · have hlive'' : (c.add start delta haligned hdelta).isLive start now' = true := hlive'
        rw [if_pos hlive']
        simp [hlive'']
      · have hlive'' : ¬ (c.add start delta haligned hdelta).isLive start now' = true := hlive'
        rw [if_neg hlive']
        simp [hlive'']
    · have hcall : Ledger.call ⟨c, applied⟩ (.observe start delta now) = ⟨c, applied⟩ := by
        unfold Ledger.call IpCounter.call
        dsimp only
        rw [observed_of_not_applied happlied, applies_of_not_applied happlied, List.append_nil]
      rw [hcall]
      exact h

/-- The ledger agrees with the ring after every run under a clock that does not run backwards. -/
theorem Ledger.Agrees.run {ledger : Ledger} {t : ℤ} (h : ledger.Agrees t) {calls : List Call}
    (hcalls : (t :: calls.map Call.time).Pairwise (· ≤ ·)) {now : ℤ}
    (hnow : ∀ time ∈ t :: calls.map Call.time, time ≤ now) :
    (calls.foldl Ledger.call ledger).Agrees now := by
  induction calls generalizing ledger t with
  | nil => exact h.mono (hnow t List.mem_cons_self)
  | cons call rest ih =>
    obtain ⟨hfirst, hrest⟩ := List.pairwise_cons.mp hcalls
    have hle : t ≤ call.time := hfirst _ List.mem_cons_self
    exact ih (h.mono hle).call hrest fun time htime => hnow time (List.mem_cons_of_mem _ htime)

/-- Nothing is held of an empty ring, and nothing was applied to it. -/
theorem agrees_makeRing {bucketSeconds bucketCount : ℤ} (h : makeRing bucketSeconds bucketCount = .ok c)
    (t : ℤ) : Ledger.Agrees ⟨c, []⟩ t := by
  unfold makeRing at h
  split_ifs at h
  cases h
  constructor
  · intro i start hi
    cases hi
  · intro now _
    rw [expire_total_eq]
    exact Finset.sum_eq_zero fun i _ => livePart_of_empty rfl now

/-- A ring is an exact sliding window under every sequence of calls whose times do not decrease.
The total is the sum of the counts, and a slot holds a bucket that hashes to it. An observation is
applied exactly when its bucket is live, it adds its delta to that bucket and takes nothing from
another live one, and the bucket that it displaces has left the window. After a sweep the total is
what was applied to the live buckets, and the sweep answers what it took. Observations at one time
can come in any order. -/
theorem sliding_window_exact (bucketSeconds bucketCount : ℤ) (hseconds : 1 ≤ bucketSeconds)
    (hcount : 1 ≤ bucketCount) :
    ∃ fresh, makeRing bucketSeconds bucketCount = .ok fresh ∧ ∀ (calls : List Call),
      (calls.map Call.time).Pairwise (· ≤ ·) → ∀ c applied,
      calls.foldl Ledger.call ⟨fresh, []⟩ = ⟨c, applied⟩ →
      (c.total = ∑ i, c.counts i ∧ 0 ≤ c.total ∧
        ∀ i start, c.starts i = some start → c.slot start = i) ∧
      (∀ start delta now answer c', (∀ call ∈ calls, call.time ≤ now) →
        c.observe start delta now = .ok (answer, c') →
        (answer = true ↔ c.isLive start now = true) ∧
        (answer = false → c' = c) ∧
        (answer = true → c'.held start = c.held start + delta ∧
          (∀ other, other ≠ start → c.isLive other now = true → c'.held other = c.held other) ∧
          ∀ old, c.starts (c.slot start) = some old → old ≠ start →
            c.isLive old now = false ∧ old + c.windowSeconds ≤ now)) ∧
      (∀ now, (∀ call ∈ calls, call.time ≤ now) →
        (c.expire now).2.total =
          ((applied.filter fun bucket => c.isLive bucket.1 now).map Prod.snd).sum ∧
        (c.expire now).2.total = (((c.expire now).2.liveBuckets now).map Prod.snd).sum ∧
        (c.expire now).1 = c.total - (c.expire now).2.total) ∧
      ∀ now (observations observations' : List (ℤ × ℤ)), observations.Perm observations' →
        (c.observeAll now observations).liveBuckets now =
            (c.observeAll now observations').liveBuckets now ∧
          (c.observeAll now observations).total = (c.observeAll now observations').total := by
  obtain ⟨fresh, hfresh⟩ := exists_makeRing (show 0 < bucketSeconds by omega)
    (show 0 < bucketCount by omega)
  refine ⟨fresh, hfresh, fun calls hsorted c applied hrun => ?_⟩
  -- The ledger agrees at every time that is not before a call; the first call sets the clock.
  have hagrees : ∀ now, (∀ call ∈ calls, call.time ≤ now) → Ledger.Agrees ⟨c, applied⟩ now := by
    intro now hnow
    rw [← hrun]
    cases calls with
    | nil => exact agrees_makeRing hfresh now
    | cons call rest =>
      refine (agrees_makeRing hfresh call.time).run
        (List.pairwise_cons.mpr ⟨fun time htime => ?_, hsorted⟩) fun time htime => ?_
      · obtain htime | htime := List.mem_cons.mp htime
        · exact htime.ge
        · exact (List.pairwise_cons.mp hsorted).1 time htime
      · obtain htime | htime := List.mem_cons.mp htime
        · rw [htime]
          exact hnow call List.mem_cons_self
        · obtain ⟨other, hother, rfl⟩ := List.mem_map.mp htime
          exact hnow other hother
  refine ⟨⟨c.total_eq, c.total_nonneg, c.slot_eq⟩, ?_, ?_, ?_⟩
  · intro start delta now answer c' hnow hobserve
    cases answer with
    | false =>
      obtain ⟨hlive, rfl⟩ := observe_false hobserve
      simp [hlive]
    | true =>
      obtain ⟨haligned, hdelta, hlive, rfl⟩ := observe_true hobserve
      refine ⟨by simp [hlive], by simp, fun _ => ⟨held_add_self haligned hdelta, ?_, ?_⟩⟩
      · exact fun other hne hother => held_add_of_ne haligned hdelta hlive hne hother
      -- A bucket that a claim of its slot displaces had left the window.
      · intro old hold hne
        have hgone := displaced_not_live haligned hlive hold hne
        exact ⟨hgone, (hagrees now hnow).past.left hold hgone⟩
  · intro now hnow
    refine ⟨(hagrees now hnow).live now (le_refl now), ?_, ?_⟩
    · rw [sum_liveBuckets, (c.expire now).2.expire_total, expire_fst_expire, sub_zero]
    · rw [expire_total]
      ring
  · intro now observations observations' hperm
    rw [observeAll_perm c now hperm]
    exact ⟨rfl, rfl⟩

/-- A sweep of the default geometry keeps what arrived within the window. -/
theorem sliding_window_exact_default : ∃ fresh, makeRing 10 30 = .ok fresh ∧
    (((fresh.observed 0 5 0).observed 300 7 305).expire 305).2.total =
      (([((0 : ℤ), (5 : ℤ)), (300, 7)].filter fun bucket => fresh.isLive bucket.1 305).map
        Prod.snd).sum := by
  obtain ⟨fresh, hfresh, h⟩ := sliding_window_exact 10 30 (by decide) (by decide)
  refine ⟨fresh, hfresh, ?_⟩
  cases hfresh
  exact ((h [.observe 0 5 0, .observe 300 7 305] (by decide) _ _ rfl).2.2.1 305 (by decide)).1

end IpCounter

end Hammertime.Aggregator
