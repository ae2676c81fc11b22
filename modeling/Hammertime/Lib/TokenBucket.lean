import Mathlib.Algebra.Order.Ring.Rat
import Mathlib.Tactic
import Hammertime.Lib.Machine

/-!
# Token buckets

A bucket holds up to a capacity of tokens and refills at a constant rate. `refill` is what it holds
after some time. A machine is priced by a level if what its actions cost comes out of a level that
only refills: in any interval it then spends at most the capacity and what refills in between. It is
metered if every charged action costs one.

The argument is one for a potential. The level at the start of the interval is at most the capacity,
it grows by at most the rate, every action lowers it by its cost, and it never falls below zero.
-/

namespace Hammertime.Lib

/-! ### Answers along a run -/

section

variable {σ α β : Type}

/-- The actions of a run, each with its answer. -/
def answers (step : σ → α → σ × β) : σ → List α → List (α × β)
  | _, [] => []
  | s, a :: rest => (a, (step s a).2) :: answers step (step s a).1 rest

end

namespace TokenBucket

/-- What a bucket with these tokens holds after the time. -/
def refill (capacity rate tokens elapsed : ℚ) : ℚ := min capacity (tokens + elapsed * rate)

section

variable {capacity rate tokens : ℚ}

/-- Refilling twice is refilling once. -/
theorem refill_refill (hrate : 0 ≤ rate) {t u : ℚ} (hu : 0 ≤ u) :
    refill capacity rate (refill capacity rate tokens t) u =
      refill capacity rate tokens (t + u) := by
  have hgrow : 0 ≤ u * rate := mul_nonneg hu hrate
  have hsum : (t + u) * rate = t * rate + u * rate := add_mul t u rate
  unfold refill
  rw [min_add, ← min_assoc, min_eq_left (show capacity ≤ capacity + u * rate by linarith), hsum,
    add_assoc]

theorem refill_zero (h : tokens ≤ capacity) : refill capacity rate tokens 0 = tokens := by
  unfold refill
  rw [zero_mul, add_zero, min_eq_right h]

theorem refill_le_capacity (elapsed : ℚ) : refill capacity rate tokens elapsed ≤ capacity :=
  min_le_left _ _

theorem refill_mono {other elapsed : ℚ} (h : tokens ≤ other) :
    refill capacity rate tokens elapsed ≤ refill capacity rate other elapsed :=
  min_le_min_left _ (by linarith)

theorem refill_nonneg (hrate : 0 ≤ rate) (hcapacity : 0 ≤ capacity) (htokens : 0 ≤ tokens)
    {elapsed : ℚ} (helapsed : 0 ≤ elapsed) : 0 ≤ refill capacity rate tokens elapsed := by
  have hgrow : 0 ≤ elapsed * rate := mul_nonneg helapsed hrate
  exact le_min hcapacity (by linarith)

end

/-! ### Priced machines -/

section

variable {σ α β : Type}

/-- A machine whose costs come out of a level, as long as its actions are admitted. `Valid s t` says
that the state is one that the times from `t` on can meet. -/
structure Priced (step : σ → α → σ × β) (admits : σ → α → Prop) (time : α → ℚ) (cost : α → β → ℚ)
    (capacity rate : ℚ) (level : σ → ℚ → ℚ) (Valid : σ → ℚ → Prop) : Prop where
  rate_nonneg : 0 ≤ rate
  nonneg : ∀ s t, Valid s t → 0 ≤ level s t
  le_capacity : ∀ s t, Valid s t → level s t ≤ capacity
  refills : ∀ s t u, Valid s t → t ≤ u → level s u = refill capacity rate (level s t) (u - t)
  later : ∀ s t u, Valid s t → t ≤ u → Valid s u
  valid_step : ∀ s a, admits s a → Valid s (time a) → Valid (step s a).1 (time a)
  cost_nonneg : ∀ s a, admits s a → 0 ≤ cost a (step s a).2
  charge : ∀ s a, admits s a → Valid s (time a) →
    level (step s a).1 (time a) + cost a (step s a).2 ≤ level s (time a)

variable {step : σ → α → σ × β} {admits : σ → α → Prop} {time : α → ℚ} {cost : α → β → ℚ}
  {capacity rate : ℚ} {level : σ → ℚ → ℚ} {Valid : σ → ℚ → Prop}

/-- What the actions of a run whose times are in the interval cost. -/
def paidWithin (time : α → ℚ) (cost : α → β → ℚ) (start finish : ℚ) (run : List (α × β)) : ℚ :=
  ((run.filter fun p => start ≤ time p.1 ∧ time p.1 ≤ finish).map fun p => cost p.1 p.2).sum

theorem paidWithin_cons (start finish : ℚ) (p : α × β) (run : List (α × β)) :
    paidWithin time cost start finish (p :: run) =
      (if start ≤ time p.1 ∧ time p.1 ≤ finish then cost p.1 p.2 else 0) +
        paidWithin time cost start finish run := by
  unfold paidWithin
  rw [List.filter_cons]
  by_cases h : start ≤ time p.1 ∧ time p.1 ≤ finish
  · rw [if_pos (decide_eq_true h), if_pos h, List.map_cons, List.sum_cons]
  · rw [if_neg (by rwa [decide_eq_true_eq]), if_neg h, zero_add]

/-- After the interval nothing counts. -/
theorem paidWithin_after {start finish : ℚ} (s : σ) (actions : List α)
    (h : ∀ a ∈ actions, finish < time a) :
    paidWithin time cost start finish (answers step s actions) = 0 := by
  induction actions generalizing s with
  | nil => rfl
  | cons a rest ih =>
    have hlate : finish < time a := h a List.mem_cons_self
    have hnot : ¬ (start ≤ time a ∧ time a ≤ finish) := fun hin => absurd hin.2 (not_le.mpr hlate)
    rw [answers, paidWithin_cons, if_neg hnot, ih _ fun b hb => h b (List.mem_cons_of_mem _ hb),
      add_zero]

namespace Priced

variable (h : Priced step admits time cost capacity rate level Valid)

include h

/-- The level later is at most the level now and what refills. -/
theorem level_le {s : σ} {t u : ℚ} (hs : Valid s t) (htu : t ≤ u) :
    level s u ≤ level s t + (u - t) * rate := by
  rw [h.refills s t u hs htu]
  exact min_le_right _ _

/-- A level that is lower at a time is lower at later ones. -/
theorem level_mono {s s' : σ} {t u : ℚ} (hs : Valid s t) (hs' : Valid s' t) (htu : t ≤ u)
    (hle : level s' t ≤ level s t) : level s' u ≤ level s u := by
  rw [h.refills s t u hs htu, h.refills s' t u hs' htu]
  exact refill_mono hle

/-- What is paid from a state on, by the level that it has when the interval has begun. -/
theorem paidWithin_le_level {start finish : ℚ} (hinterval : start ≤ finish) {s : σ} {t : ℚ}
    (hs : Valid s t) (ht : t ≤ finish) (actions : List α)
    (hadmits : Along (fun s a => (step s a).1) admits s actions)
    (hsorted : (actions.map time).Pairwise (· ≤ ·)) (hfirst : ∀ a ∈ actions, t ≤ time a) :
    paidWithin time cost start finish (answers step s actions) ≤
      level s (max start t) + (finish - max start t) * rate := by
  have hmax : max start t ≤ finish := max_le hinterval ht
  induction actions generalizing s t with
  | nil =>
    have hlevel := h.nonneg s (max start t) (h.later s t _ hs (le_max_right _ _))
    have hgrow : 0 ≤ (finish - max start t) * rate :=
      mul_nonneg (by linarith) h.rate_nonneg
    show (0 : ℚ) ≤ _
    linarith
  | cons a rest ih =>
    obtain ⟨hallowed, hadmits⟩ := hadmits
    have hta : t ≤ time a := hfirst a List.mem_cons_self
    obtain ⟨hlater, hrest⟩ := List.pairwise_cons.mp hsorted
    have hafter : ∀ b ∈ rest, time a ≤ time b := fun b hb => hlater _ (List.mem_map_of_mem hb)
    have hvalid : Valid s (time a) := h.later s t _ hs hta
    have hstep : Valid (step s a).1 (time a) := h.valid_step s a hallowed hvalid
    have hcharge := h.charge s a hallowed hvalid
    have hcost := h.cost_nonneg s a hallowed
    by_cases hfinish : time a ≤ finish
    · have hrec := ih hstep hfinish hadmits hrest hafter (max_le hinterval hfinish)
      rw [answers, paidWithin_cons]
      by_cases hstart : start ≤ time a
      · -- In the interval: the cost is paid by the level, which has refilled since `t`.
        have hgrow := h.level_le (h.later s t _ hs (le_max_right start t)) (max_le hstart hta)
        rw [max_eq_right hstart] at hrec
        have hsplit : (finish - max start t) * rate =
            (finish - time a) * rate + (time a - max start t) * rate := by
          ring
        rw [if_pos ⟨hstart, hfinish⟩, hsplit]
        linarith
      · -- Before the interval: nothing counts, and the level is no higher for it.
        have hbefore : time a ≤ start := le_of_not_ge hstart
        have hlower : level (step s a).1 (time a) ≤ level s (time a) := by linarith
        have hlevel := h.level_mono hvalid hstep hbefore hlower
        rw [max_eq_left hbefore] at hrec
        rw [max_eq_left (hta.trans hbefore), if_neg fun hin => hstart hin.1]
        linarith
    · -- After the interval.
      have hlate : ∀ b ∈ a :: rest, finish < time b := by
        intro b hb
        obtain rfl | hb := List.mem_cons.mp hb
        · exact lt_of_not_ge hfinish
        · exact (lt_of_not_ge hfinish).trans_le (hafter b hb)
      have hlevel := h.nonneg s (max start t) (h.later s t _ hs (le_max_right _ _))
      have hgrow : 0 ≤ (finish - max start t) * rate :=
        mul_nonneg (by linarith) h.rate_nonneg
      rw [paidWithin_after s (a :: rest) hlate]
      linarith

/-- In an interval a priced machine spends at most the capacity and what refills. -/
theorem paidWithin_le {start finish : ℚ} (hinterval : start ≤ finish) {s : σ}
    (hs : ∀ t, Valid s t) (actions : List α)
    (hadmits : Along (fun s a => (step s a).1) admits s actions)
    (hsorted : (actions.map time).Pairwise (· ≤ ·)) :
    paidWithin time cost start finish (answers step s actions) ≤
      capacity + (finish - start) * rate := by
  -- A time before the interval and before every action.
  have hearly : ∃ t ≤ start, ∀ a ∈ actions, t ≤ time a := by
    cases actions with
    | nil => exact ⟨start, le_refl _, fun a ha => absurd ha List.not_mem_nil⟩
    | cons a rest =>
      refine ⟨min start (time a), min_le_left _ _, fun b hb => (min_le_right _ _).trans ?_⟩
      obtain rfl | hb := List.mem_cons.mp hb
      · exact le_refl _
      · exact (List.pairwise_cons.mp hsorted).1 _ (List.mem_map_of_mem hb)
  obtain ⟨t, ht, hfirst⟩ := hearly
  have hle := h.paidWithin_le_level hinterval (hs t) (ht.trans hinterval) actions hadmits hsorted
    hfirst
  rw [max_eq_left ht] at hle
  have hfull := h.le_capacity s start (hs start)
  linarith

end Priced

/-! ### Metered machines -/

/-- A machine whose charges come out of a level, one for each. -/
structure Metered (step : σ → α → σ × β) (time : α → ℚ) (charged : α → β → Bool)
    (capacity rate : ℚ) (level : σ → ℚ → ℚ) (Valid : σ → ℚ → Prop) : Prop where
  rate_nonneg : 0 ≤ rate
  nonneg : ∀ s t, Valid s t → 0 ≤ level s t
  le_capacity : ∀ s t, Valid s t → level s t ≤ capacity
  refills : ∀ s t u, Valid s t → t ≤ u → level s u = refill capacity rate (level s t) (u - t)
  later : ∀ s t u, Valid s t → t ≤ u → Valid s u
  valid_step : ∀ s a, Valid s (time a) → Valid (step s a).1 (time a)
  charge : ∀ s a, Valid s (time a) →
    level (step s a).1 (time a) + (if charged a (step s a).2 then 1 else 0) ≤ level s (time a)

variable {charged : α → β → Bool}

/-- The charges of a run whose times are in the interval. -/
def chargedWithin (time : α → ℚ) (charged : α → β → Bool) (start finish : ℚ)
    (run : List (α × β)) : ℕ :=
  (run.filter fun p => start ≤ time p.1 ∧ time p.1 ≤ finish ∧ charged p.1 p.2).length

/-- A charge is a cost of one. -/
theorem chargedWithin_eq (start finish : ℚ) (run : List (α × β)) :
    (chargedWithin time charged start finish run : ℚ) =
      paidWithin time (fun a b => if charged a b then 1 else 0) start finish run := by
  induction run with
  | nil => rfl
  | cons p run ih =>
    rw [paidWithin_cons, ← ih]
    unfold chargedWithin
    rw [List.filter_cons]
    by_cases hin : start ≤ time p.1 ∧ time p.1 ≤ finish
    · by_cases hcharged : charged p.1 p.2 = true
      · rw [if_pos (by simp [hin, hcharged]), if_pos hin, if_pos hcharged, List.length_cons]
        push_cast
        ring
      · rw [if_neg (by simp [hcharged]), if_pos hin, if_neg hcharged, zero_add]
    · rw [if_neg (by simpa using fun h₁ h₂ => absurd ⟨h₁, h₂⟩ hin), if_neg hin, zero_add]

namespace Metered

variable (h : Metered step time charged capacity rate level Valid)

include h

theorem priced : Priced step (fun _ _ => True) time (fun a b => if charged a b then 1 else 0)
    capacity rate level Valid where
  rate_nonneg := h.rate_nonneg
  nonneg := h.nonneg
  le_capacity := h.le_capacity
  refills := h.refills
  later := h.later
  valid_step s a _ := h.valid_step s a
  cost_nonneg s a _ := by
    split_ifs
    · exact zero_le_one
    · exact le_refl 0
  charge s a _ := h.charge s a

/-- In an interval a metered machine charges at most the capacity and what refills. -/
theorem chargedWithin_le {start finish : ℚ} (hinterval : start ≤ finish) {s : σ}
    (hs : ∀ t, Valid s t) (actions : List α) (hsorted : (actions.map time).Pairwise (· ≤ ·)) :
    (chargedWithin time charged start finish (answers step s actions) : ℚ) ≤
      capacity + (finish - start) * rate := by
  rw [chargedWithin_eq]
  exact h.priced.paidWithin_le hinterval hs actions (Along.of_forall fun _ _ _ => trivial) hsorted

end Metered

end

end TokenBucket

end Hammertime.Lib
