import Hammertime.Lib.Machine
import Hammertime.Store.Interface

/-!
# What a sequence window answers

The high-water mark of a `SequenceWindow` never moves across a sequence that was not added, so that the
window answers only for what was added, in whatever order and with whatever gaps it came. What it
forgets is what the bound on the out-of-order set drops: at most one sequence an `add`, the smallest
of the set. While nothing is dropped the answers are exact.
-/

namespace Hammertime.Store.SequenceWindow

open Lib

/-- `SequenceWindow(max_out_of_order=...)`. -/
def make (maxOutOfOrder : ℕ) : SequenceWindow := ⟨-1, maxOutOfOrder, ∅⟩

/-- `out_of_order_count`. -/
def outOfOrderCount (w : SequenceWindow) : ℕ := w.ahead.card

/-- The window after the calls of `add` of a list. -/
def addAll (w : SequenceWindow) (sequences : List ℤ) : SequenceWindow := sequences.foldl add w

/-- The set ahead of the gap is full, so that adding the sequence to it has to drop one. -/
def Drops (w : SequenceWindow) (sequence : ℤ) : Prop :=
  w.contains sequence = false ∧ sequence ≠ w.highWaterMark + 1 ∧
    w.maxOutOfOrder < (insert sequence w.ahead).card

variable {w : SequenceWindow} {sequence x : ℤ}

/-! ### One `add` -/

/-- Folding ends at the first gap. -/
theorem foldContiguousRun_ahead (h : ∀ x ∈ w.ahead, w.highWaterMark < x) :
    ∀ x ∈ w.foldContiguousRun.ahead, w.foldContiguousRun.highWaterMark + 1 < x := by
  fun_induction foldContiguousRun w with
  | case1 w hin ih =>
    apply ih
    intro x hx
    obtain ⟨hne, hx⟩ := Finset.mem_erase.mp hx
    have hlt := h x hx
    show w.highWaterMark + 1 < x
    omega
  | case2 w hout =>
    intro x hx
    have hlt := h x hx
    have hne : x ≠ w.highWaterMark + 1 := fun heq => hout (heq ▸ hx)
    omega

/-- Bounding the set makes room for one. -/
theorem boundOutOfOrderSet_card (h : w.ahead.card ≤ w.maxOutOfOrder + 1) :
    w.boundOutOfOrderSet.ahead.card ≤ w.maxOutOfOrder := by
  unfold boundOutOfOrderSet
  split_ifs with hfull
  · show (w.ahead.erase _).card ≤ w.maxOutOfOrder
    rw [Finset.card_erase_of_mem (Finset.min'_mem _ _)]
    omega
  · exact not_lt.mp hfull

/-- What an `add` forgets is the smallest sequence of the set, and it had to drop one. -/
theorem add_forgets (hx : w.contains x = true ∨ x = sequence)
    (hforgot : (w.add sequence).contains x = false) :
    w.Drops sequence ∧ IsLeast (insert sequence w.ahead : Finset ℤ) x := by
  unfold add at hforgot
  split_ifs at hforgot with hin hnext
  · have hkept : w.contains x = true := hx.elim id fun heq => heq ▸ hin
    rw [hkept] at hforgot
    cases hforgot
  · -- The mark moves up, and folding forgets nothing.
    have hkept := (foldContiguousRun_spec { w with highWaterMark := sequence }).1 x ?_
    · rw [hkept] at hforgot
      cases hforgot
    · rw [contains_iff]
      rcases hx with hx | hx
      · refine (contains_iff.mp hx).imp (fun hle => ?_) id
        show x ≤ sequence
        omega
      · exact Or.inl hx.le
  · have hheld : ({ w with ahead := insert sequence w.ahead } : SequenceWindow).contains x = true := by
      rw [contains_iff]
      rcases hx with hx | hx
      · exact (contains_iff.mp hx).imp id Finset.mem_insert_of_mem
      · exact Or.inr (hx ▸ Finset.mem_insert_self _ _)
    unfold boundOutOfOrderSet at hforgot
    split_ifs at hforgot with hfull
    · refine ⟨⟨Bool.eq_false_iff.mpr hin, hnext, hfull⟩, ?_⟩
      rw [Bool.eq_false_iff, ne_eq, contains_iff, not_or] at hforgot
      obtain ⟨habove, hdropped⟩ := hforgot
      have hmem : x ∈ insert sequence w.ahead := (contains_iff.mp hheld).resolve_left habove
      have hmin : x = (insert sequence w.ahead).min' ⟨x, hmem⟩ := by
        by_contra hne
        exact hdropped (Finset.mem_erase.mpr ⟨hne, hmem⟩)
      refine ⟨hmem, fun y hy => ?_⟩
      rw [hmin]
      exact Finset.min'_le _ y hy
    · rw [hheld] at hforgot
      cases hforgot

/-! ### Every sequence of `add` calls -/

/-- What a window is after some sequences were added: the set is ahead of a gap and within its bound,
and only what was added is answered for. -/
structure Sound (maxOutOfOrder : ℕ) (sequences : List ℤ) (w : SequenceWindow) : Prop where
  bound : w.maxOutOfOrder = maxOutOfOrder
  ahead : ∀ x ∈ w.ahead, w.highWaterMark + 1 < x
  bounded : w.ahead.card ≤ maxOutOfOrder
  added : ∀ x, 0 ≤ x → w.contains x = true → x ∈ sequences

namespace Sound

variable {maxOutOfOrder : ℕ} {sequences : List ℤ}

theorem make (maxOutOfOrder : ℕ) : Sound maxOutOfOrder [] (make maxOutOfOrder) := by
  refine ⟨rfl, ?_, Nat.zero_le _, ?_⟩
  · intro x hx
    exact absurd hx (Finset.notMem_empty x)
  · intro x hx hin
    rcases contains_iff.mp hin with hle | hmem
    · have hle : x ≤ -1 := hle
      omega
    · exact absurd hmem (Finset.notMem_empty x)

theorem add (h : Sound maxOutOfOrder sequences w) (sequence : ℤ) :
    Sound maxOutOfOrder (sequences ++ [sequence]) (w.add sequence) := by
  have hadded : ∀ x, 0 ≤ x → (w.add sequence).contains x = true → x ∈ sequences ++ [sequence] := by
    intro x hx hin
    rcases contains_add hin with hin | heq
    · exact List.mem_append_left _ (h.added x hx hin)
    · exact List.mem_append_right _ (List.mem_singleton.mpr heq)
  have hmax := (w.add_spec sequence).2.2.trans h.bound
  suffices hset : (∀ x ∈ (w.add sequence).ahead, (w.add sequence).highWaterMark + 1 < x) ∧
      (w.add sequence).ahead.card ≤ maxOutOfOrder from ⟨hmax, hset.1, hset.2, hadded⟩
  unfold SequenceWindow.add
  split_ifs with hin hnext
  · exact ⟨h.ahead, h.bounded⟩
  · refine ⟨foldContiguousRun_ahead fun x hx => ?_, ?_⟩
    · rw [hnext]
      exact h.ahead x hx
    · exact (Finset.card_le_card (foldContiguousRun_spec _).2.1).trans h.bounded
  · rw [contains_iff, not_or] at hin
    have hahead : ∀ x ∈ insert sequence w.ahead, w.highWaterMark + 1 < x := by
      intro x hx
      rcases Finset.mem_insert.mp hx with rfl | hx
      · omega
      · exact h.ahead x hx
    refine ⟨fun x hx => ?_, ?_⟩
    · have hmark : ({ w with ahead := insert sequence w.ahead } :
          SequenceWindow).boundOutOfOrderSet.highWaterMark = w.highWaterMark := by
        unfold boundOutOfOrderSet
        split_ifs <;> rfl
      rw [hmark]
      exact hahead x ((boundOutOfOrderSet_spec _).2.1 hx)
    · rw [← h.bound]
      refine boundOutOfOrderSet_card ?_
      calc (insert sequence w.ahead).card ≤ w.ahead.card + 1 := Finset.card_insert_le _ _
        _ ≤ w.maxOutOfOrder + 1 := by
          rw [h.bound]
          exact Nat.succ_le_succ h.bounded

/-- The window of a run is sound for what the run added. -/
theorem addAll (h : Sound maxOutOfOrder sequences w) (rest : List ℤ) :
    Sound maxOutOfOrder (sequences ++ rest) (w.addAll rest) := by
  induction rest generalizing w sequences with
  | nil =>
    rw [List.append_nil]
    exact h
  | cons sequence rest ih =>
    have hnext := ih (h.add sequence)
    rw [List.append_assoc] at hnext
    exact hnext

end Sound

/-- A run that drops nothing forgets nothing. -/
theorem contains_addAll {sequences : List ℤ}
    (hkept : Along SequenceWindow.add (fun w sequence => ¬ w.Drops sequence) w sequences)
    (hx : w.contains x = true ∨ x ∈ sequences) : (w.addAll sequences).contains x = true := by
  induction sequences generalizing w with
  | nil => exact hx.resolve_right List.not_mem_nil
  | cons sequence rest ih =>
    obtain ⟨hroom, hkept⟩ := hkept
    apply ih hkept
    by_cases hrest : x ∈ rest
    · exact Or.inr hrest
    · have hheld : w.contains x = true ∨ x = sequence :=
        hx.imp id fun hmem => (List.mem_cons.mp hmem).resolve_right hrest
      refine Or.inl (Bool.of_not_eq_false fun hforgot => ?_)
      exact hroom (add_forgets hheld hforgot).1

/-- What the answers of a window mean after the sequences of a list were added to an empty one. -/
structure Meaning (maxOutOfOrder : ℕ) (sequences : List ℤ) (w : SequenceWindow) : Prop where
  /-- There are no false duplicates. -/
  onlyAdded : ∀ x, 0 ≤ x → w.contains x = true → x ∈ sequences
  /-- The set is ahead of a gap. -/
  ahead : ∀ x ∈ w.ahead, w.highWaterMark + 1 < x
  /-- The set is within its bound. -/
  bounded : w.outOfOrderCount ≤ maxOutOfOrder
  /-- The mark has not moved across a sequence that was not added. -/
  contiguous : ∀ x, 0 ≤ x → x ≤ w.highWaterMark → x ∈ sequences
  /-- While nothing had to be dropped, exactly what was added is held. -/
  exactly : Along add (fun w sequence => ¬ w.Drops sequence) (make maxOutOfOrder) sequences →
    ∀ x, 0 ≤ x → (w.contains x = true ↔ x ∈ sequences)
  /-- In whatever order it was added. -/
  anyOrder : Along add (fun w sequence => ¬ w.Drops sequence) (make maxOutOfOrder) sequences →
    ∀ others : List ℤ, (∀ x, x ∈ others ↔ x ∈ sequences) →
      Along add (fun w sequence => ¬ w.Drops sequence) (make maxOutOfOrder) others →
      ∀ x, 0 ≤ x → ((make maxOutOfOrder).addAll others).contains x = w.contains x
  /-- One more `add` forgets at most the smallest sequence that is then in the set. -/
  forgets : ∀ sequence x, w.contains x = true ∨ x = sequence →
    (w.add sequence).contains x = false → IsLeast (insert sequence w.ahead : Finset ℤ) x

/-- **The answers of a sequence window**, for every bound and every sequence of `add` calls. -/
theorem meaning_addAll (maxOutOfOrder : ℕ) (sequences : List ℤ) :
    Meaning maxOutOfOrder sequences ((make maxOutOfOrder).addAll sequences) := by
  have hsound : ∀ sequences, Sound maxOutOfOrder sequences ((make maxOutOfOrder).addAll sequences) :=
    fun sequences => (Sound.make maxOutOfOrder).addAll sequences
  have hexact : ∀ sequences : List ℤ,
      Along add (fun w sequence => ¬ w.Drops sequence) (make maxOutOfOrder) sequences →
      ∀ x, 0 ≤ x → (((make maxOutOfOrder).addAll sequences).contains x = true ↔ x ∈ sequences) :=
    fun sequences hkept x hx =>
      ⟨(hsound sequences).added x hx, fun hmem => contains_addAll hkept (Or.inr hmem)⟩
  have h := hsound sequences
  refine ⟨h.added, h.ahead, h.bounded, fun x hx hle => ?_, hexact sequences, ?_, ?_⟩
  · exact h.added x hx (contains_iff.mpr (Or.inl hle))
  · intro hkept others hsame hkept' x hx
    rw [Bool.eq_iff_iff, hexact others hkept' x hx, hexact sequences hkept x hx]
    exact hsame x
  · intro sequence x hheld hforgot
    exact (add_forgets hheld hforgot).2

end Hammertime.Store.SequenceWindow
