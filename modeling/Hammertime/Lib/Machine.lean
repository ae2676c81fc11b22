import Mathlib.Data.List.Basic

/-!
# Runs of a machine

A machine takes actions one after the other, and a run is the fold of its step function over a list
of them. Every interleaving of several parties is such a list, so that a statement about all lists is
one about all interleavings. `Along` restricts the lists: each action has to be admitted in the state
that it meets.
-/

namespace Hammertime.Lib

variable {σ α : Type} {step : σ → α → σ} {I : σ → Prop}

/-- Every action of the list is admitted in the state that it meets. -/
def Along (step : σ → α → σ) (admits : σ → α → Prop) : σ → List α → Prop
  | _, [] => True
  | s, a :: rest => admits s a ∧ Along step admits (step s a) rest

/-- What every step keeps, every run keeps. -/
theorem invariant_foldl (hstep : ∀ s a, I s → I (step s a)) {s : σ} (hs : I s) (actions : List α) :
    I (actions.foldl step s) := by
  induction actions generalizing s with
  | nil => exact hs
  | cons a rest ih => exact ih (hstep s a hs)

/-- What every admitted step keeps, a run of admitted steps keeps. -/
theorem Along.invariant {admits : σ → α → Prop} {s : σ} {actions : List α}
    (h : Along step admits s actions) (hstep : ∀ s a, I s → admits s a → I (step s a)) (hs : I s) :
    I (actions.foldl step s) := by
  induction actions generalizing s with
  | nil => exact hs
  | cons a rest ih => exact ih h.2 (hstep s a hs h.1)

/-- What is admitted in every state is admitted in those that a run meets. -/
theorem Along.of_forall {admits : σ → α → Prop} {s : σ} {actions : List α}
    (h : ∀ s, ∀ a ∈ actions, admits s a) : Along step admits s actions := by
  induction actions generalizing s with
  | nil => exact trivial
  | cons a rest ih =>
    exact ⟨h s a List.mem_cons_self, ih fun s b hb => h s b (List.mem_cons_of_mem _ hb)⟩

/-- What a step keeps or makes holds after a run where it held before it or a step of the run made
it. -/
theorem foldl_iff_made {made : σ → α → Prop} (hstep : ∀ s a, I (step s a) ↔ I s ∨ made s a) (s : σ)
    (actions : List α) :
    I (actions.foldl step s) ↔ I s ∨
      ∃ before a rest, actions = before ++ a :: rest ∧ made (before.foldl step s) a := by
  induction actions generalizing s with
  | nil => simp
  | cons a rest ih =>
    rw [List.foldl_cons, ih, hstep, or_assoc]
    refine or_congr Iff.rfl ⟨?_, ?_⟩
    · rintro (h | ⟨before, b, tail, rfl, h⟩)
      · exact ⟨[], a, rest, rfl, h⟩
      · exact ⟨a :: before, b, tail, rfl, h⟩
    · rintro ⟨before, b, tail, heq, h⟩
      cases before with
      | nil =>
        obtain ⟨rfl, rfl⟩ := List.cons.inj heq
        exact Or.inl h
      | cons first before =>
        obtain ⟨rfl, rfl⟩ := List.cons.inj heq
        exact Or.inr ⟨before, b, tail, rfl, h⟩

end Hammertime.Lib
