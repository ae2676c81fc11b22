import Mathlib.Data.List.TakeWhile

/-!
# Splitting at the last separator

`str.rpartition` with a separator of one character. A text splits where the separator occurs for the
last time, which is the one way to write it with a last part that is free of the separator.
-/

namespace Hammertime.Lib

variable {α : Type} [DecidableEq α] {separator : α} {text first last : List α}

/-- The parts before and after the last separator, if there is one. -/
def lastSplit (separator : α) (text : List α) : Option (List α × List α) :=
  match text.reverse.dropWhile (· ≠ separator) with
  | [] => none
  | _ :: rest => some (rest.reverse, (text.reverse.takeWhile (· ≠ separator)).reverse)

theorem takeWhile_ne_append (h : separator ∉ last) (rest : List α) :
    (last ++ separator :: rest).takeWhile (· ≠ separator) = last := by
  have hne : ∀ a ∈ last, decide (a ≠ separator) = true := fun a ha =>
    decide_eq_true (ne_of_mem_of_not_mem ha h)
  rw [List.takeWhile_append_of_pos hne, List.takeWhile_cons_of_neg (by simp), List.append_nil]

theorem dropWhile_ne_append (h : separator ∉ last) (rest : List α) :
    (last ++ separator :: rest).dropWhile (· ≠ separator) = separator :: rest := by
  have hne : ∀ a ∈ last, decide (a ≠ separator) = true := fun a ha =>
    decide_eq_true (ne_of_mem_of_not_mem ha h)
  rw [List.dropWhile_append_of_pos hne, List.dropWhile_cons_of_neg (by simp)]

/-- The split is the one at the last separator. -/
theorem lastSplit_eq_some :
    lastSplit separator text = some (first, last) ↔
      text = first ++ separator :: last ∧ separator ∉ last := by
  constructor
  · intro h
    unfold lastSplit at h
    have hwhole := List.takeWhile_append_dropWhile (p := (· ≠ separator)) (l := text.reverse)
    split at h
    · cases h
    next c rest hdrop =>
      cases h
      have hc : c = separator := by
        have hhead := List.head?_dropWhile_not (· ≠ separator) text.reverse
        rw [hdrop] at hhead
        simpa using hhead
      rw [hdrop, hc] at hwhole
      refine ⟨?_, fun hmem => ?_⟩
      · have hreverse := congrArg List.reverse hwhole
        simpa using hreverse.symm
      · have hne := List.mem_takeWhile_imp (List.mem_reverse.mp hmem)
        simp at hne
  · rintro ⟨rfl, hlast⟩
    have hlast' : separator ∉ last.reverse := fun hmem => hlast (List.mem_reverse.mp hmem)
    have hreverse : (first ++ separator :: last).reverse =
        last.reverse ++ separator :: first.reverse := by simp
    unfold lastSplit
    rw [hreverse, dropWhile_ne_append hlast', takeWhile_ne_append hlast']
    simp

end Hammertime.Lib
