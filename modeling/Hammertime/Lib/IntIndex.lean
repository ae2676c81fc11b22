import Mathlib.Data.List.Basic
import Mathlib.Tactic

/-!
# Lists indexed by integers

Storage addressed by integer ids, where an id may be any integer and only those from zero up to the
length name a slot. `get?` and `set?` refuse every other id, negative ones included. A write is
described by what every later read sees (`set?_spec`), and so is growth at the end (`get?_concat`),
so that a proof about several lists addressed by the same ids never looks inside them.
-/

namespace Hammertime.IntIndex

variable {α : Type*}

/-- The entry at an integer index, if the index names one. -/
def get? (l : List α) (i : ℤ) : Option α := if 0 ≤ i then l[i.toNat]? else none

/-- The list with the entry at an integer index replaced, if the index names one. -/
def set? (l : List α) (i : ℤ) (x : α) : Option (List α) :=
  if 0 ≤ i ∧ i.toNat < l.length then some (l.set i.toNat x) else none

/-- An index names an entry exactly when it is in range. -/
theorem get?_isSome_iff (l : List α) (i : ℤ) :
    (get? l i).isSome ↔ 0 ≤ i ∧ i < l.length := by
  unfold get?
  split_ifs with h
  · simp only [isSome_getElem?, h, true_and]
    omega
  · simp [h]

/-- An entry that is there is in range. -/
theorem inRange_of_get? {l : List α} {i : ℤ} {x : α} (h : get? l i = some x) :
    0 ≤ i ∧ i < l.length :=
  (get?_isSome_iff l i).1 (by simp [h])

/-- An entry that is there is one of the list's. -/
theorem mem_of_get? {l : List α} {i : ℤ} {x : α} (h : get? l i = some x) : x ∈ l := by
  unfold get? at h
  split_ifs at h
  exact List.mem_of_getElem? h

/-- In range, there is an entry. -/
theorem exists_get? {l : List α} {i : ℤ} (h0 : 0 ≤ i) (hi : i < l.length) :
    ∃ x, get? l i = some x :=
  Option.isSome_iff_exists.1 ((get?_isSome_iff l i).2 ⟨h0, hi⟩)

/-- A write in range succeeds, keeps the length, and changes exactly the entry written. -/
theorem set?_spec {l : List α} {i : ℤ} (h0 : 0 ≤ i) (hi : i < l.length) (x : α) :
    ∃ l', set? l i x = some l' ∧ l'.length = l.length ∧
      ∀ j, get? l' j = if j = i then some x else get? l j := by
  have hlt : i.toNat < l.length := by omega
  refine ⟨l.set i.toNat x, by simp [set?, h0, hlt], by simp, ?_⟩
  intro j
  by_cases hj : j = i
  · subst hj
    simp [get?, h0, hlt]
  · rw [if_neg hj]
    unfold get?
    split_ifs with hj0
    · rw [List.getElem?_set_ne (by omega)]
    · rfl

/-- A list with one more entry at the end has that entry at its old length. -/
theorem get?_concat (l : List α) (x : α) (j : ℤ) :
    get? (l ++ [x]) j = if j = l.length then some x else get? l j := by
  unfold get?
  by_cases hj : j = l.length
  · subst hj
    simp
  · rw [if_neg hj]
    split_ifs with hj0
    · by_cases hlt : j.toNat < l.length
      · rw [List.getElem?_append_left hlt]
      · rw [List.getElem?_eq_none (by simp; omega), List.getElem?_eq_none (by omega)]
    · rfl

/-- An empty list has no entries. -/
@[simp]
theorem get?_nil (j : ℤ) : get? ([] : List α) j = none := by simp [get?]

end Hammertime.IntIndex
