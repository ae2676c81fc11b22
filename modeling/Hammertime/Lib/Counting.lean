import Hammertime.Lib.Dict

/-!
# Counting what a step moves

How often a value occurs in a list of lists of which one is replaced, and among the values of a
dictionary that is written or deleted from. With these a step that moves values from one place to
another is seen to lose none and to double none.
-/

namespace Hammertime.Lib

/-- Replacing an element of a list replaces what it stands for. -/
theorem count_flatMap_set {α β : Type} [DecidableEq β] {f : α → List β} {l : List α} {i : ℕ} {a : α}
    (h : l[i]? = some a) (b : α) (x : β) :
    ((l.set i b).flatMap f).count x + (f a).count x = (l.flatMap f).count x + (f b).count x := by
  induction l generalizing i with
  | nil => cases h
  | cons c l ih =>
    cases i with
    | zero =>
      cases h
      simp only [List.set_cons_zero, List.flatMap_cons, List.count_append]
      omega
    | succ i =>
      have hrest := ih h
      simp only [List.set_cons_succ, List.flatMap_cons, List.count_append] at hrest ⊢
      omega

namespace Dict

variable {κ α : Type} [DecidableEq κ]

omit [DecidableEq κ] in
@[simp] theorem values_empty : (empty : Dict κ α).values = [] := rfl

theorem mem_values_of_get? {d : Dict κ α} {k : κ} {v : α} (h : d.get? k = some v) : v ∈ d.values :=
  List.mem_map.mpr ⟨(k, v), mem_items_iff.mpr h, rfl⟩

theorem exists_get?_of_mem_values {d : Dict κ α} {v : α} (h : v ∈ d.values) :
    ∃ k, d.get? k = some v := by
  obtain ⟨p, hp, rfl⟩ := List.mem_map.mp h
  exact ⟨p.1, mem_items_iff.mp hp⟩

variable [DecidableEq α]

/-- A write takes the old value of its key, if there is one, and puts the new one. -/
theorem count_values_set (d : Dict κ α) (k : κ) (v x : α) :
    (d.set k v).values.count x + (d.get? k).toList.count x = d.values.count x + [v].count x := by
  obtain ⟨l, hl⟩ := d
  show ((write k v l).map Prod.snd).count x + (lookup k l).toList.count x =
    (l.map Prod.snd).count x + [v].count x
  clear hl
  induction l with
  | nil => simp [write, lookup]
  | cons p rest ih =>
    by_cases hp : p.1 = k
    · rw [write, if_pos hp, lookup, if_pos hp]
      simp only [List.map_cons, List.count_cons, Option.toList_some, List.count_nil]
      omega
    · rw [write, if_neg hp, lookup, if_neg hp]
      simp only [List.map_cons, List.count_cons] at ih ⊢
      omega

/-- A deletion takes the value of its key, if there is one. -/
theorem count_values_erase (d : Dict κ α) (k : κ) (x : α) :
    (d.erase k).values.count x + (d.get? k).toList.count x = d.values.count x := by
  obtain ⟨l, hl⟩ := d
  show ((l.filter fun p => p.1 ≠ k).map Prod.snd).count x + (lookup k l).toList.count x =
    (l.map Prod.snd).count x
  induction l with
  | nil => rfl
  | cons p rest ih =>
    obtain ⟨hp, hrest⟩ := List.nodup_cons.mp hl
    by_cases hk : p.1 = k
    · -- The key stands nowhere in the rest.
      have hfilter : rest.filter (fun q => q.1 ≠ k) = rest := by
        refine List.filter_eq_self.mpr fun q hq => decide_eq_true fun hqk => hp ?_
        rw [hk, ← hqk]
        exact List.mem_map_of_mem hq
      rw [List.filter_cons_of_neg (by simpa using hk), hfilter, lookup, if_pos hk]
      simp only [List.map_cons, List.count_cons, Option.toList_some, List.count_nil]
      omega
    · have hcount := ih hrest
      rw [List.filter_cons_of_pos (by simpa using hk), lookup, if_neg hk]
      simp only [List.map_cons, List.count_cons] at hcount ⊢
      omega

end Dict

end Hammertime.Lib
