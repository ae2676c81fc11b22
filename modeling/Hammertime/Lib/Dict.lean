import Mathlib.Data.List.Nodup
import Mathlib.Data.Finset.Dedup
import Mathlib.Tactic

/-!
# Insertion-ordered dictionaries

A `Dict` is a list of key and value pairs whose keys are distinct. Writing a key that is present
keeps its place and writing a new one appends it, which is the order Python's `dict` iterates in.
Proofs about programs that hold dictionaries read them through `get?`: there is one lemma for each
operation that says what every key answers afterwards.
-/

namespace Hammertime.Lib

/-- A dictionary: pairs with distinct keys, in insertion order. -/
structure Dict (κ α : Type*) where
  /-- The pairs, oldest first. -/
  items : List (κ × α)
  /-- No key stands twice. -/
  nodup : (items.map Prod.fst).Nodup

namespace Dict

variable {κ α β : Type*}

/-- The dictionary with no pair. -/
def empty : Dict κ α := ⟨[], List.nodup_nil⟩

instance : Inhabited (Dict κ α) := ⟨empty⟩

/-- The keys, oldest first. -/
def keys (d : Dict κ α) : List κ := d.items.map Prod.fst

/-- The values, in the order of their keys. -/
def values (d : Dict κ α) : List α := d.items.map Prod.snd

/-- The number of pairs. -/
def size (d : Dict κ α) : ℕ := d.items.length

/-- The same keys, each with a new value computed from the pair. -/
def mapValues (d : Dict κ α) (f : κ → α → β) : Dict κ β where
  items := d.items.map fun p => (p.1, f p.1 p.2)
  nodup := by simpa [List.map_map, Function.comp_def] using d.nodup

variable [DecidableEq κ]

/-- The value a list of pairs gives a key: the first one. -/
def lookup (k : κ) : List (κ × α) → Option α
  | [] => none
  | p :: rest => if p.1 = k then some p.2 else lookup k rest

/-- The list with `v` written at `k`, in place if the key is there and at the end if not. -/
def write (k : κ) (v : α) : List (κ × α) → List (κ × α)
  | [] => [(k, v)]
  | p :: rest => if p.1 = k then (k, v) :: rest else p :: write k v rest

theorem write_keys (k : κ) (v : α) (l : List (κ × α)) :
    (write k v l).map Prod.fst =
      if k ∈ l.map Prod.fst then l.map Prod.fst else l.map Prod.fst ++ [k] := by
  induction l with
  | nil => rfl
  | cons p rest ih =>
    by_cases hp : p.1 = k
    · simp [write, hp]
    · have hk : ¬ k = p.1 := fun h => hp h.symm
      by_cases hr : k ∈ rest.map Prod.fst
      · rw [if_pos hr] at ih
        rw [if_pos (by simp only [List.map_cons, List.mem_cons, hk, false_or]; exact hr)]
        simp only [write, if_neg hp, List.map_cons, ih]
      · rw [if_neg hr] at ih
        rw [if_neg (by simp only [List.map_cons, List.mem_cons, hk, false_or]; exact hr)]
        simp only [write, if_neg hp, List.map_cons, ih, List.cons_append]

/-- `d.get(k)`. -/
def get? (d : Dict κ α) (k : κ) : Option α := lookup k d.items

/-- `k in d`. -/
def contains (d : Dict κ α) (k : κ) : Bool := (d.get? k).isSome

/-- `d[k] = v`. -/
def set (d : Dict κ α) (k : κ) (v : α) : Dict κ α where
  items := write k v d.items
  nodup := by
    rw [write_keys]
    split_ifs with h
    · exact d.nodup
    · rw [List.nodup_append]
      refine ⟨d.nodup, List.nodup_singleton k, ?_⟩
      intro a ha b hb hab
      rw [List.mem_singleton] at hb
      exact h (hb ▸ hab ▸ ha)

/-- `d.pop(k, None)`: the dictionary without the key. -/
def erase (d : Dict κ α) (k : κ) : Dict κ α where
  items := d.items.filter fun p => p.1 ≠ k
  nodup := d.nodup.sublist (List.Sublist.map _ List.filter_sublist)

/-! ### What every key answers after each operation -/

@[simp] theorem get?_empty (k : κ) : (empty : Dict κ α).get? k = none := rfl

theorem lookup_write (k k' : κ) (v : α) (l : List (κ × α)) :
    lookup k' (write k v l) = if k = k' then some v else lookup k' l := by
  induction l with
  | nil => rfl
  | cons p rest ih =>
    by_cases hp : p.1 = k
    · by_cases hk : k = k' <;> simp [write, lookup, hp, hk]
    · by_cases hk : p.1 = k'
      · have : ¬ k = k' := fun h => hp (hk.trans h.symm)
        rw [write, if_neg hp, lookup, lookup, if_pos hk, if_pos hk, if_neg this]
      · simpa [write, lookup, hp, hk] using ih

/-- Where no key stands twice, a key that is there is written in its place. -/
theorem write_eq_map {k : κ} {l : List (κ × α)} (hnodup : (l.map Prod.fst).Nodup)
    (h : k ∈ l.map Prod.fst) (v : α) :
    write k v l = l.map fun p => if p.1 = k then (k, v) else p := by
  induction l with
  | nil => cases h
  | cons p rest ih =>
    obtain ⟨hp, hrest⟩ := List.nodup_cons.mp hnodup
    rw [write, List.map_cons]
    by_cases hk : p.1 = k
    · have hother : (rest.map fun p => if p.1 = k then (k, v) else p) = rest := by
        refine (List.map_congr_left fun q hq => if_neg fun hqk => hp ?_).trans (List.map_id rest)
        rw [hk, ← hqk]
        exact List.mem_map_of_mem hq
      rw [if_pos hk, if_pos hk, hother]
    · have hmem : k ∈ rest.map Prod.fst := (List.mem_cons.mp h).resolve_left (Ne.symm hk)
      rw [if_neg hk, if_neg hk, ih hrest hmem]

theorem get?_set (d : Dict κ α) (k k' : κ) (v : α) :
    (d.set k v).get? k' = if k = k' then some v else d.get? k' := lookup_write k k' v d.items

@[simp] theorem get?_set_self (d : Dict κ α) (k : κ) (v : α) : (d.set k v).get? k = some v := by
  rw [get?_set, if_pos rfl]

theorem get?_set_of_ne (d : Dict κ α) {k k' : κ} (h : k ≠ k') (v : α) :
    (d.set k v).get? k' = d.get? k' := by
  rw [get?_set, if_neg h]

theorem lookup_filter (k k' : κ) (l : List (κ × α)) :
    lookup k' (l.filter fun p => p.1 ≠ k) = if k = k' then none else lookup k' l := by
  induction l with
  | nil => simp [lookup]
  | cons p rest ih =>
    by_cases hp : p.1 = k
    · rw [List.filter_cons_of_neg (by simpa using hp), ih]
      by_cases hk : k = k'
      · rw [if_pos hk, if_pos hk]
      · rw [if_neg hk, if_neg hk, lookup, if_neg (fun h => hk (hp.symm.trans h))]
    · rw [List.filter_cons_of_pos (by simpa using hp)]
      by_cases hk : p.1 = k'
      · have hne : ¬ k = k' := fun h => hp (hk.trans h.symm)
        rw [lookup, lookup, if_pos hk, if_pos hk, if_neg hne]
      · rw [lookup, lookup, if_neg hk, if_neg hk, ih]

theorem get?_erase (d : Dict κ α) (k k' : κ) :
    (d.erase k).get? k' = if k = k' then none else d.get? k' := lookup_filter k k' d.items

@[simp] theorem get?_mapValues (d : Dict κ α) (f : κ → α → β) (k : κ) :
    (d.mapValues f).get? k = (d.get? k).map (f k) := by
  show lookup k (d.items.map fun p => (p.1, f p.1 p.2)) = (lookup k d.items).map (f k)
  induction d.items with
  | nil => rfl
  | cons p rest ih =>
    by_cases hp : p.1 = k
    · subst hp
      simp [lookup]
    · simpa [lookup, hp] using ih

/-! ### Keys -/

omit [DecidableEq κ] in
theorem keys_nodup (d : Dict κ α) : d.keys.Nodup := d.nodup

theorem mem_keys_iff {d : Dict κ α} {k : κ} : k ∈ d.keys ↔ ∃ v, d.get? k = some v := by
  show k ∈ d.items.map Prod.fst ↔ ∃ v, lookup k d.items = some v
  induction d.items with
  | nil => simp [lookup]
  | cons p rest ih =>
    by_cases hp : p.1 = k
    · simp [lookup, hp]
    · have hk : ¬ k = p.1 := fun h => hp h.symm
      simp only [List.map_cons, List.mem_cons, hk, false_or, lookup, if_neg hp]
      exact ih

theorem get?_eq_none_iff {d : Dict κ α} {k : κ} : d.get? k = none ↔ k ∉ d.keys := by
  rw [mem_keys_iff, Option.eq_none_iff_forall_not_mem, not_exists]
  exact Iff.rfl

theorem mem_items_iff {d : Dict κ α} {k : κ} {v : α} : (k, v) ∈ d.items ↔ d.get? k = some v := by
  obtain ⟨l, hl⟩ := d
  show (k, v) ∈ l ↔ lookup k l = some v
  induction l with
  | nil => simp [lookup]
  | cons p rest ih =>
    obtain ⟨hp, hrest⟩ := List.nodup_cons.mp hl
    by_cases hk : p.1 = k
    · -- The key is the head's, so it stands nowhere in the rest.
      have hnot : (k, v) ∉ rest := fun h => hp (hk ▸ List.mem_map.mpr ⟨(k, v), h, rfl⟩)
      simp only [List.mem_cons, lookup, if_pos hk, hnot, or_false, Option.some.injEq]
      constructor
      · intro h
        rw [← h]
      · intro h
        rw [← hk, ← h]
    · have hne : (k, v) ≠ p := fun h => hk (h ▸ rfl)
      simp only [List.mem_cons, hne, false_or, lookup, if_neg hk]
      exact ih hrest

@[simp] theorem keys_set (d : Dict κ α) (k : κ) (v : α) :
    (d.set k v).keys = if k ∈ d.keys then d.keys else d.keys ++ [k] := write_keys k v d.items

theorem keys_set_of_mem (d : Dict κ α) {k : κ} (v : α) (h : k ∈ d.keys) :
    (d.set k v).keys = d.keys := by
  rw [keys_set, if_pos h]

end Dict

end Hammertime.Lib
