import Hammertime.Attributes

/-!
# What a document is

The unfolding of a document from its root, when that is a finite tree of JSON values; the rules on
the values of the tree; and what the reader charges for a tree, which never exceeds its compact
text.
-/

namespace Hammertime.Attributes

open Lib

/-- `float.__repr__`, of which only that it is not empty matters. -/
structure FloatFormat where
  repr : Float64 → List Char
  repr_ne_nil : ∀ f, repr f ≠ []

/-! ### What a value costs -/

/-- The lower bound on the digits of an integer that its bit length gives. -/
def digitBound (n : ℤ) : ℕ := (n.natAbs.size - 1) * log10TwoFloor / 100000

/-- What the reader charges for a value in all, the byte its container counts included. -/
def costAlgebra (repr : Float64 → List Char) : Json.Algebra ℕ where
  null := 4
  bool b := if b then 4 else 5
  int n := digitBound n + Reader.signLength n + 1
  float f := (repr f).length
  str t := t.length + 2
  arr costs := listMinimum costs.length + (costs.map (· - 1)).sum
  obj fields := dictMinimum fields.length + (fields.map fun p => p.1.length + (p.2 - 1)).sum

/-- The charge for a value. -/
def cost (repr : Float64 → List Char) : Json → ℕ := Json.fold (costAlgebra repr)

/-- The charges for the items of a list, beyond its minimum. -/
def itemsCost (repr : Float64 → List Char) (items : List Json) : ℕ :=
  (items.map fun j => cost repr j - 1).sum

/-- The charges for the fields of an object, beyond its minimum. -/
def fieldsCost (repr : Float64 → List Char) (fields : List (Text × Json)) : ℕ :=
  (fields.map fun p => p.1.length + (cost repr p.2 - 1)).sum

theorem cost_arr (repr : Float64 → List Char) (items : List Json) :
    cost repr (.arr items) = listMinimum items.length + itemsCost repr items := by
  rw [cost, Json.fold_arr]
  simp only [costAlgebra, List.length_map, List.map_map, itemsCost]
  rfl

theorem cost_obj (repr : Float64 → List Char) (fields : List (Text × Json)) :
    cost repr (.obj fields) = dictMinimum fields.length + fieldsCost repr fields := by
  rw [cost, Json.fold_obj]
  simp only [costAlgebra, List.length_map, List.map_map, fieldsCost]
  rfl

theorem cost_pos (format : FloatFormat) (j : Json) : 1 ≤ cost format.repr j := by
  cases j with
  | null => exact (by decide : 1 ≤ 4)
  | bool b =>
    show 1 ≤ if b then 4 else 5
    split_ifs <;> decide
  | int n => exact Nat.le_add_left 1 _
  | float f => exact List.length_pos_iff.mpr (format.repr_ne_nil f)
  | str t => exact (by omega : 1 ≤ t.length + 2)
  | arr items =>
    rw [cost_arr]
    unfold listMinimum
    split_ifs <;> omega
  | obj fields =>
    rw [cost_obj]
    unfold dictMinimum
    split_ifs <;> omega

/-- `59 / 196` is between the scaled floor of `log10 2` and `log10 2` itself. -/
theorem ten_pow_le_two_pow (n : ℕ) : 10 ^ (n * log10TwoFloor / 100000) ≤ 2 ^ n := by
  have hk : 196 * (n * log10TwoFloor / 100000) ≤ 59 * n := by
    unfold log10TwoFloor
    omega
  rw [← Nat.pow_le_pow_iff_left (by decide : (59 : ℕ) ≠ 0)]
  calc (10 ^ (n * log10TwoFloor / 100000)) ^ 59
      = (10 ^ 59) ^ (n * log10TwoFloor / 100000) := by rw [← pow_mul, ← pow_mul, Nat.mul_comm]
    _ ≤ (2 ^ 196) ^ (n * log10TwoFloor / 100000) := Nat.pow_le_pow_left (by norm_num) _
    _ = 2 ^ (196 * (n * log10TwoFloor / 100000)) := by rw [← pow_mul]
    _ ≤ 2 ^ (59 * n) := Nat.pow_le_pow_right (by decide) hk
    _ = (2 ^ n) ^ 59 := by rw [← pow_mul, Nat.mul_comm]

theorem digitBound_lt (n : ℤ) : digitBound n < n.natAbs.repr.toList.length := by
  by_cases h0 : n.natAbs = 0
  · unfold digitBound
    rw [h0]
    decide
  · refine lt_length_repr ((ten_pow_le_two_pow _).trans ?_)
    have hsize : 0 < n.natAbs.size := Nat.size_pos.mpr (Nat.pos_of_ne_zero h0)
    exact Nat.lt_size.mp (Nat.sub_lt hsize Nat.one_pos)

theorem cost_int_le (n : ℤ) : digitBound n + Reader.signLength n + 1 ≤ (intText n).length := by
  have h := digitBound_lt n
  cases n with
  | ofNat m =>
    have hs : Reader.signLength (Int.ofNat m) = 0 := rfl
    rw [hs]
    exact h
  | negSucc m =>
    have hs : Reader.signLength (Int.negSucc m) = 1 := if_pos (Int.negSucc_lt_zero m)
    have ht : intText (Int.negSucc m) = '-' :: (m + 1).repr.toList := by
      show ("-" ++ (m + 1).repr).toList = _
      rw [String.toList_append]
      rfl
    rw [hs, ht, List.length_cons]
    have h : digitBound (Int.negSucc m) < (m + 1).repr.toList.length := h
    omega

/-- The running bound never exceeds the compact size. -/
theorem cost_le_length (format : FloatFormat) (j : Json) :
    cost format.repr j ≤ (Json.text format.repr j).length := by
  induction j using Json.induct with
  | null => exact (by decide : 4 ≤ 4)
  | bool b =>
    cases b with
    | true => exact Nat.le_refl 4
    | false => exact Nat.le_refl 5
  | int n => exact cost_int_le n
  | float f => exact le_refl _
  | str t => exact t.length_add_two_le
  | arr items ih =>
    have hsum : itemsCost format.repr items + items.length ≤
        ((items.map (Json.text format.repr)).map List.length).sum := by
      induction items with
      | nil => simp [itemsCost]
      | cons j rest ih' =>
        have hj := ih j List.mem_cons_self
        have hpos := cost_pos format j
        have hrest := ih' fun j hj => ih j (List.mem_cons_of_mem _ hj)
        simp only [itemsCost, List.map_cons, List.sum_cons, List.length_cons] at hrest ⊢
        omega
    rw [cost_arr, Json.text_arr]
    simp only [List.length_cons, List.length_append, List.length_nil, length_commaSeparated,
      List.length_map]
    unfold listMinimum
    split_ifs <;> omega
  | obj fields ih =>
    have hsum : fieldsCost format.repr fields + 4 * fields.length ≤
        ((fields.map fun p => p.1.quote ++ ':' :: Json.text format.repr p.2).map
          List.length).sum := by
      induction fields with
      | nil => simp [fieldsCost]
      | cons p rest ih' =>
        have hj := ih p List.mem_cons_self
        have hpos := cost_pos format p.2
        have hkey := p.1.length_add_two_le
        have hrest := ih' fun j hj => ih j (List.mem_cons_of_mem _ hj)
        simp only [fieldsCost, List.map_cons, List.sum_cons, List.length_cons,
          List.length_append] at hrest ⊢
        omega
    rw [cost_obj, Json.text_obj]
    simp only [List.length_cons, List.length_append, List.length_nil, length_commaSeparated,
      List.length_map]
    unfold dictMinimum
    split_ifs <;> omega

/-! ### The rules on values -/

/-- S4, S5 and S8 of a value whose kinds are JSON's: finite floats, distinct keys, no surrogates, and
integers of at most 640 digits. -/
def wellFormedAlgebra : Json.Algebra Prop where
  null := True
  bool _ := True
  int n := -s8Bound < n ∧ n < s8Bound
  float f := f.isFinite = true
  str t := ¬ t.HasSurrogate
  arr items := ∀ p ∈ items, p
  obj fields := (fields.map Prod.fst).Nodup ∧ ∀ p ∈ fields, ¬ p.1.HasSurrogate ∧ p.2

/-- A value that the rules on values admit. -/
def WellFormed : Json → Prop := Json.fold wellFormedAlgebra

theorem wellFormed_arr {items : List Json} :
    WellFormed (.arr items) ↔ ∀ j ∈ items, WellFormed j := by
  rw [WellFormed, Json.fold_arr]
  exact List.forall_mem_map

theorem wellFormed_obj {fields : List (Text × Json)} :
    WellFormed (.obj fields) ↔ (fields.map Prod.fst).Nodup ∧
      ∀ p ∈ fields, ¬ p.1.HasSurrogate ∧ WellFormed p.2 := by
  rw [WellFormed, Json.fold_obj]
  refine and_congr ?_ List.forall_mem_map
  rw [List.map_map]
  rfl

/-! ### Unfolding -/

/-- When a value of the heap is the root of a finite tree. -/
def unfoldAlgebra (heap : Heap) : Json.Algebra (Value → Prop) where
  null v := v = .none
  bool b v := v = .bool b
  int n v := v = .int n
  float f v := v = .float f
  str t v := v = .str t
  arr parts v := ∃ id items, v = .container id ∧ heap id = .list items ∧
    List.Forall₂ (fun part item => part item) parts items
  obj parts v := ∃ id entries, v = .container id ∧ heap id = .dict entries ∧
    List.Forall₂ (fun part entry => entry.1 = .str part.1 ∧ part.2 entry.2) parts entries

/-- `v` unfolds to the tree `j`: a shared object unfolds at every place it is met, and an object that
contains itself unfolds to no tree. -/
def Unfolds (heap : Heap) (j : Json) (v : Value) : Prop := Json.fold (unfoldAlgebra heap) j v

variable {heap : Heap}

theorem unfolds_arr {items : List Json} {v : Value} :
    Unfolds heap (.arr items) v ↔ ∃ id values, v = .container id ∧ heap id = .list values ∧
      List.Forall₂ (Unfolds heap) items values := by
  rw [Unfolds, Json.fold_arr]
  simp only [unfoldAlgebra, List.forall₂_map_left_iff]
  rfl

theorem unfolds_obj {fields : List (Text × Json)} {v : Value} :
    Unfolds heap (.obj fields) v ↔ ∃ id entries, v = .container id ∧ heap id = .dict entries ∧
      List.Forall₂ (fun field entry => entry.1 = .str field.1 ∧ Unfolds heap field.2 entry.2)
        fields entries := by
  rw [Unfolds, Json.fold_obj]
  simp only [unfoldAlgebra, List.forall₂_map_left_iff]
  rfl

/-- What a value of the heap unfolds to, by what the value is. -/
theorem unfolds_iff {j : Json} {v : Value} : Unfolds heap j v ↔
    match v with
    | .none => j = .null
    | .bool b => j = .bool b
    | .str t => j = .str t
    | .int n => j = .int n
    | .float f => j = .float f
    | .container id =>
      match heap id with
      | .list values => ∃ items, j = .arr items ∧ List.Forall₂ (Unfolds heap) items values
      | .dict entries => ∃ fields, j = .obj fields ∧
          List.Forall₂ (fun field entry => entry.1 = .str field.1 ∧ Unfolds heap field.2 entry.2)
            fields entries
    | .foreign => False := by
  cases j with
  | null => show v = .none ↔ _; cases v <;> simp; split <;> simp
  | bool b => show v = .bool b ↔ _; cases v <;> simp [eq_comm]; split <;> simp
  | int n => show v = .int n ↔ _; cases v <;> simp [eq_comm]; split <;> simp
  | float f => show v = .float f ↔ _; cases v <;> simp [eq_comm]; split <;> simp
  | str t => show v = .str t ↔ _; cases v <;> simp [eq_comm]; split <;> simp
  | arr items =>
    rw [unfolds_arr]
    cases v <;> simp
    split <;> rename_i h <;> simp [h]
  | obj fields =>
    rw [unfolds_obj]
    cases v <;> simp
    split <;> rename_i h <;> simp [h]

/-- What is read unfolds as the value of the heap it is, or is a copy of the tree. -/
def Raw.Unfolds (heap : Heap) (j : Json) : Raw → Prop
  | .value v => Attributes.Unfolds heap j v
  | .copy json => json = j

/-- An entry of a `dict`: its key is the text, and its value unfolds. -/
def EntryUnfolds (heap : Heap) (field : Text × Json) (entry : Raw × Raw) : Prop :=
  entry.1.view heap = .str field.1 ∧ entry.2.Unfolds heap field.2

/-- The entries of a container unfold to the parts of a tree. -/
def Entries.Unfolds (heap : Heap) : Entries → Target → Prop
  | .list raws, .list items => List.Forall₂ (Raw.Unfolds heap) items raws
  | .dict entries, .dict fields => List.Forall₂ (EntryUnfolds heap) fields entries
  | _, _ => False

/-- What the reader sees of a value decides what it unfolds to. -/
def View.Unfolds (heap : Heap) (j : Json) : View → Prop
  | .null => j = .null
  | .bool b => j = .bool b
  | .str t => j = .str t
  | .int n => j = .int n
  | .float f => j = .float f
  | .container entries _ => ∃ target, j = target.json ∧ entries.Unfolds heap target
  | .foreign => False

theorem view_value_eq_str {v : Value} {t : Text} :
    (Raw.value v).view heap = .str t ↔ v = .str t := by
  cases v <;> simp [Raw.view]

/-- The entries of an object of the heap unfold as the object does. -/
theorem entries_unfolds {id : ℕ} {target : Target} :
    (heap id).entries.Unfolds heap target ↔ Unfolds heap target.json (.container id) := by
  rw [unfolds_iff]
  dsimp only
  cases heap id with
  | list values =>
    cases target with
    | list items =>
      simp only [Container.entries, Entries.Unfolds, Target.json, List.forall₂_map_right_iff,
        Json.arr.injEq, exists_eq_left']
      rfl
    | dict fields => simp [Container.entries, Entries.Unfolds, Target.json]
  | dict entries =>
    cases target with
    | list items => simp [Container.entries, Entries.Unfolds, Target.json]
    | dict fields =>
      simp only [Container.entries, Entries.Unfolds, Target.json, List.forall₂_map_right_iff,
        Json.obj.injEq, exists_eq_left', EntryUnfolds, view_value_eq_str]
      rfl

/-- A copy's entries unfold to the copy alone. -/
theorem target_entries_unfolds {copy target : Target} :
    copy.entries.Unfolds heap target ↔ target = copy := by
  cases copy with
  | list items =>
    cases target with
    | list items' =>
      have hitem : ∀ item item' : Json, Raw.Unfolds heap item' (.copy item) ↔ item' = item :=
        fun _ _ => eq_comm
      simp only [Target.entries, Entries.Unfolds, List.forall₂_map_right_iff, hitem,
        Target.list.injEq, List.forall₂_eq_eq_eq]
    | dict fields => simp [Target.entries, Entries.Unfolds]
  | dict fields =>
    cases target with
    | list items => simp [Target.entries, Entries.Unfolds]
    | dict fields' =>
      have hentry : ∀ field field' : Text × Json,
          EntryUnfolds heap field' (.copy (.str field.1), .copy field.2) ↔ field' = field := by
        intro field field'
        simp only [EntryUnfolds, Raw.Unfolds, Raw.view, View.str.injEq]
        exact ⟨fun h => Prod.ext h.1.symm h.2.symm, fun h => h ▸ ⟨rfl, rfl⟩⟩
      simp only [Target.entries, Entries.Unfolds, List.forall₂_map_right_iff, hentry,
        Target.dict.injEq, List.forall₂_eq_eq_eq]

theorem Target.json_inj {target target' : Target} (h : target.json = target'.json) :
    target = target' := by
  cases target <;> cases target' <;> simp [Target.json] at h <;> rw [h]

theorem Raw.unfolds_iff {raw : Raw} {j : Json} :
    raw.Unfolds heap j ↔ (raw.view heap).Unfolds heap j := by
  cases raw with
  | copy copy =>
    cases copy with
    | arr items =>
      show Json.arr items = j ↔ ∃ target : Target, j = target.json ∧ _
      simp only [target_entries_unfolds, exists_eq_right, eq_comm, Target.json]
    | obj fields =>
      show Json.obj fields = j ↔ ∃ target : Target, j = target.json ∧ _
      simp only [target_entries_unfolds, exists_eq_right, eq_comm, Target.json]
    | _ => exact eq_comm
  | value v =>
    cases v with
    | container id =>
      show Attributes.Unfolds heap j (.container id) ↔ ∃ target : Target, j = target.json ∧ _
      simp only [entries_unfolds]
      constructor
      · intro h
        have h' := Attributes.unfolds_iff.mp h
        dsimp only at h'
        split at h'
        · obtain ⟨items, rfl, -⟩ := h'
          exact ⟨.list items, rfl, h⟩
        · obtain ⟨fields, rfl, -⟩ := h'
          exact ⟨.dict fields, rfl, h⟩
      · rintro ⟨target, rfl, h⟩
        exact h
    | _ => exact Attributes.unfolds_iff

/-- Two lists that stand in a relation to a third agree, if what stands in it to one thing does. -/
theorem forall₂_unique {α β : Type} {R : α → β → Prop} {xs xs' : List α} {ys : List β}
    (hR : ∀ x ∈ xs, ∀ x' y, R x y → R x' y → x = x') (h : List.Forall₂ R xs ys)
    (h' : List.Forall₂ R xs' ys) : xs = xs' := by
  induction h generalizing xs' with
  | nil =>
    cases h'
    rfl
  | cons hx _ ih =>
    cases h' with
    | cons hx' hrest' =>
      rw [hR _ List.mem_cons_self _ _ hx hx',
        ih (fun x hx => hR x (List.mem_cons_of_mem _ hx)) hrest']

/-- A value unfolds to one tree at most. -/
theorem Unfolds.unique {j j' : Json} {v : Value} (h : Unfolds heap j v) (h' : Unfolds heap j' v) :
    j = j' := by
  induction j using Json.induct generalizing j' v with
  | arr items ih =>
    obtain ⟨id, values, rfl, hid, hall⟩ := unfolds_arr.mp h
    rw [unfolds_iff] at h'
    simp only [hid] at h'
    obtain ⟨items', rfl, hall'⟩ := h'
    rw [forall₂_unique (R := Unfolds heap) (fun x hx x' y hxy hxy' => ih x hx hxy hxy') hall hall']
  | obj fields ih =>
    obtain ⟨id, entries, rfl, hid, hall⟩ := unfolds_obj.mp h
    rw [unfolds_iff] at h'
    simp only [hid] at h'
    obtain ⟨fields', rfl, hall'⟩ := h'
    rw [forall₂_unique (fun x hx x' y hxy hxy' => ?_) hall hall']
    have hkey : Value.str x.1 = .str x'.1 := hxy.1.symm.trans hxy'.1
    exact Prod.ext (Value.str.inj hkey) (ih x hx hxy.2 hxy'.2)
  | null => cases h; exact (unfolds_iff.mp h').symm
  | bool b => cases h; exact (unfolds_iff.mp h').symm
  | int n => cases h; exact (unfolds_iff.mp h').symm
  | float f => cases h; exact (unfolds_iff.mp h').symm
  | str t => cases h; exact (unfolds_iff.mp h').symm

end Hammertime.Attributes
