import Hammertime.Lib.Dict

/-!
# Partial monoids

A partial monoid has a product that need not be defined. It is associative where it is defined, and
either side is defined where the other is. The product of a list, its `path`, is taken from the left;
that of a concatenation is the product of the two. In a separated partial monoid a product is
compatible with what each of its factors is compatible with, and then the path of a list is defined
where all its pairs are.

The dictionaries over values of several kinds are one: two of them are compatible where each key that
both have has values of one kind, and their product has the product of these.
-/

namespace Hammertime.Lib

/-- A product that need not be defined. -/
structure PartialMonoid (M : Type*) where
  one : M
  mul : M → M → Option M
  one_mul : ∀ a, mul one a = some a
  mul_one : ∀ a, mul a one = some a
  /-- Both sides are defined and equal, or neither is defined. -/
  mul_assoc : ∀ a b c, ((mul a b).bind fun ab => mul ab c) = (mul b c).bind fun bc => mul a bc

namespace PartialMonoid

variable {M : Type*} (S : PartialMonoid M)

/-- The product of a list, from the left. -/
def path (l : List M) : Option M := l.foldlM S.mul S.one

/-- The product of the two is defined. -/
def Compatible (a b : M) : Prop := (S.mul a b).isSome

@[simp] theorem path_nil : S.path [] = some S.one := rfl

@[simp] theorem path_concat (l : List M) (a : M) :
    S.path (l ++ [a]) = (S.path l).bind fun r => S.mul r a := by
  unfold path
  rw [List.foldlM_append]
  show ((l.foldlM S.mul S.one).bind fun r => [a].foldlM S.mul r) = _
  congr 1
  funext r
  rw [List.foldlM_cons]
  cases S.mul r a with
  | none => rfl
  | some b => rfl

/-- The path of a concatenation is the product of the paths. -/
theorem path_append (l₁ l₂ : List M) :
    S.path (l₁ ++ l₂) = (S.path l₁).bind fun a => (S.path l₂).bind fun b => S.mul a b := by
  induction l₂ using List.reverseRecOn with
  | nil =>
    rw [List.append_nil]
    cases S.path l₁ with
    | none => rfl
    | some a => exact (S.mul_one a).symm
  | append_singleton l₂ c ih =>
    rw [← List.append_assoc, path_concat, ih, path_concat]
    cases S.path l₁ with
    | none => rfl
    | some a =>
      cases S.path l₂ with
      | none => rfl
      | some b => exact S.mul_assoc a b c

/-- A product is compatible with what its factors are compatible with. -/
def Separated : Prop :=
  ∀ a b ab c, S.mul a b = some ab → (S.Compatible ab c ↔ S.Compatible a c ∧ S.Compatible b c)

variable {S}

theorem one_compatible (a : M) : S.Compatible S.one a := by
  unfold Compatible
  rw [S.one_mul]
  rfl

/-- A path is compatible with what each of its factors is compatible with. -/
theorem Separated.path_compatible (h : S.Separated) {l : List M} {r c : M} (hr : S.path l = some r) :
    S.Compatible r c ↔ ∀ a ∈ l, S.Compatible a c := by
  induction l using List.reverseRecOn generalizing r with
  | nil =>
    cases hr
    simp [one_compatible c]
  | append_singleton l b ih =>
    rw [path_concat] at hr
    obtain ⟨q, hq, hmul⟩ := Option.bind_eq_some_iff.mp hr
    rw [h q b r c hmul, ih hq]
    simp only [List.mem_append, List.mem_singleton]
    constructor
    · rintro ⟨hl, hb⟩ a (ha | rfl)
      · exact hl a ha
      · exact hb
    · intro hall
      exact ⟨fun a ha => hall a (Or.inl ha), hall b (Or.inr rfl)⟩

/-- A path is defined where all its pairs are. -/
theorem Separated.path_isSome_iff (h : S.Separated) (l : List M) :
    (S.path l).isSome ↔ l.Pairwise S.Compatible := by
  induction l using List.reverseRecOn with
  | nil => simp
  | append_singleton l b ih =>
    rw [path_concat, List.pairwise_append, ← ih]
    cases hr : S.path l with
    | none => simp
    | some r =>
      have hb := h.path_compatible (c := b) hr
      simp only [Option.bind_some, Option.isSome_some, List.pairwise_singleton, true_and,
        List.mem_singleton, forall_eq]
      exact hb

end PartialMonoid

/-! ### Dictionaries over values of several kinds -/

namespace Dict

variable {κ α : Type*} [DecidableEq κ]

theorem lookup_eq_none {k : κ} {l : List (κ × α)} (h : k ∉ l.map Prod.fst) : lookup k l = none := by
  induction l with
  | nil => rfl
  | cons p rest ih =>
    rw [List.map_cons, List.mem_cons, not_or] at h
    rw [lookup, if_neg (Ne.symm h.1), ih h.2]

theorem lookup_ext {l l' : List (κ × α)} (hl : (l.map Prod.fst).Nodup)
    (hkeys : l.map Prod.fst = l'.map Prod.fst) (h : ∀ k, lookup k l = lookup k l') : l = l' := by
  induction l generalizing l' with
  | nil => exact (List.map_eq_nil_iff.mp hkeys.symm).symm
  | cons p rest ih =>
    obtain _ | ⟨p', rest'⟩ := l'
    · cases hkeys
    · rw [List.map_cons, List.map_cons] at hkeys
      obtain ⟨hfst, hrest⟩ := List.cons.inj hkeys
      rw [List.map_cons, List.nodup_cons] at hl
      have hsnd : some p.2 = some p'.2 := by
        have hp := h p.1
        rw [lookup, if_pos rfl, lookup, if_pos hfst.symm] at hp
        exact hp
      have htail : rest = rest' := by
        apply ih hl.2 hrest
        intro k
        by_cases hk : p.1 = k
        · -- The key of the head stands in neither rest.
          subst hk
          rw [lookup_eq_none hl.1, lookup_eq_none (hrest ▸ hl.1)]
        · have hk' := h k
          rw [lookup, if_neg hk, lookup, if_neg (hfst ▸ hk)] at hk'
          exact hk'
      rw [Prod.ext hfst (Option.some.inj hsnd), htail]

/-- Two dictionaries with the same keys, in order, and the same answers are equal. -/
theorem ext_get? {d d' : Dict κ α} (hkeys : d.keys = d'.keys) (h : ∀ k, d.get? k = d'.get? k) :
    d = d' := by
  obtain ⟨l, hl⟩ := d
  obtain ⟨l', hl'⟩ := d'
  have hitems : l = l' := lookup_ext hl hkeys h
  subst hitems
  rfl

/-- The value of a key in a product, from those in the factors. -/
def mergeValues (op : α → α → α) : Option α → Option α → Option α
  | none, y => y
  | some x, none => some x
  | some x, some y => some (op x y)

/-- The pairs of a list written over a dictionary, with `op` where a key has a value already. -/
def mergeItems (op : α → α → α) (d : Dict κ α) (l : List (κ × α)) : Dict κ α :=
  l.foldl (fun d p => d.set p.1 ((d.get? p.1).elim p.2 fun x => op x p.2)) d

/-- The pairs of `b` written over `a`. -/
def merge (op : α → α → α) (a b : Dict κ α) : Dict κ α := mergeItems op a b.items

variable {op : α → α → α}

theorem get?_mergeItems (d : Dict κ α) {l : List (κ × α)} (hl : (l.map Prod.fst).Nodup) (k : κ) :
    (mergeItems op d l).get? k = mergeValues op (d.get? k) (lookup k l) := by
  induction l generalizing d with
  | nil =>
    show d.get? k = mergeValues op (d.get? k) none
    cases d.get? k with
    | none => rfl
    | some x => rfl
  | cons p rest ih =>
    rw [List.map_cons, List.nodup_cons] at hl
    show (mergeItems op (d.set p.1 _) rest).get? k = _
    rw [ih _ hl.2, get?_set, lookup]
    by_cases hk : p.1 = k
    · subst hk
      rw [if_pos rfl, if_pos rfl, lookup_eq_none hl.1]
      cases d.get? p.1 with
      | none => rfl
      | some x => rfl
    · rw [if_neg hk, if_neg hk]

theorem keys_mergeItems (d : Dict κ α) {l : List (κ × α)} (hl : (l.map Prod.fst).Nodup) :
    (mergeItems op d l).keys = d.keys ++ (l.map Prod.fst).filter (· ∉ d.keys) := by
  induction l generalizing d with
  | nil => exact (List.append_nil _).symm
  | cons p rest ih =>
    rw [List.map_cons, List.nodup_cons] at hl
    show (mergeItems op (d.set p.1 _) rest).keys = _
    rw [ih _ hl.2, keys_set, List.map_cons]
    by_cases hp : p.1 ∈ d.keys
    · rw [if_pos hp, List.filter_cons_of_neg (by simpa using hp)]
    · -- A key of the rest is not the new one.
      have hfilter : (rest.map Prod.fst).filter (fun k => k ∉ d.keys ++ [p.1]) =
          (rest.map Prod.fst).filter (fun k => k ∉ d.keys) := by
        apply List.filter_congr
        intro k hk
        have hne : k ≠ p.1 := fun heq => hl.1 (heq ▸ hk)
        simp [hne]
      rw [if_neg hp, List.filter_cons_of_pos (by simpa using hp), hfilter, List.append_assoc]
      rfl

theorem get?_merge (a b : Dict κ α) (k : κ) :
    (merge op a b).get? k = mergeValues op (a.get? k) (b.get? k) :=
  get?_mergeItems a b.nodup k

theorem keys_merge (a b : Dict κ α) :
    (merge op a b).keys = a.keys ++ b.keys.filter (· ∉ a.keys) :=
  keys_mergeItems a b.nodup

theorem merge_empty (a : Dict κ α) : merge op a empty = a := rfl

theorem empty_merge (a : Dict κ α) : merge op empty a = a := by
  refine ext_get? ?_ fun k => ?_
  · rw [keys_merge]
    show [] ++ a.keys.filter (fun k => k ∉ ([] : List κ)) = a.keys
    simp
  · rw [get?_merge, get?_empty]
    rfl

end Dict

/-- Values of several kinds, with a product of those of one kind. -/
structure Kinded (α γ : Type*) where
  kind : α → γ
  op : α → α → α
  kind_op : ∀ x y, kind x = kind y → kind (op x y) = kind x
  op_assoc : ∀ x y z, kind x = kind y → kind y = kind z → op (op x y) z = op x (op y z)

namespace Kinded

variable {κ α γ : Type*} [DecidableEq κ] (V : Kinded α γ)

/-- What both have has one kind. -/
def SameKinds (a b : Dict κ α) : Prop :=
  ∀ k x y, a.get? k = some x → b.get? k = some y → V.kind x = V.kind y

variable {V}

theorem SameKinds.symm {a b : Dict κ α} (h : V.SameKinds a b) : V.SameKinds b a :=
  fun k x y hx hy => (h k y x hy hx).symm

theorem SameKinds.refl (a : Dict κ α) : V.SameKinds a a := by
  intro k x y hx hy
  rw [hx] at hy
  exact congrArg V.kind (Option.some.inj hy)

theorem empty_sameKinds (a : Dict κ α) : V.SameKinds .empty a := by
  intro k x y hx
  cases (show none = some x from hx)

/-- The kind of a value in a product is that of the values it is made of. -/
theorem sameKinds_merge {a b c : Dict κ α} (h : V.SameKinds a b) :
    V.SameKinds (a.merge V.op b) c ↔ V.SameKinds a c ∧ V.SameKinds b c := by
  constructor
  · intro hc
    constructor
    · intro k x z hx hz
      have hab : (a.merge V.op b).get? k = _ := Dict.get?_merge a b k
      rw [hx] at hab
      cases hy : b.get? k with
      | none =>
        rw [hy] at hab
        exact hc k x z hab hz
      | some y =>
        rw [hy] at hab
        rw [← hc k _ z hab hz]
        exact (V.kind_op x y (h k x y hx hy)).symm
    · intro k y z hy hz
      have hab : (a.merge V.op b).get? k = _ := Dict.get?_merge a b k
      rw [hy] at hab
      cases hx : a.get? k with
      | none =>
        rw [hx] at hab
        exact hc k y z hab hz
      | some x =>
        rw [hx] at hab
        rw [← hc k _ z hab hz, V.kind_op x y (h k x y hx hy)]
        exact (h k x y hx hy).symm
  · rintro ⟨ha, hb⟩ k w z hw hz
    rw [Dict.get?_merge] at hw
    cases hx : a.get? k with
    | none =>
      rw [hx] at hw
      exact hb k w z hw hz
    | some x =>
      have hkind := ha k x z hx hz
      cases hy : b.get? k with
      | none =>
        rw [hx, hy] at hw
        rw [← Option.some.inj hw]
        exact hkind
      | some y =>
        rw [hx, hy] at hw
        rw [← Option.some.inj hw, V.kind_op x y (h k x y hx hy)]
        exact hkind

/-- Merging is associative where the kinds agree. -/
theorem merge_assoc {a b c : Dict κ α} (hab : V.SameKinds a b) (hbc : V.SameKinds b c) :
    (a.merge V.op b).merge V.op c = a.merge V.op (b.merge V.op c) := by
  refine Dict.ext_get? ?_ fun k => ?_
  · simp only [Dict.keys_merge, List.append_assoc, List.filter_append, List.filter_filter,
      List.mem_append, List.mem_filter, decide_eq_true_eq]
    congr 2
    apply List.filter_congr
    intro k _
    by_cases ha : k ∈ a.keys
    · simp [ha]
    · simp [ha]
  · rw [Dict.get?_merge, Dict.get?_merge, Dict.get?_merge, Dict.get?_merge]
    cases hx : a.get? k with
    | none =>
      cases hy : b.get? k with
      | none => rfl
      | some y => cases hz : c.get? k <;> rfl
    | some x =>
      cases hy : b.get? k with
      | none => cases hz : c.get? k <;> rfl
      | some y =>
        cases hz : c.get? k with
        | none => rfl
        | some z => exact congrArg some (V.op_assoc x y z (hab k x y hx hy) (hbc k y z hy hz))

variable (V)

open Classical in
/-- The dictionaries over the values. -/
noncomputable def dictionaries : PartialMonoid (Dict κ α) where
  one := .empty
  mul a b := if V.SameKinds a b then some (a.merge V.op b) else none
  one_mul a := by
    rw [if_pos (empty_sameKinds a), Dict.empty_merge]
  mul_one a := by
    rw [if_pos (empty_sameKinds a).symm, Dict.merge_empty]
  mul_assoc a b c := by
    by_cases hab : V.SameKinds a b
    · rw [if_pos hab, Option.bind_some]
      by_cases hbc : V.SameKinds b c
      · rw [if_pos hbc, Option.bind_some]
        by_cases hac : V.SameKinds a c
        · rw [if_pos ((sameKinds_merge hab).mpr ⟨hac, hbc⟩),
            if_pos ((sameKinds_merge hbc).mpr ⟨hab.symm, hac.symm⟩).symm, merge_assoc hab hbc]
        · rw [if_neg fun h => hac ((sameKinds_merge hab).mp h).1,
            if_neg fun h => hac ((sameKinds_merge hbc).mp h.symm).2.symm]
      · rw [if_neg hbc, Option.bind_none, if_neg fun h => hbc ((sameKinds_merge hab).mp h).2]
    · rw [if_neg hab, Option.bind_none]
      by_cases hbc : V.SameKinds b c
      · rw [if_pos hbc, Option.bind_some,
          if_neg fun h => hab ((sameKinds_merge hbc).mp h.symm).1.symm]
      · rw [if_neg hbc, Option.bind_none]

variable {V}

theorem dictionaries_mul {a b c : Dict κ α} :
    V.dictionaries.mul a b = some c ↔ V.SameKinds a b ∧ c = a.merge V.op b := by
  classical
  show (if V.SameKinds a b then some (a.merge V.op b) else none) = some c ↔ _
  split_ifs with h
  · simp [h, eq_comm]
  · simp [h]

theorem dictionaries_compatible {a b : Dict κ α} :
    V.dictionaries.Compatible a b ↔ V.SameKinds a b := by
  unfold PartialMonoid.Compatible
  rw [Option.isSome_iff_exists]
  simp only [dictionaries_mul, exists_and_left, exists_eq, and_true]

theorem dictionaries_separated : (V.dictionaries (κ := κ)).Separated := by
  intro a b ab c hmul
  obtain ⟨hkinds, rfl⟩ := dictionaries_mul.mp hmul
  rw [dictionaries_compatible, dictionaries_compatible, dictionaries_compatible]
  exact sameKinds_merge hkinds

/-- A value in a path has the kind of one of the dictionaries' values. -/
theorem exists_kind_of_path {l : List (Dict κ α)} {r : Dict κ α}
    (hr : V.dictionaries.path l = some r) {k : κ} {x : α} (hx : r.get? k = some x) :
    ∃ d ∈ l, ∃ y, d.get? k = some y ∧ V.kind y = V.kind x := by
  induction l using List.reverseRecOn generalizing r x with
  | nil =>
    cases hr
    cases hx
  | append_singleton l b ih =>
    rw [PartialMonoid.path_concat] at hr
    obtain ⟨q, hq, hmul⟩ := Option.bind_eq_some_iff.mp hr
    obtain ⟨hkinds, rfl⟩ := dictionaries_mul.mp hmul
    rw [Dict.get?_merge] at hx
    have hlast : ∀ y, b.get? k = some y → V.kind y = V.kind x →
        ∃ d ∈ l ++ [b], ∃ y, d.get? k = some y ∧ V.kind y = V.kind x := fun y hy hkind =>
      ⟨b, List.mem_append_right _ (List.mem_singleton.mpr rfl), y, hy, hkind⟩
    cases hz : q.get? k with
    | none =>
      rw [hz] at hx
      exact hlast x hx rfl
    | some z =>
      cases hy : b.get? k with
      | none =>
        rw [hz, hy] at hx
        cases hx
        obtain ⟨d, hd, y, hget, hkind⟩ := ih hq hz
        exact ⟨d, List.mem_append_left _ hd, y, hget, hkind⟩
      | some y =>
        rw [hz, hy] at hx
        cases hx
        refine hlast y hy ?_
        rw [V.kind_op z y (hkinds k z y hz hy)]
        exact (hkinds k z y hz hy).symm

end Kinded

end Hammertime.Lib
