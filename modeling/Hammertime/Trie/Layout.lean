import Hammertime.Lib.CompressedTree
import Hammertime.Trie.Patricia

/-!
# The tree that an arena lays out

`Holds` says that the records of an arena lay out a labelled compressed tree: each label names the
record of its node. Over it, each loop of the Patricia trie is a function of the tree: `countAtLoop`
counts the leaves under a prefix, `addWalk` stops where a new number parts from the tree, `removeWalk`
follows the trail to a leaf, and `dfsLoop` visits the nodes in order. The loops see a network or an
address through its low `w` bits only, so the statements are about `Bits.residue w`.
-/

namespace Hammertime.Trie

open Bits NodeArena PatriciaTrie

/-- The record of the node at the top of a tree. -/
def record (w : ℕ) : Tree ℤ → Cell
  | .leaf _ value => ⟨value, w, 1, noNode, noNode⟩
  | .node _ network len left right =>
    ⟨network, len, (left.count + right.count : ℕ), left.id, right.id⟩

/-- Every label of the tree names the record of its node. -/
def Holds (w : ℕ) (cell : ℤ → Option Cell) : Tree ℤ → Prop
  | .leaf id value => cell id = some (record w (.leaf id value))
  | .node id network len left right =>
    cell id = some (record w (.node id network len left right)) ∧ Holds w cell left ∧
      Holds w cell right

section Record

variable {w : ℕ}

@[simp]
theorem record_network (t : Tree ℤ) : (record w t).network = t.network := by cases t <;> rfl

@[simp]
theorem record_length (t : Tree ℤ) : (record w t).length = t.length w := by cases t <;> rfl

@[simp]
theorem record_hotCount (t : Tree ℤ) : (record w t).hotCount = t.count := by
  cases t with
  | leaf id value => simp [record, Tree.count, Tree.leaves]
  | node id network len left right => simp [record, Tree.count_node]

theorem Holds.top {cell : ℤ → Option Cell} {t : Tree ℤ} (h : Holds w cell t) :
    cell t.id = some (record w t) := by
  cases t with
  | leaf id value => exact h
  | node id network len left right => exact h.1

theorem Holds.isSome_of_mem {cell : ℤ → Option Cell} {t : Tree ℤ} (h : Holds w cell t) {i : ℤ}
    (hi : i ∈ t.ids) : (cell i).isSome := by
  induction t with
  | leaf id value =>
    obtain rfl := List.mem_singleton.1 hi
    rw [h, Option.isSome_some]
  | node id network len left right ihl ihr =>
    obtain ⟨h1, h2, h3⟩ := h
    rcases List.mem_cons.1 hi with rfl | hi
    · rw [h1, Option.isSome_some]
    · rcases List.mem_append.1 hi with hi | hi
      · exact ihl h2 hi
      · exact ihr h3 hi

/-- What a tree's records are depends on its own labels only. -/
theorem Holds.congr {cell cell' : ℤ → Option Cell} {t : Tree ℤ} (h : Holds w cell t)
    (hsame : ∀ i ∈ t.ids, cell' i = cell i) : Holds w cell' t := by
  induction t with
  | leaf id value =>
    show cell' id = _
    rw [hsame id (by simp [Tree.ids])]
    exact h
  | node id network len left right ihl ihr =>
    obtain ⟨h1, h2, h3⟩ := h
    refine ⟨?_, ihl h2 ?_, ihr h3 ?_⟩
    · rw [hsame id (by simp [Tree.ids])]
      exact h1
    · intro i hi
      exact hsame i (by simp [Tree.ids, hi])
    · intro i hi
      exact hsame i (by simp [Tree.ids, hi])

end Record

/-! ## Bits of networks and addresses -/

/-- The shared run of two integers is that of their low bits. -/
theorem commonPrefixLength_eq (a b : ℤ) (w : ℕ) :
    commonPrefixLength a b w = shared w (residue w a) (residue w b) := by
  apply le_antisymm
  · rw [le_shared_iff (residue_lt w a) (residue_lt w b) (commonPrefixLength_le a b w)]
    exact (commonPrefixLength_spec (commonPrefixLength_le a b w) a b).1 le_rfl
  · rw [commonPrefixLength_spec (shared_le _ _ _)]
    exact (le_shared_iff (residue_lt w a) (residue_lt w b) (shared_le _ _ _)).1 le_rfl

theorem bitAt_eq {w i : ℕ} (hi : i < w) (n : ℤ) : bitAt n i w = bit w i (residue w n) :=
  bitAt_spec hi n

/-! ## The loops as functions of the tree -/

section Loops

variable {w : ℕ} {a : NodeArena} {t : Tree ℤ}

theorem Holds.id_ne (h : Holds w a.cell t) : t.id ≠ noNode := by
  intro he
  have := h.top
  rw [he, cell_noNode] at this
  cases this

theorem ids_length_pos (t : Tree ℤ) : 0 < t.ids.length := by
  cases t <;> simp [Tree.ids]

theorem exists_fuel {fuel : ℕ} (hfuel : t.ids.length ≤ fuel) : ∃ k, fuel = k + 1 := by
  have := ids_length_pos t
  exact ⟨fuel - 1, by omega⟩

/-- One round of `_count_at` at the top of a tree. -/
theorem countAtLoop_step (hs : t.Shape w) (h : Holds w a.cell t) (network : ℤ) {target : ℕ}
    (htarget : target ≤ w) (fuel : ℕ) :
    countAtLoop a w network target (fuel + 1) t.id =
      if shared w t.network (residue w network) < min (t.length w) target then .ok 0
      else if target ≤ t.length w then .ok (t.count : ℤ)
      else countAtLoop a w network target fuel
        ((record w t).child (bit w (t.length w) (residue w network))) := by
  simp only [countAtLoop, if_neg h.id_ne, lengthAt_of_cell h.top, networkAt_of_cell h.top,
    hotCountAt_of_cell h.top, record_length, record_network, record_hotCount, bind, Except.bind,
    commonPrefixLength_eq, hs.residue_network, childAt_of_cell h.top (bitAt_lt _ _ _)]
  split_ifs with h1 h2
  · rfl
  · rfl
  · rw [bitAt_eq (by omega)]

/-- The count of a prefix is the number of leaves that begin with its bits. -/
theorem countAtLoop_eq (hs : t.Shape w) (h : Holds w a.cell t) (network : ℤ) {target : ℕ}
    (htarget : target ≤ w) {fuel : ℕ} (hfuel : t.ids.length ≤ fuel) :
    countAtLoop a w network target fuel t.id =
      .ok (t.under w target (residue w network) : ℕ) := by
  -- What the walk decides at the top, before it goes to a child.
  have hparted : ∀ t : Tree ℤ, t.Shape w →
      shared w t.network (residue w network) < min (t.length w) target →
      t.under w target (residue w network) = 0 := by
    intro t hs hlt
    refine hs.under_of_parted htarget (fun he => ?_)
    have hmin : min (t.length w) target ≤ w := (min_le_right _ _).trans htarget
    exact absurd ((le_shared_iff hs.network_lt (residue_lt w network) hmin).2 he) (not_le.2 hlt)
  have hagree : ∀ t : Tree ℤ, t.Shape w →
      ¬ shared w t.network (residue w network) < min (t.length w) target →
      top w (min (t.length w) target) t.network =
        top w (min (t.length w) target) (residue w network) := by
    intro t hs hle
    have hmin : min (t.length w) target ≤ w := (min_le_right _ _).trans htarget
    exact (le_shared_iff hs.network_lt (residue_lt w network) hmin).1 (not_lt.1 hle)
  induction t generalizing fuel with
  | leaf id value =>
    obtain ⟨fuel, rfl⟩ := exists_fuel hfuel
    rw [countAtLoop_step hs h network htarget]
    split_ifs with h1 h2
    · rw [hparted _ hs h1]
      rfl
    · have he := hagree _ hs h1
      rw [min_eq_right h2] at he
      rw [hs.under_of_le h2 he]
    · exact absurd htarget h2
  | node id net len left right ihl ihr =>
    obtain ⟨fuel, rfl⟩ := exists_fuel hfuel
    have hlen : left.ids.length ≤ fuel ∧ right.ids.length ≤ fuel := by
      simp only [Tree.ids, List.length_cons, List.length_append] at hfuel
      omega
    rw [countAtLoop_step hs h network htarget]
    split_ifs with h1 h2
    · rw [hparted _ hs h1]
      rfl
    · have he := hagree _ hs h1
      rw [min_eq_right h2] at he
      rw [hs.under_of_le h2 he]
    · -- The prefix is longer than the node: its bits go on below one child.
      have hlt : len < target := not_le.1 h2
      have he := hagree _ hs h1
      rw [min_eq_left (not_le.1 h2).le] at he
      rw [hs.under_child hlt htarget he]
      obtain ⟨-, -, -, -, -, -, -, hsl, hsr⟩ := hs
      have hl := ihl hsl h.2.1 hlen.1
      have hr := ihr hsr h.2.2 hlen.2
      by_cases hb : bit w len (residue w network) = 0
      · simpa [Tree.length, Cell.child, record, hb] using hl
      · simpa [Tree.length, Cell.child, record, hb] using hr

/-- The loop of `add_hot_ip`, for an address that the tree does not hold: the labels passed, the last
of them, and the subtree that the address parts from. -/
theorem addWalk_eq (hs : t.Shape w) (h : Holds w a.cell t) (address : Address)
    (hv : address.value < 2^w) (hnew : address.value ∉ t.leaves) (path : List ℤ) (parent : ℤ)
    {fuel : ℕ} (hfuel : t.ids.length ≤ fuel) :
    addWalk a w address fuel path parent t.id =
      .ok ⟨path ++ t.passed w address.value (Tree.parts w address.value),
        (t.passed w address.value (Tree.parts w address.value)).getLastD parent,
        (t.reached w address.value (Tree.parts w address.value)).id,
        shared w (t.reached w address.value (Tree.parts w address.value)).network
          address.value⟩ := by
  induction t generalizing fuel path parent with
  | leaf id value =>
    obtain ⟨fuel, rfl⟩ := exists_fuel hfuel
    have hlt : shared w value address.value < w := by
      refine Tree.shared_lt_of_ne hs hv (fun he => hnew ?_)
      rw [← he]
      exact List.mem_singleton.2 rfl
    have hd := lengthAt_of_cell h.top
    simp only [addWalk, lengthAt_of_cell h.top, networkAt_of_cell h.top, record_length,
      record_network, bind, Except.bind, commonPrefixLength_eq, hs.residue_network,
      residue_natCast hv]
    simp only [Tree.network_leaf, Tree.length_leaf, if_pos hlt, Tree.passed, Tree.reached]
    simp [pure, Except.pure]
  | node id net len left right ihl ihr =>
    obtain ⟨fuel, rfl⟩ := exists_fuel hfuel
    have hlen : left.ids.length ≤ fuel ∧ right.ids.length ≤ fuel := by
      simp only [Tree.ids, List.length_cons, List.length_append] at hfuel
      omega
    have hstop : Tree.parts w address.value (.node id net len left right) = true ↔
        shared w net address.value < len := decide_eq_true_iff
    have hnl : address.value ∉ left.leaves := fun hin => hnew (List.mem_append_left _ hin)
    have hnr : address.value ∉ right.leaves := fun hin => hnew (List.mem_append_right _ hin)
    simp only [addWalk, lengthAt_of_cell h.top, networkAt_of_cell h.top, record_length,
      record_network, bind, Except.bind, commonPrefixLength_eq, hs.residue_network,
      residue_natCast hv, childAt_of_cell h.top (bitAt_lt _ _ _)]
    have hlt := hs.1
    simp only [Tree.network_node, Tree.length_node, Tree.passed, Tree.reached, hstop, hlt.ne, if_false,
      bitAt_eq hlt, residue_natCast hv]
    have hl := ihl hs.2.2.2.2.2.2.2.1 h.2.1 hnl (path ++ [id]) id hlen.1
    have hr := ihr hs.2.2.2.2.2.2.2.2 h.2.2 hnr (path ++ [id]) id hlen.2
    by_cases h1 : shared w net address.value < len
    · simp [h1, pure, Except.pure]
    · by_cases hb : bit w len address.value = 0
      · simpa [h1, hb, Cell.child, record, List.getLast?_cons] using hl
      · simpa [h1, hb, Cell.child, record, List.getLast?_cons] using hr

/-- The loop of `remove_hot_ip`: the trail to a leaf, leaf first. -/
theorem removeWalk_eq (hs : t.Shape w) (h : Holds w a.cell t) {v : ℕ} (hv : v < 2^w)
    (path : List ℤ) {fuel : ℕ} (hfuel : t.ids.length ≤ fuel) :
    removeWalk a w v fuel path t.id = .ok ((t.trail w v).reverse ++ path) := by
  induction t generalizing fuel path with
  | leaf id value =>
    obtain ⟨fuel, rfl⟩ := exists_fuel hfuel
    simp only [removeWalk, lengthAt_of_cell h.top, record_length, bind, Except.bind, Tree.length_leaf,
      if_pos, Tree.trail]
    rfl
  | node id net len left right ihl ihr =>
    obtain ⟨fuel, rfl⟩ := exists_fuel hfuel
    have hlen : left.ids.length ≤ fuel ∧ right.ids.length ≤ fuel := by
      simp only [Tree.ids, List.length_cons, List.length_append] at hfuel
      omega
    have hlt := hs.1
    simp only [removeWalk, lengthAt_of_cell h.top, record_length, bind, Except.bind, Tree.length_node,
      if_neg hlt.ne, if_neg hlt.le.not_gt, childAt_of_cell h.top (bitAt_lt _ _ _), Tree.trail]
    rw [bitAt_eq hlt, residue_natCast hv]
    have hl := ihl hs.2.2.2.2.2.2.2.1 h.2.1 (id :: path) hlen.1
    have hr := ihr hs.2.2.2.2.2.2.2.2 h.2.2 (id :: path) hlen.2
    by_cases hb : bit w len v = 0
    · simpa [Cell.child, record, hb] using hl
    · simpa [Cell.child, record, hb] using hr

theorem fillCounts_map (n : ℕ) (f : ℕ → ℤ) (filled : ℤ) (last : ℕ) (count : ℤ) :
    fillCounts ((List.range n).map f) filled last count =
      (List.range n).map fun l : ℕ => if filled < l ∧ l ≤ last then count else f l := by
  apply List.ext_getElem
  · simp [fillCounts]
  · intro i h1 h2
    simp [fillCounts]

/-- The loop of `_counts_along`: past the lengths already filled, the count of every prefix. -/
theorem countsAlongLoop_eq (hs : t.Shape w) (h : Holds w a.cell t) {v : ℕ} (hv : v < 2^w)
    (f : ℕ → ℤ) (filled : ℤ) (hfilled : filled < t.length w)
    (hf : ∀ l : ℕ, l ≤ w → filled < l → f l = 0) {fuel : ℕ} (hfuel : t.ids.length ≤ fuel) :
    countsAlongLoop a w v fuel ((List.range (w + 1)).map f) filled t.id =
      .ok ((List.range (w + 1)).map fun l : ℕ =>
        if filled < l then ((t.under w l v : ℕ) : ℤ) else f l) := by
  -- Up to where `v` parts from the top, a prefix of `v` has the whole tree below it; past a point
  -- of parting inside the top it has nothing.
  have hupto : ∀ (t : Tree ℤ), t.Shape w → ∀ l ≤ min (t.length w) (shared w t.network v),
      t.under w l v = t.count := by
    intro t hs l hl
    have hlw : l ≤ w := ((le_min_iff.1 hl).1).trans hs.length_le
    refine hs.under_of_le (le_min_iff.1 hl).1 ?_
    exact (le_shared_iff hs.network_lt hv hlw).1 (le_min_iff.1 hl).2
  have hpast : ∀ (t : Tree ℤ), t.Shape w → shared w t.network v < t.length w →
      ∀ l ≤ w, shared w t.network v < l → t.under w l v = 0 := by
    intro t hs hlt l hl hcl
    refine hs.under_of_parted hl (fun he => ?_)
    have hmin : min (t.length w) l ≤ w := (min_le_right _ _).trans hl
    have := (le_shared_iff hs.network_lt hv hmin).2 he
    omega
  induction t generalizing fuel f filled with
  | leaf id value =>
    obtain ⟨fuel, rfl⟩ := exists_fuel hfuel
    simp only [countsAlongLoop, if_neg h.id_ne, lengthAt_of_cell h.top, networkAt_of_cell h.top,
      hotCountAt_of_cell h.top, record_length, record_network, record_hotCount, bind, Except.bind,
      commonPrefixLength_eq, hs.residue_network, residue_natCast hv, fillCounts_map]
    rw [if_pos (.inr (Tree.length_leaf value))]
    refine congrArg Except.ok (List.map_congr_left fun l hl => ?_)
    have hl : l ≤ w := Nat.lt_succ_iff.1 (List.mem_range.1 hl)
    split_ifs with h1 h2 h2
    · rw [hupto _ hs l h1.2]
    · omega
    · rw [hf l hl h2, hpast _ hs ?_ l hl ?_]
      · rfl
      all_goals simp only [Tree.length_leaf, Tree.network_leaf] at h1 ⊢; omega
    · rfl
  | node id net len left right ihl ihr =>
    obtain ⟨fuel, rfl⟩ := exists_fuel hfuel
    have hlen : left.ids.length ≤ fuel ∧ right.ids.length ≤ fuel := by
      simp only [Tree.ids, List.length_cons, List.length_append] at hfuel
      omega
    have hlt := hs.1
    simp only [countsAlongLoop, if_neg h.id_ne, lengthAt_of_cell h.top, networkAt_of_cell h.top,
      hotCountAt_of_cell h.top, record_length, record_network, record_hotCount, bind, Except.bind,
      commonPrefixLength_eq, hs.residue_network, residue_natCast hv, fillCounts_map,
      childAt_of_cell h.top (bitAt_lt _ _ _)]
    by_cases hc : shared w net v < len
    · rw [if_pos (.inl (by simpa using hc))]
      refine congrArg Except.ok (List.map_congr_left fun l hl => ?_)
      have hl : l ≤ w := Nat.lt_succ_iff.1 (List.mem_range.1 hl)
      split_ifs with h1 h2 h2
      · rw [hupto _ hs l h1.2]
      · omega
      · rw [hf l hl h2, hpast _ hs hc l hl ?_]
        · rfl
        · simp only [Tree.length_node, Tree.network_node] at h1 ⊢
          omega
      · rfl
    · -- The whole edge agrees with `v`: the walk goes on below the node.
      have hmin : min len (shared w net v) = len := min_eq_left (not_lt.1 hc)
      have he := (le_shared_iff hs.network_lt hv hlt.le).1 (not_lt.1 hc)
      have hfilled' : filled < len := hfilled
      rw [if_neg (by simp [hc, hlt.ne])]
      simp only [Tree.length_node, Tree.network_node, hmin, bitAt_eq hlt, residue_natCast hv,
        max_eq_right hfilled'.le]
      have hnext : ∀ l : ℕ, l ≤ w → (len : ℤ) < l →
          (if filled < l ∧ l ≤ len then ((Tree.node id net len left right).count : ℤ) else f l) = 0 := by
        intro l hl hll
        rw [if_neg (by omega)]
        exact hf l hl (by omega)
      have hl := ihl hs.2.2.2.2.2.2.2.1 h.2.1 _ len (by exact_mod_cast hs.2.2.2.1) hnext hlen.1
      have hr := ihr hs.2.2.2.2.2.2.2.2 h.2.2 _ len (by exact_mod_cast hs.2.2.2.2.1) hnext hlen.2
      have hcount : ∀ l : ℕ, l ≤ len → (Tree.node id net len left right).under w l v =
          (Tree.node id net len left right).count := by
        intro l hl
        refine hupto _ hs l ?_
        rw [Tree.length_node, Tree.network_node, hmin]
        exact hl
      have hchild : ∀ l : ℕ, l ≤ w → len < l → (Tree.node id net len left right).under w l v =
          if bit w len v = 0 then left.under w l v else right.under w l v :=
        fun l hl hll => hs.under_child hll hl he
      by_cases hb : bit w len v = 0
      · simp only [Cell.child, record, hb, if_true]
        rw [hl]
        refine congrArg Except.ok (List.map_congr_left fun l hl => ?_)
        have hlw : l ≤ w := Nat.lt_succ_iff.1 (List.mem_range.1 hl)
        by_cases hll : len < l
        · rw [if_pos (by exact_mod_cast hll), if_pos (by omega), hchild l hlw hll, if_pos hb]
        · rw [if_neg (by exact_mod_cast hll), hcount l (not_lt.1 hll)]
          simp [not_lt.1 hll]
      · simp only [Cell.child, record, hb, if_false]
        rw [hr]
        refine congrArg Except.ok (List.map_congr_left fun l hl => ?_)
        have hlw : l ≤ w := Nat.lt_succ_iff.1 (List.mem_range.1 hl)
        by_cases hll : len < l
        · rw [if_pos (by exact_mod_cast hll), if_pos (by omega), hchild l hlw hll, if_neg hb]
        · rw [if_neg (by exact_mod_cast hll), hcount l (not_lt.1 hll)]
          simp [not_lt.1 hll]

/-- The visits of a depth-first traversal: each label with the length of the node above. -/
def visits (parentLength : ℤ) : Tree ℤ → List (ℤ × ℤ)
  | .leaf id _ => [(id, parentLength)]
  | .node id _ len left right => (id, parentLength) :: (visits len left ++ visits len right)

/-- The loop of `_dfs` visits the trees on its stack one after the other. -/
theorem dfsLoop_eq (stack : List (Tree ℤ × ℤ)) (h : ∀ p ∈ stack, Holds w a.cell p.1) {fuel : ℕ}
    (hfuel : (stack.map fun p => p.1.ids.length).sum ≤ fuel) :
    dfsLoop a fuel (stack.map fun p => (p.1.id, p.2)) =
      .ok (stack.flatMap fun p => visits p.2 p.1) := by
  induction fuel generalizing stack with
  | zero =>
    cases stack with
    | nil => rfl
    | cons p stack =>
      have := ids_length_pos p.1
      simp only [List.map_cons, List.sum_cons] at hfuel
      omega
  | succ fuel ih =>
    cases stack with
    | nil => rfl
    | cons p stack =>
      obtain ⟨t, parentLength⟩ := p
      have ht : Holds w a.cell t := h _ List.mem_cons_self
      have hrest : ∀ p ∈ stack, Holds w a.cell p.1 := fun p hp => h p (List.mem_cons_of_mem _ hp)
      simp only [List.map_cons, List.sum_cons] at hfuel ⊢
      simp only [dfsLoop, lengthAt_of_cell ht.top, childAt_of_cell ht.top one_lt_two,
        childAt_of_cell ht.top two_pos, bind, Except.bind, record_length]
      cases t with
      | leaf id value =>
        have := ih stack hrest (by simp only [Tree.ids, List.length_singleton] at hfuel; omega)
        simp [record, Cell.child, this, visits, pure, Except.pure]
      | node id net len left right =>
        -- Both children go on the stack, the left one on top.
        have := ih ((left, (len : ℤ)) :: (right, (len : ℤ)) :: stack)
          (by
            intro p hp
            rcases List.mem_cons.1 hp with rfl | hp
            · exact ht.2.1
            · rcases List.mem_cons.1 hp with rfl | hp
              · exact ht.2.2
              · exact hrest p hp)
          (by
            simp only [Tree.ids, List.length_cons, List.length_append] at hfuel
            simp only [List.map_cons, List.sum_cons]
            omega)
        simp only [List.map_cons] at this
        simp [record, Cell.child, ht.2.1.id_ne, ht.2.2.id_ne, this, visits, pure, Except.pure]

end Loops

end Hammertime.Trie
