import Hammertime.Trie.Layout

/-!
# What adding and removing an address do to the arena

`Intact` is the invariant of a Patricia trie: the arena keeps its accounts, and its live records lay
out one compressed tree, or none. Both mutations end in the same way: the node at the end of a path
gets a new child, and every count on the path moves by one. `reroute` is what that does to the
records, and `Holds.replace` that the tree then laid out is the old one with one subtree replaced.
-/

namespace Hammertime.Trie

open Bits NodeArena PatriciaTrie

/-- A record whose count has moved by `delta`. -/
def Cell.charge (c : Cell) (delta : ℤ) : Cell := { c with hotCount := c.hotCount + delta }

/-- The records after the counts along `path` have moved by `delta` and the last node of it has got
a new child on the branch of `v`. -/
def reroute (w v : ℕ) (delta newChild : ℤ) (path : List ℤ) (cell : ℤ → Option Cell) (i : ℤ) :
    Option Cell :=
  if i ∈ path then
    (cell i).map fun c =>
      (if path.getLast? = some i then c.setChild (bitAt v c.length w) newChild else c).charge delta
  else cell i

section Reroute

variable {w v : ℕ} {delta newChild : ℤ} {path : List ℤ}

theorem reroute_of_not_mem {cell : ℤ → Option Cell} {i : ℤ} (h : i ∉ path) :
    reroute w v delta newChild path cell i = cell i := if_neg h

theorem reroute_congr {cell cell' : ℤ → Option Cell} {i : ℤ} (h : cell' i = cell i) :
    reroute w v delta newChild path cell' i = reroute w v delta newChild path cell i := by
  simp only [reroute, h]

theorem reroute_isSome (cell : ℤ → Option Cell) (i : ℤ) :
    (reroute w v delta newChild path cell i).isSome = (cell i).isSome := by
  unfold reroute
  split_ifs <;> simp

/-- Below the first node of a path, the rest of it decides. -/
theorem reroute_cons_of_ne {cell : ℤ → Option Cell} {i j : ℤ} (h : i ≠ j) :
    reroute w v delta newChild (j :: path) cell i = reroute w v delta newChild path cell i := by
  unfold reroute
  cases path with
  | nil => simp [h]
  | cons k path => simp only [List.mem_cons, h, false_or, List.getLast?_cons_cons]

/-- The first node of a path, which gets the new child if it is also the last. -/
theorem reroute_head {cell : ℤ → Option Cell} {i : ℤ} {c : Cell} (hc : cell i = some c)
    (hi : i ∉ path) : reroute w v delta newChild (i :: path) cell i =
      some ((if path = [] then c.setChild (bitAt v c.length w) newChild else c).charge delta) := by
  have hlast : (i :: path).getLast? = some i ↔ path = [] := by
    cases path with
    | nil => simp
    | cons k path =>
      rw [List.getLast?_cons_cons]
      simp only [reduceCtorEq, iff_false]
      intro he
      exact hi (List.mem_of_getLast? he)
  simp only [reroute, List.mem_cons_self, if_true, hc, Option.map_some, hlast]

/-- The loop over the path moves the counts on it. -/
theorem addAlong_spec {a : NodeArena} (ha : a.Accounted) (hnodup : path.Nodup)
    (hcell : ∀ i ∈ path, (a.cell i).isSome) (delta : ℤ) :
    ∃ b, addAlong a delta path = .ok b ∧ b.Accounted ∧
      (∀ i, b.cell i = if i ∈ path then (a.cell i).map (·.charge delta) else a.cell i) ∧
      b.length = a.length ∧ b.freeIds = a.freeIds := by
  induction path generalizing a with
  | nil => exact ⟨a, rfl, ha, by simp, rfl, rfl⟩
  | cons j path ih =>
    obtain ⟨hj, hnodup'⟩ := List.nodup_cons.1 hnodup
    obtain ⟨c, hc⟩ := Option.isSome_iff_exists.1 (hcell j List.mem_cons_self)
    obtain ⟨b, hb, hacc, hcells, hlen, hfree⟩ := addHotCount_spec ha hc delta
    -- The rest of the path does not meet `j`, so its records are still there.
    have hrest : ∀ i ∈ path, (b.cell i).isSome := by
      intro i hi
      have hij : i ≠ j := by
        rintro rfl
        exact hj hi
      rw [hcells, Function.update_of_ne hij]
      exact hcell i (List.mem_cons_of_mem _ hi)
    obtain ⟨b', hb', hacc', hcells', hlen', hfree'⟩ := ih hacc hnodup' hrest
    refine ⟨b', ?_, hacc', ?_, by rw [hlen', hlen], by rw [hfree', hfree]⟩
    · simp only [addAlong, hb, bind, Except.bind]
      exact hb'
    · intro i
      rw [hcells', hcells]
      by_cases hij : i = j
      · subst hij
        simp [hj, hc, Cell.charge]
      · simp [hij]

/-- `_relink` and the loop over the path, as both mutations end: `path` is the nodes from the root
down to the one relinked. -/
theorem relink_addAlong_spec (t : PatriciaTrie) (ha : t.arena.Accounted) (hnodup : path.Nodup)
    (hcell : ∀ i ∈ path, (t.arena.cell i).isSome) (v : ℕ) (newChild delta : ℤ) :
    ∃ t' b, t.relink (path.getLastD noNode) v newChild = .ok t' ∧
      addAlong t'.arena delta path = .ok b ∧ t'.family = t.family ∧
      t'.root = (if path = [] then newChild else t.root) ∧ b.Accounted ∧
      b.cell = reroute t.bitLength v delta newChild path t.arena.cell ∧
      b.length = t.arena.length ∧ b.freeIds = t.arena.freeIds := by
  rcases List.eq_nil_or_concat' path with rfl | ⟨above, parent, rfl⟩
  · refine ⟨{ t with root := newChild }, t.arena, by simp [relink], rfl, rfl, by simp, ha, ?_, rfl,
      rfl⟩
    funext i
    simp [reroute]
  · obtain ⟨c, hc⟩ := Option.isSome_iff_exists.1 (hcell parent (by simp))
    have hne : parent ≠ noNode := by
      intro he
      rw [he, cell_noNode] at hc
      cases hc
    obtain ⟨b, hb, hacc, hcells, hlen, hfree⟩ := setChild_spec ha hc
      (bitAt_lt v c.length t.bitLength) newChild
    have hcell' : ∀ i ∈ above ++ [parent], (b.cell i).isSome := by
      intro i hi
      rw [hcells]
      by_cases hip : i = parent
      · simp [hip]
      · rw [Function.update_of_ne hip]
        exact hcell i hi
    obtain ⟨b', hb', hacc', hcells', hlen', hfree'⟩ := addAlong_spec hacc hnodup hcell' delta
    refine ⟨{ t with arena := b }, b', ?_, hb', rfl, by simp, hacc', ?_, by rw [hlen', hlen],
      by rw [hfree', hfree]⟩
    · simp [relink, hne, lengthAt_of_cell hc, hb, bind, Except.bind, pure, Except.pure]
    · funext i
      rw [hcells', hcells]
      unfold reroute
      by_cases hip : i = parent
      · subst hip
        simp [hc]
      · have : ¬ parent = i := fun he => hip he.symm
        simp [hip, this]

theorem Holds.reached {cell : ℤ → Option Cell} {stop : Tree ℤ → Bool} {t : Tree ℤ}
    (h : Holds w cell t) : Holds w cell (t.reached w v stop) := by
  induction t with
  | leaf id value => exact h
  | node id net len left right ihl ihr =>
    unfold Tree.reached
    split_ifs
    · exact h
    · exact ihl h.2.1
    · exact ihr h.2.2

/-- Replacing the subtree that a walk stops at: the records rerouted along the walk lay out the tree
with the new subtree in place. -/
theorem Holds.replace {cell cell' : ℤ → Option Cell} {stop : Tree ℤ → Bool} {f : Tree ℤ → Tree ℤ}
    {t : Tree ℤ} (h : Holds w cell t) (hs : t.Shape w) (hv : v < 2^w) (hnodup : t.ids.Nodup)
    (hcell : ∀ i ∈ t.ids, i ∉ (t.reached w v stop).ids → cell' i =
      reroute w v delta (f (t.reached w v stop)).id (t.passed w v stop) cell i)
    (hnew : Holds w cell' (f (t.reached w v stop)))
    {a b : ℕ} (hcount : (f (t.reached w v stop)).count + a = (t.reached w v stop).count + b)
    (hdelta : delta = b - a) : Holds w cell' (t.replace w v stop f) := by
  induction t with
  | leaf id value => exact hnew
  | node id net len left right ihl ihr =>
    by_cases hstop : stop (.node id net len left right) = true
    · simpa [Tree.replace, Tree.reached, hstop] using hnew
    obtain ⟨hid, hnd⟩ := List.nodup_cons.1 hnodup
    obtain ⟨hndl, hndr, hdisj⟩ := List.nodup_append.1 hnd
    have hlt := hs.1
    have hbit := bitAt_eq hlt (v : ℤ)
    rw [residue_natCast hv] at hbit
    by_cases hb : bit w len v = 0
    · simp only [Tree.replace, Tree.reached, Tree.passed, hstop, hb, if_true, if_false,
        Bool.false_eq_true] at hcell hnew hcount ⊢
      have hidr : id ∉ (left.reached w v stop).ids := fun hin =>
        hid (List.mem_append_left _ (Tree.reached_subset w v stop left hin))
      have hidp : id ∉ left.passed w v stop := fun hin =>
        hid (List.mem_append_left _ (Tree.passed_subset w v stop left hin))
      refine ⟨?_, ihl h.2.1 hs.2.2.2.2.2.2.2.1 hndl ?_ hnew hcount, h.2.2.congr ?_⟩
      · have hc := Tree.count_replace left hcount
        rw [hcell id (by simp [Tree.ids]) hidr, reroute_head h.1 hidp]
        simp only [record, hbit, hb, Tree.id_replace, Cell.charge, Cell.setChild, if_true]
        split_ifs <;> simp <;> omega
      · intro i hi hir
        have hne : i ≠ id := by
          rintro rfl
          exact hid (List.mem_append_left _ hi)
        rw [hcell i (by simp [Tree.ids, hi]) hir, reroute_cons_of_ne hne]
      · -- The walk does not touch the other side.
        intro i hi
        have hne : i ∉ id :: left.passed w v stop := by
          rintro (_ | ⟨_, hin⟩)
          · exact hid (List.mem_append_right _ hi)
          · exact hdisj i (Tree.passed_subset w v stop left hin) i hi rfl
        have hir : i ∉ (left.reached w v stop).ids := fun hin =>
          hdisj i (Tree.reached_subset w v stop left hin) i hi rfl
        rw [hcell i (by simp [Tree.ids, hi]) hir, reroute_of_not_mem hne]
    · simp only [Tree.replace, Tree.reached, Tree.passed, hstop, hb, if_false,
        Bool.false_eq_true] at hcell hnew hcount ⊢
      have hidr : id ∉ (right.reached w v stop).ids := fun hin =>
        hid (List.mem_append_right _ (Tree.reached_subset w v stop right hin))
      have hidp : id ∉ right.passed w v stop := fun hin =>
        hid (List.mem_append_right _ (Tree.passed_subset w v stop right hin))
      refine ⟨?_, h.2.1.congr ?_, ihr h.2.2 hs.2.2.2.2.2.2.2.2 hndr ?_ hnew hcount⟩
      · have hc := Tree.count_replace right hcount
        rw [hcell id (by simp [Tree.ids]) hidr, reroute_head h.1 hidp]
        simp only [record, hbit, hb, Tree.id_replace, Cell.charge, Cell.setChild, if_false]
        split_ifs <;> simp <;> omega
      · intro i hi
        have hne : i ∉ id :: right.passed w v stop := by
          rintro (_ | ⟨_, hin⟩)
          · exact hid (List.mem_append_left _ hi)
          · exact hdisj i hi i (Tree.passed_subset w v stop right hin) rfl
        have hir : i ∉ (right.reached w v stop).ids := fun hin =>
          hdisj i hi i (Tree.reached_subset w v stop right hin) rfl
        rw [hcell i (by simp [Tree.ids, hi]) hir, reroute_of_not_mem hne]
      · intro i hi hir
        have hne : i ≠ id := by
          rintro rfl
          exact hid (List.mem_append_right _ hi)
        rw [hcell i (by simp [Tree.ids, hi]) hir, reroute_cons_of_ne hne]

end Reroute

/-! ## The invariant -/

/-- The labels of a tree that may be empty. -/
def treeIds (o : Option (Tree ℤ)) : List ℤ := o.elim [] Tree.ids

/-- The numbers of a tree that may be empty, ascending. -/
def treeLeaves (o : Option (Tree ℤ)) : List ℕ := o.elim [] Tree.leaves

@[simp] theorem treeIds_none : treeIds none = [] := rfl
@[simp] theorem treeIds_some (s : Tree ℤ) : treeIds (some s) = s.ids := rfl
@[simp] theorem treeLeaves_none : treeLeaves none = [] := rfl
@[simp] theorem treeLeaves_some (s : Tree ℤ) : treeLeaves (some s) = s.leaves := rfl

/-- The arena keeps its accounts, and its live records are exactly those of one compressed tree, with
the root at its top, or there are none. -/
structure Intact (t : PatriciaTrie) (o : Option (Tree ℤ)) : Prop where
  accounted : t.arena.Accounted
  root_eq : t.root = (o.map Tree.id).getD noNode
  shape : ∀ s ∈ o, s.Shape t.bitLength
  holds : ∀ s ∈ o, Holds t.bitLength t.arena.cell s
  nodup : (treeIds o).Nodup
  live_iff : ∀ i, (t.arena.cell i).isSome ↔ i ∈ treeIds o

section Intact

variable {t : PatriciaTrie} {o : Option (Tree ℤ)} {s : Tree ℤ}

theorem Intact.root_some (h : Intact t (some s)) : t.root = s.id ∧ t.root ≠ noNode := by
  have hid := (h.holds s rfl).id_ne
  have := h.root_eq
  simp only [Option.map_some, Option.getD_some] at this
  rw [this]
  exact ⟨rfl, hid⟩

/-- The slots are the labels of the tree and the free list, each once. -/
theorem Intact.slots_perm (h : Intact t o) :
    (treeIds o ++ t.arena.freeIds).Perm ((List.range t.arena.capacity).map (Nat.cast : ℕ → ℤ)) := by
  have hinj : Function.Injective (Nat.cast : ℕ → ℤ) := Nat.cast_injective
  refine (List.perm_ext_iff_of_nodup ?_ (List.nodup_range.map hinj)).2 ?_
  · refine List.nodup_append.2 ⟨h.nodup, h.accounted.free_nodup, ?_⟩
    rintro i hi j hj rfl
    -- A label's slot is live, and a listed slot is dead.
    obtain ⟨c, hc⟩ := Option.isSome_iff_exists.1 ((h.live_iff i).2 hi)
    obtain ⟨x, hx, hx0⟩ := (h.accounted.mem_free_iff i).1 hj
    have hl := ((cell_eq_some_iff _ i c).1 hc).2.1
    rw [hx, Option.some.injEq] at hl
    omega
  · intro i
    rw [List.mem_append, ← h.live_iff i, h.accounted.mem_free_iff i, List.mem_map]
    constructor
    · rintro (hi | ⟨x, hx, -⟩)
      · obtain ⟨c, hc⟩ := Option.isSome_iff_exists.1 hi
        obtain ⟨h0, hlt⟩ := inRange_of_cell hc
        exact ⟨i.toNat, List.mem_range.2 (by unfold capacity; omega), by omega⟩
      · obtain ⟨h0, hlt⟩ := IntIndex.inRange_of_get? hx
        exact ⟨i.toNat, List.mem_range.2 (by unfold capacity; omega), by omega⟩
    · rintro ⟨k, hk, rfl⟩
      have hk' := List.mem_range.1 hk
      obtain ⟨x, hx⟩ := IntIndex.exists_get? (l := t.arena.length) (i := (k : ℤ)) (by omega)
        (by unfold capacity at hk'; omega)
      by_cases hx0 : x < 0
      · exact .inr ⟨x, hx, hx0⟩
      · left
        rw [← h.accounted.isLive_iff]
        simp [isLive, hx, not_lt.1 hx0]

/-- `node_count` is the number of nodes of the tree. -/
theorem Intact.nodeCount_eq (h : Intact t o) : t.nodeCount = (treeIds o).length := by
  have := h.slots_perm.length_eq
  simp only [List.length_append, List.length_map, List.length_range, capacity] at this
  unfold nodeCount liveCount
  omega

/-- The tree fits the arena, so that a walk of one step a slot reaches its end. -/
theorem Intact.ids_length_le (h : Intact t (some s)) : s.ids.length ≤ t.arena.capacity := by
  have := h.slots_perm.length_eq
  simp only [List.length_append, List.length_map, List.length_range, treeIds_some] at this
  omega

/-- Every prefix count is a number of leaves. -/
theorem Intact.countAt_eq (h : Intact t o) (network : ℤ) {target : ℕ}
    (htarget : target ≤ t.bitLength) : t.countAt network target =
      .ok ((treeLeaves o).countP fun v =>
        top t.bitLength target v = top t.bitLength target (residue t.bitLength network) : ℕ) := by
  unfold countAt
  cases o with
  | none =>
    have : t.root = noNode := h.root_eq
    simp [countAtLoop, this]
  | some s =>
    rw [h.root_some.1]
    exact countAtLoop_eq (h.shape s rfl) (h.holds s rfl) network htarget
      (h.ids_length_le.trans (Nat.le_succ _))

theorem Intact.leaves_sorted (h : Intact t o) : (treeLeaves o).Pairwise (· < ·) := by
  cases o with
  | none => exact List.Pairwise.nil
  | some s => exact (h.shape s rfl).leaves_sorted

theorem Intact.lt_of_mem (h : Intact t o) {v : ℕ} (hv : v ∈ treeLeaves o) : v < 2^t.bitLength := by
  cases o with
  | none => cases hv
  | some s => exact (h.shape s rfl).lt_of_mem hv

/-- `contains` is membership. -/
theorem Intact.contains_eq (h : Intact t o) {address : Address} (hfam : address.family = t.family) :
    t.contains address = .ok (decide (address.value ∈ treeLeaves o)) := by
  have hv : address.value < 2^t.bitLength := by
    unfold bitLength
    rw [← hfam]
    exact address.inRange
  have hone : (treeLeaves o).countP (fun v => top t.bitLength t.bitLength v =
      top t.bitLength t.bitLength address.value) =
      if address.value ∈ treeLeaves o then 1 else 0 := by
    cases o with
    | none => simp
    | some s => exact (h.shape s rfl).under_self address.value
  simp only [contains, checkFamily, hfam, if_true, h.countAt_eq _ le_rfl, residue_natCast hv, hone,
    bind, Except.bind, pure, Except.pure]
  split_ifs with hin <;> simp [hin]

/-- An empty trie is intact. -/
theorem intact_empty (family : AddressFamily) : Intact ⟨family, NodeArena.empty, noNode⟩ none where
  accounted := empty_accounted
  root_eq := rfl
  shape := by simp
  holds := by simp
  nodup := List.nodup_nil
  live_iff i := by simp [NodeArena.empty, cell]

/-! ## Adding an address -/

/-- The records that the split of an edge writes: a leaf, and above it an internal node that holds the
leaf and the node split off. Every other record stays. -/
structure Grafted (w v common : ℕ) (nid count internal leaf : ℤ) (cell cell' : ℤ → Option Cell) :
    Prop where
  internal_fresh : cell internal = none
  leaf_fresh : cell leaf = none
  internal_ne : internal ≠ leaf
  internal_eq : cell' internal = some (if bitAt v common w = 0
    then ⟨cleared w common v, common, count + 1, leaf, nid⟩
    else ⟨cleared w common v, common, count + 1, nid, leaf⟩)
  leaf_eq : cell' leaf = some ⟨v, w, 1, noNode, noNode⟩
  other_eq : ∀ i, i ≠ internal → i ≠ leaf → cell' i = cell i

/-- The split up to its relink. -/
theorem split_spec (ha : t.arena.Accounted) (p : SplitPoint) {c : Cell}
    (hc : t.arena.cell p.nid = some c) (v : ℕ) :
    ∃ internal leaf b, t.split v p = relink { t with arena := b } p.parent v internal ∧
      b.Accounted ∧
      Grafted t.bitLength v p.common p.nid c.hotCount internal leaf t.arena.cell b.cell := by
  obtain ⟨internal, b1, h1, acc1, -, fresh1, cells1, -⟩ := allocate_spec ha
    (clearHostBits v (t.bitLength - p.common)) p.common (c.hotCount + 1)
  obtain ⟨leaf, b2, h2, acc2, -, fresh2, cells2, -⟩ := allocate_spec acc1 v t.bitLength 1
  have hne : internal ≠ leaf := by
    intro he
    rw [cells1, he, Function.update_self] at fresh2
    cases fresh2
  have hb := bitAt_lt v p.common t.bitLength
  have hc2 : b2.cell internal = some ⟨clearHostBits v (t.bitLength - p.common), p.common,
      c.hotCount + 1, noNode, noNode⟩ := by
    rw [cells2, Function.update_of_ne hne, cells1, Function.update_self]
  obtain ⟨b3, h3, acc3, cells3, -⟩ := setChild_spec acc2 hc2 hb leaf
  have hc3 := congrFun cells3 internal
  rw [Function.update_self] at hc3
  have hb' : 1 - bitAt v p.common t.bitLength < 2 := by omega
  obtain ⟨b4, h4, acc4, cells4, -⟩ := setChild_spec acc3 hc3 hb' p.nid
  refine ⟨internal, leaf, b4, ?_, acc4, fresh1, ?_, hne, ?_, ?_, ?_⟩
  · simp only [split, hotCountAt_of_cell hc, h1, h2, h3, h4, bind, Except.bind]
  · rw [cells1, Function.update_of_ne (Ne.symm hne)] at fresh2
    exact fresh2
  · rw [cells4, Function.update_self, clearHostBits_natCast]
    generalize bitAt v p.common t.bitLength = branch at hb
    interval_cases branch <;> simp [Cell.setChild]
  · rw [cells4, Function.update_of_ne (Ne.symm hne), cells3, Function.update_of_ne (Ne.symm hne),
      cells2, Function.update_self]
  · intro i hi hl
    rw [cells4, Function.update_of_ne hi, cells3, Function.update_of_ne hi, cells2,
      Function.update_of_ne hl, cells1, Function.update_of_ne hi]

/-- The records of a split, rerouted along the walk to it, lay out the tree with the number
inserted. -/
theorem Holds.insert {w v : ℕ} {cell cell' : ℤ → Option Cell} {internal leaf : ℤ}
    (h : Holds w cell s) (hs : s.Shape w) (hv : v < 2^w) (hnodup : s.ids.Nodup)
    (hnew : v ∉ s.leaves)
    (hg : Grafted w v (shared w (s.reached w v (Tree.parts w v)).network v)
      (s.reached w v (Tree.parts w v)).id (s.reached w v (Tree.parts w v)).count internal leaf
      cell cell') :
    Holds w (reroute w v 1 internal (s.passed w v (Tree.parts w v)) cell')
      (s.insert w v internal leaf) := by
  have hsr : (s.reached w v (Tree.parts w v)).Shape w := hs.reached
  have hpart := hs.parts_reached hv hnew
  have hfresh : ∀ i, cell i = none → i ∉ s.ids := by
    intro i hi hin
    have := h.isSome_of_mem hin
    rw [hi] at this
    cases this
  have hother : ∀ i ∈ s.ids, cell' i = cell i := by
    intro i hi
    refine hg.other_eq i ?_ ?_
    · rintro rfl
      exact hfresh i hg.internal_fresh hi
    · rintro rfl
      exact hfresh i hg.leaf_fresh hi
  have hpass := Tree.passed_subset w v (Tree.parts w v) s
  have hid : (Tree.graft w v internal leaf (s.reached w v (Tree.parts w v))).id = internal := by
    unfold Tree.graft
    split_ifs <;> rfl
  rw [Tree.insert_eq_replace]
  have hdelta : (1 : ℤ) = ((1 : ℕ) : ℤ) - ((0 : ℕ) : ℤ) := by norm_num
  refine h.replace hs hv hnodup (fun i hi _ => ?_) ?_ ?_ hdelta
  · rw [hid, reroute_congr (hother i hi)]
  · -- The new subtree: both new records, and below them what was there.
    have hsub : Holds w (reroute w v 1 internal (s.passed w v (Tree.parts w v)) cell')
        (s.reached w v (Tree.parts w v)) := by
      refine h.reached.congr (fun i hi => ?_)
      have hnp : i ∉ s.passed w v (Tree.parts w v) :=
        fun hp => Tree.not_mem_reached hnodup hp hi
      rw [reroute_of_not_mem hnp, hother i (Tree.reached_subset w v _ s hi)]
    have hleaf : reroute w v 1 internal (s.passed w v (Tree.parts w v)) cell' leaf =
        some (record w (.leaf leaf v)) := by
      rw [reroute_of_not_mem (fun hp => hfresh leaf hg.leaf_fresh (hpass hp)), hg.leaf_eq]
      rfl
    have htop := hg.internal_eq
    rw [bitAt_eq (lt_of_lt_of_le hpart hsr.length_le), residue_natCast hv] at htop
    have hint : reroute w v 1 internal (s.passed w v (Tree.parts w v)) cell' internal =
        cell' internal :=
      reroute_of_not_mem (fun hp => hfresh internal hg.internal_fresh (hpass hp))
    unfold Tree.graft
    split_ifs with hb
    · refine ⟨?_, hleaf, hsub⟩
      rw [hint, htop, if_pos hb]
      simp [record, Tree.count, Tree.leaves, add_comm]
    · refine ⟨?_, hsub, hleaf⟩
      rw [hint, htop, if_neg hb]
      simp [record, Tree.count, Tree.leaves]
  · rw [Tree.count, (Tree.leaves_graft_perm w v internal leaf _).length_eq]
    rfl

/-- `add_hot_ip` of an address that is not HOT. -/
theorem Intact.addHotIp_new (h : Intact t o) {address : Address} (hfam : address.family = t.family)
    (hnew : address.value ∉ treeLeaves o) :
    ∃ t' o', t.addHotIp address = .ok (true, t') ∧ t'.family = t.family ∧ Intact t' o' ∧
      ∀ x, x ∈ treeLeaves o' ↔ x = address.value ∨ x ∈ treeLeaves o := by
  have hv : address.value < 2^t.bitLength := by
    unfold bitLength
    rw [← hfam]
    exact address.inRange
  have hcontains := h.contains_eq hfam
  simp only [hnew, decide_false] at hcontains
  cases o with
  | none =>
    -- The first address: its leaf is the root.
    obtain ⟨nid, b, hb, hacc, -, -, hcells, -⟩ := allocate_spec h.accounted address.value
      t.bitLength 1
    have hroot : t.root = noNode := h.root_eq
    refine ⟨{ t with arena := b, root := nid }, some (.leaf nid address.value), ?_, rfl,
      ⟨hacc, rfl, ?_, ?_, ?_, ?_⟩, ?_⟩
    · simp [addHotIp, checkFamily, hfam, hcontains, hroot, hb, bind, Except.bind, pure, Except.pure]
    · rintro s ⟨⟩
      exact hv
    · rintro s ⟨⟩
      show b.cell nid = _
      rw [hcells, Function.update_self]
      rfl
    · simp [Tree.ids]
    · intro i
      show (b.cell i).isSome ↔ _
      rw [hcells]
      by_cases hi : i = nid
      · simp [hi, Tree.ids]
      · rw [Function.update_of_ne hi, h.live_iff i]
        simp [hi, Tree.ids]
    · intro x
      simp [Tree.leaves]
  | some s =>
    have hs := h.shape s rfl
    have hh := h.holds s rfl
    obtain ⟨hroot, hroot0⟩ := h.root_some
    have hnd : s.ids.Nodup := h.nodup
    have hfuel : s.ids.length ≤ t.arena.capacity + 1 := h.ids_length_le.trans (Nat.le_succ _)
    have hwalk := addWalk_eq hs hh address hv hnew [] noNode hfuel
    rw [List.nil_append] at hwalk
    have hpass := Tree.passed_subset t.bitLength address.value
      (Tree.parts t.bitLength address.value) s
    have hhr : Holds t.bitLength t.arena.cell
        (s.reached t.bitLength address.value (Tree.parts t.bitLength address.value)) := hh.reached
    obtain ⟨internal, leaf, b, hsplit, hacc, hg⟩ := split_spec h.accounted
      ⟨s.passed t.bitLength address.value (Tree.parts t.bitLength address.value),
        (s.passed t.bitLength address.value (Tree.parts t.bitLength address.value)).getLastD noNode,
        (s.reached t.bitLength address.value (Tree.parts t.bitLength address.value)).id,
        shared t.bitLength (s.reached t.bitLength address.value
          (Tree.parts t.bitLength address.value)).network address.value⟩ hhr.top address.value
    rw [record_hotCount] at hg
    have hids : ∀ i ∈ s.ids, (b.cell i).isSome := by
      intro i hi
      have hsome := hh.isSome_of_mem hi
      rw [hg.other_eq i, hsome]
      all_goals
        rintro rfl
        simp [hg.internal_fresh, hg.leaf_fresh] at hsome
    obtain ⟨t', b', hrelink, halong, hfam', hroot', hacc', hcells, -, -⟩ :=
      relink_addAlong_spec { t with arena := b } hacc (Tree.passed_nodup hnd)
        (fun i hi => hids i (hpass hi)) address.value internal 1
    have hperm := Tree.ids_insert_perm t.bitLength address.value internal leaf s
    refine ⟨{ t' with arena := b' }, some (s.insert t.bitLength address.value internal leaf), ?_,
      hfam', ⟨hacc', ?_, ?_, ?_, ?_, ?_⟩, fun x => Tree.mem_leaves_insert⟩
    · rw [← hroot] at hwalk
      simp only [addHotIp, checkFamily, hfam, if_true, hcontains, hroot0, if_false, hwalk, hsplit,
        hrelink, halong, bind, Except.bind, pure, Except.pure, Bool.false_eq_true]
    · show t'.root = _
      rw [hroot', Option.map_some, Option.getD_some, Tree.insert_eq_replace, Tree.id_replace]
      have hgid : ∀ r : Tree ℤ, (r.graft t.bitLength address.value internal leaf).id = internal := by
        intro r
        unfold Tree.graft
        split_ifs <;> rfl
      rw [hgid]
      split_ifs
      · rfl
      · exact hroot
    · rintro s' ⟨⟩
      show Tree.Shape t'.bitLength _
      rw [bitLength, hfam']
      exact hs.insert hv hnew
    · rintro s' ⟨⟩
      show Holds t'.bitLength b'.cell _
      rw [bitLength, hfam', hcells]
      exact hh.insert hs hv hnd hnew hg
    · refine hperm.nodup_iff.2 (List.nodup_cons.2 ⟨?_, List.nodup_cons.2 ⟨?_, hnd⟩⟩)
      · rintro (_ | ⟨_, hin⟩)
        · exact hg.internal_ne rfl
        · have := hh.isSome_of_mem hin
          rw [hg.internal_fresh] at this
          cases this
      · intro hin
        have := hh.isSome_of_mem hin
        rw [hg.leaf_fresh] at this
        cases this
    · intro i
      show (b'.cell i).isSome ↔ _
      rw [hcells, reroute_isSome, treeIds_some, hperm.mem_iff, List.mem_cons, List.mem_cons]
      by_cases hi : i = internal
      · simp [hi, hg.internal_eq]
      · by_cases hl : i = leaf
        · simp [hl, hg.leaf_eq]
        · simp only [hi, hl, false_or]
          show (b.cell i).isSome ↔ _
          rw [hg.other_eq i hi hl]
          exact h.live_iff i

/-! ## Removing an address -/

/-- The records rerouted along the walk to a leaf, without the leaf and the node above it, lay out the
tree without the leaf's number. -/
theorem Holds.erase {w v len network : ℕ} {cell cell' : ℤ → Option Cell} {parent leaf : ℤ}
    {sib : Tree ℤ} (h : Holds w cell s) (hs : s.Shape w) (hv : v < 2^w) (hnodup : s.ids.Nodup)
    (hr : s.reached w v (Tree.aboveLeaf w v) = (if bit w len v = 0
      then .node parent network len (.leaf leaf v) sib
      else .node parent network len sib (.leaf leaf v)))
    (hcell : ∀ i, i ≠ parent → i ≠ leaf → cell' i =
      reroute w v (-1) sib.id (s.passed w v (Tree.aboveLeaf w v)) cell i) :
    Holds w cell' (s.replace w v (Tree.aboveLeaf w v) (Tree.sibling w v)) := by
  have hids : (s.reached w v (Tree.aboveLeaf w v)).ids.Perm (parent :: leaf :: sib.ids) := by
    rw [hr]
    split_ifs with hb
    · exact List.Perm.refl _
    · exact List.Perm.cons _ List.perm_append_comm
  have hsib : Tree.sibling w v (s.reached w v (Tree.aboveLeaf w v)) = sib := by
    rw [hr]
    split_ifs with hb <;> simp [Tree.sibling, hb]
  -- The labels below the node removed are distinct, as all labels are.
  have hrnd : (parent :: leaf :: sib.ids).Nodup := by
    obtain ⟨others, h1, -⟩ := Tree.ids_perm_passed w v (Tree.aboveLeaf w v) s
    have := h1.nodup_iff.1 hnodup
    rw [List.append_assoc] at this
    exact hids.nodup_iff.1 (List.nodup_append.1 (List.nodup_append.1 this).2.1).1
  have hdelta : (-1 : ℤ) = ((0 : ℕ) : ℤ) - ((1 : ℕ) : ℤ) := by norm_num
  refine h.replace hs hv hnodup (fun i hi hir => ?_) ?_ ?_ hdelta
  · rw [hids.mem_iff, List.mem_cons, List.mem_cons, not_or, not_or] at hir
    rw [hsib, hcell i hir.1 hir.2.1]
  · rw [hsib]
    have hsub : Holds w cell sib := by
      have hhr : Holds w cell (s.reached w v (Tree.aboveLeaf w v)) := h.reached
      rw [hr] at hhr
      split_ifs at hhr
      · exact hhr.2.2
      · exact hhr.2.1
    refine hsub.congr (fun i hi => ?_)
    obtain ⟨hp, hrest⟩ := List.nodup_cons.1 hrnd
    have hnp : i ∉ s.passed w v (Tree.aboveLeaf w v) :=
      fun hpass => Tree.not_mem_reached hnodup hpass (hids.mem_iff.2 (by simp [hi]))
    rw [hcell i, reroute_of_not_mem hnp]
    · rintro rfl
      exact hp (List.mem_cons_of_mem _ hi)
    · rintro rfl
      exact (List.nodup_cons.1 hrest).1 hi
  · rw [hsib, hr]
    split_ifs
    · rw [Tree.count_node]
      simp [Tree.count, Tree.leaves, add_comm]
    · rw [Tree.count_node]
      simp [Tree.count, Tree.leaves]

/-- `remove_hot_ip` of an address that is HOT. -/
theorem Intact.removeHotIp_hot (h : Intact t o) {address : Address}
    (hfam : address.family = t.family) (hhot : address.value ∈ treeLeaves o) :
    ∃ t' o', t.removeHotIp address = .ok (true, t') ∧ t'.family = t.family ∧ Intact t' o' ∧
      ∀ x, x ∈ treeLeaves o' ↔ x ≠ address.value ∧ x ∈ treeLeaves o := by
  have hv : address.value < 2^t.bitLength := h.lt_of_mem hhot
  have hcontains := h.contains_eq hfam
  simp only [hhot, decide_true] at hcontains
  obtain _ | s := o
  · cases hhot
  have hs := h.shape s rfl
  have hh := h.holds s rfl
  have hnd : s.ids.Nodup := h.nodup
  have hfuel : s.ids.length ≤ t.arena.capacity + 1 := h.ids_length_le.trans (Nat.le_succ _)
  have hwalk := removeWalk_eq hs hh hv [] hfuel
  rw [List.append_nil, ← h.root_some.1] at hwalk
  by_cases hleaf : s.isLeaf = true
  · -- The only address: the trie becomes empty.
    obtain ⟨id, value⟩ | _ := s
    · obtain rfl := List.mem_singleton.1 hhot
      obtain ⟨b, hb, hacc, hcells, -⟩ := release_spec h.accounted hh.top
      refine ⟨{ t with arena := b, root := noNode }, none, ?_, rfl,
        ⟨hacc, rfl, by simp, by simp, List.nodup_nil, ?_⟩, ?_⟩
      · simp only [Tree.trail, List.reverse_singleton] at hwalk
        simp only [removeHotIp, checkFamily, hfam, if_true, hcontains, hwalk, collapse,
          Tree.id_leaf] at hb ⊢
        simp [hb, bind, Except.bind, pure, Except.pure]
      · intro i
        show (b.cell i).isSome ↔ _
        rw [hcells]
        by_cases hi : i = id
        · simp [hi]
        · rw [Tree.id_leaf, Function.update_of_ne hi, h.live_iff i]
          simp [hi, Tree.ids]
      · intro x
        simp [Tree.leaves]
    · cases hleaf
  · obtain ⟨parent, network, len, leaf, sib, hr, htrail⟩ :=
      hs.trail_eq hhot (Bool.eq_false_of_not_eq_true hleaf)
    have hhr : Holds t.bitLength t.arena.cell
        (s.reached t.bitLength address.value (Tree.aboveLeaf t.bitLength address.value)) :=
      hh.reached
    have hsr : (s.reached t.bitLength address.value
        (Tree.aboveLeaf t.bitLength address.value)).Shape t.bitLength := hs.reached
    have hpass := Tree.passed_subset t.bitLength address.value
      (Tree.aboveLeaf t.bitLength address.value) s
    have hperm := Tree.ids_perm_erase hr
    have hmem : parent ∈ s.ids ∧ leaf ∈ s.ids ∧ parent ≠ leaf := by
      obtain ⟨h1, -⟩ := List.nodup_cons.1 (hperm.nodup_iff.1 hnd)
      exact ⟨hperm.mem_iff.2 (by simp), hperm.mem_iff.2 (by simp),
        fun he => h1 (he ▸ List.mem_cons_self)⟩
    -- What the source reads of the parent: its length, and the child off the path.
    have hreads : t.arena.lengthAt parent = .ok len ∧
        t.arena.childAt parent (1 - bitAt address.value len t.bitLength) = .ok sib.id := by
      rw [hr] at hhr hsr
      split_ifs at hhr hsr with hb
      · have hbit : bitAt address.value len t.bitLength = 0 := by
          rw [bitAt_eq hsr.1, residue_natCast hv, hb]
        exact ⟨lengthAt_of_cell hhr.top, by rw [hbit]; exact childAt_of_cell hhr.top one_lt_two⟩
      · have hbit : bitAt address.value len t.bitLength = 1 := by
          have := bit_lt t.bitLength len address.value
          rw [bitAt_eq hsr.1, residue_natCast hv]
          omega
        exact ⟨lengthAt_of_cell hhr.top, by rw [hbit]; exact childAt_of_cell hhr.top two_pos⟩
    obtain ⟨t', b, hrelink, halong, hfam', hroot', hacc, hcells, -, -⟩ :=
      relink_addAlong_spec t h.accounted (Tree.passed_nodup hnd)
        (fun i hi => hh.isSome_of_mem (hpass hi)) address.value sib.id (-1)
    have hlive : ∀ i ∈ s.ids, (b.cell i).isSome := by
      intro i hi
      rw [hcells, reroute_isSome]
      exact hh.isSome_of_mem hi
    obtain ⟨c1, hc1⟩ := Option.isSome_iff_exists.1 (hlive leaf hmem.2.1)
    obtain ⟨b1, hb1, hacc1, hcells1, -⟩ := release_spec hacc hc1
    obtain ⟨c2, hc2⟩ := Option.isSome_iff_exists.1 (hlive parent hmem.1)
    rw [← Function.update_of_ne hmem.2.2 none b.cell, ← hcells1] at hc2
    obtain ⟨b2, hb2, hacc2, hcells2, -⟩ := release_spec hacc1 hc2
    have herase := hs.erase hhot
    rw [Tree.erase_eq_replace, if_neg hleaf] at herase
    obtain ⟨hs', hleaves, -⟩ := herase
    have hcell2 : ∀ i, i ≠ parent → i ≠ leaf → b2.cell i = b.cell i := by
      intro i h1 h2
      rw [hcells2, Function.update_of_ne h1, hcells1, Function.update_of_ne h2]
    refine ⟨{ t' with arena := b2 }, some (s.replace t.bitLength address.value
      (Tree.aboveLeaf t.bitLength address.value) (Tree.sibling t.bitLength address.value)), ?_,
      hfam', ⟨hacc2, ?_, ?_, ?_, ?_, ?_⟩, ?_⟩
    · rw [htrail, List.reverse_append, List.reverse_cons, List.reverse_singleton] at hwalk
      simp only [removeHotIp, checkFamily, hfam, if_true, hcontains, hwalk, List.cons_append,
        List.nil_append, collapse, hreads, bind, Except.bind]
      have hhead : ((s.passed t.bitLength address.value
          (Tree.aboveLeaf t.bitLength address.value)).reverse).headD noNode =
          (s.passed t.bitLength address.value
            (Tree.aboveLeaf t.bitLength address.value)).getLastD noNode := by
        simp
      simp only [hhead, hrelink, List.reverse_reverse, halong, hb1, hb2, pure, Except.pure]
    · show t'.root = _
      rw [hroot', Option.map_some, Option.getD_some, Tree.id_replace, hr]
      have hsib : (Tree.sibling t.bitLength address.value
          (if bit t.bitLength len address.value = 0
            then .node parent network len (.leaf leaf address.value) sib
            else .node parent network len sib (.leaf leaf address.value))) = sib := by
        split_ifs with hb <;> simp [Tree.sibling, hb]
      rw [hsib, h.root_some.1]
    · rintro s' ⟨⟩
      show Tree.Shape t'.bitLength _
      rw [bitLength, hfam']
      exact hs'
    · rintro s' ⟨⟩
      show Holds t'.bitLength b2.cell _
      rw [bitLength, hfam']
      refine hh.erase hs hv hnd hr (fun i h1 h2 => ?_)
      rw [hcell2 i h1 h2, hcells]
    · have := hperm.nodup_iff.1 hnd
      exact (List.nodup_cons.1 (List.nodup_cons.1 this).2).2
    · intro i
      have hnodup := hperm.nodup_iff.1 hnd
      obtain ⟨h1, h2⟩ := List.nodup_cons.1 hnodup
      obtain ⟨h3, -⟩ := List.nodup_cons.1 h2
      show (b2.cell i).isSome ↔ i ∈ Tree.ids _
      by_cases hi : i = parent
      · subst hi
        rw [hcells2, Function.update_self]
        simpa using fun hin => h1 (List.mem_cons_of_mem _ hin)
      · by_cases hl : i = leaf
        · subst hl
          rw [hcells2, Function.update_of_ne hi, hcells1, Function.update_self]
          simpa using h3
        · rw [hcell2 i hi hl, hcells, reroute_isSome, h.live_iff i, treeIds_some, hperm.mem_iff]
          simp [hi, hl]
    · intro x
      have hnodup : (address.value :: Tree.leaves _).Nodup :=
        hleaves.nodup_iff.1 (hs.leaves_sorted.imp fun hlt => hlt.ne)
      show x ∈ Tree.leaves _ ↔ x ≠ address.value ∧ x ∈ s.leaves
      rw [hleaves.mem_iff, List.mem_cons]
      constructor
      · intro hx
        exact ⟨fun he => (List.nodup_cons.1 hnodup).1 (he ▸ hx), .inr hx⟩
      · rintro ⟨hne, hx | hx⟩
        · exact absurd hx hne
        · exact hx

end Intact

end Hammertime.Trie
