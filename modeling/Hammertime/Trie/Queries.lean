import Hammertime.Trie.HotSet
import Hammertime.Trie.Update

/-!
# The queries of the Patricia trie

Each query of an intact Patricia trie, as a function of the ascending numbers that its tree holds. A
prefix may end inside a compressed edge, or leave it: the counts are those of the numbers all the
same. The traversals go through the visits of `_dfs` in order; `visits_mapM` collects what a
traversal yields for each node into one list over the tree.
-/

namespace Hammertime.Trie

open Bits NodeArena PatriciaTrie

section MapM

variable {α β : Type*}

/-- A traversal whose every element succeeds returns all results in order. -/
theorem mapM_ok {f : α → Except TrieError β} {g : α → β} (l : List α)
    (h : ∀ x ∈ l, f x = .ok (g x)) : l.mapM f = .ok (l.map g) := by
  induction l with
  | nil => rfl
  | cons x l ih =>
    rw [List.mapM_cons, h x List.mem_cons_self, ih fun y hy => h y (List.mem_cons_of_mem _ hy)]
    rfl

theorem mapM_append_ok {f : α → Except TrieError β} {l k : List α} {r s : List β}
    (hl : l.mapM f = .ok r) (hk : k.mapM f = .ok s) : (l ++ k).mapM f = .ok (r ++ s) := by
  rw [List.mapM_append, hl, hk]
  rfl

end MapM

/-- What a traversal yields over a tree, given what it yields at each node. -/
def collect {β : Type*} (g : ℤ → Tree ℤ → List β) (parentLength : ℤ) : Tree ℤ → List β
  | .leaf id value => g parentLength (.leaf id value)
  | .node id network len left right =>
    g parentLength (.node id network len left right) ++ (collect g len left ++ collect g len right)

section Traversals

variable {w : ℕ} {a : NodeArena} {β : Type*}

theorem visits_mapM {cell : ℤ → Option Cell} {f : ℤ × ℤ → Except TrieError (List β)}
    {g : ℤ → Tree ℤ → List β}
    (hf : ∀ (t : Tree ℤ) (parentLength : ℤ), t.Shape w → Holds w cell t →
      parentLength < t.length w → f (t.id, parentLength) = .ok (g parentLength t))
    {t : Tree ℤ} (hs : t.Shape w) (h : Holds w cell t) (parentLength : ℤ)
    (hlen : parentLength < t.length w) :
    ∃ ls, (visits parentLength t).mapM f = .ok ls ∧ ls.flatten = collect g parentLength t := by
  induction t generalizing parentLength with
  | leaf id value =>
    refine ⟨[g parentLength (.leaf id value)], ?_, by simp [collect]⟩
    have := hf _ _ hs h hlen
    simp only [Tree.id_leaf] at this
    simp [visits, this, bind, Except.bind, pure, Except.pure]
  | node id net len left right ihl ihr =>
    have hnode := hf _ _ hs h hlen
    obtain ⟨-, -, -, hll, hlr, -, -, hsl, hsr⟩ := hs
    obtain ⟨ls, hls, hlf⟩ := ihl hsl h.2.1 len (by exact_mod_cast hll)
    obtain ⟨rs, hrs, hrf⟩ := ihr hsr h.2.2 len (by exact_mod_cast hlr)
    refine ⟨g parentLength (.node id net len left right) :: (ls ++ rs), ?_, ?_⟩
    · simp only [Tree.id_node] at hnode
      simp only [visits, List.mapM_cons, hnode, mapM_append_ok hls hrs]
      rfl
    · simp [collect, hlf, hrf]

end Traversals

section Queries

variable {t : PatriciaTrie} {o : Option (Tree ℤ)}

/-- `hot_ip_count`. -/
theorem Intact.hotIpCount_eq (h : Intact t o) : t.hotIpCount = .ok (treeLeaves o).length := by
  unfold hotIpCount
  cases o with
  | none =>
    have : t.root = noNode := h.root_eq
    simp [this]
  | some s =>
    obtain ⟨hroot, hroot0⟩ := h.root_some
    rw [if_neg hroot0, hroot, hotCountAt_of_cell (h.holds s rfl).top, record_hotCount]
    rfl

/-- `hot_count`, for a prefix of the trie's family with any network. -/
theorem Intact.hotCount_eq (h : Intact t o) {p : Prefix} (hp : p.family = t.family) :
    t.hotCount p = .ok (countUnder t.bitLength (treeLeaves o) p.length
      (residue t.bitLength p.network) : ℕ) := by
  have hlen : p.length ≤ t.bitLength := by
    unfold bitLength
    rw [← hp]
    exact p.length_le
  simp only [PatriciaTrie.hotCount, checkFamily, hp, if_true, h.countAt_eq p.network hlen, bind, Except.bind]
  rfl

/-- `_counts_along`. -/
theorem Intact.countsAlong_eq (h : Intact t o) {v : ℕ} (hv : v < 2^t.bitLength) :
    t.countsAlong v = .ok ((List.range (t.bitLength + 1)).map fun l =>
      ((countUnder t.bitLength (treeLeaves o) l v : ℕ) : ℤ)) := by
  have hzero : List.replicate (t.bitLength + 1) (0 : ℤ) =
      (List.range (t.bitLength + 1)).map fun _ => (0 : ℤ) := by
    simp [List.map_const']
  unfold countsAlong
  rw [hzero]
  cases o with
  | none =>
    have hroot : t.root = noNode := h.root_eq
    simp [countsAlongLoop, hroot, countUnder]
  | some s =>
    rw [h.root_some.1, countsAlongLoop_eq (h.shape s rfl) (h.holds s rfl) hv (fun _ => 0) (-1)
      (by omega) (fun _ _ _ => rfl) (h.ids_length_le.trans (Nat.le_succ _))]
    refine congrArg Except.ok (List.map_congr_left fun l _ => ?_)
    rw [if_pos (by omega)]
    rfl

theorem countOf_range {n : ℕ} (f : ℕ → ℤ) {l : ℕ} (hl : l ≤ n) :
    countOf ((List.range (n + 1)).map f) l = .ok (f l) := by
  have hlt : l < n + 1 := Nat.lt_succ_of_le hl
  simp [countOf, readAt, IntIndex.get?, hlt]

theorem make?_cleared (family : AddressFamily) (v : ℕ) {l : ℕ} (hl : l ≤ family.bitLength) :
    Prefix.make? family (cleared family.bitLength l v : ℕ) l = some (prefixAt family v l) := by
  have hmod : ((cleared family.bitLength l v : ℕ) : ℤ) % 2^(family.bitLength - l) = 0 := by
    exact_mod_cast cleared_mod family.bitLength l v
  unfold Prefix.make?
  rw [dif_pos ⟨hl, hmod⟩]
  refine congrArg some (Prefix.ext rfl ?_ ?_)
  · simp [prefixAt, min_eq_left hl]
  · simp [prefixAt, min_eq_left hl]

theorem prefixOf_eq (t : PatriciaTrie) (v : ℕ) {l : ℕ} (hl : l ≤ t.bitLength) :
    t.prefixOf v l = .ok (prefixAt t.family v l) := by
  simp only [prefixOf, clearHostBits_natCast, bitLength]
  rw [make?_cleared t.family v hl]

theorem checkMinLength_ok (t : PatriciaTrie) {m : ℕ} (hm : m ≤ t.bitLength) :
    t.checkMinLength m = .ok m := by
  simp [checkMinLength, hm]

theorem Intact.value_lt {address : Address} (hfam : address.family = t.family) :
    address.value < 2^t.bitLength := by
  unfold bitLength
  rw [← hfam]
  exact address.inRange

/-- `ancestor_counts`. -/
theorem Intact.ancestorCounts_eq (h : Intact t o) {address : Address}
    (hfam : address.family = t.family) {m : ℕ} (hm : m ≤ t.bitLength) :
    t.ancestorCounts address m = .ok (ancestorsOf t.family (treeLeaves o) address.value m) := by
  simp only [ancestorCounts, checkFamily, hfam, if_true, checkMinLength_ok t hm,
    h.countsAlong_eq (Intact.value_lt hfam), bind, Except.bind]
  refine mapM_ok _ (fun l hl => ?_)
  have hlw : l ≤ t.bitLength := by
    have := List.mem_range'_1.1 hl
    omega
  simp only [prefixOf_eq t _ hlw, countOf_range _ hlw]
  rfl

/-- The loop of `longest_matching_prefix` stops at the longest length with a positive count. -/
theorem longestLoop_eq (t : PatriciaTrie) (v : ℕ) (c : ℕ → ℕ) {l : ℕ} (hl : l ≤ t.bitLength) :
    t.longestLoop v ((List.range (t.bitLength + 1)).map fun l => ((c l : ℕ) : ℤ)) l =
      .ok (if ∃ k ≤ l, 0 < c k then
        some (prefixAt t.family v (Nat.findGreatest (fun k => 0 < c k) l)) else none) := by
  induction l with
  | zero =>
    simp only [longestLoop, countOf_range _ hl, bind, Except.bind, prefixOf_eq t v hl]
    by_cases h0 : 0 < c 0
    · simp [h0, pure, Except.pure]
    · simp [h0, pure, Except.pure]
  | succ l ih =>
    simp only [longestLoop, countOf_range _ hl, bind, Except.bind, prefixOf_eq t v hl]
    by_cases h0 : 0 < c (l + 1)
    · have hex : ∃ k ≤ l + 1, 0 < c k := ⟨l + 1, le_rfl, h0⟩
      have hg := Nat.findGreatest_eq (P := fun k => 0 < c k) h0
      rw [if_pos hex, hg, if_pos (by exact_mod_cast h0)]
      rfl
    · have hex : (∃ k ≤ l + 1, 0 < c k) ↔ ∃ k ≤ l, 0 < c k := by
        constructor
        · rintro ⟨k, hk, hck⟩
          have : k ≠ l + 1 := by
            rintro rfl
            exact h0 hck
          exact ⟨k, by omega, hck⟩
        · rintro ⟨k, hk, hck⟩
          exact ⟨k, by omega, hck⟩
      have hg := Nat.findGreatest_of_not (P := fun k => 0 < c k) h0
      rw [if_neg (by exact_mod_cast h0), ih (by omega), hg]
      simp only [hex]

/-- `longest_matching_prefix`. -/
theorem Intact.longestMatchingPrefix_eq (h : Intact t o) {address : Address}
    (hfam : address.family = t.family) :
    t.longestMatchingPrefix address = .ok (longestOf t.family (treeLeaves o) address.value) := by
  simp only [longestMatchingPrefix, checkFamily, hfam, if_true,
    h.countsAlong_eq (Intact.value_lt hfam), bind, Except.bind, longestLoop_eq t _ _ le_rfl]
  have hiff := countUnder_pos_iff (fun v hv => h.lt_of_mem hv) (Intact.value_lt hfam)
  unfold longestOf
  simp only [hiff, ite_not]
  rfl

/-- The prefixes of the edge into one node, as `iter_prefix_counts` yields them. -/
def edgeYield (family : AddressFamily) (m : ℕ) (parentLength : ℤ) (s : Tree ℤ) : List PrefixCount :=
  let first := (max (parentLength + 1) m).toNat
  (List.range' first (s.length family.bitLength + 1 - first)).map fun l =>
    ⟨prefixAt family s.network l, s.count⟩

theorem edgePrefixCounts_eq (m : ℕ) {s : Tree ℤ} (hs : s.Shape t.bitLength)
    (h : Holds t.bitLength t.arena.cell s) (parentLength : ℤ) :
    t.edgePrefixCounts m (s.id, parentLength) = .ok (edgeYield t.family m parentLength s) := by
  have hpos : ¬ ((s.count : ℕ) : ℤ) ≤ 0 := by
    have := s.count_pos
    omega
  simp only [edgePrefixCounts, hotCountAt_of_cell h.top, networkAt_of_cell h.top,
    lengthAt_of_cell h.top, record_hotCount, record_network, record_length, if_neg hpos, bind,
    Except.bind]
  refine mapM_ok _ (fun l hl => ?_)
  have hlw : l ≤ t.bitLength := by
    have := List.mem_range'_1.1 hl
    have := hs.length_le
    omega
  rw [prefixOf_eq t s.network hlw]
  rfl

/-- What the traversal yields is the tree's list of prefixes. -/
theorem collect_edgeYield (family : AddressFamily) (m first : ℕ) {s : Tree ℤ}
    (hs : s.Shape family.bitLength) :
    collect (edgeYield family m) ((first : ℤ) - 1) s =
      (s.prefixes family.bitLength m first).map fun p => ⟨prefixAt family p.1 p.2.1, p.2.2⟩ := by
  have hedge : ∀ (s : Tree ℤ) (first : ℕ), s.Shape family.bitLength →
      edgeYield family m ((first : ℤ) - 1) s =
        (s.edge family.bitLength (max first m)).map fun p => ⟨prefixAt family p.1 p.2.1, p.2.2⟩ := by
    intro s first hs
    have hfirst : (max ((first : ℤ) - 1 + 1) m).toNat = max first m := by omega
    simp only [edgeYield, hfirst, Tree.edge, List.map_map]
    refine List.map_congr_left fun l hl => ?_
    have hlw : l ≤ family.bitLength := by
      have := List.mem_range'_1.1 hl
      have := hs.length_le
      omega
    simp [prefixAt_cleared family s.network hlw]
  induction s generalizing first with
  | leaf id value => exact hedge _ _ hs
  | node id net len left right ihl ihr =>
    have hl := ihl (len + 1) hs.2.2.2.2.2.2.2.1
    have hr := ihr (len + 1) hs.2.2.2.2.2.2.2.2
    have hcast : ((len + 1 : ℕ) : ℤ) - 1 = len := by
      push_cast
      ring
    rw [hcast] at hl hr
    simp only [collect, Tree.prefixes, List.map_append, hl, hr, hedge _ first hs]

/-- The tree's list of prefixes is the listing of its numbers. -/
theorem isPrefixListing_prefixes (family : AddressFamily) (m : ℕ) {s : Tree ℤ}
    (hs : s.Shape family.bitLength) :
    IsPrefixListing family s.leaves m ((s.prefixes family.bitLength m 0).map fun p =>
      ⟨prefixAt family p.1 p.2.1, p.2.2⟩) := by
  constructor
  · rw [List.pairwise_map]
    refine (hs.prefixes_sorted (Nat.zero_le _)).imp_of_mem ?_
    rintro ⟨n1, l1, c1⟩ ⟨n2, l2, c2⟩ hp hq hbefore
    obtain ⟨-, h1, v1, -, rfl, -⟩ := (hs.mem_prefixes (Nat.zero_le _)).1 hp
    obtain ⟨-, h2, v2, -, rfl, -⟩ := (hs.mem_prefixes (Nat.zero_le _)).1 hq
    simp only [PrefixCount.Before, prefixAt_cleared family _ h1, prefixAt_cleared family _ h2]
    simp only [prefixAt, min_eq_left h1, min_eq_left h2, Nat.cast_lt, Nat.cast_inj]
    exact hbefore
  · intro p
    rw [List.mem_map]
    constructor
    · rintro ⟨⟨n, l, c⟩, hin, rfl⟩
      obtain ⟨h1, h2, v, hv, rfl, rfl⟩ := (hs.mem_prefixes (Nat.zero_le _)).1 hin
      refine ⟨l, v, (le_max_right _ _).trans h1, h2, hv, ?_⟩
      simp only [prefixAt_cleared family v h2]
      rfl
    · rintro ⟨l, v, h1, h2, hv, rfl⟩
      refine ⟨(cleared family.bitLength l v, l, s.under family.bitLength l v), ?_, ?_⟩
      · exact (hs.mem_prefixes (Nat.zero_le _)).2 ⟨by omega, h2, v, hv, rfl, rfl⟩
      · simp only [prefixAt_cleared family v h2]
        rfl

/-- `_dfs` visits the tree. -/
theorem Intact.dfs_eq (h : Intact t o) : t.dfs = .ok (o.elim [] (visits (-1))) := by
  unfold dfs
  cases o with
  | none =>
    have : t.root = noNode := h.root_eq
    simp [this]
  | some s =>
    obtain ⟨hroot, hroot0⟩ := h.root_some
    rw [if_neg hroot0, hroot]
    have hfuel : ([(s, (-1 : ℤ))].map fun p => p.1.ids.length).sum ≤ 2^(t.arena.capacity + 1) := by
      have h1 := h.ids_length_le
      have h2 := Nat.lt_two_pow_self (n := t.arena.capacity + 1)
      simp only [List.map_cons, List.map_nil, List.sum_cons, List.sum_nil]
      omega
    have := dfsLoop_eq [(s, -1)] (by simpa using h.holds s rfl) hfuel
    simpa using this

/-- `iter_prefix_counts`. -/
theorem Intact.iterPrefixCounts_spec (h : Intact t o) {m : ℕ} (hm : m ≤ t.bitLength) :
    ∃ ps, t.iterPrefixCounts m = .ok ps ∧ IsPrefixListing t.family (treeLeaves o) m ps := by
  cases o with
  | none =>
    refine ⟨[], ?_, List.Pairwise.nil, by simp⟩
    simp [iterPrefixCounts, checkMinLength_ok t hm, h.dfs_eq, bind, Except.bind, pure, Except.pure]
  | some s =>
    have hs := h.shape s rfl
    obtain ⟨ls, hls, hflat⟩ := visits_mapM (f := t.edgePrefixCounts m)
      (g := edgeYield t.family m) (fun s pl hs hh _ => edgePrefixCounts_eq m hs hh pl) hs
      (h.holds s rfl) (-1) (by omega)
    have hcollect := collect_edgeYield t.family m 0 hs
    have hzero : ((0 : ℕ) : ℤ) - 1 = -1 := by norm_num
    rw [hzero] at hcollect
    refine ⟨ls.flatten, ?_, ?_⟩
    · simp [iterPrefixCounts, checkMinLength_ok t hm, h.dfs_eq, hls, bind, Except.bind, pure,
        Except.pure]
    · rw [hflat, hcollect]
      exact isPrefixListing_prefixes t.family m hs

/-- The address that `iter_hot_addresses` yields at one node. -/
def addressYield (family : AddressFamily) (_ : ℤ) : Tree ℤ → List Address
  | .leaf _ value => (Address.make? family value).toList
  | .node _ _ _ _ _ => []

theorem visitAddress_eq {s : Tree ℤ} (hs : s.Shape t.bitLength)
    (h : Holds t.bitLength t.arena.cell s) (parentLength : ℤ) :
    t.visitAddress (s.id, parentLength) = .ok (addressYield t.family parentLength s) := by
  cases s with
  | leaf id value =>
    have hv : value < 2^t.family.bitLength := hs
    simp only [visitAddress, lengthAt_of_cell h.top, networkAt_of_cell h.top, record_length,
      record_network, Tree.length_leaf, Tree.network_leaf, if_true, bind, Except.bind,
      addressYield, Address.make?]
    simp [hv, pure, Except.pure]
  | node id net len left right =>
    have hne : len ≠ t.bitLength := hs.1.ne
    simp only [visitAddress, lengthAt_of_cell h.top, record_length, Tree.length_node, if_neg hne,
      bind, Except.bind, addressYield, pure, Except.pure]

theorem collect_addressYield (family : AddressFamily) (parentLength : ℤ) {s : Tree ℤ}
    (hs : s.Shape family.bitLength) :
    (collect (addressYield family) parentLength s).map Address.value = s.leaves ∧
      ∀ a ∈ collect (addressYield family) parentLength s, a.family = family := by
  induction s generalizing parentLength with
  | leaf id value =>
    have hv : value < 2^family.bitLength := hs
    simp [collect, addressYield, Address.make?, hv, Tree.leaves]
  | node id net len left right ihl ihr =>
    obtain ⟨h1, h2⟩ := ihl len hs.2.2.2.2.2.2.2.1
    obtain ⟨h3, h4⟩ := ihr len hs.2.2.2.2.2.2.2.2
    refine ⟨?_, ?_⟩
    · simp [collect, addressYield, h1, h3, Tree.leaves]
    · intro a ha
      simp only [collect, addressYield, List.nil_append] at ha
      rcases List.mem_append.1 ha with ha | ha
      · exact h2 a ha
      · exact h4 a ha

/-- `iter_hot_addresses`. -/
theorem Intact.iterHotAddresses_spec (h : Intact t o) :
    ∃ as : List Address, t.iterHotAddresses = .ok as ∧ as.map Address.value = treeLeaves o ∧
      ∀ a ∈ as, a.family = t.family := by
  cases o with
  | none =>
    exact ⟨[], by simp [iterHotAddresses, h.dfs_eq, bind, Except.bind, pure, Except.pure], rfl,
      by simp⟩
  | some s =>
    have hs := h.shape s rfl
    obtain ⟨ls, hls, hflat⟩ := visits_mapM (f := t.visitAddress) (g := addressYield t.family)
      (fun s pl hs hh _ => visitAddress_eq hs hh pl) hs (h.holds s rfl) (-1) (by omega)
    refine ⟨ls.flatten, ?_, ?_⟩
    · simp [iterHotAddresses, h.dfs_eq, hls, bind, Except.bind, pure, Except.pure]
    · rw [hflat]
      exact collect_addressYield t.family (-1) hs

theorem nodePrefix_eq {s : Tree ℤ} (hs : s.Shape t.bitLength)
    (h : Holds t.bitLength t.arena.cell s) :
    t.nodePrefix s.id = .ok (prefixAt t.family s.network (s.length t.bitLength)) := by
  have hmake := make?_cleared t.family s.network hs.length_le
  have hclear : cleared t.family.bitLength (s.length t.bitLength) s.network = s.network :=
    hs.cleared_network
  rw [hclear] at hmake
  simp only [nodePrefix, networkAt_of_cell h.top, lengthAt_of_cell h.top, record_network,
    record_length, hmake, bind, Except.bind]
  rfl

/-- The view of the node at the top of a tree. -/
def topView {ι : Type*} (family : AddressFamily) (s : Tree ι) : NodeView where
  pfx := prefixAt family s.network (s.length family.bitLength)
  hotCount := s.count
  children :=
    match s with
    | .leaf _ _ => []
    | .node _ _ _ left right =>
      [left, right].map fun s => prefixAt family s.network (s.length family.bitLength)

/-- The views of the nodes, a node before those below it. -/
def views {ι : Type*} (family : AddressFamily) : Tree ι → List NodeView
  | .leaf id value => [topView family (.leaf id value)]
  | .node id network len left right =>
    topView family (.node id network len left right) ::
      (views family left ++ views family right)

theorem nodeView_eq {s : Tree ℤ} (hs : s.Shape t.bitLength)
    (h : Holds t.bitLength t.arena.cell s) : t.nodeView s.id = .ok (topView t.family s) := by
  have hid := nodePrefix_eq hs h
  have hleft := childAt_of_cell h.top two_pos
  have hright := childAt_of_cell h.top one_lt_two
  cases s with
  | leaf id value =>
    simp only [record, Cell.child] at hleft hright
    simp only [nodeView, hleft, hright, hid, hotCountAt_of_cell h.top, bind, Except.bind,
      record_hotCount]
    rfl
  | node id net len left right =>
    have hl := nodePrefix_eq hs.2.2.2.2.2.2.2.1 h.2.1
    have hr := nodePrefix_eq hs.2.2.2.2.2.2.2.2 h.2.2
    have hkeep : [left.id, right.id].filter (· ≠ noNode) = [left.id, right.id] := by
      simp [h.2.1.id_ne, h.2.2.id_ne]
    simp only [record, Cell.child, if_true, one_ne_zero, if_false] at hleft hright
    simp only [nodeView, hleft, hright, hkeep, List.mapM_cons, List.mapM_nil, hl, hr, hid,
      hotCountAt_of_cell h.top, bind, Except.bind, pure, Except.pure, record_hotCount]
    rfl

theorem visits_nodeViews {s : Tree ℤ} (hs : s.Shape t.bitLength)
    (h : Holds t.bitLength t.arena.cell s) (parentLength : ℤ) :
    (visits parentLength s).mapM (fun visit => t.nodeView visit.1) = .ok (views t.family s) := by
  induction s generalizing parentLength with
  | leaf id value =>
    have hview := nodeView_eq hs h
    rw [Tree.id_leaf] at hview
    rw [visits, List.mapM_cons, hview]
    rfl
  | node id net len left right ihl ihr =>
    have hview := nodeView_eq hs h
    rw [Tree.id_node] at hview
    have hl := ihl hs.2.2.2.2.2.2.2.1 h.2.1 len
    have hr := ihr hs.2.2.2.2.2.2.2.2 h.2.2 len
    rw [visits, List.mapM_cons, hview, mapM_append_ok hl hr]
    rfl

/-- `iter_nodes`. -/
theorem Intact.iterNodes_eq (h : Intact t o) :
    t.iterNodes = .ok (o.elim [] (views t.family)) := by
  unfold iterNodes
  rw [h.dfs_eq]
  cases o with
  | none => rfl
  | some s => exact visits_nodeViews (h.shape s rfl) (h.holds s rfl) (-1)

end Queries

end Hammertime.Trie
