import Hammertime.Trie.Soundness

/-!
# The counts along a path

`_counts_along` fills the counts of all prefixes of an address in one walk, and `_count_at` answers for
one prefix. On every trie that `check_patricia` passes both walks end, and they agree at every length:
on a length that the edge above a node covers both give the node's count, and past the point where the
address leaves the tree both give 0.

A prefix is headed by the topmost node that lies under it. The subtree of that node holds all that the
tree has under the prefix.
-/

namespace Hammertime

open Bits

/-! ## The subtree that heads a prefix -/

namespace Tree

variable {ι : Type*} {w l x len network : ℕ} {id : ι} {t r s left right : Tree ι}

/-- The subtrees, the tree itself first. -/
def subtrees : Tree ι → List (Tree ι)
  | leaf id value => [leaf id value]
  | node id network len left right =>
    node id network len left right :: (left.subtrees ++ right.subtrees)

theorem self_mem_subtrees (t : Tree ι) : t ∈ t.subtrees := by
  cases t <;> exact List.mem_cons_self

/-- The labels are those at the tops of the subtrees. -/
theorem map_id_subtrees (t : Tree ι) : t.subtrees.map Tree.id = t.ids := by
  induction t with
  | leaf id value => rfl
  | node id network len left right ihl ihr =>
    rw [subtrees, List.map_cons, List.map_append, ihl, ihr]
    rfl

/-- The bits at the top of a subtree go on from those at the top of the tree. -/
theorem Shape.of_mem_subtrees (h : t.Shape w) (hr : r ∈ t.subtrees) :
    r.Shape w ∧ t.length w ≤ r.length w ∧
      top w (t.length w) r.network = top w (t.length w) t.network := by
  induction t with
  | leaf id value =>
    obtain rfl := List.mem_singleton.mp hr
    exact ⟨h, le_rfl, rfl⟩
  | node id network len left right ihl ihr =>
    rcases List.mem_cons.mp hr with rfl | hr
    · exact ⟨h, le_rfl, rfl⟩
    · obtain ⟨hlt, -, -, hll, hlr, htl, htr, hsl, hsr⟩ := h
      have hbit := top_succ_bit hlt r.network
      have hb := bit_lt w len r.network
      rcases List.mem_append.mp hr with hr | hr
      · obtain ⟨hshape, hlen, htop⟩ := ihl hsl hr
        have := top_eq_of_le (k := len + 1) hll hsl.length_le htop
        exact ⟨hshape, hll.le.trans hlen, by simp only [length_node, network_node]; omega⟩
      · obtain ⟨hshape, hlen, htop⟩ := ihr hsr hr
        have := top_eq_of_le (k := len + 1) hlr hsr.length_le htop
        exact ⟨hshape, hlr.le.trans hlen, by simp only [length_node, network_node]; omega⟩

/-- The bits at the top of the tree begin with the first `l` bits of `x`. -/
def LiesUnder (w l x : ℕ) (r : Tree ι) : Prop := l ≤ r.length w ∧ top w l r.network = top w l x

/-- The topmost subtree that lies under the first `l` bits of `x`. -/
structure Heads (w l x : ℕ) (t r : Tree ι) : Prop where
  mem : r ∈ t.subtrees
  under : r.LiesUnder w l x
  topmost : ∀ r' ∈ t.subtrees, r'.LiesUnder w l x → r.length w ≤ r'.length w

/-- What the tree has under the first `l` bits of `x`: the subtree that heads them, or nothing. -/
def HeadedBy (w l x : ℕ) (t : Tree ι) : Prop :=
  (∃ r, t.Heads w l x r ∧ t.under w l x = r.count) ∨
    (∀ r ∈ t.subtrees, ¬ r.LiesUnder w l x) ∧ t.under w l x = 0

/-- Bits that part from those at the top head no subtree. -/
theorem Shape.headedBy_of_parted (h : t.Shape w) (hl : l ≤ w)
    (hne : top w (min (t.length w) l) t.network ≠ top w (min (t.length w) l) x) :
    t.HeadedBy w l x := by
  refine .inr ⟨fun r hr hunder => hne ?_, h.under_of_parted hl hne⟩
  obtain ⟨hshape, hlen, htop⟩ := h.of_mem_subtrees hr
  rw [← top_eq_of_le (min_le_left _ _) h.length_le htop]
  exact top_eq_of_le (min_le_right _ _) hl hunder.2

/-- Bits that the top carries are headed by the whole tree. -/
theorem Shape.headedBy_of_le (h : t.Shape w) (hl : l ≤ t.length w) : t.HeadedBy w l x := by
  by_cases hx : top w l t.network = top w l x
  · exact .inl ⟨t, ⟨t.self_mem_subtrees, ⟨hl, hx⟩, fun r hr _ => (h.of_mem_subtrees hr).2.1⟩,
      h.under_of_le hl hx⟩
  · refine h.headedBy_of_parted (hl.trans h.length_le) ?_
    rw [min_eq_right hl]
    exact hx

/-- What heads the bits in the only child that has anything under them heads them in the node. -/
theorem HeadedBy.lift (h : t.HeadedBy w l x) (hcount : s.under w l x = t.under w l x)
    (hsub : ∀ r ∈ t.subtrees, r ∈ s.subtrees)
    (honly : ∀ r ∈ s.subtrees, r.LiesUnder w l x → r ∈ t.subtrees) : s.HeadedBy w l x := by
  rcases h with ⟨r, hheads, hunder⟩ | ⟨hnone, hzero⟩
  · exact .inl ⟨r, ⟨hsub r hheads.mem, hheads.under, fun r' hr' hunder' =>
      hheads.topmost r' (honly r' hr' hunder') hunder'⟩, hcount.trans hunder⟩
  · exact .inr ⟨fun r hr hunder => hnone r (honly r hr hunder) hunder, hcount.trans hzero⟩

/-- Every prefix is headed by a subtree, or has nothing below it. -/
theorem Shape.headedBy (h : t.Shape w) (hl : l ≤ w) (x : ℕ) : t.HeadedBy w l x := by
  induction t with
  | leaf id value => exact h.headedBy_of_le hl
  | node id network len left right ihl ihr =>
    by_cases hlen : l ≤ len
    · exact h.headedBy_of_le hlen
    · have hlen : len < l := not_le.mp hlen
      by_cases hx : top w len network = top w len x
      · -- The prefix goes on below the child that its next bit names.
        have hchild := h.under_child hlen hl hx
        have hbit := top_succ_bit h.1 x
        obtain ⟨-, -, -, hll, hlr, htl, htr, hsl, hsr⟩ := h
        by_cases hb : bit w len x = 0
        · rw [if_pos hb] at hchild
          refine (ihl hsl).lift hchild
            (fun r hr => List.mem_cons_of_mem _ (List.mem_append_left _ hr)) fun r hr hunder => ?_
          rcases List.mem_cons.mp hr with rfl | hr
          · exact absurd hunder.1 (not_le.mpr hlen)
          · refine (List.mem_append.mp hr).resolve_right fun hr => ?_
            have htop := top_eq_of_le (k := len + 1) hlr hsr.length_le (hsr.of_mem_subtrees hr).2.2
            have hr := top_eq_of_le (k := len + 1) hlen hl hunder.2
            omega
        · rw [if_neg hb] at hchild
          refine (ihr hsr).lift hchild
            (fun r hr => List.mem_cons_of_mem _ (List.mem_append_right _ hr)) fun r hr hunder => ?_
          rcases List.mem_cons.mp hr with rfl | hr
          · exact absurd hunder.1 (not_le.mpr hlen)
          · refine (List.mem_append.mp hr).resolve_left fun hr => ?_
            have htop := top_eq_of_le (k := len + 1) hll hsl.length_le (hsl.of_mem_subtrees hr).2.2
            have hr := top_eq_of_le (k := len + 1) hlen hl hunder.2
            omega
      · refine h.headedBy_of_parted hl ?_
        rw [Tree.length_node, min_eq_left hlen.le]
        exact hx

end Tree

/-! ## The two walks -/

namespace Trie

open NodeArena PatriciaTrie

/-- The record's prefix begins with the first `l` bits of `value`. -/
def Cell.LiesUnder (w l value : ℕ) (c : Cell) : Prop :=
  l ≤ c.length ∧ l ≤ commonPrefixLength c.network value w

/-- The record of the topmost node reached whose prefix begins with the first `l` bits of `value`: the
edge above that node covers the length `l`, or the node ends it. -/
structure Heads (t : PatriciaTrie) (l value : ℕ) (c : Cell) : Prop where
  reached : ∃ i, Reaches t i ∧ t.arena.cell i = some c
  under : c.LiesUnder t.bitLength l value
  topmost : ∀ i c', Reaches t i → t.arena.cell i = some c' → c'.LiesUnder t.bitLength l value →
    c.length ≤ c'.length

section

variable {t : PatriciaTrie} {o : Option (Tree ℤ)} {w l value : ℕ} {s r : Tree ℤ}

theorem record_liesUnder (hs : r.Shape w) (hl : l ≤ w) (hv : value < 2^w) :
    (record w r).LiesUnder w l value ↔ r.LiesUnder w l value := by
  unfold Cell.LiesUnder Tree.LiesUnder
  rw [record_length, record_network, commonPrefixLength_eq, hs.residue_network, residue_natCast hv,
    le_shared_iff hs.network_lt hv hl]

/-- A subtree is laid out as part of the tree. -/
theorem Holds.of_mem_subtrees {cell : ℤ → Option Cell} (h : Holds w cell s) (hr : r ∈ s.subtrees) :
    Holds w cell r := by
  induction s with
  | leaf id value =>
    obtain rfl := List.mem_singleton.mp hr
    exact h
  | node id network len left right ihl ihr =>
    rcases List.mem_cons.mp hr with rfl | hr
    · exact h
    · rcases List.mem_append.mp hr with hr | hr
      · exact ihl h.2.1 hr
      · exact ihr h.2.2 hr

/-- The records reached are those of the subtrees. -/
theorem Intact.reached_iff (h : Intact t (some s)) (c : Cell) :
    (∃ i, Reaches t i ∧ t.arena.cell i = some c) ↔ ∃ r ∈ s.subtrees, record t.bitLength r = c := by
  have hholds := h.holds s rfl
  constructor
  · rintro ⟨i, hi, hc⟩
    have hi : i ∈ s.subtrees.map Tree.id := s.map_id_subtrees ▸ (h.reaches_iff i).mp hi
    obtain ⟨r, hr, rfl⟩ := List.mem_map.mp hi
    exact ⟨r, hr, Option.some.inj ((hholds.of_mem_subtrees hr).top.symm.trans hc)⟩
  · rintro ⟨r, hr, rfl⟩
    have hi : r.id ∈ s.ids := s.map_id_subtrees ▸ List.mem_map_of_mem hr
    exact ⟨r.id, (h.reaches_iff _).mpr hi, (hholds.of_mem_subtrees hr).top⟩

/-- A prefix count is the count of the node that heads the prefix, or 0 where no node does. -/
theorem Intact.countUnder_headed (h : Intact t o) (hl : l ≤ t.bitLength)
    (hv : value < 2^t.bitLength) :
    (∃ c, Heads t l value c ∧ (countUnder t.bitLength (treeLeaves o) l value : ℤ) = c.hotCount) ∨
      (∀ i c, Reaches t i → t.arena.cell i = some c → ¬ c.LiesUnder t.bitLength l value) ∧
        countUnder t.bitLength (treeLeaves o) l value = 0 := by
  cases o with
  | none =>
    refine .inr ⟨fun i c hi _ => ?_, rfl⟩
    exact absurd ((h.reaches_iff i).mp hi) List.not_mem_nil
  | some s =>
    have hshape := h.shape s rfl
    have hunder : ∀ r ∈ s.subtrees, (record t.bitLength r).LiesUnder t.bitLength l value ↔
        r.LiesUnder t.bitLength l value :=
      fun r hr => record_liesUnder (hshape.of_mem_subtrees hr).1 hl hv
    rcases hshape.headedBy hl value with ⟨r, hheads, hcount⟩ | ⟨hnone, hzero⟩
    · refine .inl ⟨record t.bitLength r, ⟨(h.reached_iff _).mpr ⟨r, hheads.mem, rfl⟩,
        (hunder r hheads.mem).mpr hheads.under, fun i c' hi hc hc' => ?_⟩, ?_⟩
      · obtain ⟨r', hr', rfl⟩ := (h.reached_iff c').mp ⟨i, hi, hc⟩
        rw [record_length, record_length]
        exact hheads.topmost r' hr' ((hunder r' hr').mp hc')
      · rw [record_hotCount]
        exact_mod_cast hcount
    · refine .inr ⟨fun i c hi hc hc' => ?_, hzero⟩
      obtain ⟨r, hr, rfl⟩ := (h.reached_iff c).mp ⟨i, hi, hc⟩
      exact hnone r hr ((hunder r hr).mp hc')

/-- The point query for a prefix of `value`. -/
theorem Intact.countAt_cleared (h : Intact t o) (hl : l ≤ t.bitLength)
    (hv : value < 2^t.bitLength) :
    t.countAt (clearHostBits value (t.bitLength - l)) l =
      .ok (countUnder t.bitLength (treeLeaves o) l value : ℕ) := by
  have hlt : cleared t.bitLength l value < 2^t.bitLength :=
    (cleared_le t.bitLength l value).trans_lt hv
  rw [h.countAt_eq _ hl, clearHostBits_natCast, residue_natCast hlt]
  simp only [top_cleared]
  rfl

end

/-- The walk along a path agrees with the point queries. On a trie that `check_patricia` passes, for
every address value: both walks end, and the count at each length is the one that `_count_at` gives
for the value with its bits past that length cleared. That is the count of the topmost node under the
prefix, and 0 where no node lies under it. -/
theorem counts_along_eq_count_at (t : PatriciaTrie) (h : checkPatricia t = .ok ()) (value : ℕ)
    (hv : value < 2^t.bitLength) :
    ∃ counts, t.countsAlong value = .ok counts ∧ counts.length = t.bitLength + 1 ∧
      ∀ l ≤ t.bitLength, ∃ count, counts[l]? = some count ∧
        t.countAt (clearHostBits value (t.bitLength - l)) l = .ok count ∧
        ((∃ c, Heads t l value c ∧ count = c.hotCount) ∨
          (∀ i c, Reaches t i → t.arena.cell i = some c → ¬ c.LiesUnder t.bitLength l value) ∧
            count = 0) := by
  obtain ⟨o, hintact⟩ := (checkPatricia_meets t).of_ok h
  refine ⟨_, hintact.countsAlong_eq hv, by rw [List.length_map, List.length_range], fun l hl => ?_⟩
  refine ⟨_, ?_, hintact.countAt_cleared hl hv, ?_⟩
  · rw [List.getElem?_map, List.getElem?_range (by omega)]
    rfl
  · rcases hintact.countUnder_headed hl hv with hheads | ⟨hnone, hzero⟩
    · exact .inl hheads
    · exact .inr ⟨hnone, by exact_mod_cast hzero⟩

/-- Two addresses, and the path to one of them. -/
theorem counts_along_pair :
    let t := (PatriciaTrie.run .ipv4 [.addHotIp ⟨.ipv4, 1, by decide⟩,
      .addHotIp ⟨.ipv4, 6, by decide⟩]).2
    ∃ counts, t.countsAlong 1 = .ok counts ∧ ∀ l ≤ t.bitLength, ∃ count, counts[l]? = some count ∧
      t.countAt (clearHostBits 1 (t.bitLength - l)) l = .ok count := by
  intro t
  obtain ⟨-, hfamily, -, o, hintact, -⟩ := patricia_run_represents .ipv4
    [.addHotIp ⟨.ipv4, 1, by decide⟩, .addHotIp ⟨.ipv4, 6, by decide⟩]
  have hwidth : t.bitLength = 32 := congrArg AddressFamily.bitLength hfamily
  obtain ⟨counts, hcounts, -, hagree⟩ :=
    counts_along_eq_count_at t hintact.checkPatricia_ok 1 (by rw [hwidth]; norm_num)
  refine ⟨counts, hcounts, fun l hl => ?_⟩
  obtain ⟨count, hcount, hat, -⟩ := hagree l hl
  exact ⟨count, hcount, hat⟩

end Trie

end Hammertime
