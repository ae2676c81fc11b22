import Hammertime.Lib.Program
import Hammertime.Trie.Canonical
import Hammertime.Trie.Invariants

/-!
# `check_patricia` is sound

`check_patricia` on a trie with any contents: it returns or raises an `InvariantViolation`, and never
reads outside a list or runs on. When it returns, the live records lay out one compressed tree, so that
the trie stands for a set of addresses just as one does that calls have built (`check_patricia_sound`).
Each part of the check has one lemma of the form `Meets`, which says what is known when the part
returns and that it raises a violation otherwise.
-/

namespace Hammertime.Trie

open Bits Lib NodeArena PatriciaTrie

/-- The check reports a violation; it does not fail on its own account. -/
def InvariantViolation.Reported (v : InvariantViolation) : Prop := ∀ e, v ≠ .raised e

section Laid

variable {w : ℕ}

/-- The records lay out the tree, but for the counts of its nodes with children. -/
def Laid (w : ℕ) (cell : ℤ → Option Cell) : Tree ℤ → Prop
  | .leaf id value => cell id = some (record w (.leaf id value))
  | .node id network len left right =>
    (∃ count, cell id = some ⟨network, len, count, left.id, right.id⟩) ∧ Laid w cell left ∧
      Laid w cell right

/-- The nodes with children, as the check lists them. -/
def internals : Tree ℤ → List (ℤ × ℤ × ℤ)
  | .leaf _ _ => []
  | .node id _ _ left right => (id, left.id, right.id) :: (internals left ++ internals right)

variable {cell : ℤ → Option Cell} {s : Tree ℤ}

theorem Laid.exists_cell (h : Laid w cell s) {i : ℤ} (hi : i ∈ s.ids) : ∃ c, cell i = some c := by
  induction s with
  | leaf id value =>
    obtain rfl := List.mem_singleton.mp hi
    exact ⟨_, h⟩
  | node id network len left right ihl ihr =>
    obtain ⟨⟨count, hcell⟩, hl, hr⟩ := h
    rcases List.mem_cons.mp hi with rfl | hi
    · exact ⟨_, hcell⟩
    · rcases List.mem_append.mp hi with hi | hi
      · exact ihl hl hi
      · exact ihr hr hi

theorem id_mem_ids (s : Tree ℤ) : s.id ∈ s.ids := by
  cases s <;> simp [Tree.ids]

/-- The ids that the sum check reads are labels of the tree. -/
theorem internals_subset {n : ℤ × ℤ × ℤ} (hn : n ∈ internals s) :
    n.1 ∈ s.ids ∧ n.2.1 ∈ s.ids ∧ n.2.2 ∈ s.ids := by
  induction s with
  | leaf id value => cases hn
  | node id network len left right ihl ihr =>
    have hleft : left.ids ⊆ (Tree.node id network len left right).ids :=
      List.subset_cons_of_subset _ (List.subset_append_left _ _)
    have hright : right.ids ⊆ (Tree.node id network len left right).ids :=
      List.subset_cons_of_subset _ (List.subset_append_right _ _)
    rcases List.mem_cons.mp hn with rfl | hn
    · exact ⟨List.mem_cons_self, hleft (id_mem_ids left), hright (id_mem_ids right)⟩
    · rcases List.mem_append.mp hn with hn | hn
      · obtain ⟨h1, h2, h3⟩ := ihl hn
        exact ⟨hleft h1, hleft h2, hleft h3⟩
      · obtain ⟨h1, h2, h3⟩ := ihr hn
        exact ⟨hright h1, hright h2, hright h3⟩

/-- With the sums checked, the counts are the numbers of leaves. -/
theorem Laid.holds (h : Laid w cell s) (hsums : ∀ n ∈ internals s, SumsUp cell n) :
    Holds w cell s := by
  induction s with
  | leaf id value => exact h
  | node id network len left right ihl ihr =>
    obtain ⟨⟨count, hcell⟩, hl, hr⟩ := h
    have hleft := ihl hl fun n hn => hsums n (List.mem_cons_of_mem _ (List.mem_append_left _ hn))
    have hright := ihr hr fun n hn => hsums n (List.mem_cons_of_mem _ (List.mem_append_right _ hn))
    refine ⟨?_, hleft, hright⟩
    obtain ⟨c, l, r, hc, hcl, hcr, hsum⟩ := hsums _ List.mem_cons_self
    dsimp only at hc hcl hcr
    rw [hcell, Option.some_inj] at hc
    rw [hleft.top, Option.some_inj] at hcl
    rw [hright.top, Option.some_inj] at hcr
    subst hc hcl hcr
    rw [record_hotCount, record_hotCount] at hsum
    dsimp only at hsum
    rw [hcell, hsum]
    simp [record]

/-- A tree whose children hang below its top has the shape of a compressed tree. -/
theorem shape_of_hangs {id : ℤ} {net len : ℕ} {count : ℤ} {left right : Tree ℤ}
    (hcell : cell id = some ⟨net, len, count, left.id, right.id⟩) (hne : id ≠ noNode)
    (hnet : net < 2^w) (hclear : cleared w len net = net) (hl : left.Shape w) (hr : right.Shape w)
    (hangl : Hangs w cell left id 0) (hangr : Hangs w cell right id 1) :
    (Tree.node id net len left right).Shape w := by
  have hchild : ∀ (s : Tree ℤ) (b : ℕ), s.Shape w → Hangs w cell s id b →
      len < s.length w ∧ top w (len + 1) s.network = 2 * top w len net + b := by
    intro s b hs hang
    obtain rfl | ⟨c, hc, hlen, hcommon, hbit⟩ := hang
    · exact absurd rfl hne
    · rw [hcell, Option.some_inj] at hc
      subst hc
      dsimp only at hlen hcommon hbit
      have hlt : len < w := lt_of_lt_of_le hlen hs.length_le
      rw [commonPrefixLength_spec hlt.le, hs.residue_network, residue_natCast hnet] at hcommon
      rw [bitAt_eq hlt, hs.residue_network] at hbit
      rw [top_succ_bit hlt, hcommon, hbit]
      exact ⟨hlen, rfl⟩
  obtain ⟨hll, htl⟩ := hchild left 0 hl hangl
  obtain ⟨hlr, htr⟩ := hchild right 1 hr hangr
  exact ⟨lt_of_lt_of_le hll hl.length_le, hnet, hclear, hll, hlr, htl, htr, hl, hr⟩

end Laid

section Parts

variable {w : ℕ} {a : NodeArena}

/-- An entry in range is read. -/
theorem readRaw_meets {l : List ℤ} {i : ℤ} (h0 : 0 ≤ i) (hlt : i < l.length) :
    Meets (readRaw l i) (fun x => IntIndex.get? l i = some x) InvariantViolation.Reported := by
  obtain ⟨x, hx⟩ := IntIndex.exists_get? h0 hlt
  rw [readRaw_of_get? hx]
  exact hx

/-- A parent that the walk has checked, or none. -/
def Checked (a : NodeArena) (parent : ℤ) : Prop := parent = noNode ∨ (a.cell parent).isSome

/-- The record of a node hangs below the parent's on the branch. -/
def HangsBelow (w : ℕ) (a : NodeArena) (c : Cell) (parent : ℤ) (branch : ℕ) : Prop :=
  parent = noNode ∨ ∃ above, a.cell parent = some above ∧ above.length < c.length ∧
    above.length ≤ commonPrefixLength c.network above.network w ∧
    bitAt c.network above.length w = branch

theorem checkExtends_meets {parent nid : ℤ} (hparent : Checked a parent) (branch : ℕ) (c : Cell) :
    Meets (checkExtends a w nid c.length c.network parent branch)
      (fun _ => HangsBelow w a c parent branch) InvariantViolation.Reported := by
  unfold checkExtends
  by_cases hroot : parent = noNode
  · rw [if_pos hroot]
    exact Or.inl hroot
  · obtain ⟨above, habove⟩ := Option.isSome_iff_exists.mp (hparent.resolve_left hroot)
    obtain ⟨hnetwork, hlength, -⟩ := (cell_eq_some_iff a parent above).mp habove
    simp only [if_neg hroot, readRaw_of_get? hlength, readRaw_of_get? hnetwork, throw_bind]
    refine Meets.check (fun _ e he => by cases he) fun hlt => ?_
    refine Meets.check (fun _ e he => by cases he) fun hbits => ?_
    rw [not_or, Int.toNat_natCast] at hbits
    exact Or.inr ⟨above, habove, by omega, by omega, not_not.mp hbits.2⟩

/-- What is known of a node that passes its checks. -/
structure NodeChecked (w : ℕ) (a : NodeArena) (reached : List ℤ) (nid parent : ℤ) (branch : ℕ)
    (c : Cell) : Prop where
  cell_eq : a.cell nid = some c
  fresh : nid ∉ reached
  length_le : c.length ≤ w
  network_nonneg : 0 ≤ c.network
  network_lt : c.network < 2^w
  host_bits : c.network % 2^(w - c.length) = 0
  hangs : HangsBelow w a c parent branch

theorem checkNode_meets (ha : a.Parallel) {reached : List ℤ} {nid parent : ℤ}
    (hparent : Checked a parent) (branch : ℕ) :
    Meets (checkNode a w reached nid parent branch) (fun r => ∃ c,
      NodeChecked w a reached nid parent branch c ∧ r = ((c.length : ℤ), c.left, c.right))
      InvariantViolation.Reported := by
  unfold checkNode
  simp only [throw_bind]
  refine Meets.check (fun _ e he => by cases he) fun hrange => ?_
  rw [not_not] at hrange
  by_cases hlive : ¬ a.isLive nid = true
  · rw [if_pos hlive]
    exact (readRaw_meets hrange.1 hrange.2).bind fun _ _ e he => by cases he
  rw [if_neg hlive]
  refine Meets.check (fun _ e he => by cases he) fun hfresh => ?_
  -- The node is live, so that its record is there to read.
  obtain ⟨c, hc⟩ := ha.exists_cell (not_not.mp hlive)
  obtain ⟨hnetwork, hlength, -, hleft, hright⟩ := (cell_eq_some_iff a nid c).mp hc
  simp only [readRaw_of_get? hnetwork, readRaw_of_get? hlength]
  refine Meets.check (fun _ e he => by cases he) fun hle => ?_
  refine Meets.check (fun _ e he => by cases he) fun hbits => ?_
  rw [not_or, not_not, not_not, Int.toNat_natCast] at hbits
  refine (checkExtends_meets hparent branch c).bind fun _ hangs => ?_
  simp only [readRaw_of_get? hleft, readRaw_of_get? hright]
  exact ⟨c, ⟨hc, hfresh, by omega, hbits.1.1, hbits.1.2, hbits.2, hangs⟩, rfl⟩

end Parts

/-! ## The walk -/

section Walk

variable {w : ℕ} {a : NodeArena}

/-- A tree that an entry of the walk's stack leads to. -/
structure Rooted (w : ℕ) (a : NodeArena) (entry : ℤ × ℤ × ℕ) (s : Tree ℤ) : Prop where
  id_eq : s.id = entry.1
  shape : s.Shape w
  laid : Laid w a.cell s
  hangs : Hangs w a.cell s entry.2.1 entry.2.2

/-- What the walk has collected after a stack, from what it had before. -/
structure WalkedTo (w : ℕ) (a : NodeArena) (stack : List (ℤ × ℤ × ℕ)) (before after : Walked)
    (trees : List (Tree ℤ)) : Prop where
  rooted : List.Forall₂ (Rooted w a) stack trees
  reached : after.reached.Perm (trees.flatMap Tree.ids ++ before.reached)
  nodup : after.reached.Nodup
  internal : after.internal = before.internal ++ trees.flatMap internals
  leaves : after.leaves = before.leaves + (trees.map Tree.count).sum

/-- Different slots are no more than there are. -/
theorem length_le_of_inRange {ids : List ℤ} {n : ℕ} (hnodup : ids.Nodup)
    (hrange : ∀ i ∈ ids, 0 ≤ i ∧ i < n) : ids.length ≤ n := by
  have hsub : ids ⊆ (List.range n).map (Nat.cast : ℕ → ℤ) := by
    intro i hi
    obtain ⟨h0, hlt⟩ := hrange i hi
    exact List.mem_map.mpr ⟨i.toNat, List.mem_range.mpr (by omega), by omega⟩
  have hle := (hnodup.subperm hsub).length_le
  rwa [List.length_map, List.length_range] at hle

/-- The ids reached are different slots, so that there are no more of them than slots. -/
theorem reached_length_le {reached : List ℤ} (hnodup : reached.Nodup)
    (hlive : ∀ i ∈ reached, (a.cell i).isSome) : reached.length ≤ a.length.length := by
  refine length_le_of_inRange hnodup fun i hi => ?_
  obtain ⟨c, hc⟩ := Option.isSome_iff_exists.mp (hlive i hi)
  exact inRange_of_cell hc

theorem NodeChecked.hangs_of {reached : List ℤ} {nid parent : ℤ} {branch : ℕ} {c : Cell}
    (h : NodeChecked w a reached nid parent branch c) {s : Tree ℤ}
    (hnetwork : (s.network : ℤ) = c.network) (hlength : s.length w = c.length) :
    Hangs w a.cell s parent branch := by
  rcases h.hangs with hroot | ⟨above, habove, hlt, hcommon, hbit⟩
  · exact Or.inl hroot
  · refine Or.inr ⟨above, habove, ?_, ?_, ?_⟩
    · rw [hlength]
      exact hlt
    · rw [hnetwork]
      exact hcommon
    · rw [hnetwork]
      exact hbit

/-- A checked node without children is a leaf. -/
theorem NodeChecked.leaf {reached : List ℤ} {nid parent : ℤ} {branch : ℕ} {c : Cell}
    (h : NodeChecked w a reached nid parent branch c) (hleft : c.left = noNode)
    (hright : c.right = noNode) (hlength : (c.length : ℤ) = w) (hcount : c.hotCount = 1) :
    Rooted w a (nid, parent, branch) (.leaf nid c.network.toNat) := by
  have hlen : c.length = w := by exact_mod_cast hlength
  have hnet : ((c.network.toNat : ℕ) : ℤ) = c.network := Int.toNat_of_nonneg h.network_nonneg
  refine ⟨rfl, ?_, ?_, h.hangs_of hnet hlen.symm⟩
  · have hlt := h.network_lt
    rw [← hnet] at hlt
    show c.network.toNat < 2^w
    exact_mod_cast hlt
  · show a.cell nid = _
    rw [h.cell_eq]
    exact congrArg some (Cell.ext hnet.symm hlen hcount hleft hright)

/-- A checked node over two trees that hang below it. -/
theorem NodeChecked.node {reached : List ℤ} {nid parent : ℤ} {branch : ℕ} {c : Cell}
    (h : NodeChecked w a reached nid parent branch c) {left right : Tree ℤ}
    (hl : Rooted w a (c.left, nid, 0) left) (hr : Rooted w a (c.right, nid, 1) right) :
    Rooted w a (nid, parent, branch) (.node nid c.network.toNat c.length left right) := by
  have hnet : ((c.network.toNat : ℕ) : ℤ) = c.network := Int.toNat_of_nonneg h.network_nonneg
  have hcell : a.cell nid = some ⟨(c.network.toNat : ℕ), c.length, c.hotCount, left.id, right.id⟩ := by
    rw [h.cell_eq]
    exact congrArg some (Cell.ext hnet.symm rfl rfl hl.id_eq.symm hr.id_eq.symm)
  have hlt : c.network.toNat < 2^w := by
    have hlt := h.network_lt
    rw [← hnet] at hlt
    exact_mod_cast hlt
  have hclear : cleared w c.length c.network.toNat = c.network.toNat := by
    refine cleared_of_mod ?_
    have hbits := h.host_bits
    rw [← hnet] at hbits
    exact_mod_cast hbits
  have hne : nid ≠ noNode := by
    rintro rfl
    rw [cell_noNode] at hcell
    cases hcell
  exact ⟨rfl, shape_of_hangs hcell hne hlt hclear hl.shape hr.shape hl.hangs hr.hangs,
    ⟨⟨_, hcell⟩, hl.laid, hr.laid⟩, h.hangs_of hnet rfl⟩

/-- The walk ends within a round a slot, and what it has walked is laid out as trees. -/
theorem checkLoop_meets (ha : a.Parallel) {fuel : ℕ} (stack : List (ℤ × ℤ × ℕ)) (walked : Walked)
    (hparents : ∀ entry ∈ stack, Checked a entry.2.1) (hnodup : walked.reached.Nodup)
    (hlive : ∀ i ∈ walked.reached, (a.cell i).isSome)
    (hfuel : a.length.length + 1 ≤ fuel + walked.reached.length) :
    Meets (checkLoop a w fuel stack walked)
      (fun after => ∃ trees, WalkedTo w a stack walked after trees)
      InvariantViolation.Reported := by
  induction fuel generalizing stack walked with
  | zero =>
    have hle := reached_length_le hnodup hlive
    omega
  | succ fuel ih =>
    cases stack with
    | nil =>
      exact ⟨[], List.Forall₂.nil, List.Perm.refl _, hnodup, (List.append_nil _).symm, rfl⟩
    | cons entry stack =>
      obtain ⟨nid, parent, branch⟩ := entry
      unfold checkLoop
      simp only [throw_bind]
      have hrest := fun entry hin => hparents entry (List.mem_cons_of_mem _ hin)
      refine (checkNode_meets ha (hparents _ List.mem_cons_self) branch).bind ?_
      rintro r ⟨c, hchecked, rfl⟩
      obtain ⟨-, -, hcount, -⟩ := (cell_eq_some_iff a nid c).mp hchecked.cell_eq
      simp only [readRaw_of_get? hcount]
      -- The node is one more slot reached.
      have hnodup' : (nid :: walked.reached).Nodup := List.nodup_cons.mpr ⟨hchecked.fresh, hnodup⟩
      have hlive' : ∀ i ∈ nid :: walked.reached, (a.cell i).isSome := by
        intro i hi
        rcases List.mem_cons.mp hi with rfl | hi
        · rw [hchecked.cell_eq, Option.isSome_some]
        · exact hlive i hi
      have hfuel' : a.length.length + 1 ≤ fuel + (nid :: walked.reached).length := by
        rw [List.length_cons]
        omega
      show Meets (if c.left = noNode ∧ c.right = noNode then _ else _) _ _
      by_cases hleaf : c.left = noNode ∧ c.right = noNode
      · rw [if_pos hleaf]
        refine Meets.check (fun _ e he => by cases he) fun hlength => ?_
        refine Meets.check (fun _ e he => by cases he) fun hsingle => ?_
        refine (ih stack _ hrest hnodup' hlive' hfuel').mono ?_
        rintro after ⟨trees, h⟩
        have hrooted := hchecked.leaf hleaf.1 hleaf.2 (not_not.mp hlength) (not_not.mp hsingle)
        refine ⟨_ :: trees, List.Forall₂.cons hrooted h.rooted, ?_, h.nodup, h.internal, ?_⟩
        · exact h.reached.trans List.perm_middle
        · rw [h.leaves, List.map_cons, List.sum_cons]
          have hcount : (Tree.leaf nid c.network.toNat).count = 1 := rfl
          rw [hcount]
          dsimp only
          omega
      · rw [if_neg hleaf]
        refine Meets.check (fun _ e he => by cases he) fun hchildren => ?_
        have hparents' : ∀ entry ∈ (c.left, nid, 0) :: (c.right, nid, 1) :: stack,
            Checked a entry.2.1 := by
          have hself : Checked a nid := Or.inr (by rw [hchecked.cell_eq, Option.isSome_some])
          intro entry hin
          rcases List.mem_cons.mp hin with rfl | hin
          · exact hself
          · rcases List.mem_cons.mp hin with rfl | hin
            · exact hself
            · exact hrest entry hin
        refine (ih _ { walked with
          reached := nid :: walked.reached
          internal := walked.internal ++ [(nid, c.left, c.right)] } hparents' hnodup' hlive'
            hfuel').mono ?_
        rintro after ⟨trees, h⟩
        obtain ⟨left, below, hl, hbelow, rfl⟩ := List.forall₂_cons_left_iff.mp h.rooted
        obtain ⟨right, rest, hr, hrooted, rfl⟩ := List.forall₂_cons_left_iff.mp hbelow
        refine ⟨_ :: rest, List.Forall₂.cons (hchecked.node hl hr) hrooted, ?_, h.nodup, ?_, ?_⟩
        · have hmiddle := h.reached.trans List.perm_middle
          simp only [List.flatMap_cons, Tree.ids, List.cons_append, List.append_assoc] at hmiddle ⊢
          exact hmiddle
        · rw [h.internal]
          simp only [List.flatMap_cons, internals, hl.id_eq, hr.id_eq, List.cons_append,
            List.append_assoc, List.nil_append]
        · rw [h.leaves]
          simp only [List.map_cons, List.sum_cons, Tree.count_node]
          omega

end Walk

/-! ## The sums and the free list -/

section Lists

variable {a : NodeArena}

theorem checkSums_meets {internal : List (ℤ × ℤ × ℤ)} (h : ∀ n ∈ internal,
    (∃ c, a.cell n.1 = some c) ∧ (∃ c, a.cell n.2.1 = some c) ∧ ∃ c, a.cell n.2.2 = some c) :
    Meets (checkSums a internal) (fun _ => ∀ n ∈ internal, SumsUp a.cell n)
      InvariantViolation.Reported := by
  induction internal with
  | nil => exact fun n hn => absurd hn List.not_mem_nil
  | cons n internal ih =>
    obtain ⟨nid, left, right⟩ := n
    obtain ⟨⟨c, hc⟩, ⟨l, hl⟩, r, hr⟩ := h _ List.mem_cons_self
    obtain ⟨-, -, hcount, -⟩ := (cell_eq_some_iff a nid c).mp hc
    obtain ⟨-, -, hleft, -⟩ := (cell_eq_some_iff a left l).mp hl
    obtain ⟨-, -, hright, -⟩ := (cell_eq_some_iff a right r).mp hr
    unfold checkSums
    simp only [readRaw_of_get? hcount, readRaw_of_get? hleft, readRaw_of_get? hright, throw_bind]
    refine Meets.check (fun _ e he => by cases he) fun hsum => ?_
    refine (ih fun n hn => h n (List.mem_cons_of_mem _ hn)).mono fun _ hsums n hn => ?_
    rcases List.mem_cons.mp hn with rfl | hn
    · exact ⟨c, l, r, hc, hl, hr, not_not.mp hsum⟩
    · exact hsums n hn

/-- What the first loop over the free list knows of the ids that it has listed. -/
structure Listed (length listed : List ℤ) : Prop where
  nodup : listed.Nodup
  dead : ∀ i ∈ listed, ∃ x, IntIndex.get? length i = some x ∧ x < 0

theorem checkListed_meets {length : List ℤ} (position : ℕ) {listed : List ℤ} (freeIds : List ℤ)
    (h : Listed length listed) :
    Meets (checkListed length position listed freeIds)
      (fun result => result = listed ++ freeIds ∧ Listed length result)
      InvariantViolation.Reported := by
  induction freeIds generalizing position listed with
  | nil => exact ⟨(List.append_nil _).symm, h⟩
  | cons nid freeIds ih =>
    unfold checkListed
    simp only [throw_bind]
    refine Meets.check (fun _ e he => by cases he) fun hrange => ?_
    refine Meets.check (fun _ e he => by cases he) fun hfresh => ?_
    rw [not_not] at hrange
    refine (readRaw_meets hrange.1 hrange.2).bind fun x hx => ?_
    refine Meets.check (fun _ e he => by cases he) fun hdead => ?_
    have hnext : Listed length (listed ++ [nid]) := by
      refine ⟨List.nodup_append.mpr ⟨h.nodup, List.nodup_singleton nid, ?_⟩, fun i hi => ?_⟩
      · intro i hi j hj heq
        rw [List.mem_singleton] at hj
        exact hfresh (hj ▸ heq ▸ hi)
      · rcases List.mem_append.mp hi with hi | hi
        · exact h.dead i hi
        · rw [List.mem_singleton.mp hi]
          exact ⟨x, hx, not_le.mp hdead⟩
    refine (ih (position + 1) hnext).mono fun result hresult => ?_
    rw [List.append_assoc, List.singleton_append] at hresult
    exact hresult

theorem checkDead_meets {listed : List ℤ} (first : ℕ) (length : List ℤ) :
    Meets (checkDead listed first length)
      (fun _ => ∀ i x, length[i]? = some x → x < 0 → ((first + i : ℕ) : ℤ) ∈ listed)
      InvariantViolation.Reported := by
  induction length generalizing first with
  | nil =>
    intro i x hx
    simp at hx
  | cons len length ih =>
    unfold checkDead
    refine Meets.check (fun _ e he => by cases he) fun hlisted => ?_
    refine (ih (first + 1)).mono fun _ hrest i x hx hx0 => ?_
    cases i with
    | zero =>
      obtain rfl : len = x := by simpa using hx
      by_contra hout
      exact hlisted ⟨hx0, hout⟩
    | succ i =>
      have hin := hrest i x (by simpa using hx) hx0
      rwa [Nat.add_right_comm] at hin

end Lists

/-! ## The check -/

section Check

variable {t : PatriciaTrie}

/-- What the check knows of the trees that the root leads to: none, or one. -/
theorem WalkedTo.root {after : Walked} {trees : List (Tree ℤ)}
    (h : WalkedTo t.bitLength t.arena (if t.root ≠ noNode then [(t.root, noNode, 0)] else [])
      ⟨[], [], 0⟩ after trees) :
    ∃ o : Option (Tree ℤ), trees = o.toList ∧ t.root = (o.map Tree.id).getD noNode ∧
      ∀ s ∈ o, s.Shape t.bitLength ∧ Laid t.bitLength t.arena.cell s := by
  have hrooted := h.rooted
  split_ifs at hrooted with hroot
  · obtain ⟨s, rest, hs, hrest, rfl⟩ := List.forall₂_cons_left_iff.mp hrooted
    obtain rfl := List.forall₂_nil_left_iff.mp hrest
    refine ⟨some s, rfl, hs.id_eq.symm, ?_⟩
    rintro _ ⟨⟩
    exact ⟨hs.shape, hs.laid⟩
  · obtain rfl := List.forall₂_nil_left_iff.mp hrooted
    exact ⟨none, rfl, not_not.mp hroot, by simp⟩

/-- Ids that are all slots, with the free ids all of them: the live slots are the ids. -/
theorem live_iff_of_count (hacc : t.arena.Accounted) {ids : List ℤ} (hnodup : ids.Nodup)
    (hlive : ∀ i ∈ ids, (t.arena.cell i).isSome) (hcount : (ids.length : ℤ) = t.arena.liveCount)
    (i : ℤ) : (t.arena.cell i).isSome ↔ i ∈ ids := by
  refine ⟨fun hi => ?_, hlive i⟩
  obtain ⟨c, hc⟩ := Option.isSome_iff_exists.mp hi
  have hfree : ∀ j ∈ t.arena.freeIds, ¬ (t.arena.cell j).isSome := by
    intro j hj hsome
    obtain ⟨x, hx, hx0⟩ := (hacc.mem_free_iff j).mp hj
    obtain ⟨d, hd⟩ := Option.isSome_iff_exists.mp hsome
    have hlength := ((cell_eq_some_iff _ j d).mp hd).2.1
    rw [hx, Option.some_inj] at hlength
    omega
  have hall : (ids ++ t.arena.freeIds).Nodup := by
    refine List.nodup_append.mpr ⟨hnodup, hacc.free_nodup, ?_⟩
    rintro j hj k hk rfl
    exact hfree j hk (hlive j hj)
  have hsub : ids ++ t.arena.freeIds ⊆
      (List.range t.arena.length.length).map (Nat.cast : ℕ → ℤ) := by
    intro j hj
    have hrange : 0 ≤ j ∧ j < t.arena.length.length := by
      rcases List.mem_append.mp hj with hj | hj
      · obtain ⟨d, hd⟩ := Option.isSome_iff_exists.mp (hlive j hj)
        exact inRange_of_cell hd
      · obtain ⟨x, hx, -⟩ := (hacc.mem_free_iff j).mp hj
        exact IntIndex.inRange_of_get? hx
    exact List.mem_map.mpr ⟨j.toNat, List.mem_range.mpr (by omega), by omega⟩
  have hsize : ((List.range t.arena.length.length).map (Nat.cast : ℕ → ℤ)).length ≤
      (ids ++ t.arena.freeIds).length := by
    rw [List.length_map, List.length_range, List.length_append]
    unfold liveCount at hcount
    omega
  have hperm := (hall.subperm hsub).perm_of_length_le hsize
  have hrange := inRange_of_cell hc
  have hin : i ∈ ids ++ t.arena.freeIds :=
    hperm.mem_iff.mpr (List.mem_map.mpr ⟨i.toNat, List.mem_range.mpr (by omega), by omega⟩)
  exact (List.mem_append.mp hin).resolve_right fun hfreed => hfree i hfreed hi

/-- The check returns on an intact trie only, and otherwise reports a violation. -/
theorem checkPatricia_meets (t : PatriciaTrie) :
    Meets (checkPatricia t) (fun _ => ∃ o, Intact t o) InvariantViolation.Reported := by
  unfold checkPatricia
  simp only [throw_bind]
  refine Meets.check (fun _ e he => by cases he) fun hlists => ?_
  have ha : t.arena.Parallel := by
    refine ⟨?_, ?_, ?_⟩
    · omega
    · omega
    · omega
  refine (checkLoop_meets ha _ ⟨[], [], 0⟩ ?_ List.nodup_nil (by simp) (le_refl _)).bind ?_
  · intro entry hin
    split_ifs at hin
    · rw [List.mem_singleton.mp hin]
      exact Or.inl rfl
    · cases hin
  rintro after ⟨trees, hwalked⟩
  obtain ⟨o, rfl, hroot, htree⟩ := hwalked.root
  have hreached : after.reached.Perm (treeIds o) := by
    refine hwalked.reached.trans (List.Perm.of_eq ?_)
    cases o <;> simp
  have hids : (treeIds o).Nodup := hreached.nodup_iff.mp hwalked.nodup
  have hinternal : ∀ s ∈ o, after.internal = internals s := by
    rintro s ⟨⟩
    rw [hwalked.internal]
    simp
  have hlive : ∀ i ∈ treeIds o, (t.arena.cell i).isSome := by
    intro i hi
    cases o with
    | none => cases hi
    | some s =>
      obtain ⟨c, hc⟩ := (htree s rfl).2.exists_cell hi
      rw [hc, Option.isSome_some]
  refine (checkSums_meets fun n hn => ?_).bind fun _ hsums => ?_
  · cases o with
    | none =>
      rw [hwalked.internal] at hn
      cases hn
    | some s =>
      rw [hinternal s rfl] at hn
      obtain ⟨h1, h2, h3⟩ := internals_subset hn
      have hlaid := (htree s rfl).2
      exact ⟨hlaid.exists_cell h1, hlaid.exists_cell h2, hlaid.exists_cell h3⟩
  refine Meets.check (fun _ e he => by cases he) fun _ => ?_
  refine (checkListed_meets 0 _ ⟨List.nodup_nil, by simp⟩).bind ?_
  rintro listed ⟨rfl, hlisted⟩
  rw [List.nil_append] at hlisted ⊢
  refine (checkDead_meets 0 t.arena.length).bind fun _ hdead => ?_
  have hacc : t.arena.Accounted := by
    refine ⟨ha.network_length, ha.hotCount_length, ha.child_length, hlisted.nodup, fun i => ?_⟩
    refine ⟨hlisted.dead i, ?_⟩
    rintro ⟨x, hx, hx0⟩
    obtain ⟨h0, -⟩ := IntIndex.inRange_of_get? hx
    obtain ⟨k, rfl⟩ := Int.eq_ofNat_of_zero_le h0
    have hin := hdead k x (by simpa [IntIndex.get?] using hx) hx0
    rwa [Nat.zero_add] at hin
  refine Meets.check (fun _ e he => by cases he) fun hnodes => ?_
  refine Meets.check (fun _ e he => by cases he) fun hcount => ?_
  have hlength : ((treeIds o).length : ℤ) = t.arena.liveCount := by
    rw [← hreached.length_eq]
    exact not_not.mp hcount
  -- Everything is known that the invariant asks for.
  have hintact : Intact t o := by
    refine ⟨hacc, hroot, fun s hs => (htree s hs).1, fun s hs => ?_, hids,
      live_iff_of_count hacc hids hlive hlength⟩
    rw [hinternal s hs] at hsums
    exact (htree s hs).2.holds hsums
  by_cases hsize : after.reached.length ≠ 0
  · rw [if_pos hsize]
    refine Meets.check (fun _ e he => by cases he) fun _ => ?_
    rw [hintact.hotIpCount_eq]
    exact Meets.check (fun _ e he => by cases he) fun _ => ⟨o, hintact⟩
  · rw [if_neg hsize]
    exact ⟨o, hintact⟩

end Check

/-! ## What the trie stands for -/

/-- The set of the addresses that an intact trie holds. -/
theorem Intact.exists_represents {t : PatriciaTrie} {o : Option (Tree ℤ)} (h : Intact t o) :
    ∃ H, t.Represents t.family H := by
  obtain ⟨as, -, hvalues, hfamily⟩ := h.iterHotAddresses_spec
  refine ⟨as.toFinset, rfl, fun a ha => hfamily a (List.mem_toFinset.mp ha), o, h, ?_⟩
  refine HotSet.eq_values h.leaves_sorted fun v => ?_
  rw [← hvalues, List.mem_map]
  simp only [List.mem_toFinset]

/-- The set after adding addresses of the family, one call each. -/
theorem hotSet_run_adds {family : AddressFamily} (as : List Address)
    (hfamily : ∀ a ∈ as, a.family = family) (H : Finset Address) :
    (runCalls (HotSet.apply family) H (as.map Call.addHotIp)).2 = as.toFinset ∪ H := by
  induction as generalizing H with
  | nil => simp [runCalls]
  | cons a as ih =>
    obtain ⟨ha, has⟩ := List.forall_mem_cons.mp hfamily
    have hstep : (HotSet.apply family H (.addHotIp a)).2 = insert a H := by
      simp only [HotSet.apply, if_pos ha]
    show (runCalls (HotSet.apply family) (HotSet.apply family H (.addHotIp a)).2
      (as.map Call.addHotIp)).2 = _
    rw [hstep, ih has]
    ext b
    simp only [Finset.mem_union, Finset.mem_insert, List.mem_toFinset, List.mem_cons]
    tauto

/-- A trie of any contents that stands for a set of addresses. -/
structure StandsFor (t : PatriciaTrie) (H : Finset Address) : Prop where
  /-- The nodes that the root leads to are a compressed tree, and the arena's accounts are right. -/
  shaped : RepInvariant t
  families : ∀ a ∈ H, a.family = t.family
  hotCount : ∀ p : Prefix, p.family = t.family → 0 ≤ p.network →
    p.network < 2^t.family.bitLength →
    t.hotCount p = .ok ((H.filter fun a => p.contains a = true).card : ℕ)
  hotAddresses : ∃ as, t.iterHotAddresses = .ok as ∧
    (as.Pairwise fun a b => a.value < b.value) ∧ ∀ a, a ∈ as ↔ a ∈ H
  /-- Calls can build a trie of the set. -/
  built : ∃ build, (HotSet.run t.family build).2 = H
  /-- Next to a trie that calls built, it replies alike to all further calls, and ends with the same
  nodes and counts. -/
  further : ∀ build, (HotSet.run t.family build).2 = H → ∀ calls,
    (runCalls PatriciaTrie.call t calls).1 =
      (runCalls PatriciaTrie.call (PatriciaTrie.run t.family build).2 calls).1 ∧
    (∃ nodes, (runCalls PatriciaTrie.call t calls).2.iterNodes = .ok nodes ∧
      (runCalls PatriciaTrie.call (PatriciaTrie.run t.family build).2 calls).2.iterNodes =
        .ok nodes) ∧
    ∀ p, (runCalls PatriciaTrie.call t calls).2.hotCount p =
      (runCalls PatriciaTrie.call (PatriciaTrie.run t.family build).2 calls).2.hotCount p

/-- Calls take tries of one set to tries of one set, with the same replies. -/
theorem PatriciaTrie.Represents.runCalls {family : AddressFamily} {t t' : PatriciaTrie}
    {H : Finset Address} (h : t.Represents family H) (h' : t'.Represents family H)
    (calls : List Call) :
    (Trie.runCalls PatriciaTrie.call t calls).1 = (Trie.runCalls PatriciaTrie.call t' calls).1 ∧
      ∃ H', (Trie.runCalls PatriciaTrie.call t calls).2.Represents family H' ∧
        (Trie.runCalls PatriciaTrie.call t' calls).2.Represents family H' := by
  have hset := runCalls_simulation (R := PatriciaTrie.Represents family)
    (fun _ _ c h => PatriciaTrie.Represents.call h c) calls h
  have hset' := runCalls_simulation (R := PatriciaTrie.Represents family)
    (fun _ _ c h => PatriciaTrie.Represents.call h c) calls h'
  exact ⟨hset.1.trans hset'.1.symm, _, hset.2, hset'.2⟩

theorem PatriciaTrie.Represents.hotCount_eq {family : AddressFamily} {t t' : PatriciaTrie}
    {H : Finset Address} (h : t.Represents family H) (h' : t'.Represents family H) (p : Prefix) :
    t.hotCount p = t'.hotCount p := by
  obtain ⟨rfl, -, o, hi, hv⟩ := h
  obtain ⟨hfamily, -, o', hi', hv'⟩ := h'
  by_cases hp : p.family = t.family
  · rw [hi.hotCount_eq hp, hi'.hotCount_eq (hp.trans hfamily.symm), hv, hv', bitLength, bitLength,
      hfamily]
  · simp [PatriciaTrie.hotCount, checkFamily, hfamily, hp, bind, Except.bind]

theorem PatriciaTrie.Represents.standsFor {t : PatriciaTrie} {H : Finset Address}
    (h : t.Represents t.family H) : StandsFor t H := by
  have hrep := h
  obtain ⟨-, hfamilies, o, hi, -⟩ := h
  refine ⟨hi.repInvariant, hfamilies, fun p hp h0 hlt => hrep.hotCount hp h0 hlt,
    hrep.iterHotAddresses,
    ⟨H.toList.map Call.addHotIp, ?_⟩, ?_⟩
  · have hadds := hotSet_run_adds H.toList (fun a ha => hfamilies a (Finset.mem_toList.mp ha)) ∅
    rwa [Finset.toList_toFinset, Finset.union_empty] at hadds
  · rintro build rfl calls
    obtain ⟨-, hbuilt⟩ := patricia_run_represents t.family build
    obtain ⟨hreplies, H', hnext, hnext'⟩ := hrep.runCalls hbuilt calls
    obtain ⟨nodes, hnodes, hnodes', -⟩ := hnext.iterNodes hnext'
    exact ⟨hreplies, ⟨nodes, hnodes, hnodes'⟩, hnext.hotCount_eq hnext'⟩

/-- **`check_patricia` is sound**: on any contents it returns or raises an `InvariantViolation`, and
where it returns the trie stands for a set of addresses. -/
theorem check_patricia_sound (t : PatriciaTrie) :
    (∀ e, checkPatricia t ≠ .error (.raised e)) ∧
      (checkPatricia t = .ok () → ∃ H, StandsFor t H) := by
  have hmeets := checkPatricia_meets t
  constructor
  · intro e he
    exact hmeets.of_error he e rfl
  · intro hok
    obtain ⟨o, hintact⟩ := hmeets.of_ok hok
    obtain ⟨H, hrep⟩ := hintact.exists_represents
    exact ⟨H, hrep.standsFor⟩

end Hammertime.Trie
