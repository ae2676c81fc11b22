import Hammertime.Lib.Program
import Hammertime.Trie.Agreement

/-!
# The reference trie prunes exactly

`remove_hot_ip` of the reference trie detaches the tail below the first node that it empties, and takes
a computed number of nodes off the maintained count without visiting them. That is right because
nothing but an unbranched path down to the last bit is below a node with one address
(`Sound.size_of_count_one`). `binary_prunes` says what holds of the nodes after any calls.
-/

namespace Hammertime.Trie

open Bits

namespace TrieNode

section Size

variable {w k : ℕ} {n : TrieNode}

/-- Above a single number there is one unbranched path. -/
theorem Sound.size_of_count_one (h : n.Sound k) (hone : n.count = 1) : n.size = k + 1 := by
  induction k generalizing n with
  | zero =>
    cases n with
    | absent => cases hone
    | node c l r =>
      obtain ⟨-, rfl, rfl⟩ := h
      rfl
  | succ k ih =>
    cases n with
    | absent => cases hone
    | node c l r =>
      obtain ⟨hcount, -, hl, hr⟩ := h
      have hcl := hl.count_eq
      have hcr := hr.count_eq
      have hsum : l.count + r.count = 1 := by
        rw [hcl, hcr, ← hcount]
        exact hone
      -- The number is on one side, and the other side is empty.
      rcases Nat.eq_zero_or_pos (l.leaves k).length with hzero | hpos
      · have hempty : l = absent := by
          by_contra hne
          have := hl.ne_absent_iff.mp hne
          omega
        have hsize := ih hr (by omega)
        subst hempty
        simp only [size]
        omega
      · have hempty : r = absent := by
          by_contra hne
          have := hr.ne_absent_iff.mp hne
          omega
        have hsize := ih hl (by omega)
        subst hempty
        simp only [size]
        omega

theorem size_setChild (c : ℤ) (l r m : TrieNode) (bit : ℕ) :
    ((node c l r).setChild bit m).size + ((node c l r).child bit).size =
      (node c l r).size + m.size := by
  unfold setChild child
  dsimp only
  split_ifs
  · simp only [size]
    omega
  · simp only [size]
    omega

theorem size_node (c c' : ℤ) (l r : TrieNode) : (node c l r).size = (node c' l r).size := rfl

/-- `add_hot_ip` counts the nodes that it creates. -/
theorem size_addBits (bits : List ℕ) (n : TrieNode) :
    ((addBits bits n).1.size : ℤ) = n.size + (addBits bits n).2 := by
  induction bits generalizing n with
  | nil =>
    cases n with
    | absent => rfl
    | node c l r => simp [addBits, size]
  | cons bit bits ih =>
    cases n with
    | absent =>
      have hchild := size_setChild 1 absent absent (addBits bits absent).1 bit
      have hempty : ((node 1 absent absent).child bit).size = 0 := by
        unfold child
        split_ifs
        · rfl
        · rfl
      have hrest := ih absent
      have hone : (node 1 absent absent).size = 1 := rfl
      have hzero : absent.size = 0 := rfl
      simp only [addBits]
      omega
    | node c l r =>
      have hchild := size_setChild (c + 1) l r (addBits bits ((node c l r).child bit)).1 bit
      have hsame : (node (c + 1) l r).child bit = (node c l r).child bit := rfl
      have hrest := ih ((node c l r).child bit)
      rw [hsame, size_node (c + 1) c] at hchild
      simp only [addBits]
      omega

/-- `remove_hot_ip` counts the nodes that it detaches. -/
theorem Sound.size_removeBits (h : n.Sound k) {depth : ℕ} {bits : List ℕ} {n' : TrieNode}
    {removed : ℤ} (hdepth : depth + k = w) (hlength : bits.length = k)
    (hrun : TrieNode.removeBits w depth bits n = .ok (n', removed)) : (n.size : ℤ) = n'.size + removed := by
  induction k generalizing n n' depth bits with
  | zero =>
    cases n with
    | absent =>
      unfold TrieNode.removeBits at hrun
      cases hrun
    | node c l r =>
      obtain ⟨rfl, rfl, rfl⟩ := h
      obtain rfl := List.length_eq_zero_iff.mp hlength
      cases hrun
      simp [size]
      omega
  | succ k ih =>
    cases n with
    | absent =>
      unfold TrieNode.removeBits at hrun
      cases hrun
    | node c l r =>
      unfold TrieNode.removeBits at hrun
      split_ifs at hrun with hzero
      · -- The tail goes: it is one path of the bits left.
        cases hrun
        have hsize := h.size_of_count_one (show c = 1 by omega)
        have hempty : absent.size = 0 := rfl
        omega
      · cases bits with
        | nil => cases hlength
        | cons bit bits =>
          obtain ⟨⟨m, removed'⟩, hm, heq⟩ := Lib.except_bind_ok.mp hrun
          cases heq
          have hrest := ih (h.child bit) (by omega) (Nat.succ.inj hlength) hm
          have hchild := size_setChild (c - 1) l r m bit
          have hsame : (node (c - 1) l r).child bit = (node c l r).child bit := rfl
          rw [hsame, size_node (c - 1) c] at hchild
          omega

end Size

section Trace

variable {w k : ℕ} {n : TrieNode}

/-- Every node is traced once. -/
theorem Sound.length_trace (h : n.Sound k) (network : ℕ) : (trace w k network n).length = n.size := by
  induction k generalizing n network with
  | zero =>
    cases n with
    | absent => rfl
    | node c l r =>
      obtain ⟨-, rfl, rfl⟩ := h
      rfl
  | succ k ih =>
    cases n with
    | absent => rfl
    | node c l r =>
      simp only [trace, size, List.length_cons, List.length_append, ih h.2.2.1, ih h.2.2.2]
      omega

/-- What a traced node is: one of all `w` bits, with nothing below it, or one whose count is the sum
of its children's, which are traced too. -/
structure Pruned (w : ℕ) (visits : List (TrieNode × ℕ × ℕ)) (visit : TrieNode × ℕ × ℕ) : Prop where
  leaf : visit.2.2 = w → visit.1.count = 1 ∧ ∀ bit, visit.1.child bit = absent
  sum : visit.2.2 ≠ w → visit.1.count = (visit.1.child 0).count + (visit.1.child 1).count
  child : ∀ bit < 2, visit.1.child bit ≠ absent →
    (visit.1.child bit, visit.2.1 ||| (bit <<< (w - 1 - visit.2.2)), visit.2.2 + 1) ∈ visits

theorem Pruned.mono {visits visits' : List (TrieNode × ℕ × ℕ)} {visit : TrieNode × ℕ × ℕ}
    (h : Pruned w visits visit) (hsub : visits ⊆ visits') : Pruned w visits' visit :=
  ⟨h.leaf, h.sum, fun bit hbit hne => hsub (h.child bit hbit hne)⟩

theorem head_mem_trace (hne : n ≠ absent) (network : ℕ) :
    (n, network, w - k) ∈ trace w k network n := by
  cases n with
  | absent => exact absurd rfl hne
  | node c l r =>
    cases k with
    | zero => simp [trace]
    | succ k => simp [trace]

theorem Sound.pruned (h : n.Sound k) (hk : k ≤ w) {network : ℕ} (hdvd : 2^k ∣ network)
    {visit : TrieNode × ℕ × ℕ} (hin : visit ∈ trace w k network n) :
    Pruned w (trace w k network n) visit := by
  induction k generalizing n network with
  | zero =>
    cases n with
    | absent => cases hin
    | node c l r =>
      obtain ⟨rfl, rfl, rfl⟩ := h
      obtain rfl := List.mem_singleton.mp hin
      have hempty : ∀ bit, (node 1 absent absent).child bit = absent := by
        intro bit
        unfold TrieNode.child
        split_ifs
        · rfl
        · rfl
      exact ⟨fun _ => ⟨rfl, hempty⟩, fun hne => absurd rfl hne,
        fun bit _ hne => absurd (hempty bit) hne⟩
  | succ k ih =>
    cases n with
    | absent => cases hin
    | node c l r =>
      obtain ⟨hcount, -, hl, hr⟩ := h
      have hdvd0 : 2^k ∣ network := (pow_dvd_pow 2 (Nat.le_succ k)).trans hdvd
      have hdvd1 : 2^k ∣ network + 2^k := (Nat.dvd_add_right hdvd0).2 (dvd_refl _)
      have hlengths : w - 1 - (w - (k + 1)) = k := by omega
      have hnext : w - (k + 1) + 1 = w - k := by omega
      -- The bit of the second child is clear in the network.
      have hor : network ||| 1 <<< k = network + 2^k := by
        obtain ⟨q, rfl⟩ := hdvd
        rw [Nat.one_shiftLeft]
        exact (Nat.two_pow_add_eq_or_of_lt (Nat.pow_lt_pow_right (by norm_num) (by omega)) q).symm
      rcases List.mem_cons.mp hin with rfl | hin
      · -- The node itself, whose children head the two traces below it.
        refine ⟨fun hw => ?_, fun _ => ?_, fun bit hbit hne => ?_⟩
        · dsimp only at hw
          omega
        · show c = l.count + r.count
          rw [hcount, hl.count_eq, hr.count_eq]
        · refine List.mem_cons_of_mem _ ?_
          dsimp only at hne ⊢
          rw [hlengths, hnext]
          interval_cases bit
          · rw [Nat.zero_shiftLeft, Nat.or_zero]
            exact List.mem_append_left _ (head_mem_trace hne network)
          · rw [hor]
            exact List.mem_append_right _ (head_mem_trace hne (network + 2^k))
      -- A visit further down is pruned in the trace of its child.
      · rcases List.mem_append.mp hin with hin | hin
        · exact (ih hl (by omega) hdvd0 hin).mono
            (List.subset_cons_of_subset _ (List.subset_append_left _ _))
        · exact (ih hr (by omega) hdvd1 hin).mono
            (List.subset_cons_of_subset _ (List.subset_append_right _ _))

end Trace

end TrieNode

/-! ## The maintained count -/

namespace BinaryTrie

open TrieNode

variable {t : BinaryTrie} {family : AddressFamily} {H : Finset Address}

/-- The maintained count is the number of nodes that the root leads to. -/
def Counted (t : BinaryTrie) : Prop := t.nodeCount = t.root.size

theorem Counted.addHotIp (h : t.Counted) {a : Address} {changed : Bool} {t' : BinaryTrie}
    (hrun : t.addHotIp a = .ok (changed, t')) : t'.Counted := by
  obtain ⟨⟨⟩, -, hrun⟩ := Lib.except_bind_ok.mp hrun
  obtain ⟨present, -, hrun⟩ := Lib.except_bind_ok.mp hrun
  cases present with
  | true =>
    cases hrun
    exact h
  | false =>
    cases hrun
    show t.nodeCount + _ = _
    rw [h, size_addBits]

theorem Counted.removeHotIp (h : t.Counted) (hsound : t.Intact) {a : Address} {changed : Bool}
    {t' : BinaryTrie} (hrun : t.removeHotIp a = .ok (changed, t')) : t'.Counted := by
  obtain ⟨⟨⟩, hfamily, hrun⟩ := Lib.except_bind_ok.mp hrun
  obtain ⟨present, -, hrun⟩ := Lib.except_bind_ok.mp hrun
  have hfam : a.family = t.family := by
    by_contra hne
    rw [checkFamily, if_neg hne] at hfamily
    cases hfamily
  cases present with
  | true =>
    obtain ⟨⟨root, removed⟩, hremove, heq⟩ := Lib.except_bind_ok.mp hrun
    cases heq
    have hlength : a.bits.length = t.bitLength := by
      rw [bits_eq hfam, length_bitsFrom]
    have hsize := Sound.size_removeBits hsound (Nat.zero_add _) hlength hremove
    show t.nodeCount - removed = root.size
    rw [h]
    omega
  | false =>
    cases hrun
    exact h

theorem Counted.call (h : t.Counted) (hsound : t.Intact) (c : Call) : (t.call c).2.Counted := by
  unfold BinaryTrie.call callWith
  cases c with
  | addHotIp a =>
    dsimp only
    cases hrun : t.addHotIp a with
    | ok r => exact h.addHotIp hrun
    | error e => exact h
  | removeHotIp a =>
    dsimp only
    cases hrun : t.removeHotIp a with
    | ok r => exact h.removeHotIp hsound hrun
    | error e => exact h
  | clear => rfl

theorem counted_run (family : AddressFamily) (calls : List Call) : (run family calls).2.Counted := by
  have hstep : ∀ (t : BinaryTrie) (H : Finset Address) (c : Call),
      t.Represents family H ∧ t.Counted → (t.call c).1 = (HotSet.apply family H c).1 ∧
        (t.call c).2.Represents family (HotSet.apply family H c).2 ∧ (t.call c).2.Counted := by
    intro t H c h
    exact ⟨(h.1.call c).1, (h.1.call c).2, h.2.call h.1.2.2.1 c⟩
  exact (runCalls_simulation (R := fun (t : BinaryTrie) (H : Finset Address) =>
    t.Represents family H ∧ t.Counted) hstep calls ⟨represents_new family, rfl⟩).2.2

/-! ## The nodes -/

/-- The view that `iter_nodes` yields for a visit. -/
def viewOf (t : BinaryTrie) (visit : TrieNode × ℕ × ℕ) : NodeView :=
  ⟨prefixAt t.family visit.2.1 visit.2.2, visit.1.count,
    ([0, 1].filter fun bit => visit.1.child bit ≠ absent).map fun bit =>
      prefixAt t.family (visit.2.1 ||| (bit <<< (t.bitLength - 1 - visit.2.2))) (visit.2.2 + 1)⟩

theorem Intact.pruned (h : t.Intact) {visit : TrieNode × ℕ × ℕ}
    (hin : visit ∈ trace t.bitLength t.bitLength 0 t.root) :
    Pruned t.bitLength (trace t.bitLength t.bitLength 0 t.root) visit :=
  Sound.pruned h le_rfl (dvd_zero _) hin

/-- `iter_nodes`. -/
theorem Intact.iterNodes_eq (h : t.Intact) :
    t.iterNodes = .ok ((trace t.bitLength t.bitLength 0 t.root).map t.viewOf) := by
  unfold iterNodes
  rw [h.walk_eq]
  refine mapM_ok _ fun visit hin => ?_
  have hself := h.makePrefix_trace hin
  -- The children are traced nodes, and so their prefixes are well formed.
  have hchildren : ([0, 1].filter fun bit => visit.1.child bit ≠ absent).mapM (fun bit =>
      t.makePrefix (visit.2.1 ||| (bit <<< (t.bitLength - 1 - visit.2.2)) : ℕ) (visit.2.2 + 1)) =
      .ok (t.viewOf visit).children := by
    refine mapM_ok _ fun bit hbit => ?_
    obtain ⟨hmem, hne⟩ := List.mem_filter.mp hbit
    have htwo : bit < 2 := by
      simp only [List.mem_cons, List.not_mem_nil, or_false] at hmem
      omega
    exact h.makePrefix_trace ((h.pruned hin).child bit htwo (of_decide_eq_true hne))
  obtain ⟨n, network, length⟩ := visit
  dsimp only at hself hchildren ⊢
  rw [hchildren, hself]
  rfl

/-- What holds of the nodes of a trie that stands for a set. -/
structure PrunesExactly (t : BinaryTrie) (H : Finset Address) : Prop where
  /-- The nodes are the prefixes with a HOT address beneath them, each once and with how many there
  are. -/
  nodes : ∃ views, t.iterNodes = .ok views ∧ (views.map NodeView.pfx).Nodup ∧
    (∀ p, p ∈ views.map NodeView.pfx ↔ ∃ a ∈ H, p.contains a = true) ∧
    (∀ view ∈ views, view.hotCount = (H.filter fun a => view.pfx.contains a = true).card) ∧
    t.nodeCount = views.length
  /-- The maintained count is the number of nodes that the root leads to. -/
  counted : t.nodeCount = t.root.size
  /-- A node has all bits and no children, or its count is the sum of theirs. -/
  sums : ∃ visits, t.walk = .ok visits ∧ visits.length = t.root.size ∧
    ∀ visit ∈ visits, (visit.2.2 = t.bitLength → ∀ bit, visit.1.child bit = absent) ∧
      (visit.2.2 ≠ t.bitLength →
        visit.1.count = (visit.1.child 0).count + (visit.1.child 1).count)
  /-- The next `remove_hot_ip` does not fail an assertion. -/
  asserts : ∀ a, t.removeHotIp a ≠ .error .assertion

theorem Represents.prunesExactly (h : t.Represents family H) (hcounted : t.Counted) :
    t.PrunesExactly H := by
  have hrep := h
  obtain ⟨rfl, hH, hi, hv⟩ := h
  have hlength := Sound.length_trace (w := t.bitLength) hi 0
  -- The views are the listing of the prefixes of every length.
  have hlisting := hi.isPrefixListing_trace 0
  rw [hv] at hlisting
  have hall : ((trace t.bitLength t.bitLength 0 t.root).map entry).filter (0 ≤ ·.2.1) =
      (trace t.bitLength t.bitLength 0 t.root).map entry :=
    List.filter_eq_self.mpr fun e _ => decide_eq_true (Nat.zero_le _)
  rw [hall, List.map_map] at hlisting
  have hview : ∀ visit ∈ trace t.bitLength t.bitLength 0 t.root,
      (⟨(t.viewOf visit).pfx, (t.viewOf visit).hotCount⟩ : PrefixCount) ∈
        (trace t.bitLength t.bitLength 0 t.root).map
          ((fun e => ⟨prefixAt t.family e.1 e.2.1, e.2.2⟩) ∘ entry) :=
    fun visit hin => List.mem_map.mpr ⟨visit, hin, rfl⟩
  have hmem : ∀ pc : PrefixCount, pc ∈ (trace t.bitLength t.bitLength 0 t.root).map
      ((fun e => ⟨prefixAt t.family e.1 e.2.1, e.2.2⟩) ∘ entry) ↔ pc.pfx.family = t.family ∧
        0 ≤ pc.pfx.length ∧ (∃ a ∈ H, pc.pfx.contains a = true) ∧
          pc.hotCount = (H.filter fun a => pc.pfx.contains a = true).card := by
    intro pc
    rw [hlisting.mem_iff, PatriciaTrie.mem_listing_iff hH]
  refine ⟨⟨_, hi.iterNodes_eq, ?_, fun p => ?_, fun view hin => ?_, ?_⟩, hcounted,
    ⟨_, hi.walk_eq, hlength, fun visit hin => ?_⟩, fun a herror => ?_⟩
  · have hsorted := hlisting.sorted
    rw [List.pairwise_map] at hsorted
    rw [List.map_map, List.Nodup, List.pairwise_map]
    refine hsorted.imp fun {x y} hbefore heq => ?_
    have hpfx : prefixAt t.family x.2.1 x.2.2 = prefixAt t.family y.2.1 y.2.2 := heq
    simp only [PrefixCount.Before, Function.comp_apply, entry, hpfx] at hbefore
    omega
  · rw [List.map_map, List.mem_map]
    constructor
    · rintro ⟨visit, hin, rfl⟩
      exact ((hmem _).mp (hview visit hin)).2.2.1
    · rintro ⟨a, ha, hcontains⟩
      have hfamily : p.family = t.family := (network_of_contains hcontains).1.symm.trans (hH a ha)
      have hlisted := (hmem ⟨p, (H.filter fun a => p.contains a = true).card⟩).mpr
        ⟨hfamily, Nat.zero_le _, ⟨a, ha, hcontains⟩, rfl⟩
      obtain ⟨visit, hin, heq⟩ := List.mem_map.mp hlisted
      exact ⟨visit, hin, congrArg PrefixCount.pfx heq⟩
  · obtain ⟨visit, hvisit, rfl⟩ := List.mem_map.mp hin
    exact ((hmem _).mp (hview visit hvisit)).2.2.2
  · rw [hcounted, List.length_map, hlength]
  · exact ⟨fun heq => ((hi.pruned hin).leaf heq).2, (hi.pruned hin).sum⟩
  · by_cases hfam : a.family = t.family
    · obtain ⟨t', hrun, -⟩ := hrep.removeHotIp hfam
      rw [hrun] at herror
      cases herror
    · have hforeign : t.removeHotIp a = .error (.familyMismatch t.family a.family) := by
        simp [BinaryTrie.removeHotIp, checkFamily, hfam, bind, Except.bind]
      rw [hforeign] at herror
      cases herror

end BinaryTrie

/-- **The reference trie prunes exactly**, after any calls; none of the calls failed an assertion. -/
theorem binary_prunes (family : AddressFamily) (calls : List Call) :
    (BinaryTrie.run family calls).2.PrunesExactly (HotSet.run family calls).2 ∧
      ∀ reply ∈ (BinaryTrie.run family calls).1, reply ≠ .error .assertion := by
  obtain ⟨hreplies, hrep⟩ := binary_run_represents family calls
  refine ⟨hrep.prunesExactly (BinaryTrie.counted_run family calls), ?_⟩
  rintro reply hin rfl
  rw [hreplies] at hin
  exact hotSet_replies_documented ∅ _ hin _ rfl

end Hammertime.Trie
