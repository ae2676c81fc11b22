import Hammertime.Trie.Agreement

/-!
# The Patricia trie is canonical

A path-compressed tree is determined by its numbers but for its labels (`Tree.Shape.unlabelled_eq`).
Everything that the trie shows of its nodes is a function of the unlabelled tree, so that two tries
with the same HOT set show the same nodes, whatever calls led to them and whatever node ids they use.
-/

namespace Hammertime.Trie

open PatriciaTrie

section Views

variable {ι : Type*}

theorem topView_unlabelled (family : AddressFamily) (s : Tree ι) :
    topView family s.unlabelled = topView family s := by
  cases s with
  | leaf id value => rfl
  | node id network len left right =>
    have hcount := (Tree.node id network len left right).count_unlabelled
    unfold topView
    rw [hcount]
    simp only [Tree.unlabelled, Tree.network_unlabelled, Tree.length_unlabelled, List.map_cons,
      List.map_nil, Tree.network_node, Tree.length_node]

/-- What `iter_nodes` yields does not depend on the labels. -/
theorem views_unlabelled (family : AddressFamily) (s : Tree ι) :
    views family s.unlabelled = views family s := by
  induction s with
  | leaf id value => exact congrArg (fun view => [view]) (topView_unlabelled family (.leaf id value))
  | node id network len left right ihl ihr =>
    have htop := topView_unlabelled family (.node id network len left right)
    rw [Tree.unlabelled] at htop
    rw [Tree.unlabelled, views, views, htop, ihl, ihr]

theorem views_length (family : AddressFamily) (s : Tree ι) :
    (views family s).length = s.ids.length := by
  induction s with
  | leaf id value => rfl
  | node id network len left right ihl ihr =>
    simp only [views, Tree.ids, List.length_cons, List.length_append, ihl, ihr]

end Views

namespace PatriciaTrie

variable {family : AddressFamily} {H : Finset Address} {t t' : PatriciaTrie}

/-- Tries that stand for one set show the same nodes. -/
theorem Represents.iterNodes (h : t.Represents family H) (h' : t'.Represents family H) :
    ∃ nodes, t.iterNodes = .ok nodes ∧ t'.iterNodes = .ok nodes ∧
      t.nodeCount = nodes.length ∧ t'.nodeCount = nodes.length := by
  obtain ⟨rfl, -, o, hi, hv⟩ := h
  obtain ⟨hfamily, -, o', hi', hv'⟩ := h'
  have hleaves : treeLeaves o = treeLeaves o' := hv.trans hv'.symm
  have hcount : ∀ {u : PatriciaTrie} {o : Option (Tree ℤ)}, Intact u o →
      u.nodeCount = (o.elim [] (views u.family)).length := by
    intro u o hu
    rw [hu.nodeCount_eq]
    cases o with
    | none => rfl
    | some s => exact congrArg Nat.cast (views_length u.family s).symm
  have hsame : o.elim [] (views t.family) = o'.elim [] (views t'.family) := by
    rw [hfamily]
    cases o with
    | none =>
      cases o' with
      | none => rfl
      | some s' =>
        have hpos := s'.count_pos
        rw [Tree.count, ← treeLeaves_some, ← hleaves] at hpos
        exact absurd hpos (lt_irrefl 0)
    | some s =>
      cases o' with
      | none =>
        have hpos := s.count_pos
        rw [Tree.count, ← treeLeaves_some, hleaves] at hpos
        exact absurd hpos (lt_irrefl 0)
      | some s' =>
        have hshape' := hi'.shape s' rfl
        rw [bitLength, hfamily] at hshape'
        have hunique := (hi.shape s rfl).unlabelled_eq hshape' hleaves
        calc views t.family s = views t.family s.unlabelled := (views_unlabelled _ s).symm
          _ = views t.family s'.unlabelled := by rw [hunique]
          _ = views t.family s' := views_unlabelled _ s'
  refine ⟨_, hi.iterNodes_eq, ?_, hcount hi, ?_⟩
  · rw [hi'.iterNodes_eq, hsame]
  · rw [hcount hi', hsame]

end PatriciaTrie

/-- **The structure depends on the HOT set only**: two lists of calls that end with one set end with
the same nodes, as many as are counted, prefix counts and addresses. -/
theorem patricia_canonical (family : AddressFamily) (calls calls' : List Call)
    (h : (HotSet.run family calls).2 = (HotSet.run family calls').2) :
    (∃ nodes, (PatriciaTrie.run family calls).2.iterNodes = .ok nodes ∧
      (PatriciaTrie.run family calls').2.iterNodes = .ok nodes ∧
      (PatriciaTrie.run family calls).2.nodeCount = nodes.length) ∧
    (PatriciaTrie.run family calls).2.nodeCount = (PatriciaTrie.run family calls').2.nodeCount ∧
    (∀ minLength, (PatriciaTrie.run family calls).2.iterPrefixCounts minLength =
      (PatriciaTrie.run family calls').2.iterPrefixCounts minLength) ∧
    (PatriciaTrie.run family calls).2.iterHotAddresses =
      (PatriciaTrie.run family calls').2.iterHotAddresses := by
  obtain ⟨-, hrep⟩ := patricia_run_represents family calls
  obtain ⟨-, hrep'⟩ := patricia_run_represents family calls'
  rw [← h] at hrep'
  obtain ⟨nodes, hnodes, hnodes', hcount, hcount'⟩ := hrep.iterNodes hrep'
  -- The reference trie stands for the set too, and both agree with it.
  obtain ⟨-, hbinary⟩ := binary_run_represents family calls
  refine ⟨⟨nodes, hnodes, hnodes', hcount⟩, hcount.trans hcount'.symm, fun minLength => ?_, ?_⟩
  · have hagree := (agree_iterPrefixCounts hrep hbinary minLength).1
    exact hagree.trans (agree_iterPrefixCounts hrep' hbinary minLength).1.symm
  · have hagree := (agree_iterHotAddresses hrep hbinary).1
    exact hagree.trans (agree_iterHotAddresses hrep' hbinary).1.symm

/-- Two orders, one with a detour over a third address and a `clear`. -/
theorem patricia_canonical_detour :
    let a : Address := ⟨.ipv4, 1, by decide⟩
    let b : Address := ⟨.ipv4, 6, by decide⟩
    let c : Address := ⟨.ipv4, 5, by decide⟩
    ∃ nodes, (PatriciaTrie.run .ipv4 [.addHotIp a, .addHotIp b]).2.iterNodes = .ok nodes ∧
      (PatriciaTrie.run .ipv4 [.addHotIp c, .clear, .addHotIp b, .addHotIp c, .addHotIp a,
        .removeHotIp c]).2.iterNodes = .ok nodes := by
  intro a b c
  obtain ⟨⟨nodes, hnodes, hnodes', -⟩, -⟩ := patricia_canonical .ipv4 [.addHotIp a, .addHotIp b]
    [.addHotIp c, .clear, .addHotIp b, .addHotIp c, .addHotIp a, .removeHotIp c] (by decide)
  exact ⟨nodes, hnodes, hnodes'⟩

end Hammertime.Trie
