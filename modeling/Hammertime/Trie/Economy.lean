import Hammertime.Lib.Program
import Hammertime.Trie.Agreement

/-!
# The economy of the arena

`add_hot_ip` allocates nodes and releases none, and `remove_hot_ip` releases nodes and allocates none.
The slab grows only when no released slot is left, so that its capacity is the greatest number of nodes
that the trie has had since it was last empty by `clear` or by construction (`arena_economy`).
-/

namespace Hammertime.Trie

open Lib

namespace NodeArena

variable {a b c : NodeArena}

/-- Allocations only: the slab is as large as the nodes that it now holds need, or as it was. -/
structure Grown (a b : NodeArena) : Prop where
  live_le : a.liveCount ≤ b.liveCount
  capacity_eq : (b.capacity : ℤ) = max (a.capacity : ℤ) b.liveCount

/-- Releases only: the slab stays. -/
structure Shrunk (a b : NodeArena) : Prop where
  live_le : b.liveCount ≤ a.liveCount
  capacity_eq : b.capacity = a.capacity

/-- Writes to the fields of nodes: as many slots, and as many of them released. -/
structure SameSlots (a b : NodeArena) : Prop where
  slots : b.length.length = a.length.length
  free : b.freeIds.length = a.freeIds.length

theorem liveCount_le_capacity (a : NodeArena) : a.liveCount ≤ a.capacity := by
  unfold liveCount capacity
  omega

theorem SameSlots.refl (a : NodeArena) : SameSlots a a := ⟨rfl, rfl⟩

theorem SameSlots.trans (h : SameSlots a b) (h' : SameSlots b c) : SameSlots a c :=
  ⟨h'.slots.trans h.slots, h'.free.trans h.free⟩

theorem SameSlots.liveCount_eq (h : SameSlots a b) : b.liveCount = a.liveCount := by
  unfold liveCount
  rw [h.slots, h.free]

theorem SameSlots.grown (h : SameSlots a b) : Grown a b := by
  have hlive := a.liveCount_le_capacity
  refine ⟨h.liveCount_eq.ge, ?_⟩
  rw [h.liveCount_eq, max_eq_left hlive]
  exact congrArg _ h.slots

theorem SameSlots.shrunk (h : SameSlots a b) : Shrunk a b := ⟨h.liveCount_eq.le, h.slots⟩

theorem Grown.trans (h : Grown a b) (h' : Grown b c) : Grown a c := by
  refine ⟨h.live_le.trans h'.live_le, ?_⟩
  rw [h'.capacity_eq, h.capacity_eq, max_assoc, max_eq_right h'.live_le]

theorem Shrunk.trans (h : Shrunk a b) (h' : Shrunk b c) : Shrunk a c :=
  ⟨h'.live_le.trans h.live_le, h'.capacity_eq.trans h.capacity_eq⟩

/-- Releases leave the slab as large as the nodes that it holds need, or as it was. -/
theorem Shrunk.capacity_max (h : Shrunk a b) : (b.capacity : ℤ) = max (a.capacity : ℤ) b.liveCount := by
  have hlive := h.live_le.trans a.liveCount_le_capacity
  rw [max_eq_left hlive, h.capacity_eq]

theorem writeAt_length {l l' : List ℤ} {i x : ℤ} (h : writeAt l i x = .ok l') :
    l'.length = l.length := by
  unfold writeAt IntIndex.set? at h
  split at h
  · rename_i hset
    split_ifs at hset
    cases hset
    cases h
    exact List.length_set
  · cases h

/-- `allocate` takes a released slot, and a new one only when there is none. -/
theorem allocate_grown {network length hotCount nid : ℤ}
    (h : a.allocate network length hotCount = .ok (nid, b)) : Grown a b := by
  unfold allocate at h
  split_ifs at h
  cases hlast : a.freeIds.getLast? with
  | some nodeId =>
    rw [hlast] at h
    obtain ⟨l1, -, h⟩ := except_bind_ok.mp h
    obtain ⟨l2, h2, h⟩ := except_bind_ok.mp h
    obtain ⟨l3, -, h⟩ := except_bind_ok.mp h
    obtain ⟨l4, -, h⟩ := except_bind_ok.mp h
    obtain ⟨l5, -, h⟩ := except_bind_ok.mp h
    cases h
    have hslots := writeAt_length h2
    have hfree : a.freeIds.dropLast.length + 1 = a.freeIds.length := by
      have hne : a.freeIds ≠ [] := by
        intro hnil
        rw [hnil] at hlast
        cases hlast
      have hpos := List.length_pos_of_ne_nil hne
      rw [List.length_dropLast]
      omega
    constructor
    · simp only [liveCount, hslots]
      omega
    · simp only [capacity, liveCount, hslots]
      omega
  | none =>
    rw [hlast] at h
    cases h
    have hnil := List.getLast?_eq_none_iff.mp hlast
    constructor
    · simp [liveCount]
    · simp [capacity, liveCount, hnil]

theorem release_shrunk {nid : ℤ} (h : a.release nid = .ok b) : Shrunk a b := by
  unfold release at h
  split_ifs at h
  obtain ⟨l, hl, h⟩ := except_bind_ok.mp h
  cases h
  have hslots := writeAt_length hl
  constructor
  · simp only [liveCount, hslots, List.length_append, List.length_singleton]
    omega
  · exact hslots

theorem setChild_same {nid value : ℤ} {branch : ℕ} (h : a.setChild nid branch value = .ok b) :
    SameSlots a b := by
  obtain ⟨⟨⟩, -, h⟩ := except_bind_ok.mp h
  obtain ⟨child, -, h⟩ := except_bind_ok.mp h
  cases h
  exact ⟨rfl, rfl⟩

theorem addHotCount_same {nid delta : ℤ} (h : a.addHotCount nid delta = .ok b) : SameSlots a b := by
  obtain ⟨⟨⟩, -, h⟩ := except_bind_ok.mp h
  obtain ⟨count, -, h⟩ := except_bind_ok.mp h
  obtain ⟨hotCount, -, h⟩ := except_bind_ok.mp h
  cases h
  exact ⟨rfl, rfl⟩

end NodeArena

namespace PatriciaTrie

open NodeArena

variable {t t' : PatriciaTrie} {address : Address} {changed : Bool}

theorem relink_same {parent newChild : ℤ} {value : ℕ} (h : t.relink parent value newChild = .ok t') :
    SameSlots t.arena t'.arena := by
  unfold relink at h
  split_ifs at h
  · cases h
    exact SameSlots.refl _
  · obtain ⟨length, -, h⟩ := except_bind_ok.mp h
    obtain ⟨arena, harena, h⟩ := except_bind_ok.mp h
    cases h
    exact setChild_same harena

theorem addAlong_same {a b : NodeArena} {delta : ℤ} {path : List ℤ}
    (h : addAlong a delta path = .ok b) : SameSlots a b := by
  induction path generalizing a with
  | nil =>
    cases h
    exact SameSlots.refl _
  | cons ancestor path ih =>
    obtain ⟨next, hnext, h⟩ := except_bind_ok.mp h
    exact (addHotCount_same hnext).trans (ih h)

theorem split_grown {value : ℕ} {s : SplitPoint} (h : t.split value s = .ok t') :
    Grown t.arena t'.arena := by
  obtain ⟨count, -, h⟩ := except_bind_ok.mp h
  obtain ⟨⟨internal, a⟩, ha, h⟩ := except_bind_ok.mp h
  obtain ⟨⟨leaf, b⟩, hb, h⟩ := except_bind_ok.mp h
  obtain ⟨c, hc, h⟩ := except_bind_ok.mp h
  obtain ⟨d, hd, h⟩ := except_bind_ok.mp h
  have hwrites := (setChild_same hc).trans ((setChild_same hd).trans (relink_same h))
  exact (allocate_grown ha).trans ((allocate_grown hb).trans hwrites.grown)

/-- `add_hot_ip` only allocates. -/
theorem addHotIp_grown (h : t.addHotIp address = .ok (changed, t')) : Grown t.arena t'.arena := by
  obtain ⟨⟨⟩, -, h⟩ := except_bind_ok.mp h
  obtain ⟨present, -, h⟩ := except_bind_ok.mp h
  split_ifs at h
  · cases h
    exact (SameSlots.refl _).grown
  · obtain ⟨⟨root, a⟩, ha, h⟩ := except_bind_ok.mp h
    cases h
    exact allocate_grown ha
  · obtain ⟨s, -, h⟩ := except_bind_ok.mp h
    obtain ⟨u, hu, h⟩ := except_bind_ok.mp h
    obtain ⟨a, ha, h⟩ := except_bind_ok.mp h
    cases h
    exact (split_grown hu).trans (addAlong_same ha).grown

theorem collapse_shrunk {value : ℕ} {path : List ℤ} (h : t.collapse value path = .ok t') :
    Shrunk t.arena t'.arena := by
  unfold collapse at h
  split at h
  · cases h
  · obtain ⟨a, ha, h⟩ := except_bind_ok.mp h
    cases h
    exact release_shrunk ha
  · obtain ⟨length, -, h⟩ := except_bind_ok.mp h
    obtain ⟨sibling, -, h⟩ := except_bind_ok.mp h
    obtain ⟨u, hu, h⟩ := except_bind_ok.mp h
    obtain ⟨a, ha, h⟩ := except_bind_ok.mp h
    obtain ⟨b, hb, h⟩ := except_bind_ok.mp h
    obtain ⟨c, hc, h⟩ := except_bind_ok.mp h
    cases h
    have hwrites := (relink_same hu).trans (addAlong_same ha)
    exact hwrites.shrunk.trans ((release_shrunk hb).trans (release_shrunk hc))

/-- `remove_hot_ip` only releases. -/
theorem removeHotIp_shrunk (h : t.removeHotIp address = .ok (changed, t')) :
    Shrunk t.arena t'.arena := by
  obtain ⟨⟨⟩, -, h⟩ := except_bind_ok.mp h
  obtain ⟨present, -, h⟩ := except_bind_ok.mp h
  split_ifs at h
  · obtain ⟨path, -, h⟩ := except_bind_ok.mp h
    obtain ⟨u, hu, h⟩ := except_bind_ok.mp h
    cases h
    exact collapse_shrunk hu
  · cases h
    exact (SameSlots.refl _).shrunk

/-- After a call other than `clear`, the slab is as large as the nodes need, or as it was. -/
theorem call_capacity (t : PatriciaTrie) {c : Call} (hc : c ≠ .clear) :
    ((t.call c).2.arena.capacity : ℤ) = max (t.arena.capacity : ℤ) (t.call c).2.nodeCount := by
  have hsame := (SameSlots.refl t.arena).grown.capacity_eq
  unfold PatriciaTrie.call callWith
  cases c with
  | addHotIp a =>
    dsimp only
    cases hrun : t.addHotIp a with
    | ok r => exact (addHotIp_grown hrun).capacity_eq
    | error e => exact hsame
  | removeHotIp a =>
    dsimp only
    cases hrun : t.removeHotIp a with
    | ok r => exact (removeHotIp_shrunk hrun).capacity_max
    | error e => exact hsame
  | clear => exact absurd rfl hc

/-- The node counts of the states since the last `clear`, or since construction. -/
def countsSinceClear (family : AddressFamily) (calls : List Call) : Set ℤ :=
  {n | ∃ before since, calls = before ++ since ∧ Call.clear ∉ since ∧
    n = (run family before).2.nodeCount}

end PatriciaTrie

section Runs

open PatriciaTrie

/-- One more call at the end of a list. -/
theorem runCalls_concat {σ : Type*} (step : σ → Call → Reply × σ) (s : σ) (calls : List Call)
    (c : Call) : (runCalls step s (calls ++ [c])).2 = (step (runCalls step s calls).2 c).2 := by
  induction calls generalizing s with
  | nil => rfl
  | cons first calls ih => exact ih (step s first).2

theorem countsSinceClear_concat (family : AddressFamily) (calls : List Call) {c : Call}
    (hc : c ≠ .clear) : countsSinceClear family (calls ++ [c]) =
      insert (PatriciaTrie.run family (calls ++ [c])).2.nodeCount (countsSinceClear family calls) := by
  ext n
  constructor
  · rintro ⟨before, since, heq, hclear, rfl⟩
    rcases List.eq_nil_or_concat since with rfl | ⟨rest, last, rfl⟩
    · rw [List.append_nil] at heq
      rw [← heq]
      exact Or.inl rfl
    · rw [List.concat_eq_append, ← List.append_assoc] at heq
      obtain ⟨hcalls, -⟩ := List.append_inj' heq rfl
      refine Or.inr ⟨before, rest, hcalls, fun hin => hclear ?_, rfl⟩
      rw [List.concat_eq_append]
      exact List.mem_append_left _ hin
  · rintro (rfl | ⟨before, since, rfl, hclear, rfl⟩)
    · exact ⟨calls ++ [c], [], (List.append_nil _).symm, List.not_mem_nil, rfl⟩
    · refine ⟨before, since ++ [c], List.append_assoc _ _ _, fun hin => ?_, rfl⟩
      rcases List.mem_append.mp hin with hin | hin
      · exact hclear hin
      · exact hc (List.mem_singleton.mp hin).symm

/-- The capacity is the greatest node count since the last `clear`. -/
theorem capacity_isGreatest (family : AddressFamily) (calls : List Call) :
    IsGreatest (countsSinceClear family calls)
      ((PatriciaTrie.run family calls).2.arena.capacity : ℤ) := by
  induction calls using List.reverseRecOn with
  | nil =>
    constructor
    · exact ⟨[], [], rfl, List.not_mem_nil, rfl⟩
    · rintro n ⟨before, since, heq, -, rfl⟩
      obtain ⟨rfl, -⟩ := List.append_eq_nil_iff.mp heq.symm
      exact le_refl _
  | append_singleton calls c ih =>
    have hstep : (PatriciaTrie.run family (calls ++ [c])).2 =
        ((PatriciaTrie.run family calls).2.call c).2 := runCalls_concat _ _ calls c
    by_cases hc : c = .clear
    · -- Only the state after the `clear` counts.
      subst hc
      constructor
      · refine ⟨calls ++ [.clear], [], (List.append_nil _).symm, List.not_mem_nil, ?_⟩
        rw [hstep]
        rfl
      · rintro n ⟨before, since, heq, hclear, rfl⟩
        rcases List.eq_nil_or_concat since with rfl | ⟨rest, last, rfl⟩
        · rw [List.append_nil] at heq
          rw [← heq, hstep]
          exact le_refl _
        · rw [List.concat_eq_append, ← List.append_assoc] at heq
          obtain ⟨-, hlast⟩ := List.append_inj' heq rfl
          refine absurd ?_ hclear
          rw [List.concat_eq_append, ← hlast]
          exact List.mem_append_right _ List.mem_cons_self
    · rw [countsSinceClear_concat family calls hc, hstep, PatriciaTrie.call_capacity _ hc, max_comm]
      exact ih.insert _

/-- **The arena is economical**: a redundant call leaves the whole representation as it is, and the
slab has as many slots as the trie has had nodes at most since the last `clear`. -/
theorem arena_economy (family : AddressFamily) (calls : List Call) :
    (∀ a ∈ (HotSet.run family calls).2, (PatriciaTrie.run family calls).2.addHotIp a =
      .ok (false, (PatriciaTrie.run family calls).2)) ∧
    (∀ a : Address, a.family = family → a ∉ (HotSet.run family calls).2 →
      (PatriciaTrie.run family calls).2.removeHotIp a =
        .ok (false, (PatriciaTrie.run family calls).2)) ∧
    IsGreatest {n | ∃ before since, calls = before ++ since ∧ Call.clear ∉ since ∧
      n = (PatriciaTrie.run family before).2.nodeCount}
      ((PatriciaTrie.run family calls).2.arena.capacity : ℤ) := by
  obtain ⟨-, hrep⟩ := patricia_run_represents family calls
  refine ⟨fun a hin => hrep.addHotIp_hot hin, fun a hfam hnot => hrep.removeHotIp_cold hfam hnot, ?_⟩
  exact capacity_isGreatest family calls

end Runs

end Hammertime.Trie
