import Hammertime.Trie.Binary
import Hammertime.Trie.Queries

/-!
# What the reference trie answers

A node with `k` bits below it stands for a set of `k`-bit numbers: those that its leaves spell out
(`TrieNode.leaves`). `Sound k` says that every stored count is the number of them and that no node is
empty. The walks of the reference trie are then the same functions of the numbers as those of the
Patricia trie.
-/

namespace Hammertime.Trie

open Bits

namespace TrieNode

/-- The numbers below a node with `k` bits left, ascending. -/
def leaves : ℕ → TrieNode → List ℕ
  | _, absent => []
  | 0, node _ _ _ => [0]
  | k + 1, node _ child0 child1 => child0.leaves k ++ (child1.leaves k).map (2^k + ·)

/-- Every count is the number of leaves below, no node is empty, and nothing is below the last bit. -/
def Sound : ℕ → TrieNode → Prop
  | _, absent => True
  | 0, node hotCount child0 child1 => hotCount = 1 ∧ child0 = absent ∧ child1 = absent
  | k + 1, node hotCount child0 child1 =>
    hotCount = (child0.leaves k).length + (child1.leaves k).length ∧ 0 < hotCount ∧
      child0.Sound k ∧ child1.Sound k

section Leaves

variable {k : ℕ} {n : TrieNode}

@[simp] theorem leaves_absent (k : ℕ) : absent.leaves k = [] := by cases k <;> rfl

theorem sound_absent (k : ℕ) : absent.Sound k := by cases k <;> trivial

theorem leaves_lt {v : ℕ} (hv : v ∈ n.leaves k) : v < 2^k := by
  induction k generalizing n v with
  | zero =>
    cases n with
    | absent => simp at hv
    | node c l r =>
      obtain rfl := List.mem_singleton.1 hv
      exact Nat.one_pos
  | succ k ih =>
    cases n with
    | absent => simp at hv
    | node c l r =>
      rw [pow_succ]
      rcases List.mem_append.1 hv with hv | hv
      · have := ih hv
        omega
      · obtain ⟨u, hu, rfl⟩ := List.mem_map.1 hv
        have := ih hu
        omega

theorem leaves_sorted (k : ℕ) (n : TrieNode) : (n.leaves k).Pairwise (· < ·) := by
  induction k generalizing n with
  | zero =>
    cases n with
    | absent => exact List.Pairwise.nil
    | node c l r => simp [leaves]
  | succ k ih =>
    cases n with
    | absent => exact List.Pairwise.nil
    | node c l r =>
      refine List.pairwise_append.2 ⟨ih l, List.pairwise_map.2 ((ih r).imp ?_), ?_⟩
      · intro u v huv
        omega
      · intro u hu v hv
        obtain ⟨v, -, rfl⟩ := List.mem_map.1 hv
        have := leaves_lt hu
        omega

/-- The stored count of a node is the number of leaves below it. -/
theorem Sound.count_eq (h : n.Sound k) : n.count = (n.leaves k).length := by
  cases n with
  | absent => simp [count]
  | node c l r =>
    cases k with
    | zero => simpa [count, leaves] using h.1
    | succ k => simpa [count, leaves] using h.1

/-- A node that is there has something below it. -/
theorem Sound.ne_absent_iff (h : n.Sound k) : n ≠ absent ↔ 0 < n.count := by
  cases n with
  | absent => simp [count]
  | node c l r =>
    cases k with
    | zero => simp [count, h.1]
    | succ k => simpa [count] using h.2.1

theorem Sound.child (h : n.Sound (k + 1)) (bit : ℕ) : (n.child bit).Sound k := by
  cases n with
  | absent => simp [TrieNode.child, Sound]
  | node c l r =>
    unfold TrieNode.child
    split_ifs
    · exact h.2.2.1
    · exact h.2.2.2

end Leaves

/-! ## Bits of numbers -/

/-- A number of `k + 1` bits and one of `k`, by their leading bits. -/
theorem top_cons {k l : ℕ} (hl : l ≤ k) (b v : ℕ) :
    top (k + 1) (l + 1) (b * 2^k + v) = b * 2^l + top k l v := by
  have hk : 2^k = 2^l * 2^(k - l) := by
    rw [← pow_add]
    congr 1
    omega
  have hpos : 0 < 2^(k - l) := by positivity
  unfold top
  rw [show k + 1 - (l + 1) = k - l by omega, hk, ← mul_assoc, Nat.add_comm,
    Nat.add_mul_div_right _ _ hpos, Nat.add_comm]

theorem top_lt {k l v : ℕ} (hl : l ≤ k) (hv : v < 2^k) : top k l v < 2^l := by
  unfold top
  rw [Nat.div_lt_iff_lt_mul (by positivity), ← pow_add]
  rwa [show l + (k - l) = k by omega]

/-- The low `k + 1` bits are the next bit and the low `k`. -/
theorem mod_two_pow_succ (x k : ℕ) : x % 2^(k + 1) = (x >>> k) % 2 * 2^k + x % 2^k := by
  rw [Nat.shiftRight_eq_div_pow, pow_succ, Nat.mod_mul, Nat.add_comm, Nat.mul_comm]

/-- Numbers with the leading bits of `x` below a node are below the child on the next bit. -/
theorem countP_leaves {k l : ℕ} (hl : l ≤ k) (n : TrieNode) (x : ℕ) :
    (n.leaves (k + 1)).countP (fun v => top (k + 1) (l + 1) v = top (k + 1) (l + 1) (x % 2^(k + 1))) =
      ((n.child ((x >>> k) % 2)).leaves k).countP (fun v => top k l v = top k l (x % 2^k)) := by
  cases n with
  | absent => simp [child]
  | node c left right =>
    have hx : x % 2^k < 2^k := Nat.mod_lt _ (by positivity)
    have hbit : (x >>> k) % 2 < 2 := Nat.mod_lt _ two_pos
    rw [mod_two_pow_succ, top_cons hl]
    simp only [leaves, List.countP_append, List.countP_map]
    -- On the left the next bit is 0, and on the right 1.
    have hzero : ∀ v, top (k + 1) (l + 1) v = top k l v := by
      intro v
      have := top_cons hl 0 v
      simpa using this
    have hone : ∀ v, top (k + 1) (l + 1) (2^k + v) = 2^l + top k l v := by
      intro v
      have := top_cons hl 1 v
      simpa using this
    have hxt := top_lt hl hx
    by_cases hb : (x >>> k) % 2 = 0
    · have hright : List.countP ((fun v => decide (top (k + 1) (l + 1) v =
          (x >>> k) % 2 * 2^l + top k l (x % 2^k))) ∘ (2^k + ·)) (right.leaves k) = 0 := by
        rw [List.countP_eq_zero]
        intro v _
        simp only [Function.comp_apply, hone, hb, decide_eq_true_eq]
        omega
      rw [hright, Nat.add_zero]
      simp only [hzero, hb, Nat.zero_mul, Nat.zero_add, child, if_true]
    · have hb1 : (x >>> k) % 2 = 1 := by omega
      have hleft : List.countP (fun v => decide (top (k + 1) (l + 1) v =
          (x >>> k) % 2 * 2^l + top k l (x % 2^k))) (left.leaves k) = 0 := by
        rw [List.countP_eq_zero]
        intro v hv
        have := top_lt hl (leaves_lt hv)
        simp only [hzero, hb1, decide_eq_true_eq]
        omega
      rw [hleft, Nat.zero_add]
      simp [Function.comp_def, hone, hb1, child]

/-! ## Walks along bits -/

section Walks

variable {k : ℕ} {n : TrieNode}

@[simp] theorem descend_absent (bits : List ℕ) : descend bits absent = absent := by
  cases bits <;> rfl

theorem descend_cons (bit : ℕ) (bits : List ℕ) (n : TrieNode) :
    descend (bit :: bits) n = descend bits (n.child bit) := by
  cases n with
  | absent => simp [child]
  | node c l r => rfl

theorem descend_nil (n : TrieNode) : descend [] n = n := by cases n <;> rfl

theorem length_bitsFrom (x k : ℕ) : (bitsFrom x k).length = k := by
  induction k with
  | zero => rfl
  | succ k ih => simp [bitsFrom, ih]

theorem bitsFrom_eq_map (x k : ℕ) :
    bitsFrom x k = (List.range k).map fun i => (x >>> (k - 1 - i)) % 2 := by
  induction k with
  | zero => rfl
  | succ k ih =>
    rw [bitsFrom, ih, List.range_succ_eq_map, List.map_cons, List.map_map]
    simp only [Nat.add_sub_cancel, Nat.sub_zero, List.cons.injEq, true_and]
    refine List.map_congr_left fun i _ => ?_
    simp only [Function.comp_apply, Nat.succ_eq_add_one]
    rw [show k - (i + 1) = k - 1 - i by omega]

/-- Along the first bits of `x`, the count is that of the numbers with these bits. -/
theorem Sound.count_descend (h : n.Sound k) (x : ℕ) {l : ℕ} (hl : l ≤ k) :
    (descend ((bitsFrom x k).take l) n).count = ((n.leaves k).countP fun v =>
      top k l v = top k l (x % 2^k) : ℕ) := by
  induction l generalizing k n with
  | zero =>
    rw [List.take_zero, descend_nil, h.count_eq]
    congr 1
    refine (List.countP_eq_length.2 ?_).symm
    intro v hv
    rw [top_zero (leaves_lt hv), top_zero (Nat.mod_lt _ (by positivity))]
    simp
  | succ l ih =>
    obtain ⟨k, rfl⟩ : ∃ j, k = j + 1 := ⟨k - 1, by omega⟩
    rw [bitsFrom, List.take_succ_cons, descend_cons, ih (h.child _) (by omega),
      countP_leaves (by omega)]

/-- The node at the end of all bits says whether the number is there. -/
theorem Sound.count_descend_self (h : n.Sound k) (x : ℕ) :
    (descend (bitsFrom x k) n).count = if x % 2^k ∈ n.leaves k then 1 else 0 := by
  have hnodup : (n.leaves k).Nodup := (leaves_sorted k n).imp fun hlt => hlt.ne
  have hself := h.count_descend x le_rfl
  rw [List.take_of_length_le (length_bitsFrom x k).le] at hself
  have hcount : (n.leaves k).countP (fun v => top k k v = top k k (x % 2^k)) =
      (n.leaves k).count (x % 2^k) := by
    simp only [top_self, List.count]
    congr 1
  rw [hself, hcount, hnodup.count]
  split_ifs <;> rfl

theorem pathCounts_eq (bits : List ℕ) (n : TrieNode) : pathCounts bits n =
    (List.range (bits.length + 1)).map fun l => (descend (bits.take l) n).count := by
  induction bits generalizing n with
  | nil => simp [pathCounts, descend_nil]
  | cons bit bits ih =>
    rw [pathCounts, ih, List.length_cons]
    conv_rhs => rw [List.range_succ_eq_map, List.map_cons, List.map_map]
    simp only [List.take_zero, descend_nil, Function.comp_def, Nat.succ_eq_add_one,
      List.take_succ_cons, descend_cons]

/-- The loop of `longest_matching_prefix` keeps the last length with a positive count. -/
theorem longestBits_eq (length : ℕ) (bits : List ℕ) (n : TrieNode) (best : Option ℕ) :
    longestBits length bits n best = (List.range bits.length).foldl (fun best l =>
      if 0 < (descend (bits.take (l + 1)) n).count then some (length + l) else best) best := by
  induction bits generalizing length n best with
  | nil => rfl
  | cons bit bits ih =>
    by_cases hn : n = absent
    · -- Nothing is below a missing node: the loop breaks, and no later length counts.
      subst hn
      have hstay : ∀ ls : List ℕ, ls.foldl (fun best l =>
          if 0 < (descend ((bit :: bits).take (l + 1)) absent).count then some (length + l)
          else best) best = best := by
        intro ls
        induction ls with
        | nil => rfl
        | cons l ls ih => simp [count]
      rw [hstay]
      simp [longestBits]
    · have hchild : ((n.child bit) ≠ absent ∧ 0 < (n.child bit).count) ↔
          0 < (n.child bit).count := by
        refine ⟨And.right, fun h => ⟨?_, h⟩⟩
        intro he
        simp [he, count] at h
      simp only [longestBits, if_neg hn, hchild, ih, List.length_cons, List.range_succ_eq_map,
        List.foldl_cons, List.foldl_map, List.take_succ_cons, descend_cons, List.take_zero,
        descend_nil, Nat.succ_eq_add_one, Nat.add_zero]
      congr 1
      funext best l
      rw [show length + 1 + l = length + (l + 1) by omega]

end Walks

/-- The last length with a positive count is the greatest. -/
theorem foldl_longest (c : ℕ → ℕ) (n : ℕ) :
    (List.range n).foldl (fun best l => if 0 < c (l + 1) then some (1 + l) else best)
        (if 0 < c 0 then some 0 else none) =
      if ∃ k ≤ n, 0 < c k then some (Nat.findGreatest (fun k => 0 < c k) n) else none := by
  induction n with
  | zero => simp
  | succ n ih =>
    rw [List.range_succ, List.foldl_append, ih]
    simp only [List.foldl_cons, List.foldl_nil]
    by_cases h0 : 0 < c (n + 1)
    · have hex : ∃ k ≤ n + 1, 0 < c k := ⟨n + 1, le_rfl, h0⟩
      rw [if_pos h0, if_pos hex, Nat.findGreatest_eq (P := fun k => 0 < c k) h0, Nat.add_comm]
    · have hex : (∃ k ≤ n + 1, 0 < c k) ↔ ∃ k ≤ n, 0 < c k := by
        constructor
        · rintro ⟨k, hk, hck⟩
          have : k ≠ n + 1 := by
            rintro rfl
            exact h0 hck
          exact ⟨k, by omega, hck⟩
        · rintro ⟨k, hk, hck⟩
          exact ⟨k, by omega, hck⟩
      rw [if_neg h0, Nat.findGreatest_of_not (P := fun k => 0 < c k) h0]
      simp only [hex]

/-! ## Mutations -/

section Mutations

variable {k : ℕ} {n : TrieNode}

theorem leaves_eq_child (k : ℕ) (n : TrieNode) : n.leaves (k + 1) =
    (n.child 0).leaves k ++ ((n.child 1).leaves k).map (2^k + ·) := by
  cases n with
  | absent => simp [child]
  | node c l r => rfl

@[simp] theorem setChild_zero (c : ℤ) (l r n : TrieNode) :
    (node c l r).setChild 0 n = node c n r := rfl
@[simp] theorem setChild_one (c : ℤ) (l r n : TrieNode) :
    (node c l r).setChild 1 n = node c l n := rfl

/-- `add_hot_ip` rebuilds one child, whether the node was there or not. -/
theorem addBits_cons (bit : ℕ) (bits : List ℕ) (n : TrieNode) : (addBits (bit :: bits) n).1 =
    (node (n.count + 1) (n.child 0) (n.child 1)).setChild bit (addBits bits (n.child bit)).1 := by
  cases n with
  | absent => simp [addBits, count, child]
  | node c l r => simp [addBits, count, child]

/-- Adding a number that is not below the node. -/
theorem Sound.addBits (h : n.Sound k) (x : ℕ) (hnew : x % 2^k ∉ n.leaves k) :
    (addBits (bitsFrom x k) n).1.Sound k ∧
      ((TrieNode.addBits (bitsFrom x k) n).1.leaves k).Perm (x % 2^k :: n.leaves k) := by
  induction k generalizing n with
  | zero =>
    cases n with
    | absent => simp [bitsFrom, TrieNode.addBits, Sound, leaves, Nat.mod_one]
    | node c l r => simp [leaves, Nat.mod_one] at hnew
  | succ k ih =>
    have hx := mod_two_pow_succ x k
    have hcount := h.count_eq
    rw [leaves_eq_child, List.length_append, List.length_map] at hcount
    rw [leaves_eq_child, List.mem_append, List.mem_map] at hnew
    rw [bitsFrom, addBits_cons, leaves_eq_child k n]
    by_cases hb : (x >>> k) % 2 = 0
    · rw [hb] at hx ⊢
      have hx' : x % 2^(k + 1) = x % 2^k := by omega
      rw [hx'] at hnew ⊢
      obtain ⟨hs, hperm⟩ := ih (h.child 0) (fun hin => hnew (.inl hin))
      have hlen := hperm.length_eq
      rw [List.length_cons] at hlen
      rw [setChild_zero]
      refine ⟨⟨?_, ?_, hs, h.child 1⟩, ?_⟩
      · rw [hlen, hcount]
        push_cast
        ring
      · omega
      · exact hperm.append_right _
    · have hb1 : (x >>> k) % 2 = 1 := by omega
      rw [hb1] at hx ⊢
      have hx' : x % 2^(k + 1) = 2^k + x % 2^k := by omega
      rw [hx'] at hnew ⊢
      obtain ⟨hs, hperm⟩ := ih (h.child 1) (fun hin => hnew (.inr ⟨_, hin, rfl⟩))
      have hlen := hperm.length_eq
      rw [List.length_cons] at hlen
      rw [setChild_one]
      refine ⟨⟨?_, ?_, h.child 0, hs⟩, ?_⟩
      · rw [hlen, hcount]
        push_cast
        ring
      · omega
      · exact ((hperm.map _).append_left _).trans List.perm_middle

/-- Removing a number that is below the node. -/
theorem Sound.removeBits (h : n.Sound k) (x : ℕ) (hin : x % 2^k ∈ n.leaves k) (w depth : ℕ) :
    ∃ n' removed, TrieNode.removeBits w depth (bitsFrom x k) n = .ok (n', removed) ∧ n'.Sound k ∧
      (n.leaves k).Perm (x % 2^k :: n'.leaves k) := by
  induction k generalizing n depth with
  | zero =>
    cases n with
    | absent => simp at hin
    | node c l r =>
      obtain ⟨rfl, rfl, rfl⟩ := h
      exact ⟨absent, w - depth + 1, by simp [bitsFrom, TrieNode.removeBits], trivial, by simp [leaves, Nat.mod_one]⟩
  | succ k ih =>
    cases n with
    | absent => simp at hin
    | node c l r =>
      have hx := mod_two_pow_succ x k
      have hcount := h.1
      have hlt : x % 2^k < 2^k := Nat.mod_lt _ (by positivity)
      by_cases hc : c - 1 = 0
      · -- The only number below: everything goes.
        refine ⟨absent, w - depth + 1, by simp [bitsFrom, TrieNode.removeBits, hc], trivial, ?_⟩
        have hone : ((node c l r).leaves (k + 1)).length = 1 := by
          have := h.count_eq
          simp only [count] at this
          omega
        obtain ⟨y, hy⟩ := List.length_eq_one_iff.1 hone
        rw [hy] at hin ⊢
        rw [List.mem_singleton.1 hin]
        simp
      · rw [leaves_eq_child, List.mem_append, List.mem_map] at hin
        by_cases hb : (x >>> k) % 2 = 0
        · rw [hb] at hx
          have hx' : x % 2^(k + 1) = x % 2^k := by omega
          rw [hx'] at hin ⊢
          have hinl : x % 2^k ∈ l.leaves k := by
            rcases hin with hin | ⟨v, -, hv⟩
            · exact hin
            · omega
          obtain ⟨n', removed, hrun, hs, hperm⟩ := ih h.2.2.1 hinl (depth + 1)
          have hlen := hperm.length_eq
          rw [List.length_cons] at hlen
          refine ⟨node (c - 1) n' r, removed, ?_, ⟨?_, ?_, hs, h.2.2.2⟩, hperm.append_right _⟩
          · simp [bitsFrom, TrieNode.removeBits, hc, hb, TrieNode.child, hrun, bind, Except.bind, pure,
              Except.pure]
          · rw [hcount, hlen]
            push_cast
            ring
          · have := h.2.1
            omega
        · have hb1 : (x >>> k) % 2 = 1 := by omega
          rw [hb1] at hx
          have hx' : x % 2^(k + 1) = 2^k + x % 2^k := by omega
          rw [hx'] at hin ⊢
          have hinr : x % 2^k ∈ r.leaves k := by
            rcases hin with hin | ⟨v, hv, he⟩
            · have := leaves_lt hin
              omega
            · have : v = x % 2^k := by omega
              rw [← this]
              exact hv
          obtain ⟨n', removed, hrun, hs, hperm⟩ := ih h.2.2.2 hinr (depth + 1)
          have hlen := hperm.length_eq
          rw [List.length_cons] at hlen
          refine ⟨node (c - 1) l n', removed, ?_, ⟨?_, ?_, h.2.2.1, hs⟩, ?_⟩
          · simp [bitsFrom, TrieNode.removeBits, hc, hb1, TrieNode.child, hrun, bind, Except.bind, pure,
              Except.pure]
          · rw [hcount, hlen]
            push_cast
            ring
          · have := h.2.1
            omega
          · exact ((hperm.map _).append_left _).trans List.perm_middle

end Mutations

/-! ## The traversal -/

/-- The nodes in pre-order, each with its network and length, `k` bits above the last. -/
def trace (w : ℕ) : ℕ → ℕ → TrieNode → List (TrieNode × ℕ × ℕ)
  | _, _, absent => []
  | 0, network, n => [(n, network, w)]
  | k + 1, network, node c l r =>
    (node c l r, network, w - (k + 1)) :: (trace w k network l ++ trace w k (network + 2^k) r)

section Traversal

variable {w : ℕ}

/-- The loop of `_walk` traces the nodes on its stack one after the other. -/
theorem walkLoop_eq (stack : List (ℕ × ℕ × TrieNode))
    (h : ∀ p ∈ stack, p.1 ≤ w ∧ 2^p.1 ∣ p.2.1 ∧ p.2.2 ≠ absent ∧ p.2.2.Sound p.1) {fuel : ℕ}
    (hfuel : (stack.map fun p => p.2.2.size).sum ≤ fuel) :
    walkLoop w fuel (stack.map fun p => (p.2.2, p.2.1, w - p.1)) =
      .ok (stack.flatMap fun p => trace w p.1 p.2.1 p.2.2) := by
  induction fuel generalizing stack with
  | zero =>
    cases stack with
    | nil => rfl
    | cons p stack =>
      obtain ⟨-, -, hne, -⟩ := h p List.mem_cons_self
      obtain ⟨k, network, n⟩ := p
      cases n with
      | absent => exact absurd rfl hne
      | node c l r =>
        simp only [List.map_cons, List.sum_cons, size] at hfuel
        omega
  | succ fuel ih =>
    cases stack with
    | nil => rfl
    | cons p stack =>
      obtain ⟨k, network, n⟩ := p
      obtain ⟨hk, hdvd, hne, hs⟩ := h _ List.mem_cons_self
      have hrest := fun p hp => h p (List.mem_cons_of_mem _ hp)
      cases n with
      | absent => exact absurd rfl hne
      | node c l r =>
        simp only [List.map_cons, List.sum_cons, size] at hfuel ⊢
        cases k with
        | zero =>
          -- A leaf has no children to push.
          obtain ⟨-, rfl, rfl⟩ := hs
          have := ih stack hrest (by simp only [size] at hfuel; omega)
          simp [walkLoop, TrieNode.child, this, trace, bind, Except.bind, pure, Except.pure]
        | succ k =>
          simp only at hk hdvd
          obtain ⟨-, -, hsl, hsr⟩ := hs
          have hkw : ¬ w ≤ w - (k + 1) := by omega
          have hshift : w - 1 - (w - (k + 1)) = k := by omega
          have hlen : w - (k + 1) + 1 = w - k := by omega
          have hor : network ||| 1 <<< k = network + 2^k := by
            obtain ⟨q, rfl⟩ := hdvd
            rw [Nat.one_shiftLeft]
            exact (Nat.two_pow_add_eq_or_of_lt (Nat.pow_lt_pow_right (by norm_num) (by omega)) q).symm
          have hdvd0 : 2^k ∣ network := (pow_dvd_pow 2 (Nat.le_succ k)).trans hdvd
          have hdvd1 : 2^k ∣ network + 2^k := (Nat.dvd_add_right hdvd0).2 (dvd_refl _)
          -- The children that exist go on the stack, the one on branch 0 on top.
          have hpush := ih ((if l = absent then [] else [(k, network, l)]) ++
            ((if r = absent then [] else [(k, network + 2^k, r)]) ++ stack))
            (by
              intro p hp
              rcases List.mem_append.1 hp with hp | hp
              · split_ifs at hp with hl
                · cases hp
                · obtain rfl := List.mem_singleton.1 hp
                  exact ⟨by simp only; omega, hdvd0, hl, hsl⟩
              · rcases List.mem_append.1 hp with hp | hp
                · split_ifs at hp with hr
                  · cases hp
                  · obtain rfl := List.mem_singleton.1 hp
                    exact ⟨by simp only; omega, hdvd1, hr, hsr⟩
                · exact hrest p hp)
            (by
              split_ifs <;> simp [*] at hfuel ⊢ <;> omega)
          have habs : ∀ j N, trace w j N absent = [] := fun j N => by cases j <;> rfl
          by_cases hl : l = absent <;> by_cases hr : r = absent <;>
            simp [hl, hr] at hpush <;>
            simp [walkLoop, TrieNode.child, hl, hr, hkw, hshift, hlen, hor, hpush, trace, habs, bind,
              Except.bind, pure, Except.pure]

theorem cleared_zero_left {k v : ℕ} (hv : v < 2^k) : cleared k 0 v = 0 := by
  unfold cleared
  rw [Nat.sub_zero, Nat.div_eq_of_lt hv, Nat.zero_mul]

theorem cleared_succ (k j v : ℕ) : cleared (k + 1) (j + 1) v = cleared k j v := by
  unfold cleared
  rw [Nat.add_sub_add_right]

theorem cleared_add {k j : ℕ} (hj : j ≤ k) (v : ℕ) :
    cleared k j (2^k + v) = 2^k + cleared k j v := by
  have hk : 2^k = 2^j * 2^(k - j) := by
    rw [← pow_add]
    congr 1
    omega
  have hpos : 0 < 2^(k - j) := by positivity
  unfold cleared
  rw [hk, Nat.add_comm (2^j * 2^(k - j)), Nat.add_mul_div_right _ _ hpos, Nat.add_mul, Nat.add_comm]

/-- A traced node as network, length, and count. -/
def entry (p : TrieNode × ℕ × ℕ) : ℕ × ℕ × ℤ := (p.2.1, p.2.2, p.1.count)

/-- The nodes traced are the prefixes of the numbers below, each with how many share it. -/
theorem Sound.mem_trace {k : ℕ} {n : TrieNode} (h : n.Sound k) (hk : k ≤ w) {network : ℕ}
    {e : ℕ × ℕ × ℤ} :
    e ∈ (trace w k network n).map entry ↔ ∃ j v, j ≤ k ∧ v ∈ n.leaves k ∧
      e = (network + cleared k j v, w - k + j,
        (((n.leaves k).countP fun u => top k j u = top k j v : ℕ) : ℤ)) := by
  induction k generalizing n network with
  | zero =>
    cases n with
    | absent => simp [trace]
    | node c l r =>
      obtain ⟨rfl, -, -⟩ := h
      simp [trace, entry, leaves, count, cleared]
  | succ k ih =>
    cases n with
    | absent => simp [trace]
    | node c l r =>
      have hk' : k ≤ w := by omega
      have hpos : 0 < 2^k := by positivity
      have hw : w - (k + 1) + 1 = w - k := by omega
      -- What the numbers on either side of the node contribute.
      have hleft : ∀ v ∈ l.leaves k, ∀ j ≤ k,
          ((node c l r).leaves (k + 1)).countP (fun u => top (k + 1) (j + 1) u =
            top (k + 1) (j + 1) v) = (l.leaves k).countP (fun u => top k j u = top k j v) := by
        intro v hv j hj
        have hlt := leaves_lt hv
        have hshift : v >>> k = 0 := by rw [Nat.shiftRight_eq_div_pow, Nat.div_eq_of_lt hlt]
        have := countP_leaves hj (node c l r) v
        rwa [hshift, Nat.mod_eq_of_lt (hlt.trans (Nat.pow_lt_pow_right (by norm_num) (by omega))),
          Nat.mod_eq_of_lt hlt] at this
      have hright : ∀ v ∈ r.leaves k, ∀ j ≤ k,
          ((node c l r).leaves (k + 1)).countP (fun u => top (k + 1) (j + 1) u =
            top (k + 1) (j + 1) (2^k + v)) = (r.leaves k).countP (fun u => top k j u = top k j v) := by
        intro v hv j hj
        have hlt := leaves_lt hv
        have hshift : (2^k + v) >>> k = 1 := by
          rw [Nat.shiftRight_eq_div_pow, Nat.add_div_left _ hpos, Nat.div_eq_of_lt hlt]
        have hmod : (2^k + v) % 2^(k + 1) = 2^k + v := by
          apply Nat.mod_eq_of_lt
          rw [pow_succ]
          omega
        have := countP_leaves hj (node c l r) (2^k + v)
        rwa [hshift, hmod, Nat.add_mod_left, Nat.mod_eq_of_lt hlt] at this
      have hall : ∀ v ∈ (node c l r).leaves (k + 1), ((node c l r).leaves (k + 1)).countP (fun u =>
          top (k + 1) 0 u = top (k + 1) 0 v) = ((node c l r).leaves (k + 1)).length := by
        intro v hv
        refine List.countP_eq_length.2 (fun u hu => ?_)
        rw [top_zero (leaves_lt hu), top_zero (leaves_lt hv)]
        simp
      have hcount : c = ((node c l r).leaves (k + 1)).length := h.count_eq
      simp only [trace, List.map_cons, List.map_append, List.mem_cons, List.mem_append,
        ih h.2.2.1 hk', ih h.2.2.2 hk']
      constructor
      · rintro (rfl | ⟨j, v, hj, hv, rfl⟩ | ⟨j, v, hj, hv, rfl⟩)
        · have hne : (node c l r).leaves (k + 1) ≠ [] := by
            intro he
            have := h.2.1
            rw [hcount, he] at this
            simp at this
          obtain ⟨v, hv⟩ := List.exists_mem_of_ne_nil _ hne
          refine ⟨0, v, Nat.zero_le _, hv, ?_⟩
          rw [cleared_zero_left (leaves_lt hv), hall v hv]
          simp only [entry, count, ← hcount, Nat.add_zero]
        · refine ⟨j + 1, v, by omega, List.mem_append_left _ hv, ?_⟩
          rw [cleared_succ, hleft v hv j hj, ← hw]
          congr 2
          omega
        · refine ⟨j + 1, 2^k + v, by omega,
            List.mem_append_right _ (List.mem_map.2 ⟨v, hv, rfl⟩), ?_⟩
          rw [cleared_succ, cleared_add hj, hright v hv j hj, ← hw]
          congr 1
          · omega
          · congr 1
            omega
      · rintro ⟨j, v, hj, hv, rfl⟩
        cases j with
        | zero =>
          left
          rw [cleared_zero_left (leaves_lt hv), hall v hv]
          simp only [entry, count, ← hcount, Nat.add_zero]
        | succ j =>
          right
          rcases List.mem_append.1 hv with hv | hv
          · left
            refine ⟨j, v, by omega, hv, ?_⟩
            rw [cleared_succ, hleft v hv j (by omega), ← hw]
            congr 2
            omega
          · right
            obtain ⟨u, hu, rfl⟩ := List.mem_map.1 hv
            refine ⟨j, u, by omega, hu, ?_⟩
            rw [cleared_succ, cleared_add (by omega), hright u hu j (by omega), ← hw]
            congr 1
            · omega
            · congr 1
              omega

/-- The nodes are traced in the order of their prefixes. -/
theorem Sound.trace_sorted {k : ℕ} {n : TrieNode} (h : n.Sound k) (hk : k ≤ w) (network : ℕ) :
    ((trace w k network n).map entry).Pairwise fun p q =>
      p.1 < q.1 ∨ p.1 = q.1 ∧ p.2.1 < q.2.1 := by
  induction k generalizing n network with
  | zero =>
    cases n with
    | absent => exact List.Pairwise.nil
    | node c l r => simp [trace]
  | succ k ih =>
    cases n with
    | absent => exact List.Pairwise.nil
    | node c l r =>
      have hk' : k ≤ w := by omega
      -- Below the node the lengths are greater, and the networks of the right come last.
      have hl : ∀ e ∈ (trace w k network l).map entry, network ≤ e.1 ∧ e.1 < network + 2^k ∧
          w - (k + 1) < e.2.1 := by
        intro e he
        obtain ⟨j, v, hj, hv, rfl⟩ := (h.2.2.1.mem_trace hk').1 he
        have h1 := cleared_le k j v
        have h2 := leaves_lt hv
        refine ⟨?_, ?_, ?_⟩ <;> simp only <;> omega
      have hr : ∀ e ∈ (trace w k (network + 2^k) r).map entry, network + 2^k ≤ e.1 ∧
          w - (k + 1) < e.2.1 := by
        intro e he
        obtain ⟨j, v, hj, hv, rfl⟩ := (h.2.2.2.mem_trace hk').1 he
        refine ⟨?_, ?_⟩ <;> simp only <;> omega
      simp only [trace, List.map_cons, List.map_append]
      refine List.pairwise_cons.2 ⟨?_, List.pairwise_append.2 ⟨ih h.2.2.1 hk' _, ih h.2.2.2 hk' _, ?_⟩⟩
      · intro e he
        simp only [entry]
        rcases List.mem_append.1 he with he | he
        · have := hl e he
          omega
        · have := hr e he
          have : 0 < 2^k := by positivity
          omega
      · intro e he f hf
        have := hl e he
        have := hr f hf
        omega

/-- The traced leaves are the numbers below. -/
theorem Sound.trace_leaves {k : ℕ} {n : TrieNode} (h : n.Sound k) (hk : k ≤ w) (network : ℕ) :
    ((trace w k network n).filter fun p => p.2.2 = w).map (fun p => p.2.1) =
      (n.leaves k).map (network + ·) := by
  induction k generalizing n network with
  | zero =>
    cases n with
    | absent => rfl
    | node c l r => simp [trace, leaves]
  | succ k ih =>
    cases n with
    | absent => rfl
    | node c l r =>
      have hk' : k ≤ w := by omega
      have hne : ¬ w - (k + 1) = w := by omega
      simp only [trace, List.filter_cons, hne, decide_false, Bool.false_eq_true, if_false,
        List.filter_append, List.map_append, ih h.2.2.1 hk', ih h.2.2.2 hk', leaves, List.map_map]
      congr 2
      funext v
      simp only [Function.comp_apply]
      omega

end Traversal

end TrieNode

/-! ## The trie -/

namespace BinaryTrie

open TrieNode

/-- The root is sound. -/
def Intact (t : BinaryTrie) : Prop := t.root.Sound t.bitLength

/-- The numbers that the trie holds, ascending. -/
def numbers (t : BinaryTrie) : List ℕ := t.root.leaves t.bitLength

section Trie

variable {t : BinaryTrie}

theorem value_lt {address : Address} (hfam : address.family = t.family) :
    address.value < 2^t.bitLength := by
  unfold bitLength
  rw [← hfam]
  exact address.inRange

theorem bits_eq {address : Address} (hfam : address.family = t.family) :
    address.bits = bitsFrom address.value t.bitLength := by
  unfold Address.bits bitLength
  rw [hfam]

/-- `contains` is membership. -/
theorem Intact.contains_eq (h : t.Intact) {address : Address} (hfam : address.family = t.family) :
    t.contains address = .ok (decide (address.value ∈ t.numbers)) := by
  have hself := Sound.count_descend_self h address.value
  rw [Nat.mod_eq_of_lt (value_lt hfam)] at hself
  simp only [contains, checkFamily, hfam, if_true, bits_eq hfam, bind, Except.bind, pure,
    Except.pure]
  refine congrArg Except.ok (decide_eq_decide.2 ?_)
  rw [hself]
  unfold numbers
  constructor
  · rintro ⟨-, hone⟩
    by_contra hin
    rw [if_neg hin] at hone
    cases hone
  · intro hin
    rw [if_pos hin] at hself ⊢
    refine ⟨?_, rfl⟩
    intro he
    rw [he] at hself
    cases hself

/-- `add_hot_ip` of an address that is not HOT. -/
theorem Intact.addHotIp_new (h : t.Intact) {address : Address} (hfam : address.family = t.family)
    (hnew : address.value ∉ t.numbers) :
    ∃ t', t.addHotIp address = .ok (true, t') ∧ t'.family = t.family ∧ t'.Intact ∧
      ∀ x, x ∈ t'.numbers ↔ x = address.value ∨ x ∈ t.numbers := by
  have hcontains := h.contains_eq hfam
  simp only [hnew, decide_false] at hcontains
  have hmod := Nat.mod_eq_of_lt (value_lt hfam)
  obtain ⟨hs, hperm⟩ := Sound.addBits h address.value (by rw [hmod]; exact hnew)
  refine ⟨⟨t.family, (addBits (bitsFrom address.value t.bitLength) t.root).1,
    t.nodeCount + (addBits (bitsFrom address.value t.bitLength) t.root).2⟩, ?_, rfl, hs, ?_⟩
  · simp [addHotIp, checkFamily, hfam, hcontains, bits_eq hfam, bind, Except.bind, pure, Except.pure]
  · intro x
    rw [hmod] at hperm
    exact hperm.mem_iff.trans List.mem_cons

/-- `remove_hot_ip` of an address that is HOT. -/
theorem Intact.removeHotIp_hot (h : t.Intact) {address : Address}
    (hfam : address.family = t.family) (hhot : address.value ∈ t.numbers) :
    ∃ t', t.removeHotIp address = .ok (true, t') ∧ t'.family = t.family ∧ t'.Intact ∧
      ∀ x, x ∈ t'.numbers ↔ x ≠ address.value ∧ x ∈ t.numbers := by
  have hcontains := h.contains_eq hfam
  simp only [hhot, decide_true] at hcontains
  have hmod := Nat.mod_eq_of_lt (value_lt hfam)
  obtain ⟨n, removed, hrun, hs, hperm⟩ := Sound.removeBits h address.value
    (by rw [hmod]; exact hhot) t.bitLength 0
  rw [hmod] at hperm
  refine ⟨{ t with root := n, nodeCount := t.nodeCount - removed }, ?_, rfl, hs, ?_⟩
  · simp [removeHotIp, checkFamily, hfam, hcontains, bits_eq hfam, hrun, bind, Except.bind, pure,
      Except.pure]
  · intro x
    have hnodup : (address.value :: n.leaves t.bitLength).Nodup :=
      hperm.nodup_iff.1 ((leaves_sorted _ _).imp fun hlt => hlt.ne)
    show x ∈ n.leaves t.bitLength ↔ x ≠ address.value ∧ x ∈ t.root.leaves t.bitLength
    rw [hperm.mem_iff, List.mem_cons]
    constructor
    · intro hx
      exact ⟨fun he => (List.nodup_cons.1 hnodup).1 (he ▸ hx), .inr hx⟩
    · rintro ⟨hne, hx | hx⟩
      · exact absurd hx hne
      · exact hx

theorem Intact.hotIpCount_eq (h : t.Intact) : t.hotIpCount = t.numbers.length := Sound.count_eq h

/-- `hot_count`, for a prefix of the trie's family with any network. -/
theorem Intact.hotCount_eq (h : t.Intact) {p : Prefix} (hp : p.family = t.family) :
    t.hotCount p = .ok (countUnder t.bitLength t.numbers p.length
      (residue t.bitLength p.network) : ℕ) := by
  have hlen : p.length ≤ t.bitLength := by
    unfold bitLength
    rw [← hp]
    exact p.length_le
  have hbits : ((List.range p.length).map fun index =>
      (p.network >>> (t.bitLength - 1 - index) % 2).toNat) =
      (bitsFrom (residue t.bitLength p.network) t.bitLength).take p.length := by
    rw [bitsFrom_eq_map, ← List.map_take, List.take_range, min_eq_left hlen]
    refine List.map_congr_left fun i hi => ?_
    have hi' : i < t.bitLength := lt_of_lt_of_le (List.mem_range.1 hi) hlen
    have hbit := bitAt_spec hi' p.network
    rw [Nat.shiftRight_eq_div_pow, show t.bitLength - 1 - i = t.bitLength - (i + 1) by omega]
    rw [bitAt, show t.bitLength - 1 - i = t.bitLength - (i + 1) by omega] at hbit
    exact hbit
  have hcount := Sound.count_descend h (residue t.bitLength p.network) hlen
  rw [Nat.mod_eq_of_lt (residue_lt _ _)] at hcount
  simp only [hotCount, checkFamily, hp, if_true, hbits, hcount, bind, Except.bind]
  rfl

theorem prefixOf_ok (t : BinaryTrie) (v : ℕ) {l : ℕ} (hl : l ≤ t.bitLength) :
    t.prefixOf v l = .ok (prefixAt t.family v l) := by
  simp only [prefixOf, makePrefix, clearHostBits_natCast, bitLength]
  rw [make?_cleared t.family v hl]

/-- The counts along the bits of an address. -/
theorem Intact.pathCounts_eq (h : t.Intact) {v : ℕ} (hv : v < 2^t.bitLength) :
    pathCounts (bitsFrom v t.bitLength) t.root = (List.range (t.bitLength + 1)).map fun l =>
      ((countUnder t.bitLength t.numbers l v : ℕ) : ℤ) := by
  rw [TrieNode.pathCounts_eq, length_bitsFrom]
  refine List.map_congr_left fun l hl => ?_
  have hlw : l ≤ t.bitLength := Nat.lt_succ_iff.1 (List.mem_range.1 hl)
  rw [Sound.count_descend h v hlw, Nat.mod_eq_of_lt hv]
  rfl

/-- `ancestor_counts`. -/
theorem Intact.ancestorCounts_eq (h : t.Intact) {address : Address}
    (hfam : address.family = t.family) {m : ℕ} (hm : m ≤ t.bitLength) :
    t.ancestorCounts address m = .ok (ancestorsOf t.family t.numbers address.value m) := by
  have hmin : t.checkMinLength m = .ok m := by simp [checkMinLength, hm]
  simp only [ancestorCounts, checkFamily, hfam, if_true, hmin, bits_eq hfam,
    h.pathCounts_eq (value_lt hfam), bind, Except.bind]
  refine mapM_ok _ (fun l hl => ?_)
  have hlw : l ≤ t.bitLength := by
    have := List.mem_range'_1.1 hl
    omega
  have hread := countOf_range (fun l =>
    ((countUnder t.bitLength t.numbers l address.value : ℕ) : ℤ)) hlw
  rw [PatriciaTrie.countOf] at hread
  simp only [prefixOf_ok t _ hlw, hread]
  rfl

/-- `longest_matching_prefix`. -/
theorem Intact.longestMatchingPrefix_eq (h : t.Intact) {address : Address}
    (hfam : address.family = t.family) :
    t.longestMatchingPrefix address = .ok (longestOf t.family t.numbers address.value) := by
  have hv := value_lt hfam
  have hcount : ∀ l ≤ t.bitLength,
      (descend ((bitsFrom address.value t.bitLength).take l) t.root).count =
        (countUnder t.bitLength t.numbers l address.value : ℕ) := by
    intro l hl
    rw [Sound.count_descend h address.value hl, Nat.mod_eq_of_lt hv]
    rfl
  have hroot : (t.root ≠ absent ∧ 0 < t.root.count) ↔
      0 < countUnder t.bitLength t.numbers 0 address.value := by
    have hzero := hcount 0 (Nat.zero_le _)
    rw [List.take_zero, descend_nil] at hzero
    rw [Sound.ne_absent_iff h, and_self, hzero, Nat.cast_pos]
  have hfold : (List.range t.bitLength).foldl (fun best l =>
      if 0 < (descend ((bitsFrom address.value t.bitLength).take (l + 1)) t.root).count
      then some (1 + l) else best)
        (if 0 < countUnder t.bitLength t.numbers 0 address.value then some 0 else none) =
      (List.range t.bitLength).foldl (fun best l =>
        if 0 < countUnder t.bitLength t.numbers (l + 1) address.value then some (1 + l) else best)
        (if 0 < countUnder t.bitLength t.numbers 0 address.value then some 0 else none) := by
    refine List.foldl_ext _ _ _ fun best l hl => ?_
    rw [hcount (l + 1) (List.mem_range.1 hl)]
    simp only [Nat.cast_pos]
  have hlongest := foldl_longest (fun l => countUnder t.bitLength t.numbers l address.value)
    t.bitLength
  simp only [longestMatchingPrefix, checkFamily, hfam, if_true, bits_eq hfam, hroot, bind,
    Except.bind, longestBits_eq, length_bitsFrom, hfold, hlongest]
  have hiff : (∃ l ≤ t.bitLength, 0 < countUnder t.bitLength t.numbers l address.value) ↔
      ¬ t.numbers = [] := countUnder_pos_iff (fun v hin => leaves_lt hin) hv
  unfold longestOf
  by_cases hnil : t.numbers = []
  · rw [if_neg (by rw [hiff]; exact not_not.2 hnil), if_pos hnil]
    rfl
  · rw [if_pos (hiff.2 hnil), if_neg hnil]
    simp only [prefixOf_ok t _ (Nat.findGreatest_le _)]
    rfl

/-- `_walk` traces the nodes. -/
theorem Intact.walk_eq (h : t.Intact) : t.walk = .ok (trace t.bitLength t.bitLength 0 t.root) := by
  unfold walk
  by_cases hroot : t.root = absent
  · rw [if_pos hroot, hroot]
    cases t.bitLength <;> rfl
  · rw [if_neg hroot]
    have := walkLoop_eq (w := t.bitLength) [(t.bitLength, 0, t.root)]
      (by simpa using ⟨hroot, h⟩) (le_refl _)
    simpa using this

theorem flatten_map_ite {α β : Type*} (l : List α) (p : α → Prop) [DecidablePred p] (f : α → β) :
    (l.map fun x => if p x then [f x] else []).flatten = (l.filter p).map f := by
  induction l with
  | nil => rfl
  | cons x l ih =>
    rw [List.map_cons, List.flatten_cons, ih]
    by_cases hx : p x
    · simp [hx]
    · simp [hx]

/-- What the root's trace lists. -/
theorem Intact.mem_trace_root (h : t.Intact) {e : ℕ × ℕ × ℤ} :
    e ∈ (trace t.bitLength t.bitLength 0 t.root).map entry ↔ ∃ l v, l ≤ t.bitLength ∧
      v ∈ t.numbers ∧
      e = (cleared t.bitLength l v, l, ((countUnder t.bitLength t.numbers l v : ℕ) : ℤ)) := by
  rw [Sound.mem_trace h le_rfl]
  simp only [Nat.zero_add, Nat.sub_self]
  rfl

theorem countUnder_pos_of_mem {w : ℕ} {L : List ℕ} {v : ℕ} (hv : v ∈ L) (l : ℕ) :
    0 < countUnder w L l v := List.countP_pos_iff.2 ⟨v, hv, by simp⟩

/-- The nodes traced are the listing of the prefixes. -/
theorem Intact.isPrefixListing_trace (h : t.Intact) (m : ℕ) : IsPrefixListing t.family t.numbers m
    ((((trace t.bitLength t.bitLength 0 t.root).map entry).filter (m ≤ ·.2.1)).map fun e =>
      ⟨prefixAt t.family e.1 e.2.1, e.2.2⟩) := by
  constructor
  · rw [List.pairwise_map]
    refine ((Sound.trace_sorted h le_rfl 0).filter _).imp_of_mem ?_
    intro e f he hf hbefore
    obtain ⟨l1, v1, h1, -, rfl⟩ := h.mem_trace_root.1 (List.mem_of_mem_filter he)
    obtain ⟨l2, v2, h2, -, rfl⟩ := h.mem_trace_root.1 (List.mem_of_mem_filter hf)
    have h1' : l1 ≤ t.family.bitLength := h1
    have h2' : l2 ≤ t.family.bitLength := h2
    have e1 := prefixAt_cleared t.family v1 h1
    have e2 := prefixAt_cleared t.family v2 h2
    simp only [bitLength, PrefixCount.Before, e1, e2] at hbefore ⊢
    simpa only [prefixAt, min_eq_left h1', min_eq_left h2', Nat.cast_lt, Nat.cast_inj] using hbefore
  · intro p
    rw [List.mem_map]
    constructor
    · rintro ⟨e, hin, rfl⟩
      obtain ⟨hin, hml⟩ := List.mem_filter.1 hin
      obtain ⟨l, v, hl, hv, rfl⟩ := h.mem_trace_root.1 hin
      have := prefixAt_cleared t.family v hl
      refine ⟨l, v, of_decide_eq_true hml, hl, hv, ?_⟩
      simp only [bitLength, this]
    · rintro ⟨l, v, hml, hl, hv, rfl⟩
      refine ⟨_, List.mem_filter.2 ⟨h.mem_trace_root.2 ⟨l, v, hl, hv, rfl⟩, by simpa using hml⟩, ?_⟩
      have := prefixAt_cleared t.family v hl
      simp only [bitLength, this]

/-- A traced node has the prefix of its network and length. -/
theorem Intact.makePrefix_trace (h : t.Intact) {visit : TrieNode × ℕ × ℕ}
    (hin : visit ∈ trace t.bitLength t.bitLength 0 t.root) :
    t.makePrefix visit.2.1 visit.2.2 = .ok (prefixAt t.family visit.2.1 visit.2.2) := by
  obtain ⟨l, v, hl, -, he⟩ := h.mem_trace_root.1 (List.mem_map.2 ⟨_, hin, rfl⟩)
  simp only [entry, Prod.mk.injEq] at he
  obtain ⟨hnetwork, hlength, -⟩ := he
  have hpfx : prefixAt t.family (cleared t.bitLength l v) l = prefixAt t.family v l :=
    prefixAt_cleared t.family v hl
  have hmake : Prefix.make? t.family (cleared t.bitLength l v : ℕ) l = some (prefixAt t.family v l) :=
    make?_cleared t.family v hl
  rw [hnetwork, hlength, hpfx]
  simp only [makePrefix, hmake]

/-- `iter_prefix_counts`. -/
theorem Intact.iterPrefixCounts_spec (h : t.Intact) {m : ℕ} (hm : m ≤ t.bitLength) :
    ∃ ps, t.iterPrefixCounts m = .ok ps ∧ IsPrefixListing t.family t.numbers m ps := by
  have hmin : t.checkMinLength m = .ok m := by simp [checkMinLength, hm]
  refine ⟨_, ?_, h.isPrefixListing_trace m⟩
  simp only [iterPrefixCounts, hmin, h.walk_eq, bind, Except.bind]
  rw [mapM_ok (g := fun p : TrieNode × ℕ × ℕ => if m ≤ p.2.2 then
    [(⟨prefixAt t.family p.2.1 p.2.2, p.1.count⟩ : PrefixCount)] else [])]
  · rw [List.filter_map, List.map_map]
    exact congrArg Except.ok (flatten_map_ite _ _ _)
  · -- Every node traced has a positive count.
    rintro ⟨n, network, length⟩ hin
    obtain ⟨l, v, hl, hv, he⟩ := h.mem_trace_root.1 (List.mem_map.2 ⟨_, hin, rfl⟩)
    simp only [entry, Prod.mk.injEq] at he
    have hpos : 0 < n.count := by
      rw [he.2.2]
      exact_mod_cast countUnder_pos_of_mem hv l
    have hmake := h.makePrefix_trace hin
    simp only [hpos, true_and]
    by_cases hml : m ≤ length
    · rw [if_pos hml, if_pos hml]
      simp only [hmake]
      rfl
    · rw [if_neg hml, if_neg hml]
      rfl

/-- `iter_hot_addresses`. -/
theorem Intact.iterHotAddresses_spec (h : t.Intact) :
    ∃ as : List Address, t.iterHotAddresses = .ok as ∧ as.map Address.value = t.numbers ∧
      ∀ a ∈ as, a.family = t.family := by
  have hleaves := Sound.trace_leaves h le_rfl 0
  simp only [Nat.zero_add, List.map_id'] at hleaves
  -- The network of a traced leaf is a number of the trie.
  have hmake : ∀ p ∈ (trace t.bitLength t.bitLength 0 t.root).filter (fun p => p.2.2 = t.bitLength),
      p.2.1 < 2^t.family.bitLength := by
    intro p hp
    have : p.2.1 ∈ t.root.leaves t.bitLength := by
      rw [← hleaves]
      exact List.mem_map.2 ⟨p, hp, rfl⟩
    exact leaves_lt this
  let addressOf (n : ℕ) : Address := ⟨t.family, n % 2^t.family.bitLength, Nat.mod_lt _ (by positivity)⟩
  refine ⟨((trace t.bitLength t.bitLength 0 t.root).filter fun p => p.2.2 = t.bitLength).map
    fun p => addressOf p.2.1, ?_, ?_, ?_⟩
  · simp only [iterHotAddresses, h.walk_eq, bind, Except.bind]
    rw [mapM_ok (g := fun p : TrieNode × ℕ × ℕ =>
      if p.2.2 = t.bitLength then [addressOf p.2.1] else [])]
    · exact congrArg Except.ok (flatten_map_ite _ _ _)
    · rintro ⟨n, network, length⟩ hin
      by_cases hl : length = t.bitLength
      · have hlt := hmake _ (List.mem_filter.2 ⟨hin, by simpa using hl⟩)
        simp only at hlt
        simp [hl, Address.make?, hlt, addressOf, Nat.mod_eq_of_lt hlt, pure, Except.pure]
      · simp [hl, pure, Except.pure]
  · rw [List.map_map, numbers, ← hleaves]
    refine List.map_congr_left fun p hp => ?_
    simp only [Function.comp_apply, addressOf, Nat.mod_eq_of_lt (hmake p hp)]
  · intro a ha
    obtain ⟨p, -, rfl⟩ := List.mem_map.1 ha
    rfl

end Trie

end BinaryTrie

end Hammertime.Trie
