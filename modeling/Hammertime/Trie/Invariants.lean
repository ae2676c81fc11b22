import Hammertime.Trie.Agreement

/-!
# The representation invariant

`check_patricia` of `hammertime.trie.structure.invariants`, and the invariant that it tests, stated
clause by clause (`RepInvariant`). Every trie that calls can make satisfies the invariant and passes
the check, and on such a trie no method raises anything but the errors that it documents: no
`InvariantViolation`, no refused release, no read through `NO_NODE`, and no read of a released slot.
-/

namespace Hammertime.Trie

open Bits NodeArena PatriciaTrie

/-- What `check_patricia` raises, with the values that the message names. -/
inductive InvariantViolation where
  /-- "section 27: arena storage lists disagree". -/
  | storageLists (capacity network hotCount child : ℕ)
  /-- "section 27: {where} is node id {nid}, outside the arena's [0, {capacity})". -/
  | outsideArena (parent : ℤ) (branch : ℕ) (nid : ℤ) (capacity : ℕ)
  /-- "section 27: {where} is node id {nid}, which is released (length {length})". -/
  | released (parent : ℤ) (branch : ℕ) (nid length : ℤ)
  /-- "section 27: node id {nid} is reached twice". -/
  | reachedTwice (nid parent : ℤ) (branch : ℕ)
  /-- "section 27: node {nid} has length {length}; expected <= {bits}". -/
  | lengthOver (nid length : ℤ) (bits : ℕ)
  /-- "section 27: node {nid} has network {network} at length {length}". -/
  | badNetwork (nid network length : ℤ)
  /-- "section 27: node {nid} does not strictly extend its parent". -/
  | notExtending (nid length parent parentLength : ℤ)
  /-- "section 27: node {nid} is {where} but its prefix does not extend its parent's". -/
  | wrongBranch (nid parent : ℤ) (branch : ℕ) (parentLength : ℤ)
  /-- "section 27: leaf node {nid} has length {length}; expected {bits}". -/
  | leafLength (nid length : ℤ) (bits : ℕ)
  /-- "section 12: leaf node {nid} has hot_count {count}; expected 1". -/
  | leafCount (nid count : ℤ)
  /-- "section 27: node {nid} has exactly one child". -/
  | oneChild (nid left right : ℤ)
  /-- "section 12: node {nid} has hot_count {count} but its children sum to {total}". -/
  | childrenSum (nid count left right total : ℤ)
  /-- "section 11: arena capacity is {capacity} but live_count + free_count is". -/
  | capacityAccount (capacity : ℕ) (liveCount : ℤ) (freeCount : ℕ)
  /-- "section 11: arena.free_ids[{position}] is node id {nid}, outside the arena's". -/
  | freeOutside (position : ℕ) (nid : ℤ) (capacity : ℕ)
  /-- "section 11: node id {nid} is listed in arena.free_ids at positions". -/
  | freeTwice (nid : ℤ) (first position : ℕ)
  /-- "section 11: node id {nid} is in arena.free_ids but has length {length}". -/
  | freeLive (nid length : ℤ)
  /-- "section 11: node id {nid} has length {length} (dead) but is not in arena.free_ids". -/
  | deadUnlisted (nid length : ℤ)
  /-- "section 27: {size} nodes are reachable from the root but node_count is". -/
  | nodeCount (size : ℕ) (nodeCount : ℤ)
  /-- "section 11: {size} nodes are reachable from the root but the arena holds". -/
  | liveCount (size : ℕ) (liveCount : ℤ)
  /-- "section 27: {size} nodes reachable but {leaves} leaves". -/
  | nodesLeaves (size leaves : ℕ)
  /-- "section 12: {leaves} leaves reachable but hot_ip_count is". -/
  | leavesHotIp (leaves : ℕ) (hotIpCount : ℤ)
  /-- A list index outside its list, or a loop that does not end. -/
  | raised (e : TrieError)
deriving DecidableEq

/-- An index of a storage list. -/
def readRaw (l : List ℤ) (i : ℤ) : Except InvariantViolation ℤ :=
  match readAt l i with
  | .ok x => .ok x
  | .error e => .error (.raised e)

/-- The checks on a node against its parent, for a node that has one. -/
def checkExtends (a : NodeArena) (bits : ℕ) (nid length network parent : ℤ) (branch : ℕ) :
    Except InvariantViolation Unit :=
  if parent = noNode then .ok ()
  else do
    let parentLength ← readRaw a.length parent
    if length ≤ parentLength then throw (.notExtending nid length parent parentLength)
    let parentNetwork ← readRaw a.network parent
    let shared : ℕ := commonPrefixLength network parentNetwork bits
    if shared < parentLength ∨ bitAt network parentLength.toNat bits ≠ branch then
      throw (.wrongBranch nid parent branch parentLength)

/-- The checks on one node of the walk, up to its children: the node's length and its children. -/
def checkNode (a : NodeArena) (bits : ℕ) (reached : List ℤ) (nid parent : ℤ) (branch : ℕ) :
    Except InvariantViolation (ℤ × ℤ × ℤ) := do
  let capacity := a.length.length
  if ¬ (0 ≤ nid ∧ nid < capacity) then throw (.outsideArena parent branch nid capacity)
  if ¬ a.isLive nid then
    let length ← readRaw a.length nid
    throw (.released parent branch nid length)
  if nid ∈ reached then throw (.reachedTwice nid parent branch)
  let length ← readRaw a.length nid
  let network ← readRaw a.network nid
  if bits < length then throw (.lengthOver nid length bits)
  if ¬ (0 ≤ network ∧ network < 2^bits) ∨ network % 2^(bits - length.toNat) ≠ 0 then
    throw (.badNetwork nid network length)
  checkExtends a bits nid length network parent branch
  let left ← readRaw a.child (2 * nid)
  let right ← readRaw a.child (2 * nid + 1)
  return (length, left, right)

/-- What the walk of `check_patricia` collects: the ids reached, the internal nodes with their
children, and the number of leaves. -/
structure Walked where
  reached : List ℤ
  internal : List (ℤ × ℤ × ℤ)
  leaves : ℕ

/-- The loop of `check_patricia` over its stack of ids, each with the parent and branch that it was
found at. Every round reaches a new slot or raises, so one round a slot and one more are enough. -/
def checkLoop (a : NodeArena) (bits : ℕ) :
    ℕ → List (ℤ × ℤ × ℕ) → Walked → Except InvariantViolation Walked
  | _, [], walked => .ok walked
  | 0, _ :: _, _ => .error (.raised .diverged)
  | fuel + 1, (nid, parent, branch) :: stack, walked => do
    let (length, left, right) ← checkNode a bits walked.reached nid parent branch
    let walked := { walked with reached := nid :: walked.reached }
    let count ← readRaw a.hotCount nid
    if left = noNode ∧ right = noNode then
      if length ≠ bits then throw (.leafLength nid length bits)
      if count ≠ 1 then throw (.leafCount nid count)
      checkLoop a bits fuel stack { walked with leaves := walked.leaves + 1 }
    else if left = noNode ∨ right = noNode then throw (.oneChild nid left right)
    else
      checkLoop a bits fuel ((left, nid, 0) :: (right, nid, 1) :: stack)
        { walked with internal := walked.internal ++ [(nid, left, right)] }

/-- The sum check on the internal nodes. -/
def checkSums (a : NodeArena) : List (ℤ × ℤ × ℤ) → Except InvariantViolation Unit
  | [] => .ok ()
  | (nid, left, right) :: internal => do
    let count ← readRaw a.hotCount nid
    let l ← readRaw a.hotCount left
    let r ← readRaw a.hotCount right
    if count ≠ l + r then throw (.childrenSum nid count left right (l + r))
    checkSums a internal

/-- The first loop of `_check_free_list`, with `listed` the ids seen so far in order. -/
def checkListed (length : List ℤ) : ℕ → List ℤ → List ℤ → Except InvariantViolation (List ℤ)
  | _, listed, [] => .ok listed
  | position, listed, nid :: freeIds => do
    if ¬ (0 ≤ nid ∧ nid < length.length) then throw (.freeOutside position nid length.length)
    if nid ∈ listed then throw (.freeTwice nid (listed.idxOf nid) position)
    let len ← readRaw length nid
    if 0 ≤ len then throw (.freeLive nid len)
    checkListed length (position + 1) (listed ++ [nid]) freeIds

/-- The second loop of `_check_free_list`, over the slots from `nid` on. -/
def checkDead (listed : List ℤ) : ℕ → List ℤ → Except InvariantViolation Unit
  | _, [] => .ok ()
  | nid, len :: length =>
    if len < 0 ∧ (nid : ℤ) ∉ listed then .error (.deadUnlisted nid len)
    else checkDead listed (nid + 1) length

/-- `check_patricia`. -/
def checkPatricia (t : PatriciaTrie) : Except InvariantViolation Unit := do
  let a := t.arena
  let bits := t.bitLength
  let capacity := a.length.length
  if a.network.length ≠ capacity ∨ a.hotCount.length ≠ capacity ∨ a.child.length / 2 ≠ capacity ∨
      a.child.length % 2 ≠ 0 then
    throw (.storageLists capacity a.network.length a.hotCount.length a.child.length)
  let stack := if t.root ≠ noNode then [(t.root, noNode, 0)] else []
  let walked ← checkLoop a bits (capacity + 1) stack ⟨[], [], 0⟩
  checkSums a walked.internal
  if (a.capacity : ℤ) ≠ a.liveCount + a.freeCount then
    throw (.capacityAccount a.capacity a.liveCount a.freeCount)
  let listed ← checkListed a.length 0 [] a.freeIds
  checkDead listed 0 a.length
  let size := walked.reached.length
  if (size : ℤ) ≠ t.nodeCount then throw (.nodeCount size t.nodeCount)
  if (size : ℤ) ≠ a.liveCount then throw (.liveCount size a.liveCount)
  if size ≠ 0 then
    if (size : ℤ) ≠ 2 * walked.leaves - 1 then throw (.nodesLeaves size walked.leaves)
    match t.hotIpCount with
    | .ok count => if (walked.leaves : ℤ) ≠ count then throw (.leavesHotIp walked.leaves count)
    | .error e => throw (.raised e)

/-! ## Intact tries pass the check -/

section Check

variable {w : ℕ} {a : NodeArena}

theorem readRaw_of_get? {l : List ℤ} {i x : ℤ} (h : IntIndex.get? l i = some x) :
    readRaw l i = .ok x := by
  simp [readRaw, readAt, h]

/-- A subtree hangs below its parent on a branch, or is the whole tree. -/
def Hangs (w : ℕ) (cell : ℤ → Option Cell) (s : Tree ℤ) (parent : ℤ) (branch : ℕ) : Prop :=
  parent = noNode ∨ ∃ c, cell parent = some c ∧ c.length < s.length w ∧
    c.length ≤ commonPrefixLength s.network c.network w ∧ bitAt s.network c.length w = branch

/-- The children of a node hang below it. -/
theorem hangs_children {id : ℤ} {net len : ℕ} {left right : Tree ℤ}
    (hs : (Tree.node id net len left right).Shape w)
    (h : Holds w a.cell (Tree.node id net len left right)) :
    Hangs w a.cell left id 0 ∧ Hangs w a.cell right id 1 := by
  obtain ⟨hlt, hn, -, hll, hlr, htl, htr, hsl, hsr⟩ := hs
  have hnet : residue w (net : ℤ) = net := residue_natCast hn
  -- The first `len` bits of a child are the node's, and its next bit is the branch.
  have hchild : ∀ (s : Tree ℤ) (b : ℕ), b < 2 → s.Shape w → len < s.length w →
      top w (len + 1) s.network = 2 * top w len net + b → Hangs w a.cell s id b := by
    intro s b hb hss hlen htop
    have hsucc := top_succ_bit hlt s.network
    have hbit := bit_lt w len s.network
    refine .inr ⟨_, h.1, hlen, ?_, ?_⟩
    · show len ≤ commonPrefixLength s.network net w
      rw [commonPrefixLength_spec hlt.le, hss.residue_network, hnet]
      omega
    · show bitAt s.network len w = b
      rw [bitAt_eq hlt, hss.residue_network]
      omega
  exact ⟨hchild left 0 two_pos hsl hll (by omega), hchild right 1 one_lt_two hsr hlr htr⟩

theorem checkExtends_ok {s : Tree ℤ} {parent : ℤ} {branch : ℕ}
    (hangs : Hangs w a.cell s parent branch) :
    checkExtends a w s.id (s.length w : ℕ) (s.network : ℕ) parent branch = .ok () := by
  unfold checkExtends
  rcases hangs with rfl | ⟨c, hc, hlt, hcommon, hbit⟩
  · rw [if_pos rfl]
  · obtain ⟨hp1, hp2, -⟩ := (cell_eq_some_iff a parent c).1 hc
    have hne : parent ≠ noNode := by
      rintro rfl
      rw [cell_noNode] at hc
      cases hc
    have h1 : ¬ ((s.length w : ℕ) : ℤ) ≤ (c.length : ℕ) := by omega
    have h2 : ¬ (((commonPrefixLength (s.network : ℕ) c.network w : ℕ) : ℤ) < (c.length : ℕ) ∨
        bitAt (s.network : ℕ) ((c.length : ℕ) : ℤ).toNat w ≠ branch) := by
      simp only [Int.toNat_natCast, not_or, not_not, ne_eq]
      exact ⟨by omega, hbit⟩
    rw [if_neg hne]
    simp only [readRaw_of_get? hp1, readRaw_of_get? hp2, bind, Except.bind, if_neg h1, if_neg h2,
      pure, Except.pure]

/-- The checks on one node of a tree that is laid out. -/
theorem checkNode_ok (ha : a.Accounted) {s : Tree ℤ} (hs : s.Shape w) (h : Holds w a.cell s)
    {reached : List ℤ} (hnew : s.id ∉ reached) {parent : ℤ} {branch : ℕ}
    (hangs : Hangs w a.cell s parent branch) :
    checkNode a w reached s.id parent branch =
      .ok ((s.length w : ℕ), (record w s).left, (record w s).right) := by
  obtain ⟨hr1, hr2, -, hr4, hr5⟩ := (cell_eq_some_iff a s.id _).1 h.top
  rw [record_network] at hr1
  rw [record_length] at hr2
  have hrange := inRange_of_cell h.top
  have hlive : a.isLive s.id = true := (ha.isLive_iff s.id).2 (by rw [h.top]; rfl)
  have hlen : ¬ (w : ℤ) < (s.length w : ℕ) := by
    have := hs.length_le
    omega
  have hnet : ¬ (¬ ((0 : ℤ) ≤ (s.network : ℕ) ∧ ((s.network : ℕ) : ℤ) < 2^w) ∨
      ((s.network : ℕ) : ℤ) % 2^(w - ((s.length w : ℕ) : ℤ).toNat) ≠ 0) := by
    have h1 := hs.network_lt
    have h2 := cleared_mod w (s.length w) s.network
    rw [hs.cleared_network] at h2
    have h3 : ((s.network : ℕ) : ℤ) % 2^(w - s.length w) = 0 := by exact_mod_cast h2
    have h4 : ((s.network : ℕ) : ℤ) < 2^w := by exact_mod_cast h1
    simp only [Int.toNat_natCast, not_or, not_not, ne_eq]
    exact ⟨⟨by omega, h4⟩, h3⟩
  simp only [checkNode, not_true, if_false, hrange, and_self, hlive, hnew, readRaw_of_get? hr1,
    readRaw_of_get? hr2, readRaw_of_get? hr4, readRaw_of_get? hr5, if_neg hlen, if_neg hnet,
    checkExtends_ok hangs, bind, Except.bind, pure, Except.pure]

/-- An internal node whose count is the sum of its children's. -/
def SumsUp (cell : ℤ → Option Cell) (n : ℤ × ℤ × ℤ) : Prop :=
  ∃ c l r, cell n.1 = some c ∧ cell n.2.1 = some l ∧ cell n.2.2 = some r ∧
    c.hotCount = l.hotCount + r.hotCount

/-- The walk over a stack of subtrees reaches their labels, each once, and finds their leaves. -/
theorem checkLoop_ok (ha : a.Accounted) (stack : List (Tree ℤ × ℤ × ℕ)) (walked : Walked)
    (h : ∀ p ∈ stack, p.1.Shape w ∧ Holds w a.cell p.1 ∧ Hangs w a.cell p.1 p.2.1 p.2.2)
    (hnodup : ((stack.flatMap fun p => p.1.ids) ++ walked.reached).Nodup)
    (hsums : ∀ n ∈ walked.internal, SumsUp a.cell n) {fuel : ℕ}
    (hfuel : (stack.flatMap fun p => p.1.ids).length ≤ fuel) :
    ∃ walked', checkLoop a w fuel (stack.map fun p => (p.1.id, p.2.1, p.2.2)) walked = .ok walked' ∧
      walked'.reached.Perm ((stack.flatMap fun p => p.1.ids) ++ walked.reached) ∧
      (∀ n ∈ walked'.internal, SumsUp a.cell n) ∧
      walked'.leaves = walked.leaves + (stack.map fun p => p.1.count).sum := by
  -- Each round takes one node from the stack, so the ids below the stack bound the rounds.
  induction fuel generalizing stack walked with
  | zero =>
    cases stack with
    | nil => exact ⟨walked, rfl, List.Perm.refl _, hsums, by simp⟩
    | cons p stack =>
      have := ids_length_pos p.1
      simp only [List.flatMap_cons, List.length_append] at hfuel
      omega
  | succ fuel ih =>
    cases stack with
    | nil => exact ⟨walked, rfl, List.Perm.refl _, hsums, by simp⟩
    | cons p stack =>
      obtain ⟨s, parent, branch⟩ := p
      obtain ⟨hs, hh, hangs⟩ := h _ List.mem_cons_self
      have hrest := fun p hp => h p (List.mem_cons_of_mem _ hp)
      -- The ids below the stack are not among those reached.
      have hnew : s.id ∉ walked.reached := by
        intro hin
        have hid : s.id ∈ s.ids := by cases s <;> simp [Tree.ids]
        exact (List.nodup_append.1 hnodup).2.2 s.id (by simp [hid]) s.id hin rfl
      have hnode := checkNode_ok ha hs hh hnew hangs
      obtain ⟨-, -, hcount, -⟩ := (cell_eq_some_iff a s.id _).1 hh.top
      rw [record_hotCount] at hcount
      simp only [List.map_cons, checkLoop, hnode, readRaw_of_get? hcount, bind, Except.bind]
      simp only [List.flatMap_cons, List.length_append] at hfuel hnodup ⊢
      cases s with
      | leaf id value =>
        have hone : (((Tree.leaf id value).count : ℕ) : ℤ) = 1 := by simp [Tree.count, Tree.leaves]
        have hperm : (((Tree.leaf id value).ids ++ stack.flatMap fun p => p.1.ids) ++
            walked.reached).Perm ((stack.flatMap fun p => p.1.ids) ++ id :: walked.reached) :=
          List.perm_middle.symm
        obtain ⟨walked', hrun, hreached, hsums', hleaves⟩ := ih stack
          { walked with reached := id :: walked.reached, leaves := walked.leaves + 1 } hrest
          (hperm.nodup_iff.1 hnodup) hsums
          (by simp only [Tree.ids, List.length_singleton] at hfuel; omega)
        refine ⟨walked', ?_, hreached.trans hperm.symm, hsums', ?_⟩
        · simp only [record, and_self, if_true, Tree.length_leaf, ne_eq, not_true, if_false, hone]
          exact hrun
        · rw [hleaves]
          simp only [List.sum_cons, Tree.count, Tree.leaves, List.length_singleton]
          omega
      | node id net len left right =>
        -- Its children take the node's place on the stack, and its sum is left for later.
        obtain ⟨hangl, hangr⟩ := hangs_children hs hh
        have hsums' : ∀ n ∈ walked.internal ++ [(id, left.id, right.id)], SumsUp a.cell n := by
          intro n hn
          rcases List.mem_append.1 hn with hn | hn
          · exact hsums n hn
          · obtain rfl := List.mem_singleton.1 hn
            refine ⟨_, _, _, hh.1, hh.2.1.top, hh.2.2.top, ?_⟩
            rw [record_hotCount, record_hotCount, record_hotCount, Tree.count_node]
            push_cast
            rfl
        have hperm : (((Tree.node id net len left right).ids ++ stack.flatMap fun p => p.1.ids) ++
            walked.reached).Perm ((((left, id, 0) :: (right, id, 1) :: stack).flatMap
              fun p => p.1.ids) ++ id :: walked.reached) := by
          have hmid : ((left.ids ++ right.ids ++ stack.flatMap fun p => p.1.ids) ++
              id :: walked.reached).Perm (id :: ((left.ids ++ right.ids ++
                stack.flatMap fun p => p.1.ids) ++ walked.reached)) := List.perm_middle
          simpa [Tree.ids] using hmid.symm
        obtain ⟨walked', hrun, hreached, hsums'', hleaves⟩ := ih
          ((left, id, 0) :: (right, id, 1) :: stack)
          { walked with
            reached := id :: walked.reached
            internal := walked.internal ++ [(id, left.id, right.id)] }
          (by
            intro p hp
            rcases List.mem_cons.1 hp with rfl | hp
            · exact ⟨hs.2.2.2.2.2.2.2.1, hh.2.1, hangl⟩
            · rcases List.mem_cons.1 hp with rfl | hp
              · exact ⟨hs.2.2.2.2.2.2.2.2, hh.2.2, hangr⟩
              · exact hrest p hp)
          (hperm.nodup_iff.1 hnodup) hsums'
          (by
            simp only [Tree.ids, List.length_cons, List.length_append] at hfuel
            simp only [List.flatMap_cons, List.length_append]
            omega)
        refine ⟨walked', ?_, hreached.trans hperm.symm, hsums'', ?_⟩
        · simp only [record, hh.2.1.id_ne, hh.2.2.id_ne, and_self, if_false, or_self]
          exact hrun
        · rw [hleaves]
          simp only [List.map_cons, List.sum_cons, Tree.count_node]
          omega

theorem checkSums_ok {internal : List (ℤ × ℤ × ℤ)} (h : ∀ n ∈ internal, SumsUp a.cell n) :
    checkSums a internal = .ok () := by
  induction internal with
  | nil => rfl
  | cons n internal ih =>
    obtain ⟨nid, left, right⟩ := n
    obtain ⟨c, l, r, hc, hl, hr, hsum⟩ := h _ List.mem_cons_self
    obtain ⟨-, -, hc, -⟩ := (cell_eq_some_iff a nid c).1 hc
    obtain ⟨-, -, hl, -⟩ := (cell_eq_some_iff a left l).1 hl
    obtain ⟨-, -, hr, -⟩ := (cell_eq_some_iff a right r).1 hr
    simp only [checkSums, readRaw_of_get? hc, readRaw_of_get? hl, readRaw_of_get? hr, bind,
      Except.bind, hsum, ne_eq, not_true, if_false]
    exact ih fun n hn => h n (List.mem_cons_of_mem _ hn)

/-- The first loop of `_check_free_list` lists the free ids. -/
theorem checkListed_ok (length : List ℤ) (position : ℕ) (listed freeIds : List ℤ)
    (hnodup : (listed ++ freeIds).Nodup)
    (hdead : ∀ i ∈ freeIds, ∃ x, IntIndex.get? length i = some x ∧ x < 0) :
    checkListed length position listed freeIds = .ok (listed ++ freeIds) := by
  induction freeIds generalizing position listed with
  | nil => simp [checkListed]
  | cons i freeIds ih =>
    obtain ⟨x, hx, hx0⟩ := hdead i List.mem_cons_self
    have hrange := IntIndex.inRange_of_get? hx
    have hnew : i ∉ listed := fun hin =>
      (List.nodup_append.1 hnodup).2.2 i hin i List.mem_cons_self rfl
    have hrest := ih (position + 1) (listed ++ [i]) (by simpa using hnodup)
      (fun j hj => hdead j (List.mem_cons_of_mem _ hj))
    simp only [checkListed, not_true, if_false, hrange, and_self, hnew, readRaw_of_get? hx,
      not_le.2 hx0, bind, Except.bind]
    rw [hrest]
    simp

/-- The second loop of `_check_free_list` passes when every dead slot is listed. -/
theorem checkDead_ok {listed : List ℤ} (first : ℕ) (length : List ℤ)
    (h : ∀ i x, length[i]? = some x → x < 0 → ((first + i : ℕ) : ℤ) ∈ listed) :
    checkDead listed first length = .ok () := by
  induction length generalizing first with
  | nil => rfl
  | cons x length ih =>
    have h0 : ¬ (x < 0 ∧ (first : ℤ) ∉ listed) := by
      rintro ⟨hx, hn⟩
      exact hn (by simpa using h 0 x (by simp) hx)
    rw [checkDead, if_neg h0]
    refine ih (first + 1) fun i y hy hy0 => ?_
    have := h (i + 1) y (by simpa using hy) hy0
    rwa [show first + 1 + i = first + (i + 1) by omega]

/-- An intact trie passes `check_patricia`. -/
theorem Intact.checkPatricia_ok {t : PatriciaTrie} {o : Option (Tree ℤ)} (h : Intact t o) :
    checkPatricia t = .ok () := by
  have hacc := h.accounted
  have hlists : ¬ (t.arena.network.length ≠ t.arena.length.length ∨
      t.arena.hotCount.length ≠ t.arena.length.length ∨
      t.arena.child.length / 2 ≠ t.arena.length.length ∨ t.arena.child.length % 2 ≠ 0) := by
    have := hacc.network_length
    have := hacc.hotCount_length
    have := hacc.child_length
    omega
  have hcap : ¬ ((t.arena.capacity : ℤ) ≠ t.arena.liveCount + t.arena.freeCount) := by
    unfold NodeArena.capacity NodeArena.liveCount NodeArena.freeCount
    omega
  have hlisted := checkListed_ok t.arena.length 0 [] t.arena.freeIds
    (by simpa using hacc.free_nodup) (fun i hi => (hacc.mem_free_iff i).1 hi)
  rw [List.nil_append] at hlisted
  have hdead : checkDead t.arena.freeIds 0 t.arena.length = .ok () := by
    refine checkDead_ok 0 _ fun i x hx hx0 => ?_
    rw [Nat.zero_add, hacc.mem_free_iff]
    exact ⟨x, by simpa [IntIndex.get?] using hx, hx0⟩
  -- The walk reaches the labels of the tree.
  have hwalk : ∃ walked, checkLoop t.arena t.bitLength (t.arena.length.length + 1)
      (if t.root ≠ noNode then [(t.root, noNode, 0)] else []) ⟨[], [], 0⟩ = .ok walked ∧
      walked.reached.length = (treeIds o).length ∧
      (∀ n ∈ walked.internal, SumsUp t.arena.cell n) ∧
      walked.leaves = (treeLeaves o).length := by
    cases o with
    | none =>
      have hroot : t.root = noNode := h.root_eq
      exact ⟨⟨[], [], 0⟩, by simp [hroot, checkLoop], rfl, by simp, rfl⟩
    | some s =>
      obtain ⟨hroot, hroot0⟩ := h.root_some
      have hfuel : ([(s, noNode, 0)].flatMap fun p : Tree ℤ × ℤ × ℕ => p.1.ids).length ≤
          t.arena.length.length + 1 := by
        have := h.ids_length_le
        unfold NodeArena.capacity at this
        simp only [List.flatMap_cons, List.flatMap_nil, List.append_nil]
        omega
      obtain ⟨walked, hrun, hperm, hsums, hleaves⟩ := checkLoop_ok hacc [(s, noNode, 0)] ⟨[], [], 0⟩
        (by simpa using ⟨h.shape s rfl, h.holds s rfl, Or.inl rfl⟩)
        (by simpa using h.nodup) (by simp) hfuel
      refine ⟨walked, ?_, ?_, hsums, ?_⟩
      · rw [if_pos hroot0, hroot]
        exact hrun
      · simpa using hperm.length_eq
      · simpa [Tree.count] using hleaves
  obtain ⟨walked, hrun, hsize, hsums, hleaves⟩ := hwalk
  have hnodes : ¬ ((walked.reached.length : ℤ) ≠ t.nodeCount) := by
    rw [hsize, h.nodeCount_eq]
    simp
  have hlive : ¬ ((walked.reached.length : ℤ) ≠ t.arena.liveCount) := hnodes
  have htwice : walked.reached.length ≠ 0 →
      ¬ ((walked.reached.length : ℤ) ≠ 2 * walked.leaves - 1) := by
    intro hne
    rw [hsize] at hne ⊢
    rw [hleaves]
    cases o with
    | none => exact absurd rfl hne
    | some s =>
      have := s.ids_length
      unfold Tree.count at this
      simp only [treeIds_some, treeLeaves_some]
      omega
  simp only [checkPatricia, if_neg hlists, hrun, checkSums_ok hsums, if_neg hcap, hlisted, hdead,
    if_neg hnodes, if_neg hlive, h.hotIpCount_eq, hleaves, bind, Except.bind, pure, Except.pure,
    ne_eq, not_true, if_false]
  rw [hleaves] at htwice
  by_cases hne : walked.reached.length = 0
  · rw [if_neg (not_not.2 hne)]
  · rw [if_pos hne, if_neg (htwice hne)]

end Check

/-! ## The invariant, clause by clause -/

/-- The ids that the root leads to through `arena.child`. -/
inductive Reaches (t : PatriciaTrie) : ℤ → Prop where
  | root : t.root ≠ noNode → Reaches t t.root
  | child {nid i : ℤ} {branch : ℕ} : Reaches t nid → branch < 2 →
    IntIndex.get? t.arena.child (2 * nid + branch) = some i → i ≠ noNode → Reaches t i

/-- A leaf: no children, all `w` bits, and count 1. -/
def Cell.IsLeaf (w : ℕ) (c : Cell) : Prop :=
  c.left = noNode ∧ c.right = noNode ∧ c.length = w ∧ c.hotCount = 1

/-- A node's child on a branch: a record whose prefix extends the node's by that bit. -/
def Cell.Extends (w : ℕ) (c child : Cell) (branch : ℕ) : Prop :=
  c.length < child.length ∧ c.length ≤ commonPrefixLength child.network c.network w ∧
    bitAt child.network c.length w = branch

/-- A node with two children: their prefixes extend its own, and its count is the sum of theirs. -/
def Cell.IsBranch (w : ℕ) (cell : ℤ → Option Cell) (c : Cell) : Prop :=
  c.left ≠ noNode ∧ c.right ≠ noNode ∧ ∃ l r, cell c.left = some l ∧ cell c.right = some r ∧
    c.Extends w l 0 ∧ c.Extends w r 1 ∧ c.hotCount = l.hotCount + r.hotCount

/-- The representation invariant of a Patricia trie. -/
structure RepInvariant (t : PatriciaTrie) : Prop where
  /-- The four lists are parallel. -/
  parallel : t.arena.network.length = t.arena.length.length ∧
    t.arena.hotCount.length = t.arena.length.length ∧
    t.arena.child.length = 2 * t.arena.length.length
  /-- The traversal from the root, which does not remember where it has been, meets exactly the ids
  reached, and none twice: they form a tree. -/
  tree : ∃ visits, t.dfs = .ok visits ∧ (visits.map Prod.fst).Nodup ∧
    ∀ i, i ∈ visits.map Prod.fst ↔ Reaches t i
  /-- Every node reached is a leaf, or has two children. -/
  nodes : ∀ i, Reaches t i → ∃ c, t.arena.cell i = some c ∧
    (c.IsLeaf t.bitLength ∨ c.IsBranch t.bitLength t.arena.cell)
  /-- Every network fits the width, and its host bits are zero. -/
  networks : ∀ i, Reaches t i → ∃ c, t.arena.cell i = some c ∧ c.length ≤ t.bitLength ∧
    0 ≤ c.network ∧ c.network < 2^t.bitLength ∧ c.network % 2^(t.bitLength - c.length) = 0
  /-- The ids reached are the live slots. -/
  live : ∀ i, Reaches t i ↔ t.arena.isLive i = true
  /-- The free list has the dead slots, each once. -/
  free : t.arena.freeIds.Nodup ∧
    ∀ i, i ∈ t.arena.freeIds ↔ ∃ x, IntIndex.get? t.arena.length i = some x ∧ x < 0
  /-- One node fewer than twice the addresses, or none. -/
  count : ∃ n : ℕ, t.hotIpCount = .ok (n : ℤ) ∧
    t.nodeCount = if n = 0 then 0 else 2 * (n : ℤ) - 1

section Invariant

variable {t : PatriciaTrie} {o : Option (Tree ℤ)}

/-- The labels of a tree are the tops of its subtrees. -/
theorem Holds.exists_subtree {w : ℕ} {cell : ℤ → Option Cell} {s : Tree ℤ} (hs : s.Shape w)
    (h : Holds w cell s) {i : ℤ} (hi : i ∈ s.ids) :
    ∃ r : Tree ℤ, r.Shape w ∧ Holds w cell r ∧ r.id = i ∧ r.ids ⊆ s.ids := by
  induction s with
  | leaf id value =>
    obtain rfl := List.mem_singleton.1 hi
    exact ⟨_, hs, h, rfl, List.Subset.refl _⟩
  | node id net len left right ihl ihr =>
    rcases List.mem_cons.1 hi with rfl | hi
    · exact ⟨_, hs, h, rfl, List.Subset.refl _⟩
    · rcases List.mem_append.1 hi with hi | hi
      · obtain ⟨r, h1, h2, h3, h4⟩ := ihl hs.2.2.2.2.2.2.2.1 h.2.1 hi
        exact ⟨r, h1, h2, h3, List.Subset.trans h4
          (List.subset_cons_of_subset id (List.subset_append_left _ _))⟩
      · obtain ⟨r, h1, h2, h3, h4⟩ := ihr hs.2.2.2.2.2.2.2.2 h.2.2 hi
        exact ⟨r, h1, h2, h3, List.Subset.trans h4
          (List.subset_cons_of_subset id (List.subset_append_right _ _))⟩

/-- From the top of a subtree everything in it is reached. -/
theorem Holds.reaches {w : ℕ} {s : Tree ℤ} (h : Holds w t.arena.cell s) (hid : Reaches t s.id)
    {i : ℤ} (hi : i ∈ s.ids) : Reaches t i := by
  induction s with
  | leaf id value =>
    obtain rfl := List.mem_singleton.1 hi
    exact hid
  | node id net len left right ihl ihr =>
    obtain ⟨-, -, -, hcl, hcr⟩ := (cell_eq_some_iff t.arena id _).1 h.1
    rcases List.mem_cons.1 hi with rfl | hi
    · exact hid
    · rcases List.mem_append.1 hi with hi | hi
      · refine ihl h.2.1 ?_ hi
        exact .child hid two_pos (by simpa [record] using hcl) h.2.1.id_ne
      · refine ihr h.2.2 ?_ hi
        exact .child hid one_lt_two (by simpa [record] using hcr) h.2.2.id_ne

/-- The ids reached are the labels of the tree. -/
theorem Intact.reaches_iff (h : Intact t o) (i : ℤ) : Reaches t i ↔ i ∈ treeIds o := by
  constructor
  · intro hr
    induction hr with
    | root hne =>
      cases o with
      | none => exact absurd h.root_eq hne
      | some s =>
        rw [h.root_some.1]
        show s.id ∈ s.ids
        cases s <;> simp [Tree.ids]
    | child _ hb hget hne ih =>
      cases o with
      | none => cases ih
      | some s =>
        obtain ⟨r, hs, hh, rfl, hsub⟩ := (h.holds s rfl).exists_subtree (h.shape s rfl) ih
        obtain ⟨-, -, -, hcl, hcr⟩ := (cell_eq_some_iff t.arena r.id _).1 hh.top
        rename_i branch _
        -- A child of a leaf is `NO_NODE`, and a child of a node is in the tree.
        cases r with
        | leaf id value =>
          interval_cases branch
          · simp only [record, Nat.cast_zero, Int.add_zero] at hcl hget
            rw [hcl, Option.some.injEq] at hget
            exact absurd hget.symm hne
          · simp only [record, Nat.cast_one] at hcr hget
            rw [hcr, Option.some.injEq] at hget
            exact absurd hget.symm hne
        | node id net len left right =>
          have hl : left.id ∈ left.ids := by cases left <;> simp [Tree.ids]
          have hr : right.id ∈ right.ids := by cases right <;> simp [Tree.ids]
          interval_cases branch
          · simp only [record, Nat.cast_zero, Int.add_zero] at hcl hget
            rw [hcl, Option.some.injEq] at hget
            exact hsub (by rw [← hget]; simp [Tree.ids, hl])
          · simp only [record, Nat.cast_one] at hcr hget
            rw [hcr, Option.some.injEq] at hget
            exact hsub (by rw [← hget]; simp [Tree.ids, hr])
  · intro hi
    cases o with
    | none => cases hi
    | some s =>
      obtain ⟨hroot, hroot0⟩ := h.root_some
      refine (h.holds s rfl).reaches ?_ hi
      rw [← hroot]
      exact .root hroot0

theorem visits_fst (parentLength : ℤ) (s : Tree ℤ) :
    (visits parentLength s).map Prod.fst = s.ids := by
  induction s generalizing parentLength with
  | leaf id value => rfl
  | node id net len left right ihl ihr => simp [visits, Tree.ids, ihl, ihr]

/-- The node at the top of a subtree is a leaf, or has two children. -/
theorem Holds.leaf_or_branch {w : ℕ} {s : Tree ℤ} (hs : s.Shape w) (h : Holds w t.arena.cell s) :
    (record w s).IsLeaf w ∨ (record w s).IsBranch w t.arena.cell := by
  cases s with
  | leaf id value => exact .inl ⟨rfl, rfl, rfl, rfl⟩
  | node id net len left right =>
    obtain ⟨hangl, hangr⟩ := hangs_children hs h
    have hne : id ≠ noNode := h.id_ne
    have hext : ∀ {r : Tree ℤ} {b : ℕ}, Hangs w t.arena.cell r id b →
        (record w (Tree.node id net len left right)).Extends w (record w r) b := by
      intro r b hang
      rcases hang with he | ⟨c, hc, h1, h2, h3⟩
      · exact absurd he hne
      · rw [h.1, Option.some.injEq] at hc
        subst hc
        refine ⟨?_, ?_, ?_⟩
        · rw [record_length r]
          exact h1
        · rw [record_network r]
          exact h2
        · rw [record_network r]
          exact h3
    refine .inr ⟨h.2.1.id_ne, h.2.2.id_ne, _, _, h.2.1.top, h.2.2.top, hext hangl, hext hangr, ?_⟩
    rw [record_hotCount, record_hotCount, record_hotCount, Tree.count_node]
    push_cast
    rfl

/-- An intact trie satisfies the invariant. -/
theorem Intact.repInvariant (h : Intact t o) : RepInvariant t where
  parallel := ⟨h.accounted.network_length, h.accounted.hotCount_length, h.accounted.child_length⟩
  tree := by
    refine ⟨_, h.dfs_eq, ?_⟩
    have hfst : (o.elim [] (visits (-1))).map Prod.fst = treeIds o := by
      cases o with
      | none => rfl
      | some s => exact visits_fst (-1) s
    rw [hfst]
    exact ⟨h.nodup, fun i => (h.reaches_iff i).symm⟩
  nodes i hi := by
    rw [h.reaches_iff] at hi
    cases o with
    | none => cases hi
    | some s =>
      obtain ⟨r, hs, hh, rfl, -⟩ := (h.holds s rfl).exists_subtree (h.shape s rfl) hi
      exact ⟨_, hh.top, hh.leaf_or_branch hs⟩
  networks i hi := by
    rw [h.reaches_iff] at hi
    cases o with
    | none => cases hi
    | some s =>
      obtain ⟨r, hs, hh, rfl, -⟩ := (h.holds s rfl).exists_subtree (h.shape s rfl) hi
      have hmod := cleared_mod t.bitLength (r.length t.bitLength) r.network
      rw [hs.cleared_network] at hmod
      refine ⟨_, hh.top, ?_⟩
      rw [record_length, record_network]
      refine ⟨hs.length_le, by omega, ?_, ?_⟩
      · exact_mod_cast hs.network_lt
      · exact_mod_cast hmod
  live i := by rw [h.reaches_iff, ← h.live_iff, h.accounted.isLive_iff]
  free := ⟨h.accounted.free_nodup, h.accounted.mem_free_iff⟩
  count := by
    refine ⟨_, h.hotIpCount_eq, ?_⟩
    rw [h.nodeCount_eq]
    cases o with
    | none => rfl
    | some s =>
      have hids := s.ids_length
      have hpos := s.count_pos
      have hne : ¬ (treeLeaves (some s)).length = 0 := hpos.ne'
      rw [if_neg hne]
      show (s.ids.length : ℤ) = 2 * (s.count : ℕ) - 1
      omega

end Invariant

/-- Every trie that calls make from an empty one satisfies the representation invariant and passes
`check_patricia`, and every method on it returns or raises an error that it documents. -/
theorem patricia_invariant (family : AddressFamily) (calls : List Call) :
    RepInvariant (PatriciaTrie.run family calls).2 ∧
      checkPatricia (PatriciaTrie.run family calls).2 = .ok () ∧
      (∀ a, Raises ((PatriciaTrie.run family calls).2.addHotIp a)) ∧
      (∀ a, Raises ((PatriciaTrie.run family calls).2.removeHotIp a)) ∧
      Raises (PatriciaTrie.run family calls).2.hotIpCount ∧
      (∀ a, Raises ((PatriciaTrie.run family calls).2.contains a)) ∧
      (∀ p, Raises ((PatriciaTrie.run family calls).2.hotCount p)) ∧
      (∀ a m, Raises ((PatriciaTrie.run family calls).2.ancestorCounts a m)) ∧
      (∀ a, Raises ((PatriciaTrie.run family calls).2.longestMatchingPrefix a)) ∧
      (∀ m, Raises ((PatriciaTrie.run family calls).2.iterPrefixCounts m)) ∧
      Raises (PatriciaTrie.run family calls).2.iterHotAddresses ∧
      Raises (PatriciaTrie.run family calls).2.iterNodes := by
  obtain ⟨-, hp⟩ := patricia_run_represents family calls
  obtain ⟨-, hb⟩ := binary_run_represents family calls
  generalize (PatriciaTrie.run family calls).2 = t at hp ⊢
  have hok : ∀ {α : Type} {r : Except TrieError α}, (∃ x, r = .ok x) → Raises r := by
    rintro α r ⟨x, rfl⟩ e he
    cases he
  have hp' := hp
  obtain ⟨rfl, -, o, hi, -⟩ := hp'
  have hforeign : ∀ a : Address, a.family ≠ t.family →
      t.addHotIp a = .error (.familyMismatch t.family a.family) ∧
        t.removeHotIp a = .error (.familyMismatch t.family a.family) := by
    intro a hfam
    simp [addHotIp, removeHotIp, checkFamily, hfam, bind, Except.bind]
  refine ⟨hi.repInvariant, hi.checkPatricia_ok, fun a => ?_, fun a => ?_, hok ⟨_, hi.hotIpCount_eq⟩,
    fun a => (agree_contains hp hb a).2, fun q => (agree_hotCount hp hb q).2,
    fun a m => (agree_ancestorCounts hp hb a m).2, fun a => (agree_longestMatchingPrefix hp hb a).2,
    fun m => (agree_iterPrefixCounts hp hb m).2, (agree_iterHotAddresses hp hb).2,
    hok ⟨_, hi.iterNodes_eq⟩⟩
  · by_cases hfam : a.family = t.family
    · obtain ⟨t', hadd, -⟩ := hp.addHotIp hfam
      exact hok ⟨_, hadd⟩
    · intro e he
      rw [(hforeign a hfam).1] at he
      obtain rfl := Except.error.inj he
      trivial
  · by_cases hfam : a.family = t.family
    · obtain ⟨t', hrem, -⟩ := hp.removeHotIp hfam
      exact hok ⟨_, hrem⟩
    · intro e he
      rw [(hforeign a hfam).2] at he
      obtain rfl := Except.error.inj he
      trivial

end Hammertime.Trie
