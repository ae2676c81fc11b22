import Hammertime.Addressing
import Hammertime.Lib.IntIndex

/-!
# The node arena

`NodeArena` of `hammertime.trie.structure.arena`: four parallel lists addressed by integer node ids,
and a free list of released ids, last in first out. The Patricia trie reads and writes the lists
directly. Python would accept a read at `NO_NODE` (`child[-1]` is the last entry) and a read of a
released slot (its fields are stale); both are errors here, so that a proof that no error occurs is a
proof that no such read happens.

`cell` is the view of the arena that the proofs use: the record that a live id names. Each operation
is described by what it does to `cell` (`setChild_spec`, `addHotCount_spec`, `allocate_spec`,
`release_spec`) and by `Accounted`, the arena's promise that the free list holds exactly the dead
slots, each once.
-/

namespace Hammertime.Trie

open IntIndex

/-- What a trie call can raise, and what it could do that Python would not stop it from doing. -/
inductive TrieError where
  /-- `ValueError`: "this trie holds {holds} addresses; got an {got} argument". -/
  | familyMismatch (holds got : AddressFamily)
  /-- `ValueError`: "min_length must be in [0, {bits}] for {family}, got {got}". -/
  | minLength (family : AddressFamily) (got : ℤ)
  /-- `ValueError`: "node length must be >= 0, got {length}", from `allocate`. -/
  | negativeLength (length : ℤ)
  /-- `ValueError`: "node id {id} is not live and cannot be released". -/
  | notLive (nodeId : ℤ)
  /-- `InvariantViolation`: "section 12: leaf node {id} for {address} has hot_count {count};
  expected 1", from `add_hot_ip`. -/
  | corruptLeaf (nodeId : ℤ) (address : Address) (hotCount : ℤ)
  /-- `InvalidPrefixError`, from a `Prefix` that the trie builds. -/
  | invalidPrefix (network : ℤ) (length : ℕ)
  /-- `InvalidAddressError`, from an `Address` that the trie builds. -/
  | invalidAddress (value : ℤ)
  /-- `AssertionError`, from `BinaryTrie.remove_hot_ip`. -/
  | assertion
  /-- A list index outside its list. -/
  | indexError (index : ℤ)
  /-- `NO_NODE` followed as a node id. -/
  | noNodeRead
  /-- A field read of a slot that is released or was never allocated. -/
  | deadRead (nodeId : ℤ)
  /-- A shift by a negative count, from `bit_at` below the last bit. -/
  | negativeShift
  /-- A loop that does not end. -/
  | diverged
deriving DecidableEq

/-- `NO_NODE`: an absent child, or an empty trie's root. -/
def noNode : ℤ := -1

/-- `PrefixCount`: a prefix and the number of currently HOT addresses beneath it. -/
structure PrefixCount where
  /-- The prefix. -/
  pfx : Prefix
  /-- The count. -/
  hotCount : ℤ
deriving DecidableEq

/-- `NodeView`: one materialized node, with its stored count and its children's prefixes. -/
structure NodeView where
  /-- The node's prefix. -/
  pfx : Prefix
  /-- The node's stored count. -/
  hotCount : ℤ
  /-- The prefixes of the children, ascending by branch bit. -/
  children : List Prefix
deriving DecidableEq

/-- `NodeArena`: parallel storage indexed by node id, and the released ids. -/
structure NodeArena where
  /-- Each node's network. -/
  network : List ℤ
  /-- Each node's prefix length; negative exactly in a released slot. -/
  length : List ℤ
  /-- Each node's stored count. -/
  hotCount : List ℤ
  /-- Both children of node `i`, at `2 i` and `2 i + 1`. -/
  child : List ℤ
  /-- Released ids; the last entry is the next one allocated. -/
  freeIds : List ℤ
deriving DecidableEq

namespace NodeArena

/-- A fresh arena, which `clear` also leaves. -/
def empty : NodeArena := ⟨[], [], [], [], []⟩

/-- `clear`: every storage list and the free list truncated. -/
def clear (_ : NodeArena) : NodeArena := empty

/-- `capacity`: the slots in the slab. -/
def capacity (a : NodeArena) : ℕ := a.length.length

/-- `free_count`: released slots that await reuse. -/
def freeCount (a : NodeArena) : ℕ := a.freeIds.length

/-- `live_count`: ids allocated and not released. -/
def liveCount (a : NodeArena) : ℤ := (a.length.length : ℤ) - a.freeIds.length

/-- `is_live`: whether an id is in range and currently allocated. -/
def isLive (a : NodeArena) (nodeId : ℤ) : Bool :=
  match get? a.length nodeId with
  | some length => decide (0 ≤ length)
  | none => false

/-- A read of a storage list at an index, `IndexError` outside it. -/
def readAt (l : List ℤ) (i : ℤ) : Except TrieError ℤ :=
  match get? l i with
  | some x => .ok x
  | none => .error (.indexError i)

/-- A write to a storage list at an index, `IndexError` outside it. -/
def writeAt (l : List ℤ) (i : ℤ) (x : ℤ) : Except TrieError (List ℤ) :=
  match set? l i x with
  | some l' => .ok l'
  | none => .error (.indexError i)

/-- The guard on every field access of the trie: not `NO_NODE`, and not a dead slot. -/
def checkLive (a : NodeArena) (nid : ℤ) : Except TrieError Unit :=
  if nid = noNode then .error .noNodeRead
  else if a.isLive nid then .ok ()
  else .error (.deadRead nid)

/-- `arena.length[nid]`; a live slot's length is not negative. -/
def lengthAt (a : NodeArena) (nid : ℤ) : Except TrieError ℕ := do
  a.checkLive nid
  let length ← readAt a.length nid
  return length.toNat

/-- `arena.network[nid]`. -/
def networkAt (a : NodeArena) (nid : ℤ) : Except TrieError ℤ := do
  a.checkLive nid
  readAt a.network nid

/-- `arena.hot_count[nid]`. -/
def hotCountAt (a : NodeArena) (nid : ℤ) : Except TrieError ℤ := do
  a.checkLive nid
  readAt a.hotCount nid

/-- `arena.child[2 * nid + branch]`. -/
def childAt (a : NodeArena) (nid : ℤ) (branch : ℕ) : Except TrieError ℤ := do
  a.checkLive nid
  readAt a.child (2 * nid + branch)

/-- `arena.child[2 * nid + branch] = value`. -/
def setChild (a : NodeArena) (nid : ℤ) (branch : ℕ) (value : ℤ) : Except TrieError NodeArena := do
  a.checkLive nid
  let child ← writeAt a.child (2 * nid + branch) value
  return { a with child }

/-- `arena.hot_count[nid] += delta`. -/
def addHotCount (a : NodeArena) (nid delta : ℤ) : Except TrieError NodeArena := do
  a.checkLive nid
  let count ← readAt a.hotCount nid
  let hotCount ← writeAt a.hotCount nid (count + delta)
  return { a with hotCount }

/-- `allocate`: a live node id with the given fields and no children, a released id before a new
one. -/
def allocate (a : NodeArena) (network length hotCount : ℤ) : Except TrieError (ℤ × NodeArena) :=
  if length < 0 then .error (.negativeLength length)
  else
    match a.freeIds.getLast? with
    | some nodeId => do
      let network ← writeAt a.network nodeId network
      let length ← writeAt a.length nodeId length
      let hotCount ← writeAt a.hotCount nodeId hotCount
      let child ← writeAt a.child (2 * nodeId) noNode
      let child ← writeAt child (2 * nodeId + 1) noNode
      return (nodeId, ⟨network, length, hotCount, child, a.freeIds.dropLast⟩)
    | none =>
      .ok ((a.length.length : ℤ), ⟨a.network ++ [network], a.length ++ [length],
        a.hotCount ++ [hotCount], a.child ++ [noNode] ++ [noNode], a.freeIds⟩)

/-- `release`: the id goes to the end of the free list, and its length becomes `-1`. -/
def release (a : NodeArena) (nodeId : ℤ) : Except TrieError NodeArena :=
  if a.isLive nodeId then do
    let length ← writeAt a.length nodeId (-1)
    return { a with length, freeIds := a.freeIds ++ [nodeId] }
  else .error (.notLive nodeId)

end NodeArena

/-! ## The record that a live id names -/

/-- The fields of one live node. -/
@[ext]
structure Cell where
  /-- The network. -/
  network : ℤ
  /-- The prefix length. -/
  length : ℕ
  /-- The stored count. -/
  hotCount : ℤ
  /-- The child on branch 0. -/
  left : ℤ
  /-- The child on branch 1. -/
  right : ℤ

/-- The record with the child on one branch replaced. -/
def Cell.setChild (c : Cell) (branch : ℕ) (value : ℤ) : Cell :=
  if branch = 0 then { c with left := value } else { c with right := value }

/-- The child on one branch. -/
def Cell.child (c : Cell) (branch : ℕ) : ℤ := if branch = 0 then c.left else c.right

namespace NodeArena

/-- The record of a live id, and nothing for any other integer. -/
def cell (a : NodeArena) (nid : ℤ) : Option Cell :=
  match get? a.network nid, get? a.length nid, get? a.hotCount nid, get? a.child (2 * nid),
    get? a.child (2 * nid + 1) with
  | some network, some length, some hotCount, some left, some right =>
    if 0 ≤ length then some ⟨network, length.toNat, hotCount, left, right⟩ else none
  | _, _, _, _, _ => none

/-- The arena's accounting: the four lists are parallel, and the free list holds exactly the dead
slots, each once. -/
structure Accounted (a : NodeArena) : Prop where
  /-- One network a slot. -/
  network_length : a.network.length = a.length.length
  /-- One count a slot. -/
  hotCount_length : a.hotCount.length = a.length.length
  /-- Two children a slot. -/
  child_length : a.child.length = 2 * a.length.length
  /-- No id is listed twice. -/
  free_nodup : a.freeIds.Nodup
  /-- A slot is listed exactly when it is dead. -/
  mem_free_iff : ∀ i, i ∈ a.freeIds ↔ ∃ length, get? a.length i = some length ∧ length < 0

/-- The reads behind a record. -/
theorem cell_eq_some_iff (a : NodeArena) (nid : ℤ) (c : Cell) :
    a.cell nid = some c ↔ get? a.network nid = some c.network ∧
      get? a.length nid = some (c.length : ℤ) ∧ get? a.hotCount nid = some c.hotCount ∧
      get? a.child (2 * nid) = some c.left ∧ get? a.child (2 * nid + 1) = some c.right := by
  unfold cell
  constructor
  · intro h
    split at h
    · rename_i network length hotCount left right h1 h2 h3 h4 h5
      split_ifs at h with h0
      obtain rfl := Option.some.inj h
      refine ⟨h1, ?_, h3, h4, h5⟩
      simpa [h2] using (Int.toNat_of_nonneg h0).symm
    · cases h
  · rintro ⟨h1, h2, h3, h4, h5⟩
    simp [h1, h2, h3, h4, h5]

/-- A record's id is not `NO_NODE`, and is in range. -/
theorem inRange_of_cell {a : NodeArena} {nid : ℤ} {c : Cell} (h : a.cell nid = some c) :
    0 ≤ nid ∧ nid < a.length.length :=
  inRange_of_get? ((cell_eq_some_iff a nid c).1 h).2.1

/-- `NO_NODE` names no record. -/
theorem cell_noNode (a : NodeArena) : a.cell noNode = none := by
  rw [Option.eq_none_iff_forall_not_mem]
  intro c hc
  have := (inRange_of_cell hc).1
  simp [noNode] at this

/-- A record's id passes the guard. -/
theorem checkLive_of_cell {a : NodeArena} {nid : ℤ} {c : Cell} (h : a.cell nid = some c) :
    a.checkLive nid = .ok () := by
  obtain ⟨-, hl, -⟩ := (cell_eq_some_iff a nid c).1 h
  have hne : nid ≠ noNode := fun he => by rw [he, cell_noNode] at h; cases h
  simp [checkLive, hne, isLive, hl]

/-- The four lists are parallel. -/
structure Parallel (a : NodeArena) : Prop where
  network_length : a.network.length = a.length.length
  hotCount_length : a.hotCount.length = a.length.length
  child_length : a.child.length = 2 * a.length.length

theorem Accounted.parallel {a : NodeArena} (ha : a.Accounted) : a.Parallel :=
  ⟨ha.network_length, ha.hotCount_length, ha.child_length⟩

/-- In parallel lists a live id names a record. -/
theorem Parallel.exists_cell {a : NodeArena} (ha : a.Parallel) {nid : ℤ}
    (h : a.isLive nid = true) : ∃ c, a.cell nid = some c := by
  unfold isLive at h
  split at h
  · rename_i length hl
    obtain ⟨h0, hlt⟩ := inRange_of_get? hl
    obtain ⟨n, hn⟩ := exists_get? (l := a.network) h0 (by rw [ha.network_length]; exact hlt)
    obtain ⟨c, hc⟩ := exists_get? (l := a.hotCount) h0 (by rw [ha.hotCount_length]; exact hlt)
    obtain ⟨x, hx⟩ := exists_get? (l := a.child) (i := 2 * nid) (by omega)
      (by rw [ha.child_length]; push_cast; omega)
    obtain ⟨y, hy⟩ := exists_get? (l := a.child) (i := 2 * nid + 1) (by omega)
      (by rw [ha.child_length]; push_cast; omega)
    refine ⟨⟨n, length.toNat, c, x, y⟩, ?_⟩
    simp only [cell, hn, hl, hc, hx, hy, if_pos (of_decide_eq_true h)]
  · cases h

theorem isLive_of_cell {a : NodeArena} {nid : ℤ} {c : Cell} (h : a.cell nid = some c) :
    a.isLive nid = true := by
  simp [isLive, ((cell_eq_some_iff a nid c).1 h).2.1]

/-- Under the accounting, an id is live exactly when it names a record. -/
theorem Accounted.isLive_iff {a : NodeArena} (ha : a.Accounted) (nid : ℤ) :
    a.isLive nid = true ↔ (a.cell nid).isSome := by
  constructor
  · intro h
    obtain ⟨c, hc⟩ := ha.parallel.exists_cell h
    rw [hc, Option.isSome_some]
  · intro h
    obtain ⟨c, hc⟩ := Option.isSome_iff_exists.1 h
    exact isLive_of_cell hc

section Reads

variable {a : NodeArena} {nid : ℤ} {c : Cell}

/-- The length of a record is read back. -/
theorem lengthAt_of_cell (h : a.cell nid = some c) : a.lengthAt nid = .ok c.length := by
  obtain ⟨-, hl, -⟩ := (cell_eq_some_iff a nid c).1 h
  simp [lengthAt, checkLive_of_cell h, readAt, hl, bind, Except.bind, pure, Except.pure]

/-- The network of a record is read back. -/
theorem networkAt_of_cell (h : a.cell nid = some c) : a.networkAt nid = .ok c.network := by
  obtain ⟨hn, -⟩ := (cell_eq_some_iff a nid c).1 h
  simp [networkAt, checkLive_of_cell h, readAt, hn, bind, Except.bind]

/-- The count of a record is read back. -/
theorem hotCountAt_of_cell (h : a.cell nid = some c) : a.hotCountAt nid = .ok c.hotCount := by
  obtain ⟨-, -, hc, -⟩ := (cell_eq_some_iff a nid c).1 h
  simp [hotCountAt, checkLive_of_cell h, readAt, hc, bind, Except.bind]

/-- A child of a record is read back. -/
theorem childAt_of_cell (h : a.cell nid = some c) {branch : ℕ} (hb : branch < 2) :
    a.childAt nid branch = .ok (c.child branch) := by
  obtain ⟨-, -, -, hx, hy⟩ := (cell_eq_some_iff a nid c).1 h
  interval_cases branch <;>
    simp [childAt, checkLive_of_cell h, readAt, hx, hy, Cell.child, bind, Except.bind]

end Reads

section Writes

variable {a : NodeArena} {nid : ℤ} {c : Cell}

/-- A write in range succeeds and changes exactly the entry written. -/
theorem writeAt_spec {l : List ℤ} {i : ℤ} (h0 : 0 ≤ i) (hi : i < l.length) (x : ℤ) :
    ∃ l', writeAt l i x = .ok l' ∧ l'.length = l.length ∧
      ∀ j, get? l' j = if j = i then some x else get? l j := by
  obtain ⟨l', hset, hlen, hget⟩ := set?_spec h0 hi x
  exact ⟨l', by simp [writeAt, hset], hlen, hget⟩

/-- Two arenas whose reads agree at an id name the same record there. -/
theorem cell_congr {b : NodeArena} (hn : get? b.network nid = get? a.network nid)
    (hl : get? b.length nid = get? a.length nid) (hc : get? b.hotCount nid = get? a.hotCount nid)
    (hx : get? b.child (2 * nid) = get? a.child (2 * nid))
    (hy : get? b.child (2 * nid + 1) = get? a.child (2 * nid + 1)) : b.cell nid = a.cell nid := by
  simp only [cell, hn, hl, hc, hx, hy]

/-- Writing a child replaces it in the record, and touches neither another record nor the
accounting. -/
theorem setChild_spec (ha : a.Accounted) (h : a.cell nid = some c) {branch : ℕ} (hb : branch < 2)
    (value : ℤ) :
    ∃ b, a.setChild nid branch value = .ok b ∧ b.Accounted ∧
      b.cell = Function.update a.cell nid (some (c.setChild branch value)) ∧
      b.length = a.length ∧ b.freeIds = a.freeIds := by
  obtain ⟨h0, hlt⟩ := inRange_of_cell h
  obtain ⟨child, hw, hlen, hget⟩ := writeAt_spec (l := a.child) (i := 2 * nid + branch) (by omega)
    (by rw [ha.child_length]; push_cast; omega) value
  refine ⟨{ a with child }, by simp [setChild, checkLive_of_cell h, hw, bind, Except.bind, pure,
    Except.pure], ⟨ha.1, ha.2, by simp [hlen, ha.3], ha.4, ha.5⟩, ?_, rfl, rfl⟩
  funext j
  by_cases hj : j = nid
  · subst hj
    rw [Function.update_self, cell_eq_some_iff]
    obtain ⟨h1, h2, h3, h4, h5⟩ := (cell_eq_some_iff a j c).1 h
    interval_cases branch <;> simp_all [Cell.setChild]
  · rw [Function.update_of_ne hj]
    refine cell_congr rfl rfl rfl ?_ ?_
    · rw [hget, if_neg (by omega)]
    · rw [hget, if_neg (by omega)]

/-- Adding to a count replaces it in the record, and touches neither another record nor the
accounting. -/
theorem addHotCount_spec (ha : a.Accounted) (h : a.cell nid = some c) (delta : ℤ) :
    ∃ b, a.addHotCount nid delta = .ok b ∧ b.Accounted ∧
      b.cell = Function.update a.cell nid (some { c with hotCount := c.hotCount + delta }) ∧
      b.length = a.length ∧ b.freeIds = a.freeIds := by
  obtain ⟨h0, hlt⟩ := inRange_of_cell h
  obtain ⟨h1, h2, h3, h4, h5⟩ := (cell_eq_some_iff a nid c).1 h
  obtain ⟨hotCount, hw, hlen, hget⟩ := writeAt_spec (l := a.hotCount) h0
    (by rw [ha.hotCount_length]; exact hlt) (c.hotCount + delta)
  refine ⟨{ a with hotCount }, by simp [addHotCount, checkLive_of_cell h, readAt, h3, hw, bind,
    Except.bind, pure, Except.pure], ⟨ha.1, by simp [hlen, ha.2], ha.3, ha.4, ha.5⟩, ?_, rfl, rfl⟩
  funext j
  by_cases hj : j = nid
  · subst hj
    rw [Function.update_self, cell_eq_some_iff]
    simp_all
  · rw [Function.update_of_ne hj]
    refine cell_congr rfl rfl ?_ rfl rfl
    rw [hget, if_neg hj]

/-- Allocation succeeds under the accounting. It names a fresh record with no children, keeps every
other record, keeps the accounting, and adds one live slot; the slab grows only when the free list
is empty. -/
theorem allocate_spec (ha : a.Accounted) (network : ℤ) (length : ℕ) (hotCount : ℤ) :
    ∃ nid b, a.allocate network length hotCount = .ok (nid, b) ∧ b.Accounted ∧
      0 ≤ nid ∧ a.cell nid = none ∧
      b.cell = Function.update a.cell nid (some ⟨network, length, hotCount, noNode, noNode⟩) ∧
      b.liveCount = a.liveCount + 1 ∧
      (b.length.length : ℤ) = max (a.length.length : ℤ) (a.liveCount + 1) := by
  have hneg : ¬ (length : ℤ) < 0 := by omega
  rcases hlast : a.freeIds.getLast? with _ | nid
  · -- Nothing to reuse: the slab grows by one node's worth of slots.
    have hnil : a.freeIds = [] := List.getLast?_eq_none_iff.1 hlast
    have hne : ∀ j : ℤ, j ≠ a.length.length → ∀ k : ℤ, k = 2 * j ∨ k = 2 * j + 1 →
        k ≠ a.child.length ∧ k ≠ a.child.length + 1 := by
      intro j hj k hk
      rw [ha.child_length]
      push_cast
      omega
    refine ⟨a.length.length, ⟨a.network ++ [network], a.length ++ [(length : ℤ)],
      a.hotCount ++ [hotCount], a.child ++ [noNode] ++ [noNode], a.freeIds⟩,
      by simp [allocate, hneg, hlast], ⟨?_, ?_, ?_, ha.4, ?_⟩, by omega, ?_, ?_, ?_, ?_⟩
    · simp [ha.1]
    · simp [ha.2]
    · simp [ha.3]; omega
    · intro i
      rw [ha.mem_free_iff i]
      constructor
      · rintro ⟨x, hx, hx0⟩
        have := inRange_of_get? hx
        exact ⟨x, by rw [get?_concat, if_neg (by omega), hx], hx0⟩
      · rintro ⟨x, hx, hx0⟩
        rw [get?_concat] at hx
        split_ifs at hx with hi
        · obtain rfl := Option.some.inj hx
          omega
        · exact ⟨x, hx, hx0⟩
    · rw [Option.eq_none_iff_forall_not_mem]
      intro c hc
      exact absurd (inRange_of_cell hc).2 (lt_irrefl _)
    · funext j
      by_cases hj : j = a.length.length
      · subst hj
        rw [Function.update_self, cell_eq_some_iff]
        simp only [get?_concat, ha.1, ha.2, ha.3, List.length_append, List.length_singleton]
        push_cast
        simp
      · rw [Function.update_of_ne hj]
        obtain ⟨e1, e2⟩ := hne j hj (2 * j) (.inl rfl)
        obtain ⟨e3, e4⟩ := hne j hj (2 * j + 1) (.inr rfl)
        apply cell_congr
        · rw [get?_concat, if_neg (by rw [ha.1]; exact hj)]
        · rw [get?_concat, if_neg hj]
        · rw [get?_concat, if_neg (by rw [ha.2]; exact hj)]
        · rw [get?_concat, get?_concat, if_neg (by simpa using e2), if_neg e1]
        · rw [get?_concat, get?_concat, if_neg (by simpa using e4), if_neg e3]
    · simp [liveCount, hnil]
    · simp [liveCount, hnil]
  · -- The last released id is reused, and every list keeps its length.
    have hsplit : a.freeIds = a.freeIds.dropLast ++ [nid] :=
      (List.dropLast_append_getLast? nid hlast).symm
    obtain ⟨dead, hdead, hdead0⟩ := (ha.mem_free_iff nid).1 (by rw [hsplit]; simp)
    obtain ⟨h0, hlt⟩ := inRange_of_get? hdead
    obtain ⟨l1, w1, len1, g1⟩ := writeAt_spec (l := a.network) h0 (by rw [ha.1]; exact hlt) network
    obtain ⟨l2, w2, len2, g2⟩ := writeAt_spec (l := a.length) h0 hlt (length : ℤ)
    obtain ⟨l3, w3, len3, g3⟩ := writeAt_spec (l := a.hotCount) h0 (by rw [ha.2]; exact hlt) hotCount
    obtain ⟨l4, w4, len4, g4⟩ := writeAt_spec (l := a.child) (i := 2 * nid) (by omega)
      (by rw [ha.3]; push_cast; omega) noNode
    obtain ⟨l5, w5, len5, g5⟩ := writeAt_spec (l := l4) (i := 2 * nid + 1) (by omega)
      (by rw [len4, ha.3]; push_cast; omega) noNode
    have hnodup := ha.free_nodup
    rw [hsplit, List.nodup_append] at hnodup
    have hcount : a.freeIds.length = a.freeIds.dropLast.length + 1 := by
      conv_lhs => rw [hsplit]
      simp
    refine ⟨nid, ⟨l1, l2, l3, l5, a.freeIds.dropLast⟩, by simp [allocate, hneg, hlast, w1, w2, w3,
      w4, w5, bind, Except.bind, pure, Except.pure], ⟨by simp [len1, len2, ha.1],
      by simp [len3, len2, ha.2], by simp [len5, len4, len2, ha.3], hnodup.1, ?_⟩, h0, ?_, ?_, ?_, ?_⟩
    · intro i
      have hmem := ha.mem_free_iff i
      rw [hsplit, List.mem_append, List.mem_singleton] at hmem
      simp only [g2]
      by_cases hi : i = nid
      · subst hi
        have : i ∉ a.freeIds.dropLast := fun hin => hnodup.2.2 i hin i (by simp) rfl
        simp [this]
      · simpa [hi] using hmem
    · rw [Option.eq_none_iff_forall_not_mem]
      intro c hc
      have := ((cell_eq_some_iff a nid c).1 hc).2.1
      rw [hdead] at this
      have := Option.some.inj this
      omega
    · funext j
      by_cases hj : j = nid
      · subst hj
        rw [Function.update_self, cell_eq_some_iff]
        simp only [g1, g2, g3, g4, g5]
        simp
      · rw [Function.update_of_ne hj]
        apply cell_congr
        · rw [g1, if_neg hj]
        · rw [g2, if_neg hj]
        · rw [g3, if_neg hj]
        · rw [g5, g4, if_neg (by omega), if_neg (by omega)]
        · rw [g5, g4, if_neg (by omega), if_neg (by omega)]
    · simp only [liveCount, len2, hcount]
      push_cast
      ring
    · simp only [liveCount, len2, hcount]
      push_cast
      omega

/-- Releasing a live id succeeds under the accounting. It forgets that record only, keeps the
accounting, removes one live slot, and keeps the slab. -/
theorem release_spec (ha : a.Accounted) (h : a.cell nid = some c) :
    ∃ b, a.release nid = .ok b ∧ b.Accounted ∧ b.cell = Function.update a.cell nid none ∧
      b.liveCount = a.liveCount - 1 ∧ b.length.length = a.length.length := by
  obtain ⟨h0, hlt⟩ := inRange_of_cell h
  obtain ⟨-, hlive, -⟩ := (cell_eq_some_iff a nid c).1 h
  obtain ⟨length, hw, hlen, hget⟩ := writeAt_spec (l := a.length) h0 hlt (-1)
  have hfresh : nid ∉ a.freeIds := by
    intro hin
    obtain ⟨x, hx, hx0⟩ := (ha.mem_free_iff nid).1 hin
    rw [hlive] at hx
    have := Option.some.inj hx
    omega
  refine ⟨{ a with length, freeIds := a.freeIds ++ [nid] }, ?_, ⟨?_, ?_, ?_, ?_, ?_⟩, ?_, ?_, hlen⟩
  · have : a.isLive nid = true := (ha.isLive_iff nid).2 (by simp [h])
    simp [release, this, hw, bind, Except.bind, pure, Except.pure]
  · simp [hlen, ha.1]
  · simp [hlen, ha.2]
  · simp [hlen, ha.3]
  · exact List.nodup_append.2 ⟨ha.free_nodup, by simp, by
      intro x hx y hy
      simp only [List.mem_singleton] at hy
      subst hy
      exact fun he => hfresh (he ▸ hx)⟩
  · intro i
    simp only [List.mem_append, List.mem_singleton, hget, ha.mem_free_iff i]
    by_cases hi : i = nid
    · simp [hi]
    · simp [hi]
  · funext j
    by_cases hj : j = nid
    · subst hj
      rw [Function.update_self, Option.eq_none_iff_forall_not_mem]
      intro c' hc'
      have := ((cell_eq_some_iff _ j c').1 hc').2.1
      rw [hget, if_pos rfl] at this
      have := Option.some.inj this
      omega
    · rw [Function.update_of_ne hj]
      refine cell_congr rfl ?_ rfl rfl rfl
      rw [hget, if_neg hj]
  · simp only [liveCount, hlen, List.length_append, List.length_singleton]
    push_cast
    ring

end Writes

/-- A fresh arena keeps its accounts. -/
theorem empty_accounted : empty.Accounted :=
  ⟨rfl, rfl, rfl, List.nodup_nil, by simp [empty]⟩

end NodeArena

end Hammertime.Trie
