import Hammertime.Trie.Arena

/-!
# The path-compressed trie

`PatriciaTrie` of `hammertime.trie.structure.patricia`, over the arena. Every method that can raise
returns `Except TrieError`, and a method that changes the trie returns the new one. A walk of the
source is a `while` loop whose only state is the node id it stands on, so a walk that takes more steps
than the arena has slots has met a node twice and never ends: each walk gets one step a slot and one
more for the last test, and reports `diverged` beyond that. The depth-first traversal keeps a stack;
on a graph without cycles it pops fewer than `2^(capacity + 1)` entries.
-/

namespace Hammertime.Trie

open NodeArena

/-- `PatriciaTrie`: the family, the arena, and the root's id or `NO_NODE`. -/
@[ext]
structure PatriciaTrie where
  family : AddressFamily
  arena : NodeArena
  root : ℤ
deriving DecidableEq

namespace PatriciaTrie

/-- `PatriciaTrie(family)`. -/
def new (family : AddressFamily) : PatriciaTrie := ⟨family, NodeArena.empty, noNode⟩

/-- `bit_length`. -/
def bitLength (t : PatriciaTrie) : ℕ := t.family.bitLength

/-- `hot_ip_count`: the root's stored count. -/
def hotIpCount (t : PatriciaTrie) : Except TrieError ℤ :=
  if t.root = noNode then .ok 0 else t.arena.hotCountAt t.root

/-- `node_count`: the live arena slots. -/
def nodeCount (t : PatriciaTrie) : ℤ := t.arena.liveCount

/-- `_check_family`. -/
def checkFamily (t : PatriciaTrie) (family : AddressFamily) : Except TrieError Unit :=
  if family = t.family then .ok () else .error (.familyMismatch t.family family)

/-- `_check_min_length`, with the checked value as the index that it is used as. -/
def checkMinLength (t : PatriciaTrie) (minLength : ℤ) : Except TrieError ℕ :=
  if 0 ≤ minLength ∧ minLength ≤ t.bitLength then .ok minLength.toNat
  else .error (.minLength t.family minLength)

/-- The loop of `_count_at` from the node `nid`, with `target` the length of the prefix asked
for. -/
def countAtLoop (a : NodeArena) (bits : ℕ) (network : ℤ) (target : ℕ) :
    ℕ → ℤ → Except TrieError ℤ
  | 0, _ => .error .diverged
  | fuel + 1, nid =>
    if nid = noNode then .ok 0
    else do
      let length ← a.lengthAt nid
      let nodeNetwork ← a.networkAt nid
      let common := commonPrefixLength nodeNetwork network bits
      if common < min length target then return 0
      else if target ≤ length then a.hotCountAt nid
      else do
        let child ← a.childAt nid (bitAt network length bits)
        countAtLoop a bits network target fuel child

/-- `_count_at`: the count of the prefix `network/target_length`. -/
def countAt (t : PatriciaTrie) (network : ℤ) (targetLength : ℕ) : Except TrieError ℤ :=
  countAtLoop t.arena t.bitLength network targetLength (t.arena.capacity + 1) t.root

/-- `contains`. -/
def contains (t : PatriciaTrie) (address : Address) : Except TrieError Bool := do
  t.checkFamily address.family
  let count ← t.countAt address.value t.bitLength
  return count = 1

/-- `hot_count`. -/
def hotCount (t : PatriciaTrie) (p : Prefix) : Except TrieError ℤ := do
  t.checkFamily p.family
  t.countAt p.network p.length

/-- `_relink`: point the branch of `parent` toward `value`, or the root, at `newChild`. -/
def relink (t : PatriciaTrie) (parent : ℤ) (value : ℕ) (newChild : ℤ) :
    Except TrieError PatriciaTrie :=
  if parent = noNode then .ok { t with root := newChild }
  else do
    let length ← t.arena.lengthAt parent
    let arena ← t.arena.setChild parent (bitAt value length t.bitLength) newChild
    return { t with arena }

/-- `for ancestor in path: arena.hot_count[ancestor] += delta`. -/
def addAlong (a : NodeArena) (delta : ℤ) : List ℤ → Except TrieError NodeArena
  | [] => .ok a
  | ancestor :: path => do
    let a ← a.addHotCount ancestor delta
    addAlong a delta path

/-- Where the walk of `add_hot_ip` stops: `nid` is the node whose edge the new address leaves at
`common`, `parent` the node above it, and `path` the nodes wholly above the new leaf, root first. -/
structure SplitPoint where
  path : List ℤ
  parent : ℤ
  nid : ℤ
  common : ℕ

/-- The loop of `add_hot_ip`, up to the divergence that it ends at. -/
def addWalk (a : NodeArena) (bits : ℕ) (address : Address) :
    ℕ → List ℤ → ℤ → ℤ → Except TrieError SplitPoint
  | 0, _, _, _ => .error .diverged
  | fuel + 1, path, parent, nid => do
    let length ← a.lengthAt nid
    let network ← a.networkAt nid
    let common := commonPrefixLength network address.value bits
    if common < length then return ⟨path, parent, nid, common⟩
    else if length = bits then do
      -- A leaf for this address exists, but `contains` said that its count is not 1.
      let count ← a.hotCountAt nid
      throw (.corruptLeaf nid address count)
    else do
      let child ← a.childAt nid (bitAt address.value length bits)
      addWalk a bits address fuel (path ++ [nid]) nid child

/-- The split of the edge above `s.nid` at `s.common`: a new internal node there, which holds `s.nid`
and a new leaf. -/
def split (t : PatriciaTrie) (value : ℕ) (s : SplitPoint) : Except TrieError PatriciaTrie := do
  let bits := t.bitLength
  let count ← t.arena.hotCountAt s.nid
  let (internal, arena) ← t.arena.allocate (clearHostBits value (bits - s.common)) s.common
    (count + 1)
  let (leaf, arena) ← arena.allocate value bits 1
  let branch := bitAt value s.common bits
  let arena ← arena.setChild internal branch leaf
  let arena ← arena.setChild internal (1 - branch) s.nid
  relink { t with arena } s.parent value internal

/-- `add_hot_ip`: whether the HOT set changed, and the trie after the call. -/
def addHotIp (t : PatriciaTrie) (address : Address) : Except TrieError (Bool × PatriciaTrie) := do
  t.checkFamily address.family
  let present ← t.contains address
  if present then return (false, t)
  else if t.root = noNode then do
    let (root, arena) ← t.arena.allocate address.value t.bitLength 1
    return (true, { t with arena, root })
  else do
    let s ← addWalk t.arena t.bitLength address (t.arena.capacity + 1) [] noNode t.root
    let t ← t.split address.value s
    let arena ← addAlong t.arena 1 s.path
    return (true, { t with arena })

/-- The loop of `remove_hot_ip`: the nodes from `nid` down to the leaf, collected leaf first. The
source's `path[-1]`, `path[-2]`, and `path[-3]` are the first three entries. -/
def removeWalk (a : NodeArena) (bits value : ℕ) : ℕ → List ℤ → ℤ → Except TrieError (List ℤ)
  | 0, _, _ => .error .diverged
  | fuel + 1, path, nid => do
    let length ← a.lengthAt nid
    if length = bits then return nid :: path
    else if bits < length then throw .negativeShift
    else do
      let child ← a.childAt nid (bitAt value length bits)
      removeWalk a bits value fuel (nid :: path) child

/-- What `remove_hot_ip` does with the path: the leaf and its parent go, and the sibling takes the
parent's place. -/
def collapse (t : PatriciaTrie) (value : ℕ) : List ℤ → Except TrieError PatriciaTrie
  | [] => .error (.indexError (-1))
  | [leaf] => do
    -- The root is the leaf: the trie becomes empty.
    let arena ← t.arena.release leaf
    return { t with arena, root := noNode }
  | leaf :: parent :: above => do
    let length ← t.arena.lengthAt parent
    let sibling ← t.arena.childAt parent (1 - bitAt value length t.bitLength)
    let t ← t.relink (above.headD noNode) value sibling
    let arena ← addAlong t.arena (-1) above.reverse
    let arena ← arena.release leaf
    let arena ← arena.release parent
    return { t with arena }

/-- `remove_hot_ip`: whether the HOT set changed, and the trie after the call. -/
def removeHotIp (t : PatriciaTrie) (address : Address) :
    Except TrieError (Bool × PatriciaTrie) := do
  t.checkFamily address.family
  let present ← t.contains address
  if present then do
    let path ← removeWalk t.arena t.bitLength address.value (t.arena.capacity + 1) [] t.root
    let t ← t.collapse address.value path
    return (true, t)
  else return (false, t)

/-- `clear`. -/
def clear (t : PatriciaTrie) : PatriciaTrie := { t with arena := t.arena.clear, root := noNode }

/-- `_prefix_of`: the prefix of `value` of the given length. -/
def prefixOf (t : PatriciaTrie) (value : ℤ) (length : ℕ) : Except TrieError Prefix :=
  let network := clearHostBits value (t.bitLength - length)
  match Prefix.make? t.family network length with
  | some p => .ok p
  | none => .error (.invalidPrefix network length)

/-- `_node_prefix`: the stored prefix of a node. -/
def nodePrefix (t : PatriciaTrie) (nid : ℤ) : Except TrieError Prefix := do
  let network ← t.arena.networkAt nid
  let length ← t.arena.lengthAt nid
  match Prefix.make? t.family network length with
  | some p => return p
  | none => throw (.invalidPrefix network length)

/-- `for index in range(filled + 1, last + 1): counts[index] = count`. -/
def fillCounts (counts : List ℤ) (filled : ℤ) (last : ℕ) (count : ℤ) : List ℤ :=
  counts.mapIdx fun index old => if filled < index ∧ index ≤ last then count else old

/-- The loop of `_counts_along`, with `filled` the highest length already assigned. -/
def countsAlongLoop (a : NodeArena) (bits value : ℕ) :
    ℕ → List ℤ → ℤ → ℤ → Except TrieError (List ℤ)
  | 0, _, _, _ => .error .diverged
  | fuel + 1, counts, filled, nid =>
    if nid = noNode then .ok counts
    else do
      let length ← a.lengthAt nid
      let network ← a.networkAt nid
      let common := commonPrefixLength network value bits
      let count ← a.hotCountAt nid
      let last := min length common
      let counts := fillCounts counts filled last count
      if common < length ∨ length = bits then return counts
      else do
        let child ← a.childAt nid (bitAt value length bits)
        countsAlongLoop a bits value fuel counts (max filled last) child

/-- `_counts_along`: the count of every prefix of `value`, indexed by length. -/
def countsAlong (t : PatriciaTrie) (value : ℕ) : Except TrieError (List ℤ) :=
  countsAlongLoop t.arena t.bitLength value (t.arena.capacity + 1)
    (List.replicate (t.bitLength + 1) 0) (-1) t.root

/-- `counts[length]`. -/
def countOf (counts : List ℤ) (length : ℕ) : Except TrieError ℤ := readAt counts length

/-- `ancestor_counts`. -/
def ancestorCounts (t : PatriciaTrie) (address : Address) (minLength : ℤ) :
    Except TrieError (List PrefixCount) := do
  t.checkFamily address.family
  let minLength ← t.checkMinLength minLength
  let counts ← t.countsAlong address.value
  (List.range' minLength (t.bitLength + 1 - minLength)).mapM fun length => do
    let p ← t.prefixOf address.value length
    let count ← countOf counts length
    return ⟨p, count⟩

/-- The loop of `longest_matching_prefix`, from the longest length down. -/
def longestLoop (t : PatriciaTrie) (value : ℕ) (counts : List ℤ) :
    ℕ → Except TrieError (Option Prefix)
  | 0 => do
    let count ← countOf counts 0
    if 0 < count then return some (← t.prefixOf value 0) else return none
  | length + 1 => do
    let count ← countOf counts (length + 1)
    if 0 < count then return some (← t.prefixOf value (length + 1))
    else longestLoop t value counts length

/-- `longest_matching_prefix`. -/
def longestMatchingPrefix (t : PatriciaTrie) (address : Address) :
    Except TrieError (Option Prefix) := do
  t.checkFamily address.family
  let counts ← t.countsAlong address.value
  t.longestLoop address.value counts t.bitLength

/-- The loop of `_dfs`, from a stack with its top first. -/
def dfsLoop (a : NodeArena) : ℕ → List (ℤ × ℤ) → Except TrieError (List (ℤ × ℤ))
  | _, [] => .ok []
  | 0, _ :: _ => .error .diverged
  | fuel + 1, (nid, parentLength) :: stack => do
    let length ← a.lengthAt nid
    let right ← a.childAt nid 1
    let left ← a.childAt nid 0
    let stack := if right = noNode then stack else (right, (length : ℤ)) :: stack
    let stack := if left = noNode then stack else (left, (length : ℤ)) :: stack
    let rest ← dfsLoop a fuel stack
    return (nid, parentLength) :: rest

/-- `_dfs`: every reachable node in pre-order, branch 0 first, with its parent's length. -/
def dfs (t : PatriciaTrie) : Except TrieError (List (ℤ × ℤ)) :=
  if t.root = noNode then .ok []
  else dfsLoop t.arena (2^(t.arena.capacity + 1)) [(t.root, -1)]

/-- The prefixes of one compressed edge, as `_iter_prefix_counts` yields them. -/
def edgePrefixCounts (t : PatriciaTrie) (minLength : ℕ) (visit : ℤ × ℤ) :
    Except TrieError (List PrefixCount) := do
  let (nid, parentLength) := visit
  let count ← t.arena.hotCountAt nid
  if count ≤ 0 then return []
  else do
    let network ← t.arena.networkAt nid
    let length ← t.arena.lengthAt nid
    let first := (max (parentLength + 1) minLength).toNat
    (List.range' first (length + 1 - first)).mapM fun length => do
      let p ← t.prefixOf network length
      return ⟨p, count⟩

/-- `iter_prefix_counts`: every compressed edge expanded into the prefixes it stands for. -/
def iterPrefixCounts (t : PatriciaTrie) (minLength : ℤ) : Except TrieError (List PrefixCount) := do
  let minLength ← t.checkMinLength minLength
  let visits ← t.dfs
  let edges ← visits.mapM (t.edgePrefixCounts minLength)
  return edges.flatten

/-- The address that `iter_hot_addresses` yields for one visit, if any. -/
def visitAddress (t : PatriciaTrie) (visit : ℤ × ℤ) : Except TrieError (List Address) := do
  let length ← t.arena.lengthAt visit.1
  if length = t.bitLength then do
    let network ← t.arena.networkAt visit.1
    match Address.make? t.family network with
    | some address => return [address]
    | none => throw (.invalidAddress network)
  else return []

/-- `iter_hot_addresses`: every reachable node at `bit_length`; counts are never read. -/
def iterHotAddresses (t : PatriciaTrie) : Except TrieError (List Address) := do
  let visits ← t.dfs
  let addresses ← visits.mapM t.visitAddress
  return addresses.flatten

/-- The view of one node that `iter_nodes` yields. -/
def nodeView (t : PatriciaTrie) (nid : ℤ) : Except TrieError NodeView := do
  let left ← t.arena.childAt nid 0
  let right ← t.arena.childAt nid 1
  let children ← ([left, right].filter (· ≠ noNode)).mapM t.nodePrefix
  let p ← t.nodePrefix nid
  let count ← t.arena.hotCountAt nid
  return ⟨p, count, children⟩

/-- `iter_nodes`: every reachable node, with its stored count. -/
def iterNodes (t : PatriciaTrie) : Except TrieError (List NodeView) := do
  let visits ← t.dfs
  visits.mapM fun visit => t.nodeView visit.1

end PatriciaTrie

end Hammertime.Trie
