import Hammertime.Trie.Arena

/-!
# The reference trie

`BinaryTrie` of `hammertime.trie.structure.binary_trie`: one node for every prefix with an address
below it, and one step down for each bit. It shares nothing with the Patricia trie but the address
types and the checks on arguments. The source's nodes are mutable objects that only their parents
refer to, so a node is here a value, and a loop that walks down and changes what it passes is a
recursion that rebuilds the path. `child` is a pair of nodes and `None` is `absent`.
-/

namespace Hammertime.Trie

/-- `TrieNode | None`. -/
inductive TrieNode where
  | absent
  | node (hotCount : ℤ) (child0 child1 : TrieNode)
deriving DecidableEq

namespace TrieNode

/-- `0 if node is None else node.hot_count`. -/
def count : TrieNode → ℤ
  | absent => 0
  | node hotCount _ _ => hotCount

/-- `None if node is None else node.child[bit]`. -/
def child (bit : ℕ) : TrieNode → TrieNode
  | absent => absent
  | node _ child0 child1 => if bit = 0 then child0 else child1

/-- `node.child[bit] = value`. -/
def setChild (n : TrieNode) (bit : ℕ) (value : TrieNode) : TrieNode :=
  match n with
  | absent => absent
  | node hotCount child0 child1 =>
    if bit = 0 then node hotCount value child1 else node hotCount child0 value

/-- How many nodes there are. -/
def size : TrieNode → ℕ
  | absent => 0
  | node _ child0 child1 => 1 + child0.size + child1.size

/-- The node reached along some bits, if every node on the way exists. -/
def descend : List ℕ → TrieNode → TrieNode
  | _, absent => absent
  | [], n => n
  | bit :: bits, n => descend bits (n.child bit)

/-- `add_hot_ip` from one node on: the node is created if it is missing and its count goes up, and so
on for each bit. The second component is how many nodes were created. -/
def addBits : List ℕ → TrieNode → TrieNode × ℤ
  | [], absent => (node 1 absent absent, 1)
  | [], node hotCount child0 child1 => (node (hotCount + 1) child0 child1, 0)
  | bit :: bits, absent =>
    let (nxt, created) := addBits bits absent
    ((node 1 absent absent).setChild bit nxt, 1 + created)
  | bit :: bits, node hotCount child0 child1 =>
    let (nxt, created) := addBits bits ((node hotCount child0 child1).child bit)
    ((node (hotCount + 1) child0 child1).setChild bit nxt, created)

/-- `remove_hot_ip` from one node on, at some depth: the count goes down, and an emptied node goes with
everything below it. The second component is how much `_node_count` goes down. -/
def removeBits (bitLength : ℕ) : ℕ → List ℕ → TrieNode → Except TrieError (TrieNode × ℤ)
  | _, _, absent => .error .assertion
  | depth, bits, node hotCount child0 child1 =>
    if hotCount - 1 = 0 then .ok (absent, bitLength - depth + 1)
    else
      match bits with
      | [] => .ok (node (hotCount - 1) child0 child1, 0)
      | bit :: bits => do
        let (nxt, removed) ← removeBits bitLength (depth + 1) bits
          ((node hotCount child0 child1).child bit)
        return ((node (hotCount - 1) child0 child1).setChild bit nxt, removed)

/-- The counts along some bits, the first that of the node itself. -/
def pathCounts : List ℕ → TrieNode → List ℤ
  | [], n => [n.count]
  | bit :: bits, n => n.count :: pathCounts bits (n.child bit)

/-- The loop of `longest_matching_prefix`, with `length` the length of the next node. -/
def longestBits : ℕ → List ℕ → TrieNode → Option ℕ → Option ℕ
  | _, [], _, best => best
  | length, bit :: bits, n, best =>
    if n = absent then best
    else
      let n := n.child bit
      longestBits (length + 1) bits n (if n ≠ absent ∧ 0 < n.count then some length else best)

/-- The loop of `_walk`, from a stack of nodes with their networks and lengths, its top first. -/
def walkLoop (bitLength : ℕ) :
    ℕ → List (TrieNode × ℕ × ℕ) → Except TrieError (List (TrieNode × ℕ × ℕ))
  | _, [] => .ok []
  | 0, _ :: _ => .error .diverged
  | fuel + 1, (n, network, length) :: stack => do
    let push (bit : ℕ) (stack : List (TrieNode × ℕ × ℕ)) :
        Except TrieError (List (TrieNode × ℕ × ℕ)) :=
      if n.child bit = absent then .ok stack
      else if bitLength ≤ length then .error .negativeShift
      else .ok ((n.child bit, network ||| (bit <<< (bitLength - 1 - length)), length + 1) :: stack)
    let stack ← push 1 stack
    let stack ← push 0 stack
    let rest ← walkLoop bitLength fuel stack
    return (n, network, length) :: rest

end TrieNode

open TrieNode

/-- `BinaryTrie`: the family, the root, and the maintained `_node_count`. -/
@[ext]
structure BinaryTrie where
  family : AddressFamily
  root : TrieNode
  nodeCount : ℤ
deriving DecidableEq

namespace BinaryTrie

/-- `BinaryTrie(family)`. -/
def new (family : AddressFamily) : BinaryTrie := ⟨family, absent, 0⟩

/-- `bit_length`. -/
def bitLength (t : BinaryTrie) : ℕ := t.family.bitLength

/-- `hot_ip_count`: the root's stored count. -/
def hotIpCount (t : BinaryTrie) : ℤ := t.root.count

/-- `_check_family`. -/
def checkFamily (t : BinaryTrie) (family : AddressFamily) : Except TrieError Unit :=
  if family = t.family then .ok () else .error (.familyMismatch t.family family)

/-- `_check_min_length`, with the checked value as the index that it is used as. -/
def checkMinLength (t : BinaryTrie) (minLength : ℤ) : Except TrieError ℕ :=
  if 0 ≤ minLength ∧ minLength ≤ t.bitLength then .ok minLength.toNat
  else .error (.minLength t.family minLength)

/-- `contains`: the node of the whole address exists, with count 1. -/
def contains (t : BinaryTrie) (address : Address) : Except TrieError Bool := do
  t.checkFamily address.family
  let n := descend address.bits t.root
  return decide (n ≠ absent ∧ n.count = 1)

/-- `add_hot_ip`: whether the HOT set changed, and the trie after the call. -/
def addHotIp (t : BinaryTrie) (address : Address) : Except TrieError (Bool × BinaryTrie) := do
  t.checkFamily address.family
  if ← t.contains address then return (false, t)
  else do
    let (root, created) := addBits address.bits t.root
    return (true, { t with root, nodeCount := t.nodeCount + created })

/-- `remove_hot_ip`: whether the HOT set changed, and the trie after the call. -/
def removeHotIp (t : BinaryTrie) (address : Address) : Except TrieError (Bool × BinaryTrie) := do
  t.checkFamily address.family
  if ← t.contains address then do
    let (root, removed) ← removeBits t.bitLength 0 address.bits t.root
    return (true, { t with root, nodeCount := t.nodeCount - removed })
  else return (false, t)

/-- `clear`. -/
def clear (t : BinaryTrie) : BinaryTrie := { t with root := absent, nodeCount := 0 }

/-- `hot_count`. -/
def hotCount (t : BinaryTrie) (p : Prefix) : Except TrieError ℤ := do
  t.checkFamily p.family
  let bits := (List.range p.length).map fun index =>
    (p.network >>> (t.bitLength - 1 - index) % 2).toNat
  return (descend bits t.root).count

/-- `_make_prefix`. -/
def makePrefix (t : BinaryTrie) (network : ℤ) (length : ℕ) : Except TrieError Prefix :=
  match Prefix.make? t.family network length with
  | some p => .ok p
  | none => .error (.invalidPrefix network length)

/-- `_prefix`: the prefix of `value` of the given length. -/
def prefixOf (t : BinaryTrie) (value : ℕ) (length : ℕ) : Except TrieError Prefix :=
  t.makePrefix (clearHostBits value (t.bitLength - length)) length

/-- `ancestor_counts`. -/
def ancestorCounts (t : BinaryTrie) (address : Address) (minLength : ℤ) :
    Except TrieError (List PrefixCount) := do
  t.checkFamily address.family
  let minLength ← t.checkMinLength minLength
  let counts := pathCounts address.bits t.root
  (List.range' minLength (t.bitLength + 1 - minLength)).mapM fun (length : ℕ) => do
    let p ← t.prefixOf address.value length
    let count ← NodeArena.readAt counts length
    return ⟨p, count⟩

/-- `longest_matching_prefix`. -/
def longestMatchingPrefix (t : BinaryTrie) (address : Address) :
    Except TrieError (Option Prefix) := do
  t.checkFamily address.family
  let best := if t.root ≠ absent ∧ 0 < t.root.count then some 0 else none
  match longestBits 1 address.bits t.root best with
  | none => return none
  | some length => return some (← t.prefixOf address.value length)

/-- `_walk`: every node in pre-order, branch 0 first, with its network and length. -/
def walk (t : BinaryTrie) : Except TrieError (List (TrieNode × ℕ × ℕ)) :=
  if t.root = absent then .ok []
  else walkLoop t.bitLength t.root.size [(t.root, 0, 0)]

/-- `iter_prefix_counts`. -/
def iterPrefixCounts (t : BinaryTrie) (minLength : ℤ) : Except TrieError (List PrefixCount) := do
  let minLength ← t.checkMinLength minLength
  let visits ← t.walk
  let counts ← visits.mapM fun (n, network, length) => do
    if 0 < n.count ∧ minLength ≤ length then
      let p ← t.makePrefix network length
      return [⟨p, n.count⟩]
    else return ([] : List PrefixCount)
  return counts.flatten

/-- `iter_hot_addresses`: every materialized leaf; counts are never consulted. -/
def iterHotAddresses (t : BinaryTrie) : Except TrieError (List Address) := do
  let visits ← t.walk
  let addresses ← visits.mapM fun (_, network, length) => do
    if length = t.bitLength then
      match Address.make? t.family (network : ℕ) with
      | some address => return [address]
      | none => throw (.invalidAddress (network : ℕ))
    else return ([] : List Address)
  return addresses.flatten

/-- `iter_nodes`: every node, with its stored count and the prefixes of its children. -/
def iterNodes (t : BinaryTrie) : Except TrieError (List NodeView) := do
  let visits ← t.walk
  visits.mapM fun (n, network, length) => do
    let children ← ([0, 1].filter fun bit => n.child bit ≠ absent).mapM fun bit =>
      t.makePrefix (network ||| (bit <<< (t.bitLength - 1 - length)) : ℕ) (length + 1)
    let p ← t.makePrefix network length
    return ⟨p, n.count, children⟩

end BinaryTrie

end Hammertime.Trie
