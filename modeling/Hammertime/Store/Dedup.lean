import Mathlib.Data.Finset.Max
import Mathlib.Data.List.Sort
import Hammertime.Detection
import Hammertime.Lib.Dict
import Hammertime.Lib.Json
import Hammertime.Lib.Program

/-!
# The in-memory dedup store

`SequenceWindow` of `hammertime.store.dedup` and `MemoryDedupStore` of `hammertime.store.memory`.
A window remembers the sequences of one agent: a high-water mark below which every sequence counts
as seen, and a bounded set of sequences seen ahead of a gap. The store keeps one window for each
agent and one expiry that only ever moves later, and sweeps the windows whose expiry has passed.

The clock is a function from the number of earlier readings to what it reads. The expiry heap is
kept as the list its items are popped in, since only its smallest item is ever looked at.
-/

namespace Hammertime.Store

open Lib

/-- `DEFAULT_MAX_OUT_OF_ORDER`. -/
def defaultMaxOutOfOrder : ℕ := 10000

/-- `SequenceKey`: the dedup identity of one observation. -/
@[ext]
structure SequenceKey where
  agentId : Text
  sequence : ℤ

/-- `cache_key`. -/
def SequenceKey.cacheKey (key : SequenceKey) : Text :=
  key.agentId ++ Text.ofString "\x1f" ++ Text.ofString (toString key.sequence)

/-- The key under which `RedisDedupStore` keeps a pair, with `_KEY_PREFIX`. -/
def SequenceKey.redisKey (key : SequenceKey) : Text :=
  Text.ofString "hammertime:dedup:" ++ key.cacheKey

/-- `SequenceWindow`. -/
structure SequenceWindow where
  highWaterMark : ℤ
  maxOutOfOrder : ℕ
  /-- The sequences seen ahead of an unfilled gap. -/
  ahead : Finset ℤ

namespace SequenceWindow

/-- `SequenceWindow()`. -/
def new : SequenceWindow := ⟨-1, defaultMaxOutOfOrder, ∅⟩

variable (w : SequenceWindow)

/-- `contains`. -/
def contains (sequence : ℤ) : Bool :=
  if sequence ≤ w.highWaterMark then true else sequence ∈ w.ahead

/-- `_fold_contiguous_run`: advance the mark through the sequences already seen right after it. -/
def foldContiguousRun (w : SequenceWindow) : SequenceWindow :=
  if w.highWaterMark + 1 ∈ w.ahead then
    foldContiguousRun
      { w with
        highWaterMark := w.highWaterMark + 1
        ahead := w.ahead.erase (w.highWaterMark + 1) }
  else w
termination_by w.ahead.card
decreasing_by exact Finset.card_erase_lt_of_mem ‹_›

/-- `_bound_out_of_order_set`: drop the oldest sequence held when there are too many. -/
def boundOutOfOrderSet : SequenceWindow :=
  if h : w.ahead.card > w.maxOutOfOrder then
    { w with ahead := w.ahead.erase (w.ahead.min' (Finset.card_pos.mp (Nat.zero_lt_of_lt h))) }
  else w

/-- `add`. -/
def add (sequence : ℤ) : SequenceWindow :=
  if w.contains sequence then w
  else if sequence = w.highWaterMark + 1 then
    { w with highWaterMark := sequence }.foldContiguousRun
  else { w with ahead := insert sequence w.ahead }.boundOutOfOrderSet

end SequenceWindow

/-- An item of the expiry heap: when, and whose window. -/
abbrev Expiry := ℤ × String

/-- The order of two items, that of the tuples. -/
def Expiry.before (a b : Expiry) : Prop := a.1 < b.1 ∨ a.1 = b.1 ∧ a.2 ≤ b.2

instance : DecidableRel Expiry.before := fun _ _ => inferInstanceAs (Decidable (_ ∨ _))

/-- `MemoryDedupStore`, less its clock. -/
structure MemoryDedupStore where
  maxAgents : ℤ
  /-- The window of each agent, the least recently touched first. -/
  windows : Dict String SequenceWindow
  expiresAt : Dict String ℤ
  expiryHeap : List Expiry

/-- `MemoryDedupStore(max_agents=...)`. -/
def MemoryDedupStore.make (maxAgents : ℤ) : Except Failure MemoryDedupStore :=
  if maxAgents ≤ 0 then .error (.valueError s!"max_agents must be positive, got {maxAgents}")
  else .ok ⟨maxAgents, .empty, .empty, []⟩

/-- A store, and how often its clock has been read. -/
structure Keeper where
  readings : ℕ
  store : MemoryDedupStore

namespace Keeper

variable (clock : ℕ → ℤ)

/-- `clock.now()`. -/
def now : Program Failure Keeper ℤ := fun k =>
  .ok (clock k.readings) { k with readings := k.readings + 1 }

/-- The loop of `_sweep`. A heap item that is not the agent's present expiry is stale. -/
def sweepLoop (now : ℤ) : List Expiry → MemoryDedupStore →
    EStateM.Result Failure MemoryDedupStore PUnit
  | [], store => .ok ⟨⟩ { store with expiryHeap := [] }
  | (expiresAt, agentId) :: rest, store =>
    if expiresAt ≤ now then
      if store.expiresAt.get? agentId = some expiresAt then
        if store.windows.contains agentId then
          sweepLoop now rest
            { store with
              windows := store.windows.erase agentId
              expiresAt := store.expiresAt.erase agentId }
        else .error .keyError { store with expiryHeap := rest }
      else sweepLoop now rest store
    else .ok ⟨⟩ { store with expiryHeap := (expiresAt, agentId) :: rest }

/-- `_sweep`: evict every agent window whose most recent expiry has passed. -/
def sweep : Program Failure Keeper PUnit := do
  let now ← now clock
  Program.zoom Keeper.store (fun k store => { k with store })
    fun store => sweepLoop now store.expiryHeap store

/-- `_evict_if_full`: make room by dropping the least recently touched window. -/
def evictIfFull (store : MemoryDedupStore) : MemoryDedupStore :=
  if (store.windows.size : ℤ) < store.maxAgents then store
  else
    match store.windows.items with
    -- `max_agents` is positive, so that an empty store is never full.
    | [] => store
    | (evicted, _) :: _ =>
      { store with
        windows := store.windows.erase evicted
        expiresAt := store.expiresAt.erase evicted }

/-- `OrderedDict.move_to_end`, with the window as it is after the call. -/
def moveToEnd (windows : Dict String SequenceWindow) (agentId : String) (window : SequenceWindow) :
    Dict String SequenceWindow :=
  (windows.erase agentId).set agentId window

/-- `has_seen`. -/
def hasSeen (agentId : String) (sequence : ℤ) : Program Failure Keeper Bool := do
  sweep clock
  let k ← get
  match k.store.windows.get? agentId with
  | none => pure false
  | some window =>
    set { k with store.windows := moveToEnd k.store.windows agentId window }
    pure (window.contains sequence)

/-- The first half of `mark_seen`: the agent's window, created if there is none, takes the
sequence. -/
def remember (agentId : String) (sequence : ℤ) (store : MemoryDedupStore) : MemoryDedupStore :=
  match store.windows.get? agentId with
  | none =>
    let store := evictIfFull store
    { store with windows := store.windows.set agentId (SequenceWindow.new.add sequence) }
  | some window =>
    { store with windows := moveToEnd store.windows agentId (window.add sequence) }

/-- The second half of `mark_seen`: the agent's expiry moves to `expiresAt` unless it is already
that late. -/
def extend (agentId : String) (expiresAt : ℤ) (store : MemoryDedupStore) : MemoryDedupStore :=
  if (store.expiresAt.get? agentId).all (· < expiresAt) then
    { store with
      expiresAt := store.expiresAt.set agentId expiresAt
      expiryHeap := store.expiryHeap.orderedInsert Expiry.before (expiresAt, agentId) }
  else store

/-- `mark_seen`. The expiry is computed from a second reading of the clock. -/
def markSeen (agentId : String) (sequence ttlSeconds : ℤ) : Program Failure Keeper PUnit := do
  sweep clock
  modify fun k => { k with store := remember agentId sequence k.store }
  let now ← now clock
  modify fun k => { k with store := extend agentId (now + ttlSeconds) k.store }

/-- `claim`. -/
def claim (agentId : String) (sequence ttlSeconds : ℤ) : Program Failure Keeper Bool := do
  if ← hasSeen clock agentId sequence then pure false
  else
    markSeen clock agentId sequence ttlSeconds
    pure true

end Keeper

/-! ### Runs of calls -/

/-- A call of the store. -/
inductive Call where
  | hasSeen (agentId : String) (sequence : ℤ)
  | markSeen (agentId : String) (sequence ttlSeconds : ℤ)
  | claim (agentId : String) (sequence ttlSeconds : ℤ)

namespace Call

/-- The agent a call is about. -/
def agentId : Call → String
  | hasSeen agentId _ => agentId
  | markSeen agentId _ _ => agentId
  | claim agentId _ _ => agentId

/-- The sequence a call is about. -/
def sequence : Call → ℤ
  | hasSeen _ sequence => sequence
  | markSeen _ sequence _ => sequence
  | claim _ sequence _ => sequence

/-- Make the call. The answer is none for `mark_seen`, which returns nothing. -/
def perform (clock : ℕ → ℤ) : Call → Program Failure Keeper (Option Bool)
  | hasSeen agentId sequence => some <$> Keeper.hasSeen clock agentId sequence
  | markSeen agentId sequence ttlSeconds =>
    (fun _ => none) <$> Keeper.markSeen clock agentId sequence ttlSeconds
  | claim agentId sequence ttlSeconds => some <$> Keeper.claim clock agentId sequence ttlSeconds

end Call

/-- A call that returned: its answer, the first and the last time it read, and the store it left. -/
structure Made where
  call : Call
  answer : Option Bool
  began : ℤ
  ended : ℤ
  store : MemoryDedupStore

/-- The calls of a list, one after the other, with what each returned. -/
def perform (clock : ℕ → ℤ) : List Call → Program Failure Keeper (List Made)
  | [] => pure []
  | call :: rest => do
    let before ← get
    let answer ← call.perform clock
    let after ← get
    let made ← perform clock rest
    pure (⟨call, answer, clock before.readings, clock (after.readings - 1), after.store⟩ :: made)

end Hammertime.Store
