import Hammertime.Addressing
import Hammertime.Aggregator.Counter
import Hammertime.Lib.Dict
import Hammertime.Lib.Program

/-!
# The window counters of one shard

`ShardWindow` of the aggregator's `window/store.py`: for each tracked IP a counter, a state, the
event time of the newest applied bucket and the inherited flag, with the two schedules that let a
sweep find what is due. The methods that read the clock take its reading `now` here; what reads it
for them stands with the emitter and the worker.

A `heapq` list is kept as the list its items are popped in. Only the smallest item is ever looked
at, and the tie-break makes the order of the items total, so nothing depends on how the heap is
laid out. The three loops over the heaps run on fuel: an item leaves the expiry heap at once, and a
retention item is pushed back at most once before it leaves.
-/

namespace Hammertime.Aggregator

open Lib

/-- `WindowChange`: one IP's window total moving. -/
structure WindowChange where
  ip : Address
  /-- The IP's state before any evaluation. -/
  state : IpState
  totalBefore : ℤ
  totalAfter : ℤ
deriving DecidableEq

/-- `_Entry`: everything the store holds for one tracked IP. -/
structure Entry where
  counter : IpCounter
  state : IpState
  /-- Event time of the newest applied bucket, or the claim's time for an inherited entry. -/
  lastSeen : ℤ
  inherited : Bool

/-- A `(key, tie_break, ip)` item of a schedule. -/
structure HeapItem where
  key : ℤ
  tieBreak : ℕ
  ip : Address
deriving DecidableEq

/-- The order of the items: by key, then by tie-break. -/
def HeapItem.before (a b : HeapItem) : Prop :=
  a.key < b.key ∨ a.key = b.key ∧ a.tieBreak ≤ b.tieBreak

instance : DecidableRel HeapItem.before := fun a b =>
  inferInstanceAs (Decidable (a.key < b.key ∨ a.key = b.key ∧ a.tieBreak ≤ b.tieBreak))

/-- `heapq.heappush`. -/
def heappush (heap : List HeapItem) (item : HeapItem) : List HeapItem :=
  heap.orderedInsert HeapItem.before item

/-- `ShardWindow`. -/
structure ShardWindow where
  shard : ℕ
  nextSequence : ℕ
  capacityEvictions : ℕ
  retentionEvictions : ℕ
  config : DetectionConfig
  maxTrackedIps : ℤ
  entries : Dict Address Entry
  /-- The number of tie-breaks handed out. -/
  tieBreak : ℕ
  expiryHeap : List HeapItem
  /-- The earliest expiry pushed for each IP and not yet consumed. -/
  expiryScheduled : Dict Address ℤ
  lastSeenHeap : List HeapItem
  /-- The key of each IP's one pending retention item. -/
  lastSeenScheduled : Dict Address ℤ
  warmUntil : Option ℤ

/-- `_new_counter`, where the ring can be allocated: `Config.FullConfig.NeverRaises` is about the
configurations for which it can. -/
def newCounter (config : DetectionConfig) : Except Failure IpCounter :=
  IpCounter.makeRing config.bucketSeconds config.bucketCount

namespace ShardWindow

variable (w : ShardWindow)

/-! ### Reads -/

/-- `total`: the IP's running window total, 0 when untracked. -/
def total (ip : Address) : ℤ :=
  match w.entries.get? ip with
  | none => 0
  | some entry => entry.counter.total

/-- `state`: the IP's state, COLD when untracked. -/
def state (ip : Address) : IpState :=
  match w.entries.get? ip with
  | none => .cold
  | some entry => entry.state

/-- `is_inherited`. -/
def isInherited (ip : Address) : Bool :=
  match w.entries.get? ip with
  | none => false
  | some entry => entry.inherited

/-- `hot_ips`. -/
def hotIps : Finset Address :=
  ((w.entries.items.filter fun p => p.2.state = .hot).map Prod.fst).toFinset

/-- `tracked_ips`. -/
def trackedIps : Finset Address := w.entries.keys.toFinset

/-! ### Internals -/

/-- `_schedule_last_seen`: keep one pending retention item for the IP. -/
def scheduleLastSeen (ip : Address) (entry : Entry) : ShardWindow :=
  if w.lastSeenScheduled.contains ip then w
  else
    { w with
      lastSeenScheduled := w.lastSeenScheduled.set ip entry.lastSeen
      lastSeenHeap := heappush w.lastSeenHeap ⟨entry.lastSeen, w.tieBreak, ip⟩
      tieBreak := w.tieBreak + 1 }

/-- `_schedule_expiry`: keep the earliest pending expiry of the IP on the heap. -/
def scheduleExpiry (ip : Address) (entry : Entry) : ShardWindow :=
  match entry.counter.nextExpiry with
  | none => w
  | some expiresAt =>
    if (w.expiryScheduled.get? ip).any (· ≤ expiresAt) then w
    else
      { w with
        expiryScheduled := w.expiryScheduled.set ip expiresAt
        expiryHeap := heappush w.expiryHeap ⟨expiresAt, w.tieBreak, ip⟩
        tieBreak := w.tieBreak + 1 }

/-- `_track`: a new entry, with its retention item. -/
def track (ip : Address) (entry : Entry) : ShardWindow :=
  { w with entries := w.entries.set ip entry }.scheduleLastSeen ip entry

/-- `_drop`: remove an entry; its stale schedule items are ignored lazily. -/
def drop (ip : Address) : ShardWindow :=
  { w with
    entries := w.entries.erase ip
    expiryScheduled := w.expiryScheduled.erase ip
    lastSeenScheduled := w.lastSeenScheduled.erase ip }

/-- The search of `_evict_for_capacity`: the least recently seen COLD entry, with the HOT items met
on the way set aside. -/
def findVictim : ℕ → ShardWindow → List HeapItem → ShardWindow × List HeapItem × Option Address
  | 0, w, deferred => (w, deferred, none)
  | fuel + 1, w, deferred =>
    match w.lastSeenHeap with
    | [] => (w, deferred, none)
    | item :: rest =>
      match w.entries.get? item.ip with
      | none =>
        findVictim fuel
          { w with lastSeenHeap := rest, lastSeenScheduled := w.lastSeenScheduled.erase item.ip }
          deferred
      | some entry =>
        if item.key ≠ entry.lastSeen then
          -- A stale key is pushed back with the entry's own value.
          findVictim fuel
            { w with
              lastSeenHeap := heappush rest { item with key := entry.lastSeen }
              lastSeenScheduled := w.lastSeenScheduled.set item.ip entry.lastSeen }
            deferred
        else if entry.state = .hot then
          findVictim fuel { w with lastSeenHeap := rest } (deferred ++ [item])
        else ({ w with lastSeenHeap := rest }, deferred, some item.ip)

/-- `_evict_for_capacity`: make room for one new IP, unless every tracked IP is HOT. -/
def evictForCapacity : ShardWindow :=
  if (w.entries.size : ℤ) < w.maxTrackedIps then w
  else
    let (w', deferred, victim) := findVictim (2 * w.lastSeenHeap.length) w []
    let w'' := { w' with lastSeenHeap := deferred.foldl heappush w'.lastSeenHeap }
    match victim with
    | none => w''
    | some ip => { w''.drop ip with capacityEvictions := w''.capacityEvictions + 1 }

/-! ### Writes -/

/-- The loop of the constructor: every inherited IP is tracked from the start, HOT, with an empty
ring. -/
def trackInherited (now : ℤ) : List Address → ShardWindow → Except Failure ShardWindow
  | [], w => .ok w
  | ip :: rest, w => do
    let counter ← newCounter w.config
    trackInherited now rest (w.track ip ⟨counter, .hot, now, true⟩)

/-- `ShardWindow(...)`, with the inherited IPs in the order their set iterates in. -/
def make (shard : ℕ) (config : DetectionConfig) (now : ℤ) (inheritedHot : List Address)
    (nextSequence : ℕ) (maxTrackedIps : ℤ) : Except Failure ShardWindow :=
  if maxTrackedIps ≤ 0 then
    .error (.valueError s!"max_tracked_ips must be positive, got {maxTrackedIps}")
  else do
    let window ← trackInherited now inheritedHot
      { shard, nextSequence, config, maxTrackedIps
        capacityEvictions := 0
        retentionEvictions := 0
        entries := .empty
        tieBreak := 0
        expiryHeap := []
        expiryScheduled := .empty
        lastSeenHeap := []
        lastSeenScheduled := .empty
        warmUntil := none }
    let warmUntil := if window.entries.items.isEmpty then none else some (now + config.windowSeconds)
    pure { window with warmUntil }

/-- `finish_warmup_if_due` once it is due: the inherited IPs that are still HOT, with every flag
and `warm_until` cleared. -/
def finishWarmup : Finset Address × ShardWindow :=
  let stillHot := w.entries.items.filter fun p => p.2.inherited ∧ p.2.state = .hot
  ((stillHot.map Prod.fst).toFinset,
    { w with
      entries := w.entries.mapValues fun _ entry => { entry with inherited := false }
      warmUntil := none })

/-- `observe`: apply `delta` to the IP's bucket at `start`, creating the entry if needed. The answer
is none when the bucket is not live, in which case the store is untouched. -/
def observe (ip : Address) (start delta now : ℤ) :
    Except Failure (Option WindowChange × ShardWindow) := do
  match w.entries.get? ip with
  | none =>
    let counter ← newCounter w.config
    let (applied, counter') ← counter.observe start delta now
    if applied then
      let entry : Entry := ⟨counter', .cold, start, false⟩
      let w' := ((w.evictForCapacity).track ip entry).scheduleExpiry ip entry
      pure (some ⟨ip, .cold, counter.total, counter'.total⟩, w')
    else pure (none, w)
  | some entry =>
    let (applied, counter') ← entry.counter.observe start delta now
    if applied then
      let entry' := { entry with counter := counter', lastSeen := max entry.lastSeen start }
      let w' := { w with entries := w.entries.set ip entry' }.scheduleExpiry ip entry'
      pure (some ⟨ip, entry.state, entry.counter.total, counter'.total⟩, w')
    else pure (none, w)

/-- `set_state`: record the state the caller evaluated; COLD clears the inherited flag. -/
def setState (ip : Address) (state : IpState) : Except Failure ShardWindow :=
  match w.entries.get? ip with
  | none => .error .keyError
  | some entry =>
    match state with
    | .hot => .ok { w with entries := w.entries.set ip { entry with state := .hot } }
    | .cold =>
      let entry' := { entry with state := .cold, inherited := false }
      .ok ({ w with entries := w.entries.set ip entry' }.scheduleLastSeen ip entry')

/-- One turn of the loop of `expire_due`, or none when nothing more is due. -/
def expireNext (now : ℤ) : Option (List WindowChange × ShardWindow) :=
  match w.expiryHeap with
  | [] => none
  | item :: rest =>
    if item.key ≤ now then
      if w.expiryScheduled.get? item.ip ≠ some item.key then
        -- Superseded by an earlier expiry, or the IP is gone.
        some ([], { w with expiryHeap := rest })
      else
        let w' :=
          { w with expiryHeap := rest, expiryScheduled := w.expiryScheduled.erase item.ip }
        match w'.entries.get? item.ip with
        | none => some ([], w')
        | some entry =>
          let (removed, counter) := entry.counter.expire now
          let entry' := { entry with counter := counter }
          let w'' :=
            { w' with entries := w'.entries.set item.ip entry' }.scheduleExpiry item.ip entry'
          if removed = 0 then some ([], w'')
          else some ([⟨item.ip, entry.state, entry.counter.total, counter.total⟩], w'')
    else none

/-- The loop of `expire_due`. -/
def expireLoop (now : ℤ) : ℕ → ShardWindow → List WindowChange → List WindowChange × ShardWindow
  | 0, w, changes => (changes, w)
  | fuel + 1, w, changes =>
    match w.expireNext now with
    | none => (changes, w)
    | some (change, w') => expireLoop now fuel w' (changes ++ change)

/-- `expire_due`: expire the buckets that left the window, one change for each IP whose total
dropped. -/
def expireDue (now : ℤ) : List WindowChange × ShardWindow :=
  expireLoop now w.expiryHeap.length w []

/-- The loop of `evict_due`: drop the COLD entries last seen at or before the deadline. HOT items
are set aside. -/
def evictLoop (deadline : ℤ) : ℕ → ShardWindow → List HeapItem → ℕ → ShardWindow × List HeapItem × ℕ
  | 0, w, deferred, removed => (w, deferred, removed)
  | fuel + 1, w, deferred, removed =>
    match w.lastSeenHeap with
    | [] => (w, deferred, removed)
    | item :: rest =>
      match w.entries.get? item.ip with
      | none =>
        evictLoop deadline fuel
          { w with lastSeenHeap := rest, lastSeenScheduled := w.lastSeenScheduled.erase item.ip }
          deferred removed
      | some entry =>
        if item.key ≠ entry.lastSeen then
          evictLoop deadline fuel
            { w with
              lastSeenHeap := heappush rest { item with key := entry.lastSeen }
              lastSeenScheduled := w.lastSeenScheduled.set item.ip entry.lastSeen }
            deferred removed
        else if deadline < item.key then
          -- Ordered by last seen: nothing behind this one is due.
          (w, deferred, removed)
        else if entry.state = .hot then
          evictLoop deadline fuel { w with lastSeenHeap := rest } (deferred ++ [item]) removed
        else
          evictLoop deadline fuel
            { { w with lastSeenHeap := rest }.drop item.ip with
              retentionEvictions := w.retentionEvictions + 1 }
            deferred (removed + 1)

/-- `evict_due`: drop every COLD IP idle for `state_retention_seconds`; the answer is how many. -/
def evictDue (now : ℤ) : ℕ × ShardWindow :=
  let deadline := now - w.config.stateRetentionSeconds
  let (w', deferred, removed) := evictLoop deadline (2 * w.lastSeenHeap.length) w [] 0
  (removed, { w' with lastSeenHeap := deferred.foldl heappush w'.lastSeenHeap })

/-- The counter of the new geometry that `apply_config` puts in the place of an old one: each live
bucket is observed again at its new start. -/
def rebuild (config : DetectionConfig) (now : ℤ) (counter : IpCounter) : Except Failure IpCounter :=
  do
    let fresh ← newCounter config
    (counter.liveBuckets now).foldlM
      (fun rebuilt bucket =>
        Prod.snd <$> rebuilt.observe (bucketStart bucket.1 config.bucketSeconds) bucket.2 now)
      fresh

/-- The loop body of `apply_config`: one entry gets its rebuilt counter and a new expiry. -/
def rebuildEntry (config : DetectionConfig) (now : ℤ) (item : Address × Entry) :
    Program Failure ShardWindow PUnit := fun w =>
  match rebuild config now item.2.counter with
  | .error e => .error e w
  | .ok counter =>
    let entry' := { item.2 with counter := counter }
    .ok ⟨⟩ ({ w with
      entries := w.entries.set item.1 entry'
      expiryScheduled := w.expiryScheduled.erase item.1 }.scheduleExpiry item.1 entry')

/-- The geometry changes, so that `apply_config` rebuilds. -/
def rebuilds (config : DetectionConfig) : Prop :=
  config.bucketSeconds ≠ w.config.bucketSeconds ∨ config.bucketCount ≠ w.config.bucketCount

instance (config : DetectionConfig) : Decidable (w.rebuilds config) :=
  inferInstanceAs (Decidable (_ ∨ _))

/-- The second half of `apply_config`: every entry is rebuilt under the configuration adopted. -/
def rebuildAll (config : DetectionConfig) (now : ℤ) : Program Failure ShardWindow PUnit := fun w =>
  w.entries.items.forM (rebuildEntry config now) w

end ShardWindow

end Hammertime.Aggregator
