import Mathlib.Data.Finset.Basic
import Mathlib.Data.Rat.Defs
import Mathlib.Algebra.Order.Ring.Rat
import Hammertime.Events
import Hammertime.Lib.Dict
import Hammertime.Lib.Program

/-!
# What surrounds a worker: the store, the logs, and the clock

`MemoryShardStateStore` of `hammertime.store.memory` and a topic of `hammertime.bus.memory`'s
`InMemoryBus`, as the aggregator uses them, and the environment that answers its calls. Everything a
run does not decide by itself is an `Env`: what the clock reads, whether a store or bus call returns,
and the order in which a set iterates. Each interaction takes the next `tick`, so a run under one
`Env` is a function, and a statement about every `Env` is a statement about every clock, every
pattern of failures and every iteration order.
-/

namespace Hammertime

open Lib

/-! ### The bus -/

/-- `_Record`: one message of a topic's log. -/
structure Record where
  key : Bytes
  value : Bytes
deriving DecidableEq

/-- One topic of `InMemoryBus`: the log and every `message_id` ever published to it. -/
structure Topic where
  log : List Record
  seenIds : Finset String

/-- `InMemoryBus._append`: a repeated `message_id` is acknowledged and not appended. -/
def Topic.append (topic : Topic) (key value : Bytes) (messageId : String) : Topic :=
  if messageId ∈ topic.seenIds then topic
  else { log := topic.log ++ [⟨key, value⟩], seenIds := insert messageId topic.seenIds }

/-! ### The state store -/

/-- The change an edge to the state makes to a HOT set. -/
def IpState.applyTo (state : IpState) (ip : Address) (hot : Finset Address) : Finset Address :=
  match state with
  | .hot => insert ip hot
  | .cold => hot.erase ip

/-- `ShardState`. -/
structure ShardState where
  hotIps : Finset Address
  nextSequence : ℕ

/-- `MemoryShardStateStore`: the HOT IPs and the sequence counter of each shard, and the leases. -/
structure ShardStateStore where
  hotIps : Dict ℕ (Finset Address)
  nextSequence : Dict ℕ ℕ
  /-- The owner token of each shard's lease, and when it expires. -/
  leases : Dict ℕ (String × ℚ)

namespace ShardStateStore

variable (store : ShardStateStore)

/-- `load`: a shard never seen is empty, and loading does not create it. -/
def load (shard : ℕ) : ShardState where
  hotIps := (store.hotIps.get? shard).getD ∅
  nextSequence := (store.nextSequence.get? shard).getD 0

/-- `record_transition`: the membership change, then the counter raised past the sequence, never
lowered. A sequence is never negative here. -/
def recordTransition (shard : ℕ) (ip : Address) (state : IpState) (sequence : ℕ) :
    ShardStateStore :=
  { store with
    hotIps :=
      match state with
      | .hot => store.hotIps.set shard (insert ip ((store.hotIps.get? shard).getD ∅))
      | .cold =>
        -- A demotion does not create a set for a shard that has none.
        match store.hotIps.get? shard with
        | none => store.hotIps
        | some hot => store.hotIps.set shard (hot.erase ip)
    nextSequence :=
      store.nextSequence.set shard
        (max ((store.nextSequence.get? shard).getD 0) (sequence + 1)) }

/-- `_live_holder`: the token holding the lease at `now`; an expired one is removed. -/
def liveHolder (shard : ℕ) (now : ℤ) : Option String × ShardStateStore :=
  match store.leases.get? shard with
  | none => (none, store)
  | some (holder, expiresAt) =>
    if expiresAt ≤ now then (none, { store with leases := store.leases.erase shard })
    else (some holder, store)

/-- `acquire_lease`: the holder that refuses, or none when the lease is taken or renewed. -/
def acquireLease (shard : ℕ) (owner : String) (ttlSeconds : ℚ) (now : ℤ) :
    Except Failure (Option String × ShardStateStore) :=
  if ttlSeconds ≤ 0 then .error (.valueError s!"ttl_seconds must be positive, got {ttlSeconds}")
  else
    let (holder, store) := store.liveHolder shard now
    if holder.any (· ≠ owner) then .ok (holder, store)
    else .ok (none, { store with leases := store.leases.set shard (owner, now + ttlSeconds) })

/-- `release_lease`: drop the lease if the token holds it. -/
def releaseLease (shard : ℕ) (owner : String) (now : ℤ) : ShardStateStore :=
  let (holder, store) := store.liveHolder shard now
  if holder = some owner then { store with leases := store.leases.erase shard } else store

/-! What the operations do to a shard's state. -/

theorem load_recordTransition_self (shard : ℕ) (ip : Address) (state : IpState) (sequence : ℕ) :
    (store.recordTransition shard ip state sequence).load shard =
      { hotIps := state.applyTo ip (store.load shard).hotIps
        nextSequence := max (store.load shard).nextSequence (sequence + 1) } := by
  cases state with
  | hot => simp [load, recordTransition, IpState.applyTo]
  | cold =>
    cases h : store.hotIps.get? shard <;> simp [load, recordTransition, IpState.applyTo, h]

theorem load_recordTransition_of_ne {shard other : ℕ} (hne : shard ≠ other) (ip : Address)
    (state : IpState) (sequence : ℕ) :
    (store.recordTransition shard ip state sequence).load other = store.load other := by
  cases state with
  | hot => simp [load, recordTransition, Dict.get?_set_of_ne _ hne]
  | cold =>
    cases h : store.hotIps.get? shard <;>
      simp [load, recordTransition, h, Dict.get?_set_of_ne _ hne]

theorem load_liveHolder (shard other : ℕ) (now : ℤ) :
    (store.liveHolder shard now).2.load other = store.load other := by
  unfold liveHolder
  split
  · rfl
  · split_ifs <;> rfl

theorem load_acquireLease {shard : ℕ} {owner : String} {ttlSeconds : ℚ} {now : ℤ}
    {answer : Option String × ShardStateStore}
    (h : store.acquireLease shard owner ttlSeconds now = .ok answer) (other : ℕ) :
    answer.2.load other = store.load other := by
  unfold acquireLease at h
  split_ifs at h with h0
  dsimp only at h
  split_ifs at h
  · cases h
    exact store.load_liveHolder shard other now
  · cases h
    exact store.load_liveHolder shard other now

end ShardStateStore

/-! ### The environment -/

/-- What becomes of a store or bus call: it returns, or it raises, its effect applied or not. -/
inductive CallOutcome where
  | returns
  | raises (applied : Bool)
deriving DecidableEq

/-- The environment a run meets. -/
structure Env where
  /-- What the clock reads at a tick. -/
  now : ℕ → ℤ
  /-- What becomes of the call made at a tick. -/
  outcome : ℕ → CallOutcome
  /-- The order in which a set is iterated at a tick. -/
  arrange : ℕ → Finset Address → List Address
  /-- `str(ip)`. -/
  text : Address → String
  /-- The hexadecimal SHA-256 digest of a text. -/
  digest : String → String
  wire : Wire
  /-- A set iterates each element once. -/
  arrange_nodup : ∀ tick s, (arrange tick s).Nodup
  mem_arrange : ∀ tick s ip, ip ∈ arrange tick s ↔ ip ∈ s

/-- No store or bus call fails. -/
def Env.NoCallFails (env : Env) : Prop := ∀ tick, env.outcome tick = .returns

/-- A run without failures: no store or bus call fails, and the clock does not go back and reads
times that `datetime` holds. -/
structure Env.Orderly (env : Env) : Prop where
  noCallFails : env.NoCallFails
  monotone : Monotone env.now
  inRange : ∀ tick, datetimeRange (env.now tick) = true

/-- What the workers share: the store, the logs, and the position in the environment. -/
structure Shared where
  tick : ℕ
  store : ShardStateStore
  /-- The topic `hammertime.hot-ip.v1`. -/
  hotIp : Topic
  /-- The topic `hammertime.observations-reconciliation.v1`. -/
  reconciliation : Topic

namespace Shared

variable (env : Env)

/-- The state after one interaction with the environment. -/
def advance (s : Shared) : Shared := { s with tick := s.tick + 1 }

/-- `clock.now()`. -/
def readClock : Program Failure Shared ℤ := fun s => .ok (env.now s.tick) s.advance

/-- The order in which a set iterates. -/
def iterate (s : Finset Address) : Program Failure Shared (List Address) := fun t =>
  .ok (env.arrange t.tick s) t.advance

/-- A store or bus call with the effect given. -/
def call {α : Type} (effect : Shared → Except Failure (α × Shared)) : Program Failure Shared α :=
  fun s =>
    match env.outcome s.tick, effect s.advance with
    | .returns, .ok (answer, t) => .ok answer t
    | .returns, .error e => .error e s.advance
    | .raises true, .ok (_, t) => .error .unavailable t
    | .raises _, _ => .error .unavailable s.advance

/-- `state_store.load`. -/
def load (shard : ℕ) : Program Failure Shared ShardState :=
  call env fun s => .ok (s.store.load shard, s)

/-- `state_store.record_transition`. -/
def recordTransition (shard : ℕ) (ip : Address) (state : IpState) (sequence : ℕ) :
    Program Failure Shared PUnit :=
  call env fun s => .ok (⟨⟩, { s with store := s.store.recordTransition shard ip state sequence })

/-- `state_store.acquire_lease`, with the store's own reading of the clock. -/
def acquireLease (shard : ℕ) (owner : String) (ttlSeconds : ℚ) :
    Program Failure Shared (Option String) :=
  call env fun s => do
    let (holder, store) ← s.store.acquireLease shard owner ttlSeconds (env.now (s.tick - 1))
    pure (holder, { s with store := store })

/-- `state_store.release_lease`. -/
def releaseLease (shard : ℕ) (owner : String) : Program Failure Shared PUnit :=
  call env fun s =>
    .ok (⟨⟩, { s with store := s.store.releaseLease shard owner (env.now (s.tick - 1)) })

/-- `producer.publish` to the hot-ip topic. -/
def publishHotIp (key value : Bytes) (messageId : String) : Program Failure Shared PUnit :=
  call env fun s => .ok (⟨⟩, { s with hotIp := s.hotIp.append key value messageId })

/-- `producer.publish` to the reconciliation topic. -/
def publishReconciliation (key value : Bytes) (messageId : String) :
    Program Failure Shared PUnit :=
  call env fun s =>
    .ok (⟨⟩, { s with reconciliation := s.reconciliation.append key value messageId })

variable {env}

/-- A call that returns has had its effect. -/
theorem call_ok {α : Type} {effect : Shared → Except Failure (α × Shared)} {s t u : Shared}
    {a b : α} (he : effect s.advance = .ok (a, t)) (h : call env effect s = .ok b u) :
    b = a ∧ u = t := by
  unfold call at h
  rw [he] at h
  cases ho : env.outcome s.tick with
  | returns =>
    rw [ho] at h
    cases h
    exact ⟨rfl, rfl⟩
  | raises applied =>
    rw [ho] at h
    cases applied <;> cases h

/-- A call returns where the environment lets it and its effect does not refuse. -/
theorem call_returns {α : Type} {effect : Shared → Except Failure (α × Shared)}
    {s t : Shared} {a : α} (ho : env.outcome s.tick = .returns)
    (he : effect s.advance = .ok (a, t)) : call env effect s = .ok a t := by
  unfold call
  rw [ho, he]

/-- What becomes of a call that cannot refuse. -/
theorem call_eq {α : Type} {effect : Shared → Except Failure (α × Shared)} {s t : Shared} {a : α}
    (he : effect s.advance = .ok (a, t)) :
    call env effect s = match env.outcome s.tick with
      | .returns => .ok a t
      | .raises true => .error .unavailable t
      | .raises false => .error .unavailable s.advance := by
  unfold call
  rw [he]
  cases env.outcome s.tick with
  | returns => rfl
  | raises applied => cases applied <;> rfl

/-- A call that cannot refuse raises only where the environment lets it fail, with or without its
effect. -/
theorem call_error {α : Type} {effect : Shared → Except Failure (α × Shared)} {s t u : Shared}
    {a : α} {e : Failure} (he : effect s.advance = .ok (a, t))
    (h : call env effect s = .error e u) :
    env.outcome s.tick ≠ .returns ∧ (u = t ∨ u = s.advance) := by
  unfold call at h
  rw [he] at h
  cases ho : env.outcome s.tick with
  | returns =>
    rw [ho] at h
    cases h
  | raises applied =>
    refine ⟨by simp, ?_⟩
    rw [ho] at h
    cases applied with
    | false =>
      cases h
      exact Or.inr rfl
    | true =>
      cases h
      exact Or.inl rfl

/-- A call stays within a transitive relation that every tick and the call's effect stay within. -/
theorem call_within {α : Type} {R : Shared → Shared → Prop}
    (htrans : ∀ s t u, R s t → R t u → R s u) (hadvance : ∀ s : Shared, R s s.advance)
    {effect : Shared → Except Failure (α × Shared)}
    (he : ∀ s a t, effect s = .ok (a, t) → R s t) : Program.Within R (call env effect) := by
  intro s
  unfold call
  cases hr : effect s.advance with
  | error e =>
    cases ho : env.outcome s.tick with
    | returns => exact hadvance s
    | raises applied => cases applied <;> exact hadvance s
  | ok r =>
    have heffect := htrans _ _ _ (hadvance s) (he _ r.1 r.2 hr)
    cases ho : env.outcome s.tick with
    | returns => exact heffect
    | raises applied =>
      cases applied with
      | false => exact hadvance s
      | true => exact heffect

/-- Taking a lease changes the leases and nothing else. -/
theorem acquireLease_effect {s : Shared} {shard : ℕ} {owner : String} {ttlSeconds : ℚ}
    {answer : Option String} {t : Shared}
    (h : (do
      let (holder, store) ← s.store.acquireLease shard owner ttlSeconds (env.now (s.tick - 1))
      pure (holder, { s with store := store }) : Except Failure (Option String × Shared)) =
        .ok (answer, t)) :
    t.hotIp = s.hotIp ∧ t.tick = s.tick ∧ ∀ other, t.store.load other = s.store.load other := by
  cases hl : s.store.acquireLease shard owner ttlSeconds (env.now (s.tick - 1)) with
  | error e =>
    rw [hl] at h
    cases h
  | ok r =>
    rw [hl] at h
    cases h
    exact ⟨rfl, rfl, s.store.load_acquireLease hl⟩

end Shared

end Hammertime
