import Mathlib.Data.Finset.Sort
import Hammertime.Aggregator.Emitter

/-!
# The aggregator worker

`AggregatorWorker` of the aggregator's `worker.py` with the `ShardClaims` it holds
(`sharding/assignment.py`), the lateness policy (`lateness.py`) and the configuration pass
(`reevaluate.py`). One lock serialises the worker's coroutines, so each operation here runs alone;
what an operation has written stays written when it raises.

Metrics and log lines are left out, and so are the consumer's side of an acknowledgement and the
loops that call these operations.
-/

namespace Hammertime.Aggregator

open Lib

/-! ### Lateness -/

/-- `ObservationOutcome`: what the hot path did with one observation. -/
inductive ObservationOutcome where
  | applied
  | late
  | future
  | expiredBucket
  | windowTooLong
  | malformed
  | unclaimed
  | redelivered
deriving DecidableEq, Repr

/-- `classify_observation`: the observation against the configuration in force. -/
def classifyObservation (windowStart windowSeconds now : ℤ) (config : DetectionConfig) :
    ObservationOutcome :=
  if config.windowSeconds < windowSeconds then .windowTooLong
  else if now < windowStart then .future
  else if config.windowSeconds + config.allowedLatenessSeconds < now - windowStart then .late
  else if config.windowSeconds ≤
      bucketStart now config.bucketSeconds - bucketStart windowStart config.bucketSeconds then
    .expiredBucket
  else .applied

/-! ### The state of a worker -/

/-- `ConsumedMessage`. -/
structure ConsumedMessage where
  topic : String
  partition : ℕ
  offset : ℕ
  key : Option Bytes
  value : Bytes
deriving DecidableEq

/-- `ShardClaims`: the shards this member owns, with their windows and leases. -/
structure ShardClaims where
  config : DetectionConfig
  memberId : String
  instanceId : String
  leaseTtlS : ℚ
  maxTrackedIps : ℤ
  windows : Dict ℕ ShardWindow
  leased : Finset ℕ
  /-- The handled messages that are not acknowledged yet. -/
  handled : List ConsumedMessage
  /-- For each shard, one past the highest handled offset. -/
  positions : Dict ℕ ℕ

/-- `lease_owner`: the token of every lease call. -/
def ShardClaims.leaseOwner (claims : ShardClaims) : String :=
  claims.memberId ++ "/" ++ claims.instanceId

/-- `mark_handled`: record the message, and raise the handled position past it. -/
def ShardClaims.markHandled (claims : ShardClaims) (message : ConsumedMessage) :
    Except Failure ShardClaims :=
  if claims.windows.contains message.partition then
    let position := message.offset + 1
    .ok { claims with
      handled := claims.handled ++ [message]
      positions :=
        if (claims.positions.get? message.partition).all (· < position) then
          claims.positions.set message.partition position
        else claims.positions }
  else .error .keyError

/-- `AggregatorWorker`. -/
structure AggregatorWorker where
  config : DetectionConfig
  reevaluationBatch : ℤ
  claims : ShardClaims
  /-- `stop()` has begun. -/
  stopping : Bool

/-- `AggregatorWorker(...)`, which holds no claim yet. -/
def AggregatorWorker.make (config : DetectionConfig) (memberId instanceId : String) (leaseTtlS : ℚ)
    (maxTrackedIps reevaluationBatch : ℤ) : AggregatorWorker where
  config := config
  reevaluationBatch := reevaluationBatch
  claims :=
    { config, memberId, instanceId, leaseTtlS, maxTrackedIps
      windows := .empty
      leased := ∅
      handled := []
      positions := .empty }
  stopping := false

/-- A worker and what surrounds it. -/
structure World where
  shared : Shared
  worker : AggregatorWorker

namespace World

/-- A program on what surrounds the worker. -/
def outside {α : Type} (m : Program Failure Shared α) : Program Failure World α :=
  Program.zoom World.shared (fun s shared => { s with shared := shared }) m

/-- The world with a window written back. -/
def setWindow (s : World) (shard : ℕ) (scope : Scope) : World where
  shared := scope.shared
  worker :=
    { s.worker with
      claims := { s.worker.claims with windows := s.worker.claims.windows.set shard scope.window } }

/-- A program on one claimed window. The worker only calls it for windows it holds. -/
def onWindow {α : Type} (shard : ℕ) (m : Program Failure Scope α) : Program Failure World α :=
  fun s =>
    match s.worker.claims.windows.get? shard with
    | none => .error .keyError s
    | some window => Program.zoom (fun _ => ⟨s.shared, window⟩) (fun s => s.setWindow shard) m s

/-- A change of the claims alone. -/
def modifyClaims (f : ShardClaims → Except Failure ShardClaims) : Program Failure World PUnit :=
  fun s =>
    match f s.worker.claims with
    | .ok claims => .ok ⟨⟩ { s with worker := { s.worker with claims := claims } }
    | .error e => .error e s

end World

open World

variable (env : Env)

/-! ### Claiming shards -/

/-- The member id of a lease token: what stands before its last `/`, or all of it. -/
def holderMember (owner : String) : String :=
  let chars := owner.toList
  if '/' ∈ chars then String.ofList ((chars.reverse.dropWhile (· ≠ '/')).drop 1).reverse else owner

/-- Undo the claims a refused `on_assigned` made. -/
def rollBack (claimed : List ℕ) : Program Failure World PUnit :=
  claimed.forM fun shard => do
    modifyClaims fun claims =>
      .ok { claims with
        windows := claims.windows.erase shard
        leased := claims.leased.erase shard }
    let s ← get
    outside (Shared.releaseLease env shard s.worker.claims.leaseOwner)

/-- One shard of `on_assigned`, once its lease is taken: load its state and build its window. -/
def openWindow (shard : ℕ) : Program Failure World PUnit := do
  modifyClaims fun claims => .ok { claims with leased := insert shard claims.leased }
  let state ← outside (Shared.load env shard)
  let now ← outside (Shared.readClock env)
  let inheritedHot ← outside (Shared.iterate env state.hotIps)
  modifyClaims fun claims => do
    let window ← ShardWindow.make shard claims.config now inheritedHot state.nextSequence
      claims.maxTrackedIps
    pure { claims with windows := claims.windows.set shard window }

/-- The loop of `on_assigned` over the shards in order, with the shards it claimed so far. -/
def claimLoop : List ℕ → List ℕ → Program Failure World PUnit
  | [], _ => pure ⟨⟩
  | shard :: rest, claimed => do
    let s ← get
    let claims := s.worker.claims
    if shard ∈ claims.leased ∧ claims.windows.contains shard then claimLoop rest claimed
    else
      match ← outside (Shared.acquireLease env shard claims.leaseOwner claims.leaseTtlS) with
      | some owner => do
        rollBack env claimed
        if holderMember owner = claims.memberId then throw (.shardHeldBySameMember shard owner)
        else throw (.shardOwnedElsewhere shard owner)
      | none => do
        openWindow env shard
        claimLoop rest (claimed ++ [shard])

/-- `on_assigned`: claim each partition in order. -/
def onAssigned (partitions : Finset ℕ) : Program Failure World PUnit :=
  if partitions = ∅ then
    throw (.valueError "on_assigned() with an empty partition set: a member must hold a shard")
  else claimLoop env partitions.sort []

/-- `renew_leases`: a refusal is a lost lease. -/
def renewLeases : Program Failure World PUnit := do
  let s ← get
  let claims := s.worker.claims
  claims.leased.sort.forM fun shard => do
    match ← outside (Shared.acquireLease env shard claims.leaseOwner claims.leaseTtlS) with
    | none => pure ⟨⟩
    | some owner => throw (.shardLeaseLost shard owner)

/-! ### Observations -/

/-- `_decode`: the event id, the payload and its one entry, or none for a malformed message. -/
def decodeObservation (message : ConsumedMessage) :
    Option (String × RequestObservation × Observation) :=
  match env.wire.decode message.value with
  | .error _ => none
  | .ok envelope =>
    match envelope.payload with
    | .requestObservation payload =>
      match payload.observations with
      | [entry] =>
        if envelope.subject ≠ some (env.text entry.ip) then none
        else if message.key ≠ some (utf8 (env.text entry.ip)) then none
        else some (envelope.eventId env.digest, payload, entry)
      | _ => none
    | _ => none

/-- An evaluation whose result is not looked at. -/
def settle (ip : Address) (config : DetectionConfig) : Program Failure Scope PUnit := do
  let _ ← evaluate env ip config

/-- What `_handle` does to the window for an observation classified as applied: count it at its
bucket under the window's own geometry, then evaluate the IP. What `observe` answers is not looked
at. -/
def countObservation (windowStart : ℤ) (entry : Observation) (config : DetectionConfig) :
    Program Failure Scope PUnit := do
  let scope ← get
  let _ ← observe env entry.ip (bucketStart windowStart scope.window.config.bucketSeconds)
    entry.requestCount
  settle env entry.ip config

/-- The same at the worker, under its configuration. -/
def applyObservation (shard : ℕ) (windowStart : ℤ) (entry : Observation) :
    Program Failure World PUnit := do
  let s ← get
  onWindow shard (countObservation env windowStart entry s.worker.config)

/-- `_handle` of a message that is neither redelivered nor malformed. -/
def handleObservation (message : ConsumedMessage) (eventId : String) (payload : RequestObservation)
    (entry : Observation) : Program Failure World ObservationOutcome := do
  let now ← outside (Shared.readClock env)
  let s ← get
  match classifyObservation payload.windowStart payload.windowSeconds now s.worker.config with
  | .applied => do
    applyObservation env message.partition payload.windowStart entry
    modifyClaims fun claims => claims.markHandled message
    pure .applied
  | outcome => do
    -- `_divert`: the consumed bytes unchanged, under the same key.
    outside (Shared.publishReconciliation env (utf8 (env.text entry.ip)) message.value eventId)
    modifyClaims fun claims => claims.markHandled message
    pure outcome

/-- `handle`: apply one consumed message. -/
def handle (message : ConsumedMessage) : Program Failure World ObservationOutcome := do
  let s ← get
  let claims := s.worker.claims
  if s.worker.stopping then pure .unclaimed
  else if ¬ claims.windows.contains message.partition then pure .unclaimed
  else if (claims.positions.get? message.partition).any (message.offset < ·) then do
    modifyClaims fun claims => claims.markHandled message
    pure .redelivered
  else
    match decodeObservation env message with
    | none => do
      modifyClaims fun claims => claims.markHandled message
      pure .malformed
    | some (eventId, payload, entry) => handleObservation env message eventId payload entry

/-! ### Maintenance -/

/-- The expiry of one window in `run_maintenance`: every HOT IP whose total dropped is evaluated. -/
def sweepWindow (config : DetectionConfig) : Program Failure Scope PUnit := do
  let changes ← expireDue env
  changes.forM fun change => if change.state = .hot then settle env change.ip config else pure ⟨⟩

/-- The end of the warm-up in `run_maintenance`: the inherited IPs still HOT are evaluated. -/
def warmWindow (config : DetectionConfig) : Program Failure Scope PUnit := do
  let warmed ← finishWarmupIfDue env
  let ips ← Scope.outside (Shared.iterate env (warmed.getD ∅))
  ips.forM fun ip => settle env ip config

/-- One window of `run_maintenance`: expire, end the warm-up, evict. -/
def maintainWindow (config : DetectionConfig) : Program Failure Scope PUnit := do
  sweepWindow env config
  warmWindow env config
  let _ ← evictDue env

/-- `run_maintenance`: renew the leases, then sweep every claimed window. -/
def runMaintenance : Program Failure World PUnit := do
  let s ← get
  if s.worker.stopping then pure ⟨⟩
  else do
    renewLeases env
    s.worker.claims.windows.keys.forM fun shard =>
      onWindow shard (maintainWindow env s.worker.config)

/-! ### The configuration pass -/

/-- `reevaluate_shard`: evaluate every tracked IP of a window; the answer is how many
transitioned. Yielding to the event loop changes nothing. -/
def reevaluateShard (config : DetectionConfig) (batchSize : ℤ) : Program Failure Scope ℕ :=
  if batchSize ≤ 0 then throw (.valueError s!"batch_size must be positive, got {batchSize}")
  else do
    let s ← get
    let targets ← Scope.outside (Shared.iterate env s.window.trackedIps)
    targets.foldlM (fun transitions ip => do
      let emitted ← evaluate env ip config
      pure (if emitted.isSome then transitions + 1 else transitions)) 0

/-- `apply_config`: every window adopts the configuration, then every tracked IP is evaluated under
it, and only then do the worker and the claims adopt it. -/
def applyConfig (config : DetectionConfig) : Program Failure World PUnit := do
  let s ← get
  if s.worker.stopping then pure ⟨⟩
  else do
    let shards := s.worker.claims.windows.keys
    shards.forM fun shard => onWindow shard (adoptConfig env config)
    shards.forM fun shard => do
      let _ ← onWindow shard (reevaluateShard env config s.worker.reevaluationBatch)
    modify fun s => { s with worker := { s.worker with config := config } }
    modifyClaims fun claims => .ok { claims with config := config }

/-! ### Runs -/

/-- An operation of a worker that holds its claims. -/
inductive Operation where
  | handle (message : ConsumedMessage)
  | runMaintenance
  | applyConfig (config : DetectionConfig)

/-- The program of an operation; what it answers is dropped. -/
def Operation.program : Operation → Program Failure World PUnit
  | .handle message => do
    let _ ← Aggregator.handle env message
  | .runMaintenance => Aggregator.runMaintenance env
  | .applyConfig config => Aggregator.applyConfig env config

end Hammertime.Aggregator
