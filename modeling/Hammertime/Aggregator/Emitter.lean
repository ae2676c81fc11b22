import Hammertime.Environment
import Hammertime.Aggregator.Window

/-!
# Evaluating one IP and announcing the edge

`TransitionEmitter.evaluate` of the aggregator's `transitions.py`, and the methods of `ShardWindow`
that read the clock. They run on a `Scope`: the window under evaluation and what the worker shares
with the outside.

`evaluate` is the sequence of its effects, each a program of its own: decide whether there is an
edge, take the sequence number, build and encode the event, persist the transition, publish it, and
set the state in memory. A process can be lost between any two of them.
-/

namespace Hammertime.Aggregator

open Lib

/-- One window, and what surrounds the worker that holds it. -/
structure Scope where
  shared : Shared
  window : ShardWindow

namespace Scope

/-- A program on what surrounds the worker. -/
def outside {α : Type} (m : Program Failure Shared α) : Program Failure Scope α :=
  Program.zoom Scope.shared (fun s shared => { s with shared := shared }) m

/-- A method of the window that may refuse, changing nothing then. -/
def inside {α : Type} (f : ShardWindow → Except Failure (α × ShardWindow)) :
    Program Failure Scope α := fun s =>
  match f s.window with
  | .ok (a, window) => .ok a { s with window := window }
  | .error e => .error e s

end Scope

open Scope

variable (env : Env)

/-! ### The methods of the window that read the clock -/

/-- `ShardWindow.in_warmup`: the clock is read only while a warm-up is set. -/
def inWarmup : Program Failure Scope Bool := do
  let s ← get
  match s.window.warmUntil with
  | none => pure false
  | some warmUntil => do
    let now ← outside (Shared.readClock env)
    pure (decide (now < warmUntil))

/-- `ShardWindow.observe`. -/
def observe (ip : Address) (start delta : ℤ) : Program Failure Scope (Option WindowChange) := do
  let now ← outside (Shared.readClock env)
  inside fun w => w.observe ip start delta now

/-- `ShardWindow.expire_due`. -/
def expireDue : Program Failure Scope (List WindowChange) := do
  let now ← outside (Shared.readClock env)
  inside fun w => .ok (w.expireDue now)

/-- `ShardWindow.finish_warmup_if_due`. -/
def finishWarmupIfDue : Program Failure Scope (Option (Finset Address)) := do
  let s ← get
  match s.window.warmUntil with
  | none => pure none
  | some warmUntil => do
    let now ← outside (Shared.readClock env)
    if now < warmUntil then pure none
    else inside fun w => .ok (some w.finishWarmup.1, w.finishWarmup.2)

/-- `ShardWindow.evict_due`. -/
def evictDue : Program Failure Scope ℕ := do
  let now ← outside (Shared.readClock env)
  inside fun w => .ok (w.evictDue now)

/-- `ShardWindow.apply_config`: the configuration is adopted first; the clock is read and the
counters rebuilt only when the geometry changed. -/
def adoptConfig (config : DetectionConfig) : Program Failure Scope PUnit := do
  let s ← get
  set { s with window := { s.window with config := config } }
  if s.window.rebuilds config then do
    let now ← outside (Shared.readClock env)
    Program.zoom Scope.window (fun s window => { s with window := window })
      (ShardWindow.rebuildAll config now)

/-! ### The effects of `evaluate` -/

/-- `EmittedTransition`. -/
structure EmittedTransition where
  ip : Address
  previous : IpState
  current : IpState
  sequence : ℕ
  windowCount : ℤ
  configVersion : ℤ

/-- An edge of the state machine for one IP, at the count it was decided on. -/
structure Edge where
  previous : IpState
  current : IpState
  count : ℤ

/-- The first part of `evaluate`: the edge to announce, or none. A demotion of an inherited IP that
is still warming up is not one. -/
def decideEdge (ip : Address) (config : DetectionConfig) : Program Failure Scope (Option Edge) := do
  let s ← get
  let previous := s.window.state ip
  let count := s.window.total ip
  let new := evaluateIpState previous count config
  if new = previous then pure none
  else if new = .cold then do
    let warming ← inWarmup env
    if warming ∧ s.window.isInherited ip then pure none
    else pure (some ⟨previous, new, count⟩)
  else pure (some ⟨previous, new, count⟩)

/-- The sequence number is taken and counted up; nothing gives it back. -/
def takeSequence : Program Failure Scope ℕ := fun s =>
  .ok s.window.nextSequence
    { s with window := { s.window with nextSequence := s.window.nextSequence + 1 } }

/-- `agent_id`: the producing shard. -/
def shardAgentId (shard : ℕ) : String := "aggregator-shard-" ++ toString shard

/-- The envelope of an edge. A removal carries no attributes. -/
def transitionEnvelope (shard : ℕ) (ip : Address) (edge : Edge) (sequence : ℕ)
    (config : DetectionConfig) (timestamp : ℤ) (text : String) :
    Except Failure (EventEnvelope HotIpEvent) := do
  let type := if edge.current = .hot then HotIpEventType.added else .removed
  let attributes ←
    if edge.current = .hot then some <$> transitionAttributes edge.count config else pure none
  pure
    { agentId := shardAgentId shard
      sequence := sequence
      eventType := type.text
      configVersion := config.configVersion
      timestamp := timestamp
      payload :=
        { type, ip, timestamp, sequence, attributes
          windowCount := edge.count
          configVersion := config.configVersion }
      subject := some text }

/-- The event of an edge at the clock reading `now`: its id, and the bytes to publish. -/
def encodeTransition (shard : ℕ) (ip : Address) (edge : Edge) (sequence : ℕ)
    (config : DetectionConfig) (now : ℤ) : Except Failure (String × Bytes) :=
  if datetimeRange now then do
    let envelope ← transitionEnvelope shard ip edge sequence config now (env.text ip)
    let value ← env.wire.encode envelope
    pure (envelope.eventId env.digest, value)
  else .error .timeOutOfRange

/-- The event is built and encoded, before anything is persisted. -/
def prepare (ip : Address) (edge : Edge) (sequence : ℕ) (config : DetectionConfig) :
    Program Failure Scope (String × Bytes) := do
  let now ← outside (Shared.readClock env)
  inside fun w =>
    (fun event => (event, w)) <$> encodeTransition env w.shard ip edge sequence config now

/-- `state_store.record_transition(window.shard, ip, new, sequence)`. -/
def persist (ip : Address) (state : IpState) (sequence : ℕ) : Program Failure Scope PUnit := do
  let s ← get
  outside (Shared.recordTransition env s.window.shard ip state sequence)

/-- `producer.publish(HOT_IP.name, ...)` of the encoded bytes, under the IP's text. -/
def announce (ip : Address) (eventId : String) (value : Bytes) : Program Failure Scope PUnit :=
  outside (Shared.publishHotIp env (utf8 (env.text ip)) value eventId)

/-- `window.set_state(ip, new)`. -/
def remember (ip : Address) (state : IpState) : Program Failure Scope PUnit :=
  inside fun w => (fun window => (⟨⟩, window)) <$> w.setState ip state

/-- The effects of an edge, in `evaluate`'s order. -/
def emit (ip : Address) (edge : Edge) (config : DetectionConfig) :
    Program Failure Scope EmittedTransition := do
  let sequence ← takeSequence
  let (eventId, value) ← prepare env ip edge sequence config
  persist env ip edge.current sequence
  announce env ip eventId value
  remember ip edge.current
  pure ⟨ip, edge.previous, edge.current, sequence, edge.count, config.configVersion⟩

/-- `TransitionEmitter.evaluate`: evaluate the IP under `config`; emit and return the edge, or
none. -/
def evaluate (ip : Address) (config : DetectionConfig) :
    Program Failure Scope (Option EmittedTransition) := do
  match ← decideEdge env ip config with
  | none => pure none
  | some edge => some <$> emit env ip edge config

end Hammertime.Aggregator
