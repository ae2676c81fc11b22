import Hammertime.Lib.Machine
import Hammertime.Trie.Replay

/-!
# The processes of the trie service

`TrieWorker.start`, `_republish_from` and the loop of `_pump`, over `InMemoryBus`. One process after
the other runs a worker of its own, from an empty state and the configuration that it loads: it reads
the end of the hot-ip log, then the last message of the prefix-stats log, subscribes from the first
offset, and hands every message to `handle`. Others publish to the hot-ip log meanwhile, and the
configuration is replaced. A process ends at any point: it crashes, or a call raises. `stop` leaves it
as it is, without any more of `handle`.
-/

namespace Hammertime.Trie

open Codec (Library DateTime)
open Lib Bus

/-- The name of `HOT_IP`. -/
def hotIpTopic : String := "hammertime.hot-ip.v1"

/-- `CONSUMER_GROUP`. -/
def consumerGroup : String := "hammertime-trie"

/-- `_republish_from`. -/
def republishFrom (library : Library) (last : Option Bytes) (replayTarget : ℤ) : ℤ :=
  match last with
  | none => 0
  | some value =>
    match Codec.decode library value with
    | .error _ => 0
    | .ok envelope =>
      match envelope.payload with
      | .prefixStatsChanged _ =>
        if envelope.agentId.content ≠ Text.ofString agentId then 0
        else if replayTarget < envelope.sequence.number then 0
        else envelope.sequence.number
      | _ => 0

/-- A process of the service: its worker, what `start` has read, and its subscription. -/
structure TrieProcess where
  worker : TrieWorker
  replayTarget : Option ℤ := none
  consumer : MemoryConsumer := { groupId := consumerGroup }

namespace TrieProcess

variable (library : Library) (process : TrieProcess)

/-- `caught_up`. -/
def caughtUp : Bool :=
  match process.replayTarget with
  | none => false
  | some target => process.consumer.subscribed && decide (target ≤ process.worker.state.eventSequence)

/-- Step 2 of `start`. -/
def readEnd : TrieProcess :=
  if process.consumer.subscribed ∨ process.replayTarget.isSome then process
  else { process with replayTarget := some (process.worker.bus.endOffset hotIpTopic) }

/-- Step 3 of `start`: what the log no longer holds is passed. -/
def passFirst (state : TrieState) (stopping : Bool) (first : ℤ) : Except StateError TrieState :=
  if state.eventSequence < first ∧ stopping = false then state.notePassed (first - 1)
  else .ok state

/-- Steps 2a to 4 of `start`, which ends the process where it raises. -/
def subscribe : Option TrieProcess :=
  match process.replayTarget with
  | none => some process
  | some target =>
    if process.consumer.subscribed then some process
    else
      let worker := process.worker
      match passFirst worker.state worker.stopping (worker.bus.firstOffset hotIpTopic) with
      | .error _ => none
      | .ok state =>
        match process.consumer.subscribe hotIpTopic none none (some state.eventSequence) with
        | .error _ => none
        | .ok consumer =>
          some { process with
            worker := { worker with
              state := state
              republishFrom :=
                some (Trie.republishFrom library (worker.bus.lastValue prefixStatsTopic) target) }
            consumer := consumer }

/-- One turn of `_pump`: the next message, if there is one, is handed to `handle`. The answer has the
process, none where `handle` raised, and the bus. -/
def pump (publishing : Publishing) : Option TrieProcess × InMemoryBus :=
  if process.consumer.subscribed then
    match process.consumer.consume process.worker.bus hotIpTopic with
    | (.yielded message, consumer) =>
      match process.worker.handle library publishing message with
      | .ok _ worker => (some { process with worker := worker, consumer := consumer }, worker.bus)
      | .error _ worker => (none, worker.bus)
    | (_, consumer) => (some { process with consumer := consumer }, process.worker.bus)
  else (some process, process.worker.bus)

end TrieProcess

/-! ### One process after the other -/

/-- The bus, and the process that runs, if any. -/
structure TrieSystem where
  bus : InMemoryBus := {}
  process : Option TrieProcess := none

/-- What happens to the system. -/
inductive ProcessAction where
  /-- Another party publishes to the hot-ip log. -/
  | publish (key : Bytes ⊕ String) (value : Bytes) (messageId : Option String)
  /-- A process starts. The one before it, if any, is gone. -/
  | boot (config : DetectionConfig)
  /-- `start` reads the end of the log. -/
  | readEnd
  /-- `start` reads the last of the stats and subscribes. -/
  | subscribe
  /-- The next message is handed over. -/
  | pump (publishing : Publishing)
  | applyConfig (config : DetectionConfig)
  | stop
  | crash

namespace TrieSystem

variable (library : Library) (publisher : PrefixStatsPublisher) (served : Finset AddressFamily)

/-- A process that starts. -/
def boot (bus : InMemoryBus) (config : DetectionConfig) : Option TrieProcess :=
  match TrieState.new served config with
  | .error _ => none
  | .ok state => some { worker := ⟨state, publisher, bus, none, false⟩ }

/-- An action of the process that runs, on the bus as it is, and the bus after it. -/
def act (bus : InMemoryBus) (process : TrieProcess) : ProcessAction → TrieSystem
  | .readEnd => ⟨bus, some process.readEnd⟩
  | .subscribe => ⟨bus, process.subscribe library⟩
  | .pump publishing =>
    let (process, bus) := process.pump library publishing
    ⟨bus, process⟩
  | .applyConfig config => ⟨bus, some { process with worker := process.worker.applyConfig config }⟩
  | .stop => ⟨bus, some { process with worker := process.worker.stop }⟩
  | _ => ⟨bus, some process⟩

/-- One action. -/
def step (system : TrieSystem) : ProcessAction → TrieSystem
  | .publish key value messageId =>
    { system with bus := system.bus.publish hotIpTopic key value messageId }
  | .boot config => { system with process := boot publisher served system.bus config }
  | .crash => { system with process := none }
  | action =>
    match system.process with
    | none => system
    | some process =>
      act library system.bus
        { process with worker := { process.worker with bus := system.bus } } action

/-- The system after some actions. -/
def run (actions : List ProcessAction) : TrieSystem :=
  actions.foldl (step library publisher served) {}

end TrieSystem

end Hammertime.Trie
