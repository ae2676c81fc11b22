import Hammertime.Codec.Interpreter
import Hammertime.Trie.Worker

/-!
# Replay is a fold of the log

What a trie worker's state should be after some messages is a `Reading`: the record of each address
that is HOT, the position, and the newest timestamp. A message is absorbed into it by what it decodes
to, whatever the worker did before. The worker's state shows the reading of the messages that it took
(`Shows`): each message moves both alike, also when publishing its stats fails, and a message at or
below the position moves neither.
-/

namespace Hammertime.Trie

open Codec (Library DateTime)
open Lib Bus

/-! ### Readings -/

/-- What the messages so far say. -/
structure Reading where
  /-- The attribute text and the request count of each HOT address. -/
  records : Address → Option (List Char × ℤ)
  position : Option ℤ
  asOf : Option DateTime

namespace Reading

/-- What no messages say. -/
def empty : Reading := ⟨fun _ => none, none, none⟩

/-- What one more message says. One that is no event of a family that is served says where the log
is. -/
def absorb (library : Library) (served : Finset AddressFamily) (reading : Reading)
    (message : ConsumedMessage) : Reading :=
  match decodeMessage library message with
  | .error _ => { reading with position := some message.offset }
  | .ok payload =>
    if payload.ip.family ∈ served then
      { records := fun a => if a = payload.ip then recordAfter library payload
          else reading.records a
        position := some message.offset
        asOf := some (TrieState.newest reading.asOf payload.timestamp) }
    else { reading with position := some message.offset }

/-- The records of one family's addresses. -/
def recordsOf (reading : Reading) (family : AddressFamily) (a : Address) :
    Option (List Char × ℤ) :=
  if a.family = family then reading.records a else none

/-- A message moves the position to its offset. -/
theorem position_absorb (library : Library) (served : Finset AddressFamily) (reading : Reading)
    (message : ConsumedMessage) :
    (reading.absorb library served message).position = some message.offset := by
  unfold absorb
  split
  · rfl
  · split_ifs <;> rfl

end Reading

/-- A state holds what a reading says, for the families that it serves. -/
structure Shows (served : Finset AddressFamily) (reading : Reading) (state : TrieState) : Prop where
  pair : ∀ family ∈ served, ∃ fs, state.families family = some fs ∧
    InStep family (reading.recordsOf family) fs
  noPair : ∀ family ∉ served, state.families family = none
  position : state.position = reading.position
  asOf : state.asOf = reading.asOf

variable {library : Library} {served : Finset AddressFamily} {reading : Reading}
  {worker : TrieWorker} {message : ConsumedMessage}

theorem shows_new {config : DetectionConfig} {state : TrieState}
    (h : TrieState.new served config = .ok state) : Shows served .empty state := by
  unfold TrieState.new at h
  split_ifs at h
  cases h
  refine ⟨fun family hfamily => ⟨.new family, if_pos hfamily, ?_⟩, fun family hfamily =>
    if_neg hfamily, rfl, rfl⟩
  have hempty : Reading.empty.recordsOf family = fun _ => none := by
    funext a
    exact ite_self _
  rw [hempty]
  exact inStep_new family

/-! ### One message -/

/-- The message is past everything that was handled. -/
def Past (state : TrieState) (message : ConsumedMessage) : Prop :=
  0 ≤ message.offset ∧ ∀ position ∈ state.position, position < message.offset

theorem Past.checkOffset {state : TrieState} (h : Past state message) :
    state.checkOffset message.offset = .ok () := by
  unfold TrieState.checkOffset
  rw [if_neg (not_lt.mpr h.1)]
  cases hposition : state.position with
  | none => rfl
  | some position => exact if_neg (not_le.mpr (h.2 position hposition))

theorem Past.not_redelivered {state : TrieState} (h : Past state message) :
    ¬ (state.position.any (message.offset ≤ ·) = true) := by
  cases hposition : state.position with
  | none => simp
  | some position => simpa using h.2 position hposition

namespace TrieWorker

/-- The worker after it has passed a message without applying it. -/
def passed (worker : TrieWorker) (message : ConsumedMessage) : TrieWorker :=
  { worker with state := { worker.state with position := some message.offset } }

theorem note_handled (h : Past worker.state message) :
    note (·.noteHandled message.offset) worker = .ok ⟨⟩ (worker.passed message) := by
  unfold note TrieState.noteHandled
  dsimp only
  rw [h.checkOffset]
  rfl

/-- A message at or below the position is passed over. -/
theorem handleMessage_redelivered
    (h : worker.state.position.any (message.offset ≤ ·) = true) :
    handleMessage library message worker = .ok (.redelivered, none) worker := by
  unfold handleMessage
  refine Program.bind_ok.mpr ⟨worker, worker, rfl, ?_⟩
  rw [if_pos h]
  rfl

/-- A message that does not decode moves the position and nothing else. -/
theorem handleMessage_malformed (h : Past worker.state message) {reason : Malformed}
    (hdecode : decodeMessage library message = .error reason) :
    handleMessage library message worker = .ok (.malformed, none) (worker.passed message) := by
  unfold handleMessage
  refine Program.bind_ok.mpr ⟨worker, worker, rfl, ?_⟩
  rw [if_neg h.not_redelivered, hdecode]
  exact Program.bind_ok.mpr ⟨⟨⟩, worker.passed message, note_handled h, rfl⟩

/-- An event of a family that is not served moves the position and nothing else. -/
theorem handleMessage_unserved (h : Past worker.state message) {payload : Codec.HotIpEvent}
    (hdecode : decodeMessage library message = .ok payload)
    (hfamily : worker.state.families payload.ip.family = none) :
    handleMessage library message worker =
      .ok (.familyNotServed, none) (worker.passed message) := by
  unfold handleMessage
  refine Program.bind_ok.mpr ⟨worker, worker, rfl, ?_⟩
  rw [if_neg h.not_redelivered, hdecode]
  dsimp only
  rw [hfamily, if_pos Option.isNone_none]
  exact Program.bind_ok.mpr ⟨⟨⟩, worker.passed message, note_handled h, rfl⟩

theorem note_applied (h : Past worker.state message) {timestamp : DateTime}
    (hutc : timestamp.offset = some 0) :
    note (·.noteApplied message.offset timestamp) worker =
      .ok ⟨⟩ { worker with
        state := { worker.state with
          position := some message.offset
          asOf := some (TrieState.newest worker.state.asOf timestamp) } } := by
  unfold note TrieState.noteApplied
  dsimp only
  rw [h.checkOffset, hutc]
  rfl

end TrieWorker

/-- What a message past the position makes of a state: the family's pair of an event takes it, and
the position and the newest timestamp move. -/
def TrieState.absorb (library : Library) (state : TrieState) (message : ConsumedMessage) :
    TrieState :=
  match decodeMessage library message with
  | .error _ => { state with position := some message.offset }
  | .ok payload =>
    match state.families payload.ip.family with
    | none => { state with position := some message.offset }
    | some fs =>
      { state with
        families := Function.update state.families payload.ip.family
          (some (Program.after (applyEvent library payload fs)))
        position := some message.offset
        asOf := some (TrieState.newest state.asOf payload.timestamp) }

/-- A message moves a state and its reading alike. -/
theorem Shows.absorb {state : TrieState} (h : Shows served reading state)
    (library : Library) (message : ConsumedMessage) :
    Shows served (reading.absorb library served message) (state.absorb library message) := by
  unfold Reading.absorb TrieState.absorb
  cases hdecode : decodeMessage library message with
  | error reason => exact ⟨h.pair, h.noPair, rfl, h.asOf⟩
  | ok payload =>
    dsimp only
    by_cases hserved : payload.ip.family ∈ served
    · obtain ⟨count, hdecoded⟩ := decodeMessage_decoded hdecode
      obtain ⟨fs, hfs, hin⟩ := h.pair _ hserved
      obtain ⟨fs', happly, hin'⟩ := hin.applyEvent library hdecoded rfl
      rw [if_pos hserved, hfs]
      dsimp only
      rw [happly, Program.after_ok]
      refine ⟨fun family hfamily => ?_, fun family hfamily => ?_, rfl, ?_⟩
      · by_cases hsame : family = payload.ip.family
        · -- The pair of the event's family is the one it was applied to.
          rw [hsame]
          refine ⟨fs', Function.update_self _ _ _, ?_⟩
          convert hin' using 1
          funext a
          unfold Reading.recordsOf
          dsimp only
          by_cases ha : a = payload.ip
          · rw [if_pos ha, if_pos ha, if_pos (congrArg Address.family ha)]
          · rw [if_neg ha, if_neg ha]
        · -- The event says nothing of another family's addresses.
          obtain ⟨other, hother, hin⟩ := h.pair family hfamily
          refine ⟨other, (Function.update_of_ne hsame _ _).trans hother, ?_⟩
          convert hin using 1
          funext a
          unfold Reading.recordsOf
          dsimp only
          by_cases ha : a = payload.ip
          · have hne : a.family ≠ family := fun heq =>
              hsame (heq.symm.trans (congrArg Address.family ha))
            rw [if_neg hne, if_neg hne]
          · rw [if_neg ha]
      · have hne : family ≠ payload.ip.family := fun heq => hfamily (heq ▸ hserved)
        exact (Function.update_of_ne hne _ _).trans (h.noPair family hfamily)
      · rw [h.asOf]
    · rw [if_neg hserved, h.noPair _ hserved]
      exact ⟨h.pair, h.noPair, rfl, h.asOf⟩

/-- An event of a family that is served is absorbed, and answered by whether it changes the hot set.
What the worker does afterwards is `conclude`. -/
theorem Shows.handleMessage_event (h : Shows served reading worker.state)
    (hpast : Past worker.state message) {payload : Codec.HotIpEvent}
    (hdecode : decodeMessage library message = .ok payload) (hserved : payload.ip.family ∈ served) :
    TrieWorker.handleMessage library message worker = TrieWorker.conclude library payload
      ((reading.records payload.ip).isSome != (recordAfter library payload).isSome)
      { worker with state := worker.state.absorb library message } := by
  obtain ⟨count, hdecoded⟩ := decodeMessage_decoded hdecode
  obtain ⟨fs, hfs, hin⟩ := h.pair _ hserved
  obtain ⟨fs', happly, -⟩ := hin.applyEvent library hdecoded rfl
  have hown : reading.recordsOf payload.ip.family payload.ip = reading.records payload.ip :=
    if_pos rfl
  rw [hown] at happly
  let families := Function.update worker.state.families payload.ip.family (some fs')
  let applied : TrieWorker := { worker with state := { worker.state with families := families } }
  have hon : TrieWorker.onFamily payload.ip.family (applyEvent library payload) worker =
      .ok ((reading.records payload.ip).isSome != (recordAfter library payload).isSome)
        applied := by
    unfold TrieWorker.onFamily
    rw [hfs]
    dsimp only
    rw [happly]
  have habsorb : worker.state.absorb library message =
      { worker.state with
        families := families
        position := some message.offset
        asOf := some (TrieState.newest worker.state.asOf payload.timestamp) } := by
    unfold TrieState.absorb
    rw [hdecode]
    dsimp only
    rw [hfs]
    dsimp only
    rw [happly, Program.after_ok]
  have hnote : TrieWorker.note (·.noteApplied message.offset payload.timestamp) applied =
      .ok ⟨⟩ { worker with state := worker.state.absorb library message } := by
    have hpastApplied : Past applied.state message := hpast
    rw [habsorb]
    exact TrieWorker.note_applied hpastApplied hdecoded.timestamp
  unfold TrieWorker.handleMessage
  rw [Program.bind_apply]
  show (if _ then _ else _ : Program _ _ _) worker = _
  rw [if_neg hpast.not_redelivered, hdecode]
  dsimp only
  rw [hfs, if_neg (by simp), Program.bind_apply, hon]
  dsimp only
  rw [Program.bind_apply, hnote]

/-! ### What is published does not matter -/

/-- The end of `_handle` leaves the worker. -/
theorem TrieWorker.after_conclude (library : Library) (payload : Codec.HotIpEvent)
    (changed : Bool) (worker : TrieWorker) :
    Program.after (conclude library payload changed worker) = worker := by
  have hprepared : ∀ result, prepared library payload worker = result →
      Program.after result = worker := by
    intro result hresult
    unfold prepared at hresult
    split at hresult
    · rw [← hresult]
      rfl
    · split at hresult <;> rw [← hresult] <;> rfl
  unfold conclude
  rw [Program.bind_apply]
  show Program.after ((if _ then _ else _ : Program _ _ _) worker) = _
  by_cases hskip : changed = false ∨ worker.state.eventSequence < worker.republishFrom.getD 0
  · rw [if_pos hskip]
    rfl
  · rw [if_neg hskip, Program.bind_apply]
    cases hrun : prepared library payload worker with
    | ok stats t => exact hprepared _ hrun
    | error e t => exact hprepared _ hrun

/-- A message past the position is absorbed, whatever becomes of its stats. -/
theorem Shows.after_handleMessage (library : Library) (h : Shows served reading worker.state)
    (hpast : Past worker.state message) :
    Program.after (TrieWorker.handleMessage library message worker) =
      { worker with state := worker.state.absorb library message } := by
  cases hdecode : decodeMessage library message with
  | error reason =>
    rw [TrieWorker.handleMessage_malformed hpast hdecode, Program.after_ok]
    unfold TrieState.absorb TrieWorker.passed
    rw [hdecode]
  | ok payload =>
    by_cases hserved : payload.ip.family ∈ served
    · rw [h.handleMessage_event hpast hdecode hserved, TrieWorker.after_conclude]
    · have hnone := h.noPair _ hserved
      rw [TrieWorker.handleMessage_unserved hpast hdecode hnone, Program.after_ok]
      unfold TrieState.absorb TrieWorker.passed
      rw [hdecode]
      dsimp only
      rw [hnone]

/-- Publishing changes the bus and nothing else. -/
theorem TrieWorker.after_publishStats (publishing : Publishing) (stats : PreparedStats)
    (worker : TrieWorker) :
    ∃ bus, Program.after (publishStats publishing stats worker) = { worker with bus := bus } := by
  unfold publishStats
  split
  · exact ⟨_, rfl⟩
  · exact ⟨_, rfl⟩

/-- What `handle` leaves of a worker that is not stopping: the state that the message makes, and some
bus. -/
theorem Shows.after_handle (library : Library) (h : Shows served reading worker.state)
    (hgo : worker.stopping = false) (hpast : Past worker.state message)
    (publishing : Publishing) :
    ∃ bus, Program.after (TrieWorker.handle library publishing message worker) =
      { worker with state := worker.state.absorb library message, bus := bus } := by
  have hmessage := h.after_handleMessage library hpast
  unfold TrieWorker.handle
  rw [Program.bind_apply]
  show ∃ bus, Program.after ((if worker.stopping = true then _ else _ : Program _ _ _) worker) = _
  rw [if_neg (Bool.not_eq_true _ ▸ hgo), Program.bind_apply]
  cases hrun : TrieWorker.handleMessage library message worker with
  | error e t =>
    rw [hrun] at hmessage
    exact ⟨worker.bus, hmessage⟩
  | ok answer t =>
    rw [hrun, Program.after_ok] at hmessage
    obtain ⟨outcome, stats⟩ := answer
    cases stats with
    | none => exact ⟨worker.bus, hmessage⟩
    | some stats =>
      obtain ⟨bus, hbus⟩ := TrieWorker.after_publishStats publishing stats t
      dsimp only
      rw [Program.bind_apply]
      refine ⟨bus, ?_⟩
      cases hpublish : TrieWorker.publishStats publishing stats t with
      | ok u t' =>
        rw [hpublish, hmessage] at hbus
        exact hbus
      | error e t' =>
        rw [hpublish, hmessage] at hbus
        exact hbus

/-- Once `stop` has begun a message does nothing. -/
theorem TrieWorker.handle_stopped (hstop : worker.stopping = true) (publishing : Publishing) :
    handle library publishing message worker = .ok .stopped worker := by
  unfold handle
  rw [Program.bind_apply]
  show (if _ then _ else _ : Program _ _ _) worker = _
  rw [if_pos hstop]
  rfl

/-- A message at or below the position does nothing. -/
theorem TrieWorker.handle_redelivered (hgo : worker.stopping = false)
    (h : worker.state.position.any (message.offset ≤ ·) = true) (publishing : Publishing) :
    handle library publishing message worker = .ok .redelivered worker := by
  unfold handle
  rw [Program.bind_apply]
  show (if worker.stopping = true then _ else _ : Program _ _ _) worker = _
  rw [if_neg (Bool.not_eq_true _ ▸ hgo), Program.bind_apply, handleMessage_redelivered h]
  rfl

/-! ### Runs -/

/-- What is done with a worker. -/
inductive WorkerCall where
  | handle (publishing : Publishing) (message : ConsumedMessage)
  | applyConfig (config : DetectionConfig)
  | stop

namespace WorkerCall

/-- The worker after a call, whether it returned or raised. -/
def step (library : Library) (worker : TrieWorker) : WorkerCall → TrieWorker
  | handle publishing message => Program.after (worker.handle library publishing message)
  | applyConfig config => worker.applyConfig config
  | stop => worker.stop

/-- The worker after a list of calls. -/
def run (library : Library) (worker : TrieWorker) (calls : List WorkerCall) : TrieWorker :=
  calls.foldl (step library) worker

/-- The messages that a list of calls hands over before the first `stop`. -/
def delivered : List WorkerCall → List ConsumedMessage
  | [] => []
  | handle _ message :: rest => message :: delivered rest
  | applyConfig _ :: rest => delivered rest
  | stop :: _ => []

/-- Whether a call is a `stop`. -/
def isStop : WorkerCall → Bool
  | stop => true
  | _ => false

end WorkerCall

/-- The messages whose offset exceeds that of every message before them that was kept. -/
def increasing (messages : List ConsumedMessage) : List ConsumedMessage :=
  messages.foldl (fun kept message =>
    if ∀ earlier ∈ kept, earlier.offset < message.offset then kept ++ [message] else kept) []

theorem increasing_concat (messages : List ConsumedMessage) (message : ConsumedMessage) :
    increasing (messages ++ [message]) =
      if ∀ earlier ∈ increasing messages, earlier.offset < message.offset then
        increasing messages ++ [message]
      else increasing messages := by
  unfold increasing
  rw [List.foldl_append]
  rfl

theorem increasing_pairwise (messages : List ConsumedMessage) :
    (increasing messages).Pairwise fun m m' => m.offset < m'.offset := by
  induction messages using List.reverseRecOn with
  | nil => exact .nil
  | append_singleton messages message ih =>
    rw [increasing_concat]
    split_ifs with hlast
    · rw [List.pairwise_append]
      refine ⟨ih, List.pairwise_singleton _ _, fun m hm m' hm' => ?_⟩
      rw [List.mem_singleton.mp hm']
      exact hlast m hm
    · exact ih

namespace WorkerCall

theorem delivered_concat (calls : List WorkerCall) (call : WorkerCall) :
    delivered (calls ++ [call]) = if calls.any isStop then delivered calls
      else delivered calls ++ delivered [call] := by
  induction calls with
  | nil => rfl
  | cons c calls ih =>
    cases c with
    | handle publishing message =>
      simp only [List.cons_append, delivered, ih, List.any_cons, isStop, Bool.false_or]
      split_ifs <;> rfl
    | applyConfig config =>
      simp only [List.cons_append, delivered, ih, List.any_cons, isStop, Bool.false_or]
    | stop => simp [delivered, isStop]

end WorkerCall

/-- The state that messages past each other make. -/
def TrieState.absorbAll (library : Library) (state : TrieState) (messages : List ConsumedMessage) :
    TrieState :=
  messages.foldl (TrieState.absorb library) state

/-- What messages past each other say. -/
def Reading.absorbAll (library : Library) (served : Finset AddressFamily) (reading : Reading)
    (messages : List ConsumedMessage) : Reading :=
  messages.foldl (Reading.absorb library served) reading

theorem Shows.absorbAll {state : TrieState} (h : Shows served reading state) (library : Library)
    (messages : List ConsumedMessage) :
    Shows served (reading.absorbAll library served messages)
      (state.absorbAll library messages) := by
  induction messages generalizing reading state with
  | nil => exact h
  | cons message messages ih => exact ih (h.absorb library message)

/-- The position is the last offset. -/
theorem Reading.position_absorbAll (library : Library) (served : Finset AddressFamily)
    (messages : List ConsumedMessage) :
    (Reading.empty.absorbAll library served messages).position =
      messages.getLast?.map (·.offset) := by
  induction messages using List.reverseRecOn with
  | nil => rfl
  | append_singleton messages message ih =>
    unfold Reading.absorbAll
    rw [List.foldl_append, List.getLast?_concat]
    exact Reading.position_absorb library served _ message

/-- The configuration plays no part in it. -/
theorem TrieState.absorb_config (library : Library) (state : TrieState) (config : DetectionConfig)
    (message : ConsumedMessage) :
    ({ state with config := config } : TrieState).absorb library message =
      { state.absorb library message with config := config } := by
  unfold TrieState.absorb
  split
  · rfl
  · dsimp only
    split <;> rfl

theorem TrieState.config_absorb (library : Library) (state : TrieState)
    (message : ConsumedMessage) : (state.absorb library message).config = state.config := by
  unfold TrieState.absorb
  split
  · rfl
  · split <;> rfl

/-- A worker after some calls: it has the state that the increasing messages before the first `stop`
make, up to the configuration, and it is stopping once there was a `stop`. -/
structure Replayed (library : Library) (state : TrieState) (calls : List WorkerCall)
    (worker : TrieWorker) : Prop where
  state : worker.state = { state.absorbAll library (increasing (WorkerCall.delivered calls)) with
    config := worker.state.config }
  stopping : worker.stopping = calls.any WorkerCall.isStop

section Run

variable {config : DetectionConfig} {state : TrieState}

/-- A message is past a position exactly when it is past the messages that made it. -/
theorem past_iff (message : ConsumedMessage) {messages : List ConsumedMessage}
    (hsorted : messages.Pairwise fun m m' => m.offset < m'.offset) {position : Option ℤ}
    (hposition : position = messages.getLast?.map (·.offset)) :
    (∀ p ∈ position, p < message.offset) ↔ ∀ m ∈ messages, m.offset < message.offset := by
  rw [hposition]
  induction messages using List.reverseRecOn with
  | nil => simp
  | append_singleton messages last ih =>
    obtain ⟨-, -, hlast⟩ := List.pairwise_append.mp hsorted
    rw [List.getLast?_concat]
    constructor
    · intro h m hm
      have hbelow : last.offset < message.offset := h _ rfl
      rcases List.mem_append.mp hm with hm | hm
      · exact (hlast m hm last (List.mem_singleton.mpr rfl)).trans hbelow
      · rw [List.mem_singleton.mp hm]
        exact hbelow
    · rintro h p ⟨⟩
      exact h last (List.mem_append_right _ (List.mem_singleton.mpr rfl))

/-- A worker that has replayed shows what the messages say. -/
theorem Replayed.shows {calls : List WorkerCall}
    (h : Replayed library state calls worker) (hnew : TrieState.new served config = .ok state) :
    Shows served (Reading.empty.absorbAll library served
      (increasing (WorkerCall.delivered calls))) worker.state := by
  have hall := (shows_new hnew).absorbAll library (increasing (WorkerCall.delivered calls))
  rw [h.state]
  exact ⟨hall.pair, hall.noPair, hall.position, hall.asOf⟩

theorem Replayed.position {calls : List WorkerCall}
    (h : Replayed library state calls worker) (hnew : TrieState.new served config = .ok state) :
    worker.state.position =
      (increasing (WorkerCall.delivered calls)).getLast?.map (·.offset) :=
  (h.shows hnew).position.trans (Reading.position_absorbAll library served _)

/-- A message after some calls is absorbed when it is past all that were, and changes nothing
otherwise. -/
theorem Replayed.handle {calls : List WorkerCall} (h : Replayed library state calls worker)
    (hnew : TrieState.new served config = .ok state) (publishing : Publishing)
    (hoffset : 0 ≤ message.offset) :
    Replayed library state (calls ++ [.handle publishing message])
      (WorkerCall.step library worker (.handle publishing message)) := by
  have hany : (calls ++ [WorkerCall.handle publishing message]).any WorkerCall.isStop =
      calls.any WorkerCall.isStop := by
    rw [List.any_append]
    exact Bool.or_false _
  have hdelivered := WorkerCall.delivered_concat calls (.handle publishing message)
  by_cases hstop : worker.stopping = true
  · -- The message comes after the `stop`.
    rw [if_pos (h.stopping ▸ hstop)] at hdelivered
    refine ⟨?_, hany.symm ▸ ?_⟩
    · rw [hdelivered, WorkerCall.step, TrieWorker.handle_stopped hstop]
      exact h.state
    · rw [WorkerCall.step, TrieWorker.handle_stopped hstop]
      exact h.stopping
  · have hgo : worker.stopping = false := Bool.not_eq_true _ ▸ hstop
    rw [if_neg (h.stopping ▸ hstop)] at hdelivered
    have hposition := h.position hnew
    have hiff := past_iff message (increasing_pairwise _) hposition
    have hconcat := increasing_concat (WorkerCall.delivered calls) message
    rw [show WorkerCall.delivered [.handle publishing message] = [message] from rfl] at hdelivered
    by_cases hpast : ∀ p ∈ worker.state.position, p < message.offset
    · obtain ⟨bus, hafter⟩ := (h.shows hnew).after_handle library hgo
        ⟨hoffset, hpast⟩ publishing
      rw [if_pos (hiff.mp hpast)] at hconcat
      refine ⟨?_, hany.symm ▸ ?_⟩
      · rw [hdelivered, hconcat, WorkerCall.step, hafter]
        unfold TrieState.absorbAll
        rw [List.foldl_append]
        dsimp only
        rw [TrieState.config_absorb]
        conv_lhs => rw [h.state]
        exact TrieState.absorb_config library _ _ message
      · rw [WorkerCall.step, hafter]
        exact h.stopping
    · -- The message is at or below the position.
      have hany' : worker.state.position.any (message.offset ≤ ·) = true := by
        push Not at hpast
        obtain ⟨p, hp, hle⟩ := hpast
        rw [Option.any_eq_true]
        exact ⟨p, hp, decide_eq_true hle⟩
      rw [if_neg fun hall => hpast (hiff.mpr hall)] at hconcat
      refine ⟨?_, hany.symm ▸ ?_⟩
      · rw [hdelivered, hconcat, WorkerCall.step,
          TrieWorker.handle_redelivered hgo hany' publishing]
        exact h.state
      · rw [WorkerCall.step, TrieWorker.handle_redelivered hgo hany' publishing]
        exact h.stopping

/-- A call that hands over no message adds nothing to what is delivered. -/
theorem WorkerCall.delivered_silent (calls : List WorkerCall) (call : WorkerCall)
    (h : delivered [call] = []) : delivered (calls ++ [call]) = delivered calls := by
  rw [delivered_concat, h, List.append_nil, ite_self]

theorem Replayed.applyConfig {calls : List WorkerCall} (h : Replayed library state calls worker)
    (config : DetectionConfig) :
    Replayed library state (calls ++ [.applyConfig config]) (worker.applyConfig config) := by
  have hany : (calls ++ [WorkerCall.applyConfig config]).any WorkerCall.isStop =
      calls.any WorkerCall.isStop := by
    rw [List.any_append]
    exact Bool.or_false _
  have hsame := WorkerCall.delivered_silent calls (.applyConfig config) rfl
  unfold TrieWorker.applyConfig
  split_ifs
  · exact ⟨hsame ▸ h.state, hany ▸ h.stopping⟩
  · refine ⟨?_, hany ▸ h.stopping⟩
    rw [hsame]
    show worker.state.adoptConfig config = _
    rw [h.state]
    rfl

theorem Replayed.stop {calls : List WorkerCall} (h : Replayed library state calls worker) :
    Replayed library state (calls ++ [.stop]) worker.stop := by
  have hsame := WorkerCall.delivered_silent calls .stop rfl
  refine ⟨hsame ▸ h.state, ?_⟩
  rw [List.any_append]
  exact (Bool.or_true _).symm

/-- A worker replays the messages of every list of calls. -/
theorem replayed_run (library : Library) (hnew : TrieState.new served config = .ok state)
    (publisher : PrefixStatsPublisher) (bus : InMemoryBus) (republishFrom : Option ℤ)
    (calls : List WorkerCall) (hoffsets : ∀ m ∈ WorkerCall.delivered calls, 0 ≤ m.offset) :
    Replayed library state calls
      (WorkerCall.run library ⟨state, publisher, bus, republishFrom, false⟩ calls) := by
  induction calls using List.reverseRecOn with
  | nil => exact ⟨rfl, rfl⟩
  | append_singleton calls call ih =>
    have hconcat := WorkerCall.delivered_concat calls call
    have hbefore : ∀ m ∈ WorkerCall.delivered calls, 0 ≤ m.offset := by
      intro m hm
      refine hoffsets m ?_
      rw [hconcat]
      split_ifs
      · exact hm
      · exact List.mem_append_left _ hm
    have hrun := ih hbefore
    unfold WorkerCall.run at hrun ⊢
    rw [List.foldl_append]
    cases call with
    | handle publishing message =>
      by_cases hstop : calls.any WorkerCall.isStop = true
      · -- The offset of a message after the `stop` does not matter.
        have hstopping := hrun.stopping.trans hstop
        rw [if_pos hstop] at hconcat
        refine ⟨?_, ?_⟩
        · rw [hconcat, List.foldl_cons, List.foldl_nil, WorkerCall.step,
            TrieWorker.handle_stopped hstopping]
          exact hrun.state
        · rw [List.foldl_cons, List.foldl_nil, WorkerCall.step,
            TrieWorker.handle_stopped hstopping, List.any_append, hstop]
          exact hstopping
      · rw [if_neg hstop] at hconcat
        refine hrun.handle hnew publishing (hoffsets message ?_)
        rw [hconcat]
        exact List.mem_append_right _ (List.mem_singleton.mpr rfl)
    | applyConfig config => exact hrun.applyConfig config
    | stop => exact hrun.stop

/-- A message that decodes to nothing that the worker serves moves its position and nothing else. -/
theorem Shows.handle_passed (h : Shows served reading worker.state) (hgo : worker.stopping = false)
    (hpast : Past worker.state message) (publishing : Publishing) :
    (∀ reason, decodeMessage library message = .error reason →
      worker.handle library publishing message = .ok .malformed (worker.passed message)) ∧
    ∀ payload, decodeMessage library message = .ok payload → payload.ip.family ∉ served →
      worker.handle library publishing message = .ok .familyNotServed (worker.passed message) := by
  have hhandle : ∀ outcome, TrieWorker.handleMessage library message worker =
      .ok (outcome, none) (worker.passed message) →
      worker.handle library publishing message = .ok outcome (worker.passed message) := by
    intro outcome hrun
    unfold TrieWorker.handle
    rw [Program.bind_apply]
    show (if worker.stopping = true then _ else _ : Program _ _ _) worker = _
    rw [if_neg (Bool.not_eq_true _ ▸ hgo), Program.bind_apply, hrun]
    rfl
  constructor
  · intro reason hdecode
    exact hhandle _ (TrieWorker.handleMessage_malformed hpast hdecode)
  · intro payload hdecode hserved
    exact hhandle _ (TrieWorker.handleMessage_unserved hpast hdecode (h.noPair _ hserved))

/-- **Replay is a function of the log.** Whatever calls are made of a new worker, with offsets that
are not negative, its hot sets, its attribute records, its position and its newest timestamp are
those that the messages before the first `stop` make whose offset exceeds that of every message
taken earlier, in their order; the position is the last of these offsets. A message that does not
decode, or of a family that is not served, moves the position only. Any other worker that takes the
same messages, such as one that is started from scratch after this one was interrupted, reaches the
same state, with whatever bus, publisher, place to resume publishing and failures of its publishes.
-/
theorem replay_is_fold (library : Library) (hnew : TrieState.new served config = .ok state)
    (publisher : PrefixStatsPublisher) (bus : InMemoryBus) (republishFrom : Option ℤ)
    (calls : List WorkerCall) (hoffsets : ∀ m ∈ WorkerCall.delivered calls, 0 ≤ m.offset) :
    let worker := WorkerCall.run library ⟨state, publisher, bus, republishFrom, false⟩ calls
    let messages := increasing (WorkerCall.delivered calls)
    let reading := Reading.empty.absorbAll library served messages
    messages.Pairwise (fun m m' => m.offset < m'.offset) ∧
    worker.state.position = messages.getLast?.map (·.offset) ∧
    worker.state.asOf = reading.asOf ∧
    (∀ family ∈ served, ∃ fs hot, worker.state.families family = some fs ∧
      fs.trie.iterHotAddresses = .ok hot ∧
      ∀ a, (a ∈ hot ↔ (reading.recordsOf family a).isSome) ∧
        fs.records.records.get? a = reading.recordsOf family a) ∧
    (∀ family ∉ served, worker.state.families family = none) ∧
    (worker.stopping = false → ∀ publishing message, Past worker.state message →
      (∀ reason, decodeMessage library message = .error reason →
        worker.handle library publishing message = .ok .malformed (worker.passed message)) ∧
      ∀ payload, decodeMessage library message = .ok payload → payload.ip.family ∉ served →
        worker.handle library publishing message =
          .ok .familyNotServed (worker.passed message)) ∧
    ∀ publisher' bus' republishFrom' calls',
      (∀ m ∈ WorkerCall.delivered calls', 0 ≤ m.offset) →
      increasing (WorkerCall.delivered calls') = messages →
      let worker' := WorkerCall.run library ⟨state, publisher', bus', republishFrom', false⟩ calls'
      worker'.state = { worker.state with config := worker'.state.config } := by
  dsimp only
  have hrun := replayed_run library hnew publisher bus republishFrom calls hoffsets
  have hshows := hrun.shows hnew
  refine ⟨increasing_pairwise _, hrun.position hnew, hshows.asOf, fun family hfamily => ?_,
    hshows.noPair, fun hgo publishing message hpast => hshows.handle_passed hgo hpast publishing,
    fun publisher' bus' republishFrom' calls' hoffsets' hsame => ?_⟩
  · obtain ⟨fs, hfs, hin⟩ := hshows.pair family hfamily
    obtain ⟨hot, hlist, -, hmem⟩ := hin.represents.iterHotAddresses
    refine ⟨fs, hot, hfs, hlist, fun a => ⟨?_, hin.records a⟩⟩
    rw [hmem, hin.mem_keys]
  · have hrun' := replayed_run library hnew publisher' bus' republishFrom' calls' hoffsets'
    have hstate' := hrun'.state
    rw [hsame] at hstate'
    rw [hstate', hrun.state]

end Run

/-- The publisher of the defaults. -/
def PrefixStatsPublisher.default : PrefixStatsPublisher :=
  ⟨defaultMinPrefixLength, defaultMinPrefixLength_le⟩

/-- Publishes that all return, in the order of the messages. -/
def Publishing.smooth : Publishing := ⟨id, List.Perm.refl, fun _ => .returns, false⟩

/-- The address `1.2.3.4`. -/
def sampleAddress : Address := (Codec.sampleEvent .added).ip

/-- There are bytes that add the address, under its text. -/
theorem exists_addition (library : Library) (hlimit : library.intMaxStrDigits = none) :
    ∃ value payload, payload.type = .added ∧ payload.ip = sampleAddress ∧
      ∀ message : ConsumedMessage, message.key = some (utf8 (library.addressText sampleAddress)) →
        message.value = value → decodeMessage library message = .ok payload := by
  let envelope : Hammertime.EventEnvelope Hammertime.HotIpEvent :=
    { agentId := "aggregator-shard-0"
      sequence := 0
      eventType := HotIpEventType.added.text
      configVersion := 1
      timestamp := 0
      payload := ⟨.added, sampleAddress, 0, 0, 1000, 1, none⟩
      subject := some (library.addressText sampleAddress) }
  have htype : envelope.IsTransition := ⟨rfl, .inl rfl⟩
  have hbounds : envelope.InBounds := by
    refine ⟨show datetimeRange 0 = true by decide, show datetimeRange 0 = true by decide,
      show (0 : ℤ) ≤ 1000 by norm_num, le_rfl, fun weight hweight => ?_⟩
    cases hweight
  obtain ⟨value, hvalue⟩ := Codec.exists_encodeTransition hlimit htype hbounds
  obtain ⟨payload, hadded, hip, -, -, hreads⟩ := decodeMessage_encodeTransition htype rfl hvalue
  exact ⟨value, payload, hadded, hip, hreads⟩

/-- A message without bytes at an offset. -/
def emptyMessage (offset : ℤ) : ConsumedMessage :=
  { topic := "hammertime.hot-ip.v1", partition := 0, offset := offset, key := none, value := [] }

/-- A message at the offset 3, one below it, the first again, one at 4, a `stop`, and one at 5. -/
def sampleCalls (message : ConsumedMessage) : List WorkerCall :=
  [.handle .smooth { message with offset := 3 }, .handle .smooth (emptyMessage 1),
    .handle .smooth { message with offset := 3 }, .handle .smooth (emptyMessage 4), .stop,
    .handle .smooth (emptyMessage 5)]

/-- An address is added, and what comes below it or does not decode leaves it. -/
theorem replay_is_fold_sample : ∃ message state fs hot,
    TrieState.new {.ipv4} .shipped = .ok state ∧
    let worker := WorkerCall.run (Codec.libraryWith none (by simp))
      ⟨state, .default, {}, none, false⟩ (sampleCalls message)
    worker.state.position = some 4 ∧ worker.state.families .ipv4 = some fs ∧
      fs.trie.iterHotAddresses = .ok hot ∧ sampleAddress ∈ hot := by
  obtain ⟨library, hlibrary⟩ : ∃ library, library = Codec.libraryWith none (by simp) := ⟨_, rfl⟩
  obtain ⟨value, payload, hadded, hip, hreads⟩ := exists_addition library (by rw [hlibrary]; rfl)
  let message : ConsumedMessage :=
    { topic := "hammertime.hot-ip.v1", partition := 0, offset := 3,
      key := some (utf8 (library.addressText sampleAddress)), value := value }
  obtain ⟨state, hnew⟩ : ∃ state, TrieState.new {.ipv4} .shipped = .ok state :=
    ⟨_, if_neg (by decide)⟩
  obtain ⟨-, hposition, -, hfamilies, -⟩ := replay_is_fold library hnew .default {} none
    (sampleCalls message) (by simp [sampleCalls, WorkerCall.delivered, emptyMessage])
  obtain ⟨fs, hot, hfs, hlist, hmem⟩ := hfamilies .ipv4 (Finset.mem_singleton_self _)
  rw [← hlibrary]
  refine ⟨message, state, fs, hot, hnew, hposition, hfs, hlist, ?_⟩
  rw [(hmem sampleAddress).1]
  -- The two messages that count are the event and one that says nothing.
  have hmessages : increasing (WorkerCall.delivered (sampleCalls message)) =
      [message, emptyMessage 4] := rfl
  have hdecode := hreads message rfl rfl
  have hempty : decodeMessage library (emptyMessage 4) = .error .codec := by
    rw [hlibrary]
    rfl
  have hserved : payload.ip.family ∈ ({.ipv4} : Finset AddressFamily) := by
    rw [hip]
    exact Finset.mem_singleton_self _
  rw [hmessages]
  unfold Reading.absorbAll Reading.recordsOf
  rw [if_pos (show sampleAddress.family = .ipv4 from rfl), List.foldl_cons, List.foldl_cons,
    List.foldl_nil]
  unfold Reading.absorb
  rw [hempty, hdecode]
  dsimp only
  rw [if_pos hserved, ← hip]
  dsimp only
  rw [if_pos rfl]
  exact (isSome_recordAfter library payload).mpr hadded

end Hammertime.Trie
