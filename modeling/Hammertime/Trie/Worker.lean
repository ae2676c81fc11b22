import Hammertime.Codec.Stability
import Hammertime.Trie.AttributeRecords
import Hammertime.Trie.Publisher

/-!
# The trie's worker

`TrieState` of `hammertime.trie.state` and `TrieWorker.handle` of `hammertime.trie.worker`, with what
`handle` calls. The worker's lock makes everything that a message does, its publishes included, one
step: what else touches the state, `apply_config`, waits for it, and `stop` only sets a flag. A
message that raises leaves whatever it has written.

The counters and the log records, which no modelled function reads, are left out.
-/

namespace Hammertime.Trie

open Codec (Library DateTime)
open Lib Bus

/-! ### `TrieState` -/

/-- The instant of an aware `datetime`, by which two of them are compared. -/
def instant (value : DateTime) : ℤ := value.wall - value.offset.getD 0

/-- What `TrieState` raises. -/
inductive StateError where
  /-- `TrieState needs at least one address family`. -/
  | noFamilies
  /-- `offset must be non-negative, got {offset}`. -/
  | negativeOffset (offset : ℤ)
  /-- `offset {offset} is not past the position {position}`. -/
  | notPast (offset position : ℤ)
  /-- `note_applied needs a timezone-aware timestamp`. -/
  | naiveTimestamp

/-- `TrieState`. -/
structure TrieState where
  /-- The families that are served. -/
  families : AddressFamily → Option FamilyState
  config : DetectionConfig
  /-- The last offset handled or passed. -/
  position : Option ℤ
  /-- The newest payload timestamp among applied events. -/
  asOf : Option DateTime

namespace TrieState

/-- The constructor of `TrieState`. -/
def new (families : Finset AddressFamily) (config : DetectionConfig) :
    Except StateError TrieState :=
  if families = ∅ then .error .noFamilies
  else
    .ok {
      families := fun family => if family ∈ families then some (.new family) else none
      config := config
      position := none
      asOf := none }

variable (state : TrieState)

/-- `event_sequence`. -/
def eventSequence : ℤ :=
  match state.position with
  | none => 0
  | some position => position + 1

/-- `_check_offset`. -/
def checkOffset (offset : ℤ) : Except StateError Unit :=
  if offset < 0 then .error (.negativeOffset offset)
  else
    match state.position with
    | none => .ok ()
    | some position => if offset ≤ position then .error (.notPast offset position) else .ok ()

/-- `note_handled`. -/
def noteHandled (offset : ℤ) : Except StateError TrieState := do
  state.checkOffset offset
  pure { state with position := some offset }

/-- The newer of the timestamp that is kept, if any, and another. -/
def newest (asOf : Option DateTime) (timestamp : DateTime) : DateTime :=
  match asOf with
  | none => timestamp
  | some newest => if instant newest < instant timestamp then timestamp else newest

/-- `note_applied`. -/
def noteApplied (offset : ℤ) (timestamp : DateTime) : Except StateError TrieState := do
  state.checkOffset offset
  if timestamp.offset = none then .error .naiveTimestamp
  else pure { state with position := some offset, asOf := some (newest state.asOf timestamp) }

/-- `note_passed`. -/
def notePassed (offset : ℤ) : Except StateError TrieState := do
  state.checkOffset offset
  pure { state with position := some offset }

/-- `adopt_config`. -/
def adoptConfig (config : DetectionConfig) : TrieState := { state with config := config }

end TrieState

/-! ### The worker -/

/-- `HotIpOutcome`. -/
inductive HotIpOutcome where
  | applied
  | unchanged
  | malformed
  | familyNotServed
  | redelivered
  | stopped
deriving DecidableEq

/-- `_Malformed`. -/
inductive Malformed where
  | invalidAttributes
  | codec
  | payloadType
  | keyMismatch
  | subjectMismatch

/-- What `handle` raises. -/
inductive HandleError where
  /-- What the apply step raises. -/
  | record (error : RecordError)
  | state (error : StateError)
  /-- `KeyError` of `of`. -/
  | notServed (family : AddressFamily)
  | prepare (error : PrepareError)
  | publish (error : PublishError)

/-- `TrieWorker`, with the bus that its producer writes to. -/
structure TrieWorker where
  state : TrieState
  publisher : PrefixStatsPublisher
  bus : InMemoryBus
  /-- Where publishing resumes, as `start` has set it. -/
  republishFrom : Option ℤ := none
  /-- Whether `stop` has begun. -/
  stopping : Bool := false

/-- `_decode`. -/
def decodeMessage (library : Library) (message : ConsumedMessage) :
    Except Malformed Codec.HotIpEvent :=
  match Codec.decode library message.value with
  | .error (.attributes _) => .error .invalidAttributes
  | .error _ => .error .codec
  | .ok envelope =>
    match envelope.payload with
    | .hotIp payload =>
      let ipText := library.addressText payload.ip
      if message.key ≠ some (utf8 ipText) then .error .keyMismatch
      else if envelope.subject.map Codec.PyString.content ≠ some (Text.ofString ipText) then
        .error .subjectMismatch
      else .ok payload
    | _ => .error .payloadType

/-- A transition that was encoded is read as an event, under the text of its address as the key. -/
theorem decodeMessage_encodeTransition {library : Library}
    {envelope : Hammertime.EventEnvelope Hammertime.HotIpEvent} {data : Bytes}
    (htype : envelope.IsTransition)
    (hsubject : envelope.subject = some (library.addressText envelope.payload.ip))
    (h : Codec.encodeTransition library envelope = .ok data) :
    ∃ payload : Codec.HotIpEvent, payload.type = envelope.payload.type ∧
      payload.ip = envelope.payload.ip ∧
      payload.windowCount = .int envelope.payload.windowCount ∧
      Option.Rel (Codec.IsCanonical library)
        (envelope.payload.attributes.map Attributes.Document.ofJson) payload.attributes ∧
      ∀ message : ConsumedMessage,
        message.key = some (utf8 (library.addressText envelope.payload.ip)) →
        message.value = data → decodeMessage library message = .ok payload := by
  obtain ⟨e, payload, hdecode, hkind, hback, htype', hip, hcount, hattributes⟩ :=
    Codec.decode_encodeTransition htype h
  refine ⟨payload, htype', hip, hcount, hattributes, fun message hkey hvalue => ?_⟩
  rw [hsubject, Option.map_some, ← hip] at hback
  rw [← hip] at hkey
  unfold decodeMessage
  rw [hvalue, hdecode]
  dsimp only
  rw [hkind]
  dsimp only
  rw [if_neg (not_not.mpr hkey), if_neg (not_not.mpr hback)]

/-- The count that `request_count` is checked to be. -/
def countOfObject : Codec.PyObject → Count
  | .int n => .int n
  | _ => .other

/-- The attribute document of an event, none being `None`. -/
def documentOf (payload : Codec.HotIpEvent) : Attributes.Document :=
  payload.attributes.getD ⟨fun _ => .list [], .none⟩

/-- `_apply_added`: a document that is refused is retried with the default one. -/
def applyAdded (library : Library) (payload : Codec.HotIpEvent) :
    Program RecordError FamilyState Bool := fun s =>
  let document := documentOf payload
  let count := countOfObject payload.windowCount
  match FamilyState.applyHotIpAdded library.toFloatFormat document.heap payload.ip document.root
      count s with
  | .error (.attributes _) t =>
    FamilyState.applyHotIpAdded library.toFloatFormat document.heap payload.ip .none count t
  | result => result

/-- Step 4 of `_handle`, on the family's pair. -/
def applyEvent (library : Library) (payload : Codec.HotIpEvent) :
    Program RecordError FamilyState Bool :=
  match payload.type with
  | .added => applyAdded library payload
  | .removed => FamilyState.applyHotIpRemoved payload.ip

namespace TrieWorker

/-- Run a step on a family's pair, which it changes in place. -/
def onFamily (family : AddressFamily) (step : Program RecordError FamilyState Bool) :
    Program HandleError TrieWorker Bool := fun worker =>
  match worker.state.families family with
  | none => .error (.notServed family) worker
  | some fs =>
    let put (fs : FamilyState) : TrieWorker :=
      { worker with
        state := { worker.state with
          families := Function.update worker.state.families family (some fs) } }
    match step fs with
    | .ok changed fs => .ok changed (put fs)
    | .error error fs => .error (.record error) (put fs)

/-- A call of one of the state's mutators. -/
def note (mutator : TrieState → Except StateError TrieState) :
    Program HandleError TrieWorker PUnit := fun worker =>
  match mutator worker.state with
  | .ok state => .ok ⟨⟩ { worker with state := state }
  | .error error => .error (.state error) worker

/-- Step 5a of `_handle`. -/
def prepared (library : Library) (payload : Codec.HotIpEvent) :
    Program HandleError TrieWorker PreparedStats := fun worker =>
  match worker.state.families payload.ip.family with
  | none => .error (.notServed payload.ip.family) worker
  | some fs =>
    match worker.publisher.prepare library fs.trie payload.ip worker.state.eventSequence
        worker.state.config.configVersion payload.timestamp with
    | .ok prepared => .ok prepared worker
    | .error error => .error (.prepare error) worker

/-- The end of `_handle`: the outcome of an event, and step 5a when it changed the hot set and its
stats are not in the log from an earlier start. -/
def conclude (library : Library) (payload : Codec.HotIpEvent) (changed : Bool) :
    Program HandleError TrieWorker (HotIpOutcome × Option PreparedStats) := do
  let worker ← get
  let outcome := if changed then .applied else .unchanged
  if changed = false ∨ worker.state.eventSequence < worker.republishFrom.getD 0 then
    pure (outcome, none)
  else do
    let stats ← prepared library payload
    pure (outcome, some stats)

/-- `_handle`. -/
def handleMessage (library : Library) (message : ConsumedMessage) :
    Program HandleError TrieWorker (HotIpOutcome × Option PreparedStats) := do
  let worker ← get
  -- 1. Redelivered.
  if worker.state.position.any (message.offset ≤ ·) then pure (.redelivered, none)
  else
    -- 2. Decode.
    match decodeMessage library message with
    | .error _ => do
      note (·.noteHandled message.offset)
      pure (.malformed, none)
    | .ok payload =>
      -- 3. Family.
      if (worker.state.families payload.ip.family).isNone then do
        note (·.noteHandled message.offset)
        pure (.familyNotServed, none)
      else do
        -- 4. Apply.
        let changed ← onFamily payload.ip.family (applyEvent library payload)
        -- 5. Record.
        note (·.noteApplied message.offset payload.timestamp)
        conclude library payload changed

/-- Step 5b of `handle`. -/
def publishStats (publishing : Publishing) (stats : PreparedStats) :
    Program HandleError TrieWorker PUnit := fun worker =>
  match publish publishing stats worker.bus with
  | .ok _ bus => .ok ⟨⟩ { worker with bus := bus }
  | .error error bus => .error (.publish error) { worker with bus := bus }

/-- `handle`. -/
def handle (library : Library) (publishing : Publishing) (message : ConsumedMessage) :
    Program HandleError TrieWorker HotIpOutcome := do
  let worker ← get
  if worker.stopping then pure .stopped
  else do
    let (outcome, stats) ← handleMessage library message
    match stats with
    | none => pure outcome
    | some stats => do
      publishStats publishing stats
      pure outcome

/-- `apply_config`. -/
def applyConfig (worker : TrieWorker) (config : DetectionConfig) : TrieWorker :=
  if worker.stopping then worker else { worker with state := worker.state.adoptConfig config }

/-- `stop`. -/
def stop (worker : TrieWorker) : TrieWorker := { worker with stopping := true }

end TrieWorker

/-! ### What a message holds -/

/-- What a hot-ip event that was decoded holds: a count that is a plain integer, not negative, and a
time in UTC. -/
structure Decoded (payload : Codec.HotIpEvent) (count : ℤ) : Prop where
  windowCount : payload.windowCount = .int count
  count_nonneg : 0 ≤ count
  timestamp : payload.timestamp.offset = some 0

variable {library : Library} {message : ConsumedMessage} {payload : Codec.HotIpEvent} {count : ℤ}

theorem decodeHotIpEvent_decoded {eventType : Text} {data : List (Text × Json)}
    (h : Codec.decodeHotIpEvent library eventType data = .ok payload) :
    ∃ count, Decoded payload count := by
  simp only [Codec.decodeHotIpEvent, except_bind_ok, Codec.malformed_ok, Codec.pure_eq_ok,
    Except.ok.injEq] at h
  obtain ⟨_, ⟨rawIp, -, ip, -, rawTimestamp, -, timestamp, htimestamp, rawSequence, -, sequence, -,
    rawWindowCount, -, windowCount, hwindowCount, rawConfigVersion, -, configVersion, -, rfl⟩,
    attributes, -, rfl⟩ := h
  have hbounds := (Codec.boundedJsonInteger_ok.mp hwindowCount).2.1
  exact ⟨windowCount, rfl, by exact_mod_cast hbounds, Codec.parseTimestamp_offset htimestamp⟩

theorem decodeMessage_decoded (h : decodeMessage library message = .ok payload) :
    ∃ count, Decoded payload count := by
  unfold decodeMessage at h
  split at h
  · cases h
  · cases h
  next envelope hdecode =>
    split at h
    next event hpayload =>
      dsimp only at h
      split_ifs at h
      cases h
      -- The envelope is one that the codec made of a document.
      unfold Codec.decode at hdecode
      split at hdecode
      · cases hdecode
      · obtain ⟨eventType, data, _, _, _, _, _, payload', _, _, -, -, -, -, -, -, -, hevent, hmake⟩ :=
          Codec.decodeDocument_ok hdecode
        obtain ⟨-, -, -, -, -, -, hsame, -, -⟩ := Codec.makeEnvelope_plain hmake
        rw [← hsame, hpayload] at hevent
        unfold Codec.decodePayload at hevent
        split_ifs at hevent
        · obtain ⟨_, -, hkind⟩ := Program.except_map_ok.mp hevent
          cases hkind
        · obtain ⟨event', hevent, hkind⟩ := Program.except_map_ok.mp hevent
          cases hkind
          exact decodeHotIpEvent_decoded hevent
        · obtain ⟨_, -, hkind⟩ := Program.except_map_ok.mp hevent
          cases hkind
      · cases hdecode
    · cases h

/-! ### What an event does to its family -/

/-- The record that an addition leaves of its address. -/
def recordOf (library : Library) (payload : Codec.HotIpEvent) : List Char × ℤ :=
  let document := documentOf payload
  (match prepare library.toFloatFormat document.heap document.root with
    | .ok text => text
    | .error _ => defaultText library.toFloatFormat,
  match payload.windowCount with
    | .int n => n
    | _ => 0)

/-- The record of its address after an event. -/
def recordAfter (library : Library) (payload : Codec.HotIpEvent) : Option (List Char × ℤ) :=
  match payload.type with
  | .added => some (recordOf library payload)
  | .removed => none

theorem isSome_recordAfter (library : Library) (payload : Codec.HotIpEvent) :
    (recordAfter library payload).isSome ↔ payload.type = .added := by
  unfold recordAfter
  cases payload.type with
  | added => simp
  | removed => simp

variable {family : AddressFamily} {expected : Address → Option (List Char × ℤ)} {fs : FamilyState}

theorem accepted_of_prepare {format : Attributes.FloatFormat} {heap : Attributes.Heap}
    {address : Address} {attributes : Attributes.Value} {n : ℤ} {text : List Char}
    (hfamily : address.family = family) (hn : 0 ≤ n)
    (hprepare : prepare format heap attributes = .ok text) :
    ApplyCall.accepted format family heap address attributes (.int n) = some (text, n) := by
  unfold ApplyCall.accepted
  dsimp only
  rw [if_pos ⟨hfamily, hn⟩, hprepare]

/-- An address is a key of the records exactly when a record of it is expected. -/
theorem InStep.mem_keys (h : InStep family expected fs) (a : Address) :
    a ∈ fs.records.records.keys.toFinset ↔ (expected a).isSome := by
  rw [List.mem_toFinset, Dict.mem_keys_iff, h.records, Option.isSome_iff_exists]

theorem InStep.checkFamilies_ok (h : InStep family expected fs) {address : Address}
    {u : PUnit} {t : FamilyState} (hcheck : FamilyState.checkFamilies address fs = .ok u t) :
    address.family = family ∧ t = fs := by
  rw [h.checkFamilies] at hcheck
  split_ifs at hcheck with hfamily
  cases hcheck
  exact ⟨hfamily, rfl⟩

/-- An addition answers whether the address had no record. -/
theorem InStep.added_changed (h : InStep family expected fs) {format : Attributes.FloatFormat}
    {heap : Attributes.Heap} {address : Address} {attributes : Attributes.Value}
    {requestCount : Count} {changed : Bool} {fs' : FamilyState}
    (hrun : FamilyState.applyHotIpAdded format heap address attributes requestCount fs =
      .ok changed fs') : changed = (expected address).isNone := by
  unfold FamilyState.applyHotIpAdded at hrun
  obtain ⟨_, t, hcheck, hrest⟩ := Program.bind_ok.mp hrun
  obtain ⟨hfamily, ht⟩ := h.checkFamilies_ok hcheck
  rw [ht] at hrest
  obtain ⟨n, u, hcount, hrest⟩ := Program.bind_ok.mp hrest
  -- The check of the count leaves the state.
  have hu : u = fs := by
    cases requestCount with
    | other => cases hcount
    | int m =>
      simp only [FamilyState.checkRequestCount] at hcount
      split_ifs at hcount <;> cases hcount
      rfl
  rw [hu] at hrest
  cases hprepare : prepare format heap attributes with
  | error fault =>
    rw [hprepare] at hrest
    cases hrest
  | ok text =>
    rw [hprepare] at hrest
    obtain ⟨answer, v, hcall, hreturn⟩ := Program.bind_ok.mp hrest
    cases hreturn
    obtain ⟨trie, hadd, -⟩ := h.represents.addHotIp hfamily
    simp only [FamilyState.callTrie, hadd] at hcall
    cases hcall
    rw [Bool.eq_iff_iff, decide_eq_true_iff, h.mem_keys]
    cases expected address <;> simp

/-- A removal answers whether the address had a record. -/
theorem InStep.removed_changed (h : InStep family expected fs) {address : Address}
    {changed : Bool} {fs' : FamilyState}
    (hrun : FamilyState.applyHotIpRemoved address fs = .ok changed fs') :
    changed = (expected address).isSome := by
  unfold FamilyState.applyHotIpRemoved at hrun
  obtain ⟨_, t, hcheck, hrest⟩ := Program.bind_ok.mp hrun
  obtain ⟨hfamily, ht⟩ := h.checkFamilies_ok hcheck
  rw [ht] at hrest
  obtain ⟨answer, u, hcall, hrest⟩ := Program.bind_ok.mp hrest
  obtain ⟨trie, hremove, -⟩ := h.represents.removeHotIp hfamily
  simp only [FamilyState.callTrie, hremove] at hcall
  cases hcall
  obtain ⟨s, v, -, hrest⟩ := Program.bind_ok.mp hrest
  split_ifs at hrest
  · cases hrest
    rw [Bool.eq_iff_iff, decide_eq_true_iff, h.mem_keys]
  · cases hrest

/-- An addition is never refused: a document that is, is replaced by the default one. -/
theorem InStep.applyAdded (library : Library) (h : InStep family expected fs) (hdecoded : Decoded payload count)
    (hfamily : payload.ip.family = family) :
    ∃ fs', applyAdded library payload fs = .ok (expected payload.ip).isNone fs' ∧
      InStep family (fun a => if a = payload.ip then some (recordOf library payload)
        else expected a) fs' := by
  have hcount : countOfObject payload.windowCount = .int count := by
    rw [hdecoded.windowCount]
    rfl
  have hadded := fun attributes => h.added library.toFloatFormat (documentOf payload).heap
    payload.ip attributes (.int count)
  unfold Hammertime.Trie.applyAdded
  simp only [hcount]
  unfold recordOf
  simp only [hdecoded.windowCount]
  cases hprepare : prepare library.toFloatFormat (documentOf payload).heap
      (documentOf payload).root with
  | ok text =>
    have hfirst := hadded (documentOf payload).root
    rw [accepted_of_prepare hfamily hdecoded.count_nonneg hprepare] at hfirst
    obtain ⟨changed, fs', hrun, hin⟩ := hfirst
    refine ⟨fs', ?_, hin⟩
    rw [hrun, h.added_changed hrun]
  | error fault =>
    -- The refusal has changed nothing, and the default document is not refused.
    have hrefused : FamilyState.applyHotIpAdded library.toFloatFormat (documentOf payload).heap
        payload.ip (documentOf payload).root (.int count) fs = .error (.attributes fault) fs := by
      unfold FamilyState.applyHotIpAdded
      have hcheck := h.checkFamilies payload.ip
      rw [if_pos hfamily] at hcheck
      have hrequest : FamilyState.checkRequestCount (.int count) fs = .ok count fs := by
        simp [FamilyState.checkRequestCount, not_lt.mpr hdecoded.count_nonneg, Program.pure_apply]
      refine Program.bind_error.mpr (.inr ⟨_, _, hcheck, ?_⟩)
      refine Program.bind_error.mpr (.inr ⟨_, _, hrequest, ?_⟩)
      rw [hprepare]
      rfl
    have hdefault := hadded .none
    rw [accepted_of_prepare hfamily hdecoded.count_nonneg rfl] at hdefault
    obtain ⟨changed, fs', hrun, hin⟩ := hdefault
    refine ⟨fs', ?_, hin⟩
    rw [hrefused, ← h.added_changed hrun]
    exact hrun

/-- An event moves its family's pair to what it says of its address, and answers whether that
changes the hot set. -/
theorem InStep.applyEvent (library : Library) (h : InStep family expected fs) (hdecoded : Decoded payload count)
    (hfamily : payload.ip.family = family) :
    ∃ fs', applyEvent library payload fs =
        .ok ((expected payload.ip).isSome != (recordAfter library payload).isSome) fs' ∧
      InStep family (fun a => if a = payload.ip then recordAfter library payload
        else expected a) fs' := by
  unfold Hammertime.Trie.applyEvent recordAfter
  cases payload.type with
  | added =>
    obtain ⟨fs', hrun, hin⟩ := h.applyAdded library hdecoded hfamily
    refine ⟨fs', ?_, hin⟩
    dsimp only
    rw [hrun]
    cases expected payload.ip <;> rfl
  | removed =>
    have hremoved := h.removed payload.ip
    rw [if_pos hfamily] at hremoved
    obtain ⟨changed, fs', hrun, hin⟩ := hremoved
    refine ⟨fs', ?_, hin⟩
    dsimp only
    rw [hrun, h.removed_changed hrun]
    cases expected payload.ip <;> rfl

end Hammertime.Trie
