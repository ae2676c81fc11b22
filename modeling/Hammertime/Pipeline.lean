import Hammertime.Aggregator.Fleet
import Hammertime.Trie.CatchUp
import Hammertime.Trie.Intake

/-!
# The aggregators and the trie

The two services share the hot-ip log: the aggregators write it, and the trie service reads it. Over
every run of a fleet of aggregators and of the processes of the trie service, the trie of a process
that has read all of the log has exactly the IPs that the state store has as HOT, and one that is
behind has those of the log as far as it has read. What its records keep of an IP is what the IP's
promotion was announced with.
-/

namespace Hammertime

open Lib
open Codec (Library)
open Aggregator (Fleet FleetAction Written eventTypeOf ownerOf replay shardAgentId shardEvents
  transitionEnvelope)
open Trie (PrefixStatsPublisher ProcessAction Reading TrieSystem TrieWorker decodeMessage hotIpTopic
  logMessages readingAt recordAfter)

variable {env : Env} {library : Library}

/-! ### What an announced edge says -/

/-- The aggregators write in the codec that the trie service reads. -/
structure UsesCodec (env : Env) (library : Library) : Prop where
  text : env.text = library.addressText
  digest : ∀ message, env.digest message = library.digest (Text.ofString message)
  encode : env.wire.encode = Codec.encodeTransition library

/-- The envelope of an edge. -/
structure IsEnvelope (shard : ℕ) (ip : Address) (edge : Aggregator.Edge) (config : DetectionConfig)
    (text : String) (envelope : EventEnvelope HotIpEvent) : Prop where
  transition : envelope.IsTransition
  type : envelope.payload.type = eventTypeOf edge.current
  ip : envelope.payload.ip = ip
  windowCount : envelope.payload.windowCount = edge.count
  subject : envelope.subject = some text
  attributes : edge.current = .hot → ∃ weight, computeWeight edge.count config = .ok weight ∧
    envelope.payload.attributes = some (weightDocument weight)

theorem isEnvelope_transitionEnvelope {shard : ℕ} {ip : Address} {edge : Aggregator.Edge}
    {sequence : ℕ} {config : DetectionConfig} {timestamp : ℤ} {text : String}
    {envelope : EventEnvelope HotIpEvent}
    (h : transitionEnvelope shard ip edge sequence config timestamp text = .ok envelope) :
    IsEnvelope shard ip edge config text envelope := by
  unfold transitionEnvelope at h
  cases hcurrent : edge.current with
  | hot =>
    simp only [hcurrent, if_pos] at h
    unfold transitionAttributes at h
    cases hweight : computeWeight edge.count config with
    | error e =>
      rw [hweight] at h
      cases h
    | ok weight =>
      rw [hweight] at h
      cases h
      exact ⟨⟨rfl, .inr ⟨weight, rfl⟩⟩, by rw [hcurrent]; rfl, rfl, rfl, rfl,
        fun _ => ⟨weight, hweight, rfl⟩⟩
  | cold =>
    simp only [hcurrent, if_neg (show ¬ IpState.cold = IpState.hot by decide)] at h
    cases h
    refine ⟨⟨rfl, .inl rfl⟩, by rw [hcurrent]; rfl, rfl, rfl, rfl, fun hhot => ?_⟩
    rw [hcurrent] at hhot
    cases hhot

/-- The bytes of an announced edge are those of its envelope. -/
theorem encodeTransition_envelope {shard : ℕ} {ip : Address} {edge : Aggregator.Edge}
    {sequence : ℕ} {config : DetectionConfig} {now : ℤ} {eventId : String} {value : Bytes}
    (h : Aggregator.encodeTransition env shard ip edge sequence config now = .ok (eventId, value)) :
    ∃ envelope, IsEnvelope shard ip edge config (env.text ip) envelope ∧
      env.wire.encode envelope = .ok value := by
  unfold Aggregator.encodeTransition at h
  split_ifs at h
  obtain ⟨envelope, henvelope, h⟩ := except_bind_ok.mp h
  obtain ⟨bytes, hbytes, h⟩ := except_bind_ok.mp h
  cases h
  exact ⟨envelope, isEnvelope_transitionEnvelope henvelope, hbytes⟩

/-- A record of an IP that was promoted: a count at or above a threshold, and the weight that the
count has under that configuration. -/
def Promoted (library : Library) (record : List Char × ℤ) : Prop :=
  ∃ config weight, config.hotThreshold ≤ record.2 ∧ computeWeight record.2 config = .ok weight ∧
    record.1 = Json.text library.repr (weightDocument weight)

/-- A weight that came over the wire is kept as it is. -/
theorem prepare_weight {weight : ℤ} {document : Option Attributes.Document}
    (h : Option.Rel (Codec.IsCanonical library) (some (.ofJson (weightDocument weight))) document) :
    ∃ document', document = some document' ∧
      Trie.prepare library.toFloatFormat document'.heap document'.root =
        .ok (Json.text library.repr (weightDocument weight)) := by
  cases h with
  | some hcanonical =>
    obtain ⟨fields, hunfolds, hadmissible, rfl⟩ := hcanonical
    have hfields : weightDocument weight = .obj fields :=
      (Attributes.unfolds_ofJson (weightDocument weight)).unique hunfolds
    refine ⟨_, rfl, ?_⟩
    have hcanonicalize := (Attributes.canonicalize_ofJson library.toFloatFormat (.obj fields)
      ⟨fields, Json.text library.repr (.obj fields)⟩).mpr ⟨rfl, hadmissible, rfl⟩
    have hprepare : Trie.prepare library.toFloatFormat (Attributes.Document.ofJson (.obj fields)).heap
        (Attributes.Document.ofJson (.obj fields)).root = Attributes.CanonicalAttributes.text <$>
          Attributes.canonicalizeIpAttributes library.repr
            (Attributes.Document.ofJson (.obj fields)).heap
            (Attributes.Document.ofJson (.obj fields)).root := rfl
    rw [hprepare, hcanonicalize, hfields]
    rfl

/-- What an announced edge is to the two services: a message that the trie service reads as an event,
and an event of the owner of its IP, about the same IP and of the same type. -/
structure Announces (env : Env) (library : Library) (record : Record) (payload : Codec.HotIpEvent) :
    Prop where
  reads : ∀ message : Bus.ConsumedMessage, message.key = some record.key →
    message.value = record.value → decodeMessage library message = .ok payload
  promoted : ∀ after ∈ recordAfter library payload, Promoted library after
  event : ∃ event : HotIpEvent, event.ip = payload.ip ∧ event.type = payload.type ∧
    ∀ shard, Aggregator.recordOf env shard record =
      if shard = ownerOf env payload.ip then some event else none

theorem announces_of_written (huses : UsesCodec env library) {record : Record}
    (h : Written env record) : ∃ payload, Announces env library record payload := by
  obtain ⟨ip, edge, sequence, config, now, eventId, hkey, hthreshold, hencoded⟩ := h
  obtain ⟨envelope, henvelope, hencode⟩ := encodeTransition_envelope hencoded
  rw [huses.encode] at hencode
  have htext : env.text ip = library.addressText envelope.payload.ip := by
    rw [henvelope.ip, huses.text]
  obtain ⟨payload, htype, hip, hcount, hattributes, hreads⟩ := Trie.decodeMessage_encodeTransition
    henvelope.transition (henvelope.subject.trans (congrArg some htext)) hencode
  have hip' : payload.ip = ip := hip.trans henvelope.ip
  refine ⟨payload, fun message hmessage => ?_, fun after hafter => ?_, ?_⟩
  · rw [htext] at hkey
    exact hreads message (hmessage.trans (congrArg some hkey))
  · unfold recordAfter at hafter
    rw [htype, henvelope.type] at hafter
    cases hcurrent : edge.current with
    | cold =>
      rw [hcurrent] at hafter
      cases hafter
    | hot =>
      obtain ⟨weight, hweight, hdocument⟩ := henvelope.attributes hcurrent
      rw [hdocument] at hattributes
      obtain ⟨document, hpresent, hprepare⟩ := prepare_weight hattributes
      have hrecord : Trie.recordOf library payload =
          (Json.text library.repr (weightDocument weight), edge.count) := by
        unfold Trie.recordOf Trie.documentOf
        rw [hpresent, hcount, henvelope.windowCount]
        dsimp only [Option.getD_some]
        rw [hprepare]
      rw [hcurrent] at hafter
      cases hafter
      rw [hrecord]
      exact ⟨config, weight, hthreshold hcurrent, hweight, rfl⟩
  · obtain ⟨-, -, attributes, -, hread⟩ := Aggregator.encodeTransition_ok hencoded
    refine ⟨Aggregator.eventOf ip edge sequence config now attributes, hip'.symm,
      (htype.trans henvelope.type).symm, fun shard => ?_⟩
    unfold Aggregator.recordOf
    rw [hread, hip']
    dsimp only
    by_cases hshard : shard = ownerOf env ip
    · rw [if_pos hshard, if_pos (congrArg shardAgentId hshard.symm)]
      rfl
    · rw [if_neg hshard, if_neg fun hsame => hshard (Aggregator.shardAgentId_inj hsame).symm]

/-! ### What a log says to the two services -/

/-- A record of the fleet's log, as the trie service's bus has it. -/
def busRecord (record : Record) : Bus.Record := ⟨some record.key, record.value⟩

/-- An IP is in the HOT set that its owner's events replay to. -/
def HotIn (env : Env) (log : List Record) (ip : Address) : Prop :=
  ip ∈ replay ∅ (shardEvents env (ownerOf env ip) log)

/-- One more event decides about its IP, and leaves the others. -/
theorem mem_replay_concat (hot : Finset Address) (events : List HotIpEvent) (event : HotIpEvent)
    (ip : Address) :
    ip ∈ replay hot (events ++ [event]) ↔
      if ip = event.ip then event.type = .added else ip ∈ replay hot events := by
  unfold replay
  rw [List.foldl_append, List.foldl_cons, List.foldl_nil]
  cases event.type with
  | added => split_ifs with hip <;> simp [hip]
  | removed => split_ifs with hip <;> simp [hip]

/-- One more announced edge decides about its IP, and leaves the others. -/
theorem hotIn_concat {record : Record} {payload : Codec.HotIpEvent}
    (h : Announces env library record payload) (log : List Record) (ip : Address) :
    HotIn env (log ++ [record]) ip ↔
      if ip = payload.ip then payload.type = .added else HotIn env log ip := by
  obtain ⟨event, hip, htype, hrecord⟩ := h.event
  unfold HotIn shardEvents
  rw [List.filterMap_append]
  by_cases hshard : ownerOf env ip = ownerOf env payload.ip
  · have hone : [record].filterMap (Aggregator.recordOf env (ownerOf env ip)) = [event] := by
      rw [List.filterMap_cons, hrecord, if_pos hshard]
      rfl
    rw [hone, mem_replay_concat, hip, htype]
  · have hnone : [record].filterMap (Aggregator.recordOf env (ownerOf env ip)) = [] := by
      rw [List.filterMap_cons, hrecord, if_neg hshard]
      rfl
    have hne : ip ≠ payload.ip := fun hsame => hshard (congrArg (ownerOf env) hsame)
    rw [hnone, List.append_nil, if_neg hne]

/-- A reading has a record of an IP that is served exactly when the IP is HOT in the log, and each
record is of a promotion. -/
structure Follows (env : Env) (library : Library) (served : Finset AddressFamily)
    (log : List Record) (reading : Reading) : Prop where
  hot : ∀ ip, ip.family ∈ served → ((reading.records ip).isSome ↔ HotIn env log ip)
  promoted : ∀ ip, ∀ record ∈ reading.records ip, Promoted library record

variable {served : Finset AddressFamily} {log : List Record} {reading : Reading}

theorem Follows.concat (h : Follows env library served log reading) (huses : UsesCodec env library)
    {record : Record} (hwritten : Written env record) {message : Bus.ConsumedMessage}
    (hkey : message.key = some record.key) (hvalue : message.value = record.value) :
    Follows env library served (log ++ [record]) (reading.absorb library served message) := by
  obtain ⟨payload, hannounces⟩ := announces_of_written huses hwritten
  have hdecode := hannounces.reads message hkey hvalue
  have habsorb : ∀ ip, (reading.absorb library served message).records ip =
      if ip = payload.ip ∧ payload.ip.family ∈ served then recordAfter library payload
      else reading.records ip := by
    intro ip
    unfold Reading.absorb
    rw [hdecode]
    dsimp only
    by_cases hserved : payload.ip.family ∈ served
    · simp only [hserved, if_true, and_true]
    · simp only [hserved, if_false, and_false]
  refine ⟨fun ip hfamily => ?_, fun ip after hafter => ?_⟩
  · rw [habsorb, hotIn_concat hannounces]
    by_cases hip : ip = payload.ip
    · rw [if_pos ⟨hip, hip ▸ hfamily⟩, if_pos hip]
      exact Trie.isSome_recordAfter library payload
    · rw [if_neg fun hboth => hip hboth.1, if_neg hip]
      exact h.hot ip hfamily
  · rw [habsorb] at hafter
    split_ifs at hafter
    · exact hannounces.promoted after hafter
    · exact h.promoted ip after hafter

/-- So does what the trie service has read of a log that owners have written. -/
theorem follows_readingAt (huses : UsesCodec env library)
    (hwritten : ∀ record ∈ log, Written env record) {i : ℕ} (hi : i ≤ log.length) :
    Follows env library served (log.take i) (readingAt library served (log.map busRecord) i) := by
  induction i with
  | zero =>
    refine ⟨fun ip _ => ?_, fun ip record hrecord => ?_⟩
    · exact ⟨fun hsome => (Bool.false_ne_true hsome).elim,
        fun hhot => absurd hhot (Finset.notMem_empty ip)⟩
    · cases hrecord
  | succ i ih =>
    have hget : log[i]? = some log[i] := List.getElem?_eq_getElem hi
    have hmessage := Trie.logMessages_getElem? (log.map busRecord) i
    rw [List.getElem?_map, hget, Option.map_some, Option.map_some] at hmessage
    rw [Trie.readingAt_succ hmessage, List.take_add_one, hget]
    exact (ih (Nat.le_of_succ_le hi)).concat huses (hwritten _ (List.getElem_mem hi)) rfl rfl

/-! ### Both services over one log -/

/-- The aggregators, and the trie service on the hot-ip log that they write. -/
structure Pipeline where
  fleet : Fleet
  trie : TrieSystem

/-- What happens: an aggregator's process acts, or one of the trie service. -/
inductive PipelineAction where
  | aggregator (place : ℕ) (action : FleetAction)
  | trie (action : ProcessAction)

namespace Pipeline

/-- The bus of the trie service has the records that the fleet has added. -/
def carry (system : TrieSystem) (records : List Record) : TrieSystem :=
  { system with
    bus := records.foldl
      (fun bus record => bus.publish hotIpTopic (.inl record.key) record.value none) system.bus }

variable (env : Env) (library : Library) (publisher : PrefixStatsPublisher)
  (served : Finset AddressFamily)

def step (p : Pipeline) : PipelineAction → Pipeline
  | .aggregator place action =>
    let fleet := p.fleet.step env place action
    ⟨fleet, carry p.trie (fleet.shared.hotIp.log.drop p.fleet.shared.hotIp.log.length)⟩
  | .trie action => { p with trie := p.trie.step library publisher served action }

/-- No lease of a running aggregator lapses, and nobody else publishes to the hot-ip log. -/
def Admits (p : Pipeline) : PipelineAction → Prop
  | .aggregator place action => p.fleet.Admits env place action
  | .trie action => ∀ key value messageId, action ≠ .publish key value messageId

/-- The states that runs lead to, from a store without HOT IPs and an empty bus. -/
inductive Reached : Pipeline → Prop
  | start (shared : Shared) (hlog : shared.hotIp = ⟨[], ∅⟩)
      (hstore : ∀ shard, (shared.store.load shard).hotIps = ∅) : Reached ⟨Fleet.start shared, {}⟩
  | step {p : Pipeline} (hp : Reached p) {action : PipelineAction} (h : p.Admits env action) :
      Reached (p.step env library publisher served action)

end Pipeline

namespace Pipeline

/-- A carried record is a publish of another party. -/
theorem carry_eq_foldl (library : Library) (publisher : PrefixStatsPublisher)
    (served : Finset AddressFamily) (records : List Record) (system : TrieSystem) :
    carry system records = (records.map fun record =>
      ProcessAction.publish (.inl record.key) record.value none).foldl
        (TrieSystem.step library publisher served) system := by
  induction records generalizing system with
  | nil => rfl
  | cons record records ih =>
    exact ih { system with bus := system.bus.publish hotIpTopic (.inl record.key) record.value none }

theorem logs_carry (records : List Record) (system : TrieSystem) :
    (carry system records).bus.logs hotIpTopic =
      system.bus.logs hotIpTopic ++ records.map busRecord := by
  induction records generalizing system with
  | nil => exact (List.append_nil _).symm
  | cons record records ih =>
    have hone := system.bus.logs_publish hotIpTopic (.inl record.key) record.value none hotIpTopic
    obtain ⟨⟨id, hid, -⟩, -⟩ | ⟨-, hlogs⟩ := hone
    · cases hid
    · rw [if_pos rfl] at hlogs
      have hrest := ih
        { system with bus := system.bus.publish hotIpTopic (.inl record.key) record.value none }
      refine hrest.trans ((congrArg (· ++ records.map busRecord) hlogs).trans ?_)
      exact List.append_assoc _ _ _

/-- The fleet and the trie service are those of runs of their own, over the same log. -/
structure Joined (env : Env) (library : Library) (publisher : PrefixStatsPublisher)
    (served : Finset AddressFamily) (p : Pipeline) : Prop where
  fleet : Fleet.Reached env p.fleet
  trie : ∃ actions, p.trie = TrieSystem.run library publisher served actions
  log : p.trie.bus.logs hotIpTopic = p.fleet.shared.hotIp.log.map busRecord

variable {publisher : PrefixStatsPublisher} {p : Pipeline}

theorem Reached.joined (h : Reached env library publisher served p) (henv : env.NoCallFails)
    (hdigest : Function.Injective env.digest) : p.Joined env library publisher served := by
  induction h with
  | start shared hlog hstore =>
    exact ⟨.start shared hlog hstore, ⟨[], rfl⟩, by rw [Fleet.start, hlog]; rfl⟩
  | @step p hp action hadmits ih =>
    obtain ⟨actions, hrun⟩ := ih.trie
    cases action with
    | aggregator place action =>
      have hsound := ih.fleet.sound henv hdigest
      obtain ⟨records, hgrows⟩ := hsound.log_step henv hdigest hadmits
      unfold Pipeline.step
      dsimp only
      rw [hgrows, List.drop_left]
      refine ⟨ih.fleet.step hadmits, ⟨actions ++ records.map fun record =>
        .publish (.inl record.key) record.value none, ?_⟩, ?_⟩
      · rw [hrun, carry_eq_foldl library publisher served]
        exact (List.foldl_append ..).symm
      · dsimp only
        rw [logs_carry, ih.log, hgrows, List.map_append]
    | trie action =>
      refine ⟨ih.fleet, ⟨actions ++ [action], ?_⟩, ?_⟩
      · show p.trie.step library publisher served action = _
        rw [hrun]
        exact (List.foldl_concat ..).symm
      · exact (Trie.TrieSystem.step_sameHotIp library publisher served p.trie hadmits).trans ih.log

end Pipeline

/-- A trie answers its queries as a set of addresses does. -/
structure Answers (fs : Trie.FamilyState) (family : AddressFamily) (hot : Finset Address) : Prop where
  listing : ∃ addresses, fs.trie.iterHotAddresses = .ok addresses ∧
    (addresses.Pairwise fun a b => a.value < b.value) ∧ ∀ a, a ∈ addresses ↔ a ∈ hot
  count : ∀ p : Prefix, p.family = family → 0 ≤ p.network → p.network < 2 ^ family.bitLength →
    fs.trie.hotCount p = .ok ((hot.filter fun a => p.contains a = true).card : ℕ)

/-- A family's pair answers as the HOT IPs of its log. -/
theorem Follows.answers {fs : Trie.FamilyState} {family : AddressFamily}
    (h : Follows env library served log reading) (hserved : family ∈ served)
    (hstep : Trie.InStep family (reading.recordsOf family) fs) :
    ∃ hot, Answers fs family hot ∧ ∀ ip, ip ∈ hot ↔ ip.family = family ∧ HotIn env log ip := by
  refine ⟨_, ⟨hstep.represents.iterHotAddresses, fun p hp h0 h1 =>
    hstep.represents.hotCount hp h0 h1⟩, fun ip => ?_⟩
  rw [hstep.mem_keys]
  unfold Reading.recordsOf
  split_ifs with hfamily
  · rw [h.hot ip (hfamily ▸ hserved)]
    exact ⟨fun hhot => ⟨hfamily, hhot⟩, And.right⟩
  · exact ⟨fun hsome => (Bool.false_ne_true hsome).elim, fun hip => absurd hip.1 hfamily⟩

/-- **The trie follows the fleet.** In every run of a fleet of aggregators and of the trie service on
the log that the fleet writes, under the conditions of `fleet_log_is_store`, with nobody else publishing
to the log and every operation of an aggregator done as a whole (none is lost between the store and the
bus): a process of the trie service that has handled so many events answers, for each family that it
serves, as the HOT IPs that these events replay to; once it has handled all of them, these are the HOT
IPs of the state store, each at the shard that owns it. Every record that it keeps is of a promotion: a
count at or above the threshold of a configuration, with the weight that the count has under it. The
aggregators use the codec and the digest of the library, and the digest has no collision. -/
theorem trie_follows_fleet {publisher : PrefixStatsPublisher} {p : Pipeline}
    (huses : UsesCodec env library) (henv : env.NoCallFails)
    (hdigest : Ingest.DigestInjective library)
    (h : Pipeline.Reached env library publisher served p) :
    ∀ process ∈ p.trie.process, ∃ count ≤ p.fleet.shared.hotIp.log.length,
      process.worker.state.eventSequence = count ∧
      ∀ family ∈ served, ∃ fs hot, process.worker.state.families family = some fs ∧
        Answers fs family hot ∧
        (∀ ip, ip ∈ hot ↔
          ip.family = family ∧ HotIn env (p.fleet.shared.hotIp.log.take count) ip) ∧
        (count = p.fleet.shared.hotIp.log.length → ∀ ip, ip ∈ hot ↔
          ip.family = family ∧ ip ∈ (p.fleet.shared.store.load (ownerOf env ip)).hotIps) ∧
        ∀ ip, ∀ record ∈ fs.records.records.get? ip, Promoted library record := by
  have hinjective : Function.Injective env.digest := by
    intro message message' hsame
    rw [huses.digest, huses.digest] at hsame
    exact Codec.Text.ofString_inj.mp (hdigest _ _ (Text.ofString_not_hasSurrogate message)
      (Text.ofString_not_hasSurrogate message') hsame)
  intro process hprocess
  have hjoined := h.joined henv hinjective
  have hfaithful := (hjoined.fleet.sound henv hinjective).faithful
  obtain ⟨actions, hrun⟩ := hjoined.trie
  obtain ⟨facts, index, hconsistent⟩ := Trie.consistent_run hdigest publisher served actions
  rw [← hrun] at hconsistent
  obtain ⟨count, hserving⟩ := hconsistent.process process hprocess
  have hcount : count ≤ p.fleet.shared.hotIp.log.length := by
    have hwithin := hserving.handled.trans hconsistent.within
    rwa [hjoined.log, List.length_map] at hwithin
  refine ⟨count, hcount, hserving.shows.eventSequence (hserving.handled.trans hconsistent.within),
    fun family hfamily => ?_⟩
  have hshows := hserving.shows
  rw [hjoined.log] at hshows
  obtain ⟨fs, hfs, hstep⟩ := hshows.pair family hfamily
  have hfollows : Follows env library served (p.fleet.shared.hotIp.log.take count) _ :=
    follows_readingAt huses hfaithful.written hcount
  obtain ⟨hot, hanswers, hmem⟩ := hfollows.answers hfamily hstep
  refine ⟨fs, hot, hfs, hanswers, hmem, fun hall ip => ?_, fun ip record hrecord => ?_⟩
  · rw [hmem, hall, List.take_length]
    unfold HotIn
    rw [hfaithful.replays]
  · rw [hstep.records] at hrecord
    unfold Reading.recordsOf at hrecord
    split_ifs at hrecord
    · exact hfollows.promoted ip record hrecord
    · cases hrecord

/-! ### One promotion, from the observation to the trie -/

/-- A fleet's run is one of the pipeline. -/
theorem Pipeline.exists_reached (library : Library) (publisher : PrefixStatsPublisher)
    (served : Finset AddressFamily) {f : Fleet} (h : Fleet.Reached env f) :
    ∃ p, Pipeline.Reached env library publisher served p ∧ p.fleet = f := by
  induction h with
  | start shared hlog hstore => exact ⟨_, .start shared hlog hstore, rfl⟩
  | @step f hf place action hadmits ih =>
    obtain ⟨p, hp, rfl⟩ := ih
    have hnext : p.Admits env (.aggregator place action) := hadmits
    exact ⟨_, hp.step hnext, rfl⟩

/-- The trie service goes on. -/
theorem Pipeline.Reached.foldl_trie {publisher : PrefixStatsPublisher} {p : Pipeline}
    (h : Pipeline.Reached env library publisher served p) {actions : List ProcessAction}
    (hreads : ∀ action ∈ actions, ∀ key value messageId, action ≠ .publish key value messageId) :
    Pipeline.Reached env library publisher served
      ⟨p.fleet, actions.foldl (TrieSystem.step library publisher served) p.trie⟩ := by
  induction actions generalizing p with
  | nil => exact h
  | cons action actions ih =>
    have hfirst : p.Admits env (.trie action) := hreads action List.mem_cons_self
    exact ih (h.step hfirst) fun action' hmem => hreads action' (List.mem_cons_of_mem action hmem)

/-- A log in which one shard only has announced something has as many records as the shard's events. -/
theorem length_of_shard (huses : UsesCodec env library)
    (hwritten : ∀ record ∈ log, Written env record) {shard : ℕ}
    (hothers : ∀ other ≠ shard, shardEvents env other log = []) :
    (shardEvents env shard log).length = log.length := by
  refine List.filterMap_length_eq_length.mpr fun record hrecord => ?_
  obtain ⟨payload, hannounces⟩ := announces_of_written huses (hwritten record hrecord)
  obtain ⟨event, -, -, hevent⟩ := hannounces.event
  by_cases hshard : shard = ownerOf env payload.ip
  · rw [hevent, if_pos hshard]
    rfl
  · have hother := hevent (ownerOf env payload.ip)
    rw [if_pos rfl] at hother
    have hmem : event ∈ shardEvents env (ownerOf env payload.ip) log :=
      List.mem_filterMap.mpr ⟨record, hrecord, hother⟩
    rw [hothers _ fun hsame => hshard hsame.symm] at hmem
    cases hmem

/-- An aggregator promotes an IP, and a process of the trie service starts and reads of it. -/
theorem trie_follows_fleet_sample : ∃ p process fs addresses,
    Pipeline.Reached Aggregator.sampleEnv (Codec.libraryWith none (by simp)) .default {.ipv4} p ∧
      p.trie.process = some process ∧ process.worker.state.families .ipv4 = some fs ∧
      fs.trie.iterHotAddresses = .ok addresses ∧ Aggregator.sampleIp ∈ addresses := by
  obtain ⟨library, hlibrary⟩ : ∃ library, library = Codec.libraryWith none (by simp) := ⟨_, rfl⟩
  have huses : UsesCodec Aggregator.sampleEnv library := by
    rw [hlibrary]
    exact ⟨rfl, fun _ => rfl, rfl⟩
  have hdigest : Ingest.DigestInjective library := by
    rw [hlibrary]
    exact fun _ _ => Codec.digest_inj
  have henv : Aggregator.sampleEnv.NoCallFails := Aggregator.orderly_sampleEnv.noCallFails
  have hinjective : Function.Injective Aggregator.sampleEnv.digest :=
    Aggregator.interpreterEnv_digest_injective _ _
  have hwithin : ∀ n, library.within n = true := by
    rw [hlibrary]
    exact fun _ => rfl
  rw [← hlibrary]
  -- The aggregator has announced the IP, and nothing else.
  obtain ⟨f, -, -, event, hf, -, -, hevents, htype, hip, hothers⟩ := Aggregator.exists_announced
  obtain ⟨p, hp, rfl⟩ := Pipeline.exists_reached library .default {.ipv4} hf
  have hlength : p.fleet.shared.hotIp.log.length = 1 := by
    rw [← length_of_shard huses (hf.sound henv hinjective).faithful.written hothers, hevents]
    rfl
  -- A process of the trie service starts, and takes one turn of its loop.
  have hreads : ∀ action ∈ [ProcessAction.boot .shipped, .readEnd, .subscribe],
      ∀ key value messageId, action ≠ .publish key value messageId := by
    simp
  have hturns : ∀ action ∈ [ProcessAction.pump .smooth],
      ∀ key value messageId, action ≠ .publish key value messageId := by
    simp
  have hstarted := hp.foldl_trie hreads
  have hjoined := hstarted.joined henv hinjective
  obtain ⟨actions, hrun⟩ := hjoined.trie
  obtain ⟨facts, index, hconsistent⟩ :=
    Trie.consistent_run hdigest PrefixStatsPublisher.default {.ipv4} actions
  have hserved : ({.ipv4} : Finset AddressFamily) ≠ ∅ := Finset.singleton_ne_empty _
  obtain ⟨first, hfirst⟩ := Trie.replaying_start PrefixStatsPublisher.default hserved
    (hwithin DetectionConfig.shipped.configVersion) p.trie
  have htarget : (p.trie.bus.logs hotIpTopic).length = 1 := by
    rw [(hp.joined henv hinjective).log, List.length_map, hlength]
  rw [htarget] at hfirst
  rw [← hrun] at hconsistent
  obtain ⟨process, hprocess⟩ := hfirst.pumps hdigest hconsistent
    (one_lt_pow₀ (show 1 < 10 by norm_num) (show 640 ≠ 0 by norm_num)) (Nat.zero_le 1)
    (show ∀ publishing ∈ [Trie.Publishing.smooth], publishing.Returns from fun publishing hmem =>
      List.mem_singleton.mp hmem ▸ ⟨fun _ => rfl, rfl⟩)
  have hreached := hstarted.foldl_trie hturns
  obtain ⟨count, -, hsequence, hfamilies⟩ :=
    trie_follows_fleet huses henv hdigest hreached process hprocess.runs
  obtain ⟨fs, hot, hfs, hanswers, hmem, -, -⟩ := hfamilies .ipv4 (Finset.mem_singleton_self _)
  have hcount : count = 1 := by exact_mod_cast hsequence.symm.trans hprocess.eventSequence
  obtain ⟨addresses, hlisting, -, hlisted⟩ := hanswers.listing
  refine ⟨_, process, fs, addresses, hreached, hprocess.runs, hfs, hlisting, ?_⟩
  rw [hlisted, hmem, hcount, List.take_of_length_le hlength.le]
  refine ⟨rfl, ?_⟩
  show Aggregator.sampleIp ∈ replay ∅ (shardEvents Aggregator.sampleEnv 0 _)
  rw [hevents]
  unfold replay
  rw [List.foldl_cons, List.foldl_nil, htype, hip]
  exact Finset.mem_insert_self _ _

end Hammertime
