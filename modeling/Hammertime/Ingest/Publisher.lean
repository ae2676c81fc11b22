import Hammertime.Codec.RoundTrip

/-!
# The fan-out of a batch

`ObservationPublisher` of the ingest service: the counts of a batch are summed for each address, and
every address with a sum other than zero gets a message of its own, keyed and named by the address.
The aggregator takes such messages apart in `AggregatorWorker._decode`, which drops one that does not
hold exactly one entry, or whose subject or key does not name the entry's address.

`fan_out` says that the two agree, through the codec that is between them.
-/

namespace Hammertime.Ingest

open Lib

/-! ### Coalescing -/

/-- `RequestObservation`, as `create_observation` builds it. -/
structure Batch where
  agentId : String
  sequence : ℤ
  windowStart : Codec.DateTime
  windowSeconds : ℤ
  observations : List Observation

/-- `_MAX_REQUEST_COUNT`. -/
def maxRequestCount : ℕ := 1000000000

/-- `RequestCountOverflowError`. -/
structure RequestCountOverflow where
  ip : Address
  total : ℕ

/-- The first loop of `_coalesce`. -/
def totals (observations : List Observation) : Dict Address ℕ :=
  observations.foldl
    (fun totals entry => totals.set entry.ip ((totals.get? entry.ip).getD 0 + entry.requestCount))
    .empty

/-- One turn of the second loop. -/
def coalesceOne (item : Address × ℕ) : Except RequestCountOverflow Observation :=
  if maxRequestCount < item.2 then .error ⟨item.1, item.2⟩ else .ok ⟨item.1, item.2⟩

/-- `_coalesce`. -/
def coalesce (observations : List Observation) : Except RequestCountOverflow (List Observation) :=
  (totals observations).items.mapM coalesceOne

/-- The sum of an address's counts. -/
def total (observations : List Observation) (ip : Address) : ℕ :=
  ((observations.filter fun entry => entry.ip = ip).map Observation.requestCount).sum

theorem total_concat (observations : List Observation) (entry : Observation) (ip : Address) :
    total (observations ++ [entry]) ip =
      total observations ip + if entry.ip = ip then entry.requestCount else 0 := by
  unfold total
  rw [List.filter_append, List.map_append, List.sum_append]
  by_cases h : entry.ip = ip
  · simp [h]
  · simp [h]

/-- An address that does not appear has the empty sum. -/
theorem total_eq_zero {observations : List Observation} {ip : Address}
    (h : ip ∉ observations.map Observation.ip) : total observations ip = 0 := by
  have hnil : observations.filter (fun entry => entry.ip = ip) = [] := by
    refine List.filter_eq_nil_iff.mpr fun entry hentry => ?_
    rw [decide_eq_true_eq]
    exact fun heq => h (heq ▸ List.mem_map_of_mem hentry)
  unfold total
  rw [hnil]
  rfl

theorem totals_concat (observations : List Observation) (entry : Observation) :
    totals (observations ++ [entry]) =
      (totals observations).set entry.ip
        (((totals observations).get? entry.ip).getD 0 + entry.requestCount) := by
  unfold totals
  rw [List.foldl_append]
  rfl

/-- The dictionary holds the sum of every address that appears. -/
theorem totals_get? (observations : List Observation) (ip : Address) :
    (totals observations).get? ip =
      if ip ∈ observations.map Observation.ip then some (total observations ip) else none := by
  induction observations using List.reverseRecOn with
  | nil => rfl
  | append_singleton observations entry ih =>
    rw [totals_concat, total_concat, Dict.get?_set, List.map_append]
    by_cases hip : entry.ip = ip
    · subst hip
      have hmem : entry.ip ∈ observations.map Observation.ip ++ [entry].map Observation.ip := by
        simp
      rw [if_pos rfl, if_pos hmem, if_pos rfl, ih]
      by_cases hold : entry.ip ∈ observations.map Observation.ip
      · rw [if_pos hold, Option.getD_some]
      · rw [if_neg hold, Option.getD_none, total_eq_zero hold]
    · have hiff : (ip ∈ observations.map Observation.ip ++ [entry].map Observation.ip) =
          (ip ∈ observations.map Observation.ip) := by
        simp [Ne.symm hip]
      rw [if_neg hip, ih]
      simp only [hiff, if_neg hip, add_zero]

/-- Where no sum overflows, the entries are the addresses with their sums. -/
theorem coalesce_eq {observations : List Observation}
    (h : ∀ ip, total observations ip ≤ maxRequestCount) :
    coalesce observations = .ok ((totals observations).items.map fun item => ⟨item.1, item.2⟩) := by
  have hitems : ∀ item ∈ (totals observations).items, coalesceOne item = .ok ⟨item.1, item.2⟩ := by
    intro item hitem
    have hget : (totals observations).get? item.1 = some item.2 := Dict.mem_items_iff.mp hitem
    rw [totals_get?] at hget
    split_ifs at hget
    have hle := h item.1
    have heq : total observations item.1 = item.2 := Option.some.inj hget
    exact if_neg (by omega)
  exact Codec.mapM_ok.mpr (List.forall₂_map_right_iff.mpr (List.forall₂_same.mpr hitems))

theorem exists_ok_of_mapM {ε α β : Type} {f : α → Except ε β} {l : List α} {l' : List β}
    (h : l.mapM f = .ok l') {a : α} (ha : a ∈ l) : ∃ b, f a = .ok b := by
  have hall := Codec.mapM_ok.mp h
  clear h
  induction hall with
  | nil => exact absurd ha List.not_mem_nil
  | cons hb _ ih =>
    obtain rfl | ha := List.mem_cons.mp ha
    · exact ⟨_, hb⟩
    · exact ih ha

/-- No sum of entries that coalesce overflows. -/
theorem total_le_of_coalesce {observations entries : List Observation}
    (h : coalesce observations = .ok entries) (ip : Address) :
    total observations ip ≤ maxRequestCount := by
  by_cases hip : ip ∈ observations.map Observation.ip
  · have hget : (totals observations).get? ip = some (total observations ip) := by
      rw [totals_get?, if_pos hip]
    obtain ⟨entry, hentry⟩ := exists_ok_of_mapM h (Dict.mem_items_iff.mpr hget)
    unfold coalesceOne at hentry
    split_ifs at hentry with hlt
    exact not_lt.mp hlt
  · rw [total_eq_zero hip]
    exact Nat.zero_le _

/-! ### Publishing -/

/-- What is handed to `producer.publish`. -/
structure Message where
  key : String
  value : Bytes
  messageId : Text

/-- `ObservationPublisher`, less its producer. The version was read by `json.loads`, and is one that
`json.dumps` writes. -/
structure ObservationPublisher (library : Codec.Library) where
  configVersion : ℤ
  configVersion_within : library.within configVersion = true

variable {library : Codec.Library}

namespace ObservationPublisher

variable (publisher : ObservationPublisher library)

/-- The payload of the message of one entry. -/
def payload (batch : Batch) (entry : Observation) : Codec.RequestObservation where
  agentId := Text.ofString batch.agentId
  sequence := .int batch.sequence
  windowStart := batch.windowStart
  windowSeconds := .int batch.windowSeconds
  observations := [⟨entry.ip, .int entry.requestCount⟩]

/-- The identity of a message can be hashed. -/
theorem identityText_wellFormed (batch : Batch) (subject : String) :
    ¬ (Codec.identityText (Text.ofString batch.agentId)
      (Codec.PyObject.format (.int batch.sequence)) (Text.ofString "RequestObservation")
      (some (Text.ofString subject))).HasSurrogate := by
  rw [Codec.identityText_hasSurrogate]
  rintro (h | h | h | ⟨t, ht, h⟩)
  · exact Text.ofString_not_hasSurrogate _ h
  · exact Text.ofString_not_hasSurrogate _ h
  · exact Text.ofString_not_hasSurrogate _ h
  · cases ht
    exact Text.ofString_not_hasSurrogate _ h

/-- The envelope of one entry, with the address as its subject. -/
def envelope (batch : Batch) (entry : Observation) (timestamp : Codec.DateTime) :
    Codec.EventEnvelope where
  agentId := .plain (Text.ofString batch.agentId)
  sequence := .int batch.sequence
  eventType := .plain (Text.ofString "RequestObservation")
  configVersion := .int publisher.configVersion
  timestamp := timestamp
  payload := .requestObservation (payload batch entry)
  schemaVersion := .int Codec.schemaVersion
  subject := some (.plain (Text.ofString (library.addressText entry.ip)))
  identified := identityText_wellFormed batch _

theorem envelope_plainlyIdentified (batch : Batch) (entry : Observation)
    (timestamp : Codec.DateTime) :
    (publisher.envelope batch entry timestamp).PlainlyIdentified batch.sequence := by
  refine ⟨rfl, rfl, rfl, rfl, fun subject hsubject => ?_⟩
  cases hsubject
  rfl

/-- `_publish_one`, as far as the call of the producer. -/
def publishOne (batch : Batch) (timestamp : Codec.DateTime) (entry : Observation) :
    Except Codec.CodecError Message := do
  let envelope := publisher.envelope batch entry timestamp
  let value ← Codec.encode library envelope
  -- `_ip_key`.
  return ⟨library.addressText entry.ip, value, envelope.eventId library⟩

/-- `publish`, as far as the calls of the producer: what each of them is handed, or what it raises
before. -/
def publish (batch : Batch) (timestamp : Codec.DateTime) :
    Except RequestCountOverflow (List (Except Codec.CodecError Message)) := do
  let coalesced ← coalesce batch.observations
  return (coalesced.filter fun entry => 0 < entry.requestCount).map
    (publisher.publishOne batch timestamp)

end ObservationPublisher

/-! ### The aggregator's side -/

variable (library) in
/-- `AggregatorWorker._decode`, on the codec's own terms: the event id, the payload and its one entry,
or none for a malformed message. -/
def decodeMessage (key : Option Bytes) (value : Bytes) :
    Option (Text × Codec.RequestObservation × Codec.Observation) :=
  match Codec.decode library value with
  | .error _ => none
  | .ok envelope =>
    match envelope.payload with
    | .requestObservation payload =>
      match payload.observations with
      | [entry] =>
        let ipText := library.addressText entry.ip
        if envelope.subject.map Codec.PyString.content ≠ some (Text.ofString ipText) then none
        else if key ≠ some (utf8 ipText) then none
        else some (envelope.eventId library, payload, entry)
      | _ => none
    | _ => none

/-! ### A message of an accepted batch -/

/-- What the schema, the parser of `window_start` and `_coalesce` admit. -/
structure Batch.Accepted (batch : Batch) : Prop where
  sequence : 0 ≤ batch.sequence ∧ batch.sequence ≤ 9223372036854775807
  windowSeconds : 1 ≤ batch.windowSeconds ∧ batch.windowSeconds ≤ 3600
  /-- The start of the window is within the years 1 to 9999 in UTC. -/
  windowStart : ∃ utc, batch.windowStart.IsUtc utc
  total : ∀ ip, total batch.observations ip ≤ maxRequestCount

theorem contains_of_le {n minimum maximum : ℤ} (h : minimum ≤ n ∧ n ≤ maximum) :
    (⟨minimum, some maximum⟩ : Codec.Range).Contains n := by
  refine ⟨by exact_mod_cast h.1, fun m hm => ?_⟩
  cases hm
  exact_mod_cast h.2

theorem within_of_small {n : ℤ} (h : n.natAbs ≤ 9223372036854775807) : library.within n = true := by
  have hsmall : n.natAbs < 10 ^ 19 := by omega
  exact library.within_of_lt (hsmall.trans (Nat.pow_lt_pow_right (by norm_num) (by norm_num)))

/-- The document of the message of one entry. -/
def payloadFields (library : Codec.Library) (batch : Batch) (entry : Observation)
    (utc : Codec.DateTime) : List (Text × Json) :=
  [Codec.field "agent_id" (.str (Text.ofString batch.agentId)),
    Codec.field "sequence" (.int batch.sequence),
    Codec.field "window_start" (Codec.text (library.isoformat utc)),
    Codec.field "window_seconds" (.int batch.windowSeconds),
    Codec.field "observations" (.arr [.obj [
      Codec.field "ip" (Codec.text (library.addressText entry.ip)),
      Codec.field "request_count" (.int entry.requestCount)]])]

theorem encodePayload_eq {batch : Batch} (h : batch.Accepted) {entry : Observation}
    (hentry : entry.requestCount ≤ maxRequestCount) {utc : Codec.DateTime}
    (hstart : batch.windowStart.IsUtc utc) :
    Codec.encodePayload library (Text.ofString "RequestObservation")
      (.requestObservation (ObservationPublisher.payload batch entry)) =
      .ok (payloadFields library batch entry utc) := by
  have hcount : (0 : ℤ) ≤ entry.requestCount ∧ (entry.requestCount : ℤ) ≤ 1000000000 := by
    unfold maxRequestCount at hentry
    omega
  have hbounded : Codec.boundedIntegerField (.int entry.requestCount) "request_count"
      Codec.observationRequestCount = .ok (entry.requestCount : ℤ) :=
    Codec.boundedIntegerField_ok.mpr ⟨rfl, contains_of_le hcount⟩
  have hsequence : Codec.boundedIntegerField (.int batch.sequence) "sequence"
      Codec.observationSequence = .ok batch.sequence :=
    Codec.boundedIntegerField_ok.mpr ⟨rfl, contains_of_le h.sequence⟩
  have hwindow : Codec.boundedIntegerField (.int batch.windowSeconds) "window_seconds"
      Codec.observationWindowSeconds = .ok batch.windowSeconds :=
    Codec.boundedIntegerField_ok.mpr ⟨rfl, contains_of_le h.windowSeconds⟩
  have htime : Codec.formatTimestamp library batch.windowStart "window_start" =
      .ok (library.isoformat utc) := (Codec.formatTimestamp_ok library).mpr ⟨utc, hstart, rfl⟩
  simp only [Codec.encodePayload, if_true, Codec.encodeRequestObservation,
    ObservationPublisher.payload, hsequence, htime, hwindow, List.mapM_cons, List.mapM_nil,
    Codec.encodeObservation, hbounded, Codec.ok_bind, Codec.pure_eq_ok]
  rfl

/-- The entry of an accepted batch encodes. -/
theorem exists_encode (publisher : ObservationPublisher library) {batch : Batch}
    (h : batch.Accepted) {entry : Observation} (hentry : entry.requestCount ≤ maxRequestCount)
    {timestamp : Codec.DateTime} (hutc : timestamp.offset = some 0) :
    ∃ data, Codec.encode library (publisher.envelope batch entry timestamp) = .ok data := by
  obtain ⟨utc, hstart⟩ := h.windowStart
  have hsequence : library.within batch.sequence = true :=
    within_of_small (by have := h.sequence; omega)
  have hwindow : library.within batch.windowSeconds = true :=
    within_of_small (by have := h.windowSeconds; omega)
  have hcount : library.within (entry.requestCount : ℤ) = true :=
    within_of_small (by unfold maxRequestCount at hentry; omega)
  have hdata : Json.dumpable library.within (.obj (payloadFields library batch entry utc)) = true := by
    simp [payloadFields, Codec.field, Codec.text, Json.dumpable_obj, Json.dumpable_arr,
      Json.dumpable_int, Json.dumpable_str, hsequence, hwindow, hcount]
  exact ⟨_, Codec.encode_ok.mpr ⟨List.mem_cons_self, rfl, batch.sequence, publisher.configVersion,
    timestamp, _, rfl, rfl, Codec.DateTime.isUtc_self hutc, encodePayload_eq h hentry hstart,
    Codec.dumps_ok.mpr ⟨Codec.dumpable_envelopeFields hsequence publisher.configVersion_within
      hdata, rfl⟩⟩⟩

/-- The aggregator takes the message of an entry apart as the entry. -/
theorem decodeMessage_encode (publisher : ObservationPublisher library) {batch : Batch}
    {entry : Observation} {timestamp : Codec.DateTime} {data : Bytes}
    (h : Codec.encode library (publisher.envelope batch entry timestamp) = .ok data) :
    ∃ payload, decodeMessage library (some (utf8 (library.addressText entry.ip))) data =
        some ((publisher.envelope batch entry timestamp).eventId library, payload,
          ⟨entry.ip, .int entry.requestCount⟩) ∧
      batch.windowStart.IsUtc payload.windowStart ∧
      payload.windowSeconds = .int batch.windowSeconds := by
  have hplain := publisher.envelope_plainlyIdentified batch entry timestamp
  have hstrings : (publisher.envelope batch entry timestamp).payload.StringsWellFormed :=
    Text.ofString_not_hasSurrogate _
  have hcount : (publisher.envelope batch entry timestamp).payload.observationCount ≤
      Codec.maxObservations := show 1 ≤ Codec.maxObservations by decide
  obtain ⟨e, hdecode, hnormal⟩ := (Codec.round_trip_of_encode rfl
    (hplain.stringsWellFormed hstrings) hcount h).mpr hplain.eventId_eq
  have hsubject : e.subject.map Codec.PyString.content =
      some (Text.ofString (library.addressText entry.ip)) := by
    rw [hnormal.subject]
    rfl
  have hpayload := hnormal.payload
  cases hkind : e.payload with
  | requestObservation payload =>
    rw [hkind] at hpayload
    have hpayload : (ObservationPublisher.payload batch entry).Normal payload := hpayload
    -- The one entry comes back as it was.
    have hentries : payload.observations = [⟨entry.ip, .int entry.requestCount⟩] := by
      obtain ⟨observation, rest, ⟨hip, n, hn, hcount⟩, hrest, heq⟩ :=
        List.forall₂_cons_left_iff.mp hpayload.observations
      rw [List.forall₂_nil_left_iff.mp hrest] at heq
      cases hn
      rw [heq]
      congr 1
      exact Codec.Observation.ext hip hcount
    have hwindow : payload.windowSeconds = .int batch.windowSeconds := by
      obtain ⟨n, hn, heq⟩ := hpayload.windowSeconds
      cases hn
      exact heq
    refine ⟨payload, ?_, hpayload.windowStart, hwindow⟩
    unfold decodeMessage
    rw [hdecode]
    dsimp only
    rw [hkind]
    dsimp only
    rw [hentries]
    dsimp only
    rw [if_neg (not_not.mpr hsubject), if_neg (not_not.mpr rfl), hnormal.eventId]
  | hotIp payload =>
    rw [hkind] at hpayload
    cases hpayload
  | prefixStatsChanged payload =>
    rw [hkind] at hpayload
    cases hpayload

/-! ### The messages of a batch -/

/-- The surviving entries of a batch. -/
def survivors (observations : List Observation) : List Observation :=
  ((totals observations).items.map fun item => (⟨item.1, item.2⟩ : Observation)).filter
    fun entry => 0 < entry.requestCount

theorem mem_survivors {observations : List Observation} {entry : Observation} :
    entry ∈ survivors observations ↔
      entry.requestCount = total observations entry.ip ∧ 0 < entry.requestCount := by
  unfold survivors
  rw [List.mem_filter, List.mem_map, decide_eq_true_eq]
  constructor
  · rintro ⟨⟨item, hitem, rfl⟩, hpos⟩
    have hget : (totals observations).get? item.1 = some item.2 := Dict.mem_items_iff.mp hitem
    rw [totals_get?] at hget
    split_ifs at hget
    exact ⟨(Option.some.inj hget).symm, hpos⟩
  · rintro ⟨hcount, hpos⟩
    refine ⟨⟨(entry.ip, entry.requestCount), Dict.mem_items_iff.mpr ?_, rfl⟩, hpos⟩
    -- A sum that is not zero is one of an address that appears.
    have hmem : entry.ip ∈ observations.map Observation.ip := by
      by_contra hnot
      have hzero := total_eq_zero hnot
      omega
    rw [totals_get?, if_pos hmem, hcount]

theorem survivors_nodup (observations : List Observation) :
    ((survivors observations).map Observation.ip).Nodup := by
  have hkeys := (totals observations).keys_nodup
  have hsub : ((survivors observations).map Observation.ip).Sublist (totals observations).keys := by
    have hmap : (totals observations).keys = ((totals observations).items.map
        fun item => (⟨item.1, item.2⟩ : Observation)).map Observation.ip := by
      rw [List.map_map]
      rfl
    rw [hmap]
    exact List.Sublist.map _ List.filter_sublist
  exact hkeys.sublist hsub

/-- The `message_id` of an address. -/
def messageIdOf (library : Codec.Library) (batch : Batch) (ip : Address) : Text :=
  library.digest (Codec.identityText (Text.ofString batch.agentId)
    (Codec.PyObject.format (.int batch.sequence)) (Text.ofString "RequestObservation")
    (some (Text.ofString (library.addressText ip))))

/-- The digest tells the texts apart that are hashed. -/
def DigestInjective (library : Codec.Library) : Prop :=
  ∀ t t' : Text, ¬ t.HasSurrogate → ¬ t'.HasSurrogate → library.digest t = library.digest t' → t = t'

theorem messageIdOf_injective (hdigest : DigestInjective library) (batch : Batch) :
    Function.Injective (messageIdOf library batch) := by
  intro ip ip' h
  have hformat : ∀ ip, _ := fun ip : Address =>
    ObservationPublisher.identityText_wellFormed batch (library.addressText ip)
  have htext := hdigest _ _ (hformat ip) (hformat ip') (Codec.Text.ofString_inj.mp h)
  have hsubject : Text.ofString (library.addressText ip) =
      Text.ofString (library.addressText ip') := by
    unfold Codec.identityText at htext
    exact List.append_cancel_left htext
  have hparse := library.parseAddress_text ip
  rw [hsubject, library.parseAddress_text ip'] at hparse
  exact (Option.some.inj hparse).symm

/-- The `message_id` does not depend on when the message is sent. -/
theorem eventId_envelope (publisher : ObservationPublisher library) (batch : Batch)
    (entry : Observation) (timestamp : Codec.DateTime) :
    (publisher.envelope batch entry timestamp).eventId library =
      messageIdOf library batch entry.ip := rfl

theorem publishOne_of_encode (publisher : ObservationPublisher library) {batch : Batch}
    {entry : Observation} {timestamp : Codec.DateTime} {data : Bytes}
    (h : Codec.encode library (publisher.envelope batch entry timestamp) = .ok data) :
    publisher.publishOne batch timestamp entry =
      .ok ⟨library.addressText entry.ip, data, messageIdOf library batch entry.ip⟩ := by
  unfold ObservationPublisher.publishOne
  dsimp only
  rw [h]
  rfl

/-- A message of the batch that arrives as the entry of its address. -/
structure Arrives (library : Codec.Library) (batch : Batch) (ip : Address) (message : Message) :
    Prop where
  messageId : message.messageId = messageIdOf library batch ip
  decoded : ∃ payload, decodeMessage library (some (utf8 message.key)) message.value =
      some (message.messageId, payload, ⟨ip, .int (total batch.observations ip)⟩) ∧
    batch.windowStart.IsUtc payload.windowStart ∧
    payload.windowSeconds = .int batch.windowSeconds

/-- The messages of the entries, one for each. -/
theorem exists_messages (publisher : ObservationPublisher library) {batch : Batch}
    (h : batch.Accepted) {timestamp : Codec.DateTime} (hutc : timestamp.offset = some 0)
    (entries : List Observation)
    (hentries : ∀ entry ∈ entries, entry.requestCount = total batch.observations entry.ip) :
    ∃ messages : List (Address × Message), messages.map Prod.fst = entries.map Observation.ip ∧
      entries.map (publisher.publishOne batch timestamp) = messages.map (fun m => .ok m.2) ∧
      ∀ m ∈ messages, Arrives library batch m.1 m.2 := by
  induction entries with
  | nil => exact ⟨[], rfl, rfl, fun m hm => absurd hm List.not_mem_nil⟩
  | cons entry rest ih =>
    obtain ⟨messages, hmap, hsent, harrives⟩ := ih fun other hother => hentries other
      (List.mem_cons_of_mem _ hother)
    have hcount := hentries entry List.mem_cons_self
    have hle : entry.requestCount ≤ maxRequestCount := hcount ▸ h.total entry.ip
    obtain ⟨data, hdata⟩ := exists_encode publisher h hle hutc
    obtain ⟨payload, hdecode, hwindow⟩ := decodeMessage_encode publisher hdata
    rw [eventId_envelope, hcount] at hdecode
    refine ⟨(entry.ip, ⟨library.addressText entry.ip, data, messageIdOf library batch entry.ip⟩) ::
      messages, ?_, ?_, List.forall_mem_cons.mpr ⟨⟨rfl, payload, hdecode, hwindow⟩, harrives⟩⟩
    · rw [List.map_cons, List.map_cons, hmap]
    · rw [List.map_cons, List.map_cons, hsent, publishOne_of_encode publisher hdata]

/-- The messages that an accepted batch is sent as: one for each address whose counts do not sum to
zero and no other, under identities that are distinct and the same at every attempt, and each of them
arrives at the aggregator as its address with the sum. -/
theorem fan_out (library : Codec.Library) (hdigest : DigestInjective library)
    (publisher : ObservationPublisher library) (batch : Batch) (h : batch.Accepted) :
    Function.Injective (messageIdOf library batch) ∧
      ∀ timestamp : Codec.DateTime, timestamp.offset = some 0 →
        ∃ messages : List (Address × Message),
          publisher.publish batch timestamp = .ok (messages.map fun m => .ok m.2) ∧
          (messages.map Prod.fst).Nodup ∧
          (∀ ip, ip ∈ messages.map Prod.fst ↔ total batch.observations ip ≠ 0) ∧
          ∀ m ∈ messages, Arrives library batch m.1 m.2 := by
  refine ⟨messageIdOf_injective hdigest batch, fun timestamp hutc => ?_⟩
  have hsums : ∀ entry ∈ survivors batch.observations,
      entry.requestCount = total batch.observations entry.ip :=
    fun entry hentry => (mem_survivors.mp hentry).1
  obtain ⟨messages, hmap, hsent, harrives⟩ := exists_messages publisher h hutc _ hsums
  refine ⟨messages, ?_, hmap ▸ survivors_nodup batch.observations, fun ip => ?_, harrives⟩
  · unfold ObservationPublisher.publish
    rw [coalesce_eq h.total]
    exact congrArg Except.ok hsent
  · rw [hmap, List.mem_map]
    constructor
    · rintro ⟨entry, hentry, rfl⟩
      have hpos := (mem_survivors.mp hentry).2
      rw [hsums entry hentry] at hpos
      omega
    · intro hne
      exact ⟨⟨ip, total batch.observations ip⟩,
        mem_survivors.mpr ⟨rfl, Nat.pos_of_ne_zero hne⟩, rfl⟩

/-- A batch that names one address twice and another with nothing. -/
def sampleBatch : Batch where
  agentId := "edge-17"
  sequence := 123456
  windowStart := ⟨62135596800000000, some 0, by decide⟩
  windowSeconds := 60
  observations := [⟨⟨.ipv4, 1, by decide⟩, 100⟩, ⟨⟨.ipv4, 2, by decide⟩, 0⟩,
    ⟨⟨.ipv4, 1, by decide⟩, 83⟩]

theorem sampleBatch_accepted : sampleBatch.Accepted := by
  refine ⟨by decide, by decide, ⟨sampleBatch.windowStart, rfl, rfl⟩, fun ip => ?_⟩
  have hle : total sampleBatch.observations ip ≤
      (sampleBatch.observations.map Observation.requestCount).sum := by
    unfold total
    exact List.Sublist.sum_le_sum (List.Sublist.map _ List.filter_sublist) fun _ _ => Nat.zero_le _
  exact hle.trans (by decide)

/-- The publisher of version 1. -/
def samplePublisher : ObservationPublisher Codec.interpreter where
  configVersion := 1
  configVersion_within :=
    Codec.interpreter.within_of_lt (Nat.one_lt_pow (by norm_num) (by norm_num))

/-- The batch is sent as messages that the aggregator accepts. -/
theorem fan_out_sample : ∃ messages : List (Address × Message),
    samplePublisher.publish sampleBatch ⟨62135596800000000, some 0, by decide⟩ =
      .ok (messages.map fun m => .ok m.2) ∧
    ∀ m ∈ messages, Arrives Codec.interpreter sampleBatch m.1 m.2 := by
  obtain ⟨-, hmessages⟩ := fan_out Codec.interpreter (fun _ _ => Codec.digest_inj) samplePublisher
    sampleBatch sampleBatch_accepted
  obtain ⟨messages, hpublish, -, -, harrives⟩ := hmessages ⟨62135596800000000, some 0, by decide⟩ rfl
  exact ⟨messages, hpublish, harrives⟩

end Hammertime.Ingest
