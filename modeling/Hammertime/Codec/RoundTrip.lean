import Mathlib.Data.Option.Defs
import Hammertime.Codec.Interpreter

/-!
# What encode writes and decode reads back

`Normal` is the normalisation that a trip over the wire amounts to: timestamps in UTC, plain integers
and plain strings, a ratio as a float, and the canonical copy of an attribute document.
-/

namespace Hammertime.Codec

open Lib Attributes

/-! ### Normalisation -/

/-- An entry of `observations` and what it comes back as. -/
structure Observation.Normal (observation observation' : Observation) : Prop where
  ip : observation'.ip = observation.ip
  requestCount : observation.requestCount.IsInteger observation'.requestCount

/-- A `RequestObservation` and what it comes back as. -/
structure RequestObservation.Normal (payload payload' : RequestObservation) : Prop where
  agentId : payload'.agentId = payload.agentId
  sequence : payload.sequence.IsInteger payload'.sequence
  windowStart : payload.windowStart.IsUtc payload'.windowStart
  windowSeconds : payload.windowSeconds.IsInteger payload'.windowSeconds
  observations : List.Forall₂ Observation.Normal payload.observations payload'.observations

/-- A hot-ip event and what it comes back as. -/
structure HotIpEvent.Normal (library : Library) (payload payload' : HotIpEvent) : Prop where
  type : payload'.type = payload.type
  ip : payload'.ip = payload.ip
  timestamp : payload.timestamp.IsUtc payload'.timestamp
  sequence : payload.sequence.IsInteger payload'.sequence
  windowCount : payload.windowCount.IsInteger payload'.windowCount
  configVersion : payload.configVersion.IsInteger payload'.configVersion
  attributes : Option.Rel (IsCanonical library) payload.attributes payload'.attributes

/-- A `PrefixStatsChanged` and what it comes back as. -/
structure PrefixStatsChanged.Normal (payload payload' : PrefixStatsChanged) : Prop where
  prefixText : payload'.prefixText = payload.prefixText
  hotCount : payload.hotCount.IsInteger payload'.hotCount
  capacity : payload.capacity.IsInteger payload'.capacity
  sequence : payload.sequence.IsInteger payload'.sequence
  timestamp : payload.timestamp.IsUtc payload'.timestamp
  hotRatio : Option.Rel Ratio.IsFloat payload.hotRatio payload'.hotRatio

/-- A payload and what it comes back as, of the same class. -/
def EventPayload.Normal (library : Library) : EventPayload → EventPayload → Prop
  | .requestObservation payload, .requestObservation payload' => payload.Normal payload'
  | .hotIp payload, .hotIp payload' => payload.Normal library payload'
  | .prefixStatsChanged payload, .prefixStatsChanged payload' => payload.Normal payload'
  | _, _ => False

/-- An envelope and what it comes back as. -/
structure EventEnvelope.Normal (library : Library) (envelope envelope' : EventEnvelope) : Prop where
  agentId : envelope'.agentId = .plain envelope.agentId.content
  sequence : envelope.sequence.IsInteger envelope'.sequence
  eventType : envelope'.eventType = .plain envelope.eventType.content
  configVersion : envelope.configVersion.IsInteger envelope'.configVersion
  timestamp : envelope.timestamp.IsUtc envelope'.timestamp
  payload : envelope.payload.Normal library envelope'.payload
  schemaVersion : envelope.schemaVersion.IsInteger envelope'.schemaVersion
  subject : envelope'.subject = envelope.subject.map fun subject => .plain subject.content
  eventId : envelope'.eventId library = envelope.eventId library

variable {library : Library}

/-! ### Payloads -/

/-- A hot-ip event is decoded as the class that the event type names. -/
def HotIpEvent.withType (payload : HotIpEvent) (eventType : Text) : HotIpEvent :=
  { payload with type := if eventType = Text.ofString "HotIpAdded" then .added else .removed }

theorem encodeAttributes_ok {attributes : Option Document} {written : List (Text × Json)}
    (h : encodeAttributes library attributes = .ok written) :
    attributes = none ∧ written = [] ∨ ∃ document fields, attributes = some document ∧
      Unfolds document.heap (.obj fields) document.root ∧ Admissible library.repr fields ∧
      written = [field "attributes" (.obj fields)] := by
  cases attributes with
  | none =>
    cases h
    exact .inl ⟨rfl, rfl⟩
  | some document =>
    obtain ⟨fields, hfields, h⟩ := except_bind_ok.mp h
    cases h
    obtain ⟨hun, hadm⟩ := (canonicalAttributes_ok library).mp hfields
    exact .inr ⟨document, fields, rfl, hun, hadm, rfl⟩

/-- The fields of a hot-ip event that are always there. -/
def hotIpFields (library : Library) (eventType : Text) (ip : Address) (timestamp : DateTime)
    (sequence windowCount configVersion : ℤ) (rest : List (Text × Json)) : List (Text × Json) :=
  [field "type" (.str eventType), field "ip" (text (library.addressText ip)),
    field "family" (text ip.family.text), field "timestamp" (text (library.isoformat timestamp)),
    field "sequence" (.int sequence), field "window_count" (.int windowCount),
    field "config_version" (.int configVersion)] ++ rest

/-- What is written of a hot-ip event. -/
theorem encodeHotIpEvent_ok {eventType : Text} {payload : HotIpEvent} {data : List (Text × Json)}
    (h : encodeHotIpEvent library eventType payload = .ok data) :
    ∃ utc sequence windowCount configVersion written, payload.timestamp.IsUtc utc ∧
      boundedIntegerField payload.sequence "sequence" hotIpSequence = .ok sequence ∧
      boundedIntegerField payload.windowCount "window_count" hotIpWindowCount = .ok windowCount ∧
      boundedIntegerField payload.configVersion "config_version" hotIpConfigVersion =
        .ok configVersion ∧
      encodeAttributes library payload.attributes = .ok written ∧
      data = hotIpFields library eventType payload.ip utc sequence windowCount configVersion
        written := by
  simp only [encodeHotIpEvent, except_bind_ok, pure_eq_ok, Except.ok.injEq] at h
  obtain ⟨timestamp, htimestamp, sequence, hsequence, windowCount, hwindowCount, configVersion,
    hconfigVersion, written, hwritten, hdata⟩ := h
  obtain ⟨utc, hutc, rfl⟩ := (formatTimestamp_ok library).mp htimestamp
  exact ⟨utc, sequence, windowCount, configVersion, written, hutc, hsequence, hwindowCount,
    hconfigVersion, hwritten, hdata.symm⟩

/-- A hot-ip event comes back with the type that its event type names. -/
theorem decodeHotIpEvent_encode {eventType : Text} {payload : HotIpEvent}
    {data : List (Text × Json)} (h : encodeHotIpEvent library eventType payload = .ok data) :
    DistinctKeys (.obj data) ∧
    ∃ payload', decodeHotIpEvent library eventType (rejoinFields data) = .ok payload' ∧
      (payload.withType eventType).Normal library payload' := by
  obtain ⟨utc, sequence, windowCount, configVersion, attributes, hutc, hsequence, hwindowCount,
    hconfigVersion, hattributes, rfl⟩ := encodeHotIpEvent_ok h
  have hs := (boundedIntegerField_ok.mp hsequence).1
  have hw := (boundedIntegerField_ok.mp hwindowCount).1
  have hc := (boundedIntegerField_ok.mp hconfigVersion).1
  -- The other fields come back whatever the attributes are.
  have hfields : ∀ document, decodeAttributes library (rejoinFields (hotIpFields library eventType
      payload.ip utc sequence windowCount configVersion attributes)) = .ok document →
      decodeHotIpEvent library eventType (rejoinFields (hotIpFields library eventType payload.ip utc
        sequence windowCount configVersion attributes)) =
        .ok ⟨(payload.withType eventType).type, payload.ip, utc, .int sequence, .int windowCount,
          .int configVersion, document⟩ := by
    intro document hdocument
    simp only [hotIpFields, List.cons_append, List.nil_append, rejoinFields_cons, rejoin_text,
      Json.rejoin_int] at hdocument ⊢
    simp only [decodeHotIpEvent, require_field, String.reduceEq, if_false, if_true, ok_bind,
      parseIp_text, parseTimestamp_text library hutc, boundedJsonInteger_int hsequence,
      boundedJsonInteger_int hwindowCount, boundedJsonInteger_int hconfigVersion, pure_eq_ok,
      malformed, hdocument]
    rfl
  rcases encodeAttributes_ok hattributes with ⟨hnone, rfl⟩ | ⟨document, fields, hsome, hun, hadm, rfl⟩
  · refine ⟨distinctKeys_fields [("type", _), ("ip", _), ("family", _), ("timestamp", _),
      ("sequence", _), ("window_count", _), ("config_version", _)] (by simp) (by simp), ?_⟩
    have hdecode : decodeAttributes library (rejoinFields (hotIpFields library eventType payload.ip
        utc sequence windowCount configVersion [])) = .ok none := by
      simp [hotIpFields, decodeAttributes, lookup_field, lookup_nil]
    refine ⟨_, hfields none hdecode, rfl, rfl, hutc, ⟨_, hs, rfl⟩, ⟨_, hw, rfl⟩, ⟨_, hc, rfl⟩, ?_⟩
    show Option.Rel _ payload.attributes none
    rw [hnone]
    exact .none
  · refine ⟨distinctKeys_fields [("type", _), ("ip", _), ("family", _), ("timestamp", _),
      ("sequence", _), ("window_count", _), ("config_version", _), ("attributes", .obj fields)]
      (by simp) (by simpa using distinctKeys_of_wellFormed hadm.values), ?_⟩
    have hdecode : decodeAttributes library (rejoinFields (hotIpFields library eventType payload.ip
        utc sequence windowCount configVersion [field "attributes" (.obj fields)])) =
          .ok (some (.ofJson (.obj fields))) := by
      simp [hotIpFields, decodeAttributes, lookup_field, rejoin_of_admissible library hadm,
        canonicalAttributes_ofJson library hadm, ok_bind, pure_eq_ok]
    refine ⟨_, hfields _ hdecode, rfl, rfl, hutc, ⟨_, hs, rfl⟩, ⟨_, hw, rfl⟩, ⟨_, hc, rfl⟩, ?_⟩
    show Option.Rel _ payload.attributes (some _)
    rw [hsome]
    exact .some ⟨fields, hun, hadm, rfl⟩

theorem encodeHotRatio_ok {hotRatio : Option Ratio} {written : List (Text × Json)}
    (h : encodeHotRatio hotRatio = .ok written) :
    hotRatio = none ∧ written = [] ∨ ∃ ratio f, hotRatio = some ratio ∧
      boundedRatio ratio "hot_ratio" prefixStatsHotRatio = .ok f ∧
      written = [field "hot_ratio" (.float f)] := by
  cases hotRatio with
  | none =>
    cases h
    exact .inl ⟨rfl, rfl⟩
  | some ratio =>
    obtain ⟨f, hf, h⟩ := except_bind_ok.mp h
    cases h
    exact .inr ⟨ratio, f, rfl, hf, rfl⟩

/-- The same payload with its prefix text joined. -/
def PrefixStatsChanged.rejoin (payload : PrefixStatsChanged) : PrefixStatsChanged :=
  { payload with prefixText := payload.prefixText.rejoin }

/-- The fields of a `PrefixStatsChanged` that are always there. -/
def prefixStatsFields (library : Library) (prefixText capacity : Text) (hotCount sequence : ℤ)
    (timestamp : DateTime) (rest : List (Text × Json)) : List (Text × Json) :=
  [field "prefix" (.str prefixText), field "hot_count" (.int hotCount),
    field "capacity" (.str capacity), field "sequence" (.int sequence),
    field "timestamp" (text (library.isoformat timestamp))] ++ rest

theorem decodePrefixStatsChanged_encode {payload : PrefixStatsChanged} {data : List (Text × Json)}
    (h : encodePrefixStatsChanged library payload = .ok data) :
    DistinctKeys (.obj data) ∧
    ∃ payload', decodePrefixStatsChanged library (rejoinFields data) = .ok payload' ∧
      payload.rejoin.Normal payload' := by
  simp only [encodePrefixStatsChanged, except_bind_ok, pure_eq_ok, Except.ok.injEq] at h
  obtain ⟨hotCount, hhotCount, capacity, hcapacity, sequence, hsequence, timestamp, htimestamp,
    hotRatio, hhotRatio, hdata⟩ := h
  obtain ⟨utc, hutc, rfl⟩ := (formatTimestamp_ok library).mp htimestamp
  obtain ⟨n, hn, hlimit, rfl⟩ := encodeCapacity_ok.mp hcapacity
  have hdata : prefixStatsFields library payload.prefixText (Text.ofString n.repr) hotCount sequence
      utc hotRatio = data := hdata
  rw [← hdata]
  have hh := (boundedIntegerField_ok.mp hhotCount).1
  have hs := (boundedIntegerField_ok.mp hsequence).1
  -- The other fields come back whatever the ratio is.
  have hfields : ∀ ratio, decodeHotRatio (rejoinFields (prefixStatsFields library payload.prefixText
      (Text.ofString n.repr) hotCount sequence utc hotRatio)) = .ok ratio →
      decodePrefixStatsChanged library (rejoinFields (prefixStatsFields library payload.prefixText
        (Text.ofString n.repr) hotCount sequence utc hotRatio)) =
        .ok ⟨payload.prefixText.rejoin, .int hotCount, .int n, .int sequence, utc, ratio⟩ := by
    intro ratio hratio
    simp only [prefixStatsFields, List.cons_append, List.nil_append, rejoinFields_cons, rejoin_text,
      Json.rejoin_int, Json.rejoin_str, Text.rejoin_ofString] at hratio ⊢
    simp only [decodePrefixStatsChanged, require_field, String.reduceEq, if_false, if_true, ok_bind,
      boundedJsonInteger_int hhotCount, decimalString_repr hlimit, boundedJsonInteger_int hsequence,
      parseTimestamp_text library hutc, hratio, library.str_str, pure_eq_ok, malformed]
  rcases encodeHotRatio_ok hhotRatio with ⟨hnone, rfl⟩ | ⟨ratio, f, hsome, hf, rfl⟩
  · refine ⟨distinctKeys_fields [("prefix", _), ("hot_count", _), ("capacity", _), ("sequence", _),
      ("timestamp", _)] (by simp) (by simp), ?_⟩
    have hdecode : decodeHotRatio (rejoinFields (prefixStatsFields library payload.prefixText
        (Text.ofString n.repr) hotCount sequence utc [])) = .ok none := by
      simp [prefixStatsFields, decodeHotRatio, lookup_field, lookup_nil]
    refine ⟨_, hfields none hdecode, rfl, ⟨_, hh, rfl⟩, ⟨_, hn, rfl⟩, ⟨_, hs, rfl⟩, hutc, ?_⟩
    show Option.Rel _ payload.hotRatio none
    rw [hnone]
    exact .none
  · refine ⟨distinctKeys_fields [("prefix", _), ("hot_count", _), ("capacity", _), ("sequence", _),
      ("timestamp", _), ("hot_ratio", _)] (by simp) (by simp), ?_⟩
    obtain ⟨hread, hfloat⟩ := boundedRatio_float "hot_ratio" hf
    have hdecode : decodeHotRatio (rejoinFields (prefixStatsFields library payload.prefixText
        (Text.ofString n.repr) hotCount sequence utc [field "hot_ratio" (.float f)])) =
          .ok (some (.float f)) := by
      simp [prefixStatsFields, decodeHotRatio, lookup_field, ratioOfJson, hread, ok_bind, pure_eq_ok]
    refine ⟨_, hfields _ hdecode, rfl, ⟨_, hh, rfl⟩, ⟨_, hn, rfl⟩, ⟨_, hs, rfl⟩, hutc, ?_⟩
    show Option.Rel _ payload.hotRatio (some _)
    rw [hsome]
    exact .some hfloat

/-- One entry of `observations` comes back. -/
theorem decodeObservation_encode {observation : Observation} {item : Json}
    (h : encodeObservation library observation = .ok item) :
    DistinctKeys item ∧ ∃ observation', decodeObservation library item.rejoin = .ok observation' ∧
      observation.Normal observation' := by
  simp only [encodeObservation, except_bind_ok, pure_eq_ok, Except.ok.injEq] at h
  obtain ⟨requestCount, hrequestCount, rfl⟩ := h
  refine ⟨distinctKeys_fields [("ip", _), ("request_count", _)] (by simp) (by simp), ?_⟩
  refine ⟨⟨observation.ip, .int requestCount⟩, ?_, rfl,
    ⟨_, (boundedIntegerField_ok.mp hrequestCount).1, rfl⟩⟩
  rw [Json.rejoin_obj]
  show decodeObservation library (.obj (rejoinFields _)) = _
  simp only [rejoinFields_cons, rejoin_text, Json.rejoin_int, rejoinFields_nil, decodeObservation,
    require_field, String.reduceEq, if_false, if_true, ok_bind, parseIp_text,
    boundedJsonInteger_int hrequestCount, pure_eq_ok, malformed]

/-- The entries of `observations` come back. -/
theorem decodeObservations_encode {observations : List Observation} {items : List Json}
    (h : observations.mapM (encodeObservation library) = .ok items) :
    (∀ item ∈ items, DistinctKeys item) ∧ items.length = observations.length ∧
    ∃ observations', (items.map Json.rejoin).mapM (decodeObservation library) = .ok observations' ∧
      List.Forall₂ Observation.Normal observations observations' := by
  rw [mapM_ok] at h
  induction h with
  | nil => exact ⟨fun item hitem => absurd hitem List.not_mem_nil, rfl, [], rfl, .nil⟩
  | cons hitem _ ih =>
    obtain ⟨hkeys, hlength, observations', hrest, hnormal⟩ := ih
    obtain ⟨hkey, observation', hdecode, hn⟩ := decodeObservation_encode hitem
    refine ⟨List.forall_mem_cons.mpr ⟨hkey, hkeys⟩, by simp [hlength],
      observation' :: observations', ?_, .cons hn hnormal⟩
    rw [mapM_ok] at hrest ⊢
    exact .cons hdecode hrest

/-- The same payload with its agent joined. -/
def RequestObservation.rejoin (payload : RequestObservation) : RequestObservation :=
  { payload with agentId := payload.agentId.rejoin }

/-- A `RequestObservation` comes back when it has at most the maximum of entries, and is refused
otherwise. -/
theorem decodeRequestObservation_encode {payload : RequestObservation} {data : List (Text × Json)}
    (h : encodeRequestObservation library payload = .ok data) :
    DistinctKeys (.obj data) ∧
    if payload.observations.length ≤ maxObservations then
      ∃ payload', decodeRequestObservation library (rejoinFields data) = .ok payload' ∧
        payload.rejoin.Normal payload'
    else ∃ e, decodeRequestObservation library (rejoinFields data) = .error e := by
  simp only [encodeRequestObservation, except_bind_ok, pure_eq_ok, Except.ok.injEq] at h
  obtain ⟨sequence, hsequence, windowStart, hwindowStart, windowSeconds, hwindowSeconds, items,
    hitems, rfl⟩ := h
  obtain ⟨utc, hutc, rfl⟩ := (formatTimestamp_ok library).mp hwindowStart
  obtain ⟨hkeys, hlength, observations', hobservations, hnormal⟩ := decodeObservations_encode hitems
  refine ⟨distinctKeys_fields [("agent_id", _), ("sequence", _), ("window_start", _),
    ("window_seconds", _), ("observations", .arr items)] (by simp)
    (by simpa using distinctKeys_arr.mpr hkeys), ?_⟩
  simp only [rejoinFields_cons, rejoinFields_nil, rejoin_text, Json.rejoin_int, Json.rejoin_str,
    Json.rejoin_arr, decodeRequestObservation, require_field, String.reduceEq, if_false, if_true,
    ok_bind, List.length_map, hlength]
  split_ifs with hle hgt hgt
  · exact absurd hgt (not_lt.mpr hle)
  · refine ⟨⟨payload.agentId.rejoin, .int sequence, utc, .int windowSeconds, observations'⟩, ?_, rfl,
      ⟨_, (boundedIntegerField_ok.mp hsequence).1, rfl⟩, hutc,
      ⟨_, (boundedIntegerField_ok.mp hwindowSeconds).1, rfl⟩, hnormal⟩
    simp only [hobservations, boundedJsonInteger_int hsequence, boundedJsonInteger_int hwindowSeconds,
      parseTimestamp_text library hutc, library.str_str, ok_bind, pure_eq_ok, malformed]
  · exact ⟨_, rfl⟩
  · exact absurd (not_le.mp hle) hgt

/-- The number of entries of a payload's `observations`. -/
def EventPayload.observationCount : EventPayload → ℕ
  | .requestObservation payload => payload.observations.length
  | _ => 0

/-- The same payload with its strings joined. -/
def EventPayload.rejoin : EventPayload → EventPayload
  | .requestObservation payload => .requestObservation payload.rejoin
  | .hotIp payload => .hotIp payload
  | .prefixStatsChanged payload => .prefixStatsChanged payload.rejoin

theorem EventPayload.Normal.className {payload payload' : EventPayload}
    (h : payload.Normal library payload') : payload'.className = payload.className := by
  cases payload with
  | requestObservation p =>
    cases payload' with
    | requestObservation p' => rfl
    | _ => cases h
  | hotIp p =>
    cases payload' with
    | hotIp p' => exact congrArg HotIpEventType.text h.type
    | _ => cases h
  | prefixStatsChanged p =>
    cases payload' with
    | prefixStatsChanged p' => rfl
    | _ => cases h

theorem EventPayload.className_rejoin (payload : EventPayload) :
    payload.rejoin.className = payload.className := by
  cases payload <;> rfl

theorem removed_ne_added : Text.ofString "HotIpRemoved" ≠ Text.ofString "HotIpAdded" := by
  rw [Ne, Text.ofString_inj]
  decide

/-- The class that a hot-ip event type names. -/
theorem withType_text {eventType : Text} (h : eventType ∈ hotIpEventTypes) (payload : HotIpEvent) :
    Text.ofString (payload.withType eventType).type.text = eventType := by
  simp only [hotIpEventTypes, List.mem_cons, List.not_mem_nil, or_false] at h
  rcases h with rfl | rfl
  · rw [HotIpEvent.withType, if_pos rfl]
    rfl
  · rw [HotIpEvent.withType, if_neg removed_ne_added]
    rfl

theorem withType_eq_self {eventType : Text} {payload : HotIpEvent}
    (h : eventType = Text.ofString payload.type.text) : payload.withType eventType = payload := by
  have htype : (payload.withType eventType).type = payload.type := by
    show (if eventType = Text.ofString "HotIpAdded" then HotIpEventType.added else .removed) = _
    rw [h]
    cases payload.type with
    | added => exact if_pos rfl
    | removed => exact if_neg removed_ne_added
  exact HotIpEvent.ext htype rfl rfl rfl rfl rfl rfl

/-- A payload that was encoded comes back as the same payload, when the event type names its class
and it has at most the maximum of entries; otherwise it is refused or comes back as another class. -/
theorem decodePayload_encode {eventType : Text} {payload : EventPayload} {data : List (Text × Json)}
    (h : encodePayload library eventType payload = .ok data) :
    DistinctKeys (.obj data) ∧
    (eventType = Text.ofString payload.className →
      payload.observationCount ≤ maxObservations →
      ∃ payload', decodePayload library eventType (rejoinFields data) = .ok payload' ∧
        payload.rejoin.Normal library payload') ∧
    ∀ payload', decodePayload library eventType (rejoinFields data) = .ok payload' →
      Text.ofString payload'.className = eventType ∧
        payload.observationCount ≤ maxObservations := by
  have hne : Text.ofString "PrefixStatsChanged" ≠ Text.ofString "RequestObservation" := by
    rw [Ne, Text.ofString_inj]
    decide
  cases payload with
  | requestObservation payload =>
    -- Only this class counts its entries, and is refused with too many.
    simp only [encodePayload] at h
    split_ifs at h with hevent
    subst hevent
    obtain ⟨hkeys, hdecode⟩ := decodeRequestObservation_encode h
    have heq : decodePayload library (Text.ofString "RequestObservation") (rejoinFields data) =
        EventPayload.requestObservation <$> decodeRequestObservation library (rejoinFields data) :=
      if_pos rfl
    refine ⟨hkeys, fun _ hcount => ?_, fun payload' hpayload' => ?_⟩
    · have hcount : payload.observations.length ≤ maxObservations := hcount
      rw [if_pos hcount] at hdecode
      obtain ⟨payload', hdecode, hnormal⟩ := hdecode
      rw [heq, hdecode]
      exact ⟨_, rfl, hnormal⟩
    · rw [heq] at hpayload'
      obtain ⟨p, hp, rfl⟩ := Program.except_map_ok.mp hpayload'
      refine ⟨rfl, ?_⟩
      by_contra hcount
      have hcount : ¬ payload.observations.length ≤ maxObservations := hcount
      rw [if_neg hcount] at hdecode
      obtain ⟨e, he⟩ := hdecode
      rw [he] at hp
      cases hp
  | hotIp payload =>
    -- Both types of the class are decoded the same way; the type says which event it is.
    simp only [encodePayload] at h
    split_ifs at h with hevent
    obtain ⟨hkeys, payload', hdecode, hnormal⟩ := decodeHotIpEvent_encode h
    have hne' : eventType ≠ Text.ofString "RequestObservation" := by
      rintro rfl
      simp only [hotIpEventTypes, List.mem_cons, List.not_mem_nil, or_false, Text.ofString_inj] at hevent
      revert hevent
      decide
    have heq : decodePayload library eventType (rejoinFields data) =
        EventPayload.hotIp <$> decodeHotIpEvent library eventType (rejoinFields data) := by
      rw [decodePayload, if_neg hne', if_pos hevent]
    rw [heq, hdecode]
    refine ⟨hkeys, fun hclass _ => ⟨_, rfl, ?_⟩, fun payload'' hpayload'' => ?_⟩
    · rw [withType_eq_self hclass] at hnormal
      exact hnormal
    · cases hpayload''
      refine ⟨?_, Nat.zero_le _⟩
      show Text.ofString payload'.type.text = _
      rw [hnormal.type]
      exact withType_text hevent payload
  | prefixStatsChanged payload =>
    simp only [encodePayload] at h
    split_ifs at h with hevent
    subst hevent
    obtain ⟨hkeys, payload', hdecode, hnormal⟩ := decodePrefixStatsChanged_encode h
    have hnot : Text.ofString "PrefixStatsChanged" ∉ hotIpEventTypes := by
      simp only [hotIpEventTypes, List.mem_cons, List.not_mem_nil, or_false, Text.ofString_inj]
      decide
    have heq : decodePayload library (Text.ofString "PrefixStatsChanged") (rejoinFields data) =
        EventPayload.prefixStatsChanged <$> decodePrefixStatsChanged library (rejoinFields data) := by
      rw [decodePayload, if_neg hne, if_neg hnot, if_pos rfl]
    rw [heq, hdecode]
    refine ⟨hkeys, fun _ _ => ⟨_, rfl, hnormal⟩, fun payload'' hpayload'' => ?_⟩
    cases hpayload''
    exact ⟨rfl, Nat.zero_le _⟩

/-! ### Envelopes -/

/-- The document that `encode` writes. -/
def envelopeFields (library : Library) (envelope : EventEnvelope) (sequence configVersion : ℤ)
    (timestamp : DateTime) (payload : List (Text × Json)) : List (Text × Json) :=
  [field "schema_version" (.int schemaVersion), field "event_id" (.str (envelope.eventId library)),
    field "agent_id" (.str envelope.agentId.content), field "sequence" (.int sequence),
    field "event_type" (.str envelope.eventType.content),
    field "config_version" (.int configVersion),
    field "timestamp" (text (library.isoformat timestamp)), field "payload" (.obj payload)] ++
    subjectField (envelope.subject.map PyString.content)

/-- What `encode` accepts, and the bytes it returns. -/
theorem encode_ok {envelope : EventEnvelope} {data : Bytes} :
    encode library envelope = .ok data ↔ envelope.eventType.content ∈ knownEventTypes ∧
      envelope.schemaVersion.value? = some schemaVersion ∧
      ∃ sequence configVersion timestamp payload, envelope.sequence.value? = some sequence ∧
        envelope.configVersion.value? = some configVersion ∧
        envelope.timestamp.IsUtc timestamp ∧
        encodePayload library envelope.eventType.content envelope.payload = .ok payload ∧
        dumps library (.obj (envelopeFields library envelope sequence configVersion timestamp
          payload)) = .ok data := by
  unfold encode
  constructor
  · intro h
    split_ifs at h with hknown
    obtain ⟨version, hversion, h⟩ := except_bind_ok.mp h
    rw [integerField_ok] at hversion
    split_ifs at h with hschema
    rw [not_not] at hschema
    subst hschema
    simp only [except_bind_ok, integerField_ok] at h
    obtain ⟨sequence, hsequence, configVersion, hconfigVersion, timestamp, htimestamp, payload,
      hpayload, hdumps⟩ := h
    obtain ⟨utc, hutc, rfl⟩ := (formatTimestamp_ok library).mp htimestamp
    exact ⟨hknown, hversion, sequence, configVersion, utc, payload, hsequence,
      hconfigVersion, hutc, hpayload, hdumps⟩
  · rintro ⟨hknown, hversion, sequence, configVersion, utc, payload, hsequence, hconfigVersion, hutc,
      hpayload, hdumps⟩
    rw [if_neg (not_not.mpr hknown), integerField_ok.mpr hversion, ok_bind,
      if_neg (not_not.mpr rfl), integerField_ok.mpr hsequence, ok_bind,
      integerField_ok.mpr hconfigVersion, ok_bind,
      (formatTimestamp_ok library).mpr ⟨utc, hutc, rfl⟩, ok_bind, hpayload, ok_bind]
    exact hdumps

theorem dumps_ok {document : Json} {data : Bytes} : dumps library document = .ok data ↔
    document.dumpable library.within = true ∧
      data = utf8 (String.ofList (Json.text library.repr document)) := by
  unfold dumps
  split_ifs with h
  · simp [h, eq_comm]
  · simp [h]

/-- The text that `decode` hashes: that of the integer and of the contents, in which a high surrogate and
a low one after it come back as one character. -/
def EventEnvelope.plainIdentity (envelope : EventEnvelope) : Text :=
  identityText envelope.agentId.content.rejoin
    (Text.ofString (toString (envelope.sequence.value?.getD 0))) envelope.eventType.content
    (envelope.subject.map fun subject => subject.content.rejoin)

/-- The `event_id` of the envelope with the plain integer and the plain strings of its identity. -/
def EventEnvelope.plainEventId (library : Library) (envelope : EventEnvelope) : Text :=
  library.digest envelope.plainIdentity

/-- The parts of the identity are plain: the sequence formats as its number, and the strings as their
content. -/
structure EventEnvelope.PlainlyIdentified (envelope : EventEnvelope) (n : ℤ) : Prop where
  value : envelope.sequence.value? = some n
  sequence : envelope.sequence.format = Text.ofString (toString n)
  agentId : envelope.agentId.format = envelope.agentId.content
  eventType : envelope.eventType.format = envelope.eventType.content
  subject : ∀ subject ∈ envelope.subject, subject.format = subject.content

/-- What is plain hashes the same text when it has come back. -/
theorem EventEnvelope.PlainlyIdentified.identityText_eq {envelope : EventEnvelope} {n : ℤ}
    (h : envelope.PlainlyIdentified n) :
    identityText envelope.agentId.format envelope.sequence.format envelope.eventType.format
      (envelope.subject.map PyString.format) = envelope.plainIdentity := by
  have hs := envelope.identified
  rw [identityText_hasSurrogate] at hs
  push Not at hs
  obtain ⟨hagent, -, -, hsubject⟩ := hs
  have hback : envelope.agentId.content.rejoin = envelope.agentId.content :=
    Text.rejoin_eq_self (h.agentId ▸ hagent)
  have hbacks : envelope.subject.map PyString.format =
      envelope.subject.map fun subject => subject.content.rejoin := by
    refine Option.map_congr fun subject hmem => ?_
    have hwell : ¬ subject.format.HasSurrogate := hsubject _ (Option.mem_map_of_mem _ hmem)
    rw [← h.subject subject hmem, Text.rejoin_eq_self hwell]
  unfold plainIdentity
  rw [hbacks, h.value, h.sequence, h.agentId, h.eventType, hback]
  rfl

theorem EventEnvelope.PlainlyIdentified.eventId_eq {envelope : EventEnvelope} {n : ℤ}
    (h : envelope.PlainlyIdentified n) :
    envelope.eventId library = envelope.plainEventId library := by
  rw [eventId, plainEventId, h.identityText_eq]

theorem EventEnvelope.PlainlyIdentified.not_hasSurrogate {envelope : EventEnvelope} {n : ℤ}
    (h : envelope.PlainlyIdentified n) : ¬ envelope.plainIdentity.HasSurrogate :=
  h.identityText_eq ▸ envelope.identified

/-- The constructor, given a plain sequence and plain strings. -/
theorem makeEnvelope_plain {agentId eventType : Text} {n : ℤ}
    {configVersion schemaVersion : PyObject} {timestamp : DateTime} {payload : EventPayload}
    {subject : Option Text} {e : EventEnvelope}
    (h : makeEnvelope (.plain agentId) (.int n) (.plain eventType) configVersion timestamp payload
      schemaVersion (subject.map .plain) = .ok e) :
    ¬ (identityText agentId (Text.ofString (toString n)) eventType subject).HasSurrogate ∧
      e.agentId = .plain agentId ∧ e.sequence = .int n ∧ e.eventType = .plain eventType ∧
      e.configVersion = configVersion ∧ e.timestamp = timestamp ∧ e.payload = payload ∧
      e.schemaVersion = schemaVersion ∧ e.subject = subject.map .plain := by
  unfold makeEnvelope at h
  split_ifs at h with hs
  cases h
  rw [PyString.map_format_plain] at hs
  exact ⟨hs, rfl, rfl, rfl, rfl, rfl, rfl, rfl, rfl⟩

/-- What the constructor makes of them is plainly identified. -/
theorem makeEnvelope_plainlyIdentified {agentId eventType : Text} {n : ℤ}
    {configVersion schemaVersion : PyObject} {timestamp : DateTime} {payload : EventPayload}
    {subject : Option Text} {e : EventEnvelope}
    (h : makeEnvelope (.plain agentId) (.int n) (.plain eventType) configVersion timestamp payload
      schemaVersion (subject.map .plain) = .ok e) : e.PlainlyIdentified n := by
  obtain ⟨-, hagent, hsequence, hevent, -, -, -, -, hsubject⟩ := makeEnvelope_plain h
  refine ⟨?_, ?_, ?_, ?_, fun other hother => ?_⟩
  · rw [hsequence]
    rfl
  · rw [hsequence]
    rfl
  · rw [hagent]
    rfl
  · rw [hevent]
    rfl
  · rw [hsubject] at hother
    obtain ⟨t, -, rfl⟩ := Option.mem_map.mp hother
    rfl

theorem makeEnvelope_ok {agentId eventType : Text} {n : ℤ} {configVersion schemaVersion : PyObject}
    {timestamp : DateTime} {payload : EventPayload} {subject : Option Text}
    (hs : ¬ (identityText agentId (Text.ofString (toString n)) eventType subject).HasSurrogate) :
    ∃ e, makeEnvelope (.plain agentId) (.int n) (.plain eventType) configVersion timestamp payload
      schemaVersion (subject.map .plain) = .ok e := by
  rw [← PyString.map_format_plain subject] at hs
  exact ⟨_, dif_neg hs⟩

theorem eventId_rejoin (envelope : EventEnvelope) :
    (envelope.eventId library).rejoin = envelope.eventId library := Text.rejoin_ofString _

/-- A known event type holds no surrogates. -/
theorem known_not_hasSurrogate {eventType : Text} (h : eventType ∈ knownEventTypes) :
    ¬ eventType.HasSurrogate := by
  simp only [knownEventTypes, hotIpEventTypes, List.mem_append, List.mem_cons, List.not_mem_nil,
    or_false] at h
  obtain (rfl | rfl) | rfl | rfl := h <;> exact Text.ofString_not_hasSurrogate _

/-- What `decode` does with the document that `encode` wrote. -/
theorem decodeDocument_fields {envelope : EventEnvelope} {sequence configVersion : ℤ}
    {timestamp : DateTime} {payload : List (Text × Json)}
    (hknown : envelope.eventType.content ∈ knownEventTypes)
    (hutc : envelope.timestamp.IsUtc timestamp) (e : EventEnvelope) :
    decodeDocument library (rejoinFields (envelopeFields library envelope sequence configVersion
      timestamp payload)) = .ok e ↔
      ∃ payload', decodePayload library envelope.eventType.content (rejoinFields payload) =
          .ok payload' ∧
        makeEnvelope (.plain envelope.agentId.content.rejoin) (.int sequence)
          (.plain envelope.eventType.content) (.int configVersion) timestamp payload'
          (.int schemaVersion) ((envelope.subject.map fun subject => subject.content.rejoin).map
            .plain) = .ok e ∧
        e.eventId library = envelope.eventId library := by
  have hevent := Text.rejoin_eq_self (known_not_hasSurrogate hknown)
  have hpayload : Json.rejoin (.obj payload) = .obj (rejoinFields payload) := Json.rejoin_obj _
  have hsubject : decodeSubject (rejoinFields (envelopeFields library envelope sequence
      configVersion timestamp payload)) =
        .ok (envelope.subject.map fun subject => subject.content.rejoin) := by
    cases hs : envelope.subject with
    | none => simp [envelopeFields, subjectField, decodeSubject, lookup_field, lookup_nil, hs]
    | some subject => simp [envelopeFields, subjectField, decodeSubject, lookup_field, hs]
  have hinteger : ∀ (n : ℤ) (name : String), jsonInteger (.int n) name = .ok n := fun _ _ => rfl
  simp only [envelopeFields, List.cons_append, List.nil_append, rejoinFields_cons, rejoin_text,
    Json.rejoin_int, Json.rejoin_str, eventId_rejoin, hevent, hpayload] at hsubject ⊢
  have hmalformed : ∀ n : ℤ, malformed "schema_version" (.ok n) = .ok n := fun _ => rfl
  simp only [decodeDocument, require_field, String.reduceEq, if_false, if_true, ok_bind, hinteger,
    hmalformed, ne_eq, not_true, hknown, hsubject, library.str_str,
    parseTimestamp_text library hutc]
  simp only [except_bind_ok, malformed_ok]
  constructor
  · rintro ⟨e', ⟨payload', hpayload', hmake⟩, h⟩
    split_ifs at h with hid
    cases h
    exact ⟨payload', hpayload', hmake, hid⟩
  · rintro ⟨payload', hpayload', hmake, hid⟩
    exact ⟨e, ⟨payload', hpayload', hmake⟩, if_neg (not_not.mpr hid)⟩

/-- The document that `encode` writes has distinct keys. -/
theorem distinctKeys_envelopeFields {envelope : EventEnvelope} {sequence configVersion : ℤ}
    {timestamp : DateTime} {payload : List (Text × Json)} (h : DistinctKeys (.obj payload)) :
    DistinctKeys (.obj (envelopeFields library envelope sequence configVersion timestamp
      payload)) := by
  unfold envelopeFields
  cases envelope.subject with
  | none =>
    exact distinctKeys_fields [("schema_version", _), ("event_id", _), ("agent_id", _),
      ("sequence", _), ("event_type", _), ("config_version", _), ("timestamp", _),
      ("payload", .obj payload)] (by simp) (by simpa using h)
  | some subject =>
    exact distinctKeys_fields [("schema_version", _), ("event_id", _), ("agent_id", _),
      ("sequence", _), ("event_type", _), ("config_version", _), ("timestamp", _),
      ("payload", .obj payload), ("subject", .str subject.content)] (by simp) (by simpa using h)

/-- The document that `encode` writes is written when its integers are within the limit. -/
theorem dumpable_envelopeFields {envelope : EventEnvelope} {sequence configVersion : ℤ}
    {timestamp : DateTime} {payload : List (Text × Json)} (hs : library.within sequence = true)
    (hc : library.within configVersion = true) (h : Json.dumpable library.within (.obj payload) = true) :
    Json.dumpable library.within (.obj (envelopeFields library envelope sequence configVersion timestamp
      payload)) = true := by
  have hschema : library.within schemaVersion = true :=
    library.within_of_lt (Nat.one_lt_pow (by norm_num) (by norm_num))
  rw [Json.dumpable_obj]
  cases hsubject : envelope.subject with
  | none =>
    simp [envelopeFields, subjectField, field, text, Json.dumpable_int, Json.dumpable_str, hs, hc,
      hschema, h, hsubject]
  | some subject =>
    simp [envelopeFields, subjectField, field, text, Json.dumpable_int, Json.dumpable_str, hs, hc,
      hschema, h, hsubject]

/-- The trip over the wire: what `decode` returns of bytes that `encode` returned. -/
theorem decode_encode {envelope : EventEnvelope} {data : Bytes}
    (h : encode library envelope = .ok data) :
    ∃ sequence configVersion timestamp payload, envelope.sequence.value? = some sequence ∧
      envelope.configVersion.value? = some configVersion ∧ envelope.timestamp.IsUtc timestamp ∧
      envelope.schemaVersion.value? = some schemaVersion ∧
      encodePayload library envelope.eventType.content envelope.payload = .ok payload ∧
      ∀ e, decode library data = .ok e ↔
        ∃ payload', decodePayload library envelope.eventType.content (rejoinFields payload) =
            .ok payload' ∧
          makeEnvelope (.plain envelope.agentId.content.rejoin) (.int sequence)
            (.plain envelope.eventType.content) (.int configVersion) timestamp payload'
            (.int schemaVersion) ((envelope.subject.map fun subject => subject.content.rejoin).map
              .plain) = .ok e ∧
          e.eventId library = envelope.eventId library := by
  obtain ⟨hknown, hversion, sequence, configVersion, timestamp, payload, hsequence, hconfigVersion,
    hutc, hpayload, hdumps⟩ := encode_ok.mp h
  obtain ⟨hdumpable, rfl⟩ := dumps_ok.mp hdumps
  refine ⟨sequence, configVersion, timestamp, payload, hsequence, hconfigVersion, hutc,
    hversion, hpayload, fun e => ?_⟩
  have hkeys := (decodePayload_encode hpayload).1
  have hloads := library.loads_text _ hdumpable (distinctKeys_envelopeFields hkeys)
  rw [decode, hloads, Json.rejoin_obj]
  exact decodeDocument_fields hknown hutc e

/-- The envelope that `decode` makes hashes the plain identity. -/
theorem eventId_makeEnvelope {envelope e : EventEnvelope} {n : ℤ} {configVersion version : PyObject}
    {timestamp : DateTime} {payload : EventPayload} (hn : envelope.sequence.value? = some n)
    (h : makeEnvelope (.plain envelope.agentId.content.rejoin) (.int n)
      (.plain envelope.eventType.content) configVersion timestamp payload version
      ((envelope.subject.map fun subject => subject.content.rejoin).map .plain) = .ok e) :
    ¬ envelope.plainIdentity.HasSurrogate ∧
      e.eventId library = envelope.plainEventId library := by
  obtain ⟨hs, hagent, hsequence, hevent, -, -, -, -, hsubject⟩ := makeEnvelope_plain h
  have hplain : envelope.plainIdentity = identityText envelope.agentId.content.rejoin
      (Text.ofString (toString n)) envelope.eventType.content
      (envelope.subject.map fun subject => subject.content.rejoin) := by
    unfold EventEnvelope.plainIdentity
    rw [hn]
    rfl
  have hformat : e.sequence.format = Text.ofString (toString n) := by
    rw [hsequence]
    rfl
  rw [EventEnvelope.eventId, EventEnvelope.plainEventId, hplain, hformat, hagent, hevent, hsubject,
    PyString.map_format_plain]
  exact ⟨hs, rfl⟩

/-- Whatever the payload comes back as, the envelope is made of it if the plain identity encodes. -/
theorem exists_makeEnvelope {envelope : EventEnvelope} {n : ℤ} (configVersion version : PyObject)
    (timestamp : DateTime) (payload : EventPayload) (hn : envelope.sequence.value? = some n)
    (hs : ¬ envelope.plainIdentity.HasSurrogate) :
    ∃ e, makeEnvelope (.plain envelope.agentId.content.rejoin) (.int n)
      (.plain envelope.eventType.content) configVersion timestamp payload version
      ((envelope.subject.map fun subject => subject.content.rejoin).map .plain) = .ok e := by
  unfold EventEnvelope.plainIdentity at hs
  rw [hn] at hs
  exact makeEnvelope_ok hs

/-! ### The round trip -/

/-- The strings of a payload that nothing else checks hold no surrogates. -/
def EventPayload.StringsWellFormed : EventPayload → Prop
  | .requestObservation payload => ¬ payload.agentId.HasSurrogate
  | .hotIp _ => True
  | .prefixStatsChanged payload => ¬ payload.prefixText.HasSurrogate

/-- The strings of an envelope hold no surrogates. Of the event type that is known. -/
structure EventEnvelope.StringsWellFormed (envelope : EventEnvelope) : Prop where
  agentId : ¬ envelope.agentId.content.HasSurrogate
  subject : ∀ subject ∈ envelope.subject, ¬ subject.content.HasSurrogate
  payload : envelope.payload.StringsWellFormed

/-- An envelope that is plainly identified has well-formed strings in its identity. -/
theorem EventEnvelope.PlainlyIdentified.stringsWellFormed {envelope : EventEnvelope} {n : ℤ}
    (h : envelope.PlainlyIdentified n) (hpayload : envelope.payload.StringsWellFormed) :
    envelope.StringsWellFormed := by
  have hs := envelope.identified
  rw [identityText_hasSurrogate] at hs
  push Not at hs
  obtain ⟨hagent, -, -, hsubject⟩ := hs
  refine ⟨h.agentId ▸ hagent, fun subject hmem => ?_, hpayload⟩
  rw [← h.subject subject hmem]
  exact hsubject _ (Option.mem_map_of_mem _ hmem)

theorem EventPayload.rejoin_eq_self {payload : EventPayload} (h : payload.StringsWellFormed) :
    payload.rejoin = payload := by
  cases payload with
  | requestObservation p =>
    refine congrArg EventPayload.requestObservation ?_
    show { p with agentId := p.agentId.rejoin } = p
    rw [Text.rejoin_eq_self h]
  | hotIp p => rfl
  | prefixStatsChanged p =>
    refine congrArg EventPayload.prefixStatsChanged ?_
    show { p with prefixText := p.prefixText.rejoin } = p
    rw [Text.rejoin_eq_self h]

/-- The plain identity of well-formed strings is well formed. -/
theorem EventEnvelope.StringsWellFormed.plainIdentity {envelope : EventEnvelope}
    (h : envelope.StringsWellFormed) (hknown : envelope.eventType.content ∈ knownEventTypes) :
    ¬ envelope.plainIdentity.HasSurrogate := by
  unfold EventEnvelope.plainIdentity
  rw [identityText_hasSurrogate, Text.rejoin_eq_self h.agentId]
  rintro (hs | hs | hs | ⟨t, ht, hs⟩)
  · exact h.agentId hs
  · exact Text.ofString_not_hasSurrogate _ hs
  · exact known_not_hasSurrogate hknown hs
  · obtain ⟨subject, hsubject, rfl⟩ := Option.mem_map.mp ht
    rw [Text.rejoin_eq_self (h.subject subject hsubject)] at hs
    exact h.subject subject hsubject hs

/-- An envelope whose event type names its payload's class, whose strings are well formed, and whose
observations are within the maximum comes back as its normal form, exactly when its `event_id` is the
one of its plain identity. -/
theorem round_trip_of_encode {envelope : EventEnvelope} {data : Bytes}
    (hclass : envelope.eventType.content = Text.ofString envelope.payload.className)
    (hstrings : envelope.StringsWellFormed)
    (hcount : envelope.payload.observationCount ≤ maxObservations)
    (h : encode library envelope = .ok data) :
    (∃ e, decode library data = .ok e ∧ envelope.Normal library e) ↔
      envelope.eventId library = envelope.plainEventId library := by
  have hknown := (encode_ok.mp h).1
  obtain ⟨sequence, configVersion, timestamp, payload, hsequence, hconfigVersion, hutc,
    hversion, hpayload, hdecode⟩ := decode_encode h
  constructor
  · rintro ⟨e, he, -⟩
    obtain ⟨payload', -, hmake, hid⟩ := (hdecode e).mp he
    rw [← hid]
    exact (eventId_makeEnvelope hsequence hmake).2
  · intro hid
    obtain ⟨payload', hpayload', hnormal⟩ := (decodePayload_encode hpayload).2.1 hclass hcount
    rw [EventPayload.rejoin_eq_self hstrings.payload] at hnormal
    obtain ⟨e, hmake⟩ := exists_makeEnvelope (.int configVersion) (.int schemaVersion) timestamp
      payload' hsequence (hstrings.plainIdentity hknown)
    have heventId : e.eventId library = envelope.eventId library :=
      (eventId_makeEnvelope hsequence hmake).2.trans hid.symm
    refine ⟨e, (hdecode e).mpr ⟨payload', hpayload', hmake, heventId⟩, ?_⟩
    obtain ⟨-, hagent, hseq, hevent, hconfig, htime, hpay, hver, hsubject⟩ := makeEnvelope_plain hmake
    rw [Text.rejoin_eq_self hstrings.agentId] at hagent
    have hplain : (envelope.subject.map fun subject => subject.content.rejoin).map PyString.plain =
        envelope.subject.map fun subject => .plain subject.content := by
      rw [Option.map_map]
      exact Option.map_congr fun subject hmem =>
        congrArg PyString.plain (Text.rejoin_eq_self (hstrings.subject subject hmem))
    rw [hplain] at hsubject
    exact ⟨hagent, ⟨sequence, hsequence, hseq⟩, hevent, ⟨configVersion, hconfigVersion, hconfig⟩,
      htime ▸ hutc, hpay ▸ hnormal, ⟨schemaVersion, hversion, hver⟩, hsubject, heventId⟩

/-- Bytes that `encode` returned decode to the same kind of event exactly when the event type names the
payload's class, the observations are within the maximum, the plain identity encodes, and the
`event_id` is the one of the plain identity. -/
theorem accepts_of_encode {envelope : EventEnvelope} {data : Bytes}
    (h : encode library envelope = .ok data) :
    (∃ e, decode library data = .ok e ∧ e.payload.className = envelope.payload.className) ↔
      envelope.eventType.content = Text.ofString envelope.payload.className ∧
        envelope.payload.observationCount ≤ maxObservations ∧
        ¬ envelope.plainIdentity.HasSurrogate ∧
        envelope.eventId library = envelope.plainEventId library := by
  obtain ⟨sequence, configVersion, timestamp, payload, hsequence, -, -, -, hpayload,
    hdecode⟩ := decode_encode h
  obtain ⟨-, haccepts, hcarries⟩ := decodePayload_encode hpayload
  constructor
  · rintro ⟨e, he, hclass⟩
    obtain ⟨payload', hpayload', hmake, hid⟩ := (hdecode e).mp he
    obtain ⟨-, -, -, -, -, -, hpay, -, -⟩ := makeEnvelope_plain hmake
    obtain ⟨hname, hcount⟩ := hcarries payload' hpayload'
    obtain ⟨hs, heventId⟩ : ¬ envelope.plainIdentity.HasSurrogate ∧
        e.eventId library = envelope.plainEventId library := eventId_makeEnvelope hsequence hmake
    refine ⟨?_, hcount, hs, hid ▸ heventId⟩
    rw [← hname, ← hclass, hpay]
  · rintro ⟨hclass, hcount, hs, hid⟩
    obtain ⟨payload', hpayload', hnormal⟩ := haccepts hclass hcount
    obtain ⟨e, hmake⟩ := exists_makeEnvelope (.int configVersion) (.int schemaVersion) timestamp
      payload' hsequence hs
    refine ⟨e, (hdecode e).mpr ⟨payload', hpayload', hmake,
      (eventId_makeEnvelope hsequence hmake).2.trans hid.symm⟩, ?_⟩
    obtain ⟨-, -, -, -, -, -, hpay, -, -⟩ := makeEnvelope_plain hmake
    rw [hpay, hnormal.className, EventPayload.className_rejoin]

theorem encodePayload_hotIp {eventType : Text} (h : eventType ∈ hotIpEventTypes)
    (event : HotIpEvent) : encodePayload library eventType (.hotIp event) =
      encodeHotIpEvent library eventType event := if_pos h

/-- A hot-ip event within its bounds is encoded. -/
theorem exists_encode_hotIp {envelope : EventEnvelope} {event : HotIpEvent}
    (hpayload : envelope.payload = .hotIp event)
    (hevent : envelope.eventType.content ∈ hotIpEventTypes)
    (hversion : envelope.schemaVersion.value? = some schemaVersion)
    {sequence configVersion eventSequence windowCount eventVersion : ℤ}
    {timestamp eventTimestamp : DateTime} {written : List (Text × Json)}
    (hsequence : envelope.sequence.value? = some sequence) (hs : library.within sequence = true)
    (hconfigVersion : envelope.configVersion.value? = some configVersion)
    (hc : library.within configVersion = true) (hutc : envelope.timestamp.IsUtc timestamp)
    (hutc' : event.timestamp.IsUtc eventTimestamp)
    (heventSequence : event.sequence.value? = some eventSequence)
    (hes : hotIpSequence.Contains eventSequence) (hes' : library.within eventSequence = true)
    (hwindowCount : event.windowCount.value? = some windowCount)
    (hew : hotIpWindowCount.Contains windowCount) (hew' : library.within windowCount = true)
    (heventVersion : event.configVersion.value? = some eventVersion)
    (hev : hotIpConfigVersion.Contains eventVersion) (hev' : library.within eventVersion = true)
    (hwritten : encodeAttributes library event.attributes = .ok written)
    (hdumpable : ∀ p ∈ written, Json.dumpable library.within p.2 = true) :
    ∃ data, encode library envelope = .ok data := by
  have hencode : encodePayload library envelope.eventType.content envelope.payload =
      .ok (hotIpFields library envelope.eventType.content event.ip eventTimestamp eventSequence
        windowCount eventVersion written) := by
    rw [hpayload, encodePayload_hotIp hevent]
    simp only [encodeHotIpEvent, (formatTimestamp_ok library).mpr ⟨_, hutc', rfl⟩, ok_bind,
      boundedIntegerField_ok.mpr ⟨heventSequence, hes⟩,
      boundedIntegerField_ok.mpr ⟨hwindowCount, hew⟩,
      boundedIntegerField_ok.mpr ⟨heventVersion, hev⟩, hwritten, pure_eq_ok]
    rfl
  have hdata : Json.dumpable library.within (.obj (hotIpFields library envelope.eventType.content
      event.ip eventTimestamp eventSequence windowCount eventVersion written)) = true := by
    refine Json.dumpable_obj.mpr (List.forall_mem_append.mpr ⟨?_, hdumpable⟩)
    simp [field, text, Json.dumpable_int, Json.dumpable_str, hes', hew', hev']
  have hknown : envelope.eventType.content ∈ knownEventTypes := List.mem_append_right _ hevent
  exact ⟨_, encode_ok.mpr ⟨hknown, hversion, sequence, configVersion, timestamp, _, hsequence,
    hconfigVersion, hutc, hencode, dumps_ok.mpr ⟨dumpable_envelopeFields hs hc hdata, rfl⟩⟩⟩

/-! ### An event -/

/-- A transition of the address 1.2.3.4. -/
def sampleEvent (type : HotIpEventType) : HotIpEvent :=
  ⟨type, ⟨.ipv4, 16909060, by decide⟩, ⟨0, none, by decide⟩, .int 0, .int 1000, .int 1, none⟩

/-- The transition, sent as a `HotIpAdded`. -/
def sample (type : HotIpEventType) (sequence : PyObject) (formatted : String)
    (hformat : sequence.format = Text.ofString formatted) : EventEnvelope where
  agentId := .plain (Text.ofString "aggregator-shard-0")
  sequence := sequence
  eventType := .plain (Text.ofString "HotIpAdded")
  configVersion := .int 1
  timestamp := ⟨0, none, by decide⟩
  payload := .hotIp (sampleEvent type)
  schemaVersion := .int 1
  subject := none
  identified := by
    rw [hformat, identityText_hasSurrogate]
    rintro (h | h | h | ⟨t, ht, -⟩)
    · exact Text.ofString_not_hasSurrogate _ h
    · exact Text.ofString_not_hasSurrogate _ h
    · exact Text.ofString_not_hasSurrogate _ h
    · cases ht

theorem format_zero : PyObject.format (.int 0) = Text.ofString "0" := rfl

theorem sample_plainlyIdentified (type : HotIpEventType) :
    (sample type (.int 0) "0" format_zero).PlainlyIdentified 0 :=
  ⟨rfl, format_zero, rfl, rfl, fun _ h => (by cases h)⟩

theorem sample_stringsWellFormed (type : HotIpEventType) (sequence : PyObject) (formatted : String)
    (hformat : sequence.format = Text.ofString formatted) :
    (sample type sequence formatted hformat).StringsWellFormed :=
  ⟨Text.ofString_not_hasSurrogate _, fun _ h => (by cases h), trivial⟩

/-- The event encodes, whatever the library. -/
theorem exists_encode_sample (library : Library) (type : HotIpEventType) (sequence : PyObject)
    (formatted : String) (hformat : sequence.format = Text.ofString formatted)
    (hsequence : sequence.value? = some 0) :
    ∃ data, encode library (sample type sequence formatted hformat) = .ok data := by
  have hutc : DateTime.IsUtc ⟨0, none, by decide⟩ ⟨0, some 0, by decide⟩ := ⟨rfl, rfl⟩
  have hcontains : ∀ {n : ℤ} {bounds : Range}, bounds.maximum = none → bounds.minimum ≤ n →
      bounds.Contains n := by
    intro n bounds hmaximum hminimum
    refine ⟨by exact_mod_cast hminimum, fun maximum h => ?_⟩
    rw [hmaximum] at h
    cases h
  have hsmall : ∀ n : ℤ, n.natAbs ≤ 10 ^ 8 → library.within n = true := fun n hn =>
    library.within_of_lt (hn.trans_lt (Nat.pow_lt_pow_right (by norm_num) (by norm_num)))
  exact exists_encode_hotIp rfl List.mem_cons_self rfl hsequence (hsmall 0 (by decide)) rfl
    (hsmall 1 (by decide)) hutc hutc rfl (hcontains rfl (by decide)) (hsmall 0 (by decide)) rfl
    (hcontains rfl (by decide)) (hsmall 1000 (by decide)) rfl (hcontains rfl (by decide))
    (hsmall 1 (by decide)) rfl fun p hp => absurd hp List.not_mem_nil

/-- The stand-in for the digest tells well-formed texts apart. -/
theorem digest_inj {t t' : Text} (ht : ¬ t.HasSurrogate) (ht' : ¬ t'.HasSurrogate)
    (h : interpreter.digest t = interpreter.digest t') : t = t' := by
  have hquote : t.quote = t'.quote := String.ofList_injective h
  have hbody := (List.cons.inj hquote).2
  have hread := congrArg readString hbody
  rw [readString_quote, readString_quote] at hread
  have hrejoin : t.rejoin = t'.rejoin := congrArg Prod.fst (Option.some.inj hread)
  rwa [Text.rejoin_eq_self ht, Text.rejoin_eq_self ht'] at hrejoin

/-- A sequence that formats as a name, as a member of an `Enum` with `int` mixed in does. -/
def namedSequence : PyObject := .subclass 0 (Text.ofString "Sequence.FIRST")

/-- The `event_id` of the event is then not the one of its number. -/
theorem eventId_named (type : HotIpEventType) :
    (sample type namedSequence "Sequence.FIRST" rfl).eventId interpreter ≠
      (sample type namedSequence "Sequence.FIRST" rfl).plainEventId interpreter := by
  intro h
  have hwell : ∀ s : String, ¬ (identityText (Text.ofString "aggregator-shard-0") (Text.ofString s)
      (Text.ofString "HotIpAdded") none).HasSurrogate := by
    intro s hs
    rw [identityText_hasSurrogate] at hs
    rcases hs with hs | hs | hs | ⟨t, ht, -⟩
    · exact Text.ofString_not_hasSurrogate _ hs
    · exact Text.ofString_not_hasSurrogate _ hs
    · exact Text.ofString_not_hasSurrogate _ hs
    · cases ht
  have hplain : (sample type namedSequence "Sequence.FIRST" rfl).plainIdentity =
      identityText (Text.ofString "aggregator-shard-0") (Text.ofString "0")
        (Text.ofString "HotIpAdded") none := by
    show identityText (Text.ofString "aggregator-shard-0").rejoin _ _ _ = _
    rw [Text.rejoin_ofString]
    rfl
  rw [EventEnvelope.plainEventId, hplain] at h
  have htext := digest_inj (hwell "Sequence.FIRST") (hwell "0") (Text.ofString_inj.mp h)
  simp only [identityText, List.append_assoc] at htext
  have hrest := List.append_cancel_left (List.append_cancel_left htext)
  have hsequence := List.append_cancel_right hrest
  rw [Text.ofString_inj] at hsequence
  revert hsequence
  decide

/-- The codec round trip, and when it holds. An envelope whose event type names its payload's class,
whose strings are well formed, and whose observations are within the maximum decodes, if it encodes,
to the same envelope up to normalisation, exactly when its `event_id` is the one that the plain
integer of its sequence and the plain strings of its identity give. -/
theorem codec_round_trip (library : Library) (envelope : EventEnvelope) (data : Bytes)
    (hclass : envelope.eventType.content = Text.ofString envelope.payload.className)
    (hstrings : envelope.StringsWellFormed)
    (hcount : envelope.payload.observationCount ≤ maxObservations)
    (h : encode library envelope = .ok data) :
    (∃ e, decode library data = .ok e ∧ envelope.Normal library e) ↔
      envelope.eventId library = envelope.plainEventId library :=
  round_trip_of_encode hclass hstrings hcount h

theorem codec_round_trip_sample : ∃ data,
    encode interpreter (sample .added (.int 0) "0" format_zero) = .ok data ∧
      ∃ e, decode interpreter data = .ok e ∧
        (sample .added (.int 0) "0" format_zero).Normal interpreter e := by
  obtain ⟨data, hdata⟩ := exists_encode_sample interpreter .added (.int 0) "0" format_zero rfl
  refine ⟨data, hdata, ?_⟩
  exact (codec_round_trip interpreter (sample .added (.int 0) "0" format_zero) data rfl
    (sample_stringsWellFormed _ _ _ _) (Nat.zero_le _) hdata).mpr
      (sample_plainlyIdentified .added).eventId_eq

/-- A sequence that does not format as its number is accepted by `encode`, and refused by `decode`. -/
theorem named_sequence_is_refused : ∃ (envelope : EventEnvelope) (data : Bytes),
    envelope.eventType.content = Text.ofString envelope.payload.className ∧
      envelope.StringsWellFormed ∧ envelope.payload.observationCount ≤ maxObservations ∧
      encode interpreter envelope = .ok data ∧
      ¬ ∃ e, decode interpreter data = .ok e ∧ envelope.Normal interpreter e := by
  obtain ⟨data, hdata⟩ :=
    exists_encode_sample interpreter .added namedSequence "Sequence.FIRST" rfl rfl
  have hwell := sample_stringsWellFormed .added namedSequence "Sequence.FIRST" rfl
  refine ⟨sample .added namedSequence "Sequence.FIRST" rfl, data, rfl, hwell, Nat.zero_le _, hdata,
    fun h => eventId_named .added ?_⟩
  exact (round_trip_of_encode rfl hwell (Nat.zero_le _) hdata).mp h

/-- What encode accepts, decode accepts as the same kind of event, exactly when the event type names
the payload's class, the observations are within the maximum, and the `event_id` is the one that the
plain integer of the sequence and the plain strings of the identity give, in a text that encodes. -/
theorem decode_accepts_encoded (library : Library) (envelope : EventEnvelope) (data : Bytes)
    (h : encode library envelope = .ok data) :
    (∃ e, decode library data = .ok e ∧ e.payload.className = envelope.payload.className) ↔
      envelope.eventType.content = Text.ofString envelope.payload.className ∧
        envelope.payload.observationCount ≤ maxObservations ∧
        ¬ envelope.plainIdentity.HasSurrogate ∧
        envelope.eventId library = envelope.plainEventId library :=
  accepts_of_encode h

theorem decode_accepts_encoded_sample : ∃ data,
    encode interpreter (sample .added (.int 0) "0" format_zero) = .ok data ∧
      ∃ e, decode interpreter data = .ok e ∧ e.payload.className = "HotIpAdded" := by
  obtain ⟨data, hdata⟩ := exists_encode_sample interpreter .added (.int 0) "0" format_zero rfl
  have hplain := sample_plainlyIdentified .added
  refine ⟨data, hdata, ?_⟩
  exact (decode_accepts_encoded interpreter (sample .added (.int 0) "0" format_zero) data hdata).mpr
    ⟨rfl, Nat.zero_le _, hplain.not_hasSurrogate, hplain.eventId_eq⟩

/-- A `HotIpRemoved` payload under the event type `HotIpAdded` is accepted by `encode`, and decodes as
the opposite transition. -/
theorem removal_decodes_as_addition : ∃ (envelope : EventEnvelope) (data : Bytes),
    envelope.payload.className = "HotIpRemoved" ∧ encode interpreter envelope = .ok data ∧
      (∃ e, decode interpreter data = .ok e ∧ e.payload.className = "HotIpAdded") ∧
      ¬ ∃ e, decode interpreter data = .ok e ∧
        e.payload.className = envelope.payload.className := by
  obtain ⟨data, hdata⟩ := exists_encode_sample interpreter .removed (.int 0) "0" format_zero rfl
  have hplain := sample_plainlyIdentified .removed
  refine ⟨sample .removed (.int 0) "0" format_zero, data, rfl, hdata, ?_, fun h => ?_⟩
  · obtain ⟨sequence, configVersion, timestamp, payload, hsequence, -, -, -, hpayload,
      hdecode⟩ := decode_encode hdata
    have hmem : Text.ofString "HotIpAdded" ∈ hotIpEventTypes := List.mem_cons_self
    have hencode : encodeHotIpEvent interpreter (Text.ofString "HotIpAdded")
        (sampleEvent .removed) = .ok payload := (encodePayload_hotIp hmem _).symm.trans hpayload
    obtain ⟨-, event, hevent, hnormal⟩ := decodeHotIpEvent_encode hencode
    have hdecoded : decodePayload interpreter (Text.ofString "HotIpAdded") (rejoinFields payload) =
        .ok (.hotIp event) := by
      have hne : Text.ofString "HotIpAdded" ≠ Text.ofString "RequestObservation" := by
        rw [Ne, Text.ofString_inj]
        decide
      rw [decodePayload, if_neg hne, if_pos hmem]
      exact Program.except_map_ok.mpr ⟨event, hevent, rfl⟩
    obtain ⟨e, hmake⟩ := exists_makeEnvelope (.int configVersion) (.int schemaVersion) timestamp
      (.hotIp event) hsequence hplain.not_hasSurrogate
    have hid : e.eventId interpreter =
        (sample .removed (.int 0) "0" format_zero).eventId interpreter :=
      (eventId_makeEnvelope hsequence hmake).2.trans hplain.eventId_eq.symm
    obtain ⟨-, -, -, -, -, -, hpay, -, -⟩ := makeEnvelope_plain hmake
    refine ⟨e, (hdecode e).mpr ⟨_, hdecoded, hmake, hid⟩, ?_⟩
    rw [hpay]
    show event.type.text = "HotIpAdded"
    rw [hnormal.type]
    rfl
  · have hname := ((accepts_of_encode hdata).mp h).1
    exact removed_ne_added hname.symm

end Hammertime.Codec
