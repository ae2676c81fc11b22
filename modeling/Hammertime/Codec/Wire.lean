import Hammertime.Codec.RoundTrip

/-!
# The codec as the wire of the services

The services hold events in their own terms: strings, integers, epoch seconds, and the canonical
attributes as a tree. Here is the codec in these terms, and it is a `Wire`: a transition that it
encodes decodes to what it was, and one within the bounds of the schema is encoded. The second needs
an interpreter that writes every integer, one in which the limit on their digits is disabled.
-/

namespace Hammertime.Codec

open Lib Attributes

/-! ### Events in the services' terms -/

/-- The characters of a text. Nothing that the services read of a decoded event holds a surrogate. -/
def characters (t : Text) : String :=
  String.ofList (t.filterMap fun c =>
    if h : c.val.isValidChar then some (Char.ofNatAux c.val h) else none)

theorem characters_ofString (s : String) : characters (Text.ofString s) = s := by
  have hchar : ∀ c : Char, (if h : (CodePoint.ofChar c).val.isValidChar then
      some (Char.ofNatAux (CodePoint.ofChar c).val h) else none) = some c := by
    intro c
    have hvalid : (CodePoint.ofChar c).val.isValidChar := c.valid
    rw [dif_pos hvalid]
    rfl
  unfold characters Text.ofString
  rw [List.filterMap_map]
  have hsome : ((fun c : CodePoint => if h : c.val.isValidChar then
      some (Char.ofNatAux c.val h) else none) ∘ CodePoint.ofChar) = some := funext hchar
  rw [hsome, List.filterMap_some, String.ofList_toList]

/-- The seconds from the start of the year 1 to the epoch. -/
def epochSeconds : ℤ := 62135596800

/-- `datetime.fromtimestamp(now, tz=UTC)`, or its `ValueError`. -/
def fromTimestamp (now : ℤ) : Option DateTime :=
  if h : 0 ≤ (now + epochSeconds) * 1000000 ∧ (now + epochSeconds) * 1000000 < maxMicroseconds then
    some ⟨(now + epochSeconds) * 1000000, some 0, h⟩
  else none

/-- `math.floor(value.timestamp())`, a naive value read as UTC. -/
def toTimestamp (value : DateTime) : ℤ :=
  (value.wall - value.offset.getD 0) / 1000000 - epochSeconds

theorem fromTimestamp_of_range {now : ℤ} (h : datetimeRange now = true) :
    ∃ value, fromTimestamp now = some value := by
  have hrange : -62135596800 ≤ now ∧ now ≤ 253402300799 := of_decide_eq_true h
  refine ⟨_, dif_pos ?_⟩
  unfold epochSeconds maxMicroseconds
  omega

/-- A time comes back from its value in UTC. -/
theorem toTimestamp_fromTimestamp {now : ℤ} {value value' : DateTime}
    (h : fromTimestamp now = some value) (hutc : value.IsUtc value') : toTimestamp value' = now := by
  unfold fromTimestamp at h
  split_ifs at h with hrange
  cases h
  obtain ⟨hwall, hoffset⟩ := hutc
  unfold toTimestamp
  rw [hwall, hoffset]
  simp only [Option.getD_some, sub_zero]
  omega

theorem fromTimestamp_offset {now : ℤ} {value : DateTime} (h : fromTimestamp now = some value) :
    value.offset = some 0 := by
  unfold fromTimestamp at h
  split_ifs at h
  cases h
  rfl

/-- The envelope of a transition, with its two timestamps. -/
def ofEnvelope (envelope : Hammertime.EventEnvelope Hammertime.HotIpEvent)
    (timestamp payloadTimestamp : DateTime) : EventEnvelope where
  agentId := .plain (Text.ofString envelope.agentId)
  sequence := .int envelope.sequence
  eventType := .plain (Text.ofString envelope.eventType)
  configVersion := .int envelope.configVersion
  timestamp := timestamp
  payload := .hotIp
    { type := envelope.payload.type
      ip := envelope.payload.ip
      timestamp := payloadTimestamp
      sequence := .int envelope.payload.sequence
      windowCount := .int envelope.payload.windowCount
      configVersion := .int envelope.payload.configVersion
      attributes := envelope.payload.attributes.map Document.ofJson }
  schemaVersion := .int schemaVersion
  subject := envelope.subject.map fun subject => .plain (Text.ofString subject)
  identified := by
    rw [identityText_hasSurrogate, Option.map_map]
    rintro (h | h | h | ⟨t, ht, h⟩)
    · exact Text.ofString_not_hasSurrogate _ h
    · exact Text.ofString_not_hasSurrogate _ h
    · exact Text.ofString_not_hasSurrogate _ h
    · obtain ⟨subject, -, rfl⟩ := Option.mem_map.mp ht
      exact Text.ofString_not_hasSurrogate _ h

theorem ofEnvelope_plainlyIdentified (envelope : Hammertime.EventEnvelope Hammertime.HotIpEvent)
    (timestamp payloadTimestamp : DateTime) :
    (ofEnvelope envelope timestamp payloadTimestamp).PlainlyIdentified envelope.sequence := by
  refine ⟨rfl, rfl, rfl, rfl, fun subject hsubject => ?_⟩
  obtain ⟨t, -, rfl⟩ := Option.mem_map.mp hsubject
  rfl

/-- The integer that a decoded field holds. -/
def PyObject.number (object : PyObject) : ℤ := object.value?.getD 0

section

variable (library : Library)

/-- A decoded payload, as far as the services read it. -/
def toPayload : EventPayload → Hammertime.EventPayload
  | .requestObservation payload => .requestObservation
      { windowStart := toTimestamp payload.windowStart
        windowSeconds := payload.windowSeconds.number
        observations := payload.observations.map fun observation =>
          ⟨observation.ip, observation.requestCount.number.toNat⟩ }
  | .hotIp payload => .hotIp
      { type := payload.type
        ip := payload.ip
        timestamp := toTimestamp payload.timestamp
        sequence := payload.sequence.number.toNat
        windowCount := payload.windowCount.number
        configVersion := payload.configVersion.number
        -- A decoded document is its own canonical copy.
        attributes := payload.attributes.bind fun document =>
          (canonicalAttributes library document).toOption.map Json.obj }
  | .prefixStatsChanged _ => .prefixStatsChanged

/-- A decoded envelope. -/
def toEnvelope (envelope : EventEnvelope) : Hammertime.EventEnvelope Hammertime.EventPayload where
  agentId := characters envelope.agentId.content
  sequence := envelope.sequence.number
  eventType := characters envelope.eventType.content
  configVersion := envelope.configVersion.number
  timestamp := toTimestamp envelope.timestamp
  payload := toPayload library envelope.payload
  subject := envelope.subject.map fun subject => characters subject.content

/-- A `CodecError`. Nothing reads what it quotes. -/
def CodecError.failure (e : CodecError) : Failure :=
  .codecError (e.message (fun t => String.ofList t.quote) "")

/-- `encode` of the envelope of a transition. -/
def encodeTransition (envelope : Hammertime.EventEnvelope Hammertime.HotIpEvent) :
    Except Failure Bytes :=
  match fromTimestamp envelope.timestamp, fromTimestamp envelope.payload.timestamp with
  | some timestamp, some payloadTimestamp =>
    (encode library (ofEnvelope envelope timestamp payloadTimestamp)).mapError CodecError.failure
  | _, _ => .error .timeOutOfRange

/-- `decode`. -/
def decodeEvent (data : Bytes) :
    Except Failure (Hammertime.EventEnvelope Hammertime.EventPayload) :=
  (toEnvelope library <$> decode library data).mapError CodecError.failure

end

variable {library : Library}

theorem encodeTransition_ok {envelope : Hammertime.EventEnvelope Hammertime.HotIpEvent}
    {data : Bytes} (h : encodeTransition library envelope = .ok data) :
    ∃ timestamp payloadTimestamp, fromTimestamp envelope.timestamp = some timestamp ∧
      fromTimestamp envelope.payload.timestamp = some payloadTimestamp ∧
      encode library (ofEnvelope envelope timestamp payloadTimestamp) = .ok data := by
  unfold encodeTransition at h
  split at h
  · rename_i timestamp payloadTimestamp ht hp
    refine ⟨timestamp, payloadTimestamp, ht, hp, ?_⟩
    cases he : encode library (ofEnvelope envelope timestamp payloadTimestamp) with
    | error e =>
      rw [he] at h
      cases h
    | ok bytes =>
      rw [he] at h
      cases h
      rfl
  · cases h

/-! ### The round trip -/

theorem number_of_isInteger {n : ℤ} {object : PyObject} (h : (PyObject.int n).IsInteger object) :
    object.number = n := by
  obtain ⟨m, hm, rfl⟩ := h
  cases hm
  rfl

/-- The attributes come back as the tree that they were. -/
theorem attributes_back {attributes : Option Json} {document : Option Document}
    (h : Option.Rel (IsCanonical library) (attributes.map Document.ofJson) document) :
    (document.bind fun document => (canonicalAttributes library document).toOption.map Json.obj) =
      attributes := by
  cases attributes with
  | none =>
    cases h
    rfl
  | some j =>
    obtain ⟨fields, hun, hadm, rfl⟩ : ∃ fields, Unfolds (Document.ofJson j).heap (.obj fields)
        (Document.ofJson j).root ∧ Admissible library.repr fields ∧
        document = some (.ofJson (.obj fields)) := by
      cases h with
      | some hcanonical =>
        obtain ⟨fields, hun, hadm, rfl⟩ := hcanonical
        exact ⟨fields, hun, hadm, rfl⟩
    have hj : j = .obj fields := (unfolds_ofJson j).unique hun
    rw [Option.bind_some, canonicalAttributes_ofJson library hadm, hj]
    rfl

/-- A transition that was encoded decodes to what it was. -/
theorem decodeEvent_encodeTransition {envelope : Hammertime.EventEnvelope Hammertime.HotIpEvent}
    {data : Bytes} (htype : envelope.IsTransition)
    (h : encodeTransition library envelope = .ok data) :
    decodeEvent library data = .ok envelope.general := by
  obtain ⟨timestamp, payloadTimestamp, ht, hp, hencode⟩ := encodeTransition_ok h
  have hclass : (ofEnvelope envelope timestamp payloadTimestamp).eventType.content =
      Text.ofString (ofEnvelope envelope timestamp payloadTimestamp).payload.className :=
    congrArg Text.ofString htype.eventType
  have hplain := ofEnvelope_plainlyIdentified envelope timestamp payloadTimestamp
  obtain ⟨e, hdecode, hnormal⟩ := (round_trip_of_encode hclass (hplain.stringsWellFormed trivial)
    (Nat.zero_le _) hencode).mpr hplain.eventId_eq
  obtain ⟨hagent, hsequence, hevent, hconfig, htime, hpayload, -, hsubject, -⟩ := hnormal
  have hbody : toPayload library e.payload = .hotIp envelope.payload := by
    cases hp' : e.payload with
    | hotIp payload =>
      rw [hp'] at hpayload
      obtain ⟨htype', hip, htime', hsequence', hcount, hversion, hattributes⟩ := hpayload
      simp only [toPayload, htype', hip, toTimestamp_fromTimestamp hp htime',
        number_of_isInteger hsequence', number_of_isInteger hcount, number_of_isInteger hversion,
        attributes_back hattributes]
      rfl
    | requestObservation payload =>
      rw [hp'] at hpayload
      cases hpayload
    | prefixStatsChanged payload =>
      rw [hp'] at hpayload
      cases hpayload
  have hback : e.subject.map (fun subject => characters subject.content) = envelope.subject := by
    rw [hsubject]
    show ((envelope.subject.map fun subject => PyString.plain (Text.ofString subject)).map _).map _ = _
    rw [Option.map_map, Option.map_map]
    exact (Option.map_congr fun s _ => characters_ofString s).trans Option.map_id'
  have hwhole : toEnvelope library e = envelope.general := by
    unfold toEnvelope
    rw [hagent, number_of_isInteger hsequence, hevent, number_of_isInteger hconfig,
      toTimestamp_fromTimestamp ht htime, hbody, hback]
    show (⟨characters (Text.ofString envelope.agentId), _, characters (Text.ofString _), _, _, _,
      envelope.subject⟩ : Hammertime.EventEnvelope Hammertime.EventPayload) = _
    rw [characters_ofString, characters_ofString]
    rfl
  unfold decodeEvent
  rw [hdecode, ← hwhole]
  rfl

/-- A transition that was encoded decodes to an event with the same type, IP, count and subject, whose
attributes are the canonical copy of the transition's. -/
theorem decode_encodeTransition {envelope : Hammertime.EventEnvelope Hammertime.HotIpEvent}
    {data : Bytes} (htype : envelope.IsTransition) (h : encodeTransition library envelope = .ok data) :
    ∃ e payload, decode library data = .ok e ∧ e.payload = .hotIp payload ∧
      e.subject.map PyString.content = envelope.subject.map Text.ofString ∧
      payload.type = envelope.payload.type ∧ payload.ip = envelope.payload.ip ∧
      payload.windowCount = .int envelope.payload.windowCount ∧
      Option.Rel (IsCanonical library) (envelope.payload.attributes.map Document.ofJson)
        payload.attributes := by
  obtain ⟨timestamp, payloadTimestamp, -, -, hencode⟩ := encodeTransition_ok h
  have hclass : (ofEnvelope envelope timestamp payloadTimestamp).eventType.content =
      Text.ofString (ofEnvelope envelope timestamp payloadTimestamp).payload.className :=
    congrArg Text.ofString htype.eventType
  have hplain := ofEnvelope_plainlyIdentified envelope timestamp payloadTimestamp
  obtain ⟨e, hdecode, hnormal⟩ := (round_trip_of_encode hclass
    (hplain.stringsWellFormed trivial) (Nat.zero_le _) hencode).mpr hplain.eventId_eq
  have hsubject : e.subject.map PyString.content = envelope.subject.map Text.ofString := by
    rw [hnormal.subject]
    show ((envelope.subject.map fun subject => PyString.plain (Text.ofString subject)).map
      _).map _ = _
    rw [Option.map_map, Option.map_map]
    rfl
  have hpayload := hnormal.payload
  cases hkind : e.payload with
  | hotIp payload =>
    rw [hkind] at hpayload
    obtain ⟨htype', hip, -, -, hcount, -, hattributes⟩ := hpayload
    obtain ⟨n, hn, hcount⟩ := hcount
    cases hn
    exact ⟨e, payload, hdecode, hkind, hsubject, htype', hip, hcount, hattributes⟩
  | requestObservation payload =>
    rw [hkind] at hpayload
    cases hpayload
  | prefixStatsChanged payload =>
    rw [hkind] at hpayload
    cases hpayload

/-! ### What is within the bounds is encoded -/

/-- The attributes of a weight within its bounds pass the validation. -/
theorem admissible_weight {repr : Float64 → List Char} {weight : ℤ} (h : 0 ≤ weight)
    (hmax : weight ≤ 1000000) :
    Admissible repr [((("attributes_version" : String) : Text), .int attributesVersion),
      ((("weight" : String) : Text), .int weight)] := by
  obtain ⟨n, rfl⟩ := Int.eq_ofNat_of_zero_le h
  have hn : n < 10 ^ 7 := by omega
  have hpow : (10 : ℤ) ^ 7 < s8Bound := pow_lt_pow_right₀ (by norm_num) (by norm_num)
  have hdigits : (intText n).length ≤ 7 := by
    rw [intText_ofNat, Nat.toList_repr, Nat.length_toDigits_le_iff (by norm_num) (by norm_num)]
    exact hn
  have hkeys : [(("attributes_version" : String) : Text), (("weight" : String) : Text)].Nodup := by
    decide
  refine ⟨by simp [maxKeys], wellFormed_obj.mpr ⟨hkeys, ?_⟩, ?_, ?_⟩
  · intro p hp
    have hsmall : ∀ m : ℤ, 0 ≤ m → m ≤ 1000000 → WellFormed (.int m) := by
      intro m hm hm'
      show -s8Bound < m ∧ m < s8Bound
      constructor
      · linarith
      · linarith
    simp only [List.mem_cons, List.not_mem_nil, or_false] at hp
    rcases hp with rfl | rfl
    · exact ⟨Text.ofString_not_hasSurrogate _, hsmall _ (by decide) (by decide)⟩
    · exact ⟨Text.ofString_not_hasSurrogate _, hsmall _ h hmax⟩
  · rw [Json.text_obj]
    have hone : (Json.text repr (.int attributesVersion)).length = 1 := rfl
    have hweight : (Json.text repr (.int n)).length = (intText n).length := rfl
    have hversionKey : (Text.quote (("attributes_version" : String) : Text)).length = 20 := rfl
    have hweightKey : (Text.quote (("weight" : String) : Text)).length = 8 := rfl
    simp only [List.map_cons, List.map_nil, List.length_cons, List.length_append,
      length_commaSeparated, List.sum_cons, List.sum_nil, List.length_nil, hone, hweight,
      hversionKey, hweightKey]
    unfold maxBytes
    omega
  · refine ⟨.int 1, 1, rfl, rfl, le_refl _, fun _ => ⟨fun p hp => ?_, fun weight hw => ?_⟩⟩
    · simp only [List.mem_cons, List.not_mem_nil, or_false] at hp
      rcases hp with rfl | rfl
      · rfl
      · rfl
    · have hlookup : Dict.lookup (("weight" : String) : Text)
          [((("attributes_version" : String) : Text), Json.int attributesVersion),
            ((("weight" : String) : Text), Json.int n)] = some (.int n) := by
        rw [Dict.lookup, if_neg (by decide), Dict.lookup, if_pos rfl]
      rw [hlookup] at hw
      cases hw
      exact ⟨n, rfl, h, hmax⟩

/-- A transition within its bounds is encoded, where every integer can be written. -/
theorem exists_encodeTransition (hlimit : library.intMaxStrDigits = none)
    {envelope : Hammertime.EventEnvelope Hammertime.HotIpEvent} (htype : envelope.IsTransition)
    (hbounds : envelope.InBounds) : ∃ data, encodeTransition library envelope = .ok data := by
  obtain ⟨timestamp, ht⟩ := fromTimestamp_of_range hbounds.timestamp
  obtain ⟨payloadTimestamp, hp⟩ := fromTimestamp_of_range hbounds.payloadTimestamp
  have hwithin : ∀ n, library.within n = true := by
    intro n
    unfold Library.within
    rw [hlimit]
    rfl
  have hcontains : ∀ {n : ℤ} {bounds : Range}, bounds.maximum = none → bounds.minimum ≤ n →
      bounds.Contains n := by
    intro n bounds hmaximum hminimum
    refine ⟨by exact_mod_cast hminimum, fun maximum h => ?_⟩
    rw [hmaximum] at h
    cases h
  have hevent : Text.ofString envelope.eventType ∈ hotIpEventTypes := by
    rw [htype.eventType]
    cases envelope.payload.type with
    | added => exact List.mem_cons_self
    | removed => exact List.mem_cons_of_mem _ List.mem_cons_self
  -- The attributes are absent or a weight within its bounds.
  have hattributes : ∃ written, encodeAttributes library
      (envelope.payload.attributes.map Document.ofJson) = .ok written ∧
      ∀ p ∈ written, Json.dumpable library.within p.2 = true := by
    rcases htype.attributes with hnone | ⟨weight, hweight⟩
    · rw [hnone]
      exact ⟨[], rfl, fun p hp => absurd hp List.not_mem_nil⟩
    · obtain ⟨hpos, hmax⟩ := hbounds.weight weight hweight
      rw [hweight]
      refine ⟨[field "attributes" (weightDocument weight)], ?_, fun p hp => ?_⟩
      · have hadm : Admissible library.repr _ := admissible_weight hpos hmax
        simp only [Option.map_some, encodeAttributes, weightDocument,
          canonicalAttributes_ofJson library hadm, ok_bind, pure_eq_ok]
      · rw [List.mem_singleton.mp hp]
        simp only [field, weightDocument, Json.dumpable_obj, List.mem_cons, List.not_mem_nil,
          or_false]
        rintro q (rfl | rfl)
        · exact hwithin _
        · exact hwithin _
  obtain ⟨written, hwritten, hdumpable⟩ := hattributes
  obtain ⟨data, hdata⟩ :
      ∃ data, encode library (ofEnvelope envelope timestamp payloadTimestamp) = .ok data :=
    exists_encode_hotIp rfl hevent rfl rfl (hwithin _) rfl (hwithin _)
      (DateTime.isUtc_self (fromTimestamp_offset ht))
      (DateTime.isUtc_self (fromTimestamp_offset hp)) rfl (hcontains rfl (Int.natCast_nonneg _))
      (hwithin _) rfl (hcontains rfl hbounds.windowCount) (hwithin _) rfl
      (hcontains rfl hbounds.configVersion) (hwithin _) hwritten hdumpable
  refine ⟨data, ?_⟩
  unfold encodeTransition
  rw [ht, hp]
  show (encode library _).mapError _ = _
  rw [hdata]
  rfl

/-- The codec, as the services use it. -/
def wire (library : Library) (hlimit : library.intMaxStrDigits = none) : Wire where
  encode := encodeTransition library
  decode := decodeEvent library
  decode_encode _ _ := decodeEvent_encodeTransition
  encode_ok _ := exists_encodeTransition hlimit

end Hammertime.Codec
