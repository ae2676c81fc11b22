import Hammertime.Attributes.Document
import Hammertime.Events
import Hammertime.Lib.JsonReader

/-!
# The wire format

`hammertime.core.events.codec` and the envelope of `hammertime.core.events.envelope`: `encode` checks
an envelope field by field and writes it as compact JSON, and `decode` reads one back, whatever its
key order, extra keys and spellings of numbers.

A field holds what a Python caller put there. An integer field may hold an instance of a subclass of
`int`, which compares and is written as its number but formats itself as it likes, or no integer at
all; and a string that goes into the `event_id` may be an instance of a subclass of `str` in the same
way. A timestamp is a wall-clock reading in microseconds with the offset that its `tzinfo` gives, if
it has one. An attribute document is any object graph. Strings are sequences of code points, lone
surrogates included. What the codec uses of the interpreter beyond that is a `Library`.
-/

namespace Hammertime.Codec

open Lib Attributes

/-- `SCHEMA_VERSION`. -/
def schemaVersion : ℤ := 1

/-- `_MAX_OBSERVATIONS`. -/
def maxObservations : ℕ := 10000

/-! ### What the fields of an event hold -/

/-- What is passed for an integer. -/
inductive PyObject where
  | int (value : ℤ)
  /-- An instance of a subclass of `int` other than `bool`, and the text it formats itself as. -/
  | subclass (value : ℤ) (text : Text)
  /-- A `bool`, or anything that is not an `int`, by the name of its type. -/
  | other (kind : String) (text : Text)

/-- `f"{x}"`. -/
def PyObject.format : PyObject → Text
  | .int n => Text.ofString (toString n)
  | .subclass _ text => text
  | .other _ text => text

/-- What is passed for a string that is formatted: a `str`, or an instance of a subclass, which compares,
hashes and is written as its content but formats itself as it likes, as a member of an `Enum` with
`str` mixed in does. An error quotes the content here, in the place of a subclass's own `repr`. -/
@[ext]
structure PyString where
  content : Text
  /-- `f"{x}"`. -/
  format : Text
deriving DecidableEq

/-- A plain `str`. -/
def PyString.plain (content : Text) : PyString := ⟨content, content⟩

@[simp] theorem PyString.content_plain (t : Text) : (plain t).content = t := rfl

@[simp] theorem PyString.format_plain (t : Text) : (plain t).format = t := rfl

@[simp] theorem PyString.map_format_plain (t : Option Text) : (t.map plain).map format = t := by
  cases t <;> rfl

@[simp] theorem PyString.map_content_plain (t : Option Text) : (t.map plain).map content = t := by
  cases t <;> rfl

/-- The microseconds of the years 1 to 9999. -/
def maxMicroseconds : ℤ := 315537897600000000

/-- A `datetime`: the wall clock in microseconds since the start of the year 1, and the offset from
UTC, none for a naive value. -/
@[ext]
structure DateTime where
  wall : ℤ
  offset : Option ℤ
  inRange : 0 ≤ wall ∧ wall < maxMicroseconds

/-- What is passed for `hot_ratio`. A `bool` is not a number here. -/
inductive Ratio where
  | int (value : ℤ)
  | float (value : Float64)
  | other

/-- `Observation`. -/
@[ext]
structure Observation where
  ip : Address
  requestCount : PyObject

/-- `RequestObservation`. Its `agent_id` is never formatted, and neither is the `prefix` of a
`PrefixStatsChanged`. -/
@[ext]
structure RequestObservation where
  agentId : Text
  sequence : PyObject
  windowStart : DateTime
  windowSeconds : PyObject
  observations : List Observation

/-- `HotIpAdded` and `HotIpRemoved`, which have the same fields. -/
@[ext]
structure HotIpEvent where
  type : HotIpEventType
  ip : Address
  timestamp : DateTime
  sequence : PyObject
  windowCount : PyObject
  configVersion : PyObject
  attributes : Option Document

/-- `PrefixStatsChanged`. -/
@[ext]
structure PrefixStatsChanged where
  prefixText : Text
  hotCount : PyObject
  capacity : PyObject
  sequence : PyObject
  timestamp : DateTime
  hotRatio : Option Ratio

/-- `EventPayload`. -/
inductive EventPayload where
  | requestObservation (payload : RequestObservation)
  | hotIp (payload : HotIpEvent)
  | prefixStatsChanged (payload : PrefixStatsChanged)

/-- The name of the payload's class. -/
def EventPayload.className : EventPayload → String
  | .requestObservation _ => "RequestObservation"
  | .hotIp payload => payload.type.text
  | .prefixStatsChanged _ => "PrefixStatsChanged"

/-! ### Identity -/

/-- The text that `compute_event_id` hashes, for the text of a sequence. -/
def identityText (agentId sequence eventType : Text) (subject : Option Text) : Text :=
  let separator := Text.ofString "\x1f"
  let message := agentId ++ separator ++ sequence ++ separator ++ eventType
  match subject with
  | none => message
  | some subject => message ++ separator ++ subject

/-- `EventEnvelope`. `__post_init__` encodes the hashed text as UTF-8, so that an envelope in which
this raises does not exist. It also formats the sequence, which an interpreter may refuse for an
integer of too many digits: `encode` refuses such an envelope, and `decode` meets none. -/
@[ext]
structure EventEnvelope where
  agentId : PyString
  sequence : PyObject
  eventType : PyString
  configVersion : PyObject
  timestamp : DateTime
  payload : EventPayload
  schemaVersion : PyObject
  subject : Option PyString
  identified : ¬ (identityText agentId.format sequence.format eventType.format
    (subject.map PyString.format)).HasSurrogate

/-! ### Errors -/

/-- What the codec raises: `CodecError`, and inside of it `ValueError`, by what it says. -/
inductive CodecError where
  | integerType (field kind : String)
  | jsonIntegerType (field kind : String)
  | tooSmall (field : String) (minimum : ℤ)
  | tooLarge (field : String) (maximum : ℤ)
  | ratioType (field : String)
  | ratioNotFinite (field : String)
  | decimalString (field : String)
  | digitLimit
  | invalidAddress
  | notUtf8
  | outsideYears (field : String)
  | timestampType (field kind : String)
  | timestampText (field : String) (text : Text)
  | missing (key : String)
  | notAnArray
  | tooManyObservations (count : ℕ)
  | observationNotAnObject
  | attributes (fault : Fault)
  | payloadMismatch (className : String) (eventType : Text)
  | unknownEventType (eventType : Text)
  | unsupportedSchemaVersion (version : ℤ)
  | notSerializable
  | notJson
  | envelopeNotAnObject (kind : String)
  | stringType (field kind : String)
  | payloadNotAnObject
  | eventIdMismatch (wire derived : Text)
  /-- A `ValueError` that was caught, with the prefix of the new message. -/
  | malformed (what : String) (cause : CodecError)

/-- The errors that the codec raises as `ValueError` or `InvalidAddressError` and catches again. -/
def CodecError.isValueError : CodecError → Bool
  | .jsonIntegerType _ _ => true
  | .tooSmall _ _ => true
  | .tooLarge _ _ => true
  | .ratioType _ => true
  | .ratioNotFinite _ => true
  | .decimalString _ => true
  | .digitLimit => true
  | .invalidAddress => true
  | .notUtf8 => true
  | _ => false

/-- The text of an error, with `repr` for the `repr` of a string and `shown` for that of the data that
an error about malformed data quotes. -/
def CodecError.message (repr : Text → String) (shown : String) : CodecError → String
  | .integerType field kind => s!"{field} must be an int, got {kind}"
  | .jsonIntegerType field kind => s!"{field} must be a JSON integer, got {kind}"
  | .tooSmall field minimum => s!"{field} must be >= {minimum}"
  | .tooLarge field maximum => s!"{field} must be <= {maximum}"
  | .ratioType field => s!"{field} must be a number"
  | .ratioNotFinite field => s!"{field} must be finite"
  | .decimalString field => s!"{field} must be a string of ASCII decimal digits"
  | .digitLimit => "capacity cannot be written as a decimal string: " ++ shown
  | .invalidAddress => shown
  | .notUtf8 => shown
  | .outsideYears field => s!"{field} is outside the years 1 to 9999 in UTC"
  | .timestampType field kind => s!"{field} must be a string, got {kind}"
  | .timestampText field text => s!"{field} is not a valid date-time: " ++ repr text
  | .missing key => s!"missing required field: {key}"
  | .notAnArray => "observations must be an array"
  | .tooManyObservations count =>
    s!"observations has {count} entries, exceeding the maximum of {maxObservations} " ++
      "(schemas/observation.v1.json maxItems)"
  | .observationNotAnObject => "each observation must be an object"
  | .attributes fault => "invalid attributes: " ++ fault.message repr
  | .payloadMismatch className eventType =>
    s!"payload type {className} does not match event_type " ++ repr eventType
  | .unknownEventType eventType => "unknown event_type: " ++ repr eventType
  | .unsupportedSchemaVersion version => s!"unsupported schema_version: {version}"
  | .notSerializable => "could not serialize envelope: " ++ shown
  | .notJson => "envelope is not valid JSON: " ++ shown
  | .envelopeNotAnObject kind => s!"envelope must be a JSON object, got {kind}"
  | .stringType field kind => s!"{field} must be a string, got {kind}"
  | .payloadNotAnObject => "payload must be a JSON object"
  | .eventIdMismatch wire derived =>
    "event_id " ++ repr wire ++ " does not match the identity fields " ++
      "(agent_id, sequence, event_type, subject); derived " ++ repr derived
  | .malformed what _ => s!"malformed {what}: " ++ shown

/-! ### The interpreter -/

/-- An integer has no more digits than a limit, where there is one. -/
def withinDigits (limit : Option ℕ) (n : ℤ) : Bool :=
  limit.all fun digits => decide (n.natAbs < 10 ^ digits)

/-- Distinct keys in every object, and integers within the limit: what a value that `json.loads`
built is like. -/
def loadedAlgebra (limit : Option ℕ) : Json.Algebra Bool where
  null := true
  bool _ := true
  int n := withinDigits limit n
  float _ := true
  str _ := true
  arr items := items.all id
  obj fields := decide (fields.map Prod.fst).Nodup && fields.all Prod.snd

/-- A value that `json.loads` can have built. -/
def loaded (limit : Option ℕ) : Json → Bool := Json.fold (loadedAlgebra limit)

/-- Distinct keys without surrogates in every object. -/
def distinctKeysAlgebra : Json.Algebra Prop where
  null := True
  bool _ := True
  int _ := True
  float _ := True
  str _ := True
  arr items := ∀ p ∈ items, p
  obj fields := (fields.map Prod.fst).Nodup ∧ ∀ p ∈ fields, ¬ p.1.HasSurrogate ∧ p.2

/-- Every object of the value has distinct keys, all of them well formed. -/
def DistinctKeys : Json → Prop := Json.fold distinctKeysAlgebra

/-- What the codec uses of the interpreter, with what it relies on. -/
structure Library extends FloatFormat where
  /-- `sys.get_int_max_str_digits()`: the digits of an integer that is read or written, none when the
  limit is disabled. -/
  intMaxStrDigits : Option ℕ
  /-- `json.loads`, or what it raises. -/
  loads : Bytes → Option Json
  /-- `str()` of a value that `json.loads` built. -/
  str : Json → Text
  /-- `str(ip)`. -/
  addressText : Address → String
  /-- `Address.parse`, or its `InvalidAddressError`. -/
  parseAddress : Text → Option Address
  /-- `value.isoformat().replace("+00:00", "Z")` of a value in UTC. -/
  isoformat : DateTime → String
  /-- `datetime.fromisoformat`, or its `ValueError`. -/
  fromisoformat : Text → Option DateTime
  /-- The hexadecimal SHA-256 digest of a text's UTF-8. -/
  digest : Text → String
  /-- A limit is at least `sys.int_info.str_digits_check_threshold`. -/
  le_intMaxStrDigits : ∀ digits ∈ intMaxStrDigits, 640 ≤ digits
  /-- The parser inverts the printer. -/
  loads_text : ∀ j, j.dumpable (withinDigits intMaxStrDigits) = true → DistinctKeys j →
    loads (utf8 (String.ofList (Json.text repr j))) = some j.rejoin
  loads_loaded : ∀ data j, loads data = some j → loaded intMaxStrDigits j = true
  str_str : ∀ text, str (.str text) = text
  str_hasSurrogate : ∀ j, (str j).HasSurrogate → j.HasSurrogate
  /-- The text of an address parses back to the address. -/
  parseAddress_text : ∀ ip, parseAddress (addressText ip) = some ip
  /-- The text of a value in UTC parses back to the value. -/
  fromisoformat_text : ∀ value, value.offset = some 0 →
    fromisoformat (isoformat value) = some value

/-- An integer that the interpreter reads and writes. -/
def Library.within (library : Library) (n : ℤ) : Bool := withinDigits library.intMaxStrDigits n

/-- `event_id`. -/
def EventEnvelope.eventId (library : Library) (envelope : EventEnvelope) : Text :=
  library.digest (identityText envelope.agentId.format envelope.sequence.format
    envelope.eventType.format (envelope.subject.map PyString.format))

/-! ### Ranges and fields -/

/-- `_Range`. -/
structure Range where
  minimum : ℤ
  maximum : Option ℤ

/-- `_OBSERVATION_SEQUENCE`. -/
def observationSequence : Range := ⟨0, some 9223372036854775807⟩

/-- `_OBSERVATION_WINDOW_SECONDS`. -/
def observationWindowSeconds : Range := ⟨1, some 3600⟩

/-- `_OBSERVATION_REQUEST_COUNT`. -/
def observationRequestCount : Range := ⟨0, some 1000000000⟩

/-- `_HOT_IP_SEQUENCE`. -/
def hotIpSequence : Range := ⟨0, none⟩

/-- `_HOT_IP_WINDOW_COUNT`. -/
def hotIpWindowCount : Range := ⟨0, none⟩

/-- `_HOT_IP_CONFIG_VERSION`. -/
def hotIpConfigVersion : Range := ⟨1, none⟩

/-- `_PREFIX_STATS_HOT_COUNT`. -/
def prefixStatsHotCount : Range := ⟨0, none⟩

/-- `_PREFIX_STATS_SEQUENCE`. -/
def prefixStatsSequence : Range := ⟨0, none⟩

/-- `_PREFIX_STATS_HOT_RATIO`. -/
def prefixStatsHotRatio : Range := ⟨0, some 1⟩

/-- `_range_violation`, for an integer or for the value of a float. -/
def rangeViolation (value : ℚ) (field : String) (bounds : Range) : Option CodecError :=
  if value < bounds.minimum then some (.tooSmall field bounds.minimum)
  else
    match bounds.maximum with
    | none => none
    | some maximum => if value > maximum then some (.tooLarge field maximum) else none

/-- What a decoded value is, as `_json_kind` says. -/
def jsonKind : Json → String
  | .null => "null"
  | .bool _ => "a boolean"
  | .int _ => "int"
  | .float _ => "a fractional or non-finite number"
  | .str _ => "a string"
  | .arr _ => "an array"
  | .obj _ => "an object"

/-- `type(value).__name__`. -/
def typeName : Json → String
  | .null => "NoneType"
  | .bool _ => "bool"
  | .int _ => "int"
  | .float _ => "float"
  | .str _ => "str"
  | .arr _ => "list"
  | .obj _ => "dict"

/-- `_json_integer`. -/
def jsonInteger (value : Json) (field : String) : Except CodecError ℤ :=
  match value with
  | .int n => .ok n
  | .float f =>
    if f.isInteger then .ok f.toInt else .error (.jsonIntegerType field (jsonKind value))
  | _ => .error (.jsonIntegerType field (jsonKind value))

/-- `_integer_field`. -/
def integerField (value : PyObject) (field : String) : Except CodecError ℤ :=
  match value with
  | .int n => .ok n
  | .subclass n _ => .ok n
  | .other kind _ => .error (.integerType field kind)

/-- An integer within its bounds. -/
def bounded (number : ℤ) (field : String) (bounds : Range) : Except CodecError ℤ :=
  match rangeViolation number field bounds with
  | none => .ok number
  | some violation => .error violation

/-- `_bounded_json_integer`. -/
def boundedJsonInteger (value : Json) (field : String) (bounds : Range) : Except CodecError ℤ := do
  let number ← jsonInteger value field
  bounded number field bounds

/-- `_bounded_integer_field`. -/
def boundedIntegerField (value : PyObject) (field : String) (bounds : Range) :
    Except CodecError ℤ := do
  let number ← integerField value field
  bounded number field bounds

/-- `_ratio_violation`, and the `float` of what it lets through: the bounds leave 0 and 1 of the
integers. -/
def boundedRatio (value : Ratio) (field : String) (bounds : Range) : Except CodecError Float64 :=
  match value with
  | .other => .error (.ratioType field)
  | .int n =>
    match rangeViolation n field bounds with
    | some violation => .error violation
    | none => .ok (if n = 0 then .zero else .one)
  | .float f =>
    if f.isFinite then
      match rangeViolation f.value field bounds with
      | some violation => .error violation
      | none => .ok f
    else .error (.ratioNotFinite field)

/-- A decoded value as what `_ratio_violation` sees. -/
def ratioOfJson : Json → Ratio
  | .int n => .int n
  | .float f => .float f
  | _ => .other

/-- The natural number that ASCII digits write, none for any other string. -/
def digitsValue (text : Text) : Option ℕ :=
  if text ≠ [] ∧ text.all fun c => 48 ≤ c.val && c.val ≤ 57 then
    some (text.foldl (fun value c => value * 10 + (c.val - 48)) 0)
  else none

/-- `_to_utc`. -/
def toUtc (value : DateTime) (field : String) : Except CodecError DateTime :=
  match value.offset with
  | none => .ok { value with offset := some 0 }
  | some offset =>
    if h : 0 ≤ value.wall - offset ∧ value.wall - offset < maxMicroseconds then
      .ok ⟨value.wall - offset, some 0, h⟩
    else .error (.outsideYears field)

/-- `_require`. -/
def require (data : List (Text × Json)) (key : String) : Except CodecError Json :=
  match Dict.lookup (Text.ofString key) data with
  | some value => .ok value
  | none => .error (.missing key)

/-- The clause that turns a caught `ValueError` into a `CodecError`. -/
def malformed {α : Type} (what : String) (x : Except CodecError α) : Except CodecError α :=
  match x with
  | .ok a => .ok a
  | .error e => if e.isValueError then .error (.malformed what e) else .error e

/-- A field of a document. -/
def field (key : String) (value : Json) : Text × Json := (Text.ofString key, value)

/-- A string value of a document. -/
def text (value : String) : Json := .str (Text.ofString value)

section

variable (library : Library)

/-- `int.__repr__`, which raises `ValueError` beyond the limit. -/
def decimal (n : ℤ) : Option Text :=
  if library.within n then some (Text.ofString (toString n)) else none

/-- `_decimal_string`. `int()` refuses more digits than the interpreter's limit, leading zeros
included. -/
def decimalString (value : Json) (field : String) : Except CodecError ℤ :=
  match value with
  | .str text =>
    match digitsValue text with
    | none => .error (.decimalString field)
    | some n =>
      if library.intMaxStrDigits.all fun digits => text.length ≤ digits then .ok n
      else .error .digitLimit
  | _ => .error (.decimalString field)

/-- `_format_timestamp`. -/
def formatTimestamp (value : DateTime) (field : String) : Except CodecError String := do
  let value ← toUtc value field
  pure (library.isoformat value)

/-- `_parse_timestamp`. -/
def parseTimestamp (value : Json) (field : String) : Except CodecError DateTime :=
  match value with
  | .str text =>
    match library.fromisoformat text with
    | none => .error (.timestampText field text)
    | some parsed => toUtc parsed field
  | _ => .error (.timestampType field (typeName value))

/-- `Address.parse(str(value))`. -/
def parseIp (value : Json) : Except CodecError Address :=
  match library.parseAddress (library.str value) with
  | none => .error .invalidAddress
  | some ip => .ok ip

/-- `_canonical_attributes`. -/
def canonicalAttributes (document : Document) : Except CodecError (List (Text × Json)) :=
  match canonicalizeIpAttributes library.repr document.heap document.root with
  | .ok canonical => .ok canonical.document
  | .error fault => .error (.attributes fault)

/-! ### Encoding payloads -/

/-- One entry of `observations`. -/
def encodeObservation (observation : Observation) : Except CodecError Json := do
  let requestCount ←
    boundedIntegerField observation.requestCount "request_count" observationRequestCount
  pure (.obj [field "ip" (text (library.addressText observation.ip)),
    field "request_count" (.int requestCount)])

/-- `_encode_request_observation`. -/
def encodeRequestObservation (payload : RequestObservation) :
    Except CodecError (List (Text × Json)) := do
  let sequence ← boundedIntegerField payload.sequence "sequence" observationSequence
  let windowStart ← formatTimestamp library payload.windowStart "window_start"
  let windowSeconds ←
    boundedIntegerField payload.windowSeconds "window_seconds" observationWindowSeconds
  let observations ← payload.observations.mapM (encodeObservation library)
  pure [field "agent_id" (.str payload.agentId), field "sequence" (.int sequence),
    field "window_start" (text windowStart), field "window_seconds" (.int windowSeconds),
    field "observations" (.arr observations)]

/-- The `attributes` field of a hot-ip event, which `None` leaves out. -/
def encodeAttributes : Option Document → Except CodecError (List (Text × Json))
  | none => .ok []
  | some document => do
    let canonical ← canonicalAttributes library document
    pure [field "attributes" (.obj canonical)]

/-- `_encode_hot_ip_event`. -/
def encodeHotIpEvent (eventType : Text) (payload : HotIpEvent) :
    Except CodecError (List (Text × Json)) := do
  let timestamp ← formatTimestamp library payload.timestamp "timestamp"
  let sequence ← boundedIntegerField payload.sequence "sequence" hotIpSequence
  let windowCount ← boundedIntegerField payload.windowCount "window_count" hotIpWindowCount
  let configVersion ←
    boundedIntegerField payload.configVersion "config_version" hotIpConfigVersion
  let attributes ← encodeAttributes library payload.attributes
  pure ([field "type" (.str eventType), field "ip" (text (library.addressText payload.ip)),
    field "family" (text payload.ip.family.text), field "timestamp" (text timestamp),
    field "sequence" (.int sequence), field "window_count" (.int windowCount),
    field "config_version" (.int configVersion)] ++ attributes)

/-- `_encode_capacity`. -/
def encodeCapacity (capacity : PyObject) : Except CodecError Text := do
  let value ← integerField capacity "capacity"
  if value < 0 then .error (.tooSmall "capacity" 0)
  else
    match decimal library value with
    | none => .error .digitLimit
    | some text => .ok text

/-- The `hot_ratio` field, which `None` leaves out. -/
def encodeHotRatio : Option Ratio → Except CodecError (List (Text × Json))
  | none => .ok []
  | some ratio => do
    let ratio ← boundedRatio ratio "hot_ratio" prefixStatsHotRatio
    pure [field "hot_ratio" (.float ratio)]

/-- `_encode_prefix_stats_changed`. -/
def encodePrefixStatsChanged (payload : PrefixStatsChanged) :
    Except CodecError (List (Text × Json)) := do
  let hotCount ← boundedIntegerField payload.hotCount "hot_count" prefixStatsHotCount
  let capacity ← encodeCapacity library payload.capacity
  let sequence ← boundedIntegerField payload.sequence "sequence" prefixStatsSequence
  let timestamp ← formatTimestamp library payload.timestamp "timestamp"
  let hotRatio ← encodeHotRatio payload.hotRatio
  pure ([field "prefix" (.str payload.prefixText), field "hot_count" (.int hotCount),
    field "capacity" (.str capacity), field "sequence" (.int sequence),
    field "timestamp" (text timestamp)] ++ hotRatio)

/-- `_HOT_IP_EVENT_TYPES`. -/
def hotIpEventTypes : List Text := [Text.ofString "HotIpAdded", Text.ofString "HotIpRemoved"]

/-- `_KNOWN_EVENT_TYPES`. -/
def knownEventTypes : List Text :=
  [Text.ofString "RequestObservation", Text.ofString "PrefixStatsChanged"] ++ hotIpEventTypes

/-- `_encode_payload`. Either hot-ip type goes with either hot-ip class. -/
def encodePayload (eventType : Text) (payload : EventPayload) :
    Except CodecError (List (Text × Json)) :=
  match payload with
  | .requestObservation observation =>
    if eventType = Text.ofString "RequestObservation" then
      encodeRequestObservation library observation
    else .error (.payloadMismatch payload.className eventType)
  | .hotIp event =>
    if eventType ∈ hotIpEventTypes then encodeHotIpEvent library eventType event
    else .error (.payloadMismatch payload.className eventType)
  | .prefixStatsChanged stats =>
    if eventType = Text.ofString "PrefixStatsChanged" then encodePrefixStatsChanged library stats
    else .error (.payloadMismatch payload.className eventType)

/-! ### Decoding payloads -/

/-- One entry of `observations`. -/
def decodeObservation (item : Json) : Except CodecError Observation :=
  match item with
  | .obj fields =>
    malformed "observation entry" do
      let ip ← require fields "ip"
      let ip ← parseIp library ip
      let requestCount ← require fields "request_count"
      let requestCount ← boundedJsonInteger requestCount "request_count" observationRequestCount
      pure ⟨ip, .int requestCount⟩
  | _ => .error .observationNotAnObject

/-- `_decode_request_observation`. -/
def decodeRequestObservation (data : List (Text × Json)) :
    Except CodecError RequestObservation := do
  let rawObservations ← require data "observations"
  match rawObservations with
  | .arr items =>
    if items.length > maxObservations then .error (.tooManyObservations items.length)
    else do
      let observations ← items.mapM (decodeObservation library)
      malformed "RequestObservation payload" do
        let agentId ← require data "agent_id"
        let sequence ← require data "sequence"
        let sequence ← boundedJsonInteger sequence "sequence" observationSequence
        let windowStart ← require data "window_start"
        let windowStart ← parseTimestamp library windowStart "window_start"
        let windowSeconds ← require data "window_seconds"
        let windowSeconds ←
          boundedJsonInteger windowSeconds "window_seconds" observationWindowSeconds
        pure ⟨library.str agentId, .int sequence, windowStart, .int windowSeconds, observations⟩
  | _ => .error .notAnArray

/-- The `attributes` of a hot-ip event. An explicit null is a document that is not an object. -/
def decodeAttributes (data : List (Text × Json)) : Except CodecError (Option Document) :=
  match Dict.lookup (Text.ofString "attributes") data with
  | none => .ok none
  | some raw => do
    let canonical ← canonicalAttributes library (.ofJson raw)
    pure (some (Document.ofJson (.obj canonical)))

/-- `_decode_hot_ip_event`. -/
def decodeHotIpEvent (eventType : Text) (data : List (Text × Json)) :
    Except CodecError HotIpEvent := do
  let (ip, timestamp, sequence, windowCount, configVersion) ←
    malformed "hot-ip payload" do
      let ip ← require data "ip"
      let ip ← parseIp library ip
      let timestamp ← require data "timestamp"
      let timestamp ← parseTimestamp library timestamp "timestamp"
      let sequence ← require data "sequence"
      let sequence ← boundedJsonInteger sequence "sequence" hotIpSequence
      let windowCount ← require data "window_count"
      let windowCount ← boundedJsonInteger windowCount "window_count" hotIpWindowCount
      let configVersion ← require data "config_version"
      let configVersion ← boundedJsonInteger configVersion "config_version" hotIpConfigVersion
      pure (ip, timestamp, sequence, windowCount, configVersion)
  let attributes ← decodeAttributes library data
  let type := if eventType = Text.ofString "HotIpAdded" then .added else .removed
  pure ⟨type, ip, timestamp, .int sequence, .int windowCount, .int configVersion, attributes⟩

/-- The `hot_ratio`, in which a null is not a number. -/
def decodeHotRatio (data : List (Text × Json)) : Except CodecError (Option Ratio) :=
  match Dict.lookup (Text.ofString "hot_ratio") data with
  | none => .ok none
  | some raw => do
    let ratio ← boundedRatio (ratioOfJson raw) "hot_ratio" prefixStatsHotRatio
    pure (some (Ratio.float ratio))

/-- `_decode_prefix_stats_changed`. -/
def decodePrefixStatsChanged (data : List (Text × Json)) :
    Except CodecError PrefixStatsChanged :=
  malformed "PrefixStatsChanged payload" do
    let prefixValue ← require data "prefix"
    let hotCount ← require data "hot_count"
    let hotCount ← boundedJsonInteger hotCount "hot_count" prefixStatsHotCount
    let capacity ← require data "capacity"
    let capacity ← decimalString library capacity "capacity"
    let sequence ← require data "sequence"
    let sequence ← boundedJsonInteger sequence "sequence" prefixStatsSequence
    let timestamp ← require data "timestamp"
    let timestamp ← parseTimestamp library timestamp "timestamp"
    let hotRatio ← decodeHotRatio data
    pure ⟨library.str prefixValue, .int hotCount, .int capacity, .int sequence, timestamp, hotRatio⟩

/-- `_decode_payload`. -/
def decodePayload (eventType : Text) (data : List (Text × Json)) :
    Except CodecError EventPayload :=
  if eventType = Text.ofString "RequestObservation" then
    EventPayload.requestObservation <$> decodeRequestObservation library data
  else if eventType ∈ hotIpEventTypes then
    EventPayload.hotIp <$> decodeHotIpEvent library eventType data
  else if eventType = Text.ofString "PrefixStatsChanged" then
    EventPayload.prefixStatsChanged <$> decodePrefixStatsChanged library data
  else .error (.unknownEventType eventType)

/-! ### Envelopes -/

/-- `json.dumps(document, separators=(",", ":"), allow_nan=False).encode("utf-8")`. -/
def dumps (document : Json) : Except CodecError Bytes :=
  if document.dumpable library.within then .ok (utf8 (String.ofList (Json.text library.repr document)))
  else .error .notSerializable

/-- The `subject` field, which `None` leaves out. -/
def subjectField : Option Text → List (Text × Json)
  | none => []
  | some subject => [field "subject" (.str subject)]

/-- `encode`. -/
def encode (envelope : EventEnvelope) : Except CodecError Bytes :=
  if envelope.eventType.content ∉ knownEventTypes then
    .error (.unknownEventType envelope.eventType.content)
  else do
    let version ← integerField envelope.schemaVersion "schema_version"
    if version ≠ schemaVersion then .error (.unsupportedSchemaVersion version)
    else do
      let sequence ← integerField envelope.sequence "sequence"
      let configVersion ← integerField envelope.configVersion "config_version"
      let timestamp ← formatTimestamp library envelope.timestamp "timestamp"
      let payload ← encodePayload library envelope.eventType.content envelope.payload
      dumps library (.obj ([field "schema_version" (.int version),
        field "event_id" (.str (envelope.eventId library)),
        field "agent_id" (.str envelope.agentId.content), field "sequence" (.int sequence),
        field "event_type" (.str envelope.eventType.content),
        field "config_version" (.int configVersion), field "timestamp" (text timestamp),
        field "payload" (.obj payload)] ++ subjectField (envelope.subject.map PyString.content)))

/-- The constructor of `EventEnvelope`, with the `ValueError` of a text that does not encode. -/
def makeEnvelope (agentId : PyString) (sequence : PyObject) (eventType : PyString)
    (configVersion : PyObject) (timestamp : DateTime) (payload : EventPayload)
    (schemaVersion : PyObject) (subject : Option PyString) : Except CodecError EventEnvelope :=
  if h : (identityText agentId.format sequence.format eventType.format
      (subject.map PyString.format)).HasSurrogate then .error .notUtf8
  else .ok ⟨agentId, sequence, eventType, configVersion, timestamp, payload, schemaVersion, subject, h⟩

/-- The `subject` of a document: absent and null are both none. -/
def decodeSubject (document : List (Text × Json)) : Except CodecError (Option Text) :=
  match Dict.lookup (Text.ofString "subject") document with
  | none => .ok none
  | some .null => .ok none
  | some (.str subject) => .ok (some subject)
  | some other => .error (.stringType "subject" (typeName other))

/-- `decode`, of the document that the bytes hold. -/
def decodeDocument (document : List (Text × Json)) : Except CodecError EventEnvelope := do
  let version ← require document "schema_version"
  let version ← malformed "schema_version" (jsonInteger version "schema_version")
  if version ≠ schemaVersion then .error (.unsupportedSchemaVersion version)
  else do
    let eventType ← require document "event_type"
    match eventType with
    | .str eventType =>
      if eventType ∉ knownEventTypes then .error (.unknownEventType eventType)
      else do
        let payload ← require document "payload"
        match payload with
        | .obj payloadData => do
          let wireEventId ← require document "event_id"
          let subject ← decodeSubject document
          let envelope ← malformed "envelope" do
            let agentId ← require document "agent_id"
            let sequence ← require document "sequence"
            let sequence ← jsonInteger sequence "sequence"
            let configVersion ← require document "config_version"
            let configVersion ← jsonInteger configVersion "config_version"
            let timestamp ← require document "timestamp"
            let timestamp ← parseTimestamp library timestamp "timestamp"
            let payload ← decodePayload library eventType payloadData
            makeEnvelope (.plain (library.str agentId)) (.int sequence) (.plain eventType)
              (.int configVersion) timestamp payload (.int version) (subject.map .plain)
          -- The wire's event_id is only compared with the derived one.
          if envelope.eventId library ≠ library.str wireEventId then
            .error (.eventIdMismatch (library.str wireEventId) (envelope.eventId library))
          else pure envelope
        | _ => .error .payloadNotAnObject
    | other => .error (.stringType "event_type" (typeName other))

/-- `decode`. -/
def decode (data : Bytes) : Except CodecError EventEnvelope :=
  match library.loads data with
  | none => .error .notJson
  | some (.obj document) => decodeDocument library document
  | some other => .error (.envelopeNotAnObject (typeName other))

end

end Hammertime.Codec
