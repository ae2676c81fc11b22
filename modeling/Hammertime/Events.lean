import Hammertime.Addressing
import Hammertime.Detection
import Hammertime.Lib.Json

/-!
# Events and their identity

The payloads and the envelope of `hammertime.core.events`, the identity of an event, and what the
services need of the codec. The services only ever hold the bytes that `encode` returned and the
envelopes that `decode` returned, so the codec enters them as a `Wire`: any pair of functions in
which a transition within its bounds is encoded, and decodes to what it was.

A time is a UTC epoch second. Of an observation's `window_start` only the floor of its timestamp is
read, and that is what is kept here.
-/

namespace Hammertime

open Lib

/-- `bytes`. -/
abbrev Bytes := List UInt8

/-- `text.encode("utf-8")`. -/
def utf8 (text : String) : Bytes := text.toUTF8.data.toList

/-- `Observation`: one `(ip, delta)` pair. The decoder admits no negative count. -/
structure Observation where
  ip : Address
  requestCount : ℕ
deriving DecidableEq

/-- `RequestObservation`, as far as the aggregator reads it. -/
structure RequestObservation where
  /-- The floor of `window_start.timestamp()`. -/
  windowStart : ℤ
  windowSeconds : ℤ
  observations : List Observation
deriving DecidableEq

/-- The two hot-ip event types. -/
inductive HotIpEventType where
  | added
  | removed
deriving DecidableEq, Repr

/-- The event type as the envelope names it. -/
def HotIpEventType.text : HotIpEventType → String
  | .added => "HotIpAdded"
  | .removed => "HotIpRemoved"

/-- `HotIpAdded` and `HotIpRemoved`, which have the same fields. -/
structure HotIpEvent where
  type : HotIpEventType
  ip : Address
  timestamp : ℤ
  sequence : ℕ
  windowCount : ℤ
  configVersion : ℤ
  attributes : Option Json

/-- `EventPayload`. No modelled function reads a field of a `PrefixStatsChanged`. -/
inductive EventPayload where
  | requestObservation (payload : RequestObservation)
  | hotIp (payload : HotIpEvent)
  | prefixStatsChanged

/-- `EventEnvelope`. -/
structure EventEnvelope (α : Type) where
  agentId : String
  sequence : ℤ
  eventType : String
  configVersion : ℤ
  timestamp : ℤ
  payload : α
  subject : Option String

/-- The text that `compute_event_id` hashes. -/
def identityText (agentId : String) (sequence : ℤ) (eventType : String) (subject : Option String) :
    String :=
  let message := agentId ++ "\x1f" ++ toString sequence ++ "\x1f" ++ eventType
  match subject with
  | none => message
  | some subject => message ++ "\x1f" ++ subject

/-- Two texts that start with a part free of the separator agree in that part and in the rest. -/
theorem separated_inj {α : Type} {c : α} {l l' r r' : List α} (h : c ∉ l) (h' : c ∉ l')
    (heq : l ++ c :: r = l' ++ c :: r') : l = l' ∧ r = r' := by
  induction l generalizing l' with
  | nil =>
    cases l' with
    | nil => exact ⟨rfl, (List.cons.inj heq).2⟩
    | cons a l' => exact absurd ((List.cons.inj heq).1 ▸ List.mem_cons_self) h'
  | cons a l ih =>
    cases l' with
    | nil => exact absurd ((List.cons.inj heq).1 ▸ List.mem_cons_self) h
    | cons a' l' =>
      obtain ⟨ha, hrest⟩ := List.cons.inj heq
      obtain ⟨hl, hr⟩ := ih (fun hc => h (List.mem_cons_of_mem _ hc))
        (fun hc => h' (List.mem_cons_of_mem _ hc)) hrest
      exact ⟨by rw [ha, hl], hr⟩

/-- Two texts that end in a part free of the separator agree in that part and in what is before. -/
theorem separated_inj_right {α : Type} {c : α} {l l' r r' : List α} (h : c ∉ r) (h' : c ∉ r')
    (heq : l ++ c :: r = l' ++ c :: r') : l = l' ∧ r = r' := by
  have hreverse : r.reverse ++ c :: l.reverse = r'.reverse ++ c :: l'.reverse := by
    simpa using congrArg List.reverse heq
  obtain ⟨hr, hl⟩ := separated_inj (mt List.mem_reverse.mp h) (mt List.mem_reverse.mp h') hreverse
  exact ⟨List.reverse_inj.mp hl, List.reverse_inj.mp hr⟩

/-- A decimal number holds no separator. -/
theorem separator_notMem_repr (n : ℕ) : '\x1f' ∉ n.repr.toList := by
  rw [Nat.toList_repr]
  intro h
  exact absurd (Nat.isDigit_of_mem_toDigits (by norm_num) (by norm_num) h) (by decide)

/-- The decimal text of a natural number determines it. -/
theorem repr_inj {m n : ℕ} (h : m.repr = n.repr) : m = n := by
  have hdigits := congrArg (fun text : String => Nat.ofDigitChars 10 text.toList 0) h
  simpa only [Nat.toList_repr, Nat.ofDigitChars_ten_toDigits] using hdigits

/-- Producers whose names hold no separator, and natural sequence numbers, can be read off the
hashed text. -/
theorem identityText_inj {agent agent' : String} (ha : '\x1f' ∉ agent.toList)
    (ha' : '\x1f' ∉ agent'.toList) {m n : ℕ} {type type' subject subject' : String}
    (h : identityText agent m type (some subject) = identityText agent' n type' (some subject')) :
    agent = agent' ∧ m = n := by
  have hlist := congrArg String.toList h
  simp only [identityText, String.toList_append, List.append_assoc] at hlist
  obtain ⟨hagent, hrest⟩ := separated_inj ha ha' hlist
  obtain ⟨hseq, -⟩ := separated_inj (separator_notMem_repr m) (separator_notMem_repr n) hrest
  exact ⟨String.toList_inj.mp hagent, repr_inj (String.toList_inj.mp hseq)⟩

/-- `EventEnvelope.event_id`: the digest of the identity fields. -/
def EventEnvelope.eventId {α : Type} (digest : String → String) (envelope : EventEnvelope α) :
    String :=
  digest (identityText envelope.agentId envelope.sequence envelope.eventType envelope.subject)

/-- The same envelope with its payload among all payloads. -/
def EventEnvelope.general (envelope : EventEnvelope HotIpEvent) : EventEnvelope EventPayload where
  agentId := envelope.agentId
  sequence := envelope.sequence
  eventType := envelope.eventType
  configVersion := envelope.configVersion
  timestamp := envelope.timestamp
  payload := .hotIp envelope.payload
  subject := envelope.subject

/-- `ATTRIBUTES_VERSION`. -/
def attributesVersion : ℤ := 1

/-- The attribute document of a weight. -/
def weightDocument (weight : ℤ) : Json :=
  .obj [(("attributes_version" : String), .int attributesVersion), (("weight" : String), .int weight)]

/-- `transition_attributes`: the registry generation and the weight. -/
def transitionAttributes (windowCount : ℤ) (config : DetectionConfig) : Except Failure Json := do
  let weight ← computeWeight windowCount config
  pure (weightDocument weight)

/-- The envelope of a transition: its type is its payload's, and the attributes, if any, are a
weight's. -/
structure EventEnvelope.IsTransition (envelope : EventEnvelope HotIpEvent) : Prop where
  eventType : envelope.eventType = envelope.payload.type.text
  attributes : envelope.payload.attributes = none ∨
    ∃ weight, envelope.payload.attributes = some (weightDocument weight)

/-- The bounds of `datetime.fromtimestamp(now, tz=UTC)`: the years 1 to 9999. -/
def datetimeRange (now : ℤ) : Bool := decide (-62135596800 ≤ now ∧ now ≤ 253402300799)

/-- The bounds that `hot_ip_event.v1.json` and `ip_attributes.v1.json` put on what a transition
carries. -/
structure EventEnvelope.InBounds (envelope : EventEnvelope HotIpEvent) : Prop where
  timestamp : datetimeRange envelope.timestamp = true
  payloadTimestamp : datetimeRange envelope.payload.timestamp = true
  windowCount : 0 ≤ envelope.payload.windowCount
  configVersion : 1 ≤ envelope.payload.configVersion
  weight : ∀ weight, envelope.payload.attributes = some (weightDocument weight) →
    0 ≤ weight ∧ weight ≤ 1000000

/-- What the services use of the codec. -/
structure Wire where
  /-- `codec.encode`, or its `CodecError`. -/
  encode : EventEnvelope HotIpEvent → Except Failure Bytes
  /-- `codec.decode`, or its `CodecError`. -/
  decode : Bytes → Except Failure (EventEnvelope EventPayload)
  /-- A transition that was encoded decodes to what it was. -/
  decode_encode : ∀ envelope bytes, envelope.IsTransition → encode envelope = .ok bytes →
    decode bytes = .ok envelope.general
  /-- A transition within its bounds is encoded. -/
  encode_ok : ∀ envelope, envelope.IsTransition → envelope.InBounds →
    ∃ bytes, encode envelope = .ok bytes

/-- The hot-ip event that the bytes of a log record hold, with the agent that wrote it. -/
def Wire.readHotIp (wire : Wire) (value : Bytes) : Option (String × HotIpEvent) :=
  match wire.decode value with
  | .ok ⟨agentId, _, _, _, _, .hotIp event, _⟩ => some (agentId, event)
  | _ => none

theorem Wire.readHotIp_encode (wire : Wire) {envelope : EventEnvelope HotIpEvent} {bytes : Bytes}
    (ht : envelope.IsTransition) (h : wire.encode envelope = .ok bytes) :
    wire.readHotIp bytes = some (envelope.agentId, envelope.payload) := by
  unfold readHotIp
  rw [wire.decode_encode envelope bytes ht h]
  rfl

end Hammertime
