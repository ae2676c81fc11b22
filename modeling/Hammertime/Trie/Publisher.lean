import Hammertime.Bus.Memory
import Hammertime.Codec.Wire
import Hammertime.Lib.Narrowing
import Hammertime.Trie.Agreement

/-!
# The prefix statistics of an event

`PrefixStatsPublisher` of `hammertime.trie.publisher`, `ancestor_stats` of
`hammertime.trie.metadata.combine`, and what they use of `Prefix`. `prepare` reads the counts of an
address's prefixes and encodes one message for each; `publish` hands all of them to the log at once.

The publishes of one event run concurrently. Their order, and whether each returns, raises or is
cancelled, is decided outside of the code, and so it is a parameter here (`Publishing`).
-/

namespace Hammertime.Prefix

open Lib Trie

variable (p : Prefix)

/-- `Prefix.capacity`. -/
def capacity : ℤ := 2 ^ (p.family.bitLength - p.length)

/-- `Prefix.hot_ratio`. -/
def hotRatio (hotCount : ℤ) : Float64 := floatOfFraction ((hotCount : ℚ) / p.capacity)

/-- `Prefix.__str__`, for a network that is an address of the family: the address writes its
number. -/
def text (library : Codec.Library) : Option String :=
  (Address.make? p.family p.network).map fun network =>
    s!"{library.addressText network}/{p.length}"

end Hammertime.Prefix

namespace Hammertime.Trie

open Codec (Library PyObject DateTime CodecError)
open Lib Bus

/-! ### `ancestor_stats` -/

/-- `PrefixStats`: a prefix and its count, with the check of `__post_init__`. -/
structure PrefixStats where
  pfx : Prefix
  hotCount : ℤ
  /-- `hot_count must be >= 0`. -/
  hotCount_nonneg : 0 ≤ hotCount

/-- What `prepare` raises. -/
inductive PrepareError where
  /-- What the trie raises. -/
  | trie (error : TrieError)
  /-- `ValueError`: `hot_count must be >= 0 for {prefix}`. -/
  | negativeCount (pfx : Prefix) (hotCount : ℤ)
  /-- `InvalidAddressError`: a network that is no address. -/
  | invalidAddress (network : ℤ)
  /-- `CodecError`, and the `ValueError` of an envelope that does not encode. -/
  | codec (error : CodecError)

/-- The constructor of `PrefixStats`. -/
def PrefixStats.make (count : PrefixCount) : Except PrepareError PrefixStats :=
  if h : 0 ≤ count.hotCount then .ok ⟨count.pfx, count.hotCount, h⟩
  else .error (.negativeCount count.pfx count.hotCount)

/-- `ancestor_stats`. -/
def ancestorStats (trie : PatriciaTrie) (address : Address) (minLength : ℤ) :
    Except PrepareError (List PrefixStats) := do
  let counts ← (trie.ancestorCounts address minLength).mapError .trie
  counts.mapM PrefixStats.make

/-! ### `prepare` -/

/-- `AGENT_ID`. -/
def agentId : String := "trie-primary"

/-- `_EVENT_TYPE`. -/
def eventType : String := "PrefixStatsChanged"

/-- The name of `PREFIX_STATS`. -/
def prefixStatsTopic : String := "hammertime.prefix-stats.v1"

/-- `PrefixStatsPublisher`, less its producer: the shortest prefix that is reported of each family,
with the check of the constructor. -/
structure PrefixStatsPublisher where
  minPrefixLength : AddressFamily → ℕ
  minPrefixLength_le : ∀ family, minPrefixLength family ≤ family.bitLength

/-- `DEFAULT_MIN_PREFIX_LENGTHS`. -/
def defaultMinPrefixLength : AddressFamily → ℕ
  | .ipv4 => 8
  | .ipv6 => 104

theorem defaultMinPrefixLength_le (family : AddressFamily) :
    defaultMinPrefixLength family ≤ family.bitLength := by
  cases family <;> decide

/-- `StatsMessage`: one encoded `PrefixStatsChanged`. -/
structure StatsMessage where
  key : String
  value : Bytes
  messageId : Text

/-- `PreparedStats`: the messages of one event. -/
structure PreparedStats where
  family : AddressFamily
  sequence : ℤ
  messages : List StatsMessage

/-- The payload of one message. -/
def statsPayload (stats : PrefixStats) (prefixText : String) (sequence : ℤ)
    (timestamp : DateTime) : Codec.PrefixStatsChanged where
  prefixText := prefixText
  hotCount := .int stats.hotCount
  capacity := .int stats.pfx.capacity
  sequence := .int sequence
  timestamp := timestamp
  hotRatio := some (.float (stats.pfx.hotRatio stats.hotCount))

/-- One turn of the loop of `prepare`. -/
def prepareOne (library : Library) (sequence configVersion : ℤ) (timestamp : DateTime)
    (stats : PrefixStats) : Except PrepareError StatsMessage :=
  match stats.pfx.text library with
  | none => .error (.invalidAddress stats.pfx.network)
  | some prefixText =>
    Except.mapError .codec do
      let payload := statsPayload stats prefixText sequence timestamp
      let envelope ← Codec.makeEnvelope (.plain agentId) (.int sequence) (.plain eventType)
        (.int configVersion) timestamp (.prefixStatsChanged payload) (.int Codec.schemaVersion)
        (some (.plain prefixText))
      let value ← Codec.encode library envelope
      pure ⟨prefixText, value, envelope.eventId library⟩

/-- `prepare`. -/
def PrefixStatsPublisher.prepare (publisher : PrefixStatsPublisher) (library : Library)
    (trie : PatriciaTrie) (ip : Address) (sequence configVersion : ℤ) (timestamp : DateTime) :
    Except PrepareError PreparedStats := do
  let stats ← ancestorStats trie ip (publisher.minPrefixLength trie.family)
  let messages ← stats.mapM (prepareOne library sequence configVersion timestamp)
  pure ⟨trie.family, sequence, messages⟩

/-! ### `publish` -/

/-- What is decided outside of the code about the concurrent publishes of one event. -/
structure Publishing where
  /-- The order in which the log takes them. -/
  arrange : List StatsMessage → List StatsMessage
  arrange_perm : ∀ messages, (arrange messages).Perm messages
  /-- What becomes of each. -/
  outcome : StatsMessage → CallOutcome
  /-- Whether a `BaseException` that is no `Exception` ends the call: it is cancelled, or one of the
  publishes is. -/
  interrupted : Bool

/-- What `publish` raises. -/
inductive PublishError where
  /-- `PrefixStatsPublishError`. -/
  | failed (sequence : ℤ) (attempted failed : ℕ)
  /-- A `BaseException` that is no `Exception`. -/
  | interrupted

/-- `_publish_one`: what the bus is when it returns, raises or is cancelled. -/
def publishOne (publishing : Publishing) (bus : InMemoryBus) (message : StatsMessage) :
    InMemoryBus :=
  match publishing.outcome message with
  | .raises false => bus
  | _ =>
    bus.publish prefixStatsTopic (.inr message.key) message.value
      (some (Codec.characters message.messageId))

/-- `publish`: it is complete once every publish has returned or raised. -/
def publish (publishing : Publishing) (prepared : PreparedStats) :
    Program PublishError InMemoryBus PUnit := fun bus =>
  let bus := (publishing.arrange prepared.messages).foldl (publishOne publishing) bus
  let failed := prepared.messages.countP fun message => publishing.outcome message ≠ .returns
  if publishing.interrupted then .error .interrupted bus
  else if failed = 0 then .ok ⟨⟩ bus
  else .error (.failed prepared.sequence prepared.messages.length failed) bus

end Hammertime.Trie
