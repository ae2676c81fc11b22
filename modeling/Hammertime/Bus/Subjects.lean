import Hammertime.Bus.Memory
import Hammertime.Bus.Topics
import Hammertime.Codec.Fields
import Hammertime.Codec.Interpreter
import Hammertime.Lib.LastSplit

/-!
# Subjects

A partition of a topic is a subject of the topic's stream. `NatsProducer.publish` puts a message under
the subject of its key's partition and carries the key in a header; `NatsConsumer` reads the partition
off the subject, and drops a message whose subject names none or whose key hashes to another. What was
published is never dropped, and comes back as it was (`delivered_as_published`); and whoever stored a
message, one that is not dropped is in the partition of its key (`received_ok`).
-/

namespace Hammertime.Bus

open Codec (Library)
open Lib

/-! ### The subject of a partition -/

namespace TopicSpec

/-- `stream_name`: the name with `.` as `-`. -/
def streamName (spec : TopicSpec) : String :=
  String.ofList (spec.name.toList.map fun c => if c = '.' then '-' else c)

/-- `subject`. An integer is written with no more digits than the interpreter's limit. -/
def subject (library : Library) (spec : TopicSpec) (partition : ℤ) : Except TopicError String :=
  if partition < 0 then .error (.negativePartition partition)
  else if library.within partition then .ok (spec.name ++ "." ++ partition.toNat.repr)
  else .error (.tooManyDigits partition)

/-- `token.isdigit()`, of ASCII. A token with the digits of another script is not what `subject`
writes, so that it names no partition either way. -/
def isDigits (token : List Char) : Bool := token ≠ [] && token.all Char.isDigit

/-- `int(token)`, which refuses more digits than the limit. -/
def decimal (library : Library) (token : List Char) : Option ℕ :=
  if library.intMaxStrDigits.all (token.length ≤ ·) then some (Nat.ofDigitChars 10 token 0) else none

/-- `partition_of`. -/
def partitionOf (library : Library) (spec : TopicSpec) (subject : String) : Option ℕ :=
  match lastSplit '.' subject.toList with
  | none => none
  | some (name, token) =>
    if name ≠ spec.name.toList ∨ isDigits token = false then none
    else
      match decimal library token with
      | none => none
      | some partition =>
        if spec.subject library partition = .ok subject then some partition else none

end TopicSpec

/-- `TOPICS[name]`, a `KeyError` being `none`. -/
def lookupTopic (name : String) : Option TopicSpec := allTopics.find? fun spec => spec.name = name

variable {library : Library} {spec spec' : TopicSpec} {subject : String} {partition : ℤ}

theorem subject_ok : spec.subject library partition = .ok subject ↔
    0 ≤ partition ∧ library.within partition = true ∧
      subject = spec.name ++ "." ++ partition.toNat.repr := by
  unfold TopicSpec.subject
  split_ifs with hneg hwithin
  · simp [hneg]
  · simp [hwithin, not_lt.mp hneg, eq_comm]
  · simp [hwithin]

theorem dot_notMem_repr (n : ℕ) : '.' ∉ n.repr.toList := by
  intro hmem
  rw [Nat.toList_repr] at hmem
  have hdigit := Nat.isDigit_of_mem_toDigits (by decide) (by decide) hmem
  cases hdigit

/-- A subject splits at its last dot into the name and the partition. -/
theorem lastSplit_subject (h : spec.subject library partition = .ok subject) :
    lastSplit '.' subject.toList = some (spec.name.toList, partition.toNat.repr.toList) := by
  obtain ⟨-, -, rfl⟩ := subject_ok.mp h
  refine lastSplit_eq_some.mpr ⟨?_, dot_notMem_repr _⟩
  simp [String.toList_append]

/-- A subject is of one topic name and one partition. -/
theorem subject_inj {partition' : ℤ} (h : spec.subject library partition = .ok subject)
    (h' : spec'.subject library partition' = .ok subject) :
    spec.name = spec'.name ∧ partition = partition' := by
  have hsplit := (lastSplit_subject h).symm.trans (lastSplit_subject h')
  obtain ⟨hpos, -, -⟩ := subject_ok.mp h
  obtain ⟨hpos', -, -⟩ := subject_ok.mp h'
  simp only [Option.some.injEq, Prod.mk.injEq, String.toList_inj] at hsplit
  have hsame := repr_inj hsplit.2
  exact ⟨hsplit.1, by omega⟩

theorem isDigits_repr (n : ℕ) : TopicSpec.isDigits n.repr.toList = true := by
  unfold TopicSpec.isDigits
  rw [Nat.toList_repr]
  simp only [Bool.and_eq_true, decide_eq_true_eq, List.all_eq_true]
  exact ⟨by simp, fun c hc => Nat.isDigit_of_mem_toDigits (by decide) (by decide) hc⟩

/-- What is written within the limit is read within it. -/
theorem decimal_repr {n : ℕ} (h : library.within n = true) :
    TopicSpec.decimal library n.repr.toList = some n := by
  have hlength : library.intMaxStrDigits.all (n.repr.toList.length ≤ ·) = true := by
    unfold Library.within Codec.withinDigits at h
    cases hlimit : library.intMaxStrDigits with
    | none => rfl
    | some digits =>
      have hdigits := library.le_intMaxStrDigits digits hlimit
      rw [hlimit] at h
      simp only [Option.all_some, decide_eq_true_eq, Int.natAbs_natCast] at h ⊢
      rw [Nat.toList_repr]
      exact (Nat.length_toDigits_le_iff (by norm_num) (by omega)).mpr h
  unfold TopicSpec.decimal
  rw [if_pos hlength, Nat.toList_repr, Nat.ofDigitChars_ten_toDigits]

/-- `partition_of` is the inverse of `subject`. -/
theorem partitionOf_eq_some {n : ℕ} :
    spec.partitionOf library subject = some n ↔ spec.subject library n = .ok subject := by
  constructor
  · intro h
    unfold TopicSpec.partitionOf at h
    split at h
    · cases h
    · split_ifs at h
      split at h
      · cases h
      · split_ifs at h with hcanonical
        cases h
        exact hcanonical
  · intro h
    obtain ⟨-, hwithin, -⟩ := subject_ok.mp h
    unfold TopicSpec.partitionOf
    rw [lastSplit_subject h]
    dsimp only
    have hdigits := isDigits_repr n
    rw [Int.toNat_natCast, if_neg (by rw [hdigits]; simp), decimal_repr hwithin]
    exact if_pos h

/-! ### A message on its way -/

/-- `nats.aio.msg.Msg`, as far as the consumer reads it, and which object it is. -/
structure Msg where
  /-- The object. -/
  id : ℕ
  /-- `metadata.consumer`, as the place of the durable that it was fetched from. -/
  durable : ℕ
  subject : String
  /-- The `Hammertime-Key` header. -/
  key : Option String
  data : Bytes
  /-- `metadata.sequence.stream`. -/
  streamSeq : ℤ
  /-- `metadata.num_delivered`. -/
  numDelivered : ℤ
deriving DecidableEq

/-- What `NatsProducer.publish` sends to the stream. -/
structure Sent where
  stream : String
  subject : String
  key : String
  /-- The `Nats-Msg-Id` header. -/
  messageId : Option String
  data : Bytes

/-- What `NatsProducer.publish` raises before it has sent anything. -/
inductive PublishError where
  /-- `KeyError`: the topic is not registered. -/
  | unregistered (topic : String)
  /-- `UnicodeDecodeError`: the key is not UTF-8. -/
  | keyNotUtf8
  /-- `RuntimeError`: `NatsBus is not started`. -/
  | notStarted
  | topic (error : TopicError)

/-- `NatsProducer.publish`, up to the request. A bus is started from the end of its `start` to the
beginning of its `close`. -/
def natsPublish (library : Library) (started : Bool) (topic : String) (key : Bytes ⊕ String)
    (value : Bytes) (messageId : Option String) : Except PublishError Sent := do
  let some spec := lookupTopic topic | throw (.unregistered topic)
  let rawKey := key.elim id utf8
  let partition ← (partitionFor (.inl rawKey) spec.partitions).mapError .topic
  let some text := String.fromUTF8? ⟨rawKey.toArray⟩ | throw .keyNotUtf8
  -- `_require_js`.
  if started then
    let subject ← (spec.subject library partition).mapError .topic
    pure { stream := spec.streamName, subject, key := text, messageId, data := value }
  else throw .notStarted

/-- The reasons of `malformed_subject`. -/
inductive MalformedReason where
  /-- `not-a-partition`. -/
  | notAPartition
  /-- `partition-mismatch`. -/
  | partitionMismatch
deriving DecidableEq

/-- `_malformed_reason`. -/
def malformedReason (spec : TopicSpec) (msg : Msg) (partition : Option ℕ) : Option MalformedReason :=
  match partition with
  | none => some .notAPartition
  | some partition =>
    match msg.key with
    | none => none
    | some text =>
      match partitionFor (.inl (utf8 text)) spec.partitions with
      | .ok p => if p = partition then none else some .partitionMismatch
      -- No registered topic is without partitions.
      | .error _ => some .partitionMismatch

/-- `_to_consumed`. -/
def toConsumed (topic : String) (msg : Msg) (partition : ℕ) : ConsumedMessage where
  topic := topic
  partition := partition
  offset := msg.streamSeq
  key := msg.key.map utf8
  value := msg.data
  deliveryCount := msg.numDelivered

/-- What `_consume` does with a message: the message that it yields, or why it is malformed. -/
def received (library : Library) (spec : TopicSpec) (msg : Msg) :
    Except MalformedReason ConsumedMessage :=
  match spec.partitionOf library msg.subject with
  | none => .error .notAPartition
  | some partition =>
    match malformedReason spec msg (some partition) with
    | some reason => .error reason
    | none => .ok (toConsumed spec.name msg partition)

/-- A message that is yielded is stored under a partition's subject, and if it has a key it is in the
partition of the key. -/
theorem received_ok {msg : Msg} {message : ConsumedMessage}
    (h : received library spec msg = .ok message) :
    ∃ partition : ℕ, message = toConsumed spec.name msg partition ∧
      spec.subject library partition = .ok msg.subject ∧
      ∀ key ∈ message.key, partitionFor (.inl key) spec.partitions = .ok message.partition := by
  unfold received at h
  split at h
  · cases h
  next partition hpartition =>
    split at h
    · cases h
    next hwell =>
      cases h
      refine ⟨partition, rfl, partitionOf_eq_some.mp hpartition, ?_⟩
      rintro key hkey
      obtain ⟨text, htext, rfl⟩ := Option.mem_map.mp hkey
      unfold malformedReason at hwell
      dsimp only at hwell
      rw [Option.mem_def.mp htext] at hwell
      dsimp only at hwell
      split at hwell
      next p hp =>
        split_ifs at hwell with hsame
        rw [hp, hsame]
        rfl
      · cases hwell

theorem lookupTopic_name {name : String} (h : lookupTopic name = some spec) : spec.name = name := by
  have hfound := List.find?_some h
  simpa using hfound

theorem fromUTF8_utf8 (text : String) : String.fromUTF8? ⟨(utf8 text).toArray⟩ = some text := by
  have hbytes : (⟨(utf8 text).toArray⟩ : ByteArray) = text.toByteArray := by
    unfold utf8
    rw [Array.toArray_toList]
    rfl
  unfold String.fromUTF8?
  rw [hbytes, dif_pos text.isValidUTF8]
  rfl

/-- No registered topic is without partitions, or with so many that one could not be written. -/
theorem lookupTopic_partitions {name : String} (h : lookupTopic name = some spec) :
    0 < spec.partitions ∧ spec.partitions ≤ 128 := by
  have hall : ∀ other ∈ allTopics, 0 < other.partitions ∧ other.partitions ≤ 128 := by decide
  exact hall spec (List.mem_of_find?_eq_some h)

theorem lookupTopic_mem {spec : TopicSpec} (h : spec ∈ allTopics) :
    lookupTopic spec.name = some spec := by
  have hall : ∀ other ∈ allTopics, lookupTopic other.name = some other := by decide
  exact hall spec h

/-- A key that is UTF-8 is published to a registered topic under the subject of its partition, on a bus
that is started. -/
theorem natsPublish_eq_ok (library : Library) {topic text : String} {key : Bytes ⊕ String}
    (hspec : lookupTopic topic = some spec) (htext : key.elim id utf8 = utf8 text) (value : Bytes)
    (messageId : Option String) : ∃ (partition : ℕ) (subject : String),
      partitionFor key spec.partitions = .ok partition ∧
      spec.subject library partition = .ok subject ∧
      natsPublish library true topic key value messageId =
        .ok ⟨spec.streamName, subject, text, messageId, value⟩ := by
  obtain ⟨hpos, hle⟩ := lookupTopic_partitions hspec
  have hdef : partitionFor key spec.partitions =
      .ok ((fnv1a32 (key.elim id utf8) % spec.partitions : ℕ) : ℤ) := by
    unfold partitionFor
    rw [if_neg (by omega)]
    rfl
  obtain ⟨partition, hpartition⟩ :
    ∃ partition : ℕ, fnv1a32 (key.elim id utf8) % spec.partitions = partition := ⟨_, rfl⟩
  rw [hpartition] at hdef
  obtain ⟨-, hbound⟩ := partitionFor_range hdef
  have hwithin : library.within partition = true := by
    refine library.within_of_lt ?_
    rw [Int.natAbs_natCast]
    calc partition < 10 ^ 3 := by omega
      _ ≤ 10 ^ 640 := pow_le_pow_right₀ (by norm_num) (by norm_num)
  have hsubject : spec.subject library partition =
      .ok (spec.name ++ "." ++ partition.repr) :=
    subject_ok.mpr ⟨Int.natCast_nonneg _, hwithin, by rw [Int.toNat_natCast]⟩
  refine ⟨partition, _, hdef, hsubject, ?_⟩
  unfold natsPublish
  rw [hspec]
  dsimp only
  rw [show partitionFor (.inl (key.elim id utf8)) spec.partitions = _ from hdef, htext, fromUTF8_utf8]
  show (do
    let subject ← (spec.subject library partition).mapError PublishError.topic
    pure (⟨spec.streamName, subject, text, messageId, value⟩ : Sent)) = _
  rw [hsubject]
  rfl

/-- **A message comes back as it was published, and to no other topic or partition.** On a bus that
is started, a key that is UTF-8 is published to every registered topic. What the stream delivers of
it, whenever and however often, is not malformed, and the iterator yields the topic, the key, the
value and the partition of the key. And what is stored under its subject, by whomever, is yielded on
no other topic and as of no other partition. -/
theorem delivered_as_published (library : Library) {topic text : String} {key : Bytes ⊕ String}
    (hspec : lookupTopic topic = some spec) (htext : key.elim id utf8 = utf8 text) (value : Bytes)
    (messageId : Option String) : ∃ (sent : Sent) (partition : ℤ),
      natsPublish library true topic key value messageId = .ok sent ∧
      partitionFor key spec.partitions = .ok partition ∧
      (∀ msg : Msg, msg.subject = sent.subject → msg.key = some sent.key → msg.data = sent.data →
        received library spec msg = .ok ⟨topic, partition, msg.streamSeq,
          some (key.elim id utf8), value, msg.numDelivered⟩) ∧
      ∀ msg : Msg, msg.subject = sent.subject → ∀ other ∈ allTopics, ∀ message,
        received library other msg = .ok message → other = spec ∧ message.partition = partition := by
  obtain ⟨partition, subject, hpartition, hsubject, hsent⟩ :=
    natsPublish_eq_ok library hspec htext value messageId
  refine ⟨_, partition, hsent, hpartition, fun msg hmsg hkey hdata => ?_,
    fun msg hmsg other hother message hreceived => ?_⟩
  · dsimp only at hmsg hkey hdata
    have hwell : malformedReason spec msg (some partition) = none := by
      unfold malformedReason
      rw [hkey]
      dsimp only
      rw [← htext, show partitionFor (.inl (key.elim id utf8)) spec.partitions = _ from hpartition]
      exact if_pos rfl
    unfold received
    rw [hmsg, partitionOf_eq_some.mpr hsubject]
    dsimp only
    rw [hwell]
    dsimp only
    unfold toConsumed
    rw [hkey, hdata, lookupTopic_name hspec, Option.map_some, htext]
  · obtain ⟨n, rfl, hn, -⟩ := received_ok hreceived
    obtain ⟨hname, hsame⟩ := subject_inj (hmsg ▸ hn) hsubject
    refine ⟨?_, hsame⟩
    have hlookup := lookupTopic_mem hother
    rw [hname, lookupTopic_mem (List.mem_of_find?_eq_some hspec)] at hlookup
    exact (Option.some.inj hlookup).symm

theorem delivered_as_published_sample : ∃ (sent : Sent) (partition : ℤ),
    natsPublish Codec.interpreter true "hammertime.hot-ip.v1" (.inr "192.0.2.1") [123, 125] none =
        .ok sent ∧
      partitionFor (.inr "192.0.2.1") 32 = .ok partition ∧
      received Codec.interpreter hotIp ⟨0, 0, sent.subject, some sent.key, sent.data, 7, 2⟩ =
        .ok ⟨"hammertime.hot-ip.v1", partition, 7, some (utf8 "192.0.2.1"), [123, 125], 2⟩ := by
  obtain ⟨sent, partition, hsent, hpartition, hreceived, -⟩ :=
    delivered_as_published Codec.interpreter
      (show lookupTopic "hammertime.hot-ip.v1" = some hotIp from rfl)
      (show (Sum.inr "192.0.2.1" : Bytes ⊕ String).elim id utf8 = utf8 "192.0.2.1" from rfl)
      [123, 125] none
  exact ⟨sent, partition, hsent, hpartition, hreceived _ rfl rfl rfl⟩

end Hammertime.Bus
