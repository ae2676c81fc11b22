import Mathlib.Data.Finset.Basic
import Mathlib.Data.List.Induction
import Mathlib.Logic.Function.Basic
import Hammertime.Environment

/-!
# The in-memory bus

`InMemoryBus`, `MemoryProducer` and `MemoryConsumer` of `hammertime.bus.memory`. The bus keeps a log
and the seen ids of each topic, and what each group has acknowledged of it; a consumer keeps its
position and what it has delivered and not acknowledged. Nothing else is shared, so a run is a list of
calls on the bus and on any number of consumers, in any order (`System`).

A `defaultdict` is the function that it reads as. An `async` method runs without a break between its
awaits: a publish, an acknowledgement and a close are one step each, and so is one turn of the loop of
`_consume` from the moment that `_wait_for` returns. The listener of a subscription is awaited before
anything is written, so that a subscription is one step too.
-/

namespace Hammertime.Bus

/-! ### The broker -/

/-- `_PARTITION`: the one partition that a topic has. -/
def thePartition : ℤ := 0

/-- `_Record`: one message of a topic's log. -/
structure Record where
  key : Option Bytes
  value : Bytes
deriving DecidableEq

/-- `ConsumedMessage` of `hammertime.bus.interface`. -/
structure ConsumedMessage where
  topic : String
  partition : ℤ
  offset : ℤ
  key : Option Bytes
  value : Bytes
  deliveryCount : ℤ := 1
deriving DecidableEq

/-- The shared broker: per topic the log and every `message_id` ever published to it, and per topic
and group the acknowledged offsets. -/
structure InMemoryBus where
  logs : String → List Record := fun _ => []
  seenIds : String → Finset String := fun _ => ∅
  acked : String × String → Finset ℤ := fun _ => ∅

/-- What `_wait_for` does when it is woken: it keeps waiting, or it returns `None` or a record. -/
inductive Waited where
  | pending
  | closed
  | record (record : Record)

namespace InMemoryBus

/-- `end_offset`: the offset that the next appended message will receive. -/
def endOffset (bus : InMemoryBus) (topic : String) : ℕ := (bus.logs topic).length

/-- `first_offset`: nothing is ever discarded. -/
def firstOffset (_bus : InMemoryBus) (_topic : String) : ℕ := 0

/-- `last_value`: the value of the last record. -/
def lastValue (bus : InMemoryBus) (topic : String) : Option Bytes :=
  (bus.logs topic).getLast?.map Record.value

/-- `self._logs[topic].append(record)`. -/
def push (bus : InMemoryBus) (topic : String) (record : Record) : InMemoryBus :=
  { bus with logs := Function.update bus.logs topic (bus.logs topic ++ [record]) }

/-- `_append`: a repeated `message_id` is acknowledged and not appended. -/
def append (bus : InMemoryBus) (topic : String) (key : Option Bytes) (value : Bytes)
    (messageId : Option String) : InMemoryBus :=
  match messageId with
  | none => bus.push topic ⟨key, value⟩
  | some id =>
    if id ∈ bus.seenIds topic then bus
    -- The id is marked before the record is appended.
    else
      { bus with
        seenIds := Function.update bus.seenIds topic (insert id (bus.seenIds topic)) }.push
        topic ⟨key, value⟩

/-- `_wait_for`, when it looks at the log. -/
def waitFor (bus : InMemoryBus) (topic : String) (offset : ℕ) (closed : Bool) : Waited :=
  if closed then .closed
  else
    match (bus.logs topic)[offset]? with
    | none => .pending
    | some record => .record record

/-- `_is_acked`. -/
def isAcked (bus : InMemoryBus) (topic groupId : String) (offset : ℤ) : Bool :=
  decide (offset ∈ bus.acked (topic, groupId))

/-- `_mark_acked`. -/
def markAcked (bus : InMemoryBus) (topic groupId : String) (offsets : Finset ℤ) : InMemoryBus :=
  { bus with
    acked := Function.update bus.acked (topic, groupId) (bus.acked (topic, groupId) ∪ offsets) }

/-- `MemoryProducer.publish`: a `str` key is encoded as UTF-8. -/
def publish (bus : InMemoryBus) (topic : String) (key : Bytes ⊕ String) (value : Bytes)
    (messageId : Option String) : InMemoryBus :=
  bus.append topic (some (key.elim id utf8)) value messageId

variable (bus : InMemoryBus) (topic : String) (key : Bytes ⊕ String) (value : Bytes)

/-- Whether a publish carries an id that the topic has seen. -/
def Repeats (messageId : Option String) : Prop := ∃ id ∈ messageId, id ∈ bus.seenIds topic

/-- A publish appends its record, unless it repeats an id. -/
theorem logs_publish (messageId : Option String) (topic' : String) :
    (bus.Repeats topic messageId ∧
        (bus.publish topic key value messageId).logs topic' = bus.logs topic') ∨
      (¬ bus.Repeats topic messageId ∧
        (bus.publish topic key value messageId).logs topic' = bus.logs topic' ++
          if topic' = topic then [⟨some (key.elim id utf8), value⟩] else []) := by
  have hpush : ∀ bus' : InMemoryBus, ∀ record, (bus'.push topic record).logs topic' =
      bus'.logs topic' ++ if topic' = topic then [record] else [] := by
    intro bus' record
    unfold push
    dsimp only
    rw [Function.update_apply]
    split_ifs with htopic
    · rw [htopic]
    · rw [List.append_nil]
  cases messageId with
  | none =>
    refine Or.inr ⟨?_, hpush bus _⟩
    rintro ⟨id, hid, -⟩
    cases hid
  | some messageId =>
    unfold publish append
    by_cases hseen : messageId ∈ bus.seenIds topic
    · refine Or.inl ⟨⟨messageId, rfl, hseen⟩, ?_⟩
      simp only [if_pos hseen]
    · refine Or.inr ⟨?_, ?_⟩
      · rintro ⟨id, hid, hmem⟩
        cases hid
        exact hseen hmem
      · simp only [if_neg hseen]
        exact hpush _ _

/-- After a publish the topic has seen its id, and nothing else is new. -/
theorem mem_seenIds_publish (messageId : Option String) (topic' id : String) :
    id ∈ (bus.publish topic key value messageId).seenIds topic' ↔
      id ∈ bus.seenIds topic' ∨ (topic' = topic ∧ messageId = some id) := by
  unfold publish append
  cases messageId with
  | none => simp [push]
  | some messageId =>
    by_cases hseen : messageId ∈ bus.seenIds topic
    · simp only [if_pos hseen, Option.some.injEq]
      constructor
      · exact Or.inl
      · rintro (h | ⟨rfl, rfl⟩)
        · exact h
        · exact hseen
    · simp only [if_neg hseen, push, Function.update_apply, Option.some.injEq]
      by_cases htopic : topic' = topic
      · simp [htopic, or_comm, eq_comm]
      · simp [htopic]

/-- A publish acknowledges nothing. -/
@[simp] theorem acked_publish (messageId : Option String) :
    (bus.publish topic key value messageId).acked = bus.acked := by
  unfold publish append push
  cases messageId with
  | none => rfl
  | some messageId =>
    dsimp only
    split_ifs <;> rfl

theorem mem_acked_markAcked (groupId : String) (offsets : Finset ℤ) (topic' group' : String)
    (offset : ℤ) :
    offset ∈ (bus.markAcked topic groupId offsets).acked (topic', group') ↔
      offset ∈ bus.acked (topic', group') ∨
        (topic' = topic ∧ group' = groupId ∧ offset ∈ offsets) := by
  unfold markAcked
  simp only [Function.update_apply, Prod.mk.injEq]
  split_ifs with h
  · rw [h.1, h.2, Finset.mem_union]
    simp only [true_and]
  · constructor
    · exact Or.inl
    · rintro (hmem | ⟨ht, hg, -⟩)
      · exact hmem
      · exact absurd ⟨ht, hg⟩ h

/-- The bus holds, under a name, the topic that a worker publishes to. -/
def HoldsTopic (name : String) (shared : Topic) : Prop :=
  bus.logs name = shared.log.map (fun record => ⟨some record.key, record.value⟩) ∧
    bus.seenIds name = shared.seenIds

/-- What a worker's publish makes of its topic is what the bus makes of it. -/
theorem holdsTopic_publish {bus : InMemoryBus} {name : String} {shared : Topic}
    (h : bus.HoldsTopic name shared) (key value : Bytes) (messageId : String) :
    (bus.publish name (.inl key) value (some messageId)).HoldsTopic name
      (shared.append key value messageId) := by
  obtain ⟨hlog, hseen⟩ := h
  unfold HoldsTopic publish append Topic.append
  by_cases hmem : messageId ∈ bus.seenIds name
  · rw [hseen] at hmem
    simp only [hseen, if_pos hmem, hlog, and_self]
  · rw [hseen] at hmem
    simp only [hseen, if_neg hmem, push, Function.update_self, hlog, List.map_append,
      List.map_singleton, Sum.elim_inl, id, and_self]

end InMemoryBus

/-! ### A consumer -/

/-- What `subscribe` and `ack` raise. -/
inductive BusError where
  /-- `RuntimeError`: the consumer is closed; it cannot subscribe. -/
  | subscribeClosed
  /-- `RuntimeError`: one subscription per instance. -/
  | alreadySubscribed
  /-- `ValueError` of `static_partitions`: the static partition set for the topic is empty. -/
  | emptyPartitions (topic : String)
  /-- `ValueError`: the bus has one partition per topic. -/
  | otherPartitions (topic : String) (requested : Finset ℤ)
  /-- `ValueError`: `start_offset` must be non-negative. -/
  | negativeStart (startOffset : ℤ)
  /-- What `on_assigned` raised. -/
  | listener
  /-- `ValueError`: cannot ack, this consumer is closed. -/
  | ackClosed
  /-- `ValueError`: cannot ack on a positional subscription. -/
  | ackPositional
  /-- `ValueError`: not delivered by this consumer under its durable subscription, or already
  acknowledged. -/
  | notDelivered (topic : String) (partition offset : ℤ)
  /-- `AssertionError`: `self._topic is not None`. -/
  | noTopic

/-- `MemoryConsumer`, less its bus. -/
structure MemoryConsumer where
  groupId : String
  subscribed : Bool := false
  closed : Bool := false
  topic : Option String := none
  positional : Bool := false
  position : ℕ := 0
  /-- Offsets delivered by this instance and not yet acknowledged. -/
  unacked : Finset ℤ := ∅

/-- One turn of the loop of `_consume`: it waits, it ends, it goes on, or it yields. -/
inductive Turn where
  | waiting
  | ended
  | skipped
  | yielded (message : ConsumedMessage)

/-- What becomes of `on_assigned`. -/
inductive Assigned where
  | returns
  | raises
deriving DecidableEq

namespace MemoryConsumer

/-- `_assignment`: whether the partitions asked for are the ones that there are. -/
def assignment (topic : String) (partitions : Option (List ℤ)) : Except BusError Unit :=
  match partitions with
  | none => .ok ()
  | some partitions =>
    if partitions.toFinset = ∅ then .error (.emptyPartitions topic)
    else if partitions.toFinset ≠ {thePartition} then
      .error (.otherPartitions topic partitions.toFinset)
    else .ok ()

/-- `subscribe`; `listener` is what `on_assigned` does, where a listener is given. -/
def subscribe (consumer : MemoryConsumer) (topic : String) (partitions : Option (List ℤ))
    (listener : Option Assigned) (startOffset : Option ℤ) : Except BusError MemoryConsumer :=
  if consumer.closed then .error .subscribeClosed
  else if consumer.subscribed then .error .alreadySubscribed
  else
    match assignment topic partitions with
    | .error error => .error error
    | .ok _ =>
      if startOffset.any (· < 0) then .error (.negativeStart (startOffset.getD 0))
      else if listener = some .raises then .error .listener
      else
        .ok { consumer with
          subscribed := true
          topic := some topic
          positional := startOffset.isSome
          position := (startOffset.getD 0).toNat }

/-- One turn of the loop of `_consume`. -/
def consume (consumer : MemoryConsumer) (bus : InMemoryBus) (topic : String) :
    Turn × MemoryConsumer :=
  match bus.waitFor topic consumer.position consumer.closed with
  | .pending => (.waiting, consumer)
  | .closed => (.ended, consumer)
  | .record record =>
    let message : ConsumedMessage :=
      { topic := topic, partition := thePartition, offset := consumer.position,
        key := record.key, value := record.value }
    let advanced := { consumer with position := consumer.position + 1 }
    -- A positional walk neither skips what the group has acknowledged nor keeps track.
    if consumer.positional then (.yielded message, advanced)
    else if bus.isAcked topic consumer.groupId consumer.position then (.skipped, advanced)
    else
      (.yielded message,
        { advanced with unacked := insert (consumer.position : ℤ) consumer.unacked })

/-- The loop of `ack`: the whole batch is checked, and its offsets are collected. -/
def collect (consumer : MemoryConsumer) : List ConsumedMessage → Finset ℤ →
    Except BusError (Finset ℤ)
  | [], offsets => .ok offsets
  | message :: rest, offsets =>
    if some message.topic ≠ consumer.topic ∨ message.partition ≠ thePartition ∨
        message.offset ∉ consumer.unacked then
      .error (.notDelivered message.topic message.partition message.offset)
    else collect consumer rest (insert message.offset offsets)

/-- `ack`: what the bus and the consumer are when it returns. -/
def ack (consumer : MemoryConsumer) (bus : InMemoryBus) (messages : List ConsumedMessage) :
    Except BusError (InMemoryBus × MemoryConsumer) :=
  if consumer.closed then .error .ackClosed
  else if consumer.positional then .error .ackPositional
  else if messages = [] then .ok (bus, consumer)
  else
    match consumer.collect messages ∅, consumer.topic with
    | .error error, _ => .error error
    | .ok _, none => .error .noTopic
    | .ok offsets, some topic =>
      .ok (bus.markAcked topic consumer.groupId offsets,
        { consumer with unacked := consumer.unacked \ offsets })

/-- `close`: idempotent, safe before `subscribe`. -/
def close (consumer : MemoryConsumer) : MemoryConsumer :=
  if consumer.closed then consumer
  else { consumer with closed := true, unacked := ∅ }

variable {consumer consumer' : MemoryConsumer} {bus bus' : InMemoryBus}

/-- Whether a batch can be acknowledged: every message is of the subscription, and not acknowledged
since this consumer delivered it. -/
def Holds (consumer : MemoryConsumer) (messages : List ConsumedMessage) : Prop :=
  ∀ message ∈ messages, consumer.topic = some message.topic ∧ message.partition = thePartition ∧
    message.offset ∈ consumer.unacked

theorem collect_ok {messages : List ConsumedMessage} {offsets offsets' : Finset ℤ}
    (h : consumer.collect messages offsets = .ok offsets') :
    consumer.Holds messages ∧
      ∀ o, o ∈ offsets' ↔ o ∈ offsets ∨ ∃ message ∈ messages, message.offset = o := by
  induction messages generalizing offsets with
  | nil =>
    obtain rfl : offsets = offsets' := Except.ok.inj h
    refine ⟨by simp [Holds], by simp⟩
  | cons message rest ih =>
    unfold collect at h
    split_ifs at h with hcheck
    push Not at hcheck
    obtain ⟨hheld, hmem⟩ := ih h
    refine ⟨?_, fun o => ?_⟩
    · intro m hm
      obtain rfl | hm := List.mem_cons.mp hm
      · exact ⟨hcheck.1.symm, hcheck.2⟩
      · exact hheld m hm
    · rw [hmem o, Finset.mem_insert]
      simp only [List.mem_cons, exists_eq_or_imp]
      tauto

/-- What an acknowledgement that returns has checked, and what it does: it acknowledges the offsets
that it names, for the group, and touches nothing else. -/
theorem ack_ok {messages : List ConsumedMessage}
    (h : consumer.ack bus messages = .ok (bus', consumer')) :
    consumer.Holds messages ∧ bus'.logs = bus.logs ∧ bus'.seenIds = bus.seenIds ∧
      (∀ topic group offset, offset ∈ bus'.acked (topic, group) ↔ offset ∈ bus.acked (topic, group) ∨
        (group = consumer.groupId ∧
          ∃ message ∈ messages, message.topic = topic ∧ message.offset = offset)) ∧
      consumer'.unacked ⊆ consumer.unacked ∧
      consumer' = { consumer with unacked := consumer'.unacked } := by
  unfold ack at h
  split_ifs at h with hclosed hpositional hempty
  · subst hempty
    cases h
    refine ⟨by simp [Holds], rfl, rfl, by simp, Finset.Subset.refl _, rfl⟩
  · split at h
    · cases h
    · cases h
    · next offsets topic hcollect htopic =>
      cases h
      obtain ⟨hheld, hmem⟩ := collect_ok hcollect
      -- Every message that passed the check is of the consumer's one topic.
      have hof : ∀ message ∈ messages, message.topic = topic := by
        intro message hmessage
        exact Option.some.inj ((hheld message hmessage).1.symm.trans htopic)
      refine ⟨hheld, rfl, rfl, fun topic' group offset => ?_, Finset.sdiff_subset, rfl⟩
      rw [InMemoryBus.mem_acked_markAcked, hmem offset]
      simp only [Finset.notMem_empty, false_or]
      refine or_congr Iff.rfl ⟨?_, ?_⟩
      · rintro ⟨rfl, hgroup, message, hmessage, ho⟩
        exact ⟨hgroup, message, hmessage, hof message hmessage, ho⟩
      · rintro ⟨hgroup, message, hmessage, rfl, ho⟩
        exact ⟨hof message hmessage, hgroup, message, hmessage, ho⟩

/-- What a subscription that returns has checked, and what it makes of the consumer. -/
theorem subscribe_ok {topic : String} {partitions : Option (List ℤ)} {listener : Option Assigned}
    {startOffset : Option ℤ}
    (h : consumer.subscribe topic partitions listener startOffset = .ok consumer') :
    consumer.subscribed = false ∧ consumer' = { consumer with
      subscribed := true
      topic := some topic
      positional := startOffset.isSome
      position := (startOffset.getD 0).toNat } := by
  unfold subscribe at h
  cases hassignment : assignment topic partitions with
  | error error =>
    rw [hassignment] at h
    split_ifs at h
  | ok _ =>
    rw [hassignment] at h
    dsimp only at h
    split_ifs at h with _ hsubscribed
    cases h
    exact ⟨Bool.eq_false_of_not_eq_true hsubscribed, rfl⟩

/-- What a turn of the loop yields when it goes past a record of the log. -/
def passed (consumer : MemoryConsumer) (topic : String) (record : Record) : ConsumedMessage :=
  { topic := topic, partition := thePartition, offset := consumer.position, key := record.key,
    value := record.value }

/-- A live consumer whose position is in the log goes past it: a durable one skips what its group has
acknowledged, and yields what it has not. -/
theorem consume_record {topic : String} {record : Record} (hclosed : consumer.closed = false)
    (hrecord : (bus.logs topic)[consumer.position]? = some record) :
    (consumer.consume bus topic).2 = { consumer with
        position := consumer.position + 1
        unacked := (consumer.consume bus topic).2.unacked } ∧
      ((consumer.positional = false ∧
          (consumer.position : ℤ) ∈ bus.acked (topic, consumer.groupId) ∧
          (consumer.consume bus topic).1 = .skipped ∧
          (consumer.consume bus topic).2.unacked = consumer.unacked) ∨
        ((consumer.positional = false →
            (consumer.position : ℤ) ∉ bus.acked (topic, consumer.groupId)) ∧
          (consumer.consume bus topic).1 = .yielded (consumer.passed topic record) ∧
          (consumer.consume bus topic).2.unacked ⊆
            insert (consumer.position : ℤ) consumer.unacked)) := by
  have hconsume : consumer.consume bus topic =
      if consumer.positional then
        (.yielded (consumer.passed topic record),
          { consumer with position := consumer.position + 1 })
      else if bus.isAcked topic consumer.groupId consumer.position then
        (.skipped, { consumer with position := consumer.position + 1 })
      else
        (.yielded (consumer.passed topic record), { consumer with
          position := consumer.position + 1
          unacked := insert (consumer.position : ℤ) consumer.unacked }) := by
    unfold consume InMemoryBus.waitFor passed
    simp only [hclosed, hrecord, Bool.false_eq_true, if_false]
  rw [hconsume]
  split_ifs with hpositional hacked
  · refine ⟨rfl, Or.inr ⟨fun h => ?_, rfl, Finset.subset_insert _ _⟩⟩
    rw [hpositional] at h
    cases h
  · exact ⟨rfl, Or.inl ⟨Bool.eq_false_of_not_eq_true hpositional, of_decide_eq_true hacked, rfl, rfl⟩⟩
  · refine ⟨rfl, Or.inr ⟨fun _ h => hacked (decide_eq_true h), rfl, Finset.Subset.refl _⟩⟩

/-- Any other turn of the loop leaves the consumer as it is, and yields nothing. -/
theorem consume_none {topic : String}
    (h : consumer.closed = true ∨ (bus.logs topic)[consumer.position]? = none) :
    (consumer.consume bus topic).2 = consumer ∧
      ((consumer.consume bus topic).1 = .waiting ∨ (consumer.consume bus topic).1 = .ended) := by
  unfold consume InMemoryBus.waitFor
  cases hclosed : consumer.closed with
  | true =>
    rw [if_pos rfl]
    exact ⟨rfl, Or.inr rfl⟩
  | false =>
    rw [hclosed] at h
    obtain h | h := h
    · cases h
    · rw [if_neg Bool.false_ne_true, h]
      exact ⟨rfl, Or.inl rfl⟩

end MemoryConsumer

/-! ### Runs -/

/-- The bus with the consumers that were made of it, in the order of their making. -/
structure System where
  bus : InMemoryBus := {}
  consumers : List MemoryConsumer := []

/-- A call on the bus, or on the consumer with an index; `next` is a turn of its iterator. -/
inductive Call where
  | publish (topic : String) (key : Bytes ⊕ String) (value : Bytes) (messageId : Option String)
  | consumer (groupId : String)
  | subscribe (i : ℕ) (topic : String) (partitions : Option (List ℤ)) (listener : Option Assigned)
      (startOffset : Option ℤ)
  | next (i : ℕ)
  | ack (i : ℕ) (messages : List ConsumedMessage)
  | close (i : ℕ)

/-- The consumer that a call is on. -/
def Call.on : Call → Option ℕ
  | .publish .. | .consumer .. => none
  | .subscribe i .. | .next i | .ack i .. | .close i => some i

/-- What a call comes to; `absent` where there is no such consumer, or no iterator of it yet. -/
inductive Reply where
  | absent
  | returned
  | raised (error : BusError)
  | turn (turn : Turn)

namespace System

/-- The system with another value of a consumer. -/
def put (s : System) (i : ℕ) (consumer : MemoryConsumer) : System :=
  { s with consumers := s.consumers.set i consumer }

/-- A call on a consumer, which `act` answers where the consumer is there. -/
def onConsumer (s : System) (i : ℕ) (act : MemoryConsumer → Reply × System) : Reply × System :=
  match s.consumers[i]? with
  | none => (.absent, s)
  | some consumer => act consumer

/-- One call: the reply and what it leaves behind. -/
def act (s : System) : Call → Reply × System
  | .publish topic key value messageId =>
    (.returned, { s with bus := s.bus.publish topic key value messageId })
  | .consumer groupId => (.returned, { s with consumers := s.consumers ++ [{ groupId := groupId }] })
  | .subscribe i topic partitions listener startOffset =>
    s.onConsumer i fun consumer =>
      match consumer.subscribe topic partitions listener startOffset with
      | .error error => (.raised error, s)
      | .ok consumer' => (.returned, s.put i consumer')
  | .next i =>
    s.onConsumer i fun consumer =>
      match consumer.topic with
      | none => (.absent, s)
      | some topic => (.turn (consumer.consume s.bus topic).1,
          s.put i (consumer.consume s.bus topic).2)
  | .ack i messages =>
    s.onConsumer i fun consumer =>
      match consumer.ack s.bus messages with
      | .error error => (.raised error, s)
      | .ok (bus, consumer') => (.returned, { s with bus := bus }.put i consumer')
  | .close i => s.onConsumer i fun consumer => (.returned, s.put i consumer.close)

def reply (s : System) (call : Call) : Reply := (s.act call).1

def step (s : System) (call : Call) : System := (s.act call).2

/-- What the consumer with an index hands to its caller in a call. -/
def handed (s : System) (i : ℕ) : Call → List ConsumedMessage
  | .next j =>
    match s.reply (.next j) with
    | .turn (.yielded message) => if j = i then [message] else []
    | _ => []
  | _ => []

/-- What the consumer with an index yields over a list of calls, in order. -/
def yields (i : ℕ) : System → List Call → List ConsumedMessage
  | _, [] => []
  | s, call :: rest => s.handed i call ++ yields i (s.step call) rest

/-- The system that a list of calls makes of a new bus. -/
def after (calls : List Call) : System := calls.foldl step {}

end System

end Hammertime.Bus
