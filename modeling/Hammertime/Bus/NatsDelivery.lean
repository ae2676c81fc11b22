import Hammertime.Bus.Nats
import Hammertime.Bus.Subjects
import Hammertime.Lib.Counting

/-!
# A durable subscription over NATS

`NatsConsumer` of `hammertime.bus.nats` once it has subscribed to its durables: a fetch loop for each of
them puts what it has fetched into one bounded queue (`_pump_pull`), the iterator takes from the queue
and retains what it yields (`_consume`), `ack` acknowledges retained messages one after the other, and
`close` cancels the loops, and then gives back to the server whatever is not settled. They run
concurrently, and here each goes from one of its awaits to the next in one step, in any order (`Step`).

Every `Msg` that a loop has fetched is in exactly one place throughout (`Ledger`). So nothing is left
to wait out the server's `ack_wait` once `close` has returned (`close_gives_back`).
-/

namespace Hammertime.Bus

open Codec (Library)
open Lib

/-! ### The subscription -/

/-- `QUEUE_CAPACITY`. -/
def queueCapacity : ℕ := 1000

/-- What the queue holds. -/
inductive QueueItem where
  | message (msg : Msg)
  /-- `_Failed`. -/
  | failed
  /-- `_Closed`. -/
  | closed

/-- The message of an item. -/
def QueueItem.message? : QueueItem → Option Msg
  | .message msg => some msg
  | _ => none

/-- A fetch loop, by what it awaits. -/
inductive Pump where
  /-- `sub.fetch`, which is repeated when it times out. -/
  | fetching
  /-- `self._queue.put` of the first of `batch[queued:]`. -/
  | queueing (rest : List Msg)
  /-- `self._queue.put(_Failed(exc))`. -/
  | failing
  | ended

/-- What a fetch loop has fetched and not put into the queue. -/
def Pump.rest : Pump → List Msg
  | queueing rest => rest
  | _ => []

/-- The iterator, by where it is suspended. -/
inductive Iterating where
  /-- At a `yield`, or at the queue. -/
  | between
  /-- `self._discard_malformed`. -/
  | discarding
  | ended

/-- How far `close` is. -/
inductive Closing where
  | no
  /-- It has cancelled the fetch loops and awaits them. -/
  | cancelling
  /-- It has collected what is to be given back, and awaits the server. -/
  | giving (rest : List Msg)
  | done

/-- The subscription, and what has become of the messages that it has fetched. -/
structure NatsSubscription where
  queue : List QueueItem := []
  pumps : List Pump
  /-- `_retained`. -/
  retained : Dict DeliveryKey Msg := .empty
  /-- `_unqueued`. -/
  unqueued : List Msg := []
  iterating : Iterating := .between
  /-- The calls of `ack` that await the server: the `Msg`, its key, and the keys that are left. -/
  acking : List (Msg × DeliveryKey × List DeliveryKey) := []
  closing : Closing := .no
  /-- Fetched. -/
  fetched : List Msg := []
  /-- Taken from the queue by the iterator. -/
  taken : List Msg := []
  yielded : List ConsumedMessage := []
  /-- Named in a call of `ack`. -/
  asked : List DeliveryKey := []
  /-- Acknowledged, as the server has confirmed. -/
  confirmed : List Msg := []
  /-- Given up by `ack` after a confirmation. -/
  settled : List Msg := []
  /-- Replaced by a later delivery of the same message. -/
  superseded : List Msg := []
  /-- Malformed, and given to `term`. -/
  terminated : List Msg := []
  /-- Given to `nak` by `close`. -/
  naked : List Msg := []

/-- The first loop of `ack`, by what is retained (`collect_eq_collectKeys`). -/
def collectKeys (holds : DeliveryKey → Bool) :
    List ConsumedMessage → List DeliveryKey → Except AckError (List DeliveryKey)
  | [], keys => .ok keys
  | message :: rest, keys =>
    let key := message.deliveryKey
    if ¬ holds key then
      .error (.notRetained message.topic message.partition message.offset)
    else collectKeys holds rest (if key ∈ keys then keys else keys ++ [key])

/-- The turns of the second loop of `ack`: the next key's `Msg` is read, or a `KeyError` ends the
call. -/
def nextAck (retained : Dict DeliveryKey Msg) :
    List DeliveryKey → Option (Msg × DeliveryKey × List DeliveryKey)
  | [] => none
  | key :: keys => (retained.get? key).map fun msg => (msg, key, keys)

namespace NatsSubscription

/-- The messages in the queue. -/
def queued (s : NatsSubscription) : List Msg := s.queue.filterMap QueueItem.message?

/-- What `close` has still to give back. -/
def giving (s : NatsSubscription) : List Msg :=
  match s.closing with
  | .giving rest => rest
  | _ => []

/-- A subscription to so many durables. -/
def start (durables : ℕ) : NatsSubscription := { pumps := List.replicate durables .fetching }

/-- What is done from one await to the next. A `Msg` that is fetched is a new object, from the durable
of the loop. -/
inductive Step (library : Library) (spec : TopicSpec) : NatsSubscription → NatsSubscription → Prop
  | fetched {s : NatsSubscription} {i : ℕ} {batch : List Msg} (hpump : s.pumps[i]? = some .fetching)
      (hdurable : ∀ msg ∈ batch, msg.durable = i) (hfresh : (s.fetched ++ batch).Nodup) :
      Step library spec s { s with
        pumps := s.pumps.set i (.queueing batch), fetched := s.fetched ++ batch }
  | fetchFailed {s : NatsSubscription} {i : ℕ} (hpump : s.pumps[i]? = some .fetching) :
      Step library spec s { s with pumps := s.pumps.set i .failing }
  | put {s : NatsSubscription} {i : ℕ} {msg : Msg} {rest : List Msg}
      (hpump : s.pumps[i]? = some (.queueing (msg :: rest))) (hroom : s.queue.length < queueCapacity) :
      Step library spec s { s with
        pumps := s.pumps.set i (.queueing rest), queue := s.queue ++ [.message msg] }
  | batchDone {s : NatsSubscription} {i : ℕ} (hpump : s.pumps[i]? = some (.queueing [])) :
      Step library spec s { s with pumps := s.pumps.set i .fetching }
  | putFailed {s : NatsSubscription} {i : ℕ} (hpump : s.pumps[i]? = some .failing)
      (hroom : s.queue.length < queueCapacity) :
      Step library spec s { s with pumps := s.pumps.set i .ended, queue := s.queue ++ [.failed] }
  /-- The cancellation of a loop arrives. -/
  | cancelled {s : NatsSubscription} {i : ℕ} {pump : Pump} (hclosing : s.closing = .cancelling)
      (hpump : s.pumps[i]? = some pump) :
      Step library spec s { s with
        pumps := s.pumps.set i .ended, unqueued := s.unqueued ++ pump.rest }
  | yields {s : NatsSubscription} {msg : Msg} {queue : List QueueItem} {message : ConsumedMessage}
      (hiterating : s.iterating = .between) (hqueue : s.queue = .message msg :: queue)
      (hreceived : received library spec msg = .ok message) :
      Step library spec s { s with
        queue := queue
        taken := s.taken ++ [msg]
        yielded := s.yielded ++ [message]
        -- The most recent delivery wins.
        retained := s.retained.set message.deliveryKey msg
        superseded := s.superseded ++ (s.retained.get? message.deliveryKey).toList }
  | discards {s : NatsSubscription} {msg : Msg} {queue : List QueueItem} {reason : MalformedReason}
      (hiterating : s.iterating = .between) (hqueue : s.queue = .message msg :: queue)
      (hreceived : received library spec msg = .error reason) :
      Step library spec s { s with
        queue := queue
        taken := s.taken ++ [msg]
        terminated := s.terminated ++ [msg]
        iterating := .discarding }
  | discarded {s : NatsSubscription} (hiterating : s.iterating = .discarding) :
      Step library spec s { s with iterating := .between }
  /-- The iterator meets `_Failed` or `_Closed`. -/
  | iterated {s : NatsSubscription} {item : QueueItem} {queue : List QueueItem}
      (hiterating : s.iterating = .between) (hqueue : s.queue = item :: queue)
      (hitem : ∀ msg, item ≠ .message msg) :
      Step library spec s { s with queue := queue, iterating := .ended }
  /-- The iterator's task is cancelled. -/
  | abandoned {s : NatsSubscription} : Step library spec s { s with iterating := .ended }
  /-- A call of `ack` begins. One that is refused changes nothing. -/
  | ack {s : NatsSubscription} {messages : List ConsumedMessage} {keys : List DeliveryKey}
      (hopen : s.closing = .no)
      (hkeys : collectKeys s.retained.contains messages [] = .ok keys) :
      Step library spec s { s with
        acking := s.acking ++ (nextAck s.retained keys).toList
        asked := s.asked ++ messages.map ConsumedMessage.deliveryKey }
  /-- The server confirms, and `del self._retained[key]`, which may be a `KeyError` by now. -/
  | confirms {s : NatsSubscription} {i : ℕ} {msg : Msg} {key : DeliveryKey}
      {keys : List DeliveryKey} (hacking : s.acking[i]? = some (msg, key, keys)) :
      Step library spec s { s with
        confirmed := s.confirmed ++ [msg]
        settled := s.settled ++ (s.retained.get? key).toList
        retained := s.retained.erase key
        acking := s.acking.eraseIdx i ++
          if s.retained.contains key then (nextAck (s.retained.erase key) keys).toList else [] }
  /-- The server does not confirm in time, or the call is cancelled. -/
  | ackFailed {s : NatsSubscription} {i : ℕ} :
      Step library spec s { s with acking := s.acking.eraseIdx i }
  | close {s : NatsSubscription} (hopen : s.closing = .no) :
      Step library spec s { s with closing := .cancelling }
  /-- The loops have ended: `close` collects what is not settled. -/
  | collects {s : NatsSubscription} (hclosing : s.closing = .cancelling)
      (hended : ∀ pump ∈ s.pumps, pump = .ended) :
      Step library spec s { s with
        queue := []
        unqueued := []
        retained := .empty
        closing := .giving (s.queued ++ s.unqueued ++ s.retained.values) }
  | naks {s : NatsSubscription} {msg : Msg} {rest : List Msg}
      (hclosing : s.closing = .giving (msg :: rest)) :
      Step library spec s { s with closing := .giving rest, naked := s.naked ++ [msg] }
  | closed {s : NatsSubscription} (hclosing : s.closing = .giving []) :
      Step library spec s { s with closing := .done, queue := s.queue ++ [.closed] }

/-- The states that runs lead to. -/
inductive Reached (library : Library) (spec : TopicSpec) (durables : ℕ) : NatsSubscription → Prop
  | start : Reached library spec durables (start durables)
  | step {s t : NatsSubscription} (hs : Reached library spec durables s)
      (h : Step library spec s t) : Reached library spec durables t

/-! ### Every message is in one place -/

/-- Where a message that was fetched can be. -/
def places (s : NatsSubscription) : List Msg :=
  s.queued ++ s.pumps.flatMap Pump.rest ++ s.unqueued ++ s.retained.values ++ s.giving ++ s.settled ++
    s.superseded ++ s.terminated ++ s.naked

/-- `close` has collected what is not settled. -/
def Collected (s : NatsSubscription) : Prop := (∃ rest, s.closing = .giving rest) ∨ s.closing = .done

/-- What was fetched is in one place each, and once `close` has collected what is not settled the loops,
the queue and what is retained hold nothing. -/
structure Ledger (s : NatsSubscription) : Prop where
  nodup : s.fetched.Nodup
  counted : ∀ msg, s.fetched.count msg = s.places.count msg
  room : s.queue.length ≤ queueCapacity
  collected : s.Collected →
    (∀ pump ∈ s.pumps, pump = .ended) ∧ s.queued = [] ∧ s.unqueued = [] ∧ s.retained = .empty
  emptied : ∀ rest, s.closing = .giving rest → s.queue = []

variable {library : Library} {spec : TopicSpec} {s t : NatsSubscription}

/-- Loops that have ended have nothing left to put into the queue. -/
theorem rests_of_ended {pumps : List Pump} (h : ∀ pump ∈ pumps, pump = .ended) :
    pumps.flatMap Pump.rest = [] := by
  rw [List.flatMap_eq_nil_iff]
  intro pump hpump
  rw [h pump hpump]
  rfl

theorem giving_congr (h : t.closing = s.closing) : t.giving = s.giving := by
  unfold giving
  rw [h]

theorem ledger_start (durables : ℕ) : Ledger (start durables) := by
  have hrests : (List.replicate durables Pump.fetching).flatMap Pump.rest = [] := by
    rw [List.flatMap_eq_nil_iff]
    intro pump hpump
    rw [List.eq_of_mem_replicate hpump]
    rfl
  refine ⟨List.nodup_nil, fun msg => ?_, Nat.zero_le _, ?_, fun rest h => by cases h⟩
  · unfold places start
    dsimp only
    rw [hrests]
    rfl
  · rintro (⟨rest, h⟩ | h)
    · cases h
    · cases h

/-- A loop that has not ended has not been collected. -/
theorem Ledger.not_collected (h : Ledger s) {i : ℕ} {pump : Pump} (hpump : s.pumps[i]? = some pump)
    (hruns : pump ≠ .ended) : ¬ s.Collected := fun hcollected =>
  hruns ((h.collected hcollected).1 pump (List.mem_of_getElem? hpump))

theorem count_places (s : NatsSubscription) (x : Msg) :
    s.places.count x = s.queued.count x + (s.pumps.flatMap Pump.rest).count x + s.unqueued.count x +
      s.retained.values.count x + s.giving.count x + s.settled.count x + s.superseded.count x +
      s.terminated.count x + s.naked.count x := by
  unfold places
  simp only [List.count_append]

/-- The messages of a queue with one more item. -/
theorem queued_concat (queue : List QueueItem) (item : QueueItem) :
    (queue ++ [item]).filterMap QueueItem.message? =
      queue.filterMap QueueItem.message? ++ item.message?.toList := by
  rw [List.filterMap_append]
  cases item <;> rfl

/-- The messages of a queue with a first item. -/
theorem queued_cons (item : QueueItem) (queue : List QueueItem) :
    (item :: queue).filterMap QueueItem.message? =
      item.message?.toList ++ queue.filterMap QueueItem.message? := by
  rw [List.filterMap_cons]
  cases item <;> rfl

/-- The iterator meets a message. -/
theorem queued_of_cons {msg : Msg} {queue : List QueueItem} (h : s.queue = .message msg :: queue) :
    s.queued = msg :: queue.filterMap QueueItem.message? := by
  unfold queued
  rw [h, queued_cons]
  rfl

/-- The iterator meets no message. -/
theorem queued_of_end {item : QueueItem} {queue : List QueueItem} (h : s.queue = item :: queue)
    (hitem : ∀ msg, item ≠ .message msg) : s.queued = queue.filterMap QueueItem.message? := by
  unfold queued
  rw [h, queued_cons]
  cases item with
  | message msg => exact absurd rfl (hitem msg)
  | failed => rfl
  | closed => rfl

/-- A step of a fetch loop, which `close` still awaits. -/
theorem Ledger.of_pump (h : Ledger s) {i : ℕ} {pump next : Pump} (hpump : s.pumps[i]? = some pump)
    (hopen : ¬ s.Collected) (hclosing : t.closing = s.closing)
    (hpumps : t.pumps = s.pumps.set i next) (hnodup : t.fetched.Nodup)
    (hroom : t.queue.length ≤ queueCapacity)
    (hrest : ∀ x, t.retained.values.count x + t.settled.count x + t.superseded.count x +
      t.terminated.count x + t.naked.count x = s.retained.values.count x + s.settled.count x +
      s.superseded.count x + s.terminated.count x + s.naked.count x)
    (hmoved : ∀ x, t.fetched.count x + s.queued.count x + s.unqueued.count x + pump.rest.count x =
      s.fetched.count x + t.queued.count x + t.unqueued.count x + next.rest.count x) : Ledger t := by
  refine ⟨hnodup, fun x => ?_, hroom, fun hc => (hopen ?_).elim, fun rest hgiving => (hopen ?_).elim⟩
  · have hset := count_flatMap_set (f := Pump.rest) hpump next x
    have hgiving := giving_congr hclosing
    have hcount := h.counted x
    have hother := hrest x
    have hmove := hmoved x
    rw [count_places] at hcount ⊢
    rw [hpumps, hgiving]
    omega
  · unfold Collected at hc ⊢
    rwa [hclosing] at hc
  · exact .inl ⟨rest, hclosing ▸ hgiving⟩

/-- A step of the iterator or of `ack`, which leaves the loops and `close` as they are. -/
theorem Ledger.of_taken (h : Ledger s) (hclosing : t.closing = s.closing) (hpumps : t.pumps = s.pumps)
    (hunqueued : t.unqueued = s.unqueued) (hfetched : t.fetched = s.fetched)
    (hnaked : t.naked = s.naked) (hroom : t.queue.length ≤ s.queue.length)
    (hempty : s.queued = [] → s.retained = .empty → t.queued = [] ∧ t.retained = .empty)
    (hmoved : ∀ x, t.queued.count x + t.retained.values.count x + t.settled.count x +
      t.superseded.count x + t.terminated.count x = s.queued.count x + s.retained.values.count x +
      s.settled.count x + s.superseded.count x + s.terminated.count x) : Ledger t := by
  refine ⟨hfetched ▸ h.nodup, fun x => ?_, hroom.trans h.room, fun hc => ?_, fun rest hgiving => ?_⟩
  · have hgiving := giving_congr hclosing
    have hcount := h.counted x
    have hmove := hmoved x
    rw [count_places] at hcount ⊢
    rw [hfetched, hpumps, hunqueued, hgiving, hnaked]
    omega
  · unfold Collected at hc
    rw [hclosing] at hc
    obtain ⟨hended, hqueued, hunqueued', hretained⟩ := h.collected hc
    obtain ⟨hqueued', hretained'⟩ := hempty hqueued hretained
    rw [hpumps, hunqueued]
    exact ⟨hended, hqueued', hunqueued', hretained'⟩
  · have hqueue := h.emptied rest (hclosing ▸ hgiving)
    rw [hqueue] at hroom
    exact List.length_eq_zero_iff.mp (Nat.le_zero.mp hroom)

theorem Ledger.step (h : Ledger s) (hstep : Step library spec s t) : Ledger t := by
  cases hstep with
  | fetched hpump hdurable hfresh =>
    refine h.of_pump hpump (h.not_collected hpump nofun) rfl rfl hfresh h.room (fun _ => rfl)
      fun x => ?_
    simp only [List.count_append, Pump.rest, List.count_nil, queued]
    omega
  | fetchFailed hpump =>
    exact h.of_pump hpump (h.not_collected hpump nofun) rfl rfl h.nodup h.room (fun _ => rfl)
      fun _ => rfl
  | put hpump hroom =>
    refine h.of_pump hpump (h.not_collected hpump nofun) rfl rfl h.nodup ?_ (fun _ => rfl)
      fun x => ?_
    · rw [List.length_append]
      exact hroom
    · simp only [queued, queued_concat, List.count_append, Pump.rest, QueueItem.message?,
        Option.toList_some, List.count_cons, List.count_nil]
      omega
  | batchDone hpump =>
    exact h.of_pump hpump (h.not_collected hpump nofun) rfl rfl h.nodup h.room (fun _ => rfl)
      fun _ => rfl
  | putFailed hpump hroom =>
    refine h.of_pump hpump (h.not_collected hpump nofun) rfl rfl h.nodup ?_ (fun _ => rfl)
      fun x => ?_
    · rw [List.length_append]
      exact hroom
    · simp only [queued, queued_concat, List.count_append, Pump.rest, QueueItem.message?,
        Option.toList_none, List.count_nil]
      omega
  | cancelled hclosing hpump =>
    have hopen : ¬ s.Collected := by
      rintro (⟨rest, hgiving⟩ | hdone)
      · rw [hclosing] at hgiving
        cases hgiving
      · rw [hclosing] at hdone
        cases hdone
    -- The rest of the batch goes to where `close` will look for it.
    refine h.of_pump hpump hopen rfl rfl h.nodup h.room (fun _ => rfl) fun x => ?_
    simp only [List.count_append, queued, Pump.rest, List.count_nil]
    omega
  | @yields msg queue message hiterating hqueue hreceived =>
    have hqueued := queued_of_cons hqueue
    refine h.of_taken rfl rfl rfl rfl rfl ?_ (fun hempty => ?_) fun x => ?_
    · rw [hqueue]
      exact Nat.le_succ _
    · rw [hqueued] at hempty
      cases hempty
    · -- The delivery that it replaces, if there is one, is superseded.
      have hset := s.retained.count_values_set message.deliveryKey msg x
      rw [hqueued]
      simp only [queued, List.count_append, List.count_cons, List.count_nil] at hset ⊢
      omega
  | @discards msg queue reason hiterating hqueue hreceived =>
    have hqueued := queued_of_cons hqueue
    refine h.of_taken rfl rfl rfl rfl rfl ?_ (fun hempty => ?_) fun x => ?_
    · rw [hqueue]
      exact Nat.le_succ _
    · rw [hqueued] at hempty
      cases hempty
    · rw [hqueued]
      simp only [queued, List.count_append, List.count_cons, List.count_nil]
      omega
  | discarded hiterating =>
    exact h.of_taken rfl rfl rfl rfl rfl le_rfl (fun hq hr => ⟨hq, hr⟩) fun _ => rfl
  | @iterated item queue hiterating hqueue hitem =>
    have hqueued := queued_of_end hqueue hitem
    refine h.of_taken rfl rfl rfl rfl rfl ?_ (fun hq hr => ⟨hqueued.symm.trans hq, hr⟩) fun x => ?_
    · rw [hqueue]
      exact Nat.le_succ _
    · rw [hqueued]
      rfl
  | abandoned => exact h.of_taken rfl rfl rfl rfl rfl le_rfl (fun hq hr => ⟨hq, hr⟩) fun _ => rfl
  | ack hopen hkeys =>
    exact h.of_taken rfl rfl rfl rfl rfl le_rfl (fun hq hr => ⟨hq, hr⟩) fun _ => rfl
  | @confirms i msg key keys hacking =>
    refine h.of_taken rfl rfl rfl rfl rfl le_rfl (fun hq hr => ⟨hq, ?_⟩) fun x => ?_
    · dsimp only
      rw [hr]
      rfl
    · -- What is forgotten may by now be a later delivery than the one that was confirmed.
      have herase := s.retained.count_values_erase key x
      simp only [queued, List.count_append]
      omega
  | ackFailed => exact h.of_taken rfl rfl rfl rfl rfl le_rfl (fun hq hr => ⟨hq, hr⟩) fun _ => rfl
  | close hopen =>
    refine ⟨h.nodup, fun x => ?_, h.room, ?_, nofun⟩
    · have hcount := h.counted x
      rw [count_places] at hcount ⊢
      simp only [giving, hopen] at hcount ⊢
      exact hcount
    · rintro (⟨rest, hgiving⟩ | hdone)
      · cases hgiving
      · cases hdone
  | collects hclosing hended =>
    -- The loops have ended, so that nothing is on its way into the queue.
    have hrests := rests_of_ended hended
    refine ⟨h.nodup, fun x => ?_, Nat.zero_le _, fun _ => ⟨hended, rfl, rfl, rfl⟩, fun _ _ => rfl⟩
    have hcount := h.counted x
    rw [count_places] at hcount ⊢
    simp only [giving, hclosing, queued, hrests, List.count_append, List.count_nil,
      List.filterMap_nil, Dict.values_empty] at hcount ⊢
    omega
  | @naks msg rest hclosing =>
    obtain hcollected := h.collected (.inl ⟨_, hclosing⟩)
    refine ⟨h.nodup, fun x => ?_, h.room, fun _ => hcollected, fun _ _ => h.emptied _ hclosing⟩
    have hcount := h.counted x
    rw [count_places] at hcount ⊢
    simp only [giving, hclosing, queued, List.count_append, List.count_cons, List.count_nil]
      at hcount ⊢
    omega
  | closed hclosing =>
    obtain ⟨hended, hqueued, hunqueued, hretained⟩ := h.collected (.inl ⟨_, hclosing⟩)
    -- The queue has stayed empty since, as nothing puts into it any more.
    have hempty := h.emptied _ hclosing
    have hqueued' : (s.queue ++ [QueueItem.closed]).filterMap QueueItem.message? = [] := by
      rw [hempty]
      rfl
    refine ⟨h.nodup, fun x => ?_, ?_, fun _ => ⟨hended, hqueued', hunqueued, hretained⟩, nofun⟩
    · have hcount := h.counted x
      rw [count_places] at hcount ⊢
      simp only [giving, hclosing, queued, hempty, List.nil_append] at hcount ⊢
      exact hcount
    · dsimp only
      rw [hempty]
      decide

/-! ### The order of a durable -/

/-- Of the messages, those of a durable. -/
def ofDurable (i : ℕ) (messages : List Msg) : List Msg := messages.filter (·.durable = i)

theorem ofDurable_append (i : ℕ) (messages rest : List Msg) :
    ofDurable i (messages ++ rest) = ofDurable i messages ++ ofDurable i rest :=
  List.filter_append ..

theorem ofDurable_eq_self {i : ℕ} {messages : List Msg} (h : ∀ msg ∈ messages, msg.durable = i) :
    ofDurable i messages = messages :=
  List.filter_eq_self.mpr fun msg hmsg => decide_eq_true (h msg hmsg)

theorem ofDurable_eq_nil {i j : ℕ} {messages : List Msg} (h : ∀ msg ∈ messages, msg.durable = i)
    (hne : i ≠ j) : ofDurable j messages = [] := by
  refine List.filter_eq_nil_iff.mpr fun msg hmsg => ?_
  rw [h msg hmsg, decide_eq_true_eq]
  exact hne

/-- What the iterator yields of the messages that it has taken. -/
def yields (library : Library) (spec : TopicSpec) (taken : List Msg) : List ConsumedMessage :=
  taken.filterMap fun msg => (received library spec msg).toOption

/-- The iterator takes what a loop has fetched in the order in which it was fetched, and yields what is
not malformed of it. -/
structure Ordered (library : Library) (spec : TopicSpec) (s : NatsSubscription) : Prop where
  yielded : s.yielded = yields library spec s.taken
  rests : ∀ (i : ℕ) pump, s.pumps[i]? = some pump → ∀ msg ∈ pump.rest, msg.durable = i
  order : ∀ i : ℕ, ∃ rest, ofDurable i (s.taken ++ s.queued) ++ rest = ofDurable i s.fetched ∧
    ∀ pump, s.pumps[i]? = some pump → pump ≠ .ended → rest = pump.rest

/-- A step that puts nothing into the queue. A loop may end. -/
theorem Ordered.of_line (h : Ordered library spec s)
    (hpumps : ∀ (i : ℕ) pump, t.pumps[i]? = some pump → pump = .ended ∨ s.pumps[i]? = some pump)
    (hline : t.taken ++ t.queued = s.taken ++ s.queued) (hfetched : t.fetched = s.fetched)
    (hyielded : t.yielded = yields library spec t.taken) : Ordered library spec t := by
  refine ⟨hyielded, fun i pump hpump msg hmsg => ?_, fun i => ?_⟩
  · obtain rfl | hbefore := hpumps i pump hpump
    · cases hmsg
    · exact h.rests i pump hbefore msg hmsg
  · obtain ⟨rest, hrest, hruns⟩ := h.order i
    refine ⟨rest, by rw [hline, hfetched, hrest], fun pump hpump hne => ?_⟩
    exact hruns pump ((hpumps i pump hpump).resolve_left hne) hne

/-- A step of a loop: it has fetched `batch`, and put `put` into the queue. -/
theorem Ordered.of_pump (h : Ordered library spec s) {i : ℕ} {pump next : Pump} {batch put : List Msg}
    (hpump : s.pumps[i]? = some pump) (hruns : pump ≠ .ended)
    (hpumps : t.pumps = s.pumps.set i next) (htaken : t.taken = s.taken)
    (hyielded : t.yielded = s.yielded) (hqueued : t.queued = s.queued ++ put)
    (hfetched : t.fetched = s.fetched ++ batch) (hbatch : ∀ msg ∈ batch, msg.durable = i)
    (hput : put ++ next.rest = pump.rest ++ batch) : Ordered library spec t := by
  have hall : ∀ msg ∈ put ++ next.rest, msg.durable = i := by
    intro msg hmsg
    rw [hput, List.mem_append] at hmsg
    exact hmsg.elim (h.rests i pump hpump msg) (hbatch msg)
  obtain ⟨hputs, hnexts⟩ := List.forall_mem_append.mp hall
  have hi : i < s.pumps.length := (List.getElem?_eq_some_iff.mp hpump).1
  refine ⟨by rw [hyielded, htaken, h.yielded], fun j other hother => ?_, fun j => ?_⟩
  · rw [hpumps] at hother
    by_cases hj : i = j
    · subst hj
      rw [List.getElem?_set_self hi] at hother
      cases hother
      exact hnexts
    · rw [List.getElem?_set_ne hj] at hother
      exact h.rests j other hother
  · rw [hpumps, htaken, hqueued, hfetched, ← List.append_assoc]
    obtain ⟨rest, hrest, hrestOf⟩ := h.order j
    by_cases hj : i = j
    · subst hj
      refine ⟨next.rest, ?_, fun other hother _ => ?_⟩
      · calc ofDurable i (s.taken ++ s.queued ++ put) ++ next.rest
            = ofDurable i (s.taken ++ s.queued) ++ (put ++ next.rest) := by
              rw [ofDurable_append, ofDurable_eq_self hputs, List.append_assoc]
          _ = ofDurable i s.fetched ++ ofDurable i batch := by
              rw [hput, ← hrestOf pump hpump hruns, ← List.append_assoc, hrest,
                ofDurable_eq_self hbatch]
          _ = ofDurable i (s.fetched ++ batch) := (ofDurable_append ..).symm
      · rw [List.getElem?_set_self hi] at hother
        cases hother
        rfl
    · -- Nothing that the step moves is of another durable.
      refine ⟨rest, ?_, fun other hother => ?_⟩
      · rw [ofDurable_append j _ put, ofDurable_append j _ batch, ofDurable_eq_nil hputs hj,
          ofDurable_eq_nil hbatch hj, List.append_nil, List.append_nil, hrest]
      · rw [List.getElem?_set_ne hj] at hother
        exact hrestOf other hother

theorem ordered_start (durables : ℕ) : Ordered library spec (start durables) := by
  have hfetching : ∀ (i : ℕ) pump, (start durables).pumps[i]? = some pump → pump = .fetching :=
    fun i pump hpump => List.eq_of_mem_replicate (List.mem_of_getElem? hpump)
  refine ⟨rfl, fun i pump hpump msg hmsg => ?_, fun i => ⟨[], rfl, fun pump hpump _ => ?_⟩⟩
  · rw [hfetching i pump hpump] at hmsg
    cases hmsg
  · rw [hfetching i pump hpump]
    rfl

theorem Ordered.step (h : Ordered library spec s) (hstep : Step library spec s t) :
    Ordered library spec t := by
  have hsame : ∀ (i : ℕ) pump, s.pumps[i]? = some pump → pump = .ended ∨ s.pumps[i]? = some pump :=
    fun _ _ => Or.inr
  cases hstep with
  | fetched hpump hdurable hfresh =>
    exact h.of_pump hpump nofun rfl rfl rfl (List.append_nil _).symm rfl hdurable rfl
  | fetchFailed hpump =>
    exact h.of_pump hpump nofun rfl rfl rfl (List.append_nil _).symm (List.append_nil _).symm nofun rfl
  | put hpump hroom =>
    exact h.of_pump hpump nofun rfl rfl rfl (queued_concat ..) (List.append_nil _).symm nofun
      (List.append_nil _).symm
  | batchDone hpump =>
    exact h.of_pump hpump nofun rfl rfl rfl (List.append_nil _).symm (List.append_nil _).symm nofun rfl
  | putFailed hpump hroom =>
    exact h.of_pump hpump nofun rfl rfl rfl (queued_concat ..) (List.append_nil _).symm nofun rfl
  | @cancelled i pump hclosing hpump =>
    refine h.of_line (fun j other hother => ?_) rfl rfl h.yielded
    rw [List.getElem?_set] at hother
    split_ifs at hother with hj
    · exact .inl (Option.some.inj hother).symm
    · exact .inr hother
  | @yields msg queue message hiterating hqueue hreceived =>
    refine h.of_line hsame ?_ rfl ?_
    · rw [queued_of_cons hqueue, List.append_assoc]
      rfl
    · unfold NatsSubscription.yields
      rw [List.filterMap_append, h.yielded, List.filterMap_cons, hreceived]
      rfl
  | @discards msg queue reason hiterating hqueue hreceived =>
    refine h.of_line hsame ?_ rfl ?_
    · rw [queued_of_cons hqueue, List.append_assoc]
      rfl
    · unfold NatsSubscription.yields
      rw [List.filterMap_append, h.yielded, List.filterMap_cons, hreceived]
      exact (List.append_nil _).symm
  | discarded hiterating => exact h.of_line hsame rfl rfl h.yielded
  | iterated hiterating hqueue hitem =>
    refine h.of_line hsame ?_ rfl h.yielded
    rw [queued_of_end hqueue hitem]
    rfl
  | abandoned => exact h.of_line hsame rfl rfl h.yielded
  | ack hopen hkeys => exact h.of_line hsame rfl rfl h.yielded
  | confirms hacking => exact h.of_line hsame rfl rfl h.yielded
  | ackFailed => exact h.of_line hsame rfl rfl h.yielded
  | close hopen => exact h.of_line hsame rfl rfl h.yielded
  | collects hclosing hended =>
    refine ⟨h.yielded, h.rests, fun i => ?_⟩
    -- What was queued is not taken any more.
    obtain ⟨rest, hrest, -⟩ := h.order i
    refine ⟨ofDurable i s.queued ++ rest, ?_, fun pump hpump hne => ?_⟩
    · rw [ofDurable_append, List.append_assoc] at hrest
      rw [ofDurable_append, List.append_assoc]
      exact hrest
    · exact absurd (hended pump (List.mem_of_getElem? hpump)) hne
  | naks hclosing => exact h.of_line hsame rfl rfl h.yielded
  | closed hclosing =>
    refine h.of_line hsame ?_ rfl h.yielded
    unfold queued
    dsimp only
    rw [queued_concat]
    exact congrArg _ (List.append_nil _)

/-! ### What is acknowledged -/

/-- The iterator has yielded a message of this key, and this is its `Msg`. -/
def YieldedAs (library : Library) (spec : TopicSpec) (s : NatsSubscription) (key : DeliveryKey)
    (msg : Msg) : Prop :=
  msg ∈ s.taken ∧ ∃ message, received library spec msg = .ok message ∧ message.deliveryKey = key

/-- What is retained was yielded, and what is acknowledged was asked for as well. -/
structure Tracked (library : Library) (spec : TopicSpec) (s : NatsSubscription) : Prop where
  retained : ∀ key msg, s.retained.get? key = some msg → YieldedAs library spec s key msg
  acking : ∀ msg key keys, (msg, key, keys) ∈ s.acking →
    YieldedAs library spec s key msg ∧ key ∈ s.asked ∧ ∀ other ∈ keys, other ∈ s.asked
  confirmed : ∀ msg ∈ s.confirmed, ∃ key ∈ s.asked, YieldedAs library spec s key msg
  terminated : ∀ msg ∈ s.terminated, msg ∈ s.taken ∧ ∃ reason, received library spec msg = .error reason

theorem YieldedAs.mono {key : DeliveryKey} {msg : Msg} (h : YieldedAs library spec s key msg)
    (htaken : ∀ msg ∈ s.taken, msg ∈ t.taken) : YieldedAs library spec t key msg :=
  ⟨htaken msg h.1, h.2⟩

/-- The check of one more message. -/
theorem collectKeys_cons (holds : DeliveryKey → Bool) (message : ConsumedMessage)
    (rest : List ConsumedMessage) (keys : List DeliveryKey) :
    collectKeys holds (message :: rest) keys =
      if ¬ holds message.deliveryKey then
        .error (.notRetained message.topic message.partition message.offset)
      else collectKeys holds rest
        (if message.deliveryKey ∈ keys then keys else keys ++ [message.deliveryKey]) := rfl

/-- It is the check of the consumer that retains the same keys. -/
theorem collect_eq_collectKeys (consumer : NatsConsumer) (messages : List ConsumedMessage)
    (keys : List DeliveryKey) :
    consumer.collect messages keys = collectKeys consumer.retained.contains messages keys := by
  induction messages generalizing keys with
  | nil => rfl
  | cons message rest ih =>
    unfold NatsConsumer.collect
    rw [collectKeys_cons]
    dsimp only
    split_ifs with hretained hlisted
    · exact ih keys
    · exact ih _
    · rfl

/-- A key that is to be acknowledged names a message of the batch. -/
theorem mem_of_collectKeys {holds : DeliveryKey → Bool} {messages : List ConsumedMessage}
    {keys keys' : List DeliveryKey} (h : collectKeys holds messages keys = .ok keys') :
    ∀ key ∈ keys', key ∈ keys ∨ key ∈ messages.map ConsumedMessage.deliveryKey := by
  induction messages generalizing keys with
  | nil =>
    obtain rfl := Except.ok.inj h
    exact fun _ => Or.inl
  | cons message rest ih =>
    rw [collectKeys_cons] at h
    split_ifs at h with hretained hlisted
    all_goals
      intro key hkey
      rw [List.map_cons, List.mem_cons]
      obtain hbefore | hrest := ih h key hkey
    · exact .inl hbefore
    · exact .inr (.inr hrest)
    · obtain hbefore | hnew := List.mem_append.mp hbefore
      · exact .inl hbefore
      · exact .inr (.inl (List.mem_singleton.mp hnew))
    · exact .inr (.inr hrest)

theorem nextAck_eq_some {retained : Dict DeliveryKey Msg} {keys keys' : List DeliveryKey} {msg : Msg}
    {key : DeliveryKey} (h : nextAck retained keys = some (msg, key, keys')) :
    keys = key :: keys' ∧ retained.get? key = some msg := by
  cases keys with
  | nil => cases h
  | cons first rest =>
    obtain ⟨found, hfound, heq⟩ := Option.map_eq_some_iff.mp h
    cases heq
    exact ⟨rfl, hfound⟩

theorem tracked_start (durables : ℕ) : Tracked library spec (start durables) :=
  ⟨nofun, nofun, nofun, nofun⟩

/-- A step that takes messages, and of which it remains to be seen what it retains and terminates. -/
theorem Tracked.of_taken (h : Tracked library spec s) (htaken : ∀ msg ∈ s.taken, msg ∈ t.taken)
    (hacking : t.acking = s.acking) (hasked : t.asked = s.asked)
    (hconfirmed : t.confirmed = s.confirmed)
    (hretained : ∀ key msg, t.retained.get? key = some msg →
      s.retained.get? key = some msg ∨ YieldedAs library spec t key msg)
    (hterminated : ∀ msg ∈ t.terminated, msg ∈ s.terminated ∨
      msg ∈ t.taken ∧ ∃ reason, received library spec msg = .error reason) :
    Tracked library spec t := by
  refine ⟨fun key msg hmsg => ?_, fun msg key keys hmem => ?_, fun msg hmem => ?_, fun msg hmem => ?_⟩
  · obtain hbefore | hnew := hretained key msg hmsg
    · exact (h.retained key msg hbefore).mono htaken
    · exact hnew
  · obtain ⟨hyielded, hkeys⟩ := h.acking msg key keys (hacking ▸ hmem)
    exact ⟨hyielded.mono htaken, hasked ▸ hkeys⟩
  · obtain ⟨key, hkey, hyielded⟩ := h.confirmed msg (hconfirmed ▸ hmem)
    exact ⟨key, hasked ▸ hkey, hyielded.mono htaken⟩
  · obtain hbefore | hnew := hterminated msg hmem
    · obtain ⟨hmsg, hreason⟩ := h.terminated msg hbefore
      exact ⟨htaken msg hmsg, hreason⟩
    · exact hnew

theorem Tracked.step (h : Tracked library spec s) (hstep : Step library spec s t) :
    Tracked library spec t := by
  cases hstep with
  | fetched hpump hdurable hfresh => exact ⟨h.retained, h.acking, h.confirmed, h.terminated⟩
  | fetchFailed hpump => exact ⟨h.retained, h.acking, h.confirmed, h.terminated⟩
  | put hpump hroom => exact ⟨h.retained, h.acking, h.confirmed, h.terminated⟩
  | batchDone hpump => exact ⟨h.retained, h.acking, h.confirmed, h.terminated⟩
  | putFailed hpump hroom => exact ⟨h.retained, h.acking, h.confirmed, h.terminated⟩
  | cancelled hclosing hpump => exact ⟨h.retained, h.acking, h.confirmed, h.terminated⟩
  | @yields msg queue message hiterating hqueue hreceived =>
    have hself : msg ∈ s.taken ++ [msg] := List.mem_append_right _ (List.mem_singleton_self _)
    refine h.of_taken (fun _ => List.mem_append_left _) rfl rfl rfl (fun key other hother => ?_)
      fun _ => Or.inl
    dsimp only at hother
    rw [Dict.get?_set] at hother
    split_ifs at hother with hkey
    · obtain rfl := Option.some.inj hother
      exact .inr ⟨hself, message, hreceived, hkey⟩
    · exact .inl hother
  | @discards msg queue reason hiterating hqueue hreceived =>
    have hself : msg ∈ s.taken ++ [msg] := List.mem_append_right _ (List.mem_singleton_self _)
    refine h.of_taken (fun _ => List.mem_append_left _) rfl rfl rfl (fun _ _ => Or.inl)
      fun other hmem => ?_
    obtain hbefore | hnew := List.mem_append.mp hmem
    · exact .inl hbefore
    · obtain rfl := List.mem_singleton.mp hnew
      exact .inr ⟨hself, reason, hreceived⟩
  | discarded hiterating => exact ⟨h.retained, h.acking, h.confirmed, h.terminated⟩
  | iterated hiterating hqueue hitem => exact ⟨h.retained, h.acking, h.confirmed, h.terminated⟩
  | abandoned => exact ⟨h.retained, h.acking, h.confirmed, h.terminated⟩
  | @ack messages keys hopen hkeys =>
    have hasked : ∀ key ∈ keys, key ∈ s.asked ++ messages.map ConsumedMessage.deliveryKey :=
      fun key hkey => List.mem_append_right _
        ((mem_of_collectKeys hkeys key hkey).resolve_left List.not_mem_nil)
    refine ⟨h.retained, fun msg key rest hmem => ?_, fun msg hmem => ?_, h.terminated⟩
    · obtain hbefore | hnext := List.mem_append.mp hmem
      · obtain ⟨hyielded, hkey, hrest⟩ := h.acking msg key rest hbefore
        exact ⟨hyielded, List.mem_append_left _ hkey,
          fun other hother => List.mem_append_left _ (hrest other hother)⟩
      · obtain ⟨rfl, hretained⟩ := nextAck_eq_some (Option.mem_toList.mp hnext)
        obtain ⟨hkey, hrest⟩ := List.forall_mem_cons.mp hasked
        exact ⟨h.retained key msg hretained, hkey, hrest⟩
    · obtain ⟨key, hkey, hyielded⟩ := h.confirmed msg hmem
      exact ⟨key, List.mem_append_left _ hkey, hyielded⟩
  | @confirms i msg key keys hacking =>
    obtain ⟨hyielded, hkey, hkeys⟩ := h.acking msg key keys (List.mem_of_getElem? hacking)
    have hretained : ∀ other found, (s.retained.erase key).get? other = some found →
        s.retained.get? other = some found := by
      intro other found hfound
      rw [Dict.get?_erase] at hfound
      split_ifs at hfound
      exact hfound
    refine ⟨fun other found hfound => h.retained other found (hretained other found hfound),
      fun other key' keys' hmem => ?_, fun other hmem => ?_, h.terminated⟩
    · obtain hbefore | hnext := List.mem_append.mp hmem
      · exact h.acking other key' keys' (List.mem_of_mem_eraseIdx hbefore)
      · split_ifs at hnext
        · obtain ⟨rfl, hfound⟩ := nextAck_eq_some (Option.mem_toList.mp hnext)
          obtain ⟨hkey', hkeys'⟩ := List.forall_mem_cons.mp hkeys
          exact ⟨h.retained key' other (hretained key' other hfound), hkey', hkeys'⟩
        · cases hnext
    · obtain hbefore | hnew := List.mem_append.mp hmem
      · exact h.confirmed other hbefore
      · obtain rfl := List.mem_singleton.mp hnew
        exact ⟨key, hkey, hyielded⟩
  | ackFailed =>
    exact ⟨h.retained, fun msg key keys hmem => h.acking msg key keys (List.mem_of_mem_eraseIdx hmem),
      h.confirmed, h.terminated⟩
  | close hopen => exact ⟨h.retained, h.acking, h.confirmed, h.terminated⟩
  | collects hclosing hended =>
    -- Nothing is retained any more.
    refine ⟨fun key msg hmsg => ?_, h.acking, h.confirmed, h.terminated⟩
    cases hmsg
  | naks hclosing => exact ⟨h.retained, h.acking, h.confirmed, h.terminated⟩
  | closed hclosing => exact ⟨h.retained, h.acking, h.confirmed, h.terminated⟩

/-- Two deliveries of one key are of one message of the stream. -/
theorem YieldedAs.streamSeq {key : DeliveryKey} {msg : Msg} (h : YieldedAs library spec s key msg) :
    msg.streamSeq = key.2.2 := by
  obtain ⟨-, message, hreceived, rfl⟩ := h
  obtain ⟨partition, rfl, -⟩ := received_ok hreceived
  rfl

/-- What `ack` has forgotten is confirmed, and what a later delivery has replaced is retained, given
back or confirmed, in each case by a delivery of the same message. -/
structure Accounted (s : NatsSubscription) : Prop where
  settled : ∀ msg ∈ s.settled, ∃ delivery ∈ s.confirmed, delivery.streamSeq = msg.streamSeq
  superseded : ∀ msg ∈ s.superseded,
    ∃ delivery ∈ s.confirmed ++ (s.retained.values ++ (s.giving ++ s.naked)),
      delivery.streamSeq = msg.streamSeq

theorem accounted_start (durables : ℕ) : Accounted (start durables) := ⟨nofun, nofun⟩

/-- A step of `close`, which only moves what is not settled. -/
theorem Accounted.of_moved (h : Accounted s) (hsettled : t.settled = s.settled)
    (hsuperseded : t.superseded = s.superseded) (hconfirmed : t.confirmed = s.confirmed)
    (hmoved : s.retained.values ++ (s.giving ++ s.naked) ⊆ t.retained.values ++ (t.giving ++ t.naked)) :
    Accounted t := by
  refine ⟨?_, fun msg hmsg => ?_⟩
  · rw [hsettled, hconfirmed]
    exact h.settled
  · obtain ⟨delivery, hdelivery, hseq⟩ := h.superseded msg (hsuperseded ▸ hmsg)
    refine ⟨delivery, ?_, hseq⟩
    rw [hconfirmed]
    exact (List.mem_append.mp hdelivery).elim (List.mem_append_left _)
      fun hunsettled => List.mem_append_right _ (hmoved hunsettled)

/-- What was retained is, after a message is yielded, still retained or replaced by a delivery of the
same message. -/
theorem Tracked.exists_retained_set (h : Tracked library spec s) {msg : Msg} {message : ConsumedMessage}
    (hreceived : received library spec msg = .ok message) {delivery : Msg}
    (hdelivery : delivery ∈ s.retained.values) :
    ∃ other ∈ (s.retained.set message.deliveryKey msg).values,
      other.streamSeq = delivery.streamSeq := by
  obtain ⟨key, hkey⟩ := Dict.exists_get?_of_mem_values hdelivery
  by_cases hsame : message.deliveryKey = key
  · refine ⟨msg, Dict.mem_values_of_get? (k := key) ?_, ?_⟩
    · rw [Dict.get?_set, if_pos hsame]
    · obtain ⟨partition, rfl, -⟩ := received_ok hreceived
      rw [(h.retained key delivery hkey).streamSeq, ← hsame]
      rfl
  · refine ⟨delivery, Dict.mem_values_of_get? (k := key) ?_, rfl⟩
    rw [Dict.get?_set, if_neg hsame, hkey]

theorem Accounted.step (h : Accounted s) (htracked : Tracked library spec s)
    (hstep : Step library spec s t) : Accounted t := by
  cases hstep with
  | fetched hpump hdurable hfresh => exact ⟨h.settled, h.superseded⟩
  | fetchFailed hpump => exact ⟨h.settled, h.superseded⟩
  | put hpump hroom => exact ⟨h.settled, h.superseded⟩
  | batchDone hpump => exact ⟨h.settled, h.superseded⟩
  | putFailed hpump hroom => exact ⟨h.settled, h.superseded⟩
  | cancelled hclosing hpump => exact ⟨h.settled, h.superseded⟩
  | @yields msg queue message hiterating hqueue hreceived =>
    refine ⟨h.settled, fun other hother => ?_⟩
    obtain ⟨delivery, hdelivery, hsame⟩ : ∃ delivery ∈
        s.confirmed ++ (s.retained.values ++ (s.giving ++ s.naked)),
        delivery.streamSeq = other.streamSeq := by
      obtain hbefore | hreplaced := List.mem_append.mp hother
      · exact h.superseded other hbefore
      · have hvalue := Dict.mem_values_of_get? (Option.mem_toList.mp hreplaced)
        exact ⟨other, List.mem_append_right _ (List.mem_append_left _ hvalue), rfl⟩
    obtain hconfirmed | hunsettled := List.mem_append.mp hdelivery
    · exact ⟨delivery, List.mem_append_left _ hconfirmed, hsame⟩
    · obtain hretained | hgiven := List.mem_append.mp hunsettled
      · obtain ⟨later, hlater, hsame'⟩ := htracked.exists_retained_set hreceived hretained
        exact ⟨later, List.mem_append_right _ (List.mem_append_left _ hlater), hsame'.trans hsame⟩
      · exact ⟨delivery, List.mem_append_right _ (List.mem_append_right _ hgiven), hsame⟩
  | discards hiterating hqueue hreceived => exact ⟨h.settled, h.superseded⟩
  | discarded hiterating => exact ⟨h.settled, h.superseded⟩
  | iterated hiterating hqueue hitem => exact ⟨h.settled, h.superseded⟩
  | abandoned => exact ⟨h.settled, h.superseded⟩
  | ack hopen hkeys => exact ⟨h.settled, h.superseded⟩
  | @confirms i msg key keys hacking =>
    have hseq := (htracked.acking msg key keys (List.mem_of_getElem? hacking)).1.streamSeq
    have hself : msg ∈ s.confirmed ++ [msg] := List.mem_append_right _ (List.mem_singleton_self _)
    refine ⟨fun other hother => ?_, fun other hother => ?_⟩
    · obtain hbefore | hforgotten := List.mem_append.mp hother
      · obtain ⟨delivery, hdelivery, hsame⟩ := h.settled other hbefore
        exact ⟨delivery, List.mem_append_left _ hdelivery, hsame⟩
      · have hretained := htracked.retained key other (Option.mem_toList.mp hforgotten)
        exact ⟨msg, hself, hseq.trans hretained.streamSeq.symm⟩
    · obtain ⟨delivery, hdelivery, hsame⟩ := h.superseded other hother
      obtain hconfirmed | hunsettled := List.mem_append.mp hdelivery
      · exact ⟨delivery, List.mem_append_left _ (List.mem_append_left _ hconfirmed), hsame⟩
      obtain hretained | hgiven := List.mem_append.mp hunsettled
      · obtain ⟨key', hkey'⟩ := Dict.exists_get?_of_mem_values hretained
        by_cases heq : key = key'
        · -- It is the one that is forgotten now.
          subst heq
          refine ⟨msg, List.mem_append_left _ hself, ?_⟩
          rw [hseq, ← (htracked.retained key delivery hkey').streamSeq, hsame]
        · have hkept : (s.retained.erase key).get? key' = some delivery := by
            rw [Dict.get?_erase, if_neg heq, hkey']
          exact ⟨delivery, List.mem_append_right _
            (List.mem_append_left _ (Dict.mem_values_of_get? hkept)), hsame⟩
      · exact ⟨delivery, List.mem_append_right _ (List.mem_append_right _ hgiven), hsame⟩
  | ackFailed => exact ⟨h.settled, h.superseded⟩
  | close hopen =>
    refine h.of_moved rfl rfl rfl ?_
    unfold giving
    rw [hopen]
    exact List.Subset.refl _
  | collects hclosing hended =>
    refine h.of_moved rfl rfl rfl fun delivery hdelivery => ?_
    unfold giving at hdelivery ⊢
    rw [hclosing] at hdelivery
    obtain hretained | hnaked := List.mem_append.mp hdelivery
    · exact List.mem_append_right _ (List.mem_append_left _ (List.mem_append_right _ hretained))
    · exact List.mem_append_right _ (List.mem_append_right _ hnaked)
  | @naks msg rest hclosing =>
    refine h.of_moved rfl rfl rfl fun delivery hdelivery => ?_
    unfold giving at hdelivery ⊢
    rw [hclosing] at hdelivery
    simp only [List.mem_append, List.mem_cons, List.not_mem_nil, or_false] at hdelivery ⊢
    tauto
  | closed hclosing =>
    refine h.of_moved rfl rfl rfl ?_
    unfold giving
    rw [hclosing]
    exact List.Subset.refl _

/-! ### Every run -/

/-- What the loops, the iterator, `ack` and `close` keep. -/
structure Kept (library : Library) (spec : TopicSpec) (s : NatsSubscription) : Prop where
  ledger : Ledger s
  ordered : Ordered library spec s
  tracked : Tracked library spec s
  accounted : Accounted s

theorem Reached.kept {durables : ℕ} (hs : Reached library spec durables s) : Kept library spec s := by
  induction hs with
  | start =>
    exact ⟨ledger_start durables, ordered_start durables, tracked_start durables,
      accounted_start durables⟩
  | step hs h ih =>
    exact ⟨ih.ledger.step h, ih.ordered.step h, ih.tracked.step h, ih.accounted.step ih.tracked h⟩

/-- **Nothing that was fetched is lost.** However the fetch loops, the iterator, the calls of `ack` and
`close` interleave, each `Msg` that a loop has fetched is in exactly one place; of each durable the
iterator takes them in the order in which they were fetched, and yields those that are not malformed;
and nothing is acknowledged that was not yielded and then named to `ack`. Once `close` has returned,
each has been terminated as malformed or given back itself, or the message that it delivered has been
acknowledged or given back with another delivery. -/
theorem close_gives_back {durables : ℕ} (hs : Reached library spec durables s) :
    s.fetched.Nodup ∧ s.fetched.Perm s.places ∧ s.queue.length ≤ queueCapacity ∧
      (∀ i, ofDurable i s.taken <+: ofDurable i s.fetched) ∧
      s.yielded = yields library spec s.taken ∧
      (∀ msg ∈ s.confirmed, ∃ message ∈ s.yielded, message.deliveryKey ∈ s.asked ∧
        received library spec msg = .ok message) ∧
      (∀ msg ∈ s.terminated, ∃ reason, received library spec msg = .error reason) ∧
      (s.closing = .done → ∀ msg ∈ s.fetched, msg ∈ s.terminated ∨
        ∃ delivery ∈ s.confirmed ++ s.naked, delivery.streamSeq = msg.streamSeq) := by
  obtain ⟨hledger, hordered, htracked, haccounted⟩ := hs.kept
  refine ⟨hledger.nodup, List.perm_iff_count.mpr hledger.counted, hledger.room, fun i => ?_,
    hordered.yielded, fun msg hmsg => ?_, fun msg hmsg => (htracked.terminated msg hmsg).2,
    fun hdone msg hmsg => ?_⟩
  · obtain ⟨rest, hrest, -⟩ := hordered.order i
    rw [ofDurable_append, List.append_assoc] at hrest
    exact ⟨_, hrest⟩
  · obtain ⟨key, hasked, htaken, message, hreceived, rfl⟩ := htracked.confirmed msg hmsg
    refine ⟨message, ?_, hasked, hreceived⟩
    rw [hordered.yielded]
    refine List.mem_filterMap.mpr ⟨msg, htaken, ?_⟩
    rw [hreceived]
    rfl
  · -- Of its places only those are left in which it has been dealt with.
    obtain ⟨hended, hqueued, hunqueued, hretained⟩ := hledger.collected (.inr hdone)
    have hrests := rests_of_ended hended
    have hgiving : s.giving = [] := by
      unfold giving
      rw [hdone]
    have hplaces : s.places = s.settled ++ s.superseded ++ s.terminated ++ s.naked := by
      unfold places
      rw [hqueued, hrests, hunqueued, hretained, hgiving]
      rfl
    have hmem : msg ∈ s.places := (List.perm_iff_count.mpr hledger.counted).subset hmsg
    rw [hplaces] at hmem
    simp only [List.mem_append] at hmem ⊢
    obtain ((hsettled | hsuperseded) | hterminated) | hnaked := hmem
    · obtain ⟨delivery, hdelivery, hseq⟩ := haccounted.settled msg hsettled
      exact .inr ⟨delivery, .inl hdelivery, hseq⟩
    · obtain ⟨delivery, hdelivery, hseq⟩ := haccounted.superseded msg hsuperseded
      rw [hretained, hgiving] at hdelivery
      exact .inr ⟨delivery, List.mem_append.mp hdelivery, hseq⟩
    · exact .inl hterminated
    · exact .inr ⟨msg, .inr hnaked, rfl⟩

/-- A message of a partition, without a key. -/
def sampleMsg (id : ℕ) : Msg := ⟨id, 0, "hammertime.hot-ip.v1.3", none, [], id, 1⟩

/-- A loop fetches two messages; one is yielded and acknowledged, and `close` comes before the other one
is queued. -/
theorem exists_reached_sample : ∃ s, Reached Codec.interpreter hotIp 1 s ∧ s.closing = .done ∧
    s.fetched = [sampleMsg 0, sampleMsg 1] ∧ s.confirmed = [sampleMsg 0] ∧ s.naked = [sampleMsg 1] := by
  have hthree : ((3 : ℕ) : ℤ).natAbs < 10 ^ 640 := calc
    3 < 10 ^ 1 := by norm_num
    _ ≤ 10 ^ 640 := pow_le_pow_right₀ (by norm_num) (by norm_num)
  have hsubject : hotIp.subject Codec.interpreter (3 : ℕ) = .ok "hammertime.hot-ip.v1.3" :=
    subject_ok.mpr ⟨by norm_num, Library.within_of_lt _ hthree, rfl⟩
  have hreceived : received Codec.interpreter hotIp (sampleMsg 0) =
      .ok (toConsumed "hammertime.hot-ip.v1" (sampleMsg 0) 3) := by
    unfold received
    rw [show (sampleMsg 0).subject = "hammertime.hot-ip.v1.3" from rfl,
      partitionOf_eq_some.mpr hsubject]
    rfl
  have hfetched := Reached.start.step
    (@Step.fetched Codec.interpreter hotIp (start 1) 0 [sampleMsg 0, sampleMsg 1] rfl (by decide)
      (by decide))
  have hput := hfetched.step (@Step.put _ _ _ 0 (sampleMsg 0) [sampleMsg 1] rfl (by decide))
  have hyielded := hput.step (.yields rfl rfl hreceived)
  have hacking := hyielded.step
    (@Step.ack _ _ _ [toConsumed "hammertime.hot-ip.v1" (sampleMsg 0) 3] _ rfl rfl)
  have hconfirmed := hacking.step (@Step.confirms _ _ _ 0 _ _ _ rfl)
  have hclosing := hconfirmed.step (.close rfl)
  have hcancelled := hclosing.step (@Step.cancelled _ _ _ 0 _ rfl rfl)
  have hcollected := hcancelled.step (.collects rfl (by simp [start]))
  have hnaked := hcollected.step (.naks rfl)
  exact ⟨_, hnaked.step (.closed rfl), rfl, rfl, rfl, rfl⟩

theorem close_gives_back_sample : ∃ s, Reached Codec.interpreter hotIp 1 s ∧ s.closing = .done ∧
    s.fetched = [sampleMsg 0, sampleMsg 1] ∧ s.fetched.Perm s.places ∧
    ∀ msg ∈ s.fetched, msg ∈ s.terminated ∨
      ∃ delivery ∈ s.confirmed ++ s.naked, delivery.streamSeq = msg.streamSeq := by
  obtain ⟨s, hs, hdone, hfetched, -, -⟩ := exists_reached_sample
  obtain ⟨-, hplaces, -, -, -, -, -, hanswered⟩ := close_gives_back hs
  exact ⟨s, hs, hdone, hfetched, hplaces, hanswered hdone⟩

end NatsSubscription

end Hammertime.Bus
