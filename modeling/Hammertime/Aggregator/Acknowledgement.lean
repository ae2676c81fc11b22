import Hammertime.Aggregator.Worker
import Hammertime.Bus.Nats
import Hammertime.Config.Poller
import Hammertime.Lib.Machine

/-!
# The acknowledgement of handled messages

`ShardClaims.commit_handled` over a `NatsConsumer`, which is all that the worker's `_flush_and_ack`
does with the bus. The claims list the messages that have been handled, and the list is cleared once
all of them are acknowledged; the consumer forgets each one as the server confirms it. A commit that
fails with nothing confirmed leaves the two in step, and the next one makes up for it. A commit that
fails later does not: the list names messages that the consumer has forgotten, and `ack` refuses the
whole batch from then on (`retry_heals`).
-/

namespace Hammertime.Aggregator

open Lib Bus

/-- The message as the bus delivered it. `ack` does not read the delivery count, which is left out
here. -/
def ConsumedMessage.onBus (message : ConsumedMessage) : Bus.ConsumedMessage where
  topic := message.topic
  partition := message.partition
  offset := message.offset
  key := message.key
  value := message.value

/-- What a delivery of the message is retained under. -/
def ConsumedMessage.deliveryKey (message : ConsumedMessage) : DeliveryKey :=
  message.onBus.deliveryKey

/-- A member's claims and its consumer. -/
structure Session where
  claims : ShardClaims
  consumer : NatsConsumer
  /-- The deliveries that the server has confirmed, in order. -/
  acked : List Bus.ConsumedMessage

/-- What `commit_handled` raises. -/
inductive CommitError where
  /-- `flush` of the producer. -/
  | flush
  | ack (e : AckError)
deriving DecidableEq

/-- How the servers answer a commit: whether the flush returns, and the position of the first
acknowledgement that is not confirmed, if there is one. -/
structure Answers where
  flushes : Bool
  failsAt : Option ℕ

namespace Session

/-- The iterator yields a delivery of the message. -/
def receive (s : Session) (message : ConsumedMessage) (deliveryCount : ℤ) : Session :=
  { s with consumer := s.consumer.consume { message.onBus with deliveryCount } }

/-- The worker has handled the message. A `KeyError` leaves everything as it was. -/
def handle (s : Session) (message : ConsumedMessage) : Session :=
  match s.claims.markHandled message with
  | .ok claims => { s with claims }
  | .error _ => s

/-- `commit_handled`. -/
def commitHandled (s : Session) (answers : Answers) : Except CommitError Unit × Session :=
  if ¬ answers.flushes then (.error .flush, s)
  else
    let result := s.consumer.ack answers.failsAt (s.claims.handled.map ConsumedMessage.onBus)
    let s' := { s with consumer := result.consumer, acked := s.acked ++ result.confirmed }
    match result.raised with
    | some e => (.error (.ack e), s')
    | none => (.ok (), { s' with claims := { s.claims with handled := [] } })

end Session

/-- What happens next. -/
inductive SessionAction where
  | receive (message : ConsumedMessage) (deliveryCount : ℤ)
  | handle (message : ConsumedMessage)
  | commit (answers : Answers)

/-- One step of a session. -/
def Session.step (s : Session) : SessionAction → Session
  | .receive message deliveryCount => s.receive message deliveryCount
  | .handle message => s.handle message
  | .commit answers => (s.commitHandled answers).2

/-! ### Sessions in step -/

/-- The keys that a commit acknowledges. -/
def Session.pending (s : Session) : Finset DeliveryKey :=
  (s.claims.handled.map ConsumedMessage.deliveryKey).toFinset

/-- The consumer is open, and retains what has been handled. -/
structure Session.InStep (s : Session) : Prop where
  isOpen : s.consumer.closed = false
  durable : s.consumer.positional = false
  retains : ∀ message ∈ s.claims.handled, s.consumer.Retains message.deliveryKey

/-- The two sessions differ by a commit that acknowledged the keys, each once. -/
structure Session.Acknowledges (s s' : Session) (keys : Finset DeliveryKey) : Prop where
  handled : s'.claims.handled = []
  acked : ∃ acks : List Bus.ConsumedMessage, s'.acked = s.acked ++ acks ∧
    (acks.map Bus.ConsumedMessage.deliveryKey).Nodup ∧
    ∀ key, key ∈ acks.map Bus.ConsumedMessage.deliveryKey ↔ key ∈ keys

section

variable {s : Session}

theorem Session.mem_pending {key : DeliveryKey} :
    key ∈ s.pending ↔ ∃ message ∈ s.claims.handled, message.deliveryKey = key := by
  unfold pending
  rw [List.mem_toFinset, List.mem_map]

/-- The acknowledgements of a commit of a session in step: the pending keys, up to the position at
which the server does not confirm. -/
theorem Session.InStep.confirms (h : s.InStep) (failsAt : Option ℕ) :
    ∃ keys : List DeliveryKey, keys.Nodup ∧ keys.toFinset = s.pending ∧
      keys.length = s.pending.card ∧
      NatsConsumer.Confirms s.consumer keys (failsAt.getD keys.length)
        (s.consumer.ack failsAt (s.claims.handled.map ConsumedMessage.onBus)) := by
  have hretained : ∀ message ∈ s.claims.handled.map ConsumedMessage.onBus,
      s.consumer.Retains message.deliveryKey := List.forall_mem_map.mpr h.retains
  obtain ⟨keys, hnodup, hmem, hconfirms⟩ :=
    NatsConsumer.ack_spec failsAt h.isOpen h.durable hretained
  have hpending : keys.toFinset = s.pending := by
    ext key
    rw [List.mem_toFinset, hmem, mem_pending]
    simp only [List.mem_map, exists_exists_and_eq_and]
    exact Iff.rfl
  exact ⟨keys, hnodup, hpending, by rw [← hpending, List.toFinset_card_of_nodup hnodup], hconfirms⟩

/-- A commit that the server confirms acknowledges what has been handled. -/
theorem Session.InStep.commit_confirmed (h : s.InStep) (answers : Answers)
    (hflushes : answers.flushes = true) (hall : s.pending.card ≤ answers.failsAt.getD s.pending.card) :
    (s.commitHandled answers).1 = .ok () ∧
      s.Acknowledges (s.commitHandled answers).2 s.pending ∧
      (s.commitHandled answers).2.InStep := by
  obtain ⟨keys, hnodup, hpending, hlength, hconfirms⟩ := h.confirms answers.failsAt
  rw [← hlength] at hall
  have hraised := hconfirms.returned.mpr hall
  have hkeys := hconfirms.confirmed
  rw [List.take_of_length_le hall] at hkeys
  unfold commitHandled
  rw [hflushes, if_neg (not_not.mpr rfl)]
  dsimp only
  rw [hraised]
  refine ⟨rfl, ⟨rfl, _, rfl, ?_, fun key => ?_⟩, ⟨?_, ?_, ?_⟩⟩
  · rw [hkeys]
    exact hnodup
  · rw [hkeys, ← hpending, List.mem_toFinset]
  · exact hconfirms.closed.trans h.isOpen
  · exact hconfirms.positional.trans h.durable
  · exact fun message hmessage => absurd hmessage List.not_mem_nil

/-- A commit that fails has acknowledged the keys before the position, and lists them still. -/
theorem Session.InStep.commit_fails (h : s.InStep) {k : ℕ} (hk : k < s.pending.card) :
    (∃ key, (s.commitHandled ⟨true, some k⟩).1 = .error (.ack (.timeout key))) ∧
      (s.commitHandled ⟨true, some k⟩).2.claims = s.claims ∧
      (s.commitHandled ⟨true, some k⟩).2.consumer.closed = false ∧
      (s.commitHandled ⟨true, some k⟩).2.consumer.positional = false ∧
      ∃ keys : List DeliveryKey, keys.length = s.pending.card ∧ keys.toFinset = s.pending ∧
        ∀ key, (s.commitHandled ⟨true, some k⟩).2.consumer.Retains key ↔
          s.consumer.Retains key ∧ key ∉ keys.take k := by
  obtain ⟨keys, hnodup, hpending, hlength, hconfirms⟩ := h.confirms (some k)
  rw [Option.getD_some] at hconfirms
  unfold commitHandled
  rw [if_neg (not_not.mpr rfl)]
  dsimp only
  cases hraised : (s.consumer.ack (some k) (s.claims.handled.map ConsumedMessage.onBus)).raised with
  | none =>
    have hle := hconfirms.returned.mp hraised
    omega
  | some e =>
    obtain ⟨key, rfl⟩ := hconfirms.raised e hraised
    exact ⟨⟨key, rfl⟩, rfl, hconfirms.closed.trans h.isOpen, hconfirms.positional.trans h.durable,
      keys, hlength, hpending, hconfirms.retains⟩

/-- A commit whose first acknowledgement is not confirmed changes nothing. -/
theorem Session.commit_first (s : Session) (flushes : Bool) :
    (s.commitHandled ⟨flushes, some 0⟩).2 = s := by
  cases flushes with
  | false => rfl
  | true =>
    obtain ⟨hconsumer, hconfirmed, hreturned⟩ :=
      s.consumer.ack_first (s.claims.handled.map ConsumedMessage.onBus)
    unfold commitHandled
    rw [if_neg (not_not.mpr rfl)]
    dsimp only
    rw [hconsumer, hconfirmed, List.append_nil]
    cases hraised : (s.consumer.ack (some 0)
        (s.claims.handled.map ConsumedMessage.onBus)).raised with
    | some e => rfl
    | none =>
      -- It returns with an empty list only.
      have hnil : s.claims.handled = [] := List.map_eq_nil_iff.mp (hreturned hraised)
      show Session.mk { s.claims with handled := [] } s.consumer s.acked = s
      rw [← hnil]

/-! ### Messages between two commits -/

/-- What handling a message leaves: it is listed, if its partition is claimed. -/
theorem Session.handle_spec (s : Session) (message : ConsumedMessage) :
    (s.handle message).consumer = s.consumer ∧ (s.handle message).acked = s.acked ∧
      (s.handle message).claims.windows = s.claims.windows ∧
      (s.handle message).claims.handled =
        if s.claims.windows.contains message.partition then s.claims.handled ++ [message]
        else s.claims.handled := by
  unfold handle ShardClaims.markHandled
  split_ifs with hclaimed
  · exact ⟨rfl, rfl, rfl, rfl⟩
  · exact ⟨rfl, rfl, rfl, rfl⟩

theorem Session.InStep.receive (h : s.InStep) (message : ConsumedMessage) (deliveryCount : ℤ) :
    (s.receive message deliveryCount).InStep :=
  ⟨h.isOpen, h.durable, fun other hother =>
    (NatsConsumer.retains_consume h.durable).mpr (Or.inl (h.retains other hother))⟩

theorem Session.InStep.handle (h : s.InStep) {message : ConsumedMessage}
    (hretained : s.consumer.Retains message.deliveryKey) : (s.handle message).InStep := by
  obtain ⟨hconsumer, -, -, hhandled⟩ := s.handle_spec message
  refine ⟨hconsumer ▸ h.isOpen, hconsumer ▸ h.durable, fun other hother => ?_⟩
  rw [hconsumer]
  rw [hhandled] at hother
  split_ifs at hother
  · rcases List.mem_append.mp hother with hold | hnew
    · exact h.retains other hold
    · rw [List.mem_singleton.mp hnew]
      exact hretained
  · exact h.retains other hother

/-- The worker receives and handles the messages. -/
def Session.handleAll (s : Session) (more : List (ConsumedMessage × ℤ)) : Session :=
  more.foldl (fun s m => (s.receive m.1 m.2).handle m.1) s

/-- Messages of claimed partitions are retained and listed. -/
theorem Session.InStep.handleAll (h : s.InStep) (more : List (ConsumedMessage × ℤ))
    (hclaimed : ∀ m ∈ more, s.claims.windows.contains m.1.partition = true) :
    (s.handleAll more).InStep ∧ (s.handleAll more).acked = s.acked ∧
      (s.handleAll more).claims.handled = s.claims.handled ++ more.map Prod.fst := by
  induction more generalizing s with
  | nil => exact ⟨h, rfl, (List.append_nil _).symm⟩
  | cons m more ih =>
    obtain ⟨hself, hrest⟩ := List.forall_mem_cons.mp hclaimed
    obtain ⟨-, hacked, hwindows, hhandled⟩ := (s.receive m.1 m.2).handle_spec m.1
    have hstep : ((s.receive m.1 m.2).handle m.1).InStep :=
      (h.receive m.1 m.2).handle ((NatsConsumer.retains_consume h.durable).mpr (Or.inr rfl))
    have hclaimed' : ∀ m' ∈ more,
        ((s.receive m.1 m.2).handle m.1).claims.windows.contains m'.1.partition = true := by
      intro m' hm'
      rw [hwindows]
      exact hrest m' hm'
    have hself' : (s.receive m.1 m.2).claims.windows.contains m.1.partition = true := hself
    rw [if_pos hself'] at hhandled
    obtain ⟨hinStep, hacks, hall⟩ := ih hstep hclaimed'
    refine ⟨hinStep, hacks.trans hacked, hall.trans ?_⟩
    rw [hhandled, List.map_cons, List.append_assoc, List.singleton_append]
    rfl

/-! ### A commit that is tried again -/

/-- After a commit that failed at the position, and any further messages, a commit that the servers
confirm returns, and each handled message has been acknowledged once since before the failure. -/
def Session.RetryHeals (s : Session) (k : ℕ) : Prop :=
  ∀ more : List (ConsumedMessage × ℤ),
    (∀ m ∈ more, s.claims.windows.contains m.1.partition = true) →
    let later := (s.commitHandled ⟨true, some k⟩).2.handleAll more
    (later.commitHandled ⟨true, none⟩).1 = .ok () ∧
      s.Acknowledges (later.commitHandled ⟨true, none⟩).2
        ((s.claims.handled ++ more.map Prod.fst).map ConsumedMessage.deliveryKey).toFinset

/-- A session that lists a message which its consumer has forgotten. -/
structure Session.Stuck (s : Session) (key : DeliveryKey) : Prop where
  isOpen : s.consumer.closed = false
  durable : s.consumer.positional = false
  listed : ∃ message ∈ s.claims.handled, message.deliveryKey = key
  forgotten : ¬ s.consumer.Retains key

/-- Every commit is refused, and acknowledges nothing. -/
theorem Session.Stuck.commit {key : DeliveryKey} (h : s.Stuck key) (failsAt : Option ℕ) :
    ∃ topic partition offset, s.commitHandled ⟨true, failsAt⟩ =
      (.error (.ack (.notRetained topic partition offset)), s) := by
  obtain ⟨message, hmessage, rfl⟩ := h.listed
  obtain ⟨topic, partition, offset, hack⟩ := NatsConsumer.ack_refused failsAt h.isOpen h.durable
    (List.mem_map_of_mem hmessage) h.forgotten
  refine ⟨topic, partition, offset, ?_⟩
  unfold commitHandled
  rw [hack, if_neg (not_not.mpr rfl)]
  dsimp only
  rw [List.append_nil]

/-- Only a new delivery of the message helps. -/
theorem Session.Stuck.step {key : DeliveryKey} (h : s.Stuck key) {action : SessionAction}
    (hother : ∀ message deliveryCount, action = .receive message deliveryCount →
      message.deliveryKey ≠ key) : (s.step action).Stuck key := by
  cases action with
  | receive message deliveryCount =>
    refine ⟨h.isOpen, h.durable, h.listed, fun hretained => ?_⟩
    rcases (NatsConsumer.retains_consume h.durable).mp hretained with hold | hnew
    · exact h.forgotten hold
    · exact hother message deliveryCount rfl hnew.symm
  | handle message =>
    obtain ⟨hconsumer, -, -, hhandled⟩ := s.handle_spec message
    obtain ⟨listed, hlisted, hkey⟩ := h.listed
    show (s.handle message).Stuck key
    refine ⟨hconsumer ▸ h.isOpen, hconsumer ▸ h.durable, ⟨listed, ?_, hkey⟩,
      hconsumer ▸ h.forgotten⟩
    rw [hhandled]
    split_ifs
    · exact List.mem_append_left _ hlisted
    · exact hlisted
  | commit answers =>
    obtain ⟨flushes, failsAt⟩ := answers
    cases flushes with
    | false => exact h
    | true =>
      obtain ⟨topic, partition, offset, hcommit⟩ := h.commit failsAt
      show (s.commitHandled ⟨true, failsAt⟩).2.Stuck key
      rw [hcommit]
      exact h

/-- A commit that fails after its first acknowledgement leaves the session stuck. -/
theorem Session.InStep.stuck (h : s.InStep) {k : ℕ} (hk : k < s.pending.card) (hk0 : k ≠ 0) :
    ∃ key ∈ s.pending, (s.commitHandled ⟨true, some k⟩).2.Stuck key := by
  obtain ⟨-, hclaims, hopen, hdurable, keys, hlength, hpending, hretains⟩ := h.commit_fails hk
  cases keys with
  | nil =>
    rw [List.length_nil] at hlength
    omega
  | cons key keys =>
    have hkey : key ∈ s.pending := by
      rw [← hpending, List.mem_toFinset]
      exact List.mem_cons_self
    refine ⟨key, hkey, hopen, hdurable, ?_, fun hretained => ?_⟩
    · rw [hclaims]
      exact mem_pending.mp hkey
    · refine ((hretains key).mp hretained).2 ?_
      obtain ⟨j, rfl⟩ := Nat.exists_eq_succ_of_ne_zero hk0
      exact List.mem_cons_self

/-- A retry makes up for the failure exactly when nothing had been confirmed. -/
theorem Session.InStep.retryHeals_iff (h : s.InStep) {k : ℕ} (hk : k < s.pending.card) :
    s.RetryHeals k ↔ k = 0 := by
  constructor
  · intro hheals
    by_contra hk0
    obtain ⟨key, -, hstuck⟩ := h.stuck hk hk0
    obtain ⟨hreturned, -⟩ := hheals [] (fun m hm => absurd hm List.not_mem_nil)
    obtain ⟨topic, partition, offset, hcommit⟩ := hstuck.commit none
    have hcommit' : ((s.commitHandled ⟨true, some k⟩).2.handleAll []).commitHandled ⟨true, none⟩ =
        (.error (.ack (.notRetained topic partition offset)), _) := hcommit
    rw [hcommit'] at hreturned
    cases hreturned
  · rintro rfl more hclaimed
    rw [s.commit_first true]
    obtain ⟨hinStep, hacked, hhandled⟩ := h.handleAll more hclaimed
    obtain ⟨hreturned, hacknowledges, -⟩ := hinStep.commit_confirmed ⟨true, none⟩ rfl (le_refl _)
    refine ⟨hreturned, hacknowledges.handled, ?_⟩
    obtain ⟨acks, hacks, hnodup, hmem⟩ := hacknowledges.acked
    refine ⟨acks, hacked ▸ hacks, hnodup, fun key => ?_⟩
    rw [hmem]
    unfold pending
    rw [hhandled]

end

/-! ### Runs -/

/-- A commit that fails, if it does, before anything is confirmed. -/
def Answers.Clean (answers : Answers) (s : Session) : Prop :=
  ∀ k, answers.failsAt = some k → k = 0 ∨ s.pending.card ≤ k

/-- The worker handles what the consumer retains, and no commit fails after its first
acknowledgement. -/
def Session.Admits (s : Session) : SessionAction → Prop
  | .receive _ _ => True
  | .handle message => s.consumer.Retains message.deliveryKey
  | .commit answers => answers.Clean s

section

variable {s : Session}

/-- A commit of a session in step returns with everything acknowledged, or changes nothing. -/
theorem Session.InStep.commit_clean (h : s.InStep) {answers : Answers} (hclean : answers.Clean s) :
    ((s.commitHandled answers).1 = .ok () ∧ s.Acknowledges (s.commitHandled answers).2 s.pending ∧
        (s.commitHandled answers).2.InStep) ∨
      ((s.commitHandled answers).1 = .error .flush ∨
        ∃ key, (s.commitHandled answers).1 = .error (.ack (.timeout key))) ∧
      (s.commitHandled answers).2 = s := by
  obtain ⟨flushes, failsAt⟩ := answers
  cases flushes with
  | false => exact Or.inr ⟨Or.inl rfl, rfl⟩
  | true =>
    by_cases hall : s.pending.card ≤ failsAt.getD s.pending.card
    · exact Or.inl (h.commit_confirmed _ rfl hall)
    · cases failsAt with
      | none => exact absurd (le_refl _) hall
      | some k =>
        rw [Option.getD_some] at hall
        obtain rfl := (hclean k rfl).resolve_right hall
        exact Or.inr ⟨Or.inr (h.commit_fails (not_le.mp hall)).1, s.commit_first true⟩

theorem Session.InStep.step (h : s.InStep) {action : SessionAction} (hadmits : s.Admits action) :
    (s.step action).InStep := by
  cases action with
  | receive message deliveryCount => exact h.receive message deliveryCount
  | handle message => exact h.handle hadmits
  | commit answers =>
    show (s.commitHandled answers).2.InStep
    rcases h.commit_clean hadmits with ⟨-, -, hnext⟩ | ⟨-, hsame⟩
    · exact hnext
    · rw [hsame]
      exact h

/-- While every commit fails before anything is confirmed, nothing is acknowledged and nothing is
taken off the list. -/
theorem Session.InStep.run_failing (h : s.InStep) {actions : List SessionAction}
    (hadmits : Along Session.step Session.Admits s actions)
    (hfails : ∀ answers, .commit answers ∈ actions →
      answers.flushes = false ∨ answers.failsAt = some 0) :
    (actions.foldl Session.step s).acked = s.acked ∧
      s.claims.handled <+: (actions.foldl Session.step s).claims.handled := by
  induction actions generalizing s with
  | nil => exact ⟨rfl, List.prefix_refl _⟩
  | cons action rest ih =>
    obtain ⟨hallowed, hrest⟩ := hadmits
    have hstep : (s.step action).acked = s.acked ∧
        s.claims.handled <+: (s.step action).claims.handled := by
      cases action with
      | receive message deliveryCount => exact ⟨rfl, List.prefix_refl _⟩
      | handle message =>
        obtain ⟨-, hacked, -, hhandled⟩ := s.handle_spec message
        refine ⟨hacked, ?_⟩
        show s.claims.handled <+: (s.handle message).claims.handled
        rw [hhandled]
        split_ifs
        · exact List.prefix_append _ _
        · exact List.prefix_refl _
      | commit answers =>
        show (s.commitHandled answers).2.acked = s.acked ∧
          s.claims.handled <+: (s.commitHandled answers).2.claims.handled
        have hsame : (s.commitHandled answers).2 = s := by
          obtain ⟨flushes, failsAt⟩ := answers
          rcases hfails _ List.mem_cons_self with hflush | hfirst
          · obtain rfl : flushes = false := hflush
            rfl
          · obtain rfl : failsAt = some 0 := hfirst
            exact s.commit_first flushes
        rw [hsame]
        exact ⟨rfl, List.prefix_refl _⟩
    obtain ⟨hacked, hhandled⟩ := ih (h.step hallowed) hrest fun answers hin =>
      hfails answers (List.mem_cons_of_mem _ hin)
    exact ⟨hacked.trans hstep.1, hstep.2.trans hhandled⟩

end

/-- **A failed commit and its retry**. A commit that the server stops confirming at a position raises
a timeout, and a later one makes up for it exactly when the position is the first: otherwise every
later commit is refused, until the server delivers an acknowledged message again. In every run whose
commits fail, if they do, before anything is confirmed, a commit that the servers confirm acknowledges
each handled message once, and any other changes nothing; and while commits fail so, nothing is
acknowledged and nothing is taken off the list. -/
theorem commit_retry (s : Session) (h : s.InStep) :
    (∀ k < s.pending.card,
      (∃ key, (s.commitHandled ⟨true, some k⟩).1 = .error (.ack (.timeout key))) ∧
      (s.RetryHeals k ↔ k = 0) ∧
      (k ≠ 0 → ∃ key ∈ s.pending, ∀ actions : List SessionAction,
        (∀ message deliveryCount, .receive message deliveryCount ∈ actions →
          message.deliveryKey ≠ key) →
        let later := actions.foldl Session.step (s.commitHandled ⟨true, some k⟩).2
        ∀ failsAt, ∃ topic partition offset, later.commitHandled ⟨true, failsAt⟩ =
          (.error (.ack (.notRetained topic partition offset)), later))) ∧
    ∀ actions : List SessionAction, Along Session.step Session.Admits s actions →
      let later := actions.foldl Session.step s
      ((later.commitHandled ⟨true, none⟩).1 = .ok () ∧
        later.Acknowledges (later.commitHandled ⟨true, none⟩).2 later.pending) ∧
      (∀ answers : Answers, answers.Clean later →
        ((later.commitHandled answers).1 = .ok () ∧
          later.Acknowledges (later.commitHandled answers).2 later.pending) ∨
        ((later.commitHandled answers).1 = .error .flush ∨
          ∃ key, (later.commitHandled answers).1 = .error (.ack (.timeout key))) ∧
        (later.commitHandled answers).2 = later) ∧
      ((∀ answers, .commit answers ∈ actions →
          answers.flushes = false ∨ answers.failsAt = some 0) →
        later.acked = s.acked ∧ s.claims.handled <+: later.claims.handled) := by
  constructor
  · intro k hk
    refine ⟨(h.commit_fails hk).1, h.retryHeals_iff hk, fun hk0 => ?_⟩
    obtain ⟨key, hkey, hstuck⟩ := h.stuck hk hk0
    refine ⟨key, hkey, fun actions hothers => ?_⟩
    -- The session stays stuck along the run.
    have hrun : ∀ s : Session, s.Stuck key → (actions.foldl Session.step s).Stuck key := by
      induction actions with
      | nil => exact fun s hs => hs
      | cons action rest ih =>
        intro s hs
        refine ih (fun message deliveryCount hin =>
          hothers message deliveryCount (List.mem_cons_of_mem _ hin)) _ (hs.step ?_)
        rintro message deliveryCount rfl
        exact hothers message deliveryCount List.mem_cons_self
    exact fun failsAt => (hrun _ hstuck).commit failsAt
  · intro actions hadmits
    have hlater : (actions.foldl Session.step s).InStep :=
      hadmits.invariant (fun _ _ hs ha => hs.step ha) h
    refine ⟨?_, fun answers hclean => ?_, h.run_failing hadmits⟩
    · obtain ⟨hreturned, hacknowledges, -⟩ := hlater.commit_confirmed ⟨true, none⟩ rfl (le_refl _)
      exact ⟨hreturned, hacknowledges⟩
    · rcases hlater.commit_clean hclean with ⟨hreturned, hacknowledges, -⟩ | hfailed
      · exact Or.inl ⟨hreturned, hacknowledges⟩
      · exact Or.inr hfailed

/-! ### Two messages -/

/-- A member that owns one shard, and its consumer. -/
def ownerOfShard : Session where
  claims :=
    { config := Config.sampleConfig 0, memberId := "member", instanceId := "instance",
      leaseTtlS := 30, maxTrackedIps := 1000
      windows := Dict.empty.set 0
        { shard := 0, nextSequence := 0, capacityEvictions := 0, retentionEvictions := 0,
          config := Config.sampleConfig 0, maxTrackedIps := 1000, entries := .empty, tieBreak := 0,
          expiryHeap := [], expiryScheduled := .empty, lastSeenHeap := [],
          lastSeenScheduled := .empty, warmUntil := none }
      leased := {0}, handled := [], positions := .empty }
  consumer := ⟨false, false, .empty, fun _ _ h => by cases h⟩
  acked := []

/-- A message of its shard. -/
def messageAt (offset : ℕ) : ConsumedMessage where
  topic := "hammertime.observations.v1"
  partition := 0
  offset := offset
  key := none
  value := []

/-- The member has handled two messages. -/
def twoHandled : Session := ownerOfShard.handleAll [(messageAt 1, 1), (messageAt 2, 1)]

theorem twoHandled_inStep : twoHandled.InStep :=
  (Session.InStep.handleAll ⟨rfl, rfl, fun _ hmessage => absurd hmessage List.not_mem_nil⟩ _
    (by decide)).1

/-- A commit that fails at its first message is made up for by the next. -/
theorem commit_retry_first :
    (twoHandled.commitHandled ⟨true, none⟩).1 = .ok () ∧ twoHandled.RetryHeals 0 := by
  have hall := commit_retry twoHandled twoHandled_inStep
  exact ⟨(hall.2 [] trivial).1.1, (hall.1 0 (by decide +kernel)).2.1.mpr rfl⟩

/-- A commit that fails at its second message is not: the next one is refused because the first is
not retained any more, and the second stays unacknowledged. -/
theorem commit_retry_second :
    ¬ twoHandled.RetryHeals 1 ∧
      ((twoHandled.commitHandled ⟨true, some 1⟩).2.commitHandled ⟨true, none⟩).1 =
        .error (.ack (.notRetained "hammertime.observations.v1" 0 1)) := by
  refine ⟨fun hheals => ?_, rfl⟩
  have hfirst := (twoHandled_inStep.retryHeals_iff (k := 1) (by decide +kernel)).mp hheals
  exact absurd hfirst one_ne_zero

end Hammertime.Aggregator
