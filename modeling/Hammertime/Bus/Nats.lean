import Hammertime.Bus.Memory
import Hammertime.Lib.Dict

/-!
# Acknowledgements over NATS

`NatsConsumer` of `hammertime.bus.nats`, as far as its durable subscription acknowledges. Each delivery
that the iterator yields is retained under its topic, partition and offset. `ack` checks the whole
batch against what is retained, and then acknowledges and forgets one delivery after the other, each
confirmed by the server. Where the server does not confirm, the call raises: what it has acknowledged
so far is forgotten, and the rest stays retained (`ack_spec`).

The `Msg` of a delivery is stood for by the message that `_to_consumed` makes of it. A call runs
alone: what the iterator yields while it waits for the server comes after it here.
-/

namespace Hammertime.Bus

open Lib

/-- What a delivery is retained under. -/
abbrev DeliveryKey := String × ℤ × ℤ

/-- The identity of an acknowledgement: topic, partition and offset. -/
def ConsumedMessage.deliveryKey (message : ConsumedMessage) : DeliveryKey :=
  (message.topic, message.partition, message.offset)

/-- `NatsConsumer`, less its bus and its subscriptions. -/
structure NatsConsumer where
  closed : Bool
  positional : Bool
  /-- `_retained`. -/
  retained : Dict DeliveryKey ConsumedMessage
  retained_key : ∀ key delivery, retained.get? key = some delivery → delivery.deliveryKey = key

/-- What `ack` raises. -/
inductive AckError where
  /-- `ValueError`: "cannot ack: this consumer is closed". -/
  | closed
  /-- `ValueError`: "cannot ack on a positional subscription". -/
  | positional
  /-- `ValueError`: "not delivered by this consumer under its durable subscription, or already
  acknowledged". -/
  | notRetained (topic : String) (partition offset : ℤ)
  /-- `KeyError`, of `self._retained[key]`. -/
  | keyError (key : DeliveryKey)
  /-- `nats.errors.TimeoutError`. -/
  | timeout (key : DeliveryKey)
deriving DecidableEq

/-- What a call of `ack` leaves. -/
structure Acknowledged where
  consumer : NatsConsumer
  /-- The deliveries that the server has confirmed, in order. -/
  confirmed : List ConsumedMessage
  raised : Option AckError

namespace NatsConsumer

/-- `_consume` yields a message: the most recent delivery is retained, of a durable subscription. -/
def consume (consumer : NatsConsumer) (message : ConsumedMessage) : NatsConsumer where
  closed := consumer.closed
  positional := consumer.positional
  retained :=
    if consumer.positional then consumer.retained
    else consumer.retained.set message.deliveryKey message
  retained_key key delivery h := by
    split_ifs at h with hpositional
    · exact consumer.retained_key key delivery h
    · rw [Dict.get?_set] at h
      split_ifs at h with hkey
      · obtain rfl := Option.some.inj h
        exact hkey
      · exact consumer.retained_key key delivery h

/-- `del self._retained[key]`. -/
def forget (consumer : NatsConsumer) (key : DeliveryKey) : NatsConsumer where
  closed := consumer.closed
  positional := consumer.positional
  retained := consumer.retained.erase key
  retained_key key' delivery h := by
    rw [Dict.get?_erase] at h
    split_ifs at h with hkey
    exact consumer.retained_key key' delivery h

/-- The first loop of `ack`: every message is retained, and each key is listed once. -/
def collect (consumer : NatsConsumer) :
    List ConsumedMessage → List DeliveryKey → Except AckError (List DeliveryKey)
  | [], keys => .ok keys
  | message :: rest, keys =>
    let key := message.deliveryKey
    if ¬ consumer.retained.contains key then
      .error (.notRetained message.topic message.partition message.offset)
    else collect consumer rest (if key ∈ keys then keys else keys ++ [key])

/-- The second loop of `ack`. The server confirms the acknowledgements up to the position `failsAt`,
or all of them. -/
def confirm (consumer : NatsConsumer) : Option ℕ → List DeliveryKey → Acknowledged
  | _, [] => ⟨consumer, [], none⟩
  | failsAt, key :: keys =>
    match consumer.retained.get? key with
    | none => ⟨consumer, [], some (.keyError key)⟩
    | some delivery =>
      if failsAt = some 0 then ⟨consumer, [], some (.timeout key)⟩
      else
        let rest := confirm (consumer.forget key) (failsAt.map (· - 1)) keys
        { rest with confirmed := delivery :: rest.confirmed }

/-- `ack`. -/
def ack (consumer : NatsConsumer) (failsAt : Option ℕ) (messages : List ConsumedMessage) :
    Acknowledged :=
  if consumer.closed then ⟨consumer, [], some .closed⟩
  else if consumer.positional then ⟨consumer, [], some .positional⟩
  else if messages = [] then ⟨consumer, [], none⟩
  else
    match consumer.collect messages [] with
    | .error e => ⟨consumer, [], some e⟩
    | .ok keys => consumer.confirm failsAt keys

/-! ### The check of the batch -/

section

variable {consumer : NatsConsumer} {messages : List ConsumedMessage} {keys : List DeliveryKey}

/-- The message has been delivered and not been acknowledged since. -/
def Retains (consumer : NatsConsumer) (key : DeliveryKey) : Prop :=
  ∃ delivery, consumer.retained.get? key = some delivery

theorem contains_iff {key : DeliveryKey} :
    consumer.retained.contains key = true ↔ consumer.Retains key :=
  Option.isSome_iff_exists

theorem collect_ok (hretained : ∀ message ∈ messages, consumer.Retains message.deliveryKey)
    (hnodup : keys.Nodup) : ∃ keys', consumer.collect messages keys = .ok keys' ∧ keys'.Nodup ∧
      ∀ key, key ∈ keys' ↔ key ∈ keys ∨ ∃ message ∈ messages, message.deliveryKey = key := by
  induction messages generalizing keys with
  | nil => exact ⟨keys, rfl, hnodup, by simp⟩
  | cons message rest ih =>
    obtain ⟨hself, hrest⟩ := List.forall_mem_cons.mp hretained
    have hnodup' : (if message.deliveryKey ∈ keys then keys
        else keys ++ [message.deliveryKey]).Nodup := by
      split_ifs with hlisted
      · exact hnodup
      · refine List.nodup_append.mpr ⟨hnodup, List.nodup_singleton _, ?_⟩
        rintro key hkey other hother rfl
        exact hlisted (List.mem_singleton.mp hother ▸ hkey)
    obtain ⟨keys', hcollect, hdistinct, hmem⟩ := ih hrest hnodup'
    refine ⟨keys', ?_, hdistinct, fun key => ?_⟩
    · unfold collect
      rw [if_neg (not_not.mpr (contains_iff.mpr hself))]
      exact hcollect
    · have hkeys : key ∈ (if message.deliveryKey ∈ keys then keys
          else keys ++ [message.deliveryKey]) ↔ key ∈ keys ∨ message.deliveryKey = key := by
        split_ifs with hlisted
        · refine ⟨Or.inl, fun h => h.elim id fun heq => heq ▸ hlisted⟩
        · rw [List.mem_append, List.mem_singleton, eq_comm]
      rw [hmem, hkeys, List.exists_mem_cons_iff, or_assoc]

/-- The keys of a batch that is not empty are not none. -/
theorem collect_ne_nil (message : ConsumedMessage) (rest : List ConsumedMessage)
    (keys : List DeliveryKey) : consumer.collect (message :: rest) keys ≠ .ok [] := by
  -- The list of keys only grows.
  have hgrows : ∀ (messages : List ConsumedMessage) (keys keys' : List DeliveryKey),
      consumer.collect messages keys = .ok keys' → keys ⊆ keys' := by
    intro messages
    induction messages with
    | nil =>
      intro keys keys' h
      obtain rfl := Except.ok.inj h
      exact List.Subset.refl _
    | cons first messages ih =>
      intro keys keys' h
      unfold collect at h
      dsimp only at h
      split_ifs at h with hretained hlisted
      · exact ih _ _ h
      · exact List.Subset.trans (List.subset_append_left _ _) (ih _ _ h)
  intro h
  unfold collect at h
  dsimp only at h
  split_ifs at h with hretained hlisted
  · exact List.not_mem_nil (hgrows _ _ _ h hlisted)
  · exact List.not_mem_nil (hgrows _ _ _ h (List.mem_append_right _ List.mem_cons_self))

/-- A message that is not retained makes the batch fail. -/
theorem collect_error {message : ConsumedMessage} (hmessage : message ∈ messages)
    (hgone : ¬ consumer.Retains message.deliveryKey) (keys : List DeliveryKey) :
    ∃ topic partition offset,
      consumer.collect messages keys = .error (.notRetained topic partition offset) := by
  induction messages generalizing keys with
  | nil => exact absurd hmessage List.not_mem_nil
  | cons first rest ih =>
    unfold collect
    by_cases hfirst : consumer.Retains first.deliveryKey
    · rw [if_neg (not_not.mpr (contains_iff.mpr hfirst))]
      refine ih ((List.mem_cons.mp hmessage).resolve_left ?_) _
      rintro rfl
      exact hgone hfirst
    · have hnot : ¬ consumer.retained.contains first.deliveryKey = true := by
        rwa [contains_iff]
      exact ⟨_, _, _, if_pos hnot⟩

/-! ### The acknowledgements -/

theorem retains_forget {key key' : DeliveryKey} :
    (consumer.forget key).Retains key' ↔ consumer.Retains key' ∧ key' ≠ key := by
  unfold Retains forget
  dsimp only
  rw [Dict.get?_erase]
  by_cases hkey : key = key'
  · simp [hkey]
  · simp [hkey, Ne.symm hkey]

theorem retains_consume {message : ConsumedMessage} (hpositional : consumer.positional = false)
    {key : DeliveryKey} : (consumer.consume message).Retains key ↔
      consumer.Retains key ∨ key = message.deliveryKey := by
  unfold Retains consume
  dsimp only
  rw [hpositional, if_neg Bool.false_ne_true, Dict.get?_set]
  by_cases hkey : message.deliveryKey = key
  · simp [hkey]
  · simp [hkey, Ne.symm hkey]

/-- What the acknowledgements of distinct retained keys leave: those before the first that the server
does not confirm are confirmed and forgotten. -/
structure Confirms (consumer : NatsConsumer) (keys : List DeliveryKey) (stop : ℕ)
    (result : Acknowledged) : Prop where
  closed : result.consumer.closed = consumer.closed
  positional : result.consumer.positional = consumer.positional
  confirmed : result.confirmed.map ConsumedMessage.deliveryKey = keys.take stop
  retains : ∀ key, result.consumer.Retains key ↔ consumer.Retains key ∧ key ∉ keys.take stop
  returned : result.raised = none ↔ keys.length ≤ stop
  raised : ∀ e, result.raised = some e → ∃ key, e = .timeout key

theorem confirm_spec (failsAt : Option ℕ) (hnodup : keys.Nodup)
    (hretained : ∀ key ∈ keys, consumer.Retains key) :
    Confirms consumer keys (failsAt.getD keys.length) (consumer.confirm failsAt keys) := by
  induction keys generalizing consumer failsAt with
  | nil => exact ⟨rfl, rfl, by simp [confirm], by simp [confirm], by simp [confirm], nofun⟩
  | cons key keys ih =>
    obtain ⟨hnot, hnodup⟩ := List.nodup_cons.mp hnodup
    obtain ⟨⟨delivery, hdelivery⟩, hrest⟩ := List.forall_mem_cons.mp hretained
    unfold confirm
    rw [hdelivery]
    dsimp only
    by_cases hfails : failsAt = some 0
    · rw [if_pos hfails, hfails]
      refine ⟨rfl, rfl, by simp, by simp, by simp, ?_⟩
      rintro e he
      exact ⟨key, (Option.some.inj he).symm⟩
    · rw [if_neg hfails]
      have hretained' : ∀ other ∈ keys, (consumer.forget key).Retains other := by
        intro other hother
        refine retains_forget.mpr ⟨hrest other hother, ?_⟩
        rintro rfl
        exact hnot hother
      have h := ih (failsAt.map (· - 1)) hnodup hretained'
      -- The position is one further on in the whole list.
      have hstop : failsAt.getD (key :: keys).length =
          (failsAt.map (· - 1)).getD keys.length + 1 := by
        cases failsAt with
        | none => rfl
        | some k =>
          have hk : k ≠ 0 := fun hk => hfails (congrArg some hk)
          simp only [Option.getD_some, Option.map_some]
          omega
      rw [hstop]
      refine ⟨h.closed, h.positional, ?_, fun other => ?_, ?_, h.raised⟩
      · rw [List.take_succ_cons, List.map_cons, consumer.retained_key key delivery hdelivery]
        exact congrArg _ h.confirmed
      · rw [h.retains, retains_forget, List.take_succ_cons, List.mem_cons, not_or, and_assoc]
      · rw [List.length_cons, Nat.add_le_add_iff_right]
        exact h.returned

/-- What `ack` does with a batch whose messages are all retained. -/
theorem ack_spec (failsAt : Option ℕ) (hclosed : consumer.closed = false)
    (hpositional : consumer.positional = false)
    (hretained : ∀ message ∈ messages, consumer.Retains message.deliveryKey) :
    ∃ keys : List DeliveryKey, keys.Nodup ∧
      (∀ key, key ∈ keys ↔ ∃ message ∈ messages, message.deliveryKey = key) ∧
      Confirms consumer keys (failsAt.getD keys.length) (consumer.ack failsAt messages) := by
  obtain ⟨keys, hcollect, hnodup, hmem⟩ := collect_ok hretained List.nodup_nil
  have hmem : ∀ key, key ∈ keys ↔ ∃ message ∈ messages, message.deliveryKey = key := by
    intro key
    rw [hmem]
    exact or_iff_right List.not_mem_nil
  refine ⟨keys, hnodup, hmem, ?_⟩
  have hkeys : ∀ key ∈ keys, consumer.Retains key := by
    intro key hkey
    obtain ⟨message, hmessage, rfl⟩ := (hmem key).mp hkey
    exact hretained message hmessage
  have hspec := confirm_spec failsAt hnodup hkeys
  unfold ack
  rw [hclosed, hpositional, hcollect]
  by_cases hempty : messages = []
  · subst hempty
    obtain rfl : keys = [] := List.eq_nil_iff_forall_not_mem.mpr fun key hkey => by
      obtain ⟨message, hmessage, -⟩ := (hmem key).mp hkey
      exact absurd hmessage List.not_mem_nil
    exact hspec
  · simp only [Bool.false_eq_true, if_false, if_neg hempty]
    exact hspec

/-- Where the first acknowledgement is not confirmed, nothing changes, and the call returns only if
there is none. -/
theorem ack_first (consumer : NatsConsumer) (messages : List ConsumedMessage) :
    (consumer.ack (some 0) messages).consumer = consumer ∧
      (consumer.ack (some 0) messages).confirmed = [] ∧
      ((consumer.ack (some 0) messages).raised = none → messages = []) := by
  unfold ack
  split_ifs with hclosed hpositional hempty
  · exact ⟨rfl, rfl, nofun⟩
  · exact ⟨rfl, rfl, nofun⟩
  · exact ⟨rfl, rfl, fun _ => hempty⟩
  · cases hcollect : consumer.collect messages [] with
    | error e => exact ⟨rfl, rfl, nofun⟩
    | ok keys =>
      cases keys with
      | nil =>
        obtain ⟨message, rest, rfl⟩ := List.exists_cons_of_ne_nil hempty
        exact absurd hcollect (collect_ne_nil message rest [])
      | cons key keys =>
        dsimp only
        unfold confirm
        split
        · exact ⟨rfl, rfl, nofun⟩
        · exact ⟨rfl, rfl, nofun⟩

/-- A batch with a message that is not retained is refused before anything is acknowledged. -/
theorem ack_refused (failsAt : Option ℕ) (hclosed : consumer.closed = false)
    (hpositional : consumer.positional = false) {message : ConsumedMessage}
    (hmessage : message ∈ messages) (hgone : ¬ consumer.Retains message.deliveryKey) :
    ∃ topic partition offset, consumer.ack failsAt messages =
      ⟨consumer, [], some (.notRetained topic partition offset)⟩ := by
  obtain ⟨topic, partition, offset, herror⟩ := collect_error hmessage hgone []
  have hne : messages ≠ [] := List.ne_nil_of_mem hmessage
  refine ⟨topic, partition, offset, ?_⟩
  unfold ack
  rw [hclosed, hpositional, herror]
  simp only [Bool.false_eq_true, if_false, if_neg hne]

end

end NatsConsumer

end Hammertime.Bus
