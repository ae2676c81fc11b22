import Hammertime.Bus.Memory
import Hammertime.Lib.Machine

/-!
# The in-memory bus is a durable log

What a call does to one consumer is `Moves`: it stays where it is, it subscribes, or it goes past one
offset of the log. A consumer that has subscribed keeps its topic, its group and its mode, and its
position only grows; the log and the acknowledged sets only grow too. From these every property of a
run follows: what a consumer yields lies at its position when it yields it, so that later yields lie
above earlier ones, and an offset that the group has acknowledged stays acknowledged.
-/

namespace Hammertime.Bus

open Lib

/-- What a call does to a consumer, and what the consumer hands over meanwhile. -/
inductive Moves (bus : InMemoryBus) (c : MemoryConsumer) :
    MemoryConsumer → List ConsumedMessage → Prop where
  | stays {c' : MemoryConsumer} (unacked : c'.unacked ⊆ c.unacked)
      (same : c' = { c with closed := c'.closed, unacked := c'.unacked }) : Moves bus c c' []
  | subscribes {c' : MemoryConsumer} (fresh : c.subscribed = false)
      (position : c'.positional = false → c'.position = 0)
      (same : c' = { c with
        subscribed := true
        topic := c'.topic
        positional := c'.positional
        position := c'.position }) : Moves bus c c' []
  | skips {topic : String} {record : Record} (htopic : c.topic = some topic)
      (hrecord : (bus.logs topic)[c.position]? = some record) (durable : c.positional = false)
      (acked : (c.position : ℤ) ∈ bus.acked (topic, c.groupId)) :
      Moves bus c { c with position := c.position + 1 } []
  | yields {c' : MemoryConsumer} {topic : String} {record : Record} (htopic : c.topic = some topic)
      (hrecord : (bus.logs topic)[c.position]? = some record)
      (unacked : c'.unacked ⊆ insert (c.position : ℤ) c.unacked)
      (same : c' = { c with position := c.position + 1, unacked := c'.unacked })
      (acked : c.positional = false → (c.position : ℤ) ∉ bus.acked (topic, c.groupId)) :
      Moves bus c c' [c.passed topic record]

theorem Moves.refl (bus : InMemoryBus) (c : MemoryConsumer) : Moves bus c c [] :=
  .stays (Finset.Subset.refl _) rfl

variable {s : System} {i : ℕ} {c : MemoryConsumer} {call : Call}

namespace System

/-! ### One call -/

theorem onConsumer_some {act : MemoryConsumer → Reply × System} (h : s.consumers[i]? = some c) :
    s.onConsumer i act = act c := by
  unfold onConsumer
  rw [h]

theorem getElem?_put_self (h : s.consumers[i]? = some c) (c' : MemoryConsumer) :
    (s.put i c').consumers[i]? = some c' := by
  obtain ⟨hi, -⟩ := List.getElem?_eq_some_iff.mp h
  exact List.getElem?_set_self hi

theorem getElem?_put_of_ne {j : ℕ} (h : j ≠ i) (c' : MemoryConsumer) :
    (s.put j c').consumers[i]? = s.consumers[i]? := List.getElem?_set_ne h

/-- A call on another consumer leaves this one alone. -/
theorem getElem?_onConsumer {j : ℕ} {act : MemoryConsumer → Reply × System}
    (hact : ∀ c, (act c).2.consumers[i]? = s.consumers[i]?) :
    (s.onConsumer j act).2.consumers[i]? = s.consumers[i]? := by
  unfold onConsumer
  split
  · rfl
  · exact hact _

/-- A call that is not on a consumer leaves it alone, and hands nothing over for it. -/
theorem step_other (h : s.consumers[i]? = some c) (hcall : call.on ≠ some i) :
    (s.step call).consumers[i]? = some c ∧ s.handed i call = [] := by
  have hne : ∀ {j}, call.on = some j → j ≠ i := by
    rintro j hj rfl
    exact hcall hj
  rw [← h]
  cases call with
  | publish topic key value messageId => exact ⟨rfl, rfl⟩
  | consumer groupId =>
    obtain ⟨hi, -⟩ := List.getElem?_eq_some_iff.mp h
    exact ⟨List.getElem?_append_left hi, rfl⟩
  | subscribe j topic partitions listener startOffset =>
    refine ⟨getElem?_onConsumer fun c => ?_, rfl⟩
    split
    · rfl
    · exact getElem?_put_of_ne (hne rfl) _
  | next j =>
    constructor
    · refine getElem?_onConsumer fun c => ?_
      split
      · rfl
      · exact getElem?_put_of_ne (hne rfl) _
    · unfold handed
      dsimp only
      split
      · exact if_neg (hne rfl)
      · rfl
  | ack j messages =>
    refine ⟨getElem?_onConsumer fun c => ?_, rfl⟩
    split
    · rfl
    · exact getElem?_put_of_ne (hne rfl) _
  | close j => exact ⟨getElem?_onConsumer fun c => getElem?_put_of_ne (hne rfl) _, rfl⟩

/-- A turn of a consumer's iterator. -/
theorem next_moves (h : s.consumers[i]? = some c) :
    ∃ c', (s.step (.next i)).consumers[i]? = some c' ∧ Moves s.bus c c' (s.handed i (.next i)) := by
  cases htopic : c.topic with
  | none =>
    have hact : s.act (.next i) = (.absent, s) := by
      simp only [act, onConsumer_some h, htopic]
    refine ⟨c, ?_, ?_⟩
    · rw [step, hact]
      exact h
    · simp only [handed, reply, hact]
      exact .refl _ _
  | some topic =>
    have hact : s.act (.next i) =
        (.turn (c.consume s.bus topic).1, s.put i (c.consume s.bus topic).2) := by
      simp only [act, onConsumer_some h, htopic]
    refine ⟨(c.consume s.bus topic).2, ?_, ?_⟩
    · rw [step, hact]
      exact getElem?_put_self h _
    · simp only [handed, reply, hact]
      -- The iterator waits at the end of the log and ends on a closed consumer.
      by_cases hstays : c.closed = true ∨ (s.bus.logs topic)[c.position]? = none
      · obtain ⟨hsame, hturn | hturn⟩ := MemoryConsumer.consume_none hstays
        · rw [hsame, hturn]
          exact .refl _ _
        · rw [hsame, hturn]
          exact .refl _ _
      · push Not at hstays
        obtain ⟨record, hrecord⟩ := Option.ne_none_iff_exists'.mp hstays.2
        obtain ⟨hsame, ⟨hdurable, hacked, hturn, hunacked⟩ | ⟨hacked, hturn, hunacked⟩⟩ :=
          MemoryConsumer.consume_record (Bool.eq_false_of_not_eq_true hstays.1) hrecord
        · rw [hturn]
          rw [hunacked] at hsame
          rw [hsame]
          exact .skips htopic hrecord hdurable hacked
        · rw [hturn]
          dsimp only
          rw [if_pos trivial]
          exact .yields htopic hrecord hunacked hsame hacked

/-- What a call does to a consumer. -/
theorem step_moves (h : s.consumers[i]? = some c) (call : Call) :
    ∃ c', (s.step call).consumers[i]? = some c' ∧ Moves s.bus c c' (s.handed i call) := by
  by_cases hcall : call.on = some i
  · cases call with
    | publish topic key value messageId => cases hcall
    | consumer groupId => cases hcall
    | subscribe j topic partitions listener startOffset =>
      obtain rfl : j = i := Option.some.inj hcall
      cases hsubscribe : c.subscribe topic partitions listener startOffset with
      | error error =>
        refine ⟨c, ?_, .refl _ _⟩
        simp only [step, act, onConsumer_some h, hsubscribe]
        exact h
      | ok c' =>
        obtain ⟨hfresh, hsame⟩ := MemoryConsumer.subscribe_ok hsubscribe
        refine ⟨c', ?_, .subscribes hfresh (fun hdurable => ?_) ?_⟩
        · simp only [step, act, onConsumer_some h, hsubscribe]
          exact getElem?_put_self h _
        -- Without a `start_offset` the walk begins at the start of the log.
        · rw [hsame] at hdurable ⊢
          rw [Option.isSome_eq_false_iff, Option.isNone_iff_eq_none] at hdurable
          rw [hdurable]
          rfl
        · rw [hsame]
    | next j =>
      obtain rfl : j = i := Option.some.inj hcall
      exact next_moves h
    | ack j messages =>
      obtain rfl : j = i := Option.some.inj hcall
      cases hack : c.ack s.bus messages with
      | error error =>
        refine ⟨c, ?_, .refl _ _⟩
        simp only [step, act, onConsumer_some h, hack]
        exact h
      | ok result =>
        obtain ⟨bus', c'⟩ := result
        obtain ⟨-, -, -, -, hunacked, hsame⟩ := MemoryConsumer.ack_ok hack
        refine ⟨c', ?_, .stays hunacked ?_⟩
        · simp only [step, act, onConsumer_some h, hack]
          exact getElem?_put_self (s := { s with bus := bus' }) h _
        · rw [hsame]
    | close j =>
      obtain rfl : j = i := Option.some.inj hcall
      refine ⟨c.close, ?_, ?_⟩
      · simp only [step, act, onConsumer_some h]
        exact getElem?_put_self h _
      · unfold MemoryConsumer.close
        split_ifs
        · exact .refl _ _
        · exact .stays (Finset.empty_subset _) rfl
  · obtain ⟨hsame, hhanded⟩ := step_other h hcall
    rw [hhanded]
    exact ⟨c, hsame, .refl _ _⟩

theorem getElem?_put_none (h : s.consumers[i]? = none) (j : ℕ) (c' : MemoryConsumer) :
    (s.put j c').consumers[i]? = none := by
  rw [List.getElem?_eq_none_iff] at h ⊢
  exact List.length_set.trans_le h

/-- Where there is no consumer yet, a call makes at most a new one. -/
theorem step_absent (h : s.consumers[i]? = none) (call : Call) :
    s.handed i call = [] ∧ ((s.step call).consumers[i]? = none ∨
      ∃ groupId, (s.step call).consumers[i]? = some { groupId := groupId }) := by
  cases call with
  | publish topic key value messageId => exact ⟨rfl, Or.inl h⟩
  | consumer groupId =>
    refine ⟨rfl, ?_⟩
    have hle : s.consumers.length ≤ i := List.getElem?_eq_none_iff.mp h
    obtain hlt | rfl := hle.lt_or_eq
    · refine Or.inl (List.getElem?_eq_none_iff.mpr ?_)
      simp only [step, act, List.length_append, List.length_singleton]
      omega
    · refine Or.inr ⟨groupId, ?_⟩
      simp only [step, act, List.getElem?_concat_length]
  | subscribe j topic partitions listener startOffset =>
    refine ⟨rfl, Or.inl ?_⟩
    rw [← h]
    refine getElem?_onConsumer fun c => ?_
    split
    · rfl
    · exact (getElem?_put_none h j _).trans h.symm
  | next j =>
    refine ⟨?_, Or.inl ?_⟩
    · unfold handed
      dsimp only
      split
      · next message hreply =>
        by_cases hj : j = i
        · subst hj
          simp only [reply, act, onConsumer, h] at hreply
          cases hreply
        · exact if_neg hj
      · rfl
    · rw [← h]
      refine getElem?_onConsumer fun c => ?_
      split
      · rfl
      · exact (getElem?_put_none h j _).trans h.symm
  | ack j messages =>
    refine ⟨rfl, Or.inl ?_⟩
    rw [← h]
    refine getElem?_onConsumer fun c => ?_
    split
    · rfl
    · next bus' c' hack =>
      exact (getElem?_put_none (s := { s with bus := bus' }) h j _).trans h.symm
  | close j =>
    refine ⟨rfl, Or.inl ?_⟩
    rw [← h]
    exact getElem?_onConsumer fun c => (getElem?_put_none h j _).trans h.symm

theorem bus_onConsumer {act : MemoryConsumer → Reply × System} (hact : ∀ c, (act c).2.bus = s.bus) :
    (s.onConsumer i act).2.bus = s.bus := by
  unfold onConsumer
  split
  · rfl
  · exact hact _

/-- An acknowledgement returns with what `ack` makes of the bus, or it changes nothing. -/
theorem act_ack (s : System) (i : ℕ) (messages : List ConsumedMessage) :
    (s.reply (.ack i messages) ≠ .returned ∧ s.step (.ack i messages) = s) ∨
      ∃ c bus' c', s.consumers[i]? = some c ∧ c.ack s.bus messages = .ok (bus', c') ∧
        s.reply (.ack i messages) = .returned ∧ (s.step (.ack i messages)).bus = bus' := by
  cases h : s.consumers[i]? with
  | none =>
    have hact : s.act (.ack i messages) = (.absent, s) := by simp only [act, onConsumer, h]
    rw [reply, step, hact]
    exact Or.inl ⟨nofun, rfl⟩
  | some c =>
    cases hack : c.ack s.bus messages with
    | error error =>
      have hact : s.act (.ack i messages) = (.raised error, s) := by
        simp only [act, onConsumer_some h, hack]
      rw [reply, step, hact]
      exact Or.inl ⟨nofun, rfl⟩
    | ok result =>
      have hact : s.act (.ack i messages) =
          (.returned, { s with bus := result.1 }.put i result.2) := by
        simp only [act, onConsumer_some h, hack]
      rw [reply, step, hact]
      exact Or.inr ⟨c, result.1, result.2, rfl, hack, rfl, rfl⟩

/-- What a call does to the bus: a publish appends, an acknowledgement that returns is marked, and
nothing else reaches it. -/
theorem bus_step (s : System) (call : Call) :
    (∃ topic key value messageId, call = .publish topic key value messageId ∧
        (s.step call).bus = s.bus.publish topic key value messageId) ∨
      (∃ i messages c bus' c', call = .ack i messages ∧ s.consumers[i]? = some c ∧
        c.ack s.bus messages = .ok (bus', c') ∧ s.reply call = .returned ∧
        (s.step call).bus = bus') ∨
      ((∀ i messages, call = .ack i messages → s.reply call ≠ .returned) ∧
        (∀ topic key value messageId, call ≠ .publish topic key value messageId) ∧
        (s.step call).bus = s.bus) := by
  cases call with
  | publish topic key value messageId => exact Or.inl ⟨topic, key, value, messageId, rfl, rfl⟩
  | consumer groupId => exact Or.inr (Or.inr ⟨nofun, nofun, rfl⟩)
  | subscribe j topic partitions listener startOffset =>
    refine Or.inr (Or.inr ⟨nofun, nofun, bus_onConsumer fun c => ?_⟩)
    split <;> rfl
  | next j =>
    refine Or.inr (Or.inr ⟨nofun, nofun, bus_onConsumer fun c => ?_⟩)
    split <;> rfl
  | ack j messages =>
    refine Or.inr ?_
    obtain ⟨hother, hsame⟩ | ⟨c, bus', c', h, hack, hreply, hbus⟩ := act_ack s j messages
    · exact Or.inr ⟨fun _ _ _ => hother, nofun, by rw [hsame]⟩
    · exact Or.inl ⟨j, messages, c, bus', c', rfl, h, hack, hreply, hbus⟩
  | close j => exact Or.inr (Or.inr ⟨nofun, nofun, bus_onConsumer fun c => rfl⟩)

/-- The logs only grow, at their ends. -/
theorem logs_step (s : System) (call : Call) (topic : String) :
    s.bus.logs topic <+: (s.step call).bus.logs topic := by
  obtain ⟨topic', key, value, messageId, -, hbus⟩ | ⟨i, messages, c, bus', c', -, -, hack, -, hbus⟩ |
    ⟨-, -, hbus⟩ := bus_step s call
  · rw [hbus]
    obtain ⟨-, hlogs⟩ | ⟨-, hlogs⟩ := s.bus.logs_publish topic' key value messageId topic
    · rw [hlogs]
    · rw [hlogs]
      exact List.prefix_append _ _
  · rw [hbus, (MemoryConsumer.ack_ok hack).2.1]
  · rw [hbus]

/-- A call that is an acknowledgement by a consumer of the group, returns and names the offset. -/
def Acknowledges (s : System) (call : Call) (topic group : String) (offset : ℤ) : Prop :=
  ∃ i messages c, call = .ack i messages ∧ s.reply call = .returned ∧ s.consumers[i]? = some c ∧
    c.groupId = group ∧ ∃ message ∈ messages, message.topic = topic ∧ message.offset = offset

/-- Only an acknowledgement that returns acknowledges anything, and it acknowledges what it names. -/
theorem mem_acked_step (s : System) (call : Call) (topic group : String) (offset : ℤ) :
    offset ∈ (s.step call).bus.acked (topic, group) ↔ offset ∈ s.bus.acked (topic, group) ∨
      s.Acknowledges call topic group offset := by
  obtain ⟨topic', key, value, messageId, rfl, hbus⟩ |
    ⟨i, messages, c, bus', c', rfl, hc, hack, hreply, hbus⟩ | ⟨hreply, -, hbus⟩ := bus_step s call
  · rw [hbus, InMemoryBus.acked_publish]
    refine ⟨Or.inl, ?_⟩
    rintro (h | ⟨i, messages, c, hcall, -⟩)
    · exact h
    · cases hcall
  · rw [hbus, (MemoryConsumer.ack_ok hack).2.2.2.1 topic group offset]
    refine or_congr Iff.rfl ⟨?_, ?_⟩
    · rintro ⟨rfl, hnamed⟩
      exact ⟨i, messages, c, rfl, hreply, hc, rfl, hnamed⟩
    · rintro ⟨i', messages', c₁, hcall, -, hc₁, rfl, hnamed⟩
      obtain ⟨rfl, rfl⟩ := Call.ack.inj hcall
      obtain rfl : c = c₁ := Option.some.inj (hc.symm.trans hc₁)
      exact ⟨rfl, hnamed⟩
  · rw [hbus]
    refine ⟨Or.inl, ?_⟩
    rintro (h | ⟨i, messages, c, hcall, hreturned, -⟩)
    · exact h
    · exact absurd hreturned (hreply i messages hcall)

/-- After a call a topic has seen the id of the call, if it is a publish to the topic. -/
theorem mem_seenIds_step (s : System) (call : Call) (topic id : String) :
    id ∈ (s.step call).bus.seenIds topic ↔ id ∈ s.bus.seenIds topic ∨
      ∃ key value, call = .publish topic key value (some id) := by
  obtain ⟨topic', key, value, messageId, rfl, hbus⟩ |
    ⟨i, messages, c, bus', c', rfl, hc, hack, hreply, hbus⟩ | ⟨-, hpublish, hbus⟩ := bus_step s call
  · rw [hbus, InMemoryBus.mem_seenIds_publish]
    refine or_congr Iff.rfl ⟨?_, ?_⟩
    · rintro ⟨rfl, rfl⟩
      exact ⟨key, value, rfl⟩
    · rintro ⟨key', value', hcall⟩
      obtain ⟨rfl, -, -, rfl⟩ := Call.publish.inj hcall
      exact ⟨rfl, rfl⟩
  · rw [hbus, (MemoryConsumer.ack_ok hack).2.2.1]
    refine ⟨Or.inl, ?_⟩
    rintro (h | ⟨key, value, hcall⟩)
    · exact h
    · cases hcall
  · rw [hbus]
    refine ⟨Or.inl, ?_⟩
    rintro (h | ⟨key, value, hcall⟩)
    · exact h
    · exact absurd hcall (hpublish _ _ _ _)

/-! ### Lists of calls -/

theorem logs_run (s : System) (calls : List Call) (topic : String) :
    s.bus.logs topic <+: (calls.foldl step s).bus.logs topic := by
  refine invariant_foldl (I := fun t : System => s.bus.logs topic <+: t.bus.logs topic)
    ?_ List.prefix_rfl calls
  intro t call h
  exact h.trans (logs_step t call topic)

/-- Every consumer that has a topic has subscribed. -/
def Valid (s : System) : Prop :=
  ∀ (i : ℕ) (c : MemoryConsumer), s.consumers[i]? = some c → c.topic ≠ none → c.subscribed = true

theorem valid_step (h : s.Valid) : (s.step call).Valid := by
  intro i c' hc' htopic
  cases hc : s.consumers[i]? with
  | none =>
    obtain hnone | ⟨groupId, hnew⟩ := (step_absent hc call).2
    · rw [hc'] at hnone
      cases hnone
    · rw [hc'] at hnew
      obtain rfl := Option.some.inj hnew
      exact absurd rfl htopic
  | some c =>
    obtain ⟨c₁, hc₁, hmoves⟩ := step_moves hc call
    obtain rfl : c' = c₁ := Option.some.inj (hc'.symm.trans hc₁)
    generalize s.handed i call = handed at hmoves
    cases hmoves with
    | stays _ same =>
      rw [same] at htopic ⊢
      exact h i c hc htopic
    | subscribes _ _ same => rw [same]
    | skips _ _ _ _ => exact h i c hc htopic
    | yields _ _ _ same _ =>
      rw [same] at htopic ⊢
      exact h i c hc htopic

theorem valid_after (calls : List Call) : (after calls).Valid :=
  invariant_foldl (fun _ _ h => valid_step h) (fun _ _ h => by cases h) calls

end System

/-- A consumer that has subscribed, and what may become of it. -/
structure Continues (c c' : MemoryConsumer) : Prop where
  subscribed : c'.subscribed = true
  topic : c'.topic = c.topic
  groupId : c'.groupId = c.groupId
  positional : c'.positional = c.positional
  position : c.position ≤ c'.position

theorem Moves.continues {bus : InMemoryBus} {c' : MemoryConsumer} {handed : List ConsumedMessage}
    (h : Moves bus c c' handed) (hc : c.subscribed = true) : Continues c c' := by
  cases h with
  | stays _ same =>
    rw [same]
    exact ⟨hc, rfl, rfl, rfl, le_rfl⟩
  | subscribes fresh _ _ =>
    rw [hc] at fresh
    cases fresh
  | skips _ _ _ _ => exact ⟨hc, rfl, rfl, rfl, Nat.le_succ _⟩
  | yields _ _ _ same _ =>
    rw [same]
    exact ⟨hc, rfl, rfl, rfl, Nat.le_succ _⟩

/-- A durable consumer that goes past an offset yields it, unless its group has acknowledged it. -/
theorem Moves.passes {bus : InMemoryBus} {c' : MemoryConsumer} {handed : List ConsumedMessage}
    (h : Moves bus c c' handed) (hc : c.topic ≠ none → c.subscribed = true)
    (hposition : c'.position = c.position + 1)
    (hdurable : c'.subscribed = true → c'.positional = false) :
    ∃ topic, c.topic = some topic ∧ Continues c c' ∧
      ((handed.map ConsumedMessage.offset = [] ∧
          (c.position : ℤ) ∈ bus.acked (topic, c.groupId)) ∨
        (handed.map ConsumedMessage.offset = [(c.position : ℤ)] ∧
          (c.position : ℤ) ∉ bus.acked (topic, c.groupId))) := by
  have hsubscribed : ∀ {topic}, c.topic = some topic → c.subscribed = true := by
    intro topic htopic
    apply hc
    rw [htopic]
    exact Option.some_ne_none _
  have hmoves := h
  cases h with
  | stays _ same =>
    have : c'.position = c.position := by rw [same]
    omega
  | subscribes _ position same =>
    have := position (hdurable (by rw [same]))
    omega
  | @skips topic _ htopic _ _ hacked =>
    exact ⟨topic, htopic, hmoves.continues (hsubscribed htopic), Or.inl ⟨rfl, hacked⟩⟩
  | @yields _ topic _ htopic _ _ same hfree =>
    have hcont := hmoves.continues (hsubscribed htopic)
    refine ⟨topic, htopic, hcont, Or.inr ⟨rfl, hfree ?_⟩⟩
    rw [← hcont.positional]
    exact hdurable hcont.subscribed

namespace System

/-- A consumer that has subscribed keeps its topic, its group and its mode, and never goes back. -/
theorem continues_run (h : s.consumers[i]? = some c) (hc : c.subscribed = true) (calls : List Call) :
    ∃ c', (calls.foldl step s).consumers[i]? = some c' ∧ Continues c c' := by
  refine invariant_foldl (I := fun t : System => ∃ c', t.consumers[i]? = some c' ∧ Continues c c') ?_
    ⟨c, h, hc, rfl, rfl, rfl, le_rfl⟩ calls
  rintro t call ⟨c₁, hc₁, hcont⟩
  obtain ⟨c₂, hc₂, hmoves⟩ := step_moves hc₁ call
  have hstep := hmoves.continues hcont.subscribed
  exact ⟨c₂, hc₂, hstep.subscribed, hstep.topic.trans hcont.topic,
    hstep.groupId.trans hcont.groupId, hstep.positional.trans hcont.positional,
    hcont.position.trans hstep.position⟩

/-- What a consumer hands over in a call is the record at its position, and it goes past it. -/
theorem handed_cases (hvalid : s.Valid) {m : ConsumedMessage} (hm : m ∈ s.handed i call) :
    ∃ c c' topic record, s.consumers[i]? = some c ∧ (s.step call).consumers[i]? = some c' ∧
      c.subscribed = true ∧ Continues c c' ∧ c'.position = c.position + 1 ∧ c.topic = some topic ∧
      (s.bus.logs topic)[c.position]? = some record ∧ m = c.passed topic record ∧
      s.handed i call = [m] ∧
      (c.positional = false → (c.position : ℤ) ∉ s.bus.acked (topic, c.groupId)) := by
  cases hc : s.consumers[i]? with
  | none =>
    rw [(step_absent hc call).1] at hm
    cases hm
  | some c =>
    obtain ⟨c', hc', hmoves⟩ := step_moves hc call
    generalize s.handed i call = handed at hm hmoves
    cases hmoves with
    | stays _ _ => cases hm
    | subscribes _ _ _ => cases hm
    | skips _ _ _ _ => cases hm
    | @yields _ topic record htopic hrecord hunacked same hacked =>
      obtain rfl := List.mem_singleton.mp hm
      have hsubscribed : c.subscribed = true := by
        refine hvalid i c hc ?_
        rw [htopic]
        exact Option.some_ne_none _
      refine ⟨c, c', topic, record, rfl, hc', hsubscribed, ?_, ?_, htopic, hrecord, rfl, rfl, hacked⟩
      · exact (Moves.yields htopic hrecord hunacked same hacked).continues hsubscribed
      · rw [same]

/-- What a consumer yields lies at or above its position. -/
theorem le_offset_of_mem_yields (hvalid : s.Valid) (h : s.consumers[i]? = some c)
    (hc : c.subscribed = true) {calls : List Call} {m : ConsumedMessage}
    (hm : m ∈ yields i s calls) : (c.position : ℤ) ≤ m.offset := by
  induction calls generalizing s c with
  | nil => cases hm
  | cons call rest ih =>
    obtain hm | hm := List.mem_append.mp hm
    · obtain ⟨c₀, c', topic, record, hc₀, -, -, -, -, -, -, rfl, -⟩ := handed_cases hvalid hm
      obtain rfl : c₀ = c := Option.some.inj (hc₀.symm.trans h)
      exact le_rfl
    · obtain ⟨c', hc', hmoves⟩ := step_moves h call
      have hcont := hmoves.continues hc
      have hle : (c'.position : ℤ) ≤ m.offset := ih (valid_step hvalid) hc' hcont.subscribed hm
      have := hcont.position
      omega

/-- A consumer yields in strictly increasing order. -/
theorem pairwise_yields (hvalid : s.Valid) (i : ℕ) (calls : List Call) :
    ((yields i s calls).map ConsumedMessage.offset).Pairwise (· < ·) := by
  induction calls generalizing s with
  | nil => exact List.Pairwise.nil
  | cons call rest ih =>
    have hstep : (s.step call).Valid := valid_step hvalid
    have hrest := ih hstep
    unfold yields
    cases hhanded : s.handed i call with
    | nil => exact hrest
    | cons m tail =>
      have hm : m ∈ s.handed i call := by
        rw [hhanded]
        exact List.mem_cons_self
      obtain ⟨c, c', topic, record, -, hc', -, hcont, hposition, -, -, hpassed, hone, -⟩ :=
        handed_cases hvalid hm
      obtain ⟨-, rfl⟩ := List.cons.inj (hhanded.symm.trans hone)
      refine List.pairwise_cons.mpr ⟨fun offset hoffset => ?_, hrest⟩
      obtain ⟨m', hm', rfl⟩ := List.mem_map.mp hoffset
      have hle : (c'.position : ℤ) ≤ m'.offset :=
        le_offset_of_mem_yields hstep hc' hcont.subscribed hm'
      have hoffset : m.offset = c.position := by
        rw [hpassed]
        rfl
      omega

/-- What a consumer has yielded lies below its position, in the log of its topic. -/
theorem mem_yields (hvalid : s.Valid) {calls : List Call} {m : ConsumedMessage}
    (hm : m ∈ yields i s calls) :
    ∃ c topic, (calls.foldl step s).consumers[i]? = some c ∧ c.topic = some topic ∧
      ∃ o < c.position, ∃ record, ((calls.foldl step s).bus.logs topic)[o]? = some record ∧
        m = { topic := topic, partition := thePartition, offset := o, key := record.key,
              value := record.value } := by
  induction calls generalizing s with
  | nil => cases hm
  | cons call rest ih =>
    obtain hm | hm := List.mem_append.mp hm
    -- The record stays where it is, and the consumer stays beyond it.
    · obtain ⟨c, c', topic, record, -, hc', -, hcont, hposition, htopic, hrecord, rfl, -⟩ :=
        handed_cases hvalid hm
      obtain ⟨c₂, hc₂, hrun⟩ := continues_run hc' hcont.subscribed rest
      have hlog : s.bus.logs topic <+: ((call :: rest).foldl step s).bus.logs topic :=
        logs_run s (call :: rest) topic
      refine ⟨c₂, topic, hc₂, ?_, c.position, ?_, record, ?_, rfl⟩
      · rw [hrun.topic, hcont.topic, htopic]
      · have := hrun.position
        omega
      · obtain ⟨hlt, -⟩ := List.getElem?_eq_some_iff.mp hrecord
        obtain ⟨tail, htail⟩ := hlog
        rw [← htail, List.getElem?_append_left hlt]
        exact hrecord
    · exact ih (valid_step hvalid) hm

/-- What a group has acknowledged, no durable consumer of it yields any more. -/
theorem offset_ne_of_acked (hvalid : s.Valid) {calls : List Call} {topic group : String} {offset : ℤ}
    (hacked : offset ∈ s.bus.acked (topic, group))
    (h : (calls.foldl step s).consumers[i]? = some c) (htopic : c.topic = some topic)
    (hgroup : c.groupId = group) (hdurable : c.positional = false) {m : ConsumedMessage}
    (hm : m ∈ yields i s calls) : m.offset ≠ offset := by
  induction calls generalizing s with
  | nil => cases hm
  | cons call rest ih =>
    obtain hm | hm := List.mem_append.mp hm
    -- A consumer that has a topic keeps it, so the one that yields is of the group and durable.
    · obtain ⟨c₀, c', topic₀, record, -, hc', -, hcont, -, htopic₀, -, rfl, -, hfree⟩ :=
        handed_cases hvalid hm
      obtain ⟨c₂, hc₂, hrun⟩ := continues_run hc' hcont.subscribed rest
      obtain rfl : c₂ = c := Option.some.inj (hc₂.symm.trans h)
      obtain rfl : topic = topic₀ := by
        rw [hrun.topic, hcont.topic, htopic₀] at htopic
        exact (Option.some.inj htopic).symm
      rw [hrun.groupId, hcont.groupId] at hgroup
      rw [hrun.positional, hcont.positional] at hdurable
      rintro rfl
      refine hfree hdurable ?_
      rw [hgroup]
      exact hacked
    · exact ih (valid_step hvalid) ((mem_acked_step s call topic group offset).mpr (Or.inl hacked)) h hm

/-- What a consumer may still acknowledge, it has yielded. -/
theorem unacked_yields (hvalid : s.Valid) {calls : List Call}
    (h : (calls.foldl step s).consumers[i]? = some c) {offset : ℤ} (hoffset : offset ∈ c.unacked) :
    (∃ c₀, s.consumers[i]? = some c₀ ∧ offset ∈ c₀.unacked) ∨
      offset ∈ (yields i s calls).map ConsumedMessage.offset := by
  induction calls generalizing s with
  | nil => exact Or.inl ⟨c, h, hoffset⟩
  | cons call rest ih =>
    have hsplit : (yields i s (call :: rest)).map ConsumedMessage.offset =
        (s.handed i call).map ConsumedMessage.offset ++
          (yields i (s.step call) rest).map ConsumedMessage.offset := List.map_append
    rw [hsplit, List.mem_append]
    obtain ⟨c', hc', hmem⟩ | hmem := ih (valid_step hvalid) h
    · cases hc : s.consumers[i]? with
      | none =>
        obtain hnone | ⟨groupId, hnew⟩ := (step_absent hc call).2
        · rw [hc'] at hnone
          cases hnone
        · rw [hc'] at hnew
          obtain rfl := Option.some.inj hnew
          cases hmem
      | some c₀ =>
        obtain ⟨c₁, hc₁, hmoves⟩ := step_moves hc call
        obtain rfl : c' = c₁ := Option.some.inj (hc'.symm.trans hc₁)
        generalize s.handed i call = handed at hmoves
        cases hmoves with
        | stays unacked _ => exact Or.inl ⟨c₀, rfl, unacked hmem⟩
        | subscribes _ _ same =>
          rw [same] at hmem
          exact Or.inl ⟨c₀, rfl, hmem⟩
        | skips _ _ _ _ => exact Or.inl ⟨c₀, rfl, hmem⟩
        | yields _ _ unacked _ _ =>
          obtain rfl | hmem := Finset.mem_insert.mp (unacked hmem)
          · exact Or.inr (Or.inl (List.mem_singleton.mpr rfl))
          · exact Or.inl ⟨c₀, rfl, hmem⟩
    · exact Or.inr (Or.inr hmem)

/-- In the call the consumer with the index goes from an offset to the next. -/
def Reaches (s : System) (i : ℕ) (call : Call) (o : ℕ) : Prop :=
  ∃ c c', s.consumers[i]? = some c ∧ (s.step call).consumers[i]? = some c' ∧ c.position = o ∧
    c'.position = o + 1

/-- A durable consumer has reached every offset below its position. -/
theorem exists_reaches (hvalid : s.Valid) {calls : List Call} {topic : String}
    (h : (calls.foldl step s).consumers[i]? = some c) (htopic : c.topic = some topic)
    (hdurable : c.positional = false) {o : ℕ} (ho : o < c.position)
    (hstart : ∀ c₀ : MemoryConsumer, s.consumers[i]? = some c₀ → c₀.subscribed = true →
      c₀.position ≤ o) :
    ∃ before call rest, calls = before ++ call :: rest ∧
      (before.foldl step s).Reaches i call o := by
  induction calls generalizing s with
  | nil =>
    have hsubscribed : c.subscribed = true := by
      refine hvalid i c h ?_
      rw [htopic]
      exact Option.some_ne_none _
    have := hstart c h hsubscribed
    omega
  | cons call rest ih =>
    -- The first call after which the position is beyond the offset is the one that reaches it.
    by_cases hnext : ∀ c₁ : MemoryConsumer, (s.step call).consumers[i]? = some c₁ →
        c₁.subscribed = true → c₁.position ≤ o
    · obtain ⟨before, call', rest', rfl, hreaches⟩ := ih (valid_step hvalid) h hnext
      exact ⟨call :: before, call', rest', rfl, hreaches⟩
    · push Not at hnext
      obtain ⟨c₁, hc₁, hsubscribed, hlt⟩ := hnext
      refine ⟨[], call, rest, rfl, ?_⟩
      cases hc : s.consumers[i]? with
      | none =>
        obtain hnone | ⟨groupId, hnew⟩ := (step_absent hc call).2
        · rw [hc₁] at hnone
          cases hnone
        · rw [hc₁] at hnew
          obtain rfl := Option.some.inj hnew
          cases hsubscribed
      | some c₀ =>
        obtain ⟨c', hc', hmoves⟩ := step_moves hc call
        obtain rfl : c' = c₁ := Option.some.inj (hc'.symm.trans hc₁)
        obtain ⟨c₂, hc₂, hrun⟩ := continues_run hc' hsubscribed rest
        obtain rfl : c₂ = c := Option.some.inj (hc₂.symm.trans h)
        generalize s.handed i call = handed at hmoves
        cases hmoves with
        | stays _ same =>
          have hposition : c'.position = c₀.position := by rw [same]
          rw [same] at hsubscribed
          have := hstart c₀ hc hsubscribed
          omega
        -- Only a positional subscription starts beyond an offset.
        | subscribes _ position _ =>
          have := position (hrun.positional.symm.trans hdurable)
          omega
        | skips _ _ _ _ =>
          have := hstart c₀ hc hsubscribed
          exact ⟨c₀, _, hc, hc', by dsimp only at hlt; omega, by dsimp only at hlt ⊢; omega⟩
        | yields _ _ _ same _ =>
          have hposition : c'.position = c₀.position + 1 := by rw [same]
          rw [same] at hsubscribed
          have := hstart c₀ hc hsubscribed
          exact ⟨c₀, c', hc, hc', by omega, by omega⟩

theorem yields_append (i : ℕ) (s : System) (before rest : List Call) :
    yields i s (before ++ rest) = yields i s before ++ yields i (before.foldl step s) rest := by
  induction before generalizing s with
  | nil => rfl
  | cons call before ih =>
    rw [List.cons_append, yields, yields, ih, List.append_assoc]
    rfl

/-- A durable consumer yields an offset that it reaches, unless its group has acknowledged it. -/
theorem mem_yields_iff (hvalid : s.Valid) {before rest : List Call} {topic : String}
    (h : ((before ++ call :: rest).foldl step s).consumers[i]? = some c)
    (htopic : c.topic = some topic) (hdurable : c.positional = false) {o : ℕ}
    (ho : (before.foldl step s).Reaches i call o) :
    (o : ℤ) ∈ (yields i s (before ++ call :: rest)).map ConsumedMessage.offset ↔
      (o : ℤ) ∉ (before.foldl step s).bus.acked (topic, c.groupId) := by
  have hmiddle : (before.foldl step s).Valid := invariant_foldl (fun _ _ h => valid_step h) hvalid before
  rw [List.foldl_append, List.foldl_cons] at h
  obtain ⟨c₀, c', hc₀, hc', rfl, hposition⟩ := ho
  -- What is yielded before the call lies below the offset.
  have hbelow : (c₀.position : ℤ) ∉ (yields i s before).map ConsumedMessage.offset := by
    intro hmem
    obtain ⟨m, hm, hoffset⟩ := List.mem_map.mp hmem
    obtain ⟨c₁, topic₁, hc₁, -, o, ho, record, -, rfl⟩ := mem_yields hvalid hm
    obtain rfl : c₀ = c₁ := Option.some.inj (hc₀.symm.trans hc₁)
    dsimp only at hoffset
    omega
  have hsplit : (c₀.position : ℤ) ∈
        (yields i s (before ++ call :: rest)).map ConsumedMessage.offset ↔
      (c₀.position : ℤ) ∈ ((before.foldl step s).handed i call).map ConsumedMessage.offset ∨
        (c₀.position : ℤ) ∈
          (yields i ((before.foldl step s).step call) rest).map ConsumedMessage.offset := by
    rw [yields_append, yields, List.map_append, List.map_append, List.mem_append, List.mem_append]
    exact or_iff_right hbelow
  rw [hsplit]
  obtain ⟨c₁, hc₁, hmoves⟩ := step_moves hc₀ call
  obtain rfl : c' = c₁ := Option.some.inj (hc'.symm.trans hc₁)
  have hends : c'.subscribed = true → Continues c' c := by
    intro hsubscribed
    obtain ⟨c₂, hc₂, hrun⟩ := continues_run hc' hsubscribed rest
    obtain rfl : c₂ = c := Option.some.inj (hc₂.symm.trans h)
    exact hrun
  obtain ⟨topic₀, htopic₀, hcont, hhanded⟩ := hmoves.passes (hmiddle i c₀ hc₀) hposition
    fun hsubscribed => (hends hsubscribed).positional.symm.trans hdurable
  have hrun := hends hcont.subscribed
  obtain rfl : topic₀ = topic := by
    rw [hrun.topic, hcont.topic, htopic₀] at htopic
    exact Option.some.inj htopic
  -- What is yielded after the call lies above the offset.
  have habove : (c₀.position : ℤ) ∉
      (yields i ((before.foldl step s).step call) rest).map ConsumedMessage.offset := by
    intro hmem
    obtain ⟨m, hm, hoffset⟩ := List.mem_map.mp hmem
    have := le_offset_of_mem_yields (valid_step hmiddle) hc' hcont.subscribed hm
    omega
  rw [or_iff_left habove, hrun.groupId, hcont.groupId]
  obtain ⟨hnothing, hacked⟩ | ⟨hyielded, hfree⟩ := hhanded
  · rw [hnothing]
    simp [hacked]
  · rw [hyielded]
    simp [hfree]

/-- An open consumer that is not at the end of the log goes past the next offset at its next turn. -/
theorem reaches_next {topic : String} (h : s.consumers[i]? = some c) (htopic : c.topic = some topic)
    (hopen : c.closed = false) (hlt : c.position < s.bus.endOffset topic) :
    s.Reaches i (.next i) c.position := by
  have hrecord : (s.bus.logs topic)[c.position]? = some (s.bus.logs topic)[c.position] :=
    List.getElem?_eq_getElem hlt
  have hstep : s.step (.next i) = s.put i (c.consume s.bus topic).2 := by
    simp only [step, act, onConsumer_some h, htopic]
  refine ⟨c, (c.consume s.bus topic).2, h, ?_, rfl, ?_⟩
  · rw [hstep]
    exact getElem?_put_self h _
  · rw [(MemoryConsumer.consume_record hopen hrecord).1]

/-- What a group has acknowledged is what was named in the acknowledgements that returned. -/
theorem mem_acked_after (calls : List Call) (topic group : String) (offset : ℤ) :
    offset ∈ (after calls).bus.acked (topic, group) ↔
      ∃ before call rest, calls = before ++ call :: rest ∧
        (after before).Acknowledges call topic group offset := by
  have hiff := foldl_iff_made (I := fun s : System => offset ∈ s.bus.acked (topic, group))
    (fun s call => mem_acked_step s call topic group offset) {} calls
  exact hiff.trans (or_iff_right (Finset.notMem_empty _))

/-- The ids that a topic has seen are those of the publishes to it. -/
theorem mem_seenIds_after (calls : List Call) (topic id : String) :
    id ∈ (after calls).bus.seenIds topic ↔
      ∃ key value, .publish topic key value (some id) ∈ calls := by
  have hiff := foldl_iff_made (I := fun s : System => id ∈ s.bus.seenIds topic)
    (fun s call => mem_seenIds_step s call topic id) {} calls
  refine (hiff.trans (or_iff_right (Finset.notMem_empty _))).trans ⟨?_, ?_⟩
  · rintro ⟨before, call, rest, rfl, key, value, rfl⟩
    exact ⟨key, value, List.mem_append_right _ List.mem_cons_self⟩
  · rintro ⟨key, value, hmem⟩
    obtain ⟨before, rest, rfl⟩ := List.append_of_mem hmem
    exact ⟨before, _, rest, rfl, key, value, rfl⟩

end System

/-- What it is for a bus to deliver like a durable log, after a list of calls. -/
structure DurableLog (calls : List Call) : Prop where
  /-- A consumer yields in strictly increasing order of the offsets, each at most once. -/
  increasing : ∀ i, ((System.yields i {} calls).map ConsumedMessage.offset).Pairwise (· < ·)
  /-- What it yields is the record of its topic at an offset that it has gone past. -/
  recorded : ∀ i, ∀ m ∈ System.yields i {} calls, ∃ c topic,
    (System.after calls).consumers[i]? = some c ∧ c.topic = some topic ∧
    ∃ o < c.position, ∃ record, ((System.after calls).bus.logs topic)[o]? = some record ∧
      m = { topic := topic, partition := thePartition, offset := o, key := record.key,
            value := record.value }
  /-- A durable consumer has reached every offset below its position. -/
  reached : ∀ i c topic, (System.after calls).consumers[i]? = some c → c.topic = some topic →
    c.positional = false → ∀ o < c.position, ∃ before call rest, calls = before ++ call :: rest ∧
      (System.after before).Reaches i call o
  /-- Of the offsets that it reaches it yields exactly those that its group had not acknowledged when
  it reached them. -/
  delivers : ∀ i c topic, (System.after calls).consumers[i]? = some c → c.topic = some topic →
    c.positional = false → ∀ before call rest o, calls = before ++ call :: rest →
      (System.after before).Reaches i call o →
      ((o : ℤ) ∈ (System.yields i {} calls).map ConsumedMessage.offset ↔
        (o : ℤ) ∉ (System.after before).bus.acked (topic, c.groupId))
  /-- As long as it is open and not at the end of the log, its next turn reaches the next offset. -/
  advances : ∀ i c topic, (System.after calls).consumers[i]? = some c → c.topic = some topic →
    c.closed = false → c.position < (System.after calls).bus.endOffset topic →
    (System.after calls).Reaches i (.next i) c.position
  /-- What a group has acknowledged is not yielded any more by a durable consumer of the group. -/
  notAgain : ∀ before rest, calls = before ++ rest → ∀ topic group offset,
    offset ∈ (System.after before).bus.acked (topic, group) → ∀ i c,
    (System.after calls).consumers[i]? = some c → c.topic = some topic → c.groupId = group →
    c.positional = false →
    offset ∉ (System.yields i (System.after before) rest).map ConsumedMessage.offset
  /-- What a group has acknowledged is what the acknowledgements that returned have named. -/
  acknowledged : ∀ topic group offset, offset ∈ (System.after calls).bus.acked (topic, group) ↔
    ∃ before call rest, calls = before ++ call :: rest ∧
      (System.after before).Acknowledges call topic group offset
  /-- An acknowledgement that raises leaves everything as it is. -/
  ackRaises : ∀ i messages error, (System.after calls).reply (.ack i messages) = .raised error →
    (System.after calls).step (.ack i messages) = System.after calls
  /-- An acknowledgement that returns names what the consumer has yielded, and acknowledges exactly
  that. -/
  ackReturns : ∀ i messages, (System.after calls).reply (.ack i messages) = .returned →
    (∀ m ∈ messages, m.offset ∈ (System.yields i {} calls).map ConsumedMessage.offset) ∧
    ∃ c, (System.after calls).consumers[i]? = some c ∧ ∀ topic group offset,
      offset ∈ ((System.after calls).step (.ack i messages)).bus.acked (topic, group) ↔
        offset ∈ (System.after calls).bus.acked (topic, group) ∨
          (group = c.groupId ∧ ∃ m ∈ messages, m.topic = topic ∧ m.offset = offset)
  /-- A publish with an id that was published to the topic before appends nothing. -/
  repeats : ∀ topic key value id, (∃ key' value', .publish topic key' value' (some id) ∈ calls) →
    ((System.after calls).step (.publish topic key value (some id))).bus.logs =
      (System.after calls).bus.logs
  /-- Any other publish appends its record. -/
  appends : ∀ topic key value messageId,
    (∀ id ∈ messageId, ∀ key' value', .publish topic key' value' (some id) ∉ calls) → ∀ topic',
    ((System.after calls).step (.publish topic key value messageId)).bus.logs topic' =
      (System.after calls).bus.logs topic' ++
        if topic' = topic then [⟨some (key.elim id utf8), value⟩] else []

namespace System

/-- **The in-memory bus delivers like a durable log**, whatever is called on it in whatever order. -/
theorem durable_log (calls : List Call) : DurableLog calls := by
  have hnew : System.Valid {} := fun _ _ h => by cases h
  constructor
  case increasing => exact fun i => pairwise_yields hnew i calls
  case recorded => exact fun i m hm => mem_yields hnew hm
  case reached =>
    intro i c topic h htopic hdurable o ho
    exact exists_reaches hnew h htopic hdurable ho fun _ h => by cases h
  case delivers =>
    rintro i c topic h htopic hdurable before call rest o rfl ho
    exact mem_yields_iff hnew h htopic hdurable ho
  case advances =>
    intro i c topic h htopic hopen hlt
    exact reaches_next h htopic hopen hlt
  case notAgain =>
    rintro before rest rfl topic group offset hacked i c h htopic hgroup hdurable hmem
    obtain ⟨m, hm, rfl⟩ := List.mem_map.mp hmem
    rw [after, List.foldl_append] at h
    exact offset_ne_of_acked (valid_after before) hacked h htopic hgroup hdurable hm rfl
  case acknowledged => exact mem_acked_after calls
  case ackRaises =>
    intro i messages error hreply
    obtain ⟨-, hsame⟩ | ⟨c, bus', c', -, -, hreturned, -⟩ := act_ack (after calls) i messages
    · exact hsame
    · rw [hreturned] at hreply
      cases hreply
  case ackReturns =>
    intro i messages hreply
    obtain ⟨hother, -⟩ | ⟨c, bus', c', h, hack, -, hbus⟩ := act_ack (after calls) i messages
    · exact absurd hreply hother
    · obtain ⟨hheld, -, -, hacked, -⟩ := MemoryConsumer.ack_ok hack
      refine ⟨fun m hm => ?_, c, h, fun topic group offset => ?_⟩
      · obtain ⟨_, hnone, -⟩ | hyielded := unacked_yields hnew h (hheld m hm).2.2
        · cases hnone
        · exact hyielded
      · rw [hbus]
        exact hacked topic group offset
  case repeats =>
    intro topic key value id hbefore
    have hseen : (after calls).bus.Repeats topic (some id) :=
      ⟨id, rfl, (mem_seenIds_after calls topic id).mpr hbefore⟩
    funext topic'
    obtain ⟨-, hlogs⟩ | ⟨hfresh, -⟩ :=
      (after calls).bus.logs_publish topic key value (some id) topic'
    · exact hlogs
    · exact absurd hseen hfresh
  case appends =>
    intro topic key value messageId hfresh topic'
    obtain ⟨⟨id, hid, hseen⟩, -⟩ | ⟨-, hlogs⟩ :=
      (after calls).bus.logs_publish topic key value messageId topic'
    · obtain ⟨key', value', hmem⟩ := (mem_seenIds_after calls topic id).mp hseen
      exact absurd hmem (hfresh id hid key' value')
    · exact hlogs

-- A consumer reads two records and acknowledges the first; its successor is handed the second only,
-- and a third publish under a known id changes nothing.
example :
    let message (o : ℤ) : ConsumedMessage := ⟨"t", 0, o, some [], [], 1⟩
    let calls : List Call :=
      [.publish "t" (.inl []) [] (some "a"), .publish "t" (.inl []) [] none, .consumer "g",
        .subscribe 0 "t" none none none, .next 0, .next 0, .ack 0 [message 0], .close 0,
        .publish "t" (.inl []) [] (some "a"), .consumer "g", .subscribe 1 "t" none none none,
        .next 1, .next 1, .next 1]
    yields 0 {} calls = [message 0, message 1] ∧ yields 1 {} calls = [message 1] := by
  decide

end System

end Hammertime.Bus
