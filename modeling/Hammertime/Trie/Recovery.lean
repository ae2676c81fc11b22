import Hammertime.Lib.Machine
import Hammertime.Trie.StatsLog

/-!
# Recovery of the trie service

What the prefix-stats log holds over any run of `TrieSystem`: whatever processes ran, wherever each of
them ended and whichever of its publishes failed. A process never leaves a block out that the log does
not have whole, since the place where it resumes is read off the log's last message
(`Serving.subscribed`); and it repeats no message, since the topic knows the ids.
-/

namespace Hammertime.Trie

open Codec (Library DateTime)
open Lib Bus

variable {library : Library} {publisher : PrefixStatsPublisher} {served : Finset AddressFamily}
  {reading : Reading} {worker : TrieWorker} {message : ConsumedMessage}

/-! ### What `handle` does -/

/-- The worker after it has absorbed a message. -/
def TrieWorker.absorbed (worker : TrieWorker) (library : Library) (message : ConsumedMessage) :
    TrieWorker :=
  { worker with state := worker.state.absorb library message }

/-- `handle`, while the worker is not stopping. -/
theorem TrieWorker.handle_eq (hgo : worker.stopping = false) (publishing : Publishing) :
    worker.handle library publishing message =
      match TrieWorker.handleMessage library message worker with
      | .ok (outcome, none) after => .ok outcome after
      | .ok (outcome, some stats) after =>
        match publish publishing stats after.bus with
        | .ok _ bus => .ok outcome { after with bus := bus }
        | .error error bus => .error (.publish error) { after with bus := bus }
      | .error error after => .error error after := by
  unfold handle
  rw [Program.bind_apply]
  show (if worker.stopping = true then _ else _ : Program _ _ _) worker = _
  rw [if_neg (Bool.not_eq_true _ ▸ hgo), Program.bind_apply]
  cases handleMessage library message worker with
  | error error after => rfl
  | ok answer after =>
    obtain ⟨outcome, stats⟩ := answer
    cases stats with
    | none => rfl
    | some stats =>
      dsimp only
      rw [Program.bind_apply]
      unfold publishStats
      cases publish publishing stats after.bus <;> rfl

/-- The end of `_handle` where nothing is to be published. -/
theorem TrieWorker.conclude_skipped {payload : Codec.HotIpEvent} {changed : Bool}
    (h : changed = false ∨ worker.state.eventSequence < worker.republishFrom.getD 0) :
    conclude library payload changed worker =
      .ok (if changed then .applied else .unchanged, none) worker := by
  unfold conclude
  rw [Program.bind_apply]
  show (if _ then _ else _ : Program _ _ _) _ = _
  rw [if_pos h]
  rfl

/-- The end of `_handle` where the stats of an event are to be published. -/
theorem TrieWorker.conclude_prepared {payload : Codec.HotIpEvent} {fs : FamilyState}
    (hfs : worker.state.families payload.ip.family = some fs)
    (h : ¬ worker.state.eventSequence < worker.republishFrom.getD 0) :
    conclude library payload true worker =
      match worker.publisher.prepare library fs.trie payload.ip worker.state.eventSequence
          worker.state.config.configVersion payload.timestamp with
      | .ok stats => .ok (.applied, some stats) worker
      | .error error => .error (.prepare error) worker := by
  have hnot : ¬ (true = false ∨ worker.state.eventSequence < worker.republishFrom.getD 0) := by
    rintro (hfalse | hskip)
    · cases hfalse
    · exact h hskip
  unfold conclude
  rw [Program.bind_apply]
  show (if _ then _ else _ : Program _ _ _) _ = _
  rw [if_neg hnot, Program.bind_apply]
  unfold prepared
  rw [hfs]
  dsimp only
  cases worker.publisher.prepare library fs.trie payload.ip worker.state.eventSequence
    worker.state.config.configVersion payload.timestamp <;> rfl

/-- A message that changes no hot set is absorbed, and nothing is published. -/
theorem Shows.handle_unchanged (h : Shows served reading worker.state)
    (hgo : worker.stopping = false) (hpast : Past worker.state message) (publishing : Publishing)
    (hchange : change library served reading message = none) :
    ∃ outcome, worker.handle library publishing message =
      .ok outcome (worker.absorbed library message) := by
  have habsorbed : ∀ {outcome : HotIpOutcome} {after : TrieWorker},
      TrieWorker.handleMessage library message worker = .ok (outcome, none) after →
      ∃ outcome, worker.handle library publishing message =
        .ok outcome (worker.absorbed library message) := by
    intro outcome after hrun
    have hafter : Program.after (TrieWorker.handleMessage library message worker) =
        worker.absorbed library message := h.after_handleMessage library hpast
    rw [hrun, Program.after_ok] at hafter
    refine ⟨outcome, ?_⟩
    rw [TrieWorker.handle_eq hgo, hrun, hafter]
  cases hdecode : decodeMessage library message with
  | error reason => exact habsorbed (TrieWorker.handleMessage_malformed hpast hdecode)
  | ok payload =>
    by_cases hserved : payload.ip.family ∈ served
    · -- The event leaves its address as it was.
      have hsame : ((reading.records payload.ip).isSome !=
          (recordAfter library payload).isSome) = false := by
        unfold change at hchange
        rw [hdecode] at hchange
        dsimp only at hchange
        split_ifs at hchange with hne
        rw [not_and, not_not] at hne
        exact bne_eq_false_iff_eq.mpr (hne hserved)
      have hmessage := h.handleMessage_event hpast hdecode hserved
      rw [hsame, TrieWorker.conclude_skipped (.inl rfl)] at hmessage
      exact habsorbed hmessage
    · exact habsorbed (TrieWorker.handleMessage_unserved hpast hdecode (h.noPair _ hserved))

/-- What an event that changes a hot set makes of the worker: it is absorbed, and its stats are
published unless the log had them from an earlier start. -/
theorem Shows.handle_changed (h : Shows served reading worker.state)
    (hgo : worker.stopping = false) (hpast : Past worker.state message) (publishing : Publishing)
    {payload : Codec.HotIpEvent} (hchange : change library served reading message = some payload) :
    let after := worker.absorbed library message
    ∃ fs, after.state.families payload.ip.family = some fs ∧
      (after.state.eventSequence < worker.republishFrom.getD 0 →
        worker.handle library publishing message = .ok .applied after) ∧
      (¬ after.state.eventSequence < worker.republishFrom.getD 0 →
        worker.handle library publishing message =
          match worker.publisher.prepare library fs.trie payload.ip after.state.eventSequence
              after.state.config.configVersion payload.timestamp with
          | .error error => .error (.prepare error) after
          | .ok stats =>
            match publish publishing stats worker.bus with
            | .ok _ bus => .ok .applied { after with bus := bus }
            | .error error bus => .error (.publish error) { after with bus := bus }) := by
  dsimp only
  obtain ⟨hdecode, hserved, hne⟩ := change_served hchange
  obtain ⟨fs, hfs, -⟩ := (h.absorb library message).pair _ hserved
  have hmessage : TrieWorker.handleMessage library message worker =
      TrieWorker.conclude library payload true (worker.absorbed library message) := by
    rw [h.handleMessage_event hpast hdecode hserved, bne_iff_ne.mpr hne]
    rfl
  refine ⟨fs, hfs, fun hskip => ?_, fun hpublish => ?_⟩
  · have hconclude := hmessage.trans (TrieWorker.conclude_skipped (.inr hskip))
    rw [TrieWorker.handle_eq hgo, hconclude]
    rfl
  · have hconclude := hmessage.trans (TrieWorker.conclude_prepared hfs hpublish)
    rw [TrieWorker.handle_eq hgo, hconclude]
    have hpublisher : (worker.absorbed library message).publisher = worker.publisher := rfl
    rw [hpublisher]
    cases worker.publisher.prepare library fs.trie payload.ip
      (worker.absorbed library message).state.eventSequence
      (worker.absorbed library message).state.config.configVersion payload.timestamp <;> rfl

/-! ### What a process keeps -/

section Process

variable (library : Library) (publisher : PrefixStatsPublisher) (served : Finset AddressFamily)

/-- A process that has handled so many messages of the hot-ip log, over a prefix-stats log that has the
blocks below an index. -/
structure Serving (log : List Bus.Record) (facts : List StatsFact) (index : ℕ)
    (process : TrieProcess) (count : ℕ) : Prop where
  handled : count ≤ index
  publisher : process.worker.publisher = publisher
  shows : Shows served (readingAt library served log count) process.worker.state
  /-- The log tells nothing but what was there before the process and what the process told. -/
  told : ∀ target ∈ process.replayTarget, ∀ fact ∈ facts, fact.sequence ≤ max target count
  fresh : process.consumer.subscribed = false → count = 0
  positional : process.consumer.subscribed = true → process.consumer.positional = true
  position : process.consumer.subscribed = true → process.worker.stopping = false →
    process.consumer.position = count
  /-- Where publishing resumes, the log has every block below. -/
  resumes : process.consumer.subscribed = true →
    ∃ start ≤ (index + 1 : ℤ), process.worker.republishFrom = some start

/-- What the bus holds of a system, and of the process that runs. -/
structure Consistent (system : TrieSystem) (facts : List StatsFact) (index : ℕ) : Prop where
  holds : HoldsFacts library system.bus facts
  partway : Partway (factsAt library publisher served (system.bus.logs hotIpTopic)) index facts
  within : index ≤ (system.bus.logs hotIpTopic).length
  process : ∀ process ∈ system.process, ∃ count,
    Serving library publisher served (system.bus.logs hotIpTopic) facts index process count

variable {library publisher served} {log : List Bus.Record} {facts facts' : List StatsFact}
  {index index' count : ℕ} {process : TrieProcess} {bus : InMemoryBus}

/-- A state that shows so many messages is at their number. -/
theorem Shows.eventSequence {state : TrieState}
    (h : Shows served (readingAt library served log count) state) (hcount : count ≤ log.length) :
    state.eventSequence = count := by
  unfold TrieState.eventSequence
  rw [h.position, readingAt_position hcount]
  split_ifs with hzero
  · rw [hzero]
    rfl
  · exact sub_add_cancel _ _

/-- The next message of the log is past what was handled. -/
theorem Shows.past {state : TrieState}
    (h : Shows served (readingAt library served log count) state)
    (hmessage : (logMessages log)[count]? = some message) :
    count < log.length ∧ Past state message := by
  obtain ⟨hlt, hget⟩ := List.getElem?_eq_some_iff.mp hmessage
  rw [length_logMessages] at hlt
  have hoffset : message.offset = count := by
    rw [logMessages_getElem?, List.getElem?_eq_getElem hlt] at hmessage
    cases hmessage
    rfl
  refine ⟨hlt, ?_, fun position hposition => ?_⟩
  · rw [hoffset]
    exact Int.natCast_nonneg count
  · rw [h.position, readingAt_position hlt.le] at hposition
    split_ifs at hposition
    · cases hposition
    · cases hposition
      rw [hoffset]
      omega

/-- A process that has absorbed the next message. -/
theorem Serving.absorbed (h : Serving library publisher served log facts index process count)
    (hmessage : (logMessages log)[count]? = some message)
    (hsubscribed : process.consumer.subscribed = true) (hindex : index ≤ index') (hcount : count + 1 ≤ index')
    (hfacts : ∀ fact ∈ facts', fact ∈ facts ∨ fact.sequence = count + 1) (bus : InMemoryBus) :
    Serving library publisher served log facts' index'
      { process with
        worker := { process.worker.absorbed library message with bus := bus }
        consumer := { process.consumer with position := process.consumer.position + 1 } }
      (count + 1) where
  handled := hcount
  publisher := h.publisher
  shows := by
    rw [readingAt_succ hmessage]
    exact h.shows.absorb library message
  told target htarget fact hfact := by
    rcases hfacts fact hfact with hold | hnew
    · have htold := h.told target htarget fact hold
      push_cast
      omega
    · push_cast
      omega
  fresh hnot := absurd hsubscribed (by rw [Bool.not_eq_true]; exact hnot)
  positional := h.positional
  position hsub hgo := congrArg (· + 1) (h.position hsub hgo)
  resumes hsub := by
    obtain ⟨start, hstart, hresume⟩ := h.resumes hsub
    exact ⟨start, by omega, hresume⟩

/-! ### One turn of the loop -/

/-- A positional consumer of the hot-ip log yields the message at its position, or nothing. -/
theorem consume_positional {consumer : MemoryConsumer} (h : consumer.positional = true)
    (bus : InMemoryBus) :
    (∃ message, (logMessages (bus.logs hotIpTopic))[consumer.position]? = some message ∧
      consumer.consume bus hotIpTopic =
        (.yielded message, { consumer with position := consumer.position + 1 })) ∨
    ∃ turn, (∀ message, turn ≠ .yielded message) ∧
      consumer.consume bus hotIpTopic = (turn, consumer) ∧
      (consumer.closed = false → (logMessages (bus.logs hotIpTopic))[consumer.position]? = none) := by
  unfold MemoryConsumer.consume InMemoryBus.waitFor
  rw [logMessages_getElem?]
  cases hclosed : consumer.closed with
  | true => exact .inr ⟨.ended, fun _ => Turn.noConfusion, rfl, fun hopen => by cases hopen⟩
  | false =>
    cases hget : (bus.logs hotIpTopic)[consumer.position]? with
    | none => exact .inr ⟨.waiting, fun _ => Turn.noConfusion, rfl, fun _ => rfl⟩
    | some record =>
      refine .inl ⟨_, rfl, ?_⟩
      simp [h]

/-- Publishing the stats leaves the other topics. -/
theorem logs_after_publish (publishing : Publishing) (prepared : PreparedStats) (bus : InMemoryBus)
    {topic : String} (htopic : topic ≠ prefixStatsTopic) :
    (Program.after (publish publishing prepared bus)).logs topic = bus.logs topic := by
  have hone : ∀ (bus : InMemoryBus) (message : StatsMessage),
      (publishOne publishing bus message).logs topic = bus.logs topic := by
    intro bus message
    have hpublish : ∀ messageId, (bus.publish prefixStatsTopic (.inr message.key) message.value
        messageId).logs topic = bus.logs topic := by
      intro messageId
      have hlogs := bus.logs_publish prefixStatsTopic (.inr message.key) message.value messageId topic
      rw [if_neg htopic, List.append_nil] at hlogs
      exact hlogs.elim And.right And.right
    unfold publishOne
    split
    · rfl
    · exact hpublish _
  have hall : ∀ (messages : List StatsMessage) (bus : InMemoryBus),
      (messages.foldl (publishOne publishing) bus).logs topic = bus.logs topic := by
    intro messages
    induction messages with
    | nil => exact fun _ => rfl
    | cons message messages ih => exact fun bus => (ih _).trans (hone bus message)
  unfold publish
  dsimp only
  split_ifs <;> exact hall _ _

/-- A turn that yields nothing leaves the process. -/
theorem TrieProcess.pump_idle {turn : Turn} (hturn : ∀ message, turn ≠ .yielded message)
    (hconsume : process.consumer.consume process.worker.bus hotIpTopic = (turn, process.consumer))
    (publishing : Publishing) :
    process.pump library publishing = (some process, process.worker.bus) := by
  unfold TrieProcess.pump
  split_ifs
  · rw [hconsume]
    cases turn with
    | yielded message => exact absurd rfl (hturn message)
    | waiting => rfl
    | ended => rfl
    | skipped => rfl
  · rfl

/-- What `pump` makes of the answer of `handle`. -/
theorem TrieProcess.pump_yielded (hsubscribed : process.consumer.subscribed = true)
    {consumer : MemoryConsumer}
    (hconsume : process.consumer.consume process.worker.bus hotIpTopic =
      (.yielded message, consumer)) (publishing : Publishing) :
    process.pump library publishing =
      match process.worker.handle library publishing message with
      | .ok _ worker => (some { process with worker := worker, consumer := consumer }, worker.bus)
      | .error _ worker => (none, worker.bus) := by
  unfold TrieProcess.pump
  rw [if_pos hsubscribed]
  generalize process.consumer.consume process.worker.bus hotIpTopic = answer at hconsume ⊢
  subst hconsume
  rfl

/-- An id is of one fact of a log. -/
theorem factsAt_known (hdigest : Ingest.DigestInjective library) (fact fact' : StatsFact)
    (id : String) (h : ∃ i, fact ∈ factsAt library publisher served log i)
    (h' : ∃ i, fact' ∈ factsAt library publisher served log i)
    (hid : fact.messageId library = some id) (hid' : fact'.messageId library = some id) :
    fact = fact' := by
  obtain ⟨i, hi⟩ := h
  obtain ⟨j, hj⟩ := h'
  obtain ⟨hsequence, hpfx⟩ := StatsFact.messageId_inj hdigest hid hid'
  exact factsAt_ext hi hj hsequence hpfx

/-- A process that has not handled all of the log hands over the next message. -/
theorem Serving.pump_next (hdigest : Ingest.DigestInjective library)
    (h : Serving library publisher served log facts index process count)
    (holds : HoldsFacts library process.worker.bus facts)
    (hpartway : Partway (factsAt library publisher served log) index facts)
    (hwithin : index ≤ log.length) (hlog : process.worker.bus.logs hotIpTopic = log)
    (hsubscribed : process.consumer.subscribed = true) (hgo : process.worker.stopping = false)
    (hmessage : (logMessages log)[count]? = some message)
    (hconsume : process.consumer.consume process.worker.bus hotIpTopic =
      (.yielded message, { process.consumer with position := process.consumer.position + 1 }))
    (publishing : Publishing) :
    ∃ facts' index', Consistent library publisher served
      ⟨(process.pump library publishing).2, (process.pump library publishing).1⟩ facts' index' := by
  obtain ⟨hlt, hpast⟩ := h.shows.past hmessage
  have hpump : process.pump library publishing = _ :=
    TrieProcess.pump_yielded hsubscribed hconsume publishing
  -- Where the log has the block of the message, the process goes past it.
  have hadvance : ∀ facts' bus, HoldsFacts library bus facts' → bus.logs hotIpTopic = log →
      Partway (factsAt library publisher served log) index facts' →
      (∀ fact ∈ facts', fact ∈ facts ∨ fact.sequence = count + 1) →
      (∀ fact ∈ factsAt library publisher served log count, fact ∈ facts') →
      ∃ index', Consistent library publisher served ⟨bus, some { process with
        worker := { process.worker.absorbed library message with bus := bus }
        consumer := { process.consumer with position := process.consumer.position + 1 } }⟩
        facts' index' := by
    intro facts' bus holds' hlog' hpartway' hfacts hall
    obtain ⟨index', hle, hcount, hmax, hnext⟩ :=
      hpartway'.advance distinctBlocks_factsAt h.handled hall
    refine ⟨index', holds', hlog'.symm ▸ hnext, ?_, ?_⟩
    · dsimp only
      rw [hlog']
      omega
    · rintro _ ⟨⟩
      refine ⟨count + 1, ?_⟩
      dsimp only
      rw [hlog']
      exact h.absorbed hmessage hsubscribed hle hcount hfacts bus
  have hself : { process.worker.absorbed library message with bus := process.worker.bus } =
      process.worker.absorbed library message := rfl
  cases hchange : change library served (readingAt library served log count) message with
  | none =>
    obtain ⟨outcome, hhandle⟩ := h.shows.handle_unchanged hgo hpast publishing hchange
    have hblock : factsAt library publisher served log count = [] :=
      factsAt_of_unchanged hmessage hchange
    rw [hpump, hhandle]
    exact ⟨facts, hadvance facts _ holds hlog hpartway (fun _ => .inl)
      (by rw [hblock]; exact fun _ hmem => absurd hmem List.not_mem_nil)⟩
  | some payload =>
    obtain ⟨fs, hfs, hskipped, hpublished⟩ := h.shows.handle_changed hgo hpast publishing hchange
    have hnext := h.shows.absorb library message
    rw [← readingAt_succ hmessage] at hnext
    have hsequence : (process.worker.absorbed library message).state.eventSequence =
        (count + 1 : ℕ) := hnext.eventSequence hlt
    obtain ⟨start, hstart, hresume⟩ := h.resumes hsubscribed
    by_cases hskip : (process.worker.absorbed library message).state.eventSequence <
        process.worker.republishFrom.getD 0
    · -- The stats of the event are in the log.
      rw [hpump, hskipped hskip]
      rw [hsequence, hresume] at hskip
      have hbelow : count < index := by
        have hlt' : ((count + 1 : ℕ) : ℤ) < start := hskip
        push_cast at hlt'
        omega
      exact ⟨facts, hadvance facts _ holds hlog hpartway (fun _ => .inl)
        fun _ hmem => hpartway.mem_of_lt hbelow hmem⟩
    · have hhandle := hpublished hskip
      rw [hsequence, h.publisher] at hhandle
      cases hprepare : publisher.prepare library fs.trie payload.ip (count + 1 : ℕ)
          (process.worker.absorbed library message).state.config.configVersion payload.timestamp with
      | error error =>
        rw [hprepare] at hhandle
        rw [hpump, hhandle]
        exact ⟨facts, index, holds, hlog.symm ▸ hpartway, hlog.symm ▸ hwithin, fun _ hmem => by
          cases hmem⟩
      | ok prepared =>
        rw [hprepare] at hhandle
        dsimp only at hhandle
        -- What is published are the facts of the block.
        have hcarries := hnext.prepare_carries hfs (change_served hchange).2.1 hprepare
        rw [Nat.cast_succ, ← factsAt_of_change hmessage hchange] at hcarries
        obtain ⟨taken, htaken, holds', hall⟩ := holds.publish publishing
          (factsAt_known hdigest) (fun fact hmem => (hpartway.exists_block hmem).imp fun _ => And.right)
          (fun fact hmem => ⟨count, hmem⟩) hcarries
        have hlogs := logs_after_publish publishing prepared process.worker.bus
          (show hotIpTopic ≠ prefixStatsTopic by decide)
        have hpartway' := hpartway.offers h.handled htaken
        have hfacts : ∀ fact ∈ taken.foldl offer facts,
            fact ∈ facts ∨ fact.sequence = count + 1 := fun fact hmem =>
          (mem_foldl_offer.mp hmem).imp id fun hmem => factsAt_sequence (htaken hmem)
        cases hrun : publish publishing prepared process.worker.bus with
        | ok u bus =>
          rw [hrun] at hhandle holds' hlogs
          rw [hpump, hhandle]
          exact ⟨_, hadvance _ bus holds' (hlogs.trans hlog) hpartway' hfacts fun fact hmem =>
            mem_foldl_offer.mpr (.inr (hall u bus hrun hmem))⟩
        | error error bus =>
          rw [hrun] at hhandle holds' hlogs
          rw [hpump, hhandle]
          have hlogs' : bus.logs hotIpTopic = log := hlogs.trans hlog
          exact ⟨_, index, holds', hlogs'.symm ▸ hpartway', hlogs'.symm ▸ hwithin, fun _ hmem => by
            cases hmem⟩

/-! ### The other actions -/

/-- Only the process of a system has changed. -/
theorem Consistent.of_process {running : Option TrieProcess}
    (h : Consistent library publisher served ⟨bus, running⟩ facts index)
    {running' : Option TrieProcess}
    (hrunning : ∀ process ∈ running', ∃ count,
      Serving library publisher served (bus.logs hotIpTopic) facts index process count) :
    Consistent library publisher served ⟨bus, running'⟩ facts index :=
  ⟨h.holds, h.partway, h.within, hrunning⟩

/-- One turn of the loop. -/
theorem Consistent.pump (hdigest : Ingest.DigestInjective library)
    (h : Consistent library publisher served ⟨process.worker.bus, some process⟩ facts index)
    (publishing : Publishing) :
    ∃ facts' index', Consistent library publisher served
      ⟨(process.pump library publishing).2, (process.pump library publishing).1⟩ facts' index' := by
  obtain ⟨count, hserving⟩ := h.process process rfl
  by_cases hsubscribed : process.consumer.subscribed = true
  · obtain ⟨message, hmessage, hconsume⟩ | ⟨turn, hturn, hconsume, -⟩ :=
      consume_positional (hserving.positional hsubscribed) process.worker.bus
    · by_cases hstop : process.worker.stopping = true
      · -- The message is not handled, and the process is not at it any more.
        rw [TrieProcess.pump_yielded hsubscribed hconsume, TrieWorker.handle_stopped hstop]
        refine ⟨facts, index, h.of_process ?_⟩
        rintro _ ⟨⟩
        exact ⟨count, hserving.handled, hserving.publisher, hserving.shows, hserving.told,
          hserving.fresh, hserving.positional, fun _ hgo => absurd (hstop.symm.trans hgo) (by decide),
          hserving.resumes⟩
      · have hgo : process.worker.stopping = false := Bool.not_eq_true _ ▸ hstop
        have hnext := hmessage
        rw [hserving.position hsubscribed hgo] at hnext
        exact hserving.pump_next hdigest h.holds h.partway h.within rfl hsubscribed hgo hnext
          hconsume publishing
    · rw [TrieProcess.pump_idle hturn hconsume]
      exact ⟨facts, index, h⟩
  · have hsame : process.pump library publishing = (some process, process.worker.bus) := by
      unfold TrieProcess.pump
      rw [if_neg hsubscribed]
    rw [hsame]
    exact ⟨facts, index, h⟩

/-- What a log tells has the sequence of an event that is in it. -/
theorem sequence_le_of_partway (h : Partway (factsAt library publisher served log) index facts)
    {fact : StatsFact} (hfact : fact ∈ facts) :
    fact.sequence ≤ index + 1 ∧ fact.sequence ≤ log.length := by
  obtain ⟨i, hi, hmem⟩ := h.exists_block hfact
  have hlt : i < log.length := by
    by_contra hbeyond
    rw [factsAt_of_length_le (not_lt.mp hbeyond)] at hmem
    exact absurd hmem List.not_mem_nil
  rw [factsAt_sequence hmem]
  omega

/-- Where publishing resumes is read off the last message: the log has every block below. -/
theorem HoldsFacts.republishFrom_le (h : HoldsFacts library bus facts)
    (hpartway : Partway (factsAt library publisher served log) index facts) (target : ℤ) :
    republishFrom library (bus.lastValue prefixStatsTopic) target ≤ index + 1 := by
  have hzero : (0 : ℤ) ≤ index + 1 := by omega
  unfold InMemoryBus.lastValue
  cases hlast : (bus.logs prefixStatsTopic).getLast? with
  | none => exact hzero
  | some record =>
    obtain ⟨fact, hfact, text, envelope, payload, -, -, hdecode, -, hsequence, -, hpayload, -⟩ :=
      forall₂_exists_right h.tells (List.mem_of_getLast? hlast)
    unfold republishFrom
    rw [Option.map_some]
    dsimp only
    rw [hdecode]
    dsimp only
    rw [hpayload]
    dsimp only
    split_ifs
    · exact hzero
    · exact hzero
    · rw [hsequence]
      exact (sequence_le_of_partway hpartway hfact).1

/-- A process reads the end of the log. -/
theorem Serving.readEnd (h : Serving library publisher served (process.worker.bus.logs hotIpTopic)
      facts index process count)
    (hpartway : Partway (factsAt library publisher served (process.worker.bus.logs hotIpTopic))
      index facts) :
    Serving library publisher served (process.worker.bus.logs hotIpTopic) facts index
      process.readEnd count := by
  unfold TrieProcess.readEnd
  split_ifs
  · exact h
  · refine ⟨h.handled, h.publisher, h.shows, ?_, h.fresh, h.positional, h.position, h.resumes⟩
    rintro _ ⟨⟩ fact hfact
    exact le_max_of_le_left (sequence_le_of_partway hpartway hfact).2

/-- A process subscribes. -/
theorem Serving.subscribe (h : Serving library publisher served log facts index process count)
    (holds : HoldsFacts library process.worker.bus facts)
    (hpartway : Partway (factsAt library publisher served log) index facts) {process' : TrieProcess}
    (hsubscribe : process.subscribe library = some process') :
    Serving library publisher served log facts index process' count := by
  unfold TrieProcess.subscribe at hsubscribe
  cases htarget : process.replayTarget with
  | none =>
    rw [htarget] at hsubscribe
    cases hsubscribe
    exact h
  | some target =>
    rw [htarget] at hsubscribe
    dsimp only at hsubscribe
    split_ifs at hsubscribe with hsubscribed
    · cases hsubscribe
      exact h
    · -- Nothing was handled yet, and the log starts at 0.
      have hcount := h.fresh (Bool.not_eq_true _ ▸ hsubscribed)
      have hsequence : process.worker.state.eventSequence = (0 : ℕ) := by
        have hshows := h.shows
        rw [hcount] at hshows
        exact hshows.eventSequence (Nat.zero_le _)
      have hpass : TrieProcess.passFirst process.worker.state process.worker.stopping
          (process.worker.bus.firstOffset hotIpTopic) = .ok process.worker.state := by
        unfold TrieProcess.passFirst
        rw [hsequence]
        exact if_neg fun hlt => lt_irrefl _ hlt.1
      rw [hpass] at hsubscribe
      dsimp only at hsubscribe
      rw [hsequence] at hsubscribe
      split at hsubscribe
      · cases hsubscribe
      next consumer hconsumer =>
        cases hsubscribe
        unfold MemoryConsumer.subscribe at hconsumer
        simp only [MemoryConsumer.assignment] at hconsumer
        split_ifs at hconsumer
        cases hconsumer
        refine ⟨h.handled, h.publisher, h.shows, htarget ▸ h.told, fun hfalse => ?_, fun _ => rfl,
          fun _ _ => hcount.symm, fun _ => ⟨_, holds.republishFrom_le hpartway target, rfl⟩⟩
        cases hfalse

/-- A process that starts has handled nothing. -/
theorem serving_boot {config : DetectionConfig}
    (hboot : TrieSystem.boot publisher served bus config = some process) :
    Serving library publisher served log facts index process 0 := by
  unfold TrieSystem.boot at hboot
  split at hboot
  · cases hboot
  next state hnew =>
    cases hboot
    refine ⟨Nat.zero_le _, rfl, shows_new hnew, fun _ hnone => ?_, fun _ => rfl, fun hfalse => ?_,
      fun hfalse => ?_, fun hfalse => ?_⟩
    · cases hnone
    · cases hfalse
    · cases hfalse
    · cases hfalse

/-- A new event at the end of the hot-ip log. -/
theorem Serving.append (h : Serving library publisher served log facts index process count)
    (hwithin : index ≤ log.length) (more : List Bus.Record) :
    Serving library publisher served (log ++ more) facts index process count :=
  ⟨h.handled, h.publisher, by
    rw [readingAt_append more (h.handled.trans hwithin)]
    exact h.shows, h.told, h.fresh, h.positional, h.position, h.resumes⟩

theorem partway_append (h : Partway (factsAt library publisher served log) index facts)
    (hwithin : index ≤ log.length) (more : List Bus.Record) :
    Partway (factsAt library publisher served (log ++ more)) index facts := by
  refine h.congr (fun i hi => factsAt_append more (hi.trans_le hwithin)) ?_
  rcases hwithin.lt_or_eq with hlt | heq
  · rw [factsAt_append more hlt]
    exact List.Subset.refl _
  · rw [factsAt_of_length_le heq.ge]
    exact List.nil_subset _

/-- Another party publishes. -/
theorem Consistent.publish {system : TrieSystem}
    (h : Consistent library publisher served system facts index) (key : Bytes ⊕ String)
    (value : Bytes) (messageId : Option String) :
    Consistent library publisher served
      { system with bus := system.bus.publish hotIpTopic key value messageId } facts index := by
  have hother : hotIpTopic ≠ prefixStatsTopic := by decide
  have holds := h.holds.publish_other hother key value messageId
  have hlogs := system.bus.logs_publish hotIpTopic key value messageId hotIpTopic
  obtain ⟨-, hlogs⟩ | ⟨-, hlogs⟩ := hlogs
  · exact ⟨holds, hlogs ▸ h.partway, hlogs ▸ h.within, hlogs ▸ h.process⟩
  · refine ⟨holds, hlogs ▸ partway_append h.partway h.within _, ?_, fun process hprocess => ?_⟩
    · dsimp only
      rw [hlogs, List.length_append]
      exact Nat.le_add_right_of_le h.within
    · obtain ⟨count, hserving⟩ := h.process process hprocess
      exact ⟨count, hlogs ▸ hserving.append h.within _⟩

/-- An action of the process that runs. -/
theorem Consistent.act (hdigest : Ingest.DigestInjective library)
    (h : Consistent library publisher served ⟨process.worker.bus, some process⟩ facts index)
    (action : ProcessAction) :
    ∃ facts' index', Consistent library publisher served
      (TrieSystem.act library process.worker.bus process action) facts' index' := by
  obtain ⟨count, hserving⟩ := h.process process rfl
  cases action with
  | publish key value messageId => exact ⟨facts, index, h⟩
  | boot config => exact ⟨facts, index, h⟩
  | readEnd =>
    refine ⟨facts, index, h.of_process ?_⟩
    rintro _ ⟨⟩
    exact ⟨count, hserving.readEnd h.partway⟩
  | subscribe =>
    exact ⟨facts, index, h.of_process fun process' hsubscribe =>
      ⟨count, hserving.subscribe h.holds h.partway hsubscribe⟩⟩
  | pump publishing => exact h.pump hdigest publishing
  | applyConfig config =>
    refine ⟨facts, index, h.of_process ?_⟩
    rintro _ ⟨⟩
    refine ⟨count, ?_⟩
    unfold TrieWorker.applyConfig
    split_ifs
    · exact hserving
    · have hshows := hserving.shows
      exact ⟨hserving.handled, hserving.publisher,
        ⟨hshows.pair, hshows.noPair, hshows.position, hshows.asOf⟩, hserving.told, hserving.fresh,
        hserving.positional, hserving.position, hserving.resumes⟩
  | stop =>
    refine ⟨facts, index, h.of_process ?_⟩
    rintro _ ⟨⟩
    refine ⟨count, hserving.handled, hserving.publisher, hserving.shows, hserving.told,
      hserving.fresh, hserving.positional, fun _ hfalse => ?_, hserving.resumes⟩
    cases hfalse
  | crash => exact ⟨facts, index, h⟩

/-- Every action keeps the log consistent. -/
theorem Consistent.step (hdigest : Ingest.DigestInjective library) {system : TrieSystem}
    (h : Consistent library publisher served system facts index) (action : ProcessAction) :
    ∃ facts' index', Consistent library publisher served
      (TrieSystem.step library publisher served system action) facts' index' := by
  -- An action of the process that runs, if one does.
  have hact : ∀ next : TrieSystem, (system.process = none → next = system) →
      (∀ process, system.process = some process → next = TrieSystem.act library system.bus
        { process with worker := { process.worker with bus := system.bus } } action) →
      ∃ facts' index', Consistent library publisher served next facts' index' := by
    intro next hidle hruns
    cases hprocess : system.process with
    | none =>
      rw [hidle hprocess]
      exact ⟨facts, index, h⟩
    | some process =>
      obtain ⟨count, hserving⟩ := h.process process hprocess
      let current : TrieProcess :=
        { process with worker := { process.worker with bus := system.bus } }
      have hcurrent : Consistent library publisher served ⟨current.worker.bus, some current⟩ facts
          index := by
        refine ⟨h.holds, h.partway, h.within, ?_⟩
        rintro _ ⟨⟩
        exact ⟨count, hserving.handled, hserving.publisher, hserving.shows, hserving.told,
          hserving.fresh, hserving.positional, hserving.position, hserving.resumes⟩
      rw [hruns process hprocess]
      exact hcurrent.act hdigest action
  cases action with
  | publish key value messageId => exact ⟨facts, index, h.publish key value messageId⟩
  | boot config =>
    exact ⟨facts, index, h.of_process fun process hboot => ⟨0, serving_boot hboot⟩⟩
  | crash =>
    refine ⟨facts, index, h.of_process fun _ hnone => ?_⟩
    cases hnone
  | readEnd | subscribe | pump _ | applyConfig _ | stop =>
    refine hact _ (fun hnone => ?_) fun process hprocess => ?_
    · simp only [TrieSystem.step, hnone]
    · simp only [TrieSystem.step, hprocess]

theorem consistent_run (hdigest : Ingest.DigestInjective library) (publisher : PrefixStatsPublisher)
    (served : Finset AddressFamily) (actions : List ProcessAction) :
    ∃ facts index, Consistent library publisher served
      (TrieSystem.run library publisher served actions) facts index := by
  refine invariant_foldl (I := fun system => ∃ facts index,
    Consistent library publisher served system facts index) (fun system action h => ?_) ?_ actions
  · obtain ⟨facts, index, h⟩ := h
    exact h.step hdigest action
  · exact ⟨[], 0, holdsFacts_empty library, .nil, le_rfl, fun _ hnone => by cases hnone⟩

/-- Once a process has caught up, the log is what it has handled. -/
theorem Consistent.through {system : TrieSystem}
    (h : Consistent library publisher served system facts index)
    (hserving : Serving library publisher served (system.bus.logs hotIpTopic) facts index process
      count) (hcaught : process.caughtUp = true) :
    Through (factsAt library publisher served (system.bus.logs hotIpTopic)) count facts := by
  have hsequence := hserving.shows.eventSequence (hserving.handled.trans h.within)
  refine h.partway.through distinctBlocks_factsAt hserving.handled fun fact hfact => ?_
  unfold TrieProcess.caughtUp at hcaught
  cases htarget : process.replayTarget with
  | none =>
    rw [htarget] at hcaught
    cases hcaught
  | some target =>
    rw [htarget, hsequence] at hcaught
    have hreached : target ≤ count := of_decide_eq_true (Bool.and_eq_true_iff.mp hcaught).2
    have htold := hserving.told target htarget fact hfact
    obtain ⟨i, -, hmem⟩ := h.partway.exists_block hfact
    refine ⟨i, ?_, hmem⟩
    rw [factsAt_sequence hmem, max_eq_right hreached] at htold
    omega

/-- **The prefix-stats log survives crashes.** Over every run of the service on `InMemoryBus`, which
forgets no id and discards nothing, with processes of one served set and one floor, any of them
interrupted anywhere, the log tells facts of the events of the hot-ip log: it tells none twice,
those of all events below some index, one event after the other, and then some of the facts of the
event at that index. Once a process has caught up, the log is exactly the facts of the events that
it has handled. -/
theorem stats_log_survives (library : Library) (hdigest : Ingest.DigestInjective library)
    (publisher : PrefixStatsPublisher) (served : Finset AddressFamily)
    (actions : List ProcessAction) :
    let system := TrieSystem.run library publisher served actions
    let events := system.bus.logs hotIpTopic
    ∃ facts, List.Forall₂ (Tells library) (system.bus.logs prefixStatsTopic) facts ∧
      facts.Nodup ∧
      (∃ index ≤ events.length,
        Partway (factsAt library publisher served events) index facts) ∧
      ∀ process ∈ system.process, process.caughtUp = true →
        ∃ count ≤ events.length, process.worker.state.eventSequence = count ∧
          Shows served (readingAt library served events count) process.worker.state ∧
          Through (factsAt library publisher served events) count facts := by
  dsimp only
  obtain ⟨facts, index, h⟩ := consistent_run hdigest publisher served actions
  refine ⟨facts, h.holds.tells, h.partway.nodup distinctBlocks_factsAt, ⟨index, h.within, h.partway⟩,
    fun process hprocess hcaught => ?_⟩
  obtain ⟨count, hserving⟩ := h.process process hprocess
  have hcount := hserving.handled.trans h.within
  exact ⟨count, hcount, hserving.shows.eventSequence hcount, hserving.shows,
    h.through hserving hcaught⟩

end Process

end Hammertime.Trie
