import Hammertime.Trie.Intake
import Hammertime.Trie.Preparation

/-!
# A process that starts catches up

Whatever state earlier processes left behind, a process that starts, and whose publishes return, hands
over every event of the hot-ip log and ends with all of their facts in the prefix-stats log. No event
stops it, since `prepare` refuses none.
-/

namespace Hammertime.Trie

open Codec (Library)
open Lib Bus

variable {library : Library} {publisher : PrefixStatsPublisher} {served : Finset AddressFamily}
  {facts : List StatsFact} {index count target : ℕ} {system : TrieSystem}

/-- Every publish returns. -/
structure Publishing.Returns (publishing : Publishing) : Prop where
  outcome : ∀ message, publishing.outcome message = .returns
  interrupted : publishing.interrupted = false

theorem Publishing.Returns.publish {publishing : Publishing} (h : publishing.Returns)
    (prepared : PreparedStats) (bus : InMemoryBus) :
    ∃ bus', Trie.publish publishing prepared bus = .ok ⟨⟩ bus' := by
  have hnone : prepared.messages.countP
      (fun message => publishing.outcome message ≠ .returns) = 0 :=
    List.countP_eq_zero.mpr fun message _ => by simp [h.outcome message]
  unfold Trie.publish
  dsimp only
  rw [h.interrupted, if_neg Bool.false_ne_true, if_pos hnone]
  exact ⟨_, rfl⟩

/-- A process that replays the log, of which it has handled so many messages. -/
structure Replaying (library : Library) (system : TrieSystem) (target count : ℕ)
    (process : TrieProcess) : Prop where
  runs : system.process = some process
  log : (system.bus.logs hotIpTopic).length = target
  subscribed : process.consumer.subscribed = true
  isOpen : process.consumer.closed = false
  going : process.worker.stopping = false
  replayTarget : process.replayTarget = some (target : ℤ)
  version : library.within process.worker.state.config.configVersion = true
  eventSequence : process.worker.state.eventSequence = count

/-- A message leaves the configuration. -/
theorem TrieWorker.config_absorbed (worker : TrieWorker) (message : ConsumedMessage) :
    (worker.absorbed library message).state.config = worker.state.config :=
  TrieState.config_absorb library worker.state message

/-- The worker after the next message of the log, with publishes that return. -/
theorem Serving.handle_returns {log : List Bus.Record} {process : TrieProcess}
    {message : ConsumedMessage}
    (h : Serving library publisher served log facts index process count)
    (hgo : process.worker.stopping = false)
    (hversion : library.within process.worker.state.config.configVersion = true)
    (hmessage : (logMessages log)[count]? = some message) (hlength : log.length < 10 ^ 640)
    {publishing : Publishing} (hreturns : publishing.Returns) :
    ∃ outcome bus, process.worker.handle library publishing message =
      .ok outcome { process.worker.absorbed library message with bus := bus } ∧
      bus.logs hotIpTopic = process.worker.bus.logs hotIpTopic := by
  obtain ⟨hlt, hpast⟩ := h.shows.past hmessage
  cases hchange : change library served (readingAt library served log count) message with
  | none =>
    obtain ⟨outcome, hhandle⟩ := h.shows.handle_unchanged hgo hpast publishing hchange
    exact ⟨outcome, process.worker.bus, hhandle, rfl⟩
  | some payload =>
    obtain ⟨fs, hfs, hskipped, hpublished⟩ := h.shows.handle_changed hgo hpast publishing hchange
    by_cases hskip : (process.worker.absorbed library message).state.eventSequence <
        process.worker.republishFrom.getD 0
    · exact ⟨.applied, process.worker.bus, hskipped hskip, rfl⟩
    · -- The stats are prepared and published.
      obtain ⟨hdecode, hserved, -⟩ := change_served hchange
      obtain ⟨_, hdecoded⟩ := decodeMessage_decoded hdecode
      have hnext := h.shows.absorb library message
      rw [← readingAt_succ hmessage] at hnext
      have hsequence : (process.worker.absorbed library message).state.eventSequence =
          (count + 1 : ℕ) := hnext.eventSequence hlt
      have hwithin : library.within (count + 1 : ℕ) = true :=
        library.within_of_lt (Nat.lt_of_le_of_lt hlt hlength)
      have hconfig : (process.worker.absorbed library message).state.config =
          process.worker.state.config := process.worker.config_absorbed message
      obtain ⟨fs', prepared, hfs', hprepare⟩ := hnext.exists_prepare process.worker.publisher hserved
        (Int.natCast_nonneg (count + 1)) hwithin hversion hdecoded.timestamp
      obtain rfl : fs = fs' := Option.some.inj (hfs.symm.trans hfs')
      obtain ⟨bus, hbus⟩ := hreturns.publish prepared process.worker.bus
      have hother : hotIpTopic ≠ prefixStatsTopic := by decide
      have hlogs := logs_after_publish publishing prepared process.worker.bus hother
      rw [hbus] at hlogs
      refine ⟨.applied, bus, (hpublished hskip).trans ?_, hlogs⟩
      rw [hsequence, hconfig, hprepare]
      dsimp only
      rw [hbus]

/-- One turn of the loop moves a process that replays by one message, up to the end of the log. -/
theorem Replaying.pump {process : TrieProcess} (h : Replaying library system target count process)
    (hconsistent : Consistent library publisher served system facts index)
    (hlength : target < 10 ^ 640) {publishing : Publishing} (hreturns : publishing.Returns)
    (hcount : count ≤ target) :
    ∃ process', Replaying library
      (TrieSystem.step library publisher served system (.pump publishing)) target
      (min (count + 1) target) process' := by
  obtain ⟨c, hserving⟩ := hconsistent.process process h.runs
  have hc : c = count := by
    have hsequence := hserving.shows.eventSequence (hserving.handled.trans hconsistent.within)
    exact_mod_cast hsequence.symm.trans h.eventSequence
  rw [hc] at hserving
  let current : TrieProcess := { process with worker := { process.worker with bus := system.bus } }
  have hcurrent : Serving library publisher served (system.bus.logs hotIpTopic) facts index current
      count :=
    ⟨hserving.handled, hserving.publisher, hserving.shows, hserving.told, hserving.fresh,
      hserving.positional, hserving.position, hserving.resumes⟩
  have hstep : TrieSystem.step library publisher served system (.pump publishing) =
      ⟨(current.pump library publishing).2, (current.pump library publishing).1⟩ := by
    unfold TrieSystem.step
    rw [h.runs]
    rfl
  have hsubscribed : current.consumer.subscribed = true := h.subscribed
  have hgo : current.worker.stopping = false := h.going
  rw [hstep]
  obtain ⟨message, hmessage, hconsume⟩ | ⟨turn, hturn, hconsume, hnone⟩ :=
    consume_positional (hcurrent.positional hsubscribed) current.worker.bus
  · -- There is a next message.
    rw [hcurrent.position hsubscribed hgo] at hmessage
    obtain ⟨hlt, -⟩ := hcurrent.shows.past hmessage
    obtain ⟨outcome, bus, hhandle, hlogs⟩ := hcurrent.handle_returns hgo h.version hmessage
      (h.log.symm ▸ hlength) hreturns
    have hnext := hcurrent.shows.absorb library message
    rw [← readingAt_succ hmessage] at hnext
    have hsequence := hnext.eventSequence hlt
    rw [TrieProcess.pump_yielded hsubscribed hconsume, hhandle]
    rw [h.log] at hlt
    rw [min_eq_left (Nat.succ_le_of_lt hlt)]
    refine ⟨_, rfl, (congrArg List.length hlogs).trans h.log, hsubscribed, h.isOpen, hgo,
      h.replayTarget, ?_, hsequence⟩
    dsimp only
    rw [TrieWorker.config_absorbed]
    exact h.version
  · -- All of the log was handled.
    have hend := hnone h.isOpen
    rw [hcurrent.position hsubscribed hgo, List.getElem?_eq_none_iff, length_logMessages] at hend
    have htarget : count = target := le_antisymm hcount (h.log ▸ hend)
    rw [TrieProcess.pump_idle hturn hconsume, htarget, min_eq_right (Nat.le_succ target)]
    exact ⟨current, rfl, h.log, hsubscribed, h.isOpen, hgo, h.replayTarget, h.version,
      htarget ▸ h.eventSequence⟩

/-- A process that starts, reads the end of the log and subscribes has all of the log before it. -/
theorem replaying_start (publisher : PrefixStatsPublisher) (hserved : served ≠ ∅) {config : DetectionConfig}
    (hversion : library.within config.configVersion = true) (system : TrieSystem) :
    ∃ process, Replaying library ([.boot config, .readEnd, .subscribe].foldl
      (TrieSystem.step library publisher served) system) (system.bus.logs hotIpTopic).length 0
      process := by
  let state : TrieState :=
    { families := fun family => if family ∈ served then some (.new family) else none
      config := config
      position := none
      asOf := none }
  have hnew : TrieState.new served config = .ok state := if_neg hserved
  have hfirst : TrieSystem.boot publisher served system.bus config =
      some { worker := ⟨state, publisher, system.bus, none, false⟩ } := by
    unfold TrieSystem.boot
    rw [hnew]
  have hboot : TrieSystem.step library publisher served system (.boot config) =
      { system with process := some { worker := ⟨state, publisher, system.bus, none, false⟩ } } := by
    rw [← hfirst]
    rfl
  rw [List.foldl_cons, hboot]
  exact ⟨_, rfl, rfl, rfl, rfl, rfl, rfl, hversion, rfl⟩

/-- A run of turns of the loop, with publishes that return. -/
theorem Replaying.pumps {process : TrieProcess} (h : Replaying library system target count process)
    (hdigest : Ingest.DigestInjective library)
    (hconsistent : Consistent library publisher served system facts index)
    (hlength : target < 10 ^ 640) (hcount : count ≤ target) {publishings : List Publishing}
    (hreturns : ∀ publishing ∈ publishings, publishing.Returns) :
    ∃ process', Replaying library ((publishings.map ProcessAction.pump).foldl
      (TrieSystem.step library publisher served) system) target
      (min (count + publishings.length) target) process' := by
  induction publishings generalizing system count process facts index with
  | nil =>
    rw [List.length_nil, Nat.add_zero, min_eq_left hcount]
    exact ⟨process, h⟩
  | cons publishing publishings ih =>
    obtain ⟨process', hnext⟩ := h.pump hconsistent hlength (hreturns publishing List.mem_cons_self)
      hcount
    obtain ⟨facts', index', hconsistent'⟩ := hconsistent.step hdigest (.pump publishing)
    obtain ⟨last, hlast⟩ := ih hnext hconsistent' (min_le_right _ _) fun p hp =>
      hreturns p (List.mem_cons_of_mem _ hp)
    refine ⟨last, ?_⟩
    have hsum : min (min (count + 1) target + publishings.length) target =
        min (count + (publishing :: publishings).length) target := by
      rw [List.length_cons]
      omega
    rw [← hsum]
    exact hlast

/-- After any run, a process that starts and takes as many turns as the log has events has caught up. -/
theorem exists_caughtUp (publisher : PrefixStatsPublisher)
    (hdigest : Ingest.DigestInjective library) (hserved : served ≠ ∅) (actions : List ProcessAction)
    {config : DetectionConfig} (hversion : library.within config.configVersion = true)
    {publishings : List Publishing}
    (hreturns : ∀ publishing ∈ publishings, publishing.Returns) {target : ℕ}
    (htarget : ((TrieSystem.run library publisher served actions).bus.logs hotIpTopic).length =
      target) (hlength : target < 10 ^ 640) (hturns : target ≤ publishings.length) :
    ∃ process, process.caughtUp = true ∧ Replaying library (TrieSystem.run library publisher served
      (actions ++ [.boot config, .readEnd, .subscribe] ++ publishings.map ProcessAction.pump)) target
      target process := by
  obtain ⟨first, hfirst⟩ := replaying_start publisher hserved hversion
    (TrieSystem.run library publisher served actions)
  obtain ⟨facts, index, hconsistent⟩ := consistent_run hdigest publisher served
    (actions ++ [.boot config, .readEnd, .subscribe])
  have hrun : TrieSystem.run library publisher served
      (actions ++ [.boot config, .readEnd, .subscribe]) =
      [.boot config, .readEnd, .subscribe].foldl (TrieSystem.step library publisher served)
        (TrieSystem.run library publisher served actions) := List.foldl_append ..
  rw [htarget, ← hrun] at hfirst
  obtain ⟨process, hprocess⟩ := hfirst.pumps hdigest hconsistent hlength (Nat.zero_le _) hreturns
  have hruns : TrieSystem.run library publisher served
      (actions ++ [.boot config, .readEnd, .subscribe] ++ publishings.map ProcessAction.pump) =
      (publishings.map ProcessAction.pump).foldl (TrieSystem.step library publisher served)
        (TrieSystem.run library publisher served
          (actions ++ [.boot config, .readEnd, .subscribe])) := List.foldl_append ..
  rw [Nat.zero_add, min_eq_right hturns, ← hruns] at hprocess
  refine ⟨process, ?_, hprocess⟩
  unfold TrieProcess.caughtUp
  rw [hprocess.replayTarget, hprocess.subscribed, hprocess.eventSequence]
  simp

/-- **A process that starts catches up.** After any run of the service on `InMemoryBus`, which
forgets no id and discards nothing, a new process that reads the end of the hot-ip log, subscribes
and takes as many turns of its loop as the log has events, its publishes returning, has handled all
of them, and the prefix-stats log is exactly their facts. The `config_version` has to be within the
interpreter's limit on the digits of an integer; a log of fewer than `10 ^ 640` events has positions
that are. -/
theorem recovery_completes (library : Library) (hdigest : Ingest.DigestInjective library)
    (publisher : PrefixStatsPublisher) (served : Finset AddressFamily) (hserved : served ≠ ∅)
    (actions : List ProcessAction) (config : DetectionConfig)
    (hversion : library.within config.configVersion = true) (publishings : List Publishing)
    (hreturns : ∀ publishing ∈ publishings, publishing.Returns) :
    let events := (TrieSystem.run library publisher served actions).bus.logs hotIpTopic
    let system := TrieSystem.run library publisher served
      (actions ++ [.boot config, .readEnd, .subscribe] ++ publishings.map ProcessAction.pump)
    events.length < 10 ^ 640 → events.length ≤ publishings.length →
    ∃ process facts, system.process = some process ∧ process.caughtUp = true ∧
      process.worker.state.eventSequence = events.length ∧
      List.Forall₂ (Tells library) (system.bus.logs prefixStatsTopic) facts ∧
      Through (factsAt library publisher served (system.bus.logs hotIpTopic)) events.length facts := by
  dsimp only
  intro hlength hturns
  obtain ⟨process, hcaught, hprocess⟩ := exists_caughtUp publisher hdigest hserved actions
    hversion hreturns rfl hlength hturns
  obtain ⟨facts, index, hend⟩ := consistent_run hdigest publisher served
    (actions ++ [.boot config, .readEnd, .subscribe] ++ publishings.map ProcessAction.pump)
  obtain ⟨count, hserving⟩ := hend.process process hprocess.runs
  have hthrough := hend.through hserving hcaught
  have hsequence := hserving.shows.eventSequence (hserving.handled.trans hend.within)
  obtain rfl : count = _ := by exact_mod_cast hsequence.symm.trans hprocess.eventSequence
  exact ⟨process, facts, hprocess.runs, hcaught, hprocess.eventSequence, hend.holds.tells, hthrough⟩

/-! ### One event -/

/-- Publishes of which some are never sent before the process is interrupted. -/
def Publishing.broken : Publishing :=
  ⟨id, List.Perm.refl, fun message => if message.key.length < 12 then .returns else .raises false, true⟩

/-- An event is published, and the process that handles it is interrupted. -/
def sampleActions (key value : Bytes) : List ProcessAction :=
  .publish (.inl key) value none :: [.boot .shipped, .readEnd, .subscribe, .pump .broken, .crash]

theorem smooth_returns : ∀ publishing ∈ [Publishing.smooth], publishing.Returns :=
  List.forall_mem_singleton.mpr ⟨fun _ => rfl, rfl⟩

/-- The next process catches up. -/
def sampleRecovery (key value : Bytes) : List ProcessAction :=
  sampleActions key value ++ [.boot .shipped, .readEnd, .subscribe] ++
    [Publishing.smooth].map ProcessAction.pump

/-- The processes publish nothing to the hot-ip log. -/
theorem logs_sample (library : Library) (key value : Bytes) :
    (TrieSystem.run library .default {.ipv4} (sampleActions key value)).bus.logs hotIpTopic =
        [⟨some key, value⟩] ∧
      (TrieSystem.run library .default {.ipv4} (sampleRecovery key value)).bus.logs hotIpTopic =
        [⟨some key, value⟩] := by
  have hpublished : (TrieSystem.step library .default {.ipv4} {}
      (.publish (.inl key) value none)).bus.logs hotIpTopic = [⟨some key, value⟩] := by
    show Function.update (fun _ => []) hotIpTopic ([] ++ [(⟨some key, value⟩ : Bus.Record)]) hotIpTopic =
      _
    rw [Function.update_self, List.nil_append]
  have hfirst : (TrieSystem.run library .default {.ipv4} (sampleActions key value)).bus.logs
      hotIpTopic = [⟨some key, value⟩] := by
    unfold TrieSystem.run sampleActions
    rw [List.foldl_cons, TrieSystem.foldl_sameHotIp library .default {.ipv4} (by simp), hpublished]
  refine ⟨hfirst, ?_⟩
  unfold TrieSystem.run at hfirst ⊢
  unfold sampleRecovery
  rw [List.foldl_append, List.foldl_append,
    TrieSystem.foldl_sameHotIp library .default {.ipv4} (by simp),
    TrieSystem.foldl_sameHotIp library .default {.ipv4} (by simp), hfirst]

/-- The bytes of a record add the address `1.2.3.4`. -/
structure Adds (library : Library) (key value : Bytes) (payload : Codec.HotIpEvent) : Prop where
  added : payload.type = .added
  ip : payload.ip = sampleAddress
  reads : ∀ message : ConsumedMessage, message.key = some key → message.value = value →
    decodeMessage library message = .ok payload

/-- An interpreter without a limit on the digits of integers. -/
theorem exists_sampleLibrary : ∃ library, library = Codec.libraryWith none (by simp) ∧
    library.intMaxStrDigits = none ∧ Ingest.DigestInjective library :=
  ⟨_, rfl, rfl, fun _ _ => Codec.digest_inj⟩

/-- The version of the shipped configuration has one digit. -/
theorem within_shipped (hlimit : library.intMaxStrDigits = none) :
    library.within DetectionConfig.shipped.configVersion = true := by
  unfold Library.within
  rw [hlimit]
  rfl

section Adds

variable {key value : Bytes} {payload : Codec.HotIpEvent}

theorem exists_adds (hlimit : library.intMaxStrDigits = none) :
    ∃ key value payload, Adds library key value payload := by
  obtain ⟨value, payload, hadded, hip, hreads⟩ := exists_addition library hlimit
  exact ⟨_, value, payload, hadded, hip, hreads⟩

/-- The message of the log of that record. -/
theorem Adds.change (h : Adds library key value payload) :
    ∃ message, (logMessages [⟨some key, value⟩])[0]? = some message ∧
      Trie.change library {.ipv4} (readingAt library {.ipv4} [⟨some key, value⟩] 0) message =
        some payload := by
  refine ⟨_, rfl, ?_⟩
  have hserved : payload.ip.family ∈ ({.ipv4} : Finset AddressFamily) := by
    rw [h.ip]
    exact Finset.mem_singleton_self _
  have hchanges : ((readingAt library {.ipv4} [⟨some key, value⟩] 0).records payload.ip).isSome ≠
      (recordAfter library payload).isSome := by
    rw [(isSome_recordAfter library payload).mpr h.added]
    exact Bool.false_ne_true
  unfold Trie.change
  rw [h.reads _ rfl rfl]
  exact if_pos ⟨hserved, hchanges⟩

/-- One fact for each length from 8 to 32. -/
theorem Adds.length_facts (h : Adds library key value payload)
    (hthrough : Through (factsAt library .default {.ipv4} [⟨some key, value⟩]) 1 facts) :
    facts.length = 25 := by
  obtain ⟨part, hpart, rfl⟩ := hthrough
  obtain ⟨message, hmessage, hchange⟩ := h.change
  rw [List.range_one, List.flatMap_singleton, (hpart 0 Nat.one_pos).length_eq,
    factsAt_of_change hmessage hchange, h.ip]
  unfold statsFacts
  rw [List.length_map, List.length_range']
  rfl

/-- The address is the one HOT address under each of its prefixes. -/
theorem Adds.ncard_under (h : Adds library key value payload) {p : Prefix}
    (hp : p.contains sampleAddress = true) :
    ((readingAt library {.ipv4} [⟨some key, value⟩] 1).under p).ncard = 1 := by
  obtain ⟨message, hmessage, hchange⟩ := h.change
  obtain ⟨hdecode, hserved, -⟩ := change_served hchange
  rw [Set.ncard_eq_one]
  refine ⟨sampleAddress, ?_⟩
  rw [readingAt_succ hmessage]
  unfold Reading.under Reading.absorb
  rw [hdecode]
  dsimp only
  rw [if_pos hserved, h.ip]
  ext a
  rw [Set.mem_ofPred_eq, Set.mem_singleton_iff]
  dsimp only
  by_cases ha : a = sampleAddress
  · rw [if_pos ha, (isSome_recordAfter library payload).mpr h.added, ha]
    exact iff_of_true ⟨rfl, hp⟩ rfl
  · rw [if_neg ha]
    exact iff_of_false (fun hnone => Bool.false_ne_true hnone.1) ha

/-- The process after the crash has handled the event. -/
theorem exists_sampleRecovery (hlimit : library.intMaxStrDigits = none)
    (hdigest : Ingest.DigestInjective library) (key value : Bytes) : ∃ process,
    (TrieSystem.run library .default {.ipv4} (sampleRecovery key value)).process = some process ∧
    process.caughtUp = true ∧ process.worker.state.eventSequence = (1 : ℕ) := by
  obtain ⟨process, hcaught, hprocess⟩ := exists_caughtUp .default hdigest
    (Finset.singleton_ne_empty AddressFamily.ipv4) (sampleActions key value)
    (within_shipped hlimit) smooth_returns (congrArg List.length (logs_sample library key value).1)
    (one_lt_pow₀ (show 1 < 10 by norm_num) (show 640 ≠ 0 by norm_num)) le_rfl
  exact ⟨process, hprocess.runs, hcaught, hprocess.eventSequence⟩

end Adds

/-- A process is interrupted between its publishes, and the log ends with all the facts of the event,
none of them twice. -/
theorem stats_log_survives_sample : ∃ key value process facts,
    let system := TrieSystem.run (Codec.libraryWith none (by simp)) .default {.ipv4}
      (sampleRecovery key value)
    system.process = some process ∧ process.caughtUp = true ∧
      List.Forall₂ (Tells (Codec.libraryWith none (by simp))) (system.bus.logs prefixStatsTopic)
        facts ∧ facts.Nodup ∧ facts.length = 25 := by
  obtain ⟨library, hlibrary, hlimit, hdigest⟩ := exists_sampleLibrary
  obtain ⟨key, value, payload, hadds⟩ := exists_adds hlimit
  obtain ⟨process, hruns, hcaught, hsequence⟩ := exists_sampleRecovery hlimit hdigest key value
  obtain ⟨facts, htells, hnodup, -, hprocess⟩ := stats_log_survives library hdigest .default {.ipv4}
    (sampleRecovery key value)
  obtain ⟨count, -, hcount, -, hthrough⟩ := hprocess process hruns hcaught
  obtain rfl : count = 1 := by exact_mod_cast hcount.symm.trans hsequence
  rw [(logs_sample library key value).2] at hthrough
  rw [← hlibrary]
  exact ⟨key, value, process, facts, hruns, hcaught, htells, hnodup, hadds.length_facts hthrough⟩

/-- A process starts after another was interrupted between its publishes. -/
theorem recovery_completes_sample : ∃ key value process facts,
    let system := TrieSystem.run (Codec.libraryWith none (by simp)) .default {.ipv4}
      (sampleActions key value ++ [.boot .shipped, .readEnd, .subscribe] ++ [.pump .smooth])
    system.process = some process ∧ process.caughtUp = true ∧
      process.worker.state.eventSequence = (1 : ℕ) ∧
      List.Forall₂ (Tells (Codec.libraryWith none (by simp))) (system.bus.logs prefixStatsTopic)
        facts ∧ facts.length = 25 := by
  obtain ⟨library, hlibrary, hlimit, hdigest⟩ := exists_sampleLibrary
  obtain ⟨key, value, payload, hadds⟩ := exists_adds hlimit
  obtain ⟨hbefore, hafter⟩ := logs_sample library key value
  have hone : ((TrieSystem.run library .default {.ipv4} (sampleActions key value)).bus.logs
      hotIpTopic).length = 1 := congrArg List.length hbefore
  obtain ⟨process, facts, hruns, hcaught, hsequence, htells, hthrough⟩ := recovery_completes library
    hdigest .default {.ipv4} (Finset.singleton_ne_empty _) (sampleActions key value) .shipped
    (within_shipped hlimit) [.smooth] smooth_returns
    (hone ▸ one_lt_pow₀ (show 1 < 10 by norm_num) (show 640 ≠ 0 by norm_num)) hone.le
  rw [hone] at hsequence hthrough
  rw [show (TrieSystem.run library .default {.ipv4} (sampleActions key value ++
    [.boot .shipped, .readEnd, .subscribe] ++ [Publishing.smooth].map ProcessAction.pump)).bus.logs
      hotIpTopic = [⟨some key, value⟩] from hafter] at hthrough
  rw [← hlibrary]
  exact ⟨key, value, process, facts, hruns, hcaught, hsequence, htells, hadds.length_facts hthrough⟩

end Hammertime.Trie
