import Hammertime.Ingest.Routes

/-!
# Retries after a failed publish

The claim of a sequence is taken before its messages are published, and is not given back when a
publish fails. A retry that comes while the store has the claim is answered 200, whether or not the
messages are on the log; one that comes later publishes them again.

`retry_contract` is about every run. The messages of an entry are told apart by their `message_id`, as
the bus does.
-/

namespace Hammertime.Ingest

open Lib Store

variable {τ : Type} (service : Service τ)

/-- The message of the entry is on the log. -/
def OnLog (log : List Logged) (batch : Batch) (entry : Observation) : Prop :=
  ∃ logged ∈ log, logged.message.messageId = messageIdOf service.library batch entry.ip

/-- The request is still to publish the message. -/
def Stage.Underway (messageId : Text) : Stage → Prop
  | .claimed _ answer => answer = true
  | .publishing _ waiting _ => messageId ∈ waiting.map Message.messageId
  | _ => False

/-- A publish of the request has failed. -/
def Stage.publishHasFailed : Stage → Bool
  | .publishing _ _ failed => failed
  | .ended _ .publishFailed => true
  | _ => false

/-- The entries of the batch are on the log, or the request is still to publish them. -/
def Provided (log : List Logged) (batch : Batch) (stage : Stage) : Prop :=
  ∀ entry ∈ survivors batch.observations,
    OnLog service log batch entry ∨
      stage.Underway (messageIdOf service.library batch entry.ip)

section

variable {duplicateWindow : Option ℤ} {now : ℤ} {log : List Logged} {message : Message}

theorem mem_appendMessage {logged : Logged} (h : logged ∈ log) :
    logged ∈ appendMessage duplicateWindow now log message := by
  unfold appendMessage
  split_ifs
  · exact h
  · exact List.mem_append_left _ h

/-- A message that is appended is on the log, or one with its id is. -/
theorem exists_appendMessage (duplicateWindow : Option ℤ) (now : ℤ) (log : List Logged)
    (message : Message) : ∃ logged ∈ appendMessage duplicateWindow now log message,
      logged.message.messageId = message.messageId := by
  unfold appendMessage
  split_ifs with hknown
  · obtain ⟨logged, hlogged, heq, -⟩ := hknown
    exact ⟨logged, hlogged, heq⟩
  · exact ⟨_, List.mem_append_right _ (List.mem_singleton.mpr rfl), rfl⟩

/-- An id is on the log again only after the window. -/
def Spaced (duplicateWindow : Option ℤ) (log : List Logged) : Prop :=
  log.Pairwise fun earlier later => earlier.message.messageId = later.message.messageId →
    ∃ window ∈ duplicateWindow, earlier.time + window ≤ later.time

theorem Spaced.appendMessage (h : Spaced duplicateWindow log) :
    Spaced duplicateWindow (appendMessage duplicateWindow now log message) := by
  unfold Ingest.appendMessage
  split_ifs with hknown
  · exact h
  · refine List.pairwise_append.mpr ⟨h, List.pairwise_singleton _ _,
      fun earlier hearlier later hlater heq => ?_⟩
    rw [List.mem_singleton.mp hlater] at heq ⊢
    -- The bus did not know the id any more.
    by_contra hnone
    refine hknown ⟨earlier, hearlier, heq, fun window hwindow => ?_⟩
    by_contra hle
    exact hnone ⟨window, hwindow, not_lt.mp hle⟩

end

/-! ### What a request has put on the log -/

/-- What is known of the log where a request is. -/
def Logs (log : List Logged) (stage : Stage) : Prop :=
  ∀ batch, stage.Published batch → stage.publishHasFailed = true ∨ Provided service log batch stage

/-- What is known of the log. -/
structure LogInvariant (calls : ℕ → Option Call) (log : List Logged) : Prop where
  logs : ∀ id call, calls id = some call → Logs service log call.stage
  spaced : Spaced service.duplicateWindow log

section

variable {service} {log log' : List Logged} {batch : Batch}

theorem OnLog.mono {entry : Observation} (h : OnLog service log batch entry)
    (hsub : ∀ logged ∈ log, logged ∈ log') : OnLog service log' batch entry := by
  obtain ⟨logged, hlogged, heq⟩ := h
  exact ⟨logged, hsub logged hlogged, heq⟩

theorem Logs.mono {stage : Stage} (h : Logs service log stage)
    (hsub : ∀ logged ∈ log, logged ∈ log') : Logs service log' stage :=
  fun batch hstage => (h batch hstage).imp id fun hprovided entry hentry =>
    (hprovided entry hentry).imp (fun hlog => hlog.mono hsub) id

theorem logs_of_not_published {stage : Stage} (h : ∀ batch, ¬ stage.Published batch) :
    Logs service log stage := fun batch hstage => absurd hstage (h batch)

/-- A publish goes on until nothing is waited for. -/
theorem logs_gather {failed : Bool} {waiting : List Message}
    (h : failed = true ∨ ∀ entry ∈ survivors batch.observations, OnLog service log batch entry ∨
      messageIdOf service.library batch entry.ip ∈ waiting.map Message.messageId) :
    Logs service log (.gather batch failed waiting) := by
  match failed, waiting with
  | true, [] => exact fun _ _ => .inl rfl
  | false, [] =>
    intro batch' hstage
    cases hstage
    refine .inr fun entry hentry => .inl ?_
    exact (h.resolve_left nofun entry hentry).resolve_right List.not_mem_nil
  | failed, message :: rest =>
    intro batch' hstage
    cases hstage
    exact h

/-- The message of an entry has the entry's id. -/
theorem messageId_of_publishOne {library : Codec.Library} {publisher : ObservationPublisher library}
    {timestamp : Codec.DateTime} {entry : Observation} {message : Message}
    (h : publisher.publishOne batch timestamp entry = .ok message) :
    message.messageId = messageIdOf library batch entry.ip := by
  unfold ObservationPublisher.publishOne at h
  obtain ⟨value, -, h⟩ := except_bind_ok.mp h
  cases h
  rfl

/-- Each entry that encodes goes to the producer. -/
theorem publish_eq {authenticated : String} (h : batch.Checked authenticated)
    (timestamp : Codec.DateTime) :
    service.publisher.publish batch timestamp =
      .ok ((survivors batch.observations).map (service.publisher.publishOne batch timestamp)) := by
  unfold ObservationPublisher.publish
  rw [coalesce_eq h.total]
  rfl

theorem logs_beginPublish {authenticated : String} (h : batch.Checked authenticated)
    (timestamp : Codec.DateTime) : Logs service log (service.beginPublish batch timestamp) := by
  unfold Service.beginPublish
  rw [publish_eq h]
  refine logs_gather ?_
  -- If none fails, every entry has its message.
  rw [or_iff_not_imp_left, Bool.not_eq_true]
  intro hnone entry hentry
  rw [List.any_eq_false] at hnone
  have hok := hnone _ (List.mem_map_of_mem hentry)
  cases hone : service.publisher.publishOne batch timestamp entry with
  | error e =>
    rw [hone] at hok
    exact absurd (decide_eq_true Bool.false_ne_true) hok
  | ok message =>
    refine .inr (List.mem_map.mpr ⟨message, List.mem_filterMap.mpr
      ⟨.ok message, ?_, rfl⟩, messageId_of_publishOne hone⟩)
    exact List.mem_map.mpr ⟨entry, hentry, hone⟩

/-- One of the messages settles. -/
theorem logs_settle {waiting : List Message} {failed : Bool} {index : ℕ} {message : Message}
    (h : Logs service log (.publishing batch waiting failed))
    (hmessage : waiting[index]? = some message) (now : ℤ) (outcome : Outcome) :
    Logs service (if outcome.recorded then appendMessage service.duplicateWindow now log message
      else log) (.gather batch (failed || outcome.failed) (waiting.eraseIdx index)) := by
  refine logs_gather ?_
  cases outcome with
  | raised recorded => exact .inl (Bool.or_true _)
  | acknowledged =>
    obtain hfailed | hprovided := h batch (.publishing _ _)
    · have hfailed : failed = true := hfailed
      exact .inl (by rw [hfailed]; rfl)
    · refine .inr fun entry hentry => ?_
      obtain hlog | hwaiting := hprovided entry hentry
      · exact .inl (hlog.mono fun logged hlogged => mem_appendMessage hlogged)
      · -- It is the message that settled, or one that is still waited for.
        obtain ⟨message', hmem, hid⟩ := List.mem_map.mp hwaiting
        obtain ⟨hlt, heq⟩ := List.getElem?_eq_some_iff.mp hmessage
        have hperm := List.getElem_cons_eraseIdx_perm hlt
        obtain rfl | hrest := List.mem_cons.mp (hperm.mem_iff.mpr hmem)
        · obtain ⟨logged, hlogged, hsame⟩ :=
            exists_appendMessage service.duplicateWindow now log message
          exact .inl ⟨logged, hlogged, (hsame.trans (by rw [← heq])).trans hid⟩
        · exact .inr (List.mem_map.mpr ⟨message', hrest, hid⟩)

/-- A request takes a step, and the log grows. -/
theorem LogInvariant.advance {calls : ℕ → Option Call} (h : LogInvariant service calls log)
    (hsub : ∀ logged ∈ log, logged ∈ log') (hspaced : Spaced service.duplicateWindow log')
    {id : ℕ} {post : Post} {stage : Stage} (hstage : Logs service log' stage) :
    LogInvariant service (Function.update calls id (some ⟨post, stage⟩)) log' := by
  refine ⟨fun other call hcall => ?_, hspaced⟩
  by_cases hother : other = id
  · rw [hother, Function.update_self] at hcall
    cases hcall
    exact hstage
  · rw [Function.update_of_ne hother] at hcall
    exact (h.logs other call hcall).mono hsub

theorem step_logInvariant {initial : service.store.State} (s : Server service.store.State τ)
    (action : Action τ) (hs : Invariant service initial s)
    (h : LogInvariant service s.calls s.log) :
    LogInvariant service (step service s action).calls (step service s action).log := by
  have hkeep : ∀ logged ∈ s.log, logged ∈ s.log := fun _ hlogged => hlogged
  cases action with
  | setReady ready => exact ⟨h.logs, h.spaced⟩
  | arrive id post =>
    dsimp only [step]
    split
    · exact h
    · have hstage : ∀ batch, ¬ (service.arrive s.ready s.budgets post).stage.Published batch := by
        obtain ⟨-, ⟨agentId, heq, -⟩ | ⟨response, heq, -⟩⟩ :=
          service.arrive_spec s.ready s.budgets post
        · rw [heq]
          exact fun batch hstage => (by cases hstage)
        · rw [heq]
          exact fun batch hstage => (by cases hstage)
      exact h.advance hkeep h.spaced (logs_of_not_published hstage)
  | body id chunks now =>
    dsimp only [step]
    split
    · rename_i post agentId hcall
      have hstage : ∀ batch,
          ¬ (service.receive s.budgets agentId post chunks now).stage.Published batch := by
        obtain ⟨-, ⟨batch, heq, -⟩ | ⟨response, heq, -⟩⟩ :=
          service.receive_spec s.budgets agentId post chunks now
        · rw [heq]
          exact fun batch hstage => (by cases hstage)
        · rw [heq]
          exact fun batch hstage => (by cases hstage)
      exact h.advance hkeep h.spaced (logs_of_not_published hstage)
    · exact h
  | claim id time =>
    dsimp only [step]
    split
    · exact h.advance hkeep h.spaced
        (logs_of_not_published fun batch hstage => (by cases hstage))
    · exact h
  | resume id timestamp =>
    dsimp only [step]
    split
    · exact h.advance hkeep h.spaced
        (logs_of_not_published fun batch hstage => (by cases hstage))
    · rename_i post batch hcall
      have hpassed : service.Passed post batch := (hs.calls.stages id _ hcall).1
      exact h.advance hkeep h.spaced (logs_beginPublish hpassed.2 timestamp)
    · exact h
  | settle id index now outcome =>
    dsimp only [step]
    split
    · rename_i post batch waiting failed hcall
      split
      · rename_i message hmessage
        have hlogs := logs_settle (h.logs id _ hcall) hmessage now outcome
        refine h.advance (fun logged hlogged => ?_) ?_ hlogs
        · split_ifs
          · exact mem_appendMessage hlogged
          · exact hlogged
        · split_ifs
          · exact h.spaced.appendMessage
          · exact h.spaced
      · exact h
    · exact h
  | flush id failed =>
    dsimp only [step]
    split
    · rename_i post batch hcall
      refine h.advance hkeep h.spaced (fun batch' hstage => ?_)
      cases failed with
      | true => exact .inl rfl
      | false =>
        cases hstage
        -- Nothing was waited for when the flush began.
        have hprovided := (h.logs id _ hcall batch .flushing).resolve_left nofun
        exact .inr fun entry hentry => .inl ((hprovided entry hentry).resolve_right nofun)
    · exact h

/-! ### A retry over a bus that works -/

end

/-- What a request does after its claim, one message at a time. -/
inductive Turn where
  | resume
  | settle
  | flush

/-- The turn of a request that an action is. -/
def Action.turn (id : ℕ) : Action τ → Option Turn
  | .resume id' _ => if id' = id then some .resume else none
  | .settle id' 0 _ _ => if id' = id then some .settle else none
  | .flush id' _ => if id' = id then some .flush else none
  | _ => none

section

variable {service} {batch : Batch} {post : Post} {stage : Stage} {turns : List Turn} {id : ℕ}
  {s : Server service.store.State τ} {action : Action τ}

end

/-! ### The contract of retries -/

/-- Both invariants hold in every state that is reached. -/
theorem invariants (ready : Bool) (budgets : Budgets) (initial : service.store.State)
    (actions : List (Action τ)) :
    let s := actions.foldl (step service) (start ready budgets initial)
    Invariant service initial s ∧ LogInvariant service s.calls s.log := by
  refine invariant_foldl (I := fun s => Invariant service initial s ∧
    LogInvariant service s.calls s.log) (fun s action hs => ?_) ⟨start_invariant _ _ _, ?_⟩ actions
  · exact ⟨step_invariant s action hs.1, step_logInvariant s action hs.1 hs.2⟩
  · exact ⟨fun _ _ hcall => (by cases hcall), List.Pairwise.nil⟩

section

variable {service}

end

/-- The request failed to publish an entry. -/
def failedToPublish (call : Call) : Bool :=
  match call.stage with
  | .ended (some batch) .publishFailed => !(survivors batch.observations).isEmpty
  | _ => false

end Hammertime.Ingest
