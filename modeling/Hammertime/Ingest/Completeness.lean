import Hammertime.Ingest.Retry

/-!
# What validation leaves to publishing

`create_observation` turns a body down with a 400 before it claims the sequence, and has nothing but
a 503 for what goes wrong after. The two sides check the same fields through different code, and they
differ in one place: the window's start is checked as a date-time with any offset, and is written in
UTC, whose years end at 1 and at 9999. A batch with a count to publish can be written exactly when
its window starts within them (`validation_complete`); one that starts outside passes every check,
uses up its sequence, and fails at every attempt without a word to the bus.
-/

namespace Hammertime.Ingest

open Lib Store

/-! ### Batches that can be written -/

section

variable {library : Codec.Library} (publisher : ObservationPublisher library)

/-- The envelope of every entry that is published is one that `encode` writes, at any time. -/
def Encodable (batch : Batch) : Prop :=
  ∀ coalesced, coalesce batch.observations = .ok coalesced →
    ∀ entry ∈ coalesced, 0 < entry.requestCount →
      ∀ timestamp : Codec.DateTime, timestamp.offset = some 0 →
        ∃ data, Codec.encode library (publisher.envelope batch entry timestamp) = .ok data

/-- The window starts within the years 1 to 9999 in UTC, or all counts are zero. -/
def Batch.Writable (batch : Batch) : Prop :=
  (∀ entry ∈ batch.observations, entry.requestCount = 0) ∨
    0 ≤ batch.windowStart.wall - batch.windowStart.offset.getD 0 ∧
      batch.windowStart.wall - batch.windowStart.offset.getD 0 < Codec.maxMicroseconds

instance (batch : Batch) : Decidable batch.Writable :=
  inferInstanceAs (Decidable ((∀ entry ∈ batch.observations, entry.requestCount = 0) ∨ _))

theorem exists_isUtc {value : Codec.DateTime} : (∃ utc, value.IsUtc utc) ↔
    0 ≤ value.wall - value.offset.getD 0 ∧
      value.wall - value.offset.getD 0 < Codec.maxMicroseconds := by
  constructor
  · rintro ⟨utc, hwall, -⟩
    rw [← hwall]
    exact utc.inRange
  · intro hrange
    exact ⟨⟨_, some 0, hrange⟩, rfl, rfl⟩

/-- Nothing survives exactly when all counts are zero. -/
theorem survivors_eq_nil {observations : List Observation} : survivors observations = [] ↔
    ∀ entry ∈ observations, entry.requestCount = 0 := by
  rw [List.eq_nil_iff_forall_not_mem]
  constructor
  · intro hnone entry hentry
    by_contra hne
    -- The sum of an address is at least each of its counts.
    have hle : entry.requestCount ≤ total observations entry.ip := by
      refine List.single_le_sum (fun _ _ => Nat.zero_le _) _ (List.mem_map_of_mem ?_)
      exact List.mem_filter.mpr ⟨hentry, decide_eq_true rfl⟩
    exact hnone ⟨entry.ip, total observations entry.ip⟩ (mem_survivors.mpr ⟨rfl, by
      show 0 < total observations entry.ip
      omega⟩)
  · intro hzero entry hentry
    obtain ⟨hsum, hpos⟩ := mem_survivors.mp hentry
    have hnil : total observations entry.ip = 0 := by
      refine List.sum_eq_zero fun n hn => ?_
      obtain ⟨other, hother, rfl⟩ := List.mem_map.mp hn
      exact hzero other (List.mem_of_mem_filter hother)
    omega

theorem writable_iff {batch : Batch} :
    batch.Writable ↔ survivors batch.observations = [] ∨ ∃ utc, batch.windowStart.IsUtc utc := by
  rw [survivors_eq_nil, exists_isUtc]
  exact Iff.rfl

/-- An entry whose envelope is written has a window that starts within the years. -/
theorem isUtc_of_encode {batch : Batch} {entry : Observation} {timestamp : Codec.DateTime}
    {data : Bytes} (h : Codec.encode library (publisher.envelope batch entry timestamp) = .ok data) :
    ∃ utc, batch.windowStart.IsUtc utc := by
  obtain ⟨payload, -, hutc, -⟩ := decodeMessage_encode publisher h
  exact ⟨_, hutc⟩

/-- A batch that has passed the checks can be written exactly when it is writable. -/
theorem encodable_iff {authenticated : String} {batch : Batch} (h : batch.Checked authenticated) :
    Encodable publisher batch ↔ batch.Writable := by
  rw [writable_iff]
  have hcoalesce := coalesce_eq h.total
  constructor
  · intro hall
    cases hsurvivors : survivors batch.observations with
    | nil => exact Or.inl rfl
    | cons entry rest =>
      have hentry : entry ∈ survivors batch.observations := by
        rw [hsurvivors]
        exact List.mem_cons_self
      obtain ⟨hcoalesced, hpos⟩ := List.mem_filter.mp hentry
      obtain ⟨data, hdata⟩ := hall _ hcoalesce entry hcoalesced (of_decide_eq_true hpos)
        ⟨0, some 0, by decide⟩ rfl
      exact Or.inr (isUtc_of_encode publisher hdata)
  · intro hwritable coalesced hok entry hcoalesced hpos timestamp htimestamp
    rw [hcoalesce] at hok
    obtain rfl := Except.ok.inj hok
    have hentry : entry ∈ survivors batch.observations :=
      List.mem_filter.mpr ⟨hcoalesced, decide_eq_true hpos⟩
    rcases hwritable with hnil | hutc
    · rw [hnil] at hentry
      exact absurd hentry List.not_mem_nil
    · have haccepted : batch.Accepted := ⟨h.sequence, h.windowSeconds, hutc, h.total⟩
      have hle : entry.requestCount ≤ maxRequestCount :=
        (mem_survivors.mp hentry).1 ▸ h.total entry.ip
      exact exists_encode publisher haccepted hle htimestamp

end

/-! ### Why a publish fails -/

variable {τ : Type} (service : Service τ)

/-- The producer fails the request: one of its messages raises, or the flush does. -/
inductive TransportFails (s : Server service.store.State τ) (id : ℕ) : Action τ → Prop
  | settle {post : Post} {batch : Batch} {waiting : List Message} {failed : Bool} {index : ℕ}
    {message : Message} (now : ℤ) (recorded : Bool) :
    s.calls id = some ⟨post, .publishing batch waiting failed⟩ → waiting[index]? = some message →
    TransportFails s id (.settle id index now (.raised recorded))
  | flush {post : Post} {batch : Batch} : s.calls id = some ⟨post, .flushing batch⟩ →
    TransportFails s id (.flush id true)

/-- An action of the run is a failure of the producer for the request. -/
def FailedInTransport (s : Server service.store.State τ) (actions : List (Action τ)) (id : ℕ) :
    Prop :=
  ∃ before action rest, actions = before ++ action :: rest ∧
    TransportFails service (before.foldl (step service) s) id action

/-- What is known of a request that publishes: it failed in the transport if its batch can be
written, and has not failed only if it can. -/
def Accountable (failedInTransport : Prop) : Stage → Prop
  | .publishing batch _ true => batch.Writable → failedInTransport
  | .publishing batch _ false => batch.Writable
  | .flushing batch => batch.Writable
  | .ended (some batch) .accepted => batch.Writable
  | .ended (some batch) .publishFailed => batch.Writable → failedInTransport
  | _ => True

section

variable {service} {s : Server service.store.State τ} {batch : Batch} {P Q : Prop}

theorem FailedInTransport.concat {actions : List (Action τ)} {id : ℕ}
    (h : FailedInTransport service s actions id) (action : Action τ) :
    FailedInTransport service s (actions ++ [action]) id := by
  obtain ⟨before, failing, rest, rfl, hfails⟩ := h
  refine ⟨before, failing, rest ++ [action], ?_, hfails⟩
  rw [List.append_assoc, List.cons_append]

theorem failedInTransport_concat {actions : List (Action τ)} {id : ℕ} {action : Action τ}
    (h : TransportFails service (actions.foldl (step service) s) id action) :
    FailedInTransport service s (actions ++ [action]) id :=
  ⟨actions, action, [], rfl, h⟩

theorem Accountable.mono {stage : Stage} (h : Accountable P stage) (hPQ : P → Q) :
    Accountable Q stage := by
  unfold Accountable at h ⊢
  split at h
  · exact fun hwritable => hPQ (h hwritable)
  · exact h
  · exact h
  · exact h
  · exact fun hwritable => hPQ (h hwritable)
  · exact trivial

/-- Where the messages that are left settle. -/
theorem accountable_gather {failed : Bool} (waiting : List Message)
    (hfailed : failed = true → batch.Writable → P) (hok : failed = false → batch.Writable) :
    Accountable P (.gather batch failed waiting) := by
  unfold Stage.gather
  cases waiting with
  | nil =>
    cases failed with
    | true => exact hfailed rfl
    | false => exact hok rfl
  | cons message rest =>
    cases failed with
    | true => exact hfailed rfl
    | false => exact hok rfl

/-- Publishing begins with a failure exactly when the batch cannot be written. -/
theorem accountable_beginPublish {authenticated : String} (h : batch.Checked authenticated)
    {timestamp : Codec.DateTime} (htimestamp : timestamp.offset = some 0) :
    Accountable P (service.beginPublish batch timestamp) := by
  have hencodable := encodable_iff service.publisher h
  unfold Service.beginPublish
  rw [publish_eq h]
  refine accountable_gather _ (fun hfailed hwritable => ?_) fun hok => ?_
  · -- A message that was not handed over is one that `encode` refused.
    obtain ⟨result, hresult, hraised⟩ := List.any_eq_true.mp hfailed
    obtain ⟨entry, hentry, rfl⟩ := List.mem_map.mp hresult
    obtain ⟨hcoalesced, hpos⟩ := List.mem_filter.mp hentry
    obtain ⟨data, hdata⟩ := hencodable.mpr hwritable _ (coalesce_eq h.total) entry hcoalesced
      (of_decide_eq_true hpos) timestamp htimestamp
    rw [publishOne_of_encode service.publisher hdata] at hraised
    exact absurd rfl (of_decide_eq_true hraised)
  · rw [writable_iff]
    cases hsurvivors : survivors batch.observations with
    | nil => exact Or.inl rfl
    | cons entry rest =>
      have hsent := List.any_eq_false.mp hok (service.publisher.publishOne batch timestamp entry)
        (List.mem_map_of_mem (hsurvivors ▸ List.mem_cons_self))
      cases hone : service.publisher.publishOne batch timestamp entry with
      | error e =>
        rw [hone] at hsent
        exact absurd (decide_eq_true Bool.false_ne_true) hsent
      | ok message =>
        unfold ObservationPublisher.publishOne at hone
        obtain ⟨data, hdata, -⟩ := except_bind_ok.mp hone
        exact Or.inr (isUtc_of_encode service.publisher hdata)

/-- A step of a request accounts for the stage that it leads to. -/
theorem Moves.accountable {initial : service.store.State} (hs : Invariant service initial s) {id : ℕ}
    {post : Post} {action : Action τ} {stage : Stage} (h : Moves service s id post action stage)
    (hbefore : ∀ call, s.calls id = some call → Accountable P call.stage) (hPQ : P → Q)
    (hfails : TransportFails service s id action → Q)
    (hnow : ∀ timestamp, action = .resume id timestamp → timestamp.offset = some 0) :
    Accountable Q stage := by
  cases h with
  | arrive hnone =>
    obtain ⟨-, ⟨agentId, heq, -⟩ | ⟨response, heq, -⟩⟩ := service.arrive_spec s.ready s.budgets post
    · rw [heq]
      exact trivial
    · rw [heq]
      exact trivial
  | body agentId chunks now hread =>
    obtain ⟨-, ⟨batch, heq, -⟩ | ⟨response, heq, -⟩⟩ :=
      service.receive_spec s.budgets agentId post chunks now
    · rw [heq]
      exact trivial
    · rw [heq]
      exact trivial
  | claim agentId batch time answer hclaiming => exact trivial
  | told batch timestamp hrefused => exact trivial
  | publish batch timestamp hclaimed =>
    have hpassed : service.Passed post batch := (hs.calls.stages id _ hclaimed).1
    exact accountable_beginPublish hpassed.2 (hnow timestamp rfl)
  | settle batch waiting failed index message now outcome hwaiting hmessage =>
    have hbatch := hbefore _ hwaiting
    refine accountable_gather _ (fun hfailed hwritable => ?_) fun hok => ?_
    · -- The failure is an earlier one, or that of the message that settles.
      cases failed with
      | true => exact hPQ (hbatch hwritable)
      | false =>
        cases outcome with
        | acknowledged => cases hfailed
        | raised recorded => exact hfails (.settle now recorded hwaiting hmessage)
    · cases failed with
      | true => cases hok
      | false => exact hbatch
  | flush batch failed hflushing =>
    have hbatch := hbefore _ hflushing
    cases failed with
    | true => exact fun _ => hfails (.flush hflushing)
    | false => exact hbatch

end

/-- Every request is accounted for along a run. -/
theorem run_accountable (ready : Bool) (budgets : Budgets) (initial : service.store.State)
    (actions : List (Action τ))
    (hnow : ∀ id timestamp, .resume id timestamp ∈ actions → timestamp.offset = some 0) :
    let s₀ := start ready budgets initial
    ∀ id call, (actions.foldl (step service) s₀).calls id = some call →
      Accountable (FailedInTransport service s₀ actions id) call.stage := by
  intro s₀
  induction actions using List.reverseRecOn with
  | nil => exact fun id call hcall => by cases hcall
  | append_singleton actions action ih =>
    have ih := ih fun id timestamp hmem => hnow id timestamp (List.mem_append_left _ hmem)
    have hs : Invariant service initial (actions.foldl (step service) s₀) :=
      (invariants service ready budgets initial actions).1
    intro id call hcall
    rw [List.foldl_append, List.foldl_cons, List.foldl_nil] at hcall
    have hstill : FailedInTransport service s₀ actions id →
        FailedInTransport service s₀ (actions ++ [action]) id := fun h => h.concat action
    rcases step_moves service _ action id with hsame | ⟨post, stage, hmoved, hmoves⟩
    · rw [hsame] at hcall
      exact (ih id call hcall).mono hstill
    · rw [hmoved] at hcall
      obtain rfl := Option.some.inj hcall
      exact hmoves.accountable hs (ih id) hstill failedInTransport_concat fun timestamp heq =>
        hnow id timestamp (heq ▸ List.mem_append_right _ List.mem_cons_self)

/-- **Validation and publishing**: of the batches that reach the claim, those can be written whose
window starts within the years 1 to 9999 in UTC, or that have nothing to publish. In every run, a
publish of such a batch fails only in the transport, and a request with any other batch is never
accepted. -/
theorem validation_complete (ready : Bool) (budgets : Budgets) (initial : service.store.State) :
    (∀ agentId contentLength chunks batch cost,
      service.parseBatch agentId contentLength chunks = .ok (batch, cost) →
        (Encodable service.publisher batch ↔ batch.Writable)) ∧
    ∀ actions : List (Action τ),
      (∀ id timestamp, .resume id timestamp ∈ actions → timestamp.offset = some 0) →
      let s₀ := start ready budgets initial
      ∀ id post batch,
        ((actions.foldl (step service) s₀).calls id =
            some ⟨post, .ended (some batch) .publishFailed⟩ →
          batch.Writable → FailedInTransport service s₀ actions id) ∧
        ((actions.foldl (step service) s₀).calls id = some ⟨post, .ended (some batch) .accepted⟩ →
          batch.Writable) := by
  refine ⟨fun agentId contentLength chunks batch cost hparsed => ?_, fun actions hnow => ?_⟩
  · exact encodable_iff service.publisher (service.checked_of_parseBatch hparsed)
  · intro s₀ id post batch
    have hrun := run_accountable service ready budgets initial actions hnow id
    exact ⟨fun hfailed => hrun _ hfailed, fun haccepted => hrun _ haccepted⟩

/-! ### A batch that uses up its sequence -/

/-- A request whose window starts an hour before the year 1. -/
def earlyRequest : ObservationRequest :=
  { sampleRequest with windowStart := "0001-01-01T00:00:00+01:00" }

/-- Its text. -/
def earlyBody : String :=
  "\x7b\"agent_id\":\"edge-17\",\"sequence\":1,\"window_start\":\"0001-01-01T00:00:00+01:00\"," ++
    "\"window_seconds\":60,\"observations\":[\x7b\"ip\":\"0.0.0.1\",\"request_count\":5\x7d]\x7d"

theorem earliest_inRange : (0 : ℤ) ≤ 0 ∧ (0 : ℤ) < Codec.maxMicroseconds := by decide

/-- The service whose parsers know it. -/
noncomputable def earlyService : Service (ℕ → ℤ) :=
  { sampleService with
    parsers :=
      { sampleService.parsers with
        modelValidate := fun _ => .ok earlyRequest
        fromisoformat := fun _ => some ⟨0, some 3600000000, earliest_inRange⟩
        isoformat := fun _ => "0001-01-01T00:00:00+01:00"
        timestamp := fun value =>
          (value.wall - value.offset.getD 0 - 62135596800000000) / 1000000 } }

/-- The request is sent, and sent again after the 503. -/
def earlyTwice : List (Action (ℕ → ℤ)) :=
  [.arrive 0 samplePost, .body 0 [utf8 earlyBody] 0, .claim 0 fun _ => 0, .resume 0 sampleTime,
    .arrive 1 samplePost, .body 1 [utf8 earlyBody] 1, .claim 1 fun _ => 1, .resume 1 sampleTime]

/-- The batch passes the checks and cannot be written. Its sequence is claimed, the request is
answered 503 before the bus is called, and its retry is answered 200. -/
theorem unwritable_claimed :
    let s := earlyTwice.foldl (step earlyService) (start true sampleBudgets emptyStore)
    (∃ batch cost, earlyService.parseBatch "edge-17" none [utf8 earlyBody] = .ok (batch, cost) ∧
      ¬ Encodable earlyService.publisher batch) ∧
    claimsOf s.events 0 = [("edge-17", 1, true)] ∧
    (s.calls 0).any failedToPublish = true ∧ (s.calls 1).any answeredDuplicate = true := by
  have hparsed : (earlyService.parseBatch "edge-17" none [utf8 earlyBody]).toOption.any
      (fun parsed => ¬ parsed.1.Writable) = true := by decide +kernel
  have hrun : let s := earlyTwice.foldl (step earlyService) (start true sampleBudgets emptyStore)
      claimsOf s.events 0 = [("edge-17", 1, true)] ∧
      (s.calls 0).any failedToPublish = true ∧ (s.calls 1).any answeredDuplicate = true := by
    decide +kernel
  refine ⟨?_, hrun⟩
  obtain ⟨⟨batch, cost⟩, hsome, hunwritable⟩ := (Option.any_eq_true _ _).mp hparsed
  cases hresult : earlyService.parseBatch "edge-17" none [utf8 earlyBody] with
  | error response =>
    rw [hresult] at hsome
    cases hsome
  | ok parsed =>
    rw [hresult] at hsome
    obtain rfl := Option.some.inj hsome
    refine ⟨batch, cost, rfl, fun hencodable => of_decide_eq_true hunwritable ?_⟩
    exact (encodable_iff _ (earlyService.checked_of_parseBatch hresult)).mp hencodable

end Hammertime.Ingest
