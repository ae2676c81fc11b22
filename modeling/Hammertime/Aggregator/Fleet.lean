import Hammertime.Aggregator.Provenance
import Hammertime.Aggregator.WindowTotals

/-!
# A fleet of aggregators

Any number of aggregator processes over one state store and one hot-ip log. A process starts with a
claim of its shards, performs operations, and is stopped or lost, and a process that starts later may
claim the same shards. Nothing but the leases keeps two processes apart, and they do while no lease of
a running process lapses (`Fleet.Admits`). Then the log tells, between any two operations, what the
store holds and what the owner of each shard has in memory (`Fleet.Sound`).
-/

namespace Hammertime.Aggregator

open Lib World

/-! ### The processes -/

/-- What a process starts with. -/
structure Launch where
  config : DetectionConfig
  memberId : String
  instanceId : String
  leaseTtlS : ℚ
  maxTrackedIps : ℤ
  reevaluationBatch : ℤ
  partitions : Finset ℕ

/-- The worker of a process that starts. -/
def Launch.worker (launch : Launch) : AggregatorWorker :=
  .make launch.config launch.memberId launch.instanceId launch.leaseTtlS launch.maxTrackedIps
    launch.reevaluationBatch

/-- What the processes share, and the worker of each that runs. -/
structure Fleet where
  shared : Shared
  members : ℕ → Option AggregatorWorker

/-- What can happen to the process of a place. -/
inductive FleetAction where
  /-- A process starts, and claims its shards. -/
  | boot (launch : Launch)
  | perform (operation : Operation)
  /-- It releases its leases, and ends. -/
  | stop
  | crash

namespace Fleet

/-- No process runs. -/
def start (shared : Shared) : Fleet := ⟨shared, fun _ => none⟩

/-- The fleet after something has happened to the process of a place. A claim that raises ends its
process. -/
def step (env : Env) (f : Fleet) (place : ℕ) (action : FleetAction) : Fleet :=
  match f.members place, action with
  | none, .boot launch =>
    match onAssigned env launch.partitions ⟨f.shared, launch.worker⟩ with
    | .ok _ s => ⟨s.shared, Function.update f.members place (some s.worker)⟩
    | .error _ s => { f with shared := s.shared }
  | some worker, .perform operation =>
    let s := Program.after (operation.program env ⟨f.shared, worker⟩)
    ⟨s.shared, Function.update f.members place (some s.worker)⟩
  | some worker, .stop =>
    ⟨(Program.after (release env ⟨f.shared, worker⟩)).shared,
      Function.update f.members place none⟩
  | some _, .crash => { f with members := Function.update f.members place none }
  | _, _ => f

end Fleet

/-- A message that a process handles is in the partition of its key. -/
def FleetAction.Routed : FleetAction → Prop
  | .perform operation => operation.Routed
  | _ => True

/-- The actions that bring only admitted configurations. -/
def FleetAction.Admitted (ok : DetectionConfig → Prop) : FleetAction → Prop
  | .boot launch => ok launch.config
  | .perform operation => operation.Admitted ok
  | _ => True

namespace Fleet

/-- What keeps the processes apart: a process starts under a token that no running one has, and while
it acts no lease of another running process lapses. Messages arrive in the partition of their key, and
no configuration has a negative threshold: with one, an IP that was never counted is HOT. -/
structure Admits (env : Env) (f : Fleet) (place : ℕ) (action : FleetAction) : Prop where
  routed : action.Routed
  admitted : action.Admitted fun config => 0 ≤ config.hotThreshold
  token : ∀ launch, action = .boot launch → ∀ other worker, f.members other = some worker →
    worker.claims.leaseOwner ≠ launch.worker.claims.leaseOwner
  inTime : ∀ other ≠ place, ∀ worker, f.members other = some worker →
    ∀ shard ∈ worker.claims.windows.keys, ∀ holder expiresAt,
      f.shared.store.leases.get? shard = some (holder, expiresAt) →
      ∀ tick, f.shared.tick ≤ tick → tick < (f.step env place action).shared.tick →
        (env.now tick : ℚ) < expiresAt

/-- The fleets that runs lead to, from a store without HOT IPs and an empty log. -/
inductive Reached (env : Env) : Fleet → Prop
  | start (shared : Shared) (hlog : shared.hotIp = ⟨[], ∅⟩)
      (hstore : ∀ shard, (shared.store.load shard).hotIps = ∅) : Reached env (Fleet.start shared)
  | step {f : Fleet} (hf : Reached env f) {place : ℕ} {action : FleetAction}
      (h : f.Admits env place action) : Reached env (f.step env place action)

end Fleet

/-! ### What the log tells -/

/-- The log is written by the owners of the IPs, and the events of each shard replay to the HOT set in
the store, each of them an edge. -/
structure Faithful (env : Env) (shared : Shared) : Prop where
  written : ∀ record ∈ shared.hotIp.log, Written env record
  owned : ∀ shard, ∀ ip ∈ (shared.store.load shard).hotIps, ownerOf env ip = shard
  numbered : Numbered env shared
  replays : ∀ shard, replay ∅ (shardEvents env shard shared.hotIp.log) =
    (shared.store.load shard).hotIps
  alternates : ∀ shard ip, Alternates .cold (typesOf ip (shardEvents env shard shared.hotIp.log))
    (stateIn (shared.store.load shard).hotIps ip)

/-- The window agrees with the store and with all of its shard's log. -/
def AgreesWhole (env : Env) : Scope → Prop := Agrees env (fun _ => []) fun _ => ∅

variable {env : Env} {s t : Shared}

theorem state_eq_stateIn (w : ShardWindow) (ip : Address) : w.state ip = stateIn w.hotIps ip := by
  unfold stateIn
  split_ifs with hip
  · exact ShardWindow.mem_hotIps.mp hip
  · cases hstate : w.state ip with
    | cold => rfl
    | hot => exact absurd (ShardWindow.mem_hotIps.mpr hstate) hip

theorem faithful_start (hlog : s.hotIp = ⟨[], ∅⟩)
    (hstore : ∀ shard, (s.store.load shard).hotIps = ∅) : Faithful env s := by
  refine ⟨?_, ?_, ?_, fun shard => ?_, fun shard ip => ?_⟩
  · rw [hlog]
    nofun
  · intro shard ip hip
    rw [hstore] at hip
    exact absurd hip (Finset.notMem_empty ip)
  · intro shard sequence type ip hid
    rw [hlog] at hid
    exact absurd hid (Finset.notMem_empty _)
  · rw [hlog, hstore]
    rfl
  · rw [hlog, hstore]
    exact .nil

/-- What is done for a shard leaves the log faithful, where its window agrees with the whole of it and
nothing of the other shards' own happens. -/
theorem Faithful.grows (h : Faithful env s) (hdigest : Function.Injective env.digest)
    (hgrows : Grows env s t)
    (heach : ∀ shard, Foreign env shard s t ∨ ∃ w, w.shard = shard ∧ AgreesWhole env ⟨t, w⟩) :
    Faithful env t := by
  refine ⟨?_, ?_, ?_, fun shard => ?_, fun shard ip => ?_⟩
  · obtain ⟨records, hlog, hwritten⟩ := hgrows.log
    rw [hlog]
    intro record hm
    exact (List.mem_append.mp hm).elim (h.written record) (hwritten record)
  · intro shard ip hip
    exact (hgrows.routed shard ip hip).elim (h.owned shard ip) id
  · intro shard sequence type ip hid
    obtain hf | ⟨w, rfl, hw⟩ := heach shard
    · have hload := congrArg ShardState.nextSequence hf.load
      obtain hid | ⟨other, sequence', type', ip', hne, heq⟩ := hf.seenIds _ hid
      · exact (h.numbered shard sequence type ip hid).trans_eq hload.symm
      · exact absurd (shardAgentId_inj (shardEventId_inj hdigest heq).1).symm hne
    · exact hw.published sequence type ip hid
  · obtain hf | ⟨w, rfl, hw⟩ := heach shard
    · rw [hf.shardEvents_eq, hf.load]
      exact h.replays shard
    · obtain ⟨events, hlog, hreplay, -⟩ := hw.log
      exact (congrArg (replay ∅) hlog).trans (hreplay.trans hw.store.symm)
  · obtain hf | ⟨w, rfl, hw⟩ := heach shard
    · rw [hf.shardEvents_eq, hf.load]
      exact h.alternates shard ip
    · obtain ⟨events, hlog, -, halt⟩ := hw.log
      have hstore : (t.store.load w.shard).hotIps = w.hotIps := hw.store
      rw [hstore, ← state_eq_stateIn]
      exact (congrArg (typesOf ip) hlog).symm ▸ halt ip

/-- A window as its claim left it agrees with a faithful log. -/
theorem Opened.agreesWhole {config : DetectionConfig} {scope : Scope} (h : Opened env config scope)
    (hf : Faithful env scope.shared) : AgreesWhole env scope := by
  have hagrees := h.agrees hf.numbered
  refine ⟨hagrees.store, ⟨_, (List.nil_append _).symm, ?_, fun ip => ?_⟩, hagrees.published,
    hagrees.counted⟩
  · exact (hf.replays scope.window.shard).trans hagrees.store
  · have hempty : stateIn ∅ ip = .cold := stateIn_eq_cold.mpr (Finset.notMem_empty ip)
    rw [hempty, state_eq_stateIn, ← hagrees.store]
    exact hf.alternates scope.window.shard ip

/-- And it tracks only what its shard owns. -/
theorem Opened.held {config : DetectionConfig} {scope : Scope} (h : Opened env config scope)
    (hf : Faithful env scope.shared) : scope.window.Held env scope.window.shard := by
  obtain ⟨tick, -, hnew⟩ := h.isNew
  refine ⟨rfl, fun ip hip => ?_⟩
  by_cases hhot : ip ∈ (scope.shared.store.load scope.window.shard).hotIps
  · exact hf.owned _ ip hhot
  · exact absurd (hnew.untracked ip hhot) hip

/-! ### One process -/

/-- A worker that runs: it holds its windows, they agree with the store and the log, and their shards
are leased. -/
structure Member (env : Env) (shared : Shared) (worker : AggregatorWorker) : Prop where
  held : World.Held env ⟨shared, worker⟩
  steady : Steady (fun config => 0 ≤ config.hotThreshold) worker.reevaluationBatch
    (fun _ => AgreesWhole env) ⟨shared, worker⟩
  leased : World.Leased ⟨shared, worker⟩

namespace Member

variable {worker worker' : AggregatorWorker}

/-- Two workers with a window of the same shard have the same token. -/
theorem token_eq (h : Member env s worker) (h' : Member env s worker') {shard : ℕ}
    (hshard : shard ∈ worker.claims.windows.keys) (hshard' : shard ∈ worker'.claims.windows.keys) :
    worker.claims.leaseOwner = worker'.claims.leaseOwner := by
  obtain ⟨expiresAt, hget⟩ := h.leased shard hshard
  obtain ⟨expiresAt', hget'⟩ := h'.leased shard hshard'
  have hsame := Option.some.inj (hget.symm.trans hget')
  exact congrArg Prod.fst hsame

/-- What another process does leaves a worker whose leases do not lapse. -/
theorem spared (h : Member env s worker) (hdigest : Function.Injective env.digest) {owner : String}
    (hne : worker.claims.leaseOwner ≠ owner) (hspares : Spares env owner s t)
    (hlive : ∀ shard ∈ worker.claims.windows.keys, ∀ holder expiresAt,
      s.store.leases.get? shard = some (holder, expiresAt) →
      ∀ tick, s.tick ≤ tick → tick < t.tick → (env.now tick : ℚ) < expiresAt)
    (hforeign : ∀ shard ∈ worker.claims.windows.keys, Foreign env shard s t) :
    Member env t worker := by
  refine ⟨⟨h.held.hot, h.held.windows⟩, ⟨h.steady.config, h.steady.batch, h.steady.running, ?_⟩, ?_⟩
  · intro shard w hw
    obtain ⟨hshard, hagrees⟩ := h.steady.windows shard w hw
    refine ⟨hshard, agrees_stable hdigest _ _ _ (hforeign w.shard ?_) hagrees⟩
    exact hshard ▸ Dict.mem_keys_iff.mpr ⟨w, hw⟩
  · intro shard hshard
    obtain ⟨expiresAt, hget⟩ := h.leased shard hshard
    exact ⟨expiresAt, hspares.others shard _ expiresAt hne hget
      (hlive shard hshard _ expiresAt hget)⟩

/-- One operation of a worker. -/
theorem perform (h : Member env s worker) (henv : env.NoCallFails)
    (hdigest : Function.Injective env.digest) {operation : Operation} (hrouted : operation.Routed)
    (hadmitted : operation.Admitted fun config => 0 ≤ config.hotThreshold) :
    let after := Program.after (operation.program env ⟨s, worker⟩)
    World.Stamped env ⟨s, worker⟩ after ∧ Member env after.shared after.worker := by
  intro after
  have hstamped : World.Stamped env ⟨s, worker⟩ after :=
    program_stamps env hrouted hadmitted ⟨s, worker⟩ h.held
  have hone : ∀ op ∈ [operation], op.Admitted fun config => 0 ≤ config.hotThreshold :=
    List.forall_mem_singleton.mpr hadmitted
  have hsteady : Steady (fun config => 0 ≤ config.hotThreshold) worker.reevaluationBatch
      (fun _ => AgreesWhole env) after := agrees_run henv hdigest hone h.steady
  have hbatch : after.worker.reevaluationBatch = worker.reevaluationBatch := hsteady.batch
  refine ⟨hstamped, hstamped.held, hbatch.symm ▸ hsteady, fun shard hshard => ?_⟩
  rw [hstamped.keys] at hshard
  obtain ⟨expiresAt, hget⟩ := h.leased shard hshard
  rw [hstamped.owner]
  exact hstamped.renews.own shard expiresAt hget

end Member

/-- A process whose claim returned. -/
theorem member_launch {launch : Launch} (hhot : 0 ≤ launch.config.hotThreshold) {world : World}
    (h : onAssigned env launch.partitions ⟨s, launch.worker⟩ = .ok ⟨⟩ world)
    (hfaithful : Faithful env world.shared) : Member env world.shared world.worker := by
  have hstarted : Started env s launch.config launch.reevaluationBatch world :=
    ⟨_, _, _, _, _, h⟩
  have hsteady : Steady (fun config => 0 ≤ config.hotThreshold) launch.reevaluationBatch
      (fun _ => AgreesWhole env) world :=
    hstarted.steady hhot fun _ _ hopened => hopened.agreesWhole hfaithful
  have hclaiming := onAssigned_ok rfl h
  refine ⟨⟨hsteady.config, fun shard w hw => ?_⟩, hsteady.batch.symm ▸ hsteady,
    onAssigned_leased rfl h⟩
  obtain ⟨rfl, hopened⟩ := hclaiming.each shard w hw
  exact hopened.held hfaithful

/-! ### The fleet -/

/-- The log is faithful, and the processes that run have different tokens. -/
structure Fleet.Sound (env : Env) (f : Fleet) : Prop where
  faithful : Faithful env f.shared
  member : ∀ place worker, f.members place = some worker → Member env f.shared worker
  tokens : ∀ place other worker worker', f.members place = some worker →
    f.members other = some worker' → worker.claims.leaseOwner = worker'.claims.leaseOwner →
    place = other

namespace Fleet.Sound

variable {f : Fleet} {place : ℕ}

/-- One place has another process, or none, and the others are left as they are. -/
theorem update (h : f.Sound env) (hdigest : Function.Injective env.digest) {owner : String}
    {next : Option AggregatorWorker} (hfaithful : Faithful env t)
    (hnext : ∀ worker, next = some worker →
      worker.claims.leaseOwner = owner ∧ Member env t worker)
    (howner : ∀ other ≠ place, ∀ worker, f.members other = some worker →
      worker.claims.leaseOwner ≠ owner)
    (hspares : Spares env owner f.shared t)
    (hlive : ∀ other ≠ place, ∀ worker, f.members other = some worker →
      ∀ shard ∈ worker.claims.windows.keys, ∀ holder expiresAt,
        f.shared.store.leases.get? shard = some (holder, expiresAt) →
        ∀ tick, f.shared.tick ≤ tick → tick < t.tick → (env.now tick : ℚ) < expiresAt)
    (hforeign : ∀ other ≠ place, ∀ worker, f.members other = some worker →
      ∀ shard ∈ worker.claims.windows.keys, Foreign env shard f.shared t) :
    Fleet.Sound env ⟨t, Function.update f.members place next⟩ := by
  refine ⟨hfaithful, fun other worker hworker => ?_, fun p q worker worker' hp hq htoken => ?_⟩
  · dsimp only at hworker
    by_cases hsame : other = place
    · subst hsame
      rw [Function.update_self] at hworker
      exact (hnext worker hworker).2
    · rw [Function.update_of_ne hsame] at hworker
      exact (h.member other worker hworker).spared hdigest (howner other hsame worker hworker)
        hspares (hlive other hsame worker hworker) (hforeign other hsame worker hworker)
  · dsimp only at hp hq
    by_cases hp' : p = place
    · subst hp'
      rw [Function.update_self] at hp
      by_cases hq' : q = p
      · exact hq'.symm
      · rw [Function.update_of_ne hq'] at hq
        exact absurd (htoken.symm.trans (hnext worker hp).1) (howner q hq' worker' hq)
    · rw [Function.update_of_ne hp'] at hp
      by_cases hq' : q = place
      · subst hq'
        rw [Function.update_self] at hq
        exact absurd (htoken.trans (hnext worker' hq).1) (howner p hp' worker hp)
      · rw [Function.update_of_ne hq'] at hq
        exact h.tokens p q worker worker' hp hq htoken

/-- Where nothing is announced, the log stays faithful. -/
theorem tacit (h : f.Sound env) (hdigest : Function.Injective env.digest) {owner : String}
    (htacit : Tacit env owner f.shared t) : Faithful env t :=
  h.faithful.grows hdigest (.of_same (congrArg Topic.log htacit.hotIp) htacit.load)
    fun shard => .inl (htacit.foreign shard)

/-- The log after an operation of a worker. -/
theorem performed (h : f.Sound env) (hdigest : Function.Injective env.digest)
    {worker : AggregatorWorker} {after : World}
    (hstamped : World.Stamped env ⟨f.shared, worker⟩ after)
    (hmember : Member env after.shared after.worker) : Faithful env after.shared := by
  refine h.faithful.grows hdigest hstamped.grows fun shard => ?_
  by_cases hshard : shard ∈ worker.claims.windows.keys
  · right
    rw [← show after.worker.claims.windows.keys = worker.claims.windows.keys from hstamped.keys]
      at hshard
    obtain ⟨w, hw⟩ := Dict.mem_keys_iff.mp hshard
    obtain ⟨hsame, hagrees⟩ := hmember.steady.windows shard w hw
    exact ⟨w, hsame, hagrees⟩
  · exact .inl (hstamped.foreign shard hshard)

theorem step (h : f.Sound env) (henv : env.NoCallFails) (hdigest : Function.Injective env.digest)
    {action : FleetAction} (hadmits : f.Admits env place action) :
    (f.step env place action).Sound env := by
  have hlive := hadmits.inTime
  have hended : ∀ {P : AggregatorWorker → Prop} (worker : AggregatorWorker),
      (none : Option AggregatorWorker) = some worker → P worker := fun _ hnone => by cases hnone
  unfold Fleet.step at hlive ⊢
  cases hplace : f.members place with
  | none =>
    rw [hplace] at hlive
    cases action with
    | perform operation => exact h
    | stop => exact h
    | crash => exact h
    | boot launch =>
      have hacting := onAssigned_acting env launch.worker.claims.leaseOwner launch.partitions
        ⟨f.shared, launch.worker⟩ rfl
      have hothers : ∀ other ≠ place, ∀ worker, f.members other = some worker →
          worker.claims.leaseOwner ≠ launch.worker.claims.leaseOwner :=
        fun other _ worker => hadmits.token launch rfl other worker
      dsimp only at hlive ⊢
      cases hrun : onAssigned env launch.partitions ⟨f.shared, launch.worker⟩ with
      | ok a world =>
        rw [hrun] at hacting hlive
        obtain ⟨hown, htacit⟩ := hacting
        have hfaithful := h.tacit hdigest htacit
        refine h.update hdigest hfaithful ?_ hothers htacit.toSpares hlive
          fun _ _ _ _ shard _ => htacit.foreign shard
        rintro _ ⟨⟩
        have hhot : 0 ≤ launch.config.hotThreshold := hadmits.admitted
        exact ⟨hown, member_launch hhot hrun hfaithful⟩
      | error e world =>
        -- The process has ended, and what it leaves are leases.
        rw [hrun] at hacting hlive
        obtain ⟨-, htacit⟩ := hacting
        have hsame : Function.update f.members place none = f.members := by
          rw [← hplace, Function.update_eq_self]
        have hnext := h.update hdigest (h.tacit hdigest htacit) hended hothers htacit.toSpares hlive
          fun _ _ _ _ shard _ => htacit.foreign shard
        rw [hsame] at hnext
        exact hnext
  | some worker =>
    rw [hplace] at hlive
    have hmember := h.member place worker hplace
    have hothers : ∀ other ≠ place, ∀ worker', f.members other = some worker' →
        worker'.claims.leaseOwner ≠ worker.claims.leaseOwner := fun other hne worker' hother htoken =>
      hne (h.tokens other place worker' worker hother hplace htoken)
    cases action with
    | boot launch => exact h
    | crash =>
      have htacit : Tacit env worker.claims.leaseOwner f.shared f.shared := refl _
      exact h.update hdigest h.faithful hended hothers htacit.toSpares hlive
        fun _ _ _ _ shard _ => htacit.foreign shard
    | stop =>
      obtain ⟨-, htacit⟩ := release_acting env worker.claims.leaseOwner ⟨f.shared, worker⟩ rfl
      exact h.update hdigest (h.tacit hdigest htacit) hended hothers htacit.toSpares hlive
        fun _ _ _ _ shard _ => htacit.foreign shard
    | perform operation =>
      obtain ⟨hstamped, hnext⟩ := hmember.perform henv hdigest hadmits.routed
        hadmits.admitted
      refine h.update hdigest (h.performed hdigest hstamped hnext) ?_ hothers
        hstamped.renews.toSpares hlive fun other hne worker' hother shard hshard => ?_
      · rintro _ ⟨⟩
        exact ⟨hstamped.owner, hnext⟩
      · refine hstamped.foreign shard fun hshard' => ?_
        exact hothers other hne worker' hother
          ((h.member other worker' hother).token_eq hmember hshard hshard')

/-- Nothing is taken from the log. -/
theorem log_step (h : f.Sound env) (henv : env.NoCallFails) (hdigest : Function.Injective env.digest)
    {place : ℕ} {action : FleetAction} (hadmits : f.Admits env place action) :
    ∃ records, (f.step env place action).shared.hotIp.log = f.shared.hotIp.log ++ records := by
  have hsame : ∀ {owner : String} {t : Shared}, Tacit env owner f.shared t →
      ∃ records, t.hotIp.log = f.shared.hotIp.log ++ records := fun htacit =>
    ⟨[], by rw [htacit.hotIp, List.append_nil]⟩
  unfold Fleet.step
  cases hplace : f.members place with
  | none =>
    cases action with
    | boot launch =>
      obtain ⟨-, htacit⟩ := onAssigned_acting env launch.worker.claims.leaseOwner launch.partitions
        ⟨f.shared, launch.worker⟩ rfl
      dsimp only
      cases hrun : onAssigned env launch.partitions ⟨f.shared, launch.worker⟩ with
      | ok a world =>
        rw [hrun] at htacit
        exact hsame htacit
      | error e world =>
        rw [hrun] at htacit
        exact hsame htacit
    | perform operation => exact ⟨[], (List.append_nil _).symm⟩
    | stop => exact ⟨[], (List.append_nil _).symm⟩
    | crash => exact ⟨[], (List.append_nil _).symm⟩
  | some worker =>
    cases action with
    | boot launch => exact ⟨[], (List.append_nil _).symm⟩
    | crash => exact ⟨[], (List.append_nil _).symm⟩
    | stop => exact hsame (release_acting env worker.claims.leaseOwner ⟨f.shared, worker⟩ rfl).2
    | perform operation =>
      obtain ⟨hstamped, -⟩ := (h.member place worker hplace).perform henv hdigest
        hadmits.routed hadmits.admitted
      obtain ⟨records, hlog, -⟩ := hstamped.grows.log
      exact ⟨records, hlog⟩

end Fleet.Sound

theorem Fleet.Reached.sound {f : Fleet} (h : Fleet.Reached env f) (henv : env.NoCallFails)
    (hdigest : Function.Injective env.digest) : f.Sound env := by
  induction h with
  | start shared hlog hstore =>
    refine ⟨faithful_start hlog hstore, fun place worker hnone => ?_,
      fun place other worker worker' hnone => ?_⟩
    · cases hnone
    · cases hnone
  | step hf hadmits ih => exact ih.step henv hdigest hadmits

/-- An event of a shard is about an IP that the shard owns. -/
theorem Faithful.event_owner (h : Faithful env s) {shard : ℕ} {event : HotIpEvent}
    (hevent : event ∈ shardEvents env shard s.hotIp.log) : ownerOf env event.ip = shard := by
  obtain ⟨record, hrecord, hread⟩ := List.mem_filterMap.mp hevent
  obtain ⟨ip, edge, sequence, config, now, eventId, -, -, henc⟩ := h.written record hrecord
  obtain ⟨-, -, attributes, -, hdecode⟩ := encodeTransition_ok henc
  unfold recordOf at hread
  rw [hdecode] at hread
  dsimp only at hread
  split_ifs at hread with hshard
  cases hread
  exact shardAgentId_inj hshard

/-- **One log for all aggregators.** In every run of any number of aggregator processes over one store
and one hot-ip log, with processes started, stopped and lost between operations in any order, let

* the store hold no HOT IP at the start, and the log be empty;
* every process start under a token that no running process has, and no lease of a running process
  lapse while another one acts;
* every message arrive in the partition of its key;
* no configuration have a negative `hot_threshold`;
* no store or bus call fail.

Then no two processes have a window of the same shard; each window has the HOT set that the store has
for its shard; the shard's events in the log replay to it from nothing, they alternate for each IP,
beginning with an addition, and are about IPs that the shard owns. -/
theorem fleet_log_is_store (henv : env.NoCallFails) (hdigest : Function.Injective env.digest)
    {f : Fleet} (hf : Fleet.Reached env f) :
    (∀ place other worker worker' shard, f.members place = some worker →
      f.members other = some worker' → shard ∈ worker.claims.windows.keys →
      shard ∈ worker'.claims.windows.keys → place = other) ∧
    (∀ place worker shard w, f.members place = some worker →
      worker.claims.windows.get? shard = some w →
      w.hotIps = (f.shared.store.load shard).hotIps) ∧
    ∀ shard,
      replay ∅ (shardEvents env shard f.shared.hotIp.log) = (f.shared.store.load shard).hotIps ∧
      (∀ event ∈ shardEvents env shard f.shared.hotIp.log, ownerOf env event.ip = shard) ∧
      ∀ ip, (typesOf ip (shardEvents env shard f.shared.hotIp.log)).IsChain (· ≠ ·) ∧
        ∀ type ∈ (typesOf ip (shardEvents env shard f.shared.hotIp.log)).head?, type = .added := by
  have hsound := hf.sound henv hdigest
  refine ⟨?_, ?_, fun shard => ⟨hsound.faithful.replays shard, fun _ => hsound.faithful.event_owner,
    fun ip => ?_⟩⟩
  · intro place other worker worker' shard hplace hother hshard hshard'
    exact hsound.tokens place other worker worker' hplace hother
      ((hsound.member place worker hplace).token_eq (hsound.member other worker' hother) hshard
        hshard')
  · intro place worker shard w hplace hw
    obtain ⟨rfl, hagrees⟩ := (hsound.member place worker hplace).steady.windows shard w hw
    exact hagrees.store.symm
  · have halternates := hsound.faithful.alternates shard ip
    exact ⟨halternates.isChain, fun type htype => (halternates.head? type htype).mpr rfl⟩

/-- A process that claims the shard 0. -/
def sampleLaunch : Launch where
  config := Ingest.defaultConfig
  memberId := "member"
  instanceId := "instance"
  leaseTtlS := 30
  maxTrackedIps := 1000
  reevaluationBatch := 1000
  partitions := {0}

/-- An IP of the shard 0, `0.0.0.102`. -/
def sampleIp : Address := ⟨.ipv4, 102, by decide⟩

/-- A place has the worker of a world, and the other places are as they were. -/
structure Fleet.Becomes (f : Fleet) (place : ℕ) (world : World) (next : Fleet) : Prop where
  shared : next.shared = world.shared
  worker : next.members place = some world.worker
  others : ∀ other ≠ place, next.members other = f.members other

theorem Fleet.becomes_boot {f : Fleet} {place : ℕ} {launch : Launch} {world : World}
    (hplace : f.members place = none)
    (h : onAssigned env launch.partitions ⟨f.shared, launch.worker⟩ = .ok ⟨⟩ world) :
    f.Becomes place world (f.step env place (.boot launch)) := by
  unfold Fleet.step
  rw [hplace]
  dsimp only
  rw [h]
  exact ⟨rfl, Function.update_self _ _ _, fun other hne => Function.update_of_ne hne _ _⟩

theorem Fleet.becomes_perform {f : Fleet} {place : ℕ} {worker : AggregatorWorker}
    (hplace : f.members place = some worker) {operation : Operation} {world : World}
    (h : Program.after (operation.program env ⟨f.shared, worker⟩) = world) :
    f.Becomes place world (f.step env place (.perform operation)) := by
  unfold Fleet.step
  rw [hplace, ← h]
  exact ⟨rfl, Function.update_self _ _ _, fun other hne => Function.update_of_ne hne _ _⟩

/-- Where no process runs, one may start. -/
theorem Fleet.admits_alone {f : Fleet} {place : ℕ} {action : FleetAction}
    (hrouted : action.Routed) (hadmitted : action.Admitted fun config => 0 ≤ config.hotThreshold)
    (halone : ∀ other ≠ place, f.members other = none)
    (hboot : ∀ launch, action = .boot launch → f.members place = none) :
    f.Admits env place action := by
  refine ⟨hrouted, hadmitted, fun launch hlaunch other worker hother => ?_,
    fun other hne worker hother => ?_⟩
  · by_cases hplace : other = place
    · rw [hplace, hboot launch hlaunch] at hother
      cases hother
    · rw [halone other hplace] at hother
      cases hother
  · rw [halone other hne] at hother
    cases hother

/-- The process has claimed its shard, and has announced the IP. -/
theorem exists_announced : ∃ f worker w event, Fleet.Reached sampleEnv f ∧
    f.members 0 = some worker ∧ worker.claims.windows.get? 0 = some w ∧
    shardEvents sampleEnv 0 f.shared.hotIp.log = [event] ∧ event.type = .added ∧
    event.ip = sampleIp ∧ ∀ shard ≠ 0, shardEvents sampleEnv shard f.shared.hotIp.log = [] := by
  have henv := orderly_sampleEnv
  obtain ⟨message, eventId, hpartition, hoffset, hdecode⟩ := exists_delivery
    (Codec.libraryWith none (by simp)) rfl (fun _ => 0) (fun _ => .returns)
    (show datetimeRange 0 = true by decide) (show (1 : ℤ) ≤ 10 ∧ (10 : ℤ) ≤ 3600 by decide)
    ⟨sampleIp, 1000⟩ (by decide) 0 0
  obtain ⟨w, w', change, hmake, hobserve, hcold, hdue⟩ : ∃ w w' change,
      ShardWindow.make 0 Ingest.defaultConfig 0 [] 0 1000 = .ok w ∧
      w.observe sampleIp (bucketStart 0 w.config.bucketSeconds) (1000 : ℕ) 0 = .ok (change, w') ∧
      w'.state sampleIp = .cold ∧ w'.total sampleIp = 1000 :=
    ⟨_, _, _, rfl, rfl, rfl, rfl⟩
  rw [← Finset.toList_empty] at hmake
  obtain ⟨s, hassigned, hready, hkeys⟩ := exists_ready (fun _ => 0) henv hmake
  obtain ⟨t, v, event, ht, hv, hevents, htype, hip, -⟩ := hready.promotes henv hpartition hoffset
    hdecode rfl hobserve hcold (by rw [hdue]; decide)
  have hrouted : message.Routed := by
    intro key hkey
    have hsame := Option.some.inj ((key_of_decodeObservation hdecode).symm.trans hkey)
    rw [← hsame, hpartition]
    rfl
  -- The process starts, and handles the message.
  have hstart : Fleet.Reached sampleEnv (Fleet.start (sharedWith ∅ 0)) := by
    refine .start _ rfl fun shard => ?_
    unfold sharedWith ShardStateStore.load
    dsimp only
    rw [Dict.get?_set]
    split_ifs <;> rfl
  have hstarts : (Fleet.start (sharedWith ∅ 0)).Admits sampleEnv 0 (.boot sampleLaunch) :=
    Fleet.admits_alone trivial (by decide : 0 ≤ Ingest.defaultConfig.hotThreshold)
      (fun _ _ => rfl) fun _ _ => rfl
  have hboot := hstart.step hstarts
  have hbooted : (Fleet.start (sharedWith ∅ 0)).Becomes 0 s
      ((Fleet.start (sharedWith ∅ 0)).step sampleEnv 0 (.boot sampleLaunch)) :=
    Fleet.becomes_boot rfl hassigned
  generalize (Fleet.start (sharedWith ∅ 0)).step sampleEnv 0 (.boot sampleLaunch) = f at hboot hbooted
  have hafter : Program.after ((Operation.handle message).program sampleEnv ⟨f.shared, s.worker⟩) =
      t := by
    rw [hbooted.shared]
    exact (after_handle _ _).trans (congrArg Program.after ht)
  have hhandles : f.Admits sampleEnv 0 (.perform (.handle message)) :=
    Fleet.admits_alone hrouted trivial (fun other hne => hbooted.others other hne) nofun
  have hhandled := hboot.step hhandles
  have hperformed := Fleet.becomes_perform hbooted.worker hafter
  refine ⟨_, t.worker, v, event, hhandled, hperformed.worker, hv, ?_, htype, hip,
    fun shard hshard => ?_⟩
  · rw [hperformed.shared]
    exact hevents
  -- What is done for the shard is nothing of another's own.
  · have hdigest : Function.Injective sampleEnv.digest := interpreterEnv_digest_injective _ _
    have hmember := (hboot.sound henv.noCallFails hdigest).member 0 s.worker hbooted.worker
    obtain ⟨hstamped, -⟩ := hmember.perform henv.noCallFails hdigest
      (show (Operation.handle message).Routed from hrouted) trivial
    rw [hafter] at hstamped
    have hempty : f.shared.hotIp.log = [] := by
      rw [hbooted.shared, hready.hotIp]
    have hforeign := hstamped.foreign shard fun hmem => by
      rw [show s.worker.claims.windows.keys = [0] from hkeys] at hmem
      exact hshard (List.mem_singleton.mp hmem)
    rw [hperformed.shared]
    exact hforeign.shardEvents_eq.trans (congrArg (shardEvents sampleEnv shard) hempty)

/-- A process that has claimed a shard, and has promoted an IP. -/
theorem fleet_log_is_store_sample : ∃ f worker w, Fleet.Reached sampleEnv f ∧
    f.members 0 = some worker ∧ worker.claims.windows.get? 0 = some w ∧ sampleIp ∈ w.hotIps := by
  obtain ⟨f, worker, w, event, hf, hworker, hw, hevents, htype, hip, -⟩ := exists_announced
  have henv : sampleEnv.NoCallFails := orderly_sampleEnv.noCallFails
  obtain ⟨-, hwindows, hshards⟩ :=
    fleet_log_is_store henv (interpreterEnv_digest_injective _ _) hf
  refine ⟨f, worker, w, hf, hworker, hw, ?_⟩
  rw [hwindows 0 worker 0 w hworker hw, ← (hshards 0).1, hevents]
  unfold replay
  rw [List.foldl_cons, List.foldl_nil, htype, hip]
  exact Finset.mem_insert_self _ _

end Hammertime.Aggregator
