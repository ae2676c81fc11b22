import Hammertime.Aggregator.Runs

/-!
# What a claim leaves

`on_assigned` of a member that holds nothing yet: every shard it claims gets a window that tracks
exactly the HOT IPs the store holds for the shard, takes its sequence counter from the store, and
warms up for one window from the reading of the clock at its construction.
-/

namespace Hammertime.Aggregator

open Lib World

variable {env : Env}

/-- A window as its claim left it, with the store and the log as they were then. -/
structure Opened (env : Env) (config : DetectionConfig) (scope : Scope) : Prop where
  nextSequence :
    scope.window.nextSequence = (scope.shared.store.load scope.window.shard).nextSequence
  /-- The claim read the clock before now. -/
  isNew : ∃ tick < scope.shared.tick, ShardWindow.IsNew config (env.now tick)
    (scope.shared.store.load scope.window.shard).hotIps scope.window

theorem opened_stable (config : DetectionConfig) : Stable env (Opened env config) := by
  rintro s t w hf ⟨hseq, tick, htick, hnew⟩
  have hload := hf.load
  refine ⟨?_, tick, htick.trans_le hf.tick, ?_⟩
  · rw [hseq]
    exact congrArg ShardState.nextSequence hload.symm
  · show ShardWindow.IsNew config (env.now tick) (t.store.load w.shard).hotIps w
    rw [hload]
    exact hnew

/-- What a claim keeps and what it has opened so far. -/
structure Claiming (env : Env) (s₀ s : World) : Prop where
  config : s.worker.config = s₀.worker.config
  claimsConfig : s.worker.claims.config = s₀.worker.claims.config
  batch : s.worker.reevaluationBatch = s₀.worker.reevaluationBatch
  stopping : s.worker.stopping = s₀.worker.stopping
  foreign : ∀ shard, Foreign env shard s₀.shared s.shared
  hotIp : s.shared.hotIp = s₀.shared.hotIp
  each : Each (Opened env s₀.worker.claims.config) s

/-- A program of the store that changes nothing but leases. -/
theorem Claiming.acquireLease {s₀ s t : World} {shard : ℕ} {owner : String} {ttlSeconds : ℚ}
    {answer : Option String} (h : Claiming env s₀ s)
    (hr : World.outside (Shared.acquireLease env shard owner ttlSeconds) s = .ok answer t) :
    Claiming env s₀ t := by
  have ha := (acquireLease_aside env shard owner ttlSeconds).of_ok hr
  have hw := ha.worker
  refine ⟨by rw [hw]; exact h.config, by rw [hw]; exact h.claimsConfig, by rw [hw]; exact h.batch,
    by rw [hw]; exact h.stopping, fun shard => (h.foreign shard).trans (ha.foreign shard), ?_,
    h.each.of_foreign (opened_stable _) (by rw [hw]) ha.foreign⟩
  rw [← h.hotIp]
  have hlog : Program.Within (fun s t : World => t.shared.hotIp = s.shared.hotIp)
      (World.outside (Shared.acquireLease env shard owner ttlSeconds)) :=
    Program.Within.zoom (Shared.call_within (R := fun s t => t.hotIp = s.hotIp)
      (fun _ _ _ h h' => h'.trans h) (fun _ => rfl)
      fun _ _ _ he => (Shared.acquireLease_effect he).1) fun _ _ h => h
  exact hlog.of_ok hr

/-- The window of one shard is loaded and built. -/
theorem openWindow_ok {shard : ℕ} {s t : World} (h : openWindow env shard s = .ok ⟨⟩ t) :
    ∃ w, s.shared.Later t.shared ∧ w.shard = shard ∧
      Opened env s.worker.claims.config ⟨t.shared, w⟩ ∧
      t.worker = { s.worker with
        claims := { s.worker.claims with
          leased := insert shard s.worker.claims.leased
          windows := s.worker.claims.windows.set shard w } } := by
  obtain ⟨⟨⟩, s₁, hlease, h⟩ := Program.bind_ok.mp h
  cases hlease
  obtain ⟨state, s₂, hload, h⟩ := Program.bind_ok.mp h
  obtain ⟨u, hu, rfl⟩ := Program.zoom_ok.mp hload
  obtain ⟨rfl, rfl⟩ := Shared.call_ok rfl hu
  obtain ⟨now, s₃, hclock, h⟩ := Program.bind_ok.mp h
  cases hclock
  obtain ⟨ips, s₄, hiter, h⟩ := Program.bind_ok.mp h
  cases hiter
  unfold World.modifyClaims at h
  split at h
  · next claims hmake =>
    cases h
    dsimp only at hmake
    obtain ⟨w, hw, rfl⟩ := Program.except_map_ok.mp hmake
    obtain ⟨hshard, hseq, hnew⟩ := ShardWindow.make_ok (env.mem_arrange _ _) hw
    refine ⟨w, ⟨?_, rfl, rfl, rfl⟩, hshard, ⟨?_, s.shared.tick + 1, ?_, ?_⟩, rfl⟩
    · exact Nat.le_add_right _ 3
    · rw [hseq, hshard]
      rfl
    · show s.shared.tick + 1 < s.shared.tick + 3
      omega
    · rw [hshard]
      exact hnew
  · cases h

theorem claimLoop_ok {s₀ s t : World} {shards claimed : List ℕ} (hs : Claiming env s₀ s)
    (h : claimLoop env shards claimed s = .ok ⟨⟩ t) : Claiming env s₀ t := by
  induction shards generalizing s claimed with
  | nil =>
    cases h
    exact hs
  | cons shard rest ih =>
    unfold claimLoop at h
    obtain ⟨s', s'', hget, h⟩ := Program.bind_ok.mp h
    cases hget
    split_ifs at h with hheld
    · exact ih hs h
    · obtain ⟨answer, s₁, hlease, h⟩ := Program.bind_ok.mp h
      have hs₁ := hs.acquireLease hlease
      cases answer with
      | some owner =>
        -- A refusal rolls back and raises.
        obtain ⟨⟨⟩, s₂, -, h⟩ := Program.bind_ok.mp h
        split_ifs at h <;> cases h
      | none =>
        obtain ⟨⟨⟩, s₂, hopen, h⟩ := Program.bind_ok.mp h
        obtain ⟨w, hlater, hshard, hw, hworker⟩ := openWindow_ok hopen
        refine ih ⟨by rw [hworker]; exact hs₁.config, by rw [hworker]; exact hs₁.claimsConfig,
          by rw [hworker]; exact hs₁.batch, by rw [hworker]; exact hs₁.stopping,
          fun shard => (hs₁.foreign shard).trans (Foreign.of_later hlater),
          hlater.hotIp.trans hs₁.hotIp, ?_⟩ h
        intro other w' hw'
        rw [hworker] at hw'
        have hget : (s₁.worker.claims.windows.set shard w).get? other = some w' := hw'
        rw [Dict.get?_set] at hget
        split_ifs at hget with ho
        · cases hget
          refine ⟨hshard.trans ho, ?_⟩
          rw [← hs₁.claimsConfig]
          exact hw
        · obtain ⟨hs', hi⟩ := hs₁.each other w' hget
          exact ⟨hs', opened_stable _ _ _ _ (Foreign.of_later hlater) hi⟩

/-- A member that held no window has, once its claim returned, opened one for each shard it holds. -/
theorem onAssigned_ok {partitions : Finset ℕ} {s t : World}
    (hempty : s.worker.claims.windows = .empty) (h : onAssigned env partitions s = .ok ⟨⟩ t) :
    Claiming env s t := by
  unfold onAssigned at h
  split_ifs at h
  · cases h
  · refine claimLoop_ok ⟨rfl, rfl, rfl, rfl, fun _ => Foreign.refl _ _ _, rfl, ?_⟩ h
    intro shard w hw
    rw [hempty] at hw
    cases hw

/-- A new worker whose claim of the shards returned: where a run under one claim starts. -/
structure Started (env : Env) (shared : Shared) (config : DetectionConfig) (batch : ℤ)
    (s : World) : Prop where
  claim : ∃ memberId instanceId leaseTtlS maxTrackedIps partitions,
    onAssigned env partitions
      ⟨shared, .make config memberId instanceId leaseTtlS maxTrackedIps batch⟩ = .ok ⟨⟩ s

theorem Started.claiming {shared : Shared} {config : DetectionConfig} {batch : ℤ} {s : World}
    (h : Started env shared config batch s) :
    ∃ s₀ : World, s₀.shared = shared ∧ s₀.worker.config = config ∧
      s₀.worker.claims.config = config ∧ s₀.worker.reevaluationBatch = batch ∧
      s₀.worker.stopping = false ∧ Claiming env s₀ s := by
  obtain ⟨memberId, instanceId, leaseTtlS, maxTrackedIps, partitions, h⟩ := h.claim
  exact ⟨_, rfl, rfl, rfl, rfl, rfl, onAssigned_ok rfl h⟩

/-- A run starts steady when the invariant holds of every window as its claim left it. -/
theorem Started.steady {shared : Shared} {config : DetectionConfig} {batch : ℤ} {s : World}
    (h : Started env shared config batch s) {ok : DetectionConfig → Prop} (hok : ok config)
    {I : DetectionConfig → Scope → Prop}
    (hI : ∀ w, s.worker.claims.windows.get? w.shard = some w → Opened env config ⟨s.shared, w⟩ →
      I config ⟨s.shared, w⟩) :
    Steady ok batch I s := by
  obtain ⟨s₀, -, hc, hcc, hb, hst, hclaim⟩ := h.claiming
  have hconfig : s.worker.config = config := hclaim.config.trans hc
  refine ⟨by rw [hconfig]; exact hok, hclaim.batch.trans hb, hclaim.stopping.trans hst, ?_⟩
  intro shard w hw
  obtain ⟨hshard, hopened⟩ := hclaim.each shard w hw
  rw [hcc] at hopened
  rw [hconfig]
  subst hshard
  exact ⟨rfl, hI w hw hopened⟩

/-! ### A claim of a free shard -/

/-- A free lease is taken, and nothing else changes in the store. -/
theorem acquireLease_free {s : Shared} {shard : ℕ} (owner : String) {ttlSeconds : ℚ}
    (hcall : env.outcome s.tick = .returns) (httl : 0 < ttlSeconds)
    (hfree : s.store.leases.get? shard = none) :
    ∃ store : ShardStateStore, (∀ other, store.load other = s.store.load other) ∧
      Shared.acquireLease env shard owner ttlSeconds s =
        .ok none { s.advance with store := store } := by
  have hholder : s.store.liveHolder shard (env.now s.tick) = (none, s.store) := by
    unfold ShardStateStore.liveHolder
    rw [hfree]
  have htake : s.store.acquireLease shard owner ttlSeconds (env.now s.tick) =
      .ok (none, { s.store with
        leases := s.store.leases.set shard (owner, env.now s.tick + ttlSeconds) }) := by
    unfold ShardStateStore.acquireLease
    rw [if_neg (not_le.mpr httl), hholder]
    rfl
  refine ⟨{ s.store with
    leases := s.store.leases.set shard (owner, env.now s.tick + ttlSeconds) },
    fun _ => rfl, Shared.call_returns hcall ?_⟩
  have hbind := congrArg (fun x => x >>= fun p : Option String × ShardStateStore =>
    (pure (p.1, { s.advance with store := p.2 }) : Except Failure (Option String × Shared))) htake
  exact hbind

theorem modifyClaims_ok {f : ShardClaims → Except Failure ShardClaims} {s : World}
    {claims : ShardClaims} (h : f s.worker.claims = .ok claims) :
    World.modifyClaims f s = .ok ⟨⟩ { s with worker := { s.worker with claims := claims } } := by
  unfold World.modifyClaims
  rw [h]

/-- A window is loaded and built when the load returns. -/
theorem openWindow_eq {s : World} {shard : ℕ} {w : ShardWindow}
    (hcall : env.outcome s.shared.tick = .returns)
    (hmake : ShardWindow.make shard s.worker.claims.config (env.now (s.shared.tick + 1))
      (env.arrange (s.shared.tick + 2) (s.shared.store.load shard).hotIps)
      (s.shared.store.load shard).nextSequence s.worker.claims.maxTrackedIps = .ok w) :
    openWindow env shard s = .ok ⟨⟩
      ⟨{ s.shared with tick := s.shared.tick + 3 },
        { s.worker with
          claims := { s.worker.claims with
            leased := insert shard s.worker.claims.leased
            windows := s.worker.claims.windows.set shard w } }⟩ := by
  have hload : Shared.load env shard s.shared =
      .ok (s.shared.store.load shard) s.shared.advance := Shared.call_returns hcall rfl
  refine Program.bind_ok.mpr ⟨⟨⟩, _, rfl, ?_⟩
  refine Program.bind_ok.mpr ⟨_, _, Program.zoom_ok.mpr ⟨_, hload, rfl⟩, ?_⟩
  refine Program.bind_ok.mpr ⟨_, _, rfl, ?_⟩
  refine Program.bind_ok.mpr ⟨_, _, rfl, ?_⟩
  exact modifyClaims_ok (congrArg (fun x => x >>= fun window : ShardWindow =>
    (pure { s.worker.claims with
      leased := insert shard s.worker.claims.leased
      windows := s.worker.claims.windows.set shard window } : Except Failure ShardClaims)) hmake)

/-- A worker with one more window, and what surrounds it, once it has claimed a free shard. -/
structure ClaimedFree (shared : Shared) (worker : AggregatorWorker) (shard : ℕ) (w : ShardWindow)
    (s : World) : Prop where
  tick : s.shared.tick = shared.tick + 4
  load : ∀ other, s.shared.store.load other = shared.store.load other
  hotIp : s.shared.hotIp = shared.hotIp
  reconciliation : s.shared.reconciliation = shared.reconciliation
  worker : s.worker =
    { worker with
      claims := { worker.claims with
        leased := insert shard worker.claims.leased
        windows := worker.claims.windows.set shard w } }

/-- A new worker claims a shard that nobody holds: its window is built from what the store holds. -/
theorem onAssigned_free (shared : Shared) (worker : AggregatorWorker) {shard : ℕ}
    (hlease : env.outcome shared.tick = .returns) (hload : env.outcome (shared.tick + 1) = .returns)
    (hfree : shared.store.leases.get? shard = none) (hnone : worker.claims.leased = ∅)
    (httl : 0 < worker.claims.leaseTtlS) {w : ShardWindow}
    (hmake : ShardWindow.make shard worker.claims.config (env.now (shared.tick + 2))
      (env.arrange (shared.tick + 3) (shared.store.load shard).hotIps)
      (shared.store.load shard).nextSequence worker.claims.maxTrackedIps = .ok w) :
    ∃ s, onAssigned env {shard} ⟨shared, worker⟩ = .ok ⟨⟩ s ∧
      ClaimedFree shared worker shard w s := by
  obtain ⟨store, hstore, hacquire⟩ := acquireLease_free worker.claims.leaseOwner hlease httl hfree
  refine ⟨⟨{ shared with tick := shared.tick + 4, store := store }, _⟩, ?_, rfl, hstore, rfl, rfl,
    rfl⟩
  unfold onAssigned
  rw [if_neg (Finset.singleton_ne_empty shard), Finset.sort_singleton]
  unfold claimLoop
  refine Program.bind_ok.mpr ⟨_, _, rfl, ?_⟩
  dsimp only
  rw [if_neg (by simp [hnone])]
  refine Program.bind_ok.mpr ⟨none, _, Program.zoom_ok.mpr ⟨_, hacquire, rfl⟩, ?_⟩
  refine Program.bind_ok.mpr ⟨⟨⟩, _, openWindow_eq (w := w) hload ?_, rfl⟩
  show ShardWindow.make shard worker.claims.config (env.now (shared.tick + 2))
    (env.arrange (shared.tick + 3) (store.load shard).hotIps) (store.load shard).nextSequence
    worker.claims.maxTrackedIps = .ok w
  rw [hstore]
  exact hmake

/-- A run can start at every shard that nobody holds, under every configuration that the schema
admits. -/
theorem exists_started (henv : env.NoCallFails) {config : DetectionConfig}
    (hconfig : config.SchemaValid) (batch : ℤ) (shared : Shared) {shard : ℕ}
    (hfree : shared.store.leases.get? shard = none) :
    ∃ s w, Started env shared config batch s ∧ s.worker.claims.windows.get? shard = some w := by
  obtain ⟨w, hmake⟩ := ShardWindow.exists_make hconfig shard
    (shared.store.load shard).nextSequence (env.now (shared.tick + 2))
    (env.arrange (shared.tick + 3) (shared.store.load shard).hotIps)
    (show (0 : ℤ) < 1000 by norm_num)
  obtain ⟨s, hassigned, hclaimed⟩ := onAssigned_free shared
    (.make config "member" "instance" 30 1000 batch) (henv _) (henv _) hfree rfl
    (show (0 : ℚ) < 30 by norm_num) hmake
  refine ⟨s, w, ⟨_, _, _, _, _, hassigned⟩, ?_⟩
  rw [hclaimed.worker]
  exact Dict.get?_set_self _ _ _

end Hammertime.Aggregator
