import Hammertime.Aggregator.Claim
import Hammertime.Aggregator.Losses

/-!
# Changes of the configuration

`AggregatorWorker.apply_config` gives every claimed window the new configuration, then evaluates every
tracked IP, and gives the configuration to the worker and to its claims at the very end. Nothing takes
a step back. A pass that raises leaves the windows that it reached with the new configuration and the
worker with the old one, whatever `ConfigPoller.run` says of the version that stays in force;
`config_whole` says that this is the only way for the three to differ.
-/

namespace Hammertime.Aggregator

open Lib World

variable {env : Env} {α : Type}

/-! ### The calls of a worker -/

/-- `release`: the lease of every held shard is dropped; the windows stay. -/
def release (env : Env) : Program Failure World PUnit := do
  let s ← get
  modifyClaims fun claims => .ok { claims with leased := ∅ }
  s.worker.claims.leased.sort.forM fun shard =>
    outside (Shared.releaseLease env shard s.worker.claims.leaseOwner)

/-- What can happen to a worker. `stop()` is its flag, `commit_handled` and `release`. -/
inductive WorkerCall where
  | onAssigned (partitions : Finset ℕ)
  | operation (operation : Operation)
  /-- `commit_handled`, whose flush and acknowledgement return or do not. -/
  | commitHandled (returns : Bool)
  | setStopping
  | release

/-- The program of a call. -/
def WorkerCall.program (env : Env) : WorkerCall → Program Failure World PUnit
  | .onAssigned partitions => Aggregator.onAssigned env partitions
  | .operation op => op.program env
  | .commitHandled true => modifyClaims fun claims => .ok { claims with handled := [] }
  | .commitHandled false => throw .unavailable
  | .setStopping => modify fun s => { s with worker := { s.worker with stopping := true } }
  | .release => Aggregator.release env

/-- The worker after a call; one that raises leaves what it has written. -/
def World.called (env : Env) (s : World) (call : WorkerCall) : World :=
  Program.after (call.program env s)

/-! ### One configuration -/

/-- The worker, its claims and every claimed window have the configuration. -/
structure World.At (config : DetectionConfig) (s : World) : Prop where
  worker : s.worker.config = config
  claims : s.worker.claims.config = config
  windows : ∀ shard w, s.worker.claims.windows.get? shard = some w → w.config = config

/-- What a pass that raises is to leave: the configuration of before everywhere, and in every counter
the live buckets of before. -/
structure World.Restored (s t : World) : Prop where
  whole : t.At s.worker.config
  shards : t.worker.claims.windows.keys = s.worker.claims.windows.keys
  liveBuckets : ∀ shard w', t.worker.claims.windows.get? shard = some w' →
    ∃ w, s.worker.claims.windows.get? shard = some w ∧ ∀ ip now,
      (w'.entries.get? ip).map (fun entry => entry.counter.liveBuckets now) =
        (w.entries.get? ip).map fun entry => entry.counter.liveBuckets now

/-- A pass that raises was given the configuration in force. -/
def World.Whole (env : Env) (s : World) : WorkerCall → Prop
  | .operation (.applyConfig config) =>
    (∃ t, applyConfig env config s = .ok ⟨⟩ t) ∨ config = s.worker.config
  | _ => True

/-! ### Calls that change no configuration -/

/-- The configurations are those of before; the window of a new claim has that of the claims. -/
structure World.SameConfigs (s t : World) : Prop where
  worker : t.worker.config = s.worker.config
  claims : t.worker.claims.config = s.worker.claims.config
  windows : ∀ shard w', t.worker.claims.windows.get? shard = some w' →
    w'.config = s.worker.claims.config ∨
      ∃ w, s.worker.claims.windows.get? shard = some w ∧ w'.config = w.config

namespace World.SameConfigs

variable {s t u : World}

theorem of_windows (hworker : t.worker.config = s.worker.config)
    (hclaims : t.worker.claims.config = s.worker.claims.config)
    (hwindows : t.worker.claims.windows = s.worker.claims.windows) : SameConfigs s t :=
  ⟨hworker, hclaims, fun _ w' hw' => Or.inr ⟨w', hwindows ▸ hw', rfl⟩⟩

theorem refl (s : World) : SameConfigs s s := of_windows rfl rfl rfl

theorem trans (h : SameConfigs s t) (h' : SameConfigs t u) : SameConfigs s u := by
  refine ⟨h'.worker.trans h.worker, h'.claims.trans h.claims, fun shard w'' hw'' => ?_⟩
  obtain hnew | ⟨w', hw', heq⟩ := h'.windows shard w'' hw''
  · exact Or.inl (hnew.trans h.claims)
  · rw [heq]
    exact h.windows shard w' hw'

instance : Std.Refl SameConfigs := ⟨refl⟩

instance : IsTrans World SameConfigs := ⟨fun _ _ _ => trans⟩

theorem keeps {config : DetectionConfig} (h : SameConfigs s t) (hs : s.At config) :
    t.At config := by
  refine ⟨h.worker.trans hs.worker, h.claims.trans hs.claims, fun shard w' hw' => ?_⟩
  obtain hnew | ⟨w, hw, heq⟩ := h.windows shard w' hw'
  · exact hnew.trans hs.claims
  · exact heq.trans (hs.windows shard w hw)

end World.SameConfigs

/-- The window has the configuration of before. -/
def Scope.SameConfig (s t : Scope) : Prop := t.window.config = s.window.config

instance : Std.Refl Scope.SameConfig := ⟨fun _ => rfl⟩

instance : IsTrans Scope Scope.SameConfig := ⟨fun _ _ _ h h' => Eq.trans h' h⟩

section Window

theorem scopeOutside_sameConfig (m : Program Failure Shared α) :
    Program.Within Scope.SameConfig (Scope.outside m) :=
  Program.Within.zoom (R := fun _ _ => True) (fun _ => trivial) fun _ _ _ => rfl

theorem inside_sameConfig {f : ShardWindow → Except Failure (α × ShardWindow)}
    (hf : ∀ w a w', f w = .ok (a, w') → w'.config = w.config) :
    Program.Within Scope.SameConfig (Scope.inside f) := by
  intro s
  unfold Scope.inside
  cases h : f s.window with
  | error e => exact rfl
  | ok r => exact hf s.window r.1 r.2 h

theorem settle_sameConfig (env : Env) (ip : Address) (config : DetectionConfig) :
    Program.Within Scope.SameConfig (settle env ip config) :=
  (settle_sameCounters env ip config).mono fun _ _ h => h.config

theorem countObservation_sameConfig (env : Env) (windowStart : ℤ) (entry : Observation)
    (config : DetectionConfig) :
    Program.Within Scope.SameConfig (countObservation env windowStart entry config) := by
  refine Program.Within.bind Program.Within.get fun scope => Program.Within.bind ?_ fun _ =>
    settle_sameConfig env entry.ip config
  refine Program.Within.bind (scopeOutside_sameConfig _) fun now => inside_sameConfig ?_
  intro w change w' h
  obtain ⟨c, -, ⟨-, rfl, -⟩ | ⟨c', w₁, entry', -, -, -, hframed, -⟩⟩ := ShardWindow.observe_cases h
  · rfl
  · exact hframed.config

theorem sweepWindow_sameConfig (env : Env) (config : DetectionConfig) :
    Program.Within Scope.SameConfig (sweepWindow env config) := by
  refine Program.Within.bind ?_ fun changes => Program.Within.forM changes fun change _ => ?_
  · refine Program.Within.bind (scopeOutside_sameConfig _) fun now => inside_sameConfig ?_
    intro w swept w' h
    have hw' : (w.expireDue now).2 = w' := congrArg Prod.snd (Except.ok.inj h)
    rw [← hw']
    exact (ShardWindow.expireDue_swept w now).config
  · split_ifs
    · exact settle_sameConfig env change.ip config
    · exact Program.Within.pure _

theorem warmWindow_sameConfig (env : Env) (config : DetectionConfig) :
    Program.Within Scope.SameConfig (warmWindow env config) := by
  refine Program.Within.bind ?_ fun warmed => Program.Within.bind (scopeOutside_sameConfig _)
    fun ips => Program.Within.forM ips fun ip _ => settle_sameConfig env ip config
  refine Program.Within.bind Program.Within.get fun scope => ?_
  split
  · exact Program.Within.pure _
  · refine Program.Within.bind (scopeOutside_sameConfig _) fun now => ?_
    split_ifs
    · exact Program.Within.pure _
    · refine inside_sameConfig fun w warmed w' h => ?_
      cases h
      rfl

theorem maintainWindow_sameConfig (env : Env) (config : DetectionConfig) :
    Program.Within Scope.SameConfig (maintainWindow env config) := by
  refine Program.Within.bind (sweepWindow_sameConfig env config) fun _ =>
    Program.Within.bind (warmWindow_sameConfig env config) fun _ =>
      Program.Within.bind ?_ fun _ => Program.Within.pure _
  refine Program.Within.bind (scopeOutside_sameConfig _) fun now => inside_sameConfig ?_
  intro w removed w' h
  cases h
  exact (ShardWindow.evictDue_shrinks w now).config

end Window

/-! ### The same of the worker -/

theorem outside_sameConfigs (m : Program Failure Shared α) :
    Program.Within SameConfigs (World.outside m) :=
  Program.Within.zoom (R := fun _ _ => True) (fun _ => trivial)
    fun _ _ _ => SameConfigs.of_windows rfl rfl rfl

theorem modifyClaims_sameConfigs {f : ShardClaims → Except Failure ShardClaims}
    (hconfig : ∀ claims claims', f claims = .ok claims' → claims'.config = claims.config)
    (hwindows : ∀ claims claims', f claims = .ok claims' → ∀ shard w',
      claims'.windows.get? shard = some w' → w'.config = claims.config ∨
        ∃ w, claims.windows.get? shard = some w ∧ w'.config = w.config) :
    Program.Within SameConfigs (modifyClaims f) := by
  intro s
  unfold World.modifyClaims
  cases h : f s.worker.claims with
  | error e => exact SameConfigs.refl s
  | ok claims => exact ⟨rfl, hconfig _ _ h, hwindows _ _ h⟩

theorem markHandled_sameConfigs (message : ConsumedMessage) :
    Program.Within SameConfigs (modifyClaims fun claims => claims.markHandled message) := by
  refine modifyClaims_sameConfigs (fun claims claims' h => ?_) fun claims claims' h shard w' hw' => ?_
  · unfold ShardClaims.markHandled at h
    split_ifs at h
    cases h
    rfl
  · rw [markHandled_windows h] at hw'
    exact Or.inr ⟨w', hw', rfl⟩

theorem onWindow_sameConfigs (shard : ℕ) {m : Program Failure Scope α}
    (hm : Program.Within Scope.SameConfig m) : Program.Within SameConfigs (onWindow shard m) := by
  -- The window that is written back is at its own configuration.
  have hset : ∀ (s : World) (w : ShardWindow) (scope : Scope),
      s.worker.claims.windows.get? shard = some w → scope.window.config = w.config →
      SameConfigs s (s.setWindow shard scope) := by
    intro s w scope hw hconfig
    refine ⟨rfl, rfl, fun other w' hw' => Or.inr ?_⟩
    have hw'' : (s.worker.claims.windows.set shard scope.window).get? other = some w' := hw'
    rw [Dict.get?_set] at hw''
    split_ifs at hw'' with hother
    · cases hw''
      exact ⟨w, hother ▸ hw, hconfig⟩
    · exact ⟨w', hw'', rfl⟩
  intro s
  cases h : onWindow shard m s with
  | ok a t =>
    obtain ⟨w, scope, hw, hrun, rfl⟩ := onWindow_ok.mp h
    exact hset s w scope hw (hm.of_ok hrun)
  | error e t =>
    obtain ⟨-, -, rfl⟩ | ⟨w, scope, hw, hrun, rfl⟩ := onWindow_error.mp h
    · exact SameConfigs.refl _
    · exact hset s w scope hw (hm.of_error hrun)

theorem handleObservation_sameConfigs (env : Env) (message : ConsumedMessage) (eventId : String)
    (payload : RequestObservation) (entry : Observation) :
    Program.Within SameConfigs (handleObservation env message eventId payload entry) := by
  refine Program.Within.bind (outside_sameConfigs _) fun now =>
    Program.Within.bind Program.Within.get fun s => ?_
  split
  · refine Program.Within.bind ?_ fun _ =>
      Program.Within.bind (markHandled_sameConfigs message) fun _ => Program.Within.pure _
    exact Program.Within.bind Program.Within.get fun _ =>
      onWindow_sameConfigs _ (countObservation_sameConfig env _ entry _)
  · exact Program.Within.bind (outside_sameConfigs _) fun _ =>
      Program.Within.bind (markHandled_sameConfigs message) fun _ => Program.Within.pure _

theorem handle_sameConfigs (env : Env) (message : ConsumedMessage) :
    Program.Within SameConfigs (handle env message) := by
  have mark : ∀ outcome : ObservationOutcome, Program.Within SameConfigs (do
      modifyClaims fun claims => claims.markHandled message
      pure outcome) := fun outcome =>
    Program.Within.bind (markHandled_sameConfigs message) fun _ => Program.Within.pure _
  refine Program.Within.bind Program.Within.get fun s => ?_
  dsimp only
  split_ifs
  · exact Program.Within.pure _
  · exact mark _
  · split
    · exact mark _
    · exact handleObservation_sameConfigs env message _ _ _
  · exact Program.Within.pure _

theorem runMaintenance_sameConfigs (env : Env) : Program.Within SameConfigs (runMaintenance env) := by
  refine Program.Within.bind Program.Within.get fun s => ?_
  split_ifs
  · exact Program.Within.pure _
  · refine Program.Within.bind ?_ fun _ => Program.Within.forM _ fun shard _ =>
      onWindow_sameConfigs shard (maintainWindow_sameConfig env _)
    exact (renewLeases_aside env).mono fun s t h =>
      SameConfigs.of_windows (by rw [h.worker]) (by rw [h.worker]) (by rw [h.worker])

theorem rollBack_sameConfigs (env : Env) (claimed : List ℕ) :
    Program.Within SameConfigs (rollBack env claimed) := by
  refine Program.Within.forM claimed fun shard _ => Program.Within.bind ?_ fun _ =>
    Program.Within.bind Program.Within.get fun s => outside_sameConfigs _
  refine modifyClaims_sameConfigs (fun claims claims' h => ?_) fun claims claims' h other w' hw' => ?_
  · cases h
    rfl
  · cases h
    have hw'' : (claims.windows.erase shard).get? other = some w' := hw'
    rw [Dict.get?_erase] at hw''
    split_ifs at hw''
    exact Or.inr ⟨w', hw'', rfl⟩

theorem openWindow_sameConfigs (env : Env) (shard : ℕ) :
    Program.Within SameConfigs (openWindow env shard) := by
  refine Program.Within.bind ?_ fun _ => Program.Within.bind (outside_sameConfigs _) fun state =>
    Program.Within.bind (outside_sameConfigs _) fun now =>
      Program.Within.bind (outside_sameConfigs _) fun inheritedHot => ?_
  · refine modifyClaims_sameConfigs (fun claims claims' h => ?_) fun claims claims' h other w' hw' => ?_
    · cases h
      rfl
    · cases h
      exact Or.inr ⟨w', hw', rfl⟩
  · refine modifyClaims_sameConfigs (fun claims claims' h => ?_) fun claims claims' h other w' hw' => ?_
    · obtain ⟨window, -, h⟩ := except_bind_ok.mp h
      cases h
      rfl
    · obtain ⟨window, hmake, h⟩ := except_bind_ok.mp h
      cases h
      have hw'' : (claims.windows.set shard window).get? other = some w' := hw'
      rw [Dict.get?_set] at hw''
      split_ifs at hw''
      · cases hw''
        exact Or.inl ((ShardWindow.make_ok (fun ip => List.mem_toFinset.symm) hmake).2.2.config_eq)
      · exact Or.inr ⟨w', hw'', rfl⟩

theorem claimLoop_sameConfigs (env : Env) (shards claimed : List ℕ) :
    Program.Within SameConfigs (claimLoop env shards claimed) := by
  induction shards generalizing claimed with
  | nil => exact Program.Within.pure _
  | cons shard rest ih =>
    unfold claimLoop
    refine Program.Within.bind Program.Within.get fun s => ?_
    dsimp only
    split_ifs
    · exact ih claimed
    · refine Program.Within.bind (outside_sameConfigs _) fun holder => ?_
      cases holder with
      | some owner =>
        refine Program.Within.bind (rollBack_sameConfigs env claimed) fun _ => ?_
        split_ifs
        · exact Program.Within.throw _
        · exact Program.Within.throw _
      | none => exact Program.Within.bind (openWindow_sameConfigs env shard) fun _ => ih _

theorem release_sameConfigs (env : Env) : Program.Within SameConfigs (release env) := by
  refine Program.Within.bind Program.Within.get fun s => Program.Within.bind ?_ fun _ =>
    Program.Within.forM _ fun shard _ => outside_sameConfigs _
  exact fun t => SameConfigs.of_windows rfl rfl rfl

/-- Only `apply_config` changes a configuration. -/
theorem program_sameConfigs (env : Env) {call : WorkerCall}
    (h : ∀ config, call ≠ .operation (.applyConfig config)) :
    Program.Within SameConfigs (call.program env) := by
  cases call with
  | onAssigned partitions =>
    show Program.Within SameConfigs (onAssigned env partitions)
    unfold onAssigned
    split_ifs
    · exact Program.Within.throw _
    · exact claimLoop_sameConfigs env _ []
  | operation operation =>
    cases operation with
    | handle message =>
      exact Program.Within.bind (handle_sameConfigs env message) fun _ => Program.Within.pure _
    | runMaintenance => exact runMaintenance_sameConfigs env
    | applyConfig config => exact absurd rfl (h config)
  | commitHandled returns =>
    cases returns with
    | true => exact fun s => SameConfigs.of_windows rfl rfl rfl
    | false => exact Program.Within.throw _
  | setStopping => exact fun s => SameConfigs.of_windows rfl rfl rfl
  | release => exact release_sameConfigs env

/-! ### A pass -/

/-- A loop of the pass in which the shards of `rest` are still to do, and those of `waiting` have not
adopted the configuration. -/
structure Pass (s₀ : World) (config : DetectionConfig) (waiting rest : List ℕ) (s : World) : Prop where
  kept : Kept s₀ s
  claimed : ∀ shard ∈ rest, shard ∈ s₀.worker.claims.windows.keys
  adopted : ∀ shard w, s.worker.claims.windows.get? shard = some w → shard ∉ waiting →
    w.config = config

/-- A pass that raised: the worker stands, and a window has the new configuration. -/
def HalfDone (s₀ : World) (config : DetectionConfig) (s : World) : Prop :=
  Kept s₀ s ∧ ∃ shard w, s.worker.claims.windows.get? shard = some w ∧ w.config = config

theorem Pass.onWindow {s₀ : World} {config : DetectionConfig} {m : Program Failure Scope α}
    {P : Scope → Prop} {shard : ℕ} {waiting waiting' rest : List ℕ}
    (hm : Program.Triple P m (fun _ t => t.window.config = config)
      (fun t => t.window.config = config))
    (hP : ∀ s w, Pass s₀ config waiting (shard :: rest) s →
      s.worker.claims.windows.get? shard = some w → P ⟨s.shared, w⟩)
    (hwaiting : ∀ other, other ∉ waiting' → other = shard ∨ other ∉ waiting) :
    Program.Triple (Pass s₀ config waiting (shard :: rest)) (World.onWindow shard m)
      (fun _ => Pass s₀ config waiting' rest) (HalfDone s₀ config) := by
  refine Program.Triple.intro (fun s a t hs hrun => ?_) fun s e t hs hrun => ?_
  · obtain ⟨w, scope, hw, hscope, rfl⟩ := onWindow_ok.mp hrun
    refine ⟨hs.kept.trans (Kept.setWindow hw scope),
      fun other hother => hs.claimed other (List.mem_cons_of_mem _ hother),
      fun other w' hw' hother => ?_⟩
    have hw'' : (s.worker.claims.windows.set shard scope.window).get? other = some w' := hw'
    rw [Dict.get?_set] at hw''
    split_ifs at hw'' with hsame
    · cases hw''
      exact hm.of_ok (hP s w hs hw) hscope
    · exact hs.adopted other w' hw'' ((hwaiting other hother).resolve_left (Ne.symm hsame))
  · obtain ⟨hnone, -, -⟩ | ⟨w, scope, hw, hscope, rfl⟩ := onWindow_error.mp hrun
    · -- The shard is claimed when the pass starts, and a pass gives up no shard.
      have hclaimed := hs.claimed shard List.mem_cons_self
      rw [← hs.kept.keys] at hclaimed
      exact absurd hclaimed (Dict.get?_eq_none_iff.mp hnone)
    · exact ⟨hs.kept.trans (Kept.setWindow hw scope), shard, scope.window,
        Dict.get?_set_self _ _ _, hm.of_error (hP s w hs hw) hscope⟩

/-- A window adopts the configuration before its counters are rebuilt. -/
theorem adoptConfig_adopts (env : Env) (config : DetectionConfig) :
    Program.Triple (fun _ => True) (adoptConfig env config) (fun _ t => t.window.config = config)
      (fun t => t.window.config = config) := by
  refine Program.Triple.of_within (R := fun _ t => t.window.config = config) (fun s => ?_)
    fun _ _ _ h => h
  rw [adoptConfig_eq]
  split_ifs
  · rw [Program.after_zoom]
    exact (ShardWindow.rebuildAll_framed config (env.now s.shared.tick)
      { s.window with config := config }).config
  · exact rfl

theorem reevaluateShard_sameCounters (env : Env) (config : DetectionConfig) (batchSize : ℤ) :
    Program.Within Scope.SameCounters (reevaluateShard env config batchSize) := by
  unfold reevaluateShard
  split_ifs
  · exact Program.Within.throw _
  · refine Program.Within.bind Program.Within.get fun _ => Program.Within.bind ?_ fun targets =>
      Program.Within.foldlM targets 0 fun _ ip _ =>
        Program.Within.bind (evaluate_sameCounters env ip config) fun _ => Program.Within.pure _
    exact Program.Within.zoom (R := fun _ _ => True) (fun _ => trivial) fun s _ _ => .refl s.window

/-- A pass of a worker that is not stopping ends with one configuration everywhere, or raises with
one in a window and another in the worker. -/
theorem applyConfig_pass {s₀ : World} (hstop : s₀.worker.stopping = false)
    (config : DetectionConfig) :
    Program.Triple (fun s => s = s₀) (applyConfig env config) (fun _ t => t.At config)
      (HalfDone s₀ config) := by
  refine Program.Triple.get_bind fun s hs => ?_
  subst hs
  rw [if_neg (by rw [hstop]; exact Bool.false_ne_true)]
  have hclaimed : ∀ shard ∈ s.worker.claims.windows.keys, shard ∈ s.worker.claims.windows.keys :=
    fun _ hshard => hshard
  refine Program.Triple.bind (Q := fun _ => Pass s config [] s.worker.claims.windows.keys) ?_ fun _ =>
    Program.Triple.bind (Q := fun _ => Pass s config [] []) ?_ fun _ => ?_
  · refine (Program.Triple.forM
      (I := fun rest t => Pass s config rest rest t) s.worker.claims.windows.keys
      fun shard rest => ?_).conseq (fun t ht => ?_) (fun _ t ht => ?_) fun _ ht => ht
    · refine Pass.onWindow (adoptConfig_adopts env config) (fun _ _ _ _ => trivial)
        fun other hother => ?_
      rw [List.mem_cons, not_or]
      exact (em (other = shard)).imp (fun heq => heq) fun hne => ⟨hne, hother⟩
    · subst ht
      exact ⟨Kept.refl _, hclaimed, fun shard w hw hnot =>
        absurd (Dict.mem_keys_iff.mpr ⟨w, hw⟩) hnot⟩
    · exact ⟨ht.kept, hclaimed, ht.adopted⟩
  · refine Program.Triple.forM (I := fun rest t => Pass s config [] rest t)
      s.worker.claims.windows.keys fun shard rest => ?_
    refine Program.Triple.bind (Q := fun _ => Pass s config [] rest) ?_ fun _ =>
      Program.Triple.pure fun _ ht => ht
    refine Pass.onWindow (P := fun scope => scope.window.config = config)
      (Program.Triple.of_within (reevaluateShard_sameCounters env config _)
        fun _ _ hadopted h => h.config.trans hadopted)
      (fun t w ht hw => ht.adopted shard w hw List.not_mem_nil) fun other hother => Or.inr hother
  · intro t ht
    exact ⟨rfl, rfl, fun shard w hw => ht.adopted shard w hw List.not_mem_nil⟩

theorem applyConfig_stopping {s : World} (hstop : s.worker.stopping = true)
    (config : DetectionConfig) : applyConfig env config s = .ok ⟨⟩ s := by
  unfold applyConfig
  rw [Program.bind_apply]
  show (if s.worker.stopping = true then _ else _ : Program Failure World PUnit) s = _
  rw [if_pos hstop]
  rfl

theorem applyConfig_ok {s t : World} {config : DetectionConfig}
    (h : applyConfig env config s = .ok ⟨⟩ t) : t = s ∨ t.At config := by
  cases hstop : s.worker.stopping with
  | true =>
    rw [applyConfig_stopping hstop] at h
    cases h
    exact Or.inl rfl
  | false => exact Or.inr ((applyConfig_pass hstop config).of_ok rfl h)

theorem applyConfig_error {s t : World} {config : DetectionConfig} {e : Failure}
    (h : applyConfig env config s = .error e t) : HalfDone s config t := by
  cases hstop : s.worker.stopping with
  | true =>
    rw [applyConfig_stopping hstop] at h
    cases h
  | false => exact (applyConfig_pass hstop config).of_error rfl h

/-! ### A pass of the configuration in force -/

/-- Of the claimed windows only the states of IPs and the sequence numbers have changed. -/
structure World.SameWindows (s t : World) : Prop where
  kept : Kept s t
  windows : ∀ shard w', t.worker.claims.windows.get? shard = some w' →
    ∃ w, s.worker.claims.windows.get? shard = some w ∧ w.SameCounters w'

namespace World.SameWindows

variable {s t u : World} {config : DetectionConfig}

theorem refl (s : World) : SameWindows s s := ⟨Kept.refl s, fun _ w hw => ⟨w, hw, .refl w⟩⟩

theorem trans (h : SameWindows s t) (h' : SameWindows t u) : SameWindows s u := by
  refine ⟨h.kept.trans h'.kept, fun shard w'' hw'' => ?_⟩
  obtain ⟨w', hw', hsame'⟩ := h'.windows shard w'' hw''
  obtain ⟨w, hw, hsame⟩ := h.windows shard w' hw'
  exact ⟨w, hw, hsame.trans hsame'⟩

theorem keeps (h : SameWindows s t) (hs : s.At config) : t.At config := by
  refine ⟨h.kept.config.trans hs.worker, ?_, fun shard w' hw' => ?_⟩
  · obtain ⟨windows, -, ht⟩ := h.kept
    rw [ht]
    exact hs.claims
  · obtain ⟨w, hw, hsame⟩ := h.windows shard w' hw'
    exact hsame.config.trans (hs.windows shard w hw)

theorem restored (h : SameWindows s t) (hs : s.At config) : Restored s t := by
  refine ⟨hs.worker ▸ h.keeps hs, h.kept.keys, fun shard w' hw' => ?_⟩
  obtain ⟨w, hw, hsame⟩ := h.windows shard w' hw'
  refine ⟨w, hw, fun ip now => ?_⟩
  have hcounter := congrArg (Option.map fun counter : IpCounter => counter.liveBuckets now)
    (hsame.counter ip)
  rwa [Option.map_map, Option.map_map] at hcounter

end World.SameWindows

/-- Where everything has the configuration, the windows keep their counters. -/
def World.Undisturbed (config : DetectionConfig) (s t : World) : Prop :=
  s.At config → SameWindows s t

instance (config : DetectionConfig) : Std.Refl (Undisturbed config) := ⟨fun s _ => .refl s⟩

instance (config : DetectionConfig) : IsTrans World (Undisturbed config) :=
  ⟨fun _ _ _ h h' hs => (h hs).trans (h' ((h hs).keeps hs))⟩

theorem onWindow_undisturbed {config : DetectionConfig} {m : Program Failure Scope α}
    (hm : ∀ s, s.window.config = config → Scope.SameCounters s (Program.after (m s))) (shard : ℕ) :
    Program.Within (Undisturbed config) (onWindow shard m) := by
  -- The window that is written back has the counters of before.
  have hset : ∀ (s : World) (w : ShardWindow) (scope : Scope),
      s.worker.claims.windows.get? shard = some w → w.SameCounters scope.window →
      SameWindows s (s.setWindow shard scope) := by
    intro s w scope hw hsame
    refine ⟨Kept.setWindow hw scope, fun other w' hw' => ?_⟩
    have hw'' : (s.worker.claims.windows.set shard scope.window).get? other = some w' := hw'
    rw [Dict.get?_set] at hw''
    split_ifs at hw'' with hother
    · cases hw''
      exact ⟨w, hother ▸ hw, hsame⟩
    · exact ⟨w', hw'', .refl w'⟩
  intro s hs
  cases h : onWindow shard m s with
  | ok a t =>
    obtain ⟨w, scope, hw, hrun, rfl⟩ := onWindow_ok.mp h
    have hsame := hm ⟨s.shared, w⟩ (hs.windows shard w hw)
    rw [hrun] at hsame
    exact hset s w scope hw hsame
  | error e t =>
    obtain ⟨-, -, rfl⟩ | ⟨w, scope, hw, hrun, rfl⟩ := onWindow_error.mp h
    · exact SameWindows.refl _
    · have hsame := hm ⟨s.shared, w⟩ (hs.windows shard w hw)
      rw [hrun] at hsame
      exact hset s w scope hw hsame

/-- A pass of the configuration in force changes no counter, whether it returns or raises. -/
theorem applyConfig_undisturbed (env : Env) (config : DetectionConfig) :
    Program.Within (Undisturbed config) (applyConfig env config) := by
  refine Program.Within.bind Program.Within.get fun s => ?_
  split_ifs
  · exact Program.Within.pure _
  · refine Program.Within.bind (Program.Within.forM _ fun shard _ => onWindow_undisturbed ?_ shard)
      fun _ => Program.Within.bind (Program.Within.forM _ fun shard _ =>
        Program.Within.bind (onWindow_undisturbed ?_ shard) fun _ => Program.Within.pure _)
          fun _ => Program.Within.bind ?_ fun _ => ?_
    · intro scope hconfig
      -- The geometry is the window's own, so that nothing is rebuilt.
      have hrebuilds : ¬ scope.window.rebuilds config := by
        unfold ShardWindow.rebuilds
        rw [hconfig]
        exact fun h => h.elim (fun h => h rfl) fun h => h rfl
      rw [adoptConfig_eq, if_neg hrebuilds]
      exact ⟨hconfig.symm, fun _ => rfl⟩
    · exact fun scope _ => reevaluateShard_sameCounters env config _ scope
    · intro t ht
      exact ⟨⟨_, rfl, by rw [← ht.worker]; rfl⟩, fun _ w hw => ⟨w, hw, .refl w⟩⟩
    · intro t ht
      exact ⟨⟨_, rfl, by rw [← ht.claims]; rfl⟩, fun _ w hw => ⟨w, hw, .refl w⟩⟩

/-! ### Every run -/

/-- A call that keeps to the condition keeps one configuration. -/
theorem called_at {s : World} {call : WorkerCall} (hs : s.At s.worker.config) (h : s.Whole env call) :
    (s.called env call).At (s.called env call).worker.config := by
  by_cases hother : ∀ config, call ≠ .operation (.applyConfig config)
  · have hsame := program_sameConfigs env hother s
    exact hsame.worker.symm ▸ hsame.keeps hs
  · obtain ⟨config, hcall⟩ := not_forall_not.mp hother
    subst hcall
    obtain ⟨t, ht⟩ | hconfig := h
    · have hcalled : s.called env (.operation (.applyConfig config)) = t := by
        unfold World.called
        rw [show WorkerCall.program env (.operation (.applyConfig config)) s = .ok ⟨⟩ t from ht]
        rfl
      rw [hcalled]
      obtain rfl | hnew := applyConfig_ok ht
      · exact hs
      · exact hnew.worker.symm ▸ hnew
    · rw [hconfig]
      have hsame : SameWindows s (s.called env (.operation (.applyConfig s.worker.config))) :=
        applyConfig_undisturbed env s.worker.config s hs
      rw [hsame.kept.config]
      exact hsame.keeps hs

/-- A pass that raises is taken back only if it was given the
configuration in force. In every run whose raising passes are such, the worker, its claims and every
claimed window have one configuration after each call, and a pass that raises next leaves everything
as it was, and one configuration, exactly if it is given that one. -/
theorem config_whole (env : Env) :
    (∀ s config e t, applyConfig env config s = .error e t → s.Restored t →
      config = s.worker.config) ∧
    ∀ (shared : Shared) (config : DetectionConfig) (memberId instanceId : String) (leaseTtlS : ℚ)
      (maxTrackedIps batch : ℤ) (calls : List WorkerCall),
      let s₀ : World :=
        ⟨shared, .make config memberId instanceId leaseTtlS maxTrackedIps batch⟩
      Along (World.called env) (World.Whole env) s₀ calls →
      let s := calls.foldl (World.called env) s₀
      s.At s.worker.config ∧ ∀ new e t, applyConfig env new s = .error e t →
        (s.Restored t ↔ new = s.worker.config) ∧ (t.At t.worker.config ↔ new = s.worker.config) := by
  have hnecessary : ∀ (s : World) config t, HalfDone s config t → t.At s.worker.config →
      config = s.worker.config := by
    rintro s config t ⟨-, shard, w, hw, hconfig⟩ hat
    exact hconfig.symm.trans (hat.windows shard w hw)
  refine ⟨fun s config e t herror hrestored =>
    hnecessary s config t (applyConfig_error herror) hrestored.whole, ?_⟩
  intro shared config memberId instanceId leaseTtlS maxTrackedIps batch calls s₀ halong s
  have hs : s.At s.worker.config :=
    halong.invariant (I := fun t => t.At t.worker.config)
      (fun t call ht hcall => called_at ht hcall) ⟨rfl, rfl, fun _ _ hw => by cases hw⟩
  refine ⟨hs, fun new e t herror => ?_⟩
  have hhalf := applyConfig_error herror
  have hsame : new = s.worker.config → SameWindows s t := by
    intro hnew
    have hwithin := applyConfig_undisturbed env new s (hnew ▸ hs)
    rwa [herror] at hwithin
  refine ⟨⟨fun hrestored => hnecessary s new t hhalf hrestored.whole,
    fun hnew => (hsame hnew).restored hs⟩, fun hat => ?_, fun hnew => ?_⟩
  · rw [hhalf.1.config] at hat
    exact hnecessary s new t hhalf hat
  · rw [hhalf.1.config]
    exact (hsame hnew).keeps hs

/-! ### A pass that a store does not answer -/

/-- An edge meets a store that does not answer. -/
theorem evaluate_unavailable {s : Scope} {ip : Address} {config : DetectionConfig}
    (houtcome : ∀ tick, s.shared.tick ≤ tick → env.outcome tick = .raises false)
    (hne : (edgeOf s.window ip config).current ≠ s.window.state ip)
    (hwarm : ¬ WarmingUp env s ip) : ∃ e t, evaluate env ip config s = .error e t := by
  cases h : evaluate env ip config s with
  | error e t => exact ⟨e, t, rfl⟩
  | ok r t =>
    exfalso
    obtain ⟨-, -, -, hsame | ⟨-, hwarming⟩⟩ | ⟨s₁, emitted, -, hdecided, hemit⟩ := evaluate_ok h
    · exact hne hsame
    · exact hwarm hwarming
    · obtain ⟨sequence, s₂, hseq, hemit⟩ := Program.bind_ok.mp hemit
      cases hseq
      obtain ⟨⟨eventId, value⟩, s₃, hprep, hemit⟩ := Program.bind_ok.mp hemit
      obtain ⟨-, rfl⟩ := prepare_ok hprep
      obtain ⟨⟨⟩, s₄, hpersist, -⟩ := Program.bind_ok.mp hemit
      obtain ⟨u, hu, -⟩ := outside_ok.mp hpersist
      have hraises := houtcome (s₁.shared.tick + 1) (hdecided.shared.tick.trans (Nat.le_succ _))
      rw [Shared.recordTransition, Shared.call_eq rfl] at hu
      split at hu
      · next hreturns => cases hraises.symm.trans hreturns
      · cases hu
      · cases hu

/-- The defaults in a version of their own. -/
def nextConfig : DetectionConfig := Ingest.nextDefaultConfig

/-- A store that answers a claim and nothing after it, under a clock that then passes the warm-up. -/
noncomputable def lostEnv : Env :=
  interpreterEnv (fun tick => if tick < 4 then 0 else 1000)
    fun tick => if tick < 4 then .returns else .raises false

/-- The re-evaluation of a window raises if that of its one IP does. -/
theorem reevaluateShard_raises {s : Scope} {config : DetectionConfig} {ip : Address} (batchSize : ℤ)
    (htargets : ∀ tick, env.arrange tick s.window.trackedIps = [ip])
    (hraises : ∀ t : Scope, s.shared.tick ≤ t.shared.tick → t.window = s.window →
      ∃ e u, evaluate env ip config t = .error e u) :
    ∃ e t, reevaluateShard env config batchSize s = .error e t := by
  cases h : reevaluateShard env config batchSize s with
  | error e t => exact ⟨e, t, rfl⟩
  | ok a t =>
    exfalso
    unfold reevaluateShard at h
    split_ifs at h
    · cases h
    obtain ⟨_, _, hget, h⟩ := Program.bind_ok.mp h
    cases hget
    obtain ⟨targets, s₁, hiterate, h⟩ := Program.bind_ok.mp h
    have harranged : targets = [ip] ∧ s₁ = { s with shared := s.shared.advance } := by
      cases hiterate
      exact ⟨htargets s.shared.tick, rfl⟩
    obtain ⟨rfl, rfl⟩ := harranged
    obtain ⟨_, s₂, h, -⟩ := Program.bind_ok.mp h
    obtain ⟨emitted, s₃, h, -⟩ := Program.bind_ok.mp h
    obtain ⟨e, u, herror⟩ := hraises { s with shared := s.shared.advance } (Nat.le_succ _) rfl
    rw [herror] at h
    cases h

/-- A pass over one shard raises if the evaluation of its one IP does. -/
theorem applyConfig_raises {s : World} {config : DetectionConfig} {shard : ℕ} {w : ShardWindow}
    (ip : Address) (hstop : s.worker.stopping = false)
    (hkeys : s.worker.claims.windows.keys = [shard])
    (hw : s.worker.claims.windows.get? shard = some w) (hsame : ¬ w.rebuilds config)
    (htargets : ∀ tick, env.arrange tick w.trackedIps = [ip])
    (hraises : ∀ t : Scope, s.shared.tick ≤ t.shared.tick → t.window = { w with config := config } →
      ∃ e u, evaluate env ip config t = .error e u) :
    ∃ e t, applyConfig env config s = .error e t := by
  cases h : applyConfig env config s with
  | error e t => exact ⟨e, t, rfl⟩
  | ok a t =>
    exfalso
    obtain ⟨_, _, hget, h⟩ := Program.bind_ok.mp h
    cases hget
    rw [if_neg (by rw [hstop]; exact Bool.false_ne_true), hkeys] at h
    obtain ⟨_, s₁, hadopt, h⟩ := Program.bind_ok.mp h
    obtain ⟨_, s₂, hadopt, hrest⟩ := Program.bind_ok.mp hadopt
    cases hrest
    -- The window adopts the configuration, and keeps its counters.
    obtain ⟨w', scope, hw', hadopt, rfl⟩ := onWindow_ok.mp hadopt
    rw [hw] at hw'
    cases hw'
    rw [adoptConfig_eq, if_neg hsame] at hadopt
    cases hadopt
    obtain ⟨_, s₃, hloop, -⟩ := Program.bind_ok.mp h
    obtain ⟨_, s₄, hloop, -⟩ := Program.bind_ok.mp hloop
    obtain ⟨_, s₅, hevaluate, -⟩ := Program.bind_ok.mp hloop
    obtain ⟨w', scope, hw', hevaluate, -⟩ := onWindow_ok.mp hevaluate
    have hset : (s.worker.claims.windows.set shard { w with config := config }).get? shard = some w' :=
      hw'
    rw [Dict.get?_set_self] at hset
    cases hset
    obtain ⟨e, u, herror⟩ := reevaluateShard_raises
      (s := ⟨s.shared, { w with config := config }⟩) s.worker.reevaluationBatch htargets hraises
    exact absurd (herror.symm.trans hevaluate) (by simp)

/-- The IP that a shard has inherited. -/
def lostIp : Address := ⟨.ipv4, 1, one_lt_ipv4_width⟩

/-- The worker before its claim. -/
def lostWorker : AggregatorWorker := .make Ingest.defaultConfig "member" "instance" 30 1000 1000

/-- The one HOT IP of the shard is inherited, and has left the window when a new version comes: the
pass raises as it demotes the IP. -/
theorem lost_pass : ∃ s e t, onAssigned lostEnv {0} ⟨sharedWith {lostIp} 3, lostWorker⟩ = .ok ⟨⟩ s ∧
    s.At Ingest.defaultConfig ∧ applyConfig lostEnv nextConfig s = .error e t := by
  obtain ⟨w, hmake⟩ : ∃ w, ShardWindow.make 0 Ingest.defaultConfig 0 [lostIp] 3 1000 = .ok w :=
    ⟨_, rfl⟩
  have hmade : ShardWindow.make 0 lostWorker.claims.config (lostEnv.now 2)
      (lostEnv.arrange 3 {lostIp}) 3 lostWorker.claims.maxTrackedIps = .ok w := by
    have harranged : lostEnv.arrange 3 {lostIp} = [lostIp] := Finset.toList_singleton _
    rw [harranged]
    exact hmake
  obtain ⟨s, hassigned, hclaimed⟩ := onAssigned_free (sharedWith {lostIp} 3) lostWorker
    (show lostEnv.outcome 0 = .returns from rfl) (show lostEnv.outcome 1 = .returns from rfl)
    (show (sharedWith {lostIp} 3).store.leases.get? 0 = none from rfl) rfl
    (show (0 : ℚ) < 30 by norm_num) hmade
  have hworker := hclaimed.worker
  have hw : s.worker.claims.windows.get? 0 = some w := by
    rw [hworker]
    exact Dict.get?_set_self _ _ _
  have hat : s.At Ingest.defaultConfig := by
    refine ⟨by rw [hworker]; rfl, by rw [hworker]; rfl, fun shard w' hw' => ?_⟩
    rw [hworker] at hw'
    have hset : (lostWorker.claims.windows.set 0 w).get? shard = some w' := hw'
    rw [Dict.get?_set] at hset
    split_ifs at hset
    · cases hset
      cases hmake
      rfl
    · cases hset
  have hraises : ∃ e t, applyConfig lostEnv nextConfig s = .error e t := by
    refine applyConfig_raises lostIp ?_ ?_ hw ?_ ?_ ?_
    · rw [hworker]
      rfl
    · rw [hworker]
      rfl
    · cases hmake
      decide
    · intro tick
      have htracked : w.trackedIps = {lostIp} := by
        cases hmake
        rfl
      rw [htracked]
      exact Finset.toList_singleton _
    · intro scope htick hwindow
      rw [hclaimed.tick] at htick
      have hlate : ∀ tick, scope.shared.tick ≤ tick → ¬ tick < 4 := by
        intro tick hle
        have hfour : (4 : ℕ) ≤ scope.shared.tick := htick
        omega
      refine evaluate_unavailable (fun tick hle => if_neg (hlate tick hle)) ?_ ?_
      · rw [hwindow]
        cases hmake
        decide
      · rintro ⟨-, u, hu, hlt⟩
        rw [hwindow] at hu
        have hclock : lostEnv.now scope.shared.tick = 1000 := if_neg (hlate _ le_rfl)
        rw [hclock] at hlt
        cases hmake
        cases hu
        exact absurd hlt (by decide)
  obtain ⟨e, t, herror⟩ := hraises
  exact ⟨s, e, t, hassigned, hat, herror⟩

theorem nextConfig_ne : nextConfig ≠ Ingest.defaultConfig := by
  intro h
  have hversion : (2 : ℤ) = 1 := congrArg DetectionConfig.configVersion h
  norm_num at hversion

/-- After the pass that raised the window is at the new version and the worker at the old one. -/
theorem config_half_adopted : ∃ s t e,
    Started lostEnv (sharedWith {lostIp} 3) Ingest.defaultConfig 1000 s ∧
    s.At Ingest.defaultConfig ∧ applyConfig lostEnv nextConfig s = .error e t ∧
    ¬ s.Restored t ∧ ¬ t.At t.worker.config := by
  obtain ⟨s, e, t, hassigned, hat, herror⟩ := lost_pass
  obtain ⟨hkept, shard, w, hw, hconfig⟩ := applyConfig_error herror
  have hold : s.worker.config = Ingest.defaultConfig := hat.worker
  refine ⟨s, t, e, ⟨_, _, _, _, _, hassigned⟩, hat, herror, fun hrestored => nextConfig_ne ?_,
    fun hwhole => nextConfig_ne ?_⟩
  · rw [← hconfig, hrestored.whole.windows shard w hw, hold]
  · rw [← hconfig, hwhole.windows shard w hw, hkept.config, hold]

/-- The run of the claim keeps to the condition, and the pass is not taken back. -/
theorem config_whole_lost :
    let s := World.called lostEnv ⟨sharedWith {lostIp} 3, lostWorker⟩ (.onAssigned {0})
    s.At s.worker.config ∧ ∃ e t, applyConfig lostEnv nextConfig s = .error e t ∧ ¬ s.Restored t := by
  intro s
  obtain ⟨s', e, t, hassigned, hat, herror⟩ := lost_pass
  have hcalled : s = s' := congrArg Program.after hassigned
  obtain ⟨hs, hpass⟩ : s.At s.worker.config ∧ ∀ new e t, applyConfig lostEnv new s = .error e t →
      (s.Restored t ↔ new = s.worker.config) ∧ (t.At t.worker.config ↔ new = s.worker.config) :=
    (config_whole lostEnv).2 (sharedWith {lostIp} 3) Ingest.defaultConfig "member" "instance" 30 1000
      1000 [.onAssigned {0}] ⟨trivial, trivial⟩
  have hraised : applyConfig lostEnv nextConfig s = .error e t := by
    rw [hcalled]
    exact herror
  refine ⟨hs, e, t, hraised, fun hrestored => nextConfig_ne ?_⟩
  rw [(hpass nextConfig e t hraised).1.mp hrestored, hcalled, hat.worker]

end Hammertime.Aggregator
