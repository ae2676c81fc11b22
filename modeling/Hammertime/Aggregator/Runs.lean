import Hammertime.Aggregator.Frame

/-!
# Runs of a worker

An invariant of a worker is an invariant of each of its windows together with what that window
shares, and it is proved on the four programs that a worker runs on one window: counting an
observation, maintaining, adopting a configuration and reevaluating. `RunInvariant` states what
those programs must keep, and `RunInvariant.run` lifts it to every run of `handle`,
`run_maintenance` and `apply_config` in any order. The programs are local to their shard, so an
invariant that is stable under the changes of other shards survives the loops over the windows.

Between the two loops of `apply_config` the windows have the new configuration and the worker does
not. The invariant has a second form for that time, and a third for a window whose program raised.
-/

namespace Hammertime.Aggregator

open Lib World

variable {env : Env} {α : Type}

/-! ### Programs on one window -/

theorem onWindow_ok {shard : ℕ} {m : Program Failure Scope α} {s t : World} {a : α} :
    onWindow shard m s = .ok a t ↔
      ∃ w scope, s.worker.claims.windows.get? shard = some w ∧ m ⟨s.shared, w⟩ = .ok a scope ∧
        t = s.setWindow shard scope := by
  unfold onWindow
  cases h : s.worker.claims.windows.get? shard with
  | none => simp
  | some w =>
    dsimp only
    rw [Program.zoom_ok]
    simp

theorem onWindow_error {shard : ℕ} {m : Program Failure Scope α} {s t : World} {e : Failure} :
    onWindow shard m s = .error e t ↔
      (s.worker.claims.windows.get? shard = none ∧ e = .keyError ∧ t = s) ∨
      ∃ w scope, s.worker.claims.windows.get? shard = some w ∧ m ⟨s.shared, w⟩ = .error e scope ∧
        t = s.setWindow shard scope := by
  unfold onWindow
  cases h : s.worker.claims.windows.get? shard with
  | none => simp [eq_comm]
  | some w =>
    dsimp only
    rw [Program.zoom_error]
    simp

/-- Only the contents of the claimed windows, and what surrounds the worker, have changed. -/
def World.Kept (s t : World) : Prop :=
  ∃ windows, windows.keys = s.worker.claims.windows.keys ∧
    t.worker = { s.worker with claims := { s.worker.claims with windows := windows } }

namespace World.Kept

theorem refl (s : World) : Kept s s := ⟨_, rfl, rfl⟩

theorem trans {s t u : World} (h : Kept s t) (h' : Kept t u) : Kept s u := by
  obtain ⟨windows, hk, ht⟩ := h
  obtain ⟨windows', hk', hu⟩ := h'
  rw [ht] at hk' hu
  exact ⟨windows', hk'.trans hk, hu⟩

instance : Std.Refl Kept := ⟨refl⟩

instance : IsTrans World Kept := ⟨fun _ _ _ => trans⟩

theorem keys {s t : World} (h : Kept s t) :
    t.worker.claims.windows.keys = s.worker.claims.windows.keys := by
  obtain ⟨windows, hk, ht⟩ := h
  rw [ht]
  exact hk

theorem config {s t : World} (h : Kept s t) : t.worker.config = s.worker.config := by
  obtain ⟨windows, hk, ht⟩ := h
  rw [ht]

theorem batch {s t : World} (h : Kept s t) :
    t.worker.reevaluationBatch = s.worker.reevaluationBatch := by
  obtain ⟨windows, hk, ht⟩ := h
  rw [ht]

theorem stopping {s t : World} (h : Kept s t) : t.worker.stopping = s.worker.stopping := by
  obtain ⟨windows, hk, ht⟩ := h
  rw [ht]

/-- Writing back a claimed window. -/
theorem setWindow {s : World} {shard : ℕ} {w : ShardWindow}
    (h : s.worker.claims.windows.get? shard = some w) (scope : Scope) :
    Kept s (s.setWindow shard scope) :=
  ⟨_, Dict.keys_set_of_mem _ _ (Dict.mem_keys_iff.mpr ⟨w, h⟩), rfl⟩

end World.Kept

theorem onWindow_kept (shard : ℕ) (m : Program Failure Scope α) :
    Program.Within Kept (onWindow shard m) := by
  intro s
  cases h : onWindow shard m s with
  | ok a t =>
    obtain ⟨w, scope, hw, -, rfl⟩ := onWindow_ok.mp h
    exact Kept.setWindow hw scope
  | error e t =>
    obtain ⟨-, -, rfl⟩ | ⟨w, scope, hw, -, rfl⟩ := onWindow_error.mp h
    · exact Kept.refl _
    · exact Kept.setWindow hw scope

/-! ### Predicates of every window -/

/-- Every claimed window, with what it shares, has `I`. -/
def World.Each (I : Scope → Prop) (s : World) : Prop :=
  ∀ shard w, s.worker.claims.windows.get? shard = some w → w.shard = shard ∧ I ⟨s.shared, w⟩

/-- What is done for other shards does not break `I`. -/
def Stable (env : Env) (I : Scope → Prop) : Prop :=
  ∀ s t w, Foreign env w.shard s t → I ⟨s, w⟩ → I ⟨t, w⟩

namespace World.Each

variable {I P Q : Scope → Prop} {s t : World}

theorem mono (h : Each P s) (hPQ : ∀ scope, P scope → Q scope) : Each Q s :=
  fun shard w hw => ⟨(h shard w hw).1, hPQ _ (h shard w hw).2⟩

/-- The windows are the same and nothing of any shard's own happened outside. -/
theorem of_foreign (h : Each I s) (hI : Stable env I)
    (hw : t.worker.claims.windows = s.worker.claims.windows)
    (hf : ∀ shard, Foreign env shard s.shared t.shared) : Each I t := by
  intro shard w hget
  rw [hw] at hget
  obtain ⟨hs, hi⟩ := h shard w hget
  exact ⟨hs, hI _ _ _ (hf _) hi⟩

/-- A local program on one window: that window has what the program gives, every other keeps what it
had. -/
theorem setWindow {shard : ℕ} {w : ShardWindow} {scope : Scope} (h : Each P s) (hP : Stable env P)
    (hw : s.worker.claims.windows.get? shard = some w) (hl : Local env ⟨s.shared, w⟩ scope)
    (hQ : Q scope) :
    Each (fun scope' => if scope'.window.shard = shard then Q scope' else P scope')
      (s.setWindow shard scope) := by
  obtain ⟨hshard, -⟩ := h shard w hw
  intro other w' hw'
  have hw'' : (s.worker.claims.windows.set shard scope.window).get? other = some w' := hw'
  rw [Dict.get?_set] at hw''
  split_ifs at hw'' with ho
  · cases hw''
    have heq : scope.window.shard = shard := hl.shard.trans hshard
    exact ⟨heq.trans ho, (if_pos heq).mpr hQ⟩
  · obtain ⟨hs', hp⟩ := h other w' hw''
    refine ⟨hs', ?_⟩
    have hne : w'.shard ≠ shard := fun hc => ho (hc.symm.trans hs')
    refine (if_neg hne).mpr (hP _ _ _ (hl.foreign _ ?_) hp)
    rw [hshard]
    exact hne

end World.Each

/-! ### Loops over the windows -/

/-- A loop over the windows of `s₀` in which the shards of `rest` are still to do: they have `P`, and
the others have `Q`. -/
structure Phase (s₀ : World) (P Q : Scope → Prop) (rest : List ℕ) (s : World) : Prop where
  kept : Kept s₀ s
  nodup : rest.Nodup
  claimed : ∀ shard ∈ rest, shard ∈ s₀.worker.claims.windows.keys
  each : Each (fun scope => if scope.window.shard ∈ rest then P scope else Q scope) s

/-- Such a loop stopped at a window that has `E`. -/
structure Broken (s₀ : World) (P Q E : Scope → Prop) (s : World) : Prop where
  kept : Kept s₀ s
  each : Each (fun scope => P scope ∨ Q scope ∨ E scope) s
  failed : ∃ shard w, s.worker.claims.windows.get? shard = some w ∧ E ⟨s.shared, w⟩

namespace Phase

variable {s₀ s : World} {P Q E : Scope → Prop}

/-- Before the loop every window has `P`. -/
theorem start (h : Each P s₀) : Phase s₀ P Q s₀.worker.claims.windows.keys s₀ := by
  refine ⟨Kept.refl s₀, Dict.keys_nodup _, fun _ h => h, fun shard w hw => ?_⟩
  obtain ⟨hs, hp⟩ := h shard w hw
  refine ⟨hs, (if_pos ?_).mpr hp⟩
  rw [hs]
  exact Dict.mem_keys_iff.mpr ⟨w, hw⟩

theorem done (h : Phase s₀ P Q [] s) : Each Q s :=
  h.each.mono fun scope hs => by simpa using hs

/-- One window of the loop. -/
theorem onWindow {m : Program Failure Scope α} (hlocal : Program.Within (Local env) m)
    (hP : Stable env P) (hQ : Stable env Q) (hm : Program.Triple P m (fun _ => Q) E) (shard : ℕ)
    (rest : List ℕ) :
    Program.Triple (Phase s₀ P Q (shard :: rest)) (onWindow shard m)
      (fun _ => Phase s₀ P Q rest) (Broken s₀ P Q E) := by
  have hstable : Stable env
      fun scope => if scope.window.shard ∈ shard :: rest then P scope else Q scope := by
    intro s t w hf h
    dsimp only at h ⊢
    split_ifs at h ⊢
    · exact hP s t w hf h
    · exact hQ s t w hf h
  -- The window is claimed, has `P`, and is written back.
  have start : ∀ s w, Phase s₀ P Q (shard :: rest) s →
      s.worker.claims.windows.get? shard = some w → P ⟨s.shared, w⟩ := by
    intro s w hs hw
    obtain ⟨hshard, hp⟩ := hs.each shard w hw
    refine (if_pos ?_).mp hp
    rw [hshard]
    exact List.mem_cons_self
  refine Program.Triple.intro ?_ ?_
  · intro s a t hs h
    obtain ⟨w, scope, hw, hm', rfl⟩ := onWindow_ok.mp h
    obtain ⟨hshard, hnodup⟩ := List.nodup_cons.mp hs.nodup
    refine ⟨hs.kept.trans (Kept.setWindow hw scope), hnodup,
      fun k hk => hs.claimed k (List.mem_cons_of_mem _ hk), ?_⟩
    refine (hs.each.setWindow hstable hw (hlocal.of_ok hm') (hm.of_ok (start s w hs hw) hm')).mono ?_
    intro scope' h'
    by_cases heq : scope'.window.shard = shard
    · rw [if_pos heq] at h'
      rw [if_neg (by rw [heq]; exact hshard)]
      exact h'
    · rw [if_neg heq] at h'
      simpa [heq] using h'
  · intro s e t hs h
    obtain ⟨hnone, -, -⟩ | ⟨w, scope, hw, hm', rfl⟩ := onWindow_error.mp h
    · have hk := hs.claimed shard List.mem_cons_self
      rw [← hs.kept.keys] at hk
      exact absurd hk (Dict.get?_eq_none_iff.mp hnone)
    · have hE := hm.of_error (start s w hs hw) hm'
      refine ⟨hs.kept.trans (Kept.setWindow hw scope), ?_, shard, scope.window, ?_, hE⟩
      · refine (hs.each.setWindow hstable hw (hlocal.of_error hm') hE).mono ?_
        intro scope' h'
        split_ifs at h'
        · exact Or.inr (Or.inr h')
        · exact Or.inl h'
        · exact Or.inr (Or.inl h')
      · exact Dict.get?_set_self _ _ _

end Phase

/-! ### Programs on what surrounds the worker -/

/-- The worker is the same and nothing of any shard's own happened outside. -/
structure World.Aside (env : Env) (s t : World) : Prop where
  worker : t.worker = s.worker
  foreign : ∀ shard, Foreign env shard s.shared t.shared

namespace World.Aside

theorem refl (env : Env) (s : World) : Aside env s s := ⟨rfl, fun _ => Foreign.refl _ _ _⟩

theorem trans {s t u : World} (h : Aside env s t) (h' : Aside env t u) : Aside env s u :=
  ⟨h'.worker.trans h.worker, fun shard => (h.foreign shard).trans (h'.foreign shard)⟩

instance : Std.Refl (Aside env) := ⟨refl env⟩

instance : IsTrans World (Aside env) := ⟨fun _ _ _ => trans⟩

end World.Aside

/-- The clock is only read. -/
theorem readClock_aside (env : Env) :
    Program.Within (Aside env) (World.outside (Shared.readClock env)) :=
  fun s => ⟨rfl, fun _ => Foreign.of_later (Shared.Later.advance s.shared)⟩

/-- A call whose effect is nothing of any shard's own, whether it returns or raises. -/
theorem call_aside (effect : Shared → Except Failure (α × Shared))
    (h : ∀ s a t, effect s = .ok (a, t) → ∀ shard, Foreign env shard s t) :
    Program.Within (Aside env) (World.outside (Shared.call env effect)) := by
  refine Program.Within.zoom (R := fun s t => ∀ shard, Foreign env shard s t) ?_
    fun t s hs => ⟨rfl, hs⟩
  exact Shared.call_within (fun _ _ _ h h' shard => (h shard).trans (h' shard))
    (fun s shard => Foreign.of_later (Shared.Later.advance s)) h

theorem publishReconciliation_aside (env : Env) (key value : Bytes) (messageId : String) :
    Program.Within (Aside env)
      (World.outside (Shared.publishReconciliation env key value messageId)) := by
  refine call_aside _ ?_
  intro s a t h shard
  cases h
  exact ⟨le_refl _, rfl, ⟨[], (List.append_nil _).symm, by simp⟩, fun _ h => Or.inl h⟩

theorem acquireLease_aside (env : Env) (shard : ℕ) (owner : String) (ttlSeconds : ℚ) :
    Program.Within (Aside env) (World.outside (Shared.acquireLease env shard owner ttlSeconds)) := by
  refine call_aside _ ?_
  intro s a t h other
  obtain ⟨hlog, htick, hload⟩ := Shared.acquireLease_effect h
  exact ⟨htick.ge, hload other, ⟨[], by rw [hlog, List.append_nil], by simp⟩,
    fun _ hid => Or.inl (hlog ▸ hid)⟩

theorem renewLeases_aside (env : Env) : Program.Within (Aside env) (renewLeases env) := by
  refine Program.Within.bind Program.Within.get fun s => Program.Within.forM _ fun shard _ => ?_
  refine Program.Within.bind (acquireLease_aside env _ _ _) fun answer => ?_
  cases answer with
  | none => exact Program.Within.pure _
  | some owner => exact Program.Within.throw _

/-- Marking a message handled leaves the windows. -/
theorem markHandled_windows {claims claims' : ShardClaims} {message : ConsumedMessage}
    (h : claims.markHandled message = .ok claims') : claims'.windows = claims.windows := by
  unfold ShardClaims.markHandled at h
  split_ifs at h
  cases h
  rfl

/-! ### One message -/

/-- A message of a claimed shard that is neither redelivered nor malformed. -/
theorem handle_decoded {message : ConsumedMessage} {s : World} {eventId : String}
    {payload : RequestObservation} {entry : Observation} (hrun : s.worker.stopping = false)
    (hclaimed : s.worker.claims.windows.contains message.partition = true)
    (hnew : (s.worker.claims.positions.get? message.partition).any (message.offset < ·) = false)
    (hdecode : decodeObservation env message = some (eventId, payload, entry)) :
    handle env message s = handleObservation env message eventId payload entry s := by
  unfold handle
  rw [Program.bind_apply]
  show (if s.worker.stopping = true then _ else _ : Program Failure World ObservationOutcome) s = _
  rw [if_neg (by rw [hrun]; exact Bool.false_ne_true), if_neg (not_not.mpr hclaimed),
    if_neg (by rw [hnew]; exact Bool.false_ne_true), hdecode]

/-- An observation classified as applied is counted, and then the message is marked. -/
theorem handleObservation_applied {message : ConsumedMessage} {s : World} {eventId : String}
    {payload : RequestObservation} {entry : Observation}
    (hclass : classifyObservation payload.windowStart payload.windowSeconds
      (env.now s.shared.tick) s.worker.config = .applied) :
    handleObservation env message eventId payload entry s =
      (do
        onWindow message.partition
          (countObservation env payload.windowStart entry s.worker.config)
        modifyClaims fun claims => claims.markHandled message
        pure .applied : Program Failure World ObservationOutcome)
        { s with shared := s.shared.advance } := by
  unfold handleObservation
  show (match classifyObservation payload.windowStart payload.windowSeconds
      (env.now s.shared.tick) s.worker.config with
    | _ => _ : Program Failure World ObservationOutcome) { s with shared := s.shared.advance } = _
  rw [hclass]
  rfl

/-! ### The operations that go through every window -/

/-- `run_maintenance` of a worker that is not stopping, with what its loop keeps of each window. -/
theorem runMaintenance_triple {s₀ : World} {P Q E : Scope → Prop} (hP : Stable env P)
    (hQ : Stable env Q) (hstop : s₀.worker.stopping = false)
    (hm : Program.Triple P (maintainWindow env s₀.worker.config) (fun _ => Q) E)
    (hs₀ : Each P s₀) :
    Program.Triple (fun s => s = s₀) (runMaintenance env)
      (fun _ s => Kept s₀ s ∧ Each Q s)
      (fun s => Aside env s₀ s ∧ Each P s ∨ Broken s₀ P Q E s) := by
  refine Program.Triple.get_bind fun s hs => ?_
  subst hs
  rw [if_neg (by rw [hstop]; exact Bool.false_ne_true)]
  refine Program.Triple.bind (Q := fun _ t => Aside env s t ∧ Each P t) ?_ fun _ => ?_
  · refine (Program.Triple.of_within (renewLeases_aside env)
      (S := fun t => Aside env s t ∧ Each P t) ?_).conseq
      (fun _ ht => ht) (fun _ _ ht => ht) fun _ ht => Or.inl ht
    intro t u ht ha
    subst ht
    exact ⟨ha, hs₀.of_foreign hP (by rw [ha.worker]) ha.foreign⟩
  · refine Program.Triple.of_state fun s₁ hs₁ => ?_
    obtain ⟨ha, heach⟩ := hs₁
    have hkept : Kept s s₁ := ⟨_, rfl, by rw [ha.worker]⟩
    have hstart : Phase s P Q s.worker.claims.windows.keys s₁ := by
      have h := Phase.start (Q := Q) heach
      rw [ha.worker] at h
      exact ⟨hkept, h.nodup, fun _ hk => hk, h.each⟩
    refine (Program.Triple.forM (I := Phase s P Q) (E := Broken s P Q E) _
      fun shard rest => ?_).conseq (fun t ht => ht ▸ hstart)
      (fun _ t ht => ⟨ht.kept, ht.done⟩) fun t ht => Or.inr ht
    exact Phase.onWindow (maintainWindow_local env _) hP hQ hm shard rest

/-- The worker and the claims once they have adopted a configuration. -/
def AggregatorWorker.adopted (worker : AggregatorWorker) (config : DetectionConfig) :
    AggregatorWorker :=
  { worker with config := config, claims := { worker.claims with config := config } }

/-- `apply_config` of a worker that is not stopping, with what its two loops keep of each window. -/
theorem applyConfig_triple {s₀ : World} {P Q R E : Scope → Prop} {config : DetectionConfig}
    (hP : Stable env P) (hQ : Stable env Q) (hR : Stable env R)
    (hstop : s₀.worker.stopping = false)
    (hadopt : Program.Triple P (adoptConfig env config) (fun _ => Q) E)
    (hreeval : Program.Triple Q (reevaluateShard env config s₀.worker.reevaluationBatch)
      (fun _ => R) E)
    (hs₀ : Each P s₀) :
    Program.Triple (fun s => s = s₀) (applyConfig env config)
      (fun _ s => ∃ s₁, Kept s₀ s₁ ∧ Each R s₁ ∧
        s = { s₁ with worker := s₁.worker.adopted config })
      (fun s => Broken s₀ P Q E s ∨ Broken s₀ Q R E s) := by
  refine Program.Triple.get_bind fun s hs => ?_
  subst hs
  rw [if_neg (by rw [hstop]; exact Bool.false_ne_true)]
  refine Program.Triple.bind (Q := fun _ t => Kept s t ∧ Each Q t) ?_ fun _ =>
    Program.Triple.bind (Q := fun _ t => Kept s t ∧ Each R t) ?_ fun _ => ?_
  · have hstart : Phase s P Q s.worker.claims.windows.keys s := Phase.start hs₀
    refine (Program.Triple.forM (I := Phase s P Q) (E := Broken s P Q E) _
      fun shard rest => ?_).conseq (fun t ht => ht ▸ hstart)
      (fun _ t ht => ⟨ht.kept, ht.done⟩) fun t ht => Or.inl ht
    exact Phase.onWindow (adoptConfig_local env _) hP hQ hadopt shard rest
  · refine Program.Triple.of_state fun s₁ hs₁ => ?_
    obtain ⟨hkept, heach⟩ := hs₁
    have hstart : Phase s Q R s.worker.claims.windows.keys s₁ := by
      have h := Phase.start (Q := R) heach
      rw [hkept.keys] at h
      exact ⟨hkept, h.nodup, fun _ hk => hk, h.each⟩
    refine (Program.Triple.forM (I := Phase s Q R) (E := Broken s Q R E) _
      fun shard rest => ?_).conseq (fun t ht => ht ▸ hstart)
      (fun _ t ht => ⟨ht.kept, ht.done⟩) fun t ht => Or.inr ht
    exact Program.Triple.bind
      (Phase.onWindow (reevaluateShard_local env _ _) hQ hR hreeval shard rest)
      fun _ => Program.Triple.pure fun _ ht => ht
  · intro t ht
    exact ⟨t, ht.1, ht.2, rfl⟩

/-! ### Invariants of a run -/

/-- What holds of a worker between its operations: its configuration is an admitted one, and every
window has the invariant at it. -/
structure Steady (ok : DetectionConfig → Prop) (batch : ℤ) (I : DetectionConfig → Scope → Prop)
    (s : World) : Prop where
  config : ok s.worker.config
  batch : s.worker.reevaluationBatch = batch
  running : s.worker.stopping = false
  windows : Each (I s.worker.config) s

/-- What an operation that raised while it worked on a window leaves. -/
structure Failed (ok : DetectionConfig → Prop) (batch : ℤ) (I J : DetectionConfig → Scope → Prop)
    (E : Scope → Prop) (s : World) : Prop where
  config : ok s.worker.config
  batch : s.worker.reevaluationBatch = batch
  running : s.worker.stopping = false
  windows : Each (fun scope => (∃ config, ok config ∧ (I config scope ∨ J config scope)) ∨ E scope) s
  failed : ∃ shard w, s.worker.claims.windows.get? shard = some w ∧ E ⟨s.shared, w⟩

/-- What the programs of a worker on one window must keep: `I config` between operations, `J config`
once a window has adopted `config` and is not reevaluated yet, and `E` where a program raises. -/
structure RunInvariant (env : Env) (ok : DetectionConfig → Prop) (batch : ℤ)
    (I J : DetectionConfig → Scope → Prop) (E : Scope → Prop) : Prop where
  stable : ∀ config, Stable env (I config)
  stable_adopted : ∀ config, Stable env (J config)
  countObservation : ∀ config, ok config → ∀ windowStart entry,
    Program.Triple (I config) (countObservation env windowStart entry config)
      (fun _ => I config) E
  maintainWindow : ∀ config, ok config →
    Program.Triple (I config) (maintainWindow env config) (fun _ => I config) E
  adoptConfig : ∀ old config, ok old → ok config →
    Program.Triple (I old) (adoptConfig env config) (fun _ => J config) E
  reevaluateShard : ∀ config, ok config →
    Program.Triple (J config) (reevaluateShard env config batch) (fun _ => I config) E

/-- The operations that bring only admitted configurations. -/
def Operation.Admitted (ok : DetectionConfig → Prop) : Operation → Prop
  | .applyConfig config => ok config
  | _ => True

namespace Steady

variable {ok : DetectionConfig → Prop} {batch : ℤ} {I : DetectionConfig → Scope → Prop} {s t : World}

theorem of_aside (h : Steady ok batch I s) (hI : ∀ config, Stable env (I config))
    (ha : Aside env s t) : Steady ok batch I t := by
  have hw := ha.worker
  refine ⟨by rw [hw]; exact h.config, by rw [hw]; exact h.batch, by rw [hw]; exact h.running, ?_⟩
  rw [hw]
  exact h.windows.of_foreign (hI _) (by rw [hw]) ha.foreign

/-- A change of the claims that leaves the windows. -/
theorem of_claims (h : Steady ok batch I s) {claims : ShardClaims}
    (hw : claims.windows = s.worker.claims.windows) :
    Steady ok batch I { s with worker := { s.worker with claims := claims } } := by
  refine ⟨h.config, h.batch, h.running, ?_⟩
  intro shard w hget
  have hget' : claims.windows.get? shard = some w := hget
  rw [hw] at hget'
  exact h.windows shard w hget'

theorem modifyClaims {f : ShardClaims → Except Failure ShardClaims} {E : World → Prop}
    (hf : ∀ claims claims', f claims = .ok claims' → claims'.windows = claims.windows)
    (hE : ∀ s, Steady ok batch I s → E s) :
    Program.Triple (Steady ok batch I) (modifyClaims f) (fun _ => Steady ok batch I) E := by
  intro s hs
  unfold World.modifyClaims
  cases hc : f s.worker.claims with
  | error e => exact hE s hs
  | ok claims => exact hs.of_claims (hf _ _ hc)

end Steady

namespace RunInvariant

variable {ok : DetectionConfig → Prop} {batch : ℤ} {I J : DetectionConfig → Scope → Prop}
  {E : Scope → Prop} (h : RunInvariant env ok batch I J E)

include h

/-- What surrounds the worker may change while the worker stands. -/
theorem aside {m : Program Failure World α} (hm : Program.Within (Aside env) m) :
    Program.Triple (Steady ok batch I) m (fun _ => Steady ok batch I)
      (fun s => Steady ok batch I s ∨ Failed ok batch I J E s) :=
  (Program.Triple.of_within hm fun _ _ hs ha => hs.of_aside h.stable ha).conseq
    (fun _ hs => hs) (fun _ _ hs => hs) fun _ hs => Or.inl hs

omit h in
theorem markHandled (message : ConsumedMessage) :
    Program.Triple (Steady ok batch I) (modifyClaims fun claims => claims.markHandled message)
      (fun _ => Steady ok batch I) (fun s => Steady ok batch I s ∨ Failed ok batch I J E s) :=
  Steady.modifyClaims (fun _ _ => markHandled_windows) fun _ hs => Or.inl hs

/-- A program on one window that keeps the invariant. -/
theorem onWindow {m : Program Failure Scope α} {config : DetectionConfig} (hok : ok config)
    (hlocal : Program.Within (Local env) m)
    (hm : Program.Triple (I config) m (fun _ => I config) E) (shard : ℕ) :
    Program.Triple (fun s => Steady ok batch I s ∧ s.worker.config = config)
      (World.onWindow shard m) (fun _ => Steady ok batch I)
      (fun s => Steady ok batch I s ∨ Failed ok batch I J E s) := by
  refine Program.Triple.intro ?_ ?_
  · rintro s a t ⟨hs, hc⟩ hr
    obtain ⟨w, scope, hw, hm', rfl⟩ := onWindow_ok.mp hr
    subst hc
    obtain ⟨-, hi⟩ := hs.windows shard w hw
    refine ⟨hs.config, hs.batch, hs.running, ?_⟩
    refine (hs.windows.setWindow (h.stable _) hw (hlocal.of_ok hm') (hm.of_ok hi hm')).mono ?_
    intro scope' h'
    exact (ite_self _).mp h'
  · rintro s e t ⟨hs, hc⟩ hr
    obtain ⟨-, -, rfl⟩ | ⟨w, scope, hw, hm', rfl⟩ := onWindow_error.mp hr
    · exact Or.inl hs
    · subst hc
      obtain ⟨-, hi⟩ := hs.windows shard w hw
      have hE := hm.of_error hi hm'
      refine Or.inr ⟨hs.config, hs.batch, hs.running, ?_, shard, scope.window, ?_, hE⟩
      · refine (hs.windows.setWindow (h.stable _) hw (hlocal.of_error hm') hE).mono ?_
        intro scope' h'
        split_ifs at h'
        · exact Or.inr h'
        · exact Or.inl ⟨_, hok, Or.inl h'⟩
      · exact Dict.get?_set_self _ _ _

theorem handleObservation (message : ConsumedMessage) (eventId : String)
    (payload : RequestObservation) (entry : Observation) :
    Program.Triple (Steady ok batch I) (handleObservation env message eventId payload entry)
      (fun _ => Steady ok batch I) (fun s => Steady ok batch I s ∨ Failed ok batch I J E s) := by
  refine Program.Triple.bind (h.aside (readClock_aside env)) fun now => ?_
  refine Program.Triple.get_bind fun s₀ hs₀ => ?_
  have divert : ∀ outcome : ObservationOutcome,
      Program.Triple (Steady ok batch I)
        (do
          World.outside
            (Shared.publishReconciliation env (utf8 (env.text entry.ip)) message.value eventId)
          modifyClaims fun claims => claims.markHandled message
          pure outcome)
        (fun _ => Steady ok batch I)
        (fun s => Steady ok batch I s ∨ Failed ok batch I J E s) := fun outcome =>
    Program.Triple.bind (h.aside (publishReconciliation_aside env _ _ _)) fun _ =>
      Program.Triple.bind (RunInvariant.markHandled message) fun _ => Program.Triple.pure fun _ hs => hs
  have weaken : ∀ s, s = s₀ → Steady ok batch I s := fun s hs => hs ▸ hs₀
  split
  · refine Program.Triple.bind (Q := fun _ => Steady ok batch I) ?_ fun _ =>
      Program.Triple.bind (RunInvariant.markHandled message) fun _ => Program.Triple.pure fun _ hs => hs
    refine Program.Triple.get_bind fun s hs => ?_
    subst hs
    refine (h.onWindow hs₀.config (countObservation_local env _ _ _)
      (h.countObservation _ hs₀.config payload.windowStart entry) message.partition).conseq
      ?_ (fun _ _ hs => hs) fun _ hs => hs
    intro s' hs'
    subst hs'
    exact ⟨hs₀, rfl⟩
  · exact (divert _).conseq weaken (fun _ _ hs => hs) fun _ hs => hs

theorem handle (message : ConsumedMessage) :
    Program.Triple (Steady ok batch I) (handle env message)
      (fun _ => Steady ok batch I) (fun s => Steady ok batch I s ∨ Failed ok batch I J E s) := by
  refine Program.Triple.get_bind fun s₀ hs₀ => ?_
  have weaken : ∀ s, s = s₀ → Steady ok batch I s := fun s hs => hs ▸ hs₀
  have mark : ∀ outcome : ObservationOutcome,
      Program.Triple (Steady ok batch I)
        (do
          modifyClaims fun claims => claims.markHandled message
          pure outcome)
        (fun _ => Steady ok batch I)
        (fun s => Steady ok batch I s ∨ Failed ok batch I J E s) := fun outcome =>
    Program.Triple.bind (RunInvariant.markHandled message) fun _ => Program.Triple.pure fun _ hs => hs
  dsimp only
  split_ifs
  · exact Program.Triple.pure weaken
  · exact (mark _).conseq weaken (fun _ _ hs => hs) fun _ hs => hs
  · split
    · exact (mark _).conseq weaken (fun _ _ hs => hs) fun _ hs => hs
    · exact (h.handleObservation message _ _ _).conseq weaken (fun _ _ hs => hs) fun _ hs => hs
  · exact Program.Triple.pure weaken

theorem runMaintenance :
    Program.Triple (Steady ok batch I) (runMaintenance env)
      (fun _ => Steady ok batch I) (fun s => Steady ok batch I s ∨ Failed ok batch I J E s) := by
  refine Program.Triple.of_state fun s₀ hs₀ => ?_
  refine (runMaintenance_triple (h.stable _) (h.stable _) hs₀.running
    (h.maintainWindow _ hs₀.config) hs₀.windows).conseq (fun _ hs => hs) ?_ ?_
  · rintro _ s ⟨hkept, heach⟩
    refine ⟨by rw [hkept.config]; exact hs₀.config, by rw [hkept.batch]; exact hs₀.batch,
      by rw [hkept.stopping]; exact hs₀.running, ?_⟩
    rw [hkept.config]
    exact heach
  · rintro s (⟨ha, -⟩ | hb)
    · exact Or.inl (hs₀.of_aside h.stable ha)
    · refine Or.inr ⟨by rw [hb.kept.config]; exact hs₀.config, by rw [hb.kept.batch]; exact hs₀.batch,
        by rw [hb.kept.stopping]; exact hs₀.running, hb.each.mono ?_, hb.failed⟩
      rintro scope (hi | hi | he)
      · exact Or.inl ⟨_, hs₀.config, Or.inl hi⟩
      · exact Or.inl ⟨_, hs₀.config, Or.inl hi⟩
      · exact Or.inr he

theorem applyConfig {config : DetectionConfig} (hok : ok config) :
    Program.Triple (Steady ok batch I) (applyConfig env config)
      (fun _ => Steady ok batch I) (fun s => Steady ok batch I s ∨ Failed ok batch I J E s) := by
  refine Program.Triple.of_state fun s₀ hs₀ => ?_
  have hreeval := h.reevaluateShard config hok
  rw [← hs₀.batch] at hreeval
  refine (applyConfig_triple (h.stable _) (h.stable_adopted config) (h.stable config) hs₀.running
    (h.adoptConfig _ config hs₀.config hok) hreeval hs₀.windows).conseq (fun _ hs => hs) ?_ ?_
  · rintro _ s ⟨s₁, hkept, heach, rfl⟩
    exact ⟨hok, hkept.batch.trans hs₀.batch, hkept.stopping.trans hs₀.running, heach⟩
  · rintro s (hb | hb)
    · refine Or.inr ⟨by rw [hb.kept.config]; exact hs₀.config, hb.kept.batch.trans hs₀.batch,
        hb.kept.stopping.trans hs₀.running, hb.each.mono ?_, hb.failed⟩
      rintro scope (hi | hj | he)
      · exact Or.inl ⟨_, hs₀.config, Or.inl hi⟩
      · exact Or.inl ⟨_, hok, Or.inr hj⟩
      · exact Or.inr he
    · refine Or.inr ⟨by rw [hb.kept.config]; exact hs₀.config, hb.kept.batch.trans hs₀.batch,
        hb.kept.stopping.trans hs₀.running, hb.each.mono ?_, hb.failed⟩
      rintro scope (hj | hi | he)
      · exact Or.inl ⟨_, hok, Or.inr hj⟩
      · exact Or.inl ⟨_, hok, Or.inl hi⟩
      · exact Or.inr he

/-- One operation, whichever it is. -/
theorem program {operation : Operation} (hadm : operation.Admitted ok) :
    Program.Triple (Steady ok batch I) (operation.program env)
      (fun _ => Steady ok batch I) (fun s => Steady ok batch I s ∨ Failed ok batch I J E s) := by
  cases operation with
  | handle message =>
    exact Program.Triple.bind (h.handle message) fun _ => Program.Triple.pure fun _ hs => hs
  | runMaintenance => exact h.runMaintenance
  | applyConfig config => exact h.applyConfig hadm

end RunInvariant

/-- The state a sequence of operations leaves; one that raises leaves what it has written. -/
def run (env : Env) (operations : List Operation) (s : World) : World :=
  operations.foldl (fun s operation => Program.after (operation.program env s)) s

theorem after_handle (message : ConsumedMessage) (s : World) :
    Program.after (Operation.program env (.handle message) s) =
      Program.after (handle env message s) := by
  show Program.after ((handle env message >>= fun _ => pure ⟨⟩ : Program Failure World PUnit) s) = _
  rw [Program.bind_apply]
  cases handle env message s <;> rfl

/-- A run of messages, each handled from where the one before it has left the worker. -/
theorem run_handle {message : ConsumedMessage} {s t : World} {outcome : ObservationOutcome}
    (h : handle env message s = .ok outcome t) (rest : List Operation) :
    run env (.handle message :: rest) s = run env rest t := by
  show run env rest (Program.after (Operation.program env (.handle message) s)) = _
  rw [after_handle, h]
  rfl

/-- A run keeps what every operation keeps, returning or raising. -/
theorem run_induction {P : World → Prop} {A : Operation → Prop}
    (hstep : ∀ operation s, A operation → P s → P (Program.after (operation.program env s)))
    {operations : List Operation} (hops : ∀ operation ∈ operations, A operation) {s : World}
    (hs : P s) : P (run env operations s) := by
  induction operations generalizing s with
  | nil => exact hs
  | cons operation rest ih =>
    exact ih (fun o ho => hops o (List.mem_cons_of_mem _ ho))
      (hstep operation s (hops operation List.mem_cons_self) hs)

/-- An invariant whose programs leave something sound where they raise holds in every state that a
run reaches. -/
theorem RunInvariant.run {ok : DetectionConfig → Prop} {batch : ℤ}
    {I J : DetectionConfig → Scope → Prop} {E : Scope → Prop}
    (h : RunInvariant env ok batch I J E)
    (hfailed : ∀ s, Failed ok batch I J E s → Steady ok batch I s) {operations : List Operation}
    (hops : ∀ operation ∈ operations, operation.Admitted ok) {s : World}
    (hs : Steady ok batch I s) : Steady ok batch I (run env operations s) := by
  refine run_induction (A := Operation.Admitted ok) ?_ hops hs
  intro operation s hadm hs
  have ht := h.program hadm s hs
  cases hr : operation.program env s with
  | ok a t =>
    rw [hr] at ht
    exact ht
  | error e t =>
    rw [hr] at ht
    exact ht.elim (fun ht => ht) (hfailed t)

/-! ### The shards of a run -/

/-- The same shards are claimed. -/
def World.SameShards (s t : World) : Prop :=
  t.worker.claims.windows.keys = s.worker.claims.windows.keys

instance : Std.Refl World.SameShards := ⟨fun _ => rfl⟩

instance : IsTrans World World.SameShards := ⟨fun _ _ _ h h' => h'.trans h⟩

theorem aside_sameShards {m : Program Failure World α} (hm : Program.Within (Aside env) m) :
    Program.Within SameShards m :=
  hm.mono fun _ _ h => by rw [SameShards, h.worker]

theorem onWindow_sameShards (shard : ℕ) (m : Program Failure Scope α) :
    Program.Within SameShards (onWindow shard m) :=
  (onWindow_kept shard m).mono fun _ _ h => h.keys

theorem markHandled_sameShards (message : ConsumedMessage) :
    Program.Within SameShards (modifyClaims fun claims => claims.markHandled message) := by
  intro s
  unfold World.modifyClaims
  dsimp only
  cases h : s.worker.claims.markHandled message with
  | error e => exact rfl
  | ok claims => exact congrArg Dict.keys (markHandled_windows h)

theorem handleObservation_sameShards (message : ConsumedMessage) (eventId : String)
    (payload : RequestObservation) (entry : Observation) :
    Program.Within SameShards (handleObservation env message eventId payload entry) := by
  refine Program.Within.bind (aside_sameShards (readClock_aside env)) fun now =>
    Program.Within.bind Program.Within.get fun s => ?_
  split
  · refine Program.Within.bind ?_ fun _ =>
      Program.Within.bind (markHandled_sameShards message) fun _ => Program.Within.pure _
    exact Program.Within.bind Program.Within.get fun _ => onWindow_sameShards _ _
  · exact Program.Within.bind (aside_sameShards (publishReconciliation_aside env _ _ _)) fun _ =>
      Program.Within.bind (markHandled_sameShards message) fun _ => Program.Within.pure _

theorem handle_sameShards (message : ConsumedMessage) :
    Program.Within SameShards (handle env message) := by
  refine Program.Within.bind Program.Within.get fun s => ?_
  have mark : ∀ outcome : ObservationOutcome, Program.Within SameShards (do
      modifyClaims fun claims => claims.markHandled message
      pure outcome) := fun outcome =>
    Program.Within.bind (markHandled_sameShards message) fun _ => Program.Within.pure _
  dsimp only
  split_ifs
  · exact Program.Within.pure _
  · exact mark _
  · split
    · exact mark _
    · exact handleObservation_sameShards message _ _ _
  · exact Program.Within.pure _

/-- No operation claims or gives up a shard. -/
theorem program_sameShards (operation : Operation) :
    Program.Within SameShards (operation.program env) := by
  cases operation with
  | handle message =>
    exact Program.Within.bind (handle_sameShards message) fun _ => Program.Within.pure _
  | runMaintenance =>
    refine Program.Within.bind Program.Within.get fun s => ?_
    split_ifs
    · exact Program.Within.pure _
    · exact Program.Within.bind (aside_sameShards (renewLeases_aside env)) fun _ =>
        Program.Within.forM _ fun shard _ => onWindow_sameShards shard _
  | applyConfig config =>
    refine Program.Within.bind Program.Within.get fun s => ?_
    split_ifs
    · exact Program.Within.pure _
    · refine Program.Within.bind (Program.Within.forM _ fun shard _ => onWindow_sameShards shard _)
        fun _ => Program.Within.bind (Program.Within.forM _ fun shard _ => ?_) fun _ =>
          Program.Within.bind (fun _ => rfl) fun _ => fun _ => rfl
      exact Program.Within.bind (onWindow_sameShards shard _) fun _ => Program.Within.pure _

/-- The shards that are claimed are in every state of a run those that were claimed at its start. -/
theorem run_keys (operations : List Operation) (s : World) :
    (run env operations s).worker.claims.windows.keys = s.worker.claims.windows.keys :=
  run_induction (P := SameShards s) (A := fun _ => True)
    (fun operation t _ ht => IsTrans.trans _ _ _ ht (program_sameShards operation t))
    (fun _ _ => trivial) rfl

end Hammertime.Aggregator
