import Hammertime.Aggregator.Emitter
import Hammertime.Aggregator.WindowSpec

/-!
# What an evaluation can do

`evaluate_ok` and `evaluate_error` say once what an evaluation can leave behind, and every invariant
of the worker is derived from them. An evaluation that returns has either announced nothing, because
the state machine keeps the state or because the demotion is one the warm-up suppresses, or it has
persisted, published and set one edge. An evaluation that raises has set nothing in memory but the
sequence number it took; the store may be ahead of the log, and the log ahead of the window.
-/

namespace Hammertime

/-- Nothing but the position in the environment has changed. -/
structure Shared.Later (s t : Shared) : Prop where
  tick : s.tick ≤ t.tick
  store : t.store = s.store
  hotIp : t.hotIp = s.hotIp
  reconciliation : t.reconciliation = s.reconciliation

namespace Shared.Later

variable {s t u : Shared}

theorem refl (s : Shared) : s.Later s := ⟨le_refl _, rfl, rfl, rfl⟩

theorem trans (h : s.Later t) (h' : t.Later u) : s.Later u :=
  ⟨h.tick.trans h'.tick, h'.store.trans h.store, h'.hotIp.trans h.hotIp,
    h'.reconciliation.trans h.reconciliation⟩

theorem advance (s : Shared) : s.Later s.advance := ⟨Nat.le_succ _, rfl, rfl, rfl⟩

end Shared.Later

namespace Aggregator

open Lib Scope

variable {env : Env}

/-! ### The pieces -/

theorem outside_ok {α : Type} {m : Program Failure Shared α} {s t : Scope} {a : α} :
    Scope.outside m s = .ok a t ↔ ∃ u, m s.shared = .ok a u ∧ t = { s with shared := u } :=
  Program.zoom_ok

theorem outside_error {α : Type} {m : Program Failure Shared α} {s t : Scope} {e : Failure} :
    Scope.outside m s = .error e t ↔ ∃ u, m s.shared = .error e u ∧ t = { s with shared := u } :=
  Program.zoom_error

theorem readClock_apply (s : Scope) :
    Scope.outside (Shared.readClock env) s =
      .ok (env.now s.shared.tick) { s with shared := s.shared.advance } := rfl

theorem inside_ok {α : Type} {f : ShardWindow → Except Failure (α × ShardWindow)} {s t : Scope}
    {a : α} :
    Scope.inside f s = .ok a t ↔ ∃ w, f s.window = .ok (a, w) ∧ t = { s with window := w } := by
  unfold Scope.inside
  cases h : f s.window with
  | error e => simp
  | ok r => simp [Prod.ext_iff, and_assoc, eq_comm]

theorem inside_error {α : Type} {f : ShardWindow → Except Failure (α × ShardWindow)}
    {s t : Scope} {e : Failure} :
    Scope.inside f s = .error e t ↔ f s.window = .error e ∧ t = s := by
  unfold Scope.inside
  cases h : f s.window with
  | error e => simp [eq_comm]
  | ok r => simp

/-- `in_warmup` reads the clock at most once and changes nothing. -/
theorem inWarmup_ok (env : Env) (s : Scope) :
    ∃ t, inWarmup env s =
        .ok (s.window.warmUntil.any fun u => decide (env.now s.shared.tick < u)) t ∧
      t.window = s.window ∧ s.shared.Later t.shared := by
  cases h : s.window.warmUntil with
  | none =>
    refine ⟨s, Program.bind_ok.mpr ⟨s, s, rfl, ?_⟩, rfl, Shared.Later.refl _⟩
    rw [h]
    rfl
  | some u =>
    refine ⟨{ s with shared := s.shared.advance }, Program.bind_ok.mpr ⟨s, s, rfl, ?_⟩, rfl,
      Shared.Later.advance _⟩
    rw [h]
    rfl

/-! ### The clocked methods of the window -/

theorem observe_ok {ip : Address} {start delta : ℤ} {s t : Scope} {change : Option WindowChange}
    (h : observe env ip start delta s = .ok change t) :
    s.window.observe ip start delta (env.now s.shared.tick) = .ok (change, t.window) ∧
      t.shared = s.shared.advance := by
  obtain ⟨now, s₁, hclock, h⟩ := Program.bind_ok.mp h
  cases hclock
  obtain ⟨w, hw, rfl⟩ := inside_ok.mp h
  exact ⟨hw, rfl⟩

theorem observe_error {ip : Address} {start delta : ℤ} {s t : Scope} {e : Failure}
    (h : observe env ip start delta s = .error e t) :
    t = { s with shared := s.shared.advance } := by
  obtain hclock | ⟨now, s₁, hclock, h⟩ := Program.bind_error.mp h
  · cases hclock
  · cases hclock
    exact (inside_error.mp h).2

theorem expireDue_apply (s : Scope) :
    expireDue env s = .ok (s.window.expireDue (env.now s.shared.tick)).1
      ⟨s.shared.advance, (s.window.expireDue (env.now s.shared.tick)).2⟩ := rfl

theorem evictDue_apply (s : Scope) :
    evictDue env s = .ok (s.window.evictDue (env.now s.shared.tick)).1
      ⟨s.shared.advance, (s.window.evictDue (env.now s.shared.tick)).2⟩ := rfl

/-- The warm-up ends at the first call at or after `warm_until`, and every other call leaves the
window. -/
theorem finishWarmupIfDue_ok (env : Env) (s : Scope) :
    (∃ t, finishWarmupIfDue env s = .ok none t ∧ t.window = s.window ∧ s.shared.Later t.shared ∧
        ∀ u, s.window.warmUntil = some u → env.now s.shared.tick < u) ∨
      ∃ u, s.window.warmUntil = some u ∧ u ≤ env.now s.shared.tick ∧
        finishWarmupIfDue env s = .ok (some s.window.finishWarmup.1)
          ⟨s.shared.advance, s.window.finishWarmup.2⟩ := by
  cases hu : s.window.warmUntil with
  | none =>
    refine Or.inl ⟨s, Program.bind_ok.mpr ⟨s, s, rfl, ?_⟩, rfl, Shared.Later.refl _, by simp⟩
    rw [hu]
    rfl
  | some u =>
    by_cases hlt : env.now s.shared.tick < u
    · refine Or.inl ⟨{ s with shared := s.shared.advance }, Program.bind_ok.mpr ⟨s, s, rfl, ?_⟩, rfl,
        Shared.Later.advance _, ?_⟩
      · rw [hu]
        exact congrFun (if_pos hlt) { s with shared := s.shared.advance }
      · intro u' hu'
        cases hu'
        exact hlt
    · refine Or.inr ⟨u, rfl, not_lt.mp hlt, Program.bind_ok.mpr ⟨s, s, rfl, ?_⟩⟩
      rw [hu]
      exact congrFun (if_neg hlt) { s with shared := s.shared.advance }

/-- Adopting a configuration writes it first; the rebuild then starts from it. -/
theorem adoptConfig_eq (s : Scope) (config : DetectionConfig) :
    adoptConfig env config s =
      if s.window.rebuilds config then
        Program.zoom Scope.window (fun s window => { s with window := window })
          (ShardWindow.rebuildAll config (env.now s.shared.tick))
          ⟨s.shared.advance, { s.window with config := config }⟩
      else .ok ⟨⟩ { s with window := { s.window with config := config } } := by
  by_cases h : s.window.rebuilds config
  · rw [if_pos h]
    exact congrFun (if_pos h) { s with window := { s.window with config := config } }
  · rw [if_neg h]
    exact congrFun (if_neg h) { s with window := { s.window with config := config } }

/-! ### Deciding -/

/-- The warm-up keeps an IP from being demoted: it is inherited, and the clock is before the end. -/
def WarmingUp (env : Env) (s : Scope) (ip : Address) : Prop :=
  s.window.isInherited ip = true ∧ ∃ u, s.window.warmUntil = some u ∧ env.now s.shared.tick < u

/-- The edge the state machine asks for. -/
def edgeOf (w : ShardWindow) (ip : Address) (config : DetectionConfig) : Edge :=
  ⟨w.state ip, evaluateIpState (w.state ip) (w.total ip) config, w.total ip⟩

/-- Why nothing is announced: the state is kept, or the demotion is suppressed. -/
def Quiet (env : Env) (s : Scope) (ip : Address) (config : DetectionConfig) : Prop :=
  (edgeOf s.window ip config).current = s.window.state ip ∨
    (edgeOf s.window ip config).current = .cold ∧ WarmingUp env s ip

/-- Deciding raises nothing and changes nothing. -/
theorem decideEdge_ok (env : Env) (s : Scope) (ip : Address) (config : DetectionConfig) :
    ∃ t, t.window = s.window ∧ s.shared.Later t.shared ∧
      ((decideEdge env ip config s = .ok none t ∧ Quiet env s ip config) ∨
        (decideEdge env ip config s = .ok (some (edgeOf s.window ip config)) t ∧
          (edgeOf s.window ip config).current ≠ s.window.state ip ∧
          ((edgeOf s.window ip config).current = .cold → ¬ WarmingUp env s ip))) := by
  by_cases hkeep : (edgeOf s.window ip config).current = s.window.state ip
  · refine ⟨s, rfl, Shared.Later.refl _, Or.inl ⟨?_, Or.inl hkeep⟩⟩
    exact congrFun (if_pos hkeep) s
  · by_cases hcold : (edgeOf s.window ip config).current = .cold
    · obtain ⟨t, ht, hw, hl⟩ := inWarmup_ok env s
      have hprog : decideEdge env ip config s =
          (inWarmup env >>= fun warming =>
            if warming = true ∧ s.window.isInherited ip = true then pure none
            else pure (some (edgeOf s.window ip config)) : Program Failure Scope (Option Edge)) s :=
        congrFun ((if_neg hkeep).trans (if_pos hcold)) s
      rw [Program.bind_apply, ht] at hprog
      refine ⟨t, hw, hl, ?_⟩
      by_cases hwarm : WarmingUp env s ip
      · refine Or.inl ⟨?_, Or.inr ⟨hcold, hwarm⟩⟩
        obtain ⟨hi, u, hu, hlt⟩ := hwarm
        rw [hprog]
        refine congrFun (if_pos ⟨?_, hi⟩) t
        rw [hu]
        exact decide_eq_true hlt
      · refine Or.inr ⟨?_, hkeep, fun _ => hwarm⟩
        rw [hprog]
        refine congrFun (if_neg ?_) t
        rintro ⟨hw', hi⟩
        refine hwarm ⟨hi, ?_⟩
        cases hu : s.window.warmUntil with
        | none =>
          rw [hu] at hw'
          cases hw'
        | some u =>
          rw [hu] at hw'
          exact ⟨u, rfl, of_decide_eq_true hw'⟩
    · refine ⟨s, rfl, Shared.Later.refl _, Or.inr ⟨?_, hkeep, fun h => absurd h hcold⟩⟩
      exact congrFun ((if_neg hkeep).trans (if_neg hcold)) s

/-! ### Emitting -/

/-- The window once a sequence number has been taken. -/
def ShardWindow.taken (w : ShardWindow) : ShardWindow :=
  { w with nextSequence := w.nextSequence + 1 }

/-- What surrounds the worker once the transition is in the store. -/
def persisted (s : Shared) (shard : ℕ) (ip : Address) (state : IpState) (sequence : ℕ) : Shared :=
  { s with store := s.store.recordTransition shard ip state sequence }

/-- What surrounds the worker once the event is published. -/
def published (env : Env) (s : Shared) (ip : Address) (eventId : String) (value : Bytes) : Shared :=
  { s with hotIp := s.hotIp.append (utf8 (env.text ip)) value eventId }

theorem prepare_ok {ip : Address} {edge : Edge} {sequence : ℕ} {config : DetectionConfig}
    {s t : Scope} {event : String × Bytes} (h : prepare env ip edge sequence config s = .ok event t) :
    encodeTransition env s.window.shard ip edge sequence config (env.now s.shared.tick) = .ok event ∧
      t = { s with shared := s.shared.advance } := by
  obtain ⟨now, s₁, hclock, h⟩ := Program.bind_ok.mp h
  cases hclock
  obtain ⟨w, henc, rfl⟩ := inside_ok.mp h
  obtain ⟨event', hevent, heq⟩ := Program.except_map_ok.mp henc
  cases heq
  exact ⟨hevent, rfl⟩

theorem prepare_error {ip : Address} {edge : Edge} {sequence : ℕ} {config : DetectionConfig}
    {s t : Scope} {e : Failure} (h : prepare env ip edge sequence config s = .error e t) :
    t = { s with shared := s.shared.advance } := by
  obtain hclock | ⟨now, s₁, hclock, h⟩ := Program.bind_error.mp h
  · cases hclock
  · cases hclock
    exact (inside_error.mp h).2

theorem persist_ok {ip : Address} {state : IpState} {sequence : ℕ} {s t : Scope}
    (h : persist env ip state sequence s = .ok ⟨⟩ t) :
    t = { s with shared := persisted s.shared.advance s.window.shard ip state sequence } := by
  obtain ⟨u, hu, rfl⟩ := outside_ok.mp h
  rw [(Shared.call_ok rfl hu).2]
  rfl

theorem persist_error {ip : Address} {state : IpState} {sequence : ℕ} {s t : Scope} {e : Failure}
    (h : persist env ip state sequence s = .error e t) :
    ¬ env.NoCallFails ∧ t.window = s.window ∧
      (t.shared = persisted s.shared.advance s.window.shard ip state sequence ∨
        t.shared = s.shared.advance) := by
  obtain ⟨u, hu, rfl⟩ := outside_error.mp h
  obtain ⟨ho, hu⟩ := Shared.call_error rfl hu
  exact ⟨fun henv => ho (henv _), rfl, hu⟩

theorem announce_ok {ip : Address} {eventId : String} {value : Bytes} {s t : Scope}
    (h : announce env ip eventId value s = .ok ⟨⟩ t) :
    t = { s with shared := published env s.shared.advance ip eventId value } := by
  obtain ⟨u, hu, rfl⟩ := outside_ok.mp h
  rw [(Shared.call_ok rfl hu).2]
  rfl

theorem announce_error {ip : Address} {eventId : String} {value : Bytes} {s t : Scope}
    {e : Failure} (h : announce env ip eventId value s = .error e t) :
    ¬ env.NoCallFails ∧ t.window = s.window ∧
      (t.shared = published env s.shared.advance ip eventId value ∨
        t.shared = s.shared.advance) := by
  obtain ⟨u, hu, rfl⟩ := outside_error.mp h
  obtain ⟨ho, hu⟩ := Shared.call_error rfl hu
  exact ⟨fun henv => ho (henv _), rfl, hu⟩

theorem remember_ok {ip : Address} {state : IpState} {s t : Scope}
    (h : remember ip state s = .ok ⟨⟩ t) :
    ∃ w', s.window.setState ip state = .ok w' ∧ t = { s with window := w' } := by
  obtain ⟨w, hw, rfl⟩ := inside_ok.mp h
  obtain ⟨w', hw', heq⟩ := Program.except_map_ok.mp hw
  cases heq
  exact ⟨_, hw', rfl⟩

theorem remember_error {ip : Address} {state : IpState} {s t : Scope} {e : Failure}
    (h : remember ip state s = .error e t) : s.window.entries.get? ip = none ∧ t = s := by
  obtain ⟨hw, rfl⟩ := inside_error.mp h
  exact ⟨ShardWindow.setState_error (Program.except_map_error.mp hw), rfl⟩

/-- What surrounds the worker once the edge is in the store and in the log. -/
def announced (env : Env) (s : Scope) (ip : Address) (edge : Edge) (eventId : String)
    (value : Bytes) : Shared :=
  published env
    (persisted s.shared.advance.advance s.window.shard ip edge.current
      s.window.nextSequence).advance
    ip eventId value

/-- An emission that returns has encoded, persisted and published the edge, and set the state. -/
theorem emit_ok {ip : Address} {edge : Edge} {config : DetectionConfig} {s t : Scope}
    {emitted : EmittedTransition} (h : emit env ip edge config s = .ok emitted t) :
    ∃ eventId value w',
      encodeTransition env s.window.shard ip edge s.window.nextSequence config
        (env.now s.shared.tick) = .ok (eventId, value) ∧
      s.window.taken.setState ip edge.current = .ok w' ∧
      t = ⟨announced env s ip edge eventId value, w'⟩ ∧
      emitted = ⟨ip, edge.previous, edge.current, s.window.nextSequence, edge.count,
        config.configVersion⟩ := by
  obtain ⟨sequence, s₁, hseq, h⟩ := Program.bind_ok.mp h
  cases hseq
  obtain ⟨⟨eventId, value⟩, s₂, hprep, h⟩ := Program.bind_ok.mp h
  obtain ⟨henc, rfl⟩ := prepare_ok hprep
  obtain ⟨⟨⟩, s₃, hpersist, h⟩ := Program.bind_ok.mp h
  cases persist_ok hpersist
  obtain ⟨⟨⟩, s₄, hpub, h⟩ := Program.bind_ok.mp h
  cases announce_ok hpub
  obtain ⟨⟨⟩, s₅, hset, h⟩ := Program.bind_ok.mp h
  obtain ⟨w', hw', rfl⟩ := remember_ok hset
  cases h
  exact ⟨eventId, value, w', henc, hw', rfl, rfl⟩

/-- What an emission that raises has done: nothing outside, or the store has the transition and the
log may have the event. In memory only the sequence number is taken. With no failing call, the
second happens only for an IP that is not tracked. -/
theorem emit_error {ip : Address} {edge : Edge} {config : DetectionConfig} {s t : Scope}
    {e : Failure} (h : emit env ip edge config s = .error e t) :
    t.window = s.window.taken ∧
      (s.shared.Later t.shared ∨
        (env.NoCallFails → s.window.entries.get? ip = none) ∧
        ∃ eventId value u,
          encodeTransition env s.window.shard ip edge s.window.nextSequence config
            (env.now s.shared.tick) = .ok (eventId, value) ∧
          (persisted s.shared s.window.shard ip edge.current s.window.nextSequence).Later u ∧
          (t.shared = u ∨ t.shared = published env u ip eventId value)) := by
  obtain hseq | ⟨sequence, s₁, hseq, h⟩ := Program.bind_error.mp h
  · cases hseq
  cases hseq
  obtain hprep | ⟨⟨eventId, value⟩, s₂, hprep, h⟩ := Program.bind_error.mp h
  · cases prepare_error hprep
    exact ⟨rfl, Or.inl (Shared.Later.advance _)⟩
  obtain ⟨henc, rfl⟩ := prepare_ok hprep
  -- Two calls later the store has the transition, wherever the emission ends from here.
  have hlater : (persisted s.shared s.window.shard ip edge.current s.window.nextSequence).Later
      (persisted s.shared.advance.advance s.window.shard ip edge.current s.window.nextSequence) :=
    ⟨Nat.le_add_right _ 2, rfl, rfl, rfl⟩
  obtain hpersist | ⟨⟨⟩, s₃, hpersist, h⟩ := Program.bind_error.mp h
  · obtain ⟨hfail, hw, hu | hu⟩ := persist_error hpersist
    · exact ⟨hw, Or.inr ⟨fun henv => absurd henv hfail, eventId, value, t.shared, henc,
        hu ▸ hlater, Or.inl rfl⟩⟩
    · exact ⟨hw, Or.inl (hu ▸ (Shared.Later.advance _).trans (Shared.Later.advance _))⟩
  cases persist_ok hpersist
  obtain hpub | ⟨⟨⟩, s₄, hpub, h⟩ := Program.bind_error.mp h
  · obtain ⟨hfail, hw, hu⟩ := announce_error hpub
    exact ⟨hw, Or.inr ⟨fun henv => absurd henv hfail, eventId, value, _, henc,
      hlater.trans (Shared.Later.advance _), hu.symm⟩⟩
  cases announce_ok hpub
  obtain hset | ⟨⟨⟩, s₅, hset, h⟩ := Program.bind_error.mp h
  · obtain ⟨hnone, rfl⟩ := remember_error hset
    exact ⟨rfl, Or.inr ⟨fun _ => hnone, eventId, value, _, henc,
      hlater.trans (Shared.Later.advance _), Or.inr rfl⟩⟩
  · cases h

/-! ### Evaluating -/

/-- An emission starts from where the edge was decided. -/
structure Decided (env : Env) (s₀ s : Scope) (ip : Address) (config : DetectionConfig) : Prop where
  window : s.window = s₀.window
  shared : s₀.shared.Later s.shared
  changed : (edgeOf s₀.window ip config).current ≠ s₀.window.state ip
  notWarming : (edgeOf s₀.window ip config).current = .cold → ¬ WarmingUp env s₀ ip

/-- An evaluation that returns has announced nothing, or one edge. -/
theorem evaluate_ok {ip : Address} {config : DetectionConfig} {s t : Scope}
    {r : Option EmittedTransition} (h : evaluate env ip config s = .ok r t) :
    (r = none ∧ t.window = s.window ∧ s.shared.Later t.shared ∧ Quiet env s ip config) ∨
      ∃ s₁ emitted, r = some emitted ∧ Decided env s s₁ ip config ∧
        emit env ip (edgeOf s.window ip config) config s₁ = .ok emitted t := by
  obtain ⟨edge, s₁, hd, h⟩ := Program.bind_ok.mp h
  obtain ⟨t₁, hw, hl, ⟨hd', hq⟩ | ⟨hd', hne, hnw⟩⟩ := decideEdge_ok env s ip config
  · rw [hd'] at hd
    cases hd
    cases h
    exact Or.inl ⟨rfl, hw, hl, hq⟩
  · rw [hd'] at hd
    cases hd
    have hmap : (some <$> emit env ip (edgeOf s.window ip config) config :
        Program Failure Scope _) s₁ = .ok r t := h
    rw [Program.map_apply] at hmap
    split at hmap
    · next emitted t₂ hemit =>
      cases hmap
      exact Or.inr ⟨s₁, emitted, rfl, ⟨hw, hl, hne, hnw⟩, hemit⟩
    · cases hmap

/-- An evaluation that raises does so while emitting an edge. -/
theorem evaluate_error {ip : Address} {config : DetectionConfig} {s t : Scope} {e : Failure}
    (h : evaluate env ip config s = .error e t) :
    ∃ s₁, Decided env s s₁ ip config ∧
      emit env ip (edgeOf s.window ip config) config s₁ = .error e t := by
  obtain ⟨t₁, hw, hl, ⟨hd', hq⟩ | ⟨hd', hne, hnw⟩⟩ := decideEdge_ok env s ip config
  · obtain hd | ⟨edge, s₁, hd, h⟩ := Program.bind_error.mp h
    · rw [hd'] at hd
      cases hd
    · rw [hd'] at hd
      cases hd
      cases h
  · obtain hd | ⟨edge, s₁, hd, h⟩ := Program.bind_error.mp h
    · rw [hd'] at hd
      cases hd
    · rw [hd'] at hd
      cases hd
      have hmap : (some <$> emit env ip (edgeOf s.window ip config) config :
          Program Failure Scope _) t₁ = .error e t := h
      rw [Program.map_apply] at hmap
      split at hmap
      · cases hmap
      · next e' t₂ hemit =>
        cases hmap
        exact ⟨t₁, ⟨hw, hl, hne, hnw⟩, hemit⟩

end Aggregator

end Hammertime
