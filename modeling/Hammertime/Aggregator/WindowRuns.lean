import Hammertime.Aggregator.EmitterSpec
import Hammertime.Aggregator.Rebuild
import Hammertime.Aggregator.Worker
import Hammertime.Ingest.Dedup
import Hammertime.Lib.Machine

/-!
# The calls of a window

A window is reached from its construction by the calls of its six methods that write, each with the
time that it reads. What the methods do to an entry is said once here (`observe_inv`,
`applyConfig_cases`), and with it what every reached window keeps of its entries: a counter has the
geometry of the configuration, and no bucket of it is newer than the IP was last seen. The two
schedules, and what is due by them, have modules of their own.

Rebucketing and the classification of observations are settled on these: what the ring of a new
geometry holds, and that the classification of an observation says what the ring does with it.
-/

namespace Hammertime.Aggregator

open Lib

namespace ShardWindow

/-! ### The methods -/

/-- `finish_warmup_if_due`. -/
def finishWarmupIfDue (w : ShardWindow) (now : ℤ) : Option (Finset Address) × ShardWindow :=
  match w.warmUntil with
  | none => (none, w)
  | some warmUntil =>
    if now < warmUntil then (none, w) else (some w.finishWarmup.1, w.finishWarmup.2)

/-- `apply_config`: the configuration is adopted first, and the counters are rebuilt only when the
geometry changed. -/
def applyConfig (config : DetectionConfig) (now : ℤ) : Program Failure ShardWindow PUnit := fun w =>
  if w.rebuilds config then rebuildAll config now { w with config := config }
  else .ok ⟨⟩ { w with config := config }

/-- A call of a method that writes. -/
inductive Call where
  | observe (ip : Address) (start delta : ℤ)
  | setState (ip : Address) (state : IpState)
  | expireDue
  | evictDue
  | finishWarmupIfDue
  | applyConfig (config : DetectionConfig)

/-- The window after a call at `now`, whether it returned or raised. -/
def call (w : ShardWindow) (now : ℤ) : Call → ShardWindow
  | .observe ip start delta =>
    match w.observe ip start delta now with
    | .ok (_, w') => w'
    | .error _ => w
  | .setState ip state =>
    match w.setState ip state with
    | .ok w' => w'
    | .error _ => w
  | .expireDue => (w.expireDue now).2
  | .evictDue => (w.evictDue now).2
  | .finishWarmupIfDue => (w.finishWarmupIfDue now).2
  | .applyConfig config => Program.after (applyConfig config now w)

/-- The window after the calls of a list, each at its time. -/
def run (w : ShardWindow) (calls : List (ℤ × Call)) : ShardWindow :=
  calls.foldl (fun w call => w.call call.1 call.2) w

/-- The program of a call, for a worker that reads the clock. -/
def Call.program (env : Env) : Call → Program Failure Scope PUnit
  | .observe ip start delta => do
    let _ ← Aggregator.observe env ip start delta
  | .setState ip state => remember ip state
  | .expireDue => do
    let _ ← Aggregator.expireDue env
  | .evictDue => do
    let _ ← Aggregator.evictDue env
  | .finishWarmupIfDue => do
    let _ ← Aggregator.finishWarmupIfDue env
  | .applyConfig config => adoptConfig env config

/-- What the worker runs is the call at the time that its clock shows. -/
theorem Call.after_program (env : Env) (call : Call) (s : Scope) :
    (Program.after (call.program env s)).window = s.window.call (env.now s.shared.tick) call := by
  cases call with
  | observe ip start delta =>
    have hrun : Aggregator.observe env ip start delta s =
        Scope.inside (fun w => w.observe ip start delta (env.now s.shared.tick))
          ⟨s.shared.advance, s.window⟩ := rfl
    unfold Call.program ShardWindow.call
    dsimp only
    rw [Program.bind_apply, hrun]
    unfold Scope.inside
    dsimp only
    cases s.window.observe ip start delta (env.now s.shared.tick) <;> rfl
  | setState ip state =>
    unfold Call.program remember Scope.inside ShardWindow.call
    dsimp only
    cases s.window.setState ip state <;> rfl
  | expireDue => rfl
  | evictDue => rfl
  | finishWarmupIfDue =>
    unfold Call.program ShardWindow.call ShardWindow.finishWarmupIfDue
    dsimp only
    rw [Program.bind_apply]
    obtain ⟨t, hr, hw, -, hlt⟩ | ⟨u, hu, hle, hr⟩ := finishWarmupIfDue_ok env s
    · rw [hr]
      cases hu : s.window.warmUntil with
      | none => exact hw
      | some u =>
        dsimp only
        rw [if_pos (hlt u hu)]
        exact hw
    · rw [hr, hu]
      dsimp only
      rw [if_neg (not_lt.mpr hle)]
      rfl
  | applyConfig config =>
    show (Program.after (adoptConfig env config s)).window = _
    rw [adoptConfig_eq]
    unfold ShardWindow.call ShardWindow.applyConfig
    dsimp only
    split_ifs
    · rw [Program.after_zoom]
    · rfl

/-! ### What a call does -/

/-- What an observation does: it leaves everything, or it tracks a new IP after room was made for it,
or it writes the entry of a tracked one. -/
theorem observe_inv {w w' : ShardWindow} {ip : Address} {start delta now : ℤ}
    {change : Option WindowChange} (h : w.observe ip start delta now = .ok (change, w')) :
    (change = none ∧ w' = w ∧ ∃ c, w.counterOf ip = .ok c ∧ c.isLive start now = false) ∨
      (∃ c c' entry', w.entries.get? ip = none ∧ newCounter w.config = .ok c ∧
        c.observe start delta now = .ok (true, c') ∧ entry' = ⟨c', .cold, start, false⟩ ∧
        change = some ⟨ip, .cold, c.total, c'.total⟩ ∧
        w' = (w.evictForCapacity.track ip entry').scheduleExpiry ip entry') ∨
      ∃ entry c' entry', w.entries.get? ip = some entry ∧
        entry.counter.observe start delta now = .ok (true, c') ∧
        entry' = { entry with counter := c', lastSeen := max entry.lastSeen start } ∧
        change = some ⟨ip, entry.state, entry.counter.total, c'.total⟩ ∧
        w' = { w with entries := w.entries.set ip entry' }.scheduleExpiry ip entry' := by
  unfold observe at h
  cases he : w.entries.get? ip with
  | none =>
    simp only [he] at h
    cases hc : newCounter w.config with
    | error e => rw [hc] at h; cases h
    | ok c =>
      rw [hc] at h
      cases ho : c.observe start delta now with
      | error e => simp only [bind, Except.bind, ho] at h; cases h
      | ok r =>
        obtain ⟨applied, c'⟩ := r
        simp only [bind, Except.bind, ho] at h
        cases applied with
        | false =>
          cases h
          refine Or.inl ⟨rfl, rfl, c, ?_, (IpCounter.observe_false ho).1⟩
          unfold counterOf
          rw [he, hc]
        | true =>
          cases h
          exact Or.inr (Or.inl ⟨c, c', _, rfl, rfl, ho, rfl, rfl, rfl⟩)
  | some entry =>
    simp only [he] at h
    cases ho : entry.counter.observe start delta now with
    | error e => simp only [bind, Except.bind, ho] at h; cases h
    | ok r =>
      obtain ⟨applied, c'⟩ := r
      simp only [bind, Except.bind, ho] at h
      cases applied with
      | false =>
        cases h
        refine Or.inl ⟨rfl, rfl, entry.counter, ?_, (IpCounter.observe_false ho).1⟩
        unfold counterOf
        rw [he]
      | true =>
        cases h
        exact Or.inr (Or.inr ⟨entry, c', _, rfl, ho, rfl, rfl, rfl⟩)

/-- An observation that is applied to a new IP. -/
theorem observe_of_untracked {w : ShardWindow} {ip : Address} {start delta now : ℤ}
    {c c' : IpCounter} (hget : w.entries.get? ip = none) (hc : newCounter w.config = .ok c)
    (ho : c.observe start delta now = .ok (true, c')) :
    w.observe ip start delta now = .ok (some ⟨ip, .cold, c.total, c'.total⟩,
      (w.evictForCapacity.track ip ⟨c', .cold, start, false⟩).scheduleExpiry ip
        ⟨c', .cold, start, false⟩) := by
  unfold observe
  rw [hget]
  simp only [bind, Except.bind, hc, ho]
  rfl

/-- An observation that is applied to a tracked IP. -/
theorem observe_of_tracked {w : ShardWindow} {ip : Address} {start delta now : ℤ} {entry : Entry}
    {c' : IpCounter} (hget : w.entries.get? ip = some entry)
    (ho : entry.counter.observe start delta now = .ok (true, c')) {entry' : Entry}
    (hentry : entry' = { entry with counter := c', lastSeen := max entry.lastSeen start }) :
    w.observe ip start delta now = .ok (some ⟨ip, entry.state, entry.counter.total, c'.total⟩,
      { w with entries := w.entries.set ip entry' }.scheduleExpiry ip entry') := by
  subst hentry
  unfold observe
  rw [hget]
  simp only [bind, Except.bind, ho]
  rfl

/-- What a new configuration does: it is adopted, and it either keeps the geometry, or the rebuild
went through, or there is no ring of its geometry. -/
theorem applyConfig_cases (config : DetectionConfig) (now : ℤ) (w : ShardWindow) :
    (¬ w.rebuilds config ∧ applyConfig config now w = .ok ⟨⟩ { w with config := config }) ∨
      w.rebuilds config ∧
        ((∃ w', applyConfig config now w = .ok ⟨⟩ w' ∧
            rebuildAll config now { w with config := config } = .ok ⟨⟩ w') ∨
          ∃ e, applyConfig config now w = .error e { w with config := config } ∧
            ∀ c, newCounter config ≠ .ok c) := by
  unfold applyConfig
  by_cases hrebuilds : w.rebuilds config
  · rw [if_pos hrebuilds]
    refine Or.inr ⟨hrebuilds, ?_⟩
    cases hr : rebuildAll config now { w with config := config } with
    | ok a w' => exact Or.inl ⟨w', rfl, rfl⟩
    | error e w' =>
      obtain ⟨rfl, hnone⟩ := rebuildAll_error hr
      exact Or.inr ⟨e, rfl, hnone⟩
  · rw [if_neg hrebuilds]
    exact Or.inl ⟨hrebuilds, rfl⟩

theorem finishWarmupIfDue_snd (w : ShardWindow) (now : ℤ) :
    (w.finishWarmupIfDue now).2 = w ∨ (w.finishWarmupIfDue now).2 = w.finishWarmup.2 := by
  unfold finishWarmupIfDue
  split
  · exact Or.inl rfl
  · split_ifs
    · exact Or.inl rfl
    · exact Or.inr rfl

/-- What neither a sweep of the buckets nor a rebuild touches: the counters of the evictions and the
schedule of the retention. -/
structure SameRetention (w w' : ShardWindow) : Prop where
  capacityEvictions : w'.capacityEvictions = w.capacityEvictions
  retentionEvictions : w'.retentionEvictions = w.retentionEvictions
  maxTrackedIps : w'.maxTrackedIps = w.maxTrackedIps
  lastSeenHeap : w'.lastSeenHeap = w.lastSeenHeap
  lastSeenScheduled : w'.lastSeenScheduled = w.lastSeenScheduled

namespace SameRetention

variable {w w' w'' : ShardWindow}

theorem refl (w : ShardWindow) : SameRetention w w := ⟨rfl, rfl, rfl, rfl, rfl⟩

theorem trans (h : SameRetention w w') (h' : SameRetention w' w'') : SameRetention w w'' :=
  ⟨h'.capacityEvictions.trans h.capacityEvictions, h'.retentionEvictions.trans h.retentionEvictions,
    h'.maxTrackedIps.trans h.maxTrackedIps, h'.lastSeenHeap.trans h.lastSeenHeap,
    h'.lastSeenScheduled.trans h.lastSeenScheduled⟩

instance : Std.Refl SameRetention := ⟨refl⟩

instance : IsTrans ShardWindow SameRetention := ⟨fun _ _ _ => trans⟩

theorem scheduleExpiry (h : SameRetention w w') (ip : Address) (entry : Entry) :
    SameRetention w (w'.scheduleExpiry ip entry) := by
  unfold ShardWindow.scheduleExpiry
  split
  · exact h
  · split_ifs
    · exact h
    · exact ⟨h.capacityEvictions, h.retentionEvictions, h.maxTrackedIps, h.lastSeenHeap,
        h.lastSeenScheduled⟩

end SameRetention

theorem rebuildAll_sameRetention (config : DetectionConfig) (now : ℤ) :
    Program.Within SameRetention (rebuildAll config now) := by
  intro w
  refine Program.Within.forM w.entries.items ?_ w
  intro item _ w₁
  unfold rebuildEntry
  split
  · exact SameRetention.refl w₁
  · exact SameRetention.scheduleExpiry (by constructor <;> rfl) _ _

/-! ### The entries of a reached window -/

/-- Where the entry of an IP comes from: it was there, with its counter swept or rebuilt; or an
observation was applied to it; or an observation was the first of the IP. -/
inductive Comes (w : ShardWindow) (now : ℤ) (ip : Address) : Call → Entry → Prop
  | kept {call : Call} {entry entry' : Entry} : w.entries.get? ip = some entry →
      SweptCounter now entry.counter entry'.counter → entry'.lastSeen = entry.lastSeen →
      Comes w now ip call entry'
  | rebuilt {entry : Entry} {config : DetectionConfig} {counter : IpCounter} :
      w.entries.get? ip = some entry → Rebuilt config now entry.counter counter →
      Comes w now ip (.applyConfig config) { entry with counter := counter }
  | observed {entry : Entry} {counter : IpCounter} {start delta : ℤ} :
      w.entries.get? ip = some entry → entry.counter.observe start delta now = .ok (true, counter) →
      Comes w now ip (.observe ip start delta)
        { entry with counter := counter, lastSeen := max entry.lastSeen start }
  | first {fresh counter : IpCounter} {start delta : ℤ} : newCounter w.config = .ok fresh →
      fresh.observe start delta now = .ok (true, counter) →
      Comes w now ip (.observe ip start delta) ⟨counter, .cold, start, false⟩

theorem Comes.refl {w : ShardWindow} {ip : Address} {call : Call} {entry : Entry} (now : ℤ)
    (h : w.entries.get? ip = some entry) : Comes w now ip call entry :=
  Comes.kept h Relation.ReflTransGen.refl rfl

theorem Shrinks.get? {w w' : ShardWindow} (h : Shrinks w w') {ip : Address} {entry : Entry}
    (hget : w'.entries.get? ip = some entry) : w.entries.get? ip = some entry := by
  obtain hk | ⟨hn, -⟩ := h.kept ip
  · exact hk.symm.trans hget
  · rw [hn] at hget
    cases hget

theorem rebuildAll_get? {config : DetectionConfig} {now : ℤ} {w w' : ShardWindow}
    (h : rebuildAll config now w = .ok ⟨⟩ w') {ip : Address} {entry' : Entry}
    (hget : w'.entries.get? ip = some entry') :
    ∃ entry counter, w.entries.get? ip = some entry ∧ Rebuilt config now entry.counter counter ∧
      entry' = { entry with counter := counter } := by
  obtain ⟨-, hnone⟩ | ⟨entry, counter, hentry, hrebuild, hnew⟩ := (rebuildAll_ok h).2 ip
  · rw [hnone] at hget
    cases hget
  · rw [hnew] at hget
    cases hget
    refine ⟨entry, counter, hentry, ?_, rfl⟩
    -- The counter could be built, so there is a ring of the geometry.
    cases hfresh : newCounter config with
    | error e =>
      unfold rebuild at hrebuild
      rw [hfresh] at hrebuild
      cases hrebuild
    | ok fresh =>
      obtain ⟨counter', hcounter', hrebuilt⟩ := rebuild_ok hfresh entry.counter now
      rw [hrebuild] at hcounter'
      cases hcounter'
      exact hrebuilt

/-- Where the entries of a window come from after a call. -/
theorem call_comes (w : ShardWindow) (now : ℤ) (call : Call) {ip : Address} {entry : Entry}
    (hget : (w.call now call).entries.get? ip = some entry) : Comes w now ip call entry := by
  cases call with
  | observe ip' start delta =>
    unfold ShardWindow.call at hget
    dsimp only at hget
    cases hr : w.observe ip' start delta now with
    | error e =>
      rw [hr] at hget
      exact Comes.refl now hget
    | ok r =>
      obtain ⟨change, w'⟩ := r
      rw [hr] at hget
      obtain ⟨-, rfl, -⟩ | ⟨c, c', entry', -, hc, ho, rfl, -, rfl⟩ |
        ⟨old, c', entry', hold, ho, rfl, -, rfl⟩ := observe_inv hr
      · exact Comes.refl now hget
      -- A new IP: the victim of the eviction is not among those that are left.
      · rw [scheduleExpiry_entries, track_entries, Dict.get?_set] at hget
        split_ifs at hget with hip
        · cases hget
          subst hip
          exact Comes.first hc ho
        · exact Comes.refl now ((evictForCapacity_shrinks w).get? hget)
      · rw [scheduleExpiry_entries, Dict.get?_set] at hget
        split_ifs at hget with hip
        · cases hget
          subst hip
          exact Comes.observed hold ho
        · exact Comes.refl now hget
  | setState ip' state =>
    unfold ShardWindow.call at hget
    dsimp only at hget
    cases hr : w.setState ip' state with
    | error e =>
      rw [hr] at hget
      exact Comes.refl now hget
    | ok w' =>
      rw [hr] at hget
      obtain ⟨old, hold, -, hentries⟩ := setState_ok hr
      dsimp only at hget
      rw [hentries, Dict.get?_set] at hget
      split_ifs at hget with hip
      · cases hget
        subst hip
        exact Comes.kept hold Relation.ReflTransGen.refl rfl
      · exact Comes.refl now hget
  | expireDue =>
    obtain ⟨-, hnone⟩ | ⟨old, c', hold, hnew, hswept, -⟩ := (expireDue_swept w now).entries ip
    · have hnone' : (w.call now .expireDue).entries.get? ip = none := hnone
      rw [hnone'] at hget
      cases hget
    · have hnew' : (w.call now .expireDue).entries.get? ip = _ := hnew
      rw [hnew'] at hget
      cases hget
      exact Comes.kept hold hswept rfl
  | evictDue => exact Comes.refl now ((evictDue_shrinks w now).get? hget)
  | finishWarmupIfDue =>
    have hcall : w.call now .finishWarmupIfDue = (w.finishWarmupIfDue now).2 := rfl
    rw [hcall] at hget
    obtain hsame | hsame := w.finishWarmupIfDue_snd now
    · rw [hsame] at hget
      exact Comes.refl now hget
    · rw [hsame, get?_finishWarmup, Option.map_eq_some_iff] at hget
      obtain ⟨old, hold, rfl⟩ := hget
      exact Comes.kept hold Relation.ReflTransGen.refl rfl
  | applyConfig config =>
    have hcall : w.call now (.applyConfig config) = Program.after (applyConfig config now w) := rfl
    rw [hcall] at hget
    obtain ⟨-, hr⟩ | ⟨-, ⟨w', hr, hrebuild⟩ | ⟨e, hr, -⟩⟩ := applyConfig_cases config now w
    · rw [hr] at hget
      exact Comes.refl now hget
    · rw [hr] at hget
      obtain ⟨old, counter, hold, hrebuilt, rfl⟩ := rebuildAll_get? hrebuild hget
      exact Comes.rebuilt hold hrebuilt
    · rw [hr] at hget
      exact Comes.refl now hget

/-- No bucket of a counter is newer than its IP was last seen, and that has not been in the
future. -/
def Timely (w : ShardWindow) (t : ℤ) : Prop :=
  ∀ ip entry, w.entries.get? ip = some entry →
    entry.counter.Past entry.lastSeen ∧ entry.lastSeen ≤ t

theorem SweptCounter.past {now t : ℤ} {c c' : IpCounter} (h : SweptCounter now c c')
    (hpast : c.Past t) : c'.Past t := by
  induction h with
  | refl => exact hpast
  | tail _ hb ih =>
    rw [hb]
    exact ih.expire now

/-- A call keeps the entries timely, under a clock that does not run backwards. -/
theorem Timely.call {w : ShardWindow} {t now : ℤ} (h : w.Timely t) (hle : t ≤ now) (call : Call) :
    (w.call now call).Timely now := by
  intro ip entry hget
  cases call_comes w now call hget with
  | kept hold hswept hseen =>
    obtain ⟨hpast, hlast⟩ := h ip _ hold
    rw [hseen]
    exact ⟨hswept.past hpast, hlast.trans hle⟩
  | rebuilt hold hrebuilt =>
    obtain ⟨hpast, hlast⟩ := h ip _ hold
    exact ⟨hrebuilt.past _ hpast, hlast.trans hle⟩
  | observed hold ho =>
    obtain ⟨hpast, hlast⟩ := h ip _ hold
    obtain ⟨haligned, hdelta, hlive, rfl⟩ := IpCounter.observe_true ho
    have hstart := ((IpCounter.isLive_iff haligned).mp hlive).1
    refine ⟨?_, max_le (hlast.trans hle) hstart⟩
    exact IpCounter.Past.add haligned hdelta (hpast.mono (le_max_left _ _)) (le_max_right _ _)
  | first hc ho =>
    obtain ⟨haligned, hdelta, hlive, rfl⟩ := IpCounter.observe_true ho
    refine ⟨?_, ((IpCounter.isLive_iff haligned).mp hlive).1⟩
    refine IpCounter.Past.add haligned hdelta ?_ (le_refl _)
    intro i start hi
    rw [(newCounter_empty hc).2 i] at hi
    cases hi

/-- A new window is timely. -/
theorem timely_make {shard nextSequence : ℕ} {config : DetectionConfig} {now maxTrackedIps : ℤ}
    {ips : List Address} {w : ShardWindow}
    (h : make shard config now ips nextSequence maxTrackedIps = .ok w) : w.Timely now := by
  obtain ⟨-, -, hnew⟩ := make_ok (fun ip => List.mem_toFinset.symm) h
  intro ip entry hget
  by_cases hip : ip ∈ ips.toFinset
  · obtain ⟨c, hc, hentry⟩ := hnew.inherited ip hip
    rw [hentry] at hget
    cases hget
    refine ⟨fun i start hi => ?_, le_refl _⟩
    rw [(newCounter_empty hc).2 i] at hi
    cases hi
  · rw [hnew.untracked ip hip] at hget
    cases hget

/-- Every counter has the geometry of the configuration, once there is a ring of it. -/
def Fits (w : ShardWindow) : Prop :=
  ∀ fresh, newCounter w.config = .ok fresh → ∀ ip entry, w.entries.get? ip = some entry →
    entry.counter.bucketSeconds = w.config.bucketSeconds ∧
      (entry.counter.bucketCount : ℤ) = w.config.bucketCount

theorem SweptCounter.bucketCount {now : ℤ} {c c' : IpCounter} (h : SweptCounter now c c') :
    c'.bucketCount = c.bucketCount := by
  induction h with
  | refl => rfl
  | tail _ hb ih =>
    rw [hb]
    exact ih

/-- Only a new configuration changes the configuration. -/
theorem call_config (w : ShardWindow) (now : ℤ) {call : Call}
    (h : ∀ config, call ≠ .applyConfig config) : (w.call now call).config = w.config := by
  cases call with
  | observe ip start delta =>
    unfold ShardWindow.call
    dsimp only
    cases hr : w.observe ip start delta now with
    | error e => rfl
    | ok r =>
      obtain ⟨change, w'⟩ := r
      obtain ⟨c, -, ⟨-, rfl, -⟩ | ⟨c', w₁, entry, -, -, -, hf, -⟩⟩ := observe_cases hr
      · rfl
      · exact hf.config
  | setState ip state =>
    unfold ShardWindow.call
    dsimp only
    cases hr : w.setState ip state with
    | error e => rfl
    | ok w' =>
      obtain ⟨entry, -, hf, -⟩ := setState_ok hr
      exact hf.config
  | expireDue => exact (expireDue_swept w now).config
  | evictDue => exact (evictDue_shrinks w now).config
  | finishWarmupIfDue =>
    show (w.finishWarmupIfDue now).2.config = w.config
    obtain hsame | hsame := w.finishWarmupIfDue_snd now
    · rw [hsame]
    · rw [hsame]
      rfl
  | applyConfig config => exact absurd rfl (h config)

/-- A call keeps the geometry of the counters in step with the configuration. -/
theorem Fits.call {w : ShardWindow} (h : w.Fits) (now : ℤ) (call : Call) :
    (w.call now call).Fits := by
  intro fresh hfresh ip entry hget
  have hcomes := call_comes w now call hget
  -- What was there and is not rebuilt keeps its geometry, and the configuration keeps its own.
  have kept : ∀ {old : Entry} {counter : IpCounter}, w.entries.get? ip = some old →
      counter.bucketSeconds = old.counter.bucketSeconds →
      counter.bucketCount = old.counter.bucketCount →
      (w.call now call).config.bucketSeconds = w.config.bucketSeconds →
      (w.call now call).config.bucketCount = w.config.bucketCount →
      counter.bucketSeconds = (w.call now call).config.bucketSeconds ∧
        (counter.bucketCount : ℤ) = (w.call now call).config.bucketCount := by
    intro old counter hold hs hc hseconds hcount
    have hnew : newCounter w.config = .ok fresh := by
      unfold newCounter at hfresh ⊢
      rw [← hseconds, ← hcount]
      exact hfresh
    obtain ⟨hold₁, hold₂⟩ := h fresh hnew ip old hold
    rw [hs, hc, hseconds, hcount]
    exact ⟨hold₁, hold₂⟩
  by_cases hconfig : ∀ config, call ≠ .applyConfig config
  · have hsame := call_config w now hconfig
    have hseconds := congrArg DetectionConfig.bucketSeconds hsame
    have hcount := congrArg DetectionConfig.bucketCount hsame
    cases hcomes with
    | kept hold hswept _ => exact kept hold hswept.bucketSeconds hswept.bucketCount hseconds hcount
    | rebuilt hold hrebuilt => exact absurd rfl (hconfig _)
    | observed hold ho =>
      obtain ⟨haligned, hdelta, -, rfl⟩ := IpCounter.observe_true ho
      exact kept hold rfl rfl hseconds hcount
    | first hc ho =>
      obtain ⟨haligned, hdelta, -, rfl⟩ := IpCounter.observe_true ho
      rw [hsame]
      exact ⟨(newCounter_ok hc).1, (newCounter_empty hc).1⟩
  · obtain ⟨config, hcall⟩ := not_forall.mp hconfig
    obtain rfl := not_not.mp hcall
    have hdef : w.call now (.applyConfig config) = Program.after (applyConfig config now w) := rfl
    obtain ⟨hsame, hr⟩ | ⟨-, ⟨w', hr, hrebuild⟩ | ⟨e, hr, hnone⟩⟩ := applyConfig_cases config now w
    · rw [hdef, hr] at hget kept ⊢
      have hgeometry := not_or.mp hsame
      exact kept hget rfl rfl (not_not.mp hgeometry.1) (not_not.mp hgeometry.2)
    · rw [hdef, hr] at hget ⊢
      obtain ⟨old, counter, -, hrebuilt, rfl⟩ := rebuildAll_get? hrebuild hget
      rw [Program.after_ok, (rebuildAll_ok hrebuild).1.config]
      exact ⟨hrebuilt.bucketSeconds, hrebuilt.bucketCount⟩
    · rw [hdef, hr] at hfresh
      exact absurd hfresh (hnone fresh)

theorem fits_make {shard nextSequence : ℕ} {config : DetectionConfig} {now maxTrackedIps : ℤ}
    {ips : List Address} {w : ShardWindow}
    (h : make shard config now ips nextSequence maxTrackedIps = .ok w) : w.Fits := by
  obtain ⟨-, -, hnew⟩ := make_ok (fun ip => List.mem_toFinset.symm) h
  intro fresh hfresh ip entry hget
  by_cases hip : ip ∈ ips.toFinset
  · obtain ⟨c, hc, hentry⟩ := hnew.inherited ip hip
    rw [hentry] at hget
    cases hget
    rw [hnew.config_eq]
    exact ⟨(newCounter_ok hc).1, (newCounter_empty hc).1⟩
  · rw [hnew.untracked ip hip] at hget
    cases hget

theorem Fits.run {w : ShardWindow} (h : w.Fits) (calls : List (ℤ × Call)) : (w.run calls).Fits :=
  invariant_foldl (fun _ call hw => hw.call call.1 call.2) h calls

/-- What every call keeps under a clock that does not run backwards, every run keeps. -/
theorem run_invariant {I : ShardWindow → ℤ → Prop}
    (hlater : ∀ w t t', I w t → t ≤ t' → I w t')
    (hcall : ∀ w t now call, I w t → t ≤ now → I (w.call now call) now) {w : ShardWindow} {t : ℤ}
    (h : I w t) {calls : List (ℤ × Call)} (hcalls : (t :: calls.map Prod.fst).Pairwise (· ≤ ·))
    {now : ℤ} (hnow : ∀ time ∈ t :: calls.map Prod.fst, time ≤ now) : I (w.run calls) now := by
  induction calls generalizing w t with
  | nil => exact hlater w t now h (hnow t List.mem_cons_self)
  | cons call rest ih =>
    obtain ⟨hfirst, hrest⟩ := List.pairwise_cons.mp hcalls
    have hle : t ≤ call.1 := hfirst _ List.mem_cons_self
    exact ih (hcall w t call.1 call.2 h hle) hrest fun time htime =>
      hnow time (List.mem_cons_of_mem _ htime)

theorem timely_run {shard nextSequence : ℕ} {config : DetectionConfig} {t maxTrackedIps : ℤ}
    {ips : List Address} {w : ShardWindow}
    (hmake : make shard config t ips nextSequence maxTrackedIps = .ok w)
    {calls : List (ℤ × Call)} (hclock : (t :: calls.map Prod.fst).Pairwise (· ≤ ·)) {now : ℤ}
    (hnow : ∀ time ∈ t :: calls.map Prod.fst, time ≤ now) : (w.run calls).Timely now := by
  refine run_invariant (fun w t t' h hle ip entry hget => ?_) (fun w t now call h hle =>
    h.call hle call) (timely_make hmake) hclock hnow
  exact ⟨(h ip entry hget).1, (h ip entry hget).2.trans hle⟩

/-! ### Rebucketing -/

theorem groupSum_of_mem {buckets : List (ℤ × ℤ)} (hnodup : (buckets.map Prod.fst).Nodup)
    {bucket : ℤ × ℤ} (h : bucket ∈ buckets) : IpCounter.groupSum buckets bucket.1 = bucket.2 := by
  induction buckets with
  | nil => cases h
  | cons other rest ih =>
    obtain ⟨hother, hrest⟩ := List.nodup_cons.mp hnodup
    rw [IpCounter.groupSum_cons]
    obtain rfl | h := List.mem_cons.mp h
    · have hnone : rest.filter (fun b => b.1 = bucket.1) = [] := by
        refine List.filter_eq_nil_iff.mpr fun b hb heq => hother ?_
        rw [← of_decide_eq_true heq]
        exact List.mem_map_of_mem hb
      unfold IpCounter.groupSum
      rw [if_pos rfl, hnone]
      simp
    · have hne : other.1 ≠ bucket.1 := fun heq => hother (heq ▸ List.mem_map_of_mem h)
      rw [if_neg hne, zero_add, ih hrest h]

/-- Under its own bucket length a counter's pairs are their own groups. -/
theorem grouped_self (c : IpCounter) (now : ℤ) :
    grouped c.bucketSeconds (fun start => c.isLive start now) (c.liveBuckets now) =
      c.liveBuckets now := by
  have hstart : ∀ bucket ∈ c.liveBuckets now, bucketStart bucket.1 c.bucketSeconds = bucket.1 := by
    intro bucket hbucket
    obtain ⟨-, hheld, hpos⟩ := IpCounter.mem_liveBuckets.mp hbucket
    have haligned : bucket.1.fmod c.bucketSeconds = 0 := by
      by_contra hne
      rw [IpCounter.held_of_unaligned hne] at hheld
      omega
    have hmul := eq_mul_of_aligned haligned
    unfold bucketStart
    rw [mul_comm]
    exact hmul.symm
  have hsame : rebucketed c.bucketSeconds (c.liveBuckets now) = c.liveBuckets now := by
    unfold rebucketed
    refine (List.map_congr_left fun bucket hbucket => ?_).trans (List.map_id _)
    rw [hstart bucket hbucket]
    rfl
  have hnodup : ((c.liveBuckets now).map Prod.fst).Nodup := by
    refine List.Nodup.map_on (fun a ha b hb heq => ?_) (c.liveBuckets_nodup now)
    obtain ⟨-, hheld, -⟩ := IpCounter.mem_liveBuckets.mp ha
    obtain ⟨-, hheld', -⟩ := IpCounter.mem_liveBuckets.mp hb
    exact Prod.ext heq (by rw [← hheld, ← hheld', heq])
  refine List.Perm.eq_of_pairwise' (grouped_sorted _ _ _) (c.liveBuckets_sorted now) ?_
  refine (List.perm_ext_iff_of_nodup (grouped_nodup _ _ _)
    (c.liveBuckets_nodup now)).mpr fun bucket => ?_
  rw [mem_grouped, hsame]
  constructor
  · rintro ⟨-, ⟨old, hold, heq⟩, hsum⟩
    rw [hstart old hold] at heq
    have hcount := groupSum_of_mem hnodup hold
    rw [heq, hsum] at hcount
    rw [show bucket = old from Prod.ext heq.symm hcount]
    exact hold
  · intro hbucket
    exact ⟨(IpCounter.mem_liveBuckets.mp hbucket).1, ⟨bucket, hbucket, hstart bucket hbucket⟩,
      groupSum_of_mem hnodup hbucket⟩

/-- Of every reached window and every configuration that a ring has the geometry of: the
configuration is adopted, and every tracked IP keeps all but its counter. The live pairs of its
counter are the old ones grouped under the new bucket length, those that are live under the new
window. Where the geometry changes they are all that is counted, and no count is lost as long as every
group stays live; where it does not, the counters stay as they are. -/
theorem rebucketing {shard nextSequence : ℕ} {old : DetectionConfig} {t maxTrackedIps : ℤ}
    {ips : List Address} {w₀ w : ShardWindow}
    (hmake : make shard old t ips nextSequence maxTrackedIps = .ok w₀) (calls : List (ℤ × Call))
    (hw : w = w₀.run calls) (config : DetectionConfig) (hseconds : 1 ≤ config.bucketSeconds)
    (hwindow : 1 ≤ config.windowSeconds) (now : ℤ) :
    ∃ w', applyConfig config now w = .ok ⟨⟩ w' ∧ w'.config = config ∧
      w'.warmUntil = w.warmUntil ∧ w'.nextSequence = w.nextSequence ∧
      w'.capacityEvictions = w.capacityEvictions ∧
      w'.retentionEvictions = w.retentionEvictions ∧
      ∀ ip, (w.entries.get? ip = none → w'.entries.get? ip = none) ∧
        ∀ entry, w.entries.get? ip = some entry →
          ∃ counter, w'.entries.get? ip = some { entry with counter := counter } ∧
            counter.bucketSeconds = config.bucketSeconds ∧
            (counter.bucketCount : ℤ) = config.bucketCount ∧
            counter.liveBuckets now = grouped config.bucketSeconds
              (fun start => counter.isLive start now) (entry.counter.liveBuckets now) ∧
            (w.rebuilds config →
              counter.total = ((counter.liveBuckets now).map Prod.snd).sum ∧
              ((∀ bucket ∈ entry.counter.liveBuckets now,
                  counter.isLive (bucketStart bucket.1 config.bucketSeconds) now = true) →
                counter.total = ((entry.counter.liveBuckets now).map Prod.snd).sum)) ∧
            (¬ w.rebuilds config → counter = entry.counter) := by
  obtain ⟨fresh, hfresh⟩ : ∃ fresh, newCounter config = .ok fresh := by
    refine IpCounter.exists_makeRing (by omega) ?_
    have hmul := config.bucketSeconds_mul_bucketCount
    have hpos : 0 < config.bucketSeconds * config.bucketCount := by omega
    exact (mul_pos_iff_of_pos_left (by omega)).mp hpos
  obtain ⟨hsame, hr⟩ | ⟨hrebuilds, ⟨w', hr, hrebuild⟩ | ⟨e, -, hnone⟩⟩ :=
    applyConfig_cases config now w
  · -- The geometry is the old one, and the counters fit it.
    obtain ⟨hb, hc⟩ := not_or.mp hsame
    refine ⟨_, hr, rfl, rfl, rfl, rfl, rfl, fun ip => ⟨fun hget => hget, fun entry hget => ?_⟩⟩
    have hfits : w.Fits := by
      rw [hw]
      exact (fits_make hmake).run calls
    have hold : newCounter w.config = .ok fresh := by
      unfold newCounter at hfresh ⊢
      rw [← not_not.mp hb, ← not_not.mp hc]
      exact hfresh
    obtain ⟨hseconds', hcount'⟩ := hfits fresh hold ip entry hget
    rw [← not_not.mp hb] at hseconds'
    rw [← not_not.mp hc] at hcount'
    refine ⟨entry.counter, hget, hseconds', hcount', ?_, fun h => absurd h hsame, fun _ => rfl⟩
    rw [← hseconds']
    exact (grouped_self entry.counter now).symm
  -- Every entry was rebuilt, each on its own.
  · obtain ⟨hf, hentries⟩ := rebuildAll_ok hrebuild
    have hkept := (rebuildAll_sameRetention config now).of_ok hrebuild
    refine ⟨w', hr, hf.config, hf.warmUntil, hf.nextSequence, hkept.capacityEvictions,
      hkept.retentionEvictions, fun ip => ⟨fun hget => ?_, fun entry hget => ?_⟩⟩
    · obtain ⟨-, hn⟩ | ⟨entry, c', hentry, -⟩ := hentries ip
      · exact hn
      · rw [show w.entries.get? ip = some entry from hentry] at hget
        cases hget
    · obtain ⟨hn, -⟩ | ⟨entry', c', hentry, -, hnew⟩ := hentries ip
      · rw [show w.entries.get? ip = none from hn] at hget
        cases hget
      · obtain ⟨entry'', counter, hentry'', hrebuilt, heq⟩ := rebuildAll_get? hrebuild hnew
        rw [show w.entries.get? ip = some entry'' from hentry''] at hget
        cases hget
        rw [heq] at hnew
        exact ⟨counter, hnew, hrebuilt.bucketSeconds, hrebuilt.bucketCount, hrebuilt.liveBuckets,
          fun _ => ⟨hrebuilt.total, hrebuilt.kept⟩, fun h => absurd hrebuilds h⟩
  -- A rebuild fails only where the geometry makes no counter.
  · exact absurd hfresh (hnone fresh)

/-- The defaults with longer buckets. -/
def coarseConfig : DetectionConfig :=
  { Ingest.nextDefaultConfig with
    bucketSeconds := 20
    bucketSeconds_ne := by decide
    bucketSeconds_dvd := by decide }

/-- Two buckets of ten seconds become one of twenty. -/
theorem rebucketing_coarse : ∃ (w₀ w w' : ShardWindow) (entry : Entry) (counter : IpCounter),
    make 0 Ingest.defaultConfig 0 [] 0 1000 = .ok w₀ ∧
      w = w₀.run [(5, .observe ⟨.ipv4, 1, by decide⟩ 0 5),
        (15, .observe ⟨.ipv4, 1, by decide⟩ 10 7)] ∧
      applyConfig coarseConfig 15 w = .ok ⟨⟩ w' ∧
      w.entries.get? ⟨.ipv4, 1, by decide⟩ = some entry ∧
      w'.entries.get? ⟨.ipv4, 1, by decide⟩ = some { entry with counter := counter } ∧
      counter.total = ((entry.counter.liveBuckets 15).map Prod.snd).sum := by
  obtain ⟨w', hr, -, -, -, -, -, hentries⟩ := rebucketing
    (show make 0 Ingest.defaultConfig 0 [] 0 1000 = .ok _ from rfl)
    [(5, .observe ⟨.ipv4, 1, by decide⟩ 0 5), (15, .observe ⟨.ipv4, 1, by decide⟩ 10 7)] rfl
    coarseConfig (by decide) (by decide) 15
  obtain ⟨counter, hget, hseconds, hcount, -, hrebuilds, -⟩ :=
    (hentries ⟨.ipv4, 1, by decide⟩).2 _ rfl
  have hlive : ∀ start, counter.isLive start 15 = decide (0 ≤ 0 - start ∧ 0 - start < 300) := by
    intro start
    unfold IpCounter.isLive IpCounter.windowSeconds
    rw [hseconds, hcount]
    rfl
  refine ⟨_, _, w', _, counter, rfl, rfl, hr, rfl, hget, (hrebuilds (by decide)).2 ?_⟩
  simp only [hlive]
  decide

/-- Where the geometry stays, a counter goes on counting a bucket that has left the window and is not
swept yet: its total is not the sum of the live groups. -/
theorem rebucketing_unswept : ∃ w₀ w' entry entry',
    make 0 Ingest.defaultConfig 0 [] 0 1000 = .ok w₀ ∧
      applyConfig { Ingest.defaultConfig with configVersion := 2, configVersion_pos := by decide } 1000
        (w₀.run [(5, .observe ⟨.ipv4, 1, by decide⟩ 0 5)]) = .ok ⟨⟩ w' ∧
      (w₀.run [(5, .observe ⟨.ipv4, 1, by decide⟩ 0 5)]).entries.get? ⟨.ipv4, 1, by decide⟩ =
        some entry ∧
      w'.entries.get? ⟨.ipv4, 1, by decide⟩ = some entry' ∧
      entry'.counter.total = 5 ∧
      ((grouped 10 (fun start => entry'.counter.isLive start 1000)
        (entry.counter.liveBuckets 1000)).map Prod.snd).sum = 0 :=
  ⟨_, _, _, _, rfl, rfl, rfl, rfl, rfl, rfl⟩

/-! ### The classification of observations -/

/-- An observation is applied exactly when it is not longer than the window, has started, and its
bucket is at most one window old. The test of its raw age decides nothing more. -/
theorem classifyObservation_applied_iff (config : DetectionConfig)
    (hseconds : 1 ≤ config.bucketSeconds) (hlateness : 0 ≤ config.allowedLatenessSeconds)
    (windowStart windowSeconds now : ℤ) :
    classifyObservation windowStart windowSeconds now config = .applied ↔
      windowSeconds ≤ config.windowSeconds ∧ windowStart ≤ now ∧
        now < bucketStart windowStart config.bucketSeconds + config.windowSeconds := by
  have hpos : 0 < config.bucketSeconds := by omega
  have hle := bucketStart_le hpos windowStart
  have hend := mul_le_bucketStart_iff hpos
    (windowStart.fdiv config.bucketSeconds + config.bucketCount) now
  rw [mul_add, config.bucketSeconds_mul_bucketCount] at hend
  have hstart : config.bucketSeconds * windowStart.fdiv config.bucketSeconds =
      bucketStart windowStart config.bucketSeconds := mul_comm _ _
  rw [hstart] at hend
  unfold classifyObservation
  split_ifs with hlong hfuture hlate hexpired
  all_goals simp only [false_iff, true_iff]
  all_goals omega

/-- A window under a configuration applies what is classified as applied under it. -/
theorem observe_of_applied {w : ShardWindow} (hw : w.Fits) (hseconds : 1 ≤ w.config.bucketSeconds)
    (hlateness : 0 ≤ w.config.allowedLatenessSeconds) {windowStart windowSeconds now delta : ℤ}
    (hdelta : 0 ≤ delta)
    (happlied : classifyObservation windowStart windowSeconds now w.config = .applied)
    (ip : Address) :
    ∃ c change w' entry, w.counterOf ip = .ok c ∧
      w.observe ip (bucketStart windowStart w.config.bucketSeconds) delta now =
        .ok (some change, w') ∧
      w'.entries.get? ip = some entry ∧
      entry.counter.held (bucketStart windowStart w.config.bucketSeconds) =
        c.held (bucketStart windowStart w.config.bucketSeconds) + delta := by
  generalize hstart : bucketStart windowStart w.config.bucketSeconds = start
  have hpos : 0 < w.config.bucketSeconds := by omega
  have hle := bucketStart_le hpos windowStart
  obtain ⟨-, hstarted, hend⟩ :=
    (classifyObservation_applied_iff w.config hseconds hlateness _ _ _).mp happlied
  rw [hstart] at hle hend
  -- A bucket of the window is live, so that there is a window.
  obtain ⟨fresh, hfresh⟩ : ∃ fresh, newCounter w.config = .ok fresh := by
    refine IpCounter.exists_makeRing hpos ?_
    have hmul := w.config.bucketSeconds_mul_bucketCount
    exact (mul_pos_iff_of_pos_left hpos).mp (by omega)
  -- The counter of the IP applies the observation.
  have applies : ∀ c : IpCounter, c.bucketSeconds = w.config.bucketSeconds →
      (c.bucketCount : ℤ) = w.config.bucketCount →
      ∃ c', c.observe start delta now = .ok (true, c') ∧ c'.held start = c.held start + delta := by
    intro c hc hcount
    have haligned : start.fmod c.bucketSeconds = 0 := by
      rw [hc, ← hstart]
      exact bucketStart_fmod _ _
    have hwindow : c.windowSeconds = w.config.windowSeconds := by
      unfold IpCounter.windowSeconds
      rw [hc, hcount, w.config.bucketSeconds_mul_bucketCount]
    have hlive : c.isLive start now = true :=
      (IpCounter.isLive_iff haligned).mpr ⟨by omega, by rw [hwindow]; exact hend⟩
    refine ⟨c.add start delta haligned hdelta, ?_, IpCounter.held_add_self haligned hdelta⟩
    unfold IpCounter.observe
    rw [dif_pos haligned, dif_pos hdelta, if_pos hlive]
  cases hget : w.entries.get? ip with
  | none =>
    obtain ⟨c', hc', hheld⟩ := applies fresh (newCounter_ok hfresh).1 (newCounter_empty hfresh).1
    refine ⟨fresh, _, _, ⟨c', .cold, start, false⟩, ?_, observe_of_untracked hget hfresh hc', ?_,
      hheld⟩
    · unfold counterOf
      rw [hget]
      exact hfresh
    · rw [scheduleExpiry_entries, track_entries, Dict.get?_set_self]
  | some entry =>
    obtain ⟨hgeometry, hcount⟩ := hw fresh hfresh ip entry hget
    obtain ⟨c', hc', hheld⟩ := applies entry.counter hgeometry hcount
    refine ⟨entry.counter, _, _, { entry with counter := c', lastSeen := max entry.lastSeen start },
      ?_, observe_of_tracked hget hc' rfl, ?_, hheld⟩
    · unfold counterOf
      rw [hget]
    · rw [scheduleExpiry_entries, Dict.get?_set_self]

/-- The classification of an observation agrees with a ring of the configured geometry. -/
theorem classification_agrees (config : DetectionConfig) (hseconds : 1 ≤ config.bucketSeconds)
    (hlateness : 0 ≤ config.allowedLatenessSeconds) (windowStart windowSeconds now : ℤ) :
    (∀ c : IpCounter, c.bucketSeconds = config.bucketSeconds →
      (c.bucketCount : ℤ) = config.bucketCount →
      (classifyObservation windowStart windowSeconds now config = .applied ↔
        windowSeconds ≤ config.windowSeconds ∧ windowStart ≤ now ∧
          c.isLive (bucketStart windowStart config.bucketSeconds) now = true) ∧
      (classifyObservation windowStart windowSeconds now config = .late →
        c.isLive (bucketStart windowStart config.bucketSeconds) now = false ∧
          bucketStart windowStart config.bucketSeconds + c.windowSeconds ≤ now)) ∧
    (∀ (shard nextSequence : ℕ) (old : DetectionConfig) (t maxTrackedIps : ℤ) (ips : List Address)
      (w₀ w : ShardWindow) (calls : List (ℤ × Call)),
      make shard old t ips nextSequence maxTrackedIps = .ok w₀ → w = w₀.run calls →
      w.config = config → classifyObservation windowStart windowSeconds now config = .applied →
      ∀ (ip : Address) (delta : ℤ), 0 ≤ delta →
        ∃ c change w' entry, w.counterOf ip = .ok c ∧
          w.observe ip (bucketStart windowStart config.bucketSeconds) delta now =
            .ok (some change, w') ∧
          w'.entries.get? ip = some entry ∧
          entry.counter.held (bucketStart windowStart config.bucketSeconds) =
            c.held (bucketStart windowStart config.bucketSeconds) + delta) ∧
    ∀ lateness, config.allowedLatenessSeconds ≤ lateness →
      (classifyObservation windowStart windowSeconds now
          { config with allowedLatenessSeconds := lateness } = .applied ↔
        classifyObservation windowStart windowSeconds now config = .applied) := by
  have hpos : 0 < config.bucketSeconds := by omega
  have hle := bucketStart_le hpos windowStart
  have hiff := classifyObservation_applied_iff config hseconds hlateness windowStart windowSeconds now
  refine ⟨fun c hc hcount => ?_, ?_, fun lateness hraised => ?_⟩
  · have haligned : (bucketStart windowStart config.bucketSeconds).fmod c.bucketSeconds = 0 := by
      rw [hc]
      exact bucketStart_fmod _ _
    have hwindow : c.windowSeconds = config.windowSeconds := by
      unfold IpCounter.windowSeconds
      rw [hc, hcount, config.bucketSeconds_mul_bucketCount]
    rw [hiff, IpCounter.isLive_iff haligned, IpCounter.isLive_eq_false_iff haligned, hwindow]
    refine ⟨by omega, fun hlate => ?_⟩
    unfold classifyObservation at hlate
    split_ifs at hlate
    omega
  · intro shard nextSequence old t maxTrackedIps ips w₀ w calls hmake hw hconfig happlied ip delta hdelta
    subst hconfig
    rw [hw] at hseconds hlateness happlied ⊢
    exact observe_of_applied ((fits_make hmake).run calls) hseconds hlateness hdelta happlied ip
  · have hraised := classifyObservation_applied_iff
      { config with allowedLatenessSeconds := lateness } hseconds (hlateness.trans hraised)
      windowStart windowSeconds now
    exact hraised.trans hiff.symm

/-- Under the defaults an observation of an aligned bucket that is 290 seconds old is applied, and the
window counts it. -/
theorem classification_agrees_default : ∃ w₀ w' change,
    make 0 Ingest.defaultConfig 0 [] 0 1000 = .ok w₀ ∧
      w₀.observe ⟨.ipv4, 1, by decide⟩ 710 5 1000 = .ok (some change, w') := by
  obtain ⟨c, change, w', entry, -, hobserve, -⟩ :=
    (classification_agrees Ingest.defaultConfig (by decide) (by decide) 710 10 1000).2.1 0 0
      Ingest.defaultConfig 0 1000 [] _ _ [] rfl rfl rfl (by decide) ⟨.ipv4, 1, by decide⟩ 5
      (by decide)
  exact ⟨_, w', change, rfl, hobserve⟩

end ShardWindow

end Hammertime.Aggregator
