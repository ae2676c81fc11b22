import Hammertime.Aggregator.Delivery
import Hammertime.Aggregator.Hysteresis
import Hammertime.Ingest.Dedup

/-!
# The message that promotes an IP

`_count_observation` adds the count to the window and evaluates the IP at once. A message that keeps
its IP below the threshold changes the window only (`Ready.quiet`). One that brings a COLD IP to
`hot_threshold` makes the edge: it is recorded, published and set, and counts what the window then has
(`Ready.promotes`).
-/

namespace Hammertime.Aggregator

open Lib World

variable {env : Env}

/-- In the log, under an id that was not used before. -/
theorem hotIp_announced {scope : Scope} {ip : Address} {edge : Edge} {eventId : String}
    {value : Bytes} (hfresh : eventId ∉ scope.shared.hotIp.seenIds) :
    (announced env scope ip edge eventId value).hotIp =
      { log := scope.shared.hotIp.log ++ [⟨utf8 (env.text ip), value⟩]
        seenIds := insert eventId scope.shared.hotIp.seenIds } :=
  if_neg hfresh

/-- An observation that makes no edge reads the clock once. -/
theorem countObservation_quiet {shared : Shared} {w w' : ShardWindow} {windowStart : ℤ}
    {entry : Observation} {config : DetectionConfig} {change : Option WindowChange}
    (hobserve : w.observe entry.ip (bucketStart windowStart w.config.bucketSeconds)
      entry.requestCount (env.now shared.tick) = .ok (change, w'))
    (hquiet : (edgeOf w' entry.ip config).current = w'.state entry.ip) :
    countObservation env windowStart entry config ⟨shared, w⟩ = .ok ⟨⟩ ⟨shared.advance, w'⟩ := by
  have hdecide : decideEdge env entry.ip config ⟨shared.advance, w'⟩ =
      .ok none ⟨shared.advance, w'⟩ := congrFun (if_pos hquiet) _
  refine Program.bind_ok.mpr ⟨_, _, rfl, Program.bind_ok.mpr ⟨change, ⟨shared.advance, w'⟩,
    Program.bind_ok.mpr ⟨_, _, rfl, inside_ok.mpr ⟨w', hobserve, rfl⟩⟩, ?_⟩⟩
  exact Program.bind_ok.mpr ⟨none, _, Program.bind_ok.mpr ⟨none, _, hdecide, rfl⟩, rfl⟩

/-- An evaluation that finds a COLD IP at the threshold promotes it, in a log that has no event yet. -/
theorem evaluate_promotes {scope scope' : Scope} {ip : Address} {config : DetectionConfig}
    {answer : Option EmittedTransition} (hevaluate : evaluate env ip config scope = .ok answer scope')
    (hcold : scope.window.state ip = .cold) (hdue : config.hotThreshold ≤ scope.window.total ip)
    (hlog : scope.shared.hotIp = ⟨[], ∅⟩) :
    ∃ event, shardEvents env scope'.window.shard scope'.shared.hotIp.log = [event] ∧
      event.type = .added ∧ event.ip = ip ∧ event.windowCount = scope.window.total ip ∧
      (∃ tick, scope.shared.tick ≤ tick ∧ event.timestamp = env.now tick) ∧
      ∃ tracked, scope.window.entries.get? ip = some tracked ∧
        scope'.window.entries.get? ip = some { tracked with state := .hot } := by
  have hedge : (edgeOf scope.window ip config).current = .hot := by
    show evaluateIpState (scope.window.state ip) _ config = .hot
    rw [hcold]
    exact evaluateIpState_cold_eq_hot.mpr hdue
  -- Of the three ways an evaluation ends, only the edge is left.
  obtain ⟨-, -, -, hsame | ⟨hkept, -⟩⟩ | ⟨s₁, emitted, -, hd, hemit⟩ := evaluate_ok hevaluate
  · rw [hedge, hcold] at hsame
    cases hsame
  · rw [hedge] at hkept
    cases hkept
  · obtain ⟨eventId, value, w'', henc, hset, rfl, -⟩ := emit_ok hemit
    obtain ⟨attributes, hevents⟩ := shardEvents_concat henc [] (utf8 (env.text ip))
    obtain ⟨tracked, htracked, hframed, hentries⟩ := ShardWindow.setState_ok hset
    have hwindow : s₁.window = scope.window := hd.window
    have hempty : s₁.shared.hotIp = ⟨[], ∅⟩ := hd.shared.hotIp.trans hlog
    have hannounced : (announced env s₁ ip (edgeOf scope.window ip config) eventId value).hotIp =
      _ := hotIp_announced (by rw [hempty]; exact Finset.notMem_empty _)
    refine ⟨eventOf ip (edgeOf scope.window ip config) s₁.window.nextSequence config
      (env.now s₁.shared.tick) attributes, ?_, ?_, rfl, rfl, ⟨s₁.shared.tick, hd.shared.tick, rfl⟩,
      tracked, hwindow ▸ htracked, ?_⟩
    · have hshard : w''.shard = s₁.window.shard := hframed.shard
      dsimp only
      rw [hannounced, hempty, hshard]
      exact hevents
    · show eventTypeOf (edgeOf scope.window ip config).current = .added
      rw [hedge]
      rfl
    · rw [hentries, Dict.get?_set_self, hedge]
      simp

/-- An observation that brings a COLD IP to the threshold is counted and the IP promoted, in a log
that has no event yet. -/
theorem countObservation_promotes (henv : env.Orderly) {shared : Shared} {w w' : ShardWindow}
    {windowStart : ℤ} {entry : Observation} {config : DetectionConfig}
    {change : Option WindowChange} (hconfig : config.SchemaValid) (hhyst : Hysteretic ∅ config w)
    (hobserve : w.observe entry.ip (bucketStart windowStart w.config.bucketSeconds)
      entry.requestCount (env.now shared.tick) = .ok (change, w'))
    (hcold : w'.state entry.ip = .cold) (hdue : config.hotThreshold ≤ w'.total entry.ip)
    (hlog : shared.hotIp = ⟨[], ∅⟩) :
    ∃ scope event, countObservation env windowStart entry config ⟨shared, w⟩ = .ok ⟨⟩ scope ∧
      shardEvents env scope.window.shard scope.shared.hotIp.log = [event] ∧ event.type = .added ∧
      event.ip = entry.ip ∧ event.windowCount = w'.total entry.ip ∧
      (∃ tick, shared.tick ≤ tick ∧ event.timestamp = env.now tick) ∧
      ∃ tracked, w'.entries.get? entry.ip = some tracked ∧
        scope.window.entries.get? entry.ip = some { tracked with state := .hot } := by
  cases hcount : countObservation env windowStart entry config ⟨shared, w⟩ with
  | error e scope =>
    exact ((Hysteretic.countObservation henv hconfig windowStart entry).of_error
      (s := ⟨shared, w⟩) hhyst hcount).elim
  | ok r scope =>
    obtain ⟨_, _, hget, hrest⟩ := Program.bind_ok.mp hcount
    cases hget
    obtain ⟨change', scope₁, hobserved, hsettle⟩ := Program.bind_ok.mp hrest
    obtain ⟨hwindow, hshared⟩ := observe_ok hobserved
    cases hobserve.symm.trans hwindow
    obtain ⟨answer, scope₂, hevaluate, hpure⟩ := Program.bind_ok.mp hsettle
    cases hpure
    obtain ⟨event, hevents, htype, hip, hwindowCount, ⟨tick, htick, htime⟩, hset⟩ :=
      evaluate_promotes hevaluate hcold hdue (by rw [hshared]; exact hlog)
    -- The observation has read the clock once before.
    rw [hshared] at htick
    exact ⟨_, event, rfl, hevents, htype, hip, hwindowCount,
      ⟨tick, (Nat.le_succ _).trans htick, htime⟩, hset⟩

/-- A worker with one claimed window that has promoted nothing yet, and that no message of `offset`
or later has reached. -/
structure Ready (config : DetectionConfig) (offset tick : ℕ) (w : ShardWindow) (s : World) :
    Prop where
  valid : config.SchemaValid
  hysteretic : Hysteretic ∅ config w
  shard : w.shard = 0
  running : s.worker.stopping = false
  config_eq : s.worker.config = config
  tick : s.shared.tick = tick
  hotIp : s.shared.hotIp = ⟨[], ∅⟩
  window : s.worker.claims.windows.get? 0 = some w
  position : (s.worker.claims.positions.get? 0).any (offset < ·) = false

namespace Ready

variable {config : DetectionConfig} {offset tick : ℕ} {w w' : ShardWindow} {s : World}
  {message : ConsumedMessage} {eventId : String} {payload : RequestObservation}
  {entry : Observation} {change : Option WindowChange}

/-- The message is counted, and what that leaves is written back and marked. -/
theorem counted (h : Ready config offset tick w s) (hpartition : message.partition = 0)
    (hoffset : message.offset = offset)
    (hdecode : decodeObservation env message = some (eventId, payload, entry))
    (hclass : classifyObservation payload.windowStart payload.windowSeconds (env.now tick) config =
      .applied) {scope : Scope}
    (hcount : countObservation env payload.windowStart entry config ⟨s.shared.advance, w⟩ =
      .ok ⟨⟩ scope) :
    ∃ t, handle env message s = .ok .applied t ∧ t.shared = scope.shared ∧
      t.worker.stopping = false ∧ t.worker.config = config ∧
      t.worker.claims.windows.get? 0 = some scope.window ∧
      (t.worker.claims.positions.get? 0).any (offset + 1 < ·) = false := by
  obtain ⟨hw, hposition⟩ := And.intro h.window h.position
  rw [← hpartition, ← hoffset] at hposition
  rw [← hpartition] at hw
  rw [← h.tick, ← h.config_eq] at hclass
  rw [← h.config_eq] at hcount
  generalize hu : ({ s with shared := s.shared.advance } : World).setWindow message.partition
    scope = u
  have hwritten : u.worker.claims.windows.get? message.partition = some scope.window := by
    rw [← hu]
    exact Dict.get?_set_self _ _ _
  have hpositions : u.worker.claims.positions = s.worker.claims.positions := by
    rw [← hu]
    rfl
  have hheld : u.worker.claims.windows.contains message.partition = true :=
    congrArg Option.isSome hwritten
  obtain ⟨claims, hmark⟩ : ∃ claims, u.worker.claims.markHandled message = .ok claims :=
    ⟨_, if_pos hheld⟩
  have hwindows := markHandled_windows hmark
  refine ⟨{ u with worker := { u.worker with claims := claims } }, ?_, ?_, ?_, ?_, ?_, ?_⟩
  · rw [handle_decoded h.running (congrArg Option.isSome hw) hposition hdecode,
      handleObservation_applied hclass]
    exact Program.bind_ok.mpr ⟨⟨⟩, u, onWindow_ok.mpr ⟨w, scope, hw, hcount, hu.symm⟩,
      Program.bind_ok.mpr ⟨⟨⟩, _, modifyClaims_ok hmark, rfl⟩⟩
  · rw [← hu]
    rfl
  · rw [← hu]
    exact h.running
  · rw [← hu]
    exact h.config_eq
  · show claims.windows.get? 0 = _
    rw [hwindows, ← hpartition]
    exact hwritten
  · -- The position is raised past the message, as no later one was handled before.
    unfold ShardClaims.markHandled at hmark
    rw [if_pos hheld] at hmark
    cases hmark
    have hraises : (s.worker.claims.positions.get? message.partition).all
        (· < message.offset + 1) = true := by
      cases hget : s.worker.claims.positions.get? message.partition with
      | none => rfl
      | some position =>
        rw [hget] at hposition
        simp only [Option.any_some, decide_eq_false_iff_not] at hposition
        simp only [Option.all_some, decide_eq_true_eq]
        omega
    dsimp only
    rw [hpositions, if_pos hraises, hpartition, Dict.get?_set_self, hoffset]
    simp

/-- One that makes no edge. -/
theorem quiet (henv : env.Orderly) (h : Ready config offset tick w s)
    (hpartition : message.partition = 0) (hoffset : message.offset = offset)
    (hdecode : decodeObservation env message = some (eventId, payload, entry))
    (hclass : classifyObservation payload.windowStart payload.windowSeconds (env.now tick) config =
      .applied)
    (hobserve : w.observe entry.ip (bucketStart payload.windowStart w.config.bucketSeconds)
      entry.requestCount (env.now (tick + 1)) = .ok (change, w'))
    (hquiet : (edgeOf w' entry.ip config).current = w'.state entry.ip) :
    ∃ t, handle env message s = .ok .applied t ∧ Ready config (offset + 1) (tick + 2) w' t := by
  have htick : s.shared.advance.tick = tick + 1 := congrArg (· + 1) h.tick
  rw [← htick] at hobserve
  have hcount := countObservation_quiet hobserve hquiet
  obtain ⟨t, ht, hshared, hrun, hconfig, hwindow, hposition⟩ :=
    h.counted hpartition hoffset hdecode hclass hcount
  have hhyst := (Hysteretic.countObservation henv h.valid payload.windowStart entry).of_ok
    (s := ⟨s.shared.advance, w⟩) h.hysteretic hcount
  have hshard := ((countObservation_local env _ _ _).of_ok hcount).shard
  refine ⟨t, ht, h.valid, hhyst, hshard.trans h.shard, hrun, hconfig, ?_, ?_, hwindow, hposition⟩
  · rw [hshared]
    exact congrArg (· + 1) htick
  · rw [hshared]
    exact h.hotIp

/-- One that promotes its IP. -/
theorem promotes (henv : env.Orderly) (h : Ready config offset tick w s)
    (hpartition : message.partition = 0) (hoffset : message.offset = offset)
    (hdecode : decodeObservation env message = some (eventId, payload, entry))
    (hclass : classifyObservation payload.windowStart payload.windowSeconds (env.now tick) config =
      .applied)
    (hobserve : w.observe entry.ip (bucketStart payload.windowStart w.config.bucketSeconds)
      entry.requestCount (env.now (tick + 1)) = .ok (change, w'))
    (hcold : w'.state entry.ip = .cold) (hdue : config.hotThreshold ≤ w'.total entry.ip) :
    ∃ t v event, handle env message s = .ok .applied t ∧
      t.worker.claims.windows.get? 0 = some v ∧
      shardEvents env 0 t.shared.hotIp.log = [event] ∧ event.type = .added ∧
      event.ip = entry.ip ∧ event.windowCount = w'.total entry.ip ∧
      (∃ later, tick < later ∧ event.timestamp = env.now later) ∧
      ∃ tracked, w'.entries.get? entry.ip = some tracked ∧
        v.entries.get? entry.ip = some { tracked with state := .hot } := by
  have htick : s.shared.advance.tick = tick + 1 := congrArg (· + 1) h.tick
  rw [← htick] at hobserve
  obtain ⟨scope, event, hcount, hlog, htype, hip, hwindowCount, ⟨later, hlater, htime⟩,
      tracked, htracked, hset⟩ :=
    countObservation_promotes henv h.valid h.hysteretic hobserve hcold hdue h.hotIp
  obtain ⟨t, ht, hshared, -, -, hwindow, -⟩ := h.counted hpartition hoffset hdecode hclass hcount
  have hshard' : scope.window.shard = 0 :=
    ((countObservation_local env _ _ _).of_ok hcount).shard.trans h.shard
  refine ⟨t, _, event, ht, hwindow, ?_, htype, hip, hwindowCount, ⟨later, by omega, htime⟩, tracked,
    htracked, hset⟩
  rw [hshared, ← hshard']
  exact hlog

end Ready

/-- A member that claims the shard is ready for its first message. -/
theorem exists_ready (now : ℕ → ℤ) (henv : (interpreterEnv now fun _ => .returns).Orderly)
    {hot : Finset Address} {nextSequence : ℕ} {maxTrackedIps : ℤ} {w : ShardWindow}
    (hmake : ShardWindow.make 0 Ingest.defaultConfig (now 2) hot.toList nextSequence maxTrackedIps =
      .ok w) :
    ∃ s, onAssigned (interpreterEnv now fun _ => .returns) {0} ⟨sharedWith hot nextSequence,
          .make Ingest.defaultConfig "member" "instance" 30 maxTrackedIps 1000⟩ = .ok ⟨⟩ s ∧
      Ready Ingest.defaultConfig 0 4 w s ∧ s.worker.claims.windows.keys = [0] := by
  obtain ⟨s, hassigned, hclaimed⟩ := onAssigned_free (sharedWith hot nextSequence)
    (.make Ingest.defaultConfig "member" "instance" 30 maxTrackedIps 1000) (henv.noCallFails _)
    (henv.noCallFails _) rfl rfl (show (0 : ℚ) < 30 by norm_num) hmake
  have hstarted : Started (interpreterEnv now fun _ => .returns) (sharedWith hot nextSequence)
      Ingest.defaultConfig 1000 s := ⟨_, _, _, _, _, hassigned⟩
  have hvalid : Ingest.defaultConfig.SchemaValid := by decide
  have hsteady : Steady DetectionConfig.SchemaValid 1000
      (fun config scope => Hysteretic ∅ config scope.window) s :=
    hstarted.steady hvalid fun w _ hopened => hopened.hysteretic hvalid
  have hworker := hclaimed.worker
  have hwindow : s.worker.claims.windows.get? 0 = some w := by
    rw [hworker]
    exact Dict.get?_set_self _ _ _
  have hconfig : s.worker.config = Ingest.defaultConfig := by
    rw [hworker]
    rfl
  obtain ⟨hshard, hhyst⟩ := hsteady.windows 0 w hwindow
  refine ⟨s, hassigned, ⟨hvalid, hconfig ▸ hhyst, hshard, hsteady.running, hconfig, hclaimed.tick,
    hclaimed.hotIp, hwindow, ?_⟩, ?_⟩
  · rw [hworker]
    rfl
  · rw [hworker]
    rfl

/-- A member that inherits `0.0.0.1` promotes `0.0.0.2` at its first message. -/
theorem exists_promoted : ∃ (message : ConsumedMessage) (s : World) (w : ShardWindow) (t : World)
    (v : ShardWindow) (event : HotIpEvent) (tracked : Entry),
    Started sampleEnv (sharedWith {⟨.ipv4, 1, by decide⟩} 3) Ingest.defaultConfig 1000 s ∧
    s.worker.claims.windows.get? 0 = some w ∧ w.warmUntil = some 300 ∧
    w.isInherited ⟨.ipv4, 1, by decide⟩ = true ∧ handle sampleEnv message s = .ok .applied t ∧
    t.worker.claims.windows.get? 0 = some v ∧
    shardEvents sampleEnv 0 t.shared.hotIp.log = [event] ∧ event.type = .added ∧
    event.ip = ⟨.ipv4, 2, by decide⟩ ∧ tracked.inherited = false ∧
    v.entries.get? ⟨.ipv4, 2, by decide⟩ = some { tracked with state := .hot } := by
  obtain ⟨message, eventId, hpartition, hoffset, hdecode⟩ := exists_delivery
    (Codec.libraryWith none (by simp)) rfl (fun _ => 0) (fun _ => .returns)
    (show datetimeRange 0 = true by decide) (show (1 : ℤ) ≤ 10 ∧ (10 : ℤ) ≤ 3600 by decide)
    ⟨⟨.ipv4, 2, by decide⟩, 1000⟩ (by decide) 0 0
  obtain ⟨w, w', change, entry, hmake, hwarm, hinherited, hobserve, hcold, htotal, hentry, hflag⟩ :
      ∃ w w' change entry,
        ShardWindow.make 0 Ingest.defaultConfig 0 [⟨.ipv4, 1, by decide⟩] 3 1000 = .ok w ∧
        w.warmUntil = some 300 ∧ w.isInherited ⟨.ipv4, 1, by decide⟩ = true ∧
        w.observe ⟨.ipv4, 2, by decide⟩ (bucketStart 0 w.config.bucketSeconds) (1000 : ℕ) 0 =
          .ok (change, w') ∧
        w'.state ⟨.ipv4, 2, by decide⟩ = .cold ∧ w'.total ⟨.ipv4, 2, by decide⟩ = 1000 ∧
        w'.entries.get? ⟨.ipv4, 2, by decide⟩ = some entry ∧ entry.inherited = false :=
    ⟨_, _, _, _, rfl, rfl, rfl, rfl, rfl, rfl, rfl, rfl⟩
  rw [← Finset.toList_singleton] at hmake
  obtain ⟨s, hassigned, hready, -⟩ := exists_ready (fun _ => 0) orderly_sampleEnv hmake
  obtain ⟨t, v, event, ht, hv, hevents, htype, hip, -, -, tracked, htracked, hset⟩ :=
    hready.promotes orderly_sampleEnv hpartition hoffset hdecode rfl hobserve hcold
      (by rw [htotal]; decide)
  rw [hentry] at htracked
  cases htracked
  exact ⟨message, s, w, t, v, event, entry, ⟨_, _, _, _, _, hassigned⟩, hready.window, hwarm,
    hinherited, ht, hv, hevents, htype, hip, hflag, hset⟩

end Hammertime.Aggregator
