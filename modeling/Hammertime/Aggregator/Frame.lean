import Hammertime.Aggregator.EmitterSpec
import Hammertime.Aggregator.Worker

/-!
# What a program on one window leaves alone

The windows of a worker share the store and the log, and an invariant of one shard has to survive
what is done for the others. `Foreign shard s t` says that nothing of the shard's own happened
between `s` and `t`: its durable state is the same and no record or event id of its own appeared.
Every program on a window is `Local`: it is foreign to every other shard. The records of a shard are
told apart by the agent id in them, and its event ids by what they hash.
-/

namespace Hammertime.Aggregator

open Lib

/-! ### The events of a shard -/

/-- The id of the event a shard emits for a sequence number, a type and an IP. -/
def shardEventId (env : Env) (shard sequence : ℕ) (type : HotIpEventType) (ip : Address) : String :=
  env.digest (identityText (shardAgentId shard) sequence type.text (some (env.text ip)))

theorem toList_shardAgentId (shard : ℕ) :
    (shardAgentId shard).toList = "aggregator-shard-".toList ++ (toString shard).toList := by
  show ("aggregator-shard-" ++ toString shard).toList = _
  exact String.toList_append

theorem separator_notMem_shardAgentId (shard : ℕ) : '\x1f' ∉ (shardAgentId shard).toList := by
  rw [toList_shardAgentId, List.mem_append, not_or]
  exact ⟨by decide, separator_notMem_repr shard⟩

/-- With a digest that keeps the hashed texts apart, an event id names its shard and sequence. -/
theorem shardEventId_inj {env : Env} (hdigest : Function.Injective env.digest)
    {shard shard' sequence sequence' : ℕ} {type type' : HotIpEventType} {ip ip' : Address}
    (h : shardEventId env shard sequence type ip = shardEventId env shard' sequence' type' ip') :
    shardAgentId shard = shardAgentId shard' ∧ sequence = sequence' :=
  identityText_inj (separator_notMem_shardAgentId shard) (separator_notMem_shardAgentId shard')
    (hdigest h)

theorem shardAgentId_inj {shard shard' : ℕ} (h : shardAgentId shard = shardAgentId shard') :
    shard = shard' := by
  have hlist := congrArg String.toList h
  simp only [toList_shardAgentId, List.append_cancel_left_eq] at hlist
  exact repr_inj (String.toList_inj.mp hlist)

/-- The event type of an edge to `state`. -/
def eventTypeOf : IpState → HotIpEventType
  | .hot => .added
  | .cold => .removed

/-- The hot-ip event that a shard wrote in a record, if it wrote it. -/
def recordOf (env : Env) (shard : ℕ) (record : Record) : Option HotIpEvent :=
  match env.wire.readHotIp record.value with
  | some (agentId, event) => if agentId = shardAgentId shard then some event else none
  | none => none

/-- The events a shard has written to the hot-ip log, oldest first. -/
def shardEvents (env : Env) (shard : ℕ) (log : List Record) : List HotIpEvent :=
  log.filterMap (recordOf env shard)

/-- What an encoded transition says. -/
theorem encodeTransition_ok {env : Env} {shard : ℕ} {ip : Address} {edge : Edge} {sequence : ℕ}
    {config : DetectionConfig} {now : ℤ} {eventId : String} {value : Bytes}
    (h : encodeTransition env shard ip edge sequence config now = .ok (eventId, value)) :
    datetimeRange now = true ∧
      eventId = shardEventId env shard sequence (eventTypeOf edge.current) ip ∧
      ∃ attributes,
        (match edge.current with
          | .hot => some <$> transitionAttributes edge.count config
          | .cold => .ok none) = .ok attributes ∧
        env.wire.readHotIp value = some (shardAgentId shard,
          ⟨eventTypeOf edge.current, ip, now, sequence, edge.count, config.configVersion,
            attributes⟩) := by
  unfold encodeTransition at h
  split_ifs at h with hrange
  refine ⟨hrange, ?_⟩
  cases henv : transitionEnvelope shard ip edge sequence config now (env.text ip) with
  | error e =>
    rw [henv] at h
    cases h
  | ok envelope =>
    rw [henv] at h
    cases hval : env.wire.encode envelope with
    | error e =>
      simp only [bind, Except.bind, hval] at h
      cases h
    | ok bytes =>
      simp only [bind, Except.bind, hval] at h
      cases h
      unfold transitionEnvelope at henv
      cases hcur : edge.current with
      | hot =>
        simp only [hcur, if_pos] at henv
        cases hattr : transitionAttributes edge.count config with
        | error e =>
          rw [hattr] at henv
          cases henv
        | ok attributes =>
          rw [hattr] at henv
          cases henv
          refine ⟨rfl, some attributes, rfl, ?_⟩
          refine env.wire.readHotIp_encode ⟨rfl, Or.inr ?_⟩ hval
          unfold transitionAttributes at hattr
          cases hw : computeWeight edge.count config with
          | error e =>
            rw [hw] at hattr
            cases hattr
          | ok weight =>
            rw [hw] at hattr
            cases hattr
            exact ⟨weight, rfl⟩
      | cold =>
        simp only [hcur, if_neg (show ¬ IpState.cold = IpState.hot by decide)] at henv
        cases henv
        exact ⟨rfl, none, rfl, env.wire.readHotIp_encode ⟨rfl, Or.inl rfl⟩ hval⟩

/-- The event of an edge, as the shard's log has it. -/
def eventOf (ip : Address) (edge : Edge) (sequence : ℕ) (config : DetectionConfig) (now : ℤ)
    (attributes : Option Json) : HotIpEvent :=
  ⟨eventTypeOf edge.current, ip, now, sequence, edge.count, config.configVersion, attributes⟩

theorem shardEvents_concat {env : Env} {shard sequence : ℕ} {ip : Address} {edge : Edge}
    {config : DetectionConfig} {now : ℤ} {eventId : String} {value : Bytes}
    (henc : encodeTransition env shard ip edge sequence config now = .ok (eventId, value))
    (log : List Record) (key : Bytes) :
    ∃ attributes, shardEvents env shard (log ++ [⟨key, value⟩]) =
      shardEvents env shard log ++ [eventOf ip edge sequence config now attributes] := by
  obtain ⟨-, -, attributes, -, hread⟩ := encodeTransition_ok henc
  refine ⟨attributes, ?_⟩
  have hrecord : recordOf env shard ⟨key, value⟩ =
      some (eventOf ip edge sequence config now attributes) := by
    unfold recordOf
    rw [hread]
    exact if_pos rfl
  rw [shardEvents, List.filterMap_append]
  simp only [List.filterMap_cons, hrecord, List.filterMap_nil]
  rfl

/-- A transition is encoded whenever the clock reads a time that `datetime` holds and the weight's
threshold is not zero. -/
theorem exists_encodeTransition (env : Env) (shard : ℕ) (ip : Address) {edge : Edge} (sequence : ℕ)
    {config : DetectionConfig} {now : ℤ} (hrange : datetimeRange now = true)
    (hcount : 0 ≤ edge.count) (hhot : config.hotThreshold ≠ 0) :
    ∃ event, encodeTransition env shard ip edge sequence config now = .ok event := by
  have hversion := config.configVersion_pos
  have hmax := config.weightMax_range.2
  unfold encodeTransition
  rw [if_pos hrange]
  -- Both kinds of envelope are transitions within their bounds.
  suffices h : ∃ envelope,
      transitionEnvelope shard ip edge sequence config now (env.text ip) = .ok envelope ∧
        envelope.IsTransition ∧ envelope.InBounds by
    obtain ⟨envelope, henv, ht, hb⟩ := h
    obtain ⟨bytes, hbytes⟩ := env.wire.encode_ok envelope ht hb
    refine ⟨(envelope.eventId env.digest, bytes), ?_⟩
    rw [henv]
    simp only [bind, Except.bind, hbytes]
    rfl
  unfold transitionEnvelope
  cases hcur : edge.current with
  | hot =>
    obtain ⟨weight, hw, hw0, hw1⟩ := computeWeight_ok edge.count hhot
    refine ⟨_, by simp only [if_pos, transitionAttributes, hw]; rfl, ⟨rfl, ?_⟩, ?_⟩
    · exact Or.inr ⟨weight, rfl⟩
    · refine ⟨hrange, hrange, hcount, hversion, ?_⟩
      intro weight' h
      cases h
      exact ⟨hw0, hw1.trans hmax⟩
  | cold =>
    refine ⟨_, by simp only [if_neg (show ¬ IpState.cold = IpState.hot by decide)]; rfl,
      ⟨rfl, Or.inl rfl⟩, ?_⟩
    refine ⟨hrange, hrange, hcount, hversion, ?_⟩
    intro weight' h
    cases h

/-- In a run without failures the edge of a tracked IP is emitted. -/
theorem emit_returns {env : Env} (henv : env.Orderly) {ip : Address} {edge : Edge}
    {config : DetectionConfig} {s : Scope} (hcount : 0 ≤ edge.count)
    (hhot : config.hotThreshold ≠ 0) (htracked : s.window.entries.get? ip ≠ none) :
    ∃ emitted t, emit env ip edge config s = .ok emitted t := by
  cases h : emit env ip edge config s with
  | ok emitted t => exact ⟨emitted, t, rfl⟩
  | error e t =>
    exfalso
    obtain hseq | ⟨sequence, s₁, hseq, h⟩ := Program.bind_error.mp h
    · cases hseq
    cases hseq
    obtain hprep | ⟨⟨eventId, value⟩, s₂, hprep, h⟩ := Program.bind_error.mp h
    · obtain hclock | ⟨now, s₂, hclock, hprep⟩ := Program.bind_error.mp hprep
      · cases hclock
      · cases hclock
        obtain ⟨event, hevent⟩ := exists_encodeTransition env s.window.shard ip
          s.window.nextSequence (henv.inRange s.shared.tick) hcount hhot
        have herr := Program.except_map_error.mp (inside_error.mp hprep).1
        rw [show encodeTransition env s.window.shard ip edge s.window.nextSequence config
          (env.now s.shared.tick) = .ok event from hevent] at herr
        cases herr
    obtain ⟨henc, rfl⟩ := prepare_ok hprep
    obtain hpersist | ⟨⟨⟩, s₃, hpersist, h⟩ := Program.bind_error.mp h
    · exact (persist_error hpersist).1 henv.noCallFails
    cases persist_ok hpersist
    obtain hpub | ⟨⟨⟩, s₄, hpub, h⟩ := Program.bind_error.mp h
    · exact (announce_error hpub).1 henv.noCallFails
    cases announce_ok hpub
    obtain hset | ⟨⟨⟩, s₅, hset, h⟩ := Program.bind_error.mp h
    · exact htracked (remember_error hset).1
    · cases h

/-- In a run without failures, the edge of a tracked IP that the warm-up does not suppress is
announced. -/
theorem evaluate_announces (henv : env.Orderly) {ip : Address} {config : DetectionConfig} {s : Scope}
    (hhot : config.hotThreshold ≠ 0) (htracked : s.window.entries.get? ip ≠ none)
    (hne : (edgeOf s.window ip config).current ≠ s.window.state ip)
    (hwarm : s.window.warmUntil = none) :
    ∃ s₁ emitted t, Decided env s s₁ ip config ∧ evaluate env ip config s = .ok (some emitted) t ∧
      emit env ip (edgeOf s.window ip config) config s₁ = .ok emitted t := by
  have hcount : 0 ≤ (edgeOf s.window ip config).count := ShardWindow.total_nonneg s.window ip
  cases h : evaluate env ip config s with
  | ok r t =>
    obtain ⟨-, -, -, hsame | ⟨-, -, u, hu, -⟩⟩ | ⟨s₁, emitted, rfl, hd, hemit⟩ := evaluate_ok h
    · exact absurd hsame hne
    · rw [hwarm] at hu
      cases hu
    · exact ⟨s₁, emitted, t, hd, rfl, hemit⟩
  | error e t =>
    obtain ⟨s₁, hd, hemit⟩ := evaluate_error h
    rw [← hd.window] at htracked
    obtain ⟨emitted, t', hreturns⟩ := emit_returns henv hcount hhot htracked
    rw [hemit] at hreturns
    cases hreturns

/-! ### Foreign changes -/

/-- Nothing of the shard's own happened between `s` and `t`. -/
structure Foreign (env : Env) (shard : ℕ) (s t : Shared) : Prop where
  tick : s.tick ≤ t.tick
  load : t.store.load shard = s.store.load shard
  log : ∃ records, t.hotIp.log = s.hotIp.log ++ records ∧
    ∀ record ∈ records, recordOf env shard record = none
  seenIds : ∀ id ∈ t.hotIp.seenIds, id ∈ s.hotIp.seenIds ∨
    ∃ other sequence type ip, other ≠ shard ∧ id = shardEventId env other sequence type ip

namespace Foreign

variable {env : Env} {shard : ℕ} {s t u : Shared}

theorem refl (env : Env) (shard : ℕ) (s : Shared) : Foreign env shard s s :=
  ⟨le_refl _, rfl, ⟨[], (List.append_nil _).symm, by simp⟩, fun _ h => Or.inl h⟩

theorem trans (h : Foreign env shard s t) (h' : Foreign env shard t u) : Foreign env shard s u := by
  obtain ⟨records, hr, hn⟩ := h.log
  obtain ⟨records', hr', hn'⟩ := h'.log
  refine ⟨h.tick.trans h'.tick, h'.load.trans h.load, ⟨records ++ records', ?_, ?_⟩, ?_⟩
  · rw [hr', hr, List.append_assoc]
  · intro record hm
    obtain hm | hm := List.mem_append.mp hm
    · exact hn record hm
    · exact hn' record hm
  · intro id hid
    obtain hid | hid := h'.seenIds id hid
    · exact h.seenIds id hid
    · exact Or.inr hid

theorem of_later (h : s.Later t) : Foreign env shard s t :=
  ⟨h.tick, by rw [h.store], ⟨[], by rw [h.hotIp, List.append_nil], by simp⟩,
    fun _ hid => Or.inl (h.hotIp ▸ hid)⟩

/-- The log of the shard's events is the same. -/
theorem shardEvents_eq (h : Foreign env shard s t) :
    shardEvents env shard t.hotIp.log = shardEvents env shard s.hotIp.log := by
  obtain ⟨records, hr, hn⟩ := h.log
  rw [shardEvents, hr, List.filterMap_append, List.filterMap_eq_nil_iff.mpr hn, List.append_nil]
  rfl

/-- Another shard's transition in the store. -/
theorem persisted (s : Shared) {other : ℕ} (hne : other ≠ shard) (ip : Address) (state : IpState)
    (sequence : ℕ) : Foreign env shard s (persisted s other ip state sequence) :=
  ⟨le_refl _, ShardStateStore.load_recordTransition_of_ne _ hne _ _ _,
    ⟨[], (List.append_nil _).symm, by simp⟩, fun _ h => Or.inl h⟩

/-- Another shard's event in the log. -/
theorem published (s : Shared) {other : ℕ} (hne : other ≠ shard) {ip : Address} {edge : Edge}
    {sequence : ℕ} {config : DetectionConfig} {now : ℤ} {eventId : String} {value : Bytes}
    (h : encodeTransition env other ip edge sequence config now = .ok (eventId, value)) :
    Foreign env shard s (published env s ip eventId value) := by
  obtain ⟨-, hid, attributes, -, hread⟩ := encodeTransition_ok h
  unfold Aggregator.published Topic.append
  split_ifs with hseen
  · exact refl env shard s
  · refine ⟨le_refl _, rfl, ⟨[⟨utf8 (env.text ip), value⟩], rfl, ?_⟩, ?_⟩
    · intro record hm
      cases List.mem_singleton.mp hm
      unfold recordOf
      rw [hread]
      exact if_neg fun hc => hne (shardAgentId_inj hc)
    · intro id hm
      obtain rfl | hm := Finset.mem_insert.mp hm
      · exact Or.inr ⟨other, sequence, eventTypeOf edge.current, ip, hne, hid⟩
      · exact Or.inl hm

end Foreign

/-- A program on a window stays with its shard, and is foreign to every other. -/
structure Local (env : Env) (s t : Scope) : Prop where
  shard : t.window.shard = s.window.shard
  foreign : ∀ other, other ≠ s.window.shard → Foreign env other s.shared t.shared

namespace Local

variable {env : Env} {s t u : Scope}

theorem refl (env : Env) (s : Scope) : Local env s s := ⟨rfl, fun _ _ => Foreign.refl _ _ _⟩

theorem trans (h : Local env s t) (h' : Local env t u) : Local env s u :=
  ⟨h'.shard.trans h.shard, fun other hne =>
    (h.foreign other hne).trans (h'.foreign other (h.shard ▸ hne))⟩

instance : Std.Refl (Local env) := ⟨refl env⟩

instance : IsTrans Scope (Local env) := ⟨fun _ _ _ => trans⟩

theorem of_later (hw : t.window.shard = s.window.shard) (h : s.shared.Later t.shared) :
    Local env s t :=
  ⟨hw, fun _ _ => Foreign.of_later h⟩

end Local

/-! ### The programs on a window are local -/

section Programs

variable (env : Env)

theorem emit_local (ip : Address) (edge : Edge) (config : DetectionConfig) :
    Program.Within (Local env) (emit env ip edge config) := by
  intro s
  cases h : emit env ip edge config s with
  | ok emitted t =>
    obtain ⟨eventId, value, w', henc, hset, rfl, -⟩ := emit_ok h
    obtain ⟨entry, -, hf, -⟩ := ShardWindow.setState_ok hset
    refine ⟨hf.shard, fun other hne => ?_⟩
    refine Foreign.trans ?_ (Foreign.published _ hne.symm henc)
    refine Foreign.trans ?_ (Foreign.of_later (Shared.Later.advance _))
    refine Foreign.trans ?_ (Foreign.persisted _ hne.symm _ _ _)
    exact Foreign.of_later ((Shared.Later.advance _).trans (Shared.Later.advance _))
  | error e t =>
    obtain ⟨hw, hlater | ⟨-, eventId, value, u, henc, hu, ht⟩⟩ := emit_error h
    · exact Local.of_later (by rw [Program.after_error, hw]; rfl) hlater
    · refine ⟨by rw [Program.after_error, hw]; rfl, fun other hne => ?_⟩
      have hforeign : Foreign env other s.shared u :=
        (Foreign.persisted _ hne.symm _ _ _).trans (Foreign.of_later hu)
      rw [Program.after_error]
      obtain ht | ht := ht
      · rw [ht]
        exact hforeign
      · rw [ht]
        exact hforeign.trans (Foreign.published _ hne.symm henc)

theorem evaluate_local (ip : Address) (config : DetectionConfig) :
    Program.Within (Local env) (evaluate env ip config) := by
  intro s
  have hemit := emit_local env ip (edgeOf s.window ip config) config
  -- Up to the emission nothing but the clock was read.
  have start : ∀ s₁, Decided env s s₁ ip config → Local env s s₁ :=
    fun s₁ hd => Local.of_later (by rw [hd.window]) hd.shared
  cases h : evaluate env ip config s with
  | ok r t =>
    obtain ⟨-, hw, hl, -⟩ | ⟨s₁, emitted, -, hd, he⟩ := evaluate_ok h
    · exact Local.of_later (by rw [Program.after_ok, hw]) hl
    · exact (start s₁ hd).trans (hemit.of_ok he)
  | error e t =>
    obtain ⟨s₁, hd, he⟩ := evaluate_error h
    exact (start s₁ hd).trans (hemit.of_error he)

/-- A clock reading followed by a method of the window that keeps its shard. -/
theorem method_local {α : Type} (f : ℤ → ShardWindow → Except Failure (α × ShardWindow))
    (hf : ∀ now w a w', f now w = .ok (a, w') → w'.shard = w.shard) :
    Program.Within (Local env) (do
      let now ← Scope.outside (Shared.readClock env)
      Scope.inside (f now)) := by
  intro s
  rw [Program.bind_apply, readClock_apply]
  dsimp only
  unfold Scope.inside
  cases h : f (env.now s.shared.tick) s.window with
  | error e => exact Local.of_later rfl (Shared.Later.advance _)
  | ok r => exact Local.of_later (hf _ _ _ _ h) (Shared.Later.advance _)

theorem observe_local (ip : Address) (start delta : ℤ) :
    Program.Within (Local env) (observe env ip start delta) := by
  refine method_local env (fun now w => w.observe ip start delta now) ?_
  intro now w change w' h
  obtain ⟨c, -, ⟨-, hw, -⟩ | ⟨c', w₁, entry, -, -, -, hf, -⟩⟩ := ShardWindow.observe_cases h
  · rw [hw]
  · exact hf.shard

theorem expireDue_local : Program.Within (Local env) (expireDue env) := by
  refine method_local env (fun now w => .ok (w.expireDue now)) ?_
  intro now w changes w' h
  rw [← (Prod.mk.inj (Except.ok.inj h)).2]
  exact (ShardWindow.expireDue_swept w now).shard

theorem evictDue_local : Program.Within (Local env) (evictDue env) := by
  refine method_local env (fun now w => .ok (w.evictDue now)) ?_
  intro now w removed w' h
  rw [← (Prod.mk.inj (Except.ok.inj h)).2]
  exact (ShardWindow.evictDue_shrinks w now).shard

theorem finishWarmupIfDue_local : Program.Within (Local env) (finishWarmupIfDue env) := by
  intro s
  obtain ⟨t, ht, hw, hl, -⟩ | ⟨u, -, -, ht⟩ := finishWarmupIfDue_ok env s
  · rw [ht]
    exact Local.of_later (by rw [Program.after_ok, hw]) hl
  · rw [ht]
    exact Local.of_later rfl (Shared.Later.advance _)

theorem iterate_local (ips : Finset Address) :
    Program.Within (Local env) (Scope.outside (Shared.iterate env ips)) :=
  fun s => Local.of_later rfl (Shared.Later.advance s.shared)

theorem adoptConfig_local (config : DetectionConfig) :
    Program.Within (Local env) (adoptConfig env config) := by
  intro s
  rw [adoptConfig_eq]
  split_ifs
  · rw [Program.after_zoom]
    have hf := ShardWindow.rebuildAll_framed config (env.now s.shared.tick)
      { s.window with config := config }
    exact Local.of_later hf.shard (Shared.Later.advance _)
  · exact Local.of_later rfl (Shared.Later.refl _)

theorem settle_local (ip : Address) (config : DetectionConfig) :
    Program.Within (Local env) (settle env ip config) :=
  Program.Within.bind (evaluate_local env ip config) fun _ =>
    Program.Within.pure _

theorem countObservation_local (windowStart : ℤ) (entry : Observation) (config : DetectionConfig) :
    Program.Within (Local env) (countObservation env windowStart entry config) :=
  Program.Within.bind Program.Within.get fun _ =>
    Program.Within.bind (observe_local env _ _ _) fun _ =>
      settle_local env entry.ip config

theorem sweepWindow_local (config : DetectionConfig) :
    Program.Within (Local env) (sweepWindow env config) := by
  refine Program.Within.bind (expireDue_local env) fun changes =>
    Program.Within.forM changes fun change _ => ?_
  split_ifs
  · exact settle_local env change.ip config
  · exact Program.Within.pure _

theorem warmWindow_local (config : DetectionConfig) :
    Program.Within (Local env) (warmWindow env config) :=
  Program.Within.bind (finishWarmupIfDue_local env) fun _ =>
    Program.Within.bind (iterate_local env _) fun ips =>
      Program.Within.forM ips fun ip _ =>
        settle_local env ip config

theorem maintainWindow_local (config : DetectionConfig) :
    Program.Within (Local env) (maintainWindow env config) :=
  Program.Within.bind (sweepWindow_local env config) fun _ =>
    Program.Within.bind (warmWindow_local env config) fun _ =>
      Program.Within.bind (evictDue_local env) fun _ =>
        Program.Within.pure _

theorem reevaluateShard_local (config : DetectionConfig) (batchSize : ℤ) :
    Program.Within (Local env) (reevaluateShard env config batchSize) := by
  unfold reevaluateShard
  split_ifs
  · exact Program.Within.throw _
  · refine Program.Within.bind Program.Within.get fun _ =>
      Program.Within.bind (iterate_local env _) fun targets =>
        Program.Within.foldlM targets 0 fun _ ip _ => ?_
    exact Program.Within.bind (evaluate_local env ip config) fun _ =>
      Program.Within.pure _

end Programs

end Hammertime.Aggregator
