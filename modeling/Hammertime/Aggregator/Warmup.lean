import Hammertime.Aggregator.Promotion
import Hammertime.Ingest.Dedup

/-!
# The warm-up of an inherited HOT set

A new owner has seen no traffic yet, so its counts say nothing about the IPs it inherited. Until
`warm_until` none of them is demoted, and the first maintenance from then on ends the warm-up and
evaluates them. `hysteresis` puts this together with the thresholds of `Hysteresis.lean`.
-/

namespace Hammertime.Aggregator

open Lib World

/-! ### The warm-up -/

/-- The warm-up is left as it was, and time does not go back. -/
structure WarmKept (s t : Scope) : Prop where
  shard : t.window.shard = s.window.shard
  warmUntil : t.window.warmUntil = s.window.warmUntil
  tick : s.shared.tick ≤ t.shared.tick
  /-- An IP that is flagged and HOT stays so. -/
  flagged : ∀ ip, s.window.isInherited ip = true → s.window.state ip = .hot →
    t.window.isInherited ip = true ∧ t.window.state ip = .hot
  hotIp : t.shared.hotIp = s.shared.hotIp

namespace WarmKept

theorem refl (s : Scope) : WarmKept s s := ⟨rfl, rfl, le_refl _, fun _ hi hh => ⟨hi, hh⟩, rfl⟩

theorem trans {s t u : Scope} (h : WarmKept s t) (h' : WarmKept t u) : WarmKept s u :=
  ⟨h'.shard.trans h.shard, h'.warmUntil.trans h.warmUntil, h.tick.trans h'.tick,
    fun ip hi hh => h'.flagged ip (h.flagged ip hi hh).1 (h.flagged ip hi hh).2,
    h'.hotIp.trans h.hotIp⟩

instance : Std.Refl WarmKept := ⟨refl⟩

instance : IsTrans Scope WarmKept := ⟨fun _ _ _ => trans⟩

/-- Nothing outside has changed, and the HOT entries keep their flags. -/
theorem of_later {s t : Scope} (hl : s.shared.Later t.shared)
    (hshard : t.window.shard = s.window.shard)
    (hwarm : t.window.warmUntil = s.window.warmUntil)
    (h : ∀ ip entry, s.window.entries.get? ip = some entry → entry.state = .hot →
      ∃ entry', t.window.entries.get? ip = some entry' ∧ entry'.state = .hot ∧
        entry'.inherited = entry.inherited) : WarmKept s t := by
  refine ⟨hshard, hwarm, hl.tick, fun ip hi hh => ?_, hl.hotIp⟩
  obtain ⟨entry, hget, hst⟩ := ShardWindow.state_eq_hot_iff.mp hh
  obtain ⟨entry', hget', hst', hinh⟩ := h ip entry hget hst
  rw [ShardWindow.isInherited_of_get? hget] at hi
  exact ⟨by rw [ShardWindow.isInherited_of_get? hget', hinh]; exact hi,
    by rw [ShardWindow.state_of_get? hget']; exact hst'⟩

end WarmKept

section Warm

variable (env : Env)

theorem observe_warmKept (ip : Address) (start delta : ℤ) :
    Program.Within WarmKept (observe env ip start delta) := by
  intro s
  cases h : observe env ip start delta s with
  | error e t =>
    cases observe_error h
    exact WarmKept.of_later (Shared.Later.advance _) rfl rfl fun _ entry hg hs =>
      ⟨entry, hg, hs, rfl⟩
  | ok change t =>
    obtain ⟨hw, hs⟩ := observe_ok h
    have hl : s.shared.Later t.shared := by
      rw [hs]
      exact Shared.Later.advance _
    obtain ⟨c, -, ⟨-, heq, -⟩ | ⟨c', w₁, entry, -, -, hsh, hf, he, -, hst, hinh, -⟩⟩ :=
      ShardWindow.observe_cases hw
    · exact WarmKept.of_later hl (by rw [Program.after_ok, heq]) (by rw [Program.after_ok, heq])
        fun _ old hg hh => ⟨old, by rw [Program.after_ok, heq]; exact hg, hh, rfl⟩
    · refine WarmKept.of_later hl hf.shard hf.warmUntil fun ip' old hg hh => ?_
      rw [Program.after_ok, he, Dict.get?_set]
      split_ifs with hip
      · subst hip
        refine ⟨entry, rfl, ?_, ?_⟩
        · rw [hst, ShardWindow.state_of_get? hg]
          exact hh
        · rw [hinh, ShardWindow.isInherited_of_get? hg]
      · obtain hk | ⟨-, hc⟩ := hsh.kept ip'
        · exact ⟨old, hk.trans hg, hh, rfl⟩
        · rw [ShardWindow.state_of_get? hg, hh] at hc
          cases hc

theorem expireDue_warmKept : Program.Within WarmKept (expireDue env) := by
  intro s
  have hs := ShardWindow.expireDue_swept s.window (env.now s.shared.tick)
  rw [expireDue_apply]
  refine WarmKept.of_later (Shared.Later.advance _) hs.shard hs.warmUntil fun ip old hg hh => ?_
  obtain ⟨hn, -⟩ | ⟨entry, c', he, he', -, -⟩ := hs.entries ip
  · rw [hn] at hg
    cases hg
  · rw [he] at hg
    cases hg
    exact ⟨_, he', hh, rfl⟩

theorem evictDue_warmKept : Program.Within WarmKept (evictDue env) := by
  intro s
  have hs := ShardWindow.evictDue_shrinks s.window (env.now s.shared.tick)
  rw [evictDue_apply]
  refine WarmKept.of_later (Shared.Later.advance _) hs.shard hs.warmUntil fun ip old hg hh => ?_
  obtain hk | ⟨-, hc⟩ := hs.kept ip
  · exact ⟨old, hk.trans hg, hh, rfl⟩
  · rw [ShardWindow.state_of_get? hg, hh] at hc
    cases hc

theorem iterate_warmKept (ips : Finset Address) :
    Program.Within WarmKept (Scope.outside (Shared.iterate env ips)) :=
  fun _ => WarmKept.of_later (Shared.Later.advance _) rfl rfl fun _ entry hg hs =>
    ⟨entry, hg, hs, rfl⟩

/-- One entry of the rebuild keeps its state and its flag. -/
theorem rebuildEntry_flags (config : DetectionConfig) (now : ℤ) {item : Address × Entry}
    {w : ShardWindow} (hitem : ∃ old, w.entries.get? item.1 = some old ∧
      old.state = item.2.state ∧ old.inherited = item.2.inherited) (ip : Address) :
    (w.entries.get? ip).map (fun entry => (entry.state, entry.inherited)) =
      ((Program.after (ShardWindow.rebuildEntry config now item w)).entries.get? ip).map
        fun entry => (entry.state, entry.inherited) := by
  unfold ShardWindow.rebuildEntry
  split
  · rfl
  · next counter hb =>
    rw [Program.after_ok, ShardWindow.scheduleExpiry_entries, Dict.get?_set]
    split_ifs with hip
    · subst hip
      obtain ⟨old, hg, hst, hinh⟩ := hitem
      simp only [hg, Option.map_some, hst, hinh]
    · rfl

/-- The rebuild, also one that stops half way. -/
theorem rebuildAll_flags (config : DetectionConfig) (now : ℤ) (w : ShardWindow) (ip : Address) :
    (w.entries.get? ip).map (fun entry => (entry.state, entry.inherited)) =
      ((Program.after (ShardWindow.rebuildAll config now w)).entries.get? ip).map
        fun entry => (entry.state, entry.inherited) := by
  have hitems : ∀ item ∈ w.entries.items, ∃ old, w.entries.get? item.1 = some old ∧
      old.state = item.2.state ∧ old.inherited = item.2.inherited :=
    fun item hm => ⟨item.2, Dict.mem_items_iff.mp hm, rfl, rfl⟩
  unfold ShardWindow.rebuildAll
  generalize w.entries.items = items at hitems
  induction items generalizing w with
  | nil => rfl
  | cons item rest ih =>
    have hhead := rebuildEntry_flags config now (hitems item List.mem_cons_self)
    show _ = ((Program.after
      ((ShardWindow.rebuildEntry config now item >>= fun _ =>
        rest.forM (ShardWindow.rebuildEntry config now)) w)).entries.get? ip).map _
    rw [Program.bind_apply]
    cases hr : ShardWindow.rebuildEntry config now item w with
    | error e w' =>
      rw [hr] at hhead
      exact hhead ip
    | ok a w' =>
      rw [hr] at hhead
      refine (hhead ip).trans (ih w' fun item' hm => ?_)
      obtain ⟨old, hg, hst, hinh⟩ := hitems item' (List.mem_cons_of_mem _ hm)
      have hnext := hhead item'.1
      rw [hg, Program.after_ok] at hnext
      obtain ⟨old', hg', heq⟩ := Option.map_eq_some_iff.mp hnext.symm
      obtain ⟨hst', hinh'⟩ := Prod.mk.inj heq
      exact ⟨old', hg', hst'.trans hst, hinh'.trans hinh⟩

theorem adoptConfig_warmKept (config : DetectionConfig) :
    Program.Within WarmKept (adoptConfig env config) := by
  intro s
  rw [adoptConfig_eq]
  split_ifs
  · rw [Program.after_zoom]
    have hf := ShardWindow.rebuildAll_framed config (env.now s.shared.tick)
      { s.window with config := config }
    refine WarmKept.of_later (Shared.Later.advance _) hf.shard hf.warmUntil fun ip old hg hh => ?_
    have hflags := rebuildAll_flags config (env.now s.shared.tick)
      { s.window with config := config } ip
    rw [show ({ s.window with config := config } : ShardWindow).entries.get? ip = some old from hg]
      at hflags
    obtain ⟨entry', hg', heq⟩ := Option.map_eq_some_iff.mp hflags.symm
    obtain ⟨hst, hinh⟩ := Prod.mk.inj heq
    exact ⟨entry', hg', hst.trans hh, hinh⟩
  · exact WarmKept.of_later (Shared.Later.refl _) rfl rfl fun _ entry hg hs => ⟨entry, hg, hs, rfl⟩

end Warm

/-! ### No demotion before the end -/

section Suppression

variable (env : Env) (past : ℕ → List HotIpEvent) (origin : Dict ℕ ShardWindow)

/-- Since the claim that left the windows of `origin`: while the clock is before the end of the
warm-up every inherited IP is still HOT and flagged, and every removal of one in the log since then
is dated from the end on. -/
structure Suppressed (scope : Scope) : Prop where
  warm : ∀ w₀ u, origin.get? scope.window.shard = some w₀ → w₀.warmUntil = some u →
    env.now scope.shared.tick < u → scope.window.warmUntil = some u ∧
      ∀ ip, w₀.isInherited ip = true →
        scope.window.isInherited ip = true ∧ scope.window.state ip = .hot
  removed : ∃ events,
    shardEvents env scope.window.shard scope.shared.hotIp.log = past scope.window.shard ++ events ∧
      ∀ event ∈ events, event.type = .removed → ∀ w₀ u,
        origin.get? scope.window.shard = some w₀ → w₀.warmUntil = some u →
          w₀.isInherited event.ip = true → u ≤ event.timestamp

variable {env past origin}

theorem suppressed_stable (hmono : Monotone env.now) :
    Stable env (Suppressed env past origin) := by
  intro s t w hf h
  refine ⟨fun w₀ u ho hu hlt => ?_, ?_⟩
  · exact h.warm w₀ u ho hu ((hmono hf.tick).trans_lt hlt)
  · obtain ⟨events, hlog, hev⟩ := h.removed
    exact ⟨events, hf.shardEvents_eq.trans hlog, hev⟩

theorem Suppressed.of_warmKept (hmono : Monotone env.now) {s t : Scope}
    (h : Suppressed env past origin s) (hk : WarmKept s t) : Suppressed env past origin t := by
  refine ⟨fun w₀ u ho hu hlt => ?_, ?_⟩
  · rw [hk.shard] at ho
    obtain ⟨hwarm, hflags⟩ := h.warm w₀ u ho hu ((hmono hk.tick).trans_lt hlt)
    refine ⟨hk.warmUntil.trans hwarm, fun ip hip => ?_⟩
    obtain ⟨hi, hh⟩ := hflags ip hip
    exact hk.flagged ip hi hh
  · rw [hk.shard, hk.hotIp]
    exact h.removed

/-- A demotion of an inherited IP that is not suppressed comes at the end of the warm-up or later. -/
theorem Suppressed.le_of_demotion {s : Scope} (h : Suppressed env past origin s) {ip : Address}
    (hnot : ¬ WarmingUp env s ip) {w₀ : ShardWindow} {u : ℤ}
    (ho : origin.get? s.window.shard = some w₀) (hu : w₀.warmUntil = some u)
    (hip : w₀.isInherited ip = true) : u ≤ env.now s.shared.tick := by
  refine le_of_not_gt fun hlt => hnot ?_
  obtain ⟨hwarm, hflags⟩ := h.warm w₀ u ho hu hlt
  exact ⟨(hflags ip hip).1, u, hwarm, hlt⟩

/-- An edge was decided and emitted as far as it went: the window has at most the IP's state set, and
the log at most the event of the edge. -/
theorem Suppressed.emitted (hmono : Monotone env.now) {s s₁ t : Scope} {ip : Address}
    {config : DetectionConfig} (h : Suppressed env past origin s) (hd : Decided env s s₁ ip config)
    (hshard : t.window.shard = s.window.shard)
    (hwarm : t.window.warmUntil = s.window.warmUntil)
    (hother : ∀ ip', ip ≠ ip' → t.window.entries.get? ip' = s.window.entries.get? ip')
    (htick : s₁.shared.tick ≤ t.shared.tick)
    (hlog : t.shared.hotIp.log = s.shared.hotIp.log ∨
      ∃ eventId value key, encodeTransition env s.window.shard ip (edgeOf s.window ip config)
        s.window.nextSequence config (env.now s₁.shared.tick) = .ok (eventId, value) ∧
        t.shared.hotIp.log = s.shared.hotIp.log ++ [⟨key, value⟩]) :
    Suppressed env past origin t := by
  have hs₁ : env.now s.shared.tick ≤ env.now s₁.shared.tick := hmono hd.shared.tick
  refine ⟨fun w₀ u ho hu hlt => ?_, ?_⟩
  · rw [hshard] at ho
    have hbefore : env.now s.shared.tick < u := (hs₁.trans (hmono htick)).trans_lt hlt
    obtain ⟨hw, hflags⟩ := h.warm w₀ u ho hu hbefore
    refine ⟨hwarm.trans hw, fun ip' hip' => ?_⟩
    obtain ⟨hi, hh⟩ := hflags ip' hip'
    by_cases hne : ip = ip'
    · -- The edge would be a demotion, and those are suppressed until then.
      subst hne
      have hcold : (edgeOf s.window ip config).current = .cold := by
        cases hc : (edgeOf s.window ip config).current
        · rfl
        · exact absurd (hc.trans hh.symm) hd.changed
      exact absurd (h.le_of_demotion (hd.notWarming hcold) ho hu hip') (not_le.mpr hbefore)
    · have hk := hother ip' hne
      rw [ShardWindow.isInherited_congr hk, ShardWindow.state_congr hk]
      exact ⟨hi, hh⟩
  · obtain ⟨events, hevents, hremoved⟩ := h.removed
    rw [hshard]
    obtain hlog | ⟨eventId, value, key, henc, hlog⟩ := hlog
    · rw [hlog]
      exact ⟨events, hevents, hremoved⟩
    · obtain ⟨attributes, hconcat⟩ := shardEvents_concat henc s.shared.hotIp.log key
      refine ⟨events ++ [eventOf ip (edgeOf s.window ip config) s.window.nextSequence config
        (env.now s₁.shared.tick) attributes], ?_, ?_⟩
      · rw [hlog, hconcat, hevents, List.append_assoc]
      · intro event hm htype w₀ u ho hu hip
        obtain hm | hm := List.mem_append.mp hm
        · exact hremoved event hm htype w₀ u ho hu hip
        · cases List.mem_singleton.mp hm
          have hcold : (edgeOf s.window ip config).current = .cold := by
            cases hc : (edgeOf s.window ip config).current
            · rfl
            · have htype' : eventTypeOf (edgeOf s.window ip config).current = .removed := htype
              rw [hc] at htype'
              cases htype'
          exact (h.le_of_demotion (hd.notWarming hcold) ho hu hip).trans hs₁

/-- The log after an event was published to it. -/
theorem published_log (env : Env) (s : Shared) (ip : Address) (eventId : String) (value : Bytes) :
    (published env s ip eventId value).hotIp.log = s.hotIp.log ∨
      (published env s ip eventId value).hotIp.log =
        s.hotIp.log ++ [⟨utf8 (env.text ip), value⟩] := by
  unfold published Topic.append
  split_ifs
  · exact Or.inl rfl
  · exact Or.inr rfl

theorem Suppressed.evaluate (hmono : Monotone env.now) (ip : Address) (config : DetectionConfig) :
    Program.Triple (Suppressed env past origin) (evaluate env ip config)
      (fun _ => Suppressed env past origin) (Suppressed env past origin) := by
  refine Program.Triple.intro ?_ ?_
  · intro s r t h hr
    obtain ⟨-, hw, hl, -⟩ | ⟨s₁, emitted, -, hd, hemit⟩ := evaluate_ok hr
    · exact h.of_warmKept hmono (WarmKept.of_later hl (by rw [hw]) (by rw [hw])
        fun _ entry hg hs => ⟨entry, by rw [hw]; exact hg, hs, rfl⟩)
    · obtain ⟨eventId, value, w', henc, hset, rfl, -⟩ := emit_ok hemit
      rw [hd.window] at henc hset
      obtain ⟨entry, -, hf, hentries⟩ := ShardWindow.setState_ok hset
      refine h.emitted hmono hd hf.shard hf.warmUntil ?_ ?_ ?_
      · intro ip' hne
        rw [hentries, Dict.get?_set_of_ne _ hne]
        rfl
      · show s₁.shared.tick ≤ s₁.shared.tick + 3
        omega
      · obtain hlog | hlog := published_log env
          (persisted s₁.shared.advance.advance s₁.window.shard ip
            (edgeOf s.window ip config).current s₁.window.nextSequence).advance ip eventId value
        · exact Or.inl (hlog.trans (by rw [← hd.shared.hotIp]; rfl))
        · refine Or.inr ⟨eventId, value, utf8 (env.text ip), henc, hlog.trans ?_⟩
          rw [← hd.shared.hotIp]
          rfl
  · intro s e t h hr
    obtain ⟨s₁, hd, hemit⟩ := evaluate_error hr
    obtain ⟨hw, hl | ⟨-, eventId, value, v, henc, hv, ht⟩⟩ := emit_error hemit
    · rw [hd.window] at hw
      refine h.of_warmKept hmono (WarmKept.of_later (hd.shared.trans hl) (by rw [hw]; rfl)
        (by rw [hw]; rfl) fun _ entry hg hs => ⟨entry, by rw [hw]; exact hg, hs, rfl⟩)
    · rw [hd.window] at hw henc
      refine h.emitted hmono hd (by rw [hw]; rfl) (by rw [hw]; rfl) (fun ip' _ => by rw [hw]; rfl)
        ?_ ?_
      · have htick : s₁.shared.tick ≤ v.tick := hv.tick
        obtain ht | ht := ht
        · rw [ht]
          exact htick
        · rw [ht]
          exact htick
      · have hvlog : v.hotIp = s.shared.hotIp := hv.hotIp.trans hd.shared.hotIp
        obtain ht | ht := ht
        · exact Or.inl (by rw [ht, hvlog])
        · rw [ht]
          obtain hlog | hlog := published_log env v ip eventId value
          · exact Or.inl (hlog.trans (by rw [hvlog]))
          · exact Or.inr ⟨eventId, value, utf8 (env.text ip), henc, hlog.trans (by rw [hvlog])⟩

/-- A program that keeps the warm-up keeps the suppression, wherever it stops. -/
theorem Suppressed.warmKept (hmono : Monotone env.now) {α : Type} {m : Program Failure Scope α}
    (hm : Program.Within WarmKept m) :
    Program.Triple (Suppressed env past origin) m (fun _ => Suppressed env past origin)
      (Suppressed env past origin) :=
  Program.Triple.of_within hm fun _ _ h hk => h.of_warmKept hmono hk

theorem Suppressed.settle (hmono : Monotone env.now) (ip : Address) (config : DetectionConfig) :
    Program.Triple (Suppressed env past origin) (settle env ip config)
      (fun _ => Suppressed env past origin) (Suppressed env past origin) :=
  Program.Triple.bind (Suppressed.evaluate hmono ip config) fun _ =>
    Program.Triple.pure fun _ h => h

/-- Ending the warm-up is due only from its end on. -/
theorem Suppressed.finishWarmupIfDue (hmono : Monotone env.now) :
    Program.Triple (Suppressed env past origin) (finishWarmupIfDue env)
      (fun _ => Suppressed env past origin) (Suppressed env past origin) := by
  intro s h
  obtain ⟨t, ht, hw, hl, -⟩ | ⟨u, hu, hle, ht⟩ := finishWarmupIfDue_ok env s
  · rw [ht]
    exact h.of_warmKept hmono (WarmKept.of_later hl (by rw [hw]) (by rw [hw])
      fun _ entry hg hs => ⟨entry, by rw [hw]; exact hg, hs, rfl⟩)
  · rw [ht]
    refine ⟨fun w₀ u₀ ho hu₀ hlt => ?_, h.removed⟩
    have hbefore : env.now s.shared.tick < u₀ := (hmono (Nat.le_succ _)).trans_lt hlt
    obtain ⟨hwarm, -⟩ := h.warm w₀ u₀ ho hu₀ hbefore
    rw [hu] at hwarm
    cases hwarm
    exact absurd hle (not_le.mpr hbefore)

/-- The suppression is kept by every program of a worker on a window, also one that raises. -/
theorem suppressed_runInvariant (hmono : Monotone env.now) (ok : DetectionConfig → Prop)
    (batch : ℤ) :
    RunInvariant env ok batch (fun _ => Suppressed env past origin)
      (fun _ => Suppressed env past origin) (Suppressed env past origin) where
  stable _ := suppressed_stable hmono
  stable_adopted _ := suppressed_stable hmono
  countObservation config _ windowStart entry := by
    refine Program.Triple.bind (Suppressed.warmKept hmono Program.Within.get) fun scope => ?_
    exact Program.Triple.bind (Suppressed.warmKept hmono (observe_warmKept env _ _ _)) fun _ =>
      Suppressed.settle hmono entry.ip config
  maintainWindow config _ := by
    refine Program.Triple.bind (Q := fun _ => Suppressed env past origin) ?_ fun _ =>
      Program.Triple.bind (Q := fun _ => Suppressed env past origin) ?_ fun _ => ?_
    · refine Program.Triple.bind (Suppressed.warmKept hmono (expireDue_warmKept env))
        fun changes => ?_
      refine Program.Triple.forM (I := fun _ => Suppressed env past origin) changes
        fun change _ => ?_
      split_ifs
      · exact Suppressed.settle hmono change.ip config
      · exact Program.Triple.pure fun _ h => h
    · refine Program.Triple.bind (Suppressed.finishWarmupIfDue hmono) fun warmed => ?_
      refine Program.Triple.bind (Suppressed.warmKept hmono (iterate_warmKept env _))
        fun ips => ?_
      exact Program.Triple.forM (I := fun _ => Suppressed env past origin) ips fun ip _ =>
        Suppressed.settle hmono ip config
    · exact Program.Triple.bind (Suppressed.warmKept hmono (evictDue_warmKept env)) fun _ =>
        Program.Triple.pure fun _ h => h
  adoptConfig _ config _ _ := Suppressed.warmKept hmono (adoptConfig_warmKept env config)
  reevaluateShard config _ := by
    unfold reevaluateShard
    split_ifs
    · exact Program.Triple.throw fun _ h => h
    · refine Program.Triple.bind (Suppressed.warmKept hmono Program.Within.get) fun scope => ?_
      refine Program.Triple.bind (Suppressed.warmKept hmono (iterate_warmKept env _))
        fun targets => ?_
      refine Program.Triple.foldlM (I := fun _ => Suppressed env past origin) targets 0
        fun _ ip _ => ?_
      exact Program.Triple.bind (Suppressed.evaluate hmono ip config) fun _ =>
        Program.Triple.pure fun _ h => h

end Suppression

/-! ### The maintenance that ends it -/

section Ending

variable {env : Env}

/-- The end of the warm-up, where there is one, is in the past. -/
def WarmupDue (env : Env) (scope : Scope) : Prop :=
  ∀ u, scope.window.warmUntil = some u → u ≤ env.now scope.shared.tick

/-- `warm_until` is left, and time does not go back. -/
structure Unended (s t : Scope) : Prop where
  warmUntil : t.window.warmUntil = s.window.warmUntil
  tick : s.shared.tick ≤ t.shared.tick

instance : Std.Refl Unended := ⟨fun _ => ⟨rfl, le_refl _⟩⟩

instance : IsTrans Scope Unended :=
  ⟨fun _ _ _ h h' => ⟨h'.warmUntil.trans h.warmUntil, h.tick.trans h'.tick⟩⟩

theorem Unended.of_warmKept {α : Type} {m : Program Failure Scope α}
    (hm : Program.Within WarmKept m) : Program.Within Unended m :=
  hm.mono fun _ _ h => ⟨h.warmUntil, h.tick⟩

theorem evaluate_unended (ip : Address) (config : DetectionConfig) :
    Program.Within Unended (evaluate env ip config) := by
  intro s
  cases hr : evaluate env ip config s with
  | ok r t =>
    obtain ⟨-, hw, hl, -⟩ | ⟨s₁, emitted, -, hd, hemit⟩ := evaluate_ok hr
    · exact ⟨by rw [Program.after_ok, hw], hl.tick⟩
    · obtain ⟨eventId, value, w', -, hset, rfl, -⟩ := emit_ok hemit
      obtain ⟨entry, -, hf, -⟩ := ShardWindow.setState_ok hset
      refine ⟨hf.warmUntil.trans (by rw [← hd.window]; rfl), ?_⟩
      have hle := hd.shared.tick
      show s.shared.tick ≤ s₁.shared.tick + 3
      omega
  | error e t =>
    obtain ⟨s₁, hd, hemit⟩ := evaluate_error hr
    obtain ⟨hw, hl⟩ := emit_error hemit
    refine ⟨by rw [Program.after_error, hw, hd.window]; rfl, ?_⟩
    obtain hl | ⟨-, eventId, value, v, -, hv, ht⟩ := hl
    · exact hd.shared.tick.trans hl.tick
    · have hle : s.shared.tick ≤ v.tick := hd.shared.tick.trans hv.tick
      obtain ht | ht := ht
      · rw [Program.after_error, ht]
        exact hle
      · rw [Program.after_error, ht]
        exact hle

theorem settle_unended (ip : Address) (config : DetectionConfig) :
    Program.Within Unended (settle env ip config) :=
  Program.Within.bind (evaluate_unended ip config) fun _ => Program.Within.pure _

theorem sweepWindow_unended (config : DetectionConfig) :
    Program.Within Unended (sweepWindow env config) := by
  refine Program.Within.bind (Unended.of_warmKept (expireDue_warmKept env)) fun changes =>
    Program.Within.forM changes fun change _ => ?_
  split_ifs
  · exact settle_unended change.ip config
  · exact Program.Within.pure _

/-- A maintenance of a window whose warm-up is due ends it. -/
theorem maintainWindow_ends (hmono : Monotone env.now) (config : DetectionConfig) :
    Program.Triple (WarmupDue env) (maintainWindow env config)
      (fun _ scope => scope.window.warmUntil = none) (fun _ => True) := by
  have keep : ∀ {α : Type} {m : Program Failure Scope α}, Program.Within Unended m →
      Program.Triple (fun scope => scope.window.warmUntil = none) m
        (fun _ scope => scope.window.warmUntil = none) (fun _ => True) := fun hm =>
    (Program.Triple.of_within (S := fun scope => scope.window.warmUntil = none) hm
      fun _ _ hs hu => hu.warmUntil.trans hs).conseq
      (fun _ h => h) (fun _ _ h => h) fun _ _ => trivial
  refine Program.Triple.bind (Q := fun _ => WarmupDue env) ?_ fun _ =>
    Program.Triple.bind (Q := fun _ scope => scope.window.warmUntil = none) ?_ fun _ => ?_
  · refine (Program.Triple.of_within (S := WarmupDue env) (sweepWindow_unended config) ?_).conseq
      (fun _ h => h) (fun _ _ h => h) fun _ _ => trivial
    intro s t hs hu u hw
    rw [hu.warmUntil] at hw
    exact (hs u hw).trans (hmono hu.tick)
  · refine Program.Triple.bind (Q := fun _ scope => scope.window.warmUntil = none) ?_
      fun warmed => ?_
    · intro s hs
      obtain ⟨t, ht, hw, -, hnot⟩ | ⟨u, -, -, ht⟩ := finishWarmupIfDue_ok env s
      · rw [ht]
        show t.window.warmUntil = none
        rw [hw]
        cases hu : s.window.warmUntil with
        | none => rfl
        | some u => exact absurd (hs u hu) (not_le.mpr (hnot u hu))
      · rw [ht]
        rfl
    · refine keep (Program.Within.bind (Unended.of_warmKept (iterate_warmKept env _)) fun ips => ?_)
      exact Program.Within.forM ips fun ip _ => settle_unended ip config
  · exact Program.Triple.bind (keep (Unended.of_warmKept (evictDue_warmKept env))) fun _ =>
      Program.Triple.pure fun _ h => h

end Ending

/-! ### Runs -/

/-- A run keeps the suppression, whether its operations return or raise. -/
theorem suppressed_run {env : Env} (hmono : Monotone env.now) {past : ℕ → List HotIpEvent}
    {origin : Dict ℕ ShardWindow} {ok : DetectionConfig → Prop} {batch : ℤ}
    {operations : List Operation} (hops : ∀ operation ∈ operations, operation.Admitted ok)
    {s : World} (hs : Steady ok batch (fun _ => Suppressed env past origin) s) :
    Steady ok batch (fun _ => Suppressed env past origin) (run env operations s) := by
  refine (suppressed_runInvariant hmono ok batch).run ?_ hops hs
  intro t hf
  refine ⟨hf.config, hf.batch, hf.running, hf.windows.mono ?_⟩
  rintro scope (⟨c, -, h | h⟩ | h) <;> exact h

/-- In every run under one claim without failures, whose configurations the schema admits: between
any two operations (a) every COLD or untracked IP counts less than `hot_threshold`, (b) every HOT IP
that is not flagged counts at least `cold_threshold`, (c) no inherited IP is demoted before
`warm_until`, and (d) a maintenance that starts at or after `warm_until` leaves no flag, no
`warm_until`, and every HOT IP at `cold_threshold` or more. -/
theorem hysteresis {env : Env} (henv : env.Orderly) {shared : Shared} {config : DetectionConfig}
    (hconfig : config.SchemaValid) {batch : ℤ} (hbatch : 0 < batch) {s : World}
    (hstart : Started env shared config batch s) {operations : List Operation}
    (hops : ∀ operation ∈ operations, operation.Admitted DetectionConfig.SchemaValid)
    {t : World} (ht : t = run env operations s) {shard : ℕ} {w : ShardWindow}
    (hw : t.worker.claims.windows.get? shard = some w) :
    (∀ ip, w.state ip = .cold → w.total ip < t.worker.config.hotThreshold) ∧
      (∀ ip, w.state ip = .hot → w.isInherited ip = false →
        t.worker.config.coldThreshold ≤ w.total ip) ∧
      (∀ w₀ u, s.worker.claims.windows.get? shard = some w₀ → w₀.warmUntil = some u →
        (env.now t.shared.tick < u → ∀ ip, w₀.isInherited ip = true →
          w.isInherited ip = true ∧ w.state ip = .hot) ∧
        ∃ events, shardEvents env shard t.shared.hotIp.log =
            shardEvents env shard s.shared.hotIp.log ++ events ∧
          ∀ event ∈ events, event.type = .removed → w₀.isInherited event.ip = true →
            u ≤ event.timestamp) ∧
      ∀ t', runMaintenance env t = .ok ⟨⟩ t' →
        (∀ u, w.warmUntil = some u → u ≤ env.now t.shared.tick) →
        ∀ w', t'.worker.claims.windows.get? shard = some w' →
          w'.warmUntil = none ∧ ∀ ip, w'.isInherited ip = false ∧
            (w'.state ip = .hot → t'.worker.config.coldThreshold ≤ w'.total ip) := by
  subst ht
  have hopen : ∀ w₀, Opened env config ⟨s.shared, w₀⟩ → Hysteretic ∅ config w₀ :=
    fun _ hopened => hopened.hysteretic hconfig
  have hsteady := (hysteretic_runInvariant henv hbatch).run
    (fun s hf => by obtain ⟨_, _, _, hfalse⟩ := hf.failed; exact hfalse.elim) hops
    (hstart.steady hconfig fun w₀ _ hopened => hopen w₀ hopened)
  have hsupp := suppressed_run henv.monotone hops
    (hstart.steady (I := fun _ => Suppressed env (fun shard => shardEvents env shard s.shared.hotIp.log)
      s.worker.claims.windows) hconfig fun w₀ hw₀ hopened => by
        refine ⟨fun w₁ u ho hu _ => ?_, [], (List.append_nil _).symm, by simp⟩
        rw [hw₀] at ho
        cases ho
        exact ⟨hu, fun ip hip => ⟨hip, ((hopen w₀ hopened).flagged ip hip).1⟩⟩)
  obtain ⟨hshard, hhyst⟩ := hsteady.windows shard w hw
  obtain ⟨-, hwarm⟩ := hsupp.windows shard w hw
  subst hshard
  refine ⟨fun ip => hhyst.below ip (Set.notMem_empty ip),
    fun ip => hhyst.above ip (Set.notMem_empty ip), fun w₀ u hw₀ hu => ⟨fun hlt => ?_, ?_⟩, ?_⟩
  · exact (hwarm.warm w₀ u hw₀ hu hlt).2
  · obtain ⟨events, hevents, hremoved⟩ := hwarm.removed
    exact ⟨events, hevents, fun event hm htype hip => hremoved event hm htype w₀ u hw₀ hu hip⟩
  · intro t' hmaint hdue w' hw'
    -- The loop of the maintenance, with the shard's warm-up due before its turn and over after it.
    have hstable : Stable env fun scope => Hysteretic ∅ (run env operations s).worker.config
        scope.window ∧ (scope.window.shard = w.shard → WarmupDue env scope) := by
      intro a b v hf h
      exact ⟨h.1, fun hv u hu => (h.2 hv u hu).trans (henv.monotone hf.tick)⟩
    have hm : Program.Triple
        (fun scope => Hysteretic ∅ (run env operations s).worker.config scope.window ∧
          (scope.window.shard = w.shard → WarmupDue env scope))
        (maintainWindow env (run env operations s).worker.config)
        (fun _ scope => Hysteretic ∅ (run env operations s).worker.config scope.window ∧
          (scope.window.shard = w.shard → scope.window.warmUntil = none)) (fun _ => False) := by
      have hkeep := Hysteretic.maintainWindow henv hsteady.config
      refine Program.Triple.intro ?_ fun a e b h hr => hkeep.of_error h.1 hr
      intro a r b h hr
      refine ⟨hkeep.of_ok h.1 hr, fun hv => ?_⟩
      have hlocal := (maintainWindow_local env (run env operations s).worker.config).of_ok hr
      exact (maintainWindow_ends henv.monotone _).of_ok (h.2 (hlocal.shard.symm.trans hv)) hr
    have hpost := (runMaintenance_triple hstable (fun _ _ _ _ h => h) hsteady.running hm
      (fun shard v hv => ⟨(hsteady.windows shard v hv).1, (hsteady.windows shard v hv).2, by
        intro hshard
        rw [← (hsteady.windows shard v hv).1, hshard, hw] at hv
        cases hv
        exact hdue⟩)).of_ok rfl hmaint
    obtain ⟨hkept, heach⟩ := hpost
    obtain ⟨hshard, hhyst', hended⟩ := heach w.shard w' hw'
    have hnone := hended hshard
    have hflag : ∀ ip, w'.isInherited ip = false := fun ip =>
      Bool.eq_false_iff.mpr fun hc => (hhyst'.flagged ip hc).2 hnone
    refine ⟨hnone, fun ip => ⟨hflag ip, fun hhot => ?_⟩⟩
    rw [hkept.config]
    exact hhyst'.above ip (Set.notMem_empty ip) hhot (hflag ip)

/-- A worker that inherits one HOT IP and promotes another: the inherited one is not demoted yet, and
the other counts enough. -/
theorem hysteresis_inherited : ∃ message s w event,
    Started sampleEnv (sharedWith {⟨.ipv4, 1, by decide⟩} 3) Ingest.defaultConfig 1000 s ∧
    (run sampleEnv [.handle message] s).worker.claims.windows.get? 0 = some w ∧
    shardEvents sampleEnv 0 (run sampleEnv [.handle message] s).shared.hotIp.log = [event] ∧
    event.type = .added ∧ event.ip = ⟨.ipv4, 2, by decide⟩ ∧
    (run sampleEnv [.handle message] s).worker.config.coldThreshold ≤ w.total event.ip ∧
    w.state ⟨.ipv4, 1, by decide⟩ = .hot := by
  obtain ⟨message, s, w₀, t, w, event, tracked, hstart, hw₀, hwarm, hinherited, ht, hw, hevents,
    htype, hip, hflag, hentry⟩ := exists_promoted
  have hrun : run sampleEnv [.handle message] s = t := run_handle ht []
  have hops : ∀ operation ∈ [Operation.handle message],
      operation.Admitted DetectionConfig.SchemaValid :=
    List.forall_mem_singleton.mpr trivial
  rw [← hrun] at hw hevents
  obtain ⟨-, habove, hwarming, -⟩ := hysteresis orderly_sampleEnv
    (show Ingest.defaultConfig.SchemaValid by decide) (by norm_num) hstart
    hops rfl hw
  refine ⟨message, s, w, event, hstart, hw, hevents, htype, hip, ?_, ?_⟩
  · rw [hip]
    exact habove _ (ShardWindow.state_of_get? hentry)
      ((ShardWindow.isInherited_of_get? hentry).trans hflag)
  · obtain ⟨hkept, -⟩ := hwarming w₀ 300 hw₀ hwarm
    exact (hkept (show (0 : ℤ) < 300 by norm_num) _ hinherited).2

end Hammertime.Aggregator
