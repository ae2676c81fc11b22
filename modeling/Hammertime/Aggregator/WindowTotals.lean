import Hammertime.Aggregator.ExactlyOnce
import Hammertime.Aggregator.Warmup

/-!
# What a promotion counts

The window count of a `HotIpAdded` is the running total of the IP's ring, and the ring holds a
bucket until a sweep or another bucket takes it out. Beside the run goes a tally of every IP: the
observations applied to it since it was last untracked. At each evaluation the live part of the ring
is the live part of the tally, so that the total is what the tally has in the window, and on top of
it the buckets that have left the window and that nothing has taken out.

A sweep only lowers totals, so a maintenance promotes nothing, and an evaluation changes no counter:
the ring that a promotion was decided on is the one that its operation leaves.
-/

namespace Hammertime.Aggregator

open Lib World

/-! ### Tallies -/

namespace IpCounter

/-- What a tally has in the window at `now`. -/
def liveSum (c : IpCounter) (tally : List (ℤ × ℤ)) (now : ℤ) : ℤ :=
  ((tally.filter fun p => c.isLive p.1 now).map Prod.snd).sum

/-- From `t` on the live part of the ring is that of the tally. -/
structure Balanced (c : IpCounter) (tally : List (ℤ × ℤ)) (t : ℤ) : Prop where
  past : c.Past t
  live : ∀ now, t ≤ now → (c.expire now).2.total = c.liveSum tally now

variable {c c' : IpCounter} {tally : List (ℤ × ℤ)} {t now start delta : ℤ}

theorem liveSum_concat (c : IpCounter) (tally : List (ℤ × ℤ)) (start delta now : ℤ) :
    c.liveSum (tally ++ [(start, delta)]) now =
      c.liveSum tally now + if c.isLive start now then delta else 0 := by
  unfold liveSum
  rw [List.filter_append, List.map_append, List.sum_append]
  by_cases hlive : c.isLive start now = true
  · rw [List.filter_cons_of_pos (by simpa using hlive), if_pos hlive]
    simp
  · rw [List.filter_cons_of_neg (by simpa using hlive), if_neg hlive]
    simp

/-- The total is the live part of the tally, and what has left the window on top. -/
theorem Balanced.total (h : c.Balanced tally t) (hle : t ≤ now) :
    c.total = c.liveSum tally now + c.expiredCount now := by
  have hlive := h.live now hle
  rw [expire_total] at hlive
  have hexpired : (c.expire now).1 = c.expiredCount now := rfl
  omega

theorem Balanced.later (h : c.Balanced tally t) (hle : t ≤ now) : c.Balanced tally now :=
  ⟨h.past.mono hle, fun now' hle' => h.live now' (hle.trans hle')⟩

theorem balanced_newCounter {config : DetectionConfig} (h : newCounter config = .ok c) (t : ℤ) :
    c.Balanced [] t := by
  obtain ⟨-, hempty⟩ := ShardWindow.newCounter_empty h
  refine ⟨fun i start hi => ?_, fun now _ => ?_⟩
  · rw [hempty i] at hi
    cases hi
  · rw [expire_total_eq]
    refine Finset.sum_eq_zero fun i _ => ?_
    exact livePart_of_empty (hempty i) now

theorem Balanced.expire (h : c.Balanced tally t) (hle : t ≤ now) :
    (c.expire now).2.Balanced tally now := by
  refine ⟨(h.past.mono hle).expire now, fun now' hle' => ?_⟩
  rw [expire_expire_total (h.past.mono hle) hle', h.live now' (hle.trans hle')]
  rfl

theorem Balanced.swept (h : c.Balanced tally now) (hs : ShardWindow.SweptCounter now c c') :
    c'.Balanced tally now := by
  induction hs with
  | refl => exact h
  | tail _ hb ih =>
    rw [hb]
    exact ih.expire le_rfl

/-- An observation of a live bucket goes into the ring and into the tally. -/
theorem Balanced.add (h : c.Balanced tally t) (hle : t ≤ now)
    (haligned : start.fmod c.bucketSeconds = 0) (hdelta : 0 ≤ delta)
    (hlive : c.isLive start now = true) :
    (c.add start delta haligned hdelta).Balanced (tally ++ [(start, delta)]) now := by
  have hpast := h.past.mono hle
  refine ⟨hpast.add haligned hdelta ((isLive_iff haligned).mp hlive).1, fun now' hle' => ?_⟩
  rw [expire_add_total hpast haligned hdelta hlive hle', h.live now' (hle.trans hle')]
  exact (liveSum_concat c tally start delta now').symm

/-- One of a bucket that has left the window goes into the tally alone, and counts nothing there. -/
theorem Balanced.dead (h : c.Balanced tally t) (hle : t ≤ now)
    (haligned : start.fmod c.bucketSeconds = 0) (hstart : start ≤ now)
    (hdead : c.isLive start now = false) : c.Balanced (tally ++ [(start, delta)]) now := by
  refine ⟨h.past.mono hle, fun now' hle' => ?_⟩
  have hgone : c.isLive start now' = false := by
    have hcases := (isLive_eq_false_iff haligned).mp hdead
    exact (isLive_eq_false_iff haligned).mpr (by omega)
  rw [liveSum_concat, hgone, h.live now' (hle.trans hle')]
  simp

end IpCounter

/-! ### The tallies of a window -/

namespace ShardWindow

/-- Every counter is balanced with the tally of its IP. -/
def Balanced (tally : Address → List (ℤ × ℤ)) (t : ℤ) (w : ShardWindow) : Prop :=
  ∀ ip entry, w.entries.get? ip = some entry → entry.counter.Balanced (tally ip) t

variable {tally : Address → List (ℤ × ℤ)} {t now : ℤ} {w w' : ShardWindow}

theorem Balanced.later (h : w.Balanced tally t) (hle : t ≤ now) : w.Balanced tally now :=
  fun ip entry hget => (h ip entry hget).later hle

theorem SameCounters.get? (h : w.SameCounters w') {ip : Address} {entry' : Entry}
    (hget : w'.entries.get? ip = some entry') :
    ∃ entry, w.entries.get? ip = some entry ∧ entry'.counter = entry.counter := by
  have hcounter := h.counter ip
  rw [hget] at hcounter
  cases hold : w.entries.get? ip with
  | none =>
    rw [hold] at hcounter
    cases hcounter
  | some entry =>
    rw [hold] at hcounter
    exact ⟨entry, rfl, Option.some.inj hcounter⟩

theorem SameCounters.total (h : w.SameCounters w') (ip : Address) : w'.total ip = w.total ip := by
  have hcounter := h.counter ip
  unfold ShardWindow.total
  cases hold : w.entries.get? ip <;> cases hnew : w'.entries.get? ip <;>
    simp only [hold, hnew, Option.map_none, Option.map_some, Option.some.injEq, reduceCtorEq]
      at hcounter ⊢
  rw [hcounter]

theorem Balanced.sameCounters (h : w.Balanced tally t) (hs : w.SameCounters w') :
    w'.Balanced tally t := by
  intro ip entry' hget
  obtain ⟨entry, hold, hcounter⟩ := hs.get? hget
  rw [hcounter]
  exact h ip entry hold

/-- A sweep or an eviction keeps the balance. -/
theorem Balanced.swept (h : w.Balanced tally now)
    (hs : ∀ ip entry', w'.entries.get? ip = some entry' →
      ∃ entry, w.entries.get? ip = some entry ∧ SweptCounter now entry.counter entry'.counter) :
    w'.Balanced tally now := by
  intro ip entry' hget
  obtain ⟨entry, hold, hswept⟩ := hs ip entry' hget
  exact (h ip entry hold).swept hswept

/-- An observation that is not refused is one of an aligned bucket. -/
theorem observe_aligned {ip : Address} {start delta : ℤ}
    {answer : Option WindowChange × ShardWindow} (h : w.observe ip start delta now = .ok answer)
    {entry : Entry} (hget : w.entries.get? ip = some entry) :
    start.fmod entry.counter.bucketSeconds = 0 := by
  by_contra hunaligned
  have hrefused : entry.counter.observe start delta now = .error (.valueError
      s!"bucket start {start} is not a multiple of bucket_seconds {entry.counter.bucketSeconds}") :=
    dif_neg hunaligned
  unfold observe at h
  rw [hget] at h
  simp only [bind, Except.bind, hrefused] at h
  cases h

/-- An observation goes into the tally of its IP, whatever the ring makes of it. -/
theorem Balanced.observe (h : w.Balanced tally t) (hle : t ≤ now) {ip : Address} {start delta : ℤ}
    {change : Option WindowChange} (ho : w.observe ip start delta now = .ok (change, w'))
    (hstart : start ≤ now) (hnew : w.entries.get? ip = none → tally ip = []) :
    w'.Balanced (Function.update tally ip (tally ip ++ [(start, delta)])) now := by
  -- The entries of the other IPs, and that of the IP as it is written.
  have hwritten : ∀ {v : ShardWindow} {entry' : Entry},
      entry'.counter.Balanced (tally ip ++ [(start, delta)]) now →
      (∀ other entry, v.entries.get? other = some entry → w.entries.get? other = some entry) →
      ∀ other entry, (v.entries.set ip entry').get? other = some entry →
        entry.counter.Balanced
          (Function.update tally ip (tally ip ++ [(start, delta)]) other) now := by
    intro v entry' hentry' hv other entry hget
    rw [Dict.get?_set] at hget
    by_cases hip : ip = other
    · rw [if_pos hip] at hget
      cases hget
      rw [← hip, Function.update_self]
      exact hentry'
    · rw [if_neg hip] at hget
      rw [Function.update_of_ne (Ne.symm hip)]
      exact (h other entry (hv other entry hget)).later hle
  obtain ⟨rfl, rfl, c, hc, hdead⟩ | ⟨c, c', entry', hget, hfresh, hc, rfl, rfl, rfl⟩ |
    ⟨entry, c', entry', hget, hc, rfl, rfl, rfl⟩ := observe_inv ho
  · intro other entry hother
    by_cases hip : ip = other
    · subst hip
      have hcounter : entry.counter = c := by
        unfold counterOf at hc
        rw [hother] at hc
        exact Except.ok.inj hc
      rw [Function.update_self, hcounter]
      rw [← hcounter] at hdead ⊢
      exact (h ip entry hother).dead hle (observe_aligned ho hother) hstart hdead
    · rw [Function.update_of_ne (Ne.symm hip)]
      exact (h other entry hother).later hle
  · obtain ⟨haligned, hdelta, hlive, rfl⟩ := IpCounter.observe_true hc
    intro other entry hother
    rw [scheduleExpiry_entries, track_entries] at hother
    refine hwritten ?_ (fun other entry hv => (evictForCapacity_shrinks w).get? hv) other entry
      hother
    rw [hnew hget]
    exact (IpCounter.balanced_newCounter hfresh now).add le_rfl haligned hdelta hlive
  · obtain ⟨haligned, hdelta, hlive, rfl⟩ := IpCounter.observe_true hc
    intro other entry' hother
    rw [scheduleExpiry_entries] at hother
    exact hwritten (v := w) ((h ip entry hget).add hle haligned hdelta hlive)
      (fun _ _ hv => hv) other entry' hother

end ShardWindow

/-! ### One evaluation -/

section Evaluations

variable {env : Env}

/-- What an evaluation that returns appends to the log of its shard: a promotion is of the IP that
was evaluated, which was COLD and tracked, at its total, and dated by a later reading. -/
theorem evaluate_events {ip : Address} {config : DetectionConfig} {s t : Scope}
    {r : Option EmittedTransition} (h : evaluate env ip config s = .ok r t) :
    s.shared.tick ≤ t.shared.tick ∧ ∃ events,
      shardEvents env s.window.shard t.shared.hotIp.log =
        shardEvents env s.window.shard s.shared.hotIp.log ++ events ∧
      ∀ event ∈ events, event.type = .added → event.ip = ip ∧ s.window.state ip = .cold ∧
        config.hotThreshold ≤ s.window.total ip ∧ event.windowCount = s.window.total ip ∧
        (∃ entry, s.window.entries.get? ip = some entry) ∧
        ∃ tick, s.shared.tick ≤ tick ∧ event.timestamp = env.now tick := by
  obtain ⟨-, -, hlater, -⟩ | ⟨s₁, emitted, -, hd, hemit⟩ := evaluate_ok h
  · exact ⟨hlater.tick, [], by rw [hlater.hotIp, List.append_nil], by simp⟩
  · obtain ⟨eventId, value, w', henc, hset, rfl, -⟩ := emit_ok hemit
    rw [hd.window] at henc hset
    have htick : s.shared.tick ≤ s₁.shared.tick := hd.shared.tick
    refine ⟨show s.shared.tick ≤ s₁.shared.tick + 3 by omega, ?_⟩
    obtain hlog | hlog := published_log env
      (persisted s₁.shared.advance.advance s₁.window.shard ip
        (edgeOf s.window ip config).current s₁.window.nextSequence).advance ip eventId value
    · refine ⟨[], ?_, by simp⟩
      rw [List.append_nil, ← hd.shared.hotIp]
      exact congrArg (shardEvents env s.window.shard) hlog
    · obtain ⟨attributes, hconcat⟩ :=
        shardEvents_concat henc s.shared.hotIp.log (utf8 (env.text ip))
      refine ⟨[eventOf ip (edgeOf s.window ip config) s.window.nextSequence config
        (env.now s₁.shared.tick) attributes], ?_, ?_⟩
      · rw [← hconcat, ← hd.shared.hotIp]
        exact congrArg (shardEvents env s.window.shard) hlog
      · intro event hevent htype
        obtain rfl := List.mem_singleton.mp hevent
        have hhot : (edgeOf s.window ip config).current = .hot := by
          cases hc : (edgeOf s.window ip config).current with
          | hot => rfl
          | cold =>
            have htype' : eventTypeOf (edgeOf s.window ip config).current = .added := htype
            rw [hc] at htype'
            cases htype'
        have hcold : s.window.state ip = .cold := by
          cases hstate : s.window.state ip with
          | cold => rfl
          | hot => exact absurd (hhot.trans hstate.symm) hd.changed
        have hnew : evaluateIpState (s.window.state ip) (s.window.total ip) config = .hot := hhot
        rw [hcold] at hnew
        obtain ⟨entry, hentry, -⟩ := ShardWindow.setState_ok hset
        exact ⟨rfl, hcold, evaluateIpState_cold_eq_hot.mp hnew, rfl, ⟨entry, hentry⟩,
          s₁.shared.tick, htick, rfl⟩

/-- An IP that is COLD after an evaluation was COLD before, or counts less than the lower
threshold. -/
theorem evaluate_cold {ip : Address} {config : DetectionConfig} {s t : Scope}
    {r : Option EmittedTransition} (h : evaluate env ip config s = .ok r t) {other : Address}
    (hcold : t.window.state other = .cold) :
    s.window.state other = .cold ∨ s.window.total other < config.coldThreshold := by
  obtain ⟨-, hw, -⟩ | ⟨s₁, emitted, -, hd, hemit⟩ := evaluate_ok h
  · rw [hw] at hcold
    exact Or.inl hcold
  · obtain ⟨eventId, value, w', -, hset, rfl, -⟩ := emit_ok hemit
    rw [hd.window] at hset
    obtain ⟨entry, hentry, -, hentries⟩ := ShardWindow.setState_ok hset
    have hget : w'.entries.get? other = _ := congrArg (fun d => d.get? other) hentries
    rw [Dict.get?_set] at hget
    by_cases hip : ip = other
    · subst hip
      rw [if_pos rfl] at hget
      have hcurrent : (edgeOf s.window ip config).current = .cold :=
        (ShardWindow.state_of_get? hget).symm.trans hcold
      cases hstate : s.window.state ip with
      | cold => exact Or.inl rfl
      | hot =>
        have hnew : evaluateIpState (s.window.state ip) (s.window.total ip) config = .cold :=
          hcurrent
        rw [hstate] at hnew
        exact Or.inr (evaluateIpState_hot_eq_cold.mp hnew)
    · rw [if_neg hip] at hget
      have hkept : s.window.state other = w'.state other :=
        (ShardWindow.state_congr (w := s.window.taken) hget).symm
      exact Or.inl (hkept.trans hcold)

/-! ### Programs that announce -/

/-- In the log of the shard every promotion since `past` has `P`. -/
def Promotes (env : Env) (past : ℕ → List HotIpEvent) (P : ShardWindow → HotIpEvent → Prop)
    (scope : Scope) : Prop :=
  ∃ events, shardEvents env scope.window.shard scope.shared.hotIp.log =
      past scope.window.shard ++ events ∧
    ∀ event ∈ events, event.type = .added → P scope.window event

/-- The count of a promotion is what its IP's tally has in the window when it is dated, and on top
of it what the ring holds that has left the window. -/
def ShardWindow.Exact (tally : Address → List (ℤ × ℤ)) (w : ShardWindow) (event : HotIpEvent) :
    Prop :=
  ∃ entry, w.entries.get? event.ip = some entry ∧ event.windowCount = entry.counter.total ∧
    event.windowCount = entry.counter.liveSum (tally event.ip) event.timestamp +
      entry.counter.expiredCount event.timestamp

/-- The window is balanced, and since `past` every promotion of the shard has been exact. -/
structure Booked (env : Env) (past : ℕ → List HotIpEvent) (tally : ℕ → Address → List (ℤ × ℤ))
    (scope : Scope) : Prop where
  balanced : scope.window.Balanced (tally scope.window.shard) (env.now scope.shared.tick)
  promotes : Promotes env past (fun w => w.Exact (tally w.shard)) scope

variable {past : ℕ → List HotIpEvent} {tally : ℕ → Address → List (ℤ × ℤ)}
  {config : DetectionConfig}

theorem booked_stable (hmono : Monotone env.now) : Stable env (Booked env past tally) := by
  intro s t w hf h
  obtain ⟨events, hlog, hevents⟩ := h.promotes
  exact ⟨h.balanced.later (hmono hf.tick), events, hf.shardEvents_eq.trans hlog, hevents⟩

/-- An evaluation changes no counter, so what was exact stays so, and a promotion that it announces
is. -/
theorem Booked.evaluate (hmono : Monotone env.now) (ip : Address) (config : DetectionConfig) :
    Program.Triple (Booked env past tally) (evaluate env ip config)
      (fun _ => Booked env past tally) (fun _ => True) := by
  refine Program.Triple.intro ?_ fun _ _ _ _ _ => trivial
  intro s r t h hr
  obtain ⟨htick, added, hadded, hpromotion⟩ := evaluate_events hr
  have hsame : s.window.SameCounters t.window := (evaluate_sameCounters env ip config).of_ok hr
  have hshard : t.window.shard = s.window.shard := (evaluate_local env ip config).of_ok hr |>.shard
  obtain ⟨events, hlog, hevents⟩ := h.promotes
  refine ⟨?_, events ++ added, ?_, ?_⟩
  · rw [hshard]
    exact (h.balanced.sameCounters hsame).later (hmono htick)
  · rw [hshard, hadded, hlog, List.append_assoc]
  · intro event hevent htype
    -- The counter of the IP before the evaluation is the one after it.
    have hkeep : s.window.Exact (tally s.window.shard) event →
        t.window.Exact (tally t.window.shard) event := by
      rintro ⟨entry, hget, hcount⟩
      have hcounter := hsame.counter event.ip
      rw [hget] at hcounter
      obtain ⟨entry', hget', hsame'⟩ := Option.map_eq_some_iff.mp hcounter
      rw [← hsame'] at hcount
      rw [hshard]
      exact ⟨entry', hget', hcount⟩
    refine hkeep ?_
    obtain hevent | hevent := List.mem_append.mp hevent
    · exact hevents event hevent htype
    · obtain ⟨rfl, -, -, hcount, ⟨entry, hget⟩, tick, hle, htime⟩ := hpromotion event hevent htype
      rw [ShardWindow.total_of_get? hget] at hcount
      refine ⟨entry, hget, hcount, ?_⟩
      rw [hcount, htime]
      exact (h.balanced event.ip entry hget).total (hmono hle)

theorem Booked.settle (hmono : Monotone env.now) (ip : Address) (config : DetectionConfig) :
    Program.Triple (Booked env past tally) (settle env ip config)
      (fun _ => Booked env past tally) (fun _ => True) :=
  Program.Triple.bind (Booked.evaluate hmono ip config) fun _ => Program.Triple.pure fun _ h => h

theorem Booked.reevaluateShard (hmono : Monotone env.now) (config : DetectionConfig) (batch : ℤ) :
    Program.Triple (Booked env past tally) (reevaluateShard env config batch)
      (fun _ => Booked env past tally) (fun _ => True) := by
  unfold Aggregator.reevaluateShard
  split_ifs
  · exact Program.Triple.throw fun _ _ => trivial
  · refine Program.Triple.get_bind fun s hs => ?_
    refine Program.Triple.bind (Q := fun _ => Booked env past tally) ?_ fun targets => ?_
    · intro s' heq
      subst heq
      exact ⟨hs.balanced.later (hmono (Nat.le_succ _)), hs.promotes⟩
    · refine Program.Triple.foldlM (I := fun _ => Booked env past tally) targets 0
        fun _ ip _ => ?_
      exact Program.Triple.bind (Booked.evaluate hmono ip config) fun _ =>
        Program.Triple.pure fun _ h => h

/-- A configuration that keeps the geometry is adopted as it is. -/
theorem Booked.adoptConfig {old new : DetectionConfig}
    (hseconds : new.bucketSeconds = old.bucketSeconds)
    (hcount : new.bucketCount = old.bucketCount) :
    Program.Triple (fun scope => scope.window.config = old ∧ Booked env past tally scope)
      (adoptConfig env new) (fun _ => Booked env past tally) (fun _ => True) := by
  refine Program.Triple.intro ?_ fun _ _ _ _ _ => trivial
  rintro s a t ⟨hold, h⟩ hr
  have hsame : ¬ s.window.rebuilds new := by
    rw [ShardWindow.rebuilds, hold]
    rintro (hne | hne)
    · exact hne hseconds
    · exact hne hcount
  rw [adoptConfig_eq, if_neg hsame] at hr
  cases hr
  exact ⟨h.balanced, h.promotes⟩

/-! ### A maintenance promotes nothing -/

/-- No COLD IP is due to be promoted. -/
def Calm (config : DetectionConfig) (w : ShardWindow) : Prop :=
  ∀ ip, w.state ip = .cold → w.total ip < config.hotThreshold

theorem Calm.of_shrinks {w w' : ShardWindow} (h : Calm config w) (hhot : 1 ≤ config.hotThreshold)
    (hs : w.Shrinks w') : Calm config w' := by
  intro ip hcold
  obtain hkept | ⟨hdropped, -⟩ := hs.kept ip
  · rw [ShardWindow.total_congr hkept]
    exact h ip ((ShardWindow.state_congr hkept).symm.trans hcold)
  · simp only [ShardWindow.total, hdropped]
    omega

theorem Calm.of_swept {w w' : ShardWindow} (h : Calm config w) {now : ℤ}
    {changes : List WindowChange} (hs : w.Swept now changes w') : Calm config w' := by
  intro ip hcold
  obtain ⟨hnone, hnone'⟩ | ⟨entry, c', hget, hget', hswept, -⟩ := hs.entries ip
  · have hkept := hnone'.trans hnone.symm
    rw [ShardWindow.total_congr hkept]
    exact h ip ((ShardWindow.state_congr hkept).symm.trans hcold)
  · rw [ShardWindow.state_of_get? hget'] at hcold
    have hbefore := h ip ((ShardWindow.state_of_get? hget).trans hcold)
    rw [ShardWindow.total_of_get? hget] at hbefore
    rw [ShardWindow.total_of_get? hget']
    exact hswept.total_le.trans_lt hbefore

/-- A balanced window in which nothing is due, and nothing was promoted since `past`. -/
structure Resting (env : Env) (config : DetectionConfig) (past : ℕ → List HotIpEvent)
    (tally : ℕ → Address → List (ℤ × ℤ)) (scope : Scope) : Prop where
  calm : Calm config scope.window
  balanced : scope.window.Balanced (tally scope.window.shard) (env.now scope.shared.tick)
  silent : Promotes env past (fun _ _ => False) scope

theorem Resting.booked {scope : Scope} (h : Resting env config past tally scope) :
    Booked env past tally scope := by
  obtain ⟨events, hlog, hsilent⟩ := h.silent
  exact ⟨h.balanced, events, hlog, fun event hevent htype => (hsilent event hevent htype).elim⟩

/-- The window keeps its shard and the log is the one of before. -/
theorem Resting.silent_of {s : Scope} (h : Resting env config past tally s) {t : Scope}
    (hshard : t.window.shard = s.window.shard) (hlog : t.shared.hotIp = s.shared.hotIp) :
    Promotes env past (fun _ _ => False) t := by
  obtain ⟨events, hevents, hsilent⟩ := h.silent
  exact ⟨events, by rw [hshard, hlog]; exact hevents, hsilent⟩

theorem Resting.settle (hmono : Monotone env.now) (ip : Address) :
    Program.Triple (Resting env config past tally) (settle env ip config)
      (fun _ => Resting env config past tally) (fun _ => True) := by
  refine Program.Triple.bind (Q := fun _ => Resting env config past tally) ?_ fun _ =>
    Program.Triple.pure fun _ h => h
  refine Program.Triple.intro ?_ fun _ _ _ _ _ => trivial
  intro s r t h hr
  obtain ⟨htick, added, hadded, hpromotion⟩ := evaluate_events hr
  have hsame : s.window.SameCounters t.window := (evaluate_sameCounters env ip config).of_ok hr
  have hshard : t.window.shard = s.window.shard := (evaluate_local env ip config).of_ok hr |>.shard
  obtain ⟨events, hlog, hsilent⟩ := h.silent
  refine ⟨fun other hcold => ?_, ?_, events ++ added, ?_, fun event hevent htype => ?_⟩
  · rw [hsame.total other]
    have hcolder := config.cold_lt_hot
    obtain hbefore | hbelow := evaluate_cold hr hcold
    · exact h.calm other hbefore
    · exact hbelow.trans hcolder
  · rw [hshard]
    exact (h.balanced.sameCounters hsame).later (hmono htick)
  · rw [hshard, hadded, hlog, List.append_assoc]
  · obtain hevent | hevent := List.mem_append.mp hevent
    · exact hsilent event hevent htype
    · obtain ⟨-, hcold, hdue, -⟩ := hpromotion event hevent htype
      exact absurd hdue (not_le.mpr (h.calm ip hcold))

theorem Resting.maintainWindow (hmono : Monotone env.now) (hhot : 1 ≤ config.hotThreshold) :
    Program.Triple (Resting env config past tally) (maintainWindow env config)
      (fun _ => Resting env config past tally) (fun _ => True) := by
  have hadvance : ∀ tick, env.now tick ≤ env.now (tick + 1) := fun tick => hmono (Nat.le_succ tick)
  refine Program.Triple.bind (Q := fun _ => Resting env config past tally) ?_ fun _ =>
    Program.Triple.bind (Q := fun _ => Resting env config past tally) ?_ fun _ =>
      Program.Triple.bind (Q := fun _ => Resting env config past tally) ?_ fun _ =>
        Program.Triple.pure fun _ h => h
  · -- The sweep lowers totals, and the evaluations after it find nothing due.
    refine Program.Triple.bind (Q := fun _ => Resting env config past tally) ?_ fun changes => ?_
    · intro s h
      rw [expireDue_apply]
      have hswept := ShardWindow.expireDue_swept s.window (env.now s.shared.tick)
      refine ⟨h.calm.of_swept hswept, ?_, h.silent_of hswept.shard rfl⟩
      refine ShardWindow.Balanced.later (t := env.now s.shared.tick) ?_ (hadvance _)
      show ShardWindow.Balanced (tally (s.window.expireDue (env.now s.shared.tick)).2.shard) _ _
      rw [hswept.shard]
      refine h.balanced.swept fun ip entry' hget => ?_
      obtain ⟨-, hnone⟩ | ⟨entry, c', hold, hnew, hc, -⟩ := hswept.entries ip
      · rw [hnone] at hget
        cases hget
      · rw [hnew] at hget
        cases hget
        exact ⟨entry, hold, hc⟩
    · refine Program.Triple.forM (I := fun _ => Resting env config past tally) changes
        fun change _ => ?_
      split_ifs
      · exact Resting.settle hmono change.ip
      · exact Program.Triple.pure fun _ h => h
  · -- The end of the warm-up clears flags.
    refine Program.Triple.bind (Q := fun _ => Resting env config past tally) ?_ fun warmed => ?_
    · intro s h
      obtain ⟨t, hr, hw, hlater, -⟩ | ⟨u, -, -, hr⟩ := finishWarmupIfDue_ok env s
      · rw [hr]
        refine ⟨hw ▸ h.calm, ?_, h.silent_of (by rw [hw]) hlater.hotIp⟩
        rw [hw]
        exact h.balanced.later (hmono hlater.tick)
      · rw [hr]
        have hcounters : s.window.SameCounters s.window.finishWarmup.2 :=
          ⟨rfl, fun ip => by rw [ShardWindow.get?_finishWarmup, Option.map_map]; rfl⟩
        refine ⟨fun ip hcold => ?_, ?_, h.silent_of rfl rfl⟩
        · show s.window.finishWarmup.2.total ip < _
          rw [hcounters.total ip]
          refine h.calm ip ?_
          have hstates := (SameStates.finishWarmup s.window).state ip
          exact hstates.symm.trans hcold
        · exact (h.balanced.sameCounters hcounters).later (hadvance _)
    · refine Program.Triple.bind (Q := fun _ => Resting env config past tally)
        (fun s h => ⟨h.calm, h.balanced.later (hadvance _), h.silent⟩) fun ips => ?_
      exact Program.Triple.forM (I := fun _ => Resting env config past tally) ips fun ip _ =>
        Resting.settle hmono ip
  · -- An eviction drops entries.
    intro s h
    rw [evictDue_apply]
    have hshrinks := ShardWindow.evictDue_shrinks s.window (env.now s.shared.tick)
    refine ⟨h.calm.of_shrinks hhot hshrinks, ?_, h.silent_of hshrinks.shard rfl⟩
    refine ShardWindow.Balanced.later (t := env.now s.shared.tick) ?_ (hadvance _)
    show ShardWindow.Balanced (tally (s.window.evictDue (env.now s.shared.tick)).2.shard) _ _
    rw [hshrinks.shard]
    exact fun ip entry hget => h.balanced ip entry (hshrinks.get? hget)

end Evaluations


/-! ### One operation -/

section Operations

variable {env : Env}

/-- The bucket and the count of the observation of the IP that the operation applies at the shard,
if `handle` answers that it has. -/
def appliedBy (env : Env) (shard : ℕ) (ip : Address) (s : World) : Operation → List (ℤ × ℤ)
  | .handle message =>
    match handle env message s with
    | .ok .applied _ =>
      match decodeObservation env message, s.worker.claims.windows.get? message.partition with
      | some (_, payload, entry), some w =>
        if message.partition = shard ∧ entry.ip = ip then
          [(bucketStart payload.windowStart w.config.bucketSeconds, entry.requestCount)]
        else []
      | _, _ => []
    | _ => []
  | .runMaintenance => []
  | .applyConfig _ => []

theorem appliedBy_other {message : ConsumedMessage} {s t : World} {outcome : ObservationOutcome}
    (h : handle env message s = .ok outcome t) (hother : outcome ≠ .applied) (shard : ℕ)
    (ip : Address) : appliedBy env shard ip s (.handle message) = [] := by
  unfold appliedBy
  dsimp only
  rw [h]
  cases outcome with
  | applied => exact absurd rfl hother
  | _ => rfl

theorem appliedBy_applied {message : ConsumedMessage} {s t : World} {eventId : String}
    {payload : RequestObservation} {entry : Observation} {w : ShardWindow}
    (h : handle env message s = .ok .applied t)
    (hdecode : decodeObservation env message = some (eventId, payload, entry))
    (hw : s.worker.claims.windows.get? message.partition = some w) (shard : ℕ) (ip : Address) :
    appliedBy env shard ip s (.handle message) =
      if message.partition = shard ∧ entry.ip = ip then
        [(bucketStart payload.windowStart w.config.bucketSeconds, (entry.requestCount : ℤ))]
      else [] := by
  unfold appliedBy
  dsimp only
  rw [h]
  dsimp only
  rw [hdecode, hw]

/-- What is classified as applied has started. -/
theorem le_of_classified {windowStart windowSeconds now : ℤ} {config : DetectionConfig}
    (h : classifyObservation windowStart windowSeconds now config = .applied) :
    windowStart ≤ now := by
  unfold classifyObservation at h
  split_ifs at h with hlong hfuture
  exact not_lt.mp hfuture

/-- How `handle` ends, if it returns: it leaves the windows, or it has counted an observation in
that of its shard. -/
theorem handle_counts {message : ConsumedMessage} {s t : World} {outcome : ObservationOutcome}
    (h : handle env message s = .ok outcome t) :
    (outcome ≠ .applied ∧ t.worker.claims.windows = s.worker.claims.windows ∧
        ∀ shard, Foreign env shard s.shared t.shared) ∨
      outcome = .applied ∧ ∃ eventId payload entry w scope,
        decodeObservation env message = some (eventId, payload, entry) ∧
        s.worker.claims.windows.get? message.partition = some w ∧
        payload.windowStart ≤ env.now s.shared.tick ∧
        countObservation env payload.windowStart entry s.worker.config ⟨s.shared.advance, w⟩ =
          .ok ⟨⟩ scope ∧
        t.shared = scope.shared ∧
        t.worker.claims.windows = s.worker.claims.windows.set message.partition scope.window := by
  cases hstop : s.worker.stopping with
  | true =>
    rw [handle_stopping hstop] at h
    cases h
    exact Or.inl ⟨nofun, rfl, fun _ => Foreign.refl _ _ _⟩
  | false =>
    cases hheld : s.worker.claims.windows.contains message.partition with
    | false =>
      rw [handle_unheld hstop hheld] at h
      cases h
      exact Or.inl ⟨nofun, rfl, fun _ => Foreign.refl _ _ _⟩
    | true =>
      -- A message that is only marked changes nothing else.
      have hmarked : ∀ {answer : ObservationOutcome}, (do
            modifyClaims fun claims => claims.markHandled message
            pure answer : Program Failure World ObservationOutcome) s = .ok outcome t →
          answer ≠ .applied →
          outcome ≠ .applied ∧ t.worker.claims.windows = s.worker.claims.windows ∧
            ∀ shard, Foreign env shard s.shared t.shared := by
        intro answer hmark hanswer
        obtain ⟨rfl, -, hshared, hwindows⟩ := marked_ok hheld hmark
        exact ⟨hanswer, hwindows, fun shard => by rw [hshared]; exact Foreign.refl _ _ _⟩
      by_cases hfirst : First s message
      · cases hdecode : decodeObservation env message with
        | none =>
          rw [handle_malformed hstop hheld hfirst hdecode] at h
          exact Or.inl (hmarked h nofun)
        | some decoded =>
          obtain ⟨eventId, payload, entry⟩ := decoded
          rw [handle_decoded hstop hheld hfirst hdecode] at h
          by_cases hclass : classifyObservation payload.windowStart payload.windowSeconds
              (env.now s.shared.tick) s.worker.config = .applied
          · rw [handleObservation_applied hclass] at h
            obtain ⟨⟨⟩, u, hwindow, h⟩ := Program.bind_ok.mp h
            obtain ⟨w, scope, hw, hcount, rfl⟩ := onWindow_ok.mp hwindow
            have hheld' : (World.setWindow { s with shared := s.shared.advance } message.partition
                scope).worker.claims.windows.contains message.partition = true :=
              congrArg Option.isSome (Dict.get?_set_self _ _ _)
            obtain ⟨rfl, -, hshared, hwindows⟩ := marked_ok hheld' h
            exact Or.inr ⟨rfl, eventId, payload, entry, w, scope, rfl, hw, le_of_classified hclass,
              hcount, hshared, hwindows⟩
          · rw [handleObservation_diverted hclass] at h
            obtain ⟨⟨⟩, u, hpublish, h⟩ := Program.bind_ok.mp h
            have haside := (publishReconciliation_aside env (utf8 (env.text entry.ip)) message.value
              eventId).of_ok hpublish
            have hheld' : u.worker.claims.windows.contains message.partition = true := by
              rw [haside.worker]
              exact hheld
            obtain ⟨rfl, -, hshared, hwindows⟩ := marked_ok hheld' h
            refine Or.inl ⟨hclass, ?_, fun shard => ?_⟩
            · rw [hwindows, haside.worker]
            · rw [hshared]
              exact (Foreign.of_later (Shared.Later.advance s.shared)).trans (haside.foreign shard)
      · rw [handle_redelivered hstop hheld hfirst] at h
        exact Or.inl (hmarked h nofun)

/-- Without failures `handle` returns. -/
theorem handle_ne_error (henv : env.Orderly) {ok : DetectionConfig → Prop} {batch : ℤ} {s t : World}
    (hok : ∀ config, ok config → config.SchemaValid)
    (hs : Steady ok batch (fun config scope => Hysteretic ∅ config scope.window) s)
    {message : ConsumedMessage} {e : Failure} : handle env message s ≠ .error e t := by
  intro h
  cases hheld : s.worker.claims.windows.contains message.partition with
  | false =>
    rw [handle_unheld hs.running hheld] at h
    cases h
  | true =>
    by_cases hfirst : First s message
    · cases hdecode : decodeObservation env message with
      | none =>
        rw [handle_malformed hs.running hheld hfirst hdecode] at h
        exact marked_ne_error hheld h
      | some decoded =>
        obtain ⟨eventId, payload, entry⟩ := decoded
        rw [handle_decoded hs.running hheld hfirst hdecode] at h
        by_cases hclass : classifyObservation payload.windowStart payload.windowSeconds
            (env.now s.shared.tick) s.worker.config = .applied
        · rw [handleObservation_applied hclass] at h
          obtain hwindow | ⟨⟨⟩, u, hwindow, h⟩ := Program.bind_error.mp h
          · obtain ⟨hnone, -⟩ | ⟨w, scope, hw, hcount, -⟩ := onWindow_error.mp hwindow
            · obtain ⟨w, hw⟩ := Option.isSome_iff_exists.mp hheld
              exact absurd (hw.symm.trans hnone) (Option.some_ne_none w)
            · have hhyst := (hs.windows message.partition w hw).2
              exact (Hysteretic.countObservation henv (hok _ hs.config) payload.windowStart
                entry).of_error (s := ⟨s.shared.advance, w⟩) hhyst hcount
          · obtain ⟨w, scope, -, -, rfl⟩ := onWindow_ok.mp hwindow
            have hheld' : (World.setWindow { s with shared := s.shared.advance } message.partition
                scope).worker.claims.windows.contains message.partition = true :=
              congrArg Option.isSome (Dict.get?_set_self _ _ _)
            exact marked_ne_error hheld' h
        · rw [handleObservation_diverted hclass] at h
          obtain hpublish | ⟨⟨⟩, u, hpublish, h⟩ := Program.bind_error.mp h
          · obtain ⟨shared, hraised, -⟩ := Program.zoom_error.mp hpublish
            exact (Shared.call_error rfl hraised).1 (henv.noCallFails _)
          · obtain ⟨shared, -, rfl⟩ := Program.zoom_ok.mp hpublish
            exact marked_ne_error (s := ⟨shared, s.worker⟩) hheld h
    · rw [handle_redelivered hs.running hheld hfirst] at h
      exact marked_ne_error hheld h

/-! ### Worlds whose tallies are kept -/

/-- The configurations of one geometry that the schema admits. -/
def SameGeometry (base config : DetectionConfig) : Prop :=
  config.SchemaValid ∧ config.windowSeconds = base.windowSeconds ∧
    config.bucketSeconds = base.bucketSeconds

theorem SameGeometry.bucketCount {base old new : DetectionConfig} (hold : SameGeometry base old)
    (hnew : SameGeometry base new) : new.bucketCount = old.bucketCount := by
  unfold DetectionConfig.bucketCount
  rw [hnew.2.1, hnew.2.2, hold.2.1, hold.2.2]

/-- The shard's window has an entry of the IP. -/
def World.tracks (shard : ℕ) (ip : Address) (s : World) : Bool :=
  (s.worker.claims.windows.get? shard).any fun w => (w.entries.get? ip).isSome

theorem tracks_of_get? {s : World} {shard : ℕ} {w : ShardWindow}
    (hw : s.worker.claims.windows.get? shard = some w) (ip : Address) :
    s.tracks shard ip = (w.entries.get? ip).isSome := by
  unfold World.tracks
  rw [hw]
  rfl

/-- The events that each shard has in the log. -/
def eventsOf (env : Env) (s : World) (shard : ℕ) : List HotIpEvent :=
  shardEvents env shard s.shared.hotIp.log

/-- An operation that brings no configuration but of the geometry keeps the windows hysteretic. -/
theorem steady_step (henv : env.Orderly) {base : DetectionConfig} {batch : ℤ} (hbatch : 0 < batch)
    {operation : Operation} (hadmitted : operation.Admitted (SameGeometry base)) {s : World}
    (hs : Steady (SameGeometry base) batch
      (fun config scope => Hysteretic ∅ config scope.window) s) :
    Steady (SameGeometry base) batch (fun config scope => Hysteretic ∅ config scope.window)
      (Program.after (operation.program env s)) := by
  have hinvariant : RunInvariant env (SameGeometry base) batch
      (fun config scope => Hysteretic ∅ config scope.window)
      (fun config scope => Hysteretic Set.univ config scope.window) (fun _ => False) :=
    have hall := hysteretic_runInvariant henv hbatch
    { stable := hall.stable
      stable_adopted := hall.stable_adopted
      countObservation := fun config hok => hall.countObservation config hok.1
      maintainWindow := fun config hok => hall.maintainWindow config hok.1
      adoptConfig := fun old new hold hnew => hall.adoptConfig old new hold.1 hnew.1
      reevaluateShard := fun config hok => hall.reevaluateShard config hok.1 }
  show Steady _ _ _ (run env [operation] s)
  refine hinvariant.run (fun t hfailed => ?_) ?_ hs
  · obtain ⟨_, _, _, hfalse⟩ := hfailed.failed
    exact hfalse.elim
  · intro operation' hmem
    rw [List.mem_singleton.mp hmem]
    exact hadmitted

/-- A world between two operations, with the tally of every IP at every shard. -/
structure Audited (env : Env) (base : DetectionConfig) (batch : ℤ)
    (tally : ℕ → Address → List (ℤ × ℤ)) (s : World) : Prop where
  steady : Steady (SameGeometry base) batch (fun config scope => Hysteretic ∅ config scope.window) s
  balanced : Each (fun scope =>
    scope.window.Balanced (tally scope.window.shard) (env.now scope.shared.tick)) s
  /-- Of an IP that is not tracked nothing is on the tally. -/
  untracked : ∀ shard ip, s.tracks shard ip = false → tally shard ip = []

namespace Audited

variable {base : DetectionConfig} {batch : ℤ} {tally : ℕ → Address → List (ℤ × ℤ)} {s : World}

theorem booked (h : Audited env base batch tally s) :
    Each (Booked env (eventsOf env s) tally) s := by
  intro shard w hw
  obtain ⟨hshard, hbalanced⟩ := h.balanced shard w hw
  exact ⟨hshard, hbalanced, [], (List.append_nil _).symm, by simp⟩

theorem resting (h : Audited env base batch tally s) :
    Each (Resting env s.worker.config (eventsOf env s) tally) s := by
  intro shard w hw
  obtain ⟨hshard, hbalanced⟩ := h.balanced shard w hw
  have hhyst := (h.steady.windows shard w hw).2
  exact ⟨hshard, fun ip => hhyst.below ip (Set.notMem_empty ip), hbalanced, [],
    (List.append_nil _).symm, by simp⟩

end Audited

theorem Booked.congr {past : ℕ → List HotIpEvent} {tally tally' : ℕ → Address → List (ℤ × ℤ)}
    {scope : Scope} (h : Booked env past tally scope)
    (htally : tally' scope.window.shard = tally scope.window.shard) :
    Booked env past tally' scope := by
  obtain ⟨events, hlog, hevents⟩ := h.promotes
  refine ⟨by rw [htally]; exact h.balanced, events, hlog, fun event hevent htype => ?_⟩
  dsimp only
  rw [htally]
  exact hevents event hevent htype

theorem resting_stable (hmono : Monotone env.now) (config : DetectionConfig)
    (past : ℕ → List HotIpEvent) (tally : ℕ → Address → List (ℤ × ℤ)) :
    Stable env (Resting env config past tally) := by
  intro s t w hf h
  obtain ⟨events, hlog, hevents⟩ := h.silent
  exact ⟨h.calm, h.balanced.later (hmono hf.tick), events, hf.shardEvents_eq.trans hlog, hevents⟩

namespace Audited

variable {base : DetectionConfig} {batch : ℤ} {tally : ℕ → Address → List (ℤ × ℤ)} {s : World}

/-- A message puts what it applies on the tally of its IP. -/
theorem handle (h : Audited env base batch tally s) (henv : env.Orderly)
    (message : ConsumedMessage) :
    Each (Booked env (eventsOf env s) fun shard ip =>
      tally shard ip ++ appliedBy env shard ip s (.handle message))
      (Program.after (Aggregator.handle env message s)) := by
  cases hr : Aggregator.handle env message s with
  | error e t => exact absurd hr (handle_ne_error henv (fun _ hok => hok.1) h.steady)
  | ok outcome t =>
    rw [Program.after_ok]
    obtain ⟨hother, hwindows, hforeign⟩ | ⟨rfl, eventId, payload, entry, w, scope, hdecode, hw,
      hstart, hcount, hshared, hwindows⟩ := handle_counts hr
    · simp only [appliedBy_other hr hother, List.append_nil]
      exact h.booked.of_foreign (booked_stable henv.monotone) hwindows hforeign
    · simp only [appliedBy_applied hr hdecode hw]
      obtain ⟨_, _, hget, hrest⟩ := Program.bind_ok.mp hcount
      cases hget
      obtain ⟨change, scope₁, hobserve, hsettle⟩ := Program.bind_ok.mp hrest
      obtain ⟨hwindow, htick⟩ := observe_ok hobserve
      have hshard₁ := ((observe_local env _ _ _).of_ok hobserve).shard
      have hlocal := (countObservation_local env _ _ _).of_ok hcount
      obtain ⟨hshard, hbalanced⟩ := h.balanced message.partition w hw
      have hhyst := (h.steady.windows message.partition w hw).2
      -- The bucket has begun when the window is given the observation.
      have hbegun : bucketStart payload.windowStart w.config.bucketSeconds ≤
          env.now (s.shared.tick + 1) := by
        have hseconds : 0 < w.config.bucketSeconds := by
          rw [hhyst.config_eq]
          have := h.steady.config.1.bucketSeconds
          omega
        calc bucketStart payload.windowStart w.config.bucketSeconds
            ≤ payload.windowStart := bucketStart_le hseconds _
          _ ≤ env.now s.shared.tick := hstart
          _ ≤ env.now (s.shared.tick + 1) := henv.monotone (Nat.le_succ _)
      have hobserved := hbalanced.observe (henv.monotone (Nat.le_succ _)) hwindow hbegun
        fun hnone => h.untracked _ _ (by rw [hshard, tracks_of_get? hw, hnone]; rfl)
      have hbooked₁ : Booked env (eventsOf env s) (fun shard ip => tally shard ip ++
          if message.partition = shard ∧ entry.ip = ip then
            [(bucketStart payload.windowStart w.config.bucketSeconds, (entry.requestCount : ℤ))]
          else []) scope₁ := by
        refine ⟨?_, [], ?_, by simp⟩
        · rw [hshard₁, htick]
          refine ShardWindow.Balanced.later (t := env.now (s.shared.tick + 1)) ?_
            (henv.monotone (Nat.le_succ _))
          convert hobserved using 1
          funext ip
          by_cases hip : ip = entry.ip
          · rw [hip, Function.update_self, if_pos ⟨hshard.symm, rfl⟩]
          · rw [Function.update_of_ne hip, if_neg fun hc => hip hc.2.symm, List.append_nil]
        · rw [hshard₁, htick, List.append_nil]
          rfl
      have hbooked := (Booked.settle henv.monotone entry.ip s.worker.config).of_ok hbooked₁ hsettle
      intro shard w' hw'
      rw [hwindows, Dict.get?_set] at hw'
      split_ifs at hw' with hsame
      · cases hw'
        rw [hshared]
        exact ⟨(hlocal.shard.trans hshard).trans hsame, hbooked⟩
      · -- The other shards see neither the observation nor its event.
        obtain ⟨hshard', hkept⟩ := h.booked shard w' hw'
        have hne : w'.shard ≠ w.shard := by
          rw [hshard', hshard]
          exact Ne.symm hsame
        refine ⟨hshard', ?_⟩
        have hforeign : Foreign env w'.shard s.shared t.shared := by
          rw [hshared]
          exact (Foreign.of_later (Shared.Later.advance s.shared)).trans (hlocal.foreign _ hne)
        refine (booked_stable henv.monotone _ _ _ hforeign hkept).congr ?_
        funext ip
        rw [if_neg, List.append_nil]
        rintro ⟨hpartition, -⟩
        exact hsame (hpartition.trans hshard')

/-- A maintenance promotes nothing. -/
theorem runMaintenance (h : Audited env base batch tally s) (henv : env.Orderly) :
    Each (Booked env (eventsOf env s) tally)
      (Program.after (Aggregator.runMaintenance env s)) := by
  have hconfig := h.steady.config.1
  have hstable : Stable env fun scope => Hysteretic ∅ s.worker.config scope.window ∧
      Resting env s.worker.config (eventsOf env s) tally scope :=
    fun a b w hf hi => ⟨hi.1, resting_stable henv.monotone _ _ _ a b w hf hi.2⟩
  have hkeeps : Program.Triple (fun scope => Hysteretic ∅ s.worker.config scope.window ∧
      Resting env s.worker.config (eventsOf env s) tally scope)
      (Aggregator.maintainWindow env s.worker.config)
      (fun _ scope => Hysteretic ∅ s.worker.config scope.window ∧
        Resting env s.worker.config (eventsOf env s) tally scope) (fun _ => False) := by
    refine Program.Triple.intro (fun a r b hi hr => ⟨?_, ?_⟩) fun a e b hi hr => ?_
    · exact (Hysteretic.maintainWindow henv hconfig).of_ok hi.1 hr
    · exact (Resting.maintainWindow henv.monotone hconfig.hotThreshold).of_ok hi.2 hr
    · exact (Hysteretic.maintainWindow henv hconfig).of_error hi.1 hr
  have htriple := runMaintenance_triple hstable hstable h.steady.running hkeeps
    fun shard w hw => ⟨(h.steady.windows shard w hw).1, (h.steady.windows shard w hw).2,
      (h.resting shard w hw).2⟩
  cases hr : Aggregator.runMaintenance env s with
  | ok r t => exact (htriple.of_ok rfl hr).2.mono fun scope hi => hi.2.booked
  | error e t =>
    obtain ⟨-, heach⟩ | hbroken := htriple.of_error rfl hr
    · exact heach.mono fun scope hi => hi.2.booked
    · obtain ⟨_, _, _, hfalse⟩ := hbroken.failed
      exact hfalse.elim

/-- A configuration of the same geometry leaves every ring, and what its reevaluation promotes is
exact. -/
theorem applyConfig (h : Audited env base batch tally s) (henv : env.Orderly) (hbatch : 0 < batch)
    {config : DetectionConfig} (hadmitted : SameGeometry base config) :
    Each (Booked env (eventsOf env s) tally)
      (Program.after (Aggregator.applyConfig env config s)) := by
  have hbooked : Stable env (Booked env (eventsOf env s) tally) := booked_stable henv.monotone
  have hstable : ∀ (X : Set Address) (c : DetectionConfig), Stable env fun scope =>
      Hysteretic X c scope.window ∧ Booked env (eventsOf env s) tally scope :=
    fun X c a b w hf hi => ⟨hi.1, hbooked a b w hf hi.2⟩
  have hadopts : Program.Triple (fun scope => Hysteretic ∅ s.worker.config scope.window ∧
      Booked env (eventsOf env s) tally scope) (Aggregator.adoptConfig env config)
      (fun _ scope => Hysteretic Set.univ config scope.window ∧
        Booked env (eventsOf env s) tally scope) (fun _ => False) := by
    refine Program.Triple.intro (fun a r b hi hr => ⟨?_, ?_⟩) fun a e b hi hr => ?_
    · exact (Hysteretic.adoptConfig hadmitted.1).of_ok hi.1 hr
    · exact (Booked.adoptConfig (hadmitted.2.2.trans h.steady.config.2.2.symm)
        (h.steady.config.bucketCount hadmitted)).of_ok ⟨hi.1.config_eq, hi.2⟩ hr
    · exact (Hysteretic.adoptConfig hadmitted.1).of_error hi.1 hr
  have hreevaluates : Program.Triple (fun scope => Hysteretic Set.univ config scope.window ∧
      Booked env (eventsOf env s) tally scope)
      (Aggregator.reevaluateShard env config s.worker.reevaluationBatch)
      (fun _ scope => Hysteretic ∅ config scope.window ∧
        Booked env (eventsOf env s) tally scope) (fun _ => False) := by
    have hpositive : 0 < s.worker.reevaluationBatch := by
      rw [h.steady.batch]
      exact hbatch
    refine Program.Triple.intro (fun a r b hi hr => ⟨?_, ?_⟩) fun a e b hi hr => ?_
    · exact (Hysteretic.reevaluateShard henv hadmitted.1 hpositive).of_ok hi.1 hr
    · exact (Booked.reevaluateShard henv.monotone config _).of_ok hi.2 hr
    · exact (Hysteretic.reevaluateShard henv hadmitted.1 hpositive).of_error hi.1 hr
  have htriple := applyConfig_triple (hstable ∅ _) (hstable Set.univ _) (hstable ∅ _)
    h.steady.running hadopts hreevaluates
    fun shard w hw => ⟨(h.steady.windows shard w hw).1, (h.steady.windows shard w hw).2,
      (h.booked shard w hw).2⟩
  cases hr : Aggregator.applyConfig env config s with
  | ok r t =>
    obtain ⟨s₁, -, heach, rfl⟩ := htriple.of_ok rfl hr
    exact fun shard w hw => ⟨(heach shard w hw).1, (heach shard w hw).2.2⟩
  | error e t =>
    obtain hbroken | hbroken := htriple.of_error rfl hr
    all_goals
      obtain ⟨_, _, _, hfalse⟩ := hbroken.failed
      exact hfalse.elim

/-- Whatever the operation is, what it promotes is exact. -/
theorem operation (h : Audited env base batch tally s) (henv : env.Orderly) (hbatch : 0 < batch)
    {operation : Operation} (hadmitted : operation.Admitted (SameGeometry base)) :
    Each (Booked env (eventsOf env s) fun shard ip =>
      tally shard ip ++ appliedBy env shard ip s operation)
      (Program.after (operation.program env s)) := by
  cases operation with
  | handle message =>
    rw [after_handle]
    exact h.handle henv message
  | runMaintenance =>
    simp only [appliedBy, List.append_nil]
    exact h.runMaintenance henv
  | applyConfig config =>
    simp only [appliedBy, List.append_nil]
    exact h.applyConfig henv hbatch hadmitted

end Audited

/-! ### Runs -/

/-- The observations of the IP that an operation applies at the shard, after those on its tally. The
tally starts again when the IP is not tracked any more. -/
def tallyStep (env : Env) (shard : ℕ) (ip : Address) (s : World) (operation : Operation)
    (tally : List (ℤ × ℤ)) : List (ℤ × ℤ) :=
  if (Program.after (operation.program env s)).tracks shard ip then
    tally ++ appliedBy env shard ip s operation
  else []

/-- The tally that a run leaves. -/
def tallyFrom (env : Env) (shard : ℕ) (ip : Address) :
    List Operation → World → List (ℤ × ℤ) → List (ℤ × ℤ)
  | [], _, tally => tally
  | operation :: rest, s, tally =>
    tallyFrom env shard ip rest (Program.after (operation.program env s))
      (tallyStep env shard ip s operation tally)

/-- The observations of the IP that were applied at the shard since it was last untracked. -/
def tallyOf (env : Env) (shard : ℕ) (ip : Address) (operations : List Operation) (s : World) :
    List (ℤ × ℤ) :=
  tallyFrom env shard ip operations s []

theorem tallyFrom_concat (shard : ℕ) (ip : Address) (operations : List Operation)
    (operation : Operation) (s : World) (tally : List (ℤ × ℤ)) :
    tallyFrom env shard ip (operations ++ [operation]) s tally =
      tallyStep env shard ip (run env operations s) operation
        (tallyFrom env shard ip operations s tally) := by
  induction operations generalizing s tally with
  | nil => rfl
  | cons first rest ih =>
    rw [List.cons_append, tallyFrom, ih]
    rfl

theorem Booked.step {past : ℕ → List HotIpEvent} {tally : ℕ → Address → List (ℤ × ℤ)} {s : World}
    {operation : Operation}
    (h : Each (Booked env past fun shard ip =>
      tally shard ip ++ appliedBy env shard ip s operation)
      (Program.after (operation.program env s))) :
    Each (Booked env past fun shard ip => tallyStep env shard ip s operation (tally shard ip))
      (Program.after (operation.program env s)) := by
  intro shard w hw
  obtain ⟨hshard, hbalanced, events, hlog, hevents⟩ := h shard w hw
  -- The tally of an IP that has an entry goes on.
  have hgoes : ∀ ip entry, w.entries.get? ip = some entry →
      tallyStep env w.shard ip s operation (tally w.shard ip) =
        tally w.shard ip ++ appliedBy env w.shard ip s operation := by
    intro ip entry hget
    refine if_pos ?_
    rw [hshard, tracks_of_get? hw, hget]
    rfl
  refine ⟨hshard, fun ip entry hget => ?_, events, hlog, fun event hevent htype => ?_⟩
  · dsimp only
    rw [hgoes ip entry hget]
    exact hbalanced ip entry hget
  · obtain ⟨entry, hget, hcount, hexact⟩ := hevents event hevent htype
    refine ⟨entry, hget, hcount, ?_⟩
    dsimp only
    rw [hgoes event.ip entry hget]
    exact hexact

namespace Audited

variable {base : DetectionConfig} {batch : ℤ} {tally : ℕ → Address → List (ℤ × ℤ)} {s : World}

theorem step (h : Audited env base batch tally s) (henv : env.Orderly) (hbatch : 0 < batch)
    {operation : Operation} (hadmitted : operation.Admitted (SameGeometry base)) :
    Audited env base batch (fun shard ip => tallyStep env shard ip s operation (tally shard ip))
      (Program.after (operation.program env s)) := by
  refine ⟨?_, ?_, fun shard ip huntracked => ?_⟩
  · exact steady_step henv hbatch hadmitted h.steady
  · exact (Booked.step (h.operation henv hbatch hadmitted)).mono fun scope hi => hi.balanced
  · unfold tallyStep
    rw [huntracked]
    rfl

theorem run (h : Audited env base batch tally s) (henv : env.Orderly) (hbatch : 0 < batch)
    {operations : List Operation}
    (hadmitted : ∀ operation ∈ operations, operation.Admitted (SameGeometry base)) :
    Audited env base batch
      (fun shard ip => tallyFrom env shard ip operations s (tally shard ip))
      (Aggregator.run env operations s) := by
  induction operations generalizing s tally with
  | nil => exact h
  | cons operation rest ih =>
    obtain ⟨hfirst, hrest⟩ := List.forall_mem_cons.mp hadmitted
    exact ih (h.step henv hbatch hfirst) hrest

end Audited

/-- A claim starts with empty rings, and with empty tallies. -/
theorem Started.audited {shared : Shared} {config : DetectionConfig} {batch : ℤ} {s : World}
    (h : Started env shared config batch s) (hconfig : config.SchemaValid) :
    Audited env config batch (fun _ _ => []) s := by
  refine ⟨h.steady ⟨hconfig, rfl, rfl⟩ fun w _ hopened => hopened.hysteretic hconfig, ?_,
    fun _ _ _ => rfl⟩
  have hsteady : Steady (SameGeometry config) batch (fun _ scope =>
      scope.window.Balanced (fun _ => []) (env.now scope.shared.tick)) s := by
    refine h.steady ⟨hconfig, rfl, rfl⟩ fun w _ hopened ip entry hget => ?_
    obtain ⟨tick, -, hnew⟩ := hopened.isNew
    by_cases hip : ip ∈ (s.shared.store.load w.shard).hotIps
    · obtain ⟨c, hc, hget'⟩ := hnew.inherited ip hip
      cases hget.symm.trans hget'
      exact IpCounter.balanced_newCounter hc _
    · cases hget.symm.trans (hnew.untracked ip hip)
  exact hsteady.windows

/-- **What a promotion counts.** In every run under one claim and one geometry, without failures,
the count of a promotion is what the IP's observations since it was last untracked have in the window
at the reading that dates it, and on top of it the buckets that have left the window and that the
IP's ring still holds. -/
theorem promotion_totals (henv : env.Orderly) {shared : Shared} {config : DetectionConfig}
    (hconfig : config.SchemaValid) {batch : ℤ} (hbatch : 0 < batch) {s : World}
    (hstart : Started env shared config batch s) {operations : List Operation}
    {operation : Operation} (hops : ∀ operation' ∈ operations ++ [operation],
      operation'.Admitted (SameGeometry config))
    {shard : ℕ} {w : ShardWindow}
    (hw : (run env (operations ++ [operation]) s).worker.claims.windows.get? shard = some w) :
    ∃ events, shardEvents env shard (run env (operations ++ [operation]) s).shared.hotIp.log =
        shardEvents env shard (run env operations s).shared.hotIp.log ++ events ∧
      ∀ event ∈ events, event.type = .added → ∃ entry, w.entries.get? event.ip = some entry ∧
        event.windowCount = entry.counter.total ∧
        event.windowCount =
          entry.counter.liveSum (tallyOf env shard event.ip (operations ++ [operation]) s)
              event.timestamp +
            entry.counter.expiredCount event.timestamp := by
  obtain ⟨hbefore, hlast⟩ := List.forall_mem_append.mp hops
  have haudited := (hstart.audited hconfig).run henv hbatch hbefore
  have hbooked := Booked.step
    (haudited.operation henv hbatch (hlast operation (List.mem_singleton_self _)))
  have hrun : run env (operations ++ [operation]) s =
      Program.after (operation.program env (run env operations s)) :=
    List.foldl_concat _ _ _ _
  rw [hrun] at hw ⊢
  obtain ⟨hshard, -, events, hlog, hevents⟩ := hbooked shard w hw
  subst hshard
  refine ⟨events, hlog, fun event hevent htype => ?_⟩
  obtain ⟨entry, hget, htotal, hexact⟩ := hevents event hevent htype
  refine ⟨entry, hget, htotal, ?_⟩
  rw [tallyOf, tallyFrom_concat]
  exact hexact

/-! ### Two promotions -/

/-- All the observations of the IP that a run applies at the shard. -/
def appliedAlong (env : Env) (shard : ℕ) (ip : Address) :
    List Operation → World → List (ℤ × ℤ)
  | [], _ => []
  | operation :: rest, s =>
    appliedBy env shard ip s operation ++
      appliedAlong env shard ip rest (Program.after (operation.program env s))

/-- A clock that leaps over the window after the first message. -/
def leapingClock (tick : ℕ) : ℤ := if tick ≤ 5 then 0 else 310

theorem orderly_leapingClock : (interpreterEnv leapingClock fun _ => .returns).Orderly := by
  refine ⟨fun _ => rfl, fun m n hmn => ?_, fun tick => ?_⟩
  · show leapingClock m ≤ leapingClock n
    unfold leapingClock
    split_ifs <;> omega
  · show datetimeRange (leapingClock tick) = true
    unfold leapingClock
    split_ifs <;> decide

/-- In a run of a worker that inherits nothing, the last operation makes the one promotion: it
counts `count`, and the observations that the run applied to the IP have `inWindow` in the window
then. -/
def PromotesAt (count inWindow : ℤ) : Prop :=
  ∃ (env : Env) (s : World) (operations : List Operation) (operation : Operation) (w : ShardWindow)
    (event : HotIpEvent) (c : IpCounter),
    env.Orderly ∧ Started env (sharedWith ∅ 0) Ingest.defaultConfig 1000 s ∧
    (∀ operation' ∈ operations ++ [operation],
      operation'.Admitted (SameGeometry Ingest.defaultConfig)) ∧
    (run env (operations ++ [operation]) s).worker.claims.windows.get? 0 = some w ∧
    shardEvents env 0 (run env operations s).shared.hotIp.log = [] ∧
    shardEvents env 0 (run env (operations ++ [operation]) s).shared.hotIp.log = [event] ∧
    event.type = .added ∧ newCounter Ingest.defaultConfig = .ok c ∧ event.windowCount = count ∧
    c.liveSum (appliedAlong env 0 event.ip (operations ++ [operation]) s) event.timestamp = inWindow

theorem appliedAlong_handle {message : ConsumedMessage} {s t : World} {outcome : ObservationOutcome}
    (h : handle env message s = .ok outcome t) (shard : ℕ) (ip : Address) (rest : List Operation) :
    appliedAlong env shard ip (.handle message :: rest) s =
      appliedBy env shard ip s (.handle message) ++ appliedAlong env shard ip rest t := by
  rw [appliedAlong, after_handle, h]
  rfl

/-- Nothing has swept the first bucket when the second one promotes the IP. -/
theorem promotesAt_expired : PromotesAt 1200 600 := by
  have henv := orderly_leapingClock
  obtain ⟨first, _, hpartition, hoffset, hdecode⟩ := exists_delivery
    (Codec.libraryWith none (by simp)) rfl leapingClock (fun _ => .returns)
    (show datetimeRange 0 = true by decide) (show (1 : ℤ) ≤ 10 ∧ (10 : ℤ) ≤ 3600 by decide)
    ⟨⟨.ipv4, 1, by decide⟩, 600⟩ (by decide) 0 0
  obtain ⟨second, _, hpartition', hoffset', hdecode'⟩ := exists_delivery
    (Codec.libraryWith none (by simp)) rfl leapingClock (fun _ => .returns)
    (show datetimeRange 310 = true by decide) (show (1 : ℤ) ≤ 10 ∧ (10 : ℤ) ≤ 3600 by decide)
    ⟨⟨.ipv4, 1, by decide⟩, 600⟩ (by decide) 0 1
  obtain ⟨w, w₁, w₂, change₁, change₂, hmake, hobserve₁, hquiet₁, hobserve₂, hcold, htotal, hconfig,
      hconfig₁⟩ :
      ∃ w w₁ w₂ change₁ change₂, ShardWindow.make 0 Ingest.defaultConfig 0 [] 0 1000 = .ok w ∧
        w.observe ⟨.ipv4, 1, by decide⟩ (bucketStart 0 w.config.bucketSeconds) (600 : ℕ) 0 =
          .ok (change₁, w₁) ∧
        (edgeOf w₁ ⟨.ipv4, 1, by decide⟩ Ingest.defaultConfig).current =
          w₁.state ⟨.ipv4, 1, by decide⟩ ∧
        w₁.observe ⟨.ipv4, 1, by decide⟩ (bucketStart 310 w₁.config.bucketSeconds) (600 : ℕ) 310 =
          .ok (change₂, w₂) ∧
        w₂.state ⟨.ipv4, 1, by decide⟩ = .cold ∧ w₂.total ⟨.ipv4, 1, by decide⟩ = 1200 ∧
        w.config = Ingest.defaultConfig ∧ w₁.config = Ingest.defaultConfig :=
    ⟨_, _, _, _, _, rfl, rfl, rfl, rfl, rfl, rfl, rfl, rfl⟩
  rw [← Finset.toList_empty] at hmake
  obtain ⟨s, hassigned, hready, -⟩ := exists_ready leapingClock henv hmake
  obtain ⟨t, ht, hready₁⟩ := hready.quiet henv hpartition hoffset hdecode rfl hobserve₁ hquiet₁
  obtain ⟨u, w', event, hu, hw', hlog, htype, hip, hcount, ⟨later, hlater, htime⟩, -⟩ :=
    hready₁.promotes henv hpartition' hoffset' hdecode' rfl hobserve₂ hcold
      (by rw [htotal]; decide)
  refine ⟨_, s, [.handle first], .handle second, w', event, _, henv,
    ⟨_, _, _, _, _, hassigned⟩, ?_, ?_, ?_, ?_,
    htype, rfl, hcount.trans htotal, ?_⟩
  · intro operation hmem
    simp only [List.cons_append, List.nil_append, List.mem_cons, List.not_mem_nil, or_false] at hmem
    obtain rfl | rfl := hmem <;> exact trivial
  · rw [List.cons_append, List.nil_append, run_handle ht, run_handle hu]
    exact hw'
  · rw [run_handle ht]
    exact congrArg (fun topic => shardEvents _ 0 topic.log) hready₁.hotIp
  · rw [List.cons_append, List.nil_append, run_handle ht, run_handle hu]
    exact hlog
  · rw [List.cons_append, List.nil_append, appliedAlong_handle ht, appliedAlong_handle hu,
      appliedAlong, appliedBy_applied ht hdecode (hpartition ▸ hready.window),
      appliedBy_applied hu hdecode' (hpartition' ▸ hready₁.window), hip, hpartition, hpartition',
      hconfig, hconfig₁, htime]
    have hnow : (interpreterEnv leapingClock fun _ => .returns).now later = 310 := if_neg (by omega)
    rw [hnow]
    rfl

/-- The second IP takes the place of the first in a window of one, and with it goes the ring. -/
theorem promotesAt_evicted : PromotesAt 1000 1600 := by
  have henv := orderly_sampleEnv
  obtain ⟨first, _, hpartition, hoffset, hdecode⟩ := exists_delivery
    (Codec.libraryWith none (by simp)) rfl (fun _ => 0) (fun _ => .returns)
    (show datetimeRange 0 = true by decide) (show (1 : ℤ) ≤ 10 ∧ (10 : ℤ) ≤ 3600 by decide)
    ⟨⟨.ipv4, 1, by decide⟩, 600⟩ (by decide) 0 0
  obtain ⟨second, _, hpartition', hoffset', hdecode'⟩ := exists_delivery
    (Codec.libraryWith none (by simp)) rfl (fun _ => 0) (fun _ => .returns)
    (show datetimeRange 0 = true by decide) (show (1 : ℤ) ≤ 10 ∧ (10 : ℤ) ≤ 3600 by decide)
    ⟨⟨.ipv4, 2, by decide⟩, 1⟩ (by decide) 0 1
  obtain ⟨third, _, hpartition'', hoffset'', hdecode''⟩ := exists_delivery
    (Codec.libraryWith none (by simp)) rfl (fun _ => 0) (fun _ => .returns)
    (show datetimeRange 0 = true by decide) (show (1 : ℤ) ≤ 10 ∧ (10 : ℤ) ≤ 3600 by decide)
    ⟨⟨.ipv4, 1, by decide⟩, 1000⟩ (by decide) 0 2
  obtain ⟨w, w₁, w₂, w₃, change₁, change₂, change₃, hmake, hobserve₁, hquiet₁, hobserve₂, hquiet₂,
      hobserve₃, hcold, htotal, hconfig, hconfig₂⟩ :
      ∃ w w₁ w₂ w₃ change₁ change₂ change₃,
        ShardWindow.make 0 Ingest.defaultConfig 0 [] 0 1 = .ok w ∧
        w.observe ⟨.ipv4, 1, by decide⟩ (bucketStart 0 w.config.bucketSeconds) (600 : ℕ) 0 =
          .ok (change₁, w₁) ∧
        (edgeOf w₁ ⟨.ipv4, 1, by decide⟩ Ingest.defaultConfig).current =
          w₁.state ⟨.ipv4, 1, by decide⟩ ∧
        w₁.observe ⟨.ipv4, 2, by decide⟩ (bucketStart 0 w₁.config.bucketSeconds) (1 : ℕ) 0 =
          .ok (change₂, w₂) ∧
        (edgeOf w₂ ⟨.ipv4, 2, by decide⟩ Ingest.defaultConfig).current =
          w₂.state ⟨.ipv4, 2, by decide⟩ ∧
        w₂.observe ⟨.ipv4, 1, by decide⟩ (bucketStart 0 w₂.config.bucketSeconds) (1000 : ℕ) 0 =
          .ok (change₃, w₃) ∧
        w₃.state ⟨.ipv4, 1, by decide⟩ = .cold ∧ w₃.total ⟨.ipv4, 1, by decide⟩ = 1000 ∧
        w.config = Ingest.defaultConfig ∧ w₂.config = Ingest.defaultConfig :=
    ⟨_, _, _, _, _, _, _, rfl, rfl, rfl, rfl, rfl, rfl, rfl, rfl, rfl, rfl⟩
  rw [← Finset.toList_empty] at hmake
  obtain ⟨s, hassigned, hready, -⟩ := exists_ready (fun _ => 0) henv hmake
  obtain ⟨t, ht, hready₁⟩ := hready.quiet henv hpartition hoffset hdecode rfl hobserve₁ hquiet₁
  obtain ⟨u, hu, hready₂⟩ := hready₁.quiet henv hpartition' hoffset' hdecode' rfl hobserve₂ hquiet₂
  obtain ⟨v, w', event, hv, hw', hlog, htype, hip, hcount, ⟨later, -, htime⟩, -⟩ :=
    hready₂.promotes henv hpartition'' hoffset'' hdecode'' rfl hobserve₃ hcold
      (by rw [htotal]; decide)
  refine ⟨_, s, [.handle first, .handle second], .handle third, w', event, _, henv,
    ⟨_, _, _, _, _, hassigned⟩, ?_,
    ?_, ?_, ?_, htype, rfl, hcount.trans htotal, ?_⟩
  · intro operation hmem
    simp only [List.cons_append, List.nil_append, List.mem_cons, List.not_mem_nil, or_false] at hmem
    obtain rfl | rfl | rfl := hmem <;> exact trivial
  · rw [List.cons_append, List.cons_append, List.nil_append, run_handle ht, run_handle hu,
      run_handle hv]
    exact hw'
  · rw [run_handle ht, run_handle hu]
    exact congrArg (fun topic => shardEvents _ 0 topic.log) hready₂.hotIp
  · rw [List.cons_append, List.cons_append, List.nil_append, run_handle ht, run_handle hu,
      run_handle hv]
    exact hlog
  · rw [List.cons_append, List.cons_append, List.nil_append, appliedAlong_handle ht,
      appliedAlong_handle hu, appliedAlong_handle hv, appliedAlong,
      appliedBy_applied ht hdecode (hpartition ▸ hready.window),
      appliedBy_applied hu hdecode' (hpartition' ▸ hready₁.window),
      appliedBy_applied hv hdecode'' (hpartition'' ▸ hready₂.window), hip, hpartition, hpartition',
      hpartition'', hconfig, hconfig₂, htime]
    rfl

/-- A promotion can count what has left the window, and can miss what was applied before the IP was
evicted. -/
theorem promotion_totals_differ : PromotesAt 1200 600 ∧ PromotesAt 1000 1600 :=
  ⟨promotesAt_expired, promotesAt_evicted⟩

/-- The promotion that counts more than the window holds is the live part of the tally and the
bucket that nothing has swept. -/
theorem promotion_totals_expired : ∃ (env : Env) (s : World) (operations : List Operation)
    (w : ShardWindow) (event : HotIpEvent) (entry : Entry),
    Started env (sharedWith ∅ 0) Ingest.defaultConfig 1000 s ∧
      (run env operations s).worker.claims.windows.get? 0 = some w ∧ event.type = .added ∧
      w.entries.get? event.ip = some entry ∧ event.windowCount = 1200 ∧
      event.windowCount =
        entry.counter.liveSum (tallyOf env 0 event.ip operations s) event.timestamp +
          entry.counter.expiredCount event.timestamp := by
  obtain ⟨env, s, operations, operation, w, event, c, henv, hstarted, hadmitted, hw, hbefore,
    hafter, htype, -, hcount, -⟩ := promotesAt_expired
  obtain ⟨events, hevents, hpromotes⟩ :=
    promotion_totals henv (by decide) (by norm_num) hstarted hadmitted hw
  rw [hbefore, hafter, List.nil_append] at hevents
  obtain ⟨entry, hget, -, hexact⟩ :=
    hpromotes event (hevents ▸ List.mem_singleton_self event) htype
  exact ⟨env, s, operations ++ [operation], w, event, entry, hstarted, hw, htype, hget, hcount,
    hexact⟩

end Operations

end Hammertime.Aggregator
