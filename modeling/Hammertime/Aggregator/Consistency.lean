import Mathlib.Data.List.Chain
import Hammertime.Aggregator.Claim
import Hammertime.Aggregator.Promotion
import Hammertime.Ingest.Dedup

/-!
# The store, the memory and the log agree

Three copies of a shard's HOT set: the entries of its window, the set in the state store, and what a
consumer of the hot-ip log makes of the shard's events. `evaluate` writes them one after the other;
nothing else writes any of them. With no failing call they are equal between any two operations.

What can separate them is an edge for an IP that is not tracked: it is persisted and published, and
then `set_state` has no entry to write. An untracked IP counts nothing, so that takes a negative
`hot_threshold`.
-/

namespace Hammertime.Aggregator

open Lib World

/-! ### The methods of a window that leave every state alone -/

/-- No IP has changed its state, and the shard and the sequence counter are the same. -/
structure SameStates (w w' : ShardWindow) : Prop where
  shard : w'.shard = w.shard
  nextSequence : w'.nextSequence = w.nextSequence
  state : ∀ ip, w'.state ip = w.state ip

namespace SameStates

variable {w w' w'' : ShardWindow}

theorem refl (w : ShardWindow) : SameStates w w := ⟨rfl, rfl, fun _ => rfl⟩

theorem trans (h : SameStates w w') (h' : SameStates w' w'') : SameStates w w'' :=
  ⟨h'.shard.trans h.shard, h'.nextSequence.trans h.nextSequence,
    fun ip => (h'.state ip).trans (h.state ip)⟩

instance : Std.Refl SameStates := ⟨refl⟩

instance : IsTrans ShardWindow SameStates := ⟨fun _ _ _ => trans⟩

theorem hotIps (h : SameStates w w') : w'.hotIps = w.hotIps := by
  ext ip
  rw [ShardWindow.mem_hotIps, ShardWindow.mem_hotIps, h.state]

theorem of_shrinks (h : w.Shrinks w') : SameStates w w' := by
  refine ⟨h.shard, h.nextSequence, fun ip => ?_⟩
  obtain hk | ⟨hn, hc⟩ := h.kept ip
  · exact ShardWindow.state_congr hk
  · rw [hc]
    simp only [ShardWindow.state, hn]

theorem of_swept {now : ℤ} {changes : List WindowChange} (h : w.Swept now changes w') :
    SameStates w w' := by
  refine ⟨h.shard, h.nextSequence, fun ip => ?_⟩
  obtain ⟨hn, hn'⟩ | ⟨entry, c', he, he', -⟩ := h.entries ip
  · exact ShardWindow.state_congr (hn'.trans hn.symm)
  · rw [ShardWindow.state_of_get? he, ShardWindow.state_of_get? he']

theorem of_observe {ip : Address} {start delta now : ℤ} {change : Option WindowChange}
    (h : w.observe ip start delta now = .ok (change, w')) : SameStates w w' := by
  obtain ⟨c, -, ⟨-, rfl, -⟩ | ⟨c', w₁, entry, -, -, hs, hf, he, -, hst, -, -⟩⟩ :=
    ShardWindow.observe_cases h
  · exact refl _
  · refine ⟨hf.shard, hf.nextSequence, fun ip' => ?_⟩
    by_cases hip : ip = ip'
    · subst hip
      rw [← hst]
      exact ShardWindow.state_of_get? (by rw [he, Dict.get?_set_self])
    · rw [ShardWindow.state_congr (w := w₁) (by rw [he, Dict.get?_set_of_ne _ hip])]
      exact (of_shrinks hs).state ip'

theorem finishWarmup (w : ShardWindow) : SameStates w w.finishWarmup.2 := by
  refine ⟨rfl, rfl, fun ip => ?_⟩
  have h := ShardWindow.get?_finishWarmup w ip
  cases he : w.entries.get? ip with
  | none =>
    rw [he] at h
    exact ShardWindow.state_congr (h.trans he.symm)
  | some entry =>
    rw [he] at h
    rw [ShardWindow.state_of_get? he, ShardWindow.state_of_get? h]

/-- One entry of the rebuild keeps its state, when the item is the entry the window holds. -/
theorem rebuildEntry (config : DetectionConfig) (now : ℤ) {item : Address × Entry}
    (hitem : w.state item.1 = item.2.state) :
    SameStates w (Program.after (ShardWindow.rebuildEntry config now item w)) := by
  unfold ShardWindow.rebuildEntry
  split
  · exact refl w
  · next counter hb =>
    have hf := ShardWindow.scheduleExpiry_framed
      { w with
        entries := w.entries.set item.1 { item.2 with counter := counter }
        expiryScheduled := w.expiryScheduled.erase item.1 }
      item.1 { item.2 with counter := counter }
    refine ⟨hf.shard, hf.nextSequence, fun ip => ?_⟩
    rw [Program.after_ok]
    by_cases hip : item.1 = ip
    · subst hip
      rw [hitem]
      exact @ShardWindow.state_of_get? _ _ { item.2 with counter := counter } (by
        rw [ShardWindow.scheduleExpiry_entries, Dict.get?_set_self])
    · exact ShardWindow.state_congr (by
        rw [ShardWindow.scheduleExpiry_entries, Dict.get?_set_of_ne _ hip])

/-- The rebuild, also one that stops half way. -/
theorem rebuildAll (config : DetectionConfig) (now : ℤ) :
    Program.Within SameStates (ShardWindow.rebuildAll config now) := by
  intro w
  have hitems : ∀ item ∈ w.entries.items, w.state item.1 = item.2.state :=
    fun item hm => ShardWindow.state_of_get? (Dict.mem_items_iff.mp hm)
  unfold ShardWindow.rebuildAll
  generalize w.entries.items = items at hitems
  induction items generalizing w with
  | nil => exact refl w
  | cons item rest ih =>
    have hhead := rebuildEntry config now (hitems item List.mem_cons_self)
    show SameStates w (Program.after
      ((ShardWindow.rebuildEntry config now item >>= fun _ =>
        rest.forM (ShardWindow.rebuildEntry config now)) w))
    rw [Program.bind_apply]
    cases hr : ShardWindow.rebuildEntry config now item w with
    | error e w' =>
      rw [hr] at hhead
      exact hhead
    | ok a w' =>
      rw [hr] at hhead
      refine trans hhead (ih w' fun item' hm => ?_)
      exact (hhead.state item'.1).trans (hitems item' (List.mem_cons_of_mem _ hm))

end SameStates

/-! ### The events of a shard as a history of its HOT set -/

/-- What a consumer makes of the events: `HotIpAdded` inserts, `HotIpRemoved` deletes. -/
def replay (hot : Finset Address) (events : List HotIpEvent) : Finset Address :=
  events.foldl
    (fun hot event =>
      match event.type with
      | .added => insert event.ip hot
      | .removed => hot.erase event.ip)
    hot

/-- The types of the events about one IP, oldest first. -/
def typesOf (ip : Address) (events : List HotIpEvent) : List HotIpEventType :=
  (events.filter fun event => event.ip = ip).map HotIpEvent.type

/-- The state an IP has in a HOT set. -/
def stateIn (hot : Finset Address) (ip : Address) : IpState := if ip ∈ hot then .hot else .cold

/-- Event types that lead from the state `start` to another, each one an edge. -/
inductive Alternates (start : IpState) : List HotIpEventType → IpState → Prop
  | nil : Alternates start [] start
  | snoc {types state new} : Alternates start types state → new ≠ state →
      Alternates start (types ++ [eventTypeOf new]) new

namespace Alternates

variable {start state : IpState} {types : List HotIpEventType}

/-- The last event is the one to the state reached. -/
theorem getLast? (h : Alternates start types state) :
    types = [] ∧ state = start ∨ types.getLast? = some (eventTypeOf state) := by
  cases h with
  | nil => exact Or.inl ⟨rfl, rfl⟩
  | snoc _ _ => exact Or.inr List.getLast?_concat

theorem eventTypeOf_inj {state new : IpState} (h : eventTypeOf state = eventTypeOf new) :
    state = new := by
  cases state <;> cases new <;> first | rfl | cases h

/-- No two events in a row have the same type. -/
theorem isChain (h : Alternates start types state) : types.IsChain (· ≠ ·) := by
  induction h with
  | nil => exact List.IsChain.nil
  | snoc h hne ih =>
    refine List.isChain_append.mpr ⟨ih, List.isChain_singleton _, ?_⟩
    intro x hx y hy
    cases hy
    obtain ⟨rfl, -⟩ | hlast := h.getLast?
    · cases hx
    · rw [hlast] at hx
      cases hx
      exact fun hc => hne (eventTypeOf_inj hc).symm

/-- The first event is an addition exactly when the IP started COLD. -/
theorem head? (h : Alternates start types state) :
    ∀ type ∈ types.head?, type = .added ↔ start = .cold := by
  induction h with
  | nil => simp
  | @snoc types state new h hne ih =>
    obtain ⟨rfl, rfl⟩ | hlast := h.getLast?
    · intro type htype
      cases htype
      cases new <;> cases state <;> first | exact absurd rfl hne | simp [eventTypeOf]
    · intro type htype
      refine ih type ?_
      rw [List.head?_append_of_ne_nil] at htype
      · exact htype
      · rintro rfl
        cases hlast

end Alternates

theorem replay_concat (hot : Finset Address) (events : List HotIpEvent) (event : HotIpEvent) :
    replay hot (events ++ [event]) =
      match event.type with
      | .added => insert event.ip (replay hot events)
      | .removed => (replay hot events).erase event.ip := by
  unfold replay
  rw [List.foldl_append]
  rfl

theorem typesOf_concat_self (events : List HotIpEvent) (event : HotIpEvent) :
    typesOf event.ip (events ++ [event]) = typesOf event.ip events ++ [event.type] := by
  simp [typesOf]

theorem typesOf_concat_of_ne {ip : Address} (events : List HotIpEvent) {event : HotIpEvent}
    (h : event.ip ≠ ip) : typesOf ip (events ++ [event]) = typesOf ip events := by
  simp [typesOf, h]

/-! ### The agreement -/

section Agreement

variable (env : Env) (past : ℕ → List HotIpEvent) (inherited : ℕ → Finset Address)

/-- The window, the store and the log have the same HOT set for the shard, where `past` are the
shard's events before the claim and `inherited` is the HOT set it was claimed with. The sequence
numbers of the published events are all below the store's counter, which is how no event id is used
twice. -/
structure Agrees (scope : Scope) : Prop where
  store : (scope.shared.store.load scope.window.shard).hotIps = scope.window.hotIps
  log : ∃ events,
    shardEvents env scope.window.shard scope.shared.hotIp.log = past scope.window.shard ++ events ∧
      replay (inherited scope.window.shard) events = scope.window.hotIps ∧
      ∀ ip, Alternates (stateIn (inherited scope.window.shard) ip) (typesOf ip events)
        (scope.window.state ip)
  published : ∀ sequence type ip,
    shardEventId env scope.window.shard sequence type ip ∈ scope.shared.hotIp.seenIds →
      sequence < (scope.shared.store.load scope.window.shard).nextSequence
  counted :
    (scope.shared.store.load scope.window.shard).nextSequence ≤ scope.window.nextSequence

variable {env past inherited}

theorem agrees_stable (hdigest : Function.Injective env.digest) :
    Stable env (Agrees env past inherited) := by
  intro s t w hf h
  refine ⟨?_, ?_, ?_, ?_⟩
  · exact (congrArg ShardState.hotIps hf.load).trans h.store
  · obtain ⟨events, hlog, hrest⟩ := h.log
    exact ⟨events, hf.shardEvents_eq.trans hlog, hrest⟩
  · intro sequence type ip hid
    have hload := congrArg ShardState.nextSequence hf.load
    obtain hid | ⟨other, sequence', type', ip', hne, heq⟩ := hf.seenIds _ hid
    · exact (h.published sequence type ip hid).trans_eq hload.symm
    · exact absurd (shardAgentId_inj (shardEventId_inj hdigest heq).1).symm hne
  · exact (congrArg ShardState.nextSequence hf.load).trans_le h.counted

/-- Nothing outside has changed, and no state of the window. -/
theorem Agrees.of_later {scope scope' : Scope} (h : Agrees env past inherited scope)
    (hl : scope.shared.Later scope'.shared) (hw : SameStates scope.window scope'.window) :
    Agrees env past inherited scope' := by
  refine ⟨?_, ?_, ?_, ?_⟩
  · rw [hl.store, hw.shard, hw.hotIps]
    exact h.store
  · rw [hl.hotIp, hw.shard, hw.hotIps]
    obtain ⟨events, hlog, hreplay, halt⟩ := h.log
    exact ⟨events, hlog, hreplay, fun ip => by rw [hw.state]; exact halt ip⟩
  · rw [hl.store, hl.hotIp, hw.shard]
    exact h.published
  · rw [hl.store, hw.shard, hw.nextSequence]
    exact h.counted

/-- A sequence number taken for nothing leaves a gap, and the agreement. -/
theorem Agrees.taken {scope scope' : Scope} (h : Agrees env past inherited scope)
    (hl : scope.shared.Later scope'.shared) (hw : scope'.window = scope.window.taken) :
    Agrees env past inherited scope' := by
  have h' : Agrees env past inherited ⟨scope'.shared, scope.window⟩ :=
    h.of_later hl (SameStates.refl _)
  have hcounted := h'.counted
  obtain ⟨shared, window⟩ := scope'
  subst hw
  exact ⟨h'.store, h'.log, h'.published, hcounted.trans (Nat.le_succ _)⟩

end Agreement

/-! ### One edge in the three copies -/

variable {env : Env}

theorem state_setState {w w' : ShardWindow} {ip : Address} {new : IpState}
    (h : w.setState ip new = .ok w') :
    w'.state ip = new ∧ ∀ other, ip ≠ other → w'.state other = w.state other := by
  obtain ⟨entry, -, -, hentries⟩ := ShardWindow.setState_ok h
  refine ⟨ShardWindow.state_of_get? (by rw [hentries, Dict.get?_set_self]), fun other hne => ?_⟩
  exact ShardWindow.state_congr (by rw [hentries, Dict.get?_set_of_ne _ hne])

/-- In the window. -/
theorem hotIps_setState {w w' : ShardWindow} {ip : Address} {new : IpState}
    (h : w.setState ip new = .ok w') : w'.hotIps = new.applyTo ip w.hotIps := by
  obtain ⟨hself, hother⟩ := state_setState h
  ext other
  rw [ShardWindow.mem_hotIps]
  by_cases hip : ip = other
  · subst hip
    rw [hself]
    cases new <;> simp [IpState.applyTo]
  · rw [hother other hip, ← ShardWindow.mem_hotIps]
    cases new <;> simp [IpState.applyTo, Ne.symm hip]

/-- In the store, with the counter raised past the sequence. -/
theorem load_announced (scope : Scope) (ip : Address) (edge : Edge) (eventId : String)
    (value : Bytes) :
    (announced env scope ip edge eventId value).store.load scope.window.shard =
      { hotIps := edge.current.applyTo ip
          (scope.shared.store.load scope.window.shard).hotIps
        nextSequence := max (scope.shared.store.load scope.window.shard).nextSequence
          (scope.window.nextSequence + 1) } :=
  ShardStateStore.load_recordTransition_self _ _ _ _ _

variable {past : ℕ → List HotIpEvent} {inherited : ℕ → Finset Address}

/-- An edge that was persisted, published and set. -/
theorem Agrees.emitted (hdigest : Function.Injective env.digest) {scope : Scope}
    (h : Agrees env past inherited scope) {ip : Address} {edge : Edge} {config : DetectionConfig}
    {now : ℤ} {eventId : String} {value : Bytes} {w' : ShardWindow}
    (henc : encodeTransition env scope.window.shard ip edge scope.window.nextSequence config now =
      .ok (eventId, value))
    (hne : edge.current ≠ scope.window.state ip)
    (hset : scope.window.taken.setState ip edge.current = .ok w') :
    Agrees env past inherited ⟨announced env scope ip edge eventId value, w'⟩ := by
  obtain ⟨-, -, hf, -⟩ := ShardWindow.setState_ok hset
  have hshard : w'.shard = scope.window.shard := hf.shard
  have hhot := hotIps_setState hset
  change w'.hotIps = edge.current.applyTo ip scope.window.hotIps at hhot
  obtain ⟨hself, hother⟩ := state_setState hset
  have hid := (encodeTransition_ok henc).2.1
  have hfresh : eventId ∉ scope.shared.hotIp.seenIds := by
    rw [hid]
    intro hc
    exact absurd (h.published _ _ _ hc) (Nat.not_lt.mpr h.counted)
  refine ⟨?_, ?_, ?_, ?_⟩
  · rw [hshard, load_announced, hhot, h.store]
  · obtain ⟨events, hlog, hreplay, halt⟩ := h.log
    obtain ⟨attributes, hevents⟩ := shardEvents_concat henc scope.shared.hotIp.log
      (utf8 (env.text ip))
    refine ⟨events ++ [eventOf ip edge scope.window.nextSequence config now attributes], ?_, ?_, ?_⟩
    · rw [hshard, hotIp_announced hfresh, hevents, hlog, List.append_assoc]
    · rw [hshard, replay_concat, hhot, hreplay]
      cases hc : edge.current <;> simp [eventOf, eventTypeOf, IpState.applyTo, hc]
    · intro ip'
      rw [hshard]
      by_cases hip : ip = ip'
      · subst hip
        rw [hself]
        have htypes := typesOf_concat_self events
          (eventOf ip edge scope.window.nextSequence config now attributes)
        change typesOf ip _ = typesOf ip events ++ [eventTypeOf edge.current] at htypes
        rw [htypes]
        exact (halt ip).snoc hne
      · rw [hother ip' hip, typesOf_concat_of_ne _ hip]
        exact halt ip'
  · intro sequence type ip' hm
    rw [hshard, load_announced]
    rw [hshard, hotIp_announced hfresh] at hm
    obtain heq | hm := Finset.mem_insert.mp hm
    · rw [hid] at heq
      rw [(shardEventId_inj hdigest heq).2]
      exact lt_of_lt_of_le (Nat.lt_succ_self _) (le_max_right _ _)
    · exact lt_of_lt_of_le (h.published _ _ _ hm) (le_max_left _ _)
  · rw [hshard, load_announced, hf.nextSequence]
    exact max_le (h.counted.trans (Nat.le_succ _)) (le_refl _)


/-! ### The programs that announce nothing -/

/-- Nothing was announced: what surrounds the worker is the same, and every state. -/
structure Silent (s t : Scope) : Prop where
  shared : s.shared.Later t.shared
  window : SameStates s.window t.window

namespace Silent

instance : Std.Refl Silent := ⟨fun _ => ⟨Shared.Later.refl _, SameStates.refl _⟩⟩

instance : IsTrans Scope Silent :=
  ⟨fun _ _ _ h h' => ⟨h.shared.trans h'.shared, h.window.trans h'.window⟩⟩

end Silent

theorem observe_silent (env : Env) (ip : Address) (start delta : ℤ) :
    Program.Within Silent (observe env ip start delta) := by
  intro s
  cases h : observe env ip start delta s with
  | ok change t =>
    obtain ⟨hw, hs⟩ := observe_ok h
    exact ⟨by rw [Program.after_ok, hs]; exact Shared.Later.advance _, SameStates.of_observe hw⟩
  | error e t =>
    cases observe_error h
    exact ⟨Shared.Later.advance _, SameStates.refl _⟩

theorem expireDue_silent (env : Env) : Program.Within Silent (expireDue env) :=
  fun s => ⟨Shared.Later.advance _, SameStates.of_swept (ShardWindow.expireDue_swept s.window _)⟩

theorem evictDue_silent (env : Env) : Program.Within Silent (evictDue env) :=
  fun s => ⟨Shared.Later.advance _, SameStates.of_shrinks (ShardWindow.evictDue_shrinks s.window _)⟩

theorem finishWarmupIfDue_silent (env : Env) : Program.Within Silent (finishWarmupIfDue env) := by
  intro s
  obtain ⟨t, ht, hw, hl, -⟩ | ⟨u, -, -, ht⟩ := finishWarmupIfDue_ok env s
  · rw [ht]
    exact ⟨hl, by rw [Program.after_ok, hw]; exact SameStates.refl _⟩
  · rw [ht]
    exact ⟨Shared.Later.advance _, SameStates.finishWarmup _⟩

theorem iterate_silent (env : Env) (ips : Finset Address) :
    Program.Within Silent (Scope.outside (Shared.iterate env ips)) :=
  fun _ => ⟨Shared.Later.advance _, SameStates.refl _⟩

theorem adoptConfig_silent (env : Env) (config : DetectionConfig) :
    Program.Within Silent (adoptConfig env config) := by
  intro s
  rw [adoptConfig_eq]
  have hadopt : SameStates s.window { s.window with config := config } := ⟨rfl, rfl, fun _ => rfl⟩
  split_ifs
  · rw [Program.after_zoom]
    exact ⟨Shared.Later.advance _, hadopt.trans (SameStates.rebuildAll config _ _)⟩
  · exact ⟨Shared.Later.refl _, hadopt⟩

/-! ### Every program keeps the agreement -/

section Programs

variable (henv : env.NoCallFails) (hdigest : Function.Injective env.digest)

/-- A silent program keeps the agreement, wherever it stops. -/
theorem Agrees.silent {α : Type} {m : Program Failure Scope α} (hm : Program.Within Silent m) :
    Program.Triple (Agrees env past inherited) m (fun _ => Agrees env past inherited)
      (Agrees env past inherited) :=
  Program.Triple.of_within hm fun _ _ h hs => h.of_later hs.shared hs.window

include henv hdigest

theorem Agrees.evaluate (ip : Address) {config : DetectionConfig}
    (hhot : 0 ≤ config.hotThreshold) :
    Program.Triple (Agrees env past inherited) (evaluate env ip config)
      (fun _ => Agrees env past inherited) (Agrees env past inherited) := by
  -- An emission starts where the edge was decided, and there the copies still agree.
  have start : ∀ s s₁, Agrees env past inherited s → Decided env s s₁ ip config →
      Agrees env past inherited s₁ := fun s s₁ h hd =>
    h.of_later hd.shared (by rw [hd.window]; exact SameStates.refl _)
  refine Program.Triple.intro ?_ ?_
  · intro s r t h hr
    obtain ⟨-, hw, hl, -⟩ | ⟨s₁, emitted, -, hd, hemit⟩ := evaluate_ok hr
    · exact h.of_later hl (by rw [hw]; exact SameStates.refl _)
    · obtain ⟨eventId, value, w', henc, hset, rfl, -⟩ := emit_ok hemit
      exact (start s s₁ h hd).emitted hdigest henc (by rw [hd.window]; exact hd.changed) hset
  · intro s e t h hr
    obtain ⟨s₁, hd, hemit⟩ := evaluate_error hr
    obtain ⟨hw, hl | ⟨hnone, eventId, value, u, henc, -⟩⟩ := emit_error hemit
    · exact (start s s₁ h hd).taken hl hw
    · -- An edge that was encoded is not one of an untracked IP: its count is 0.
      have hget : s.window.entries.get? ip = none := by
        rw [← hd.window]
        exact hnone henv
      have hstate : s.window.state ip = .cold := by simp only [ShardWindow.state, hget]
      have htotal : s.window.total ip = 0 := by simp only [ShardWindow.total, hget]
      have hcur : (edgeOf s.window ip config).current = .hot := by
        have hne := hd.changed
        rw [hstate] at hne
        cases hc : (edgeOf s.window ip config).current
        · exact absurd hc hne
        · rfl
      have hle : config.hotThreshold ≤ 0 := by
        rw [← htotal]
        refine evaluateIpState_cold_eq_hot.mp ?_
        rw [← hcur, ← hstate]
        rfl
      obtain ⟨-, -, attributes, hattr, -⟩ := encodeTransition_ok henc
      rw [hcur] at hattr
      have hzero : config.hotThreshold = 0 := le_antisymm hle hhot
      simp only [transitionAttributes, computeWeight, thresholdRatio, hzero] at hattr
      cases hattr

theorem Agrees.settle (ip : Address) {config : DetectionConfig} (hhot : 0 ≤ config.hotThreshold) :
    Program.Triple (Agrees env past inherited) (settle env ip config)
      (fun _ => Agrees env past inherited) (Agrees env past inherited) :=
  Program.Triple.bind (Agrees.evaluate henv hdigest ip hhot) fun _ =>
    Program.Triple.pure fun _ h => h

/-- The agreement is kept by every program of a worker on a window, also one that raises. -/
theorem agrees_runInvariant (batch : ℤ) :
    RunInvariant env (fun config => 0 ≤ config.hotThreshold) batch
      (fun _ => Agrees env past inherited) (fun _ => Agrees env past inherited)
      (Agrees env past inherited) where
  stable _ := agrees_stable hdigest
  stable_adopted _ := agrees_stable hdigest
  countObservation config hhot windowStart entry := by
    refine Program.Triple.bind (Agrees.silent Program.Within.get) fun scope => ?_
    refine Program.Triple.bind (Agrees.silent (observe_silent env _ _ _)) fun _ => ?_
    exact Agrees.settle henv hdigest entry.ip hhot
  maintainWindow config hhot := by
    have hloop : ∀ ips : List Address,
        Program.Triple (Agrees env past inherited) (ips.forM fun ip => settle env ip config)
          (fun _ => Agrees env past inherited) (Agrees env past inherited) := fun ips =>
      Program.Triple.forM (I := fun _ => Agrees env past inherited) ips fun ip _ =>
        Agrees.settle henv hdigest ip hhot
    refine Program.Triple.bind (Q := fun _ => Agrees env past inherited) ?_ fun _ =>
      Program.Triple.bind (Q := fun _ => Agrees env past inherited) ?_ fun _ => ?_
    · refine Program.Triple.bind (Agrees.silent (expireDue_silent env)) fun changes => ?_
      refine Program.Triple.forM (I := fun _ => Agrees env past inherited) changes
        fun change _ => ?_
      split_ifs
      · exact Agrees.settle henv hdigest change.ip hhot
      · exact Program.Triple.pure fun _ h => h
    · refine Program.Triple.bind (Agrees.silent (finishWarmupIfDue_silent env)) fun warmed => ?_
      exact Program.Triple.bind (Agrees.silent (iterate_silent env _)) fun ips => hloop ips
    · exact Program.Triple.bind (Agrees.silent (evictDue_silent env)) fun _ =>
        Program.Triple.pure fun _ h => h
  adoptConfig old config _ _ := Agrees.silent (adoptConfig_silent env config)
  reevaluateShard config hhot := by
    unfold reevaluateShard
    split_ifs
    · exact Program.Triple.throw fun _ h => h
    · refine Program.Triple.bind (Agrees.silent Program.Within.get) fun scope => ?_
      refine Program.Triple.bind (Agrees.silent (iterate_silent env _)) fun targets => ?_
      refine Program.Triple.foldlM (I := fun _ => Agrees env past inherited) targets 0
        fun _ ip _ => ?_
      exact Program.Triple.bind (Agrees.evaluate henv hdigest ip hhot) fun _ =>
        Program.Triple.pure fun _ h => h

end Programs

/-! ### Runs -/

/-- The events a shard has published are numbered below the store's counter for it. The store is
written before the log, so nothing ever breaks it. -/
def Numbered (env : Env) (shared : Shared) : Prop :=
  ∀ shard sequence type ip, shardEventId env shard sequence type ip ∈ shared.hotIp.seenIds →
    sequence < (shared.store.load shard).nextSequence

/-- A window as its claim left it agrees with the store, and with the log from there on. -/
theorem Opened.agrees {config : DetectionConfig} {scope : Scope} (h : Opened env config scope)
    (hnumbered : Numbered env scope.shared) :
    Agrees env (fun shard => shardEvents env shard scope.shared.hotIp.log)
      (fun shard => (scope.shared.store.load shard).hotIps) scope := by
  obtain ⟨tick, -, hnew⟩ := h.isNew
  have hstate : ∀ ip, scope.window.state ip =
      stateIn (scope.shared.store.load scope.window.shard).hotIps ip := by
    intro ip
    by_cases hip : ip ∈ (scope.shared.store.load scope.window.shard).hotIps
    · obtain ⟨c, -, hget⟩ := hnew.inherited ip hip
      rw [ShardWindow.state_of_get? hget, stateIn, if_pos hip]
    · rw [stateIn, if_neg hip]
      simp only [ShardWindow.state, hnew.untracked ip hip]
  have hhot : scope.window.hotIps = (scope.shared.store.load scope.window.shard).hotIps := by
    ext ip
    rw [ShardWindow.mem_hotIps, hstate, stateIn]
    split_ifs with hip <;> simp [hip]
  refine ⟨hhot.symm, ⟨[], (List.append_nil _).symm, hhot.symm, fun ip => ?_⟩, hnumbered _,
    h.nextSequence.ge⟩
  rw [hstate]
  exact Alternates.nil

/-- A run keeps the agreement, whether its operations return or raise. -/
theorem agrees_run (henv : env.NoCallFails) (hdigest : Function.Injective env.digest) {batch : ℤ}
    {operations : List Operation}
    (hops : ∀ operation ∈ operations, operation.Admitted fun config => 0 ≤ config.hotThreshold)
    {s : World}
    (hs : Steady (fun config => 0 ≤ config.hotThreshold) batch
      (fun _ => Agrees env past inherited) s) :
    Steady (fun config => 0 ≤ config.hotThreshold) batch (fun _ => Agrees env past inherited)
      (run env operations s) := by
  refine (agrees_runInvariant henv hdigest batch).run ?_ hops hs
  intro t hf
  refine ⟨hf.config, hf.batch, hf.running, hf.windows.mono ?_⟩
  rintro scope (⟨c, -, h | h⟩ | h) <;> exact h

theorem stateIn_eq_cold {hot : Finset Address} {ip : Address} :
    stateIn hot ip = .cold ↔ ip ∉ hot := by
  unfold stateIn
  split_ifs with h <;> simp [h]

/-- An eviction never drops a HOT entry. -/
theorem shrinks_hot {w w' : ShardWindow} (h : w.Shrinks w') {ip : Address}
    (hhot : w.state ip = .hot) : w'.entries.get? ip = w.entries.get? ip := by
  obtain hk | ⟨-, hc⟩ := h.kept ip
  · exact hk
  · rw [hhot] at hc
    cases hc

/-- In every run under one claim in which no store or bus call fails, and whose thresholds are not
negative, the window, the store and the log of a claimed shard have the same HOT set between any two
operations, also after one that raised. The events since the claim lead from the inherited set to it
and alternate for each IP, and no eviction of any window drops a HOT entry. -/
theorem hot_sets_agree {env : Env} (henv : env.NoCallFails)
    (hdigest : Function.Injective env.digest) {shared : Shared} (hnumbered : Numbered env shared)
    {config : DetectionConfig} (hhot : 0 ≤ config.hotThreshold) {batch : ℤ} {s : World}
    (hstart : Started env shared config batch s) {operations : List Operation}
    (hops : ∀ operation ∈ operations, operation.Admitted fun config => 0 ≤ config.hotThreshold)
    {shard : ℕ} {w : ShardWindow}
    (hw : (run env operations s).worker.claims.windows.get? shard = some w) :
    w.hotIps = ((run env operations s).shared.store.load shard).hotIps ∧
      (∃ events,
        shardEvents env shard (run env operations s).shared.hotIp.log =
          shardEvents env shard shared.hotIp.log ++ events ∧
        w.hotIps = replay (shared.store.load shard).hotIps events ∧
        ∀ ip, (typesOf ip events).IsChain (· ≠ ·) ∧
          ∀ type ∈ (typesOf ip events).head?,
            type = .added ↔ ip ∉ (shared.store.load shard).hotIps) ∧
      ∀ (v : ShardWindow) (ip : Address), v.state ip = .hot →
        v.evictForCapacity.entries.get? ip = v.entries.get? ip ∧
          ∀ now, (v.evictDue now).2.entries.get? ip = v.entries.get? ip := by
  obtain ⟨s₀, rfl, -, -, -, -, hclaim⟩ := hstart.claiming
  have hnumbered' : Numbered env s.shared := by
    intro other sequence type ip hid
    rw [(hclaim.foreign other).load]
    exact hnumbered other sequence type ip (hclaim.hotIp ▸ hid)
  have hsteady := agrees_run henv hdigest hops
    (hstart.steady (I := fun _ => Agrees env (fun shard => shardEvents env shard s.shared.hotIp.log)
      fun shard => (s.shared.store.load shard).hotIps) hhot fun _ _ hopened =>
        hopened.agrees hnumbered')
  obtain ⟨rfl, hagrees⟩ := hsteady.windows shard w hw
  refine ⟨hagrees.store.symm, ?_, fun v ip hv => ?_⟩
  · obtain ⟨events, hlog, hreplay, halt⟩ := hagrees.log
    refine ⟨events, ?_, ?_, fun ip => ?_⟩
    · rw [← hclaim.hotIp]
      exact hlog
    · rw [← (hclaim.foreign w.shard).load]
      exact hreplay.symm
    · refine ⟨(halt ip).isChain, fun type htype => ?_⟩
      rw [(halt ip).head? type htype, stateIn_eq_cold, (hclaim.foreign w.shard).load]
  · exact ⟨shrinks_hot (ShardWindow.evictForCapacity_shrinks v) hv,
      fun now => shrinks_hot (ShardWindow.evictDue_shrinks v now) hv⟩

/-- A worker that inherits one HOT IP and promotes another: both are HOT in memory and in the
store. -/
theorem hot_sets_agree_inherited : ∃ message s w event,
    Started sampleEnv (sharedWith {⟨.ipv4, 1, by decide⟩} 3) Ingest.defaultConfig 1000 s ∧
    (run sampleEnv [.handle message] s).worker.claims.windows.get? 0 = some w ∧
    shardEvents sampleEnv 0 (run sampleEnv [.handle message] s).shared.hotIp.log = [event] ∧
    event.type = .added ∧ w.hotIps = {⟨.ipv4, 2, by decide⟩, ⟨.ipv4, 1, by decide⟩} ∧
    ((run sampleEnv [.handle message] s).shared.store.load 0).hotIps = w.hotIps := by
  obtain ⟨message, s, -, t, w, event, -, hstart, -, -, -, ht, hw, hevents, htype, hip, -⟩ :=
    exists_promoted
  have hrun : run sampleEnv [.handle message] s = t := run_handle ht []
  have hops : ∀ operation ∈ [Operation.handle message],
      operation.Admitted fun config => 0 ≤ config.hotThreshold :=
    List.forall_mem_singleton.mpr trivial
  rw [← hrun] at hw hevents
  obtain ⟨hstore, ⟨events, hlog, hreplay, -⟩, -⟩ := hot_sets_agree orderly_sampleEnv.noCallFails
    (interpreterEnv_digest_injective _ _) (fun _ _ _ _ hid => absurd hid (Finset.notMem_empty _))
    (by decide) hstart hops hw
  refine ⟨message, s, w, event, hstart, hw, hevents, htype, ?_, hstore.symm⟩
  -- The log was empty, and what it has now is the promotion.
  have hone : [event] = events := hevents.symm.trans hlog
  rw [hreplay, ← hone]
  unfold replay
  rw [List.foldl_cons, List.foldl_nil, htype, hip]
  rfl

/-! ### An edge of an IP that is not tracked -/

/-- An edge of an IP that is not tracked is persisted and published, and then there is no entry to
set the state of. -/
theorem emit_untracked {ip : Address} {edge : Edge} {config : DetectionConfig} {s : Scope}
    {eventId : String} {value : Bytes} (henv : env.NoCallFails)
    (henc : encodeTransition env s.window.shard ip edge s.window.nextSequence config
      (env.now s.shared.tick) = .ok (eventId, value))
    (hnone : s.window.entries.get? ip = none) :
    emit env ip edge config s =
      .error .keyError ⟨announced env s ip edge eventId value, s.window.taken⟩ := by
  refine Program.bind_error.mpr (Or.inr ⟨_, _, rfl, ?_⟩)
  refine Program.bind_error.mpr (Or.inr ⟨(eventId, value), ⟨s.shared.advance, s.window.taken⟩,
    ?_, ?_⟩)
  · refine Program.bind_ok.mpr ⟨_, _, rfl, inside_ok.mpr ⟨_, ?_, rfl⟩⟩
    exact congrArg (fun x => (fun event => (event, s.window.taken)) <$> x) henc
  · refine Program.bind_error.mpr (Or.inr ⟨⟨⟩, _, outside_ok.mpr
      ⟨_, Shared.call_returns (henv _) rfl, rfl⟩, ?_⟩)
    refine Program.bind_error.mpr (Or.inr ⟨⟨⟩, _, outside_ok.mpr
      ⟨_, Shared.call_returns (henv _) rfl, rfl⟩, ?_⟩)
    refine Program.bind_error.mpr (Or.inl (inside_error.mpr ⟨?_, rfl⟩))
    have hset : s.window.taken.setState ip edge.current = .error .keyError := by
      unfold ShardWindow.setState
      rw [show s.window.taken.entries.get? ip = none from hnone]
    exact congrArg (fun x => (fun window => ((⟨⟩ : PUnit), window)) <$> x) hset

theorem evaluate_untracked {ip : Address} {config : DetectionConfig} {s : Scope}
    (henv : env.NoCallFails) (hrange : datetimeRange (env.now s.shared.tick) = true)
    (hnone : s.window.entries.get? ip = none) (hhot : config.hotThreshold < 0) :
    ∃ eventId value, evaluate env ip config s = .error .keyError
      ⟨announced env s ip ⟨.cold, .hot, 0⟩ eventId value, s.window.taken⟩ := by
  have hcount : 0 ≤ (⟨.cold, .hot, 0⟩ : Edge).count := le_refl 0
  obtain ⟨⟨eventId, value⟩, henc⟩ := exists_encodeTransition env s.window.shard ip
    s.window.nextSequence hrange hcount hhot.ne
  refine ⟨eventId, value, Program.bind_error.mpr (Or.inr ⟨some ⟨.cold, .hot, 0⟩, s, ?_, ?_⟩)⟩
  · have hstate : s.window.state ip = .cold := by simp only [ShardWindow.state, hnone]
    have htotal : s.window.total ip = 0 := by simp only [ShardWindow.total, hnone]
    have hnew : evaluateIpState .cold 0 config = .hot := evaluateIpState_cold_eq_hot.mpr hhot.le
    unfold decideEdge
    show (if evaluateIpState (s.window.state ip) (s.window.total ip) config = s.window.state ip
      then _ else _ : Program Failure Scope (Option Edge)) s = _
    rw [hstate, htotal, hnew]
    rfl
  · show (some <$> emit env ip ⟨.cold, .hot, 0⟩ config : Program Failure Scope _) s = _
    rw [Program.map_apply, emit_untracked henv henc hnone]

/-- An observation whose bucket leaves the window between the classification and the count, of an IP
that is not tracked and under a negative threshold: the store has the IP and the window has not. -/
theorem handle_untracked {message : ConsumedMessage} {s : World} {eventId : String}
    {payload : RequestObservation} {entry : Observation} {w : ShardWindow} (henv : env.NoCallFails)
    (hrun : s.worker.stopping = false)
    (hw : s.worker.claims.windows.get? message.partition = some w)
    (hnew : (s.worker.claims.positions.get? message.partition).any (message.offset < ·) = false)
    (hdecode : decodeObservation env message = some (eventId, payload, entry))
    (hclass : classifyObservation payload.windowStart payload.windowSeconds
      (env.now s.shared.tick) s.worker.config = .applied)
    (hobserve : w.observe entry.ip (bucketStart payload.windowStart w.config.bucketSeconds)
      entry.requestCount (env.now (s.shared.tick + 1)) = .ok (none, w))
    (hnone : w.entries.get? entry.ip = none) (hhot : s.worker.config.hotThreshold < 0)
    (hrange : datetimeRange (env.now (s.shared.tick + 2)) = true) :
    ∃ t, handle env message s = .error .keyError t ∧
      t.worker.claims.windows.get? message.partition = some w.taken ∧
      entry.ip ∈ (t.shared.store.load w.shard).hotIps := by
  obtain ⟨id, value, hevaluate⟩ :=
    evaluate_untracked (s := ⟨s.shared.advance.advance, w⟩) henv hrange
    hnone hhot
  refine ⟨s.setWindow message.partition ⟨announced env ⟨s.shared.advance.advance, w⟩ entry.ip
    ⟨.cold, .hot, 0⟩ id value, w.taken⟩, ?_, Dict.get?_set_self _ _ _, ?_⟩
  · rw [handle_decoded hrun (congrArg Option.isSome hw) hnew hdecode,
      handleObservation_applied hclass]
    refine Program.bind_error.mpr (Or.inl (onWindow_error.mpr (Or.inr ⟨w, _, hw, ?_, rfl⟩)))
    refine Program.bind_error.mpr (Or.inr ⟨_, _, rfl, Program.bind_error.mpr (Or.inr
      ⟨none, _, ?_, Program.bind_error.mpr (Or.inl hevaluate)⟩)⟩)
    exact Program.bind_ok.mpr ⟨_, _, rfl, inside_ok.mpr ⟨w, hobserve, rfl⟩⟩
  · show entry.ip ∈ ((announced env ⟨s.shared.advance.advance, w⟩ entry.ip ⟨.cold, .hot, 0⟩ id
      value).store.load (⟨s.shared.advance.advance, w⟩ : Scope).window.shard).hotIps
    rw [load_announced]
    exact Finset.mem_insert_self _ _

/-- A configuration that the constructor admits and the schema does not. -/
def negativeConfig : DetectionConfig :=
  { DetectionConfig.shipped with hotThreshold := -1, coldThreshold := -2, cold_lt_hot := by decide }

/-- A clock that enters the next bucket between the classification and the count. -/
def crossingClock (tick : ℕ) : ℤ := if tick ≤ 4 then 299 else 300

theorem orderly_crossingClock : (interpreterEnv crossingClock fun _ => .returns).Orderly := by
  refine ⟨fun _ => rfl, fun m n hmn => ?_, fun tick => ?_⟩
  · show crossingClock m ≤ crossingClock n
    unfold crossingClock
    split_ifs <;> omega
  · show datetimeRange (crossingClock tick) = true
    unfold crossingClock
    split_ifs <;> decide

/-- The thresholds have to be bounded from below. -/
theorem untracked_edge_splits :
    ∃ (env : Env) (shared : Shared) (config : DetectionConfig) (s : World)
    (operation : Operation) (w : ShardWindow),
    env.Orderly ∧ Function.Injective env.digest ∧ Numbered env shared ∧
    Started env shared config 1000 s ∧
    (run env [operation] s).worker.claims.windows.get? 0 = some w ∧
    w.hotIps ≠ ((run env [operation] s).shared.store.load 0).hotIps := by
  obtain ⟨message, eventId, hpartition, hoffset, hdecode⟩ := exists_delivery
    (Codec.libraryWith none (by simp)) rfl crossingClock (fun _ => .returns)
    (show datetimeRange 0 = true by decide) (show (1 : ℤ) ≤ 10 ∧ (10 : ℤ) ≤ 3600 by decide)
    ⟨⟨.ipv4, 1, by decide⟩, 5⟩ (by decide) 0 0
  have henv := orderly_crossingClock
  -- The window of a shard that the store holds nothing for.
  obtain ⟨w, hmake, hentries, hshard, hconfig⟩ : ∃ w,
      ShardWindow.make 0 negativeConfig 299 [] 0 1000 = .ok w ∧ w.entries = .empty ∧ w.shard = 0 ∧
        w.config = negativeConfig := ⟨_, rfl, rfl, rfl, rfl⟩
  rw [← show (interpreterEnv crossingClock fun _ => .returns).arrange 3 ∅ = [] from
    Finset.toList_empty] at hmake
  obtain ⟨s, hassigned, hclaimed⟩ := onAssigned_free (sharedWith ∅ 0)
    (.make negativeConfig "member" "instance" 30 1000 1000) (henv.noCallFails _)
    (henv.noCallFails _) rfl rfl (show (0 : ℚ) < 30 by norm_num) hmake
  have hnone : w.entries.get? ⟨.ipv4, 1, by decide⟩ = none := by rw [hentries]; rfl
  have hobserve : w.observe ⟨.ipv4, 1, by decide⟩ (bucketStart 0 w.config.bucketSeconds) 5 300 =
      .ok (none, w) := by
    unfold ShardWindow.observe
    rw [hnone, hconfig]
    rfl
  have htick : s.shared.tick = 4 := hclaimed.tick
  have hworker := hclaimed.worker
  obtain ⟨t, hhandle, hwindow, hmem⟩ := handle_untracked (s := s) (w := w) henv.noCallFails
    (by rw [hworker]; rfl) (by rw [hworker, hpartition]; exact Dict.get?_set_self _ _ _)
    (by rw [hworker]; rfl) hdecode (by rw [htick, hworker]; rfl) (by rw [htick]; exact hobserve)
    hnone (by rw [hworker]; exact (by decide : (-1 : ℤ) < 0)) (by rw [htick]; rfl)
  have hafter : run (interpreterEnv crossingClock fun _ => .returns) [.handle message] s = t := by
    show Program.after ((handle (interpreterEnv crossingClock fun _ => .returns) message >>=
      fun _ => pure ⟨⟩ : Program Failure World PUnit) s) = t
    rw [Program.bind_apply, hhandle]
    rfl
  refine ⟨_, sharedWith ∅ 0, negativeConfig, s, .handle message, w.taken, henv,
    interpreterEnv_digest_injective _ _, fun _ _ _ _ hid => absurd hid (Finset.notMem_empty _),
    ⟨_, _, _, _, _, hassigned⟩, ?_⟩
  rw [hafter, ← hpartition, hwindow, hpartition, ← hshard]
  refine ⟨rfl, fun heq => ?_⟩
  rw [← heq, ShardWindow.mem_hotIps] at hmem
  have hcold : w.taken.state ⟨.ipv4, 1, by decide⟩ = .cold := by
    unfold ShardWindow.state
    rw [show w.taken.entries.get? ⟨.ipv4, 1, by decide⟩ = none from hnone]
  exact absurd (hcold.symm.trans hmem) (by decide)

end Hammertime.Aggregator
