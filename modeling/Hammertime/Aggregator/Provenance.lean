import Hammertime.Aggregator.Consistency
import Hammertime.Aggregator.Tenure
import Hammertime.Bus.Topics

/-!
# Where the records of the hot-ip log come from

An IP is owned by the shard that its text is mapped to, and its observations arrive at that shard. So a
window tracks no IP of another shard, and with a configuration whose thresholds are not negative an
edge is one of a tracked IP. Every record that a worker appends to the hot-ip log is then a transition
that the owner of its IP has encoded (`Written`), and the HOT sets of the store grow by owned IPs only:
every operation of a worker stays within `World.Stamps`, whether it returns or raises, and whatever
store and bus calls fail.
-/

namespace Hammertime.Aggregator

open Lib World

/-! ### Owners -/

/-- The shard that the observations of an IP are published to. -/
def ownerOf (env : Env) (ip : Address) : ℕ :=
  Bus.fnv1a32 (utf8 (env.text ip)) % Bus.observations.partitions

/-- The message lies in the partition of its key. -/
def ConsumedMessage.Routed (message : ConsumedMessage) : Prop :=
  ∀ key ∈ message.key,
    Bus.partitionFor (.inl key) Bus.observations.partitions = .ok (message.partition : ℤ)

variable {env : Env} {shard : ℕ}

/-- A message that decodes has its IP for key. -/
theorem key_of_decodeObservation {message : ConsumedMessage} {eventId : String}
    {payload : RequestObservation} {entry : Observation}
    (h : decodeObservation env message = some (eventId, payload, entry)) :
    message.key = some (utf8 (env.text entry.ip)) := by
  unfold decodeObservation at h
  split at h
  · cases h
  · split at h
    · split at h
      · split_ifs at h with hsubject hkey
        cases h
        exact not_not.mp hkey
      · cases h
    · cases h

/-- The entry of a message that decodes is owned by the message's partition. -/
theorem ConsumedMessage.Routed.owner {message : ConsumedMessage} (h : message.Routed)
    {eventId : String} {payload : RequestObservation} {entry : Observation}
    (hdecode : decodeObservation env message = some (eventId, payload, entry)) :
    ownerOf env entry.ip = message.partition := by
  have hpartition := h _ (key_of_decodeObservation hdecode)
  unfold Bus.partitionFor at hpartition
  rw [if_neg (by decide)] at hpartition
  have hmod : ((Bus.fnv1a32 (utf8 (env.text entry.ip)) : ℤ) % Bus.observations.partitions) =
      message.partition := Except.ok.inj hpartition
  unfold ownerOf
  exact_mod_cast hmod

/-! ### What a window tracks -/

/-- The window is of the shard, and tracks nothing that the shard does not own. -/
structure ShardWindow.Held (env : Env) (shard : ℕ) (w : ShardWindow) : Prop where
  shard_eq : w.shard = shard
  owned : ∀ ip, w.entries.get? ip ≠ none → ownerOf env ip = shard

namespace ShardWindow.Held

variable {w w' : ShardWindow}

/-- What is tracked was tracked before, or is owned. -/
theorem of_tracked (h : w.Held env shard) (hshard : w'.shard = w.shard)
    (htracked : ∀ ip, w'.entries.get? ip ≠ none →
      w.entries.get? ip ≠ none ∨ ownerOf env ip = shard) : w'.Held env shard :=
  ⟨hshard.trans h.shard_eq, fun ip hip => (htracked ip hip).elim (h.owned ip) id⟩

theorem of_entries (h : w.Held env shard) (hshard : w'.shard = w.shard)
    (hentries : w'.entries = w.entries) : w'.Held env shard :=
  h.of_tracked hshard fun _ hip => Or.inl (hentries ▸ hip)

/-- An entry of an owned IP is written. -/
theorem set (h : w.Held env shard) (hshard : w'.shard = w.shard) {ip : Address} {entry : Entry}
    (hip : ownerOf env ip = shard) (hentries : w'.entries = w.entries.set ip entry) :
    w'.Held env shard := by
  refine h.of_tracked hshard fun other hother => ?_
  by_cases hsame : ip = other
  · exact Or.inr (hsame ▸ hip)
  · rw [hentries, Dict.get?_set_of_ne _ hsame] at hother
    exact Or.inl hother

theorem shrinks (h : w.Held env shard) (hs : w.Shrinks w') : w'.Held env shard := by
  refine h.of_tracked hs.shard fun ip hip => Or.inl ?_
  obtain hk | ⟨hn, -⟩ := hs.kept ip
  · exact hk ▸ hip
  · exact absurd hn hip

theorem swept (h : w.Held env shard) {now : ℤ} {changes : List WindowChange}
    (hs : w.Swept now changes w') : w'.Held env shard := by
  refine h.of_tracked hs.shard fun ip hip => Or.inl ?_
  obtain ⟨-, hn⟩ | ⟨entry, c', he, -⟩ := hs.entries ip
  · exact absurd hn hip
  · rw [he]
    exact Option.some_ne_none _

theorem finishWarmup (h : w.Held env shard) : w.finishWarmup.2.Held env shard := by
  refine h.of_tracked rfl fun ip hip => Or.inl fun hnone => hip ?_
  rw [ShardWindow.get?_finishWarmup, hnone]
  rfl

theorem observe (h : w.Held env shard) {ip : Address} (hip : ownerOf env ip = shard)
    {start delta now : ℤ} {change : Option WindowChange}
    (hobserve : w.observe ip start delta now = .ok (change, w')) : w'.Held env shard := by
  obtain ⟨c, -, ⟨-, rfl, -⟩ | ⟨c', w₁, entry, -, -, hs, hf, he, -⟩⟩ :=
    ShardWindow.observe_cases hobserve
  · exact h
  · have hroom := h.shrinks hs
    exact hroom.set (hf.shard.trans hs.shard.symm) hip he

/-- The rebuild, also one that stops half way. -/
theorem rebuildAll (h : w.Held env shard) (config : DetectionConfig) (now : ℤ) :
    (Program.after (ShardWindow.rebuildAll config now w)).Held env shard := by
  have hitems : ∀ item ∈ w.entries.items, ownerOf env item.1 = shard := by
    rintro ⟨ip, entry⟩ hitem
    refine h.owned ip ?_
    rw [Dict.mem_items_iff.mp hitem]
    exact Option.some_ne_none entry
  unfold ShardWindow.rebuildAll
  generalize w.entries.items = items at hitems
  have hloop : Program.Triple (fun w : ShardWindow => w.Held env shard)
      (items.forM (ShardWindow.rebuildEntry config now)) (fun _ w => w.Held env shard)
      (fun w => w.Held env shard) := by
    induction items with
    | nil => exact fun w hw => hw
    | cons item rest ih =>
      refine Program.Triple.bind (Q := fun _ w => w.Held env shard) ?_ fun _ =>
        ih fun other hother => hitems other (List.mem_cons_of_mem _ hother)
      intro w hw
      unfold ShardWindow.rebuildEntry
      cases hr : ShardWindow.rebuild config now item.2.counter with
      | error e => exact hw
      | ok counter =>
        have hf := ShardWindow.scheduleExpiry_framed
          { w with
            entries := w.entries.set item.1 { item.2 with counter := counter }
            expiryScheduled := w.expiryScheduled.erase item.1 }
          item.1 { item.2 with counter := counter }
        exact hw.set hf.shard (hitems item List.mem_cons_self)
          (ShardWindow.scheduleExpiry_entries _ _ _)
  have hafter := hloop w h
  cases hr : items.forM (ShardWindow.rebuildEntry config now) w with
  | ok a t =>
    rw [hr] at hafter
    exact hafter
  | error e t =>
    rw [hr] at hafter
    exact hafter

end ShardWindow.Held

/-! ### What is written outside -/

/-- A record of the hot-ip log in which the owner of an IP announces an edge of it, a promotion at or
above the threshold. -/
def Written (env : Env) (record : Record) : Prop :=
  ∃ (ip : Address) (edge : Edge) (sequence : ℕ) (config : DetectionConfig) (now : ℤ)
    (eventId : String),
    record.key = utf8 (env.text ip) ∧
    (edge.current = .hot → config.hotThreshold ≤ edge.count) ∧
    encodeTransition env (ownerOf env ip) ip edge sequence config now = .ok (eventId, record.value)

/-- The log has grown by records that owners have written, and the HOT sets of the store by IPs that
their shards own. -/
structure Grows (env : Env) (s t : Shared) : Prop where
  log : ∃ records, t.hotIp.log = s.hotIp.log ++ records ∧ ∀ record ∈ records, Written env record
  routed : ∀ shard, ∀ ip ∈ (t.store.load shard).hotIps,
    ip ∈ (s.store.load shard).hotIps ∨ ownerOf env ip = shard

/-- And no lease has changed. -/
structure Extends (env : Env) (s t : Shared) : Prop extends Grows env s t where
  tick : s.tick ≤ t.tick
  leases : t.store.leases = s.store.leases

variable {s t u : Shared}

namespace Grows

theorem of_same (hlog : t.hotIp.log = s.hotIp.log)
    (hload : ∀ shard, t.store.load shard = s.store.load shard) : Grows env s t :=
  ⟨⟨[], by rw [hlog, List.append_nil], by simp⟩, fun shard _ hip => Or.inl (hload shard ▸ hip)⟩

theorem refl (env : Env) (s : Shared) : Grows env s s := of_same rfl fun _ => rfl

theorem trans (h : Grows env s t) (h' : Grows env t u) : Grows env s u := by
  obtain ⟨records, hr, hw⟩ := h.log
  obtain ⟨records', hr', hw'⟩ := h'.log
  refine ⟨⟨records ++ records', by rw [hr', hr, List.append_assoc], fun record hm => ?_⟩,
    fun shard ip hip => ?_⟩
  · exact (List.mem_append.mp hm).elim (hw record) (hw' record)
  · exact (h'.routed shard ip hip).elim (h.routed shard ip) Or.inr

end Grows

namespace Extends

theorem of_later (h : s.Later t) : Extends env s t :=
  ⟨.of_same (congrArg Topic.log h.hotIp) fun shard => by rw [h.store], h.tick, by rw [h.store]⟩

theorem refl (env : Env) (s : Shared) : Extends env s s := of_later (Shared.Later.refl s)

theorem trans (h : Extends env s t) (h' : Extends env t u) : Extends env s u :=
  ⟨h.toGrows.trans h'.toGrows, h.tick.trans h'.tick, h'.leases.trans h.leases⟩

instance : IsTrans Shared (Extends env) := ⟨fun _ _ _ => trans⟩

/-- A transition of an owned IP in the store. -/
theorem persisted (s : Shared) {ip : Address} (hip : ownerOf env ip = shard) (state : IpState)
    (sequence : ℕ) : Extends env s (Aggregator.persisted s shard ip state sequence) := by
  refine ⟨⟨⟨[], (List.append_nil _).symm, by simp⟩, fun other ip' hip' => ?_⟩, le_rfl, rfl⟩
  change ip' ∈ ((s.store.recordTransition shard ip state sequence).load other).hotIps at hip'
  by_cases hsame : shard = other
  · subst hsame
    rw [ShardStateStore.load_recordTransition_self] at hip'
    cases state with
    | hot =>
      obtain rfl | hold := Finset.mem_insert.mp hip'
      · exact Or.inr hip
      · exact Or.inl hold
    | cold => exact Or.inl (Finset.mem_of_mem_erase hip')
  · rw [ShardStateStore.load_recordTransition_of_ne _ hsame] at hip'
    exact Or.inl hip'

/-- The event of an owned IP in the log. -/
theorem published (s : Shared) {ip : Address} (hip : ownerOf env ip = shard) {edge : Edge}
    {sequence : ℕ} {config : DetectionConfig} {now : ℤ} {eventId : String} {value : Bytes}
    (hcount : edge.current = .hot → config.hotThreshold ≤ edge.count)
    (henc : encodeTransition env shard ip edge sequence config now = .ok (eventId, value)) :
    Extends env s (Aggregator.published env s ip eventId value) := by
  unfold Aggregator.published Topic.append
  split_ifs
  · exact refl env s
  · refine ⟨⟨⟨[⟨utf8 (env.text ip), value⟩], rfl, fun record hm => ?_⟩,
      fun _ _ hip' => Or.inl hip'⟩, le_rfl, rfl⟩
    rw [List.mem_singleton.mp hm]
    exact ⟨ip, edge, sequence, config, now, eventId, rfl, hcount, hip ▸ henc⟩

end Extends

/-! ### The programs on a window -/

/-- A program on a window of the shard that tracks only what the shard owns. -/
def Stamps (env : Env) (shard : ℕ) (s t : Scope) : Prop :=
  s.window.Held env shard → t.window.Held env shard ∧ Extends env s.shared t.shared

instance : Std.Refl (Stamps env shard) := ⟨fun s h => ⟨h, Extends.refl env s.shared⟩⟩

instance : IsTrans Scope (Stamps env shard) := by
  refine ⟨fun s t u hst htu hs => ?_⟩
  obtain ⟨ht, hext⟩ := hst hs
  obtain ⟨hu, hext'⟩ := htu ht
  exact ⟨hu, hext.trans hext'⟩

section Programs

variable (env) (shard)

/-- An edge that is encoded, under a threshold that is not negative, is one of a tracked IP: any other
counts 0, and has no weight at a threshold of 0. -/
theorem tracked_of_encode {w : ShardWindow} {ip : Address} {config : DetectionConfig} {number : ℕ}
    {now : ℤ} {event : String × Bytes} (hhot : 0 ≤ config.hotThreshold)
    (hne : (edgeOf w ip config).current ≠ w.state ip)
    (henc : encodeTransition env shard ip (edgeOf w ip config) number config now = .ok event) :
    w.entries.get? ip ≠ none := by
  intro hget
  have hstate : w.state ip = .cold := by simp only [ShardWindow.state, hget]
  have htotal : w.total ip = 0 := by simp only [ShardWindow.total, hget]
  have hcur : (edgeOf w ip config).current = .hot := by
    rw [hstate] at hne
    cases hc : (edgeOf w ip config).current with
    | hot => rfl
    | cold => exact absurd hc hne
  have hle : config.hotThreshold ≤ 0 := by
    rw [← htotal]
    refine evaluateIpState_cold_eq_hot.mp ?_
    rw [← hcur, ← hstate]
    rfl
  obtain ⟨-, -, attributes, hattr, -⟩ := encodeTransition_ok henc
  rw [hcur] at hattr
  have hzero : config.hotThreshold = 0 := le_antisymm hle hhot
  simp only [transitionAttributes, computeWeight, thresholdRatio, hzero] at hattr
  cases hattr

/-- A promotion is decided at or above the threshold. -/
theorem edgeOf_hot {w : ShardWindow} {ip : Address} {config : DetectionConfig}
    (hne : (edgeOf w ip config).current ≠ w.state ip) (hhot : (edgeOf w ip config).current = .hot) :
    config.hotThreshold ≤ (edgeOf w ip config).count := by
  have hstate : w.state ip = .cold := by
    rw [hhot] at hne
    cases hs : w.state ip with
    | hot => exact absurd hs.symm hne
    | cold => rfl
  refine evaluateIpState_cold_eq_hot.mp ?_
  rw [← hhot, ← hstate]
  rfl

theorem evaluate_stamps (ip : Address) {config : DetectionConfig} (hhot : 0 ≤ config.hotThreshold) :
    Program.Within (Stamps env shard) (evaluate env ip config) := by
  intro s hs
  -- The encoded edge is one of a tracked IP, and so of an owned one.
  have howned : ∀ {s₁ : Scope} {sequence : ℕ} {event : String × Bytes} {now : ℤ},
      Decided env s s₁ ip config →
      encodeTransition env s₁.window.shard ip (edgeOf s.window ip config) sequence config now =
        .ok event → s₁.window.Held env shard ∧ ownerOf env ip = s₁.window.shard := by
    intro s₁ sequence event now hd henc
    have hheld : s₁.window.Held env shard := hd.window ▸ hs
    have htracked := tracked_of_encode env _ hhot hd.changed henc
    exact ⟨hheld, (hs.owned ip htracked).trans hheld.shard_eq.symm⟩
  cases h : evaluate env ip config s with
  | ok r t =>
    rw [Program.after_ok]
    obtain ⟨-, hw, hl, -⟩ | ⟨s₁, emitted, -, hd, hemit⟩ := evaluate_ok h
    · exact ⟨hw ▸ hs, Extends.of_later hl⟩
    · obtain ⟨eventId, value, w', henc, hset, rfl, -⟩ := emit_ok hemit
      obtain ⟨hheld, hip⟩ := howned hd henc
      obtain ⟨entry, -, hf, hentries⟩ := ShardWindow.setState_ok hset
      have htaken : s₁.window.taken.Held env shard := hheld.of_entries rfl rfl
      refine ⟨htaken.set hf.shard (hip.trans hheld.shard_eq) hentries, ?_⟩
      have hcount := edgeOf_hot hd.changed
      calc Extends env s.shared s₁.shared := Extends.of_later hd.shared
        Extends env _ s₁.shared.advance.advance :=
          Extends.of_later ((Shared.Later.advance _).trans (Shared.Later.advance _))
        Extends env _ _ := Extends.persisted _ hip _ _
        Extends env _ _ := Extends.of_later (Shared.Later.advance _)
        Extends env _ _ := Extends.published _ hip hcount henc
  | error e t =>
    rw [Program.after_error]
    obtain ⟨s₁, hd, hemit⟩ := evaluate_error h
    have hlater : Extends env s.shared s₁.shared := Extends.of_later hd.shared
    obtain ⟨hw, hl | ⟨-, eventId, value, u, henc, hu, ht⟩⟩ := emit_error hemit
    · have hheld : s₁.window.Held env shard := hd.window ▸ hs
      exact ⟨hw ▸ hheld.of_entries rfl rfl, hlater.trans (Extends.of_later hl)⟩
    · obtain ⟨hheld, hip⟩ := howned hd henc
      have hstored : Extends env s.shared u :=
        hlater.trans ((Extends.persisted _ hip _ _).trans (Extends.of_later hu))
      refine ⟨hw ▸ hheld.of_entries rfl rfl, ?_⟩
      obtain ht | ht := ht
      · rw [ht]
        exact hstored
      · rw [ht]
        exact hstored.trans (Extends.published u hip (edgeOf_hot hd.changed) henc)

theorem settle_stamps (ip : Address) {config : DetectionConfig} (hhot : 0 ≤ config.hotThreshold) :
    Program.Within (Stamps env shard) (settle env ip config) :=
  Program.Within.bind (evaluate_stamps env shard ip hhot) fun _ => Program.Within.pure _

/-- A reading of the clock and a method of the window that keeps what it tracks. -/
theorem method_stamps {α : Type} (f : ℤ → ShardWindow → Except Failure (α × ShardWindow))
    (hf : ∀ now w a w', f now w = .ok (a, w') → w.Held env shard → w'.Held env shard) :
    Program.Within (Stamps env shard) (do
      let now ← Scope.outside (Shared.readClock env)
      Scope.inside (f now)) := by
  intro s hs
  rw [Program.bind_apply, readClock_apply]
  dsimp only
  unfold Scope.inside
  dsimp only
  have hlater : Extends env s.shared s.shared.advance := Extends.of_later (Shared.Later.advance _)
  cases h : f (env.now s.shared.tick) s.window with
  | error e => exact ⟨hs, hlater⟩
  | ok r => exact ⟨hf _ _ _ _ h hs, hlater⟩

theorem observe_stamps {ip : Address} (hip : ownerOf env ip = shard) (start delta : ℤ) :
    Program.Within (Stamps env shard) (observe env ip start delta) :=
  method_stamps env shard (fun now w => w.observe ip start delta now) fun _ _ _ _ h hs =>
    hs.observe hip h

theorem expireDue_stamps : Program.Within (Stamps env shard) (expireDue env) := by
  refine method_stamps env shard (fun now w => .ok (w.expireDue now)) ?_
  intro now w changes w' h hs
  rw [← (Prod.mk.inj (Except.ok.inj h)).2]
  exact hs.swept (ShardWindow.expireDue_swept w now)

theorem evictDue_stamps : Program.Within (Stamps env shard) (evictDue env) := by
  refine method_stamps env shard (fun now w => .ok (w.evictDue now)) ?_
  intro now w removed w' h hs
  rw [← (Prod.mk.inj (Except.ok.inj h)).2]
  exact hs.shrinks (ShardWindow.evictDue_shrinks w now)

theorem finishWarmupIfDue_stamps : Program.Within (Stamps env shard) (finishWarmupIfDue env) := by
  intro s hs
  obtain ⟨t, ht, hw, hl, -⟩ | ⟨u, -, -, ht⟩ := finishWarmupIfDue_ok env s
  · rw [ht, Program.after_ok]
    exact ⟨hw ▸ hs, Extends.of_later hl⟩
  · rw [ht, Program.after_ok]
    exact ⟨hs.finishWarmup, Extends.of_later (Shared.Later.advance _)⟩

theorem iterate_stamps (ips : Finset Address) :
    Program.Within (Stamps env shard) (Scope.outside (Shared.iterate env ips)) :=
  fun s hs => ⟨hs, Extends.of_later (Shared.Later.advance s.shared)⟩

theorem adoptConfig_stamps (config : DetectionConfig) :
    Program.Within (Stamps env shard) (adoptConfig env config) := by
  intro s hs
  rw [adoptConfig_eq]
  have hadopted : ShardWindow.Held env shard { s.window with config := config } :=
    hs.of_entries rfl rfl
  split_ifs
  · rw [Program.after_zoom]
    exact ⟨hadopted.rebuildAll config _, Extends.of_later (Shared.Later.advance _)⟩
  · exact ⟨hadopted, Extends.refl env _⟩

theorem countObservation_stamps {entry : Observation} (hentry : ownerOf env entry.ip = shard)
    (windowStart : ℤ) {config : DetectionConfig} (hhot : 0 ≤ config.hotThreshold) :
    Program.Within (Stamps env shard) (countObservation env windowStart entry config) :=
  Program.Within.bind Program.Within.get fun _ =>
    Program.Within.bind (observe_stamps env shard hentry _ _) fun _ =>
      settle_stamps env shard entry.ip hhot

theorem maintainWindow_stamps {config : DetectionConfig} (hhot : 0 ≤ config.hotThreshold) :
    Program.Within (Stamps env shard) (maintainWindow env config) := by
  refine Program.Within.bind ?_ fun _ => Program.Within.bind ?_ fun _ => ?_
  · refine Program.Within.bind (expireDue_stamps env shard) fun changes =>
      Program.Within.forM changes fun change _ => ?_
    split_ifs
    · exact settle_stamps env shard change.ip hhot
    · exact Program.Within.pure _
  · refine Program.Within.bind (finishWarmupIfDue_stamps env shard) fun _ =>
      Program.Within.bind (iterate_stamps env shard _) fun ips =>
        Program.Within.forM ips fun ip _ => settle_stamps env shard ip hhot
  · exact Program.Within.bind (evictDue_stamps env shard) fun _ => Program.Within.pure _

theorem reevaluateShard_stamps {config : DetectionConfig} (hhot : 0 ≤ config.hotThreshold)
    (batchSize : ℤ) : Program.Within (Stamps env shard) (reevaluateShard env config batchSize) := by
  unfold reevaluateShard
  split_ifs
  · exact Program.Within.throw _
  · refine Program.Within.bind Program.Within.get fun _ =>
      Program.Within.bind (iterate_stamps env shard _) fun targets =>
        Program.Within.foldlM targets 0 fun _ ip _ => ?_
    exact Program.Within.bind (evaluate_stamps env shard ip hhot) fun _ => Program.Within.pure _

end Programs

/-! ### The operations of a worker -/

/-- The thresholds in force are not negative, and every claimed window is held. -/
structure World.Held (env : Env) (s : World) : Prop where
  hot : 0 ≤ s.worker.config.hotThreshold
  windows : ∀ shard w, s.worker.claims.windows.get? shard = some w → w.Held env shard

/-- What an operation of a worker does: the claimed shards stay the same and are held, the log and the
store grow, the leases are renewed, and nothing of another shard's own happens. -/
structure World.Stamped (env : Env) (s t : World) : Prop where
  held : World.Held env t
  keys : t.worker.claims.windows.keys = s.worker.claims.windows.keys
  owner : t.worker.claims.leaseOwner = s.worker.claims.leaseOwner
  grows : Grows env s.shared t.shared
  renews : Renews env s.worker.claims.leaseOwner s.shared t.shared
  foreign : ∀ shard ∉ s.worker.claims.windows.keys, Foreign env shard s.shared t.shared

/-- The same, for an operation of a worker that holds its windows. -/
def World.Stamps (env : Env) (s t : World) : Prop := World.Held env s → World.Stamped env s t

instance : Std.Refl (World.Stamps env) :=
  ⟨fun _ hs =>
    ⟨hs, rfl, rfl, Grows.refl env _, Renews.refl env _ _, fun _ _ => Foreign.refl _ _ _⟩⟩

instance : IsTrans World (World.Stamps env) := by
  refine ⟨fun s t u hst htu hs => ?_⟩
  have ht := hst hs
  have hu := htu ht.held
  refine ⟨hu.held, hu.keys.trans ht.keys, hu.owner.trans ht.owner, ht.grows.trans hu.grows,
    ht.renews.trans (ht.owner ▸ hu.renews), fun shard hshard => ?_⟩
  exact (ht.foreign shard hshard).trans (hu.foreign shard (ht.keys ▸ hshard))

/-- The hot-ip topic is the same. -/
def World.SameHotIp (s t : World) : Prop := t.shared.hotIp = s.shared.hotIp

instance : Std.Refl World.SameHotIp := ⟨fun _ => rfl⟩

instance : IsTrans World World.SameHotIp := ⟨fun _ _ _ h h' => Eq.trans h' h⟩

section Operations

variable (env)

/-- A program on what surrounds the worker that leaves the hot-ip log and renews leases at most. -/
theorem aside_stamps {α : Type} {m : Program Failure World α} (hm : Program.Within (Aside env) m)
    (hlog : Program.Within SameHotIp m)
    (hrenews : ∀ owner, Program.Within (Acting (Renews env owner) owner) m) :
    Program.Within (World.Stamps env) m := by
  intro s hs
  have ha := hm s
  obtain ⟨howner, hleases⟩ := hrenews s.worker.claims.leaseOwner s rfl
  refine ⟨⟨?_, ?_⟩, by rw [ha.worker], howner, ?_, hleases, fun shard _ => ha.foreign shard⟩
  · rw [ha.worker]
    exact hs.hot
  · rw [ha.worker]
    exact hs.windows
  · exact .of_same (congrArg Topic.log (hlog s)) fun shard => (ha.foreign shard).load

/-- A call whose effect leaves the hot-ip log. -/
theorem call_sameHotIp {α : Type} (effect : Shared → Except Failure (α × Shared))
    (h : ∀ s a t, effect s = .ok (a, t) → t.hotIp = s.hotIp) :
    Program.Within SameHotIp (World.outside (Shared.call env effect)) :=
  Program.Within.zoom (Shared.call_within (R := fun s t => t.hotIp = s.hotIp)
    (fun _ _ _ h h' => h'.trans h) (fun _ => rfl) h) fun _ _ h => h

theorem readClock_stamps :
    Program.Within (World.Stamps env) (World.outside (Shared.readClock env)) := by
  refine aside_stamps env (readClock_aside env) (fun _ => rfl) fun owner => Acting.outside ?_
  exact fun s => .of_leases (Nat.le_succ s.tick) rfl

theorem publishReconciliation_stamps (key value : Bytes) (messageId : String) :
    Program.Within (World.Stamps env)
      (World.outside (Shared.publishReconciliation env key value messageId)) := by
  refine aside_stamps env (publishReconciliation_aside env key value messageId)
    (call_sameHotIp env _ fun s a t h => ?_) fun owner => Acting.outside ?_
  · cases h
    rfl
  · refine Shared.call_within (R := Renews env owner) (fun _ _ _ => Renews.trans)
      (fun s => .of_leases (Nat.le_succ s.tick) rfl) fun s a t h => ?_
    cases h
    exact .of_leases le_rfl rfl

theorem renewLeases_stamps : Program.Within (World.Stamps env) (renewLeases env) := by
  refine aside_stamps env (renewLeases_aside env) ?_ (renewLeases_acting env)
  refine Program.Within.bind Program.Within.get fun _ => Program.Within.forM _ fun shard _ => ?_
  refine Program.Within.bind
    (call_sameHotIp env _ fun _ _ _ h => (Shared.acquireLease_effect h).1) fun answer => ?_
  cases answer with
  | none => exact Program.Within.pure _
  | some owner => exact Program.Within.throw _

theorem markHandled_stamps (message : ConsumedMessage) :
    Program.Within (World.Stamps env) (modifyClaims fun claims => claims.markHandled message) := by
  intro s hs
  unfold World.modifyClaims
  dsimp only
  cases h : s.worker.claims.markHandled message with
  | error e => exact refl (r := World.Stamps env) s hs
  | ok claims =>
    have hwindows := markHandled_windows h
    have howner : claims.leaseOwner = s.worker.claims.leaseOwner := by
      unfold ShardClaims.markHandled at h
      split_ifs at h
      cases h
      rfl
    refine ⟨⟨hs.hot, ?_⟩, congrArg Dict.keys hwindows, howner, Grows.refl env _,
      Renews.refl env _ _, fun _ _ => Foreign.refl _ _ _⟩
    intro shard w hw
    refine hs.windows shard w ?_
    rw [← hwindows]
    exact hw

/-- A program on one window. -/
theorem onWindow_stamps {α : Type} {shard : ℕ} {m : Program Failure Scope α}
    (hm : Program.Within (Stamps env shard) m) (hlocal : Program.Within (Local env) m) :
    Program.Within (World.Stamps env) (onWindow shard m) := by
  intro s hs
  unfold World.onWindow
  cases hw : s.worker.claims.windows.get? shard with
  | none => exact refl (r := World.Stamps env) s hs
  | some w =>
    have hheld := hs.windows shard w hw
    have hkey : shard ∈ s.worker.claims.windows.keys := Dict.mem_keys_iff.mpr ⟨w, hw⟩
    obtain ⟨hafter, hextends⟩ := hm ⟨s.shared, w⟩ hheld
    dsimp only
    rw [Program.after_zoom]
    refine ⟨⟨hs.hot, ?_⟩, Dict.keys_set_of_mem _ _ hkey, rfl, hextends.toGrows,
      .of_leases hextends.tick hextends.leases, fun other hother => ?_⟩
    · intro other w' hw'
      have hget : (s.worker.claims.windows.set shard
          (Program.after (m ⟨s.shared, w⟩)).window).get? other = some w' := hw'
      rw [Dict.get?_set] at hget
      split_ifs at hget with hsame
      · cases hget
        exact hsame ▸ hafter
      · exact hs.windows other w' hget
    · refine (hlocal ⟨s.shared, w⟩).foreign other fun heq => hother ?_
      rw [heq, show (⟨s.shared, w⟩ : Scope).window.shard = shard from hheld.shard_eq]
      exact hkey

theorem handleObservation_stamps {message : ConsumedMessage} {entry : Observation}
    (hentry : ownerOf env entry.ip = message.partition) (eventId : String)
    (payload : RequestObservation) :
    Program.Within (World.Stamps env) (handleObservation env message eventId payload entry) := by
  have hend : ∀ outcome : ObservationOutcome, Program.Within (World.Stamps env) (do
      modifyClaims fun claims => claims.markHandled message
      pure outcome) := fun outcome =>
    Program.Within.bind (markHandled_stamps env message) fun _ => Program.Within.pure _
  have happly : Program.Within (World.Stamps env)
      (applyObservation env message.partition payload.windowStart entry) := fun t ht =>
    onWindow_stamps env (countObservation_stamps env _ hentry _ ht.hot)
      (countObservation_local env _ _ _) t ht
  refine Program.Within.bind (readClock_stamps env) fun now =>
    Program.Within.bind Program.Within.get fun s => ?_
  split
  · exact Program.Within.bind happly fun _ => hend _
  · exact Program.Within.bind (publishReconciliation_stamps env _ _ _) fun _ => hend _

theorem handle_stamps {message : ConsumedMessage} (hmessage : message.Routed) :
    Program.Within (World.Stamps env) (handle env message) := by
  refine Program.Within.bind Program.Within.get fun s => ?_
  have mark : ∀ outcome : ObservationOutcome, Program.Within (World.Stamps env) (do
      modifyClaims fun claims => claims.markHandled message
      pure outcome) := fun outcome =>
    Program.Within.bind (markHandled_stamps env message) fun _ => Program.Within.pure _
  dsimp only
  split_ifs
  · exact Program.Within.pure _
  · exact mark _
  · split
    · exact mark _
    · next eventId payload entry hdecode =>
      exact handleObservation_stamps env (hmessage.owner hdecode) _ _
  · exact Program.Within.pure _

theorem runMaintenance_stamps : Program.Within (World.Stamps env) (runMaintenance env) := by
  intro s hs
  have hrest : Program.Within (World.Stamps env) (do
      renewLeases env
      s.worker.claims.windows.keys.forM fun shard =>
        onWindow shard (maintainWindow env s.worker.config)) :=
    Program.Within.bind (renewLeases_stamps env) fun _ => Program.Within.forM _ fun shard _ =>
      onWindow_stamps env (maintainWindow_stamps env shard hs.hot) (maintainWindow_local env _)
  unfold runMaintenance
  rw [Program.bind_apply]
  show World.Stamped env s (Program.after
    ((if s.worker.stopping = true then pure ⟨⟩ else _ : Program Failure World PUnit) s))
  by_cases hstop : s.worker.stopping = true
  · rw [if_pos hstop]
    exact refl (r := World.Stamps env) s hs
  · rw [if_neg hstop]
    exact hrest s hs

theorem applyConfig_stamps {config : DetectionConfig} (hhot : 0 ≤ config.hotThreshold) :
    Program.Within (World.Stamps env) (applyConfig env config) := by
  refine Program.Within.bind Program.Within.get fun s => ?_
  dsimp only
  split_ifs
  · exact Program.Within.pure _
  · refine Program.Within.bind (Program.Within.forM _ fun shard _ =>
      onWindow_stamps env (adoptConfig_stamps env shard config) (adoptConfig_local env config))
      fun _ => Program.Within.bind (Program.Within.forM _ fun shard _ => ?_) fun _ =>
        Program.Within.bind ?_ fun _ => ?_
    · exact Program.Within.bind (onWindow_stamps env
        (reevaluateShard_stamps env shard hhot _) (reevaluateShard_local env config _))
        fun _ => Program.Within.pure _
    · exact fun t ht => ⟨⟨hhot, ht.windows⟩, rfl, rfl, Grows.refl env _, Renews.refl env _ _,
        fun _ _ => Foreign.refl _ _ _⟩
    · exact fun t ht => ⟨⟨ht.hot, ht.windows⟩, rfl, rfl, Grows.refl env _, Renews.refl env _ _,
        fun _ _ => Foreign.refl _ _ _⟩

/-- A message that is handled is in the partition of its key. -/
def Operation.Routed : Operation → Prop
  | .handle message => message.Routed
  | _ => True

/-- Every operation of a worker, whether it returns or raises. -/
theorem program_stamps {operation : Operation} (hrouted : operation.Routed)
    (hadmitted : operation.Admitted fun config => 0 ≤ config.hotThreshold) :
    Program.Within (World.Stamps env) (operation.program env) := by
  cases operation with
  | handle message =>
    exact Program.Within.bind (handle_stamps env hrouted) fun _ => Program.Within.pure _
  | runMaintenance => exact runMaintenance_stamps env
  | applyConfig config => exact applyConfig_stamps env hadmitted

end Operations

end Hammertime.Aggregator
