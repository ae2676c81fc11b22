import Hammertime.Aggregator.WindowRuns
import Hammertime.Aggregator.Consistency

/-!
# What becomes of an observation

`_handle` reads the clock twice: once to classify the observation, and again in `ShardWindow.observe`.
What `observe` answers is not looked at. An observation that was classified as applied and whose
bucket leaves the window in between is then neither counted nor diverted, and its message is marked
handled. `accounted_iff` says that this is the only way to lose one, besides a diversion under an id
that the reconciliation log has had with other bytes.
-/

namespace Hammertime.Aggregator

open Lib World

variable {env : Env}

/-! ### Evaluating keeps the counters -/

/-- The configuration and the counters are those of before. -/
structure ShardWindow.SameCounters (w w' : ShardWindow) : Prop where
  config : w'.config = w.config
  counter : ∀ ip, (w'.entries.get? ip).map Entry.counter = (w.entries.get? ip).map Entry.counter

namespace ShardWindow.SameCounters

theorem refl (w : ShardWindow) : SameCounters w w := ⟨rfl, fun _ => rfl⟩

theorem trans {w w' w'' : ShardWindow} (h : SameCounters w w') (h' : SameCounters w' w'') :
    SameCounters w w'' :=
  ⟨h'.config.trans h.config, fun ip => (h'.counter ip).trans (h.counter ip)⟩

theorem setState {w w' : ShardWindow} {ip : Address} {state : IpState}
    (h : w.setState ip state = .ok w') : SameCounters w w' := by
  obtain ⟨entry, hentry, hframed, hentries⟩ := setState_ok h
  refine ⟨hframed.config, fun ip' => ?_⟩
  rw [hentries, Dict.get?_set]
  split_ifs with hip
  · rw [← hip, hentry]
    rfl
  · rfl

theorem taken (w : ShardWindow) : SameCounters w w.taken := ⟨rfl, fun _ => rfl⟩

end ShardWindow.SameCounters

/-- What surrounds the worker may have changed, and the states of the IPs. -/
def Scope.SameCounters (s t : Scope) : Prop := s.window.SameCounters t.window

instance : Std.Refl Scope.SameCounters := ⟨fun s => .refl s.window⟩

instance : IsTrans Scope Scope.SameCounters := ⟨fun _ _ _ => ShardWindow.SameCounters.trans⟩

/-- An evaluation, returning or raising, changes the state of an IP and no counter. -/
theorem evaluate_sameCounters (env : Env) (ip : Address) (config : DetectionConfig) :
    Program.Within Scope.SameCounters (evaluate env ip config) := by
  intro s
  unfold Scope.SameCounters
  cases h : evaluate env ip config s with
  | ok r t =>
    obtain ⟨-, hw, -⟩ | ⟨s₁, emitted, -, hdecided, hemit⟩ := evaluate_ok h
    · rw [Program.after_ok, hw]
      exact .refl _
    · obtain ⟨eventId, value, w', -, hset, rfl, -⟩ := emit_ok hemit
      rw [hdecided.window] at hset
      exact (ShardWindow.SameCounters.taken _).trans (.setState hset)
  | error e t =>
    obtain ⟨s₁, hdecided, hemit⟩ := evaluate_error h
    rw [Program.after_error, (emit_error hemit).1, hdecided.window]
    exact .taken _

theorem settle_sameCounters (env : Env) (ip : Address) (config : DetectionConfig) :
    Program.Within Scope.SameCounters (settle env ip config) :=
  Program.Within.bind (evaluate_sameCounters env ip config) fun _ => Program.Within.pure _

/-! ### What a message is owed -/

/-- The log has not delivered the message before, as far as the handled position tells. -/
def First (s : World) (message : ConsumedMessage) : Prop :=
  (s.worker.claims.positions.get? message.partition).any (message.offset < ·) = false

/-- The count of the message's entry was added to the IP's bucket in the shard's window. -/
def Counted (env : Env) (message : ConsumedMessage) (s t : World) : Prop :=
  ∃ eventId payload entry w change w₁,
    decodeObservation env message = some (eventId, payload, entry) ∧
    s.worker.claims.windows.get? message.partition = some w ∧
    w.observe entry.ip (bucketStart payload.windowStart w.config.bucketSeconds) entry.requestCount
      (env.now (s.shared.tick + 1)) = .ok (some change, w₁) ∧
    ∃ old w' entry', w.counterOf entry.ip = .ok old ∧
      t.worker.claims.windows.get? message.partition = some w' ∧
      w'.entries.get? entry.ip = some entry' ∧
      entry'.counter.held (bucketStart payload.windowStart w.config.bucketSeconds) =
        old.held (bucketStart payload.windowStart w.config.bucketSeconds) + entry.requestCount

/-- The windows are untouched, and the consumed bytes were published to the reconciliation topic
under the same key and are in its log. -/
def Diverted (env : Env) (message : ConsumedMessage) (s t : World) : Prop :=
  ∃ eventId payload entry, decodeObservation env message = some (eventId, payload, entry) ∧
    t.worker.claims.windows = s.worker.claims.windows ∧
    ∃ key, message.key = some key ∧
      t.shared.reconciliation = s.shared.reconciliation.append key message.value eventId ∧
      ⟨key, message.value⟩ ∈ t.shared.reconciliation.log

/-- The outcomes for which an observation goes to the reconciliation topic. -/
def ObservationOutcome.diverts : ObservationOutcome → Bool
  | .late | .future | .expiredBucket | .windowTooLong => true
  | .applied | .malformed | .unclaimed | .redelivered => false

/-- What `handle` answers is what it did: what is applied is counted, what is not is diverted, and
a well-formed first delivery that is marked handled is one or the other. -/
structure Accounted (env : Env) (message : ConsumedMessage) (s : World)
    (outcome : ObservationOutcome) (t : World) : Prop where
  applied : outcome = .applied → Counted env message s t
  diverted : outcome.diverts = true → Diverted env message s t
  neverNeither : First s message → decodeObservation env message ≠ none →
    t.worker.claims.handled = s.worker.claims.handled ++ [message] →
    Counted env message s t ∨ Diverted env message s t

/-- The state and the clock let no observation get lost: one that is classified as applied has its
bucket still live when the clock is read again, and one that is not is new to the reconciliation
topic, or in its log already. -/
def KeepsTrack (env : Env) (message : ConsumedMessage) (s : World) : Prop :=
  s.worker.stopping = false → First s message → ∀ eventId payload entry w,
    decodeObservation env message = some (eventId, payload, entry) →
    s.worker.claims.windows.get? message.partition = some w →
    (classifyObservation payload.windowStart payload.windowSeconds (env.now s.shared.tick)
        s.worker.config = .applied →
      ∃ counter, w.counterOf entry.ip = .ok counter ∧
        counter.isLive (bucketStart payload.windowStart w.config.bucketSeconds)
          (env.now (s.shared.tick + 1)) = true) ∧
    (classifyObservation payload.windowStart payload.windowSeconds (env.now s.shared.tick)
        s.worker.config ≠ .applied →
      eventId ∉ s.shared.reconciliation.seenIds ∨
        ⟨utf8 (env.text entry.ip), message.value⟩ ∈ s.shared.reconciliation.log)

/-! ### The branches of `handle` -/

theorem classifyObservation_diverts {windowStart windowSeconds now : ℤ} {config : DetectionConfig} :
    (classifyObservation windowStart windowSeconds now config).diverts = true ↔
      classifyObservation windowStart windowSeconds now config ≠ .applied := by
  unfold classifyObservation
  split_ifs <;> decide

theorem handle_stopping {message : ConsumedMessage} {s : World} (hstop : s.worker.stopping = true) :
    handle env message s = .ok .unclaimed s := by
  unfold handle
  rw [Program.bind_apply]
  show (if s.worker.stopping = true then _ else _ : Program Failure World ObservationOutcome) s = _
  rw [if_pos hstop]
  rfl

/-- Marking it handled is all that is done with a message that was redelivered. -/
theorem handle_redelivered {message : ConsumedMessage} {s : World}
    (hrun : s.worker.stopping = false)
    (hheld : s.worker.claims.windows.contains message.partition = true)
    (hagain : ¬ First s message) :
    handle env message s = (do
      modifyClaims fun claims => claims.markHandled message
      pure .redelivered : Program Failure World ObservationOutcome) s := by
  unfold handle
  rw [Program.bind_apply]
  show (if s.worker.stopping = true then _ else _ : Program Failure World ObservationOutcome) s = _
  rw [if_neg (by rw [hrun]; exact Bool.false_ne_true), if_neg (not_not.mpr hheld),
    if_pos (Bool.eq_true_of_not_eq_false hagain)]

/-- Marking it handled is all that is done with a message that is malformed. -/
theorem handle_malformed {message : ConsumedMessage} {s : World}
    (hrun : s.worker.stopping = false)
    (hheld : s.worker.claims.windows.contains message.partition = true)
    (hfirst : First s message) (hdecode : decodeObservation env message = none) :
    handle env message s = (do
      modifyClaims fun claims => claims.markHandled message
      pure .malformed : Program Failure World ObservationOutcome) s := by
  unfold handle
  rw [Program.bind_apply]
  show (if s.worker.stopping = true then _ else _ : Program Failure World ObservationOutcome) s = _
  rw [if_neg (by rw [hrun]; exact Bool.false_ne_true), if_neg (not_not.mpr hheld),
    if_neg (by rw [hfirst]; exact Bool.false_ne_true), hdecode]

/-- A held shard's message is taken up, or it is left for what it is. -/
theorem handle_cases {message : ConsumedMessage} {s t : World} {outcome : ObservationOutcome}
    (hheld : s.worker.claims.windows.contains message.partition = true)
    (h : handle env message s = .ok outcome t) :
    (s.worker.stopping = true ∧ outcome = .unclaimed ∧ t = s) ∨
      (¬ First s message ∧ outcome = .redelivered) ∨
      (decodeObservation env message = none ∧ outcome = .malformed) ∨
      ∃ eventId payload entry, s.worker.stopping = false ∧ First s message ∧
        decodeObservation env message = some (eventId, payload, entry) ∧
        handleObservation env message eventId payload entry s = .ok outcome t := by
  cases hstop : s.worker.stopping with
  | true =>
    rw [handle_stopping hstop] at h
    cases h
    exact Or.inl ⟨rfl, rfl, rfl⟩
  | false =>
    by_cases hfirst : First s message
    · cases hdecode : decodeObservation env message with
      | some decoded =>
        rw [handle_decoded hstop hheld hfirst hdecode] at h
        exact Or.inr (Or.inr (Or.inr ⟨_, _, _, rfl, hfirst, rfl, h⟩))
      | none =>
        rw [handle_malformed hstop hheld hfirst hdecode] at h
        obtain ⟨_, _, -, h⟩ := Program.bind_ok.mp h
        cases h
        exact Or.inr (Or.inr (Or.inl ⟨rfl, rfl⟩))
    · rw [handle_redelivered hstop hheld hfirst] at h
      obtain ⟨_, _, -, h⟩ := Program.bind_ok.mp h
      cases h
      exact Or.inr (Or.inl ⟨hfirst, rfl⟩)

/-- What counting an observation does when it returns. -/
theorem countObservation_ok {windowStart : ℤ} {entry : Observation} {config : DetectionConfig}
    {scope scope' : Scope} (h : countObservation env windowStart entry config scope = .ok ⟨⟩ scope') :
    ∃ change w₁, scope.window.observe entry.ip
        (bucketStart windowStart scope.window.config.bucketSeconds) entry.requestCount
        (env.now scope.shared.tick) = .ok (change, w₁) ∧ w₁.SameCounters scope'.window := by
  obtain ⟨_, _, hget, h⟩ := Program.bind_ok.mp h
  cases hget
  obtain ⟨change, scope₁, hobserve, h⟩ := Program.bind_ok.mp h
  obtain ⟨hw, -⟩ := observe_ok hobserve
  exact ⟨change, scope₁.window, hw, (settle_sameCounters env entry.ip config).of_ok h⟩

/-- An observation that is not applied is diverted, and then the message is marked. -/
theorem handleObservation_diverted {message : ConsumedMessage} {s : World} {eventId : String}
    {payload : RequestObservation} {entry : Observation}
    (hclass : classifyObservation payload.windowStart payload.windowSeconds
      (env.now s.shared.tick) s.worker.config ≠ .applied) :
    handleObservation env message eventId payload entry s =
      (do
        World.outside (Shared.publishReconciliation env (utf8 (env.text entry.ip)) message.value
          eventId)
        modifyClaims fun claims => claims.markHandled message
        pure (classifyObservation payload.windowStart payload.windowSeconds
          (env.now s.shared.tick) s.worker.config) : Program Failure World ObservationOutcome)
        { s with shared := s.shared.advance } := by
  unfold handleObservation
  show (match classifyObservation payload.windowStart payload.windowSeconds
      (env.now s.shared.tick) s.worker.config with
    | _ => _ : Program Failure World ObservationOutcome) { s with shared := s.shared.advance } = _
  generalize classifyObservation payload.windowStart payload.windowSeconds
    (env.now s.shared.tick) s.worker.config = outcome at hclass ⊢
  cases outcome with
  | applied => exact absurd rfl hclass
  | _ => rfl

/-- An observation that is applied has been given to the window, and one that is not has been
diverted. -/
theorem handleObservation_ok {message : ConsumedMessage} {s t : World} {eventId : String}
    {payload : RequestObservation} {entry : Observation} {outcome : ObservationOutcome}
    (h : handleObservation env message eventId payload entry s = .ok outcome t) :
    outcome = classifyObservation payload.windowStart payload.windowSeconds (env.now s.shared.tick)
        s.worker.config ∧
      ((outcome = .applied ∧ ∃ w change w₁ w',
          s.worker.claims.windows.get? message.partition = some w ∧
          w.observe entry.ip (bucketStart payload.windowStart w.config.bucketSeconds)
            entry.requestCount (env.now (s.shared.tick + 1)) = .ok (change, w₁) ∧
          w₁.SameCounters w' ∧ t.worker.claims.windows.get? message.partition = some w') ∨
        (outcome ≠ .applied ∧ t.worker.claims.windows = s.worker.claims.windows ∧
          t.shared.reconciliation = s.shared.reconciliation.append (utf8 (env.text entry.ip))
            message.value eventId)) := by
  have hmarks : ∀ {u v : World}, modifyClaims (fun claims => claims.markHandled message) u =
      .ok ⟨⟩ v → v.shared = u.shared ∧ v.worker.claims.windows = u.worker.claims.windows := by
    intro u v hmark
    unfold modifyClaims at hmark
    split at hmark
    · next claims hclaims =>
      cases hmark
      exact ⟨rfl, markHandled_windows hclaims⟩
    · cases hmark
  by_cases hclass : classifyObservation payload.windowStart payload.windowSeconds
      (env.now s.shared.tick) s.worker.config = .applied
  · rw [handleObservation_applied hclass] at h
    obtain ⟨⟨⟩, u, hwindow, h⟩ := Program.bind_ok.mp h
    obtain ⟨⟨⟩, v, hmark, h⟩ := Program.bind_ok.mp h
    cases h
    obtain ⟨w, scope, hw, hcount, rfl⟩ := onWindow_ok.mp hwindow
    obtain ⟨change, w₁, hobserve, hsame⟩ := countObservation_ok hcount
    refine ⟨hclass.symm, Or.inl ⟨rfl, w, change, w₁, scope.window, hw, hobserve, hsame, ?_⟩⟩
    rw [(hmarks hmark).2]
    exact Dict.get?_set_self _ _ _
  · rw [handleObservation_diverted hclass] at h
    obtain ⟨⟨⟩, u, hpublish, h⟩ := Program.bind_ok.mp h
    obtain ⟨⟨⟩, v, hmark, h⟩ := Program.bind_ok.mp h
    cases h
    obtain ⟨shared, hpublished, rfl⟩ := Program.zoom_ok.mp hpublish
    obtain ⟨-, rfl⟩ := Shared.call_ok rfl hpublished
    obtain ⟨hshared, hwindows⟩ := hmarks hmark
    exact ⟨rfl, Or.inr ⟨hclass, hwindows, by rw [hshared]; rfl⟩⟩

/-- What is given to the window is counted where the bucket is live, and there only. -/
theorem observe_change {w w₁ : ShardWindow} {ip : Address} {start delta now : ℤ}
    {change : Option WindowChange} (h : w.observe ip start delta now = .ok (change, w₁)) :
    (change = none ∧ ∃ counter, w.counterOf ip = .ok counter ∧ counter.isLive start now = false) ∨
      ∃ counter changed entry', w.counterOf ip = .ok counter ∧
        counter.isLive start now = true ∧ change = some changed ∧ w₁.entries.get? ip = some entry' ∧
        entry'.counter.held start = counter.held start + delta := by
  obtain ⟨rfl, -, hdead⟩ | ⟨c, c', entry', hget, hfresh, ho, hentry', rfl, rfl⟩ |
    ⟨entry, c', entry', hget, ho, hentry', rfl, rfl⟩ := ShardWindow.observe_inv h
  · exact Or.inl ⟨rfl, hdead⟩
  · obtain ⟨haligned, hdelta, hlive, rfl⟩ := IpCounter.observe_true ho
    refine Or.inr ⟨c, _, entry', ?_, hlive, rfl, ?_, ?_⟩
    · unfold ShardWindow.counterOf
      rw [hget]
      exact hfresh
    · rw [ShardWindow.scheduleExpiry_entries, ShardWindow.track_entries]
      exact Dict.get?_set_self _ _ _
    · rw [hentry']
      exact IpCounter.held_add_self haligned hdelta
  · obtain ⟨haligned, hdelta, hlive, rfl⟩ := IpCounter.observe_true ho
    refine Or.inr ⟨entry.counter, _, entry', ?_, hlive, rfl, ?_, ?_⟩
    · unfold ShardWindow.counterOf
      rw [hget]
    · rw [ShardWindow.scheduleExpiry_entries]
      exact Dict.get?_set_self _ _ _
    · rw [hentry']
      exact IpCounter.held_add_self haligned hdelta

/-- A message that decodes is keyed by the text of its IP. -/
theorem decodeObservation_key {message : ConsumedMessage} {eventId : String}
    {payload : RequestObservation} {entry : Observation}
    (h : decodeObservation env message = some (eventId, payload, entry)) :
    message.key = some (utf8 (env.text entry.ip)) := by
  unfold decodeObservation at h
  split at h
  · cases h
  · split at h
    · split at h
      · split_ifs at h with hsubject hkey
        cases h
        exact not_not.mp hkey
      · cases h
    · cases h

/-- A record is in the log after its publish, unless the topic has had its id with other bytes. -/
theorem mem_log_append {topic : Topic} {key value : Bytes} {id : String} :
    ⟨key, value⟩ ∈ (topic.append key value id).log ↔
      id ∉ topic.seenIds ∨ ⟨key, value⟩ ∈ topic.log := by
  unfold Topic.append
  split_ifs with hseen
  · simp [hseen]
  · simp [hseen]

/-- What `KeepsTrack` asks of a message that is taken up, at the window it goes to. -/
theorem keepsTrack_iff {message : ConsumedMessage} {s : World} {eventId : String}
    {payload : RequestObservation} {entry : Observation} {w : ShardWindow}
    (hrun : s.worker.stopping = false) (hfirst : First s message)
    (hdecode : decodeObservation env message = some (eventId, payload, entry))
    (hw : s.worker.claims.windows.get? message.partition = some w) :
    KeepsTrack env message s ↔
      (classifyObservation payload.windowStart payload.windowSeconds (env.now s.shared.tick)
          s.worker.config = .applied →
        ∃ counter, w.counterOf entry.ip = .ok counter ∧
          counter.isLive (bucketStart payload.windowStart w.config.bucketSeconds)
            (env.now (s.shared.tick + 1)) = true) ∧
      (classifyObservation payload.windowStart payload.windowSeconds (env.now s.shared.tick)
          s.worker.config ≠ .applied →
        eventId ∉ s.shared.reconciliation.seenIds ∨
          ⟨utf8 (env.text entry.ip), message.value⟩ ∈ s.shared.reconciliation.log) := by
  constructor
  · intro hkeeps
    exact hkeeps hrun hfirst eventId payload entry w hdecode hw
  · intro hkeeps _ _ eventId' payload' entry' w' hdecode' hw'
    rw [hdecode] at hdecode'
    cases hdecode'
    rw [hw] at hw'
    cases hw'
    exact hkeeps

/-- An observation that went to the window was counted when its bucket was live there. -/
theorem counted_iff {message : ConsumedMessage} {s t : World} {eventId : String}
    {payload : RequestObservation} {entry : Observation} {w w₁ w' : ShardWindow}
    {change : Option WindowChange}
    (hdecode : decodeObservation env message = some (eventId, payload, entry))
    (hw : s.worker.claims.windows.get? message.partition = some w)
    (hobserve : w.observe entry.ip (bucketStart payload.windowStart w.config.bucketSeconds)
      entry.requestCount (env.now (s.shared.tick + 1)) = .ok (change, w₁))
    (hsame : w₁.SameCounters w') (ht : t.worker.claims.windows.get? message.partition = some w') :
    Counted env message s t ↔ ∃ counter, w.counterOf entry.ip = .ok counter ∧
      counter.isLive (bucketStart payload.windowStart w.config.bucketSeconds)
        (env.now (s.shared.tick + 1)) = true := by
  constructor
  · rintro ⟨_, _, _, w₀, change₀, w₂, hdecode₀, hw₀, hobserve₀, -⟩
    rw [hdecode] at hdecode₀
    cases hdecode₀
    rw [hw] at hw₀
    cases hw₀
    obtain ⟨hnone, -⟩ | ⟨counter, -, -, hcounter, hlive, -⟩ := observe_change hobserve₀
    · cases hnone
    · exact ⟨counter, hcounter, hlive⟩
  · rintro ⟨counter, hcounter, hlive⟩
    obtain ⟨-, counter', hcounter', hdead⟩ |
      ⟨counter', changed, entry', hcounter', -, rfl, hentry', hheld'⟩ := observe_change hobserve
    · rw [hcounter] at hcounter'
      cases hcounter'
      rw [hlive] at hdead
      cases hdead
    · -- the evaluation that follows may change the entry's state, never its counter
      have hmap := hsame.counter entry.ip
      rw [hentry', Option.map_some, Option.map_eq_some_iff] at hmap
      obtain ⟨last, hlast, hsamecounter⟩ := hmap
      refine ⟨eventId, payload, entry, w, changed, w₁, hdecode, hw, hobserve, counter', w', last,
        hcounter', ht, hlast, ?_⟩
      rw [hsamecounter]
      exact hheld'

/-- A diversion is in the log when the topic has not dropped it as a duplicate of other bytes. -/
theorem diverted_iff {message : ConsumedMessage} {s t : World} {eventId : String}
    {payload : RequestObservation} {entry : Observation}
    (hdecode : decodeObservation env message = some (eventId, payload, entry))
    (hwindows : t.worker.claims.windows = s.worker.claims.windows)
    (hlog : t.shared.reconciliation = s.shared.reconciliation.append (utf8 (env.text entry.ip))
      message.value eventId) :
    Diverted env message s t ↔ eventId ∉ s.shared.reconciliation.seenIds ∨
      ⟨utf8 (env.text entry.ip), message.value⟩ ∈ s.shared.reconciliation.log := by
  have hkey := decodeObservation_key hdecode
  rw [← mem_log_append, ← hlog]
  constructor
  · rintro ⟨_, _, _, -, -, key, hkey₀, -, hmem⟩
    rw [hkey] at hkey₀
    cases hkey₀
    exact hmem
  · intro hmem
    exact ⟨eventId, payload, entry, hdecode, hwindows, _, hkey, hlog, hmem⟩

/-- **When no observation gets lost.** For a message of a held shard that `handle` returns from, what
is applied is counted and what is not is in the reconciliation log, exactly when the bucket is still
live at the second reading of the clock, or the diversion is not dropped as a duplicate of other
bytes. -/
theorem accounted_iff (env : Env) (message : ConsumedMessage) (s t : World)
    (outcome : ObservationOutcome)
    (hheld : s.worker.claims.windows.contains message.partition = true)
    (h : handle env message s = .ok outcome t) :
    Accounted env message s outcome t ↔ KeepsTrack env message s := by
  obtain ⟨hstop, rfl, rfl⟩ | ⟨hagain, rfl⟩ | ⟨hdecode, rfl⟩ |
    ⟨eventId, payload, entry, hrun, hfirst, hdecode, h⟩ := handle_cases hheld h
  -- left for what it is: nothing is owed
  · refine iff_of_true ⟨nofun, nofun, fun _ _ hmarked => ?_⟩ fun hrun => ?_
    · simp at hmarked
    · rw [hstop] at hrun
      cases hrun
  · exact iff_of_true ⟨nofun, nofun, fun hfirst => absurd hfirst hagain⟩
      fun _ hfirst => absurd hfirst hagain
  · refine iff_of_true ⟨nofun, nofun, fun _ hsome => absurd hdecode hsome⟩ ?_
    intro _ _ eventId payload entry w hsome
    rw [hdecode] at hsome
    cases hsome
  · obtain ⟨w, hw⟩ := Option.isSome_iff_exists.mp hheld
    rw [keepsTrack_iff hrun hfirst hdecode hw]
    obtain ⟨houtcome, ⟨happlied, w₀, change, w₁, w', hw₀, hobserve, hsame, ht⟩ |
      ⟨hdiverts, hwindows, hlog⟩⟩ := handleObservation_ok h
    · rw [hw] at hw₀
      cases hw₀
      rw [← counted_iff hdecode hw hobserve hsame ht, ← houtcome, happlied]
      constructor
      · intro haccounted
        exact ⟨haccounted.applied, fun hne => absurd rfl hne⟩
      · intro hkeeps
        exact ⟨hkeeps.1, nofun, fun _ _ _ => Or.inl (hkeeps.1 rfl)⟩
    · rw [← diverted_iff hdecode hwindows hlog, ← houtcome]
      constructor
      · intro haccounted
        refine ⟨fun happlied => absurd happlied hdiverts, fun _ => haccounted.diverted ?_⟩
        rw [houtcome] at hdiverts ⊢
        exact classifyObservation_diverts.mpr hdiverts
      · intro hkeeps
        exact ⟨fun happlied => absurd happlied hdiverts, fun _ => hkeeps.2 hdiverts,
          fun _ _ _ => Or.inr (hkeeps.2 hdiverts)⟩

/-! ### Two deliveries of one observation -/

/-- An observation that makes no edge: the message is answered as applied, whatever the window made
of it. -/
theorem handle_quiet {message : ConsumedMessage} {s : World} {eventId : String}
    {payload : RequestObservation} {entry : Observation} {w w' : ShardWindow}
    {change : Option WindowChange} (hrun : s.worker.stopping = false)
    (hw : s.worker.claims.windows.get? message.partition = some w) (hfirst : First s message)
    (hdecode : decodeObservation env message = some (eventId, payload, entry))
    (hclass : classifyObservation payload.windowStart payload.windowSeconds
      (env.now s.shared.tick) s.worker.config = .applied)
    (hobserve : w.observe entry.ip (bucketStart payload.windowStart w.config.bucketSeconds)
      entry.requestCount (env.now (s.shared.tick + 1)) = .ok (change, w'))
    (hquiet : (edgeOf w' entry.ip s.worker.config).current = w'.state entry.ip) :
    ∃ t, handle env message s = .ok .applied t ∧
      t.worker.claims.windows.get? message.partition = some w' ∧
      t.shared.reconciliation = s.shared.reconciliation := by
  obtain ⟨scope, hwindow, hlater, ⟨hdecide, -⟩ | ⟨-, hne, -⟩⟩ :=
    decideEdge_ok env ⟨s.shared.advance.advance, w'⟩ entry.ip s.worker.config
  · have hcount : countObservation env payload.windowStart entry s.worker.config
        ⟨s.shared.advance, w⟩ = .ok ⟨⟩ scope := by
      refine Program.bind_ok.mpr ⟨_, _, rfl, Program.bind_ok.mpr ⟨change,
        ⟨s.shared.advance.advance, w'⟩, Program.bind_ok.mpr ⟨_, _, rfl,
          inside_ok.mpr ⟨w', hobserve, rfl⟩⟩, Program.bind_ok.mpr ⟨none, scope, ?_, rfl⟩⟩⟩
      exact Program.bind_ok.mpr ⟨none, scope, hdecide, rfl⟩
    generalize hu : ({ s with shared := s.shared.advance } : World).setWindow message.partition
      scope = u
    have hwritten : u.worker.claims.windows.get? message.partition = some scope.window := by
      rw [← hu]
      exact Dict.get?_set_self _ _ _
    obtain ⟨claims, hmark⟩ : ∃ claims, u.worker.claims.markHandled message = .ok claims :=
      ⟨_, if_pos (congrArg Option.isSome hwritten)⟩
    refine ⟨{ u with worker := { u.worker with claims := claims } }, ?_, ?_, ?_⟩
    · rw [handle_decoded hrun (congrArg Option.isSome hw) hfirst hdecode,
        handleObservation_applied hclass]
      refine Program.bind_ok.mpr ⟨⟨⟩, u, onWindow_ok.mpr ⟨w, scope, hw, hcount, hu.symm⟩,
        Program.bind_ok.mpr ⟨⟨⟩, _, ?_, rfl⟩⟩
      unfold modifyClaims
      dsimp only
      rw [hmark]
    · show claims.windows.get? message.partition = some w'
      rw [markHandled_windows hmark, hwritten, hwindow]
    · show u.shared.reconciliation = s.shared.reconciliation
      rw [← hu]
      exact hlater.reconciliation
  · exact absurd hquiet hne

/-- A claim of an empty shard under the defaults, and the first message of its log. -/
theorem exists_first_message (now : ℕ → ℤ) :
    ∃ (message : ConsumedMessage) (eventId : String) (s : World) (w : ShardWindow),
      ShardWindow.make 0 Ingest.defaultConfig (now 2) [] 0 1000 = .ok w ∧
      Started (interpreterEnv now fun _ => .returns) (sharedWith ∅ 0) Ingest.defaultConfig 1000 s ∧
      s.shared.tick = 4 ∧ s.worker.stopping = false ∧ s.worker.config = Ingest.defaultConfig ∧
      s.worker.claims.windows.get? message.partition = some w ∧ First s message ∧
      decodeObservation (interpreterEnv now fun _ => .returns) message =
        some (eventId, ⟨0, 10, [⟨⟨.ipv4, 1, by decide⟩, 5⟩]⟩, ⟨⟨.ipv4, 1, by decide⟩, 5⟩) := by
  obtain ⟨message, eventId, hpartition, hoffset, hdecode⟩ := exists_delivery
    (Codec.libraryWith none (by simp)) rfl now (fun _ => .returns)
    (show datetimeRange 0 = true by decide) (show (1 : ℤ) ≤ 10 ∧ (10 : ℤ) ≤ 3600 by decide)
    ⟨⟨.ipv4, 1, by decide⟩, 5⟩ (by decide) 0 0
  obtain ⟨w, hmake⟩ : ∃ w, ShardWindow.make 0 Ingest.defaultConfig (now 2) [] 0 1000 = .ok w :=
    ⟨_, rfl⟩
  have harranged : (interpreterEnv now fun _ => .returns).arrange 3 ∅ = [] := Finset.toList_empty
  obtain ⟨s, hassigned, hclaimed⟩ : ∃ s, onAssigned (interpreterEnv now fun _ => .returns) {0}
      ⟨sharedWith ∅ 0, .make Ingest.defaultConfig "member" "instance" 30 1000 1000⟩ = .ok ⟨⟩ s ∧
      ClaimedFree (sharedWith ∅ 0) (.make Ingest.defaultConfig "member" "instance" 30 1000 1000) 0 w
        s := by
    refine onAssigned_free _ _ rfl rfl rfl rfl (show (0 : ℚ) < 30 by norm_num) ?_
    rw [← harranged] at hmake
    exact hmake
  have hworker := hclaimed.worker
  refine ⟨message, eventId, s, w, hmake, ⟨_, _, _, _, _, hassigned⟩, hclaimed.tick, ?_, ?_, ?_, ?_,
    hdecode⟩
  · rw [hworker]
    rfl
  · rw [hworker]
    rfl
  · rw [hworker, hpartition]
    exact Dict.get?_set_self _ _ _
  · unfold First
    rw [hworker]
    rfl

/-- The clock stands still: the observation is counted. -/
theorem accounted_iff_still : ∃ (env : Env) (message : ConsumedMessage) (s t : World),
    Started env (sharedWith ∅ 0) Ingest.defaultConfig 1000 s ∧
    handle env message s = .ok .applied t ∧ Accounted env message s .applied t := by
  obtain ⟨message, eventId, s, w, hmake, hstarted, htick, hrun, hconfig, hw, hfirst, hdecode⟩ :=
    exists_first_message fun _ => 0
  obtain ⟨change, w', hobserve, hquiet⟩ : ∃ change w', w.observe ⟨.ipv4, 1, by decide⟩
      (bucketStart 0 w.config.bucketSeconds) 5 0 = .ok (some change, w') ∧
      (edgeOf w' ⟨.ipv4, 1, by decide⟩ Ingest.defaultConfig).current =
        w'.state ⟨.ipv4, 1, by decide⟩ := by
    cases hmake
    exact ⟨_, _, rfl, rfl⟩
  have hclass : classifyObservation 0 10 0 s.worker.config = .applied := by
    rw [hconfig]
    rfl
  obtain ⟨t, ht, -⟩ := handle_quiet hrun hw hfirst hdecode hclass hobserve (hconfig ▸ hquiet)
  refine ⟨_, message, s, t, hstarted, ht,
    (accounted_iff _ message s t .applied (congrArg Option.isSome hw) ht).mpr ?_⟩
  intro _ _ eventId' payload' entry' w₀ hdecode' hw₀
  rw [hdecode] at hdecode'
  cases hdecode'
  rw [hw] at hw₀
  cases hw₀
  refine ⟨fun _ => ?_, fun hne => absurd hclass hne⟩
  cases hmake
  exact ⟨_, rfl, rfl⟩

/-- The clock enters the next bucket between the two readings: the observation is answered as
applied, the window has not got it, and neither has the log. -/
theorem crossing_loses : ∃ (env : Env) (message : ConsumedMessage) (s t : World),
    env.Orderly ∧ Started env (sharedWith ∅ 0) Ingest.defaultConfig 1000 s ∧
    handle env message s = .ok .applied t ∧
    t.worker.claims.windows.get? message.partition = s.worker.claims.windows.get? message.partition ∧
    t.shared.reconciliation = s.shared.reconciliation ∧ ¬ Accounted env message s .applied t := by
  obtain ⟨message, eventId, s, w, hmake, hstarted, htick, hrun, hconfig, hw, hfirst, hdecode⟩ :=
    exists_first_message crossingClock
  have hobserve : w.observe ⟨.ipv4, 1, by decide⟩ (bucketStart 0 w.config.bucketSeconds) 5
      (crossingClock (s.shared.tick + 1)) = .ok (none, w) := by
    rw [htick]
    cases hmake
    rfl
  have hclass : classifyObservation 0 10 (crossingClock s.shared.tick) s.worker.config = .applied := by
    rw [htick, hconfig]
    rfl
  have hquiet : (edgeOf w ⟨.ipv4, 1, by decide⟩ s.worker.config).current =
      w.state ⟨.ipv4, 1, by decide⟩ := by
    rw [hconfig]
    cases hmake
    rfl
  obtain ⟨t, ht, hwindow, hlog⟩ := handle_quiet hrun hw hfirst hdecode hclass hobserve hquiet
  refine ⟨_, message, s, t, orderly_crossingClock, hstarted, ht, hwindow.trans hw.symm, hlog, ?_⟩
  intro haccounted
  obtain ⟨_, _, _, w₀, change, w₁, hdecode₀, hw₀, hobserve₀, -⟩ := haccounted.applied rfl
  rw [hdecode] at hdecode₀
  cases hdecode₀
  rw [hw] at hw₀
  cases hw₀
  have hsame : Except.ok (none, w) = (Except.ok (some change, w₁) : Except Failure _) :=
    hobserve.symm.trans hobserve₀
  cases hsame

end Hammertime.Aggregator
