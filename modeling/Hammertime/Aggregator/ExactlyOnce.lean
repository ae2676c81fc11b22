import Hammertime.Aggregator.ConfigChange

/-!
# One claim, from its first message to its stop

The coroutines of an `AggregatorWorker` take turns by one lock, and `stop()` sets its flag before it
asks for the lock. A run here is any order in which coroutines get the lock and let it go, with the
flag set at any point, and it ends at the first exception. Whatever is delivered and however often,
`exactly_once` says that a message is taken up at most once, that only what was finished is
acknowledged, and after a flush, and what still happens once the flag is set.
-/

namespace Hammertime.Aggregator

open Lib World

variable {env : Env}

/-! ### The lock -/

/-- A coroutine that asks for the worker's lock. -/
inductive Task where
  | handle (message : ConsumedMessage)
  | runMaintenance
  | applyConfig (config : DetectionConfig)
  /-- `_commit_if_due`, once the interval has passed. -/
  | commitIfDue
  /-- `stop`, after it has set the flag. -/
  | stop

/-- What a run leaves on record. -/
inductive LiveEvent where
  /-- `handle` has returned. -/
  | handled (message : ConsumedMessage) (outcome : ObservationOutcome)
  /-- `handle` has raised. -/
  | failed (message : ConsumedMessage)
  /-- `Producer.flush` has returned. -/
  | flushed
  /-- `Consumer.ack` was called with the messages. -/
  | acknowledged (messages : List ConsumedMessage)

/-- How the bus answers a commit. -/
structure CommitAnswers where
  flushes : Bool
  acknowledges : Bool

/-- A worker under its claim. The flag in `world` is the one that the holder of the lock has read. -/
structure Live where
  world : World
  /-- `_stopping`. -/
  stopping : Bool
  /-- The coroutine that holds the lock. -/
  holder : Option Task
  /-- `_stopped`. -/
  stopped : Bool
  /-- An exception has ended the run. -/
  raised : Bool
  trace : List LiveEvent

namespace Live

/-- A claim that has just been made. -/
def start (s : World) : Live := ⟨s, false, none, false, false, []⟩

/-- The end of a program that held the lock. -/
def ran (s : Live) (result : EStateM.Result Failure World PUnit) : Live :=
  match result with
  | .ok _ world => { s with world }
  | .error _ world => { s with world, raised := true }

/-- `commit_handled`: flush, then acknowledge what has been handled, then clear the list. -/
def commitHandled (s : Live) (answers : CommitAnswers) : Live :=
  if ¬ answers.flushes then { s with raised := true }
  else
    let s' := { s with
      trace := s.trace ++ [LiveEvent.flushed, .acknowledged s.world.worker.claims.handled] }
    if ¬ answers.acknowledges then { s' with raised := true }
    else s'.ran (modifyClaims (fun claims => .ok { claims with handled := [] }) s'.world)

/-- What a coroutine does while it holds the lock. -/
def perform (env : Env) (s : Live) (answers : CommitAnswers) : Task → Live
  | .handle message =>
    match Aggregator.handle env message s.world with
    | .ok outcome world => { s with world, trace := s.trace ++ [.handled message outcome] }
    | .error _ world => { s with world, raised := true, trace := s.trace ++ [.failed message] }
  | .runMaintenance => s.ran (Aggregator.runMaintenance env s.world)
  | .applyConfig config => s.ran (Aggregator.applyConfig env config s.world)
  | .commitIfDue => if s.world.worker.stopping then s else s.commitHandled answers
  | .stop =>
    if s.stopped then s
    else
      -- The leases are freed whether or not the commit has raised.
      let s' := { s.commitHandled answers with stopped := true }
      s'.ran (release env s'.world)

end Live

/-- What happens next. -/
inductive LiveAction where
  /-- The coroutine gets the lock, if no other holds it, and reads the flag. -/
  | acquire (task : Task)
  /-- The first statement of `stop`. -/
  | setStopping
  /-- The holder of the lock does its work and lets go. -/
  | finish (answers : CommitAnswers)

/-- `stop` asks for the lock when the flag is set. -/
def Task.Asks (s : Live) : Task → Bool
  | .stop => s.stopping
  | _ => true

/-- One step. -/
def Live.step (env : Env) (s : Live) (action : LiveAction) : Live :=
  if s.raised then s
  else
    match action, s.holder with
    | .setStopping, _ => { s with stopping := true }
    | .acquire task, none =>
      if task.Asks s then
        { s with
          holder := some task
          world := { s.world with worker := { s.world.worker with stopping := s.stopping } } }
      else s
    | .acquire _, some _ => s
    | .finish answers, some task => { s.perform env answers task with holder := none }
    | .finish _, none => s

/-! ### What is asked of a run -/

/-- The place in the log of a message that was taken up: neither left alone nor recognised as
redelivered. -/
def LiveEvent.taken : LiveEvent → Option (ℕ × ℕ)
  | .handled _ .unclaimed => none
  | .handled _ .redelivered => none
  | .handled message _ => some (message.partition, message.offset)
  | .failed message => some (message.partition, message.offset)
  | .flushed => none
  | .acknowledged _ => none

/-- The message that was acted on. -/
def LiveEvent.actedOn : LiveEvent → Option ConsumedMessage
  | .handled _ .unclaimed => none
  | .handled message _ => some message
  | .failed message => some message
  | .flushed => none
  | .acknowledged _ => none

/-- `handle` has finished the message. -/
def Finished (trace : List LiveEvent) (message : ConsumedMessage) : Prop :=
  ∃ outcome, outcome ≠ .unclaimed ∧ .handled message outcome ∈ trace

/-- The message, or another copy of it, has been delivered. -/
def Delivered (trace : List LiveEvent) (message : ConsumedMessage) : Prop :=
  ∃ copy outcome, .handled copy outcome ∈ trace ∧ copy.partition = message.partition ∧
    copy.offset = message.offset

/-- Every window is the one of before. -/
def World.Untouched (s t : World) : Prop :=
  ∀ shard, t.worker.claims.windows.get? shard = s.worker.claims.windows.get? shard

/-- The message's entry was given to the window of its shard, once, and no counter has changed
otherwise. -/
def Contributed (env : Env) (message : ConsumedMessage) (s t : World) : Prop :=
  ∃ eventId payload entry w change w₁ w',
    decodeObservation env message = some (eventId, payload, entry) ∧
    s.worker.claims.windows.get? message.partition = some w ∧
    w.observe entry.ip (bucketStart payload.windowStart w.config.bucketSeconds) entry.requestCount
      (env.now (s.shared.tick + 1)) = .ok (change, w₁) ∧
    w₁.SameCounters w' ∧ t.worker.claims.windows.get? message.partition = some w' ∧
    ∀ shard, shard ≠ message.partition →
      t.worker.claims.windows.get? shard = s.worker.claims.windows.get? shard

/-- What a step that handles a message may do. -/
structure Live.HandlesOnce (env : Env) (s t : Live) (message : ConsumedMessage) : Prop where
  /-- Only what is applied is given to its window. -/
  returned : ∀ outcome, t.trace = s.trace ++ [.handled message outcome] →
    if outcome = .applied then Contributed env message s.world t.world
    else Untouched s.world t.world
  /-- What is redelivered or left alone changes no window, and nothing outside. -/
  untouched : ∀ outcome, t.trace = s.trace ++ [.handled message outcome] →
    outcome = .redelivered ∨ outcome = .unclaimed →
    t.world.worker.claims.windows = s.world.worker.claims.windows ∧
      t.world.shared = s.world.shared
  /-- A copy of what was delivered before is redelivered, or left alone. -/
  copy : ∀ outcome, t.trace = s.trace ++ [.handled message outcome] →
    Delivered s.trace message → outcome = .redelivered ∨ outcome = .unclaimed
  /-- A message whose handling raised was new, and was given to its window at most once. -/
  raised : t.trace = s.trace ++ [.failed message] → ¬ Delivered s.trace message ∧
    (Untouched s.world t.world ∨ Contributed env message s.world t.world)

/-! ### Marking a message -/

/-- The handled position of the message's shard is past it. -/
def ShardClaims.Past (claims : ShardClaims) (message : ConsumedMessage) : Prop :=
  ∃ position, claims.positions.get? message.partition = some position ∧ message.offset < position

theorem first_iff {s : World} {message : ConsumedMessage} :
    First s message ↔ ¬ s.worker.claims.Past message := by
  unfold First ShardClaims.Past
  cases s.worker.claims.positions.get? message.partition with
  | none => simp
  | some position => simp

/-- The message is listed, its shard's position is past it, and no position is lowered. -/
structure World.Noted (message : ConsumedMessage) (s t : World) : Prop where
  stopping : t.worker.stopping = s.worker.stopping
  shards : s.SameShards t
  handled : t.worker.claims.handled = s.worker.claims.handled ++ [message]
  past : t.worker.claims.Past message
  forward : ∀ other, s.worker.claims.Past other → t.worker.claims.Past other

theorem markHandled_past {claims claims' : ShardClaims} {message : ConsumedMessage}
    (h : claims.markHandled message = .ok claims') :
    claims'.handled = claims.handled ++ [message] ∧ claims'.Past message ∧
      ∀ other, claims.Past other → claims'.Past other := by
  unfold ShardClaims.markHandled at h
  split_ifs at h
  cases h
  refine ⟨rfl, ?_⟩
  unfold ShardClaims.Past
  dsimp only
  split_ifs with hraises
  · refine ⟨⟨message.offset + 1, Dict.get?_set_self _ _ _, Nat.lt_succ_self _⟩, ?_⟩
    rintro other ⟨position, hposition, hlt⟩
    rw [Dict.get?_set]
    split_ifs with hsame
    · rw [hsame, hposition, Option.all_some, decide_eq_true_eq] at hraises
      exact ⟨_, rfl, hlt.trans hraises⟩
    · exact ⟨position, hposition, hlt⟩
  · refine ⟨?_, fun _ hpast => hpast⟩
    cases hposition : claims.positions.get? message.partition with
    | none =>
      rw [hposition] at hraises
      exact absurd rfl hraises
    | some position =>
      rw [hposition, Option.all_some, decide_eq_true_eq] at hraises
      exact ⟨position, rfl, by omega⟩

/-- A message of a held shard is marked. -/
theorem mark_returns {s : World} {message : ConsumedMessage}
    (hheld : s.worker.claims.windows.contains message.partition = true) :
    ∃ t, modifyClaims (fun claims => claims.markHandled message) s = .ok ⟨⟩ t ∧
      Noted message s t ∧ t.shared = s.shared ∧
      t.worker.claims.windows = s.worker.claims.windows := by
  obtain ⟨claims, hclaims⟩ : ∃ claims, s.worker.claims.markHandled message = .ok claims :=
    ⟨_, if_pos hheld⟩
  obtain ⟨hhandled, hpast, hforward⟩ := markHandled_past hclaims
  have hwindows := markHandled_windows hclaims
  exact ⟨_, modifyClaims_ok hclaims,
    ⟨rfl, congrArg Dict.keys hwindows, hhandled, hpast, hforward⟩, rfl, hwindows⟩

/-- A program that marks the message at its end. -/
theorem marked_ok {s t : World} {message : ConsumedMessage} {outcome outcome' : ObservationOutcome}
    (hheld : s.worker.claims.windows.contains message.partition = true)
    (h : (do
      modifyClaims fun claims => claims.markHandled message
      pure outcome : Program Failure World ObservationOutcome) s = .ok outcome' t) :
    outcome' = outcome ∧ Noted message s t ∧ t.shared = s.shared ∧
      t.worker.claims.windows = s.worker.claims.windows := by
  obtain ⟨u, hmark, hnoted⟩ := mark_returns hheld
  obtain ⟨⟨⟩, v, hmark', h⟩ := Program.bind_ok.mp h
  cases hmark.symm.trans hmark'
  cases h
  exact ⟨rfl, hnoted⟩

theorem marked_ne_error {s t : World} {message : ConsumedMessage} {outcome : ObservationOutcome}
    {e : Failure} (hheld : s.worker.claims.windows.contains message.partition = true) :
    (do
      modifyClaims fun claims => claims.markHandled message
      pure outcome : Program Failure World ObservationOutcome) s ≠ .error e t := by
  intro h
  obtain ⟨u, hmark, -⟩ := mark_returns hheld
  obtain herror | ⟨⟨⟩, v, -, h⟩ := Program.bind_error.mp h
  · cases hmark.symm.trans herror
  · cases h

/-! ### Handling a message -/

/-- Counting, whether it returns or raises, gives the observation to the window once at most. -/
theorem countObservation_after (env : Env) (windowStart : ℤ) (entry : Observation)
    (config : DetectionConfig) (scope : Scope) :
    let w' := (Program.after (countObservation env windowStart entry config scope)).window
    w' = scope.window ∨
      ∃ change w₁, scope.window.observe entry.ip
          (bucketStart windowStart scope.window.config.bucketSeconds) entry.requestCount
          (env.now scope.shared.tick) = .ok (change, w₁) ∧ w₁.SameCounters w' := by
  cases h : countObservation env windowStart entry config scope with
  | ok a t => exact Or.inr (countObservation_ok h)
  | error e t =>
    obtain hget | ⟨_, _, hget, h⟩ := Program.bind_error.mp h
    · cases hget
    cases hget
    obtain hobserve | ⟨change, scope₁, hobserve, h⟩ := Program.bind_error.mp h
    · rw [observe_error hobserve]
      exact Or.inl rfl
    · exact Or.inr ⟨change, scope₁.window, (observe_ok hobserve).1,
        (settle_sameCounters env entry.ip config).of_error h⟩

section Handling

variable {message : ConsumedMessage} {s t : World} {eventId : String} {payload : RequestObservation}
  {entry : Observation}

/-- The window that is written back has been given the observation. -/
theorem Contributed.of_set {w w₁ : ShardWindow} {scope : Scope} {change : Option WindowChange}
    (hdecode : decodeObservation env message = some (eventId, payload, entry))
    (hw : s.worker.claims.windows.get? message.partition = some w)
    (hobserve : w.observe entry.ip (bucketStart payload.windowStart w.config.bucketSeconds)
      entry.requestCount (env.now (s.shared.tick + 1)) = .ok (change, w₁))
    (hsame : w₁.SameCounters scope.window)
    (ht : t.worker.claims.windows = s.worker.claims.windows.set message.partition scope.window) :
    Contributed env message s t := by
  refine ⟨eventId, payload, entry, w, change, w₁, scope.window, hdecode, hw, hobserve, hsame, ?_, ?_⟩
  · rw [ht]
    exact Dict.get?_set_self _ _ _
  · intro shard hne
    rw [ht, Dict.get?_set_of_ne _ (Ne.symm hne)]

/-- A taken observation is marked, and given to its window only if it is applied. -/
theorem handleObservation_noted {outcome : ObservationOutcome}
    (hheld : s.worker.claims.windows.contains message.partition = true)
    (hdecode : decodeObservation env message = some (eventId, payload, entry))
    (h : handleObservation env message eventId payload entry s = .ok outcome t) :
    outcome ≠ .unclaimed ∧ outcome ≠ .redelivered ∧ Noted message s t ∧
      if outcome = .applied then Contributed env message s t else Untouched s t := by
  by_cases hclass : classifyObservation payload.windowStart payload.windowSeconds
      (env.now s.shared.tick) s.worker.config = .applied
  · rw [handleObservation_applied hclass] at h
    obtain ⟨⟨⟩, u, hwindow, h⟩ := Program.bind_ok.mp h
    obtain ⟨w, scope, hw, hcount, rfl⟩ := onWindow_ok.mp hwindow
    obtain ⟨change, w₁, hobserve, hsame⟩ := countObservation_ok hcount
    have hkept := Kept.setWindow hw scope
    have hheld' : (World.setWindow { s with shared := s.shared.advance } message.partition
        scope).worker.claims.windows.contains message.partition = true :=
      congrArg Option.isSome (Dict.get?_set_self _ _ _)
    obtain ⟨rfl, hnoted, -, hwindows⟩ := marked_ok hheld' h
    refine ⟨nofun, nofun, ⟨hnoted.stopping, ?_, hnoted.handled, hnoted.past, hnoted.forward⟩, ?_⟩
    · exact Eq.trans hnoted.shards hkept.keys
    · rw [if_pos rfl]
      exact .of_set hdecode hw hobserve hsame hwindows
  · rw [handleObservation_diverted hclass] at h
    obtain ⟨⟨⟩, u, hpublish, h⟩ := Program.bind_ok.mp h
    obtain ⟨shared, -, rfl⟩ := Program.zoom_ok.mp hpublish
    have hheld' : (World.mk shared s.worker).worker.claims.windows.contains message.partition =
        true := hheld
    obtain ⟨rfl, hnoted, -, hwindows⟩ := marked_ok hheld' h
    have hdiverts := classifyObservation_diverts.mpr hclass
    refine ⟨?_, ?_, ⟨hnoted.stopping, hnoted.shards, hnoted.handled, hnoted.past, hnoted.forward⟩, ?_⟩
    · intro hunclaimed
      rw [hunclaimed] at hdiverts
      cases hdiverts
    · intro hredelivered
      rw [hredelivered] at hdiverts
      cases hdiverts
    · rw [if_neg hclass]
      exact fun shard => congrArg (fun windows => windows.get? shard) hwindows

/-- An observation whose handling raises was given to its window once at most. -/
theorem handleObservation_raises {e : Failure}
    (hheld : s.worker.claims.windows.contains message.partition = true)
    (hdecode : decodeObservation env message = some (eventId, payload, entry))
    (h : handleObservation env message eventId payload entry s = .error e t) :
    Untouched s t ∨ Contributed env message s t := by
  by_cases hclass : classifyObservation payload.windowStart payload.windowSeconds
      (env.now s.shared.tick) s.worker.config = .applied
  · rw [handleObservation_applied hclass] at h
    obtain hwindow | ⟨⟨⟩, u, hwindow, h⟩ := Program.bind_error.mp h
    · obtain ⟨-, -, rfl⟩ | ⟨w, scope, hw, hcount, rfl⟩ := onWindow_error.mp hwindow
      · exact Or.inl fun _ => rfl
      · have hafter := countObservation_after env payload.windowStart entry s.worker.config
          ⟨s.shared.advance, w⟩
        rw [hcount] at hafter
        obtain hsame | ⟨change, w₁, hobserve, hsame⟩ := hafter
        · refine Or.inl fun shard => ?_
          show (s.worker.claims.windows.set message.partition scope.window).get? shard = _
          rw [Dict.get?_set]
          split_ifs with hshard
          · rw [← hshard, hw]
            exact congrArg some hsame
          · rfl
        · exact Or.inr (.of_set hdecode hw hobserve hsame rfl)
    · obtain ⟨w, scope, -, -, rfl⟩ := onWindow_ok.mp hwindow
      exact absurd h (marked_ne_error (congrArg Option.isSome (Dict.get?_set_self _ _ _)))
  · rw [handleObservation_diverted hclass] at h
    obtain hpublish | ⟨⟨⟩, u, hpublish, h⟩ := Program.bind_error.mp h
    · obtain ⟨shared, -, rfl⟩ := Program.zoom_error.mp hpublish
      exact Or.inl fun _ => rfl
    · obtain ⟨shared, -, rfl⟩ := Program.zoom_ok.mp hpublish
      exact absurd h (marked_ne_error hheld)

theorem handle_unheld (hrun : s.worker.stopping = false)
    (hheld : s.worker.claims.windows.contains message.partition = false) :
    handle env message s = .ok .unclaimed s := by
  unfold handle
  rw [Program.bind_apply]
  show (if s.worker.stopping = true then _ else _ : Program Failure World ObservationOutcome) s = _
  rw [if_neg (by rw [hrun]; exact Bool.false_ne_true), if_pos (by rw [hheld]; exact Bool.false_ne_true)]
  rfl

/-- How `handle` ends, if it returns: the message is left alone, or recognised, or taken up. -/
theorem handle_returns {outcome : ObservationOutcome} (h : handle env message s = .ok outcome t) :
    (outcome = .unclaimed ∧ t = s ∧ (s.worker.stopping = true ∨
        s.worker.claims.windows.contains message.partition = false)) ∨
      s.worker.stopping = false ∧ Noted message s t ∧
        ((outcome = .redelivered ∧ s.worker.claims.Past message ∧ t.shared = s.shared ∧
            t.worker.claims.windows = s.worker.claims.windows) ∨
          (outcome ≠ .unclaimed ∧ outcome ≠ .redelivered ∧ ¬ s.worker.claims.Past message ∧
            s.worker.claims.windows.contains message.partition = true ∧
            if outcome = .applied then Contributed env message s t else Untouched s t)) := by
  cases hstop : s.worker.stopping with
  | true =>
    rw [handle_stopping hstop] at h
    cases h
    exact Or.inl ⟨rfl, rfl, Or.inl rfl⟩
  | false =>
    cases hheld : s.worker.claims.windows.contains message.partition with
    | false =>
      rw [handle_unheld hstop hheld] at h
      cases h
      exact Or.inl ⟨rfl, rfl, Or.inr rfl⟩
    | true =>
      refine Or.inr ⟨rfl, ?_⟩
      by_cases hfirst : First s message
      · cases hdecode : decodeObservation env message with
        | none =>
          rw [handle_malformed hstop hheld hfirst hdecode] at h
          obtain ⟨rfl, hnoted, -, hwindows⟩ := marked_ok hheld h
          exact ⟨hnoted, Or.inr ⟨nofun, nofun, first_iff.mp hfirst, rfl,
            fun shard => congrArg (fun windows => windows.get? shard) hwindows⟩⟩
        | some decoded =>
          rw [handle_decoded hstop hheld hfirst hdecode] at h
          obtain ⟨hunclaimed, hredelivered, hnoted, heffect⟩ :=
            handleObservation_noted hheld hdecode h
          exact ⟨hnoted, Or.inr ⟨hunclaimed, hredelivered, first_iff.mp hfirst, rfl, heffect⟩⟩
      · rw [handle_redelivered hstop hheld hfirst] at h
        obtain ⟨rfl, hnoted, hshared, hwindows⟩ := marked_ok hheld h
        exact ⟨hnoted, Or.inl ⟨rfl, not_not.mp (mt first_iff.mpr hfirst), hshared, hwindows⟩⟩

/-- What raises is a new message of a held shard. -/
theorem handle_raises {e : Failure} (h : handle env message s = .error e t) :
    s.worker.stopping = false ∧ s.worker.claims.windows.contains message.partition = true ∧
      ¬ s.worker.claims.Past message ∧ (Untouched s t ∨ Contributed env message s t) := by
  cases hstop : s.worker.stopping with
  | true =>
    rw [handle_stopping hstop] at h
    cases h
  | false =>
    cases hheld : s.worker.claims.windows.contains message.partition with
    | false =>
      rw [handle_unheld hstop hheld] at h
      cases h
    | true =>
      refine ⟨rfl, rfl, ?_⟩
      by_cases hfirst : First s message
      · cases hdecode : decodeObservation env message with
        | none =>
          rw [handle_malformed hstop hheld hfirst hdecode] at h
          exact absurd h (marked_ne_error hheld)
        | some decoded =>
          rw [handle_decoded hstop hheld hfirst hdecode] at h
          exact ⟨first_iff.mp hfirst, handleObservation_raises hheld hdecode h⟩
      · rw [handle_redelivered hstop hheld hfirst] at h
        exact absurd h (marked_ne_error hheld)

end Handling

/-! ### Programs that mark nothing -/

/-- The list of handled messages, the positions and the flag are those of before. -/
structure World.SameMarks (s t : World) : Prop where
  stopping : t.worker.stopping = s.worker.stopping
  handled : t.worker.claims.handled = s.worker.claims.handled
  positions : t.worker.claims.positions = s.worker.claims.positions

namespace World.SameMarks

variable {s t u : World}

theorem of_worker (h : t.worker = s.worker) : SameMarks s t := ⟨by rw [h], by rw [h], by rw [h]⟩

theorem trans (h : SameMarks s t) (h' : SameMarks t u) : SameMarks s u :=
  ⟨h'.stopping.trans h.stopping, h'.handled.trans h.handled, h'.positions.trans h.positions⟩

instance : Std.Refl SameMarks := ⟨fun _ => ⟨rfl, rfl, rfl⟩⟩

instance : IsTrans World SameMarks := ⟨fun _ _ _ => trans⟩

theorem of_kept (h : Kept s t) : SameMarks s t := by
  obtain ⟨windows, -, ht⟩ := h
  exact ⟨by rw [ht], by rw [ht], by rw [ht]⟩

theorem past (h : SameMarks s t) {message : ConsumedMessage} :
    t.worker.claims.Past message ↔ s.worker.claims.Past message := by
  unfold ShardClaims.Past
  rw [h.positions]

end World.SameMarks

theorem World.SameShards.contains {s t : World} (h : SameShards s t) (shard : ℕ) :
    t.worker.claims.windows.contains shard = s.worker.claims.windows.contains shard := by
  have hkeys : t.worker.claims.windows.keys = s.worker.claims.windows.keys := h
  unfold Dict.contains
  rw [Bool.eq_iff_iff, Option.isSome_iff_exists, Option.isSome_iff_exists, ← Dict.mem_keys_iff,
    ← Dict.mem_keys_iff, hkeys]

/-- Only handling a message marks one. -/
theorem program_sameMarks (env : Env) {operation : Operation}
    (h : ∀ message, operation ≠ .handle message) :
    Program.Within SameMarks (operation.program env) := by
  have honWindow : ∀ {α : Type} (shard : ℕ) (m : Program Failure Scope α),
      Program.Within SameMarks (onWindow shard m) :=
    fun shard m => (onWindow_kept shard m).mono fun _ _ => .of_kept
  cases operation with
  | handle message => exact absurd rfl (h message)
  | runMaintenance =>
    refine Program.Within.bind Program.Within.get fun s => ?_
    split_ifs
    · exact Program.Within.pure _
    · refine Program.Within.bind ?_ fun _ => Program.Within.forM _ fun shard _ => honWindow shard _
      exact (renewLeases_aside env).mono fun _ _ haside => .of_worker haside.worker
  | applyConfig config =>
    refine Program.Within.bind Program.Within.get fun s => ?_
    split_ifs
    · exact Program.Within.pure _
    · refine Program.Within.bind (Program.Within.forM _ fun shard _ => honWindow shard _)
        fun _ => Program.Within.bind (Program.Within.forM _ fun shard _ => ?_) fun _ =>
          Program.Within.bind (fun _ => ⟨rfl, rfl, rfl⟩) fun _ => fun _ => ⟨rfl, rfl, rfl⟩
      exact Program.Within.bind (honWindow shard _) fun _ => Program.Within.pure _

/-- Only the leases that the claims list have changed. -/
def World.Unleased (s t : World) : Prop :=
  ∃ leased, t.worker = { s.worker with claims := { s.worker.claims with leased } }

instance : Std.Refl World.Unleased := ⟨fun s => ⟨s.worker.claims.leased, rfl⟩⟩

instance : IsTrans World World.Unleased := by
  refine ⟨fun s t u => ?_⟩
  rintro ⟨leased, ht⟩ ⟨leased', hu⟩
  rw [ht] at hu
  exact ⟨leased', hu⟩

theorem release_unleased (env : Env) : Program.Within Unleased (release env) := by
  refine Program.Within.bind Program.Within.get fun s => Program.Within.bind ?_ fun _ =>
    Program.Within.forM _ fun shard _ => ?_
  · exact fun t => ⟨∅, rfl⟩
  · exact Program.Within.zoom (R := fun _ _ => True) (fun _ => trivial)
      fun t _ _ => ⟨t.worker.claims.leased, rfl⟩

/-! ### What a coroutine can do -/

/-- The coroutine has done its work: it has handled a message, or has left the marks alone, or has
committed. -/
inductive Live.Turn (env : Env) (s : Live) : Task → Live → Prop
  | handled {message : ConsumedMessage} {outcome : ObservationOutcome} {world : World} :
    handle env message s.world = .ok outcome world →
    Turn env s (.handle message) { s with world, trace := s.trace ++ [.handled message outcome] }
  | failed {message : ConsumedMessage} {e : Failure} {world : World} :
    handle env message s.world = .error e world →
    Turn env s (.handle message)
      { s with world, raised := true, trace := s.trace ++ [.failed message] }
  | quiet {task : Task} {world : World} {raised : Bool} :
    SameMarks s.world world → SameShards s.world world → Turn env s task { s with world, raised }
  /-- The flush has raised. -/
  | unflushed {task : Task} {world : World} {stopped : Bool} :
    Turn env s task { s with world, stopped, raised := true }
  | committed {task : Task} {world : World} {stopped raised : Bool} :
    task = .commitIfDue ∧ s.world.worker.stopping = false ∧ stopped = s.stopped ∨
      task = .stop ∧ s.stopped = false →
    (raised = false → world.worker.stopping = s.world.worker.stopping ∧
      SameShards s.world world ∧ world.worker.claims.handled = [] ∧
      world.worker.claims.positions = s.world.worker.claims.positions) →
    Turn env s task { s with
      world, stopped, raised
      trace := s.trace ++ [LiveEvent.flushed, .acknowledged s.world.worker.claims.handled] }

namespace Live

variable {s t : Live} {task : Task} {answers : CommitAnswers}

theorem commitHandled_cases (s : Live) (answers : CommitAnswers) :
    s.commitHandled answers = { s with raised := true } ∨
      ∃ world raised, s.commitHandled answers = { s with
          world, raised
          trace := s.trace ++ [LiveEvent.flushed, .acknowledged s.world.worker.claims.handled] } ∧
        (raised = false → world.worker =
          { s.world.worker with claims := { s.world.worker.claims with handled := [] } }) := by
  unfold commitHandled
  dsimp only
  split_ifs
  · exact Or.inr ⟨_, s.raised, rfl, fun _ => rfl⟩
  · exact Or.inr ⟨s.world, true, rfl, nofun⟩
  · exact Or.inl rfl

/-- Whatever a coroutine does is one of the turns. -/
theorem turn_perform (env : Env) (s : Live) (answers : CommitAnswers) (task : Task) :
    Turn env s task (s.perform env answers task) := by
  -- A pass over the windows, returning or raising.
  have hran : ∀ (operation : Operation), (∀ message, operation ≠ .handle message) →
      Turn env s task (s.ran (operation.program env s.world)) := by
    intro operation hother
    have hmarks := program_sameMarks env hother s.world
    have hshards : Program.Within World.SameShards (operation.program env) :=
      program_sameShards operation
    replace hshards := hshards s.world
    unfold ran
    cases h : operation.program env s.world with
    | ok a world =>
      rw [h] at hmarks hshards
      exact .quiet hmarks hshards
    | error e world =>
      rw [h] at hmarks hshards
      exact .quiet hmarks hshards
  cases task with
  | handle message =>
    dsimp only [perform]
    cases h : Aggregator.handle env message s.world with
    | ok outcome world => exact .handled h
    | error e world => exact .failed h
  | runMaintenance => exact hran .runMaintenance nofun
  | applyConfig config => exact hran (.applyConfig config) nofun
  | commitIfDue =>
    dsimp only [perform]
    split_ifs with hstop
    · exact .quiet (refl s.world) (refl s.world)
    · obtain hcommit | ⟨world, raised, hcommit, hworld⟩ := s.commitHandled_cases answers
      · rw [hcommit]
        exact .unflushed
      · rw [hcommit]
        refine .committed (Or.inl ⟨rfl, Bool.eq_false_of_not_eq_true hstop, rfl⟩) fun hraised => ?_
        unfold World.SameShards
        rw [hworld hraised]
        exact ⟨rfl, rfl, rfl, rfl⟩
  | stop =>
    dsimp only [perform]
    split_ifs with hstopped
    · exact .quiet (refl s.world) (refl s.world)
    · obtain hcommit | ⟨world, raised, hcommit, hworld⟩ := s.commitHandled_cases answers
      · rw [hcommit]
        unfold ran
        cases release env s.world with
        | ok a world => exact .unflushed
        | error e world => exact .unflushed
      · rw [hcommit]
        have hrelease := release_unleased env world
        unfold ran
        dsimp only
        cases h : release env world with
        | ok a world' =>
          rw [h] at hrelease
          obtain ⟨leased, hworld'⟩ := hrelease
          refine .committed (Or.inr ⟨rfl, Bool.eq_false_of_not_eq_true hstopped⟩) fun hraised => ?_
          rw [Program.after_ok] at hworld'
          unfold World.SameShards
          rw [hworld', hworld hraised]
          exact ⟨rfl, rfl, rfl, rfl⟩
        | error e world' =>
          exact .committed (Or.inr ⟨rfl, Bool.eq_false_of_not_eq_true hstopped⟩) nofun

/-- What a step of a run that goes on can be. -/
theorem step_cases (env : Env) (s : Live) (action : LiveAction) :
    s.step env action = s ∨
      s.raised = false ∧
        (s.step env action = { s with stopping := true } ∨
          (∃ task, s.holder = none ∧ (task = .stop → s.stopping = true) ∧
            s.step env action = { s with
              holder := some task
              world := { s.world with
                worker := { s.world.worker with stopping := s.stopping } } }) ∨
          ∃ task t, s.holder = some task ∧ Turn env s task t ∧
            s.step env action = { t with holder := none }) := by
  unfold step
  split_ifs with hraised
  · exact Or.inl rfl
  · have hlive := Bool.eq_false_of_not_eq_true hraised
    cases action with
    | setStopping => exact Or.inr ⟨hlive, Or.inl rfl⟩
    | acquire task =>
      cases hholder : s.holder with
      | some other => exact Or.inl rfl
      | none =>
        dsimp only
        split_ifs with hasks
        · refine Or.inr ⟨hlive, Or.inr (Or.inl ⟨task, rfl, ?_, rfl⟩)⟩
          rintro rfl
          exact hasks
        · exact Or.inl rfl
    | finish answers =>
      cases hholder : s.holder with
      | none => exact Or.inl rfl
      | some task =>
        exact Or.inr ⟨hlive, Or.inr (Or.inr ⟨task, _, rfl, turn_perform env s answers task, rfl⟩)⟩

/-! ### What every run keeps -/

/-- The messages were finished, and then the producer was flushed. -/
def Acked (before : List LiveEvent) (messages : List ConsumedMessage) : Prop :=
  ∃ done, before = done ++ [.flushed] ∧ ∀ message ∈ messages, Finished done message

/-- Every acknowledgement on record is one of finished messages, after a flush. -/
def AcksFinished (trace : List LiveEvent) : Prop :=
  ∀ before messages after, trace = before ++ .acknowledged messages :: after → Acked before messages

/-- What the marks of a run that goes on say of its record. -/
structure Marked (s : Live) : Prop where
  flag : s.world.worker.stopping = true → s.stopping = true
  stop : s.holder = some .stop → s.world.worker.stopping = true
  stopped : s.stopped = true → s.world.worker.stopping = true
  past : ∀ message, Finished s.trace message → s.world.worker.claims.Past message
  unclaimed : ∀ message, .handled message .unclaimed ∈ s.trace →
    s.world.worker.stopping = true ∨
      s.world.worker.claims.windows.contains message.partition = false
  pending : ∀ message ∈ s.world.worker.claims.handled, Finished s.trace message
  failed : ∀ message, .failed message ∉ s.trace

/-- The invariant of a run. -/
structure Sound (s : Live) : Prop where
  taken : (s.trace.filterMap LiveEvent.taken).Nodup
  acks : AcksFinished s.trace
  marked : s.raised = false → s.Marked

theorem acksFinished_append {trace added : List LiveEvent} (h : AcksFinished trace)
    (hadded : ∀ before messages after, added = before ++ .acknowledged messages :: after →
      Acked (trace ++ before) messages) : AcksFinished (trace ++ added) := by
  intro before messages after heq
  obtain ⟨more, rfl, hmore⟩ | ⟨more, htrace, hmore⟩ := List.append_eq_append_iff.mp heq
  · exact hadded more messages after hmore
  · cases more with
    | nil =>
      rw [List.append_nil] at htrace
      rw [← htrace, ← List.append_nil trace]
      exact hadded [] messages after hmore.symm
    | cons event more =>
      rw [List.cons_append, List.cons.injEq] at hmore
      obtain ⟨rfl, -⟩ := hmore
      exact h before messages more htrace

/-- An event that is no acknowledgement. -/
theorem acksFinished_concat {trace : List LiveEvent} {event : LiveEvent} (h : AcksFinished trace)
    (hother : ∀ messages, event ≠ .acknowledged messages) : AcksFinished (trace ++ [event]) := by
  refine acksFinished_append h fun before messages after heq => ?_
  cases before with
  | nil => exact absurd (List.cons.inj heq).1 (hother messages)
  | cons first before => exact absurd (List.cons.inj heq).2 (by simp)

theorem finished_mono {trace added : List LiveEvent} {message : ConsumedMessage}
    (h : Finished trace message) : Finished (trace ++ added) message := by
  obtain ⟨outcome, hne, hmem⟩ := h
  exact ⟨outcome, hne, List.mem_append_left _ hmem⟩

/-- What is finished after an event was finished before, or by it. -/
theorem finished_concat {trace : List LiveEvent} {event : LiveEvent} {message : ConsumedMessage} :
    Finished (trace ++ [event]) message ↔
      Finished trace message ∨ ∃ outcome, outcome ≠ .unclaimed ∧ event = .handled message outcome := by
  unfold Finished
  simp only [List.mem_append, List.mem_singleton, and_or_left, exists_or]
  simp only [eq_comm (a := event)]

/-- Copies have the same place in the log. -/
theorem past_copy {claims : ShardClaims} {message copy : ConsumedMessage}
    (hpartition : copy.partition = message.partition) (hoffset : copy.offset = message.offset) :
    claims.Past copy ↔ claims.Past message := by
  unfold ShardClaims.Past
  rw [hpartition, hoffset]

/-- What has been taken up is finished, or its handling has raised. -/
theorem taken_cases {trace : List LiveEvent} {message : ConsumedMessage}
    (h : (message.partition, message.offset) ∈ trace.filterMap LiveEvent.taken) :
    ∃ copy, (Finished trace copy ∨ .failed copy ∈ trace) ∧ copy.partition = message.partition ∧
      copy.offset = message.offset := by
  obtain ⟨event, hmem, htaken⟩ := List.mem_filterMap.mp h
  cases event with
  | handled copy outcome =>
    have hne : outcome ≠ .unclaimed := by
      rintro rfl
      cases htaken
    have hplace : (copy.partition, copy.offset) = (message.partition, message.offset) := by
      cases outcome with
      | unclaimed => exact absurd rfl hne
      | redelivered => cases htaken
      | _ => exact Option.some.inj htaken
    exact ⟨copy, Or.inl ⟨outcome, hne, hmem⟩, congrArg Prod.fst hplace, congrArg Prod.snd hplace⟩
  | failed copy =>
    have hplace : (copy.partition, copy.offset) = (message.partition, message.offset) :=
      Option.some.inj htaken
    exact ⟨copy, Or.inr hmem, congrArg Prod.fst hplace, congrArg Prod.snd hplace⟩
  | flushed => cases htaken
  | acknowledged messages => cases htaken

/-- A message whose position is not passed has not been taken up. -/
theorem Marked.not_taken (h : s.Marked) {message : ConsumedMessage}
    (hnew : ¬ s.world.worker.claims.Past message) :
    (message.partition, message.offset) ∉ s.trace.filterMap LiveEvent.taken := by
  intro hmem
  obtain ⟨copy, hcopy, hpartition, hoffset⟩ := taken_cases hmem
  obtain hfinished | hfailed := hcopy
  · exact hnew ((past_copy hpartition hoffset).mp (h.past copy hfinished))
  · exact h.failed copy hfailed

/-- One more place. -/
theorem taken_concat {trace : List LiveEvent} {event : LiveEvent}
    (h : (trace.filterMap LiveEvent.taken).Nodup)
    (hnew : ∀ place, event.taken = some place → place ∉ trace.filterMap LiveEvent.taken) :
    ((trace ++ [event]).filterMap LiveEvent.taken).Nodup := by
  rw [List.filterMap_append]
  cases htaken : event.taken with
  | none =>
    rw [List.filterMap_cons_none htaken, List.filterMap_nil, List.append_nil]
    exact h
  | some place =>
    rw [List.filterMap_cons_some htaken, List.filterMap_nil]
    exact List.nodup_append_comm.mp (List.nodup_cons.mpr ⟨hnew place htaken, h⟩)

/-- A copy of what was delivered before is known by its position, or is left alone. -/
theorem Marked.delivered (h : s.Marked) {message : ConsumedMessage}
    (hdelivered : Delivered s.trace message) :
    s.world.worker.claims.Past message ∨ s.world.worker.stopping = true ∨
      s.world.worker.claims.windows.contains message.partition = false := by
  obtain ⟨copy, outcome, hmem, hpartition, hoffset⟩ := hdelivered
  by_cases hunclaimed : outcome = .unclaimed
  · subst hunclaimed
    rw [← hpartition]
    exact Or.inr (h.unclaimed copy hmem)
  · exact Or.inl ((past_copy hpartition hoffset).mp (h.past copy ⟨outcome, hunclaimed, hmem⟩))

/-- A turn keeps the invariant. -/
theorem Sound.turn (h : s.Sound) (hlive : s.raised = false) (hholder : s.holder = some task)
    (hturn : Turn env s task t) : Sound { t with holder := none } := by
  have hm := h.marked hlive
  cases hturn with
  | @handled message outcome world hhandle =>
    have hfailed : ∀ other, LiveEvent.failed other ∉ s.trace ++ [.handled message outcome] := by
      intro other hmem
      obtain hold | hnew := List.mem_append.mp hmem
      · exact hm.failed other hold
      · cases List.mem_singleton.mp hnew
    refine ⟨taken_concat h.taken ?_, acksFinished_concat h.acks nofun, fun _ => ?_⟩
    · intro place hplace
      obtain ⟨rfl, -, -⟩ | ⟨-, -, ⟨rfl, -⟩ | ⟨-, -, hnew, -⟩⟩ := handle_returns hhandle
      · cases hplace
      · cases hplace
      · have heq : place = (message.partition, message.offset) := by
          cases outcome <;> cases hplace <;> rfl
        rw [heq]
        exact hm.not_taken hnew
    · obtain ⟨rfl, rfl, hwhy⟩ | ⟨hrun, hnoted, hcases⟩ := handle_returns hhandle
      · refine ⟨hm.flag, nofun, hm.stopped, fun other hfinished => ?_, fun other hmem => ?_,
          fun other hother => finished_mono (hm.pending other hother), hfailed⟩
        · obtain hold | ⟨outcome, hne, heq⟩ := finished_concat.mp hfinished
          · exact hm.past other hold
          · cases heq
            exact absurd rfl hne
        · obtain hold | hnew := List.mem_append.mp hmem
          · exact hm.unclaimed other hold
          · cases List.mem_singleton.mp hnew
            exact hwhy
      · have hne : outcome ≠ .unclaimed := by
          obtain ⟨rfl, -⟩ | ⟨hne, -⟩ := hcases
          · exact nofun
          · exact hne
        refine ⟨?_, nofun, ?_, fun other hfinished => ?_, fun other hmem => ?_, fun other hother => ?_,
          hfailed⟩
        · intro hstop
          exact hm.flag (hnoted.stopping.symm.trans hstop)
        · intro hstopped
          exact hnoted.stopping.trans (hm.stopped hstopped)
        · obtain hold | ⟨_, -, heq⟩ := finished_concat.mp hfinished
          · exact hnoted.forward other (hm.past other hold)
          · cases heq
            exact hnoted.past
        · obtain hold | hnew := List.mem_append.mp hmem
          · refine (hm.unclaimed other hold).imp (fun hstop => hnoted.stopping.trans hstop) ?_
            exact fun hnone => (hnoted.shards.contains other.partition).trans hnone
          · cases List.mem_singleton.mp hnew
            exact absurd rfl hne
        · have hlisted : other ∈ s.world.worker.claims.handled ++ [message] := hnoted.handled ▸ hother
          obtain hold | hnew := List.mem_append.mp hlisted
          · exact finished_mono (hm.pending other hold)
          · rw [List.mem_singleton.mp hnew]
            exact finished_concat.mpr (Or.inr ⟨outcome, hne, rfl⟩)
  | @failed message e world hhandle =>
    obtain ⟨-, -, hnew, -⟩ := handle_raises hhandle
    refine ⟨taken_concat h.taken ?_, acksFinished_concat h.acks nofun, nofun⟩
    intro place hplace
    cases hplace
    exact hm.not_taken hnew
  | quiet hmarks hshards =>
    refine ⟨h.taken, h.acks, fun _ => ⟨fun hstop => hm.flag (hmarks.stopping.symm.trans hstop), nofun,
      fun hstopped => hmarks.stopping.trans (hm.stopped hstopped),
      fun other hfinished => hmarks.past.mpr (hm.past other hfinished), fun other hmem => ?_,
      fun other hother => hm.pending other (hmarks.handled ▸ hother), hm.failed⟩⟩
    exact (hm.unclaimed other hmem).imp (fun hstop => hmarks.stopping.trans hstop)
      fun hnone => (hshards.contains other.partition).trans hnone
  | unflushed => exact ⟨h.taken, h.acks, nofun⟩
  | @committed _ world stopped raised hwho hworld =>
    have hquiet : ∀ other outcome, LiveEvent.handled other outcome ∈
        s.trace ++ [LiveEvent.flushed, .acknowledged s.world.worker.claims.handled] ↔
          LiveEvent.handled other outcome ∈ s.trace := by
      intro other outcome
      simp
    have hfinished : ∀ other, Finished
        (s.trace ++ [LiveEvent.flushed, .acknowledged s.world.worker.claims.handled]) other ↔
          Finished s.trace other := fun other =>
      exists_congr fun outcome => and_congr Iff.rfl (hquiet other outcome)
    refine ⟨?_, acksFinished_append h.acks fun before messages after heq => ?_, fun hraised => ?_⟩
    · have hnone : [LiveEvent.flushed, .acknowledged s.world.worker.claims.handled].filterMap
          LiveEvent.taken = [] := rfl
      show ((s.trace ++ _).filterMap LiveEvent.taken).Nodup
      rw [List.filterMap_append, hnone, List.append_nil]
      exact h.taken
    · -- The one acknowledgement comes right after the flush.
      cases before with
      | nil => cases (List.cons.inj heq).1
      | cons first before =>
        obtain ⟨rfl, hrest⟩ := List.cons.inj heq
        cases before with
        | nil =>
          obtain rfl := LiveEvent.acknowledged.inj (List.cons.inj hrest).1
          exact ⟨s.trace, rfl, hm.pending⟩
        | cons second before => exact absurd (List.cons.inj hrest).2 (by simp)
    · obtain ⟨hstopping, hshards, hhandled, hpositions⟩ := hworld hraised
      have hpast : ∀ other, world.worker.claims.Past other ↔ s.world.worker.claims.Past other := by
        intro other
        unfold ShardClaims.Past
        rw [hpositions]
      refine ⟨fun hstop => hm.flag (hstopping.symm.trans hstop), nofun, fun hstopped => ?_,
        fun other hother => (hpast other).mpr (hm.past other ((hfinished other).mp hother)),
        fun other hmem => ?_, fun other hother => ?_, fun other hmem => ?_⟩
      · rw [hstopping]
        obtain ⟨-, -, rfl⟩ | ⟨rfl, -⟩ := hwho
        · exact hm.stopped hstopped
        · exact hm.stop hholder
      · exact (hm.unclaimed other ((hquiet other _).mp hmem)).imp
          (fun hstop => hstopping.trans hstop)
          fun hnone => (hshards.contains other.partition).trans hnone
      · rw [hhandled] at hother
        cases hother
      · refine hm.failed other ?_
        simpa using hmem

theorem Sound.step (h : s.Sound) (action : LiveAction) : (s.step env action).Sound := by
  obtain hsame | ⟨hlive, hset | ⟨task, hfree, hstop, hacquire⟩ | ⟨task, t, hholder, hturn, hfinish⟩⟩ :=
    step_cases env s action
  · rw [hsame]
    exact h
  · have hm := h.marked hlive
    rw [hset]
    exact ⟨h.taken, h.acks, fun _ => ⟨fun _ => rfl, hm.stop, hm.stopped, hm.past, hm.unclaimed,
      hm.pending, hm.failed⟩⟩
  · have hm := h.marked hlive
    rw [hacquire]
    refine ⟨h.taken, h.acks, fun _ => ⟨fun hread => hread, fun hholder => ?_, fun hstopped => ?_,
      hm.past, fun message hmem => ?_, hm.pending, hm.failed⟩⟩
    · exact hstop (Option.some.inj hholder)
    · exact hm.flag (hm.stopped hstopped)
    · exact (hm.unclaimed message hmem).imp hm.flag fun hnone => hnone
  · rw [hfinish]
    exact h.turn hlive hholder hturn

theorem sound_start {s : World} (hhandled : s.worker.claims.handled = [])
    (hstopping : s.worker.stopping = false) : (start s).Sound := by
  refine ⟨List.nodup_nil, fun before _ _ heq => absurd heq (by simp [start]), fun _ =>
    ⟨fun hstop => ?_, nofun, nofun, ?_, nofun, fun message hmem => ?_, nofun⟩⟩
  · exact absurd (hstopping.symm.trans hstop) Bool.false_ne_true
  · rintro message ⟨outcome, -, hmem⟩
    cases hmem
  · have hnone : message ∈ s.worker.claims.handled := hmem
    rw [hhandled] at hnone
    cases hnone

/-! ### One message in a run -/

/-- The event that a message's handling puts on record says how `handle` ended. -/
theorem step_recorded {action : LiveAction} {event : LiveEvent}
    (h : (s.step env action).trace = s.trace ++ [event]) :
    s.raised = false ∧
      ((∃ message outcome, event = .handled message outcome ∧
          handle env message s.world = .ok outcome (s.step env action).world) ∨
        ∃ message e, event = .failed message ∧
          handle env message s.world = .error e (s.step env action).world) := by
  have hnew : s.trace ≠ s.trace ++ [event] := by simp
  obtain hsame | ⟨hlive, hset | ⟨task, hfree, hstop, hacquire⟩ | ⟨task, t, hholder, hturn, hfinish⟩⟩ :=
    step_cases env s action
  · rw [hsame] at h
    exact absurd h hnew
  · rw [hset] at h
    exact absurd h hnew
  · rw [hacquire] at h
    exact absurd h hnew
  · refine ⟨hlive, ?_⟩
    rw [hfinish] at h ⊢
    cases hturn with
    | handled hhandle =>
      obtain rfl := List.singleton_inj.mp (List.append_cancel_left h)
      exact Or.inl ⟨_, _, rfl, hhandle⟩
    | failed hhandle =>
      obtain rfl := List.singleton_inj.mp (List.append_cancel_left h)
      exact Or.inr ⟨_, _, rfl, hhandle⟩
    | quiet => exact absurd h hnew
    | unflushed => exact absurd h hnew
    | committed => exact absurd (List.append_cancel_left h) (by simp)

theorem Sound.handlesOnce (h : s.Sound) (action : LiveAction) (message : ConsumedMessage) :
    s.HandlesOnce env (s.step env action) message := by
  have hreturned : ∀ outcome, (s.step env action).trace = s.trace ++ [.handled message outcome] →
      s.Marked ∧ handle env message s.world = .ok outcome (s.step env action).world := by
    intro outcome htrace
    obtain ⟨hlive, ⟨_, _, heq, hhandle⟩ | ⟨_, _, heq, -⟩⟩ := step_recorded htrace
    · cases heq
      exact ⟨h.marked hlive, hhandle⟩
    · cases heq
  refine ⟨fun outcome htrace => ?_, fun outcome htrace hleft => ?_, fun outcome htrace hcopy => ?_,
    fun htrace => ?_⟩
  · obtain ⟨-, hhandle⟩ := hreturned outcome htrace
    obtain ⟨rfl, hworld, -⟩ | ⟨-, -, ⟨rfl, -, -, hwindows⟩ | ⟨-, -, -, -, heffect⟩⟩ :=
      handle_returns hhandle
    · rw [if_neg nofun, hworld]
      exact fun _ => rfl
    · rw [if_neg nofun]
      exact fun shard => congrArg (fun windows => windows.get? shard) hwindows
    · exact heffect
  · obtain ⟨-, hhandle⟩ := hreturned outcome htrace
    obtain ⟨-, hworld, -⟩ | ⟨-, -, ⟨-, -, hshared, hwindows⟩ | ⟨hunclaimed, hredelivered, -⟩⟩ :=
      handle_returns hhandle
    · rw [hworld]
      exact ⟨rfl, rfl⟩
    · exact ⟨hwindows, hshared⟩
    · exact absurd hleft (not_or.mpr ⟨hredelivered, hunclaimed⟩)
  · obtain ⟨hm, hhandle⟩ := hreturned outcome htrace
    obtain ⟨rfl, -, -⟩ | ⟨hrun, -, ⟨rfl, -⟩ | ⟨-, -, hnew, hheld, -⟩⟩ := handle_returns hhandle
    · exact Or.inr rfl
    · exact Or.inl rfl
    · exfalso
      obtain hpast | hstop | hnone := hm.delivered hcopy
      · exact hnew hpast
      · rw [hrun] at hstop
        cases hstop
      · rw [hheld] at hnone
        cases hnone
  · obtain ⟨hlive, ⟨_, _, heq, -⟩ | ⟨_, e, heq, hhandle⟩⟩ := step_recorded htrace
    · cases heq
    · cases heq
      obtain ⟨hrun, hheld, hnew, heffect⟩ := handle_raises hhandle
      refine ⟨fun hcopy => ?_, heffect⟩
      obtain hpast | hstop | hnone := (h.marked hlive).delivered hcopy
      · exact hnew hpast
      · rw [hrun] at hstop
        cases hstop
      · rw [hheld] at hnone
        cases hnone

/-! ### After the flag is set -/

/-- Of what came later at most one message was acted on: the one whose coroutine held the lock. -/
def InHand (s : Live) (later : List LiveEvent) : Prop :=
  later.filterMap LiveEvent.actedOn = [] ∨
    ∃ message, s.holder = some (.handle message) ∧ later.filterMap LiveEvent.actedOn = [message]

/-- What a turn adds to the record. -/
theorem turn_added (hturn : Turn env s task t) :
    t.stopping = s.stopping ∧ ∃ added, t.trace = s.trace ++ added ∧
      (added.filterMap LiveEvent.actedOn = [] ∨ ∃ message, task = .handle message ∧
        s.world.worker.stopping = false ∧ added.filterMap LiveEvent.actedOn = [message]) := by
  cases hturn with
  | @handled message outcome world hhandle =>
    refine ⟨rfl, _, rfl, ?_⟩
    obtain ⟨rfl, -, -⟩ | ⟨hrun, -, hcases⟩ := handle_returns hhandle
    · exact Or.inl rfl
    · refine Or.inr ⟨message, rfl, hrun, ?_⟩
      obtain ⟨rfl, -⟩ | ⟨hne, -⟩ := hcases
      · rfl
      · cases outcome with
        | unclaimed => exact absurd rfl hne
        | _ => rfl
  | @failed message e world hhandle =>
    exact ⟨rfl, _, rfl, Or.inr ⟨message, rfl, (handle_raises hhandle).1, rfl⟩⟩
  | quiet => exact ⟨rfl, [], (List.append_nil _).symm, Or.inl rfl⟩
  | unflushed => exact ⟨rfl, [], (List.append_nil _).symm, Or.inl rfl⟩
  | committed => exact ⟨rfl, _, rfl, Or.inl rfl⟩

/-- A run from where the flag is set: the coroutine that held the lock then still holds it, or every
later one has read the flag. -/
structure Closing (s u : Live) : Prop where
  flag : u.stopping = true
  trace : ∃ later, u.trace = s.trace ++ later ∧
    (u.holder = s.holder ∧ later.filterMap LiveEvent.actedOn = [] ∨
      (u.holder = none ∨ u.world.worker.stopping = true) ∧ s.InHand later)

theorem Closing.step {u : Live} (h : Closing s u) (action : LiveAction) :
    Closing s (u.step env action) := by
  obtain ⟨later, htrace, hphase⟩ := h.trace
  obtain hsame | ⟨-, hset | ⟨task, hfree, -, hacquire⟩ | ⟨task, t, hholder, hturn, hfinish⟩⟩ :=
    step_cases env u action
  · rw [hsame]
    exact h
  · rw [hset]
    exact ⟨rfl, later, htrace, hphase⟩
  · rw [hacquire]
    refine ⟨h.flag, later, htrace, Or.inr ⟨Or.inr h.flag, ?_⟩⟩
    obtain ⟨-, hnone⟩ | ⟨-, hhand⟩ := hphase
    · exact Or.inl hnone
    · exact hhand
  · obtain ⟨hflag, added, hadded, hacted⟩ := turn_added hturn
    rw [hfinish]
    refine ⟨hflag.trans h.flag, later ++ added, ?_, Or.inr ⟨Or.inl rfl, ?_⟩⟩
    · show t.trace = _
      rw [hadded, htrace, List.append_assoc]
    · unfold InHand
      rw [List.filterMap_append]
      obtain ⟨hsame, hnone⟩ | ⟨hread, hhand⟩ := hphase
      · rw [hnone, List.nil_append]
        obtain hquiet | ⟨message, rfl, -, hmessage⟩ := hacted
        · exact Or.inl hquiet
        · exact Or.inr ⟨message, hsame.symm.trans hholder, hmessage⟩
      · obtain hquiet | ⟨message, -, hrun, -⟩ := hacted
        · rw [hquiet, List.append_nil]
          exact hhand
        · -- The holder has read the flag, so that it leaves its message alone.
          obtain hnone | hstop := hread
          · rw [hholder] at hnone
            cases hnone
          · rw [hrun] at hstop
            cases hstop

theorem closing (hflag : s.stopping = true) (more : List LiveAction) :
    ∃ later, (more.foldl (step env) s).trace = s.trace ++ later ∧ s.InHand later := by
  have hclosing : Closing s (more.foldl (step env) s) :=
    invariant_foldl (I := Closing s) (fun u action h => h.step action)
      ⟨hflag, [], (List.append_nil _).symm, Or.inl ⟨rfl, rfl⟩⟩ more
  obtain ⟨later, htrace, ⟨-, hnone⟩ | ⟨-, hhand⟩⟩ := hclosing.trace
  · exact ⟨later, htrace, Or.inl hnone⟩
  · exact ⟨later, htrace, hhand⟩

/-- A run from where `stop` is done: messages are left alone, and nothing else goes on record. -/
structure Closed (s u : Live) : Prop where
  trace : ∃ later, u.trace = s.trace ++ later ∧ ∀ event ∈ later, ∃ message,
    event = .handled message .unclaimed
  stopped : u.raised = false →
    u.stopping = true ∧ u.stopped = true ∧ u.world.worker.stopping = true

theorem Closed.step {u : Live} (h : Closed s u) (action : LiveAction) :
    Closed s (u.step env action) := by
  obtain ⟨later, htrace, hlater⟩ := h.trace
  obtain hsame | ⟨hlive, hset | ⟨task, hfree, -, hacquire⟩ | ⟨task, t, hholder, hturn, hfinish⟩⟩ :=
    step_cases env u action
  · rw [hsame]
    exact h
  · rw [hset]
    exact ⟨⟨later, htrace, hlater⟩, fun _ => ⟨rfl, (h.stopped hlive).2⟩⟩
  · rw [hacquire]
    obtain ⟨hflag, hstopped, -⟩ := h.stopped hlive
    exact ⟨⟨later, htrace, hlater⟩, fun _ => ⟨hflag, hstopped, hflag⟩⟩
  · obtain ⟨hflag, hstopped, hread⟩ := h.stopped hlive
    rw [hfinish]
    cases hturn with
    | @handled message outcome world hhandle =>
      obtain ⟨rfl, rfl, -⟩ | ⟨hrun, -⟩ := handle_returns hhandle
      · refine ⟨⟨later ++ [.handled message .unclaimed], ?_, fun event hmem => ?_⟩,
          fun _ => ⟨hflag, hstopped, hread⟩⟩
        · show u.trace ++ _ = _
          rw [htrace, List.append_assoc]
        · obtain hold | hnew := List.mem_append.mp hmem
          · exact hlater event hold
          · exact ⟨message, List.mem_singleton.mp hnew⟩
      · rw [hread] at hrun
        cases hrun
    | failed hhandle =>
      have hrun := (handle_raises hhandle).1
      rw [hread] at hrun
      cases hrun
    | quiet hmarks hshards =>
      exact ⟨⟨later, htrace, hlater⟩, fun _ => ⟨hflag, hstopped, hmarks.stopping.trans hread⟩⟩
    | unflushed => exact ⟨⟨later, htrace, hlater⟩, nofun⟩
    | committed hwho =>
      obtain ⟨-, hrun, -⟩ | ⟨-, hrun⟩ := hwho
      · rw [hread] at hrun
        cases hrun
      · rw [hstopped] at hrun
        cases hrun

theorem Sound.closed (h : s.Sound) (hstopped : s.stopped = true) (more : List LiveAction) :
    ∃ later, (more.foldl (Live.step env) s).trace = s.trace ++ later ∧
      ∀ event ∈ later, ∃ message, event = .handled message .unclaimed := by
  have hclosed : Closed s (more.foldl (Live.step env) s) := by
    refine invariant_foldl (I := Closed s) (fun u action hu => hu.step action)
      ⟨⟨[], (List.append_nil _).symm, fun event hmem => absurd hmem List.not_mem_nil⟩,
        fun hlive => ?_⟩ more
    have hread := (h.marked hlive).stopped hstopped
    exact ⟨(h.marked hlive).flag hread, hstopped, hread⟩
  exact hclosed.trace

end Live

/-! ### The claim -/

/-- Claiming marks nothing. -/
theorem claimLoop_sameMarks {s t : World} {shards claimed : List ℕ}
    (h : claimLoop env shards claimed s = .ok ⟨⟩ t) : SameMarks s t := by
  induction shards generalizing s claimed with
  | nil =>
    cases h
    exact refl _
  | cons shard rest ih =>
    unfold claimLoop at h
    obtain ⟨_, _, hget, h⟩ := Program.bind_ok.mp h
    cases hget
    split_ifs at h
    · exact ih h
    · obtain ⟨answer, s₁, hlease, h⟩ := Program.bind_ok.mp h
      have hleased : SameMarks s s₁ :=
        .of_worker ((acquireLease_aside env shard _ _).of_ok hlease).worker
      cases answer with
      | some owner =>
        obtain ⟨⟨⟩, s₂, -, h⟩ := Program.bind_ok.mp h
        split_ifs at h <;> cases h
      | none =>
        obtain ⟨⟨⟩, s₂, hopen, h⟩ := Program.bind_ok.mp h
        obtain ⟨w, -, -, -, hworker⟩ := openWindow_ok hopen
        refine (hleased.trans ⟨?_, ?_, ?_⟩).trans (ih h)
        · rw [hworker]
        · rw [hworker]
        · rw [hworker]

theorem Started.sound {shared : Shared} {config : DetectionConfig} {batch : ℤ} {s : World}
    (h : Started env shared config batch s) : (Live.start s).Sound := by
  obtain ⟨memberId, instanceId, leaseTtlS, maxTrackedIps, partitions, h⟩ := h.claim
  unfold onAssigned at h
  split_ifs at h
  · cases h
  · have hmarks := claimLoop_sameMarks h
    exact Live.sound_start hmarks.handled hmarks.stopping

/-- **Exactly once under one claim.** In every run a place of the log is taken up at most once, only
finished messages are acknowledged, after a flush, and a copy changes nothing. Once the flag is set,
no message is acted on but the one whose coroutine holds the lock, and once `stop` is done nothing is
acknowledged. -/
theorem exactly_once (env : Env) {shared : Shared} {config : DetectionConfig} {batch : ℤ}
    {s₀ : World} (hstarted : Started env shared config batch s₀) (actions : List LiveAction) :
    let s := actions.foldl (Live.step env) (.start s₀)
    (s.trace.filterMap LiveEvent.taken).Nodup ∧ Live.AcksFinished s.trace ∧
      (∀ action message, s.HandlesOnce env (s.step env action) message) ∧
      ∀ more : List LiveAction,
        (s.stopping = true → ∃ later,
          (more.foldl (Live.step env) s).trace = s.trace ++ later ∧ s.InHand later) ∧
        (s.stopped = true → ∃ later,
          (more.foldl (Live.step env) s).trace = s.trace ++ later ∧
            ∀ event ∈ later, ∃ message, event = .handled message .unclaimed) := by
  intro s
  have hsound : s.Sound :=
    invariant_foldl (I := Live.Sound) (fun s action h => h.step action) hstarted.sound actions
  exact ⟨hsound.taken, hsound.acks, fun action message => hsound.handlesOnce action message,
    fun more => ⟨fun hflag => Live.closing hflag more, fun hstopped => hsound.closed hstopped more⟩⟩

/-- A message that gets the lock at once and whose handling returns. -/
theorem Live.step_handle {s : Live} {message : ConsumedMessage} {outcome : ObservationOutcome}
    {world : World} (hlive : s.raised = false) (hfree : s.holder = none)
    (hread : s.world.worker.stopping = s.stopping)
    (hhandle : handle env message s.world = .ok outcome world) (answers : CommitAnswers) :
    [.acquire (.handle message), .finish answers].foldl (Live.step env) s =
      { s with world, trace := s.trace ++ [.handled message outcome] } := by
  obtain ⟨⟨shared, ⟨config, batch, claims, flag⟩⟩, stopping, holder, stopped, raised, trace⟩ := s
  obtain rfl : raised = false := hlive
  obtain rfl : holder = none := hfree
  obtain rfl : flag = stopping := hread
  simp [Live.step, Live.perform, Task.Asks, hhandle]

/-- A message that is delivered twice is applied once. -/
theorem exactly_once_redelivered : ∃ (env : Env) (shared : Shared) (config : DetectionConfig)
    (s₀ : World) (message : ConsumedMessage) (actions : List LiveAction),
    Started env shared config 1000 s₀ ∧
      let s := actions.foldl (Live.step env) (.start s₀)
      s.trace = [.handled message .applied, .handled message .redelivered] ∧
        (s.trace.filterMap LiveEvent.taken).Nodup := by
  obtain ⟨message, eventId, s, w, hmake, hstarted, htick, hrun, hconfig, hw, hfirst, hdecode⟩ :=
    exists_first_message fun _ => 0
  obtain ⟨change, w', hobserve, hquiet⟩ : ∃ change w', w.observe ⟨.ipv4, 1, by decide⟩
      (bucketStart 0 w.config.bucketSeconds) 5 0 = .ok (some change, w') ∧
      (edgeOf w' ⟨.ipv4, 1, by decide⟩ Ingest.defaultConfig).current =
        w'.state ⟨.ipv4, 1, by decide⟩ := by
    cases hmake
    exact ⟨_, _, rfl, rfl⟩
  have hclass : classifyObservation 0 10 0 s.worker.config = .applied := by
    rw [hconfig]
    rfl
  obtain ⟨t, ht, -⟩ := handle_quiet hrun hw hfirst hdecode hclass hobserve (hconfig ▸ hquiet)
  -- The position is past the message when its copy comes.
  obtain ⟨hunclaimed, -⟩ | ⟨-, hnoted, -⟩ := handle_returns ht
  · cases hunclaimed
  have hstopping : t.worker.stopping = false := hnoted.stopping.trans hrun
  have hheld : t.worker.claims.windows.contains message.partition = true :=
    (hnoted.shards.contains _).trans (congrArg Option.isSome hw)
  obtain ⟨u, hmark, -⟩ := mark_returns hheld
  have hu : handle (interpreterEnv (fun _ => 0) fun _ => .returns) message t =
      .ok .redelivered u := by
    rw [handle_redelivered hstopping hheld fun hagain => first_iff.mp hagain hnoted.past]
    exact Program.bind_ok.mpr ⟨⟨⟩, u, hmark, rfl⟩
  have htwice := Live.step_handle (s := { Live.start s with
    world := t, trace := [.handled message .applied] }) rfl rfl hstopping hu ⟨true, true⟩
  have honce := Live.step_handle (s := Live.start s) rfl rfl hrun ht ⟨true, true⟩
  refine ⟨interpreterEnv (fun _ => 0) fun _ => .returns, _, _, s, message,
    [.acquire (.handle message), .finish ⟨true, true⟩] ++
      [.acquire (.handle message), .finish ⟨true, true⟩], hstarted, ?_,
    (exactly_once _ hstarted _).1⟩
  rw [List.foldl_append, honce]
  exact congrArg Live.trace htwice

end Hammertime.Aggregator
