import Mathlib.Logic.Function.Basic
import Mathlib.Tactic
import Hammertime.Lib.Machine

/-!
# The Redis dedup store

`RedisDedupStore` of `hammertime.store.redis`. A pair `(agent_id, sequence)` is one key, of which only
the existence and the expiry matter, so everything here is about one key. `claim` is one command, and
`mark_seen` up to three: `SET NX EX`, then `EXPIRE GT` if the key was there, then `SET NX EX` again if
that extended nothing. Each command is atomic, and between two commands of a call the other calls and
the clock go on.

Times are in milliseconds, the unit in which Redis keeps an expiry.
-/

namespace Hammertime.Store.RedisDedup

open Lib

/-- The two calls that write. -/
inductive Kind where
  | markSeen
  | claim
deriving DecidableEq

/-- The next command of a call, or that it has returned. -/
inductive Stage where
  /-- `SET key 1 EX ttl NX`. -/
  | setNx
  /-- `EXPIRE key ttl GT`, since the key was there. -/
  | expireGt
  /-- The second `SET key 1 EX ttl NX`, since the expiry was not moved. -/
  | setNxAgain
  | returned
deriving DecidableEq

/-- A call in progress, or one that has returned. -/
structure Call where
  kind : Kind
  ttlSeconds : ℤ
  /-- When the call was issued. -/
  issued : ℤ
  stage : Stage

/-- The time until which the call's pair has to be seen. -/
def Call.deadline (call : Call) : ℤ := call.issued + 1000 * call.ttlSeconds

/-- The server's clock and key, and the calls of all clients. -/
structure State where
  now : ℤ
  /-- When the key expires; one that has expired is gone. -/
  key : Option ℤ
  calls : ℕ → Option Call

namespace State

variable (s : State)

/-- The expiry of the key while it exists. -/
def live : Option ℤ := s.key.filter (s.now < ·)

/-- When a key set now with the call's `ttl` expires. -/
def expiry (call : Call) : ℤ := s.now + 1000 * call.ttlSeconds

/-- A call goes on to a stage. -/
def advance (id : ℕ) (call : Call) (stage : Stage) : State :=
  { s with calls := Function.update s.calls id (some { call with stage }) }

/-- `SET key 1 EX ttl NX`, and where the call goes from there. -/
def setNx (id : ℕ) (call : Call) (refused : Stage) : State :=
  match s.live with
  | none => { s with key := some (s.expiry call) }.advance id call .returned
  | some _ => s.advance id call refused

/-- `EXPIRE key ttl GT`: only a key that exists and expires earlier is extended. -/
def expireGt (id : ℕ) (call : Call) : State :=
  match s.live with
  | none => s.advance id call .setNxAgain
  | some e =>
    if e < s.expiry call then { s with key := some (s.expiry call) }.advance id call .returned
    else s.advance id call .setNxAgain

/-- The next command of a call. A `claim` returns after its one command. -/
def command (id : ℕ) (call : Call) : State :=
  match call.stage with
  | .setNx =>
    match call.kind with
    | .markSeen => s.setNx id call .expireGt
    | .claim => s.setNx id call .returned
  | .expireGt => s.expireGt id call
  | .setNxAgain => s.setNx id call .returned
  | .returned => s

end State

/-- What happens next. -/
inductive Action where
  /-- The clock goes on. -/
  | wait (milliseconds : ℕ)
  /-- A client issues a call. A `ttl_seconds` that is not positive raises before any command. -/
  | issue (id : ℕ) (kind : Kind) (ttlSeconds : ℤ)
  /-- The next command of a call. -/
  | command (id : ℕ)

/-- One step. -/
def step (s : State) : Action → State
  | .wait milliseconds => { s with now := s.now + milliseconds }
  | .issue id kind ttlSeconds =>
    if ttlSeconds ≤ 0 ∨ (s.calls id).isSome then s
    else { s with calls := Function.update s.calls id (some ⟨kind, ttlSeconds, s.now, .setNx⟩) }
  | .command id =>
    match s.calls id with
    | none => s
    | some call => s.command id call

/-- A server with its key in any state, before any call. -/
def start (now : ℤ) (key : Option ℤ) : State := ⟨now, key, fun _ => none⟩

/-! ### What a command does to the key -/

theorem live_eq_some {s : State} {e : ℤ} : s.live = some e ↔ s.key = some e ∧ s.now < e := by
  unfold State.live
  rw [Option.filter_eq_some_iff, decide_eq_true_eq]

/-- Why a call goes on without touching the key, and where. -/
inductive Passes (s : State) (call : Call) : Stage → Prop
  | found : call.stage = .setNx → Passes s call .expireGt
  | refused : call.kind = .claim → Passes s call .returned
  | unextended : (∀ e, s.live = some e → s.expiry call ≤ e) → Passes s call .setNxAgain
  | foundAgain (e : ℤ) : call.stage = .setNxAgain → s.live = some e → Passes s call .returned

/-- A command leaves the key, creates one that is not there, or extends one. -/
theorem command_cases (s : State) (id : ℕ) (call : Call) (hr : call.stage ≠ .returned) :
    (∃ stage, Passes s call stage ∧ s.command id call = s.advance id call stage) ∨
      (s.live = none ∧ call.stage ≠ .expireGt ∧
        s.command id call = { s with key := some (s.expiry call) }.advance id call .returned) ∨
      ∃ e, s.live = some e ∧ e < s.expiry call ∧
        s.command id call = { s with key := some (s.expiry call) }.advance id call .returned := by
  cases hlive : s.live with
  | none =>
    cases hstage : call.stage with
    | returned => exact absurd hstage hr
    | expireGt =>
      refine Or.inl ⟨.setNxAgain, .unextended fun e he => ?_, ?_⟩
      · rw [hlive] at he
        cases he
      · simp only [State.command, State.expireGt, hstage, hlive]
    | setNx =>
      refine Or.inr (Or.inl ⟨rfl, by decide, ?_⟩)
      cases hkind : call.kind <;> simp only [State.command, State.setNx, hstage, hkind, hlive]
    | setNxAgain =>
      refine Or.inr (Or.inl ⟨rfl, by decide, ?_⟩)
      simp only [State.command, State.setNx, hstage, hlive]
  | some e =>
    cases hstage : call.stage with
    | returned => exact absurd hstage hr
    | expireGt =>
      by_cases he : e < s.expiry call
      · refine Or.inr (Or.inr ⟨e, rfl, he, ?_⟩)
        simp only [State.command, State.expireGt, hstage, hlive, if_pos he]
      · refine Or.inl ⟨.setNxAgain, .unextended fun e' he' => ?_, ?_⟩
        · rw [hlive] at he'
          cases he'
          exact not_lt.mp he
        · simp only [State.command, State.expireGt, hstage, hlive, if_neg he]
    | setNx =>
      cases hkind : call.kind with
      | markSeen =>
        refine Or.inl ⟨.expireGt, .found hstage, ?_⟩
        simp only [State.command, State.setNx, hstage, hkind, hlive]
      | claim =>
        refine Or.inl ⟨.returned, .refused hkind, ?_⟩
        simp only [State.command, State.setNx, hstage, hkind, hlive]
    | setNxAgain =>
      refine Or.inl ⟨.returned, .foundAgain e hstage hlive, ?_⟩
      simp only [State.command, State.setNx, hstage, hlive]

theorem step_command {s : State} {id : ℕ} {call : Call} (h : s.calls id = some call) :
    step s (.command id) = s.command id call := by
  simp only [step, h]

theorem step_command_none {s : State} {id : ℕ} (h : s.calls id = none) :
    step s (.command id) = s := by
  simp only [step, h]

theorem command_returned {s : State} {id : ℕ} {call : Call} (h : call.stage = .returned) :
    s.command id call = s := by
  simp only [State.command, h]

/-- No step shortens the life of a key that exists. -/
theorem step_live {s : State} {e : ℤ} (h : s.live = some e) (a : Action)
    (hnow : (step s a).now < e) : ∃ e', (step s a).live = some e' ∧ e ≤ e' := by
  obtain ⟨hkey, hlt⟩ := live_eq_some.mp h
  cases a with
  | wait milliseconds => exact ⟨e, live_eq_some.mpr ⟨hkey, hnow⟩, le_refl e⟩
  | issue id kind ttlSeconds =>
    simp only [step]
    split_ifs
    · exact ⟨e, h, le_refl e⟩
    · exact ⟨e, h, le_refl e⟩
  | command id =>
    cases hcall : s.calls id with
    | none =>
      rw [step_command_none hcall]
      exact ⟨e, h, le_refl e⟩
    | some call =>
      rw [step_command hcall]
      by_cases hr : call.stage = .returned
      · rw [command_returned hr]
        exact ⟨e, h, le_refl e⟩
      · obtain ⟨stage, -, hstep⟩ | ⟨hnone, -, -⟩ | ⟨e', he', hlt', hstep⟩ := command_cases s id call hr
        · rw [hstep]
          exact ⟨e, h, le_refl e⟩
        · rw [h] at hnone
          cases hnone
        · rw [h] at he'
          cases he'
          rw [hstep]
          exact ⟨_, live_eq_some.mpr ⟨rfl, hlt.trans hlt'⟩, hlt'.le⟩

/-! ### The promise of a call -/

/-- What a call that is done with extending, or has returned, can say of the key. -/
def Call.Kept (call : Call) (s : State) : Prop :=
  match call.stage with
  | .setNxAgain => ∀ e, s.live = some e → s.now < call.deadline → call.deadline ≤ e
  | .returned => call.kind = .markSeen → s.now < call.deadline →
      ∃ e, s.key = some e ∧ call.deadline ≤ e
  | _ => True

/-- Every call was issued in the past, and what it can say of the key is true. -/
def Promised (s : State) : Prop :=
  ∀ id call, s.calls id = some call →
    call.issued ≤ s.now ∧ call.Kept s

/-- No key is created with an earlier expiry than a call has to reach that has found no key to extend
and is about to set it. -/
def Undisturbed (s : State) : Action → Prop
  | .command id => ∀ call, s.calls id = some call → call.stage ≠ .expireGt → s.live = none →
      ∀ other c, other ≠ id → s.calls other = some c → c.stage = .setNxAgain →
        c.deadline ≤ s.expiry call
  | _ => True

theorem Call.Kept.wait {call : Call} {s : State} (h : call.Kept s) (milliseconds : ℕ) :
    call.Kept { s with now := s.now + milliseconds } := by
  unfold Call.Kept at h ⊢
  have hmono : s.now ≤ s.now + milliseconds := by omega
  split at h
  · intro e he hlt
    obtain ⟨hkey, hlive⟩ := live_eq_some.mp he
    exact h e (live_eq_some.mpr ⟨hkey, hmono.trans_lt hlive⟩) (hmono.trans_lt hlt)
  · exact fun hk hlt => h hk (hmono.trans_lt hlt)
  · trivial

/-- A key that is extended keeps every promise. -/
theorem Call.Kept.extended {call : Call} {s : State} (h : call.Kept s) {e e' : ℤ}
    (hlive : s.live = some e) (hlt : e < e') : call.Kept { s with key := some e' } := by
  obtain ⟨hkey, hnow⟩ := live_eq_some.mp hlive
  unfold Call.Kept at h ⊢
  split at h
  · intro e'' he'' hd
    obtain ⟨hkey'', -⟩ := live_eq_some.mp he''
    cases hkey''
    exact (h e hlive hd).trans hlt.le
  · intro hk hd
    obtain ⟨e'', he'', hle⟩ := h hk hd
    rw [hkey] at he''
    cases he''
    exact ⟨e', rfl, hle.trans hlt.le⟩
  · trivial

/-- A key that is created keeps every promise but that of a call about to set it. -/
theorem Call.Kept.created {call : Call} {s : State} (h : call.Kept s) {e' : ℤ}
    (hlive : s.live = none) (hset : call.stage = .setNxAgain → call.deadline ≤ e') :
    call.Kept { s with key := some e' } := by
  unfold Call.Kept at h ⊢
  split at h
  · next hstage =>
    intro e'' he'' _
    obtain ⟨hkey'', -⟩ := live_eq_some.mp he''
    cases hkey''
    exact hset hstage
  · intro hk hd
    -- The key would still exist.
    obtain ⟨e, he, hle⟩ := h hk hd
    have : s.live = some e := live_eq_some.mpr ⟨he, hd.trans_le hle⟩
    rw [hlive] at this
    cases this
  · trivial

/-- A call that has just set or extended the key has reached its deadline. -/
theorem deadline_le_expiry {call : Call} {s : State} (h : call.issued ≤ s.now) :
    call.deadline ≤ s.expiry call := by
  unfold Call.deadline State.expiry
  omega

/-- A call that goes on without touching the key says what it can of it. -/
theorem Passes.kept {s : State} {call : Call} {stage : Stage} (h : Passes s call stage)
    (hissued : call.issued ≤ s.now) (hkept : call.Kept s) :
    ({ call with stage } : Call).Kept s := by
  cases h with
  | found _ => trivial
  | refused hkind =>
    intro hmark
    rw [hkind] at hmark
    cases hmark
  | unextended he => exact fun e hlive _ => (deadline_le_expiry hissued).trans (he e hlive)
  | foundAgain e hstage hlive =>
    intro _ hlt
    have hkept' : ∀ e, s.live = some e → s.now < call.deadline → call.deadline ≤ e := by
      simpa only [Call.Kept, hstage] using hkept
    exact ⟨e, (live_eq_some.mp hlive).1, hkept' e hlive hlt⟩

/-- A step of one call, for what every other call says. -/
theorem promised_advance {s : State} (h : Promised s) {key : Option ℤ} {id : ℕ} {call : Call}
    {stage : Stage} (hcall : s.calls id = some call)
    (hself : ({ call with stage } : Call).Kept { s with key })
    (hothers : ∀ other c, other ≠ id → s.calls other = some c → c.Kept s → c.Kept { s with key }) :
    Promised ({ s with key }.advance id call stage) := by
  intro other c hc
  have hc' : Function.update s.calls id (some { call with stage }) other = some c := hc
  by_cases ho : other = id
  · rw [ho, Function.update_self] at hc'
    cases hc'
    exact ⟨(h id call hcall).1, hself⟩
  · rw [Function.update_of_ne ho] at hc'
    exact ⟨(h other c hc').1, hothers other c ho hc' (h other c hc').2⟩

theorem promised_step {s : State} (h : Promised s) (a : Action) (ha : Undisturbed s a) :
    Promised (step s a) := by
  cases a with
  | wait milliseconds =>
    intro id call hcall
    obtain ⟨hissued, hkept⟩ := h id call hcall
    exact ⟨hissued.trans (by simp [step]), hkept.wait milliseconds⟩
  | issue id kind ttlSeconds =>
    simp only [step]
    split_ifs with hrefused
    · exact h
    · intro other c hc
      have hc' : Function.update s.calls id (some ⟨kind, ttlSeconds, s.now, .setNx⟩) other =
          some c := hc
      by_cases ho : other = id
      · rw [ho, Function.update_self] at hc'
        cases hc'
        exact ⟨le_refl _, trivial⟩
      · rw [Function.update_of_ne ho] at hc'
        exact h other c hc'
  | command id =>
    cases hcall : s.calls id with
    | none =>
      rw [step_command_none hcall]
      exact h
    | some call =>
      rw [step_command hcall]
      by_cases hr : call.stage = .returned
      · rw [command_returned hr]
        exact h
      obtain ⟨hissued, hkept⟩ := h id call hcall
      -- A call that set or extended the key has reached its deadline.
      have hself : ({ call with stage := .returned } : Call).Kept
          { s with key := some (s.expiry call) } :=
        fun _ _ => ⟨_, rfl, deadline_le_expiry hissued⟩
      obtain ⟨stage, hpass, hstep⟩ | ⟨hnone, hstage, hstep⟩ | ⟨e, he, hlt, hstep⟩ :=
        command_cases s id call hr
      · rw [hstep]
        exact promised_advance h hcall (hpass.kept hissued hkept) fun _ _ _ _ hc => hc
      · rw [hstep]
        refine promised_advance h hcall hself fun other c ho hc hk => hk.created hnone fun hset => ?_
        exact ha call hcall hstage hnone other c ho hc hset
      · rw [hstep]
        exact promised_advance h hcall hself fun other c ho hc hk => hk.extended he hlt

/-- In every run in which no call creates the key, with too short a life, between the `EXPIRE` of a
`mark_seen` that found no key and its second `SET NX`: a `mark_seen` that has returned before its
deadline has left a key that expires no earlier than it, and no step shortens the life of a key. -/
theorem mark_seen_retains (now : ℤ) (key : Option ℤ) (actions : List Action)
    (h : Along step Undisturbed (start now key) actions) :
    (∀ id call, (actions.foldl step (start now key)).calls id = some call →
      call.kind = .markSeen → call.stage = .returned →
      (actions.foldl step (start now key)).now < call.deadline →
      ∃ e, (actions.foldl step (start now key)).live = some e ∧ call.deadline ≤ e) ∧
    ∀ e a, (actions.foldl step (start now key)).live = some e →
      (step (actions.foldl step (start now key)) a).now < e →
      ∃ e', (step (actions.foldl step (start now key)) a).live = some e' ∧ e ≤ e' := by
  have hinv : Promised (actions.foldl step (start now key)) :=
    h.invariant (fun s a hs ha => promised_step hs a ha) fun id call hcall => by cases hcall
  refine ⟨fun id call hcall hkind hstage hlt => ?_, fun e a he hnow => step_live he a hnow⟩
  have hkept : call.kind = .markSeen →
      (actions.foldl step (start now key)).now < call.deadline →
      ∃ e, (actions.foldl step (start now key)).key = some e ∧ call.deadline ≤ e := by
    simpa only [Call.Kept, hstage] using (hinv id call hcall).2
  obtain ⟨e, he, hle⟩ := hkept hkind hlt
  exact ⟨e, live_eq_some.mpr ⟨he, hlt.trans_le hle⟩, hle⟩

/-- The calls of the example: a claim, a `mark_seen` that finds its key and then loses it, and a claim
that sets it again in between. -/
def race : List Action :=
  [.issue 0 .claim 1, .command 0, .wait 500, .issue 1 .markSeen 100, .command 1, .wait 500,
    .command 1, .issue 2 .claim 1, .command 2, .command 1]

/-- Without the second claim the run is undisturbed. -/
theorem mark_seen_retains_alone :
    Along step Undisturbed (start 0 none)
        [.issue 0 .claim 1, .command 0, .wait 500, .issue 1 .markSeen 100, .command 1, .command 1] ∧
      ∃ e, (([.issue 0 .claim 1, .command 0, .wait 500, .issue 1 .markSeen 100, .command 1,
        .command 1] : List Action).foldl step (start 0 none)).live = some e ∧ 100500 ≤ e := by
  have hrun : Along step Undisturbed (start 0 none)
      [.issue 0 .claim 1, .command 0, .wait 500, .issue 1 .markSeen 100, .command 1,
        .command 1] := by
    refine ⟨trivial, ?_, trivial, trivial, ?_, ?_, trivial⟩
    · intro call hcall _ _ other c ho hc
      have hnone : Function.update (fun _ : ℕ => (none : Option Call)) 0
          (some ⟨.claim, 1, 0, .setNx⟩) other = some c := hc
      rw [Function.update_of_ne ho] at hnone
      cases hnone
    · intro call hcall _ hlive
      cases hlive
    · intro call hcall _ hlive
      cases hlive
  refine ⟨hrun, ?_⟩
  exact (mark_seen_retains 0 none _ hrun).1 1 ⟨.markSeen, 100, 500, .returned⟩ rfl rfl rfl (by decide)

/-- A `mark_seen` of 100 s issued at 500 ms returns at 1000 ms, and its key expires at 2000 ms. -/
theorem mark_seen_loses_the_race :
    (race.foldl step (start 0 none)).calls 1 = some ⟨.markSeen, 100, 500, .returned⟩ ∧
      (race.foldl step (start 0 none)).now = 1000 ∧
      (race.foldl step (start 0 none)).live = some 2000 ∧
      (2000 : ℤ) < Call.deadline ⟨.markSeen, 100, 500, .returned⟩ :=
  ⟨rfl, rfl, rfl, by decide⟩

end Hammertime.Store.RedisDedup
