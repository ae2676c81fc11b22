import Hammertime.Aggregator.Consistency
import Hammertime.Lib.Machine

/-!
# Owners that come and go

The history of the shards under single ownership: an owner claims a shard by loading its durable
state, works on its window, and may be lost between any two effects of an evaluation; then another
owner claims the shard. What is durable is the store and the log, and the memory of an owner is its
window with the evaluation in progress.

`History.step` runs the effects of `evaluate` one at a time, with the programs that `emit` is made
of; `evaluation_steps` says that an evaluation that nothing interrupts is `evaluate`. The sequence
numbers that a shard publishes increase across all its owners. The store is written before the log,
which keeps every promotion known to the next owner; of a demotion it is the other way round.
-/

namespace Hammertime.Aggregator

open Lib

/-! ### The machine -/

/-- Where an evaluation stands between two of its effects. -/
inductive Stage where
  | decided
  | taken (sequence : ℕ)
  | encoded (sequence : ℕ) (eventId : String) (value : Bytes)
  | persisted (sequence : ℕ) (eventId : String) (value : Bytes)
  | published

/-- An evaluation in progress. -/
structure Pending where
  ip : Address
  edge : Edge
  config : DetectionConfig
  stage : Stage

/-- The memory of the process that owns a shard. -/
structure Owner where
  window : ShardWindow
  pending : Option Pending

/-- What is durable, and the present owner of each shard. -/
structure History where
  shared : Shared
  owners : ℕ → Option Owner

/-- The methods of a window that announce nothing. -/
inductive Upkeep where
  | observe (ip : Address) (start delta : ℤ)
  | expireDue
  | finishWarmupIfDue
  | evictDue
  | adoptConfig (config : DetectionConfig)

/-- What happens to a shard. -/
inductive Action where
  | claim (config : DetectionConfig) (maxTrackedIps : ℤ)
  | crash
  | upkeep (method : Upkeep)
  | evaluate (ip : Address) (config : DetectionConfig)
  | proceed

section

variable (env : Env)

/-- The program of a method; what it answers is dropped. -/
def Upkeep.program : Upkeep → Program Failure Scope PUnit
  | .observe ip start delta => do
    let _ ← Aggregator.observe env ip start delta
  | .expireDue => do
    let _ ← Aggregator.expireDue env
  | .finishWarmupIfDue => do
    let _ ← Aggregator.finishWarmupIfDue env
  | .evictDue => do
    let _ ← Aggregator.evictDue env
  | .adoptConfig config => Aggregator.adoptConfig env config

/-- The next effect of an evaluation, and where it stands then; none once it is over. -/
def Pending.program (pending : Pending) : Program Failure Scope (Option Stage) :=
  match pending.stage with
  | .decided => do
    let sequence ← takeSequence
    pure (some (.taken sequence))
  | .taken sequence => do
    let (eventId, value) ← prepare env pending.ip pending.edge sequence pending.config
    pure (some (.encoded sequence eventId value))
  | .encoded sequence eventId value => do
    persist env pending.ip pending.edge.current sequence
    pure (some (.persisted sequence eventId value))
  | .persisted _ eventId value => do
    announce env pending.ip eventId value
    pure (some .published)
  | .published => do
    remember pending.ip pending.edge.current
    pure none

/-- The claim of a shard whose lease is taken: load its state and build its window. -/
def claimWindow (shard : ℕ) (config : DetectionConfig) (maxTrackedIps : ℤ) :
    Program Failure Shared ShardWindow := do
  let state ← Shared.load env shard
  let now ← Shared.readClock env
  let inheritedHot ← Shared.iterate env state.hotIps
  match ShardWindow.make shard config now inheritedHot state.nextSequence maxTrackedIps with
  | .ok window => pure window
  | .error e => throw e

/-- The owner works on its window alone, when no evaluation is in progress. -/
def Owner.keepUp (shared : Shared) (owner : Owner) (method : Upkeep) : Shared × Owner :=
  match owner.pending with
  | some _ => (shared, owner)
  | none =>
    let scope := Program.after (method.program env ⟨shared, owner.window⟩)
    (scope.shared, ⟨scope.window, none⟩)

/-- The owner starts an evaluation: what there is to announce is decided. -/
def Owner.decide (shared : Shared) (owner : Owner) (ip : Address) (config : DetectionConfig) :
    Shared × Owner :=
  match owner.pending with
  | some _ => (shared, owner)
  | none =>
    match decideEdge env ip config ⟨shared, owner.window⟩ with
    | .ok none scope => (scope.shared, ⟨scope.window, none⟩)
    | .ok (some edge) scope => (scope.shared, ⟨scope.window, some ⟨ip, edge, config, .decided⟩⟩)
    | .error _ scope => (scope.shared, ⟨scope.window, none⟩)

/-- The evaluation in progress has its next effect. One that raises is over. -/
def Owner.proceed (shared : Shared) (owner : Owner) : Shared × Owner :=
  match owner.pending with
  | none => (shared, owner)
  | some pending =>
    match pending.program env ⟨shared, owner.window⟩ with
    | .ok next scope =>
      (scope.shared, ⟨scope.window, next.map fun stage => { pending with stage := stage }⟩)
    | .error _ scope => (scope.shared, ⟨scope.window, none⟩)

/-- The history once the owner of the shard, if there is one, has done something. -/
def History.own (h : History) (shard : ℕ) (f : Shared → Owner → Shared × Owner) : History :=
  match h.owners shard with
  | none => h
  | some owner =>
    ⟨(f h.shared owner).1, Function.update h.owners shard (some (f h.shared owner).2)⟩

/-- One step. A shard that has an owner is not claimed. -/
def History.step (h : History) : ℕ × Action → History
  | (shard, .claim config maxTrackedIps) =>
    match h.owners shard with
    | some _ => h
    | none =>
      match claimWindow env shard config maxTrackedIps h.shared with
      | .ok window shared => ⟨shared, Function.update h.owners shard (some ⟨window, none⟩)⟩
      | .error _ shared => ⟨shared, h.owners⟩
  | (shard, .crash) => ⟨h.shared, Function.update h.owners shard none⟩
  | (shard, .upkeep method) => h.own shard fun shared owner => owner.keepUp env shared method
  | (shard, .evaluate ip config) =>
    h.own shard fun shared owner => owner.decide env shared ip config
  | (shard, .proceed) => h.own shard fun shared owner => owner.proceed env shared

end

/-- The state before the first claim of any shard: the hot-ip log is empty. -/
def History.start (shared : Shared) : History :=
  ⟨{ shared with hotIp := ⟨[], ∅⟩ }, fun _ => none⟩

/-! ### What a step can do -/

section

variable {env : Env}

theorem Upkeep.silent (env : Env) (method : Upkeep) :
    Program.Within Silent (method.program env) := by
  cases method with
  | observe ip start delta =>
    exact Program.Within.bind (observe_silent env ip start delta) fun _ => Program.Within.pure _
  | expireDue => exact Program.Within.bind (expireDue_silent env) fun _ => Program.Within.pure _
  | finishWarmupIfDue =>
    exact Program.Within.bind (finishWarmupIfDue_silent env) fun _ => Program.Within.pure _
  | evictDue => exact Program.Within.bind (evictDue_silent env) fun _ => Program.Within.pure _
  | adoptConfig config => exact adoptConfig_silent env config

/-- A claim changes nothing that is durable, and a new owner counts on from where the store is. -/
theorem claimWindow_cases (env : Env) (shard : ℕ) (config : DetectionConfig) (maxTrackedIps : ℤ)
    (s : Shared) :
    (∃ w t, claimWindow env shard config maxTrackedIps s = .ok w t ∧ s.Later t ∧ w.shard = shard ∧
        w.nextSequence = (s.store.load shard).nextSequence) ∨
      ∃ e t, claimWindow env shard config maxTrackedIps s = .error e t ∧ s.Later t := by
  have hload : Shared.load env shard s = _ := Shared.call_eq rfl
  unfold claimWindow
  rw [Program.bind_apply, hload]
  cases env.outcome s.tick with
  | raises applied =>
    cases applied <;> exact Or.inr ⟨_, _, rfl, Shared.Later.advance s⟩
  | returns =>
    have hlater : s.Later s.advance.advance.advance :=
      ((Shared.Later.advance _).trans (Shared.Later.advance _)).trans (Shared.Later.advance _)
    have hprog : ∀ state : ShardState, (Shared.readClock env >>= fun now =>
        Shared.iterate env state.hotIps >>= fun inheritedHot =>
          match ShardWindow.make shard config now inheritedHot state.nextSequence maxTrackedIps with
          | .ok window => pure window
          | .error e => throw e : Program Failure Shared ShardWindow) s.advance =
        (match ShardWindow.make shard config (env.now s.advance.tick)
            (env.arrange s.advance.advance.tick state.hotIps) state.nextSequence maxTrackedIps with
          | .ok window => pure window
          | .error e => throw e : Program Failure Shared ShardWindow) s.advance.advance.advance :=
      fun _ => rfl
    dsimp only
    rw [hprog]
    cases hmake : ShardWindow.make shard config (env.now s.advance.tick)
      (env.arrange s.advance.advance.tick (s.advance.store.load shard).hotIps)
      (s.advance.store.load shard).nextSequence maxTrackedIps with
    | error e => exact Or.inr ⟨e, _, rfl, hlater⟩
    | ok w =>
      obtain ⟨hshard, hseq, -⟩ := ShardWindow.make_ok (env.mem_arrange _ _) hmake
      exact Or.inl ⟨w, _, rfl, hlater, hshard, hseq⟩

theorem claimWindow_eq {shard : ℕ} {config : DetectionConfig} {maxTrackedIps : ℤ} {s : Shared}
    {w : ShardWindow} (hcall : env.outcome s.tick = .returns)
    (hmake : ShardWindow.make shard config (env.now (s.tick + 1))
      (env.arrange (s.tick + 2) (s.store.load shard).hotIps) (s.store.load shard).nextSequence
      maxTrackedIps = .ok w) :
    claimWindow env shard config maxTrackedIps s = .ok w { s with tick := s.tick + 3 } := by
  refine Program.bind_ok.mpr ⟨_, _, Shared.call_returns hcall rfl, ?_⟩
  refine Program.bind_ok.mpr ⟨_, _, rfl, Program.bind_ok.mpr ⟨_, _, rfl, ?_⟩⟩
  have hmake' : ShardWindow.make shard config (env.now s.advance.tick)
      (env.arrange s.advance.advance.tick (s.advance.store.load shard).hotIps)
      (s.advance.store.load shard).nextSequence maxTrackedIps = .ok w := hmake
  rw [hmake']
  rfl

/-- The claim of a worker whose lease is taken is that claim. -/
theorem openWindow_claimWindow (env : Env) (shard : ℕ) (s : World) :
    openWindow env shard s =
      let leased : ShardClaims :=
        { s.worker.claims with leased := insert shard s.worker.claims.leased }
      match claimWindow env shard s.worker.claims.config s.worker.claims.maxTrackedIps s.shared with
      | .ok w t =>
        .ok ⟨⟩ ⟨t, { s.worker with claims := { leased with windows := leased.windows.set shard w } }⟩
      | .error e t => .error e ⟨t, { s.worker with claims := leased }⟩ := by
  have hload : Shared.load env shard s.shared = _ := Shared.call_eq rfl
  unfold openWindow claimWindow
  simp only [Program.bind_apply, World.modifyClaims, World.outside, Program.zoom]
  rw [hload]
  cases env.outcome s.shared.tick with
  | raises applied => cases applied <;> rfl
  | returns =>
    dsimp only [Shared.readClock, Shared.iterate]
    cases ShardWindow.make shard s.worker.claims.config (env.now s.shared.advance.tick)
      (env.arrange s.shared.advance.advance.tick (s.shared.advance.store.load shard).hotIps)
      (s.shared.advance.store.load shard).nextSequence s.worker.claims.maxTrackedIps <;> rfl

/-- What the next effect of an evaluation leaves. -/
inductive Proceeds (env : Env) (s : Shared) (w : ShardWindow) (p : Pending) : Shared → Owner → Prop
  | take : p.stage = .decided →
      Proceeds env s w p s ⟨w.taken, some { p with stage := .taken w.nextSequence }⟩
  | encode {sequence eventId value} : p.stage = .taken sequence →
      encodeTransition env w.shard p.ip p.edge sequence p.config (env.now s.tick) =
        .ok (eventId, value) →
      Proceeds env s w p s.advance ⟨w, some { p with stage := .encoded sequence eventId value }⟩
  | refuse {sequence} : p.stage = .taken sequence → Proceeds env s w p s.advance ⟨w, none⟩
  | persist {sequence eventId value} : p.stage = .encoded sequence eventId value →
      Proceeds env s w p (persisted s.advance w.shard p.ip p.edge.current sequence)
        ⟨w, some { p with stage := .persisted sequence eventId value }⟩
  | persistRaises {sequence eventId value} : p.stage = .encoded sequence eventId value →
      env.outcome s.tick = .raises true →
      Proceeds env s w p (persisted s.advance w.shard p.ip p.edge.current sequence) ⟨w, none⟩
  | persistFails {sequence eventId value} : p.stage = .encoded sequence eventId value →
      Proceeds env s w p s.advance ⟨w, none⟩
  | publish {sequence eventId value} : p.stage = .persisted sequence eventId value →
      Proceeds env s w p (published env s.advance p.ip eventId value)
        ⟨w, some { p with stage := .published }⟩
  | publishRaises {sequence eventId value} : p.stage = .persisted sequence eventId value →
      Proceeds env s w p (published env s.advance p.ip eventId value) ⟨w, none⟩
  | publishFails {sequence eventId value} : p.stage = .persisted sequence eventId value →
      env.outcome s.tick = .raises false → Proceeds env s w p s.advance ⟨w, none⟩
  | remember {w'} : p.stage = .published → w.setState p.ip p.edge.current = .ok w' →
      Proceeds env s w p s ⟨w', none⟩
  | forget : p.stage = .published → Proceeds env s w p s ⟨w, none⟩

theorem Owner.proceed_cases (s : Shared) {owner : Owner} {p : Pending}
    (hp : owner.pending = some p) :
    Proceeds env s owner.window p (owner.proceed env s).1 (owner.proceed env s).2 := by
  unfold Owner.proceed
  rw [hp]
  dsimp only
  unfold Pending.program
  cases hstage : p.stage with
  | decided => exact Proceeds.take hstage
  | taken sequence =>
    dsimp only
    rw [Program.bind_apply]
    cases hr : prepare env p.ip p.edge sequence p.config ⟨s, owner.window⟩ with
    | ok event t =>
      obtain ⟨henc, rfl⟩ := prepare_ok hr
      exact Proceeds.encode hstage henc
    | error e t =>
      obtain rfl := prepare_error hr
      exact Proceeds.refuse hstage
  | encoded sequence eventId value =>
    have hcall : persist env p.ip p.edge.current sequence ⟨s, owner.window⟩ = Scope.outside
      (Shared.recordTransition env owner.window.shard p.ip p.edge.current sequence)
      ⟨s, owner.window⟩ := rfl
    dsimp only
    rw [Program.bind_apply, hcall]
    unfold Scope.outside Program.zoom Shared.recordTransition
    rw [Shared.call_eq rfl]
    cases ho : env.outcome s.tick with
    | returns => exact Proceeds.persist hstage
    | raises applied =>
      cases applied with
      | true => exact Proceeds.persistRaises hstage ho
      | false => exact Proceeds.persistFails hstage
  | persisted sequence eventId value =>
    dsimp only
    rw [Program.bind_apply]
    unfold announce Scope.outside Program.zoom Shared.publishHotIp
    rw [Shared.call_eq rfl]
    cases ho : env.outcome s.tick with
    | returns => exact Proceeds.publish hstage
    | raises applied =>
      cases applied with
      | true => exact Proceeds.publishRaises hstage
      | false => exact Proceeds.publishFails hstage ho
  | published =>
    dsimp only
    rw [Program.bind_apply]
    cases hr : remember p.ip p.edge.current ⟨s, owner.window⟩ with
    | ok u t =>
      obtain ⟨w', hw', rfl⟩ := remember_ok hr
      exact Proceeds.remember hstage hw'
    | error e t =>
      obtain ⟨-, rfl⟩ := remember_error hr
      exact Proceeds.forget hstage

/-- Starting an evaluation changes nothing but what is in progress. -/
theorem Owner.decide_cases (env : Env) (s : Shared) {owner : Owner} (ip : Address)
    (config : DetectionConfig) (hidle : owner.pending = none) :
    ∃ t, s.Later t ∧ (owner.decide env s ip config = (t, ⟨owner.window, none⟩) ∨
      owner.decide env s ip config =
          (t, ⟨owner.window, some ⟨ip, edgeOf owner.window ip config, config, .decided⟩⟩) ∧
        (edgeOf owner.window ip config).current ≠ owner.window.state ip) := by
  obtain ⟨t, hw, hl, ⟨hd, -⟩ | ⟨hd, hne, -⟩⟩ := decideEdge_ok env ⟨s, owner.window⟩ ip config
  · refine ⟨t.shared, hl, Or.inl ?_⟩
    unfold Owner.decide
    rw [hidle, hd]
    dsimp only
    rw [hw]
  · refine ⟨t.shared, hl, Or.inr ⟨?_, hne⟩⟩
    unfold Owner.decide
    rw [hidle, hd]
    dsimp only
    rw [hw]

theorem Owner.keepUp_cases (env : Env) (s : Shared) {owner : Owner} (method : Upkeep)
    (hidle : owner.pending = none) :
    ∃ t w, owner.keepUp env s method = (t, ⟨w, none⟩) ∧ s.Later t ∧ SameStates owner.window w := by
  have hsilent := method.silent env ⟨s, owner.window⟩
  refine ⟨_, _, ?_, hsilent.shared, hsilent.window⟩
  unfold Owner.keepUp
  rw [hidle]

/-- What one step of a shard leaves. -/
inductive Steps (env : Env) (h : History) (shard : ℕ) : Action → History → Prop
  | still {action} : Steps env h shard action h
  | claimed {config maxTrackedIps w t} : h.owners shard = none → h.shared.Later t →
      w.shard = shard → w.nextSequence = (h.shared.store.load shard).nextSequence →
      Steps env h shard (.claim config maxTrackedIps)
        ⟨t, Function.update h.owners shard (some ⟨w, none⟩)⟩
  | unclaimed {config maxTrackedIps t} : h.shared.Later t →
      Steps env h shard (.claim config maxTrackedIps) ⟨t, h.owners⟩
  | crashed : Steps env h shard .crash ⟨h.shared, Function.update h.owners shard none⟩
  | quiet {action owner t w pending} : h.owners shard = some owner → owner.pending = none →
      h.shared.Later t → SameStates owner.window w →
      (∀ p ∈ pending, p.stage = .decided ∧ p.edge.current ≠ w.state p.ip) →
      Steps env h shard action ⟨t, Function.update h.owners shard (some ⟨w, pending⟩)⟩
  | proceeded {w p t owner} : h.owners shard = some ⟨w, some p⟩ →
      Proceeds env h.shared w p t owner →
      Steps env h shard .proceed ⟨t, Function.update h.owners shard (some owner)⟩

/-- What an owner does is what it leaves, and nothing happens where there is none. -/
theorem History.own_cases {P : History → Prop} {h : History} {shard : ℕ}
    {f : Shared → Owner → Shared × Owner} (hnone : P h)
    (hsome : ∀ owner, h.owners shard = some owner →
      P ⟨(f h.shared owner).1, Function.update h.owners shard (some (f h.shared owner).2)⟩) :
    P (h.own shard f) := by
  unfold History.own
  cases hown : h.owners shard with
  | none => exact hnone
  | some owner => exact hsome owner hown

/-- An owner that stays as it is. -/
theorem History.update_owner {h : History} {shard : ℕ} {owner : Owner}
    (hown : h.owners shard = some owner) :
    (⟨h.shared, Function.update h.owners shard (some owner)⟩ : History) = h := by
  rw [← hown, Function.update_eq_self]

theorem History.step_cases (h : History) (env : Env) (shard : ℕ) (action : Action) :
    Steps env h shard action (h.step env (shard, action)) := by
  cases action with
  | claim config maxTrackedIps =>
    unfold History.step
    dsimp only
    cases hown : h.owners shard with
    | some owner => exact Steps.still
    | none =>
      dsimp only
      obtain ⟨w, t, hr, hlater, hshard, hseq⟩ | ⟨e, t, hr, hlater⟩ :=
        claimWindow_cases env shard config maxTrackedIps h.shared
      · rw [hr]
        exact Steps.claimed hown hlater hshard hseq
      · rw [hr]
        exact Steps.unclaimed hlater
  | crash => exact Steps.crashed
  | upkeep method =>
    show Steps env h shard _ (h.own shard fun shared owner => owner.keepUp env shared method)
    refine History.own_cases Steps.still fun owner hown => ?_
    cases hidle : owner.pending with
    | none =>
      obtain ⟨t, w, heq, hlater, hw⟩ := Owner.keepUp_cases env h.shared method hidle
      rw [heq]
      exact Steps.quiet hown hidle hlater hw (by simp)
    | some p =>
      -- With an evaluation under way an owner does no upkeep.
      have hsame : owner.keepUp env h.shared method = (h.shared, owner) := by
        unfold Owner.keepUp
        rw [hidle]
      rw [hsame, History.update_owner hown]
      exact Steps.still
  | evaluate ip config =>
    show Steps env h shard _ (h.own shard fun shared owner => owner.decide env shared ip config)
    refine History.own_cases Steps.still fun owner hown => ?_
    cases hidle : owner.pending with
    | none =>
      obtain ⟨t, hlater, heq | ⟨heq, hne⟩⟩ := Owner.decide_cases env h.shared ip config hidle
      · rw [heq]
        exact Steps.quiet hown hidle hlater (SameStates.refl _) (by simp)
      · rw [heq]
        refine Steps.quiet hown hidle hlater (SameStates.refl _) fun p hp => ?_
        cases hp
        exact ⟨rfl, hne⟩
    | some p =>
      have hsame : owner.decide env h.shared ip config = (h.shared, owner) := by
        unfold Owner.decide
        rw [hidle]
      rw [hsame, History.update_owner hown]
      exact Steps.still
  | proceed =>
    show Steps env h shard _ (h.own shard fun shared owner => owner.proceed env shared)
    refine History.own_cases Steps.still fun owner hown => ?_
    cases hpending : owner.pending with
    | none =>
      have hsame : owner.proceed env h.shared = (h.shared, owner) := by
        unfold Owner.proceed
        rw [hpending]
      rw [hsame, History.update_owner hown]
      exact Steps.still
    | some p =>
      obtain ⟨w, pending⟩ := owner
      cases hpending
      exact Steps.proceeded hown (Owner.proceed_cases h.shared
        (show (⟨w, some p⟩ : Owner).pending = some p from rfl))

/-! ### An evaluation that nothing interrupts -/

/-- The evaluation in progress goes on until it is over. -/
def Owner.finish (env : Env) : ℕ → Shared × Owner → Shared × Owner
  | 0, state => state
  | n + 1, state => finish env n (state.2.proceed env state.1)

theorem Owner.finish_idle (env : Env) (n : ℕ) (s : Shared) (w : ShardWindow) :
    Owner.finish env n (s, ⟨w, none⟩) = (s, ⟨w, none⟩) := by
  induction n with
  | zero => rfl
  | succ n ih => exact ih

/-- What a program on the window leaves, with nothing in progress. -/
def Owner.ended {α : Type} (r : EStateM.Result Failure Scope α) : Shared × Owner :=
  ((Program.after r).shared, ⟨(Program.after r).window, none⟩)

/-- An effect, and then the others. -/
theorem Owner.finish_bind {α β : Type} {p : Pending} {m : Program Failure Scope α} {k : α → Stage}
    {rest : α → Program Failure Scope β} {n : ℕ}
    (hprogram : p.program env = m >>= fun a => pure (some (k a)))
    (hrest : ∀ a (scope : Scope), Owner.finish env n
      (scope.shared, ⟨scope.window, some { p with stage := k a }⟩) = Owner.ended (rest a scope))
    (scope : Scope) :
    Owner.finish env (n + 1) (scope.shared, ⟨scope.window, some p⟩) =
      Owner.ended ((m >>= rest) scope) := by
  unfold Owner.finish Owner.proceed
  dsimp only
  rw [hprogram, Program.bind_apply, Program.bind_apply]
  cases m scope with
  | error e t => exact Owner.finish_idle env n _ _
  | ok a t => exact hrest a t

/-- Five effects in a row are `emit`. -/
theorem Owner.finish_emit (scope : Scope) (ip : Address) (edge : Edge) (config : DetectionConfig) :
    Owner.finish env 5 (scope.shared, ⟨scope.window, some ⟨ip, edge, config, .decided⟩⟩) =
      Owner.ended (emit env ip edge config scope) := by
  refine Owner.finish_bind (k := fun sequence => .taken sequence) rfl
    (fun sequence scope => ?_) scope
  refine Owner.finish_bind (k := fun event => .encoded sequence event.1 event.2) rfl
    (fun event scope => ?_) scope
  refine Owner.finish_bind (k := fun _ => .persisted sequence event.1 event.2) rfl
    (fun _ scope => ?_) scope
  refine Owner.finish_bind (k := fun _ => .published) rfl (fun _ scope => ?_) scope
  unfold Owner.finish Owner.proceed Owner.ended
  dsimp only [Pending.program]
  rw [Program.bind_apply, Program.bind_apply]
  cases remember ip edge.current scope with
  | error e t => rfl
  | ok a t => rfl

/-- Two things an owner does in a row. -/
theorem History.own_own (h : History) (shard : ℕ) (f g : Shared → Owner → Shared × Owner) :
    (h.own shard f).own shard g =
      h.own shard fun s owner => g (f s owner).1 (f s owner).2 := by
  unfold History.own
  cases hown : h.owners shard with
  | none =>
    dsimp only
    rw [hown]
  | some owner =>
    dsimp only
    rw [Function.update_self]
    dsimp only
    rw [Function.update_idem]

theorem History.proceeds (h : History) (shard n : ℕ) (f : Shared → Owner → Shared × Owner) :
    (List.replicate n (shard, Action.proceed)).foldl (History.step env) (h.own shard f) =
      h.own shard fun s owner => Owner.finish env n (f s owner) := by
  induction n generalizing f with
  | zero => rfl
  | succ n ih =>
    show (List.replicate n (shard, Action.proceed)).foldl (History.step env)
      ((h.own shard f).own shard fun s owner => owner.proceed env s) = _
    rw [History.own_own]
    exact ih _

/-- An evaluation that nothing interrupts is `evaluate`. -/
theorem evaluation_steps (env : Env) {h : History} {shard : ℕ} {w : ShardWindow}
    (hown : h.owners shard = some ⟨w, none⟩) (ip : Address) (config : DetectionConfig) :
    ((shard, Action.evaluate ip config) :: List.replicate 5 (shard, Action.proceed)).foldl
        (History.step env) h =
      ⟨(Program.after (evaluate env ip config ⟨h.shared, w⟩)).shared,
        Function.update h.owners shard
          (some ⟨(Program.after (evaluate env ip config ⟨h.shared, w⟩)).window, none⟩)⟩ := by
  show (List.replicate 5 (shard, Action.proceed)).foldl (History.step env)
    (h.own shard fun s owner => owner.decide env s ip config) = _
  rw [History.proceeds]
  unfold History.own
  rw [hown]
  have hfinish : Owner.finish env 5 ((⟨w, none⟩ : Owner).decide env h.shared ip config) =
      Owner.ended (evaluate env ip config ⟨h.shared, w⟩) := by
    unfold Owner.decide evaluate
    dsimp only
    rw [Program.bind_apply]
    cases decideEdge env ip config ⟨h.shared, w⟩ with
    | error e t => exact Owner.finish_idle env 5 _ _
    | ok edge t =>
      cases edge with
      | none => exact Owner.finish_idle env 5 _ _
      | some edge =>
        dsimp only
        rw [Owner.finish_emit, Program.map_apply]
        cases emit env ip edge config t <;> rfl
  dsimp only
  rw [hfinish]
  rfl

theorem load_persisted (s : Shared) (shard : ℕ) (ip : Address) (state : IpState) (sequence : ℕ) :
    (persisted s shard ip state sequence).store.load shard =
      { hotIps := state.applyTo ip (s.store.load shard).hotIps
        nextSequence := max (s.store.load shard).nextSequence (sequence + 1) } :=
  ShardStateStore.load_recordTransition_self _ _ _ _ _

/-- An evaluation whose owner is lost between its write to the store and its publish: the store has
the edge, and the log has not. -/
theorem interrupted_steps (henv : env.Orderly) {h : History} {shard : ℕ} {w : ShardWindow}
    (hown : h.owners shard = some ⟨w, none⟩) {ip : Address} {config : DetectionConfig}
    (hhot : config.hotThreshold ≠ 0)
    (hne : (edgeOf w ip config).current ≠ w.state ip) (hwarm : w.warmUntil = none) :
    ∃ t, ((shard, Action.evaluate ip config) :: List.replicate 3 (shard, Action.proceed) ++
        [(shard, Action.crash)]).foldl (History.step env) h =
        ⟨t, Function.update h.owners shard none⟩ ∧
      t.hotIp = h.shared.hotIp ∧
      (t.store.load w.shard).hotIps =
        (edgeOf w ip config).current.applyTo ip (h.shared.store.load w.shard).hotIps := by
  have hcount : 0 ≤ (edgeOf w ip config).count := ShardWindow.total_nonneg w ip
  -- The edge is decided, and the number is taken.
  obtain ⟨t, hlater, hdecide⟩ : ∃ t, h.shared.Later t ∧
      (⟨w, none⟩ : Owner).decide env h.shared ip config =
        (t, ⟨w, some ⟨ip, edgeOf w ip config, config, .decided⟩⟩) := by
    obtain ⟨t, hw, hl, ⟨-, hsame | ⟨-, -, u, hu, -⟩⟩ | ⟨hd, -⟩⟩ :=
      decideEdge_ok env ⟨h.shared, w⟩ ip config
    · exact absurd hsame hne
    · rw [show (⟨h.shared, w⟩ : Scope).window.warmUntil = none from hwarm] at hu
      cases hu
    · refine ⟨t.shared, hl, ?_⟩
      unfold Owner.decide
      dsimp only
      rw [hd]
      dsimp only
      rw [hw]
  obtain ⟨⟨eventId, value⟩, henc⟩ := exists_encodeTransition env w.shard ip w.nextSequence
    (henv.inRange t.tick) hcount hhot
  have hprepare : prepare env ip (edgeOf w ip config) w.nextSequence config ⟨t, w.taken⟩ =
      .ok (eventId, value) ⟨t.advance, w.taken⟩ :=
    Program.bind_ok.mpr ⟨_, _, rfl, inside_ok.mpr ⟨_,
      congrArg (fun x => (fun event => (event, w.taken)) <$> x) henc, rfl⟩⟩
  have hpersist : persist env ip (edgeOf w ip config).current w.nextSequence ⟨t.advance, w.taken⟩ =
      .ok ⟨⟩ ⟨persisted t.advance.advance w.shard ip (edgeOf w ip config).current w.nextSequence,
        w.taken⟩ :=
    outside_ok.mpr ⟨_, Shared.call_returns (henv.noCallFails _) rfl, rfl⟩
  have hfinish : Owner.finish env 3 (t, ⟨w, some ⟨ip, edgeOf w ip config, config, .decided⟩⟩) =
      (persisted t.advance.advance w.shard ip (edgeOf w ip config).current w.nextSequence,
        ⟨w.taken, some ⟨ip, edgeOf w ip config, config,
          .persisted w.nextSequence eventId value⟩⟩) := by
    show Owner.finish env 2 (t, ⟨w.taken, some ⟨ip, edgeOf w ip config, config,
      .taken w.nextSequence⟩⟩) = _
    unfold Owner.finish Owner.proceed Pending.program
    dsimp only
    rw [Program.bind_apply, hprepare]
    show Owner.finish env 1 (t.advance, ⟨w.taken, some ⟨ip, edgeOf w ip config, config,
      .encoded w.nextSequence eventId value⟩⟩) = _
    unfold Owner.finish Owner.proceed Pending.program
    dsimp only
    rw [Program.bind_apply, hpersist]
    rfl
  refine ⟨persisted t.advance.advance w.shard ip (edgeOf w ip config).current w.nextSequence,
    ?_, hlater.hotIp, ?_⟩
  · rw [List.cons_append, List.foldl_cons, List.foldl_append]
    show History.step env ((List.replicate 3 (shard, Action.proceed)).foldl (History.step env)
      (h.own shard fun s owner => owner.decide env s ip config)) (shard, .crash) = _
    rw [History.proceeds]
    unfold History.own
    rw [hown]
    dsimp only
    rw [hdecide, hfinish]
    unfold History.step
    dsimp only
    rw [Function.update_idem]
  · rw [load_persisted]
    show (edgeOf w ip config).current.applyTo ip (t.store.load w.shard).hotIps = _
    rw [hlater.store]

/-! ### A promotion that nothing interrupts -/

/-- The last record of the shard about the IP is a `HotIpAdded`: a consumer of the log has it. -/
def Listed (env : Env) (shard : ℕ) (s : Shared) (ip : Address) : Prop :=
  (typesOf ip (shardEvents env shard s.hotIp.log)).getLast? = some .added

/-- The owner of a shard sees enough traffic of an IP, and announces it. -/
def promotingActions (ip : Address) : List (ℕ × Action) :=
  [(0, .claim Ingest.defaultConfig 1000), (0, .upkeep (.observe ip 0 1000))] ++
    (0, .evaluate ip Ingest.defaultConfig) :: List.replicate 5 (0, .proceed)

theorem promotingActions_eq (henv : env.Orderly) (hclock : ∀ tick, env.now tick = 0)
    {ip : Address} (hip : ip = ⟨.ipv4, 1, by decide⟩) :
    ∃ t owners w, (promotingActions ip).foldl (History.step env) (History.start (sharedWith ∅ 0)) =
        ⟨t, owners⟩ ∧ owners 0 = some ⟨w, none⟩ ∧ Listed env 0 t ip ∧
      w.shard = 0 ∧ w.state ip = .hot ∧ w.total ip = 1000 ∧ w.warmUntil = none := by
  obtain ⟨w₀, change, w₁, hmake, hobserve, hcold, htotal, htracked, hshard, hwarm⟩ :
      ∃ w₀ change w₁, ShardWindow.make 0 Ingest.defaultConfig 0 [] 0 1000 = .ok w₀ ∧
        w₀.observe ip 0 1000 0 = .ok (change, w₁) ∧ w₁.state ip = .cold ∧ w₁.total ip = 1000 ∧
        w₁.entries.get? ip ≠ none ∧ w₁.shard = 0 ∧ w₁.warmUntil = none := by
    subst hip
    exact ⟨_, _, _, rfl, rfl, rfl, rfl, by simp, rfl, rfl⟩
  have hnil : env.arrange 2 ∅ = [] :=
    List.eq_nil_iff_forall_not_mem.mpr fun ip hmem =>
      absurd ((env.mem_arrange 2 ∅ ip).mp hmem) (Finset.notMem_empty ip)
  rw [← hnil, ← hclock 1] at hmake
  have hobserve' : w₀.observe ip 0 1000 (env.now 3) = .ok (change, w₁) := by
    rw [hclock]
    exact hobserve
  let start := (History.start (sharedWith ∅ 0)).shared
  let s₁ : Shared := { start with tick := 4 }
  let owners : ℕ → Option Owner := Function.update (fun _ => none) 0 (some ⟨w₁, none⟩)
  -- The claim and the observation.
  have hclaim : History.step env (History.start (sharedWith ∅ 0))
      (0, .claim Ingest.defaultConfig 1000) =
      ⟨{ start with tick := 3 }, Function.update (fun _ => none) 0 (some ⟨w₀, none⟩)⟩ := by
    have hwindow : claimWindow env 0 Ingest.defaultConfig 1000 start =
        .ok w₀ { start with tick := 3 } := claimWindow_eq (henv.noCallFails _) hmake
    unfold History.step
    dsimp only
    rw [show (History.start (sharedWith ∅ 0)).owners 0 = none from rfl, hwindow]
    rfl
  have hkeep : (⟨w₀, none⟩ : Owner).keepUp env { start with tick := 3 } (.observe ip 0 1000) =
      (s₁, ⟨w₁, none⟩) := by
    have hrun : observe env ip 0 1000 ⟨{ start with tick := 3 }, w₀⟩ = .ok change ⟨s₁, w₁⟩ :=
      Program.bind_ok.mpr ⟨_, _, rfl, inside_ok.mpr ⟨w₁, hobserve', rfl⟩⟩
    unfold Owner.keepUp Upkeep.program
    dsimp only
    rw [Program.bind_apply, hrun]
    rfl
  have hfirst : [((0 : ℕ), Action.claim Ingest.defaultConfig 1000),
      (0, .upkeep (.observe ip 0 1000))].foldl (History.step env)
        (History.start (sharedWith ∅ 0)) = ⟨s₁, owners⟩ := by
    rw [List.foldl_cons, hclaim, List.foldl_cons, List.foldl_nil]
    unfold History.step History.own
    dsimp only
    rw [Function.update_self]
    dsimp only
    rw [hkeep, Function.update_idem]
  -- The promotion.
  have hedge : (edgeOf w₁ ip Ingest.defaultConfig).current = .hot := by
    unfold edgeOf
    rw [hcold, htotal]
    rfl
  obtain ⟨s', emitted, t, hd, heval, hemit⟩ := evaluate_announces henv (s := ⟨s₁, w₁⟩)
    (show Ingest.defaultConfig.hotThreshold ≠ 0 by decide) htracked
    (by rw [hedge]; exact fun hc => absurd (hc.trans hcold) (by decide)) hwarm
  obtain ⟨eventId, value, w₂, henc, hset, rfl, -⟩ := emit_ok hemit
  have hwindow : s'.window = w₁ := hd.window
  rw [hwindow, show (⟨s₁, w₁⟩ : Scope).window = w₁ from rfl, hedge] at hset
  obtain ⟨entry, hget, hf, hentries⟩ := ShardWindow.setState_ok hset
  have hown : (⟨s₁, owners⟩ : History).owners 0 = some ⟨w₁, none⟩ := rfl
  have hsecond := evaluation_steps env hown ip Ingest.defaultConfig
  rw [show evaluate env ip Ingest.defaultConfig ⟨(⟨s₁, owners⟩ : History).shared, w₁⟩ = _ from
    heval, Program.after_ok] at hsecond
  refine ⟨announced env s' ip (edgeOf w₁ ip Ingest.defaultConfig) eventId value,
    Function.update owners 0 (some ⟨w₂, none⟩), w₂, ?_, Function.update_self _ _ _, ?_,
    hf.shard.trans hshard,
    (state_setState hset).1, ?_, hf.warmUntil.trans hwarm⟩
  · unfold promotingActions
    rw [List.foldl_append, hfirst]
    exact hsecond
  · -- The log has the promotion alone.
    have hempty : s'.shared.hotIp = ⟨[], ∅⟩ := hd.shared.hotIp
    have hfresh : eventId ∉ s'.shared.hotIp.seenIds := by
      rw [hempty]
      exact Finset.notMem_empty _
    obtain ⟨attributes, hevents⟩ := shardEvents_concat henc s'.shared.hotIp.log (utf8 (env.text ip))
    unfold Listed
    rw [hotIp_announced hfresh, ← hshard, ← hwindow, hevents, hempty]
    show (typesOf ip [eventOf ip (edgeOf w₁ ip Ingest.defaultConfig) _ _ _ _]).getLast? = _
    simp [typesOf, eventOf, hedge, eventTypeOf]
  · have hget₁ : w₁.entries.get? ip = some entry := hget
    rw [← htotal]
    unfold ShardWindow.total
    rw [hentries, Dict.get?_set_self, hget₁]

theorem orderly_still : (interpreterEnv (fun _ => 0) fun _ => .returns).Orderly :=
  ⟨fun _ => rfl, monotone_const, fun _ => rfl⟩

/-! ### The order of the sequence numbers -/

/-- What is durable of a shard: its published events are numbered in increasing order, below the
counter of the store. -/
structure Ordered (env : Env) (shard : ℕ) (s : Shared) : Prop where
  increasing : ((shardEvents env shard s.hotIp.log).map HotIpEvent.sequence).Pairwise (· < ·)
  recorded : ∀ event ∈ shardEvents env shard s.hotIp.log,
    event.sequence < (s.store.load shard).nextSequence
  numbered : ∀ sequence type ip, shardEventId env shard sequence type ip ∈ s.hotIp.seenIds →
    sequence < (s.store.load shard).nextSequence

/-- The bytes are those of the transition. -/
def Pending.Encodes (env : Env) (shard : ℕ) (p : Pending) (sequence : ℕ) (eventId : String)
    (value : Bytes) : Prop :=
  ∃ now, encodeTransition env shard p.ip p.edge sequence p.config now = .ok (eventId, value)

/-- The number of an evaluation in progress, between the store, the log and the window. -/
def Pending.Placed (env : Env) (shard : ℕ) (s : Shared) (w : ShardWindow) (p : Pending) : Prop :=
  match p.stage with
  | .decided => True
  | .taken sequence => (s.store.load shard).nextSequence ≤ sequence ∧ sequence < w.nextSequence
  | .encoded sequence eventId value =>
    ((s.store.load shard).nextSequence ≤ sequence ∧ sequence < w.nextSequence) ∧
      p.Encodes env shard sequence eventId value
  | .persisted sequence eventId value =>
    sequence < (s.store.load shard).nextSequence ∧
      (∀ event ∈ shardEvents env shard s.hotIp.log, event.sequence < sequence) ∧
      (∀ sequence' type ip, shardEventId env shard sequence' type ip ∈ s.hotIp.seenIds →
        sequence' < sequence) ∧
      p.Encodes env shard sequence eventId value
  | .published => True

/-- The memory of an owner is ahead of what is durable. -/
structure Owned (env : Env) (shard : ℕ) (s : Shared) (owner : Owner) : Prop where
  shard_eq : owner.window.shard = shard
  counted : (s.store.load shard).nextSequence ≤ owner.window.nextSequence
  changing : ∀ p ∈ owner.pending, p.edge.current ≠ owner.window.state p.ip
  placed : ∀ p ∈ owner.pending, p.Placed env shard s owner.window

variable {shard : ℕ} {s t : Shared} {owner : Owner}

/-- An id of the shard that appeared while others worked was there before. -/
theorem Foreign.seen (hf : Foreign env shard s t) (hdigest : Function.Injective env.digest)
    {sequence : ℕ} {type : HotIpEventType} {ip : Address}
    (hid : shardEventId env shard sequence type ip ∈ t.hotIp.seenIds) :
    shardEventId env shard sequence type ip ∈ s.hotIp.seenIds := by
  obtain hid | ⟨other, sequence', type', ip', hne, heq⟩ := hf.seenIds _ hid
  · exact hid
  · exact absurd (shardAgentId_inj (shardEventId_inj hdigest heq).1).symm hne

theorem Ordered.foreign (h : Ordered env shard s) (hdigest : Function.Injective env.digest)
    (hf : Foreign env shard s t) : Ordered env shard t := by
  refine ⟨?_, ?_, fun sequence type ip hid => ?_⟩
  · rw [hf.shardEvents_eq]
    exact h.increasing
  · rw [hf.shardEvents_eq, hf.load]
    exact h.recorded
  · rw [hf.load]
    exact h.numbered sequence type ip (hf.seen hdigest hid)

theorem Pending.Placed.foreign {w : ShardWindow} {p : Pending} (h : p.Placed env shard s w)
    (hdigest : Function.Injective env.digest) (hf : Foreign env shard s t) :
    p.Placed env shard t w := by
  unfold Pending.Placed at h ⊢
  split at h
  · exact trivial
  · rw [hf.load]
    exact h
  · rw [hf.load]
    exact h
  · obtain ⟨hlt, hevents, hseen, henc⟩ := h
    rw [hf.load, hf.shardEvents_eq]
    exact ⟨hlt, hevents, fun sequence type ip hid => hseen sequence type ip (hf.seen hdigest hid),
      henc⟩
  · exact trivial

theorem Owned.foreign (h : Owned env shard s owner) (hdigest : Function.Injective env.digest)
    (hf : Foreign env shard s t) : Owned env shard t owner :=
  ⟨h.shard_eq, by rw [hf.load]; exact h.counted, h.changing,
    fun p hp => (h.placed p hp).foreign hdigest hf⟩

/-- Raising the counter keeps the order. -/
theorem Ordered.persisted (h : Ordered env shard s) (ip : Address) (state : IpState)
    (sequence : ℕ) : Ordered env shard (persisted s shard ip state sequence) := by
  refine ⟨h.increasing, fun event hevent => ?_, fun sequence' type ip' hid => ?_⟩
  · rw [load_persisted]
    exact (h.recorded event hevent).trans_le (le_max_left _ _)
  · rw [load_persisted]
    exact (h.numbered sequence' type ip' hid).trans_le (le_max_left _ _)

/-- A transition whose number is in the store, and which is ahead of the log, is appended to the log
under a new id. -/
theorem published_eq {p : Pending} {w : ShardWindow} {sequence : ℕ} {eventId : String}
    {value : Bytes} (hplaced : p.Placed env shard s w)
    (hstage : p.stage = .persisted sequence eventId value) :
    ∃ now attributes, eventId = shardEventId env shard sequence (eventTypeOf p.edge.current) p.ip ∧
      (published env s p.ip eventId value).hotIp =
        ⟨s.hotIp.log ++ [⟨utf8 (env.text p.ip), value⟩], insert eventId s.hotIp.seenIds⟩ ∧
      shardEvents env shard (published env s p.ip eventId value).hotIp.log =
        shardEvents env shard s.hotIp.log ++
          [eventOf p.ip p.edge sequence p.config now attributes] := by
  unfold Pending.Placed at hplaced
  rw [hstage] at hplaced
  obtain ⟨-, -, hseen, now, henc⟩ := hplaced
  obtain ⟨attributes, hevents⟩ := shardEvents_concat henc s.hotIp.log (utf8 (env.text p.ip))
  have hid := (encodeTransition_ok henc).2.1
  have hfresh : eventId ∉ s.hotIp.seenIds := by
    rw [hid]
    exact fun hc => lt_irrefl _ (hseen _ _ _ hc)
  have htopic : (published env s p.ip eventId value).hotIp =
      ⟨s.hotIp.log ++ [⟨utf8 (env.text p.ip), value⟩], insert eventId s.hotIp.seenIds⟩ :=
    if_neg hfresh
  refine ⟨now, attributes, hid, htopic, ?_⟩
  rw [htopic]
  exact hevents

/-- The event of a placed transition is nothing to another shard. -/
theorem Pending.Placed.foreign_published {p : Pending} {w : ShardWindow} {sequence : ℕ}
    {eventId : String} {value : Bytes} (hplaced : p.Placed env shard s w)
    (hstage : p.stage = .persisted sequence eventId value) {other : ℕ} (hother : other ≠ shard) :
    Foreign env other s (published env s p.ip eventId value) := by
  unfold Pending.Placed at hplaced
  rw [hstage] at hplaced
  obtain ⟨-, -, -, now, henc⟩ := hplaced
  exact Foreign.published _ hother.symm henc

/-- The event of a placed transition keeps the order. -/
theorem Ordered.published (h : Ordered env shard s) (hdigest : Function.Injective env.digest)
    {p : Pending} {w : ShardWindow} {sequence : ℕ} {eventId : String} {value : Bytes}
    (hplaced : p.Placed env shard s w) (hstage : p.stage = .persisted sequence eventId value) :
    Ordered env shard (published env s p.ip eventId value) := by
  obtain ⟨now, attributes, hid, htopic, hevents⟩ := published_eq hplaced hstage
  unfold Pending.Placed at hplaced
  rw [hstage] at hplaced
  obtain ⟨hlt, hbelow, -, -⟩ := hplaced
  have hload : (Aggregator.published env s p.ip eventId value).store.load shard =
    s.store.load shard := rfl
  refine ⟨?_, fun event hevent => ?_, fun sequence' type ip hmem => ?_⟩
  · rw [hevents, List.map_append, List.pairwise_append]
    refine ⟨h.increasing, List.pairwise_singleton _ _, fun a ha b hb => ?_⟩
    obtain ⟨event, hevent, rfl⟩ := List.mem_map.mp ha
    obtain rfl := List.mem_singleton.mp hb
    exact hbelow event hevent
  · rw [hevents] at hevent
    rw [hload]
    obtain hevent | hevent := List.mem_append.mp hevent
    · exact h.recorded event hevent
    · obtain rfl := List.mem_singleton.mp hevent
      exact hlt
  · rw [htopic] at hmem
    rw [hload]
    obtain heq | hmem := Finset.mem_insert.mp hmem
    · rw [hid] at heq
      rw [(shardEventId_inj hdigest heq).2]
      exact hlt
    · exact h.numbered sequence' type ip hmem

/-- The next effect of an evaluation keeps the order, and is nothing to the other shards. -/
theorem Proceeds.ordered (hdigest : Function.Injective env.digest) {w : ShardWindow} {p : Pending}
    (hp : Proceeds env s w p t owner) (ho : Ordered env shard s)
    (hw : Owned env shard s ⟨w, some p⟩) :
    Ordered env shard t ∧ Owned env shard t owner ∧
      ∀ other, other ≠ shard → Foreign env other s t := by
  have hshard : w.shard = shard := hw.shard_eq
  have hcounted : (s.store.load shard).nextSequence ≤ w.nextSequence := hw.counted
  have hchanging := hw.changing p rfl
  have hplaced : p.Placed env shard s w := hw.placed p rfl
  -- What a tick keeps, and an owner that is idle again.
  have hlater : ∀ k, Foreign env k s s.advance := fun k => Foreign.of_later (Shared.Later.advance s)
  have idle : ∀ (u : Shared) (w' : ShardWindow), w'.shard = shard →
      (u.store.load shard).nextSequence ≤ w'.nextSequence → Owned env shard u ⟨w', none⟩ :=
    fun u w' hs hc => ⟨hs, hc, by simp, by simp⟩
  cases hp with
  | take hstage =>
    refine ⟨ho, ⟨hshard, hcounted.trans (Nat.le_succ _), ?_, ?_⟩, fun k _ => Foreign.refl _ _ _⟩
    · intro q hq
      cases hq
      exact hchanging
    · intro q hq
      cases hq
      exact ⟨hcounted, Nat.lt_succ_self _⟩
  | @encode sequence eventId value hstage henc =>
    refine ⟨ho.foreign hdigest (hlater shard), ⟨hshard, hcounted, ?_, ?_⟩, fun k _ => hlater k⟩
    · intro q hq
      cases hq
      exact hchanging
    · intro q hq
      cases hq
      unfold Pending.Placed at hplaced
      rw [hstage] at hplaced
      exact ⟨hplaced, _, by rw [← hshard]; exact henc⟩
  | refuse hstage =>
    exact ⟨ho.foreign hdigest (hlater shard), idle _ _ hshard hcounted, fun k _ => hlater k⟩
  | @persist sequence eventId value hstage =>
    unfold Pending.Placed at hplaced
    rw [hstage] at hplaced
    obtain ⟨⟨hle, hlt⟩, henc⟩ := hplaced
    rw [hshard]
    refine ⟨(ho.foreign hdigest (hlater shard)).persisted _ _ _, ⟨hshard, ?_, ?_, ?_⟩, fun k hk =>
      (hlater k).trans (Foreign.persisted _ hk.symm _ _ _)⟩
    · rw [load_persisted]
      exact max_le hcounted hlt
    · intro q hq
      cases hq
      exact hchanging
    · intro q hq
      cases hq
      refine ⟨?_, fun event hevent => ?_, fun sequence' type ip hid => ?_, henc⟩
      · rw [load_persisted]
        exact lt_of_lt_of_le (Nat.lt_succ_self _) (le_max_right _ _)
      · exact (ho.recorded event hevent).trans_le hle
      · exact (ho.numbered sequence' type ip hid).trans_le hle
  | @persistRaises sequence eventId value hstage hout =>
    unfold Pending.Placed at hplaced
    rw [hstage] at hplaced
    rw [hshard]
    refine ⟨(ho.foreign hdigest (hlater shard)).persisted _ _ _, idle _ _ hshard ?_, fun k hk =>
      (hlater k).trans (Foreign.persisted _ hk.symm _ _ _)⟩
    rw [load_persisted]
    exact max_le hcounted hplaced.1.2
  | persistFails hstage =>
    exact ⟨ho.foreign hdigest (hlater shard), idle _ _ hshard hcounted, fun k _ => hlater k⟩
  | @publish sequence eventId value hstage =>
    have hplaced' := hplaced.foreign hdigest (hlater shard)
    refine ⟨(ho.foreign hdigest (hlater shard)).published hdigest hplaced' hstage,
      ⟨hshard, hcounted, ?_, ?_⟩,
      fun k hk => (hlater k).trans (hplaced'.foreign_published hstage hk)⟩
    · intro q hq
      cases hq
      exact hchanging
    · intro q hq
      cases hq
      exact trivial
  | @publishRaises sequence eventId value hstage =>
    have hplaced' := hplaced.foreign hdigest (hlater shard)
    exact ⟨(ho.foreign hdigest (hlater shard)).published hdigest hplaced' hstage,
      idle _ _ hshard hcounted, fun k hk => (hlater k).trans (hplaced'.foreign_published hstage hk)⟩
  | publishFails hstage hout =>
    exact ⟨ho.foreign hdigest (hlater shard), idle _ _ hshard hcounted, fun k _ => hlater k⟩
  | @remember w' hstage hset =>
    obtain ⟨entry, -, hf, -⟩ := ShardWindow.setState_ok hset
    refine ⟨ho, idle _ _ (hf.shard.trans hshard) ?_, fun k _ => Foreign.refl _ _ _⟩
    rw [hf.nextSequence]
    exact hcounted
  | forget hstage => exact ⟨ho, idle _ _ hshard hcounted, fun k _ => Foreign.refl _ _ _⟩

/-- What every history keeps. -/
structure Sequenced (env : Env) (h : History) : Prop where
  ordered : ∀ shard, Ordered env shard h.shared
  owned : ∀ shard owner, h.owners shard = some owner → Owned env shard h.shared owner

/-- A change for one shard that is nothing to the others. -/
theorem Sequenced.update {h : History} (hs : Sequenced env h)
    (hdigest : Function.Injective env.digest) {shard : ℕ} {t : Shared} {owner : Option Owner}
    (hordered : Ordered env shard t) (howned : ∀ o ∈ owner, Owned env shard t o)
    (hforeign : ∀ other, other ≠ shard → Foreign env other h.shared t) :
    Sequenced env ⟨t, Function.update h.owners shard owner⟩ := by
  refine ⟨fun other => ?_, fun other owner' hother => ?_⟩
  · by_cases hne : other = shard
    · rw [hne]
      exact hordered
    · exact (hs.ordered other).foreign hdigest (hforeign other hne)
  · dsimp only at hother
    by_cases hne : other = shard
    · subst hne
      rw [Function.update_self] at hother
      exact howned owner' hother
    · rw [Function.update_of_ne hne] at hother
      exact (hs.owned other owner' hother).foreign hdigest (hforeign other hne)

theorem Sequenced.step {h : History} (hs : Sequenced env h)
    (hdigest : Function.Injective env.digest) (action : ℕ × Action) :
    Sequenced env (h.step env action) := by
  obtain ⟨shard, action⟩ := action
  have later : ∀ {t k}, h.shared.Later t → Foreign env k h.shared t := Foreign.of_later
  have hstep := h.step_cases env shard action
  generalize h.step env (shard, action) = h' at hstep ⊢
  cases hstep with
  | still => exact hs
  | claimed hown hlater hshard hseq =>
    refine hs.update hdigest ((hs.ordered shard).foreign hdigest (later hlater)) ?_
      fun k _ => later hlater
    intro owner howner
    cases howner
    refine ⟨hshard, ?_, by simp, by simp⟩
    rw [hlater.store]
    exact hseq.ge
  | unclaimed hlater =>
    exact ⟨fun k => (hs.ordered k).foreign hdigest (later hlater),
      fun k owner hk => (hs.owned k owner hk).foreign hdigest (later hlater)⟩
  | crashed =>
    exact hs.update hdigest (hs.ordered shard) (by simp) fun k _ => Foreign.refl _ _ _
  | @quiet _ owner t w pending hown hidle hlater hw hpending =>
    refine hs.update hdigest ((hs.ordered shard).foreign hdigest (later hlater)) ?_
      fun k _ => later hlater
    intro owner' howner
    cases howner
    have howned := (hs.owned shard owner hown).foreign hdigest (later hlater)
    refine ⟨hw.shard.trans howned.shard_eq, ?_, fun p hp => (hpending p hp).2, fun p hp => ?_⟩
    · rw [hw.nextSequence]
      exact howned.counted
    · unfold Pending.Placed
      rw [(hpending p hp).1]
      exact trivial
  | proceeded hown hp =>
    obtain ⟨hordered, howned, hforeign⟩ :=
      hp.ordered hdigest (hs.ordered shard) (hs.owned shard _ hown)
    refine hs.update hdigest hordered ?_ hforeign
    intro owner howner
    cases howner
    exact howned

theorem sequenced_start (env : Env) (shared : Shared) : Sequenced env (History.start shared) :=
  ⟨fun _ => ⟨List.Pairwise.nil, fun _ h => absurd h List.not_mem_nil,
    fun _ _ _ h => absurd h (Finset.notMem_empty _)⟩, fun _ _ h => by cases h⟩

/-- In every history of owners that come and go, with calls that fail and processes that are lost
between any two effects of an evaluation: the numbers that a shard has published increase in the
order of its log, no two records of the log have the same event id, and every owner counts on from
above what its shard has published. -/
theorem sequences_increase (env : Env) (hdigest : Function.Injective env.digest) (shared : Shared)
    (actions : List (ℕ × Action)) {h : History}
    (hh : h = actions.foldl (History.step env) (History.start shared)) :
    (∀ shard,
        ((shardEvents env shard h.shared.hotIp.log).map HotIpEvent.sequence).Pairwise (· < ·)) ∧
      (∀ shard shard' (i j : ℕ) event event',
        (shardEvents env shard h.shared.hotIp.log)[i]? = some event →
        (shardEvents env shard' h.shared.hotIp.log)[j]? = some event' →
        shardEventId env shard event.sequence event.type event.ip =
          shardEventId env shard' event'.sequence event'.type event'.ip →
        shard = shard' ∧ i = j) ∧
      ∀ shard owner, h.owners shard = some owner →
        ∀ event ∈ shardEvents env shard h.shared.hotIp.log,
          event.sequence < owner.window.nextSequence := by
  have hs : Sequenced env h := by
    rw [hh]
    exact invariant_foldl (fun _ action hs => hs.step hdigest action) (sequenced_start env shared)
      actions
  refine ⟨fun shard => (hs.ordered shard).increasing, ?_, ?_⟩
  · intro shard shard' i j event event' hi hj hid
    obtain ⟨hagent, hsequence⟩ := shardEventId_inj hdigest hid
    obtain rfl := shardAgentId_inj hagent
    refine ⟨rfl, ?_⟩
    -- Two events of one shard with the same number are one.
    have hnodup := (hs.ordered shard).increasing.imp fun hlt => ne_of_lt hlt
    have hi' : ((shardEvents env shard h.shared.hotIp.log).map HotIpEvent.sequence)[i]? =
        some event.sequence := by rw [List.getElem?_map, hi, Option.map_some]
    have hj' : ((shardEvents env shard h.shared.hotIp.log).map HotIpEvent.sequence)[j]? =
        some event.sequence := by rw [List.getElem?_map, hj, Option.map_some, hsequence]
    obtain ⟨hlt, -⟩ := List.getElem?_eq_some_iff.mp hi'
    exact (List.getElem?_inj hlt hnodup).mp (hi'.trans hj'.symm)
  · intro shard owner hown event hevent
    exact ((hs.ordered shard).recorded event hevent).trans_le (hs.owned shard owner hown).counted

/-- The owner that has announced a promotion counts on from above its number. -/
theorem sequences_increase_promoted : ∃ (h : History) (owner : Owner) (event : HotIpEvent),
    h.owners 0 = some owner ∧
      event ∈ shardEvents (interpreterEnv (fun _ => 0) fun _ => .returns) 0 h.shared.hotIp.log ∧
      event.sequence < owner.window.nextSequence := by
  obtain ⟨t, owners, w, hall, hown, hlisted, -⟩ :=
    promotingActions_eq orderly_still (fun _ => rfl) rfl
  obtain ⟨event, hmem, -⟩ := List.mem_map.mp (List.mem_of_getLast? hlisted)
  have hevent := (List.mem_filter.mp hmem).1
  exact ⟨⟨t, owners⟩, _, event, hown, hevent, (sequences_increase _
    (interpreterEnv_digest_injective _ _) (sharedWith ∅ 0) _ hall.symm).2.2 0 _ hown event hevent⟩

/-! ### What the next owner knows -/

/-- The transition is in the store and not yet in the log. -/
def Pending.InStore (p : Pending) : Prop :=
  ∃ sequence eventId value, p.stage = .persisted sequence eventId value

/-- A demotion of the IP is in the store and not yet in the log. -/
def Pending.Demotes (p : Pending) (ip : Address) : Prop :=
  p.ip = ip ∧ p.edge.current = .cold ∧ p.InStore

/-- An IP that a consumer has is HOT in the store, or the owner is just demoting it. A promotion is
in the store before it is in the log. -/
structure Known (env : Env) (shard : ℕ) (s : Shared) (owner : Option Owner) : Prop where
  durable : ∀ ip, Listed env shard s ip → ip ∈ (s.store.load shard).hotIps ∨
    ∃ o ∈ owner, ∃ p ∈ o.pending, p.Demotes ip
  promoted : ∀ o ∈ owner, ∀ p ∈ o.pending, p.edge.current = .hot → p.InStore →
    p.ip ∈ (s.store.load shard).hotIps

/-- A demotion is cut off between the store and the log: the process is lost there, its publish
fails, or its write to the store is made and raises. -/
def Cut (env : Env) (h : History) : ℕ × Action → Prop
  | (shard, .crash) => ∃ owner p, h.owners shard = some owner ∧ owner.pending = some p ∧
      p.edge.current = .cold ∧ p.InStore
  | (shard, .proceed) => ∃ owner p, h.owners shard = some owner ∧ owner.pending = some p ∧
      p.edge.current = .cold ∧
      (p.InStore ∧ env.outcome h.shared.tick = .raises false ∨
        (∃ sequence eventId value, p.stage = .encoded sequence eventId value) ∧
          env.outcome h.shared.tick = .raises true)
  | _ => False

theorem Known.foreign {owner : Option Owner} (h : Known env shard s owner)
    (hf : Foreign env shard s t) : Known env shard t owner := by
  refine ⟨fun ip hip => ?_, ?_⟩
  · unfold Listed at hip
    rw [hf.shardEvents_eq] at hip
    rw [hf.load]
    exact h.durable ip hip
  · rw [hf.load]
    exact h.promoted

/-- With no demotion in the store alone, what is listed is durable. -/
theorem Known.settled {owner : Option Owner} (h : Known env shard s owner)
    (hnone : ∀ o ∈ owner, ∀ p ∈ o.pending, p.edge.current = .cold → ¬ p.InStore) {ip : Address}
    (hip : Listed env shard s ip) : ip ∈ (s.store.load shard).hotIps := by
  obtain hmem | ⟨o, ho, p, hp, -, hcold, hstore⟩ := h.durable ip hip
  · exact hmem
  · exact absurd hstore (hnone o ho p hp hcold)

/-- An owner of whom nothing is in the store alone. -/
theorem Known.of_settled {owner : Option Owner}
    (hdurable : ∀ ip, Listed env shard s ip → ip ∈ (s.store.load shard).hotIps)
    (hnone : ∀ o ∈ owner, ∀ p ∈ o.pending, ¬ p.InStore) : Known env shard s owner :=
  ⟨fun ip hip => Or.inl (hdurable ip hip),
    fun o ho p hp _ hstore => absurd hstore (hnone o ho p hp)⟩

theorem not_inStore_of_stage {p : Pending} {stage : Stage} (hstage : p.stage = stage)
    (hne : ∀ sequence eventId value, stage ≠ .persisted sequence eventId value) : ¬ p.InStore := by
  rintro ⟨sequence, eventId, value, h⟩
  exact hne sequence eventId value (hstage.symm.trans h)

theorem mem_applyTo_of_ne {state : IpState} {ip ip' : Address} {hot : Finset Address}
    (hne : ip' ≠ ip) (h : ip' ∈ hot) : ip' ∈ state.applyTo ip hot := by
  cases state with
  | hot => exact Finset.mem_insert_of_mem h
  | cold => exact Finset.mem_erase.mpr ⟨hne, h⟩

/-- Once a transition of the store is in the log too, what is listed is durable. -/
theorem Known.published {w : ShardWindow} {p : Pending} (hk : Known env shard s (some ⟨w, some p⟩))
    (hplaced : p.Placed env shard s w) {sequence : ℕ} {eventId : String} {value : Bytes}
    (hstage : p.stage = .persisted sequence eventId value) {ip : Address}
    (hip : Listed env shard (Aggregator.published env s p.ip eventId value) ip) :
    ip ∈ (s.store.load shard).hotIps := by
  obtain ⟨now, attributes, -, -, hevents⟩ := published_eq hplaced hstage
  unfold Listed at hip
  rw [hevents] at hip
  by_cases hself : p.ip = ip
  · subst hself
    have htypes := typesOf_concat_self (shardEvents env shard s.hotIp.log)
      (eventOf p.ip p.edge sequence p.config now attributes)
    change typesOf p.ip _ = _ ++ [eventTypeOf p.edge.current] at htypes
    rw [htypes, List.getLast?_concat] at hip
    have htype : eventTypeOf p.edge.current = eventTypeOf .hot := Option.some.inj hip
    have hhot := Alternates.eventTypeOf_inj htype
    exact hk.promoted _ rfl p rfl hhot ⟨sequence, eventId, value, hstage⟩
  · rw [typesOf_concat_of_ne _ hself] at hip
    obtain hmem | ⟨o, ho, q, hq, hqip, -⟩ := hk.durable ip hip
    · exact hmem
    · cases ho
      cases hq
      exact absurd hqip hself

/-- The next effect of an evaluation that is not cut off keeps what is known. -/
theorem Proceeds.known (hdigest : Function.Injective env.digest) {w : ShardWindow} {p : Pending}
    (hp : Proceeds env s w p t owner)
    (hw : Owned env shard s ⟨w, some p⟩) (hk : Known env shard s (some ⟨w, some p⟩))
    (hcut : p.edge.current = .cold → ¬ (p.InStore ∧ env.outcome s.tick = .raises false ∨
      (∃ sequence eventId value, p.stage = .encoded sequence eventId value) ∧
        env.outcome s.tick = .raises true)) :
    Known env shard t (some owner) := by
  have hshard : w.shard = shard := hw.shard_eq
  have hlater : Foreign env shard s s.advance := Foreign.of_later (Shared.Later.advance s)
  -- Before the write to the store, and after the log has it, what is listed is durable.
  have settled : ¬ p.InStore → ∀ ip, Listed env shard s ip → ip ∈ (s.store.load shard).hotIps := by
    intro hnot ip hip
    refine hk.settled ?_ hip
    intro o ho q hq _
    cases ho
    cases hq
    exact hnot
  have ended : ∀ {u : Shared} {w' : ShardWindow},
      (∀ ip, Listed env shard u ip → ip ∈ (u.store.load shard).hotIps) →
      Known env shard u (some ⟨w', none⟩) := by
    intro u w' hdurable
    refine Known.of_settled hdurable ?_
    intro o ho q hq
    cases ho
    cases hq
  have next : ∀ {u : Shared} {w' : ShardWindow} {stage : Stage},
      (∀ ip, Listed env shard u ip → ip ∈ (u.store.load shard).hotIps) →
      (∀ sequence eventId value, stage ≠ .persisted sequence eventId value) →
      Known env shard u (some ⟨w', some { p with stage := stage }⟩) := by
    intro u w' stage hdurable hne
    refine Known.of_settled hdurable ?_
    intro o ho q hq
    cases ho
    cases hq
    exact not_inStore_of_stage rfl hne
  have isHot : p.edge.current ≠ .cold → p.edge.current = .hot := by
    cases p.edge.current with
    | cold => exact fun h => absurd rfl h
    | hot => exact fun _ => rfl
  cases hp with
  | take hstage => exact next (settled (not_inStore_of_stage hstage (by simp))) (by simp)
  | encode hstage henc => exact next (settled (not_inStore_of_stage hstage (by simp))) (by simp)
  | refuse hstage => exact ended (settled (not_inStore_of_stage hstage (by simp)))
  | @persist sequence eventId value hstage =>
    have hbefore := settled (not_inStore_of_stage hstage (by simp))
    rw [hshard]
    refine ⟨fun ip hip => ?_, fun o ho q hq hhot _ => ?_⟩
    · rw [load_persisted]
      by_cases hself : ip = p.ip
      · cases hc : p.edge.current with
        | hot => exact Or.inl (by rw [hself]; exact Finset.mem_insert_self _ _)
        | cold =>
          exact Or.inr ⟨_, rfl, _, rfl, hself.symm, hc, sequence, eventId, value, rfl⟩
      · exact Or.inl (mem_applyTo_of_ne hself (hbefore ip hip))
    · cases ho
      cases hq
      rw [load_persisted, show p.edge.current = .hot from hhot]
      exact Finset.mem_insert_self _ _
  | @persistRaises sequence eventId value hstage hout =>
    have hbefore := settled (not_inStore_of_stage hstage (by simp))
    have hhot := isHot fun hc => hcut hc (Or.inr ⟨⟨_, _, _, hstage⟩, hout⟩)
    rw [hshard, hhot]
    refine ended fun ip hip => ?_
    rw [load_persisted]
    exact Finset.mem_insert_of_mem (hbefore ip hip)
  | persistFails hstage => exact ended (settled (not_inStore_of_stage hstage (by simp)))
  | publish hstage =>
    exact next (fun ip hip => (hk.foreign hlater).published
      ((hw.placed p rfl).foreign hdigest hlater) hstage hip) (by simp)
  | publishRaises hstage =>
    exact ended fun ip hip => (hk.foreign hlater).published
      ((hw.placed p rfl).foreign hdigest hlater) hstage hip
  | @publishFails sequence eventId value hstage hout =>
    have hhot := isHot fun hc => hcut hc (Or.inl ⟨⟨_, _, _, hstage⟩, hout⟩)
    refine ended fun ip hip => hk.settled ?_ hip
    intro o ho q hq hcold
    cases ho
    cases hq
    rw [hhot] at hcold
    cases hcold
  | remember hstage hset => exact ended (settled (not_inStore_of_stage hstage (by simp)))
  | forget hstage => exact ended (settled (not_inStore_of_stage hstage (by simp)))

/-- What every history keeps in which no demotion is cut off. -/
theorem Known.step {h : History} (hdigest : Function.Injective env.digest) (hs : Sequenced env h)
    (hk : ∀ shard, Known env shard h.shared (h.owners shard)) {action : ℕ × Action}
    (hcut : ¬ Cut env h action) (shard : ℕ) :
    Known env shard (h.step env action).shared ((h.step env action).owners shard) := by
  obtain ⟨acting, action⟩ := action
  -- A change for one shard that is nothing to the others.
  have update : ∀ {t : Shared} {owner : Option Owner},
      (∀ k, k ≠ acting → Foreign env k h.shared t) → Known env acting t owner →
      Known env shard t (Function.update h.owners acting owner shard) := by
    intro t owner hforeign hknown
    by_cases hne : shard = acting
    · rw [hne, Function.update_self]
      exact hknown
    · rw [Function.update_of_ne hne]
      exact (hk shard).foreign (hforeign shard hne)
  have hstep := h.step_cases env acting action
  generalize h.step env (acting, action) = h' at hstep ⊢
  cases hstep with
  | still => exact hk shard
  | claimed hown hlater hshard hseq =>
    refine update (fun k _ => Foreign.of_later hlater) ?_
    have hknown := (hk acting).foreign (Foreign.of_later hlater)
    rw [hown] at hknown
    refine Known.of_settled (fun ip hip => hknown.settled (by simp) hip) ?_
    intro o ho q hq
    cases ho
    cases hq
  | unclaimed hlater => exact (hk shard).foreign (Foreign.of_later hlater)
  | crashed =>
    refine update (fun k _ => Foreign.refl _ _ _) (Known.of_settled (fun ip hip => ?_) (by simp))
    refine (hk acting).settled ?_ hip
    intro o ho p hp hcold hstore
    exact hcut ⟨o, p, ho, hp, hcold, hstore⟩
  | @quiet _ owner t w pending hown hidle hlater hw hpending =>
    refine update (fun k _ => Foreign.of_later hlater) ?_
    have hknown := (hk acting).foreign (Foreign.of_later hlater)
    rw [hown] at hknown
    refine Known.of_settled (fun ip hip => hknown.settled ?_ hip) ?_
    · intro o ho q hq
      cases ho
      rw [hidle] at hq
      cases hq
    · intro o ho q hq
      cases ho
      exact not_inStore_of_stage (hpending q hq).1 (by simp)
  | @proceeded w p t owner hown hp =>
    have hknown := hk acting
    rw [hown] at hknown
    have howned := hs.owned acting _ hown
    refine update (hp.ordered hdigest (hs.ordered acting) howned).2.2
      (hp.known hdigest howned hknown fun hcold hc => ?_)
    exact hcut ⟨_, p, hown, rfl, hcold, hc⟩

theorem known_start (env : Env) (shared : Shared) (shard : ℕ) :
    Known env shard (History.start shared).shared ((History.start shared).owners shard) :=
  ⟨fun _ h => (by cases h), fun _ h => (by cases h)⟩

/-- In every history in which no demotion is cut off between the store and the log, every IP that a
consumer of the log has is in the durable HOT set, except while the present owner, which has it HOT,
is between the two writes of its demotion. -/
theorem listed_is_durable (env : Env) (hdigest : Function.Injective env.digest) (shared : Shared)
    {actions : List (ℕ × Action)}
    (hcut : Along (History.step env) (fun h action => ¬ Cut env h action) (History.start shared)
      actions)
    {h : History} (hh : h = actions.foldl (History.step env) (History.start shared)) (shard : ℕ)
    {ip : Address} (hip : Listed env shard h.shared ip) :
    ip ∈ (h.shared.store.load shard).hotIps ∨
      ∃ owner p, h.owners shard = some owner ∧ owner.pending = some p ∧ p.Demotes ip ∧
        owner.window.state ip = .hot := by
  have hinvariant : Sequenced env h ∧ ∀ k, Known env k h.shared (h.owners k) := by
    rw [hh]
    exact hcut.invariant (I := fun h => Sequenced env h ∧ ∀ k, Known env k h.shared (h.owners k))
      (fun h action hi hnot => ⟨hi.1.step hdigest action,
        fun k => Known.step hdigest hi.1 hi.2 hnot k⟩)
      ⟨sequenced_start env shared, known_start env shared⟩
  obtain ⟨hs, hk⟩ := hinvariant
  obtain hmem | ⟨owner, hown, p, hp, hdemotes⟩ := (hk shard).durable ip hip
  · exact Or.inl hmem
  · refine Or.inr ⟨owner, p, hown, hp, hdemotes, ?_⟩
    obtain ⟨rfl, hcold, -⟩ := hdemotes
    have hne := (hs.owned shard owner hown).changing p hp
    rw [hcold] at hne
    cases hstate : owner.window.state p.ip with
    | hot => rfl
    | cold => exact absurd hstate.symm hne

/-- The defaults with thresholds that more traffic is needed for. -/
def raisedConfig : DetectionConfig :=
  { Ingest.nextDefaultConfig with
    hotThreshold := 3000
    coldThreshold := 2000
    cold_lt_hot := by decide }

/-- The owner demotes the IP under a new configuration, and is lost before that is published. -/
def demotingActions (ip : Address) : List (ℕ × Action) :=
  (0, .evaluate ip raisedConfig) :: List.replicate 3 (0, .proceed) ++ [(0, .crash)]

/-- With no failing call and no process lost, no demotion is cut off. -/
theorem not_cut (henv : env.NoCallFails) (h : History) {action : ℕ × Action}
    (hcrash : action.2 ≠ .crash) : ¬ Cut env h action := by
  obtain ⟨shard, action⟩ := action
  cases action with
  | crash => exact absurd rfl hcrash
  | proceed =>
    rintro ⟨owner, p, -, -, -, ⟨-, hout⟩ | ⟨-, hout⟩⟩
    · rw [henv] at hout
      cases hout
    · rw [henv] at hout
      cases hout
  | _ => exact fun hc => hc

/-- A promotion that nothing interrupts is durable. -/
theorem listed_is_durable_promoted : ∃ h : History,
    Listed (interpreterEnv (fun _ => 0) fun _ => .returns) 0 h.shared ⟨.ipv4, 1, by decide⟩ ∧
      ((⟨.ipv4, 1, by decide⟩ : Address) ∈ (h.shared.store.load 0).hotIps ∨
        ∃ owner p, h.owners 0 = some owner ∧ owner.pending = some p ∧
          p.Demotes ⟨.ipv4, 1, by decide⟩ ∧ owner.window.state ⟨.ipv4, 1, by decide⟩ = .hot) := by
  obtain ⟨t, owners, w, hall, -, hlisted, -⟩ := promotingActions_eq orderly_still (fun _ => rfl) rfl
  refine ⟨⟨t, owners⟩, hlisted, listed_is_durable _ (interpreterEnv_digest_injective _ _)
    (sharedWith ∅ 0) (Along.of_forall fun h action haction => ?_) hall.symm 0 hlisted⟩
  refine not_cut (fun _ => rfl) h ?_
  simp only [promotingActions, List.cons_append, List.nil_append, List.mem_cons,
    List.mem_replicate] at haction
  obtain rfl | rfl | rfl | ⟨-, rfl⟩ := haction <;> simp

/-- A demotion that is cut off is a leak: the log has the IP, there is no owner, and the durable HOT
set, from which the next owner starts, has not. -/
theorem demotion_leaks : ∃ (env : Env) (h : History),
    env.Orderly ∧ Function.Injective env.digest ∧
    h = (promotingActions ⟨.ipv4, 1, by decide⟩ ++ demotingActions ⟨.ipv4, 1, by decide⟩).foldl
      (History.step env) (History.start (sharedWith ∅ 0)) ∧
    h.owners 0 = none ∧ Listed env 0 h.shared ⟨.ipv4, 1, by decide⟩ ∧
    (⟨.ipv4, 1, by decide⟩ : Address) ∉ (h.shared.store.load 0).hotIps := by
  obtain ⟨t, owners, w, hall, hown, hlisted, hshard, hhot, htotal, hwarm⟩ :=
    promotingActions_eq orderly_still (fun _ => rfl) rfl
  have hedge : (edgeOf w ⟨.ipv4, 1, by decide⟩ raisedConfig).current = .cold := by
    unfold edgeOf
    rw [hhot, htotal]
    rfl
  obtain ⟨u, hcut, hlog, hload⟩ := interrupted_steps orderly_still (h := ⟨t, owners⟩) hown
    (show raisedConfig.hotThreshold ≠ 0 by decide) (by rw [hedge, hhot]; decide) hwarm
  refine ⟨_, ⟨u, Function.update owners 0 none⟩, orderly_still, interpreterEnv_digest_injective _ _,
    ?_, show Function.update owners 0 none 0 = none from Function.update_self _ _ _, ?_, ?_⟩
  · rw [List.foldl_append, hall]
    exact hcut.symm
  · unfold Listed
    rw [show (⟨u, _⟩ : History).shared.hotIp = t.hotIp from hlog]
    exact hlisted
  · rw [hshard] at hload
    show _ ∉ (u.store.load 0).hotIps
    rw [hload, hedge]
    exact Finset.notMem_erase _ _

end

end Hammertime.Aggregator
