import Mathlib.Data.Finset.Image
import Mathlib.Data.Finset.Option
import Mathlib.Logic.Function.Basic
import Hammertime.Codec.Interpreter
import Hammertime.Environment
import Hammertime.Lib.Machine

/-!
# The Redis shard-state store refines the one in memory

`RedisShardStateStore` of `hammertime.store.redis`: a set of address texts and a counter for each
shard. `record_transition` is an optimistic transaction. It watches the counter, reads it, and sends
one `MULTI`/`EXEC` that changes the set and, if its own sequence is ahead of what it read, sets the
counter. The `EXEC` aborts when the counter was written since the `WATCH`, and the call starts over, at
most 16 times. The set is not watched.

Any number of clients run such calls, one command at a time in any order. The state carries a ghost:
the transitions in the order of their successful `EXEC`s. The refinement is that the two keys always
hold what `MemoryShardStateStore` holds after these transitions.
-/

namespace Hammertime.Store.RedisShard

open Lib

/-- The arguments of `record_transition`. -/
structure Transition where
  shard : ℕ
  ip : Address
  state : IpState
  sequence : ℕ

/-- `_MAX_SEQUENCE_CAS_ATTEMPTS`. -/
def maxSequenceCasAttempts : ℕ := 16

/-- The next command of a `record_transition`, or how it ended. -/
inductive Stage where
  | watch
  /-- The counter is watched since it was written so many times. -/
  | get (version : ℕ)
  /-- The counter was read, and the transaction is queued. -/
  | exec (version : ℕ) (stored : Option ℕ)
  | returned
  /-- `WatchError`, after the last attempt. -/
  | raised
deriving DecidableEq

/-- A call of `record_transition`. -/
structure Call where
  transition : Transition
  /-- The attempts that are left, the present one included. -/
  attempts : ℕ
  stage : Stage
  /-- How many transitions had taken effect when the call was made. -/
  began : ℕ

/-- The server, the calls of all clients, and what has taken effect. -/
structure State where
  /-- The SET `hammertime:agg:{shard}:hot`. -/
  hot : ℕ → Finset String
  /-- The counter `hammertime:agg:{shard}:seq`. -/
  seq : ℕ → Option ℕ
  /-- How often each counter was written. -/
  writes : ℕ → ℕ
  calls : ℕ → Option Call
  /-- The calls whose `EXEC` succeeded, in that order, with their transitions. -/
  effects : List (ℕ × Transition)
  /-- The answers of `load`, each with how many transitions had taken effect. -/
  loads : List (ℕ × Except Failure ShardState × ℕ)

/-- What happens next. -/
inductive Action where
  /-- A client calls `record_transition`. A negative sequence raises `ValueError` at once. -/
  | record (id : ℕ) (shard : ℕ) (ip : Address) (state : IpState) (sequence : ℤ)
  /-- The next command of a call. -/
  | command (id : ℕ)
  /-- A client's `load`: `SMEMBERS` and `GET` in one `MULTI`/`EXEC`. -/
  | load (shard : ℕ)

section

variable (text : Address → String) (parse : String → Option Address)

namespace State

variable (s : State)

/-- A call goes on. -/
def advance (id : ℕ) (call : Call) (attempts : ℕ) (stage : Stage) : State :=
  { s with calls := Function.update s.calls id (some { call with attempts, stage }) }

/-- The queued commands of a transaction: `SADD` or `SREM`, and `SET` of the counter if the call's own
is ahead of what it read. -/
def commit (id : ℕ) (t : Transition) (stored : Option ℕ) : State :=
  let raises := stored.all (· < t.sequence + 1)
  { s with
    hot := Function.update s.hot t.shard
      (match t.state with
        | .hot => insert (text t.ip) (s.hot t.shard)
        | .cold => (s.hot t.shard).erase (text t.ip))
    seq := if raises then Function.update s.seq t.shard (some (t.sequence + 1)) else s.seq
    writes := if raises then Function.update s.writes t.shard (s.writes t.shard + 1) else s.writes
    effects := s.effects ++ [(id, t)] }

/-- The next command of a call. -/
def command (id : ℕ) (call : Call) : State :=
  match call.stage with
  | .watch => s.advance id call call.attempts (.get (s.writes call.transition.shard))
  | .get version => s.advance id call call.attempts (.exec version (s.seq call.transition.shard))
  | .exec version stored =>
    if s.writes call.transition.shard = version then
      (s.commit text id call.transition stored).advance id call call.attempts .returned
    else
      -- `WatchError`: nothing of the transaction is applied.
      match call.attempts with
      | 0 => s.advance id call 0 .raised
      | 1 => s.advance id call 0 .raised
      | attempts + 2 => s.advance id call (attempts + 1) .watch
  | .returned => s
  | .raised => s

/-- What `load` makes of the members and the counter. -/
def answer (shard : ℕ) : Except Failure ShardState :=
  if ∀ member ∈ s.hot shard, (parse member).isSome then
    .ok ⟨((s.hot shard).image parse).eraseNone, (s.seq shard).getD 0⟩
  else .error (.valueError "InvalidAddressError")

end State

/-- One step. -/
def step (s : State) : Action → State
  | .record id shard ip state sequence =>
    if sequence < 0 ∨ (s.calls id).isSome then s
    else
      { s with
        calls := Function.update s.calls id
          (some ⟨⟨shard, ip, state, sequence.toNat⟩, maxSequenceCasAttempts, .watch,
            s.effects.length⟩) }
  | .command id =>
    match s.calls id with
    | none => s
    | some call => s.command text id call
  | .load shard =>
    { s with loads := s.loads ++ [⟨shard, s.answer parse shard, s.effects.length⟩] }

end

/-- An empty server, before any call. -/
def start : State := ⟨fun _ => ∅, fun _ => none, fun _ => 0, fun _ => none, [], []⟩

/-! ### The store in memory after the same transitions -/

/-- `MemoryShardStateStore.record_transition`. -/
def record (store : ShardStateStore) (t : Transition) : ShardStateStore :=
  store.recordTransition t.shard t.ip t.state t.sequence

/-- The store in memory after the transitions, from an empty one. -/
def reference (effects : List (ℕ × Transition)) : ShardStateStore :=
  (effects.map Prod.snd).foldl record ⟨.empty, .empty, .empty⟩

theorem reference_concat (effects : List (ℕ × Transition)) (id : ℕ) (t : Transition) :
    reference (effects ++ [(id, t)]) = record (reference effects) t := by
  unfold reference
  rw [List.map_append, List.foldl_append]
  rfl

/-- The sequence after the highest of the shard's transitions, and 0 if there is none. -/
def nextSequence (effects : List (ℕ × Transition)) (shard : ℕ) : ℕ :=
  ((effects.filter fun e => e.2.shard = shard).map fun e => e.2.sequence + 1).foldl max 0

theorem nextSequence_reference (effects : List (ℕ × Transition)) (shard : ℕ) :
    ((reference effects).load shard).nextSequence = nextSequence effects shard := by
  induction effects using List.reverseRecOn with
  | nil => rfl
  | append_singleton effects e ih =>
    obtain ⟨id, t⟩ := e
    rw [reference_concat, record]
    unfold nextSequence
    rw [List.filter_append, List.map_append, List.foldl_append]
    by_cases hshard : t.shard = shard
    · have hself := ShardStateStore.load_recordTransition_self (reference effects) t.shard t.ip
        t.state t.sequence
      subst hshard
      rw [hself]
      simp only [List.filter_cons, decide_true, if_true, List.filter_nil, List.map_cons,
        List.map_nil, List.foldl_cons, List.foldl_nil]
      rw [ih]
      rfl
    · rw [ShardStateStore.load_recordTransition_of_ne _ hshard, ih]
      simp [hshard, nextSequence]

/-! ### The invariant -/

section

variable {text : Address → String} {parse : String → Option Address}

/-- The keys hold what the store in memory holds. -/
def Refines (text : Address → String) (s : State) : Prop :=
  ∀ shard, s.hot shard = ((reference s.effects).load shard).hotIps.image text ∧
    (s.seq shard).getD 0 = ((reference s.effects).load shard).nextSequence

/-- The entries of a call among the effects. -/
def entries (id : ℕ) (s : State) : List (ℕ × Transition) := s.effects.filter fun e => e.1 = id

/-- What is known of a call: what it read still stands unless the counter was written, and it has
taken effect once if it has returned, after it was made, and not at all otherwise. -/
structure Sound (s : State) (id : ℕ) (call : Call) : Prop where
  watched : ∀ version, call.stage = .get version → version ≤ s.writes call.transition.shard
  read : ∀ version stored, call.stage = .exec version stored →
    version ≤ s.writes call.transition.shard ∧
      (s.writes call.transition.shard = version → s.seq call.transition.shard = stored)
  began : call.began ≤ s.effects.length
  returned : call.stage = .returned →
    entries id s = [(id, call.transition)] ∧
      (id, call.transition) ∈ s.effects.drop call.began
  pending : call.stage ≠ .returned → entries id s = []

/-- A load returned what the store in memory held at one instant. -/
def Loaded (s : State) : Prop :=
  ∀ l ∈ s.loads, l.2.2 ≤ s.effects.length ∧
    l.2.1 = .ok ((reference (s.effects.take l.2.2)).load l.1)

/-- The whole invariant. -/
structure Invariant (text : Address → String) (s : State) : Prop where
  refines : Refines text s
  calls : ∀ id call, s.calls id = some call → Sound s id call
  unknown : ∀ id, s.calls id = none → entries id s = []
  loads : Loaded s

/-! ### What a step leaves of the others -/

/-- A counter that was not written is the same, and only the call `id` may have taken effect. -/
structure Grows (id : ℕ) (s t : State) : Prop where
  writes : ∀ shard, s.writes shard ≤ t.writes shard
  seq : ∀ shard, t.writes shard = s.writes shard → t.seq shard = s.seq shard
  effects : ∃ more, t.effects = s.effects ++ more ∧ ∀ e ∈ more, e.1 = id

theorem Grows.entries_eq {id other : ℕ} {s t : State} (h : Grows id s t) (hne : other ≠ id) :
    entries other t = entries other s := by
  obtain ⟨more, hmore, hids⟩ := h.effects
  have hnil : more.filter (fun e => e.1 = other) = [] := by
    refine List.filter_eq_nil_iff.mpr fun e he => ?_
    rw [hids e he, decide_eq_true_eq]
    exact fun heq => hne heq.symm
  unfold entries
  rw [hmore, List.filter_append, hnil, List.append_nil]

/-- A call of another client is as sound as before. -/
theorem Sound.grows {id other : ℕ} {s t : State} {call : Call} (h : Sound s other call)
    (hne : other ≠ id) (hg : Grows id s t) : Sound t other call := by
  obtain ⟨more, hmore, -⟩ := hg.effects
  have hlen : s.effects.length ≤ t.effects.length := by
    rw [hmore, List.length_append]
    omega
  refine ⟨fun version hv => (h.watched version hv).trans (hg.writes _), fun version stored hv => ?_,
    h.began.trans hlen, fun hr => ?_, fun hp => (hg.entries_eq hne).trans (h.pending hp)⟩
  · obtain ⟨hle, hread⟩ := h.read version stored hv
    refine ⟨hle.trans (hg.writes _), fun heq => ?_⟩
    -- An unwritten counter lies between two equal numbers of writes.
    have hsame : s.writes call.transition.shard = version :=
      le_antisymm (heq ▸ hg.writes _) hle
    rw [hg.seq _ (heq.trans hsame.symm)]
    exact hread hsame
  · obtain ⟨hentries, hmem⟩ := h.returned hr
    refine ⟨(hg.entries_eq hne).trans hentries, ?_⟩
    rw [hmore, List.drop_append_of_le_length h.began]
    exact List.mem_append_left _ hmem

/-- The other calls, after a step of the call `id`. -/
theorem Invariant.others {id : ℕ} {s t : State} (h : Invariant text s) (hg : Grows id s t)
    {call : Call} (hcalls : t.calls = Function.update s.calls id (some call))
    (hself : Sound t id call) :
    (∀ other c, t.calls other = some c → Sound t other c) ∧
      ∀ other, t.calls other = none → entries other t = [] := by
  refine ⟨fun other c hc => ?_, fun other hc => ?_⟩
  · rw [hcalls] at hc
    by_cases heq : other = id
    · rw [heq, Function.update_self] at hc
      cases hc
      exact heq ▸ hself
    · rw [Function.update_of_ne heq] at hc
      exact (h.calls other c hc).grows heq hg
  · rw [hcalls] at hc
    by_cases heq : other = id
    · rw [heq, Function.update_self] at hc
      cases hc
    · rw [Function.update_of_ne heq] at hc
      rw [hg.entries_eq heq]
      exact h.unknown other hc

/-- A load that has been answered stays so. -/
theorem Loaded.grows {id : ℕ} {s t : State} (h : Loaded s) (hg : Grows id s t)
    (hloads : t.loads = s.loads) : Loaded t := by
  obtain ⟨more, hmore, -⟩ := hg.effects
  intro l hl
  rw [hloads] at hl
  obtain ⟨hle, hanswer⟩ := h l hl
  rw [hmore]
  refine ⟨hle.trans (by simp), ?_⟩
  rw [List.take_append_of_le_length hle]
  exact hanswer

theorem grows_advance (s : State) (id : ℕ) (call : Call) (attempts : ℕ) (stage : Stage) :
    Grows id s (s.advance id call attempts stage) :=
  ⟨fun _ => le_refl _, fun _ _ => rfl, [], (List.append_nil _).symm, fun _ he => absurd he
    List.not_mem_nil⟩

/-- A call that goes on without taking effect. -/
theorem Invariant.advance {s : State} (h : Invariant text s) {id : ℕ} {call : Call}
    (hcall : s.calls id = some call) (hp : call.stage ≠ .returned) {attempts : ℕ} {stage : Stage}
    (hr : stage ≠ .returned)
    (hwatched : ∀ version, stage = .get version → version ≤ s.writes call.transition.shard)
    (hread : ∀ version stored, stage = .exec version stored →
      version ≤ s.writes call.transition.shard ∧
        (s.writes call.transition.shard = version → s.seq call.transition.shard = stored)) :
    Invariant text (s.advance id call attempts stage) := by
  have hg := grows_advance s id call attempts stage
  have hsound := h.calls id call hcall
  have hself : Sound (s.advance id call attempts stage) id { call with attempts, stage } :=
    ⟨hwatched, hread, hsound.began, fun heq => absurd heq hr, fun _ => hsound.pending hp⟩
  obtain ⟨hcalls, hunknown⟩ := h.others hg rfl hself
  exact ⟨h.refines, hcalls, hunknown, h.loads.grows hg rfl⟩

/-! ### The transaction -/

/-- The transaction writes the counter that `record_transition` in memory does. -/
theorem seq_commit {s : State} {id : ℕ} {t : Transition} {stored : Option ℕ}
    (hread : s.seq t.shard = stored) (shard : ℕ) :
    ((s.commit text id t stored).seq shard).getD 0 =
      if shard = t.shard then max ((s.seq shard).getD 0) (t.sequence + 1)
      else (s.seq shard).getD 0 := by
  subst hread
  unfold State.commit
  dsimp only
  by_cases hshard : shard = t.shard
  · subst hshard
    rw [if_pos rfl]
    cases hseq : s.seq t.shard with
    | none => simp
    | some stored =>
      by_cases hlt : stored < t.sequence + 1
      · have hall : (some stored).all (fun n => decide (n < t.sequence + 1)) = true := by
          simpa using hlt
        rw [hall]
        simp only [if_true, Function.update_self, Option.getD_some]
        omega
      · have hall : (some stored).all (fun n => decide (n < t.sequence + 1)) = false := by
          simpa using hlt
        rw [hall]
        simp only [Bool.false_eq_true, if_false, hseq, Option.getD_some]
        omega
  · rw [if_neg hshard]
    split_ifs
    · rw [Function.update_of_ne hshard]
    · rfl

theorem refines_commit (hparse : ∀ ip, parse (text ip) = some ip) {s : State} (h : Refines text s)
    {id : ℕ} {t : Transition} {stored : Option ℕ} (hread : s.seq t.shard = stored) :
    Refines text (s.commit text id t stored) := by
  have hinj : Function.Injective text := by
    intro a b hab
    have hsome := (hparse a).symm.trans ((congrArg parse hab).trans (hparse b))
    exact Option.some.inj hsome
  intro shard
  have heffects : (s.commit text id t stored).effects = s.effects ++ [(id, t)] := rfl
  rw [heffects, reference_concat, record, seq_commit hread]
  obtain ⟨hhot, hseq⟩ := h shard
  by_cases hshard : shard = t.shard
  · subst hshard
    rw [ShardStateStore.load_recordTransition_self, if_pos rfl]
    refine ⟨?_, by rw [hseq]⟩
    show Function.update s.hot t.shard _ t.shard = _
    rw [Function.update_self, hhot]
    cases t.state with
    | hot => exact (Finset.image_insert _ _ _).symm
    | cold => exact (Finset.image_erase hinj _ _).symm
  · rw [ShardStateStore.load_recordTransition_of_ne _ (Ne.symm hshard), if_neg hshard]
    refine ⟨?_, hseq⟩
    show Function.update s.hot t.shard _ shard = _
    rw [Function.update_of_ne hshard, hhot]

theorem grows_commit (s : State) (id : ℕ) (t : Transition) (stored : Option ℕ) :
    Grows id s (s.commit text id t stored) := by
  refine ⟨fun shard => ?_, fun shard heq => ?_, [(id, t)], rfl, fun e he => ?_⟩
  · unfold State.commit
    dsimp only
    split_ifs
    · by_cases hshard : shard = t.shard
      · rw [hshard, Function.update_self]
        omega
      · rw [Function.update_of_ne hshard]
    · exact le_refl _
  · unfold State.commit at heq ⊢
    dsimp only at heq ⊢
    split_ifs at heq ⊢
    · by_cases hshard : shard = t.shard
      · rw [hshard, Function.update_self] at heq
        omega
      · rw [Function.update_of_ne hshard]
    · rfl
  · rw [List.mem_singleton.mp he]

/-- The transaction of a call that read what still stands. -/
theorem Invariant.commit (hparse : ∀ ip, parse (text ip) = some ip) {s : State}
    (h : Invariant text s) {id : ℕ} {call : Call} (hcall : s.calls id = some call)
    {version : ℕ} {stored : Option ℕ} (hstage : call.stage = .exec version stored)
    (hversion : s.writes call.transition.shard = version) :
    Invariant text
      ((s.commit text id call.transition stored).advance id call call.attempts .returned) := by
  have hsound := h.calls id call hcall
  have hread : s.seq call.transition.shard = stored :=
    (hsound.read version stored hstage).2 hversion
  have hnone : entries id s = [] := hsound.pending (by rw [hstage]; nofun)
  have hg : Grows id s
      ((s.commit text id call.transition stored).advance id call call.attempts .returned) := by
    have hcommit : Grows id s (s.commit text id call.transition stored) := grows_commit s id _ _
    exact ⟨hcommit.writes, hcommit.seq, hcommit.effects⟩
  -- The ghost has just recorded the call, and no earlier entry is its own.
  have hentries : entries id (s.commit text id call.transition stored) =
      [(id, call.transition)] := by
    have hsplit : entries id (s.commit text id call.transition stored) =
        entries id s ++ [(id, call.transition)] := by
      unfold entries
      have heffects : (s.commit text id call.transition stored).effects =
        s.effects ++ [(id, call.transition)] := rfl
      rw [heffects, List.filter_append]
      simp
    rw [hsplit, hnone, List.nil_append]
  have hself : Sound ((s.commit text id call.transition stored).advance id call call.attempts
      .returned) id { call with stage := .returned } := by
    refine ⟨nofun, nofun, ?_, fun _ => ⟨hentries, ?_⟩, fun hne => absurd rfl hne⟩
    · have hlen : (s.effects ++ [(id, call.transition)]).length = s.effects.length + 1 := by simp
      have hbegan := hsound.began
      show call.began ≤ (s.effects ++ [(id, call.transition)]).length
      omega
    · show (id, call.transition) ∈ (s.effects ++ [(id, call.transition)]).drop call.began
      rw [List.drop_append_of_le_length hsound.began]
      exact List.mem_append_right _ (List.mem_singleton.mpr rfl)
  obtain ⟨hcalls, hunknown⟩ := h.others hg rfl hself
  exact ⟨refines_commit hparse h.refines hread, hcalls, hunknown, h.loads.grows hg rfl⟩

/-- The next command of any call keeps the invariant. -/
theorem Invariant.command (hparse : ∀ ip, parse (text ip) = some ip) {s : State}
    (h : Invariant text s) {id : ℕ} {call : Call} (hcall : s.calls id = some call) :
    Invariant text (s.command text id call) := by
  unfold State.command
  cases hstage : call.stage with
  | watch =>
    have hp : call.stage ≠ .returned := by rw [hstage]; nofun
    refine h.advance hcall hp (by nofun) ?_ (by nofun)
    intro version hv
    cases hv
    exact le_refl _
  | get version =>
    have hwatched := (h.calls id call hcall).watched version hstage
    have hp : call.stage ≠ .returned := by rw [hstage]; nofun
    refine h.advance hcall hp (by nofun) (by nofun) ?_
    intro version' stored hv
    cases hv
    exact ⟨hwatched, fun _ => rfl⟩
  | exec version stored =>
    dsimp only
    by_cases hversion : s.writes call.transition.shard = version
    · rw [if_pos hversion]
      exact h.commit hparse hcall hstage hversion
    · rw [if_neg hversion]
      have hp : call.stage ≠ .returned := by rw [hstage]; nofun
      split
      · exact h.advance hcall hp (by nofun) (by nofun) (by nofun)
      · exact h.advance hcall hp (by nofun) (by nofun) (by nofun)
      · exact h.advance hcall hp (by nofun) (by nofun) (by nofun)
  | returned => exact h
  | raised => exact h

/-- Every member parses, so a load is answered with what the store in memory holds. -/
theorem Refines.answer (hparse : ∀ ip, parse (text ip) = some ip) {s : State}
    (h : Refines text s) (shard : ℕ) :
    s.answer parse shard = .ok ((reference s.effects).load shard) := by
  obtain ⟨hhot, hseq⟩ := h shard
  have hparses : ∀ member ∈ s.hot shard, (parse member).isSome := by
    intro member hmember
    rw [hhot] at hmember
    obtain ⟨ip, -, rfl⟩ := Finset.mem_image.mp hmember
    rw [hparse]
    rfl
  have himage : ((s.hot shard).image parse).eraseNone =
      ((reference s.effects).load shard).hotIps := by
    have hsome : parse ∘ text = some := funext hparse
    ext ip
    rw [hhot, Finset.image_image, hsome, Finset.mem_eraseNone, Finset.mem_image]
    simp
  unfold State.answer
  rw [if_pos hparses, himage, hseq]

/-- Every step keeps the invariant. -/
theorem Invariant.step (hparse : ∀ ip, parse (text ip) = some ip) {s : State}
    (h : Invariant text s) (action : Action) : Invariant text (step text parse s action) := by
  cases action with
  | record id shard ip state sequence =>
    unfold RedisShard.step
    dsimp only
    split_ifs with hguard
    · exact h
    · rw [not_or, Option.isSome_iff_ne_none, not_not] at hguard
      set call : Call := ⟨⟨shard, ip, state, sequence.toNat⟩, maxSequenceCasAttempts, .watch,
        s.effects.length⟩
      set t : State := { s with calls := Function.update s.calls id (some call) } with ht
      have hg : Grows id s t :=
        ⟨fun _ => le_refl _, fun _ _ => rfl, [], (List.append_nil _).symm,
          fun _ he => absurd he List.not_mem_nil⟩
      have hself : Sound t id call :=
        ⟨nofun, nofun, le_refl _, nofun, fun _ => h.unknown id hguard.2⟩
      obtain ⟨hcalls, hunknown⟩ := h.others hg rfl hself
      exact ⟨h.refines, hcalls, hunknown, h.loads.grows hg rfl⟩
  | command id =>
    unfold RedisShard.step
    dsimp only
    cases hcall : s.calls id with
    | none => exact h
    | some call => exact h.command hparse hcall
  | load shard =>
    refine ⟨h.refines, fun id call hcall => ?_, h.unknown, fun l hl => ?_⟩
    · have hsound := h.calls id call hcall
      exact ⟨hsound.watched, hsound.read, hsound.began, hsound.returned, hsound.pending⟩
    · obtain hl | hl := List.mem_append.mp hl
      · exact h.loads l hl
      · rw [List.mem_singleton.mp hl]
        refine ⟨le_refl _, ?_⟩
        show s.answer parse shard =
          .ok ((reference (s.effects.take s.effects.length)).load shard)
        rw [List.take_of_length_le (le_refl s.effects.length)]
        exact h.refines.answer hparse shard

theorem invariant_start : Invariant text start := by
  refine ⟨fun shard => ⟨?_, rfl⟩, nofun, fun _ _ => rfl, nofun⟩
  rfl

/-- No step lowers a counter. -/
theorem seq_step (s : State) (h : Invariant text s) (action : Action) (shard : ℕ) :
    (s.seq shard).getD 0 ≤ ((step text parse s action).seq shard).getD 0 := by
  cases action with
  | record id shard' ip state sequence =>
    unfold RedisShard.step
    dsimp only
    split_ifs <;> exact le_refl _
  | command id =>
    unfold RedisShard.step
    dsimp only
    cases hcall : s.calls id with
    | none => exact le_refl _
    | some call =>
      dsimp only
      unfold State.command
      cases hstage : call.stage with
      | exec version stored =>
        dsimp only
        by_cases hversion : s.writes call.transition.shard = version
        · rw [if_pos hversion]
          have hread := ((h.calls id call hcall).read version stored hstage).2 hversion
          show _ ≤ ((s.commit text id call.transition stored).seq shard).getD 0
          rw [seq_commit hread]
          split_ifs
          · exact le_max_left _ _
          · exact le_refl _
        · rw [if_neg hversion]
          split <;> exact le_refl _
      | watch => exact le_refl _
      | get version => exact le_refl _
      | returned => exact le_refl _
      | raised => exact le_refl _
  | load shard' => exact le_refl _

/-- The state after the actions. -/
def run (text : Address → String) (parse : String → Option Address) (s : State)
    (actions : List Action) : State :=
  actions.foldl (step text parse) s

theorem invariant_run (hparse : ∀ ip, parse (text ip) = some ip) {s : State}
    (h : Invariant text s) (actions : List Action) :
    Invariant text (run text parse s actions) := by
  have hstep : ∀ s action, Invariant text s → Invariant text (step text parse s action) :=
    fun _ action hs => hs.step hparse action
  exact invariant_foldl hstep h actions

/-! ### Linearizability -/

/-- The store is linearizable: what clients see is what the store in memory gives for the effects. -/
structure Linearized (text : Address → String) (s : State) : Prop where
  /-- A call that returned took effect once, after it was made. -/
  returned : ∀ id call, s.calls id = some call → call.stage = .returned →
    ∃ before after, s.effects = before ++ (id, call.transition) :: after ∧
      call.began ≤ before.length ∧ ∀ e ∈ before ++ after, e.1 ≠ id
  /-- A call that raised, or has not returned yet, took no effect. -/
  unreturned : ∀ id call, s.calls id = some call → call.stage ≠ .returned →
    ∀ e ∈ s.effects, e.1 ≠ id
  /-- The members are those of the store in memory. -/
  hot : ∀ shard, s.hot shard = ((reference s.effects).load shard).hotIps.image text
  /-- A load was answered as the store in memory would have been, at its own instant. -/
  loads : ∀ load ∈ s.loads, load.2.2 ≤ s.effects.length ∧
    load.2.1 = .ok ((reference (s.effects.take load.2.2)).load load.1)
  /-- The counter is 0, or one more than the highest sequence that took effect. -/
  seq : ∀ shard, (s.seq shard).getD 0 = nextSequence s.effects shard ∧
    (s.seq shard).getD 0 = ((reference s.effects).load shard).nextSequence

/-- The one entry of a call, and what stands around it. -/
theorem Sound.split {s : State} {id : ℕ} {call : Call} (h : Sound s id call)
    (hstage : call.stage = .returned) :
    ∃ before after, s.effects = before ++ (id, call.transition) :: after ∧
      call.began ≤ before.length ∧ ∀ e ∈ before ++ after, e.1 ≠ id := by
  obtain ⟨hentries, hmem⟩ := h.returned hstage
  obtain ⟨first, after, hdrop⟩ := List.append_of_mem hmem
  have hsplit : s.effects =
      (s.effects.take call.began ++ first) ++ (id, call.transition) :: after := by
    rw [List.append_assoc, ← hdrop, List.take_append_drop]
  refine ⟨s.effects.take call.began ++ first, after, hsplit, ?_, fun e he heq => ?_⟩
  · rw [List.length_append, List.length_take, min_eq_left h.began]
    omega
  · -- A second entry would make two of the call among the effects.
    have htwo : 1 < (entries id s).length := by
      unfold entries
      rw [hsplit, List.filter_append, List.filter_cons, if_pos (decide_eq_true rfl),
        List.length_append, List.length_cons]
      obtain he | he := List.mem_append.mp he
      · have hmem : e ∈ (s.effects.take call.began ++ first).filter fun e => e.1 = id :=
          List.mem_filter.mpr ⟨he, decide_eq_true heq⟩
        have hpos := List.length_pos_of_mem hmem
        omega
      · have hmem : e ∈ after.filter fun e => e.1 = id :=
          List.mem_filter.mpr ⟨he, decide_eq_true heq⟩
        have hpos := List.length_pos_of_mem hmem
        omega
    rw [hentries, List.length_singleton] at htwo
    omega

theorem Invariant.linearized {s : State} (h : Invariant text s) : Linearized text s := by
  refine ⟨fun id call hcall hstage => (h.calls id call hcall).split hstage,
    fun id call hcall hstage e he heq => ?_, fun shard => (h.refines shard).1, h.loads,
    fun shard => ⟨?_, (h.refines shard).2⟩⟩
  · have hnone := (h.calls id call hcall).pending hstage
    have hmem : e ∈ entries id s := List.mem_filter.mpr ⟨he, decide_eq_true heq⟩
    rw [hnone] at hmem
    exact List.not_mem_nil hmem
  · rw [(h.refines shard).2, nextSequence_reference]

/-- Whatever clients do, and however their commands interleave, the store is linearizable after every
step, and no later step lowers a counter. -/
theorem record_transition_refines (text : Address → String) (parse : String → Option Address)
    (hparse : ∀ ip, parse (text ip) = some ip) (actions more : List Action) :
    Linearized text (run text parse start actions) ∧
      ∀ shard, ((run text parse start actions).seq shard).getD 0 ≤
        ((run text parse start (actions ++ more)).seq shard).getD 0 := by
  have hrun := invariant_run hparse invariant_start actions
  refine ⟨hrun.linearized, fun shard => ?_⟩
  have hsplit : run text parse start (actions ++ more) =
      run text parse (run text parse start actions) more := List.foldl_append
  -- The counter is at least what it was, along the rest of the run.
  have hkeeps : ∀ s action,
      (Invariant text s ∧ ((run text parse start actions).seq shard).getD 0 ≤ (s.seq shard).getD 0) →
      Invariant text (step text parse s action) ∧ ((run text parse start actions).seq shard).getD 0 ≤
        ((step text parse s action).seq shard).getD 0 :=
    fun s action hs => ⟨hs.1.step hparse action, hs.2.trans (seq_step s hs.1 action shard)⟩
  rw [hsplit]
  exact (invariant_foldl hkeeps ⟨hrun, le_refl _⟩ more).2

/-- Two clients race on one shard: the second has to start over. -/
theorem record_transition_refines_race :
    Linearized Codec.addressText (run Codec.addressText
      (fun t => Codec.textInverse Codec.addressText (Text.ofString t)) start
      [.record 0 7 ⟨.ipv4, 1, by decide⟩ .hot 4, .record 1 7 ⟨.ipv4, 2, by decide⟩ .hot 9, .command 0, .command 1, .command 0,
        .command 1, .command 1, .command 0, .command 0, .command 0, .command 0, .load 7]) :=
  (record_transition_refines Codec.addressText
    (fun t => Codec.textInverse Codec.addressText (Text.ofString t))
    (Codec.textInverse_apply Codec.addressText_injective) _ []).1

end

end Hammertime.Store.RedisShard
