import Hammertime.Aggregator.Worker
import Hammertime.Lib.Machine

/-!
# The lease protocol of several members

`ShardClaims` of several aggregators over one `ShardStateStore`. `on_assigned`, `renew_leases` and
`release` make one store call after the other and await each of them, so that the calls of the members
interleave. Here a member is what it remembers between two awaits: a call takes effect at the store in
one step, and the member goes on from its answer in another.

`lease_protocol` is about every interleaving in which no lease in the store has run out when a call is
made. The invariant is that a member leases only what the store has for it, and, during and after a
claim, that what it holds beyond its state before the call is on the list of what it has to undo.
-/

namespace Hammertime.Aggregator.Leases

open Lib

/-! ### Members -/

/-- What a `ShardClaims` is built with. -/
structure Identity where
  memberId : String
  instanceId : String
  leaseTtlS : ℚ
  leaseTtlS_pos : 0 < leaseTtlS

/-- `lease_owner`. -/
def Identity.leaseOwner (identity : Identity) : String :=
  identity.memberId ++ "/" ++ identity.instanceId

/-- A `ShardWindow`: which of the member's windows it is, and what it was built from. -/
structure Window where
  number : ℕ
  state : ShardState

/-- What a member holds when it is called. -/
structure Snapshot where
  leased : Finset ℕ
  windows : ℕ → Option Window
  /-- The leases in the store. -/
  leases : Dict ℕ (String × ℚ)

/-- The locals of `on_assigned` between two shards. -/
structure Claim where
  before : Snapshot
  /-- The shards that have not been looked at. -/
  rest : List ℕ
  claimed : List ℕ

/-- The store call that a member is about to make, or whose answer it has not seen yet. -/
inductive Task where
  | idle
  | acquire (shard : ℕ) (claim : Claim)
  | acquired (shard : ℕ) (answer : Option String) (claim : Claim)
  | load (shard : ℕ) (claim : Claim)
  | loaded (shard : ℕ) (state : ShardState) (claim : Claim)
  | rollBack (shard : ℕ) (before : Snapshot) (rest : List ℕ) (error : Failure)
  | rolledBack (before : Snapshot) (rest : List ℕ) (error : Failure)
  | renew (shard : ℕ) (rest : List ℕ)
  | renewed (shard : ℕ) (answer : Option String) (rest : List ℕ)
  | release (shard : ℕ) (rest : List ℕ)
  | released (rest : List ℕ)

/-- How the last call ended, if it raised. -/
inductive Outcome where
  /-- `on_assigned` was refused a shard. -/
  | refused (before : Snapshot) (error : Failure)
  | raised (error : Failure)

/-- `ShardClaims`. -/
structure Member where
  leased : Finset ℕ
  windows : ℕ → Option Window
  /-- How many windows it has built. -/
  built : ℕ
  task : Task
  outcome : Option Outcome

namespace Member

variable (m : Member)

/-- The member holds the lease and the window of the shard. -/
def Holds (shard : ℕ) : Prop := shard ∈ m.leased ∧ (m.windows shard).isSome

instance (shard : ℕ) : Decidable (m.Holds shard) := inferInstanceAs (Decidable (_ ∧ _))

/-- The loop of `on_assigned`, as far as the next store call. -/
def claimNext (m : Member) (before : Snapshot) (claimed : List ℕ) : List ℕ → Member
  | [] => { m with task := .idle }
  | shard :: rest =>
    if m.Holds shard then m.claimNext before claimed rest
    else { m with task := .acquire shard ⟨before, rest, claimed⟩ }

/-- The loop of the rollback, as far as the next store call, and the error at its end. -/
def rollBackNext (before : Snapshot) (error : Failure) : List ℕ → Member
  | [] => { m with task := .idle, outcome := some (.refused before error) }
  | shard :: rest =>
    { m with
      leased := m.leased.erase shard
      windows := Function.update m.windows shard none
      task := .rollBack shard before rest error }

/-- The loop of `renew_leases`. -/
def renewNext : List ℕ → Member
  | [] => { m with task := .idle }
  | shard :: rest => { m with task := .renew shard rest }

/-- The loop of `release`. -/
def releaseNext : List ℕ → Member
  | [] => { m with task := .idle }
  | shard :: rest => { m with task := .release shard rest }

end Member

/-! ### The system -/

variable {ι : Type} [DecidableEq ι] (identity : ι → Identity)

/-- The store and the members. -/
structure State (ι : Type) where
  store : ShardStateStore
  members : ι → Member

/-- The methods of a member. -/
inductive Method where
  /-- `on_assigned`, with the shards in the order in which it takes them. -/
  | onAssigned (shards : List ℕ)
  | renewLeases
  | release

/-- What happens next. -/
inductive Action (ι : Type) where
  /-- A method of a member that has returned from the last one. -/
  | enter (id : ι) (method : Method)
  /-- The member's store call, at the time of the store's clock. -/
  | call (id : ι) (now : ℤ)
  /-- The member goes on from the answer. -/
  | resume (id : ι)
  /-- A transition is recorded by whoever owns the shard. -/
  | record (shard : ℕ) (ip : Address) (state : IpState) (sequence : ℕ)

namespace State

variable (s : State ι)

/-- A member becomes another. -/
def setMember (id : ι) (m : Member) : State ι :=
  { s with members := Function.update s.members id m }

/-- What a member holds now. -/
def snapshot (id : ι) : Snapshot :=
  ⟨(s.members id).leased, (s.members id).windows, s.store.leases⟩

end State

/-- The start of a method. -/
def enter (before : Snapshot) (m : Member) : Method → Member
  | .onAssigned [] =>
    { m with
      outcome := some (.raised (.valueError
        "on_assigned() with an empty partition set: a member must hold a shard")) }
  | .onAssigned shards => { m with outcome := none }.claimNext before [] shards
  | .renewLeases => { m with outcome := none }.renewNext m.leased.sort
  | .release => { m with leased := ∅, outcome := none }.releaseNext m.leased.sort

/-- The store call of a task: the store and the task after it. -/
def call (identity : Identity) (store : ShardStateStore) (now : ℤ) : Task → ShardStateStore × Task
  | .acquire shard claim =>
    match store.acquireLease shard identity.leaseOwner identity.leaseTtlS now with
    | .ok (answer, store') => (store', .acquired shard answer claim)
    | .error _ => (store, .acquire shard claim)
  | .load shard claim => (store, .loaded shard (store.load shard) claim)
  | .rollBack shard before rest error =>
    (store.releaseLease shard identity.leaseOwner now, .rolledBack before rest error)
  | .renew shard rest =>
    match store.acquireLease shard identity.leaseOwner identity.leaseTtlS now with
    | .ok (answer, store') => (store', .renewed shard answer rest)
    | .error _ => (store, .renew shard rest)
  | .release shard rest => (store.releaseLease shard identity.leaseOwner now, .released rest)
  | task => (store, task)

/-- What a member does with an answer. -/
def resume (identity : Identity) (m : Member) : Member :=
  match m.task with
  | .acquired shard none claim =>
    { m with
      leased := insert shard m.leased
      task := .load shard { claim with claimed := claim.claimed ++ [shard] } }
  | .acquired shard (some owner) claim =>
    let error := if holderMember owner = identity.memberId then
      Failure.shardHeldBySameMember shard owner else .shardOwnedElsewhere shard owner
    m.rollBackNext claim.before error claim.claimed
  | .loaded shard state claim =>
    { m with
      windows := Function.update m.windows shard (some ⟨m.built, state⟩)
      built := m.built + 1 }.claimNext claim.before claim.claimed claim.rest
  | .rolledBack before rest error => m.rollBackNext before error rest
  | .renewed _ none rest => m.renewNext rest
  | .renewed shard (some owner) _ =>
    { m with task := .idle, outcome := some (.raised (.shardLeaseLost shard owner)) }
  | .released rest => m.releaseNext rest
  | _ => m

/-- One step. -/
def step (s : State ι) : Action ι → State ι
  | .enter id method =>
    match (s.members id).task with
    | .idle => s.setMember id (enter (s.snapshot id) (s.members id) method)
    | _ => s
  | .call id now =>
    let (store, task) := call (identity id) s.store now (s.members id).task
    { store := store
      members := Function.update s.members id { s.members id with task } }
  | .resume id => s.setMember id (resume (identity id) (s.members id))
  | .record shard ip state sequence =>
    { s with store := s.store.recordTransition shard ip state sequence }

/-- No lease of these owners has run out. -/
def Live (owners : Set String) (leases : Dict ℕ (String × ℚ)) (now : ℤ) : Prop :=
  ∀ shard, ∀ holder ∈ owners, ∀ expiresAt, leases.get? shard = some (holder, expiresAt) →
    (now : ℚ) < expiresAt

/-- The tokens of the members. -/
def owners : Set String := Set.range fun id => (identity id).leaseOwner

/-- The action meets no lease of a member that was left unrenewed past its time. A lease that someone
else has left behind may have run out. -/
def InTime (s : State ι) : Action ι → Prop
  | .call _ now => Live (owners identity) s.store.leases now
  | _ => True

/-- Members that hold nothing, over a store. -/
def start (store : ShardStateStore) : State ι :=
  ⟨store, fun _ => ⟨∅, fun _ => none, 0, .idle, none⟩⟩

/-! ### The store's lease calls -/

/-- The owner's leases are the same. -/
def SameOwn (owner : String) (leases leases' : Dict ℕ (String × ℚ)) : Prop :=
  ∀ shard e, leases'.get? shard = some (owner, e) ↔ leases.get? shard = some (owner, e)

section

variable {tokens : Set String} {store : ShardStateStore} {now : ℤ}

/-- Either the shard has a live holder and nothing changes, or no owner has it and at most a lease
that has run out is dropped. -/
theorem liveHolder_of_live (h : Live tokens store.leases now) (shard : ℕ) :
    (∃ holder expiresAt, store.leases.get? shard = some (holder, expiresAt) ∧
      store.liveHolder shard now = (some holder, store)) ∨
    (∀ owner ∈ tokens, ∀ e, store.leases.get? shard ≠ some (owner, e)) ∧
      ∃ store', store.liveHolder shard now = (none, store') ∧
        ∀ owner ∈ tokens, SameOwn owner store.leases store'.leases := by
  unfold ShardStateStore.liveHolder
  cases hget : store.leases.get? shard with
  | none => exact .inr ⟨nofun, store, rfl, fun _ _ _ _ => Iff.rfl⟩
  | some lease =>
    obtain ⟨holder, expiresAt⟩ := lease
    dsimp only
    by_cases hexpired : expiresAt ≤ now
    · -- A lease that has run out is none of the owners'.
      have hfree : ∀ owner ∈ tokens, ∀ e, some (holder, expiresAt) ≠ some (owner, e) := by
        intro owner howner e heq
        cases heq
        exact absurd (h shard holder howner expiresAt hget) (not_lt.mpr hexpired)
      rw [if_pos hexpired]
      refine .inr ⟨hfree, _, rfl, fun owner howner other e => ?_⟩
      show (store.leases.erase shard).get? other = some (owner, e) ↔ _
      rw [Dict.get?_erase]
      by_cases hother : shard = other
      · subst hother
        rw [if_pos rfl, hget]
        exact ⟨nofun, fun heq => absurd heq (hfree owner howner e)⟩
      · rw [if_neg hother]
    · rw [if_neg hexpired]
      exact .inl ⟨holder, expiresAt, rfl, rfl⟩

/-- What a granted lease leaves of the leases of an owner. -/
structure Granted (tokens : Set String) (owner : String) (shard : ℕ)
    (leases leases' : Dict ℕ (String × ℚ)) : Prop where
  /-- No other owner had it. -/
  free : ∀ other ∈ tokens, ∀ e, leases.get? shard = some (other, e) → other = owner
  self : ∃ e, leases'.get? shard = some (owner, e)
  rest : ∀ p ≠ shard, ∀ other ∈ tokens, ∀ e,
    leases'.get? p = some (other, e) ↔ leases.get? p = some (other, e)

/-- A lease is granted to its holder or if no owner has it, and refused otherwise. -/
theorem acquireLease_of_live (h : Live tokens store.leases now) (identity : Identity) (shard : ℕ) :
    (∃ store', store.acquireLease shard identity.leaseOwner identity.leaseTtlS now =
        .ok (none, store') ∧
      Granted tokens identity.leaseOwner shard store.leases store'.leases) ∨
    ∃ holder, store.acquireLease shard identity.leaseOwner identity.leaseTtlS now =
      .ok (some holder, store) := by
  have hset : ∀ (store' : ShardStateStore) (e : ℚ),
      (∀ owner ∈ tokens, SameOwn owner store.leases store'.leases) →
      (∀ other ∈ tokens, ∀ e, store.leases.get? shard = some (other, e) →
        other = identity.leaseOwner) →
      Granted tokens identity.leaseOwner shard store.leases
        (store'.leases.set shard (identity.leaseOwner, e)) := by
    intro store' e hsame hfree
    refine ⟨hfree, ⟨e, ?_⟩, fun p hp other hother e' => ?_⟩
    · rw [Dict.get?_set, if_pos rfl]
    · rw [Dict.get?_set, if_neg hp.symm]
      exact hsame other hother p e'
  unfold ShardStateStore.acquireLease
  rw [if_neg (not_le.mpr identity.leaseTtlS_pos)]
  obtain ⟨holder, expiresAt, hget, hholder⟩ | ⟨hfree, store', hnone, hsame⟩ :=
    liveHolder_of_live h shard
  · rw [hholder]
    by_cases howner : holder = identity.leaseOwner
    · refine .inl ⟨{ store with
        leases := store.leases.set shard (identity.leaseOwner, now + identity.leaseTtlS) },
        by simp [howner], hset store _ (fun _ _ _ _ => Iff.rfl) ?_⟩
      intro other _ e heq
      rw [hget] at heq
      cases heq
      exact howner
    · exact .inr ⟨holder, by simp [howner]⟩
  · rw [hnone]
    exact .inl ⟨_, rfl, hset store' _ hsame fun other hother e heq =>
      absurd heq (hfree other hother e)⟩

/-- A release removes the caller's own lease of the shard and no owner's beside it. -/
theorem get?_releaseLease_of_live (h : Live tokens store.leases now) (caller : String)
    (shard p : ℕ) {owner : String} (howner : owner ∈ tokens) (e : ℚ) :
    (store.releaseLease shard caller now).leases.get? p = some (owner, e) ↔
      store.leases.get? p = some (owner, e) ∧ ¬ (p = shard ∧ owner = caller) := by
  unfold ShardStateStore.releaseLease
  obtain ⟨holder, expiresAt, hget, hholder⟩ | ⟨hfree, store', hnone, hsame⟩ :=
    liveHolder_of_live h shard
  · rw [hholder]
    dsimp only
    by_cases hcaller : holder = caller
    · rw [if_pos (by rw [hcaller])]
      show (store.leases.erase shard).get? p = some (owner, e) ↔ _
      rw [Dict.get?_erase]
      by_cases hp : shard = p
      · subst hp
        rw [if_pos rfl, hget]
        refine ⟨nofun, fun hand => ?_⟩
        have hholder : holder = owner := congrArg Prod.fst (Option.some.inj hand.1)
        exact absurd ⟨rfl, hholder.symm.trans hcaller⟩ hand.2
      · rw [if_neg hp]
        exact ⟨fun heq => ⟨heq, fun hand => hp hand.1.symm⟩, And.left⟩
    · rw [if_neg fun heq => hcaller (Option.some.inj heq)]
      refine ⟨fun heq => ⟨heq, fun hand => ?_⟩, And.left⟩
      rw [hand.1, hget] at heq
      have hholder : holder = owner := congrArg Prod.fst (Option.some.inj heq)
      exact hcaller (hholder.trans hand.2)
  · rw [hnone]
    dsimp only
    rw [if_neg nofun, hsame owner howner p e]
    refine ⟨fun heq => ⟨heq, fun hand => ?_⟩, And.left⟩
    rw [hand.1] at heq
    exact hfree owner howner e heq

end

/-! ### The invariant -/

/-- What a member holds is what it held before, but for the shards it has taken and one whose lease
call is on its way; and none of these is a shard that it held with lease and window before. -/
structure Undoable (owner : String) (leases : Dict ℕ (String × ℚ)) (own : Finset ℕ)
    (current : ℕ → Option Window) (before : Snapshot) (taken flight : List ℕ) : Prop where
  leased : ∀ shard ∈ own, shard ∈ before.leased ∨ shard ∈ taken
  windows : ∀ shard w, current shard = some w → before.windows shard = some w ∨ shard ∈ taken
  held : ∀ shard e, leases.get? shard = some (owner, e) →
    (∃ e', before.leases.get? shard = some (owner, e')) ∨ shard ∈ taken ∨ shard ∈ flight
  kept : ∀ shard, shard ∈ before.leased → (before.windows shard).isSome →
    shard ∈ own ∧ current shard = before.windows shard ∧
      leases.get? shard = before.leases.get? shard ∧
      ∃ e, leases.get? shard = some (owner, e)
  notHeld : ∀ shard, shard ∈ taken ∨ shard ∈ flight →
    ¬ (shard ∈ before.leased ∧ (before.windows shard).isSome)

/-- What is known of a member between two steps of a call. -/
def TaskInvariant (owner : String) (leases : Dict ℕ (String × ℚ)) (m : Member) : Task → Prop
  | .acquire shard claim =>
    Undoable owner leases m.leased m.windows claim.before claim.claimed [] ∧ ¬ m.Holds shard
  | .acquired shard none claim =>
    Undoable owner leases m.leased m.windows claim.before claim.claimed [shard] ∧
      ∃ e, leases.get? shard = some (owner, e)
  | .acquired _ (some _) claim =>
    Undoable owner leases m.leased m.windows claim.before claim.claimed []
  | .load shard claim =>
    Undoable owner leases m.leased m.windows claim.before claim.claimed [] ∧ shard ∈ claim.claimed
  | .loaded shard _ claim =>
    Undoable owner leases m.leased m.windows claim.before claim.claimed [] ∧ shard ∈ claim.claimed
  | .rollBack shard before rest _ =>
    Undoable owner leases m.leased m.windows before rest [shard] ∧ shard ∉ m.leased
  | .rolledBack before rest _ => Undoable owner leases m.leased m.windows before rest []
  | .release _ _ => m.leased = ∅
  | .released _ => m.leased = ∅
  | _ => True

/-- A member leases only what the store has for it, and a refusal has been undone. -/
structure MemberInvariant (owner : String) (leases : Dict ℕ (String × ℚ)) (m : Member) : Prop where
  leased : ∀ shard ∈ m.leased, ∃ e, leases.get? shard = some (owner, e)
  task : TaskInvariant owner leases m m.task
  refused : ∀ before error, m.outcome = some (.refused before error) →
    m.task = .idle ∧ Undoable owner leases m.leased m.windows before [] []

/-- The invariant of the system. -/
def Invariant (s : State ι) : Prop :=
  ∀ id, MemberInvariant (identity id).leaseOwner s.store.leases (s.members id)

/-! ### The calls of others -/

section

variable {owner : String} {leases leases' : Dict ℕ (String × ℚ)}

theorem Undoable.transfer {leased : Finset ℕ} {windows : ℕ → Option Window} {before : Snapshot}
    {taken flight : List ℕ} (h : Undoable owner leases leased windows before taken flight)
    (hsame : SameOwn owner leases leases') :
    Undoable owner leases' leased windows before taken flight := by
  refine ⟨h.leased, h.windows, fun shard e he => h.held shard e ((hsame shard e).mp he),
    fun shard hleased hwindow => ?_, h.notHeld⟩
  obtain ⟨hl, hw, heq, e, he⟩ := h.kept shard hleased hwindow
  have he' : leases'.get? shard = some (owner, e) := (hsame shard e).mpr he
  exact ⟨hl, hw, he'.trans (he.symm.trans heq), e, he'⟩

theorem TaskInvariant.transfer {m : Member} (hsame : SameOwn owner leases leases') {task : Task}
    (h : TaskInvariant owner leases m task) : TaskInvariant owner leases' m task := by
  match task with
  | .idle => trivial
  | .acquire _ _ => exact ⟨h.1.transfer hsame, h.2⟩
  | .acquired shard none _ =>
    obtain ⟨e, he⟩ := h.2
    exact ⟨h.1.transfer hsame, e, (hsame shard e).mpr he⟩
  | .acquired _ (some _) _ => exact Undoable.transfer h hsame
  | .load _ _ => exact ⟨h.1.transfer hsame, h.2⟩
  | .loaded _ _ _ => exact ⟨h.1.transfer hsame, h.2⟩
  | .rollBack _ _ _ _ => exact ⟨h.1.transfer hsame, h.2⟩
  | .rolledBack _ _ _ => exact Undoable.transfer h hsame
  | .renew _ _ => trivial
  | .renewed _ _ _ => trivial
  | .release _ _ => exact h
  | .released _ => exact h

theorem MemberInvariant.transfer {m : Member} (h : MemberInvariant owner leases m)
    (hsame : SameOwn owner leases leases') : MemberInvariant owner leases' m := by
  refine ⟨fun shard hshard => ?_, h.task.transfer hsame, fun before error hrefused => ?_⟩
  · obtain ⟨e, he⟩ := h.leased shard hshard
    exact ⟨e, (hsame shard e).mpr he⟩
  · obtain ⟨hidle, hundo⟩ := h.refused before error hrefused
    exact ⟨hidle, hundo.transfer hsame⟩

/-- A lease that is granted is no one else's. -/
theorem Granted.sameOwn {tokens : Set String} {caller : String} {shard : ℕ}
    (h : Granted tokens caller shard leases leases') (howner : owner ∈ tokens)
    (hne : owner ≠ caller) : SameOwn owner leases leases' := by
  intro p e
  by_cases hp : p = shard
  · subst hp
    obtain ⟨e', he'⟩ := h.self
    constructor
    · intro heq
      rw [he'] at heq
      cases heq
      exact absurd rfl hne
    · intro heq
      exact absurd (h.free owner howner e heq) hne
  · exact h.rest p hp owner howner e

/-- No call of another member touches the owner's leases. -/
theorem sameOwn_call {tokens : Set String} (howner : owner ∈ tokens) {identity : Identity}
    (hne : owner ≠ identity.leaseOwner) {store : ShardStateStore} {now : ℤ}
    (hlive : Live tokens store.leases now) (task : Task) :
    SameOwn owner store.leases (call identity store now task).1.leases := by
  have hrelease : ∀ shard, SameOwn owner store.leases
      (store.releaseLease shard identity.leaseOwner now).leases := by
    intro shard p e
    rw [get?_releaseLease_of_live hlive _ shard p howner]
    exact ⟨And.left, fun heq => ⟨heq, fun hand => hne hand.2⟩⟩
  unfold call
  split
  · rename_i shard claim
    obtain ⟨store', hgrant, hgranted⟩ | ⟨holder, hrefuse⟩ :=
      acquireLease_of_live hlive identity shard
    · rw [hgrant]
      exact hgranted.sameOwn howner hne
    · rw [hrefuse]
      exact fun _ _ => Iff.rfl
  · exact fun _ _ => Iff.rfl
  · exact hrelease _
  · rename_i shard rest
    obtain ⟨store', hgrant, hgranted⟩ | ⟨holder, hrefuse⟩ :=
      acquireLease_of_live hlive identity shard
    · rw [hgrant]
      exact hgranted.sameOwn howner hne
    · rw [hrefuse]
      exact fun _ _ => Iff.rfl
  · exact hrelease _
  · exact fun _ _ => Iff.rfl

end

/-! ### A member's own steps -/

section

variable {owner : String} {leases : Dict ℕ (String × ℚ)} {m : Member}

/-- The last call did not end with a refusal. -/
def NotRefused (m : Member) : Prop := ∀ before error, m.outcome ≠ some (.refused before error)

theorem MemberInvariant.notRefused (h : MemberInvariant owner leases m) (hbusy : m.task ≠ .idle) :
    NotRefused m := fun before error hrefused => hbusy (h.refused before error hrefused).1

theorem memberInvariant_of_notRefused
    (hleased : ∀ shard ∈ m.leased, ∃ e, leases.get? shard = some (owner, e))
    (htask : TaskInvariant owner leases m m.task) (houtcome : NotRefused m) :
    MemberInvariant owner leases m :=
  ⟨hleased, htask, fun before error hrefused => absurd hrefused (houtcome before error)⟩

/-- Nothing has been taken when a call begins. -/
theorem undoable_self (hleased : ∀ shard ∈ m.leased, ∃ e, leases.get? shard = some (owner, e)) :
    Undoable owner leases m.leased m.windows ⟨m.leased, m.windows, leases⟩ [] [] :=
  ⟨fun _ h => .inl h, fun _ _ h => .inl h, fun _ e h => .inl ⟨e, h⟩,
    fun shard h _ => ⟨h, rfl, rfl, hleased shard h⟩, fun _ h => by simp at h⟩

/-- The loop of `on_assigned` comes to a shard that is not held, or to its end. -/
theorem claimNext_invariant
    (hleased : ∀ shard ∈ m.leased, ∃ e, leases.get? shard = some (owner, e))
    (houtcome : NotRefused m) {before : Snapshot} {claimed : List ℕ}
    (hundo : Undoable owner leases m.leased m.windows before claimed []) (rest : List ℕ) :
    MemberInvariant owner leases (m.claimNext before claimed rest) := by
  induction rest with
  | nil => exact memberInvariant_of_notRefused hleased trivial houtcome
  | cons shard rest ih =>
    unfold Member.claimNext
    split_ifs with hheld
    · exact ih
    · exact memberInvariant_of_notRefused hleased ⟨hundo, hheld⟩ houtcome

/-- The rollback forgets a shard before it releases it, and has nothing left at its end. -/
theorem rollBackNext_invariant
    (hleased : ∀ shard ∈ m.leased, ∃ e, leases.get? shard = some (owner, e))
    (houtcome : NotRefused m) {before : Snapshot} {rest : List ℕ}
    (hundo : Undoable owner leases m.leased m.windows before rest []) (error : Failure) :
    MemberInvariant owner leases (m.rollBackNext before error rest) := by
  cases rest with
  | nil =>
    refine ⟨hleased, trivial, fun before' error' hrefused => ⟨rfl, ?_⟩⟩
    cases hrefused
    exact hundo
  | cons shard rest =>
    have hleased' : ∀ p ∈ m.leased.erase shard, ∃ e, leases.get? p = some (owner, e) :=
      fun p hp => hleased p (Finset.mem_of_mem_erase hp)
    refine memberInvariant_of_notRefused hleased' ⟨⟨?_, ?_, ?_, ?_, ?_⟩,
      Finset.notMem_erase shard m.leased⟩ houtcome
    · intro p hp
      obtain ⟨hne, hp⟩ := Finset.mem_erase.mp hp
      exact (hundo.leased p hp).imp id fun hmem => (List.mem_cons.mp hmem).resolve_left hne
    · intro p w hw
      have hw : Function.update m.windows shard none p = some w := hw
      by_cases hp : p = shard
      · rw [hp, Function.update_self] at hw
        cases hw
      · rw [Function.update_of_ne hp] at hw
        exact (hundo.windows p w hw).imp id fun hmem => (List.mem_cons.mp hmem).resolve_left hp
    · intro p e he
      obtain h | h | h := hundo.held p e he
      · exact .inl h
      · obtain rfl | h := List.mem_cons.mp h
        · exact .inr (.inr List.mem_cons_self)
        · exact .inr (.inl h)
      · exact absurd h List.not_mem_nil
    · intro p hp hwindow
      -- A shard that is undone is not one that was held before.
      have hne : p ≠ shard := fun heq =>
        hundo.notHeld shard (.inl List.mem_cons_self) (heq ▸ ⟨hp, hwindow⟩)
      obtain ⟨hl, hw, hrest⟩ := hundo.kept p hp hwindow
      refine ⟨Finset.mem_erase.mpr ⟨hne, hl⟩, ?_, hrest⟩
      show Function.update m.windows shard none p = before.windows p
      rw [Function.update_of_ne hne]
      exact hw
    · intro p hp
      refine hundo.notHeld p (.inl ?_)
      obtain hp | hp := hp
      · exact List.mem_cons_of_mem _ hp
      · rw [List.mem_singleton.mp hp]
        exact List.mem_cons_self

/-- The member goes on from a granted lease. -/
theorem Undoable.granted {own : Finset ℕ} {current : ℕ → Option Window} {before : Snapshot}
    {taken : List ℕ} {shard : ℕ} (h : Undoable owner leases own current before taken [shard]) :
    Undoable owner leases (insert shard own) current before (taken ++ [shard]) [] := by
  refine ⟨fun p hp => ?_, fun p w hw => (h.windows p w hw).imp id (List.mem_append_left _),
    fun p e he => ?_, fun p hp hw => ?_, fun p hp => ?_⟩
  · obtain rfl | hp := Finset.mem_insert.mp hp
    · exact .inr (List.mem_append_right _ List.mem_cons_self)
    · exact (h.leased p hp).imp id (List.mem_append_left _)
  · obtain hb | hb | hb := h.held p e he
    · exact .inl hb
    · exact .inr (.inl (List.mem_append_left _ hb))
    · exact .inr (.inl (List.mem_append_right _ hb))
  · obtain ⟨hl, hrest⟩ := h.kept p hp hw
    exact ⟨Finset.mem_insert_of_mem hl, hrest⟩
  · obtain hp | hp := hp
    · exact h.notHeld p (List.mem_append.mp hp)
    · exact absurd hp List.not_mem_nil

/-- A window is built for a shard that has been taken. -/
theorem Undoable.opened {own : Finset ℕ} {current : ℕ → Option Window} {before : Snapshot}
    {taken : List ℕ} (h : Undoable owner leases own current before taken []) {shard : ℕ}
    (hshard : shard ∈ taken) (w : Window) :
    Undoable owner leases own (Function.update current shard (some w)) before taken [] := by
  refine ⟨h.leased, fun p w' hw => ?_, h.held, fun p hp hw => ?_, h.notHeld⟩
  · by_cases heq : p = shard
    · exact .inr (heq ▸ hshard)
    · rw [Function.update_of_ne heq] at hw
      exact h.windows p w' hw
  · have hne : p ≠ shard := fun heq => h.notHeld shard (.inl hshard) (heq ▸ ⟨hp, hw⟩)
    obtain ⟨hl, hwindow, hrest⟩ := h.kept p hp hw
    exact ⟨hl, by rw [Function.update_of_ne hne]; exact hwindow, hrest⟩

theorem resume_invariant (identity : Identity) (h : MemberInvariant owner leases m) :
    MemberInvariant owner leases (resume identity m) := by
  have htask := h.task
  have hbusy := h.notRefused
  unfold resume
  split
  · rename_i shard claim heq
    rw [heq] at htask hbusy
    obtain ⟨hundo, e, he⟩ := htask
    have hleased : ∀ p ∈ insert shard m.leased, ∃ e, leases.get? p = some (owner, e) := by
      intro p hp
      obtain rfl | hp := Finset.mem_insert.mp hp
      · exact ⟨e, he⟩
      · exact h.leased p hp
    exact memberInvariant_of_notRefused hleased
      ⟨hundo.granted, List.mem_append_right _ List.mem_cons_self⟩ (hbusy nofun)
  · rename_i shard holder claim heq
    rw [heq] at htask hbusy
    exact rollBackNext_invariant h.leased (hbusy nofun) htask _
  · rename_i shard state claim heq
    rw [heq] at htask hbusy
    exact claimNext_invariant
      (m := { m with
        windows := Function.update m.windows shard (some ⟨m.built, state⟩)
        built := m.built + 1 })
      h.leased (hbusy nofun) (htask.1.opened htask.2 _) claim.rest
  · rename_i before rest error heq
    rw [heq] at htask hbusy
    exact rollBackNext_invariant h.leased (hbusy nofun) htask error
  · rename_i shard rest heq
    rw [heq] at hbusy
    cases rest with
    | nil => exact memberInvariant_of_notRefused h.leased trivial (hbusy nofun)
    | cons shard rest => exact memberInvariant_of_notRefused h.leased trivial (hbusy nofun)
  · rename_i shard holder rest heq
    refine memberInvariant_of_notRefused h.leased trivial fun before error hrefused => ?_
    cases hrefused
  · rename_i rest heq
    rw [heq] at htask hbusy
    cases rest with
    | nil => exact memberInvariant_of_notRefused h.leased trivial (hbusy nofun)
    | cons shard rest => exact memberInvariant_of_notRefused h.leased htask (hbusy nofun)
  · exact h

/-- A lease is granted for a shard that the member does not hold. -/
theorem Undoable.flown {tokens : Set String} {leases' : Dict ℕ (String × ℚ)} {own : Finset ℕ}
    {current : ℕ → Option Window} {before : Snapshot} {taken : List ℕ} {shard : ℕ}
    (h : Undoable owner leases own current before taken []) (howner : owner ∈ tokens)
    (hgranted : Granted tokens owner shard leases leases')
    (hnot : ¬ (shard ∈ own ∧ (current shard).isSome)) :
    Undoable owner leases' own current before taken [shard] := by
  -- What was held before is still held, so that this shard was not.
  have hbefore : ¬ (shard ∈ before.leased ∧ (before.windows shard).isSome) := by
    intro hheld
    obtain ⟨hl, hw, -⟩ := h.kept shard hheld.1 hheld.2
    exact hnot ⟨hl, hw ▸ hheld.2⟩
  refine ⟨h.leased, h.windows, fun p e he => ?_, fun p hp hw => ?_, fun p hp => ?_⟩
  · by_cases heq : p = shard
    · exact .inr (.inr (List.mem_singleton.mpr heq))
    · obtain hb | hb | hb := h.held p e ((hgranted.rest p heq owner howner e).mp he)
      · exact .inl hb
      · exact .inr (.inl hb)
      · exact absurd hb List.not_mem_nil
  · have hne : p ≠ shard := fun heq => hbefore (heq ▸ ⟨hp, hw⟩)
    obtain ⟨hl, hwindow, heq, e, he⟩ := h.kept p hp hw
    have he' := (hgranted.rest p hne owner howner e).mpr he
    exact ⟨hl, hwindow, he'.trans (he.symm.trans heq), e, he'⟩
  · obtain hp | hp := hp
    · exact h.notHeld p (.inl hp)
    · rw [List.mem_singleton.mp hp]
      exact hbefore

/-- A shard that the member has forgotten is released. -/
theorem Undoable.dropped {leases' : Dict ℕ (String × ℚ)} {own : Finset ℕ}
    {current : ℕ → Option Window} {before : Snapshot} {taken : List ℕ} {shard : ℕ}
    (h : Undoable owner leases own current before taken [shard])
    (hleases : ∀ p e, leases'.get? p = some (owner, e) ↔
      leases.get? p = some (owner, e) ∧ p ≠ shard) :
    Undoable owner leases' own current before taken [] := by
  refine ⟨h.leased, h.windows, fun p e he => ?_, fun p hp hw => ?_, fun p hp => ?_⟩
  · obtain ⟨he, hne⟩ := (hleases p e).mp he
    obtain hb | hb | hb := h.held p e he
    · exact .inl hb
    · exact .inr (.inl hb)
    · exact absurd (List.mem_singleton.mp hb) hne
  · have hne : p ≠ shard := fun heq =>
      h.notHeld shard (.inr (List.mem_singleton.mpr rfl)) (heq ▸ ⟨hp, hw⟩)
    obtain ⟨hl, hwindow, heq, e, he⟩ := h.kept p hp hw
    have he' := (hleases p e).mpr ⟨he, hne⟩
    exact ⟨hl, hwindow, he'.trans (he.symm.trans heq), e, he'⟩
  · obtain hp | hp := hp
    · exact h.notHeld p (.inl hp)
    · exact absurd hp List.not_mem_nil

/-- A granted lease takes nothing from its owner. -/
theorem Granted.leased {tokens : Set String} {leases' : Dict ℕ (String × ℚ)} {shard : ℕ}
    (hgranted : Granted tokens owner shard leases leases') (howner : owner ∈ tokens)
    {own : Finset ℕ} (hleased : ∀ p ∈ own, ∃ e, leases.get? p = some (owner, e)) :
    ∀ p ∈ own, ∃ e, leases'.get? p = some (owner, e) := by
  intro p hp
  by_cases heq : p = shard
  · rw [heq]
    exact hgranted.self
  · obtain ⟨e, he⟩ := hleased p hp
    exact ⟨e, (hgranted.rest p heq owner howner e).mpr he⟩

end

/-- The member's own store call. -/
theorem call_invariant {tokens : Set String} {identity : Identity}
    (howner : identity.leaseOwner ∈ tokens) {store : ShardStateStore} {now : ℤ}
    (hlive : Live tokens store.leases now) {m : Member}
    (h : MemberInvariant identity.leaseOwner store.leases m) :
    MemberInvariant identity.leaseOwner (call identity store now m.task).1.leases
      { m with task := (call identity store now m.task).2 } := by
  have htask := h.task
  have hbusy := h.notRefused
  have hrelease : ∀ shard p e,
      (store.releaseLease shard identity.leaseOwner now).leases.get? p =
        some (identity.leaseOwner, e) ↔
      store.leases.get? p = some (identity.leaseOwner, e) ∧ p ≠ shard := by
    intro shard p e
    rw [get?_releaseLease_of_live hlive _ shard p howner]
    simp
  -- A task that waits for no call is left as it is.
  have hkeep : ∀ task, m.task = task → call identity store now task = (store, task) →
      MemberInvariant identity.leaseOwner (call identity store now task).1.leases
        { m with task := (call identity store now task).2 } := by
    intro task heq hcall
    rw [hcall, ← heq]
    exact h
  cases heq : m.task with
  | acquire shard claim =>
    rw [heq] at htask hbusy
    dsimp only [call]
    obtain ⟨store', hgrant, hgranted⟩ | ⟨holder, hrefuse⟩ :=
      acquireLease_of_live hlive identity shard
    · rw [hgrant]
      exact memberInvariant_of_notRefused (hgranted.leased howner h.leased)
        ⟨htask.1.flown howner hgranted htask.2, hgranted.self⟩ (hbusy (by simp))
    · rw [hrefuse]
      exact memberInvariant_of_notRefused h.leased htask.1 (hbusy (by simp))
  | load shard claim =>
    rw [heq] at htask hbusy
    exact memberInvariant_of_notRefused h.leased htask (hbusy (by simp))
  | rollBack shard before rest error =>
    rw [heq] at htask hbusy
    refine memberInvariant_of_notRefused (fun p hp => ?_) (htask.1.dropped (hrelease shard))
      (hbusy (by simp))
    obtain ⟨e, he⟩ := h.leased p hp
    exact ⟨e, (hrelease shard p e).mpr ⟨he, fun heq => htask.2 (heq ▸ hp)⟩⟩
  | renew shard rest =>
    rw [heq] at hbusy
    dsimp only [call]
    obtain ⟨store', hgrant, hgranted⟩ | ⟨holder, hrefuse⟩ :=
      acquireLease_of_live hlive identity shard
    · rw [hgrant]
      exact memberInvariant_of_notRefused (hgranted.leased howner h.leased) trivial (hbusy (by simp))
    · rw [hrefuse]
      exact memberInvariant_of_notRefused h.leased trivial (hbusy (by simp))
  | release shard rest =>
    rw [heq] at htask hbusy
    have hempty : m.leased = ∅ := htask
    refine memberInvariant_of_notRefused (fun p hp => ?_) htask (hbusy (by simp))
    rw [show _ = m.leased from rfl, hempty] at hp
    exact absurd hp (Finset.notMem_empty p)
  | idle => exact hkeep _ heq rfl
  | acquired shard answer claim => exact hkeep _ heq rfl
  | loaded shard state claim => exact hkeep _ heq rfl
  | rolledBack before rest error => exact hkeep _ heq rfl
  | renewed shard answer rest => exact hkeep _ heq rfl
  | released rest => exact hkeep _ heq rfl

/-- A method begins. -/
theorem enter_invariant {owner : String} {leases : Dict ℕ (String × ℚ)} {m : Member}
    (h : MemberInvariant owner leases m) (method : Method) :
    MemberInvariant owner leases (enter ⟨m.leased, m.windows, leases⟩ m method) := by
  match method with
  | .onAssigned [] =>
    exact memberInvariant_of_notRefused h.leased h.task fun before error hrefused => by
      cases hrefused
  | .onAssigned (shard :: rest) =>
    exact claimNext_invariant (m := { m with outcome := none }) h.leased (fun _ _ => nofun)
      (undoable_self h.leased) _
  | .renewLeases =>
    show MemberInvariant owner leases ({ m with outcome := none }.renewNext m.leased.sort)
    cases m.leased.sort with
    | nil => exact memberInvariant_of_notRefused h.leased trivial fun _ _ => nofun
    | cons shard rest => exact memberInvariant_of_notRefused h.leased trivial fun _ _ => nofun
  | .release =>
    have hleased : ∀ shard ∈ (∅ : Finset ℕ), ∃ e, leases.get? shard = some (owner, e) :=
      fun shard hshard => absurd hshard (Finset.notMem_empty shard)
    show MemberInvariant owner leases
      ({ m with leased := ∅, outcome := none }.releaseNext m.leased.sort)
    cases m.leased.sort with
    | nil => exact memberInvariant_of_notRefused hleased trivial fun _ _ => nofun
    | cons shard rest => exact memberInvariant_of_notRefused hleased rfl fun _ _ => nofun

/-! ### The members together -/

section

variable {identity}

omit [DecidableEq ι] in
theorem mem_owners (id : ι) : (identity id).leaseOwner ∈ owners identity := Set.mem_range_self id

omit [DecidableEq ι] in
theorem start_invariant (store : ShardStateStore) : Invariant identity (start store) :=
  fun _ => ⟨fun shard hshard => absurd hshard (Finset.notMem_empty shard), trivial, nofun⟩

/-- A step of one member that makes no store call. -/
theorem setMember_invariant {s : State ι} (h : Invariant identity s) {id : ι} {m : Member}
    (hm : MemberInvariant (identity id).leaseOwner s.store.leases m) :
    Invariant identity (s.setMember id m) := by
  intro other
  show MemberInvariant _ s.store.leases (Function.update s.members id m other)
  by_cases hother : other = id
  · subst hother
    rw [Function.update_self]
    exact hm
  · rw [Function.update_of_ne hother]
    exact h other

variable (hinjective : Function.Injective fun id => (identity id).leaseOwner)

include hinjective

theorem step_invariant (s : State ι) (action : Action ι) (h : Invariant identity s)
    (hin : InTime identity s action) : Invariant identity (step identity s action) := by
  match action with
  | .enter id method =>
    dsimp only [step]
    split
    · exact setMember_invariant h (enter_invariant (h id) method)
    · exact h
  | .call id now =>
    intro other
    show MemberInvariant _ (call (identity id) s.store now (s.members id).task).1.leases
      (Function.update s.members id _ other)
    by_cases hother : other = id
    · subst hother
      rw [Function.update_self]
      exact call_invariant (mem_owners other) hin (h other)
    · -- The call of another member leaves what this one knows of the store as it is.
      rw [Function.update_of_ne hother]
      have hne : (identity other).leaseOwner ≠ (identity id).leaseOwner := hinjective.ne hother
      exact (h other).transfer (sameOwn_call (mem_owners other) hne hin _)
  | .resume id => exact setMember_invariant h (resume_invariant (identity id) (h id))
  | .record shard ip state sequence => exact h

/-- Members with different tokens, over one store, in any order of their calls and while no lease of
theirs runs out: no shard is leased by two of them, still less leased and windowed; whatever a member
does next, it leaves the leases of the others in the store; and a member whose claim was refused has,
in the store and for itself, no lease and no window that it did not have before, and has every shard
that it had with lease and window as it had it. -/
theorem lease_protocol (store : ShardStateStore) (actions : List (Action ι))
    (hrun : Along (step identity) (InTime identity) (start store) actions) :
    let s := actions.foldl (step identity) (start store)
    (∀ id other shard, id ≠ other →
      ¬ ((s.members id).Holds shard ∧ (s.members other).Holds shard)) ∧
    (∀ id other now shard e, id ≠ other → InTime identity s (.call id now) →
      s.store.leases.get? shard = some ((identity other).leaseOwner, e) →
      (step identity s (.call id now)).store.leases.get? shard =
        some ((identity other).leaseOwner, e)) ∧
    ∀ id before error, (s.members id).outcome = some (.refused before error) →
      (s.members id).leased ⊆ before.leased ∧
      (∀ shard w, (s.members id).windows shard = some w → before.windows shard = some w) ∧
      (∀ shard e, s.store.leases.get? shard = some ((identity id).leaseOwner, e) →
        ∃ e', before.leases.get? shard = some ((identity id).leaseOwner, e')) ∧
      ∀ shard ∈ before.leased, (before.windows shard).isSome →
        shard ∈ (s.members id).leased ∧
        (s.members id).windows shard = before.windows shard ∧
        s.store.leases.get? shard = before.leases.get? shard ∧
        ∃ e, s.store.leases.get? shard = some ((identity id).leaseOwner, e) := by
  intro s
  have h : Invariant identity s :=
    hrun.invariant (step_invariant hinjective) (start_invariant store)
  refine ⟨fun id other shard hne hboth => ?_, fun id other now shard e hne hin he => ?_,
    fun id before error hrefused => ?_⟩
  · -- The store has one lease for the shard, and the two tokens differ.
    obtain ⟨e, he⟩ := (h id).leased shard hboth.1.1
    obtain ⟨e', he'⟩ := (h other).leased shard hboth.2.1
    have heq : (identity id).leaseOwner = (identity other).leaseOwner :=
      congrArg Prod.fst (Option.some.inj (he.symm.trans he'))
    exact hne (hinjective heq)
  · have htoken : (identity other).leaseOwner ≠ (identity id).leaseOwner :=
      hinjective.ne hne.symm
    exact (sameOwn_call (mem_owners other) htoken hin _ shard e).mpr he
  · obtain ⟨-, hundo⟩ := (h id).refused before error hrefused
    refine ⟨fun shard hshard => ?_, fun shard w hw => ?_, fun shard e he => ?_, hundo.kept⟩
    · exact (hundo.leased shard hshard).resolve_right List.not_mem_nil
    · exact (hundo.windows shard w hw).resolve_right List.not_mem_nil
    · obtain hb | hb | hb := hundo.held shard e he
      · exact hb
      · exact absurd hb List.not_mem_nil
      · exact absurd hb List.not_mem_nil

end

theorem twins_ttl_pos : (0 : ℚ) < 30 := by norm_num

/-- Two processes under one member id. -/
def twins (second : Bool) : Identity :=
  ⟨"aggregator-0", if second then "b" else "a", 30, twins_ttl_pos⟩

/-- The first takes shard 1, and the second, which wants both, is refused after it has taken
shard 0. -/
def crossing : List (Action Bool) :=
  [.enter false (.onAssigned [1]), .call false 0, .resume false,
    .enter true (.onAssigned [0, 1]), .call true 1, .call false 1, .resume false, .resume true,
    .call true 2, .resume true, .call true 2, .resume true, .call true 3, .resume true]

theorem lease_protocol_crossing :
    let s := crossing.foldl (step twins) (start ⟨.empty, .empty, .empty⟩)
    (∃ before error, (s.members true).outcome = some (.refused before error) ∧
      (s.members true).leased ⊆ before.leased) ∧
    (s.members false).Holds 1 ∧ ¬ (s.members true).Holds 1 := by
  have hinjective : Function.Injective fun second => (twins second).leaseOwner := by decide
  have hlive : ∀ (leases : Dict ℕ (String × ℚ)) (now : ℤ),
      (∀ item ∈ leases.items, (now : ℚ) < item.2.2) → Live (owners twins) leases now :=
    fun leases now h shard holder _ e he => h _ (Dict.mem_items_iff.mpr he)
  have hrun : Along (step twins) (InTime twins) (start ⟨.empty, .empty, .empty⟩) crossing :=
    ⟨trivial, hlive _ _ (by decide +kernel), trivial, trivial, hlive _ _ (by decide +kernel),
      hlive _ _ (by decide +kernel), trivial, trivial, hlive _ _ (by decide +kernel), trivial,
      hlive _ _ (by decide +kernel), trivial, hlive _ _ (by decide +kernel), trivial, trivial⟩
  obtain ⟨hexclusive, -, hundone⟩ := lease_protocol hinjective _ _ hrun
  have hfirst : ((crossing.foldl (step twins) (start ⟨.empty, .empty, .empty⟩)).members false).Holds
      1 := by decide +kernel
  have hsecond : ((crossing.foldl (step twins) (start ⟨.empty, .empty, .empty⟩)).members
      true).outcome.any (fun o => match o with | .refused _ _ => true | .raised _ => false) := by
    decide +kernel
  refine ⟨?_, hfirst, fun hheld => hexclusive false true 1 nofun ⟨hfirst, hheld⟩⟩
  obtain ⟨outcome, houtcome, hrefused⟩ := (Option.any_eq_true _ _).mp hsecond
  match outcome with
  | .refused before error => exact ⟨before, error, houtcome, (hundone true _ _ houtcome).1⟩
  | .raised error => cases hrefused

end Hammertime.Aggregator.Leases
