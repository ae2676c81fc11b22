import Hammertime.Aggregator.ConfigChange

/-!
# Who holds a lease

What the calls of one token do to the leases of the store. A lease of another token stays as it is
while it does not lapse (`Spares`), and a renewal leaves a token the leases that it has (`Renews`). A
claim that returns leaves its token with a lease of every shard that the worker has a window for, so
two workers with different tokens have no window of the same shard.
-/

namespace Hammertime.Aggregator

open Lib World

variable {env : Env} {owner : String}

/-! ### The store -/

/-- A lease is refused while another token holds it, and otherwise taken or renewed. -/
theorem acquireLease_cases {store store' : ShardStateStore} {shard : ℕ} {ttlSeconds : ℚ} {now : ℤ}
    {answer : Option String}
    (h : store.acquireLease shard owner ttlSeconds now = .ok (answer, store')) :
    store' = store ∧ answer ≠ none ∨
    answer = none ∧
      (∀ other expiresAt, store.leases.get? shard = some (other, expiresAt) →
        other = owner ∨ expiresAt ≤ now) ∧
      ∀ p, store'.leases.get? p =
        if shard = p then some (owner, now + ttlSeconds) else store.leases.get? p := by
  unfold ShardStateStore.acquireLease at h
  split_ifs at h
  unfold ShardStateStore.liveHolder at h
  cases hget : store.leases.get? shard with
  | none =>
    rw [hget] at h
    cases h
    exact .inr ⟨rfl, nofun, fun p => Dict.get?_set _ _ _ _⟩
  | some lease =>
    obtain ⟨holder, expiresAt⟩ := lease
    rw [hget] at h
    dsimp only at h
    by_cases hlapsed : expiresAt ≤ now
    · rw [if_pos hlapsed] at h
      cases h
      refine .inr ⟨rfl, fun other e heq => ?_, fun p => ?_⟩
      · cases heq
        exact .inr hlapsed
      · show ((store.leases.erase shard).set shard (owner, now + ttlSeconds)).get? p = _
        rw [Dict.get?_set, Dict.get?_erase]
        split_ifs <;> rfl
    · rw [if_neg hlapsed] at h
      dsimp only at h
      split_ifs at h with hother
      · cases h
        exact .inl ⟨rfl, Option.some_ne_none _⟩
      · cases h
        refine .inr ⟨rfl, fun other e heq => ?_, fun p => Dict.get?_set _ _ _ _⟩
        cases heq
        exact .inl (by simpa using hother)

/-- A release touches the lease of its shard only, and there one of its own or one that has lapsed. -/
theorem releaseLease_cases (store : ShardStateStore) (shard : ℕ) (owner : String) (now : ℤ) (p : ℕ) :
    (store.releaseLease shard owner now).leases.get? p = store.leases.get? p ∨
    shard = p ∧ ∀ other expiresAt, store.leases.get? shard = some (other, expiresAt) →
      other = owner ∨ expiresAt ≤ now := by
  unfold ShardStateStore.releaseLease ShardStateStore.liveHolder
  cases hget : store.leases.get? shard with
  | none => exact .inl rfl
  | some lease =>
    obtain ⟨holder, expiresAt⟩ := lease
    -- Where the lease goes, it is the shard's.
    have herased : (holder = owner ∨ expiresAt ≤ now) →
        (store.leases.erase shard).get? p = store.leases.get? p ∨
        shard = p ∧ ∀ other e, some (holder, expiresAt) = some (other, e) →
          other = owner ∨ e ≤ now := by
      intro hfree
      by_cases hp : shard = p
      · refine .inr ⟨hp, fun other e heq => ?_⟩
        cases heq
        exact hfree
      · exact .inl ((Dict.get?_erase _ _ _).trans (if_neg hp))
    dsimp only
    by_cases hlapsed : expiresAt ≤ now
    · rw [if_pos hlapsed]
      exact herased (.inr hlapsed)
    · rw [if_neg hlapsed]
      dsimp only
      split_ifs with hown
      · exact herased (.inl (Option.some.inj hown))
      · exact .inl rfl

theorem load_releaseLease (store : ShardStateStore) (shard : ℕ) (owner : String) (now : ℤ) (p : ℕ) :
    (store.releaseLease shard owner now).load p = store.load p := by
  unfold ShardStateStore.releaseLease
  dsimp only
  split_ifs <;> exact store.load_liveHolder shard p now

/-! ### What the calls of a token keep -/

/-- Between `s` and `t` the leases of other tokens stay as they are where they do not lapse. -/
structure Spares (env : Env) (owner : String) (s t : Shared) : Prop where
  tick : s.tick ≤ t.tick
  others : ∀ shard other expiresAt, other ≠ owner →
    s.store.leases.get? shard = some (other, expiresAt) →
    (∀ tick, s.tick ≤ tick → tick < t.tick → (env.now tick : ℚ) < expiresAt) →
    t.store.leases.get? shard = some (other, expiresAt)

/-- The token keeps its own leases too. -/
structure Renews (env : Env) (owner : String) (s t : Shared) : Prop extends Spares env owner s t where
  own : ∀ shard expiresAt, s.store.leases.get? shard = some (owner, expiresAt) →
    ∃ expiresAt', t.store.leases.get? shard = some (owner, expiresAt')

/-- Nothing is announced, and no HOT set is changed. -/
structure Tacit (env : Env) (owner : String) (s t : Shared) : Prop extends Spares env owner s t where
  hotIp : t.hotIp = s.hotIp
  load : ∀ shard, t.store.load shard = s.store.load shard

variable {s t u : Shared}

theorem Renews.of_leases (htick : s.tick ≤ t.tick) (h : t.store.leases = s.store.leases) :
    Renews env owner s t :=
  ⟨⟨htick, fun _ _ _ _ hget _ => h ▸ hget⟩, fun _ expiresAt hget => ⟨expiresAt, h ▸ hget⟩⟩

theorem Renews.refl (env : Env) (owner : String) (s : Shared) : Renews env owner s s :=
  of_leases le_rfl rfl

theorem Tacit.of_later (h : s.Later t) : Tacit env owner s t :=
  ⟨(Renews.of_leases h.tick (by rw [h.store])).toSpares, h.hotIp, fun _ => by rw [h.store]⟩

/-- Nothing of any shard's own happened. -/
theorem Tacit.foreign (h : Tacit env owner s t) (shard : ℕ) : Foreign env shard s t :=
  ⟨h.tick, h.load shard, ⟨[], by rw [h.hotIp, List.append_nil], nofun⟩,
    fun _ hid => .inl (h.hotIp ▸ hid)⟩

theorem Spares.trans (h : Spares env owner s t) (h' : Spares env owner t u) :
    Spares env owner s u := by
  refine ⟨h.tick.trans h'.tick, fun shard other expiresAt hne hget hlive => ?_⟩
  refine h'.others shard other expiresAt hne (h.others shard other expiresAt hne hget ?_) ?_
  · exact fun tick hs ht => hlive tick hs (ht.trans_le h'.tick)
  · exact fun tick ht hu => hlive tick (h.tick.trans ht) hu

theorem Renews.trans (h : Renews env owner s t) (h' : Renews env owner t u) :
    Renews env owner s u := by
  refine ⟨h.toSpares.trans h'.toSpares, fun shard expiresAt hget => ?_⟩
  obtain ⟨expiresAt', hget'⟩ := h.own shard expiresAt hget
  exact h'.own shard expiresAt' hget'

theorem Tacit.trans (h : Tacit env owner s t) (h' : Tacit env owner t u) : Tacit env owner s u :=
  ⟨h.toSpares.trans h'.toSpares, h'.hotIp.trans h.hotIp, fun shard =>
    (h'.load shard).trans (h.load shard)⟩

instance : Std.Refl (Tacit env owner) := ⟨fun s => .of_later (Shared.Later.refl s)⟩

instance : IsTrans Shared (Tacit env owner) := ⟨fun _ _ _ => Tacit.trans⟩

instance : Std.Refl (Renews env owner) := ⟨Renews.refl env owner⟩

instance : IsTrans Shared (Renews env owner) := ⟨fun _ _ _ => Renews.trans⟩

/-- A call leaves what its effect leaves, or only took its tick. -/
theorem after_call (env : Env) {α : Type} (effect : Shared → Except Failure (α × Shared)) (s : Shared) :
    Program.after (Shared.call env effect s) = s.advance ∨
      ∃ a t, effect s.advance = .ok (a, t) ∧ Program.after (Shared.call env effect s) = t := by
  unfold Shared.call
  cases he : effect s.advance with
  | error e =>
    cases env.outcome s.tick with
    | returns => exact .inl rfl
    | raises applied => cases applied <;> exact .inl rfl
  | ok r =>
    cases env.outcome s.tick with
    | returns => exact .inr ⟨r.1, r.2, rfl, rfl⟩
    | raises applied =>
      cases applied with
      | false => exact .inl rfl
      | true => exact .inr ⟨r.1, r.2, rfl, rfl⟩

/-- A call that returned had its effect. -/
theorem call_returned {α : Type} {effect : Shared → Except Failure (α × Shared)} {a : α}
    (h : Shared.call env effect s = .ok a t) : effect s.advance = .ok (a, t) := by
  cases he : effect s.advance with
  | error e =>
    unfold Shared.call at h
    rw [he] at h
    cases ho : env.outcome s.tick with
    | returns =>
      rw [ho] at h
      cases h
    | raises applied =>
      rw [ho] at h
      cases applied <;> cases h
  | ok r =>
    obtain ⟨rfl, rfl⟩ := Shared.call_ok he h
    rfl

theorem after_acquireLease (env : Env) (shard : ℕ) (owner : String) (ttlSeconds : ℚ) (s : Shared) :
    Program.after (Shared.acquireLease env shard owner ttlSeconds s) = s.advance ∨
      ∃ answer store,
        s.store.acquireLease shard owner ttlSeconds (env.now s.tick) = .ok (answer, store) ∧
        Program.after (Shared.acquireLease env shard owner ttlSeconds s) =
          { s.advance with store := store } := by
  refine (after_call env _ s).imp id ?_
  rintro ⟨answer, t, heffect, h⟩
  obtain ⟨⟨answer', store⟩, hstore, heq⟩ := except_bind_ok.mp heffect
  have hnow : s.advance.tick - 1 = s.tick := Nat.add_sub_cancel s.tick 1
  rw [hnow] at hstore
  cases heq
  exact ⟨answer, store, hstore, h⟩

theorem acquireLease_renews (shard : ℕ) (ttlSeconds : ℚ) :
    Program.Within (Renews env owner) (Shared.acquireLease env shard owner ttlSeconds) := by
  intro s
  have hadvance : Renews env owner s s.advance := .of_leases (Nat.le_succ _) rfl
  obtain h | ⟨answer, store, hstore, h⟩ := after_acquireLease env shard owner ttlSeconds s
  · exact h.symm ▸ hadvance
  · refine h.symm ▸ ?_
    obtain ⟨rfl, -⟩ | ⟨-, hfree, hget⟩ := acquireLease_cases hstore
    · exact hadvance
    · refine ⟨⟨Nat.le_succ _, fun p other expiresAt hne hlease hlive => ?_⟩,
        fun p expiresAt hlease => ?_⟩
      · refine (hget p).trans ?_
        split_ifs with hp
        · -- The lease of another token was neither this token's nor lapsed.
          subst hp
          have hnot := not_le.mpr (hlive s.tick le_rfl (Nat.lt_succ_self _))
          exact absurd (hfree other expiresAt hlease) (not_or_intro hne hnot)
        · exact hlease
      · by_cases hp : shard = p
        · exact ⟨_, (hget p).trans (if_pos hp)⟩
        · exact ⟨expiresAt, ((hget p).trans (if_neg hp)).trans hlease⟩

theorem acquireLease_tacit (shard : ℕ) (ttlSeconds : ℚ) :
    Program.Within (Tacit env owner) (Shared.acquireLease env shard owner ttlSeconds) := by
  intro s
  have hspares := (acquireLease_renews shard ttlSeconds s : Renews env owner s _).toSpares
  obtain h | ⟨answer, store, hstore, h⟩ := after_acquireLease env shard owner ttlSeconds s
  · rw [h] at hspares ⊢
    exact ⟨hspares, rfl, fun _ => rfl⟩
  · rw [h] at hspares ⊢
    exact ⟨hspares, rfl, s.store.load_acquireLease hstore⟩

theorem releaseLease_tacit (shard : ℕ) :
    Program.Within (Tacit env owner) (Shared.releaseLease env shard owner) := by
  intro s
  have hadvance : Tacit env owner s s.advance := .of_later (Shared.Later.advance s)
  have hafter : Program.after (Shared.releaseLease env shard owner s) = s.advance ∨ _ :=
    after_call env _ s
  obtain h | ⟨⟨⟩, t, heffect, h⟩ := hafter
  · exact h.symm ▸ hadvance
  · refine h.symm ▸ ?_
    cases heffect
    refine ⟨⟨Nat.le_succ _, fun p other expiresAt hne hlease hlive => ?_⟩, rfl, fun p => ?_⟩
    · obtain hsame | ⟨rfl, hfree⟩ := releaseLease_cases s.advance.store shard owner
        (env.now (s.advance.tick - 1)) p
      · exact hsame.trans hlease
      · have hnot := not_le.mpr (hlive s.tick le_rfl (Nat.lt_succ_self _))
        exact absurd (hfree other expiresAt hlease) (not_or_intro hne hnot)
    · exact load_releaseLease s.advance.store shard owner _ p

/-- A lease that was granted is the token's. -/
theorem acquireLease_granted {shard : ℕ} {ttlSeconds : ℚ}
    (h : Shared.acquireLease env shard owner ttlSeconds s = .ok none t) :
    ∃ expiresAt, t.store.leases.get? shard = some (owner, expiresAt) := by
  have heffect := call_returned h
  obtain ⟨⟨answer, store⟩, hstore, heq⟩ := except_bind_ok.mp heffect
  cases heq
  obtain ⟨-, hanswer⟩ | ⟨-, -, hget⟩ := acquireLease_cases hstore
  · exact absurd rfl hanswer
  · exact ⟨_, (hget shard).trans (if_pos rfl)⟩

/-! ### The programs of a worker -/

/-- A worker that acts under a token keeps it, and what surrounds it stays within a relation. -/
def World.Acting (R : Shared → Shared → Prop) (owner : String) (s t : World) : Prop :=
  s.worker.claims.leaseOwner = owner → t.worker.claims.leaseOwner = owner ∧ R s.shared t.shared

namespace World.Acting

variable {R : Shared → Shared → Prop}

instance [Std.Refl R] : Std.Refl (Acting R owner) := ⟨fun s h => ⟨h, refl s.shared⟩⟩

instance [IsTrans Shared R] : IsTrans World (Acting R owner) := by
  refine ⟨fun s t u hst htu hs => ?_⟩
  obtain ⟨ht, hshared⟩ := hst hs
  obtain ⟨hu, hshared'⟩ := htu ht
  exact ⟨hu, IsTrans.trans _ _ _ hshared hshared'⟩

theorem outside {α : Type} {m : Program Failure Shared α} (hm : Program.Within R m) :
    Program.Within (Acting R owner) (World.outside m) :=
  Program.Within.zoom hm fun _ _ hshared howner => ⟨howner, hshared⟩

theorem get_bind {α : Type} {f : World → Program Failure World α}
    (h : ∀ s : World, s.worker.claims.leaseOwner = owner → Program.Within (Acting R owner) (f s)) :
    Program.Within (Acting R owner) (MonadState.get >>= f) :=
  fun s howner => h s howner s howner

theorem modifyClaims [Std.Refl R] {f : ShardClaims → Except Failure ShardClaims}
    (hf : ∀ claims claims', f claims = .ok claims' → claims'.leaseOwner = claims.leaseOwner) :
    Program.Within (Acting R owner) (World.modifyClaims f) := by
  intro s howner
  unfold World.modifyClaims
  cases h : f s.worker.claims with
  | error e => exact ⟨howner, refl s.shared⟩
  | ok claims => exact ⟨(hf _ _ h).trans howner, refl s.shared⟩

end World.Acting

theorem renewLeases_acting (env : Env) (owner : String) :
    Program.Within (Acting (Renews env owner) owner) (renewLeases env) := by
  refine Acting.get_bind fun s howner => Program.Within.forM _ fun shard _ => ?_
  rw [howner]
  refine Program.Within.bind (Acting.outside (acquireLease_renews shard _)) fun answer => ?_
  cases answer with
  | none => exact Program.Within.pure _
  | some holder => exact Program.Within.throw _

theorem release_acting (env : Env) (owner : String) :
    Program.Within (Acting (Tacit env owner) owner) (release env) := by
  refine Acting.get_bind fun s howner => Program.Within.bind ?_ fun _ =>
    Program.Within.forM _ fun shard _ => ?_
  · refine Acting.modifyClaims fun claims claims' h => ?_
    cases h
    rfl
  · rw [howner]
    exact Acting.outside (releaseLease_tacit shard)

theorem rollBack_acting (env : Env) (owner : String) (claimed : List ℕ) :
    Program.Within (Acting (Tacit env owner) owner) (rollBack env claimed) := by
  refine Program.Within.forM _ fun shard _ => Program.Within.bind ?_ fun _ =>
    Acting.get_bind fun s howner => ?_
  · refine Acting.modifyClaims fun claims claims' h => ?_
    cases h
    rfl
  · rw [howner]
    exact Acting.outside (releaseLease_tacit shard)

theorem openWindow_acting (env : Env) (owner : String) (shard : ℕ) :
    Program.Within (Acting (Tacit env owner) owner) (openWindow env shard) := by
  have hlater : ∀ {α : Type} {m : Program Failure Shared α},
      Program.Within (fun s t => s.Later t) m →
      Program.Within (Acting (Tacit env owner) owner) (World.outside m) := fun hm =>
    Acting.outside (hm.mono fun _ _ => Tacit.of_later)
  refine Program.Within.bind ?_ fun _ => Program.Within.bind (hlater ?_) fun state =>
    Program.Within.bind (hlater fun s => Shared.Later.advance s) fun now =>
      Program.Within.bind (hlater fun s => Shared.Later.advance s) fun ips => ?_
  · refine Acting.modifyClaims fun claims claims' h => ?_
    cases h
    rfl
  · refine Shared.call_within (R := fun s t => s.Later t) (fun _ _ _ => Shared.Later.trans)
      Shared.Later.advance fun s a t h => ?_
    cases h
    exact Shared.Later.refl _
  · refine Acting.modifyClaims fun claims claims' h => ?_
    obtain ⟨w, -, h⟩ := except_bind_ok.mp h
    cases h
    rfl

theorem claimLoop_acting (env : Env) (owner : String) (shards claimed : List ℕ) :
    Program.Within (Acting (Tacit env owner) owner) (claimLoop env shards claimed) := by
  induction shards generalizing claimed with
  | nil => exact Program.Within.pure _
  | cons shard rest ih =>
    unfold claimLoop
    refine Acting.get_bind fun s howner => ?_
    dsimp only
    split_ifs
    · exact ih claimed
    · rw [howner]
      refine Program.Within.bind (Acting.outside (acquireLease_tacit shard _)) fun answer => ?_
      cases answer with
      | some holder =>
        refine Program.Within.bind (rollBack_acting env owner claimed) fun _ => ?_
        split_ifs
        · exact Program.Within.throw _
        · exact Program.Within.throw _
      | none => exact Program.Within.bind (openWindow_acting env owner shard) fun _ => ih _

theorem onAssigned_acting (env : Env) (owner : String) (partitions : Finset ℕ) :
    Program.Within (Acting (Tacit env owner) owner) (onAssigned env partitions) := by
  unfold onAssigned
  split_ifs
  · exact Program.Within.throw _
  · exact claimLoop_acting env owner _ _

/-! ### A window goes with a lease -/

/-- Every shard that the worker has a window for is leased under the worker's token. -/
def World.Leased (s : World) : Prop :=
  ∀ shard ∈ s.worker.claims.windows.keys,
    ∃ expiresAt, s.shared.store.leases.get? shard = some (s.worker.claims.leaseOwner, expiresAt)

theorem claimLoop_leased {s t : World} {shards claimed : List ℕ} (hs : s.Leased)
    (h : claimLoop env shards claimed s = .ok ⟨⟩ t) : t.Leased := by
  induction shards generalizing s claimed with
  | nil =>
    cases h
    exact hs
  | cons shard rest ih =>
    unfold claimLoop at h
    obtain ⟨s', s'', hget, h⟩ := Program.bind_ok.mp h
    cases hget
    split_ifs at h with hheld
    · exact ih hs h
    · obtain ⟨answer, s₁, hlease, h⟩ := Program.bind_ok.mp h
      obtain ⟨shared, hcall, rfl⟩ := Program.zoom_ok.mp hlease
      have hrenews := (acquireLease_renews shard _).of_ok hcall
      cases answer with
      | some holder =>
        -- A refusal rolls back and raises.
        obtain ⟨⟨⟩, s₂, -, h⟩ := Program.bind_ok.mp h
        split_ifs at h <;> cases h
      | none =>
        obtain ⟨⟨⟩, s₂, hopen, h⟩ := Program.bind_ok.mp h
        obtain ⟨w, hlater, -, -, hworker⟩ := openWindow_ok hopen
        refine ih (fun p hp => ?_) h
        have howner : s₂.worker.claims.leaseOwner = s.worker.claims.leaseOwner := by rw [hworker]; rfl
        rw [howner, hlater.store]
        by_cases hsame : shard = p
        · exact hsame ▸ acquireLease_granted hcall
        · have hold : p ∈ s.worker.claims.windows.keys := by
            rw [hworker] at hp
            obtain ⟨v, hv⟩ := Dict.mem_keys_iff.mp hp
            have hv' : (s.worker.claims.windows.set shard w).get? p = some v := hv
            rw [Dict.get?_set, if_neg hsame] at hv'
            exact Dict.mem_keys_iff.mpr ⟨v, hv'⟩
          obtain ⟨expiresAt, hget⟩ := hs p hold
          exact hrenews.own p expiresAt hget

/-- A claim of a worker without windows. -/
theorem onAssigned_leased {s t : World} {partitions : Finset ℕ}
    (hempty : s.worker.claims.windows = .empty) (h : onAssigned env partitions s = .ok ⟨⟩ t) :
    t.Leased := by
  unfold onAssigned at h
  split_ifs at h
  · cases h
  · refine claimLoop_leased (fun shard hshard => ?_) h
    rw [hempty] at hshard
    cases hshard

end Hammertime.Aggregator
