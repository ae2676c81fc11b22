import Hammertime.Store.Retention

/-!
# The interface of the dedup stores

`DedupStore` of `hammertime.store.interface`, as far as an atomic `claim` and what `has_seen` would
answer. The time of a call is whatever the store reads from its clock during it. `memory` is the store
in memory behind this interface; there the claim is atomic because it never yields.
-/

namespace Hammertime.Store

open Lib

/-- `DedupStore`, with a claim that is atomic and does not fail. -/
structure DedupStore (τ : Type) where
  State : Type
  /-- What `has_seen` answers at a time. -/
  hasSeen : State → τ → String → ℤ → Bool
  claim : State → τ → String → ℤ → ℤ → Bool × State
  /-- A claim succeeds exactly if the pair has not been seen. -/
  claim_answer : ∀ state t agentId sequence ttlSeconds,
    (claim state t agentId sequence ttlSeconds).1 = !hasSeen state t agentId sequence
  /-- What has been seen after a claim is its own pair, or had been seen before. -/
  claim_seen : ∀ state t agentId sequence ttlSeconds u a x, 0 ≤ x →
    hasSeen (claim state t agentId sequence ttlSeconds).2 u a x = true →
    a = agentId ∧ x = sequence ∨ ∃ u', hasSeen state u' a x = true

/-! ### A window holds only what was added -/

namespace SequenceWindow

theorem contains_foldContiguousRun {w : SequenceWindow} {x : ℤ}
    (h : w.foldContiguousRun.contains x = true) : w.contains x = true := by
  fun_induction foldContiguousRun w with
  | case1 w hin ih =>
    have hx := contains_iff.mp (ih h)
    rw [contains_iff]
    rcases hx with hx | hx
    · have hx : x ≤ w.highWaterMark + 1 := hx
      by_cases heq : x = w.highWaterMark + 1
      · exact Or.inr (heq ▸ hin)
      · exact Or.inl (by omega)
    · exact Or.inr (Finset.mem_of_mem_erase hx)
  | case2 w hin => exact h

theorem contains_boundOutOfOrderSet {w : SequenceWindow} {x : ℤ}
    (h : w.boundOutOfOrderSet.contains x = true) : w.contains x = true := by
  unfold boundOutOfOrderSet at h
  split_ifs at h
  · rw [contains_iff] at h ⊢
    exact h.imp id Finset.mem_of_mem_erase
  · exact h

theorem contains_add {w : SequenceWindow} {sequence x : ℤ}
    (h : (w.add sequence).contains x = true) : w.contains x = true ∨ x = sequence := by
  unfold add at h
  split_ifs at h with hin hnext
  · exact Or.inl h
  · have hx := contains_iff.mp (contains_foldContiguousRun h)
    rw [contains_iff]
    rcases hx with hx | hx
    · have hx : x ≤ sequence := hx
      by_cases heq : x = sequence
      · exact Or.inr heq
      · exact Or.inl (Or.inl (by omega))
    · exact Or.inl (Or.inr hx)
  · have hx := contains_iff.mp (contains_boundOutOfOrderSet h)
    rw [contains_iff]
    rcases hx with hx | hx
    · exact Or.inl (Or.inl hx)
    · rcases Finset.mem_insert.mp hx with hx | hx
      · exact Or.inr hx
      · exact Or.inl (Or.inr hx)

theorem contains_new {x : ℤ} (hx : 0 ≤ x) : new.contains x = false := by
  have hnot : ¬ (x ≤ -1 ∨ x ∈ (∅ : Finset ℤ)) := by
    simp only [Finset.notMem_empty, or_false]
    omega
  exact Bool.eq_false_iff.mpr fun h => hnot (contains_iff.mp h)

end SequenceWindow

namespace MemoryDedupStore

/-- The agent's window holds the sequence. -/
def Remembers (store : MemoryDedupStore) (agentId : String) (x : ℤ) : Prop :=
  ∃ w, store.windows.get? agentId = some w ∧ w.contains x = true

theorem Remembers.of_swept {now : ℤ} {store store' : MemoryDedupStore} {agentId : String} {x : ℤ}
    (h : store'.Remembers agentId x) (hs : Swept now store store') :
    store.Remembers agentId x := by
  obtain ⟨w, hw, hx⟩ := h
  rcases hs.each agentId with ⟨heq, -⟩ | ⟨hnone, -⟩
  · exact ⟨w, heq ▸ hw, hx⟩
  · rw [hnone] at hw
    cases hw

end MemoryDedupStore

/-! ### The calls of the store in memory -/

namespace Keeper

open MemoryDedupStore

/-- Making room drops whole agents. -/
theorem evictIfFull_each (store : MemoryDedupStore) (a : String) :
    (evictIfFull store).windows.get? a = store.windows.get? a ∧
      (evictIfFull store).expiresAt.get? a = store.expiresAt.get? a ∨
    (evictIfFull store).windows.get? a = none ∧ (evictIfFull store).expiresAt.get? a = none := by
  unfold evictIfFull
  split_ifs
  · exact Or.inl ⟨rfl, rfl⟩
  · split
    · exact Or.inl ⟨rfl, rfl⟩
    · rename_i evicted window rest heq
      by_cases ha : evicted = a
      · exact Or.inr ⟨by simp [Dict.get?_erase, ha], by simp [Dict.get?_erase, ha]⟩
      · exact Or.inl ⟨by simp [Dict.get?_erase, ha], by simp [Dict.get?_erase, ha]⟩

/-- The first half of `mark_seen`: the agent has a window that holds what it held and the sequence, and
every other agent has what it had or has been dropped. -/
theorem remember_each (agentId : String) (sequence : ℤ) (store : MemoryDedupStore) :
    (∃ w, (store.windows.get? agentId = some w ∨ w = .new) ∧
      (remember agentId sequence store).windows.get? agentId = some (w.add sequence)) ∧
    ∀ a, agentId ≠ a →
      (remember agentId sequence store).windows.get? a = store.windows.get? a ∧
        (remember agentId sequence store).expiresAt.get? a = store.expiresAt.get? a ∨
      (remember agentId sequence store).windows.get? a = none ∧
        (remember agentId sequence store).expiresAt.get? a = none := by
  unfold remember
  cases hw : store.windows.get? agentId with
  | none =>
    refine ⟨⟨.new, Or.inr rfl, Dict.get?_set_self _ _ _⟩, fun a ha => ?_⟩
    show ((evictIfFull store).windows.set agentId _).get? a = _ ∧ _ ∨
      ((evictIfFull store).windows.set agentId _).get? a = none ∧ _
    rw [Dict.get?_set_of_ne _ ha]
    exact evictIfFull_each store a
  | some w =>
    refine ⟨⟨w, Or.inl rfl, ?_⟩, fun a ha => Or.inl ⟨?_, rfl⟩⟩
    · exact (get?_moveToEnd _ _ _ _).trans (if_pos rfl)
    · exact (get?_moveToEnd _ _ _ _).trans (if_neg ha)

/-- What a call leaves of the store: it is still in order, and remembers nothing new but the
sequence. -/
structure Added (agentId : String) (sequence : ℤ) (store store' : MemoryDedupStore) : Prop where
  paired : store'.Paired
  remembers : ∀ a x, 0 ≤ x → store'.Remembers a x →
    a = agentId ∧ x = sequence ∨ store.Remembers a x

theorem markSeen_added (clock : ℕ → ℤ) {k : Keeper} (h : k.store.Paired) (agentId : String)
    (sequence ttlSeconds : ℤ) :
    ∃ k', markSeen clock agentId sequence ttlSeconds k = .ok ⟨⟩ k' ∧
      Added agentId sequence k.store k'.store := by
  obtain ⟨swept, hrun, hsw⟩ := sweep_ok clock h
  obtain ⟨⟨w, hold, hwindow⟩, heach⟩ := remember_each agentId sequence swept
  obtain ⟨-, hwindows, hothers, e, he, -⟩ := extend_expiry agentId
    (clock (k.readings + 1) + ttlSeconds) (remember agentId sequence swept)
  refine ⟨⟨k.readings + 2, _⟩, Program.bind_ok.mpr ⟨_, _, hrun, rfl⟩, fun a => ?_,
    fun a x hx hremembers => ?_⟩
  · -- The agent has a window and an expiry, and another both or neither.
    rw [hwindows]
    by_cases ha : agentId = a
    · subst ha
      simp [hwindow, he]
    · rw [hothers a ha]
      rcases heach a ha with ⟨hw, hexpiry⟩ | ⟨hw, hexpiry⟩
      · rw [hw, hexpiry]
        exact h.of_swept hsw a
      · simp [hw, hexpiry]
  · obtain ⟨w', hw', hcontains⟩ := hremembers
    rw [hwindows] at hw'
    by_cases ha : agentId = a
    · subst ha
      rw [hwindow] at hw'
      cases hw'
      rcases SequenceWindow.contains_add hcontains with hcontains | heq
      · rcases hold with hold | rfl
        · exact Or.inr (Remembers.of_swept ⟨w, hold, hcontains⟩ hsw)
        · rw [SequenceWindow.contains_new hx] at hcontains
          cases hcontains
      · exact Or.inl ⟨rfl, heq⟩
    · rcases heach a ha with ⟨hw, -⟩ | ⟨hw, -⟩
      · exact Or.inr (Remembers.of_swept ⟨w', hw ▸ hw', hcontains⟩ hsw)
      · rw [hw] at hw'
        cases hw'

/-- `claim` returns, and succeeds exactly if `has_seen` at its first reading says no. -/
theorem claim_added (clock : ℕ → ℤ) {k : Keeper} (h : k.store.Paired) (agentId : String)
    (sequence ttlSeconds : ℤ) :
    ∃ seen k₁ k', hasSeen clock agentId sequence k = .ok seen k₁ ∧
      claim clock agentId sequence ttlSeconds k = .ok (!seen) k' ∧
      Added agentId sequence k.store k'.store := by
  obtain ⟨seen, store₁, hrun, hsw, hseen⟩ := hasSeen_ok clock h agentId sequence
  cases seen with
  | true =>
    exact ⟨true, _, _, hrun, Program.bind_ok.mpr ⟨true, _, hrun, rfl⟩, h.of_swept hsw,
      fun a x _ hremembers => Or.inr (hremembers.of_swept hsw)⟩
  | false =>
    obtain ⟨k', hrun', hadded⟩ := markSeen_added clock (k := ⟨k.readings + 1, store₁⟩)
      (h.of_swept hsw) agentId sequence ttlSeconds
    refine ⟨false, _, k', hrun, Program.bind_ok.mpr ⟨false, _, hrun,
      Program.bind_ok.mpr ⟨⟨⟩, _, hrun', rfl⟩⟩, hadded.paired, fun a x hx hremembers => ?_⟩
    exact (hadded.remembers a x hx hremembers).imp id fun hold => hold.of_swept hsw

theorem claim_paired {clock : ℕ → ℤ} {k k' : Keeper} (h : k.store.Paired) {agentId : String}
    {sequence ttlSeconds : ℤ} {claimed : Bool}
    (hrun : claim clock agentId sequence ttlSeconds k = .ok claimed k') : k'.store.Paired := by
  obtain ⟨_, _, _, -, hclaim, hadded⟩ := claim_added clock h agentId sequence ttlSeconds
  rw [hrun] at hclaim
  cases hclaim
  exact hadded.paired

end Keeper

/-! ### The store in memory behind the interface -/

namespace MemoryDedupStore

/-- A store as its calls leave it. -/
abbrev Sound := { store : MemoryDedupStore // store.Paired }

/-- `has_seen`, read only for its answer. -/
def seen (store : Sound) (clock : ℕ → ℤ) (agentId : String) (sequence : ℤ) : Bool :=
  match Keeper.hasSeen clock agentId sequence ⟨0, store.val⟩ with
  | .ok seen _ => seen
  | .error _ _ => false

/-- `claim`. -/
def claim (store : Sound) (clock : ℕ → ℤ) (agentId : String) (sequence ttlSeconds : ℤ) :
    Bool × Sound :=
  match h : Keeper.claim clock agentId sequence ttlSeconds ⟨0, store.val⟩ with
  | .ok claimed k => (claimed, ⟨k.store, Keeper.claim_paired store.property h⟩)
  -- No claim raises.
  | .error _ _ => (false, store)

/-- What a claim answers, and what it leaves. -/
theorem claim_spec (store : Sound) (clock : ℕ → ℤ) (agentId : String) (sequence ttlSeconds : ℤ) :
    (claim store clock agentId sequence ttlSeconds).1 = !seen store clock agentId sequence ∧
      Keeper.Added agentId sequence store.val
        (claim store clock agentId sequence ttlSeconds).2.val := by
  obtain ⟨answer, k₁, k', hseen, hrun, hadded⟩ := Keeper.claim_added clock (k := ⟨0, store.val⟩)
    store.property agentId sequence ttlSeconds
  unfold claim seen
  rw [hseen]
  split
  · rename_i claimed k h
    rw [hrun] at h
    cases h
    exact ⟨rfl, hadded⟩
  · rename_i error k h
    rw [hrun] at h
    cases h

/-- What the store answers to have seen is in a window. -/
theorem remembers_of_seen {store : Sound} {clock : ℕ → ℤ} {agentId : String} {x : ℤ}
    (h : seen store clock agentId x = true) : store.val.Remembers agentId x := by
  obtain ⟨answer, store', hrun, hsw, hanswer⟩ := Keeper.hasSeen_ok clock (k := ⟨0, store.val⟩)
    store.property agentId x
  unfold seen at h
  rw [hrun] at h
  have h : answer = true := h
  rw [h] at hanswer
  obtain ⟨w, hw, hcontains⟩ := (Option.any_eq_true _ _).mp hanswer.symm
  exact Remembers.of_swept ⟨w, hw, hcontains⟩ hsw

/-- What is in a window is answered to have been seen, before the window runs out. -/
theorem exists_seen {store : Sound} {agentId : String} {x : ℤ}
    (h : store.val.Remembers agentId x) : ∃ clock, seen store clock agentId x = true := by
  obtain ⟨w, hw, hcontains⟩ := h
  cases he : store.val.expiresAt.get? agentId with
  | none =>
    rw [(store.property agentId).mpr he] at hw
    cases hw
  | some e =>
    refine ⟨fun _ => e - 1, ?_⟩
    obtain ⟨answer, store', hrun, hsw, hanswer⟩ := Keeper.hasSeen_ok (fun _ => e - 1)
      (k := ⟨0, store.val⟩) store.property agentId x
    have hkept : store'.windows.get? agentId = some w := by
      rcases hsw.each agentId with ⟨heq, -⟩ | ⟨-, -, e', he', hle⟩
      · exact heq.trans hw
      · have heq : e' = e := Option.some.inj (he'.symm.trans he)
        have hle : e' ≤ e - 1 := hle
        omega
    unfold seen
    rw [hrun]
    show answer = true
    rw [hanswer, hkept]
    exact hcontains

end MemoryDedupStore

/-- The store in memory. A call reads its clock up to three times. -/
def DedupStore.memory : DedupStore (ℕ → ℤ) where
  State := MemoryDedupStore.Sound
  hasSeen := MemoryDedupStore.seen
  claim := MemoryDedupStore.claim
  claim_answer := fun store clock agentId sequence ttlSeconds =>
    (MemoryDedupStore.claim_spec store clock agentId sequence ttlSeconds).1
  claim_seen := by
    intro store clock agentId sequence ttlSeconds u a x hx hseen
    have hadded := (MemoryDedupStore.claim_spec store clock agentId sequence ttlSeconds).2
    have hremembers := MemoryDedupStore.remembers_of_seen hseen
    exact (hadded.remembers a x hx hremembers).imp id MemoryDedupStore.exists_seen

end Hammertime.Store
