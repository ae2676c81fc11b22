import Hammertime.Store.Dedup

/-!
# How long the dedup store remembers

A sequence that was marked is reported as seen until its retention has passed: the expiry of an
agent only moves later, a stale heap item evicts nothing, and with at most `max_agents` agents no
window is evicted to make room. The one exception is the documented bound on the out-of-order set:
once 10,000 sequences above an unfilled gap are held, the smallest is dropped to make room.
-/

namespace Hammertime.Store

open Lib

/-! ### One window -/

namespace SequenceWindow

variable {w : SequenceWindow} {x sequence : ℤ}

theorem contains_iff : w.contains x = true ↔ x ≤ w.highWaterMark ∨ x ∈ w.ahead := by
  unfold contains
  split_ifs with h
  · simp [h]
  · simp [h]

/-- The set ahead of the gap is full, and `x` is below all of it but not below the mark. -/
structure Overflowed (w : SequenceWindow) (x : ℤ) : Prop where
  full : w.maxOutOfOrder ≤ w.ahead.card
  unmarked : w.highWaterMark < x
  below : ∀ y ∈ w.ahead, x < y

/-- Folding moves sequences from the set below the mark, and forgets none. -/
theorem foldContiguousRun_spec (w : SequenceWindow) :
    (∀ x, w.contains x = true → w.foldContiguousRun.contains x = true) ∧
      w.foldContiguousRun.ahead ⊆ w.ahead ∧
      w.foldContiguousRun.maxOutOfOrder = w.maxOutOfOrder := by
  fun_induction foldContiguousRun w with
  | case1 w h ih =>
    obtain ⟨hc, ha, hm⟩ := ih
    refine ⟨fun x hx => hc x ?_, ha.trans (Finset.erase_subset _ _), hm⟩
    rw [contains_iff] at hx ⊢
    by_cases hxm : x = w.highWaterMark + 1
    · exact Or.inl hxm.le
    · rcases hx with hx | hx
      · exact Or.inl (hx.trans (Int.le_of_lt (Int.lt_succ _)))
      · exact Or.inr (Finset.mem_erase.mpr ⟨hxm, hx⟩)
  | case2 w h => exact ⟨fun x hx => hx, Finset.Subset.refl _, rfl⟩

/-- Bounding the set forgets at most its smallest sequence, and that only when it is too full. -/
theorem boundOutOfOrderSet_spec (w : SequenceWindow) :
    (∀ x, w.contains x = true →
        w.boundOutOfOrderSet.contains x = true ∨ w.boundOutOfOrderSet.Overflowed x) ∧
      w.boundOutOfOrderSet.ahead ⊆ w.ahead ∧
      w.boundOutOfOrderSet.maxOutOfOrder = w.maxOutOfOrder := by
  unfold boundOutOfOrderSet
  split_ifs with h
  · have hne : w.ahead.Nonempty := Finset.card_pos.mp (Nat.zero_lt_of_lt h)
    refine ⟨fun x hx => ?_, Finset.erase_subset _ _, rfl⟩
    by_cases hmark : x ≤ w.highWaterMark
    · exact Or.inl (contains_iff.mpr (Or.inl hmark))
    · have hmem : x ∈ w.ahead := (contains_iff.mp hx).resolve_left hmark
      by_cases hmin : x = w.ahead.min' hne
      · refine Or.inr ⟨?_, not_le.mp hmark, ?_⟩
        · show w.maxOutOfOrder ≤ (w.ahead.erase (w.ahead.min' hne)).card
          rw [Finset.card_erase_of_mem (Finset.min'_mem _ hne)]
          exact Nat.le_sub_one_of_lt h
        · intro y hy
          obtain ⟨hne', hy⟩ := Finset.mem_erase.mp hy
          rw [hmin]
          exact lt_of_le_of_ne (Finset.min'_le _ y hy) (Ne.symm hne')
      · exact Or.inl (contains_iff.mpr (Or.inr (Finset.mem_erase.mpr ⟨hmin, hmem⟩)))
  · exact ⟨fun x hx => Or.inl hx, Finset.Subset.refl _, rfl⟩

/-- After `add` the sequence and everything held before it are held, except what the bound on the
out-of-order set dropped. -/
theorem add_spec (w : SequenceWindow) (sequence : ℤ) :
    (∀ x, w.contains x = true ∨ x = sequence →
        (w.add sequence).contains x = true ∨ (w.add sequence).Overflowed x) ∧
      (w.add sequence).ahead ⊆ insert sequence w.ahead ∧
      (w.add sequence).maxOutOfOrder = w.maxOutOfOrder := by
  unfold add
  split_ifs with hin hnext
  · refine ⟨fun x hx => Or.inl ?_, Finset.subset_insert _ _, rfl⟩
    rcases hx with hx | hx
    · exact hx
    · rw [hx]
      exact hin
  · obtain ⟨hc, ha, hm⟩ := foldContiguousRun_spec { w with highWaterMark := sequence }
    refine ⟨fun x hx => Or.inl (hc x ?_), ha.trans (Finset.subset_insert _ _), hm⟩
    rw [contains_iff]
    rcases hx with hx | hx
    · rcases contains_iff.mp hx with hx | hx
      · exact Or.inl (hx.trans (by show w.highWaterMark ≤ sequence; omega))
      · exact Or.inr hx
    · exact Or.inl hx.le
  · obtain ⟨hc, ha, hm⟩ := boundOutOfOrderSet_spec { w with ahead := insert sequence w.ahead }
    refine ⟨fun x hx => hc x ?_, ha, hm⟩
    rw [contains_iff]
    rcases hx with hx | hx
    · exact (contains_iff.mp hx).imp id fun h => Finset.mem_insert_of_mem h
    · exact Or.inr (Finset.mem_insert.mpr (Or.inl hx))

end SequenceWindow

/-! ### What a run of calls has marked -/

namespace Made

/-- The retention a call gave its pair: that of a `mark_seen`, or of a `claim` that succeeded. -/
def marks (made : Made) : Option ℤ :=
  match made.call, made.answer with
  | .markSeen _ _ ttlSeconds, _ => some ttlSeconds
  | .claim _ _ ttlSeconds, some true => some ttlSeconds
  | _, _ => none

/-- Whether a call reported its pair as seen: the answer of `has_seen`, or a refused `claim`. -/
def seen (made : Made) : Option Bool :=
  match made.call with
  | .hasSeen _ _ => made.answer
  | .markSeen _ _ _ => none
  | .claim _ _ _ => made.answer.map (!·)

end Made

/-- The sequences of an agent that the calls marked. -/
def marked (made : List Made) (agentId : String) : Finset ℤ :=
  ((made.filter fun m => m.call.agentId = agentId ∧ m.marks.isSome).map
    fun m => m.call.sequence).toFinset

theorem marked_mono {made more : List Made} (h : made ⊆ more) (agentId : String) :
    marked made agentId ⊆ marked more agentId := by
  intro x hx
  simp only [marked, List.mem_toFinset, List.mem_map, List.mem_filter] at hx ⊢
  obtain ⟨m, ⟨hm, hp⟩, rfl⟩ := hx
  exact ⟨m, ⟨h hm, hp⟩, rfl⟩

/-- A call that marks its pair adds it to what is marked. -/
theorem sequence_mem_marked (done : List Made) (made : Made) {ttl : ℤ}
    (hmarks : made.marks = some ttl) :
    made.call.sequence ∈ marked (done ++ [made]) made.call.agentId := by
  simp only [marked, List.mem_toFinset, List.mem_map, List.mem_filter]
  exact ⟨made, ⟨List.mem_append_right _ List.mem_cons_self, by simp [hmarks]⟩, rfl⟩

namespace MemoryDedupStore

/-- The agent's window dropped `x`: it is full of larger sequences. -/
def Overflowed (store : MemoryDedupStore) (agentId : String) (x : ℤ) : Prop :=
  ∃ w, store.windows.get? agentId = some w ∧ w.Overflowed x

/-- The store remembers the pair, and its agent's window will not expire before `until`. -/
def Retains (store : MemoryDedupStore) (agentId : String) (x deadline : ℤ) : Prop :=
  ∃ w e, store.windows.get? agentId = some w ∧ w.contains x = true ∧
    store.expiresAt.get? agentId = some e ∧ deadline ≤ e

/-- What every run keeps: a window has an expiry, there is room for all agents, and a window holds
only what was marked. -/
structure Kept (agents : Finset String) (held : String → Finset ℤ) (store : MemoryDedupStore) :
    Prop where
  room : (agents.card : ℤ) ≤ store.maxAgents
  paired : ∀ a, store.windows.get? a = none ↔ store.expiresAt.get? a = none
  known : ∀ a w, store.windows.get? a = some w → a ∈ agents ∧
    w.maxOutOfOrder = defaultMaxOutOfOrder ∧ w.ahead ⊆ held a

/-- A window has an expiry, and an expiry a window. -/
def Paired (store : MemoryDedupStore) : Prop :=
  ∀ a, store.windows.get? a = none ↔ store.expiresAt.get? a = none

/-- What a sweep at `now` does: an agent keeps its window and expiry, or its expiry had passed. -/
structure Swept (now : ℤ) (store store' : MemoryDedupStore) : Prop where
  maxAgents : store'.maxAgents = store.maxAgents
  each : ∀ a,
    store'.windows.get? a = store.windows.get? a ∧
      store'.expiresAt.get? a = store.expiresAt.get? a ∨
    store'.windows.get? a = none ∧ store'.expiresAt.get? a = none ∧
      ∃ e, store.expiresAt.get? a = some e ∧ e ≤ now

theorem Swept.trans {now : ℤ} {s t u : MemoryDedupStore} (h : Swept now s t) (h' : Swept now t u) :
    Swept now s u := by
  refine ⟨h'.maxAgents.trans h.maxAgents, fun a => ?_⟩
  rcases h.each a with ⟨hw, he⟩ | ⟨hw, he, hpast⟩
  · rcases h'.each a with ⟨hw', he'⟩ | ⟨hw', he', e, hsome, hle⟩
    · exact Or.inl ⟨hw'.trans hw, he'.trans he⟩
    · exact Or.inr ⟨hw', he', e, he ▸ hsome, hle⟩
  · rcases h'.each a with ⟨hw', he'⟩ | ⟨hw', he', -⟩
    · exact Or.inr ⟨hw'.trans hw, he'.trans he, hpast⟩
    · exact Or.inr ⟨hw', he', hpast⟩

variable {agents : Finset String} {held : String → Finset ℤ} {store store' : MemoryDedupStore}

theorem Paired.of_swept {now : ℤ} (h : store.Paired) (hs : Swept now store store') :
    store'.Paired := by
  intro a
  rcases hs.each a with ⟨hw, he⟩ | ⟨hw, he, -⟩
  · rw [hw, he]
    exact h a
  · simp [hw, he]

theorem Kept.of_swept {now : ℤ} (h : Kept agents held store) (hs : Swept now store store') :
    Kept agents held store' := by
  refine ⟨hs.maxAgents ▸ h.room, Paired.of_swept h.paired hs, fun a w hw => ?_⟩
  · rcases hs.each a with ⟨hw', -⟩ | ⟨hw', -⟩
    · exact h.known a w (hw' ▸ hw)
    · rw [hw'] at hw
      cases hw

theorem Kept.mono {held' : String → Finset ℤ} (h : Kept agents held store)
    (hsub : ∀ a, held a ⊆ held' a) : Kept agents held' store :=
  ⟨h.room, h.paired, fun a w hw =>
    ⟨(h.known a w hw).1, (h.known a w hw).2.1, (h.known a w hw).2.2.trans (hsub a)⟩⟩

/-- A sweep before the deadline leaves what the store remembers until then. -/
theorem Retains.of_swept {now x deadline : ℤ} {agentId : String}
    (h : store.Retains agentId x deadline) (hs : Swept now store store') (hnow : now < deadline) :
    store'.Retains agentId x deadline := by
  obtain ⟨w, e, hw, hx, he, hle⟩ := h
  rcases hs.each agentId with ⟨hw', he'⟩ | ⟨-, -, e', hsome, hpast⟩
  · exact ⟨w, e, hw'.trans hw, hx, he'.trans he, hle⟩
  · rw [he] at hsome
    cases hsome
    omega

/-- A window that overflowed holds 10,000 sequences that were marked. -/
theorem Kept.le_card_of_overflowed {agentId : String} {x : ℤ} (h : Kept agents held store)
    (ho : store.Overflowed agentId x) :
    defaultMaxOutOfOrder ≤ ((held agentId).filter (x < ·)).card := by
  obtain ⟨w, hw, hfull, -, hbelow⟩ := ho
  obtain ⟨-, hmax, hsub⟩ := h.known agentId w hw
  rw [← hmax]
  refine hfull.trans (Finset.card_le_card fun y hy => ?_)
  exact Finset.mem_filter.mpr ⟨hsub hy, hbelow y hy⟩

/-- An agent the store has no window of finds room for one. -/
theorem Kept.evictIfFull {agentId : String} (h : Kept agents held store)
    (hagent : agentId ∈ agents) (hnone : store.windows.get? agentId = none) :
    Keeper.evictIfFull store = store := by
  have hsub : store.windows.keys.toFinset ⊆ agents.erase agentId := by
    intro a ha
    obtain ⟨w, hw⟩ := Dict.mem_keys_iff.mp (List.mem_toFinset.mp ha)
    refine Finset.mem_erase.mpr ⟨?_, (h.known a w hw).1⟩
    rintro rfl
    rw [hnone] at hw
    cases hw
  have hsize : store.windows.size = store.windows.keys.toFinset.card := by
    rw [List.toFinset_card_of_nodup store.windows.keys_nodup]
    exact (List.length_map _).symm
  have hlt : store.windows.size < agents.card := by
    rw [hsize]
    exact (Finset.card_le_card hsub).trans_lt (Finset.card_erase_lt_of_mem hagent)
  have hroom := h.room
  unfold Keeper.evictIfFull
  rw [if_pos (by omega)]

end MemoryDedupStore

/-! ### What each call does -/

namespace Keeper

open MemoryDedupStore

variable {clock : ℕ → ℤ} {agents : Finset String} {held : String → Finset ℤ} {k : Keeper}

theorem sweepLoop_ok (now : ℤ) (heap : List Expiry) {store : MemoryDedupStore}
    (h : store.Paired) :
    ∃ store', sweepLoop now heap store = .ok ⟨⟩ store' ∧ Swept now store store' := by
  induction heap generalizing store with
  | nil => exact ⟨_, rfl, rfl, fun _ => Or.inl ⟨rfl, rfl⟩⟩
  | cons item rest ih =>
    obtain ⟨expiresAt, agentId⟩ := item
    unfold sweepLoop
    split_ifs with hdue hnow hin
    · -- The item is the agent's present expiry: the agent loses its window.
      have hsw : Swept now store
          { store with
            windows := store.windows.erase agentId
            expiresAt := store.expiresAt.erase agentId } := by
        refine ⟨rfl, fun a => ?_⟩
        by_cases ha : agentId = a
        · subst ha
          exact Or.inr ⟨by simp [Dict.get?_erase], by simp [Dict.get?_erase], expiresAt, hnow, hdue⟩
        · exact Or.inl ⟨by simp [Dict.get?_erase, ha], by simp [Dict.get?_erase, ha]⟩
      obtain ⟨store', hrun, hsw'⟩ := ih (h.of_swept hsw)
      exact ⟨store', hrun, hsw.trans hsw'⟩
    · -- An expiry without a window does not happen.
      have hnone : store.windows.get? agentId = none := by
        simpa [Dict.contains] using hin
      rw [h agentId, hnow] at hnone
      cases hnone
    · exact ih h
    · exact ⟨_, rfl, rfl, fun _ => Or.inl ⟨rfl, rfl⟩⟩

theorem sweep_ok (clock : ℕ → ℤ) (h : k.store.Paired) :
    ∃ store', sweep clock k = .ok ⟨⟩ ⟨k.readings + 1, store'⟩ ∧
      Swept (clock k.readings) k.store store' := by
  obtain ⟨store', hrun, hsw⟩ := sweepLoop_ok (clock k.readings) k.store.expiryHeap h
  refine ⟨store', ?_, hsw⟩
  unfold sweep
  rw [Program.bind_ok]
  exact ⟨_, _, rfl, Program.zoom_ok.mpr ⟨store', hrun, rfl⟩⟩

theorem get?_moveToEnd (windows : Dict String SequenceWindow) (agentId a : String)
    (window : SequenceWindow) :
    (moveToEnd windows agentId window).get? a =
      if agentId = a then some window else windows.get? a := by
  unfold moveToEnd
  rw [Dict.get?_set, Dict.get?_erase]
  split_ifs <;> rfl

/-- `has_seen` sweeps, and answers whether the agent's window holds the sequence. -/
theorem hasSeen_ok (clock : ℕ → ℤ) (h : k.store.Paired) (agentId : String) (sequence : ℤ) :
    ∃ seen store', hasSeen clock agentId sequence k = .ok seen ⟨k.readings + 1, store'⟩ ∧
      Swept (clock k.readings) k.store store' ∧
      seen = (store'.windows.get? agentId).any (·.contains sequence) := by
  obtain ⟨store₁, hrun, hsw⟩ := sweep_ok clock h
  cases hw : store₁.windows.get? agentId with
  | none =>
    refine ⟨false, store₁, ?_, hsw, by simp [hw]⟩
    unfold hasSeen
    rw [Program.bind_ok]
    refine ⟨_, _, hrun, ?_⟩
    rw [Program.bind_ok]
    refine ⟨_, _, rfl, ?_⟩
    rw [hw]
    rfl
  | some w =>
    -- Moving the window to the end changes no answer of the dictionary.
    have hmove : ∀ a, (moveToEnd store₁.windows agentId w).get? a = store₁.windows.get? a := by
      intro a
      rw [get?_moveToEnd]
      split_ifs with ha
      · rw [← ha, hw]
      · rfl
    refine ⟨w.contains sequence, { store₁ with windows := moveToEnd store₁.windows agentId w }, ?_,
      ⟨hsw.maxAgents, fun a => ?_⟩, ?_⟩
    · unfold hasSeen
      rw [Program.bind_ok]
      refine ⟨_, _, hrun, ?_⟩
      rw [Program.bind_ok]
      refine ⟨_, _, rfl, ?_⟩
      rw [hw]
      rfl
    · show (moveToEnd store₁.windows agentId w).get? a = _ ∧ _ ∨
        (moveToEnd store₁.windows agentId w).get? a = none ∧ _
      rw [hmove a]
      exact hsw.each a
    · show _ = ((moveToEnd store₁.windows agentId w).get? agentId).any _
      rw [hmove agentId, hw]
      rfl

/-- What `mark_seen` does after its sweep: the agent's window takes the sequence, and its expiry is
no earlier than before or than `expiresAt`. -/
structure Remembered (agentId : String) (sequence expiresAt : ℤ) (store store' : MemoryDedupStore) :
    Prop where
  maxAgents : store'.maxAgents = store.maxAgents
  windows : ∀ a, store'.windows.get? a =
    if agentId = a then
      some (((store.windows.get? agentId).getD SequenceWindow.new).add sequence)
    else store.windows.get? a
  others : ∀ a, agentId ≠ a → store'.expiresAt.get? a = store.expiresAt.get? a
  expiry : ∃ e, store'.expiresAt.get? agentId = some e ∧ expiresAt ≤ e ∧
    ∀ e₀, store.expiresAt.get? agentId = some e₀ → e₀ ≤ e

theorem remember_windows {agentId : String} {store : MemoryDedupStore}
    (h : Kept agents held store) (hagent : agentId ∈ agents) (sequence : ℤ) :
    (remember agentId sequence store).maxAgents = store.maxAgents ∧
      (remember agentId sequence store).expiresAt = store.expiresAt ∧
      ∀ a, (remember agentId sequence store).windows.get? a =
        if agentId = a then
          some (((store.windows.get? agentId).getD SequenceWindow.new).add sequence)
        else store.windows.get? a := by
  unfold remember
  cases hw : store.windows.get? agentId with
  | none =>
    rw [h.evictIfFull hagent hw]
    exact ⟨rfl, rfl, fun a => Dict.get?_set _ _ _ _⟩
  | some w => exact ⟨rfl, rfl, fun a => get?_moveToEnd _ _ _ _⟩

theorem extend_expiry (agentId : String) (expiresAt : ℤ) (store : MemoryDedupStore) :
    (extend agentId expiresAt store).maxAgents = store.maxAgents ∧
      (extend agentId expiresAt store).windows = store.windows ∧
      (∀ a, agentId ≠ a →
        (extend agentId expiresAt store).expiresAt.get? a = store.expiresAt.get? a) ∧
      ∃ e, (extend agentId expiresAt store).expiresAt.get? agentId = some e ∧ expiresAt ≤ e ∧
        ∀ e₀, store.expiresAt.get? agentId = some e₀ → e₀ ≤ e := by
  unfold extend
  split_ifs with hlater
  · refine ⟨rfl, rfl, fun a ha => Dict.get?_set_of_ne _ ha _, expiresAt, Dict.get?_set_self _ _ _,
      le_refl _, fun e₀ he => ?_⟩
    rw [he] at hlater
    exact (by simpa using hlater : e₀ < expiresAt).le
  · -- The present expiry is no earlier, and stays.
    cases he : store.expiresAt.get? agentId with
    | none => simp [he] at hlater
    | some e =>
      rw [he] at hlater
      refine ⟨rfl, rfl, fun _ _ => rfl, e, rfl, by simpa using hlater, fun e₀ h => ?_⟩
      cases h
      exact le_refl e

theorem markSeen_ok (clock : ℕ → ℤ) (h : Kept agents held k.store) {agentId : String}
    (hagent : agentId ∈ agents) (sequence ttlSeconds : ℤ) :
    ∃ swept store', markSeen clock agentId sequence ttlSeconds k =
        .ok ⟨⟩ ⟨k.readings + 2, store'⟩ ∧
      Swept (clock k.readings) k.store swept ∧
      Remembered agentId sequence (clock (k.readings + 1) + ttlSeconds) swept store' := by
  obtain ⟨swept, hrun, hsw⟩ := sweep_ok clock h.paired
  obtain ⟨hmax, hexp, hwin⟩ := remember_windows (h.of_swept hsw) hagent sequence
  obtain ⟨hmax', hwin', hothers, e, he, hle, hmono⟩ :=
    extend_expiry agentId (clock (k.readings + 1) + ttlSeconds) (remember agentId sequence swept)
  refine ⟨swept, _, ?_, hsw, ⟨hmax'.trans hmax, fun a => ?_, fun a ha => ?_, e, he, hle, ?_⟩⟩
  · unfold markSeen
    rw [Program.bind_ok]
    exact ⟨_, _, hrun, rfl⟩
  · rw [hwin']
    exact hwin a
  · rw [hothers a ha, hexp]
  · rw [hexp] at hmono
    exact hmono

/-- A mark keeps the invariant, with its sequence among those held. -/
theorem Remembered.kept {agentId : String} {sequence expiresAt : ℤ}
    {store store' : MemoryDedupStore} {held' : String → Finset ℤ}
    (hr : Remembered agentId sequence expiresAt store store') (h : Kept agents held store)
    (hagent : agentId ∈ agents) (hsub : ∀ a, held a ⊆ held' a) (hseq : sequence ∈ held' agentId) :
    Kept agents held' store' := by
  obtain ⟨e, he, -, -⟩ := hr.expiry
  refine ⟨hr.maxAgents ▸ h.room, fun a => ?_, fun a w hw => ?_⟩
  · by_cases ha : agentId = a
    · subst ha
      simp [hr.windows, he]
    · rw [hr.windows, if_neg ha, hr.others a ha]
      exact h.paired a
  · rw [hr.windows] at hw
    split_ifs at hw with ha
    · subst ha
      cases hw
      obtain ⟨-, hahead, hmax⟩ :=
        ((store.windows.get? agentId).getD SequenceWindow.new).add_spec sequence
      -- The window the sequence was added to held only marked sequences.
      have hold : ((store.windows.get? agentId).getD SequenceWindow.new).maxOutOfOrder =
          defaultMaxOutOfOrder ∧
          ((store.windows.get? agentId).getD SequenceWindow.new).ahead ⊆ held agentId := by
        cases hw : store.windows.get? agentId with
        | none => exact ⟨rfl, Finset.empty_subset _⟩
        | some w => exact (h.known agentId w hw).2
      refine ⟨hagent, hmax.trans hold.1, hahead.trans ?_⟩
      exact Finset.insert_subset hseq (hold.2.trans (hsub agentId))
    · obtain ⟨hin, hmax, hahead⟩ := h.known a w hw
      exact ⟨hin, hmax, hahead.trans (hsub a)⟩

/-- A mark retains its own sequence until the expiry it computed, or drops it at once. -/
theorem Remembered.retains_self {agentId : String} {sequence expiresAt : ℤ}
    {store store' : MemoryDedupStore}
    (hr : Remembered agentId sequence expiresAt store store') :
    store'.Retains agentId sequence expiresAt ∨ store'.Overflowed agentId sequence := by
  obtain ⟨e, he, hle, -⟩ := hr.expiry
  have hw := hr.windows agentId
  rw [if_pos rfl] at hw
  rcases (SequenceWindow.add_spec _ sequence).1 sequence (Or.inr rfl) with hc | ho
  · exact Or.inl ⟨_, e, hw, hc, he, hle⟩
  · exact Or.inr ⟨_, hw, ho⟩

/-- A mark keeps what the store remembers, but for a sequence that its window drops. -/
theorem Remembered.retains {agentId a : String} {sequence expiresAt x deadline : ℤ}
    {store store' : MemoryDedupStore}
    (hr : Remembered agentId sequence expiresAt store store') (h : store.Retains a x deadline) :
    store'.Retains a x deadline ∨ store'.Overflowed a x := by
  obtain ⟨w, e, hw, hx, he, hle⟩ := h
  by_cases ha : agentId = a
  · subst ha
    have hw' := hr.windows agentId
    rw [if_pos rfl, hw] at hw'
    obtain ⟨e', he', -, hmono⟩ := hr.expiry
    rcases (w.add_spec sequence).1 x (Or.inl hx) with hc | ho
    · exact Or.inl ⟨_, e', hw', hc, he', hle.trans (hmono e he)⟩
    · exact Or.inr ⟨_, hw', ho⟩
  · refine Or.inl ⟨w, e, ?_, hx, ?_, hle⟩
    · rw [hr.windows, if_neg ha]
      exact hw
    · rw [hr.others a ha]
      exact he

end Keeper

/-! ### One call of a run -/

open MemoryDedupStore Keeper

variable {clock : ℕ → ℤ} {agents : Finset String}

/-- The record of a call made from `k` that left `k'`. -/
def Call.made (clock : ℕ → ℤ) (call : Call) (answer : Option Bool) (k k' : Keeper) : Made :=
  ⟨call, answer, clock k.readings, clock (k'.readings - 1), k'.store⟩

/-- What one call does to a store that has made the calls `done`. -/
structure Performed (clock : ℕ → ℤ) (agents : Finset String) (done : List Made) (k k' : Keeper)
    (made : Made) : Prop where
  began : made.began = clock k.readings
  store : made.store = k'.store
  readings : k.readings < k'.readings
  kept : k'.store.Kept agents (marked (done ++ [made]))
  /-- A pair that is marked is remembered until its retention ends. -/
  marks : ∀ ttlSeconds, made.marks = some ttlSeconds →
    k'.store.Retains made.call.agentId made.call.sequence (made.ended + ttlSeconds) ∨
      k'.store.Overflowed made.call.agentId made.call.sequence
  /-- Before its deadline a remembered pair stays so. -/
  retains : ∀ a x deadline, k.store.Retains a x deadline → clock (k'.readings - 1) < deadline →
    k'.store.Retains a x deadline ∨ k'.store.Overflowed a x
  /-- Before its deadline a remembered pair is reported as seen. -/
  seen : ∀ deadline seen,
    k.store.Retains made.call.agentId made.call.sequence deadline →
    made.began < deadline → made.seen = some seen → seen = true

theorem Retains.any_contains {store : MemoryDedupStore} {agentId : String} {x deadline : ℤ}
    (h : store.Retains agentId x deadline) :
    (store.windows.get? agentId).any (·.contains x) = true := by
  obtain ⟨w, e, hw, hx, -⟩ := h
  simp [hw, hx]

variable {done : List Made} {k : Keeper}

theorem marked_append_subset (done : List Made) (made : Made) (a : String) :
    marked done a ⊆ marked (done ++ [made]) a :=
  marked_mono (List.subset_append_left _ _) a

theorem hasSeen_performed (h : k.store.Kept agents (marked done)) (agentId : String)
    (sequence : ℤ) :
    ∃ answer k', (Call.hasSeen agentId sequence).perform clock k = .ok answer k' ∧
      Performed clock agents done k k' ((Call.hasSeen agentId sequence).made clock answer k k') := by
  obtain ⟨seen, store', hrun, hsw, hseen⟩ := hasSeen_ok clock h.paired agentId sequence
  refine ⟨some seen, ⟨k.readings + 1, store'⟩, ?_, ?_⟩
  · show (some <$> Keeper.hasSeen clock agentId sequence) k = _
    rw [Program.map_apply, hrun]
  refine ⟨rfl, rfl, Nat.lt_succ_self _, ?_, ?_, ?_, ?_⟩
  · exact (h.of_swept hsw).mono (marked_append_subset done _)
  · intro ttlSeconds hm
    cases hm
  · intro a x deadline hr hlt
    exact Or.inl (hr.of_swept hsw hlt)
  · intro deadline answer hr hlt ha
    cases ha
    rw [hseen]
    exact Retains.any_contains (hr.of_swept hsw hlt)

theorem markSeen_performed (hclock : Monotone clock) (h : k.store.Kept agents (marked done))
    {agentId : String} (hagent : agentId ∈ agents) (sequence ttlSeconds : ℤ) :
    ∃ answer k', (Call.markSeen agentId sequence ttlSeconds).perform clock k = .ok answer k' ∧
      Performed clock agents done k k'
        ((Call.markSeen agentId sequence ttlSeconds).made clock answer k k') := by
  obtain ⟨swept, store', hrun, hsw, hrem⟩ := markSeen_ok clock h hagent sequence ttlSeconds
  refine ⟨none, ⟨k.readings + 2, store'⟩, ?_, ?_⟩
  · show ((fun _ => none) <$> Keeper.markSeen clock agentId sequence ttlSeconds) k = _
    rw [Program.map_apply, hrun]
  refine ⟨rfl, rfl, Nat.lt_add_of_pos_right (by decide), ?_, ?_, ?_, ?_⟩
  · exact hrem.kept (h.of_swept hsw) hagent (marked_append_subset done _)
      (sequence_mem_marked done (Call.made _ _ _ _ _) rfl)
  · intro ttl hm
    cases hm
    exact hrem.retains_self
  · intro a x deadline hr hlt
    have hnow : clock k.readings < deadline := lt_of_le_of_lt (hclock (Nat.le_succ _)) hlt
    exact hrem.retains (hr.of_swept hsw hnow)
  · intro deadline answer hr hlt ha
    cases ha

theorem claim_performed (hclock : Monotone clock) (h : k.store.Kept agents (marked done))
    {agentId : String} (hagent : agentId ∈ agents) (sequence ttlSeconds : ℤ) :
    ∃ answer k', (Call.claim agentId sequence ttlSeconds).perform clock k = .ok answer k' ∧
      Performed clock agents done k k'
        ((Call.claim agentId sequence ttlSeconds).made clock answer k k') := by
  obtain ⟨seen, store₁, hrun, hsw, hseen⟩ := hasSeen_ok clock h.paired agentId sequence
  cases seen with
  | true =>
    -- The pair is a duplicate: the claim is refused after the one sweep.
    refine ⟨some false, ⟨k.readings + 1, store₁⟩, ?_, ?_⟩
    · show (some <$> Keeper.claim clock agentId sequence ttlSeconds) k = _
      have hclaim : Keeper.claim clock agentId sequence ttlSeconds k =
          .ok false ⟨k.readings + 1, store₁⟩ := Program.bind_ok.mpr ⟨true, _, hrun, rfl⟩
      rw [Program.map_apply, hclaim]
    refine ⟨rfl, rfl, Nat.lt_succ_self _, ?_, ?_, ?_, ?_⟩
    · exact (h.of_swept hsw).mono (marked_append_subset done _)
    · intro ttl hm
      cases hm
    · intro a x deadline hr hlt
      exact Or.inl (hr.of_swept hsw hlt)
    · intro deadline answer hr hlt ha
      cases ha
      rfl
  | false =>
    obtain ⟨swept, store', hrun', hsw', hrem⟩ :=
      markSeen_ok clock (k := ⟨k.readings + 1, store₁⟩) (h.of_swept hsw) hagent sequence
        ttlSeconds
    refine ⟨some true, ⟨k.readings + 3, store'⟩, ?_, ?_⟩
    · show (some <$> Keeper.claim clock agentId sequence ttlSeconds) k = _
      have hclaim : Keeper.claim clock agentId sequence ttlSeconds k =
          .ok true ⟨k.readings + 3, store'⟩ :=
        Program.bind_ok.mpr ⟨false, _, hrun, Program.bind_ok.mpr ⟨⟨⟩, _, hrun', rfl⟩⟩
      rw [Program.map_apply, hclaim]
    refine ⟨rfl, rfl, Nat.lt_add_of_pos_right (by decide), ?_, ?_, ?_, ?_⟩
    · exact hrem.kept ((h.of_swept hsw).of_swept hsw') hagent (marked_append_subset done _)
        (sequence_mem_marked done (Call.made _ _ _ _ _) rfl)
    · intro ttl hm
      cases hm
      exact hrem.retains_self
    · intro a x deadline hr hlt
      have h₂ : clock (k.readings + 1) < deadline :=
        lt_of_le_of_lt (hclock (Nat.le_succ _)) hlt
      have h₁ : clock k.readings < deadline := lt_of_le_of_lt (hclock (Nat.le_succ _)) h₂
      exact hrem.retains ((hr.of_swept hsw h₁).of_swept hsw' h₂)
    · intro deadline answer hr hlt ha
      have hany := Retains.any_contains (hr.of_swept hsw hlt)
      exact absurd (hseen.trans hany) Bool.false_ne_true

/-- Every call returns, and does what `Performed` says. -/
theorem performed (hclock : Monotone clock) (h : k.store.Kept agents (marked done)) (call : Call)
    (hagent : call.agentId ∈ agents) :
    ∃ answer k', call.perform clock k = .ok answer k' ∧
      Performed clock agents done k k' (call.made clock answer k k') := by
  cases call with
  | hasSeen agentId sequence => exact hasSeen_performed h agentId sequence
  | markSeen agentId sequence ttlSeconds =>
    exact markSeen_performed hclock h hagent sequence ttlSeconds
  | claim agentId sequence ttlSeconds => exact claim_performed hclock h hagent sequence ttlSeconds

/-! ### Runs -/

/-- The calls of a run as a chain: each record is what one call left to the next. -/
inductive Chain (clock : ℕ → ℤ) (agents : Finset String) : List Made → Keeper → List Made → Prop
  | nil (done : List Made) (k : Keeper) : Chain clock agents done k []
  | cons {done : List Made} {k k' : Keeper} {made : Made} {rest : List Made}
      (first : Performed clock agents done k k' made)
      (later : Chain clock agents (done ++ [made]) k' rest) :
      Chain clock agents done k (made :: rest)

/-- Every run of calls by these agents returns, and is such a chain. -/
theorem perform_chain (hclock : Monotone clock) (calls : List Call)
    (hagents : ∀ call ∈ calls, call.agentId ∈ agents)
    (h : k.store.Kept agents (marked done)) :
    ∃ made k', perform clock calls k = .ok made k' ∧ made.map Made.call = calls ∧
      Chain clock agents done k made := by
  induction calls generalizing done k with
  | nil => exact ⟨[], k, rfl, rfl, .nil done k⟩
  | cons call rest ih =>
    obtain ⟨answer, k', hrun, hp⟩ :=
      performed hclock h call (hagents call List.mem_cons_self)
    obtain ⟨made, k'', hrun', hcalls, hchain⟩ :=
      ih (fun c hc => hagents c (List.mem_cons_of_mem call hc)) hp.kept
    refine ⟨call.made clock answer k k' :: made, k'', ?_, by rw [List.map_cons, hcalls]; rfl,
      .cons hp hchain⟩
    refine Program.bind_ok.mpr ⟨k, k, rfl, Program.bind_ok.mpr ⟨answer, k', hrun, ?_⟩⟩
    exact Program.bind_ok.mpr ⟨k', k', rfl, Program.bind_ok.mpr ⟨made, k'', hrun', rfl⟩⟩

/-- A later call begins no earlier than the clock would read now. -/
theorem Chain.le_began (hclock : Monotone clock) {made : List Made}
    (h : Chain clock agents done k made) : ∀ m ∈ made, clock k.readings ≤ m.began := by
  induction h with
  | nil => exact fun m hm => absurd hm List.not_mem_nil
  | cons first later ih =>
    intro m hm
    rcases List.mem_cons.mp hm with rfl | hm
    · exact first.began.ge
    · exact (hclock first.readings.le).trans (ih m hm)

/-- The part of a run that follows its first calls. -/
theorem Chain.drop {made more : List Made} (h : Chain clock agents done k (made ++ more)) :
    ∃ k', Chain clock agents (done ++ made) k' more := by
  induction made generalizing done k with
  | nil => exact ⟨k, by rwa [List.append_nil]⟩
  | cons m made ih =>
    cases h with
    | cons first later =>
      obtain ⟨k', hk'⟩ := ih later
      exact ⟨k', by rwa [List.append_cons]⟩

/-- Some call of a list left a window that dropped the sequence, and by then 10,000 larger
sequences of the agent had been marked. -/
def Dropped (made : List Made) (earlier : List Made) (agentId : String) (x : ℤ) : Prop :=
  ∃ m ∈ made, m.store.Overflowed agentId x ∧
    defaultMaxOutOfOrder ≤ ((marked earlier agentId).filter (x < ·)).card

theorem Dropped.mono {made made' earlier earlier' : List Made} {agentId : String} {x : ℤ}
    (h : Dropped made earlier agentId x) (hm : made ⊆ made') (he : earlier ⊆ earlier') :
    Dropped made' earlier' agentId x := by
  obtain ⟨m, hmem, ho, hcard⟩ := h
  refine ⟨m, hm hmem, ho, hcard.trans (Finset.card_le_card ?_)⟩
  exact Finset.filter_subset_filter _ (marked_mono he agentId)

theorem Performed.dropped {k' : Keeper} {made : Made} {agentId : String} {x : ℤ}
    (h : Performed clock agents done k k' made) (ho : k'.store.Overflowed agentId x)
    (more : List Made) : Dropped (made :: more) (done ++ made :: more) agentId x := by
  have hone : Dropped [made] (done ++ [made]) agentId x :=
    ⟨made, List.mem_cons_self, h.store ▸ ho, h.kept.le_card_of_overflowed ho⟩
  rw [List.append_cons]
  exact hone.mono (List.cons_subset_cons made (List.nil_subset _)) (List.subset_append_left _ _)

/-- From a store that remembers a pair, a call that begins before the deadline reports it as seen,
unless a call in between dropped it. -/
theorem Chain.seen_of_retains (hclock : Monotone clock) {between rest : List Made} {b : Made}
    {deadline : ℤ} {seen : Bool} (h : Chain clock agents done k (between ++ b :: rest))
    (hr : k.store.Retains b.call.agentId b.call.sequence deadline) (hlt : b.began < deadline)
    (hseen : b.seen = some seen) :
    seen = true ∨ Dropped between (done ++ between) b.call.agentId b.call.sequence := by
  induction between generalizing done k with
  | nil =>
    cases h with
    | cons first later => exact Or.inl (first.seen deadline seen hr hlt hseen)
  | cons m between ih =>
    cases h with
    | @cons _ _ k' _ _ first later =>
      -- Every reading of the call `m` is before that of `b`, hence before the deadline.
      have hb : clock k'.readings ≤ b.began :=
        later.le_began hclock b (List.mem_append_right _ List.mem_cons_self)
      have hlast : clock (k'.readings - 1) < deadline :=
        ((hclock (Nat.sub_le _ 1)).trans hb).trans_lt hlt
      rcases first.retains _ _ deadline hr hlast with hr' | ho
      · refine (ih later hr').imp id fun hd => ?_
        rw [List.append_cons]
        exact hd.mono (List.subset_cons_self _ _) (List.Subset.refl _)
      · exact Or.inr (first.dropped ho between)

/-- The retention contract. In every run of calls by at most `max_agents` agents under a clock that
does not go back, every call returns; and after a `mark_seen` or a successful `claim` of a pair, each
`has_seen` and `claim` of it that begins within the retention reports it as seen, unless the
agent's out-of-order set dropped it for being the smallest of more than 10,000. -/
theorem dedup_retention (hclock : Monotone clock) {maxAgents : ℤ} {store : MemoryDedupStore}
    (hmake : MemoryDedupStore.make maxAgents = .ok store) (calls : List Call)
    (hagents : ((calls.map Call.agentId).toFinset.card : ℤ) ≤ maxAgents) :
    ∃ made k, perform clock calls ⟨0, store⟩ = .ok made k ∧ made.map Made.call = calls ∧
      ∀ before a between b rest, made = before ++ a :: (between ++ b :: rest) →
      b.call.agentId = a.call.agentId → b.call.sequence = a.call.sequence →
      ∀ ttlSeconds seen, a.marks = some ttlSeconds → b.began < a.ended + ttlSeconds →
      b.seen = some seen → seen = true ∨
        Dropped (a :: between) (before ++ a :: between) a.call.agentId a.call.sequence := by
  have hempty : store.Kept (calls.map Call.agentId).toFinset (marked []) := by
    unfold MemoryDedupStore.make at hmake
    split_ifs at hmake
    cases hmake
    exact ⟨hagents, fun _ => ⟨fun _ => rfl, fun _ => rfl⟩, fun _ _ h => by cases h⟩
  obtain ⟨made, k, hrun, hcalls, hchain⟩ :=
    perform_chain (k := ⟨0, store⟩) hclock calls
      (fun call hc => List.mem_toFinset.mpr (List.mem_map_of_mem hc)) hempty
  refine ⟨made, k, hrun, hcalls, ?_⟩
  rintro before a between b rest rfl hagent hsequence ttlSeconds seen hmarks hlt hseen
  obtain ⟨k₁, hchain₁⟩ := hchain.drop
  rw [List.nil_append] at hchain₁
  cases hchain₁ with
  | cons first later =>
    rcases first.marks ttlSeconds hmarks with hr | ho
    · rw [← hagent, ← hsequence] at hr
      refine (later.seen_of_retains hclock hr hlt hseen).imp id fun hd => ?_
      rw [← hagent, ← hsequence, List.append_cons]
      exact hd.mono (List.subset_cons_self _ _) (List.Subset.refl _)
    · exact Or.inr (first.dropped ho between)

/-! ### A sequence that is dropped

One agent claims 1, 2, 3, … and never sends 0, all at time 0. The claim of 10,001 drops 1. -/

/-- What the store holds after the claims up to `n`. -/
structure Gap (n : ℕ) (store : MemoryDedupStore) : Prop where
  kept : ∃ held, store.Kept {"agent"} held
  window : (store.windows.get? "agent").getD .new =
    ⟨-1, defaultMaxOutOfOrder, Finset.Icc 1 (n : ℤ)⟩
  unexpired : ∀ e, store.expiresAt.get? "agent" = some e → 0 < e

/-- A claim of a sequence the window does not hold succeeds and adds it. -/
theorem claim_fresh {k : Keeper} {held : String → Finset ℤ} {w : SequenceWindow} {sequence : ℤ}
    (hk : k.store.Kept {"agent"} held)
    (hw : (k.store.windows.get? "agent").getD .new = w)
    (he : ∀ e, k.store.expiresAt.get? "agent" = some e → 0 < e)
    (hnew : w.contains sequence = false) :
    ∃ k', Keeper.claim (fun _ => 0) "agent" sequence 300 k = .ok true k' ∧
      (∃ held, k'.store.Kept {"agent"} held) ∧
      (k'.store.windows.get? "agent").getD .new = w.add sequence ∧
      ∀ e, k'.store.expiresAt.get? "agent" = some e → 0 < e := by
  -- At time 0 no sweep evicts the agent.
  have hstay : ∀ {s s' : MemoryDedupStore}, Swept 0 s s' →
      (∀ e, s.expiresAt.get? "agent" = some e → 0 < e) →
      s'.windows.get? "agent" = s.windows.get? "agent" ∧
        s'.expiresAt.get? "agent" = s.expiresAt.get? "agent" := by
    intro s s' hs hpos
    rcases hs.each "agent" with h | ⟨-, -, e, hsome, hle⟩
    · exact h
    · exact absurd (hpos e hsome) (not_lt.mpr hle)
  obtain ⟨seen, store₁, hrun, hsw, hseen⟩ := hasSeen_ok (fun _ => 0) hk.paired "agent" sequence
  obtain ⟨hw₁, he₁⟩ := hstay hsw he
  obtain ⟨swept, store', hrun', hsw', hrem⟩ :=
    markSeen_ok (fun _ => 0) (k := ⟨k.readings + 1, store₁⟩) (hk.of_swept hsw)
      (Finset.mem_singleton_self "agent") sequence 300
  obtain ⟨hw₂, he₂⟩ := hstay hsw' (by rw [he₁]; exact he)
  have hunseen : seen = false := by
    rw [hseen, hw₁]
    cases hget : k.store.windows.get? "agent" with
    | none => rfl
    | some w' =>
      rw [hget] at hw
      cases hw
      exact hnew
  subst hunseen
  refine ⟨_, Program.bind_ok.mpr ⟨false, _, hrun, Program.bind_ok.mpr ⟨⟨⟩, _, hrun', rfl⟩⟩,
    ⟨fun a => insert sequence (held a), ?_⟩, ?_, ?_⟩
  · exact hrem.kept ((hk.of_swept hsw).of_swept hsw') (Finset.mem_singleton_self _)
      (fun a => Finset.subset_insert _ _) (Finset.mem_insert_self _ _)
  · show (store'.windows.get? "agent").getD .new = w.add sequence
    rw [hrem.windows, if_pos rfl, hw₂, hw₁, hw]
    rfl
  · intro e hsome
    obtain ⟨e', he', hle, -⟩ := hrem.expiry
    rw [he'] at hsome
    cases hsome
    exact lt_of_lt_of_le (by decide) hle

theorem not_contains_gap (n : ℕ) (bound : ℕ) {x : ℤ} (hx : 0 ≤ x) (hn : (n : ℤ) < x ∨ x = 0) :
    (⟨-1, bound, Finset.Icc 1 (n : ℤ)⟩ : SequenceWindow).contains x = false := by
  rw [Bool.eq_false_iff, ne_eq, SequenceWindow.contains_iff]
  rintro (h | h)
  · exact absurd (h.trans_lt (by decide : (-1 : ℤ) < 0)) (not_lt.mpr hx)
  · rw [Finset.mem_Icc] at h
    omega

/-- Adding the next sequence after the gap, while there is room. -/
theorem add_gap {n : ℕ} (hn : n + 1 ≤ defaultMaxOutOfOrder) :
    (⟨-1, defaultMaxOutOfOrder, Finset.Icc 1 (n : ℤ)⟩ : SequenceWindow).add ((n : ℤ) + 1) =
      ⟨-1, defaultMaxOutOfOrder, Finset.Icc 1 ((n + 1 : ℕ) : ℤ)⟩ := by
  have hne : (n : ℤ) + 1 ≠ -1 + 1 := by omega
  have hins : insert ((n : ℤ) + 1) (Finset.Icc 1 (n : ℤ)) = Finset.Icc 1 ((n + 1 : ℕ) : ℤ) := by
    ext x
    simp only [Finset.mem_insert, Finset.mem_Icc]
    omega
  unfold SequenceWindow.add
  rw [not_contains_gap n _ (by omega) (Or.inl (by omega)), if_neg Bool.false_ne_true, if_neg hne,
    hins, SequenceWindow.boundOutOfOrderSet, dif_neg]
  show ¬ (Finset.Icc 1 ((n + 1 : ℕ) : ℤ)).card > defaultMaxOutOfOrder
  rw [Int.card_Icc]
  omega

/-- Adding one more to a full set forgets 1. -/
theorem add_full_gap :
    ((⟨-1, defaultMaxOutOfOrder, Finset.Icc 1 (defaultMaxOutOfOrder : ℤ)⟩ : SequenceWindow).add
      ((defaultMaxOutOfOrder : ℤ) + 1)).contains 1 = false := by
  have hne : (defaultMaxOutOfOrder : ℤ) + 1 ≠ -1 + 1 := by decide
  have hins : insert ((defaultMaxOutOfOrder : ℤ) + 1) (Finset.Icc 1 (defaultMaxOutOfOrder : ℤ)) =
      Finset.Icc 1 ((defaultMaxOutOfOrder : ℤ) + 1) := by
    ext x
    simp only [Finset.mem_insert, Finset.mem_Icc]
    omega
  have hcard : (Finset.Icc 1 ((defaultMaxOutOfOrder : ℤ) + 1)).card > defaultMaxOutOfOrder := by
    rw [Int.card_Icc]
    omega
  have hmem : (1 : ℤ) ∈ Finset.Icc 1 ((defaultMaxOutOfOrder : ℤ) + 1) :=
    Finset.mem_Icc.mpr ⟨le_refl _, by decide⟩
  have hmin : (Finset.Icc 1 ((defaultMaxOutOfOrder : ℤ) + 1)).min' ⟨1, hmem⟩ = 1 :=
    le_antisymm (Finset.min'_le _ 1 hmem)
      (Finset.le_min' _ _ _ fun x hx => (Finset.mem_Icc.mp hx).1)
  unfold SequenceWindow.add
  rw [not_contains_gap _ _ (by decide) (Or.inl (by omega)), if_neg Bool.false_ne_true, if_neg hne,
    hins, SequenceWindow.boundOutOfOrderSet, dif_pos hcard, Bool.eq_false_iff, ne_eq,
    SequenceWindow.contains_iff]
  rintro (h | h)
  · exact absurd (show (1 : ℤ) ≤ -1 from h) (by decide)
  · exact (Finset.mem_erase.mp h).1 hmin.symm

/-- The claims of the `m` sequences after `n`. -/
def claims (n : ℕ) : ℕ → List Call
  | 0 => []
  | m + 1 => .claim "agent" ((n : ℤ) + 1) 300 :: claims (n + 1) m

theorem Gap.claim {n : ℕ} {k : Keeper} (h : Gap n k.store) (hn : n + 1 ≤ defaultMaxOutOfOrder) :
    ∃ k', Keeper.claim (fun _ => 0) "agent" ((n : ℤ) + 1) 300 k = .ok true k' ∧
      Gap (n + 1) k'.store := by
  obtain ⟨held, hk⟩ := h.kept
  obtain ⟨k', hrun, hkept, hwin, hexp⟩ :=
    claim_fresh hk h.window h.unexpired
      (not_contains_gap n _ (by omega : (0 : ℤ) ≤ n + 1) (Or.inl (by omega)))
  exact ⟨k', hrun, hkept, hwin.trans (add_gap hn), hexp⟩

theorem perform_cons_claim {k k' k'' : Keeper} {sequence : ℤ} {rest : List Call}
    {made : List Made} (h : Keeper.claim (fun _ => 0) "agent" sequence 300 k = .ok true k')
    (hrest : perform (fun _ => 0) rest k' = .ok made k'') :
    perform (fun _ => 0) (.claim "agent" sequence 300 :: rest) k =
      .ok (⟨.claim "agent" sequence 300, some true, 0, 0, k'.store⟩ :: made) k'' := by
  have hcall : (Call.claim "agent" sequence 300).perform (fun _ => 0) k = .ok (some true) k' := by
    show (some <$> Keeper.claim (fun _ => 0) "agent" sequence 300) k = _
    rw [Program.map_apply, h]
  refine Program.bind_ok.mpr ⟨k, k, rfl, Program.bind_ok.mpr ⟨some true, k', hcall, ?_⟩⟩
  exact Program.bind_ok.mpr ⟨k', k', rfl, Program.bind_ok.mpr ⟨made, k'', hrest, rfl⟩⟩

/-- The claims up to 10,000 succeed, and whatever is called after them runs from a window that holds
all of them. -/
theorem perform_claims (m : ℕ) {n : ℕ} {k : Keeper} (h : Gap n k.store)
    (hn : n + m ≤ defaultMaxOutOfOrder) :
    ∃ made k', Gap (n + m) k'.store ∧ ∀ rest more k'', perform (fun _ => 0) rest k' = .ok more k'' →
      perform (fun _ => 0) (claims n m ++ rest) k = .ok (made ++ more) k'' := by
  induction m generalizing n k with
  | zero => exact ⟨[], k, h, fun rest more k'' hrest => hrest⟩
  | succ m ih =>
    obtain ⟨k₁, hrun, hgap⟩ := h.claim (by omega)
    obtain ⟨made, k', hgap', hlater⟩ := ih hgap (by omega)
    refine ⟨⟨.claim "agent" ((n : ℤ) + 1) 300, some true, 0, 0, k₁.store⟩ :: made, k', ?_, ?_⟩
    · rwa [show n + (m + 1) = n + 1 + m by omega]
    · intro rest more k'' hrest
      exact perform_cons_claim hrun (hlater rest more k'' hrest)

/-- What a claim answers. -/
theorem perform_claim_ok {agentId : String} {sequence ttlSeconds : ℤ} {k k' : Keeper}
    {answer : Option Bool}
    (h : (Call.claim agentId sequence ttlSeconds).perform clock k = .ok answer k') :
    ∃ taken, answer = some taken ∧
      Keeper.claim clock agentId sequence ttlSeconds k = .ok taken k' := by
  have hmap : (some <$> Keeper.claim clock agentId sequence ttlSeconds) k = .ok answer k' := h
  rw [Program.map_apply] at hmap
  cases hclaim : Keeper.claim clock agentId sequence ttlSeconds k with
  | ok taken t =>
    rw [hclaim] at hmap
    cases hmap
    exact ⟨taken, rfl, rfl⟩
  | error e t =>
    rw [hclaim] at hmap
    cases hmap

/-- The first call of a list, and the rest. -/
theorem perform_cons_ok {call : Call} {rest : List Call} {k k'' : Keeper} {made : List Made}
    (h : perform clock (call :: rest) k = .ok made k'') :
    ∃ answer k' later, call.perform clock k = .ok answer k' ∧
      perform clock rest k' = .ok later k'' ∧ made = call.made clock answer k k' :: later := by
  obtain ⟨_, _, hget, h⟩ := Program.bind_ok.mp h
  cases hget
  obtain ⟨answer, k', hcall, h⟩ := Program.bind_ok.mp h
  obtain ⟨_, _, hget, h⟩ := Program.bind_ok.mp h
  cases hget
  obtain ⟨later, _, hlater, hpure⟩ := Program.bind_ok.mp h
  cases hpure
  exact ⟨answer, k', later, hcall, hlater, rfl⟩

theorem gap_empty (maxAgents : ℤ) (h : 1 ≤ maxAgents) :
    Gap 0 (⟨maxAgents, .empty, .empty, []⟩ : MemoryDedupStore) := by
  refine ⟨⟨fun _ => ∅, h, fun _ => ⟨fun _ => rfl, fun _ => rfl⟩, ?_⟩, rfl, ?_⟩
  · exact fun _ _ hget => by cases hget
  · exact fun _ hget => by cases hget

/-- Of two claims of one pair, under a clock that stands still, the first takes it and the second
finds it seen. -/
theorem dedup_retention_two_claims :
    Monotone (fun _ : ℕ => (0 : ℤ)) ∧
      MemoryDedupStore.make 1 = .ok ⟨1, .empty, .empty, []⟩ ∧
      ∃ first second k, perform (fun _ => 0) [.claim "agent" 1 300, .claim "agent" 1 300]
          ⟨0, ⟨1, .empty, .empty, []⟩⟩ = .ok [first, second] k ∧
        first.marks = some 300 ∧ second.seen = some true := by
  refine ⟨monotone_const, rfl, ?_⟩
  obtain ⟨k₁, hfirst, -⟩ :=
    (gap_empty 1 le_rfl).claim (k := ⟨0, ⟨1, .empty, .empty, []⟩⟩) (by decide)
  obtain ⟨made, k, hrun, hcalls, hretained⟩ :=
    dedup_retention (monotone_const : Monotone fun _ : ℕ => (0 : ℤ))
      (rfl : MemoryDedupStore.make 1 = .ok ⟨1, .empty, .empty, []⟩)
      [.claim "agent" 1 300, .claim "agent" 1 300] (by decide)
  obtain ⟨answer, k', later, hcall, hlater, rfl⟩ := perform_cons_ok hrun
  obtain ⟨_, rfl, hclaim⟩ := perform_claim_ok hcall
  cases hclaim.symm.trans hfirst
  obtain ⟨answer, k', later, hcall', hlater', rfl⟩ := perform_cons_ok hlater
  cases hlater'
  obtain ⟨taken, rfl, -⟩ := perform_claim_ok hcall'
  refine ⟨_, _, k, hrun, rfl, congrArg some ?_⟩
  -- Nothing was marked but the pair itself.
  have hsoon : (0 : ℤ) < 0 + 300 := by decide
  refine (hretained [] _ [] _ [] rfl rfl rfl 300 (!taken) rfl hsoon rfl).resolve_right ?_
  rintro ⟨-, -, -, hmany⟩
  have hnone : ((marked [Call.made (fun _ => 0) (.claim "agent" 1 300) (some true)
      ⟨0, ⟨1, .empty, .empty, []⟩⟩ k₁] "agent").filter ((1 : ℤ) < ·)).card = 0 := rfl
  exact absurd (hmany.trans hnone.le) (by decide)

/-- One agent's two claims of the same pair both succeed at time 0, with a retention of 300 s: the
10,000 claims between them made the store drop the pair. -/
theorem dedup_drops_a_claimed_pair :
    ∃ a between b k,
      perform (fun _ => 0)
          (.claim "agent" 1 300 ::
            (claims 1 9999 ++ [.claim "agent" 10001 300, .claim "agent" 1 300]))
          ⟨0, ⟨100000, .empty, .empty, []⟩⟩ = .ok (a :: (between ++ [b])) k ∧
        a.call = .claim "agent" 1 300 ∧ a.answer = some true ∧
        b.call = .claim "agent" 1 300 ∧ b.answer = some true ∧ b.began < a.ended + 300 := by
  obtain ⟨k₁, hrun₁, hgap₁⟩ :=
    (gap_empty 100000 (by decide)).claim (k := ⟨0, ⟨100000, .empty, .empty, []⟩⟩) (by decide)
  obtain ⟨between, k₂, hgap₂, hlater⟩ := perform_claims 9999 hgap₁ (by decide)
  -- The claim of 10,001 succeeds and pushes 1 out.
  obtain ⟨held, hk₂⟩ := hgap₂.kept
  obtain ⟨k₃, hrun₃, ⟨held₃, hk₃⟩, hwin₃, hexp₃⟩ :=
    claim_fresh hk₂ hgap₂.window hgap₂.unexpired
      (not_contains_gap 10000 _ (by decide : (0 : ℤ) ≤ 10001) (Or.inl (by decide)))
  obtain ⟨k₄, hrun₄, -⟩ := claim_fresh hk₃ hwin₃ hexp₃ add_full_gap
  have hnil : perform (fun _ => 0) [] k₄ = .ok [] k₄ := rfl
  have hend := perform_cons_claim hrun₃ (perform_cons_claim hrun₄ hnil)
  refine ⟨⟨.claim "agent" 1 300, some true, 0, 0, k₁.store⟩,
    between ++ [⟨.claim "agent" 10001 300, some true, 0, 0, k₃.store⟩],
    ⟨.claim "agent" 1 300, some true, 0, 0, k₄.store⟩, k₄,
    (perform_cons_claim hrun₁ (hlater _ _ _ hend)).trans ?_, rfl, rfl, rfl, rfl, ?_⟩
  · rw [List.append_assoc]
    rfl
  · show (0 : ℤ) < 0 + 300
    decide

end Hammertime.Store
