import Mathlib.Logic.Relation
import Hammertime.Aggregator.Window

/-!
# What the methods of a window do to its entries

One statement for each method of `ShardWindow`, in terms of what every IP's entry is afterwards.
Three relations say it: `Framed`, for what no method of the store touches; `Shrinks`, for an
eviction, which only ever drops COLD entries; and `Swept`, for an expiry sweep, which lowers totals
and reports each one it lowered. The schedules do not appear in any of them: which entries are due
is their business, and what happens to an entry that is due is what these relations say.
-/

namespace Hammertime.Aggregator

open Lib

namespace ShardWindow

/-- What the sweeps, the evictions and the observations leave alone. -/
structure Framed (w w' : ShardWindow) : Prop where
  shard : w'.shard = w.shard
  config : w'.config = w.config
  nextSequence : w'.nextSequence = w.nextSequence
  warmUntil : w'.warmUntil = w.warmUntil

namespace Framed

variable {w w' w'' : ShardWindow}

theorem refl (w : ShardWindow) : Framed w w := ⟨rfl, rfl, rfl, rfl⟩

theorem trans (h : Framed w w') (h' : Framed w' w'') : Framed w w'' :=
  ⟨h'.shard.trans h.shard, h'.config.trans h.config, h'.nextSequence.trans h.nextSequence,
    h'.warmUntil.trans h.warmUntil⟩

instance : Std.Refl Framed := ⟨refl⟩

instance : IsTrans ShardWindow Framed := ⟨fun _ _ _ => trans⟩

end Framed

/-! ### The schedules -/

theorem scheduleLastSeen_framed (w : ShardWindow) (ip : Address) (entry : Entry) :
    Framed w (w.scheduleLastSeen ip entry) := by
  unfold scheduleLastSeen
  split_ifs
  · exact Framed.refl w
  · exact ⟨rfl, rfl, rfl, rfl⟩

@[simp] theorem scheduleLastSeen_entries (w : ShardWindow) (ip : Address) (entry : Entry) :
    (w.scheduleLastSeen ip entry).entries = w.entries := by
  unfold scheduleLastSeen
  split_ifs <;> rfl

theorem scheduleExpiry_framed (w : ShardWindow) (ip : Address) (entry : Entry) :
    Framed w (w.scheduleExpiry ip entry) := by
  unfold scheduleExpiry
  split
  · exact Framed.refl w
  · split_ifs
    · exact Framed.refl w
    · exact ⟨rfl, rfl, rfl, rfl⟩

theorem Framed.scheduleLastSeen {w w' : ShardWindow} (h : Framed w w') (ip : Address)
    (entry : Entry) : Framed w (w'.scheduleLastSeen ip entry) :=
  h.trans (scheduleLastSeen_framed w' ip entry)

theorem Framed.scheduleExpiry {w w' : ShardWindow} (h : Framed w w') (ip : Address)
    (entry : Entry) : Framed w (w'.scheduleExpiry ip entry) :=
  h.trans (scheduleExpiry_framed w' ip entry)

@[simp] theorem scheduleExpiry_entries (w : ShardWindow) (ip : Address) (entry : Entry) :
    (w.scheduleExpiry ip entry).entries = w.entries := by
  unfold scheduleExpiry
  split
  · rfl
  · split_ifs <;> rfl

@[simp] theorem track_entries (w : ShardWindow) (ip : Address) (entry : Entry) :
    (w.track ip entry).entries = w.entries.set ip entry :=
  scheduleLastSeen_entries { w with entries := w.entries.set ip entry } ip entry

theorem track_framed (w : ShardWindow) (ip : Address) (entry : Entry) :
    Framed w (w.track ip entry) :=
  Framed.scheduleLastSeen (by constructor <;> rfl) ip entry

/-! ### Reads of an entry -/

theorem state_of_get? {w : ShardWindow} {ip : Address} {entry : Entry}
    (h : w.entries.get? ip = some entry) : w.state ip = entry.state := by
  simp [state, h]

theorem total_of_get? {w : ShardWindow} {ip : Address} {entry : Entry}
    (h : w.entries.get? ip = some entry) : w.total ip = entry.counter.total := by
  simp [total, h]

theorem isInherited_of_get? {w : ShardWindow} {ip : Address} {entry : Entry}
    (h : w.entries.get? ip = some entry) : w.isInherited ip = entry.inherited := by
  simp [isInherited, h]

theorem state_eq_hot_iff {w : ShardWindow} {ip : Address} :
    w.state ip = .hot ↔ ∃ entry, w.entries.get? ip = some entry ∧ entry.state = .hot := by
  cases h : w.entries.get? ip <;> simp [state, h]

theorem mem_hotIps {w : ShardWindow} {ip : Address} : ip ∈ w.hotIps ↔ w.state ip = .hot := by
  rw [state_eq_hot_iff]
  simp only [hotIps, List.mem_toFinset, List.mem_map, List.mem_filter, Prod.exists,
    exists_and_right, exists_eq_right, Dict.mem_items_iff, decide_eq_true_eq]

theorem mem_trackedIps {w : ShardWindow} {ip : Address} :
    ip ∈ w.trackedIps ↔ ∃ entry, w.entries.get? ip = some entry := by
  rw [trackedIps, List.mem_toFinset, Dict.mem_keys_iff]

/-- The reads of an IP depend on its entry alone. -/
theorem state_congr {w w' : ShardWindow} {ip : Address}
    (h : w'.entries.get? ip = w.entries.get? ip) : w'.state ip = w.state ip := by
  simp only [state, h]

theorem total_congr {w w' : ShardWindow} {ip : Address}
    (h : w'.entries.get? ip = w.entries.get? ip) : w'.total ip = w.total ip := by
  simp only [total, h]

theorem isInherited_congr {w w' : ShardWindow} {ip : Address}
    (h : w'.entries.get? ip = w.entries.get? ip) : w'.isInherited ip = w.isInherited ip := by
  simp only [isInherited, h]

/-! ### Evictions -/

/-- Entries are only dropped, and only COLD ones. -/
structure Shrinks (w w' : ShardWindow) : Prop extends Framed w w' where
  kept : ∀ ip, w'.entries.get? ip = w.entries.get? ip ∨
    w'.entries.get? ip = none ∧ w.state ip = .cold

namespace Shrinks

variable {w w' w'' : ShardWindow}

theorem refl (w : ShardWindow) : Shrinks w w := ⟨Framed.refl w, fun _ => Or.inl rfl⟩

/-- The same entries, with whatever was done to the schedules. -/
theorem of_entries (h : Framed w w') (he : w'.entries = w.entries) : Shrinks w w' :=
  ⟨h, fun ip => Or.inl (by rw [he])⟩

theorem trans (h : Shrinks w w') (h' : Shrinks w' w'') : Shrinks w w'' := by
  refine ⟨h.toFramed.trans h'.toFramed, fun ip => ?_⟩
  obtain hk | ⟨hn, hc⟩ := h'.kept ip
  · rw [hk]
    exact h.kept ip
  · obtain hk | ⟨-, hc'⟩ := h.kept ip
    · exact Or.inr ⟨hn, by rwa [← state_congr hk]⟩
    · exact Or.inr ⟨hn, hc'⟩

/-- Dropping a COLD entry. -/
theorem drop (w : ShardWindow) {ip : Address} (hc : w.state ip = .cold) :
    Shrinks w (w.drop ip) := by
  refine ⟨⟨rfl, rfl, rfl, rfl⟩, fun ip' => ?_⟩
  show (w.entries.erase ip).get? ip' = _ ∨ (w.entries.erase ip).get? ip' = none ∧ _
  rw [Dict.get?_erase]
  split_ifs with h
  · exact Or.inr ⟨rfl, h ▸ hc⟩
  · exact Or.inl rfl

end Shrinks

/-- The search of a victim leaves the entries alone, and finds a COLD one. -/
theorem findVictim_spec (fuel : ℕ) (w : ShardWindow) (deferred : List HeapItem) :
    Framed w (findVictim fuel w deferred).1 ∧
      (findVictim fuel w deferred).1.entries = w.entries ∧
      ∀ ip, (findVictim fuel w deferred).2.2 = some ip → w.state ip = .cold := by
  induction fuel generalizing w deferred with
  | zero => exact ⟨Framed.refl w, rfl, fun ip h => by cases h⟩
  | succ fuel ih =>
    -- A turn of the loop rewrites the heap and its schedule, and searches on.
    have step : ∀ (w' : ShardWindow) (deferred' : List HeapItem), Framed w w' →
        w'.entries = w.entries → Framed w (findVictim fuel w' deferred').1 ∧
          (findVictim fuel w' deferred').1.entries = w.entries ∧
          ∀ ip, (findVictim fuel w' deferred').2.2 = some ip → w.state ip = .cold := by
      intro w' deferred' hf he
      obtain ⟨hf', he', hc⟩ := ih w' deferred'
      refine ⟨hf.trans hf', he'.trans he, fun ip h => ?_⟩
      rw [← hc ip h, state_congr (by rw [he])]
    unfold findVictim
    split
    · exact ⟨Framed.refl w, rfl, fun ip h => by cases h⟩
    · next item rest hheap =>
      split
      · exact step _ _ ⟨rfl, rfl, rfl, rfl⟩ rfl
      · next entry hentry =>
        split_ifs with hstale hhot
        · exact step _ _ ⟨rfl, rfl, rfl, rfl⟩ rfl
        · exact step _ _ ⟨rfl, rfl, rfl, rfl⟩ rfl
        · refine ⟨⟨rfl, rfl, rfl, rfl⟩, rfl, fun ip h => ?_⟩
          cases h
          rw [state_of_get? hentry]
          cases hs : entry.state
          · rfl
          · exact absurd hs hhot

theorem evictForCapacity_shrinks (w : ShardWindow) : Shrinks w w.evictForCapacity := by
  unfold evictForCapacity
  split_ifs with h
  · exact Shrinks.refl w
  · obtain ⟨hf, he, hc⟩ := findVictim_spec (2 * w.lastSeenHeap.length) w []
    generalize findVictim (2 * w.lastSeenHeap.length) w [] = r at hf he hc
    obtain ⟨w', deferred, victim⟩ := r
    have hsame : Shrinks w { w' with lastSeenHeap := deferred.foldl heappush w'.lastSeenHeap } :=
      Shrinks.of_entries ⟨hf.shard, hf.config, hf.nextSequence, hf.warmUntil⟩ he
    cases victim with
    | none => exact hsame
    | some ip =>
      have hcold : w'.state ip = .cold := by
        rw [state_congr (by rw [he] : w'.entries.get? ip = w.entries.get? ip)]
        exact hc ip rfl
      have hdrop := hsame.trans
        (Shrinks.drop { w' with lastSeenHeap := deferred.foldl heappush w'.lastSeenHeap } hcold)
      exact ⟨⟨hdrop.shard, hdrop.config, hdrop.nextSequence, hdrop.warmUntil⟩, hdrop.kept⟩

theorem evictLoop_shrinks (deadline : ℤ) (fuel : ℕ) (w : ShardWindow) (deferred : List HeapItem)
    (removed : ℕ) : Shrinks w (evictLoop deadline fuel w deferred removed).1 := by
  induction fuel generalizing w deferred removed with
  | zero => exact Shrinks.refl w
  | succ fuel ih =>
    have step : ∀ (w' : ShardWindow) (deferred' : List HeapItem) (removed' : ℕ), Shrinks w w' →
        Shrinks w (evictLoop deadline fuel w' deferred' removed').1 :=
      fun w' deferred' removed' h => h.trans (ih w' deferred' removed')
    have same : ∀ w' : ShardWindow, Framed w w' → w'.entries = w.entries → Shrinks w w' :=
      fun _ => Shrinks.of_entries
    unfold evictLoop
    split
    · exact Shrinks.refl w
    · next item rest hheap =>
      split
      · exact step _ _ _ (same _ ⟨rfl, rfl, rfl, rfl⟩ rfl)
      · next entry hentry =>
        split_ifs with hstale hdue hhot
        · exact step _ _ _ (same _ ⟨rfl, rfl, rfl, rfl⟩ rfl)
        · exact Shrinks.refl w
        · exact step _ _ _ (same _ ⟨rfl, rfl, rfl, rfl⟩ rfl)
        · have hcold : w.state item.ip = .cold := by
            rw [state_of_get? hentry]
            cases hs : entry.state
            · rfl
            · exact absurd hs hhot
          have hdrop := Shrinks.drop { w with lastSeenHeap := rest } hcold
          exact step _ _ _ ⟨⟨rfl, rfl, rfl, rfl⟩, hdrop.kept⟩

/-- `evict_due` drops COLD entries and nothing else. -/
theorem evictDue_shrinks (w : ShardWindow) (now : ℤ) : Shrinks w (w.evictDue now).2 := by
  have h := evictLoop_shrinks (now - w.config.stateRetentionSeconds) (2 * w.lastSeenHeap.length) w
    [] 0
  unfold evictDue
  dsimp only
  generalize evictLoop (now - w.config.stateRetentionSeconds) (2 * w.lastSeenHeap.length) w [] 0 =
    r at h
  obtain ⟨w', deferred, removed⟩ := r
  exact ⟨⟨h.shard, h.config, h.nextSequence, h.warmUntil⟩, h.kept⟩

/-! ### Observations -/

/-- The counter an observation of the IP is applied to: its own, or a new one. -/
def counterOf (w : ShardWindow) (ip : Address) : Except Failure IpCounter :=
  match w.entries.get? ip with
  | none => newCounter w.config
  | some entry => .ok entry.counter

/-- What an observation does: it is refused by the counter, or it finds the bucket not live and
leaves everything, or it writes the IP's entry after room was made for it. -/
theorem observe_cases {w : ShardWindow} {ip : Address} {start delta now : ℤ}
    {change : Option WindowChange} {w' : ShardWindow}
    (h : w.observe ip start delta now = .ok (change, w')) :
    ∃ c, w.counterOf ip = .ok c ∧
      ((change = none ∧ w' = w ∧ c.isLive start now = false) ∨
        ∃ c' w₁ entry, c.observe start delta now = .ok (true, c') ∧ change.isSome ∧
          Shrinks w w₁ ∧ Framed w w' ∧ w'.entries = w₁.entries.set ip entry ∧
          entry.counter = c' ∧ entry.state = w.state ip ∧ entry.inherited = w.isInherited ip ∧
          (w.entries.get? ip ≠ none → w₁ = w)) := by
  unfold observe at h
  cases he : w.entries.get? ip with
  | none =>
    -- An IP without an entry starts from a fresh counter, after room is made for it.
    simp only [he] at h
    cases hc : newCounter w.config with
    | error e => rw [hc] at h; cases h
    | ok c =>
      refine ⟨c, by simp only [counterOf, he, hc], ?_⟩
      rw [hc] at h
      cases ho : c.observe start delta now with
      | error e => simp only [bind, Except.bind, ho] at h; cases h
      | ok r =>
        obtain ⟨applied, c'⟩ := r
        simp only [bind, Except.bind, ho] at h
        cases applied with
        | false =>
          cases h
          exact Or.inl ⟨rfl, rfl, (IpCounter.observe_false ho).1⟩
        | true =>
          cases h
          have hs := evictForCapacity_shrinks w
          refine Or.inr ⟨c', w.evictForCapacity, ⟨c', .cold, start, false⟩, rfl, rfl, hs,
            (hs.toFramed.trans (track_framed _ _ _)).scheduleExpiry _ _, ?_, rfl, ?_, ?_,
            fun hn => absurd rfl hn⟩
          · rw [scheduleExpiry_entries, track_entries]
          · simp only [state, he]
          · simp only [isInherited, he]
  | some entry =>
    -- A tracked IP keeps its entry, and nothing is evicted for it.
    simp only [he] at h
    refine ⟨entry.counter, by simp only [counterOf, he], ?_⟩
    cases ho : entry.counter.observe start delta now with
    | error e => simp only [bind, Except.bind, ho] at h; cases h
    | ok r =>
      obtain ⟨applied, c'⟩ := r
      simp only [bind, Except.bind, ho] at h
      cases applied with
      | false =>
        cases h
        exact Or.inl ⟨rfl, rfl, (IpCounter.observe_false ho).1⟩
      | true =>
        cases h
        refine Or.inr ⟨c', w, _, rfl, rfl, Shrinks.refl w,
          Framed.scheduleExpiry (by constructor <;> rfl) _ _, scheduleExpiry_entries _ _ _, rfl, ?_, ?_,
          fun _ => rfl⟩
        · rw [state_of_get? he]
        · rw [isInherited_of_get? he]

/-! ### Setting a state -/

/-- `set_state` writes the state of a tracked IP, and nothing else that can be read. -/
theorem setState_ok {w w' : ShardWindow} {ip : Address} {new : IpState}
    (h : w.setState ip new = .ok w') :
    ∃ entry, w.entries.get? ip = some entry ∧ Framed w w' ∧
      w'.entries = w.entries.set ip
        { entry with state := new, inherited := entry.inherited && decide (new = .hot) } := by
  unfold setState at h
  split at h
  · cases h
  · next entry he =>
    refine ⟨entry, he, ?_⟩
    cases new with
    | hot =>
      cases h
      refine ⟨⟨rfl, rfl, rfl, rfl⟩, ?_⟩
      simp
    | cold =>
      cases h
      refine ⟨Framed.scheduleLastSeen (by constructor <;> rfl) _ _, ?_⟩
      rw [scheduleLastSeen_entries]
      simp

theorem setState_error {w : ShardWindow} {ip : Address} {new : IpState} {e : Failure}
    (h : w.setState ip new = .error e) : w.entries.get? ip = none := by
  unfold setState at h
  split at h
  · assumption
  · cases new <;> cases h

/-! ### Ending the warm-up -/

theorem mem_finishWarmup {w : ShardWindow} {ip : Address} :
    ip ∈ w.finishWarmup.1 ↔ w.isInherited ip = true ∧ w.state ip = .hot := by
  simp only [finishWarmup, List.mem_toFinset, List.mem_map, List.mem_filter, Prod.exists,
    exists_and_right, exists_eq_right, Dict.mem_items_iff, decide_eq_true_eq]
  cases h : w.entries.get? ip with
  | none => simp [isInherited, h]
  | some entry => simp [isInherited_of_get? h, state_of_get? h]

theorem get?_finishWarmup (w : ShardWindow) (ip : Address) :
    w.finishWarmup.2.entries.get? ip =
      (w.entries.get? ip).map fun entry => { entry with inherited := false } :=
  Dict.get?_mapValues _ _ _

/-! ### Expiry sweeps -/

/-- The counters a sweep at `now` can make of one: expired any number of times. -/
def SweptCounter (now : ℤ) : IpCounter → IpCounter → Prop :=
  Relation.ReflTransGen fun c c' => c' = (c.expire now).2

theorem SweptCounter.total_le {now : ℤ} {c c' : IpCounter} (h : SweptCounter now c c') :
    c'.total ≤ c.total := by
  induction h with
  | refl => exact le_refl _
  | @tail b _ _ hb ih =>
    rw [hb, IpCounter.expire_total]
    have := b.expire_fst_nonneg now
    omega

theorem SweptCounter.bucketSeconds {now : ℤ} {c c' : IpCounter} (h : SweptCounter now c c') :
    c'.bucketSeconds = c.bucketSeconds := by
  induction h with
  | refl => rfl
  | tail _ hb ih =>
    rw [hb]
    exact ih

/-- An expiry sweep: every entry keeps all but its counter, the counters are swept, and each total
that dropped is reported with the entry's state. -/
structure Swept (now : ℤ) (changes : List WindowChange) (w w' : ShardWindow) : Prop
    extends Framed w w' where
  entries : ∀ ip, w.entries.get? ip = none ∧ w'.entries.get? ip = none ∨
    ∃ entry c', w.entries.get? ip = some entry ∧
      w'.entries.get? ip = some { entry with counter := c' } ∧
      SweptCounter now entry.counter c' ∧
      (c'.total = entry.counter.total ∨
        ∃ change ∈ changes, change.ip = ip ∧ change.state = entry.state)

namespace Swept

variable {now : ℤ} {changes changes' : List WindowChange} {w w' w'' : ShardWindow}

/-- The same entries, with whatever was done to the schedules. -/
theorem of_entries (h : Framed w w') (he : w'.entries = w.entries) : Swept now [] w w' := by
  refine ⟨h, fun ip => ?_⟩
  rw [he]
  cases hip : w.entries.get? ip with
  | none => exact Or.inl ⟨rfl, rfl⟩
  | some entry =>
    exact Or.inr ⟨entry, entry.counter, rfl, rfl, Relation.ReflTransGen.refl, Or.inl rfl⟩

theorem trans (h : Swept now changes w w') (h' : Swept now changes' w' w'') :
    Swept now (changes ++ changes') w w'' := by
  refine ⟨h.toFramed.trans h'.toFramed, fun ip => ?_⟩
  obtain ⟨hn, hn'⟩ | ⟨entry, c₁, he, he', hs, hr⟩ := h.entries ip
  · obtain ⟨-, hn''⟩ | ⟨entry, c₁, he, -⟩ := h'.entries ip
    · exact Or.inl ⟨hn, hn''⟩
    · rw [hn'] at he
      cases he
  · obtain ⟨hn'', -⟩ | ⟨entry', c₂, hw', hw'', hs', hr'⟩ := h'.entries ip
    · rw [he'] at hn''
      cases hn''
    · rw [he'] at hw'
      cases hw'
      refine Or.inr ⟨entry, c₂, he, hw'', hs.trans hs', ?_⟩
      obtain hr | ⟨change, hm, hc⟩ := hr
      · obtain hr' | ⟨change, hm, hc⟩ := hr'
        · exact Or.inl (hr'.trans hr)
        · exact Or.inr ⟨change, List.mem_append_right _ hm, hc⟩
      · exact Or.inr ⟨change, List.mem_append_left _ hm, hc⟩

end Swept

/-- One turn of the loop is a sweep of at most one entry. -/
theorem expireNext_swept {w w' : ShardWindow} {now : ℤ} {changes : List WindowChange}
    (h : w.expireNext now = some (changes, w')) : Swept now changes w w' := by
  unfold expireNext at h
  split at h
  · cases h
  · next item rest hheap =>
    split_ifs at h with hdue hstale
    · cases h
      exact Swept.of_entries ⟨rfl, rfl, rfl, rfl⟩ rfl
    · dsimp only at h
      split at h
      · cases h
        exact Swept.of_entries ⟨rfl, rfl, rfl, rfl⟩ rfl
      · next entry he =>
        -- The window afterwards, whatever was reported.
        have key : ∀ (w₁ : ShardWindow) (reported : List WindowChange), Framed w w₁ →
            w₁.entries = w.entries.set item.ip
              { entry with counter := (entry.counter.expire now).2 } →
            ((entry.counter.expire now).1 = 0 ∨
              ∃ change ∈ reported, change.ip = item.ip ∧ change.state = entry.state) →
            Swept now reported w w₁ := by
          intro w₁ reported hf hw₁ hr
          refine ⟨hf, fun ip => ?_⟩
          rw [hw₁, Dict.get?_set]
          split_ifs with hip
          · subst hip
            refine Or.inr ⟨entry, _, he, rfl, Relation.ReflTransGen.single rfl, ?_⟩
            obtain hr | hr := hr
            · exact Or.inl (by rw [IpCounter.expire_total, hr, sub_zero])
            · exact Or.inr hr
          · cases hother : w.entries.get? ip with
            | none => exact Or.inl ⟨rfl, rfl⟩
            | some other =>
              exact Or.inr ⟨other, _, rfl, rfl, Relation.ReflTransGen.refl, Or.inl rfl⟩
        split_ifs at h with hzero
        · cases h
          exact key _ _ (Framed.scheduleExpiry (by constructor <;> rfl) _ _)
            (scheduleExpiry_entries _ _ _) (Or.inl hzero)
        · cases h
          refine key _ _ (Framed.scheduleExpiry (by constructor <;> rfl) _ _)
            (scheduleExpiry_entries _ _ _) (Or.inr ?_)
          exact ⟨_, List.mem_singleton_self _, rfl, rfl⟩

theorem expireLoop_swept (now : ℤ) (fuel : ℕ) (w : ShardWindow) (changes : List WindowChange) :
    ∃ reported, (expireLoop now fuel w changes).1 = changes ++ reported ∧
      Swept now reported w (expireLoop now fuel w changes).2 := by
  induction fuel generalizing w changes with
  | zero => exact ⟨[], (List.append_nil _).symm, Swept.of_entries (Framed.refl w) rfl⟩
  | succ fuel ih =>
    unfold expireLoop
    split
    · exact ⟨[], (List.append_nil _).symm, Swept.of_entries (Framed.refl w) rfl⟩
    · next change w' hnext =>
      obtain ⟨reported, hr, hs⟩ := ih w' (changes ++ change)
      exact ⟨change ++ reported, by rw [hr, List.append_assoc], (expireNext_swept hnext).trans hs⟩

/-- `expire_due` is a sweep, and it reports what it lowered. -/
theorem expireDue_swept (w : ShardWindow) (now : ℤ) :
    Swept now (w.expireDue now).1 w (w.expireDue now).2 := by
  obtain ⟨reported, hr, hs⟩ := expireLoop_swept now w.expiryHeap.length w []
  unfold expireDue
  rw [hr]
  exact hs

/-! ### A new window -/

theorem trackInherited_ok {now : ℤ} {ips : List Address} {w w' : ShardWindow}
    (h : trackInherited now ips w = .ok w') :
    Framed w w' ∧ ∀ ip,
      (ip ∈ ips → ∃ c, newCounter w.config = .ok c ∧
        w'.entries.get? ip = some ⟨c, .hot, now, true⟩) ∧
      (ip ∉ ips → w'.entries.get? ip = w.entries.get? ip) := by
  induction ips generalizing w with
  | nil =>
    cases h
    exact ⟨Framed.refl _, fun ip => ⟨fun hm => absurd hm List.not_mem_nil, fun _ => rfl⟩⟩
  | cons head rest ih =>
    unfold trackInherited at h
    cases hc : newCounter w.config with
    | error e =>
      rw [hc] at h
      cases h
    | ok c =>
      rw [hc] at h
      obtain ⟨hf, hrest⟩ := ih h
      have hf₀ := track_framed w head ⟨c, .hot, now, true⟩
      refine ⟨hf₀.trans hf, fun ip => ⟨fun hm => ?_, fun hm => ?_⟩⟩
      · by_cases hin : ip ∈ rest
        · obtain ⟨c', hc', he⟩ := (hrest ip).1 hin
          rw [hf₀.config, hc] at hc'
          exact ⟨c', hc', he⟩
        · obtain rfl | hm := List.mem_cons.mp hm
          · exact ⟨c, rfl, by rw [(hrest ip).2 hin, track_entries, Dict.get?_set_self]⟩
          · exact absurd hm hin
      · obtain ⟨hne, hin⟩ := not_or.mp (fun hc => hm (List.mem_cons.mpr hc))
        rw [(hrest ip).2 hin, track_entries, Dict.get?_set_of_ne _ (Ne.symm hne)]

/-- A new window tracks the inherited IPs and no other: HOT, flagged, with an empty ring. It warms up
unless it inherited nothing. -/
structure IsNew (config : DetectionConfig) (now : ℤ) (inheritedHot : Finset Address)
    (w : ShardWindow) : Prop where
  config_eq : w.config = config
  inherited : ∀ ip ∈ inheritedHot, ∃ c, newCounter config = .ok c ∧
    w.entries.get? ip = some ⟨c, .hot, now, true⟩
  untracked : ∀ ip ∉ inheritedHot, w.entries.get? ip = none
  warmUntil : w.warmUntil =
    if inheritedHot = ∅ then none else some (now + config.windowSeconds)

theorem make_ok {shard nextSequence : ℕ} {config : DetectionConfig} {now maxTrackedIps : ℤ}
    {ips : List Address} {hot : Finset Address} (hips : ∀ ip, ip ∈ ips ↔ ip ∈ hot) {w : ShardWindow}
    (h : make shard config now ips nextSequence maxTrackedIps = .ok w) :
    w.shard = shard ∧ w.nextSequence = nextSequence ∧ IsNew config now hot w := by
  unfold make at h
  split_ifs at h
  generalize hw₀ : ({ shard := shard, nextSequence := nextSequence, capacityEvictions := 0,
                      retentionEvictions := 0, config := config, maxTrackedIps := maxTrackedIps,
                      entries := .empty, tieBreak := 0, expiryHeap := [],
                      expiryScheduled := .empty, lastSeenHeap := [],
                      lastSeenScheduled := .empty, warmUntil := none } : ShardWindow) = w₀ at h
  cases ht : trackInherited now ips w₀ with
  | error e =>
    rw [ht] at h
    cases h
  | ok w₁ =>
    rw [ht] at h
    cases h
    obtain ⟨hf, he⟩ := trackInherited_ok ht
    subst hw₀
    refine ⟨hf.shard, hf.nextSequence, hf.config, ?_, ?_, ?_⟩
    · exact fun ip hip => (he ip).1 ((hips ip).mpr hip)
    · exact fun ip hip => (he ip).2 fun hc => hip ((hips ip).mp hc)
    · show (if w₁.entries.items.isEmpty then none else some (now + config.windowSeconds)) = _
      -- Nothing is tracked exactly when nothing was inherited.
      have hiff : w₁.entries.items.isEmpty = true ↔ hot = ∅ := by
        rw [List.isEmpty_iff, List.eq_nil_iff_forall_not_mem, Finset.eq_empty_iff_forall_notMem]
        constructor
        · intro hempty ip hip
          obtain ⟨c, -, hget⟩ := (he ip).1 ((hips ip).mpr hip)
          exact hempty (ip, _) (Dict.mem_items_iff.mpr hget)
        · rintro hempty ⟨ip, entry⟩ hm
          have hget := Dict.mem_items_iff.mp hm
          rw [(he ip).2 fun hc => hempty ip ((hips ip).mp hc)] at hget
          cases hget
      by_cases hempty : hot = ∅
      · rw [if_pos hempty, if_pos (hiff.mpr hempty)]
      · rw [if_neg hempty, if_neg fun hc => hempty (hiff.mp hc)]

/-! ### Rebuilding the counters -/

theorem newCounter_ok {config : DetectionConfig} {c : IpCounter} (h : newCounter config = .ok c) :
    c.bucketSeconds = config.bucketSeconds ∧ c.total = 0 :=
  IpCounter.makeRing_ok h

theorem exists_newCounter {config : DetectionConfig} (h : config.SchemaValid) :
    ∃ c, newCounter config = .ok c :=
  IpCounter.exists_makeRing (by linarith [h.bucketSeconds]) h.bucketCount_pos

theorem exists_trackInherited {config : DetectionConfig} (h : config.SchemaValid)
    (now : ℤ) (ips : List Address) (w : ShardWindow) (hw : w.config = config) :
    ∃ w', trackInherited now ips w = .ok w' := by
  induction ips generalizing w with
  | nil => exact ⟨w, rfl⟩
  | cons ip rest ih =>
    obtain ⟨counter, hcounter⟩ := exists_newCounter h
    have hconfig : (w.track ip ⟨counter, .hot, now, true⟩).config = config := by
      rw [← hw]
      unfold track scheduleLastSeen
      split_ifs <;> rfl
    obtain ⟨w', hw'⟩ := ih (w.track ip ⟨counter, .hot, now, true⟩) hconfig
    refine ⟨w', ?_⟩
    unfold trackInherited
    rw [hw, hcounter]
    exact hw'

/-- A window of a configuration that the schema admits is built. -/
theorem exists_make {config : DetectionConfig} (h : config.SchemaValid)
    (shard nextSequence : ℕ) (now : ℤ) (ips : List Address) {maxTrackedIps : ℤ}
    (hmax : 0 < maxTrackedIps) :
    ∃ w, make shard config now ips nextSequence maxTrackedIps = .ok w := by
  unfold make
  rw [if_neg (not_le.mpr hmax)]
  obtain ⟨w, hw⟩ := exists_trackInherited h now ips
    (ShardWindow.mk shard nextSequence 0 0 config maxTrackedIps .empty 0 [] .empty [] .empty none) rfl
  rw [hw]
  exact ⟨_, rfl⟩

theorem total_nonneg (w : ShardWindow) (ip : Address) : 0 ≤ w.total ip := by
  unfold total
  split
  · exact le_refl 0
  · exact IpCounter.total_nonneg _

/-- The rebuild gives each entry of the list a rebuilt counter and leaves every other alone. -/
theorem rebuildEntries_ok {config : DetectionConfig} {now : ℤ} {items : List (Address × Entry)}
    (w w' : ShardWindow) (hnodup : (items.map Prod.fst).Nodup)
    (h : items.forM (rebuildEntry config now) w = .ok ⟨⟩ w') :
    Framed w w' ∧ ∀ ip, (ip ∉ items.map Prod.fst → w'.entries.get? ip = w.entries.get? ip) ∧
      ∀ entry, (ip, entry) ∈ items → ∃ c', rebuild config now entry.counter = .ok c' ∧
        w'.entries.get? ip = some { entry with counter := c' } := by
  induction items generalizing w with
  | nil =>
    cases h
    exact ⟨Framed.refl _, fun ip => ⟨fun _ => rfl, fun entry hm => by cases hm⟩⟩
  | cons item rest ih =>
    obtain ⟨⟨⟩, w₁, hhead, htail⟩ := Program.bind_ok.mp h
    obtain ⟨hitem, hrest⟩ := List.nodup_cons.mp hnodup
    obtain ⟨hf, hent⟩ := ih w₁ hrest htail
    unfold rebuildEntry at hhead
    cases hb : rebuild config now item.2.counter with
    | error e => rw [hb] at hhead; cases hhead
    | ok c' =>
      rw [hb] at hhead
      cases hhead
      refine ⟨(Framed.scheduleExpiry (by constructor <;> rfl) _ _).trans hf, fun ip => ⟨?_, ?_⟩⟩
      · intro hip
        have hne : item.1 ≠ ip := fun hc => hip (hc ▸ List.mem_cons_self)
        rw [(hent ip).1 fun hc => hip (List.mem_cons_of_mem _ hc), scheduleExpiry_entries,
          Dict.get?_set_of_ne _ hne]
      · intro entry hm
        obtain hm | hm := List.mem_cons.mp hm
        · subst hm
          refine ⟨c', hb, ?_⟩
          rw [(hent ip).1 hitem, scheduleExpiry_entries, Dict.get?_set_self]
        · exact (hent ip).2 entry hm

/-- Every tracked IP keeps all but its counter, which is rebuilt. -/
theorem rebuildAll_ok {config : DetectionConfig} {now : ℤ} {w w' : ShardWindow}
    (h : rebuildAll config now w = .ok ⟨⟩ w') :
    Framed w w' ∧ ∀ ip, w.entries.get? ip = none ∧ w'.entries.get? ip = none ∨
      ∃ entry c', w.entries.get? ip = some entry ∧ rebuild config now entry.counter = .ok c' ∧
        w'.entries.get? ip = some { entry with counter := c' } := by
  obtain ⟨hf, hent⟩ := rebuildEntries_ok w w' w.entries.nodup h
  refine ⟨hf, fun ip => ?_⟩
  cases he : w.entries.get? ip with
  | none =>
    refine Or.inl ⟨rfl, ?_⟩
    rw [(hent ip).1 (Dict.get?_eq_none_iff.mp he), he]
  | some entry =>
    obtain ⟨c', hb, hw'⟩ := (hent ip).2 entry (Dict.mem_items_iff.mpr he)
    exact Or.inr ⟨entry, c', rfl, hb, hw'⟩

/-- Even a rebuild that stops half way touches nothing but entries and schedules. -/
theorem rebuildAll_framed (config : DetectionConfig) (now : ℤ) :
    Program.Within Framed (rebuildAll config now) := by
  intro w
  refine Program.Within.forM w.entries.items ?_ w
  intro item _ w₁
  unfold rebuildEntry
  split
  · exact Framed.refl w₁
  · exact Framed.scheduleExpiry (by constructor <;> rfl) _ _

end ShardWindow

end Hammertime.Aggregator
