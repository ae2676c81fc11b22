import Hammertime.Aggregator.WindowRuns

/-!
# Expiry sweeps are complete

`expire_due` looks only at the IPs whose scheduled expiry surfaces on a heap, and the heap is full of
items that were superseded, stand twice or belong to an IP that is gone. What makes a sweep complete
is that every tracked IP with something to expire has an item on the heap that is not later than its
next expiry (`Expiring`). Every call keeps this: the methods that write a counter schedule its expiry
again, an eviction drops the schedule with the entry, and a sweep that consumes an item pushes the
next one.

The loop ends because a sweep pushes only items that are not due yet.
-/

namespace Hammertime.Aggregator

open Lib

/-! ### The heap -/

namespace HeapItem

instance : Std.Total HeapItem.before := ⟨fun a b => by unfold HeapItem.before; omega⟩

instance : IsTrans HeapItem HeapItem.before := ⟨fun a b c => by unfold HeapItem.before; omega⟩

theorem key_le_of_before {a b : HeapItem} (h : a.before b) : a.key ≤ b.key := by
  unfold HeapItem.before at h
  omega

end HeapItem

theorem mem_heappush {heap : List HeapItem} {item item' : HeapItem} :
    item' ∈ heappush heap item ↔ item' = item ∨ item' ∈ heap :=
  List.mem_orderedInsert _

theorem heappush_perm (heap : List HeapItem) (item : HeapItem) :
    (heappush heap item).Perm (item :: heap) :=
  List.perm_orderedInsert _ _ _

theorem heappush_sorted {heap : List HeapItem} (h : heap.Pairwise HeapItem.before) (item : HeapItem) :
    (heappush heap item).Pairwise HeapItem.before :=
  h.orderedInsert _ _

/-! ### The next expiry of a counter -/

namespace IpCounter

variable {c : IpCounter} {start now : ℤ}

/-- A bucket that counts something expires no earlier than the next expiry. -/
theorem nextExpiry_le {i : Fin c.bucketCount} (hi : c.starts i = some start) (hpos : 0 < c.counts i) :
    ∃ e, c.nextExpiry = some e ∧ e ≤ start + c.windowSeconds := by
  have hmem : start ∈ c.occupied.map Prod.fst := by
    refine List.mem_map.mpr ⟨(start, c.counts i), mem_occupied.mpr ⟨held_of_starts hi, hpos⟩, rfl⟩
  cases hmin : (c.occupied.map Prod.fst).min? with
  | none =>
    rw [List.min?_eq_none_iff.mp hmin] at hmem
    cases hmem
  | some oldest =>
    have hle := (List.min?_eq_some_iff.mp hmin).2 start hmem
    refine ⟨oldest + c.windowSeconds, ?_, by omega⟩
    unfold nextExpiry
    rw [hmin]
    rfl

/-- The next expiry is that of a bucket. -/
theorem nextExpiry_eq {e : ℤ} (h : c.nextExpiry = some e) :
    ∃ start, 0 < c.held start ∧ e = start + c.windowSeconds := by
  unfold nextExpiry at h
  obtain ⟨oldest, hmin, rfl⟩ := Option.map_eq_some_iff.mp h
  obtain ⟨bucket, hbucket, heq⟩ := List.mem_map.mp (List.min?_eq_some_iff.mp hmin).1
  obtain ⟨hheld, hpos⟩ := mem_occupied.mp hbucket
  rw [heq] at hheld
  exact ⟨oldest, by rw [hheld]; exact hpos, rfl⟩

/-- Every bucket that a sweep leaves is live. -/
theorem expire_live (c : IpCounter) (now : ℤ) : (c.expire now).2.Live now := by
  intro (i : Fin c.bucketCount) start hi
  have hstarts : (if c.expired now i then none else c.starts i) = some start := hi
  split_ifs at hstarts with hexpired
  unfold expired at hexpired
  rw [hstarts] at hexpired
  show c.isLive start now = true
  simpa using hexpired

/-- After a sweep the next expiry is in the future. -/
theorem lt_nextExpiry_expire {e : ℤ} (h : (c.expire now).2.nextExpiry = some e) : now < e := by
  obtain ⟨start, hheld, rfl⟩ := nextExpiry_eq h
  have hstarts : (c.expire now).2.starts ((c.expire now).2.slot start) = some start := by
    by_contra hne
    have hzero : (c.expire now).2.held start = 0 := if_neg hne
    omega
  have hlive := c.expire_live now _ _ hstarts
  exact ((isLive_iff ((c.expire now).2.aligned _ _ hstarts)).mp hlive).2

end IpCounter

namespace ShardWindow

/-! ### The schedule -/

/-- The expiry schedule of a window, with the IPs in `due` still to be scheduled: every scheduled
expiry is on the heap, and every other tracked IP with something to expire is scheduled in time. -/
structure Expiring (due : Set Address) (w : ShardWindow) : Prop where
  sorted : w.expiryHeap.Pairwise HeapItem.before
  pending : ∀ ip k, w.expiryScheduled.get? ip = some k →
    ∃ item ∈ w.expiryHeap, item.ip = ip ∧ item.key = k
  covers : ∀ ip ∉ due, ∀ entry e, w.entries.get? ip = some entry →
    entry.counter.nextExpiry = some e → ∃ k, w.expiryScheduled.get? ip = some k ∧ k ≤ e

variable {w w' : ShardWindow} {due : Set Address} {now : ℤ}

/-- Scheduling the one IP that was still to be scheduled. -/
theorem Expiring.schedule {ip : Address} {entry : Entry} (h : Expiring {ip} w)
    (hget : w.entries.get? ip = some entry) : Expiring ∅ (w.scheduleExpiry ip entry) := by
  -- The IP is covered once its own expiry is, and the others were before.
  have others : ∀ ip' entry' e, ip' ≠ ip → w.entries.get? ip' = some entry' →
      entry'.counter.nextExpiry = some e → ∃ k, w.expiryScheduled.get? ip' = some k ∧ k ≤ e :=
    fun ip' entry' e hne => h.covers ip' hne entry' e
  unfold scheduleExpiry
  split
  next hnone =>
    refine ⟨h.sorted, h.pending, fun ip' _ entry' e hget' he => ?_⟩
    by_cases hip : ip' = ip
    · rw [hip, hget] at hget'
      cases hget'
      rw [hnone] at he
      cases he
    · exact others ip' entry' e hip hget' he
  next expiresAt hsome =>
    split_ifs with hearlier
    · refine ⟨h.sorted, h.pending, fun ip' _ entry' e hget' he => ?_⟩
      by_cases hip : ip' = ip
      · rw [hip, hget] at hget'
        cases hget'
        rw [hsome] at he
        cases he
        obtain ⟨k, hk, hle⟩ := (Option.any_eq_true _ _).mp hearlier
        exact ⟨k, by rw [hip]; exact hk, of_decide_eq_true hle⟩
      · exact others ip' entry' e hip hget' he
    · refine ⟨heappush_sorted h.sorted _, fun ip' k hk => ?_, fun ip' _ entry' e hget' he => ?_⟩
      · dsimp only at hk ⊢
        rw [Dict.get?_set] at hk
        split_ifs at hk with hip
        · cases hk
          exact ⟨_, mem_heappush.mpr (Or.inl rfl), hip, rfl⟩
        · obtain ⟨item, hitem, hitem'⟩ := h.pending ip' k hk
          exact ⟨item, mem_heappush.mpr (Or.inr hitem), hitem'⟩
      · dsimp only at hget' ⊢
        rw [Dict.get?_set]
        by_cases hip : ip = ip'
        · rw [if_pos hip]
          rw [← hip, hget] at hget'
          cases hget'
          rw [hsome] at he
          cases he
          exact ⟨expiresAt, rfl, le_refl _⟩
        · rw [if_neg hip]
          exact others ip' entry' e (Ne.symm hip) hget' he

/-- The entry of an IP was written, with its schedule left as it is or cancelled. -/
theorem Expiring.write {ip : Address} (h : Expiring ∅ w) (hheap : w'.expiryHeap = w.expiryHeap)
    (hentries : ∀ ip', ip' ≠ ip → w'.entries.get? ip' = w.entries.get? ip')
    (hothers : ∀ ip', ip' ≠ ip → w'.expiryScheduled.get? ip' = w.expiryScheduled.get? ip')
    (hself : ∀ k, w'.expiryScheduled.get? ip = some k → w.expiryScheduled.get? ip = some k) :
    Expiring {ip} w' := by
  refine ⟨by rw [hheap]; exact h.sorted, fun ip' k hk => ?_, fun ip' hne entry e hget he => ?_⟩
  · rw [hheap]
    refine h.pending ip' k ?_
    by_cases hip : ip' = ip
    · rw [hip] at hk ⊢
      exact hself k hk
    · rw [← hothers ip' hip]
      exact hk
  · rw [hentries ip' hne] at hget
    rw [hothers ip' hne]
    exact h.covers ip' (Set.notMem_empty ip') entry e hget he

/-- Nothing was done to the schedule, and the counters are those of before. -/
theorem Expiring.keep (h : Expiring ∅ w) (hheap : w'.expiryHeap = w.expiryHeap)
    (hscheduled : w'.expiryScheduled = w.expiryScheduled)
    (hentries : ∀ ip entry', w'.entries.get? ip = some entry' →
      ∃ entry, w.entries.get? ip = some entry ∧ entry'.counter = entry.counter) :
    Expiring ∅ w' := by
  refine ⟨by rw [hheap]; exact h.sorted, fun ip k hk => ?_, fun ip hip entry' e hget he => ?_⟩
  · rw [hheap]
    rw [hscheduled] at hk
    exact h.pending ip k hk
  · obtain ⟨entry, hentry, hcounter⟩ := hentries ip entry' hget
    rw [hscheduled]
    exact h.covers ip hip entry e hentry (by rw [← hcounter]; exact he)

/-! ### Evictions -/

/-- Entries were dropped, each with its scheduled expiry; the items of the heap stay. -/
structure Forgets (w w' : ShardWindow) : Prop where
  expiryHeap : w'.expiryHeap = w.expiryHeap
  kept : ∀ ip, w'.entries.get? ip = w.entries.get? ip ∧
      w'.expiryScheduled.get? ip = w.expiryScheduled.get? ip ∨
    w'.entries.get? ip = none ∧ w'.expiryScheduled.get? ip = none

theorem Forgets.refl (w : ShardWindow) : Forgets w w := ⟨rfl, fun _ => Or.inl ⟨rfl, rfl⟩⟩

theorem Forgets.trans {w'' : ShardWindow} (h : Forgets w w') (h' : Forgets w' w'') :
    Forgets w w'' := by
  refine ⟨h'.expiryHeap.trans h.expiryHeap, fun ip => ?_⟩
  obtain ⟨he, hs⟩ | hgone := h'.kept ip
  · rw [he, hs]
    exact h.kept ip
  · exact Or.inr hgone

theorem Forgets.drop (w : ShardWindow) (ip : Address) : Forgets w (w.drop ip) := by
  refine ⟨rfl, fun ip' => ?_⟩
  show (w.entries.erase ip).get? ip' = _ ∧ (w.expiryScheduled.erase ip).get? ip' = _ ∨
    (w.entries.erase ip).get? ip' = none ∧ (w.expiryScheduled.erase ip).get? ip' = none
  rw [Dict.get?_erase, Dict.get?_erase]
  split_ifs
  · exact Or.inr ⟨rfl, rfl⟩
  · exact Or.inl ⟨rfl, rfl⟩

/-- The search for a victim touches nothing but the retention schedule. -/
theorem findVictim_eq (fuel : ℕ) (w : ShardWindow) (deferred : List HeapItem) :
    ∃ heap scheduled, (findVictim fuel w deferred).1 =
      { w with lastSeenHeap := heap, lastSeenScheduled := scheduled } := by
  induction fuel generalizing w deferred with
  | zero => exact ⟨w.lastSeenHeap, w.lastSeenScheduled, rfl⟩
  | succ fuel ih =>
    unfold findVictim
    split
    · exact ⟨w.lastSeenHeap, w.lastSeenScheduled, rfl⟩
    · next item rest _ =>
      split
      · exact ih { w with
          lastSeenHeap := rest, lastSeenScheduled := w.lastSeenScheduled.erase item.ip } deferred
      · next entry _ =>
        split_ifs
        · exact ih { w with
            lastSeenHeap := heappush rest { item with key := entry.lastSeen }
            lastSeenScheduled := w.lastSeenScheduled.set item.ip entry.lastSeen } deferred
        · exact ih { w with lastSeenHeap := rest } (deferred ++ [item])
        · exact ⟨rest, w.lastSeenScheduled, rfl⟩

theorem evictForCapacity_forgets (w : ShardWindow) : Forgets w w.evictForCapacity := by
  unfold evictForCapacity
  split_ifs
  · exact Forgets.refl w
  · obtain ⟨heap, scheduled, hfound⟩ := findVictim_eq (2 * w.lastSeenHeap.length) w []
    generalize findVictim (2 * w.lastSeenHeap.length) w [] = r at hfound
    obtain ⟨w', deferred, victim⟩ := r
    dsimp only at hfound ⊢
    subst hfound
    cases victim with
    | none => exact ⟨rfl, fun _ => Or.inl ⟨rfl, rfl⟩⟩
    | some ip => exact ⟨rfl, (Forgets.drop w ip).kept⟩

theorem evictLoop_forgets (deadline : ℤ) (fuel : ℕ) (w : ShardWindow) (deferred : List HeapItem)
    (removed : ℕ) : Forgets w (evictLoop deadline fuel w deferred removed).1 := by
  induction fuel generalizing w deferred removed with
  | zero => exact Forgets.refl w
  | succ fuel ih =>
    have step : ∀ (w' : ShardWindow) (deferred' : List HeapItem) (removed' : ℕ), Forgets w w' →
        Forgets w (evictLoop deadline fuel w' deferred' removed').1 :=
      fun w' deferred' removed' h => h.trans (ih w' deferred' removed')
    unfold evictLoop
    split
    · exact Forgets.refl w
    · next item rest _ =>
      split
      · exact step _ _ _ ⟨rfl, fun _ => Or.inl ⟨rfl, rfl⟩⟩
      · split_ifs
        · exact step _ _ _ ⟨rfl, fun _ => Or.inl ⟨rfl, rfl⟩⟩
        · exact Forgets.refl w
        · exact step _ _ _ ⟨rfl, fun _ => Or.inl ⟨rfl, rfl⟩⟩
        · exact step _ _ _ ⟨rfl, (Forgets.drop w item.ip).kept⟩

theorem evictDue_forgets (w : ShardWindow) (now : ℤ) : Forgets w (w.evictDue now).2 := by
  have h := evictLoop_forgets (now - w.config.stateRetentionSeconds) (2 * w.lastSeenHeap.length) w
    [] 0
  exact ⟨h.expiryHeap, h.kept⟩

/-- The schedule of what is left is still good. -/
theorem Expiring.forget (h : Expiring ∅ w) (hf : Forgets w w') : Expiring ∅ w' := by
  refine ⟨by rw [hf.expiryHeap]; exact h.sorted, fun ip k hk => ?_, fun ip hip entry e hget he => ?_⟩
  · rw [hf.expiryHeap]
    obtain ⟨-, hs⟩ | ⟨-, hs⟩ := hf.kept ip
    · exact h.pending ip k (by rw [← hs]; exact hk)
    · rw [hs] at hk
      cases hk
  · obtain ⟨hentry, hs⟩ | ⟨hentry, -⟩ := hf.kept ip
    · rw [hs]
      exact h.covers ip hip entry e (by rw [← hentry]; exact hget) he
    · rw [hentry] at hget
      cases hget

/-! ### Calls -/

theorem scheduleLastSeen_expiry (w : ShardWindow) (ip : Address) (entry : Entry) :
    (w.scheduleLastSeen ip entry).expiryHeap = w.expiryHeap ∧
      (w.scheduleLastSeen ip entry).expiryScheduled = w.expiryScheduled := by
  unfold scheduleLastSeen
  split_ifs
  · exact ⟨rfl, rfl⟩
  · exact ⟨rfl, rfl⟩

/-- An entry is written and its expiry scheduled. -/
theorem Expiring.set (h : Expiring ∅ w) (ip : Address) (entry : Entry) :
    Expiring ∅ ({ w with entries := w.entries.set ip entry }.scheduleExpiry ip entry) := by
  refine Expiring.schedule (Expiring.write h rfl ?_ (fun _ _ => rfl) fun _ hk => hk) ?_
  · exact fun ip' hne => Dict.get?_set_of_ne _ (Ne.symm hne) _
  · exact Dict.get?_set_self _ _ _

theorem Expiring.observe {ip : Address} {start delta : ℤ} {change : Option WindowChange}
    (h : Expiring ∅ w) (hr : w.observe ip start delta now = .ok (change, w')) : Expiring ∅ w' := by
  obtain ⟨-, rfl, -⟩ | ⟨c, c', entry', -, -, -, -, -, rfl⟩ | ⟨entry, c', entry', -, -, -, -, rfl⟩ :=
    observe_inv hr
  · exact h
  · have hroom := h.forget (evictForCapacity_forgets w)
    obtain ⟨hheap, hscheduled⟩ := scheduleLastSeen_expiry
      { w.evictForCapacity with entries := w.evictForCapacity.entries.set ip entry' } ip entry'
    refine Expiring.schedule (Expiring.write hroom hheap (fun ip' hne => ?_) (fun ip' _ => ?_) ?_) ?_
    · rw [track_entries]
      exact Dict.get?_set_of_ne _ (Ne.symm hne) _
    · exact congrArg (Dict.get? · ip') hscheduled
    · intro k hk
      exact (congrArg (Dict.get? · ip) hscheduled).symm.trans hk
    · rw [track_entries]
      exact Dict.get?_set_self _ _ _
  · exact h.set ip entry'

theorem Expiring.setState {ip : Address} {state : IpState} (h : Expiring ∅ w)
    (hr : w.setState ip state = .ok w') : Expiring ∅ w' := by
  -- The state, the flag and the retention item change, the counter does not.
  have written : ∀ entry entry', w.entries.get? ip = some entry → entry'.counter = entry.counter →
      Expiring ∅ { w with entries := w.entries.set ip entry' } := by
    intro entry entry' hget hcounter
    refine h.keep rfl rfl fun ip' entry'' hget' => ?_
    dsimp only at hget'
    rw [Dict.get?_set] at hget'
    split_ifs at hget' with hip
    · cases hget'
      exact ⟨entry, hip ▸ hget, hcounter⟩
    · exact ⟨entry'', hget', rfl⟩
  unfold ShardWindow.setState at hr
  split at hr
  · cases hr
  · next entry hget =>
    cases state with
    | hot =>
      cases hr
      exact written entry _ hget rfl
    | cold =>
      cases hr
      obtain ⟨hheap, hscheduled⟩ := scheduleLastSeen_expiry
        { w with entries := w.entries.set ip { entry with state := .cold, inherited := false } } ip
        { entry with state := .cold, inherited := false }
      refine (written entry { entry with state := .cold, inherited := false } hget rfl).keep hheap
        hscheduled fun ip' entry'' hget' => ?_
      rw [scheduleLastSeen_entries] at hget'
      exact ⟨entry'', hget', rfl⟩

theorem Expiring.finishWarmupIfDue (h : Expiring ∅ w) (now : ℤ) :
    Expiring ∅ (w.finishWarmupIfDue now).2 := by
  obtain hsame | hsame := w.finishWarmupIfDue_snd now
  · rw [hsame]
    exact h
  · rw [hsame]
    refine h.keep rfl rfl fun ip entry' hget => ?_
    rw [get?_finishWarmup, Option.map_eq_some_iff] at hget
    obtain ⟨entry, hentry, rfl⟩ := hget
    exact ⟨entry, hentry, rfl⟩

theorem Expiring.rebuildEntry (config : DetectionConfig) (now : ℤ) (item : Address × Entry)
    (h : Expiring ∅ w) : Expiring ∅ (Program.after (rebuildEntry config now item w)) := by
  unfold ShardWindow.rebuildEntry
  split
  · exact h
  · refine Expiring.schedule (Expiring.write h rfl (fun ip hne => ?_) (fun ip hne => ?_) ?_) ?_
    · exact Dict.get?_set_of_ne _ (Ne.symm hne) _
    · dsimp only
      rw [Dict.get?_erase, if_neg (Ne.symm hne)]
    · intro k hk
      dsimp only at hk
      rw [Dict.get?_erase, if_pos rfl] at hk
      cases hk
    · exact Dict.get?_set_self _ _ _

theorem Expiring.applyConfig (config : DetectionConfig) (now : ℤ) (h : Expiring ∅ w) :
    Expiring ∅ (Program.after (ShardWindow.applyConfig config now w)) := by
  have hadopted : Expiring ∅ { w with config := config } :=
    h.keep rfl rfl fun _ entry hget => ⟨entry, hget, rfl⟩
  unfold ShardWindow.applyConfig
  split_ifs
  · let Keeps (w₁ w₂ : ShardWindow) : Prop := Expiring ∅ w₁ → Expiring ∅ w₂
    have : Std.Refl Keeps := ⟨fun _ h₁ => h₁⟩
    have : IsTrans ShardWindow Keeps := ⟨fun _ _ _ h₁ h₂ hw => h₂ (h₁ hw)⟩
    have hentry : ∀ item, Program.Within Keeps (ShardWindow.rebuildEntry config now item) :=
      fun item _ h₁ => Expiring.rebuildEntry config now item h₁
    have hloop : Program.Within Keeps (rebuildAll config now) := fun w₁ =>
      Program.Within.forM w₁.entries.items (fun item _ => hentry item) w₁
    exact hloop _ hadopted
  · exact hadopted

/-! ### Sweeps -/

/-- What a turn of the sweep does: it discards an item that was superseded or whose IP is gone, or it
sweeps the counter of the item's IP and schedules what is left. -/
theorem expireNext_some {change : List WindowChange} (h : w.expireNext now = some (change, w')) :
    ∃ item rest, w.expiryHeap = item :: rest ∧ item.key ≤ now ∧
      ((change = [] ∧ w.expiryScheduled.get? item.ip ≠ some item.key ∧
          w' = { w with expiryHeap := rest }) ∨
        (change = [] ∧ w.expiryScheduled.get? item.ip = some item.key ∧
          w.entries.get? item.ip = none ∧
          w' = { w with
            expiryHeap := rest, expiryScheduled := w.expiryScheduled.erase item.ip }) ∨
        ∃ entry entry', w.expiryScheduled.get? item.ip = some item.key ∧
          w.entries.get? item.ip = some entry ∧
          entry' = { entry with counter := (entry.counter.expire now).2 } ∧
          change = (if (entry.counter.expire now).1 = 0 then [] else
            [⟨item.ip, entry.state, entry.counter.total, entry'.counter.total⟩]) ∧
          w' = { w with
            expiryHeap := rest
            expiryScheduled := w.expiryScheduled.erase item.ip
            entries := w.entries.set item.ip entry' }.scheduleExpiry item.ip entry') := by
  unfold expireNext at h
  split at h
  · cases h
  · next item rest hheap =>
    split_ifs at h with hdue hstale
    · cases h
      exact ⟨item, rest, hheap, hdue, Or.inl ⟨rfl, hstale, rfl⟩⟩
    · refine ⟨item, rest, hheap, hdue, Or.inr ?_⟩
      have hscheduled := not_not.mp hstale
      dsimp only at h
      split at h
      · next hnone =>
        cases h
        exact Or.inl ⟨rfl, hscheduled, hnone, rfl⟩
      · next entry hentry =>
        refine Or.inr ⟨entry, _, hscheduled, hentry, rfl, ?_⟩
        split_ifs at h with hzero
        · cases h
          exact ⟨(if_pos hzero).symm, rfl⟩
        · cases h
          exact ⟨(if_neg hzero).symm, rfl⟩

/-- What a sweep has done to an IP so far: nothing, and nothing is reported of it; or its counter was
swept, what is scheduled of it is not due, and its change is reported if its total dropped. -/
def SweptIp (now : ℤ) (w w' : ShardWindow) (changes : List WindowChange) (ip : Address) : Prop :=
  (w'.entries.get? ip = w.entries.get? ip ∧ changes.filter (·.ip = ip) = []) ∨
    ∃ entry entry', w.entries.get? ip = some entry ∧
      entry' = { entry with counter := (entry.counter.expire now).2 } ∧
      w'.entries.get? ip = some entry' ∧
      (∀ k, w'.expiryScheduled.get? ip = some k → now < k) ∧
      changes.filter (·.ip = ip) = if (entry.counter.expire now).1 = 0 then [] else
        [⟨ip, entry.state, entry.counter.total, entry'.counter.total⟩]

/-- The sweep of `expire_due` after some turns. -/
structure Sweep (now : ℤ) (w w' : ShardWindow) (changes : List WindowChange) : Prop where
  expiring : Expiring ∅ w'
  swept : ∀ ip, SweptIp now w w' changes ip

/-- The expiry of an IP with nothing scheduled becomes its next one. -/
theorem scheduleExpiry_get? {ip : Address} {entry : Entry}
    (h : w.expiryScheduled.get? ip = none) (ip' : Address) :
    (w.scheduleExpiry ip entry).expiryScheduled.get? ip' =
      if ip = ip' then entry.counter.nextExpiry else w.expiryScheduled.get? ip' := by
  unfold scheduleExpiry
  split
  next hnone =>
    split_ifs with hip
    · rw [← hip, h, hnone]
    · rfl
  next expiresAt hsome =>
    rw [h, hsome]
    exact Dict.get?_set _ _ _ _

theorem scheduleExpiry_heap (w : ShardWindow) (ip : Address) (entry : Entry) :
    (w.scheduleExpiry ip entry).expiryHeap = w.expiryHeap ∨
      ∃ e tieBreak, entry.counter.nextExpiry = some e ∧
        (w.scheduleExpiry ip entry).expiryHeap = heappush w.expiryHeap ⟨e, tieBreak, ip⟩ := by
  unfold scheduleExpiry
  split
  · exact Or.inl rfl
  next expiresAt hsome =>
    split_ifs
    · exact Or.inl rfl
    · exact Or.inr ⟨expiresAt, w.tieBreak, hsome, rfl⟩

/-- The items that are due. -/
def dueItems (w : ShardWindow) (now : ℤ) : ℕ := w.expiryHeap.countP (·.key ≤ now)

/-- What is scheduled at another time than the first item's, or for another IP, is on the rest of the
heap. -/
theorem Expiring.pending_rest {item : HeapItem} {rest : List HeapItem} (h : Expiring ∅ w)
    (hheap : w.expiryHeap = item :: rest) {ip : Address} {k : ℤ}
    (hk : w.expiryScheduled.get? ip = some k) (hother : ¬ (item.ip = ip ∧ item.key = k)) :
    ∃ item' ∈ rest, item'.ip = ip ∧ item'.key = k := by
  obtain ⟨item', hmem, hitem'⟩ := h.pending ip k hk
  rw [hheap] at hmem
  obtain rfl | hmem := List.mem_cons.mp hmem
  · exact absurd hitem' hother
  · exact ⟨item', hmem, hitem'⟩

/-- Taking an item off the heap with what is scheduled of its IP leaves only that IP to schedule. -/
theorem Expiring.pop {item : HeapItem} {rest : List HeapItem} (h : Expiring ∅ w)
    (hheap : w.expiryHeap = item :: rest) {entries : Dict Address Entry}
    (hentries : ∀ ip, ip ≠ item.ip → entries.get? ip = w.entries.get? ip) :
    Expiring {item.ip} { w with
      expiryHeap := rest
      expiryScheduled := w.expiryScheduled.erase item.ip
      entries := entries } := by
  have hsorted := h.sorted
  rw [hheap] at hsorted
  refine ⟨(List.pairwise_cons.mp hsorted).2, fun ip k hk => ?_, fun ip hip entry e hget he => ?_⟩
  · dsimp only at hk
    rw [Dict.get?_erase] at hk
    split_ifs at hk with hip
    exact h.pending_rest hheap hk fun hsame => hip hsame.1
  · have hne : ip ≠ item.ip := hip
    dsimp only at hget ⊢
    rw [hentries ip hne] at hget
    rw [Dict.get?_erase, if_neg hne.symm]
    exact h.covers ip (Set.notMem_empty ip) entry e hget he

/-- The turn that sweeps the counter of a due item's IP. -/
theorem Sweep.expire {w₁ : ShardWindow} {changes change : List WindowChange}
    (h : Sweep now w w₁ changes) {item : HeapItem} {rest : List HeapItem}
    (hheap : w₁.expiryHeap = item :: rest) (hdue : item.key ≤ now) {entry entry' : Entry}
    (hscheduled : w₁.expiryScheduled.get? item.ip = some item.key)
    (hentry : w₁.entries.get? item.ip = some entry)
    (hentry' : entry' = { entry with counter := (entry.counter.expire now).2 })
    (hchange : change = if (entry.counter.expire now).1 = 0 then [] else
      [⟨item.ip, entry.state, entry.counter.total, entry'.counter.total⟩]) {popped : ShardWindow}
    (hpopped : popped = { w₁ with
      expiryHeap := rest
      expiryScheduled := w₁.expiryScheduled.erase item.ip
      entries := w₁.entries.set item.ip entry' }) :
    Sweep now w (popped.scheduleExpiry item.ip entry') (changes ++ change) ∧
      (popped.scheduleExpiry item.ip entry').dueItems now = rest.countP (·.key ≤ now) := by
  -- The item's IP was not swept before: it would not be due.
  have huntouched : w₁.entries.get? item.ip = w.entries.get? item.ip ∧
      changes.filter (·.ip = item.ip) = [] := by
    obtain huntouched | ⟨-, -, -, -, -, hlater, -⟩ := h.swept item.ip
    · exact huntouched
    · exact absurd (hlater _ hscheduled) (not_lt.mpr hdue)
  have hnothing : popped.expiryScheduled.get? item.ip = none := by
    rw [hpopped]
    dsimp only
    rw [Dict.get?_erase, if_pos rfl]
  have hself : popped.entries.get? item.ip = some entry' := by
    rw [hpopped]
    exact Dict.get?_set_self _ _ _
  have hexpiring : Expiring {item.ip} popped := by
    rw [hpopped]
    exact h.expiring.pop hheap fun ip hne => Dict.get?_set_of_ne _ hne.symm _
  have hlater : ∀ e, entry'.counter.nextExpiry = some e → now < e := by
    intro e he
    rw [hentry'] at he
    exact IpCounter.lt_nextExpiry_expire he
  refine ⟨⟨hexpiring.schedule hself, fun ip => ?_⟩, ?_⟩
  · unfold SweptIp
    rw [scheduleExpiry_entries, scheduleExpiry_get? hnothing, List.filter_append]
    by_cases hip : item.ip = ip
    · subst hip
      refine Or.inr ⟨entry, entry', huntouched.1 ▸ hentry, hentry', hself, fun k hk => ?_, ?_⟩
      · rw [if_pos rfl] at hk
        exact hlater k hk
      · rw [huntouched.2, List.nil_append, hchange]
        split_ifs
        · rfl
        · simp
    -- Nothing is reported of another IP, and nothing about it changes.
    · have hnone : change.filter (·.ip = ip) = [] := by
        rw [hchange]
        split_ifs
        · rfl
        · simp [hip]
      have hsame : popped.entries.get? ip = w₁.entries.get? ip := by
        rw [hpopped]
        exact Dict.get?_set_of_ne _ hip _
      have hkept : popped.expiryScheduled.get? ip = w₁.expiryScheduled.get? ip := by
        rw [hpopped]
        dsimp only
        rw [Dict.get?_erase, if_neg hip]
      rw [hnone, List.append_nil, hsame, hkept]
      simp only [if_neg hip]
      exact h.swept ip
  -- The item that is pushed is not due yet.
  · have hpoppedHeap : popped.expiryHeap = rest := by rw [hpopped]
    unfold dueItems
    obtain hsame | ⟨e, tieBreak, he, hpushed⟩ := scheduleExpiry_heap popped item.ip entry'
    · rw [hsame, hpoppedHeap]
    · rw [hpushed, hpoppedHeap, (heappush_perm rest _).countP_eq,
        List.countP_cons_of_neg (by simpa using hlater e he)]

/-- A turn keeps the sweep, and one item less is due after it. -/
theorem Sweep.turn {w₁ w₂ : ShardWindow} {changes change : List WindowChange}
    (h : Sweep now w w₁ changes) (hnext : w₁.expireNext now = some (change, w₂)) :
    Sweep now w w₂ (changes ++ change) ∧ w₂.dueItems now + 1 = w₁.dueItems now := by
  obtain ⟨item, rest, hheap, hdue, hcases⟩ := expireNext_some hnext
  have hcount : rest.countP (·.key ≤ now) + 1 = w₁.dueItems now := by
    unfold dueItems
    rw [hheap, List.countP_cons_of_pos (by simpa using hdue)]
  have hsorted := h.expiring.sorted
  rw [hheap] at hsorted
  have hrest := (List.pairwise_cons.mp hsorted).2
  obtain ⟨rfl, hstale, rfl⟩ | ⟨rfl, hscheduled, hnone, rfl⟩ |
    ⟨entry, entry', hscheduled, hentry, hentry', hchange, rfl⟩ := hcases
  -- An item that was superseded is dropped.
  · rw [List.append_nil]
    refine ⟨⟨⟨hrest, fun ip k hk => h.expiring.pending_rest hheap hk ?_, h.expiring.covers⟩, h.swept⟩,
      hcount⟩
    rintro ⟨rfl, rfl⟩
    exact hstale hk
  -- So is one whose IP is gone, with what is scheduled of it.
  · rw [List.append_nil]
    have hpop := h.expiring.pop hheap fun ip _ => rfl
    refine ⟨⟨⟨hpop.sorted, hpop.pending, fun ip hip entry e hget he => ?_⟩, fun ip => ?_⟩, hcount⟩
    · refine hpop.covers ip ?_ entry e hget he
      rintro rfl
      rw [hnone] at hget
      cases hget
    · obtain huntouched | ⟨old, old', hold, hold', hnew, hlater, hreport⟩ := h.swept ip
      · exact Or.inl huntouched
      · refine Or.inr ⟨old, old', hold, hold', hnew, fun k hk => ?_, hreport⟩
        dsimp only at hk
        rw [Dict.get?_erase] at hk
        split_ifs at hk
        exact hlater k hk
  · obtain ⟨hsweep, hdueItems⟩ := h.expire hheap hdue hscheduled hentry hentry' hchange rfl
    exact ⟨hsweep, hdueItems ▸ hcount⟩

/-- With fuel for the items that are due, the loop ends with none left. -/
theorem Sweep.loop {w₁ : ShardWindow} {changes : List WindowChange} (h : Sweep now w w₁ changes)
    {fuel : ℕ} (hfuel : w₁.dueItems now ≤ fuel) :
    Sweep now w (expireLoop now fuel w₁ changes).2 (expireLoop now fuel w₁ changes).1 ∧
      ∀ item ∈ (expireLoop now fuel w₁ changes).2.expiryHeap, now < item.key := by
  induction fuel generalizing w₁ changes with
  | zero =>
    refine ⟨h, fun item hitem => ?_⟩
    have hnone := List.countP_eq_zero.mp (Nat.le_zero.mp hfuel) item hitem
    simpa using hnone
  | succ fuel ih =>
    unfold expireLoop
    cases hnext : w₁.expireNext now with
    | some turn =>
      obtain ⟨change, w₂⟩ := turn
      obtain ⟨hturn, hcount⟩ := h.turn hnext
      exact ih hturn (by omega)
    | none =>
      refine ⟨h, fun item hitem => ?_⟩
      -- The heap is sorted, and its first item is not due.
      have hsorted := h.expiring.sorted
      unfold expireNext at hnext
      split at hnext
      next hheap =>
        dsimp only at hitem
        rw [hheap] at hitem
        cases hitem
      next first rest hheap =>
        have hfirst : now < first.key := by
          by_contra hle
          rw [if_pos (not_lt.mp hle)] at hnext
          split_ifs at hnext
          dsimp only at hnext
          split at hnext
          · cases hnext
          · split_ifs at hnext
        dsimp only at hitem
        rw [hheap] at hitem hsorted
        obtain rfl | hrest := List.mem_cons.mp hitem
        · exact hfirst
        · have hbefore := (List.pairwise_cons.mp hsorted).1 item hrest
          exact lt_of_lt_of_le hfirst (HeapItem.key_le_of_before hbefore)

theorem Expiring.expireDue (h : Expiring ∅ w) (now : ℤ) :
    Sweep now w (w.expireDue now).2 (w.expireDue now).1 ∧
      ∀ item ∈ (w.expireDue now).2.expiryHeap, now < item.key :=
  Sweep.loop ⟨h, fun _ => Or.inl ⟨rfl, rfl⟩⟩ List.countP_le_length

/-- Every call keeps the expiry schedule. -/
theorem Expiring.call (h : Expiring ∅ w) (now : ℤ) (call : Call) : Expiring ∅ (w.call now call) := by
  cases call with
  | observe ip start delta =>
    unfold ShardWindow.call
    dsimp only
    cases hr : w.observe ip start delta now with
    | error e => exact h
    | ok r => exact Expiring.observe h hr
  | setState ip state =>
    unfold ShardWindow.call
    dsimp only
    cases hr : w.setState ip state with
    | error e => exact h
    | ok w' => exact Expiring.setState h hr
  | expireDue => exact (h.expireDue now).1.expiring
  | evictDue => exact h.forget (evictDue_forgets w now)
  | finishWarmupIfDue => exact h.finishWarmupIfDue now
  | applyConfig config => exact h.applyConfig config now

/-- What an empty window has and tracking an inherited IP keeps, a new window has. -/
theorem make_invariant {I : ShardWindow → Prop} {shard nextSequence : ℕ} {config : DetectionConfig}
    {maxTrackedIps : ℤ} {ips : List Address}
    (hempty : ∀ w, w.entries = .empty → w.expiryHeap = [] → w.expiryScheduled = .empty →
      w.lastSeenHeap = [] → w.lastSeenScheduled = .empty → I w)
    (htrack : ∀ w ip counter, newCounter w.config = .ok counter → I w →
      I (w.track ip ⟨counter, .hot, now, true⟩))
    (hwarm : ∀ w warmUntil, I w → I { w with warmUntil := warmUntil })
    (h : make shard config now ips nextSequence maxTrackedIps = .ok w) : I w := by
  have tracked : ∀ ips (w₁ w₂ : ShardWindow), trackInherited now ips w₁ = .ok w₂ → I w₁ → I w₂ := by
    intro ips
    induction ips with
    | nil =>
      intro w₁ w₂ hr hw₁
      cases hr
      exact hw₁
    | cons ip rest ih =>
      intro w₁ w₂ hr hw₁
      unfold trackInherited at hr
      cases hc : newCounter w₁.config with
      | error e =>
        rw [hc] at hr
        cases hr
      | ok counter =>
        rw [hc] at hr
        exact ih _ w₂ hr (htrack w₁ ip counter hc hw₁)
  unfold make at h
  split_ifs at h
  generalize hblank : ({ shard := shard, nextSequence := nextSequence, capacityEvictions := 0,
                         retentionEvictions := 0, config := config, maxTrackedIps := maxTrackedIps,
                         entries := .empty, tieBreak := 0, expiryHeap := [],
                         expiryScheduled := .empty, lastSeenHeap := [],
                         lastSeenScheduled := .empty, warmUntil := none } : ShardWindow) = blank at h
  cases ht : trackInherited now ips blank with
  | error e =>
    rw [ht] at h
    cases h
  | ok w₁ =>
    rw [ht] at h
    cases h
    subst hblank
    exact hwarm w₁ _ (tracked ips _ w₁ ht (hempty _ rfl rfl rfl rfl rfl))

/-- An IP that was inherited has an empty ring, and nothing to expire. -/
theorem Expiring.trackInherited {ip : Address} {counter : IpCounter} {config : DetectionConfig}
    (hc : newCounter config = .ok counter) (h : Expiring ∅ w) :
    Expiring ∅ (w.track ip ⟨counter, .hot, now, true⟩) := by
  obtain ⟨hheap, hscheduled⟩ := scheduleLastSeen_expiry
    { w with entries := w.entries.set ip ⟨counter, .hot, now, true⟩ } ip ⟨counter, .hot, now, true⟩
  refine ⟨?_, fun ip' k hk => ?_, fun ip' hip' entry e hget he => ?_⟩
  · exact hheap.symm ▸ h.sorted
  · have hk' := (congrArg (Dict.get? · ip') hscheduled).symm.trans hk
    obtain ⟨item, hitem⟩ := h.pending ip' k hk'
    exact ⟨item, hheap.symm ▸ hitem⟩
  · rw [track_entries, Dict.get?_set] at hget
    split_ifs at hget with hip
    · cases hget
      obtain ⟨start, hheld, -⟩ := IpCounter.nextExpiry_eq he
      have hzero : counter.held start = 0 :=
        if_neg (by rw [(newCounter_empty hc).2]; exact fun hsome => by cases hsome)
      exact absurd hheld (by rw [hzero]; exact lt_irrefl _)
    · obtain ⟨k, hk, hle⟩ := h.covers ip' hip' entry e hget he
      exact ⟨k, (congrArg (Dict.get? · ip') hscheduled).trans hk, hle⟩

theorem expiring_make {shard nextSequence : ℕ} {config : DetectionConfig} {maxTrackedIps : ℤ}
    {ips : List Address} (h : make shard config now ips nextSequence maxTrackedIps = .ok w) :
    Expiring ∅ w := by
  refine make_invariant (fun w hentries hheap hscheduled _ _ => ?_)
    (fun w ip counter hc hw => hw.trackInherited hc)
    (fun w _ hw => ⟨hw.sorted, hw.pending, hw.covers⟩) h
  refine ⟨by rw [hheap]; exact List.Pairwise.nil, fun ip k hk => ?_, fun ip _ entry e hget _ => ?_⟩
  · rw [hscheduled] at hk
    cases hk
  · rw [hentries] at hget
    cases hget

/-- Of every window that calls reached under a clock that does not run backwards: after
`expire_due` no tracked IP counts a bucket that is not live, and what is reported of an IP is its one
change, if its total dropped, and nothing otherwise. An IP keeps all but its counter, and its total
drops by what was counted in buckets that are not live. -/
theorem expireDue_complete {shard nextSequence : ℕ} {config : DetectionConfig} {t maxTrackedIps : ℤ}
    {ips : List Address} {w₀ w : ShardWindow}
    (hmake : make shard config t ips nextSequence maxTrackedIps = .ok w₀) (calls : List (ℤ × Call))
    (hclock : (t :: calls.map Prod.fst).Pairwise (· ≤ ·)) (hw : w = w₀.run calls) (now : ℤ)
    (hnow : ∀ time ∈ t :: calls.map Prod.fst, time ≤ now) :
    (∀ ip entry, (w.expireDue now).2.entries.get? ip = some entry →
      ∀ i start, entry.counter.starts i = some start → entry.counter.counts i ≠ 0 →
        entry.counter.isLive start now = true) ∧
    ∀ ip,
      ((w.expireDue now).1.filter (·.ip = ip) =
        if (w.expireDue now).2.total ip < w.total ip then
          [⟨ip, w.state ip, w.total ip, (w.expireDue now).2.total ip⟩] else []) ∧
      (w.entries.get? ip = none → (w.expireDue now).2.entries.get? ip = none) ∧
      ∀ entry, w.entries.get? ip = some entry →
        ∃ counter, (w.expireDue now).2.entries.get? ip = some { entry with counter := counter } ∧
          entry.counter.total - counter.total = entry.counter.expiredCount now := by
  have hexpiring : Expiring ∅ w := by
    rw [hw]
    exact invariant_foldl (I := Expiring ∅) (fun _ call h => h.call call.1 call.2)
      (expiring_make hmake) calls
  have htimely : w.Timely now := hw ▸ timely_run hmake hclock hnow
  obtain ⟨⟨hexpiring', hswept⟩, hlater⟩ := hexpiring.expireDue now
  have htimely' : (w.expireDue now).2.Timely now := htimely.call (le_refl now) .expireDue
  have live : ∀ ip entry, (w.expireDue now).2.entries.get? ip = some entry →
      ∀ i start, entry.counter.starts i = some start → entry.counter.counts i ≠ 0 →
        entry.counter.isLive start now = true := by
    intro ip entry hget i start hi hne
    have hpos : 0 < entry.counter.counts i := lt_of_le_of_ne (entry.counter.counts_nonneg i) hne.symm
    obtain ⟨e, he, hle⟩ := IpCounter.nextExpiry_le hi hpos
    obtain ⟨k, hk, hke⟩ := hexpiring'.covers ip (Set.notMem_empty ip) entry e hget he
    obtain ⟨item, hitem, -, hkey⟩ := hexpiring'.pending ip k hk
    have hnow' := hlater item hitem
    obtain ⟨hpast, hseen⟩ := htimely' ip entry hget
    have hstart := hpast i start hi
    exact (IpCounter.isLive_iff (entry.counter.aligned i start hi)).mpr (by omega)
  refine ⟨live, fun ip => ?_⟩
  obtain ⟨hsame, hnone⟩ | ⟨entry, entry', hentry, hentry', hnew, -, hreport⟩ := hswept ip
  · refine ⟨?_, fun hget => hsame.trans hget, fun entry hget => ?_⟩
    · rw [hnone, total_congr hsame, if_neg (lt_irrefl _)]
    · refine ⟨entry.counter, hsame.trans hget, ?_⟩
      rw [sub_self]
      -- Nothing that is counted has left the window.
      refine (Finset.sum_eq_zero fun i _ => ?_).symm
      split_ifs with hexpired
      · by_contra hne
        unfold IpCounter.expired at hexpired
        split at hexpired
        · cases hexpired
        next start hi =>
          rw [live ip entry (hsame.trans hget) i start hi hne] at hexpired
          cases hexpired
      · rfl
  · have htotal : entry'.counter.total = entry.counter.total - (entry.counter.expire now).1 := by
      rw [hentry']
      exact entry.counter.expire_total now
    refine ⟨?_, fun hget => ?_, fun entry₁ hget => ?_⟩
    · rw [hreport, total_of_get? hnew, total_of_get? hentry, state_of_get? hentry]
      have hnonneg := entry.counter.expire_fst_nonneg now
      by_cases hzero : (entry.counter.expire now).1 = 0
      · rw [if_pos hzero, if_neg (by omega)]
      · rw [if_neg hzero, if_pos (by omega)]
    · rw [hget] at hentry
      cases hentry
    · rw [hentry] at hget
      cases hget
      refine ⟨_, hentry' ▸ hnew, ?_⟩
      rw [IpCounter.expire_total, sub_sub_cancel]
      rfl

/-- A bucket that has left the window is swept with its one change reported. -/
theorem expireDue_complete_default : ∃ w₀, make 0 Ingest.defaultConfig 0 [] 0 1000 = .ok w₀ ∧
    ((w₀.run [(5, .observe ⟨.ipv4, 1, by decide⟩ 0 5)]).expireDue 1000).1.filter
        (·.ip = ⟨.ipv4, 1, by decide⟩) =
      [⟨⟨.ipv4, 1, by decide⟩, .cold, 5, 0⟩] := by
  have hcomplete := (expireDue_complete
    (show make 0 Ingest.defaultConfig 0 [] 0 1000 = .ok _ from rfl)
    [(5, .observe ⟨.ipv4, 1, by decide⟩ 0 5)] (by decide) rfl 1000 (by decide)).2
      ⟨.ipv4, 1, by decide⟩
  exact ⟨_, rfl, hcomplete.1⟩

end ShardWindow

end Hammertime.Aggregator
