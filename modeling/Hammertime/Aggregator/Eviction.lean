import Hammertime.Aggregator.Expiry

/-!
# Retention and capacity

Every tracked IP has one item on the `last_seen` heap, and its key is not later than the IP was last
seen (`Queued`). A key may be stale, and both sweeps correct it in place: they push the item back with
the entry's own value, set the items of HOT IPs aside, and stop at the first fresh key that answers
their question. Since a stale key is too small and never too large, a fresh key at the front is the
least of all that are not set aside; this is why a retention sweep may stop at the first key behind
its deadline and why the first COLD entry that a search for room meets is the least recently seen.

A search ends because an item is corrected once at most before it leaves the heap (`turnsLeft`).
-/

namespace Hammertime.Aggregator

open Lib

/-- The entry is COLD and was not seen after the deadline. -/
def Entry.Idle (entry : Entry) (deadline : ℤ) : Prop :=
  entry.state = .cold ∧ entry.lastSeen ≤ deadline

instance (entry : Entry) (deadline : ℤ) : Decidable (entry.Idle deadline) :=
  inferInstanceAs (Decidable (_ ∧ _))

namespace ShardWindow

/-- The retention schedule of a window, with the items of `deferred` set aside: every tracked IP has
one item, its key is not later than it was last seen, and what was set aside is HOT. -/
structure Queued (w : ShardWindow) (deferred : List HeapItem) : Prop where
  sorted : w.lastSeenHeap.Pairwise HeapItem.before
  nodup : ((w.lastSeenHeap ++ deferred).map HeapItem.ip).Nodup
  tracked : ∀ ip, ip ∈ (w.lastSeenHeap ++ deferred).map HeapItem.ip ↔
    ∃ entry, w.entries.get? ip = some entry
  scheduled : ∀ ip, w.lastSeenScheduled.contains ip = true ↔ ∃ entry, w.entries.get? ip = some entry
  early : ∀ item ∈ w.lastSeenHeap ++ deferred, ∀ entry, w.entries.get? item.ip = some entry →
    item.key ≤ entry.lastSeen
  hot : ∀ item ∈ deferred, w.state item.ip = .hot

variable {w w' : ShardWindow} {deferred rest : List HeapItem} {item : HeapItem} {entry : Entry}
  {now : ℤ}

/-! ### Turns of a sweep -/

namespace Queued

/-- Every item is of a tracked IP. -/
theorem exists_entry (h : Queued w deferred) (hheap : w.lastSeenHeap = item :: rest) :
    ∃ entry, w.entries.get? item.ip = some entry := by
  refine (h.tracked item.ip).mp (List.mem_map_of_mem ?_)
  rw [hheap]
  exact List.mem_cons_self

/-- No COLD IP was seen less recently than the first item's, if the key of that is fresh. -/
theorem least (h : Queued w deferred) (hheap : w.lastSeenHeap = item :: rest) {ip : Address}
    (hget : w.entries.get? ip = some entry) (hcold : entry.state = .cold) :
    item.key ≤ entry.lastSeen := by
  obtain ⟨other, hmem, rfl⟩ := List.mem_map.mp ((h.tracked ip).mpr ⟨entry, hget⟩)
  refine le_trans ?_ (h.early other hmem entry hget)
  obtain hmem | hmem := List.mem_append.mp hmem
  · have hsorted := h.sorted
    rw [hheap] at hmem hsorted
    obtain rfl | hrest := List.mem_cons.mp hmem
    · exact le_refl _
    · exact HeapItem.key_le_of_before ((List.pairwise_cons.mp hsorted).1 other hrest)
  · have hhot := h.hot other hmem
    rw [state_of_get? hget, hcold] at hhot
    cases hhot

/-- With the heap used up, every tracked IP is HOT. -/
theorem all_hot (h : Queued w deferred) (hheap : w.lastSeenHeap = []) {ip : Address}
    (hget : w.entries.get? ip = some entry) : entry.state = .hot := by
  obtain ⟨item, hmem, rfl⟩ := List.mem_map.mp ((h.tracked ip).mpr ⟨entry, hget⟩)
  rw [hheap, List.nil_append] at hmem
  rw [← state_of_get? hget]
  exact h.hot item hmem

/-- So nothing is left that is idle. -/
theorem not_idle (h : Queued w deferred) (hheap : w.lastSeenHeap = []) {ip : Address}
    (hget : w.entries.get? ip = some entry) (deadline : ℤ) : ¬ entry.Idle deadline := by
  intro hidle
  have hhot := h.all_hot hheap hget
  rw [hidle.1] at hhot
  cases hhot

/-- The items of another order of the heap, or with some set aside or put back. -/
theorem permute {heap deferred' : List HeapItem} (h : Queued w deferred)
    (hperm : (heap ++ deferred').Perm (w.lastSeenHeap ++ deferred))
    (hsorted : heap.Pairwise HeapItem.before)
    (hhot : ∀ item ∈ deferred', w.state item.ip = .hot) :
    Queued { w with lastSeenHeap := heap } deferred' :=
  { sorted := hsorted
    nodup := (hperm.map HeapItem.ip).nodup_iff.mpr h.nodup
    tracked := fun ip => (hperm.map HeapItem.ip).mem_iff.trans (h.tracked ip)
    scheduled := h.scheduled
    early := fun item hitem => h.early item (hperm.mem_iff.mp hitem)
    hot := hhot }

/-- A stale key is corrected. -/
theorem refresh (h : Queued w deferred) (hheap : w.lastSeenHeap = item :: rest)
    (hget : w.entries.get? item.ip = some entry) :
    Queued { w with
      lastSeenHeap := heappush rest { item with key := entry.lastSeen }
      lastSeenScheduled := w.lastSeenScheduled.set item.ip entry.lastSeen } deferred := by
  obtain ⟨hsorted, hnodup, htracked, hscheduled, hearly, hhot⟩ := h
  rw [hheap] at hsorted hnodup htracked hearly
  have hperm : (heappush rest { item with key := entry.lastSeen } ++ deferred).Perm
      ({ item with key := entry.lastSeen } :: (rest ++ deferred)) :=
    (heappush_perm rest _).append_right deferred
  have hips := hperm.map HeapItem.ip
  refine ⟨heappush_sorted (List.pairwise_cons.mp hsorted).2 _, hips.nodup_iff.mpr hnodup,
    fun ip => hips.mem_iff.trans (htracked ip), fun ip => ?_, fun item' hitem' entry' hget' => ?_, hhot⟩
  · unfold Dict.contains at hscheduled ⊢
    dsimp only
    rw [Dict.get?_set]
    split_ifs with hip
    · rw [← hip]
      exact ⟨fun _ => ⟨entry, hget⟩, fun _ => rfl⟩
    · exact hscheduled ip
  · obtain rfl | hrest := List.mem_cons.mp (hperm.mem_iff.mp hitem')
    · rw [show w.entries.get? item.ip = some entry' from hget'] at hget
      cases hget
      exact le_refl _
    · exact hearly item' (List.mem_cons_of_mem _ hrest) entry' hget'

/-- The item of a HOT IP is set aside. -/
theorem defer (h : Queued w deferred) (hheap : w.lastSeenHeap = item :: rest)
    (hget : w.entries.get? item.ip = some entry) (hhot : entry.state = .hot) :
    Queued { w with lastSeenHeap := rest } (deferred ++ [item]) := by
  have hsorted := h.sorted
  rw [hheap] at hsorted
  refine h.permute ?_ (List.pairwise_cons.mp hsorted).2 fun item' hitem' => ?_
  · rw [hheap, ← List.append_assoc]
    exact List.perm_append_singleton _ _
  · obtain hold | hnew := List.mem_append.mp hitem'
    · exact h.hot item' hold
    · rw [List.mem_singleton.mp hnew, state_of_get? hget, hhot]

/-- An IP is dropped with its item. -/
theorem drop (h : Queued w deferred) (hheap : w.lastSeenHeap = item :: rest)
    (hheap' : w'.lastSeenHeap = rest) (hentries : w'.entries = w.entries.erase item.ip)
    (hscheduled : w'.lastSeenScheduled = w.lastSeenScheduled.erase item.ip) :
    Queued w' deferred := by
  have hsorted := h.sorted
  have hnodup := h.nodup
  rw [hheap] at hsorted hnodup
  obtain ⟨hgone, hnodup'⟩ := List.nodup_cons.mp hnodup
  have hget : ∀ ip, w'.entries.get? ip = if item.ip = ip then none else w.entries.get? ip := by
    intro ip
    rw [hentries, Dict.get?_erase]
  have htracked : ∀ ip, item.ip ≠ ip → (ip ∈ (rest ++ deferred).map HeapItem.ip ↔
      ∃ entry, w.entries.get? ip = some entry) := by
    intro ip hne
    rw [← h.tracked ip, hheap, List.cons_append, List.map_cons, List.mem_cons]
    exact ⟨Or.inr, fun hmem => hmem.resolve_left (Ne.symm hne)⟩
  refine ⟨hheap' ▸ (List.pairwise_cons.mp hsorted).2, hheap' ▸ hnodup', fun ip => ?_, fun ip => ?_,
    fun item' hitem' entry' hentry' => ?_, fun item' hitem' => ?_⟩
  · rw [hheap', hget]
    split_ifs with hip
    · rw [← hip]
      exact ⟨fun hmem => absurd hmem hgone, fun hnone => by obtain ⟨_, hnone⟩ := hnone; cases hnone⟩
    · exact htracked ip hip
  · have hcontains := h.scheduled ip
    unfold Dict.contains at hcontains ⊢
    rw [hscheduled, Dict.get?_erase, hget]
    split_ifs with hip
    · exact ⟨fun hnone => (by cases hnone), fun hnone => by obtain ⟨_, hnone⟩ := hnone; cases hnone⟩
    · exact hcontains
  · rw [hget] at hentry'
    split_ifs at hentry' with hip
    refine h.early item' ?_ entry' hentry'
    rw [hheap'] at hitem'
    rw [hheap]
    exact List.mem_cons_of_mem _ hitem'
  · have hne : item.ip ≠ item'.ip := by
      intro heq
      rw [heq] at hgone
      exact hgone (List.mem_map_of_mem (List.mem_append_right _ hitem'))
    rw [state_congr (show w'.entries.get? item'.ip = w.entries.get? item'.ip by
      rw [hget, if_neg hne])]
    exact h.hot item' hitem'

theorem foldl_heappush_perm (deferred heap : List HeapItem) :
    (deferred.foldl heappush heap).Perm (heap ++ deferred) := by
  induction deferred generalizing heap with
  | nil => rw [List.append_nil]; exact List.Perm.refl _
  | cons item rest ih =>
    refine (ih (heappush heap item)).trans ?_
    refine ((heappush_perm heap item).append_right rest).trans ?_
    exact List.perm_middle.symm

theorem foldl_heappush_sorted (deferred : List HeapItem) {heap : List HeapItem}
    (h : heap.Pairwise HeapItem.before) :
    (deferred.foldl heappush heap).Pairwise HeapItem.before := by
  induction deferred generalizing heap with
  | nil => exact h
  | cons item rest ih => exact ih (heappush_sorted h item)

/-- At the end of a sweep what was set aside is pushed back. -/
theorem pushBack (h : Queued w deferred) :
    Queued { w with lastSeenHeap := deferred.foldl heappush w.lastSeenHeap } [] := by
  refine h.permute ?_ (foldl_heappush_sorted deferred h.sorted) fun item hitem => by cases hitem
  rw [List.append_nil]
  exact foldl_heappush_perm deferred w.lastSeenHeap

end Queued

/-! ### How long a sweep takes -/

/-- The key of the item is not when its IP was last seen. -/
def stale (w : ShardWindow) (item : HeapItem) : Bool :=
  (w.entries.get? item.ip).map Entry.lastSeen ≠ some item.key

/-- The turns that a sweep has left at most: one for every item, and one for every stale key. -/
def turnsLeft (w : ShardWindow) : ℕ := w.lastSeenHeap.length + w.lastSeenHeap.countP w.stale

theorem turnsLeft_le (w : ShardWindow) : w.turnsLeft ≤ 2 * w.lastSeenHeap.length := by
  have h : w.lastSeenHeap.countP w.stale ≤ w.lastSeenHeap.length := List.countP_le_length
  unfold turnsLeft
  omega

/-- Correcting a key takes a turn. -/
theorem turnsLeft_refresh (hheap : w.lastSeenHeap = item :: rest)
    (hget : w.entries.get? item.ip = some entry) (hstale : item.key ≠ entry.lastSeen)
    (scheduled : Dict Address ℤ) :
    turnsLeft { w with
      lastSeenHeap := heappush rest { item with key := entry.lastSeen }
      lastSeenScheduled := scheduled } + 1 = w.turnsLeft := by
  have hperm := heappush_perm rest { item with key := entry.lastSeen }
  have hold : w.stale item = true := by
    unfold stale
    rw [hget]
    simpa using Ne.symm hstale
  have hnew : ¬ w.stale { item with key := entry.lastSeen } = true := by
    unfold stale
    dsimp only
    rw [hget]
    simp
  show (heappush rest _).length + (heappush rest _).countP w.stale + 1 = _
  unfold turnsLeft
  rw [hheap, hperm.length_eq, hperm.countP_eq, List.countP_cons_of_neg hnew,
    List.countP_cons_of_pos hold, List.length_cons, List.length_cons]
  omega

/-- So does taking an item from the heap, whether its IP stays or goes. -/
theorem turnsLeft_take (h : Queued w deferred) (hheap : w.lastSeenHeap = item :: rest)
    (hheap' : w'.lastSeenHeap = rest)
    (hentries : ∀ ip, item.ip ≠ ip → w'.entries.get? ip = w.entries.get? ip) :
    w'.turnsLeft + 1 ≤ w.turnsLeft := by
  have hnodup := h.nodup
  rw [hheap] at hnodup
  have hgone := (List.nodup_cons.mp hnodup).1
  have hcount : rest.countP w'.stale = rest.countP w.stale := by
    refine List.countP_congr fun other hother => ?_
    have hne : item.ip ≠ other.ip := by
      intro heq
      rw [heq] at hgone
      exact hgone (List.mem_map_of_mem (List.mem_append_left _ hother))
    unfold stale
    rw [hentries other.ip hne]
  have hle : rest.countP w.stale ≤ (item :: rest).countP w.stale :=
    (List.sublist_cons_self item rest).countP_le
  unfold turnsLeft
  rw [hheap', hcount, hheap, List.length_cons]
  omega

/-! ### The search for a victim -/

/-- What a search comes to: the heap is used up, and every tracked IP is HOT; or a COLD IP was found
that no other was seen less recently than, with its item taken from the heap. -/
def Searched (w : ShardWindow) (answer : ShardWindow × List HeapItem × Option Address) : Prop :=
  (∃ heap scheduled, answer.1 =
    { w with lastSeenHeap := heap, lastSeenScheduled := scheduled }) ∧
  match answer.2.2 with
  | none => Queued answer.1 answer.2.1 ∧
      ∀ ip entry, w.entries.get? ip = some entry → entry.state = .hot
  | some victim => Queued (answer.1.drop victim) answer.2.1 ∧
      ∃ entry, w.entries.get? victim = some entry ∧ entry.state = .cold ∧
        ∀ ip other, w.entries.get? ip = some other → other.state = .cold →
          entry.lastSeen ≤ other.lastSeen

theorem Queued.findVictim (h : Queued w deferred) {fuel : ℕ} (hfuel : w.turnsLeft ≤ fuel) :
    Searched w (findVictim fuel w deferred) := by
  induction fuel generalizing w deferred with
  | zero =>
    have hempty : w.lastSeenHeap = [] := by
      unfold turnsLeft at hfuel
      exact List.eq_nil_of_length_eq_zero (by omega)
    exact ⟨⟨_, _, rfl⟩, h, fun ip entry hget => h.all_hot hempty hget⟩
  | succ fuel ih =>
    unfold ShardWindow.findVictim
    split
    next hempty => exact ⟨⟨_, _, rfl⟩, h, fun ip entry hget => h.all_hot hempty hget⟩
    next item rest hheap =>
      obtain ⟨entry, hget⟩ := h.exists_entry hheap
      rw [hget]
      dsimp only
      split_ifs with hstale hhot
      · have hturn := turnsLeft_refresh hheap hget hstale
          (w.lastSeenScheduled.set item.ip entry.lastSeen)
        exact ih (h.refresh hheap hget) (by omega)
      · have hturn : turnsLeft { w with lastSeenHeap := rest } + 1 ≤ w.turnsLeft :=
          turnsLeft_take h hheap rfl fun _ _ => rfl
        exact ih (h.defer hheap hget hhot) (by omega)
      · have hcold : entry.state = .cold := by
          cases hstate : entry.state with
          | cold => rfl
          | hot => exact absurd hstate hhot
        have hqueued : Queued ({ w with lastSeenHeap := rest }.drop item.ip) deferred :=
          h.drop hheap rfl rfl rfl
        refine ⟨⟨_, _, rfl⟩, hqueued, entry, hget, hcold, fun ip other hother hcold' => ?_⟩
        rw [← not_not.mp hstale]
        exact h.least hheap hother hcold'

/-- With enough fuel, more of it changes nothing: the search of the source comes to an end. -/
theorem Queued.findVictim_fuel (h : Queued w deferred) {fuel fuel' : ℕ} (hfuel : w.turnsLeft ≤ fuel)
    (hfuel' : w.turnsLeft ≤ fuel') :
    ShardWindow.findVictim fuel w deferred = ShardWindow.findVictim fuel' w deferred := by
  induction fuel generalizing w deferred fuel' with
  | zero =>
    have hempty : w.lastSeenHeap = [] := by
      unfold turnsLeft at hfuel
      exact List.eq_nil_of_length_eq_zero (by omega)
    cases fuel' with
    | zero => rfl
    | succ fuel' =>
      unfold ShardWindow.findVictim
      rw [hempty]
  | succ fuel ih =>
    cases hheap : w.lastSeenHeap with
    | nil =>
      cases fuel' with
      | zero =>
        unfold ShardWindow.findVictim
        rw [hheap]
      | succ fuel' =>
        unfold ShardWindow.findVictim
        rw [hheap]
    | cons item rest =>
      obtain ⟨entry, hget⟩ := h.exists_entry hheap
      have hpos : 0 < w.turnsLeft := by
        unfold turnsLeft
        rw [hheap, List.length_cons]
        omega
      obtain ⟨fuel', rfl⟩ : ∃ k, fuel' = k + 1 := ⟨fuel' - 1, by omega⟩
      unfold ShardWindow.findVictim
      rw [hheap]
      dsimp only
      rw [hget]
      dsimp only
      split_ifs with hstale hhot
      · have hturn := turnsLeft_refresh hheap hget hstale
          (w.lastSeenScheduled.set item.ip entry.lastSeen)
        exact ih (h.refresh hheap hget) (by omega) (by omega)
      · have hturn : turnsLeft { w with lastSeenHeap := rest } + 1 ≤ w.turnsLeft :=
          turnsLeft_take h hheap rfl fun _ _ => rfl
        exact ih (h.defer hheap hget hhot) (by omega) (by omega)
      · rfl

/-- What making room does: nothing below the cap; else nothing but corrections where every tracked IP
is HOT, and otherwise the drop of the least recently seen COLD one. -/
theorem Queued.evictForCapacity (h : Queued w []) :
    Queued w.evictForCapacity [] ∧
      (w.maxTrackedIps ≤ w.entries.size →
        (w.evictForCapacity.entries = w.entries ∧
          ∀ ip entry, w.entries.get? ip = some entry → entry.state = .hot) ∨
        ∃ victim entry, w.evictForCapacity.entries = w.entries.erase victim ∧
          w.entries.get? victim = some entry ∧ entry.state = .cold ∧
          ∀ ip other, w.entries.get? ip = some other → other.state = .cold →
            entry.lastSeen ≤ other.lastSeen) := by
  unfold ShardWindow.evictForCapacity
  split_ifs with hroom
  · exact ⟨h, fun hfull => absurd hroom (not_lt.mpr hfull)⟩
  · have hsearched := h.findVictim w.turnsLeft_le
    generalize ShardWindow.findVictim (2 * w.lastSeenHeap.length) w [] = answer at hsearched
    obtain ⟨w', deferred, victim⟩ := answer
    obtain ⟨⟨heap, scheduled, hsame⟩, hcase⟩ := hsearched
    dsimp only at hsame hcase ⊢
    subst hsame
    cases victim with
    | none =>
      obtain ⟨hqueued, hall⟩ := hcase
      exact ⟨hqueued.pushBack, fun _ => Or.inl ⟨rfl, hall⟩⟩
    | some victim =>
      obtain ⟨hqueued, entry, hget, hcold, hleast⟩ := hcase
      obtain ⟨h₁, h₂, h₃, h₄, h₅, h₆⟩ := hqueued.pushBack
      exact ⟨⟨h₁, h₂, h₃, h₄, h₅, h₆⟩,
        fun _ => Or.inr ⟨victim, entry, rfl, hget, hcold, hleast⟩⟩

/-! ### The retention sweep -/

/-- A retention sweep after some turns: of the entries, idle ones were dropped and counted. -/
structure Evicting (deadline : ℤ) (w₀ w : ShardWindow) (deferred : List HeapItem) (removed : ℕ) :
    Prop where
  queued : Queued w deferred
  kept : ∀ ip, w.entries.get? ip = w₀.entries.get? ip ∨ w.entries.get? ip = none ∧
    ∃ entry, w₀.entries.get? ip = some entry ∧ entry.Idle deadline
  counted : removed + w.trackedIps.card = w₀.trackedIps.card

theorem trackedIps_erase (w : ShardWindow) (ip : Address)
    (hentries : w'.entries = w.entries.erase ip) : w'.trackedIps = w.trackedIps.erase ip := by
  ext ip'
  rw [Finset.mem_erase, mem_trackedIps, mem_trackedIps, hentries, Dict.get?_erase]
  split_ifs with hip
  · simp [hip]
  · simp [Ne.symm hip]

/-- With fuel for its turns, a sweep ends with no idle entry left. -/
theorem Evicting.loop {deadline : ℤ} {w₀ : ShardWindow} {removed : ℕ}
    (h : Evicting deadline w₀ w deferred removed) {fuel : ℕ} (hfuel : w.turnsLeft ≤ fuel)
    {answer : ShardWindow × List HeapItem × ℕ}
    (hanswer : answer = evictLoop deadline fuel w deferred removed) :
    Evicting deadline w₀ answer.1 answer.2.1 answer.2.2 ∧
      ∀ ip entry, answer.1.entries.get? ip = some entry → ¬ entry.Idle deadline := by
  induction fuel generalizing w deferred removed with
  | zero =>
    subst hanswer
    refine ⟨h, fun ip entry hget => h.queued.not_idle ?_ hget deadline⟩
    unfold turnsLeft at hfuel
    exact List.eq_nil_of_length_eq_zero (by omega)
  | succ fuel ih =>
    unfold evictLoop at hanswer
    split at hanswer
    next hempty =>
      subst hanswer
      exact ⟨h, fun ip entry hget => h.queued.not_idle hempty hget deadline⟩
    next item rest hheap =>
      obtain ⟨entry, hget⟩ := h.queued.exists_entry hheap
      -- The next turn starts with one less left.
      have next : ∀ {w₁ deferred₁ removed₁}, Evicting deadline w₀ w₁ deferred₁ removed₁ →
          w₁.turnsLeft + 1 ≤ w.turnsLeft →
          answer = evictLoop deadline fuel w₁ deferred₁ removed₁ → _ :=
        fun {w₁ deferred₁ removed₁} h₁ hturn hanswer₁ =>
          ih h₁ (show w₁.turnsLeft ≤ fuel by omega) hanswer₁
      rw [hget] at hanswer
      dsimp only at hanswer
      split_ifs at hanswer with hstale hlate hhot
      · refine next ⟨h.queued.refresh hheap hget, h.kept, h.counted⟩ ?_ hanswer
        exact (turnsLeft_refresh hheap hget hstale _).le
      · -- A fresh key behind the deadline: every COLD IP was seen at or after it.
        subst hanswer
        refine ⟨h, fun ip other hother hidle => ?_⟩
        have hleast := h.queued.least hheap hother hidle.1
        exact absurd hidle.2 (not_le.mpr (lt_of_lt_of_le hlate hleast))
      · refine next ⟨h.queued.defer hheap hget hhot, h.kept, h.counted⟩ ?_ hanswer
        exact turnsLeft_take h.queued hheap rfl fun _ _ => rfl
      · have hcold : entry.state = .cold := by
          cases hstate : entry.state with
          | cold => rfl
          | hot => exact absurd hstate hhot
        have hidle : entry.Idle deadline := by
          have hfresh := not_not.mp hstale
          exact ⟨hcold, by omega⟩
        refine next ⟨h.queued.drop hheap rfl rfl rfl, fun ip => ?_, ?_⟩ ?_ hanswer
        · show (w.entries.erase item.ip).get? ip = _ ∨ (w.entries.erase item.ip).get? ip = none ∧ _
          rw [Dict.get?_erase]
          split_ifs with hip
          · obtain hsame | ⟨hnone, -⟩ := h.kept item.ip
            · exact Or.inr ⟨rfl, entry, by rw [← hip, ← hsame]; exact hget, hidle⟩
            · rw [hnone] at hget
              cases hget
          · exact h.kept ip
        · rw [trackedIps_erase w item.ip rfl, ← h.counted]
          have hcard := Finset.card_erase_add_one (mem_trackedIps.mpr ⟨entry, hget⟩)
          omega
        · refine turnsLeft_take h.queued hheap rfl fun ip hne => ?_
          show (w.entries.erase item.ip).get? ip = _
          rw [Dict.get?_erase, if_neg hne]

/-- What `evict_due` drops: the idle entries, all of them and no others. -/
theorem Queued.evictDue (h : Queued w []) (now : ℤ) :
    Queued (w.evictDue now).2 [] ∧
      (w.evictDue now).1 + (w.evictDue now).2.trackedIps.card = w.trackedIps.card ∧
      ∀ ip, (w.evictDue now).2.entries.get? ip =
        (w.entries.get? ip).filter fun entry =>
          ¬ entry.Idle (now - w.config.stateRetentionSeconds) := by
  have hstart : Evicting (now - w.config.stateRetentionSeconds) w w [] 0 :=
    ⟨h, fun _ => Or.inl rfl, Nat.zero_add _⟩
  obtain ⟨⟨hqueued, hkept, hcounted⟩, hnone⟩ := hstart.loop w.turnsLeft_le rfl
  refine ⟨hqueued.pushBack, hcounted, fun ip => ?_⟩
  unfold ShardWindow.evictDue
  dsimp only
  generalize evictLoop (now - w.config.stateRetentionSeconds) (2 * w.lastSeenHeap.length) w [] 0 =
    answer at hkept hnone ⊢
  obtain hsame | ⟨hgone, entry, hget, hidle⟩ := hkept ip
  · rw [hsame]
    cases hget : w.entries.get? ip with
    | none => rfl
    | some entry =>
      have hbusy := hnone ip entry (hsame.trans hget)
      simp [Option.filter, hbusy]
  · rw [hgone, hget]
    simp [Option.filter, hidle]

/-! ### Calls -/

theorem expireLoop_sameRetention (now : ℤ) (fuel : ℕ) (w : ShardWindow)
    (changes : List WindowChange) : SameRetention w (expireLoop now fuel w changes).2 := by
  induction fuel generalizing w changes with
  | zero => exact SameRetention.refl w
  | succ fuel ih =>
    unfold expireLoop
    cases hnext : w.expireNext now with
    | none => exact SameRetention.refl w
    | some turn =>
      obtain ⟨change, w'⟩ := turn
      refine SameRetention.trans ?_ (ih w' (changes ++ change))
      obtain ⟨item, rest, -, -, ⟨-, -, rfl⟩ | ⟨-, -, -, rfl⟩ | ⟨entry, entry', -, -, -, -, rfl⟩⟩ :=
        expireNext_some hnext
      · exact ⟨rfl, rfl, rfl, rfl, rfl⟩
      · exact ⟨rfl, rfl, rfl, rfl, rfl⟩
      · exact SameRetention.scheduleExpiry (by constructor <;> rfl) item.ip entry'

namespace Queued

/-- The schedule is untouched, the same IPs are tracked, and none was seen later before. -/
theorem keep (h : Queued w []) (hheap : w'.lastSeenHeap = w.lastSeenHeap)
    (hscheduled : w'.lastSeenScheduled = w.lastSeenScheduled)
    (hentries : ∀ ip, w'.entries.get? ip = w.entries.get? ip ∨
      ∃ entry entry', w.entries.get? ip = some entry ∧ w'.entries.get? ip = some entry' ∧
        entry.lastSeen ≤ entry'.lastSeen) : Queued w' [] := by
  have htracked : ∀ ip, (∃ entry, w'.entries.get? ip = some entry) ↔
      ∃ entry, w.entries.get? ip = some entry := by
    intro ip
    obtain hsame | ⟨entry, entry', hget, hget', -⟩ := hentries ip
    · rw [hsame]
    · exact ⟨fun _ => ⟨entry, hget⟩, fun _ => ⟨entry', hget'⟩⟩
  refine ⟨hheap ▸ h.sorted, hheap ▸ h.nodup, fun ip => ?_, fun ip => ?_,
    fun item hitem entry' hget' => ?_, fun item hitem => by cases hitem⟩
  · rw [hheap, htracked]
    exact h.tracked ip
  · rw [hscheduled, htracked]
    exact h.scheduled ip
  · rw [hheap] at hitem
    obtain hsame | ⟨entry, entry'', hget, hget'', hle⟩ := hentries item.ip
    · exact h.early item hitem entry' (hsame.symm.trans hget')
    · rw [hget''] at hget'
      cases hget'
      exact (h.early item hitem entry hget).trans hle

/-- An IP is tracked, or its entry is replaced by one that was not seen earlier. -/
theorem track (h : Queued w []) (ip : Address) (entry : Entry)
    (hlater : ∀ old, w.entries.get? ip = some old → old.lastSeen ≤ entry.lastSeen) :
    Queued (w.track ip entry) [] := by
  unfold ShardWindow.track scheduleLastSeen
  dsimp only
  split_ifs with hcontains
  · obtain ⟨old, hold⟩ := (h.scheduled ip).mp hcontains
    refine h.keep rfl rfl fun ip' => ?_
    dsimp only
    rw [Dict.get?_set]
    split_ifs with hip
    · exact Or.inr ⟨old, entry, hip ▸ hold, rfl, hlater old hold⟩
    · exact Or.inl rfl
  · have huntracked : ¬ ∃ old, w.entries.get? ip = some old :=
      fun hold => hcontains ((h.scheduled ip).mpr hold)
    have hperm := heappush_perm w.lastSeenHeap ⟨entry.lastSeen, w.tieBreak, ip⟩
    obtain ⟨hsorted, hnodup, htracked, hscheduled, hearly, -⟩ := h
    rw [List.append_nil] at hnodup
    simp only [List.append_nil] at htracked hearly
    have hips := hperm.map HeapItem.ip
    refine ⟨heappush_sorted hsorted _, ?_, fun ip' => ?_, fun ip' => ?_, fun item hitem entry' hget' => ?_,
      fun item hitem => by cases hitem⟩
    · rw [List.append_nil, hips.nodup_iff, List.map_cons, List.nodup_cons]
      exact ⟨fun hmem => huntracked ((htracked ip).mp hmem), hnodup⟩
    · rw [List.append_nil, hips.mem_iff, List.map_cons, List.mem_cons, htracked, Dict.get?_set]
      by_cases hip : ip = ip'
      · rw [if_pos hip]
        exact ⟨fun _ => ⟨entry, rfl⟩, fun _ => Or.inl hip.symm⟩
      · rw [if_neg hip]
        exact ⟨fun hmem => hmem.resolve_left (Ne.symm hip), Or.inr⟩
    · have hsame := hscheduled ip'
      unfold Dict.contains at hsame ⊢
      rw [Dict.get?_set, Dict.get?_set]
      split_ifs with hip
      · exact ⟨fun _ => ⟨entry, rfl⟩, fun _ => rfl⟩
      · exact hsame
    · rw [List.append_nil] at hitem
      dsimp only at hget'
      rw [Dict.get?_set] at hget'
      obtain rfl | hmem := List.mem_cons.mp (hperm.mem_iff.mp hitem)
      · rw [if_pos rfl] at hget'
        cases hget'
        exact le_refl _
      · have hne : ip ≠ item.ip := fun heq => huntracked
          ((htracked ip).mp (heq ▸ List.mem_map_of_mem hmem))
        rw [if_neg hne] at hget'
        exact hearly item hmem entry' hget'

/-- Scheduling an expiry leaves the retention alone. -/
theorem scheduleExpiry (h : Queued w []) (ip : Address) (entry : Entry) :
    Queued (w.scheduleExpiry ip entry) [] := by
  have hsame := (SameRetention.refl w).scheduleExpiry ip entry
  refine h.keep hsame.lastSeenHeap hsame.lastSeenScheduled fun ip' => ?_
  rw [scheduleExpiry_entries]
  exact Or.inl rfl

/-- An entry is replaced by one that was not seen earlier. -/
theorem set {ip : Address} {entry' : Entry} (h : Queued w [])
    (hget : w.entries.get? ip = some entry) (hseen : entry.lastSeen ≤ entry'.lastSeen) :
    Queued { w with entries := w.entries.set ip entry' } [] := by
  refine h.keep rfl rfl fun ip' => ?_
  dsimp only
  rw [Dict.get?_set]
  split_ifs with hip
  · exact Or.inr ⟨entry, entry', hip ▸ hget, rfl, hseen⟩
  · exact Or.inl rfl

theorem observe {ip : Address} {start delta : ℤ} {change : Option WindowChange}
    (h : Queued w []) (hr : w.observe ip start delta now = .ok (change, w')) : Queued w' [] := by
  obtain ⟨-, rfl, -⟩ | ⟨c, c', entry', hget, -, -, -, -, rfl⟩ |
    ⟨entry, c', entry', hget, -, hentry', -, rfl⟩ := observe_inv hr
  · exact h
  · refine (h.evictForCapacity.1.track ip entry' fun old hold => ?_).scheduleExpiry ip entry'
    rw [(evictForCapacity_shrinks w).get? hold] at hget
    cases hget
  · have hseen : entry.lastSeen ≤ entry'.lastSeen := by
      rw [hentry']
      exact le_max_left _ _
    exact (h.set hget hseen).scheduleExpiry ip entry'

theorem setState {ip : Address} {state : IpState} (h : Queued w [])
    (hr : w.setState ip state = .ok w') : Queued w' [] := by
  unfold ShardWindow.setState at hr
  split at hr
  · cases hr
  · next entry hget =>
    cases state with
    | hot =>
      cases hr
      exact h.set hget (le_refl entry.lastSeen)
    | cold =>
      cases hr
      -- The IP is tracked, so this pushes nothing.
      refine h.track ip { entry with state := .cold, inherited := false } fun old hold => ?_
      rw [hget] at hold
      cases hold
      exact le_refl _

theorem finishWarmupIfDue (h : Queued w []) (now : ℤ) :
    Queued (w.finishWarmupIfDue now).2 [] := by
  obtain hsame | hsame := w.finishWarmupIfDue_snd now
  · rw [hsame]
    exact h
  · rw [hsame]
    refine h.keep rfl rfl fun ip => ?_
    rw [get?_finishWarmup]
    cases w.entries.get? ip with
    | none => exact Or.inl rfl
    | some entry => exact Or.inr ⟨entry, _, rfl, rfl, le_refl _⟩

theorem applyConfig (h : Queued w []) (config : DetectionConfig) (now : ℤ) :
    Queued (Program.after (ShardWindow.applyConfig config now w)) [] := by
  have hadopted : Queued { w with config := config } [] := h.keep rfl rfl fun _ => Or.inl rfl
  obtain ⟨-, hr⟩ | ⟨-, ⟨w', hr, hrebuild⟩ | ⟨e, hr, -⟩⟩ := applyConfig_cases config now w
  · rw [hr]
    exact hadopted
  · rw [hr]
    have hsame := (rebuildAll_sameRetention config now).of_ok hrebuild
    refine hadopted.keep hsame.lastSeenHeap hsame.lastSeenScheduled fun ip => ?_
    obtain ⟨hnone, hnone'⟩ | ⟨entry, c', hget, -, hget'⟩ := (rebuildAll_ok hrebuild).2 ip
    · exact Or.inl (hnone'.trans hnone.symm)
    · exact Or.inr ⟨entry, _, hget, hget', le_refl _⟩
  · rw [hr]
    exact hadopted

theorem expireDue (h : Queued w []) (now : ℤ) : Queued (w.expireDue now).2 [] := by
  have hsame := expireLoop_sameRetention now w.expiryHeap.length w []
  refine h.keep hsame.lastSeenHeap hsame.lastSeenScheduled fun ip => ?_
  obtain ⟨hnone, hnone'⟩ | ⟨entry, c', hget, hget', -⟩ := (expireDue_swept w now).entries ip
  · exact Or.inl (hnone'.trans hnone.symm)
  · exact Or.inr ⟨entry, _, hget, hget', le_refl _⟩

/-- Every call keeps the retention schedule. -/
theorem call (h : Queued w []) (now : ℤ) (call : Call) : Queued (w.call now call) [] := by
  cases call with
  | observe ip start delta =>
    unfold ShardWindow.call
    dsimp only
    cases hr : w.observe ip start delta now with
    | error e => exact h
    | ok r => exact Queued.observe h hr
  | setState ip state =>
    unfold ShardWindow.call
    dsimp only
    cases hr : w.setState ip state with
    | error e => exact h
    | ok w' => exact Queued.setState h hr
  | expireDue => exact h.expireDue now
  | evictDue => exact (h.evictDue now).1
  | finishWarmupIfDue => exact h.finishWarmupIfDue now
  | applyConfig config => exact h.applyConfig config now

end Queued

theorem queued_make {shard nextSequence : ℕ} {config : DetectionConfig} {maxTrackedIps : ℤ}
    {ips : List Address} (h : make shard config now ips nextSequence maxTrackedIps = .ok w) :
    Queued w [] := by
  -- Every inherited IP was last seen at the time of the claim, also one that stands twice.
  refine (make_invariant (I := fun w => Queued w [] ∧ ∀ ip entry, w.entries.get? ip = some entry →
    entry.lastSeen ≤ now) ?_ ?_ ?_ h).1
  · intro w hentries _ _ hheap hscheduled
    refine ⟨⟨by rw [hheap]; exact List.Pairwise.nil, ?_, fun ip => ?_, fun ip => ?_,
      fun item hitem => ?_, fun item hitem => by cases hitem⟩, fun ip entry hget => ?_⟩
    · rw [hheap]
      exact List.nodup_nil
    · rw [hheap, hentries]
      exact ⟨fun hmem => (by cases hmem), fun hget => by obtain ⟨_, hget⟩ := hget; cases hget⟩
    · rw [hscheduled, hentries]
      exact ⟨fun hmem => (by cases hmem), fun hget => by obtain ⟨_, hget⟩ := hget; cases hget⟩
    · rw [hheap] at hitem
      cases hitem
    · rw [hentries] at hget
      cases hget
  · intro w ip counter _ hw
    refine ⟨hw.1.track ip _ fun old hold => hw.2 ip old hold, fun ip' entry hget => ?_⟩
    rw [track_entries, Dict.get?_set] at hget
    split_ifs at hget with hip
    · cases hget
      exact le_refl _
    · exact hw.2 ip' entry hget
  · intro w _ hw
    exact ⟨hw.1.keep rfl rfl fun _ => Or.inl rfl, hw.2⟩

theorem queued_run {shard nextSequence : ℕ} {config : DetectionConfig} {t maxTrackedIps : ℤ}
    {ips : List Address} {w₀ : ShardWindow}
    (hmake : make shard config t ips nextSequence maxTrackedIps = .ok w₀)
    (calls : List (ℤ × Call)) : Queued (w₀.run calls) [] :=
  invariant_foldl (I := fun w => Queued w []) (fun _ call h => h.call call.1 call.2)
    (queued_make hmake) calls

/-! ### Retention -/

/-- The tracked IPs that are idle for `state_retention_seconds`. -/
def idleIps (w : ShardWindow) (now : ℤ) : Finset Address :=
  w.trackedIps.filter fun ip =>
    (w.entries.get? ip).any fun entry => entry.Idle (now - w.config.stateRetentionSeconds)

theorem mem_idleIps {ip : Address} : ip ∈ w.idleIps now ↔ ∃ entry, w.entries.get? ip = some entry ∧
    entry.Idle (now - w.config.stateRetentionSeconds) := by
  unfold idleIps
  rw [Finset.mem_filter, mem_trackedIps]
  cases w.entries.get? ip with
  | none => simp
  | some entry => simp

/-- Every tracked IP has exactly one item on the `last_seen` heap, with a key that is not later than
it was last seen. -/
def OnceQueued (w : ShardWindow) : Prop :=
  ∀ ip entry, w.entries.get? ip = some entry →
    ∃ item, w.lastSeenHeap.filter (·.ip = ip) = [item] ∧ item.key ≤ entry.lastSeen

theorem filter_of_nodup {heap : List HeapItem} (h : (heap.map HeapItem.ip).Nodup)
    (hitem : item ∈ heap) : heap.filter (·.ip = item.ip) = [item] := by
  induction heap with
  | nil => cases hitem
  | cons first rest ih =>
    obtain ⟨hfirst, hrest⟩ := List.nodup_cons.mp h
    obtain rfl | hmem := List.mem_cons.mp hitem
    · rw [List.filter_cons_of_pos (by simp), List.filter_eq_nil_iff.mpr]
      intro other hother heq
      exact hfirst (of_decide_eq_true heq ▸ List.mem_map_of_mem hother)
    · have hne : first.ip ≠ item.ip := fun heq => hfirst (heq ▸ List.mem_map_of_mem hmem)
      rw [List.filter_cons_of_neg (by simpa using hne)]
      exact ih hrest hmem

theorem Queued.onceQueued (h : Queued w []) : w.OnceQueued := by
  intro ip entry hget
  have hmem := (h.tracked ip).mpr ⟨entry, hget⟩
  have hnodup := h.nodup
  rw [List.append_nil] at hmem hnodup
  obtain ⟨item, hitem, rfl⟩ := List.mem_map.mp hmem
  exact ⟨item, filter_of_nodup hnodup hitem,
    h.early item (List.mem_append_left _ hitem) entry hget⟩

/-- An IP that is idle for the retention holds no live bucket: it covers a window. -/
theorem Idle.not_live (hfits : w.Fits) (htimely : w.Timely now)
    (hseconds : 1 ≤ w.config.bucketSeconds) (hwindow : 1 ≤ w.config.windowSeconds) {ip : Address}
    (hget : w.entries.get? ip = some entry)
    (hidle : entry.Idle (now - w.config.stateRetentionSeconds)) {i : Fin entry.counter.bucketCount}
    {start : ℤ} (hi : entry.counter.starts i = some start) :
    entry.counter.isLive start now = false := by
  have hmul := w.config.bucketSeconds_mul_bucketCount
  have hpos : 0 < w.config.bucketSeconds := by omega
  obtain ⟨fresh, hfresh⟩ : ∃ fresh, newCounter w.config = .ok fresh :=
    IpCounter.exists_makeRing hpos ((mul_pos_iff_of_pos_left hpos).mp (by omega))
  obtain ⟨hgeometry, hcount⟩ := hfits fresh hfresh ip entry hget
  have hlength : entry.counter.windowSeconds = w.config.windowSeconds := by
    unfold IpCounter.windowSeconds
    rw [hgeometry, hcount, hmul]
  have hstart := (htimely ip entry hget).1 i start hi
  have hretention := w.config.window_le_retention
  have hseen := hidle.2
  rw [IpCounter.isLive_eq_false_iff (entry.counter.aligned i start hi), hlength]
  exact Or.inr (by omega)

/-- Of every window that calls reached under a clock that does not run backwards, with a valid
configuration in force: `evict_due` drops the idle IPs, exactly those, and answers their number. They
are COLD and hold no live bucket. Every tracked IP is on the heap once, before and after. -/
theorem evictDue_exact {shard nextSequence : ℕ} {config : DetectionConfig} {t maxTrackedIps : ℤ}
    {ips : List Address} {w₀ w : ShardWindow}
    (hmake : make shard config t ips nextSequence maxTrackedIps = .ok w₀) (calls : List (ℤ × Call))
    (hclock : (t :: calls.map Prod.fst).Pairwise (· ≤ ·)) (hw : w = w₀.run calls)
    (hseconds : 1 ≤ w.config.bucketSeconds) (hwindow : 1 ≤ w.config.windowSeconds) (now : ℤ)
    (hnow : ∀ time ∈ t :: calls.map Prod.fst, time ≤ now) :
    (w.evictDue now).1 = (w.idleIps now).card ∧
      (∀ ip, (w.evictDue now).2.entries.get? ip =
        if ip ∈ w.idleIps now then none else w.entries.get? ip) ∧
      (∀ ip ∈ w.idleIps now, w.state ip = .cold ∧ ∀ entry, w.entries.get? ip = some entry →
        ∀ i start, entry.counter.starts i = some start →
          entry.counter.isLive start now = false) ∧
      (∀ ip, w.state ip = .hot → (w.evictDue now).2.entries.get? ip = w.entries.get? ip) ∧
      w.OnceQueued ∧ (w.evictDue now).2.OnceQueued := by
  have hqueued : Queued w [] := hw ▸ queued_run hmake calls
  have hfits : w.Fits := hw ▸ (fits_make hmake).run calls
  have htimely : w.Timely now := hw ▸ timely_run hmake hclock hnow
  obtain ⟨hqueued', hcounted, hfilter⟩ := hqueued.evictDue now
  have hentries : ∀ ip, (w.evictDue now).2.entries.get? ip =
      if ip ∈ w.idleIps now then none else w.entries.get? ip := by
    intro ip
    rw [hfilter]
    split_ifs with hip
    · obtain ⟨entry, hget, hidle⟩ := mem_idleIps.mp hip
      simp [hget, Option.filter, hidle]
    · cases hget : w.entries.get? ip with
      | none => rfl
      | some entry =>
        have hbusy : ¬ entry.Idle (now - w.config.stateRetentionSeconds) :=
          fun hidle => hip (mem_idleIps.mpr ⟨entry, hget, hidle⟩)
        simp [Option.filter, hbusy]
  refine ⟨?_, hentries, fun ip hip => ?_, fun ip hhot => ?_, hqueued.onceQueued,
    hqueued'.onceQueued⟩
  -- What is tracked after is what was tracked without the idle IPs, which counts them.
  · have hleft : (w.evictDue now).2.trackedIps = w.trackedIps \ w.idleIps now := by
      ext ip
      rw [Finset.mem_sdiff, mem_trackedIps, mem_trackedIps, hentries]
      split_ifs with hip
      · simp [hip]
      · simp [hip]
    rw [hleft] at hcounted
    have hcard := Finset.card_sdiff_add_card_eq_card
      (show w.idleIps now ⊆ w.trackedIps from Finset.filter_subset _ _)
    omega
  · obtain ⟨entry, hget, hidle⟩ := mem_idleIps.mp hip
    refine ⟨(state_of_get? hget).trans hidle.1, fun entry' hget' i start hi => ?_⟩
    rw [hget] at hget'
    cases hget'
    exact Idle.not_live hfits htimely hseconds hwindow hget hidle hi
  · rw [hentries, if_neg]
    intro hip
    obtain ⟨entry, hget, hidle⟩ := mem_idleIps.mp hip
    rw [state_of_get? hget, hidle.1] at hhot
    cases hhot

/-- Under the defaults an IP that was seen once is gone a long time later. -/
theorem evictDue_exact_default : ∃ w₀, make 0 Ingest.defaultConfig 0 [] 0 1000 = .ok w₀ ∧
    ((w₀.run [(5, .observe ⟨.ipv4, 1, by decide⟩ 0 5)]).evictDue 100000).2.entries.get?
      ⟨.ipv4, 1, by decide⟩ = none := by
  have hexact := evictDue_exact
    (show make 0 Ingest.defaultConfig 0 [] 0 1000 = .ok _ from rfl)
    [(5, .observe ⟨.ipv4, 1, by decide⟩ 0 5)] (by decide) rfl (by decide) (by decide) 100000
    (by decide)
  refine ⟨_, rfl, (hexact.2.1 ⟨.ipv4, 1, by decide⟩).trans (if_pos ?_)⟩
  exact mem_idleIps.mpr ⟨_, rfl, rfl, by decide⟩

/-! ### Capacity -/

theorem size_eq_card (w : ShardWindow) : w.entries.size = w.trackedIps.card := by
  have hcard := List.toFinset_card_of_nodup w.entries.keys_nodup
  unfold trackedIps
  rw [hcard]
  exact (List.length_map _).symm

/-- Tracking a new IP in a window of which some entries are gone. -/
theorem track_trackedIps (w : ShardWindow) (ip : Address) (entry : Entry) :
    ((w.track ip entry).scheduleExpiry ip entry).trackedIps = insert ip w.trackedIps := by
  ext ip'
  rw [Finset.mem_insert, mem_trackedIps, mem_trackedIps, scheduleExpiry_entries, track_entries,
    Dict.get?_set]
  by_cases hip : ip = ip'
  · simp [hip]
  · simp [hip, Ne.symm hip]

/-- A new IP at a full window takes the place of the COLD one that was seen least recently; where
every IP is HOT, it is tracked beside them. -/
theorem Queued.observe_full {w w' : ShardWindow} (h : Queued w []) {ip : Address}
    {start delta now : ℤ} {change : WindowChange} (hget : w.entries.get? ip = none)
    (hfull : w.maxTrackedIps ≤ w.entries.size)
    (hr : w.observe ip start delta now = .ok (some change, w')) :
    (∃ victim entry, w.entries.get? victim = some entry ∧ entry.state = .cold ∧
        (∀ ip' other, w.entries.get? ip' = some other → other.state = .cold →
          entry.lastSeen ≤ other.lastSeen) ∧
        w'.trackedIps = insert ip (w.trackedIps.erase victim) ∧
        w'.entries.size = w.entries.size ∧
        ∀ ip', ip' ≠ ip → ip' ≠ victim → w'.entries.get? ip' = w.entries.get? ip') ∨
      ((∀ ip' entry, w.entries.get? ip' = some entry → entry.state = .hot) ∧
        w'.trackedIps = insert ip w.trackedIps ∧ w'.entries.size = w.entries.size + 1 ∧
        ∀ ip', ip' ≠ ip → w'.entries.get? ip' = w.entries.get? ip') := by
  obtain ⟨habsurd, -⟩ | ⟨c, c', entry', -, -, -, -, -, rfl⟩ | ⟨entry, c', entry', hget', -⟩ :=
    observe_inv hr
  · cases habsurd
  · have huntracked : ip ∉ w.trackedIps := by
      rw [mem_trackedIps, hget]
      simp
    have hothers : ∀ ip', ip' ≠ ip →
        ((w.evictForCapacity.track ip entry').scheduleExpiry ip entry').entries.get? ip' =
          w.evictForCapacity.entries.get? ip' := by
      intro ip' hne
      rw [scheduleExpiry_entries, track_entries, Dict.get?_set_of_ne _ (Ne.symm hne)]
    obtain ⟨hsame, hall⟩ | ⟨victim, entry, hdropped, hvictim, hcold, hleast⟩ :=
      h.evictForCapacity.2 hfull
    · have hips : w.evictForCapacity.trackedIps = w.trackedIps := by
        unfold trackedIps
        rw [hsame]
      refine Or.inr ⟨hall, ?_⟩
      rw [size_eq_card, size_eq_card, track_trackedIps, hips,
        Finset.card_insert_of_notMem huntracked]
      exact ⟨rfl, rfl, fun ip' hne => by rw [hothers ip' hne, hsame]⟩
    -- One goes and one comes, so that the number stays.
    · have hips := trackedIps_erase w victim hdropped
      have hne : ip ∉ w.trackedIps.erase victim :=
        fun hmem => huntracked (Finset.mem_of_mem_erase hmem)
      have hmem : victim ∈ w.trackedIps := mem_trackedIps.mpr ⟨entry, hvictim⟩
      have hcard := Finset.card_erase_add_one hmem
      refine Or.inl ⟨victim, entry, hvictim, hcold, hleast, ?_⟩
      rw [size_eq_card, size_eq_card, track_trackedIps, hips, Finset.card_insert_of_notMem hne]
      refine ⟨rfl, hcard, fun ip' hip hip' => ?_⟩
      rw [hothers ip' hip, hdropped, Dict.get?_erase, if_neg (Ne.symm hip')]
  · rw [hget] at hget'
    cases hget'

/-- An observation that the counter refuses, or that fails, leaves the window as it is. -/
theorem call_observe_refused {w : ShardWindow} {ip : Address} {start delta now : ℤ}
    (hrefused : (∃ c, w.counterOf ip = .ok c ∧
        (start.fmod c.bucketSeconds ≠ 0 ∨ delta < 0 ∨ c.isLive start now = false)) ∨
      ∃ e, w.observe ip start delta now = .error e) :
    w.call now (.observe ip start delta) = w := by
  unfold ShardWindow.call
  dsimp only
  cases hr : w.observe ip start delta now with
  | error e => rfl
  | ok r =>
    obtain ⟨c, hc, hrefused⟩ | ⟨e, he⟩ := hrefused
    · obtain ⟨change, w'⟩ := r
      -- An observation that is applied passes all three checks of the counter.
      have applied : ∀ c', c.observe start delta now = .ok (true, c') → False := by
        intro c' ho
        obtain ⟨haligned, hdelta, hlive, -⟩ := IpCounter.observe_true ho
        obtain hunaligned | hneg | hdead := hrefused
        · exact hunaligned haligned
        · omega
        · rw [hlive] at hdead
          cases hdead
      obtain ⟨-, rfl, -⟩ | ⟨fresh, c', entry', hget, hfresh, ho, -⟩ | ⟨entry, c', -, hget, ho, -⟩ :=
        observe_inv hr
      · rfl
      · unfold counterOf at hc
        rw [hget] at hc
        dsimp only at hc
        rw [hfresh] at hc
        cases hc
        exact absurd ho fun ho => applied c' ho
      · unfold counterOf at hc
        rw [hget] at hc
        cases hc
        exact absurd ho fun ho => applied c' ho
    · rw [hr] at he
      cases he

/-- Of every window that calls reached: where an observation of a new IP is applied at the cap, the
COLD IP that is dropped is one that no other was seen less recently than, and where every tracked IP
is HOT none is dropped. Every other entry stays, and the search comes to an end. An observation that
is not applied changes nothing. -/
theorem capacity_victim {shard nextSequence : ℕ} {config : DetectionConfig} {t maxTrackedIps : ℤ}
    {ips : List Address} {w₀ w : ShardWindow}
    (hmake : make shard config t ips nextSequence maxTrackedIps = .ok w₀) (calls : List (ℤ × Call))
    (hw : w = w₀.run calls) (ip : Address) (start delta now : ℤ) :
    (∀ change w', w.entries.get? ip = none → w.maxTrackedIps ≤ w.entries.size →
      w.observe ip start delta now = .ok (some change, w') →
      ((∃ ip' entry, w.entries.get? ip' = some entry ∧ entry.state = .cold) →
        ∃ victim entry, w.entries.get? victim = some entry ∧ entry.state = .cold ∧
          (∀ ip' other, w.entries.get? ip' = some other → other.state = .cold →
            entry.lastSeen ≤ other.lastSeen) ∧
          w'.trackedIps = insert ip (w.trackedIps.erase victim) ∧
          w'.entries.size = w.entries.size ∧
          ∀ ip', ip' ≠ ip → ip' ≠ victim → w'.entries.get? ip' = w.entries.get? ip') ∧
      ((∀ ip' entry, w.entries.get? ip' = some entry → entry.state = .hot) →
        w'.trackedIps = insert ip w.trackedIps ∧ w'.entries.size = w.entries.size + 1 ∧
          ∀ ip', ip' ≠ ip → w'.entries.get? ip' = w.entries.get? ip')) ∧
    (∀ fuel, 2 * w.lastSeenHeap.length ≤ fuel →
      findVictim fuel w [] = findVictim (2 * w.lastSeenHeap.length) w []) ∧
    ((∃ c, w.counterOf ip = .ok c ∧
        (start.fmod c.bucketSeconds ≠ 0 ∨ delta < 0 ∨ c.isLive start now = false)) ∨
      (∃ e, w.observe ip start delta now = .error e) →
      w.call now (.observe ip start delta) = w) := by
  have hqueued : Queued w [] := hw ▸ queued_run hmake calls
  have hstates : ∀ {state : IpState}, state = .cold → state ≠ .hot := by
    rintro state rfl
    exact nofun
  refine ⟨fun change w' hget hfull hr => ?_, fun fuel hfuel => ?_, call_observe_refused⟩
  · obtain ⟨victim, entry, hvictim, hcold, hrest⟩ | ⟨hall, hrest⟩ := hqueued.observe_full hget hfull hr
    · exact ⟨fun _ => ⟨victim, entry, hvictim, hcold, hrest⟩,
        fun hall => absurd (hall victim entry hvictim) (hstates hcold)⟩
    · refine ⟨?_, fun _ => hrest⟩
      rintro ⟨ip', other, hother, hcold⟩
      exact absurd (hall ip' other hother) (hstates hcold)
  · exact hqueued.findVictim_fuel (w.turnsLeft_le.trans hfuel) w.turnsLeft_le

/-- With room for one IP, the second that is seen takes the place of the first. -/
theorem capacity_victim_one : ∃ w₀ change w', make 0 Ingest.defaultConfig 0 [] 0 1 = .ok w₀ ∧
    (w₀.run [(5, .observe ⟨.ipv4, 1, by decide⟩ 0 5)]).observe ⟨.ipv4, 2, by decide⟩ 10 1 15 =
      .ok (some change, w') ∧
    w'.entries.size = (w₀.run [(5, .observe ⟨.ipv4, 1, by decide⟩ 0 5)]).entries.size := by
  have hvictim := (capacity_victim
    (show make 0 Ingest.defaultConfig 0 [] 0 1 = .ok _ from rfl)
    [(5, .observe ⟨.ipv4, 1, by decide⟩ 0 5)] rfl ⟨.ipv4, 2, by decide⟩ 10 1 15).1 _ _ rfl
    (by decide) rfl
  obtain ⟨victim, entry, -, -, -, -, hsize, -⟩ := hvictim.1 ⟨⟨.ipv4, 1, by decide⟩, _, rfl, rfl⟩
  exact ⟨_, _, _, rfl, rfl, hsize⟩

end ShardWindow

end Hammertime.Aggregator
