import Hammertime.Trie.CatchUp

/-!
# What a reader of the prefix-stats log knows

A reader that keeps the last count told of each prefix has the counts of the trie, for every prefix
that is reported on: each message tells the whole count and not a difference, an event tells the counts
of all the prefixes that it changes, and the log has the events in their order.
-/

namespace Hammertime.Trie

open Codec (Library)
open Lib Bus

/-- The last count that is told of each prefix, 0 where none is. -/
def lastCounts (facts : List StatsFact) : Prefix → ℤ :=
  facts.foldl (fun counts fact => Function.update counts fact.pfx fact.hotCount) fun _ => 0

/-- A fact of a prefix that is told once in a block is what a reader has of the prefix after it. -/
theorem lastCounts_append_of_mem {facts block : List StatsFact} {fact : StatsFact}
    (hnodup : (block.map StatsFact.pfx).Nodup) (hfact : fact ∈ block) :
    lastCounts (facts ++ block) fact.pfx = fact.hotCount := by
  induction block using List.reverseRecOn with
  | nil => exact absurd hfact List.not_mem_nil
  | append_singleton block last ih =>
    rw [List.map_append, List.nodup_append] at hnodup
    obtain ⟨hfirst, -, hdisjoint⟩ := hnodup
    have hstep : lastCounts (facts ++ (block ++ [last])) =
        Function.update (lastCounts (facts ++ block)) last.pfx last.hotCount := by
      unfold lastCounts
      rw [← List.append_assoc, List.foldl_append]
      rfl
    rw [hstep]
    rcases List.mem_append.mp hfact with hmem | hmem
    · have hne : fact.pfx ≠ last.pfx :=
        hdisjoint _ (List.mem_map_of_mem hmem) _ (List.mem_singleton.mpr rfl)
      rw [Function.update_of_ne hne]
      exact ih hfirst hmem
    · rw [List.mem_singleton.mp hmem, Function.update_self]

/-- A block that tells nothing of a prefix leaves what a reader has of it. -/
theorem lastCounts_append_of_notMem {facts block : List StatsFact} {p : Prefix}
    (h : ∀ fact ∈ block, fact.pfx ≠ p) : lastCounts (facts ++ block) p = lastCounts facts p := by
  induction block using List.reverseRecOn with
  | nil => rw [List.append_nil]
  | append_singleton block last ih =>
    have hstep : lastCounts (facts ++ (block ++ [last])) =
        Function.update (lastCounts (facts ++ block)) last.pfx last.hotCount := by
      unfold lastCounts
      rw [← List.append_assoc, List.foldl_append]
      rfl
    have hlast : p ≠ last.pfx := (h last (by simp)).symm
    rw [hstep, Function.update_of_ne hlast]
    exact ih fun fact hfact => h fact (List.mem_append_left _ hfact)

variable {library : Library} {publisher : PrefixStatsPublisher} {served : Finset AddressFamily}
  {log : List Bus.Record} {reading : Reading} {message : ConsumedMessage}

/-- A prefix that the trie service reports on. -/
structure Reported (publisher : PrefixStatsPublisher) (served : Finset AddressFamily) (p : Prefix) :
    Prop where
  served : p.family ∈ served
  length : publisher.minPrefixLength p.family ≤ p.length

/-- An event changes the HOT addresses under the prefixes that contain its address, and no others. -/
theorem Reading.under_absorb {payload : Codec.HotIpEvent}
    (hchange : change library served reading message = some payload) {p : Prefix}
    (hp : p.contains payload.ip = false) :
    (reading.absorb library served message).under p = reading.under p := by
  obtain ⟨hdecode, hserved, -⟩ := change_served hchange
  unfold Reading.under Reading.absorb
  rw [hdecode]
  dsimp only
  rw [if_pos hserved]
  dsimp only
  ext a
  rw [Set.mem_ofPred_eq, Set.mem_ofPred_eq]
  by_cases ha : a = payload.ip
  · rw [ha, hp]
    simp
  · rw [if_neg ha]

/-- A message that is no change leaves the HOT addresses. -/
theorem Reading.under_absorb_unchanged (hchange : change library served reading message = none)
    (p : Prefix) : (reading.absorb library served message).under p = reading.under p := by
  unfold change at hchange
  unfold Reading.under Reading.absorb
  cases hdecode : decodeMessage library message with
  | error reason => rfl
  | ok payload =>
    rw [hdecode] at hchange
    dsimp only at hchange ⊢
    by_cases hserved : payload.ip.family ∈ served
    · have hsame : (reading.records payload.ip).isSome = (recordAfter library payload).isSome := by
        by_contra hne
        rw [if_pos ⟨hserved, hne⟩] at hchange
        cases hchange
      rw [if_pos hserved]
      dsimp only
      ext a
      rw [Set.mem_ofPred_eq, Set.mem_ofPred_eq]
      by_cases ha : a = payload.ip
      · rw [if_pos ha, ha, hsame]
      · rw [if_neg ha]
    · rw [if_neg hserved]

/-- The facts of an event are about the prefixes of its address. -/
theorem mem_statsFacts {ip : Address} {sequence : ℤ} {fact : StatsFact}
    (h : fact ∈ statsFacts publisher reading ip sequence) : fact.pfx.contains ip = true := by
  unfold statsFacts at h
  obtain ⟨l, hl, rfl⟩ := List.mem_map.mp h
  obtain ⟨hlow, hhigh⟩ := List.mem_range'_1.mp hl
  exact (prefixAt_contains (by omega) ip).mpr ⟨rfl, rfl⟩

/-- And about all of these that are reported on. -/
theorem exists_statsFact {ip : Address} {sequence : ℤ} {p : Prefix} (hp : p.contains ip = true)
    (hlength : publisher.minPrefixLength p.family ≤ p.length) :
    ⟨p, sequence, (reading.under p).ncard⟩ ∈ statsFacts publisher reading ip sequence := by
  have hfamily := (network_of_contains hp).1
  have hlong := p.length_le
  unfold statsFacts
  refine List.mem_map.mpr ⟨p.length, List.mem_range'_1.mpr ?_, ?_⟩
  · rw [hfamily]
    omega
  · rw [hfamily, ← eq_prefixAt hp]

/-- After the blocks of the first events a reader has the counts after these events. -/
theorem lastCounts_blocks {count : ℕ} (hcount : count ≤ log.length) {part : ℕ → List StatsFact}
    (hpart : ∀ i < count, (part i).Perm (factsAt library publisher served log i)) {p : Prefix}
    (hp : Reported publisher served p) :
    lastCounts ((List.range count).flatMap part) p =
      ((readingAt library served log count).under p).ncard := by
  induction count with
  | zero =>
    have hempty : (readingAt library served log 0).under p = ∅ := by
      ext a
      exact iff_of_false (fun h => Bool.false_ne_true h.1) (Set.notMem_empty a)
    rw [hempty, Set.ncard_empty]
    rfl
  | succ count ih =>
    have hbefore := ih (Nat.le_of_succ_le hcount) fun i hi => hpart i (Nat.lt_succ_of_lt hi)
    have hblock := hpart count (Nat.lt_succ_self count)
    obtain ⟨message, hmessage⟩ : ∃ message, (logMessages log)[count]? = some message :=
      ⟨_, List.getElem?_eq_getElem (length_logMessages.symm ▸ hcount)⟩
    have hnext : readingAt library served log (count + 1) =
        (readingAt library served log count).absorb library served message :=
      readingAt_succ hmessage
    rw [List.range_succ, List.flatMap_append, List.flatMap_singleton]
    cases hchange : change library served (readingAt library served log count) message with
    | none =>
      rw [factsAt_of_unchanged hmessage hchange] at hblock
      rw [hblock.eq_nil, List.append_nil, hbefore, hnext, Reading.under_absorb_unchanged hchange]
    | some payload =>
      rw [factsAt_of_change hmessage hchange] at hblock
      cases hcontains : p.contains payload.ip with
      | true =>
        -- The event tells the count of the prefix.
        have hfact : ⟨p, (count + 1 : ℤ), ((readingAt library served log (count + 1)).under p).ncard⟩
            ∈ part count := hblock.mem_iff.mpr (exists_statsFact hcontains hp.length)
        have hfacts : ((factsAt library publisher served log count).map StatsFact.pfx).Nodup :=
          factsAt_prefixes
        have hnodup : ((part count).map StatsFact.pfx).Nodup := by
          rw [factsAt_of_change hmessage hchange] at hfacts
          exact (hblock.map _).nodup_iff.mpr hfacts
        exact lastCounts_append_of_mem hnodup hfact
      | false =>
        -- The event tells nothing of the prefix, and its count is as it was.
        have hnone : ∀ fact ∈ part count, fact.pfx ≠ p := by
          intro fact hfact heq
          have hin := mem_statsFacts (hblock.mem_iff.mp hfact)
          rw [heq, hcontains] at hin
          cases hin
        rw [lastCounts_append_of_notMem hnone, hbefore, hnext, Reading.under_absorb hchange hcontains]

/-- **A reader of the log has the counts of the trie.** Whatever crashes and failed publishes there
were on `InMemoryBus`, once a process of the service has caught up, the last count that the
prefix-stats log tells of each prefix that is reported on is the count that the process's trie
answers for it. -/
theorem last_counts_current (library : Library) (hdigest : Ingest.DigestInjective library)
    (publisher : PrefixStatsPublisher) (served : Finset AddressFamily)
    (actions : List ProcessAction) :
    let system := TrieSystem.run library publisher served actions
    ∃ facts, List.Forall₂ (Tells library) (system.bus.logs prefixStatsTopic) facts ∧
      ∀ process ∈ system.process, process.caughtUp = true →
        ∀ p, Reported publisher served p → 0 ≤ p.network → p.network < 2^p.family.bitLength →
          ∃ fs, process.worker.state.families p.family = some fs ∧
            fs.trie.hotCount p = .ok (lastCounts facts p) := by
  dsimp only
  obtain ⟨facts, index, h⟩ := consistent_run hdigest publisher served actions
  refine ⟨facts, h.holds.tells, fun process hprocess hcaught p hp hlow hhigh => ?_⟩
  obtain ⟨count, hserving⟩ := h.process process hprocess
  obtain ⟨part, hpart, hfacts⟩ := h.through hserving hcaught
  obtain ⟨fs, hfs, hin⟩ := hserving.shows.pair _ hp.served
  refine ⟨fs, hfs, ?_⟩
  rw [hin.represents.hotCount rfl hlow hhigh, ← hin.ncard_under rfl, hfacts,
    lastCounts_blocks (hserving.handled.trans h.within) hpart hp]

/-- After an event that adds an address, a reader of the log and the trie have one HOT address under
`1.0.0.0/8`. -/
theorem last_counts_current_sample : ∃ key value process facts fs,
    let system := TrieSystem.run (Codec.libraryWith none (by simp)) .default {.ipv4}
      (sampleRecovery key value)
    system.process = some process ∧
      List.Forall₂ (Tells (Codec.libraryWith none (by simp))) (system.bus.logs prefixStatsTopic)
        facts ∧
      process.worker.state.families .ipv4 = some fs ∧
      fs.trie.hotCount (prefixAt .ipv4 sampleAddress.value 8) = .ok 1 ∧
      lastCounts facts (prefixAt .ipv4 sampleAddress.value 8) = 1 := by
  obtain ⟨library, hlibrary, hlimit, hdigest⟩ := exists_sampleLibrary
  obtain ⟨key, value, payload, hadds⟩ := exists_adds hlimit
  obtain ⟨process, hruns, hcaught, hsequence⟩ := exists_sampleRecovery hlimit hdigest key value
  obtain ⟨facts, htells, hcurrent⟩ := last_counts_current library hdigest .default {.ipv4}
    (sampleRecovery key value)
  obtain ⟨fs, hfs, hlast⟩ := hcurrent process hruns hcaught (prefixAt .ipv4 sampleAddress.value 8)
    ⟨Finset.mem_singleton_self _, le_rfl⟩ (by decide) (by decide)
  -- The trie has the one address.
  obtain ⟨_, _, hconsistent⟩ := consistent_run hdigest PrefixStatsPublisher.default {.ipv4}
    (sampleRecovery key value)
  obtain ⟨count, hserving⟩ := hconsistent.process process hruns
  have hcount := hserving.shows.eventSequence (hserving.handled.trans hconsistent.within)
  obtain rfl : count = 1 := by exact_mod_cast hcount.symm.trans hsequence
  obtain ⟨fs', hfs', hin⟩ := hserving.shows.pair .ipv4 (Finset.mem_singleton_self _)
  obtain rfl : fs = fs' := Option.some.inj (hfs.symm.trans hfs')
  have hone : fs.trie.hotCount (prefixAt .ipv4 sampleAddress.value 8) = .ok 1 := by
    rw [hin.represents.hotCount rfl (by decide) (by decide), ← hin.ncard_under rfl,
      (logs_sample library key value).2, hadds.ncard_under (by decide)]
    rfl
  have hsame : Except.ok (lastCounts facts (prefixAt .ipv4 sampleAddress.value 8)) = _ :=
    hlast.symm.trans hone
  rw [← hlibrary]
  exact ⟨key, value, process, facts, fs, hruns, htells, hfs, hone, Except.ok.inj hsame⟩

end Hammertime.Trie
