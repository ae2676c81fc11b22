import Hammertime.Trie.StatsLog

/-!
# Preparing the stats never refuses

`prepare` runs between the apply step and the publish, and an event whose stats it refused would stop
every process of the service at the same place. It refuses none: the counts of the trie are not
negative and at most the capacities, `hot_ratio` is the float nearest to a fraction of at most one, and
the codec writes every message.
-/

namespace Hammertime.Trie

open Bits
open Codec (Library PyObject DateTime)
open Lib Bus

variable {library : Library}

/-! ### `hot_ratio` -/

theorem capacity_pos (p : Prefix) : 0 < p.capacity := by
  unfold Prefix.capacity
  positivity

/-- **`hot_ratio` is narrowed once.** The ratio of a count that the prefix has room for is the float
nearest to the exact fraction, between 0 and 1. -/
theorem hotRatio_nearest (p : Prefix) {hotCount : ℤ} (h0 : 0 ≤ hotCount)
    (h1 : hotCount ≤ p.capacity) :
    NearestFloat ((hotCount : ℚ) / p.capacity) (p.hotRatio hotCount) ∧
      0 ≤ (p.hotRatio hotCount).value ∧ (p.hotRatio hotCount).value ≤ 1 := by
  have hcapacity : (0 : ℚ) < p.capacity := Int.cast_pos.mpr (capacity_pos p)
  have hlow : (0 : ℚ) ≤ hotCount / p.capacity :=
    div_nonneg (by exact_mod_cast h0) hcapacity.le
  have hhigh : (hotCount : ℚ) / p.capacity ≤ 1 :=
    (div_le_one hcapacity).mpr (Int.cast_le.mpr h1)
  have hnear : NearestFloat ((hotCount : ℚ) / p.capacity) (p.hotRatio hotCount) :=
    nearestFloat_floatOfFraction hlow (hhigh.trans_lt (one_lt_zpow₀ one_lt_two (by norm_num)))
  refine ⟨hnear, ?_, ?_⟩
  · have hzero := hnear.le_value (g := .zero) (by decide) (by rw [Codec.value_zero]; exact hlow)
    rwa [Codec.value_zero] at hzero
  · have hone := hnear.value_le (g := .one) (by decide) (by rw [Codec.value_one]; exact hhigh)
    rwa [Codec.value_one] at hone

/-- The codec takes it. -/
theorem encodeHotRatio_hotRatio (p : Prefix) {hotCount : ℤ} (h0 : 0 ≤ hotCount)
    (h1 : hotCount ≤ p.capacity) :
    Codec.encodeHotRatio (some (.float (p.hotRatio hotCount))) =
      .ok [Codec.field "hot_ratio" (.float (p.hotRatio hotCount))] := by
  obtain ⟨hnear, hlow, hhigh⟩ := hotRatio_nearest p h0 h1
  have hrange : Codec.rangeViolation (p.hotRatio hotCount).value "hot_ratio"
      Codec.prefixStatsHotRatio = none := by
    rw [Codec.rangeViolation_eq_none]
    refine ⟨by simpa [Codec.prefixStatsHotRatio] using hlow, ?_⟩
    rintro maximum ⟨⟩
    simpa using hhigh
  have hbounded : Codec.boundedRatio (.float (p.hotRatio hotCount)) "hot_ratio"
      Codec.prefixStatsHotRatio = .ok (p.hotRatio hotCount) := by
    unfold Codec.boundedRatio
    dsimp only
    rw [if_pos hnear.finite, hrange]
  unfold Codec.encodeHotRatio
  dsimp only
  rw [hbounded]
  rfl

/-! ### One message -/

/-- A bound without a maximum. -/
theorem contains_of_nonneg {n : ℤ} (h : 0 ≤ n) : Codec.Range.Contains ⟨0, none⟩ n := by
  refine ⟨by exact_mod_cast h, fun maximum hmaximum => ?_⟩
  cases hmaximum

theorem natAbs_lt_of_le_two_pow {n : ℤ} (h0 : 0 ≤ n) (h : n ≤ 2 ^ 128) : n.natAbs < 10 ^ 640 := by
  have hnat : n.natAbs ≤ 2 ^ 128 := by
    zify
    rwa [abs_of_nonneg h0]
  have hten : 1 ≤ 10 := by norm_num
  have hlong : 128 ≤ 640 := by norm_num
  have hpow : 2 ^ 128 < 10 ^ 128 := Nat.pow_lt_pow_left (by norm_num) (by norm_num)
  exact (hnat.trans_lt hpow).trans_le (pow_le_pow_right₀ hten hlong)

theorem capacity_le (p : Prefix) : p.capacity ≤ 2 ^ 128 := by
  have hwidth : p.family.bitLength ≤ 128 := by
    cases p.family <;> decide
  have hbits : p.family.bitLength - p.length ≤ 128 := (Nat.sub_le _ _).trans hwidth
  exact pow_le_pow_right₀ one_le_two hbits

/-- A prefix whose network is an address of the family has a text. -/
theorem exists_text (library : Library) {p : Prefix} (hlow : 0 ≤ p.network)
    (hhigh : p.network < 2 ^ p.family.bitLength) : ∃ text, p.text library = some text := by
  unfold Prefix.text Address.make?
  have hwidth : p.network.toNat < 2 ^ p.family.bitLength := by
    zify
    rw [Int.toNat_of_nonneg hlow]
    exact hhigh
  rw [dif_pos ⟨hlow, hwidth⟩]
  exact ⟨_, rfl⟩

/-- The payload of a message is written. -/
theorem exists_encodePrefixStats {sequence : ℤ} {timestamp : DateTime} {stats : PrefixStats}
    (text : String) (hcount : stats.hotCount ≤ stats.pfx.capacity) (hsequence : 0 ≤ sequence)
    (hs : library.within sequence = true) (hutc : timestamp.offset = some 0) :
    ∃ data, Codec.encodePrefixStatsChanged library (statsPayload stats text sequence timestamp) =
      .ok data ∧ Json.dumpable library.within (.obj data) = true := by
  have hcountWithin : library.within stats.hotCount = true :=
    library.within_of_lt (natAbs_lt_of_le_two_pow stats.hotCount_nonneg
      (hcount.trans (capacity_le _)))
  have hcapacityWithin : library.within stats.pfx.capacity = true :=
    library.within_of_lt (natAbs_lt_of_le_two_pow (capacity_pos _).le (capacity_le _))
  obtain ⟨capacity, hcapacity⟩ := Int.eq_ofNat_of_zero_le (capacity_pos stats.pfx).le
  have hcountField : Codec.boundedIntegerField (.int stats.hotCount) "hot_count"
      Codec.prefixStatsHotCount = .ok stats.hotCount :=
    Codec.boundedIntegerField_ok.mpr ⟨rfl, contains_of_nonneg stats.hotCount_nonneg⟩
  have hsequenceField : Codec.boundedIntegerField (.int sequence) "sequence"
      Codec.prefixStatsSequence = .ok sequence :=
    Codec.boundedIntegerField_ok.mpr ⟨rfl, contains_of_nonneg hsequence⟩
  have hcapacityField : Codec.encodeCapacity library (.int stats.pfx.capacity) =
      .ok (Text.ofString capacity.repr) := by
    refine Codec.encodeCapacity_ok.mpr ⟨capacity, ?_, hcapacity ▸ hcapacityWithin, rfl⟩
    rw [hcapacity]
    rfl
  have htime : Codec.formatTimestamp library timestamp "timestamp" =
      .ok (library.isoformat timestamp) :=
    (Codec.formatTimestamp_ok library).mpr ⟨_, Codec.DateTime.isUtc_self hutc, rfl⟩
  refine ⟨[Codec.field "prefix" (.str (Text.ofString text)),
    Codec.field "hot_count" (.int stats.hotCount),
    Codec.field "capacity" (.str (Text.ofString capacity.repr)),
    Codec.field "sequence" (.int sequence),
    Codec.field "timestamp" (Codec.text (library.isoformat timestamp))] ++
      [Codec.field "hot_ratio" (.float (stats.pfx.hotRatio stats.hotCount))], ?_, ?_⟩
  · unfold Codec.encodePrefixStatsChanged statsPayload
    dsimp only
    rw [hcountField, hcapacityField, hsequenceField, htime,
      encodeHotRatio_hotRatio stats.pfx stats.hotCount_nonneg hcount]
    rfl
  · have hfinite := (hotRatio_nearest stats.pfx stats.hotCount_nonneg hcount).1.finite
    have hratio : Json.dumpable library.within
        (.float (stats.pfx.hotRatio stats.hotCount)) = true := hfinite
    rw [Json.dumpable_obj]
    simp [Codec.field, Codec.text, Json.dumpable_int, Json.dumpable_str, hcountWithin, hs, hratio]

/-- One turn of the loop of `prepare` returns. -/
theorem exists_prepareOne {sequence configVersion : ℤ} {timestamp : DateTime} {stats : PrefixStats}
    (hlow : 0 ≤ stats.pfx.network) (hhigh : stats.pfx.network < 2 ^ stats.pfx.family.bitLength)
    (hcount : stats.hotCount ≤ stats.pfx.capacity) (hsequence : 0 ≤ sequence)
    (hs : library.within sequence = true) (hc : library.within configVersion = true)
    (hutc : timestamp.offset = some 0) :
    ∃ message, prepareOne library sequence configVersion timestamp stats = .ok message := by
  obtain ⟨text, htext⟩ := exists_text library hlow hhigh
  obtain ⟨data, hdata, hdumpable⟩ := exists_encodePrefixStats text hcount hsequence hs hutc
  have hmake : ∃ envelope, Codec.makeEnvelope (.plain agentId) (.int sequence) (.plain eventType)
      (.int configVersion) timestamp
      (.prefixStatsChanged (statsPayload stats text sequence timestamp)) (.int Codec.schemaVersion)
      ((some (Text.ofString text)).map .plain) = .ok envelope :=
    ⟨_, dif_neg (statsIdentity_wellFormed sequence text)⟩
  obtain ⟨envelope, hmake⟩ := hmake
  obtain ⟨-, -, hseq, htype, hconfig, htimestamp, hpayload, hschema, -⟩ :=
    Codec.makeEnvelope_plain hmake
  have hencode : ∃ value, Codec.encode library envelope = .ok value := by
    refine ⟨_, Codec.encode_ok.mpr ⟨?_, by rw [hschema]; rfl, sequence, configVersion, timestamp,
      data, by rw [hseq]; rfl, by rw [hconfig]; rfl, ?_, ?_,
      Codec.dumps_ok.mpr ⟨Codec.dumpable_envelopeFields hs hc hdumpable, rfl⟩⟩⟩
    · rw [htype]
      decide
    · rw [htimestamp]
      exact Codec.DateTime.isUtc_self hutc
    · rw [htype, hpayload]
      exact hdata
  obtain ⟨value, hvalue⟩ := hencode
  refine ⟨⟨text, value, envelope.eventId library⟩, ?_⟩
  unfold prepareOne
  rw [htext]
  dsimp only
  rw [Option.map_some] at hmake
  rw [hmake]
  show Except.mapError PrepareError.codec (Codec.encode library envelope >>= _) = _
  rw [hvalue]
  rfl

/-! ### All messages of an event -/

/-- A loop returns where every turn does. -/
theorem exists_mapM_ok {ε α β : Type} {f : α → Except ε β} {l : List α}
    (h : ∀ a ∈ l, ∃ b, f a = .ok b) : ∃ l', l.mapM f = .ok l' := by
  induction l with
  | nil => exact ⟨[], rfl⟩
  | cons a l ih =>
    obtain ⟨b, hb⟩ := h a List.mem_cons_self
    obtain ⟨l', hl'⟩ := ih fun a' ha' => h a' (List.mem_cons_of_mem _ ha')
    refine ⟨b :: l', ?_⟩
    rw [List.mapM_cons, hb, hl']
    rfl

/-- No more values have the same first bits than the other bits tell apart. -/
theorem countUnder_le {w : ℕ} {L : List ℕ} (hL : L.Nodup) (l x : ℕ) :
    countUnder w L l x ≤ 2 ^ (w - l) := by
  have hsub : (L.filter fun v => top w l v = top w l x).toFinset ⊆
      Finset.Ico (top w l x * 2 ^ (w - l)) (top w l x * 2 ^ (w - l) + 2 ^ (w - l)) := by
    intro v hv
    rw [List.mem_toFinset, List.mem_filter, decide_eq_true_eq] at hv
    have hdiv : v / 2 ^ (w - l) = top w l x := hv.2
    have hmod := Nat.mod_lt v (Nat.two_pow_pos (w - l))
    have hsplit := Nat.div_add_mod' v (2 ^ (w - l))
    rw [hdiv] at hsplit
    rw [Finset.mem_Ico]
    omega
  have hcard := Finset.card_le_card hsub
  rw [Nat.card_Ico, Nat.add_sub_cancel_left, List.toFinset_card_of_nodup (hL.filter _)] at hcard
  rw [countUnder, List.countP_eq_length_filter]
  exact hcard

variable {served : Finset AddressFamily} {reading : Reading} {state : TrieState}

/-- **`prepare` refuses no event.** In a state that shows what the log told, the stats of an address of
a family that is served are prepared. -/
theorem Shows.exists_prepare (h : Shows served reading state) (publisher : PrefixStatsPublisher)
    {ip : Address} (hserved : ip.family ∈ served) {sequence configVersion : ℤ}
    {timestamp : DateTime} (hsequence : 0 ≤ sequence) (hs : library.within sequence = true)
    (hc : library.within configVersion = true) (hutc : timestamp.offset = some 0) :
    ∃ fs prepared, state.families ip.family = some fs ∧
      publisher.prepare library fs.trie ip sequence configVersion timestamp = .ok prepared := by
  obtain ⟨fs, hfs, hin⟩ := h.pair _ hserved
  refine ⟨fs, ?_⟩
  obtain ⟨hfamily, hH, o, hintact, hvalues⟩ := hin.represents
  have hcounts := hintact.ancestorCounts_eq (m := publisher.minPrefixLength ip.family)
    hfamily.symm (by
      rw [PatriciaTrie.bitLength, hfamily]
      exact publisher.minPrefixLength_le ip.family)
  rw [hvalues, hfamily] at hcounts
  generalize hL : HotSet.values fs.records.records.keys.toFinset = L at hcounts
  have hnodup : L.Nodup := hL ▸ (HotSet.values_sorted _).imp fun hlt => hlt.ne
  have hstats : ∃ stats, ancestorStats fs.trie ip (publisher.minPrefixLength fs.trie.family) =
      .ok stats ∧ ∀ s ∈ stats, ∃ l ≤ ip.family.bitLength, s.pfx = prefixAt ip.family ip.value l ∧
        s.hotCount = countUnder ip.family.bitLength L l ip.value := by
    have hmap : ∃ stats, (ancestorsOf ip.family L ip.value
        (publisher.minPrefixLength ip.family)).mapM PrefixStats.make = .ok stats := by
      refine exists_mapM_ok fun count hcount => ?_
      unfold ancestorsOf at hcount
      obtain ⟨l, -, rfl⟩ := List.mem_map.mp hcount
      exact ⟨_, dif_pos (Int.natCast_nonneg _)⟩
    obtain ⟨stats, hmap⟩ := hmap
    refine ⟨stats, ?_, fun s hmem => ?_⟩
    · unfold ancestorStats
      rw [hfamily, hcounts]
      exact hmap
    · rw [Codec.mapM_ok] at hmap
      obtain ⟨count, hcount, hmake⟩ := forall₂_exists_left hmap hmem
      unfold ancestorsOf at hcount
      obtain ⟨l, hl, rfl⟩ := List.mem_map.mp hcount
      obtain ⟨hlow, hhigh⟩ := List.mem_range'_1.mp hl
      have hshortest := publisher.minPrefixLength_le ip.family
      unfold PrefixStats.make at hmake
      split_ifs at hmake
      cases hmake
      exact ⟨l, by omega, rfl, rfl⟩
  obtain ⟨stats, hstats, hall⟩ := hstats
  have hmessages : ∃ messages,
      stats.mapM (prepareOne library sequence configVersion timestamp) = .ok messages := by
    refine exists_mapM_ok fun s hmem => ?_
    obtain ⟨l, hl, hpfx, hcount⟩ := hall s hmem
    have hlength : (prefixAt ip.family ip.value l).length = l := prefixAt_length _ hl
    have hnetwork : (prefixAt ip.family ip.value l).network =
        (cleared ip.family.bitLength l ip.value : ℕ) := by
      simp [prefixAt, min_eq_left hl]
    refine exists_prepareOne ?_ ?_ ?_ hsequence hs hc hutc
    · rw [hpfx, hnetwork]
      exact Int.natCast_nonneg _
    · rw [hpfx, hnetwork]
      have hcleared : cleared ip.family.bitLength l ip.value ≤ ip.value := Nat.div_mul_le_self _ _
      exact_mod_cast hcleared.trans_lt ip.inRange
    · rw [hcount, hpfx]
      unfold Prefix.capacity
      rw [hlength]
      exact_mod_cast countUnder_le hnodup l ip.value
  obtain ⟨messages, hmessages⟩ := hmessages
  refine ⟨⟨fs.trie.family, sequence, messages⟩, hfs, ?_⟩
  unfold PrefixStatsPublisher.prepare
  rw [hstats]
  show (stats.mapM (prepareOne library sequence configVersion timestamp) >>= _) = _
  rw [hmessages]
  rfl

end Hammertime.Trie
