import Hammertime.Codec.RoundTrip

/-!
# What decode returns can be encoded again

Whatever a document's spellings, the envelope that `decode` makes of it is a normal form: it encodes,
and decoding that gives the envelope again.
-/

namespace Hammertime.Codec

open Lib Attributes

variable {library : Library}

/-! ### Numbers of a loaded document -/

theorem mem_of_lookup {key : Text} {fields : List (Text × Json)} {value : Json}
    (h : Dict.lookup key fields = some value) : (key, value) ∈ fields := by
  induction fields with
  | nil => cases h
  | cons p rest ih =>
    rw [Dict.lookup] at h
    split_ifs at h with hp
    · cases h
      rw [← hp]
      exact List.mem_cons_self
    · exact List.mem_cons_of_mem _ (ih h)

/-- A part of a loaded document is loaded, and has well-formed strings if the whole does. -/
theorem loaded_of_require {data : List (Text × Json)} {key : String} {value : Json}
    (hloaded : loaded library.intMaxStrDigits (.obj data) = true) (h : require data key = .ok value) :
    loaded library.intMaxStrDigits value = true := by
  have hmem := mem_of_lookup (require_ok.mp h)
  exact (loaded_obj.mp hloaded).2 _ hmem

theorem not_hasSurrogate_of_require {data : List (Text × Json)} {key : String} {value : Json}
    (hwell : ¬ Json.HasSurrogate (.obj data)) (h : require data key = .ok value) :
    ¬ value.HasSurrogate := by
  intro hs
  exact hwell (Json.hasSurrogate_obj.mpr ⟨_, mem_of_lookup (require_ok.mp h), .inr hs⟩)

/-- The largest magnitude of a float. -/
theorem Float64.abs_value_lt (f : Float64) {k : ℕ} (hk : 1025 ≤ k) : |f.value| < 2 ^ k := by
  have hs : (f.significand : ℚ) < 2 ^ 52 := by
    have : f.significand < 2 ^ 52 := Nat.mod_lt _ (by norm_num)
    exact_mod_cast this
  have he : f.exponent ≤ 2047 := by
    have : f.exponent < 2 ^ 11 := Nat.mod_lt _ (by norm_num)
    omega
  have hs0 : (0 : ℚ) ≤ f.significand := Nat.cast_nonneg _
  have hpos : ∀ n : ℤ, (0 : ℚ) < 2 ^ n := fun n => zpow_pos (by norm_num) n
  -- The sign does not matter.
  have habs : |f.value| = if f.exponent = 0 then f.significand * (2 : ℚ) ^ (-1074 : ℤ)
      else (2 ^ 52 + f.significand) * (2 : ℚ) ^ ((f.exponent : ℤ) - 1075) := by
    have hsmall := mul_nonneg hs0 (hpos (-1074)).le
    have hlarge := mul_nonneg (by positivity : (0 : ℚ) ≤ 2 ^ 52 + f.significand)
      (hpos ((f.exponent : ℤ) - 1075)).le
    unfold Float64.value
    dsimp only
    split_ifs
    · rw [abs_neg, abs_of_nonneg hsmall]
    · rw [abs_neg, abs_of_nonneg hlarge]
    · rw [abs_of_nonneg hsmall]
    · rw [abs_of_nonneg hlarge]
  rw [habs]
  split_ifs
  · calc (f.significand : ℚ) * (2 : ℚ) ^ (-1074 : ℤ) ≤ f.significand * 1 := by
          refine mul_le_mul_of_nonneg_left ?_ hs0
          exact zpow_le_one_of_nonpos₀ (by norm_num) (by norm_num)
      _ < 2 ^ 52 := by rw [mul_one]; exact hs
      _ ≤ 2 ^ k := pow_le_pow_right₀ (by norm_num) (by omega)
  · have hpow : (2 : ℚ) ^ ((f.exponent : ℤ) - 1075) ≤ 2 ^ ((k : ℤ) - 53) :=
      zpow_le_zpow_right₀ (by norm_num) (by omega)
    calc (2 ^ 52 + (f.significand : ℚ)) * (2 : ℚ) ^ ((f.exponent : ℤ) - 1075)
        ≤ (2 ^ 52 + f.significand) * 2 ^ ((k : ℤ) - 53) :=
          mul_le_mul_of_nonneg_left hpow (by positivity)
      _ < 2 ^ (53 : ℤ) * 2 ^ ((k : ℤ) - 53) := by
          refine mul_lt_mul_of_pos_right ?_ (hpos _)
          norm_num
          linarith
      _ = 2 ^ k := by
          rw [← zpow_add₀ (by norm_num), ← zpow_natCast]
          congr 1
          ring

theorem natAbs_toInt_lt {f : Float64} (h : f.isInteger = true) {k : ℕ} (hk : 1025 ≤ k) :
    f.toInt.natAbs < 2 ^ k := by
  have hden : f.value.den = 1 := by
    unfold Float64.isInteger at h
    simp only [Bool.and_eq_true, decide_eq_true_eq] at h
    exact h.2
  have hvalue : f.value = (f.toInt : ℚ) := by
    rw [Float64.toInt, ← Rat.num_div_den f.value, hden]
    simp
  have hlt := Float64.abs_value_lt f hk
  rw [hvalue] at hlt
  have hint : |f.toInt| < 2 ^ k := by exact_mod_cast hlt
  rw [Int.abs_eq_natAbs] at hint
  exact_mod_cast hint

/-- The integer of an integral float is within every limit. -/
theorem within_toInt {f : Float64} (h : f.isInteger = true) : library.within f.toInt = true := by
  refine library.within_of_lt ?_
  calc f.toInt.natAbs < 2 ^ (3 * 640) := natAbs_toInt_lt h (by norm_num)
    _ = (2 ^ 3) ^ 640 := pow_mul 2 3 640
    _ ≤ 10 ^ 640 := Nat.pow_le_pow_left (by norm_num) _

/-- An integer read from a loaded document is within the limit. -/
theorem within_jsonInteger {value : Json} {name : String} {n : ℤ}
    (hloaded : loaded library.intMaxStrDigits value = true) (h : jsonInteger value name = .ok n) :
    library.within n = true := by
  cases value with
  | int m =>
    cases h
    exact loaded_int.mp hloaded
  | float f =>
    simp only [jsonInteger] at h
    split_ifs at h with hf
    cases h
    exact within_toInt hf
  | _ => cases h

theorem digitsValue_lt {t : Text} {n : ℕ} (h : digitsValue t = some n) : n < 10 ^ t.length := by
  unfold digitsValue at h
  split_ifs at h with hall
  cases h
  have hfold : ∀ (l : List CodePoint) (init : ℕ),
      (l.all fun c => 48 ≤ c.val && c.val ≤ 57) = true →
      l.foldl (fun value c => value * 10 + (c.val - 48)) init < (init + 1) * 10 ^ l.length := by
    intro l
    induction l with
    | nil =>
      intro init _
      simp
    | cons c l ih =>
      intro init hl
      rw [List.all_cons, Bool.and_eq_true, Bool.and_eq_true, decide_eq_true_eq,
        decide_eq_true_eq] at hl
      have hrest := ih (init * 10 + (c.val - 48)) hl.2
      rw [List.foldl_cons, List.length_cons, pow_succ]
      calc _ < (init * 10 + (c.val - 48) + 1) * 10 ^ l.length := hrest
        _ ≤ ((init + 1) * 10) * 10 ^ l.length := Nat.mul_le_mul_right _ (by omega)
        _ = (init + 1) * (10 ^ l.length * 10) := by ring
  simpa using hfold t 0 hall.2

/-- A capacity that was read can be written. -/
theorem decimalString_ok {value : Json} {name : String} {n : ℤ}
    (h : decimalString library value name = .ok n) : ∃ m : ℕ, n = m ∧ library.within m = true := by
  cases value with
  | str t =>
    simp only [decimalString] at h
    cases hd : digitsValue t with
    | none =>
      rw [hd] at h
      cases h
    | some m =>
      rw [hd] at h
      dsimp only at h
      split_ifs at h with hlen
      cases h
      refine ⟨m, rfl, ?_⟩
      unfold Library.within withinDigits
      rw [Option.all_eq_true] at hlen ⊢
      intro digits hdigits
      have hle : t.length ≤ digits := decide_eq_true_iff.mp (hlen digits hdigits)
      exact decide_eq_true
        ((digitsValue_lt hd).trans_le (Nat.pow_le_pow_right (by norm_num) hle))
  | _ => cases h

/-- The rules on the values of an attribute document let it be written. -/
theorem dumpable_of_wellFormed {j : Json} (h : WellFormed j) : j.dumpable library.within = true := by
  induction j using Json.induct with
  | int n =>
    have hn : |n| < ((10 ^ 640 : ℕ) : ℤ) := abs_lt.mpr (by rw [Nat.cast_pow]; exact h)
    have hnat : n.natAbs < 10 ^ 640 := by
      rw [Int.abs_eq_natAbs] at hn
      exact Int.ofNat_lt.mp hn
    exact Json.dumpable_int.mpr (library.within_of_lt hnat)
  | float f => exact h
  | arr items ih => exact Json.dumpable_arr.mpr fun x hx => ih x hx (wellFormed_arr.mp h x hx)
  | obj fields ih =>
    exact Json.dumpable_obj.mpr fun p hp => ih p hp ((wellFormed_obj.mp h).2 p hp).2
  | _ => rfl

/-! ### Fields -/

/-- A timestamp that was read is in UTC. -/
theorem parseTimestamp_offset {value : Json} {name : String} {t : DateTime}
    (h : parseTimestamp library value name = .ok t) : t.offset = some 0 := by
  cases value with
  | str text =>
    simp only [parseTimestamp] at h
    cases hp : library.fromisoformat text with
    | none =>
      rw [hp] at h
      cases h
    | some parsed =>
      rw [hp] at h
      exact (toUtc_ok.mp h).2
  | _ => cases h

theorem formatTimestamp_utc {t : DateTime} (h : t.offset = some 0) (name : String) :
    formatTimestamp library t name = .ok (library.isoformat t) :=
  (formatTimestamp_ok library).mpr ⟨t, DateTime.isUtc_self h, rfl⟩

/-- An integer that was read can be written. -/
theorem boundedIntegerField_decoded {value : Json} {name : String} {bounds : Range} {n : ℤ}
    (h : boundedJsonInteger value name bounds = .ok n) (name' : String) :
    boundedIntegerField (.int n) name' bounds = .ok n :=
  boundedIntegerField_ok.mpr ⟨rfl, (boundedJsonInteger_ok.mp h).2⟩

theorem within_boundedJsonInteger {value : Json} {name : String} {bounds : Range} {n : ℤ}
    (hloaded : loaded library.intMaxStrDigits value = true) (h : boundedJsonInteger value name bounds = .ok n) :
    library.within n = true :=
  within_jsonInteger hloaded (boundedJsonInteger_ok.mp h).1

/-- A plain integer is its own. -/
theorem isInteger_int (n : ℤ) : (PyObject.int n).IsInteger (.int n) := ⟨n, rfl, rfl⟩

/-! ### Payloads -/

theorem decodeAttributes_ok {data : List (Text × Json)} {attributes : Option Document}
    (h : decodeAttributes library data = .ok attributes) :
    attributes = none ∨ ∃ fields, Admissible library.repr fields ∧
      attributes = some (.ofJson (.obj fields)) := by
  unfold decodeAttributes at h
  split at h
  · cases h
    exact .inl rfl
  · obtain ⟨fields, hfields, h⟩ := except_bind_ok.mp h
    cases h
    exact .inr ⟨fields, ((canonicalAttributes_ok library).mp hfields).2, rfl⟩

/-- A hot-ip event that was decoded is normal and encodes. -/
theorem encodeHotIpEvent_decoded {eventType : Text} {data : List (Text × Json)}
    {payload : HotIpEvent} (hloaded : loaded library.intMaxStrDigits (.obj data) = true)
    (h : decodeHotIpEvent library eventType data = .ok payload) :
    payload.withType eventType = payload ∧ payload.Normal library payload ∧
      ∃ written, encodeHotIpEvent library eventType payload = .ok written ∧
        Json.dumpable library.within (.obj written) = true := by
  simp only [decodeHotIpEvent, except_bind_ok, malformed_ok, pure_eq_ok, Except.ok.injEq] at h
  obtain ⟨_, ⟨rawIp, -, ip, -, rawTimestamp, -, timestamp, htimestamp, rawSequence, hrawSequence,
    sequence, hsequence, rawWindowCount, hrawWindowCount, windowCount, hwindowCount,
    rawConfigVersion, hrawConfigVersion, configVersion, hconfigVersion, rfl⟩, attributes,
    hattributes, rfl⟩ := h
  have hoffset := parseTimestamp_offset htimestamp
  have hs := within_boundedJsonInteger (loaded_of_require hloaded hrawSequence) hsequence
  have hw := within_boundedJsonInteger (loaded_of_require hloaded hrawWindowCount) hwindowCount
  have hc := within_boundedJsonInteger (loaded_of_require hloaded hrawConfigVersion)
    hconfigVersion
  have hrest : Option.Rel (IsCanonical library) attributes attributes ∧
      ∃ written, encodeAttributes library attributes = .ok written ∧
        ∀ p ∈ written, Json.dumpable library.within p.2 = true := by
    rcases decodeAttributes_ok hattributes with rfl | ⟨fields, hadm, rfl⟩
    · exact ⟨.none, [], rfl, fun p hp => absurd hp List.not_mem_nil⟩
    · refine ⟨.some ⟨fields, unfolds_ofJson _, hadm, rfl⟩, [field "attributes" (.obj fields)], ?_, ?_⟩
      · simp only [encodeAttributes, canonicalAttributes_ofJson library hadm, ok_bind, pure_eq_ok]
      · intro p hp
        rw [List.mem_singleton.mp hp]
        exact dumpable_of_wellFormed hadm.values
  obtain ⟨hcanonical, written, hwritten, hdumpable⟩ := hrest
  refine ⟨rfl, ⟨rfl, rfl, DateTime.isUtc_self hoffset, isInteger_int _, isInteger_int _,
    isInteger_int _, hcanonical⟩,
    hotIpFields library eventType ip timestamp sequence windowCount configVersion written, ?_, ?_⟩
  · simp only [encodeHotIpEvent, formatTimestamp_utc hoffset, boundedIntegerField_decoded hsequence,
      boundedIntegerField_decoded hwindowCount, boundedIntegerField_decoded hconfigVersion, hwritten,
      ok_bind, pure_eq_ok]
    rfl
  · refine Json.dumpable_obj.mpr (List.forall_mem_append.mpr ⟨?_, hdumpable⟩)
    simp [field, text, Json.dumpable_int, Json.dumpable_str, hs, hw, hc]

theorem decodeHotRatio_ok {data : List (Text × Json)} {hotRatio : Option Ratio}
    (h : decodeHotRatio data = .ok hotRatio) :
    hotRatio = none ∨ ∃ f, boundedRatio (.float f) "hot_ratio" prefixStatsHotRatio = .ok f ∧
      hotRatio = some (.float f) := by
  unfold decodeHotRatio at h
  split at h
  · cases h
    exact .inl rfl
  · obtain ⟨f, hf, h⟩ := except_bind_ok.mp h
    cases h
    exact .inr ⟨f, (boundedRatio_float "hot_ratio" hf).1, rfl⟩

theorem isFinite_of_boundedRatio {f g : Float64} {name : String} {bounds : Range}
    (h : boundedRatio (.float f) name bounds = .ok g) : f.isFinite = true := by
  simp only [boundedRatio] at h
  split_ifs at h with hf
  exact hf

/-- A `PrefixStatsChanged` that was decoded is normal and encodes. -/
theorem encodePrefixStatsChanged_decoded {data : List (Text × Json)} {payload : PrefixStatsChanged}
    (hloaded : loaded library.intMaxStrDigits (.obj data) = true)
    (h : decodePrefixStatsChanged library data = .ok payload) :
    payload.Normal payload ∧
      (¬ Json.HasSurrogate (.obj data) → ¬ payload.prefixText.HasSurrogate) ∧
      ∃ written, encodePrefixStatsChanged library payload = .ok written ∧
        Json.dumpable library.within (.obj written) = true := by
  simp only [decodePrefixStatsChanged, malformed_ok, except_bind_ok, pure_eq_ok,
    Except.ok.injEq] at h
  obtain ⟨rawPrefix, hrawPrefix, rawHotCount, hrawHotCount, hotCount, hhotCount, rawCapacity, -,
    capacity, hcapacity, rawSequence, hrawSequence, sequence, hsequence, rawTimestamp, -, timestamp,
    htimestamp, hotRatio, hhotRatio, rfl⟩ := h
  have hoffset := parseTimestamp_offset htimestamp
  have hh := within_boundedJsonInteger (loaded_of_require hloaded hrawHotCount) hhotCount
  have hs := within_boundedJsonInteger (loaded_of_require hloaded hrawSequence) hsequence
  obtain ⟨n, rfl, hn⟩ := decimalString_ok hcapacity
  have hcapacity' : encodeCapacity library (.int n) = .ok (Text.ofString n.repr) :=
    encodeCapacity_ok.mpr ⟨n, rfl, hn, rfl⟩
  have hrest : Option.Rel Ratio.IsFloat hotRatio hotRatio ∧
      ∃ written, encodeHotRatio hotRatio = .ok written ∧
        ∀ p ∈ written, Json.dumpable library.within p.2 = true := by
    rcases decodeHotRatio_ok hhotRatio with rfl | ⟨f, hf, rfl⟩
    · exact ⟨.none, [], rfl, fun p hp => absurd hp List.not_mem_nil⟩
    · refine ⟨.some rfl, [field "hot_ratio" (.float f)], ?_, ?_⟩
      · simp only [encodeHotRatio, hf, ok_bind, pure_eq_ok]
      · intro p hp
        rw [List.mem_singleton.mp hp]
        exact isFinite_of_boundedRatio hf
  obtain ⟨hfloat, written, hwritten, hdumpable⟩ := hrest
  refine ⟨⟨rfl, isInteger_int _, isInteger_int _, isInteger_int _, DateTime.isUtc_self hoffset,
    hfloat⟩, fun hwell hsurrogate => ?_,
    prefixStatsFields library (library.str rawPrefix) (Text.ofString n.repr) hotCount sequence
      timestamp written, ?_, ?_⟩
  · exact not_hasSurrogate_of_require hwell hrawPrefix (library.str_hasSurrogate _ hsurrogate)
  · simp only [encodePrefixStatsChanged, formatTimestamp_utc hoffset, hcapacity', hwritten,
      boundedIntegerField_decoded hhotCount, boundedIntegerField_decoded hsequence, ok_bind,
      pure_eq_ok]
    rfl
  · refine Json.dumpable_obj.mpr (List.forall_mem_append.mpr ⟨?_, hdumpable⟩)
    simp [field, text, Json.dumpable_int, Json.dumpable_str, hs, hh]

/-- An observation that was decoded is normal and encodes. -/
theorem encodeObservation_decoded {item : Json} {observation : Observation}
    (hloaded : loaded library.intMaxStrDigits item = true) (h : decodeObservation library item = .ok observation) :
    observation.Normal observation ∧ ∃ written, encodeObservation library observation = .ok written ∧
      written.dumpable library.within = true := by
  cases item with
  | obj fields =>
    simp only [decodeObservation, malformed_ok, except_bind_ok, pure_eq_ok, Except.ok.injEq] at h
    obtain ⟨rawIp, -, ip, -, rawCount, hrawCount, count, hcount, rfl⟩ := h
    have hc := within_boundedJsonInteger (loaded_of_require hloaded hrawCount) hcount
    refine ⟨⟨rfl, isInteger_int _⟩, .obj [field "ip" (text (library.addressText ip)),
      field "request_count" (.int count)], ?_, ?_⟩
    · simp only [encodeObservation, boundedIntegerField_decoded hcount, ok_bind, pure_eq_ok]
    · rw [Json.dumpable_obj]
      simp [field, text, Json.dumpable_int, Json.dumpable_str, hc]
  | _ => cases h

theorem encodeObservations_decoded {items : List Json} {observations : List Observation}
    (hloaded : ∀ item ∈ items, loaded library.intMaxStrDigits item = true)
    (h : items.mapM (decodeObservation library) = .ok observations) :
    List.Forall₂ Observation.Normal observations observations ∧
      observations.length = items.length ∧
      ∃ written, observations.mapM (encodeObservation library) = .ok written ∧
        ∀ item ∈ written, Json.dumpable library.within item = true := by
  rw [mapM_ok] at h
  induction h with
  | nil => exact ⟨.nil, rfl, [], rfl, fun item hitem => absurd hitem List.not_mem_nil⟩
  | cons hitem _ ih =>
    obtain ⟨hnormal, hlength, written, hwritten, hdumpable⟩ :=
      ih fun x hx => hloaded x (List.mem_cons_of_mem _ hx)
    obtain ⟨hn, first, hfirst, hd⟩ := encodeObservation_decoded (hloaded _ List.mem_cons_self) hitem
    refine ⟨.cons hn hnormal, by simp [hlength], first :: written, ?_,
      List.forall_mem_cons.mpr ⟨hd, hdumpable⟩⟩
    rw [mapM_ok] at hwritten ⊢
    exact .cons hfirst hwritten

/-- A `RequestObservation` that was decoded is normal and encodes. -/
theorem encodeRequestObservation_decoded {data : List (Text × Json)} {payload : RequestObservation}
    (hloaded : loaded library.intMaxStrDigits (.obj data) = true)
    (h : decodeRequestObservation library data = .ok payload) :
    payload.Normal payload ∧ payload.observations.length ≤ maxObservations ∧
      (¬ Json.HasSurrogate (.obj data) → ¬ payload.agentId.HasSurrogate) ∧
      ∃ written, encodeRequestObservation library payload = .ok written ∧
        Json.dumpable library.within (.obj written) = true := by
  obtain ⟨rawObservations, hrawObservations, h⟩ := except_bind_ok.mp h
  cases rawObservations with
  | arr items =>
    dsimp only at h
    split_ifs at h with hlen
    simp only [malformed_ok, except_bind_ok, pure_eq_ok, Except.ok.injEq] at h
    obtain ⟨observations, hobservations, rawAgentId, hrawAgentId, rawSequence, hrawSequence, sequence,
      hsequence, rawWindowStart, -, windowStart, hwindowStart, rawWindowSeconds, hrawWindowSeconds,
      windowSeconds, hwindowSeconds, rfl⟩ := h
    have hoffset := parseTimestamp_offset hwindowStart
    have hs := within_boundedJsonInteger (loaded_of_require hloaded hrawSequence) hsequence
    have hw := within_boundedJsonInteger (loaded_of_require hloaded hrawWindowSeconds)
      hwindowSeconds
    have hitems := loaded_arr.mp (loaded_of_require hloaded hrawObservations)
    obtain ⟨hnormal, hlength, written, hwritten, hdumpable⟩ :=
      encodeObservations_decoded hitems hobservations
    refine ⟨⟨rfl, isInteger_int _, DateTime.isUtc_self hoffset, isInteger_int _, hnormal⟩,
      hlength ▸ not_lt.mp hlen, fun hwell hsurrogate => ?_,
      [field "agent_id" (.str (library.str rawAgentId)), field "sequence" (.int sequence),
        field "window_start" (text (library.isoformat windowStart)),
        field "window_seconds" (.int windowSeconds), field "observations" (.arr written)], ?_, ?_⟩
    · exact not_hasSurrogate_of_require hwell hrawAgentId (library.str_hasSurrogate _ hsurrogate)
    · simp only [encodeRequestObservation, formatTimestamp_utc hoffset, hwritten,
        boundedIntegerField_decoded hsequence, boundedIntegerField_decoded hwindowSeconds, ok_bind,
        pure_eq_ok]
    · have harr := Json.dumpable_arr.mpr hdumpable
      rw [Json.dumpable_obj]
      simp [field, text, Json.dumpable_int, Json.dumpable_str, hs, hw, harr]
  | _ => cases h

/-- A payload that was decoded is normal, of the class that the event type names, and encodes. -/
theorem encodePayload_decoded {eventType : Text} {data : List (Text × Json)} {payload : EventPayload}
    (hloaded : loaded library.intMaxStrDigits (.obj data) = true)
    (h : decodePayload library eventType data = .ok payload) :
    eventType = Text.ofString payload.className ∧ payload.Normal library payload ∧
      payload.observationCount ≤ maxObservations ∧
      (¬ Json.HasSurrogate (.obj data) → payload.StringsWellFormed) ∧
      ∃ written, encodePayload library eventType payload = .ok written ∧
        Json.dumpable library.within (.obj written) = true := by
  unfold decodePayload at h
  split_ifs at h with hrequest hhot hstats
  · obtain ⟨p, hp, rfl⟩ := Program.except_map_ok.mp h
    obtain ⟨hnormal, hcount, hstrings, written, hwritten, hdumpable⟩ :=
      encodeRequestObservation_decoded hloaded hp
    exact ⟨hrequest, hnormal, hcount, hstrings, written, (if_pos hrequest).trans hwritten, hdumpable⟩
  · obtain ⟨p, hp, rfl⟩ := Program.except_map_ok.mp h
    obtain ⟨htype, hnormal, written, hwritten, hdumpable⟩ := encodeHotIpEvent_decoded hloaded hp
    refine ⟨?_, hnormal, Nat.zero_le _, fun _ => trivial, written, (if_pos hhot).trans hwritten,
      hdumpable⟩
    show eventType = Text.ofString p.type.text
    rw [← htype, withType_text hhot]
  · obtain ⟨p, hp, rfl⟩ := Program.except_map_ok.mp h
    obtain ⟨hnormal, hstrings, written, hwritten, hdumpable⟩ :=
      encodePrefixStatsChanged_decoded hloaded hp
    exact ⟨hstats, hnormal, Nat.zero_le _, hstrings, written, (if_pos hstats).trans hwritten,
      hdumpable⟩

/-! ### A normal form is reached once -/

theorem PyObject.IsInteger.unique {o o' o'' : PyObject} (h : o.IsInteger o')
    (h' : o.IsInteger o'') : o' = o'' := by
  obtain ⟨n, hn, rfl⟩ := h
  obtain ⟨n', hn', rfl⟩ := h'
  rw [hn] at hn'
  cases hn'
  rfl

theorem Ratio.IsFloat.unique {r r' r'' : Ratio} (h : r.IsFloat r') (h' : r.IsFloat r'') :
    r' = r'' := by
  cases r with
  | other => cases h
  | int n => exact Eq.trans h (Eq.symm h')
  | float f => exact Eq.trans h (Eq.symm h')

theorem IsCanonical.unique {d d' d'' : Document} (h : IsCanonical library d d')
    (h' : IsCanonical library d d'') : d' = d'' := by
  obtain ⟨fields, hun, -, rfl⟩ := h
  obtain ⟨fields', hun', -, rfl⟩ := h'
  rw [hun.unique hun']

theorem optionRel_unique {α : Type} {R : α → α → Prop} (hR : ∀ a b c, R a b → R a c → b = c)
    {o o' o'' : Option α} (h : Option.Rel R o o') (h' : Option.Rel R o o'') : o' = o'' := by
  cases h with
  | none =>
    cases h'
    rfl
  | some h =>
    cases h' with
    | some h' => rw [hR _ _ _ h h']

theorem forall₂_unique_right {α : Type} {R : α → α → Prop} (hR : ∀ a b c, R a b → R a c → b = c)
    {l l' l'' : List α} (h : List.Forall₂ R l l') (h' : List.Forall₂ R l l'') : l' = l'' := by
  induction h generalizing l'' with
  | nil =>
    cases h'
    rfl
  | cons h _ ih =>
    cases h' with
    | cons h' hrest => rw [hR _ _ _ h h', ih hrest]

theorem EventPayload.Normal.unique {p p' p'' : EventPayload} (h : p.Normal library p')
    (h' : p.Normal library p'') : p' = p'' := by
  cases p with
  | requestObservation p =>
    cases p' with
    | requestObservation p' =>
      cases p'' with
      | requestObservation p'' =>
        have hobservation : ∀ a b c : Observation, a.Normal b → a.Normal c → b = c :=
          fun a b c hb hc => Observation.ext (hb.ip.trans hc.ip.symm)
            (hb.requestCount.unique hc.requestCount)
        refine congrArg _ (RequestObservation.ext (h.agentId.trans h'.agentId.symm) ?_ ?_ ?_ ?_)
        · exact PyObject.IsInteger.unique h.sequence h'.sequence
        · exact DateTime.IsUtc.unique h.windowStart h'.windowStart
        · exact PyObject.IsInteger.unique h.windowSeconds h'.windowSeconds
        · exact forall₂_unique_right hobservation h.observations h'.observations
      | _ => cases h'
    | _ => cases h
  | hotIp p =>
    cases p' with
    | hotIp p' =>
      cases p'' with
      | hotIp p'' =>
        refine congrArg _ (HotIpEvent.ext (h.type.trans h'.type.symm) (h.ip.trans h'.ip.symm)
          ?_ ?_ ?_ ?_ ?_)
        · exact DateTime.IsUtc.unique h.timestamp h'.timestamp
        · exact PyObject.IsInteger.unique h.sequence h'.sequence
        · exact PyObject.IsInteger.unique h.windowCount h'.windowCount
        · exact PyObject.IsInteger.unique h.configVersion h'.configVersion
        · exact optionRel_unique (R := IsCanonical library) (fun _ _ _ hb hc => hb.unique hc)
            h.attributes h'.attributes
      | _ => cases h'
    | _ => cases h
  | prefixStatsChanged p =>
    cases p' with
    | prefixStatsChanged p' =>
      cases p'' with
      | prefixStatsChanged p'' =>
        refine congrArg _ (PrefixStatsChanged.ext (h.prefixText.trans h'.prefixText.symm)
          ?_ ?_ ?_ ?_ ?_)
        · exact PyObject.IsInteger.unique h.hotCount h'.hotCount
        · exact PyObject.IsInteger.unique h.capacity h'.capacity
        · exact PyObject.IsInteger.unique h.sequence h'.sequence
        · exact DateTime.IsUtc.unique h.timestamp h'.timestamp
        · exact optionRel_unique (R := Ratio.IsFloat) (fun _ _ _ hb hc => hb.unique hc)
            h.hotRatio h'.hotRatio
      | _ => cases h'
    | _ => cases h

theorem EventEnvelope.Normal.unique {e e' e'' : EventEnvelope} (h : e.Normal library e')
    (h' : e.Normal library e'') : e' = e'' :=
  EventEnvelope.ext (h.agentId.trans h'.agentId.symm) (h.sequence.unique h'.sequence)
    (h.eventType.trans h'.eventType.symm) (h.configVersion.unique h'.configVersion)
    (h.timestamp.unique h'.timestamp) (h.payload.unique h'.payload)
    (h.schemaVersion.unique h'.schemaVersion) (h.subject.trans h'.subject.symm)

/-! ### Envelopes -/

/-- What `decode` accepts. -/
theorem decodeDocument_ok {document : List (Text × Json)} {e : EventEnvelope}
    (h : decodeDocument library document = .ok e) :
    ∃ eventType payloadData rawSequence sequence rawConfigVersion configVersion timestamp payload
      agentId, ∃ subject : Option Text,
      eventType ∈ knownEventTypes ∧ require document "payload" = .ok (.obj payloadData) ∧
      require document "sequence" = .ok rawSequence ∧
      jsonInteger rawSequence "sequence" = .ok sequence ∧
      require document "config_version" = .ok rawConfigVersion ∧
      jsonInteger rawConfigVersion "config_version" = .ok configVersion ∧
      timestamp.offset = some 0 ∧
      decodePayload library eventType payloadData = .ok payload ∧
      makeEnvelope (.plain agentId) (.int sequence) (.plain eventType) (.int configVersion)
        timestamp payload (.int schemaVersion) (subject.map .plain) = .ok e := by
  obtain ⟨rawVersion, -, h⟩ := except_bind_ok.mp h
  obtain ⟨version, -, h⟩ := except_bind_ok.mp h
  split_ifs at h with hversion
  rw [not_not] at hversion
  subst hversion
  obtain ⟨rawEventType, -, h⟩ := except_bind_ok.mp h
  cases rawEventType with
  | str eventType =>
    dsimp only at h
    split_ifs at h with hknown
    obtain ⟨rawPayload, hrawPayload, h⟩ := except_bind_ok.mp h
    cases rawPayload with
    | obj payloadData =>
      simp only [except_bind_ok, malformed_ok] at h
      obtain ⟨wire, -, subject, -, e', ⟨agentId, -, rawSequence, hrawSequence, sequence, hsequence,
        rawConfigVersion, hrawConfigVersion, configVersion, hconfigVersion, rawTimestamp, -,
        timestamp, htimestamp, payload, hpayload, hmake⟩, h⟩ := h
      split_ifs at h with hid
      cases h
      exact ⟨eventType, payloadData, rawSequence, sequence, rawConfigVersion, configVersion,
        timestamp, payload, library.str agentId, subject, hknown, hrawPayload, hrawSequence,
        hsequence, hrawConfigVersion, hconfigVersion, parseTimestamp_offset htimestamp, hpayload,
        hmake⟩
    | _ => cases h
  | _ => cases h

/-- Everything that decodes can be encoded again, and is a fixed point from then on. -/
theorem decode_encode_stable (library : Library) (data : Bytes) (e : EventEnvelope)
    (hstrings : ∀ document, library.loads data = some document → ¬ document.HasSurrogate)
    (h : decode library data = .ok e) :
    ∃ data', encode library e = .ok data' ∧ decode library data' = .ok e := by
  unfold decode at h
  cases hloads : library.loads data with
  | none =>
    rw [hloads] at h
    cases h
  | some document =>
    rw [hloads] at h
    cases document with
    | obj document =>
      have hloaded := library.loads_loaded data _ hloads
      have hwell := hstrings _ hloads
      obtain ⟨eventType, payloadData, rawSequence, sequence, rawConfigVersion, configVersion,
        timestamp, payload, agentId, subject, hknown, hrawPayload, hrawSequence, hsequence,
        hrawConfigVersion, hconfigVersion, hoffset, hpayload, hmake⟩ := decodeDocument_ok h
      obtain ⟨-, hagent, hseq, hevent, hconfig, htime, hpay, hver, hsubject⟩ :=
        makeEnvelope_plain hmake
      have hplain := makeEnvelope_plainlyIdentified hmake
      obtain ⟨hclass, hnormal, hcount, hpayloadStrings, written, hwritten, hdumpable⟩ :=
        encodePayload_decoded (loaded_of_require hloaded hrawPayload) hpayload
      have hs := within_jsonInteger (loaded_of_require hloaded hrawSequence) hsequence
      have hc := within_jsonInteger (loaded_of_require hloaded hrawConfigVersion) hconfigVersion
      -- The envelope is its own normal form.
      have hself : e.Normal library e := by
        refine ⟨?_, hseq ▸ isInteger_int _, ?_, hconfig ▸ isInteger_int _, ?_, ?_,
          hver ▸ isInteger_int _, ?_, rfl⟩
        · rw [hagent]
          rfl
        · rw [hevent]
          rfl
        · exact DateTime.isUtc_self (htime ▸ hoffset)
        · exact hpay ▸ hnormal
        · rw [hsubject, Option.map_map]
          rfl
      have hencode : encode library e = .ok (utf8 (String.ofList (Json.text library.repr
          (.obj (envelopeFields library e sequence configVersion timestamp written))))) := by
        refine encode_ok.mpr ⟨by rw [hevent]; exact hknown, ?_, sequence, configVersion, timestamp, written, ?_,
          ?_, ?_, ?_, dumps_ok.mpr ⟨dumpable_envelopeFields hs hc hdumpable, rfl⟩⟩
        · rw [hver]
          rfl
        · rw [hseq]
          rfl
        · rw [hconfig]
          rfl
        · rw [htime]
          exact DateTime.isUtc_self hoffset
        · rw [hevent, hpay]
          exact hwritten
      have hpayloadStrings : e.payload.StringsWellFormed := by
        rw [hpay]
        exact hpayloadStrings (not_hasSurrogate_of_require hwell hrawPayload)
      have hclass' : e.eventType.content = Text.ofString e.payload.className := by
        rw [hevent, hpay, ← hclass]
        rfl
      have hcount' : e.payload.observationCount ≤ maxObservations := by rw [hpay]; exact hcount
      obtain ⟨e', hdecode, hnormal'⟩ :=
        (round_trip_of_encode hclass' (hplain.stringsWellFormed hpayloadStrings) hcount'
          hencode).mpr hplain.eventId_eq
      refine ⟨_, hencode, ?_⟩
      rw [hdecode, hnormal'.unique hself]
    | _ => cases h

theorem not_hasSurrogate_fields (fields : List (String × Json))
    (h : ∀ p ∈ fields, ¬ p.2.HasSurrogate) :
    ¬ Json.HasSurrogate (.obj (fields.map fun p => field p.1 p.2)) := by
  rw [Json.hasSurrogate_obj]
  rintro ⟨p, hp, hs⟩
  obtain ⟨q, hq, rfl⟩ := List.mem_map.mp hp
  rcases hs with hs | hs
  · exact Text.ofString_not_hasSurrogate _ hs
  · exact h q hq hs

/-- The bytes of the event hold well-formed strings. -/
theorem loads_sample {data : Bytes} {document : Json}
    (h : encode interpreter (sample .added (.int 0) "0" format_zero) = .ok data)
    (hloads : interpreter.loads data = some document) : ¬ document.HasSurrogate := by
  obtain ⟨-, -, sequence, configVersion, timestamp, payload, -, -, -, hpayload, hdumps⟩ :=
    encode_ok.mp h
  obtain ⟨hdumpable, rfl⟩ := dumps_ok.mp hdumps
  obtain ⟨hkeys, -, -⟩ := decodePayload_encode hpayload
  have hmem : Text.ofString "HotIpAdded" ∈ hotIpEventTypes := List.mem_cons_self
  have hencode : encodeHotIpEvent interpreter (Text.ofString "HotIpAdded") (sampleEvent .added) =
      .ok payload := (encodePayload_hotIp hmem _).symm.trans hpayload
  obtain ⟨utc, eventSequence, windowCount, eventVersion, written, -, -, -, -, hwritten, rfl⟩ :=
    encodeHotIpEvent_ok hencode
  cases hwritten
  have hint : ∀ n : ℤ, ¬ (Json.int n).HasSurrogate := fun _ => id
  have htext : ∀ s : String, ¬ (Json.str (Text.ofString s)).HasSurrogate :=
    Text.ofString_not_hasSurrogate
  rw [interpreter.loads_text _ hdumpable (distinctKeys_envelopeFields hkeys)] at hloads
  cases hloads
  have hevent : ¬ Json.HasSurrogate (.obj (hotIpFields interpreter (Text.ofString "HotIpAdded")
      (sampleEvent .added).ip utc eventSequence windowCount eventVersion [])) :=
    not_hasSurrogate_fields [("type", _), ("ip", _), ("family", _), ("timestamp", _),
      ("sequence", _), ("window_count", _), ("config_version", _)] (by simp [hint, htext])
  have hfields : ¬ Json.HasSurrogate (.obj (envelopeFields interpreter
      (sample .added (.int 0) "0" format_zero) sequence configVersion timestamp
      (hotIpFields interpreter (Text.ofString "HotIpAdded") (sampleEvent .added).ip utc eventSequence
        windowCount eventVersion []))) :=
    not_hasSurrogate_fields [("schema_version", _), ("event_id", _), ("agent_id", _),
      ("sequence", _), ("event_type", _), ("config_version", _), ("timestamp", _), ("payload", _)]
      (by simpa [hint, htext] using ⟨htext _, htext _, htext _, hevent⟩)
  rw [Json.rejoin_eq_self hfields]
  exact hfields

theorem decode_encode_stable_sample : ∃ data e, decode interpreter data = .ok e ∧
    ∃ data', encode interpreter e = .ok data' ∧ decode interpreter data' = .ok e := by
  obtain ⟨data, hdata⟩ := exists_encode_sample interpreter .added (.int 0) "0" format_zero rfl
  have hplain := sample_plainlyIdentified .added
  obtain ⟨e, hdecode, -⟩ := (round_trip_of_encode rfl (hplain.stringsWellFormed trivial)
    (Nat.zero_le _) hdata).mpr hplain.eventId_eq
  exact ⟨data, e, hdecode, decode_encode_stable interpreter data e
    (fun document hloads => loads_sample hdata hloads) hdecode⟩

end Hammertime.Codec
