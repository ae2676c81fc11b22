import Hammertime.Codec
import Hammertime.Lib.Program

/-!
# The fields of a document, one at a time

What each encoder of a field writes and what the decoder of that field reads there. An encoder and a
decoder of one field meet at the number, the instant or the document that the field stands for.
-/

namespace Hammertime.Codec

open Lib Attributes

variable {ε α β : Type}

theorem ok_bind (a : α) (f : α → Except ε β) : (Except.ok a >>= f) = f a := rfl

theorem pure_eq_ok (a : α) : (pure a : Except ε α) = .ok a := rfl

/-- A loop over a list returns where every turn does. -/
theorem mapM_ok {f : α → Except ε β} {l : List α} {l' : List β} :
    l.mapM f = .ok l' ↔ List.Forall₂ (fun a b => f a = .ok b) l l' := by
  induction l generalizing l' with
  | nil =>
    rw [List.mapM_nil, pure_eq_ok, Except.ok.injEq, List.forall₂_nil_left_iff, eq_comm]
  | cons a l ih =>
    simp only [List.mapM_cons, except_bind_ok, pure_eq_ok, Except.ok.injEq, ih]
    constructor
    · rintro ⟨b, hb, l', hl', rfl⟩
      exact .cons hb hl'
    · rintro (_ | ⟨hb, hl'⟩)
      exact ⟨_, hb, _, hl', rfl⟩

/-- A clause that turns errors into others does not change what is returned. -/
theorem malformed_ok {what : String} {x : Except CodecError α} {a : α} :
    malformed what x = .ok a ↔ x = .ok a := by
  cases x with
  | ok a' => rfl
  | error e =>
    simp only [malformed]
    split_ifs <;> simp

/-! ### Strings -/

theorem CodePoint.ofChar_inj {c d : Char} (h : CodePoint.ofChar c = CodePoint.ofChar d) : c = d := by
  have h : c.toNat = d.toNat := congrArg (fun x : CodePoint => x.val) h
  rw [← Char.ofNat_toNat c, h, Char.ofNat_toNat]

theorem Text.ofString_inj {s s' : String} : Text.ofString s = Text.ofString s' ↔ s = s' := by
  refine ⟨fun h => ?_, fun h => h ▸ rfl⟩
  exact String.toList_inj.mp (List.map_injective_iff.mpr (fun _ _ => CodePoint.ofChar_inj) h)

theorem Text.hasSurrogate_append {t t' : Text} :
    Text.HasSurrogate (t ++ t') ↔ t.HasSurrogate ∨ t'.HasSurrogate := by
  simp only [Text.HasSurrogate, List.mem_append]
  constructor
  · rintro ⟨c, hc | hc, hs⟩
    · exact .inl ⟨c, hc, hs⟩
    · exact .inr ⟨c, hc, hs⟩
  · rintro (⟨c, hc, hs⟩ | ⟨c, hc, hs⟩)
    · exact ⟨c, .inl hc, hs⟩
    · exact ⟨c, .inr hc, hs⟩

/-- The hashed text is well formed when its parts are. -/
theorem identityText_hasSurrogate {agentId sequence eventType : Text} {subject : Option Text} :
    (identityText agentId sequence eventType subject).HasSurrogate ↔
      agentId.HasSurrogate ∨ sequence.HasSurrogate ∨ eventType.HasSurrogate ∨
        ∃ t ∈ subject, Text.HasSurrogate t := by
  have hseparator : ¬ (Text.ofString "\x1f").HasSurrogate := Text.ofString_not_hasSurrogate _
  cases subject with
  | none =>
    simp only [identityText, Text.hasSurrogate_append, hseparator, or_false, or_assoc,
      Option.mem_def, reduceCtorEq, false_and, exists_false]
  | some subject =>
    simp only [identityText, Text.hasSurrogate_append, hseparator, or_false, or_assoc,
      Option.mem_def, Option.some.injEq, exists_eq_left']

/-! ### Documents -/

/-- What comes back of the fields of a document. -/
def rejoinFields (fields : List (Text × Json)) : List (Text × Json) :=
  fields.map fun p => (p.1.rejoin, p.2.rejoin)

@[simp] theorem rejoinFields_nil : rejoinFields [] = [] := rfl

@[simp] theorem rejoinFields_cons (key : String) (value : Json) (rest : List (Text × Json)) :
    rejoinFields (field key value :: rest) = field key value.rejoin :: rejoinFields rest := by
  show (Text.rejoin (Text.ofString key), _) :: _ = _
  rw [Text.rejoin_ofString]
  rfl

@[simp] theorem rejoin_text (value : String) : (text value).rejoin = text value := by
  rw [text, Json.rejoin_str, Text.rejoin_ofString]

theorem lookup_nil (key : Text) : Dict.lookup key ([] : List (Text × Json)) = none := rfl

theorem lookup_field (key key' : String) (value : Json) (rest : List (Text × Json)) :
    Dict.lookup (Text.ofString key) (field key' value :: rest) =
      if key' = key then some value else Dict.lookup (Text.ofString key) rest := by
  by_cases h : key' = key
  · rw [if_pos h, h]
    exact if_pos rfl
  · rw [if_neg h]
    exact if_neg fun heq => h (Text.ofString_inj.mp heq)

theorem require_field (key key' : String) (value : Json) (rest : List (Text × Json)) :
    require (field key' value :: rest) key =
      if key' = key then .ok value else require rest key := by
  unfold require
  rw [lookup_field]
  split_ifs <;> rfl

/-- A field is there exactly when it can be looked up. -/
theorem require_ok {data : List (Text × Json)} {key : String} {value : Json} :
    require data key = .ok value ↔ Dict.lookup (Text.ofString key) data = some value := by
  unfold require
  cases Dict.lookup (Text.ofString key) data <;> simp

/-- Distinct names are distinct keys. -/
theorem nodup_fields {keys : List String} (h : keys.Nodup) : (keys.map Text.ofString).Nodup :=
  h.map fun _ _ => Text.ofString_inj.mp

theorem distinctKeys_arr {items : List Json} :
    DistinctKeys (.arr items) ↔ ∀ j ∈ items, DistinctKeys j := by
  rw [DistinctKeys, Json.fold_arr]
  exact List.forall_mem_map

theorem distinctKeys_obj {fields : List (Text × Json)} :
    DistinctKeys (.obj fields) ↔ (fields.map Prod.fst).Nodup ∧
      ∀ p ∈ fields, ¬ p.1.HasSurrogate ∧ DistinctKeys p.2 := by
  rw [DistinctKeys, Json.fold_obj]
  refine and_congr ?_ List.forall_mem_map
  rw [List.map_map]
  rfl

theorem loaded_int {limit : Option ℕ} {n : ℤ} :
    loaded limit (.int n) = true ↔ withinDigits limit n = true := Iff.rfl

theorem loaded_arr {limit : Option ℕ} {items : List Json} :
    loaded limit (.arr items) = true ↔ ∀ j ∈ items, loaded limit j = true := by
  rw [loaded, Json.fold_arr]
  simp [loadedAlgebra]

theorem loaded_obj {limit : Option ℕ} {fields : List (Text × Json)} :
    loaded limit (.obj fields) = true ↔ (fields.map Prod.fst).Nodup ∧
      ∀ p ∈ fields, loaded limit p.2 = true := by
  rw [loaded, Json.fold_obj]
  simp only [loadedAlgebra, List.map_map, Bool.and_eq_true, decide_eq_true_eq, List.all_eq_true,
    List.forall_mem_map]
  rfl

@[simp] theorem distinctKeys_int (n : ℤ) : DistinctKeys (.int n) := trivial

@[simp] theorem distinctKeys_float (f : Float64) : DistinctKeys (.float f) := trivial

@[simp] theorem distinctKeys_str (t : Text) : DistinctKeys (.str t) := trivial

@[simp] theorem distinctKeys_text (value : String) : DistinctKeys (text value) := trivial

/-- A document of named fields has distinct keys when the names differ. -/
theorem distinctKeys_fields (fields : List (String × Json)) (hkeys : (fields.map Prod.fst).Nodup)
    (hvalues : ∀ p ∈ fields, DistinctKeys p.2) :
    DistinctKeys (.obj (fields.map fun p => field p.1 p.2)) := by
  refine distinctKeys_obj.mpr ⟨?_, fun p hp => ?_⟩
  · have h := nodup_fields hkeys
    rw [List.map_map] at h ⊢
    exact h
  · obtain ⟨q, hq, rfl⟩ := List.mem_map.mp hp
    exact ⟨Text.ofString_not_hasSurrogate _, hvalues q hq⟩

/-- The rules on the values of an attribute document include distinct keys. -/
theorem distinctKeys_of_wellFormed {j : Json} (h : WellFormed j) : DistinctKeys j := by
  induction j using Json.induct with
  | arr items ih =>
    exact distinctKeys_arr.mpr fun x hx => ih x hx (wellFormed_arr.mp h x hx)
  | obj fields ih =>
    obtain ⟨hnodup, hfields⟩ := wellFormed_obj.mp h
    exact distinctKeys_obj.mpr ⟨hnodup, fun p hp => ⟨(hfields p hp).1, ih p hp (hfields p hp).2⟩⟩
  | _ => trivial

/-- An attribute document holds no surrogates. -/
theorem not_hasSurrogate_of_wellFormed {j : Json} (h : WellFormed j) : ¬ j.HasSurrogate := by
  induction j using Json.induct with
  | arr items ih =>
    rw [Json.hasSurrogate_arr]
    rintro ⟨x, hx, hs⟩
    exact ih x hx (wellFormed_arr.mp h x hx) hs
  | obj fields ih =>
    rw [Json.hasSurrogate_obj]
    obtain ⟨-, hfields⟩ := wellFormed_obj.mp h
    rintro ⟨p, hp, hs | hs⟩
    · exact (hfields p hp).1 hs
    · exact ih p hp (hfields p hp).2 hs
  | str t => exact h
  | _ => exact id

/-! ### Integers -/

/-- The integer that an object is. -/
def PyObject.value? : PyObject → Option ℤ
  | .int n => some n
  | .subclass n _ => some n
  | .other _ _ => none

/-- `object'` is the plain integer that `object` is. -/
def PyObject.IsInteger (object object' : PyObject) : Prop :=
  ∃ n, object.value? = some n ∧ object' = .int n

/-- A number within bounds. -/
def Range.Contains (bounds : Range) (n : ℚ) : Prop :=
  bounds.minimum ≤ n ∧ ∀ maximum ∈ bounds.maximum, n ≤ maximum

theorem rangeViolation_eq_none {n : ℚ} {field : String} {bounds : Range} :
    rangeViolation n field bounds = none ↔ bounds.Contains n := by
  unfold rangeViolation Range.Contains
  split_ifs with hmin
  · simp [hmin]
  · cases bounds.maximum with
    | none => simpa using hmin
    | some maximum =>
      simp only [Option.mem_some_iff, forall_eq']
      split_ifs with hmax
      · simp [hmax]
      · simp [not_lt.mp hmin, not_lt.mp hmax]

theorem integerField_ok {value : PyObject} {field : String} {n : ℤ} :
    integerField value field = .ok n ↔ value.value? = some n := by
  cases value <;> simp [integerField, PyObject.value?]

theorem bounded_ok {m n : ℤ} {field : String} {bounds : Range} :
    bounded m field bounds = .ok n ↔ m = n ∧ bounds.Contains n := by
  unfold bounded
  cases h : rangeViolation m field bounds with
  | none =>
    have := rangeViolation_eq_none.mp h
    constructor
    · intro heq
      cases heq
      exact ⟨rfl, this⟩
    · rintro ⟨rfl, -⟩
      rfl
  | some violation =>
    constructor
    · intro heq
      cases heq
    · rintro ⟨rfl, hn⟩
      rw [rangeViolation_eq_none.mpr hn] at h
      cases h

theorem boundedIntegerField_ok {value : PyObject} {field : String} {bounds : Range} {n : ℤ} :
    boundedIntegerField value field bounds = .ok n ↔
      value.value? = some n ∧ bounds.Contains n := by
  unfold boundedIntegerField
  simp only [except_bind_ok, integerField_ok, bounded_ok]
  constructor
  · rintro ⟨m, hm, rfl, hn⟩
    exact ⟨hm, hn⟩
  · rintro ⟨hm, hn⟩
    exact ⟨n, hm, rfl, hn⟩

theorem boundedJsonInteger_ok {value : Json} {field : String} {bounds : Range} {n : ℤ} :
    boundedJsonInteger value field bounds = .ok n ↔
      jsonInteger value field = .ok n ∧ bounds.Contains n := by
  unfold boundedJsonInteger
  simp only [except_bind_ok, bounded_ok]
  constructor
  · rintro ⟨m, hm, rfl, hn⟩
    exact ⟨hm, hn⟩
  · rintro ⟨hm, hn⟩
    exact ⟨n, hm, rfl, hn⟩

/-- What an integer field wrote, the decoder of the field reads. -/
theorem boundedJsonInteger_int {value : PyObject} {name name' : String} {bounds : Range} {n : ℤ}
    (h : boundedIntegerField value name bounds = .ok n) :
    boundedJsonInteger (.int n) name' bounds = .ok n :=
  boundedJsonInteger_ok.mpr ⟨rfl, (boundedIntegerField_ok.mp h).2⟩

/-! ### Timestamps -/

/-- `value'` is `value` in UTC, a naive value read as UTC. -/
def DateTime.IsUtc (value value' : DateTime) : Prop :=
  value'.wall = value.wall - value.offset.getD 0 ∧ value'.offset = some 0

theorem toUtc_ok {value value' : DateTime} {field : String} :
    toUtc value field = .ok value' ↔ value.IsUtc value' := by
  unfold toUtc DateTime.IsUtc
  cases h : value.offset with
  | none =>
    dsimp only
    constructor
    · intro heq
      cases heq
      simp
    · rintro ⟨hwall, hoffset⟩
      refine congrArg Except.ok (DateTime.ext ?_ hoffset.symm)
      rw [hwall]
      simp
  | some offset =>
    dsimp only [Option.getD_some]
    split_ifs with hrange
    · constructor
      · intro heq
        cases heq
        exact ⟨rfl, rfl⟩
      · rintro ⟨hwall, hoffset⟩
        exact congrArg Except.ok (DateTime.ext hwall.symm hoffset.symm)
    · refine ⟨fun heq => (by cases heq), fun hutc => ?_⟩
      exact absurd (hutc.1 ▸ value'.inRange) hrange

theorem DateTime.IsUtc.unique {value value' value'' : DateTime} (h : value.IsUtc value')
    (h' : value.IsUtc value'') : value' = value'' :=
  DateTime.ext (h.1.trans h'.1.symm) (h.2.trans h'.2.symm)

/-- A value in UTC is its own. -/
theorem DateTime.isUtc_self {value : DateTime} (h : value.offset = some 0) :
    value.IsUtc value := by
  refine ⟨?_, h⟩
  rw [h]
  simp

section

variable (library : Library)

theorem formatTimestamp_ok {value : DateTime} {field : String} {text : String} :
    formatTimestamp library value field = .ok text ↔
      ∃ value', value.IsUtc value' ∧ text = library.isoformat value' := by
  unfold formatTimestamp
  simp only [except_bind_ok, toUtc_ok, pure_eq_ok, Except.ok.injEq]
  constructor
  · rintro ⟨value', hutc, rfl⟩
    exact ⟨value', hutc, rfl⟩
  · rintro ⟨value', hutc, rfl⟩
    exact ⟨value', hutc, rfl⟩

/-- The text of a value in UTC is parsed back. -/
theorem parseTimestamp_text {value value' : DateTime} (h : value.IsUtc value') (name : String) :
    parseTimestamp library (text (library.isoformat value')) name = .ok value' := by
  unfold parseTimestamp text
  dsimp only
  rw [library.fromisoformat_text value' h.2]
  exact toUtc_ok.mpr (DateTime.isUtc_self h.2)

theorem parseIp_text (ip : Address) : parseIp library (text (library.addressText ip)) = .ok ip := by
  unfold parseIp text
  rw [library.str_str, library.parseAddress_text]

/-! ### Attributes -/

/-- `document'` is the canonical copy of `document`. -/
def IsCanonical (document document' : Document) : Prop :=
  ∃ fields, Unfolds document.heap (.obj fields) document.root ∧
    Admissible library.repr fields ∧ document' = .ofJson (.obj fields)

theorem canonicalAttributes_ok {document : Document} {fields : List (Text × Json)} :
    canonicalAttributes library document = .ok fields ↔
      Unfolds document.heap (.obj fields) document.root ∧ Admissible library.repr fields := by
  have hexact := (canonicalize_exact library.toFloatFormat document.heap document.root).1
  unfold canonicalAttributes
  cases h : canonicalizeIpAttributes library.repr document.heap document.root with
  | ok c =>
    obtain ⟨fields', hun, hadm, rfl⟩ := (hexact c).mp h
    constructor
    · intro heq
      cases heq
      exact ⟨hun, hadm⟩
    · rintro ⟨hun', -⟩
      cases hun.unique hun'
      rfl
  | error fault =>
    constructor
    · intro heq
      cases heq
    · rintro ⟨hun, hadm⟩
      rw [(hexact _).mpr ⟨fields, hun, hadm, rfl⟩] at h
      cases h

/-- A canonical document is its own canonical copy. -/
theorem canonicalAttributes_ofJson {fields : List (Text × Json)}
    (h : Admissible library.repr fields) :
    canonicalAttributes library (.ofJson (.obj fields)) = .ok fields :=
  (canonicalAttributes_ok library).mpr ⟨unfolds_ofJson _, h⟩

/-- A canonical document comes back as it was. -/
theorem rejoin_of_admissible {fields : List (Text × Json)} (h : Admissible library.repr fields) :
    Json.rejoin (.obj fields) = .obj fields :=
  Json.rejoin_eq_self (not_hasSurrogate_of_wellFormed h.values)

end

/-! ### Capacities and ratios -/

theorem digitsValue_foldl (digits : List Char) (hdigits : ∀ c ∈ digits, c.isDigit = true)
    (init : ℕ) :
    (digits.map CodePoint.ofChar).foldl (fun value c => value * 10 + (c.val - 48)) init =
      Nat.ofDigitChars 10 digits init := by
  induction digits generalizing init with
  | nil => rfl
  | cons c digits ih =>
    have hc : (CodePoint.ofChar c).val = c.toNat := rfl
    rw [List.map_cons, List.foldl_cons, ih fun c hc => hdigits c (List.mem_cons_of_mem _ hc), hc]
    rw [Nat.ofDigitChars_cons]
    congr 1
    show init * 10 + (c.toNat - 48) = 10 * init + (c.toNat - 48)
    omega

/-- The decimal text of a natural number is read as the number. -/
theorem digitsValue_repr (n : ℕ) : digitsValue (Text.ofString n.repr) = some n := by
  have hdigit : ∀ c ∈ n.repr.toList, c.isDigit = true := fun c hc => isDigit_of_mem_repr hc
  have hall : (Text.ofString n.repr).all (fun c => 48 ≤ c.val && c.val ≤ 57) = true := by
    rw [List.all_eq_true]
    intro c hc
    obtain ⟨d, hd, rfl⟩ := List.mem_map.mp hc
    have := hdigit d hd
    rw [Char.isDigit_iff_toNat] at this
    have hval : (CodePoint.ofChar d).val = d.toNat := rfl
    rw [hval, Bool.and_eq_true, decide_eq_true_eq, decide_eq_true_eq]
    exact this
  rw [digitsValue, if_pos ⟨by simp [Text.ofString], hall⟩]
  show some ((n.repr.toList.map CodePoint.ofChar).foldl _ 0) = _
  rw [digitsValue_foldl _ hdigit, Nat.toList_repr, Nat.ofDigitChars_ten_toDigits]

/-- An integer that every interpreter reads and writes. -/
theorem Library.within_of_lt (library : Library) {n : ℤ} (h : n.natAbs < 10 ^ 640) :
    library.within n = true := by
  unfold within withinDigits
  cases hlimit : library.intMaxStrDigits with
  | none => rfl
  | some digits =>
    have hdigits : 640 ≤ digits := library.le_intMaxStrDigits digits hlimit
    have hpow : 10 ^ 640 ≤ 10 ^ digits := Nat.pow_le_pow_right (by norm_num) hdigits
    exact decide_eq_true (h.trans_le hpow)

/-- Within the limit a number has at most that many digits, and the other way round. -/
theorem length_repr_le (library : Library) {n : ℕ} :
    (library.intMaxStrDigits.all fun digits => (Text.ofString n.repr).length ≤ digits) = true ↔
      library.within n = true := by
  unfold Library.within withinDigits
  cases hlimit : library.intMaxStrDigits with
  | none => exact Iff.rfl
  | some digits =>
    have hpos : 0 < digits :=
      lt_of_lt_of_le (by norm_num) (library.le_intMaxStrDigits digits hlimit)
    rw [Option.all_some, Option.all_some, decide_eq_true_eq, decide_eq_true_eq, Int.natAbs_natCast,
      Text.ofString, List.length_map, Nat.toList_repr, Nat.length_toDigits_le_iff (by norm_num) hpos]

theorem decimal_eq_some {library : Library} {n : ℤ} {t : Text} :
    decimal library n = some t ↔ library.within n = true ∧ t = Text.ofString (toString n) := by
  unfold decimal
  split_ifs with h
  · simp [h, eq_comm]
  · simp [h]

theorem encodeCapacity_ok {library : Library} {capacity : PyObject} {t : Text} :
    encodeCapacity library capacity = .ok t ↔ ∃ n : ℕ, capacity.value? = some (n : ℤ) ∧
      library.within n = true ∧ t = Text.ofString n.repr := by
  unfold encodeCapacity
  simp only [except_bind_ok, integerField_ok]
  constructor
  · rintro ⟨value, hvalue, h⟩
    split_ifs at h with hneg
    obtain ⟨n, rfl⟩ := Int.eq_ofNat_of_zero_le (not_lt.mp hneg)
    cases hd : decimal library n with
    | none =>
      rw [hd] at h
      cases h
    | some t' =>
      rw [hd] at h
      cases h
      obtain ⟨hn, ht⟩ := decimal_eq_some.mp hd
      exact ⟨n, hvalue, hn, ht⟩
  · rintro ⟨n, hvalue, hn, rfl⟩
    refine ⟨n, hvalue, ?_⟩
    have hd : decimal library n = some (Text.ofString n.repr) := decimal_eq_some.mpr ⟨hn, rfl⟩
    rw [if_neg (not_lt.mpr (Int.natCast_nonneg n)), hd]

theorem decimalString_repr {library : Library} {n : ℕ} (h : library.within n = true) (name : String) :
    decimalString library (.str (Text.ofString n.repr)) name = .ok n := by
  simp only [decimalString, digitsValue_repr]
  exact if_pos ((length_repr_le library).mpr h)

/-- `ratio'` is the float that `ratio` is. The bounds leave 0 and 1 of the integers. -/
def Ratio.IsFloat (ratio ratio' : Ratio) : Prop :=
  match ratio with
  | .int n => ratio' = .float (if n = 0 then .zero else .one)
  | .float f => ratio' = .float f
  | .other => False

theorem value_zero : Float64.value .zero = 0 := by
  have he : Float64.exponent .zero = 0 := by decide
  have hs : Float64.significand .zero = 0 := by decide
  have hm : Float64.zero.bits.msb = false := by decide
  simp [Float64.value, he, hs, hm]

theorem value_one : Float64.value .one = 1 := by
  have he : Float64.exponent .one = 1023 := by decide
  have hs : Float64.significand .one = 0 := by decide
  have hm : Float64.one.bits.msb = false := by decide
  simp only [Float64.value, he, hs, hm]
  norm_num

/-- The two floats that stand for integers are within the bounds of `hot_ratio`. -/
theorem boundedRatio_zero_one (name : String) (n : ℤ) :
    boundedRatio (.float (if n = 0 then .zero else .one)) name prefixStatsHotRatio =
      .ok (if n = 0 then .zero else .one) := by
  have hmaximum : ∀ q : ℚ, q ≤ 1 → ∀ maximum ∈ prefixStatsHotRatio.maximum, q ≤ (maximum : ℤ) := by
    intro q hq maximum hm
    cases hm
    simpa using hq
  have hzero : rangeViolation (Float64.value .zero) name prefixStatsHotRatio = none := by
    rw [rangeViolation_eq_none, value_zero]
    exact ⟨by norm_num [prefixStatsHotRatio], hmaximum 0 (by norm_num)⟩
  have hone : rangeViolation (Float64.value .one) name prefixStatsHotRatio = none := by
    rw [rangeViolation_eq_none, value_one]
    exact ⟨by norm_num [prefixStatsHotRatio], hmaximum 1 le_rfl⟩
  have hfinite : Float64.isFinite .zero = true ∧ Float64.isFinite .one = true := by decide
  split_ifs
  · simp only [boundedRatio, hfinite.1, if_true, hzero]
  · simp only [boundedRatio, hfinite.2, if_true, hone]

/-- What a ratio field wrote, the decoder of the field reads. -/
theorem boundedRatio_float {ratio : Ratio} {name : String} (name' : String) {f : Float64}
    (h : boundedRatio ratio name prefixStatsHotRatio = .ok f) :
    boundedRatio (.float f) name' prefixStatsHotRatio = .ok f ∧ ratio.IsFloat (.float f) := by
  cases ratio with
  | other => cases h
  | int n =>
    simp only [boundedRatio] at h
    cases hv : rangeViolation n name prefixStatsHotRatio with
    | some violation =>
      rw [hv] at h
      cases h
    | none =>
      rw [hv] at h
      cases h
      exact ⟨boundedRatio_zero_one name' n, rfl⟩
  | float f' =>
    simp only [boundedRatio] at h ⊢
    split_ifs at h with hfinite
    cases hv : rangeViolation f'.value name prefixStatsHotRatio with
    | some violation =>
      rw [hv] at h
      cases h
    | none =>
      rw [hv] at h
      cases h
      have hv' : rangeViolation f.value name' prefixStatsHotRatio = none :=
        rangeViolation_eq_none.mpr (rangeViolation_eq_none.mp hv)
      rw [if_pos hfinite, hv']
      exact ⟨rfl, rfl⟩

end Hammertime.Codec
