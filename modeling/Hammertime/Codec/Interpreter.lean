import Hammertime.Codec.Fields

/-!
# A library

What the codec relies on can be had: here is a `Library`. Its parser reads compact text. An IPv4
address is written as its four bytes, a time in UTC as `isoformat` writes it, and the floats `0.0` and
`1.0` as `repr` writes them; an IPv6 address, another float, and what stands for the digest are
written in some way of their own.
-/

namespace Hammertime.Codec

open Lib Attributes

/-! ### Floats -/

/-- The text of a float other than `0.0` and `1.0`: its bits, as a number with a fraction. -/
def bitsText (f : Float64) : List Char := f.bits.toNat.repr.toList ++ ['.', '5']

/-- The text of a float. -/
def floatRepr (f : Float64) : List Char :=
  if f = .zero then "0.0".toList else if f = .one then "1.0".toList else bitsText f

/-- The float of a text. -/
def floatParse (text : List Char) : Option Float64 :=
  if text = "0.0".toList then some .zero
  else if text = "1.0".toList then some .one
  else (natOf (text.take (text.length - 2))).map fun n => ⟨BitVec.ofNat 64 n⟩

/-- A text with a point in it is no integer. -/
theorem intOf_of_mem_dot {text : List Char} (h : '.' ∈ text) : intOf text = none := by
  have hnat : ∀ {digits : List Char}, '.' ∈ digits → natOf digits = none := by
    intro digits hdot
    refine if_neg fun hall => ?_
    have := List.all_eq_true.mp hall.2 '.' hdot
    cases this
  cases text with
  | nil => rfl
  | cons c rest =>
    rw [intOf]
    split_ifs with hc
    · subst hc
      rw [hnat (List.mem_of_ne_of_mem (by decide) h)]
      rfl
    · rw [hnat h]
      rfl

theorem floatRepr_cases (f : Float64) : f = .zero ∧ floatRepr f = "0.0".toList ∨
    f = .one ∧ floatRepr f = "1.0".toList ∨
    f ≠ .zero ∧ f ≠ .one ∧ floatRepr f = bitsText f := by
  unfold floatRepr
  by_cases hzero : f = .zero
  · exact .inl ⟨hzero, if_pos hzero⟩
  · by_cases hone : f = .one
    · exact .inr (.inl ⟨hone, by rw [if_neg hzero, if_pos hone]⟩)
    · exact .inr (.inr ⟨hzero, hone, by rw [if_neg hzero, if_neg hone]⟩)

/-- Floats in this way of writing. -/
def floatText : FloatText where
  repr := floatRepr
  parse := floatParse
  repr_ne_nil f := by
    rcases floatRepr_cases f with ⟨-, h⟩ | ⟨-, h⟩ | ⟨-, -, h⟩
    · rw [h]
      decide
    · rw [h]
      decide
    · rw [h]
      simp [bitsText]
  numeric f _ := by
    rcases floatRepr_cases f with ⟨-, h⟩ | ⟨-, h⟩ | ⟨-, -, h⟩
    · rw [h]
      exact List.all_eq_true.mp (by decide)
    · rw [h]
      exact List.all_eq_true.mp (by decide)
    · rw [h]
      intro c hc
      rcases List.mem_append.mp hc with hc | hc
      · simp [isNumberChar, isDigit_of_mem_repr hc]
      · have hpoint : ∀ d ∈ ['.', '5'], isNumberChar d = true :=
          List.all_eq_true.mp (by decide)
        exact hpoint c hc
  intOf_repr f _ := by
    rcases floatRepr_cases f with ⟨-, h⟩ | ⟨-, h⟩ | ⟨-, -, h⟩
    · rw [h]
      exact intOf_of_mem_dot (by decide)
    · rw [h]
      exact intOf_of_mem_dot (by decide)
    · rw [h]
      exact intOf_of_mem_dot (List.mem_append_right _ (by decide))
  parse_repr f _ := by
    rcases floatRepr_cases f with ⟨rfl, h⟩ | ⟨rfl, h⟩ | ⟨-, -, h⟩
    · rw [h]
      rfl
    · rw [h]
      rfl
    · -- The last character tells the text from the two others.
      have hlast : (bitsText f).getLast? = some '5' := by simp [bitsText]
      have hzero : bitsText f ≠ "0.0".toList := by
        intro heq
        rw [heq] at hlast
        revert hlast
        decide
      have hone : bitsText f ≠ "1.0".toList := by
        intro heq
        rw [heq] at hlast
        revert hlast
        decide
      have htake : (bitsText f).take ((bitsText f).length - 2) = f.bits.toNat.repr.toList := by
        simp [bitsText]
      rw [h, floatParse, if_neg hzero, if_neg hone, htake, natOf_repr]
      simp

/-! ### The parser -/

/-- `json.loads` of compact text. -/
def loads (limit : Option ℕ) (data : Bytes) : Option Json := do
  let text ← String.fromUTF8? ⟨data.toArray⟩
  let j ← readText floatText text.toList
  if loaded limit j then some j else none

/-- What comes back of a value with distinct keys has distinct keys. -/
theorem loaded_rejoin {limit : Option ℕ} {j : Json} (hj : j.dumpable (withinDigits limit) = true)
    (hkeys : DistinctKeys j) : loaded limit j.rejoin = true := by
  induction j using Json.induct with
  | int n => exact hj
  | arr items ih =>
    rw [Json.rejoin_arr, loaded_arr]
    intro j' hj'
    obtain ⟨x, hx, rfl⟩ := List.mem_map.mp hj'
    exact ih x hx (Json.dumpable_arr.mp hj x hx) (distinctKeys_arr.mp hkeys x hx)
  | obj fields ih =>
    obtain ⟨hnodup, hfields⟩ := distinctKeys_obj.mp hkeys
    have hsame : fields.map (Prod.fst ∘ fun p => (p.1.rejoin, p.2.rejoin)) = fields.map Prod.fst :=
      List.map_congr_left fun p hp => Text.rejoin_eq_self (hfields p hp).1
    rw [Json.rejoin_obj, loaded_obj, List.map_map, hsame]
    refine ⟨hnodup, fun p hp => ?_⟩
    obtain ⟨q, hq, rfl⟩ := List.mem_map.mp hp
    exact ih q hq (Json.dumpable_obj.mp hj q hq) (hfields q hq).2
  | _ => rfl

theorem fromUTF8_utf8 (text : String) : String.fromUTF8? ⟨(utf8 text).toArray⟩ = some text := by
  have hbytes : (⟨(utf8 text).toArray⟩ : ByteArray) = text.toUTF8 := rfl
  rw [hbytes, String.fromUTF8?]
  exact dif_pos text.isValidUTF8

theorem loads_text {limit : Option ℕ} {j : Json} (hj : j.dumpable (withinDigits limit) = true)
    (hkeys : DistinctKeys j) : loads limit (utf8 (String.ofList (Json.text floatRepr j))) = some j.rejoin := by
  have hread : readText floatText (Json.text floatRepr j) = some j.rejoin :=
    readText_text floatText hj
  simp only [loads, fromUTF8_utf8, Option.bind_eq_bind, Option.bind_some, String.toList_ofList,
    hread, loaded_rejoin hj hkeys, if_true]

/-! ### Numbers in texts -/

/-- A number of at least the given width, with zeros in front. -/
def padded (width n : ℕ) : List Char :=
  List.replicate (width - n.repr.length) '0' ++ n.repr.toList

theorem ofDigitChars_zeros (k : ℕ) (digits : List Char) :
    Nat.ofDigitChars 10 (List.replicate k '0' ++ digits) 0 = Nat.ofDigitChars 10 digits 0 := by
  induction k with
  | zero => rfl
  | succ k ih =>
    rw [List.replicate_succ, List.cons_append, Nat.ofDigitChars_cons]
    exact ih

theorem isDigit_of_mem_padded {width n : ℕ} {c : Char} (h : c ∈ padded width n) :
    c.isDigit = true := by
  rcases List.mem_append.mp h with h | h
  · rw [(List.mem_replicate.mp h).2]
    rfl
  · exact isDigit_of_mem_repr h

theorem padded_inj {width m n : ℕ} (h : padded width m = padded width n) : m = n := by
  have hdigits := congrArg (fun text => Nat.ofDigitChars 10 text 0) h
  simpa only [padded, ofDigitChars_zeros, Nat.toList_repr, Nat.ofDigitChars_ten_toDigits]
    using hdigits

/-- Numbers before a separator can be read off a text. -/
theorem padded_separated_inj {width m n : ℕ} {c : Char} {rest rest' : List Char}
    (hc : c.isDigit = false) (h : padded width m ++ c :: rest = padded width n ++ c :: rest') :
    m = n ∧ rest = rest' := by
  have hmem : ∀ k, c ∉ padded width k := by
    intro k hk
    rw [isDigit_of_mem_padded hk] at hc
    cases hc
  obtain ⟨hleft, hright⟩ := separated_inj (hmem m) (hmem n) h
  exact ⟨padded_inj hleft, hright⟩

/-! ### Inverses -/

/-- The value with a text, if there is one. -/
noncomputable def textInverse {α : Type} (write : α → String) (t : Text) : Option α :=
  open Classical in
  if h : ∃ a, Text.ofString (write a) = t then some h.choose else none

theorem textInverse_apply {α : Type} {write : α → String} (h : Function.Injective write) (a : α) :
    textInverse write (Text.ofString (write a)) = some a := by
  have hex : ∃ a', Text.ofString (write a') = Text.ofString (write a) := ⟨a, rfl⟩
  rw [textInverse, dif_pos hex]
  exact congrArg some (h (Text.ofString_inj.mp hex.choose_spec))

/-! ### Addresses -/

/-- `str(ip)` of an IPv4 address, and a text of an IPv6 address. -/
def addressText (ip : Address) : String :=
  match ip.family with
  | .ipv4 => String.ofList (padded 0 (ip.value / 2 ^ 24) ++ '.' ::
      (padded 0 (ip.value / 2 ^ 16 % 256) ++ '.' ::
        (padded 0 (ip.value / 2 ^ 8 % 256) ++ '.' :: padded 0 (ip.value % 256))))
  | .ipv6 => String.ofList (':' :: ':' :: padded 0 ip.value)

theorem addressText_injective : Function.Injective addressText := by
  intro ip ip' h
  have hcolon : ∀ {n : ℕ} {rest rest' : List Char}, padded 0 n ++ '.' :: rest ≠ ':' :: rest' := by
    intro n rest rest' heq
    cases hp : padded 0 n with
    | nil =>
      rw [hp] at heq
      cases heq
    | cons c text =>
      have hdigit := isDigit_of_mem_padded (hp ▸ List.mem_cons_self : c ∈ padded 0 n)
      rw [hp] at heq
      cases heq
      cases hdigit
  obtain ⟨family, value, hvalue⟩ := ip
  obtain ⟨family', value', hvalue'⟩ := ip'
  cases family with
  | ipv4 =>
    cases family' with
    | ipv4 =>
      have h := String.ofList_injective h
      obtain ⟨h1, h⟩ := padded_separated_inj rfl h
      obtain ⟨h2, h⟩ := padded_separated_inj rfl h
      obtain ⟨h3, h⟩ := padded_separated_inj rfl h
      have h4 := padded_inj h
      refine Address.ext rfl ?_
      dsimp only at h1 h2 h3 h4 ⊢
      omega
    | ipv6 => exact absurd (String.ofList_injective h) hcolon
  | ipv6 =>
    cases family' with
    | ipv4 => exact absurd (String.ofList_injective h).symm hcolon
    | ipv6 =>
      have h := String.ofList_injective h
      exact Address.ext rfl (padded_inj (List.cons.inj (List.cons.inj h).2).2)

/-! ### Times -/

/-- `_days_before_year`. -/
def daysBeforeYear (year : ℕ) : ℕ :=
  (year - 1) * 365 + (year - 1) / 4 - (year - 1) / 100 + (year - 1) / 400

/-- `_days_before_month`. -/
def daysBeforeMonth (year month : ℕ) : ℕ :=
  ([0, 31, 59, 90, 120, 151, 181, 212, 243, 273, 304, 334, 365].getD (month - 1) 0) +
    if 2 < month ∧ year % 4 = 0 ∧ (year % 100 ≠ 0 ∨ year % 400 = 0) then 1 else 0

/-- `_days_in_month`. -/
def daysInMonth (year month : ℕ) : ℕ :=
  daysBeforeMonth year (month + 1) - daysBeforeMonth year month

/-- `_ymd2ord`: the number of a date, counting from the first day of the year 1. -/
def ordinal (date : ℕ × ℕ × ℕ) : ℕ :=
  daysBeforeYear date.1 + daysBeforeMonth date.1 date.2.1 + date.2.2

/-- The dates of the calendar. -/
def IsDate (date : ℕ × ℕ × ℕ) : Prop :=
  1 ≤ date.1 ∧ 1 ≤ date.2.1 ∧ date.2.1 ≤ 12 ∧ 1 ≤ date.2.2 ∧
    date.2.2 ≤ daysInMonth date.1 date.2.1

/-- `_ord2ymd`: the date with a number. -/
noncomputable def dateOf (n : ℕ) : ℕ × ℕ × ℕ :=
  open Classical in
  if h : ∃ date, IsDate date ∧ ordinal date = n then h.choose else (0, 0, n)

theorem dateOf_injective : Function.Injective dateOf := by
  have hdate : ∀ n, 1 ≤ (dateOf n).1 ∧ ordinal (dateOf n) = n ∨ dateOf n = (0, 0, n) := by
    intro n
    unfold dateOf
    split_ifs with h
    · exact .inl ⟨h.choose_spec.1.1, h.choose_spec.2⟩
    · exact .inr rfl
  intro m n h
  rcases hdate m with ⟨hm, hm'⟩ | hm
  · rcases hdate n with ⟨-, hn'⟩ | hn
    · rw [← hm', h, hn']
    · rw [h, hn] at hm
      cases hm
  · rcases hdate n with ⟨hn, -⟩ | hn
    · rw [← h, hm] at hn
      cases hn
    · rw [hm, hn] at h
      exact congrArg (fun date => date.2.2) h

/-- The microseconds of a time within its second, which `isoformat` leaves out when there are none. -/
def fractionText (microseconds : ℕ) : List Char :=
  if microseconds = 0 then ['Z'] else '.' :: (padded 6 microseconds ++ ['Z'])

/-- `isoformat` of a wall clock in UTC, with `Z` for its offset. -/
noncomputable def timeText (wall : ℕ) : List Char :=
  padded 4 (dateOf (wall / 86400000000 + 1)).1 ++ '-' ::
    (padded 2 (dateOf (wall / 86400000000 + 1)).2.1 ++ '-' ::
      (padded 2 (dateOf (wall / 86400000000 + 1)).2.2 ++ 'T' ::
        (padded 2 (wall / 3600000000 % 24) ++ ':' ::
          (padded 2 (wall / 60000000 % 60) ++ ':' ::
            (padded 2 (wall / 1000000 % 60) ++ fractionText (wall % 1000000))))))

/-- Seconds and microseconds can be read off their text. -/
theorem fractionText_inj {s s' m m' : ℕ}
    (h : padded 2 s ++ fractionText m = padded 2 s' ++ fractionText m') : s = s' ∧ m = m' := by
  unfold fractionText at h
  split_ifs at h with hm hm' hm'
  · obtain ⟨hs, -⟩ := padded_separated_inj rfl h
    exact ⟨hs, hm.trans hm'.symm⟩
  · -- A point on one side only.
    have hmem : '.' ∈ padded 2 s ++ ['Z'] := h ▸ by simp
    rcases List.mem_append.mp hmem with hmem | hmem
    · have := isDigit_of_mem_padded hmem
      cases this
    · exact absurd hmem (by decide)
  · have hmem : '.' ∈ padded 2 s' ++ ['Z'] := h ▸ by simp
    rcases List.mem_append.mp hmem with hmem | hmem
    · have := isDigit_of_mem_padded hmem
      cases this
    · exact absurd hmem (by decide)
  · obtain ⟨hs, h⟩ := padded_separated_inj rfl h
    exact ⟨hs, padded_inj (List.append_cancel_right h)⟩

theorem timeText_injective : Function.Injective timeText := by
  intro wall wall' h
  unfold timeText at h
  obtain ⟨hyear, h⟩ := padded_separated_inj rfl h
  obtain ⟨hmonth, h⟩ := padded_separated_inj rfl h
  obtain ⟨hday, h⟩ := padded_separated_inj rfl h
  obtain ⟨hhour, h⟩ := padded_separated_inj rfl h
  obtain ⟨hminute, h⟩ := padded_separated_inj rfl h
  obtain ⟨hsecond, hmicro⟩ := fractionText_inj h
  have hdate := dateOf_injective (Prod.ext hyear (Prod.ext hmonth hday))
  omega

/-- The wall clocks of UTC. -/
abbrev UtcWall : Type := { wall : ℤ // 0 ≤ wall ∧ wall < maxMicroseconds }

/-- The text of a wall clock in UTC. -/
noncomputable def wallText (wall : UtcWall) : String := String.ofList (timeText wall.1.toNat)

theorem wallText_injective : Function.Injective wallText := by
  intro wall wall' h
  have := timeText_injective (String.ofList_injective h)
  have hpos := wall.2.1
  have hpos' := wall'.2.1
  exact Subtype.ext (by omega)

/-! ### The library -/

/-- `str()` of a value: a string is itself. -/
def strOf : Json → Text
  | .str t => t
  | .null => Text.ofString "None"
  | .bool b => Text.ofString (if b then "True" else "False")
  | j => Text.ofString (String.ofList (Json.text floatRepr j))

theorem strOf_hasSurrogate {j : Json} (h : (strOf j).HasSurrogate) : j.HasSurrogate := by
  cases j with
  | str t => exact h
  | _ => exact absurd h (Text.ofString_not_hasSurrogate _)

/-- A library with the properties that the codec relies on, under a limit on the digits of integers
or without one. -/
noncomputable def libraryWith (limit : Option ℕ) (hlimit : ∀ digits ∈ limit, 640 ≤ digits) :
    Library where
  repr := floatRepr
  repr_ne_nil := floatText.repr_ne_nil
  intMaxStrDigits := limit
  loads := loads limit
  str := strOf
  addressText := addressText
  parseAddress := textInverse addressText
  isoformat value := wallText ⟨value.wall, value.inRange⟩
  fromisoformat t := (textInverse wallText t).map fun wall => ⟨wall.1, some 0, wall.2⟩
  digest t := String.ofList t.quote
  le_intMaxStrDigits := hlimit
  loads_text _ hj hkeys := loads_text hj hkeys
  loads_loaded data j h := by
    simp only [loads, Option.bind_eq_bind, Option.bind_eq_some_iff] at h
    obtain ⟨text, -, j', -, h⟩ := h
    split_ifs at h with hj
    cases h
    exact hj
  str_str _ := rfl
  str_hasSurrogate _ := strOf_hasSurrogate
  parseAddress_text := textInverse_apply addressText_injective
  fromisoformat_text value h := by
    have hinverse := textInverse_apply wallText_injective ⟨value.wall, value.inRange⟩
    exact (congrArg _ hinverse).trans (congrArg some (DateTime.ext rfl h.symm))

/-- The library of an interpreter with the default limit. -/
noncomputable def interpreter : Library := libraryWith (some 4300) (by simp)

end Hammertime.Codec
