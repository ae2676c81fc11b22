import Hammertime.Lib.Json

/-!
# Reading the compact text back

What a JSON parser makes of the text that `json.dumps` writes. A string is written as UTF-16 units,
so that a high surrogate followed by a low one comes back as the one code point they encode:
`Text.rejoin`. Every other value comes back as it was.

The reader below reads the compact text and nothing else: no white space, and no number that the
printer does not write. It shows that the text of a value determines the value up to `rejoin`, and
`read_text` is the round trip.
-/

namespace Hammertime.Lib

/-! ### Surrogate pairs -/

/-- A high surrogate. -/
def CodePoint.isHigh (c : CodePoint) : Bool := 0xd800 ≤ c.val && c.val ≤ 0xdbff

/-- A low surrogate. -/
def CodePoint.isLow (c : CodePoint) : Bool := 0xdc00 ≤ c.val && c.val ≤ 0xdfff

/-- The code point that a pair of surrogates encodes. -/
def CodePoint.ofPair (high low : CodePoint) : CodePoint :=
  Fin.ofNat 0x110000 (0x10000 + (high.val - 0xd800) * 0x400 + (low.val - 0xdc00))

/-- Surrogates that stand next to each other become the code point they encode. -/
def Text.rejoin : Text → Text
  | [] => []
  | [c] => [c]
  | c :: d :: rest =>
    if c.isHigh && d.isLow then CodePoint.ofPair c d :: rejoin rest else c :: rejoin (d :: rest)

theorem CodePoint.isHigh_eq_false {c : CodePoint} (h : ¬ c.IsSurrogate) : c.isHigh = false := by
  unfold isHigh
  unfold IsSurrogate at h
  simp only [Bool.and_eq_false_iff, decide_eq_false_iff_not, not_le]
  omega

/-- A well-formed string stays as it is. -/
theorem Text.rejoin_eq_self {t : Text} (h : ¬ t.HasSurrogate) : t.rejoin = t := by
  induction t using rejoin.induct with
  | case1 => rfl
  | case2 c => rfl
  | case3 c d rest hpair ih =>
    have hc : ¬ c.IsSurrogate := fun hs => h ⟨c, List.mem_cons_self, hs⟩
    rw [c.isHigh_eq_false hc] at hpair
    cases hpair
  | case4 c d rest hpair ih =>
    rw [rejoin, if_neg hpair, ih fun ⟨e, he, hs⟩ => h ⟨e, List.mem_cons_of_mem _ he, hs⟩]

theorem Text.rejoin_ofString (s : String) : (Text.ofString s).rejoin = Text.ofString s :=
  rejoin_eq_self (ofString_not_hasSurrogate s)

/-- The UTF-16 units of a code point, as code points. -/
def CodePoint.units (c : CodePoint) : List CodePoint :=
  if c.val < 0x10000 then [c]
  else [Fin.ofNat 0x110000 (0xd800 + (c.val - 0x10000) / 0x400),
    Fin.ofNat 0x110000 (0xdc00 + (c.val - 0x10000) % 0x400)]

/-- The units of a pair encode the code point. -/
theorem CodePoint.units_pair {c : CodePoint} (h : ¬ c.val < 0x10000) :
    ∃ high low : CodePoint, c.units = [high, low] ∧ high.isHigh = true ∧ low.isLow = true ∧
      CodePoint.ofPair high low = c ∧ high.isLow = false := by
  have hc := c.isLt
  refine ⟨_, _, if_neg h, ?_, ?_, ?_, ?_⟩
  · simp only [isHigh, Fin.ofNat_eq_cast, Fin.val_natCast, Bool.and_eq_true, decide_eq_true_eq]
    omega
  · simp only [isLow, Fin.ofNat_eq_cast, Fin.val_natCast, Bool.and_eq_true, decide_eq_true_eq]
    omega
  · apply Fin.ext
    simp only [ofPair, Fin.ofNat_eq_cast, Fin.val_natCast]
    omega
  · simp only [isLow, Fin.ofNat_eq_cast, Fin.val_natCast, Bool.and_eq_false_iff,
      decide_eq_false_iff_not]
    omega

/-- Joining the units of a string joins what the string itself does. -/
theorem Text.rejoin_units (t : Text) : Text.rejoin (t.flatMap CodePoint.units) = t.rejoin := by
  induction t using rejoin.induct with
  | case1 => rfl
  | case2 c =>
    by_cases hc : c.val < 0x10000
    · simp [CodePoint.units, hc]
    · obtain ⟨high, low, hunits, hhigh, hlow, hpair, -⟩ := CodePoint.units_pair hc
      simp [hunits, rejoin, hhigh, hlow, hpair]
  | case3 c d rest hpair ih =>
    -- Surrogates are units of their own.
    rw [Bool.and_eq_true] at hpair
    have hc : c.val < 0x10000 := by
      have := hpair.1
      simp only [CodePoint.isHigh, Bool.and_eq_true, decide_eq_true_eq] at this
      omega
    have hd : d.val < 0x10000 := by
      have := hpair.2
      simp only [CodePoint.isLow, Bool.and_eq_true, decide_eq_true_eq] at this
      omega
    simp only [List.flatMap_cons, CodePoint.units, if_pos hc, if_pos hd, List.singleton_append]
    rw [rejoin, rejoin, hpair.1, hpair.2]
    exact congrArg _ ih
  | case4 c d rest hpair ih =>
    by_cases hc : c.val < 0x10000
    · by_cases hd : d.val < 0x10000
      · simp only [List.flatMap_cons, CodePoint.units, if_pos hc, if_pos hd,
          List.singleton_append] at ih ⊢
        rw [rejoin, if_neg hpair, rejoin, if_neg hpair, ih]
      · obtain ⟨high, low, hunits, -, -, -, hnot⟩ := CodePoint.units_pair hd
        have hc' : c.units = [c] := if_pos hc
        rw [List.flatMap_cons, hunits] at ih
        rw [List.flatMap_cons, List.flatMap_cons, hc', hunits, rejoin, if_neg hpair, ← ih]
        show rejoin (c :: high :: low :: _) = _
        rw [rejoin, if_neg (by simp [hnot])]
        rfl
    · obtain ⟨high, low, hunits, hhigh, hlow, hc', -⟩ := CodePoint.units_pair hc
      rw [List.flatMap_cons, hunits]
      show rejoin (high :: low :: _) = _
      rw [rejoin, hhigh, hlow, hc', rejoin, if_neg hpair, ← ih]
      rfl

namespace Json

/-- Every string joined. -/
def rejoinAlgebra : Algebra Json where
  null := .null
  bool := .bool
  int := .int
  float := .float
  str t := .str t.rejoin
  arr := .arr
  obj fields := .obj (fields.map fun p => (p.1.rejoin, p.2))

/-- What comes back of a value that was written. -/
def rejoin : Json → Json := fold rejoinAlgebra

theorem rejoin_arr (items : List Json) : rejoin (.arr items) = .arr (items.map rejoin) := by
  rw [rejoin, fold_arr]
  rfl

theorem rejoin_obj (fields : List (Text × Json)) :
    rejoin (.obj fields) = .obj (fields.map fun p => (p.1.rejoin, rejoin p.2)) := by
  rw [rejoin, fold_obj]
  show Json.obj ((fields.map _).map _) = _
  rw [List.map_map]
  rfl

@[simp] theorem rejoin_null : rejoin .null = .null := rfl

@[simp] theorem rejoin_bool (b : Bool) : rejoin (.bool b) = .bool b := rfl

@[simp] theorem rejoin_int (n : ℤ) : rejoin (.int n) = .int n := rfl

@[simp] theorem rejoin_float (f : Float64) : rejoin (.float f) = .float f := rfl

@[simp] theorem rejoin_str (t : Text) : rejoin (.str t) = .str t.rejoin := rfl

/-- Some string of the value, a key or another, holds a surrogate. -/
def surrogateAlgebra : Algebra Prop where
  null := False
  bool _ := False
  int _ := False
  float _ := False
  str := Text.HasSurrogate
  arr items := ∃ p ∈ items, p
  obj fields := ∃ p ∈ fields, p.1.HasSurrogate ∨ p.2

/-- Some string of the value holds a surrogate. -/
def HasSurrogate : Json → Prop := fold surrogateAlgebra

theorem hasSurrogate_arr {items : List Json} :
    HasSurrogate (.arr items) ↔ ∃ j ∈ items, HasSurrogate j := by
  rw [HasSurrogate, fold_arr]
  constructor
  · rintro ⟨p, hp, h⟩
    obtain ⟨j, hj, rfl⟩ := List.mem_map.mp hp
    exact ⟨j, hj, h⟩
  · rintro ⟨j, hj, h⟩
    exact ⟨_, List.mem_map_of_mem hj, h⟩

theorem hasSurrogate_obj {fields : List (Text × Json)} :
    HasSurrogate (.obj fields) ↔ ∃ p ∈ fields, p.1.HasSurrogate ∨ HasSurrogate p.2 := by
  rw [HasSurrogate, fold_obj]
  constructor
  · rintro ⟨p, hp, h⟩
    obtain ⟨q, hq, rfl⟩ := List.mem_map.mp hp
    exact ⟨q, hq, h⟩
  · rintro ⟨q, hq, h⟩
    exact ⟨_, List.mem_map_of_mem hq, h⟩

/-- A value of well-formed strings comes back as it was. -/
theorem rejoin_eq_self {j : Json} (h : ¬ j.HasSurrogate) : j.rejoin = j := by
  induction j using induct with
  | null => rfl
  | bool b => rfl
  | int n => rfl
  | float f => rfl
  | str t => exact congrArg Json.str (Text.rejoin_eq_self h)
  | arr items ih =>
    rw [rejoin_arr]
    refine congrArg Json.arr ((List.map_congr_left fun j hj => ?_).trans (List.map_id _))
    exact ih j hj fun hs => h (hasSurrogate_arr.mpr ⟨j, hj, hs⟩)
  | obj fields ih =>
    rw [rejoin_obj]
    refine congrArg Json.obj ((List.map_congr_left fun p hp => ?_).trans (List.map_id _))
    have hkey : ¬ p.1.HasSurrogate := fun hs => h (hasSurrogate_obj.mpr ⟨p, hp, .inl hs⟩)
    have hvalue : p.2.rejoin = p.2 :=
      ih p hp fun hs => h (hasSurrogate_obj.mpr ⟨p, hp, .inr hs⟩)
    rw [Text.rejoin_eq_self hkey, hvalue]
    rfl

/-- What `json.dumps` writes with `allow_nan=False` where not every integer can be written. -/
def dumpableAlgebra (within : ℤ → Bool) : Algebra Bool where
  null := true
  bool _ := true
  int n := within n
  float f := f.isFinite
  str _ := true
  arr items := items.all id
  obj fields := fields.all Prod.snd

/-- Every float is finite, and every integer can be written. -/
def dumpable (within : ℤ → Bool) : Json → Bool := fold (dumpableAlgebra within)

theorem dumpable_int {within : ℤ → Bool} {n : ℤ} :
    dumpable within (.int n) = true ↔ within n = true := Iff.rfl

theorem dumpable_str (within : ℤ → Bool) (t : Text) : dumpable within (.str t) = true := rfl

theorem dumpable_arr {within : ℤ → Bool} {items : List Json} :
    dumpable within (.arr items) = true ↔ ∀ j ∈ items, dumpable within j = true := by
  rw [dumpable, fold_arr]
  simp [dumpableAlgebra]

theorem dumpable_obj {within : ℤ → Bool} {fields : List (Text × Json)} :
    dumpable within (.obj fields) = true ↔ ∀ p ∈ fields, dumpable within p.2 = true := by
  rw [dumpable, fold_obj]
  simp [dumpableAlgebra]

end Json

/-! ### Reading strings -/

/-- The value of a hexadecimal digit. -/
def hexValue (c : Char) : Option ℕ :=
  if c.isDigit then some (c.toNat - 48)
  else if 'a' ≤ c ∧ c ≤ 'f' then some (c.toNat - 87)
  else none

theorem hexValue_digitChar : ∀ d < 16, hexValue (Nat.digitChar d) = some d := by decide

/-- The unit that a `\\u` escape writes. -/
def hexUnit (a b c d : Char) : Option CodePoint := do
  let a ← hexValue a
  let b ← hexValue b
  let c ← hexValue c
  let d ← hexValue d
  some (Fin.ofNat 0x110000 (a * 4096 + b * 256 + c * 16 + d))

/-- The code point that a two-character escape writes. -/
def shortEscape (c : Char) : Option CodePoint :=
  if c = '"' then some 0x22
  else if c = '\\' then some 0x5c
  else if c = 'n' then some 0x0a
  else if c = 'r' then some 0x0d
  else if c = 't' then some 0x09
  else if c = 'f' then some 0x0c
  else if c = 'b' then some 0x08
  else none

/-- The units of a string literal, after its opening quote, and what follows it. -/
def readUnits : List Char → Option (List CodePoint × List Char)
  | [] => none
  | c :: rest =>
    if c = '"' then some ([], rest)
    else if c = '\\' then
      match rest with
      | [] => none
      | e :: rest =>
        if e = 'u' then
          match rest with
          | h₁ :: h₂ :: h₃ :: h₄ :: rest => do
            let unit ← hexUnit h₁ h₂ h₃ h₄
            let (units, rest) ← readUnits rest
            some (unit :: units, rest)
          | _ => none
        else do
          let unit ← shortEscape e
          let (units, rest) ← readUnits rest
          some (unit :: units, rest)
    else do
      let (units, rest) ← readUnits rest
      some (CodePoint.ofChar c :: units, rest)

theorem readUnits_close (rest : List Char) : readUnits ('"' :: rest) = some ([], rest) := by
  rw [readUnits.eq_def]
  exact if_pos rfl

theorem readUnits_char {c : Char} (hquote : c ≠ '"') (hescape : c ≠ '\\') (rest : List Char) :
    readUnits (c :: rest) = (readUnits rest).map fun p => (CodePoint.ofChar c :: p.1, p.2) := by
  rw [readUnits.eq_def]
  dsimp only
  rw [if_neg hquote, if_neg hescape]
  cases readUnits rest <;> rfl

theorem readUnits_unicodeEscape {n : ℕ} (h : n < 0x10000) (rest : List Char) :
    readUnits (unicodeEscape n ++ rest) =
      (readUnits rest).map fun p => (Fin.ofNat 0x110000 n :: p.1, p.2) := by
  have hunit : hexUnit (Nat.digitChar (n / 4096 % 16)) (Nat.digitChar (n / 256 % 16))
      (Nat.digitChar (n / 16 % 16)) (Nat.digitChar (n % 16)) = some (Fin.ofNat 0x110000 n) := by
    have hmod : ∀ m, m % 16 < 16 := fun m => Nat.mod_lt m (by decide)
    simp only [hexUnit, hexValue_digitChar _ (hmod _), Option.bind_eq_bind, Option.bind_some]
    congr 2
    omega
  rw [unicodeEscape]
  simp only [List.cons_append, List.nil_append]
  rw [readUnits, if_neg (by decide), if_pos rfl]
  dsimp only
  rw [if_pos rfl, hunit]
  cases readUnits rest <;> rfl

theorem readUnits_short {e : Char} {c : CodePoint} (he : e ≠ 'u') (h : shortEscape e = some c)
    (rest : List Char) :
    readUnits ('\\' :: e :: rest) = (readUnits rest).map fun p => (c :: p.1, p.2) := by
  rw [readUnits.eq_def]
  dsimp only
  rw [if_neg (by decide), if_pos rfl, if_neg he, h]
  cases readUnits rest <;> rfl

/-- What is read of a code point that was written are its units. -/
theorem readUnits_escape (c : CodePoint) (rest : List Char) :
    readUnits (c.escape ++ rest) = (readUnits rest).map fun p => (c.units ++ p.1, p.2) := by
  have hunits : c.val < 0x10000 → c.units = [c] := fun h => if_pos h
  have hshort : ∀ {e : Char} {n : CodePoint}, c = n → n.val < 0x10000 → e ≠ 'u' →
      shortEscape e = some n → readUnits ('\\' :: e :: rest) =
        (readUnits rest).map fun p => (c.units ++ p.1, p.2) := by
    intro e n hc hn he hs
    subst hc
    rw [hunits hn]
    exact readUnits_short he hs rest
  unfold CodePoint.escape
  split_ifs with h1 h2 h3 h4 h5 h6 h7 h8 h9
  · exact hshort (Fin.ext h1) (by decide) (by decide) rfl
  · exact hshort (Fin.ext h2) (by decide) (by decide) rfl
  · exact hshort (Fin.ext h3) (by decide) (by decide) rfl
  · exact hshort (Fin.ext h4) (by decide) (by decide) rfl
  · exact hshort (Fin.ext h5) (by decide) (by decide) rfl
  · exact hshort (Fin.ext h6) (by decide) (by decide) rfl
  · exact hshort (Fin.ext h7) (by decide) (by decide) rfl
  · -- A printable character stands for itself.
    have hval : (Char.ofNat c.val).toNat = c.val := by
      unfold Char.ofNat
      rw [dif_pos (Or.inl (by omega))]
      rfl
    have hne : ∀ d : Char, d.toNat ≠ c.val → Char.ofNat c.val ≠ d :=
      fun d hd heq => hd (heq ▸ hval)
    have hchar : CodePoint.ofChar (Char.ofNat c.val) = c := Fin.ext hval
    rw [List.singleton_append, readUnits_char (hne _ (Ne.symm h1)) (hne _ (Ne.symm h2)), hchar,
      hunits (by omega)]
    rfl
  · rw [readUnits_unicodeEscape h9, hunits h9]
    have hc : Fin.ofNat 0x110000 c.val = c := Fin.ext (Nat.mod_eq_of_lt c.isLt)
    rw [hc]
    rfl
  · have hc := c.isLt
    rw [List.append_assoc, readUnits_unicodeEscape (by omega), readUnits_unicodeEscape (by omega)]
    have hpair : c.units = [_, _] := if_neg h9
    rw [hpair]
    cases readUnits rest <;> rfl

/-- A string literal that was written, after its opening quote. -/
def readString (text : List Char) : Option (Text × List Char) :=
  (readUnits text).map fun p => (Text.rejoin p.1, p.2)

theorem readUnits_quote (t : Text) (rest : List Char) :
    readUnits (t.flatMap CodePoint.escape ++ '"' :: rest) =
      some (t.flatMap CodePoint.units, rest) := by
  induction t with
  | nil => exact readUnits_close rest
  | cons c t ih =>
    rw [List.flatMap_cons, List.append_assoc, readUnits_escape, ih]
    rfl

theorem readString_quote (t : Text) (rest : List Char) :
    readString (t.flatMap CodePoint.escape ++ '"' :: rest) = some (t.rejoin, rest) := by
  rw [readString, readUnits_quote, Option.map_some, Text.rejoin_units]

/-! ### Reading numbers -/

/-- A character of a number. -/
def isNumberChar (c : Char) : Bool :=
  c.isDigit || c = '-' || c = '+' || c = '.' || c = 'e'

/-- What follows a number does not continue it. -/
def Stops (rest : List Char) : Prop := ∀ c ∈ rest.head?, isNumberChar c = false

theorem span_number {text rest : List Char} (htext : ∀ c ∈ text, isNumberChar c = true)
    (hrest : Stops rest) : (text ++ rest).span isNumberChar = (text, rest) := by
  rw [List.span_eq_takeWhile_dropWhile, List.takeWhile_append_of_pos htext,
    List.dropWhile_append_of_pos htext]
  cases rest with
  | nil => simp
  | cons c rest => simp [hrest c rfl]

/-- The natural number that digits write. -/
def natOf (text : List Char) : Option ℕ :=
  if text ≠ [] ∧ text.all Char.isDigit then some (Nat.ofDigitChars 10 text 0) else none

/-- The integer that a text writes, if it writes one. -/
def intOf : List Char → Option ℤ
  | [] => none
  | c :: rest =>
    if c = '-' then (natOf rest).map fun n => -(n : ℤ) else (natOf (c :: rest)).map fun n => (n : ℤ)

theorem natOf_repr (n : ℕ) : natOf n.repr.toList = some n := by
  rw [Nat.toList_repr]
  have hdigits : (Nat.toDigits 10 n).all Char.isDigit = true := by
    rw [List.all_eq_true]
    exact fun c hc => Nat.isDigit_of_mem_toDigits (by norm_num) (by norm_num) hc
  rw [natOf, if_pos ⟨List.ne_nil_of_length_pos Nat.length_toDigits_pos, hdigits⟩,
    Nat.ofDigitChars_ten_toDigits]

theorem isDigit_of_mem_repr {n : ℕ} {c : Char} (h : c ∈ n.repr.toList) : c.isDigit = true := by
  rw [Nat.toList_repr] at h
  exact Nat.isDigit_of_mem_toDigits (by norm_num) (by norm_num) h

theorem intText_ofNat (n : ℕ) : intText n = n.repr.toList := rfl

theorem intText_negSucc (n : ℕ) : intText (Int.negSucc n) = '-' :: (n + 1).repr.toList := by
  show ("-" ++ (n + 1).repr).toList = _
  rw [String.toList_append]
  rfl

/-- A decimal text gives its integer back. -/
theorem intOf_intText (n : ℤ) : intOf (intText n) = some n := by
  cases n with
  | ofNat n =>
    show intOf (intText n) = _
    rw [intText_ofNat]
    cases h : n.repr.toList with
    | nil =>
      have := natOf_repr n
      rw [h] at this
      cases this
    | cons c rest =>
      have hdigit := isDigit_of_mem_repr (h ▸ List.mem_cons_self : c ∈ n.repr.toList)
      have hc : c ≠ '-' := by
        rintro rfl
        cases hdigit
      rw [intOf, if_neg hc, ← h, natOf_repr]
      rfl
  | negSucc n =>
    rw [intText_negSucc, intOf, if_pos rfl, natOf_repr]
    rfl

theorem isNumberChar_intText (n : ℤ) : ∀ c ∈ intText n, isNumberChar c = true := by
  have hnat : ∀ {m : ℕ} {c : Char}, c ∈ m.repr.toList → isNumberChar c = true := by
    intro m c hc
    simp [isNumberChar, isDigit_of_mem_repr hc]
  intro c hc
  cases n with
  | ofNat n => exact hnat hc
  | negSucc n =>
    rw [intText_negSucc] at hc
    rcases List.mem_cons.mp hc with rfl | hc
    · rfl
    · exact hnat hc

/-- A way to write floats that a reader of numbers takes back. -/
structure FloatText where
  repr : Float64 → List Char
  parse : List Char → Option Float64
  repr_ne_nil : ∀ f, repr f ≠ []
  numeric : ∀ f, f.isFinite = true → ∀ c ∈ repr f, isNumberChar c = true
  /-- A float is not written as an integer. -/
  intOf_repr : ∀ f, f.isFinite = true → intOf (repr f) = none
  parse_repr : ∀ f, f.isFinite = true → parse (repr f) = some f

/-- The number at the start of a text. -/
def readNumber (floats : FloatText) (text : List Char) : Option (Json × List Char) :=
  let (number, rest) := text.span isNumberChar
  match intOf number with
  | some n => some (.int n, rest)
  | none => (floats.parse number).map fun f => (.float f, rest)

theorem readNumber_int (floats : FloatText) (n : ℤ) {rest : List Char} (h : Stops rest) :
    readNumber floats (intText n ++ rest) = some (.int n, rest) := by
  rw [readNumber, span_number (isNumberChar_intText n) h]
  dsimp only
  rw [intOf_intText]

theorem readNumber_float (floats : FloatText) {f : Float64} (hf : f.isFinite = true)
    {rest : List Char} (h : Stops rest) :
    readNumber floats (floats.repr f ++ rest) = some (.float f, rest) := by
  rw [readNumber, span_number (floats.numeric f hf) h]
  dsimp only
  rw [floats.intOf_repr f hf, floats.parse_repr f hf]
  rfl

/-! ### Reading lists -/

section Lists

variable {α : Type} (close : Char) (item : List Char → Option (α × List Char))

/-- Items with commas between them, up to the closing character. -/
def readSeparated : ℕ → List Char → Option (List α × List Char)
  | 0, _ => none
  | n + 1, text => do
    let (a, rest) ← item text
    match rest with
    | [] => none
    | c :: rest =>
      if c = ',' then
        let (as, rest) ← readSeparated n rest
        some (a :: as, rest)
      else if c = close then some ([a], rest)
      else none

/-- A possibly empty list of items, after its opening character. -/
def readList (n : ℕ) (text : List Char) : Option (List α × List Char) :=
  match text with
  | [] => none
  | c :: rest => if c = close then some ([], rest) else readSeparated close item n text

theorem commaSeparated_cons_cons (text text' : List Char) (texts : List (List Char)) :
    commaSeparated (text :: text' :: texts) = text ++ ',' :: commaSeparated (text' :: texts) := by
  simp [commaSeparated, List.intercalate, List.intersperse]

theorem commaSeparated_singleton (text : List Char) : commaSeparated [text] = text := by
  simp [commaSeparated, List.intercalate]

variable {close item}

/-- Items that are read one by one are read as a list. -/
theorem readSeparated_spec {β : Type} {text : β → List Char} {value : β → α} (hclose : close ≠ ',')
    {b : β} {bs : List β}
    (hitem : ∀ x ∈ b :: bs, ∀ c rest, c = ',' ∨ c = close →
      item (text x ++ c :: rest) = some (value x, c :: rest))
    {n : ℕ} (hn : bs.length < n) (rest : List Char) :
    readSeparated close item n (commaSeparated ((b :: bs).map text) ++ close :: rest) =
      some ((b :: bs).map value, rest) := by
  induction bs generalizing b n with
  | nil =>
    obtain ⟨n, rfl⟩ := Nat.exists_eq_succ_of_ne_zero (Nat.ne_of_gt (Nat.zero_lt_of_lt hn))
    have h := hitem b List.mem_cons_self close rest (Or.inr rfl)
    simp only [List.map_cons, List.map_nil, commaSeparated_singleton, readSeparated, h,
      Option.bind_eq_bind, Option.bind_some, if_neg hclose, if_true]
  | cons b' bs ih =>
    obtain ⟨n, rfl⟩ := Nat.exists_eq_succ_of_ne_zero (Nat.ne_of_gt (Nat.zero_lt_of_lt hn))
    have hrest := ih (fun x hx => hitem x (List.mem_cons_of_mem _ hx))
      (Nat.lt_of_succ_lt_succ (by simpa using hn))
    have h := hitem b List.mem_cons_self ','
      (commaSeparated ((b' :: bs).map text) ++ close :: rest) (Or.inl rfl)
    rw [List.map_cons, List.map_cons, commaSeparated_cons_cons, ← List.map_cons (f := text),
      List.append_assoc, List.cons_append, readSeparated, h]
    simp only [Option.bind_eq_bind, Option.bind_some, if_true, hrest]
    rfl

theorem commaSeparated_head {text : List Char} {texts : List (List Char)} {c : Char}
    {rest : List Char} (h : text = c :: rest) : ∃ rest', commaSeparated (text :: texts) = c :: rest' := by
  subst h
  cases texts with
  | nil => exact ⟨rest, commaSeparated_singleton _⟩
  | cons text' texts =>
    rw [commaSeparated_cons_cons]
    exact ⟨_, rfl⟩

/-- A list whose items do not start with the closing character is read. -/
theorem readList_spec {β : Type} (text : β → List Char) (value : β → α) (hclose : close ≠ ',')
    {bs : List β} (hhead : ∀ x ∈ bs, ∃ c rest, text x = c :: rest ∧ c ≠ close)
    (hitem : ∀ x ∈ bs, ∀ c rest, c = ',' ∨ c = close →
      item (text x ++ c :: rest) = some (value x, c :: rest))
    {n : ℕ} (hn : bs.length ≤ n) (rest : List Char) :
    readList close item n (commaSeparated (bs.map text) ++ close :: rest) =
      some (bs.map value, rest) := by
  cases bs with
  | nil =>
    show readList close item n (close :: rest) = _
    rw [readList, if_pos rfl]
    rfl
  | cons b bs =>
    have hsep := readSeparated_spec hclose hitem hn rest
    obtain ⟨c, text', hc, hne⟩ := hhead b List.mem_cons_self
    obtain ⟨rest', hrest⟩ := commaSeparated_head hc
    rw [List.map_cons, hrest, List.cons_append] at hsep ⊢
    rw [readList, if_neg hne]
    exact hsep

end Lists

/-! ### Reading values -/

/-- A literal whose first character has been read. -/
def readLiteral (literal : String) (value : Json) (text : List Char) : Option (Json × List Char) :=
  if literal.toList.isPrefixOf text then some (value, text.drop literal.length) else none

theorem readLiteral_append (literal : String) (value : Json) (rest : List Char) :
    readLiteral literal value (literal.toList ++ rest) = some (value, rest) := by
  rw [readLiteral, if_pos (List.isPrefixOf_iff_prefix.mpr (List.prefix_append _ _)),
    ← String.length_toList, List.drop_left]

/-- A field of an object. -/
def readField (value : List Char → Option (Json × List Char)) (text : List Char) :
    Option ((Text × Json) × List Char) :=
  match text with
  | [] => none
  | c :: rest =>
    if c = '"' then do
      let (key, rest) ← readString rest
      match rest with
      | [] => none
      | c :: rest =>
        if c = ':' then do
          let (j, rest) ← value rest
          some ((key, j), rest)
        else none
    else none

theorem readField_quote {value : List Char → Option (Json × List Char)} {key : Text} {j : Json}
    {text rest : List Char} (h : value (text ++ rest) = some (j, rest)) :
    readField value (key.quote ++ ':' :: text ++ rest) = some ((key.rejoin, j), rest) := by
  have hquote : key.quote ++ ':' :: text ++ rest =
      '"' :: (key.flatMap CodePoint.escape ++ '"' :: ':' :: (text ++ rest)) := by
    simp [Text.quote]
  rw [hquote, readField, if_pos rfl, readString_quote]
  simp only [Option.bind_eq_bind, Option.bind_some, if_true, h]

/-- The value at the start of a compact text. Each level of nesting takes one of `n`. -/
def readValue (floats : FloatText) : ℕ → List Char → Option (Json × List Char)
  | 0, _ => none
  | _ + 1, [] => none
  | n + 1, c :: rest =>
    if c = '"' then (readString rest).map fun p => (.str p.1, p.2)
    else if c = '[' then (readList ']' (readValue floats n) n rest).map fun p => (.arr p.1, p.2)
    else if c = '{' then
      (readList '}' (readField (readValue floats n)) n rest).map fun p => (.obj p.1, p.2)
    else if c = 'n' then readLiteral "ull" .null rest
    else if c = 't' then readLiteral "rue" (.bool true) rest
    else if c = 'f' then readLiteral "alse" (.bool false) rest
    else readNumber floats (c :: rest)

/-- The first character of a number is no other value's. -/
theorem readValue_number (floats : FloatText) (n : ℕ) {c : Char} {rest : List Char}
    (h : isNumberChar c = true) :
    readValue floats (n + 1) (c :: rest) = readNumber floats (c :: rest) := by
  have hne : ∀ d : Char, isNumberChar d = false → c ≠ d := by
    rintro d hd rfl
    rw [h] at hd
    cases hd
  rw [readValue, if_neg (hne _ rfl), if_neg (hne _ rfl), if_neg (hne _ rfl), if_neg (hne _ rfl),
    if_neg (hne _ rfl), if_neg (hne _ rfl)]

theorem readValue_number_append (floats : FloatText) {n : ℕ} {text : List Char}
    (hne : text ≠ []) (htext : ∀ c ∈ text, isNumberChar c = true) (hn : text.length ≤ n)
    (rest : List Char) :
    readValue floats n (text ++ rest) = readNumber floats (text ++ rest) := by
  cases text with
  | nil => exact absurd rfl hne
  | cons c text =>
    obtain ⟨n, rfl⟩ := Nat.exists_eq_succ_of_ne_zero (Nat.ne_of_gt (Nat.zero_lt_of_lt hn))
    exact readValue_number floats n (htext c List.mem_cons_self)

theorem intText_ne_nil (n : ℤ) : intText n ≠ [] := by
  intro h
  have := intOf_intText n
  rw [h] at this
  cases this

/-- A comma and the closing characters do not continue a number. -/
theorem stops_cons {c : Char} (rest : List Char) (h : isNumberChar c = false) :
    Stops (c :: rest) := by
  intro d hd
  cases hd
  exact h

/-- A text in a list of texts with commas is no longer than the whole. -/
theorem length_le_commaSeparated {text : List Char} {texts : List (List Char)} (h : text ∈ texts) :
    text.length ≤ (commaSeparated texts).length := by
  rw [length_commaSeparated]
  have := List.single_le_sum (fun _ _ => Nat.zero_le _) _ (List.mem_map_of_mem (f := List.length) h)
  omega

theorem length_le_commaSeparated_length (texts : List (List Char)) :
    texts.length ≤ (commaSeparated texts).length + 1 := by
  rw [length_commaSeparated]
  omega

section RoundTrip

variable (floats : FloatText)

/-- The text of a field. -/
def fieldText (p : Text × Json) : List Char := p.1.quote ++ ':' :: Json.text floats.repr p.2

/-- The closing character of an array starts no value. -/
theorem text_head {within : ℤ → Bool} {j : Json} (hj : j.dumpable within = true) :
    ∃ c rest, Json.text floats.repr j = c :: rest ∧ c ≠ ']' := by
  have hnumber : ∀ {text : List Char}, text ≠ [] → (∀ c ∈ text, isNumberChar c = true) →
      ∃ c rest, text = c :: rest ∧ c ≠ ']' := by
    intro text hne hall
    cases text with
    | nil => exact absurd rfl hne
    | cons c rest =>
      refine ⟨c, rest, rfl, ?_⟩
      rintro rfl
      cases hall _ List.mem_cons_self
  cases j with
  | null => exact ⟨_, _, rfl, by decide⟩
  | bool b => cases b <;> exact ⟨_, _, rfl, by decide⟩
  | int n => exact hnumber (intText_ne_nil n) (isNumberChar_intText n)
  | float f => exact hnumber (floats.repr_ne_nil f) (floats.numeric f hj)
  | str t => exact ⟨_, _, rfl, by decide⟩
  | arr items =>
    rw [Json.text_arr]
    exact ⟨_, _, rfl, by decide⟩
  | obj fields =>
    rw [Json.text_obj]
    exact ⟨_, _, rfl, by decide⟩

/-- The round trip, with anything after the value that does not continue it. -/
theorem readValue_text {within : ℤ → Bool} {j : Json} (hj : j.dumpable within = true) {n : ℕ}
    {rest : List Char} (hn : (Json.text floats.repr j).length ≤ n) (hrest : Stops rest) :
    readValue floats n (Json.text floats.repr j ++ rest) = some (j.rejoin, rest) := by
  induction j using Json.induct generalizing n rest with
  | null =>
    obtain ⟨n, rfl⟩ := Nat.exists_eq_succ_of_ne_zero (Nat.ne_of_gt (Nat.zero_lt_of_lt hn))
    exact readLiteral_append "ull" _ rest
  | bool b =>
    obtain ⟨n, rfl⟩ : ∃ m, n = m + 1 :=
      Nat.exists_eq_succ_of_ne_zero fun h => by cases b <;> subst h <;> cases hn
    cases b with
    | true => exact readLiteral_append "rue" _ rest
    | false => exact readLiteral_append "alse" _ rest
  | int m =>
    have hread := readValue_number_append floats (intText_ne_nil m) (isNumberChar_intText m) hn rest
    exact hread.trans (readNumber_int floats m hrest)
  | float f =>
    have hread := readValue_number_append floats (floats.repr_ne_nil f) (floats.numeric f hj) hn rest
    exact hread.trans (readNumber_float floats hj hrest)
  | str t =>
    obtain ⟨n, rfl⟩ := Nat.exists_eq_succ_of_ne_zero (Nat.ne_of_gt (Nat.zero_lt_of_lt hn))
    have htext : Json.text floats.repr (.str t) ++ rest =
        '"' :: (t.flatMap CodePoint.escape ++ '"' :: rest) := by
      show t.quote ++ rest = _
      simp [Text.quote]
    rw [htext, readValue, if_pos rfl, readString_quote]
    rfl
  | arr items ih =>
    obtain ⟨n, rfl⟩ := Nat.exists_eq_succ_of_ne_zero (Nat.ne_of_gt (Nat.zero_lt_of_lt hn))
    have hitems := Json.dumpable_arr.mp hj
    rw [Json.text_arr] at hn ⊢
    have hlen := length_le_commaSeparated_length (items.map (Json.text floats.repr))
    simp only [List.length_cons, List.length_append, List.length_nil, List.length_map] at hn hlen
    -- A comma or the bracket follows each item, and neither continues a value.
    have hread : readList ']' (readValue floats n) n
        (commaSeparated (items.map (Json.text floats.repr)) ++ ']' :: rest) =
          some (items.map Json.rejoin, rest) := by
      refine readList_spec _ _ (by decide) (fun x hx => text_head floats (hitems x hx))
        (fun x hx c r hc => ih x hx (hitems x hx) ?_ (stops_cons r ?_)) (by omega) rest
      · have := length_le_commaSeparated (List.mem_map_of_mem (f := Json.text floats.repr) hx)
        omega
      · rcases hc with rfl | rfl <;> decide
    have hcons : '[' :: (commaSeparated (items.map (Json.text floats.repr)) ++ [']']) ++ rest =
        '[' :: (commaSeparated (items.map (Json.text floats.repr)) ++ ']' :: rest) := by simp
    rw [hcons, readValue, if_neg (by decide), if_pos rfl, hread, Json.rejoin_arr]
    rfl
  | obj fields ih =>
    obtain ⟨n, rfl⟩ := Nat.exists_eq_succ_of_ne_zero (Nat.ne_of_gt (Nat.zero_lt_of_lt hn))
    have hfields := Json.dumpable_obj.mp hj
    have hobj : Json.text floats.repr (.obj fields) =
        '{' :: (commaSeparated (fields.map (fieldText floats)) ++ ['}']) := Json.text_obj _ _
    rw [hobj] at hn ⊢
    have hlen := length_le_commaSeparated_length (fields.map (fieldText floats))
    simp only [List.length_cons, List.length_append, List.length_nil, List.length_map] at hn hlen
    have hread : readList '}' (readField (readValue floats n)) n
        (commaSeparated (fields.map (fieldText floats)) ++ '}' :: rest) =
          some (fields.map (fun p => (p.1.rejoin, p.2.rejoin)), rest) := by
      refine readList_spec _ _ (by decide) (fun x hx => ⟨'"', _, rfl, by decide⟩)
        (fun x hx c r hc => readField_quote (ih x hx (hfields x hx) ?_ (stops_cons r ?_)))
        (by omega) rest
      · have := length_le_commaSeparated (List.mem_map_of_mem (f := fieldText floats) hx)
        have htext : (fieldText floats x).length = x.1.quote.length + ((Json.text floats.repr x.2).length + 1) := by
          simp [fieldText]
        omega
      · rcases hc with rfl | rfl <;> decide
    have hcons : '{' :: (commaSeparated (fields.map (fieldText floats)) ++ ['}']) ++ rest =
        '{' :: (commaSeparated (fields.map (fieldText floats)) ++ '}' :: rest) := by simp
    rw [hcons, readValue, if_neg (by decide), if_neg (by decide), if_pos rfl, hread,
      Json.rejoin_obj]
    rfl

/-- The value that a whole compact text is. -/
def readText (text : List Char) : Option Json :=
  match readValue floats text.length text with
  | some (j, []) => some j
  | _ => none

/-- Reading what was written gives the value back, with its strings joined. -/
theorem readText_text {within : ℤ → Bool} {j : Json} (hj : j.dumpable within = true) :
    readText floats (Json.text floats.repr j) = some j.rejoin := by
  have hstops : Stops [] := fun c hc => (by cases hc)
  have h := readValue_text floats hj (le_refl (Json.text floats.repr j).length) hstops
  rw [List.append_nil] at h
  rw [readText, h]

end RoundTrip

end Hammertime.Lib
