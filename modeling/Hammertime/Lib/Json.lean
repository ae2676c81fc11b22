import Mathlib.Data.Rat.Defs
import Mathlib.Data.Rat.Lemmas
import Mathlib.Tactic

/-!
# JSON values and their compact text

The values that `json.loads` builds and `json.dumps` writes, as Python holds them, and the text that
`json.dumps` with the separators `,` and `:` and the default `ensure_ascii` produces. An object is
the list of its pairs in order.

A Python string is a sequence of code points, surrogates included, and a float is its 64 bits. The
text of a float is a parameter of the printer, `repr`; everything else of the text is computed here.
-/

namespace Hammertime.Lib

/-! ### Strings -/

/-- A code point of a Python string. -/
abbrev CodePoint := Fin 0x110000

/-- A Python string. -/
abbrev Text := List CodePoint

instance CodePoint.instNeZero : NeZero 0x110000 := ⟨by decide⟩

instance Text.instLawfulBEq : LawfulBEq Text := inferInstance

/-- A character is a code point that is not a surrogate. -/
def CodePoint.ofChar (c : Char) : CodePoint :=
  ⟨c.toNat, by
    have h := c.valid
    rcases h with h | h
    · exact lt_trans h (by decide)
    · exact h.2⟩

/-- A well-formed string. -/
def Text.ofString (s : String) : Text := s.toList.map CodePoint.ofChar

instance : Coe String Text := ⟨Text.ofString⟩

/-- The code points `\ud800` to `\udfff`. -/
def CodePoint.IsSurrogate (c : CodePoint) : Prop := 0xd800 ≤ c.val ∧ c.val ≤ 0xdfff

instance (c : CodePoint) : Decidable c.IsSurrogate := inferInstanceAs (Decidable (_ ∧ _))

/-- Some code point of the string is a surrogate. -/
def Text.HasSurrogate (t : Text) : Prop := ∃ c ∈ t, CodePoint.IsSurrogate c

instance (t : Text) : Decidable t.HasSurrogate := inferInstanceAs (Decidable (∃ c ∈ t, _))

theorem CodePoint.ofChar_not_isSurrogate (c : Char) : ¬ (CodePoint.ofChar c).IsSurrogate := by
  rintro ⟨hlo, hhi⟩
  have hlo : 0xd800 ≤ c.toNat := hlo
  have hhi : c.toNat ≤ 0xdfff := hhi
  rcases c.valid with h | h
  · have : c.toNat < 0xd800 := h
    omega
  · have : 0xdfff < c.toNat := h.1
    omega

theorem Text.ofString_not_hasSurrogate (s : String) : ¬ (Text.ofString s).HasSurrogate := by
  rintro ⟨c, hc, hs⟩
  obtain ⟨a, -, rfl⟩ := List.mem_map.mp hc
  exact CodePoint.ofChar_not_isSurrogate a hs

/-! ### Floats -/

/-- A `float`: the bits of a binary64. -/
structure Float64 where
  bits : BitVec 64
deriving DecidableEq

namespace Float64

variable (f : Float64)

/-- The biased exponent. -/
def exponent : ℕ := f.bits.toNat / 2 ^ 52 % 2 ^ 11

/-- The trailing significand. -/
def significand : ℕ := f.bits.toNat % 2 ^ 52

/-- `math.isfinite`. -/
def isFinite : Bool := f.exponent ≠ 2047

/-- The number a finite float is. -/
def value : ℚ :=
  let magnitude : ℚ :=
    if f.exponent = 0 then f.significand * (2 : ℚ) ^ (-1074 : ℤ)
    else (2 ^ 52 + f.significand) * (2 : ℚ) ^ ((f.exponent : ℤ) - 1075)
  if f.bits.msb then -magnitude else magnitude

/-- `math.isfinite(f) and f.is_integer()`. -/
def isInteger : Bool := f.isFinite && f.value.den = 1

/-- `int(f)` of an integral float. -/
def toInt : ℤ := f.value.num

/-- `0.0`. -/
def zero : Float64 := ⟨0⟩

/-- `1.0`. -/
def one : Float64 := ⟨0x3ff0000000000000⟩

end Float64

/-! ### Values -/

/-- A JSON value as Python holds it. -/
inductive Json where
  | null
  | bool (value : Bool)
  | int (value : ℤ)
  | float (value : Float64)
  | str (text : Text)
  | arr (items : List Json)
  | obj (fields : List (Text × Json))

namespace Json

/-- Values are compared through their parts: a property that passes from the items of an array and
the values of an object to the whole holds of every value. -/
theorem induct {P : Json → Prop} (null : P .null) (bool : ∀ b, P (.bool b)) (int : ∀ n, P (.int n))
    (float : ∀ f, P (.float f)) (str : ∀ t, P (.str t))
    (arr : ∀ items, (∀ j ∈ items, P j) → P (.arr items))
    (obj : ∀ fields, (∀ p ∈ fields, P p.2) → P (.obj fields)) (j : Json) : P j := by
  refine @Json.rec P (fun items => ∀ j ∈ items, P j) (fun fields => ∀ p ∈ fields, P p.2)
    (fun p => P p.2) null bool int float str arr obj ?_ ?_ ?_ ?_ ?_ j
  · exact fun j hj => absurd hj List.not_mem_nil
  · intro head tail hhead htail j hj
    rcases List.mem_cons.mp hj with rfl | hj
    · exact hhead
    · exact htail j hj
  · exact fun p hp => absurd hp List.not_mem_nil
  · intro head tail hhead htail p hp
    rcases List.mem_cons.mp hp with rfl | hp
    · exact hhead
    · exact htail p hp
  · exact fun key value h => h

/-- What a value of each kind contributes, given what its parts do. -/
structure Algebra (β : Type) where
  null : β
  bool : Bool → β
  int : ℤ → β
  float : Float64 → β
  str : Text → β
  arr : List β → β
  obj : List (Text × β) → β

variable {β : Type} (alg : Algebra β)

mutual

/-- Compute bottom up. -/
def fold : Json → β
  | .null => alg.null
  | .bool b => alg.bool b
  | .int n => alg.int n
  | .float f => alg.float f
  | .str t => alg.str t
  | .arr items => alg.arr (foldItems items)
  | .obj fields => alg.obj (foldFields fields)
termination_by structural j => j

/-- The items of an array. -/
def foldItems : List Json → List β
  | [] => []
  | j :: rest => fold j :: foldItems rest
termination_by structural items => items

/-- The fields of an object. -/
def foldFields : List (Text × Json) → List (Text × β)
  | [] => []
  | p :: rest => foldField p :: foldFields rest
termination_by structural fields => fields

/-- One field. -/
def foldField : Text × Json → Text × β
  | (key, value) => (key, fold value)
termination_by structural p => p

end

theorem foldItems_eq (items : List Json) : foldItems alg items = items.map (fold alg) := by
  induction items with
  | nil => rfl
  | cons j rest ih => rw [List.map_cons, ← ih, foldItems]

theorem foldFields_eq (fields : List (Text × Json)) :
    foldFields alg fields = fields.map fun p => (p.1, fold alg p.2) := by
  induction fields with
  | nil => rfl
  | cons p rest ih =>
    obtain ⟨key, value⟩ := p
    rw [List.map_cons, ← ih, foldFields, foldField]

theorem fold_arr (items : List Json) :
    fold alg (.arr items) = alg.arr (items.map (fold alg)) := by
  rw [fold, foldItems_eq]

theorem fold_obj (fields : List (Text × Json)) :
    fold alg (.obj fields) = alg.obj (fields.map fun p => (p.1, fold alg p.2)) := by
  rw [fold, foldFields_eq]

end Json

/-! ### The compact text -/

/-- `'\\u{0:04x}'.format(n)`. -/
def unicodeEscape (n : ℕ) : List Char :=
  ['\\', 'u', Nat.digitChar (n / 4096 % 16), Nat.digitChar (n / 256 % 16),
    Nat.digitChar (n / 16 % 16), Nat.digitChar (n % 16)]

/-- How `json.dumps` writes one code point of a string. -/
def CodePoint.escape (c : CodePoint) : List Char :=
  if c.val = 0x22 then ['\\', '"']
  else if c.val = 0x5c then ['\\', '\\']
  else if c.val = 0x0a then ['\\', 'n']
  else if c.val = 0x0d then ['\\', 'r']
  else if c.val = 0x09 then ['\\', 't']
  else if c.val = 0x0c then ['\\', 'f']
  else if c.val = 0x08 then ['\\', 'b']
  else if 0x20 ≤ c.val ∧ c.val ≤ 0x7e then [Char.ofNat c.val]
  else if c.val < 0x10000 then unicodeEscape c.val
  else
    -- A pair of surrogates.
    unicodeEscape (0xd800 + (c.val - 0x10000) / 0x400) ++
      unicodeEscape (0xdc00 + (c.val - 0x10000) % 0x400)

/-- The string literal of a string. -/
def Text.quote (t : Text) : List Char := '"' :: (t.flatMap CodePoint.escape ++ ['"'])

/-- The decimal text of an integer. -/
def intText (n : ℤ) : List Char := (toString n).toList

/-- Texts with commas between them. -/
def commaSeparated (texts : List (List Char)) : List Char := List.intercalate [','] texts

namespace Json

/-- `json.dumps(value, separators=(",", ":"))`, with `repr` for `float.__repr__`. -/
def textAlgebra (repr : Float64 → List Char) : Algebra (List Char) where
  null := "null".toList
  bool b := if b then "true".toList else "false".toList
  int := intText
  float := repr
  str := Text.quote
  arr texts := '[' :: (commaSeparated texts ++ [']'])
  obj fields := '{' :: (commaSeparated (fields.map fun p => p.1.quote ++ ':' :: p.2) ++ ['}'])

/-- The compact text of a value. -/
def text (repr : Float64 → List Char) : Json → List Char := fold (textAlgebra repr)

theorem text_arr (repr : Float64 → List Char) (items : List Json) :
    text repr (.arr items) = '[' :: (commaSeparated (items.map (text repr)) ++ [']']) := by
  rw [text, fold_arr]
  rfl

theorem text_obj (repr : Float64 → List Char) (fields : List (Text × Json)) :
    text repr (.obj fields) =
      '{' :: (commaSeparated (fields.map fun p => p.1.quote ++ ':' :: text repr p.2) ++ ['}']) := by
  rw [text, fold_obj]
  show '{' :: (commaSeparated (List.map _ (List.map _ fields)) ++ ['}']) = _
  rw [List.map_map]
  rfl

end Json

/-! ### Lengths -/

theorem length_commaSeparated (texts : List (List Char)) :
    (commaSeparated texts).length = (texts.map List.length).sum + (texts.length - 1) := by
  induction texts with
  | nil => rfl
  | cons text rest ih =>
    cases rest with
    | nil => simp [commaSeparated, List.intercalate]
    | cons text' rest =>
      have hsplit : commaSeparated (text :: text' :: rest) =
          text ++ ',' :: commaSeparated (text' :: rest) := by
        simp [commaSeparated, List.intercalate, List.intersperse]
      rw [hsplit, List.length_append, List.length_cons, ih]
      simp only [List.map_cons, List.sum_cons, List.length_cons]
      omega

/-- Escaping does not shorten. -/
theorem CodePoint.one_le_length_escape (c : CodePoint) : 1 ≤ c.escape.length := by
  unfold escape
  split_ifs <;> simp [unicodeEscape]

theorem Text.length_add_two_le (t : Text) : t.length + 2 ≤ t.quote.length := by
  have h : t.length ≤ (t.flatMap CodePoint.escape).length := by
    induction t with
    | nil => simp
    | cons c rest ih =>
      have := c.one_le_length_escape
      simp only [List.length_cons, List.flatMap_cons, List.length_append]
      omega
  simp only [Text.quote, List.length_cons, List.length_append, List.length_nil]
  omega

/-- A number that is at least a power of ten has more digits than the exponent. -/
theorem lt_length_repr {k n : ℕ} (h : 10 ^ k ≤ n) : k < n.repr.toList.length := by
  rw [Nat.toList_repr]
  by_cases hk : k = 0
  · rw [hk]
    exact Nat.length_toDigits_pos
  · rw [← not_le, Nat.length_toDigits_le_iff (by norm_num) (Nat.pos_of_ne_zero hk)]
    exact not_lt.mpr h

end Hammertime.Lib
