import Hammertime.Lib.Json

/-!
# Bytes in hexadecimal

`bytes.hex` and `bytes.fromhex`. The reader takes digits of both cases and skips ASCII whitespace
before a pair of digits and at the end, never inside one, so that a text of a given length may stand
for fewer bytes than half of it. What the writer writes has none, and is read back as it was.
-/

namespace Hammertime.Lib

/-- The value of a hexadecimal digit. -/
def hexDigit? (c : CodePoint) : Option ℕ :=
  if 48 ≤ c.val ∧ c.val ≤ 57 then some (c.val - 48)
  else if 97 ≤ c.val ∧ c.val ≤ 102 then some (c.val - 87)
  else if 65 ≤ c.val ∧ c.val ≤ 70 then some (c.val - 55)
  else none

/-- `Py_ISSPACE`. -/
def isAsciiSpace (c : CodePoint) : Bool := (9 ≤ c.val ∧ c.val ≤ 13) ∨ c.val = 32

/-- `bytes.fromhex`, or its `ValueError`. -/
def fromhex : Text → Option (List UInt8)
  | [] => some []
  | [c] => if isAsciiSpace c then some [] else none
  | c :: d :: rest =>
    if isAsciiSpace c then fromhex (d :: rest)
    else
      match hexDigit? c, hexDigit? d with
      | some top, some bottom =>
        (fromhex rest).map fun bytes => UInt8.ofNat (16 * top + bottom) :: bytes
      | _, _ => none

/-- The lower-case digit of a value below 16. -/
def hexDigit (n : ℕ) : CodePoint := if n < 10 then Fin.ofNat _ (48 + n) else Fin.ofNat _ (87 + n)

/-- `bytes.hex`. -/
def hexdigest (bytes : List UInt8) : Text :=
  bytes.flatMap fun byte => [hexDigit (byte.toNat / 16), hexDigit (byte.toNat % 16)]

theorem hexDigit?_hexDigit {n : ℕ} (h : n < 16) : hexDigit? (hexDigit n) = some n := by
  revert h
  revert n
  decide

theorem isAsciiSpace_hexDigit {n : ℕ} (h : n < 16) : isAsciiSpace (hexDigit n) = false := by
  revert h
  revert n
  decide

/-- What was written is read back. -/
theorem fromhex_hexdigest (bytes : List UInt8) : fromhex (hexdigest bytes) = some bytes := by
  induction bytes with
  | nil => rfl
  | cons byte rest ih =>
    have hbyte := byte.toNat_lt
    have htop : byte.toNat / 16 < 16 := by omega
    have hbottom : byte.toNat % 16 < 16 := by omega
    have hcons : hexdigest (byte :: rest) =
        hexDigit (byte.toNat / 16) :: hexDigit (byte.toNat % 16) :: hexdigest rest := rfl
    rw [hcons, fromhex, isAsciiSpace_hexDigit htop, if_neg Bool.false_ne_true,
      hexDigit?_hexDigit htop, hexDigit?_hexDigit hbottom]
    dsimp only
    rw [ih, Option.map_some, Nat.div_add_mod, UInt8.ofNat_toNat]

theorem length_hexdigest (bytes : List UInt8) : (hexdigest bytes).length = 2 * bytes.length := by
  induction bytes with
  | nil => rfl
  | cons byte rest ih =>
    have hcons : hexdigest (byte :: rest) =
        hexDigit (byte.toNat / 16) :: hexDigit (byte.toNat % 16) :: hexdigest rest := rfl
    rw [hcons, List.length_cons, List.length_cons, ih, List.length_cons]
    omega

end Hammertime.Lib
