import Hammertime.Lib.TopBits

/-!
# Addresses, prefixes, and their bits

The address types of `hammertime.core.addressing`, and the two bit helpers that both tries walk by.
An `Address` is a number of `bitLength` bits. A `Prefix` has its host bits zero, but the source does
not bound its `network`: any integer is accepted, negative ones included, so `network` is an integer
here and the helpers take integers. What a masked Python operation sees of one is its low `w` bits,
`Bits.residue w`; `commonPrefixLength_spec` and `bitAt_spec` restate both helpers in those terms.
-/

namespace Hammertime

open Bits

/-- `AddressFamily`: the two families, each with a trie of its own. -/
inductive AddressFamily where
  | ipv4
  | ipv6
deriving DecidableEq, Repr

/-- `AddressFamily.bit_length`. -/
def AddressFamily.bitLength : AddressFamily → ℕ
  | .ipv4 => 32
  | .ipv6 => 128

/-- The family's value as the source writes it in messages and on the wire. -/
def AddressFamily.text : AddressFamily → String
  | .ipv4 => "ipv4"
  | .ipv6 => "ipv6"

/-- `Address`: a family and a number that fits its width, as `__post_init__` checks. -/
@[ext]
structure Address where
  /-- The address family. -/
  family : AddressFamily
  /-- The address as a number. -/
  value : ℕ
  /-- The number has the family's width. -/
  inRange : value < 2^family.bitLength
deriving DecidableEq

theorem one_lt_ipv4_width : 1 < 2^AddressFamily.ipv4.bitLength := by decide

/-- `Address(family, value)`: refused when the value is out of range. -/
def Address.make? (family : AddressFamily) (value : ℤ) : Option Address :=
  if h : 0 ≤ value ∧ value.toNat < 2^family.bitLength then some ⟨family, value.toNat, h.2⟩ else none

/-- The `n` low bits of `value`, most significant first. -/
def bitsFrom (value : ℕ) : ℕ → List ℕ
  | 0 => []
  | n + 1 => (value >>> n) % 2 :: bitsFrom value n

/-- `Address.bits`: the bits most significant first, which is the trie traversal order. -/
def Address.bits (a : Address) : List ℕ := bitsFrom a.value a.family.bitLength

/-- `Prefix`: a family, a length of at most its width, and a network with its host bits zero. -/
@[ext]
structure Prefix where
  /-- The address family. -/
  family : AddressFamily
  /-- The network, any integer with its host bits zero. -/
  network : ℤ
  /-- The prefix length. -/
  length : ℕ
  /-- The length fits the family. -/
  length_le : length ≤ family.bitLength
  /-- The bits below the prefix are zero. -/
  host_bits_zero : network % 2^(family.bitLength - length) = 0
deriving DecidableEq

/-- `Prefix(family, network, length)`: refused when the length or the host bits are wrong. -/
def Prefix.make? (family : AddressFamily) (network : ℤ) (length : ℕ) : Option Prefix :=
  if h : length ≤ family.bitLength ∧ network % 2^(family.bitLength - length) = 0 then
    some ⟨family, network, length, h.1, h.2⟩
  else none

/-- `Prefix.contains`: same family, and the same number above the host bits. -/
def Prefix.contains (p : Prefix) (a : Address) : Bool :=
  if a.family ≠ p.family then false
  else
    let shift := p.family.bitLength - p.length
    decide ((a.value : ℤ) >>> shift = p.network >>> shift)

/-- `(value >> host_bits) << host_bits`: the value with its host bits zeroed. -/
def clearHostBits (value : ℤ) (hostBits : ℕ) : ℤ := (value >>> hostBits) * 2^hostBits

/-- `common_prefix_length`: the length of the shared most significant bit run of two addresses.
`& ((1 << bit_length) - 1)` keeps the low bits, and the bit length of a positive `diff` is
`log2 diff + 1`. -/
def commonPrefixLength (a b : ℤ) (bitLength : ℕ) : ℕ :=
  let diff := residue bitLength (Int.xor a b)
  if diff = 0 then bitLength else bitLength - (diff.log2 + 1)

/-- `bit_at`: bit `index`, counting from the most significant bit. -/
def bitAt (value : ℤ) (index bitLength : ℕ) : ℕ := (value >>> (bitLength - 1 - index) % 2).toNat

/-- A bit is zero or one. -/
theorem bitAt_lt (value : ℤ) (index bitLength : ℕ) : bitAt value index bitLength < 2 := by
  have := Int.emod_lt_of_pos (value >>> (bitLength - 1 - index)) (by norm_num : (0 : ℤ) < 2)
  unfold bitAt
  omega

/-- A shared run is no longer than the width. -/
theorem commonPrefixLength_le (a b : ℤ) (w : ℕ) : commonPrefixLength a b w ≤ w := by
  unfold commonPrefixLength
  dsimp only
  split_ifs <;> omega

/-- The shared run has length at least `l` exactly when the first `l` of the low `w` bits agree. -/
theorem commonPrefixLength_spec {w l : ℕ} (hl : l ≤ w) (a b : ℤ) :
    l ≤ commonPrefixLength a b w ↔ top w l (residue w a) = top w l (residue w b) := by
  rw [top_eq_iff_testBit (residue_lt w a) (residue_lt w b)]
  have hdiff : ∀ i, (residue w (Int.xor a b)).testBit i = (decide (i < w) &&
      (a.testBit i ^^ b.testBit i)) := by
    intro i
    rw [testBit_residue, Int.testBit_lxor]
  -- The bits of `diff` in the first `l` positions are the disagreements there.
  have hagree : (∀ i, w - l ≤ i → i < w → (residue w a).testBit i = (residue w b).testBit i) ↔
      ∀ i, w - l ≤ i → (residue w (Int.xor a b)).testBit i = false := by
    constructor
    · intro h i hi
      rw [hdiff]
      by_cases hw : i < w
      · have := h i hi hw
        rw [testBit_residue, testBit_residue] at this
        simpa [hw] using this
      · simp [hw]
    · intro h i hi hw
      have := h i hi
      rw [hdiff] at this
      rw [testBit_residue, testBit_residue]
      simpa [hw] using this
  rw [hagree]
  unfold commonPrefixLength
  dsimp only
  split_ifs with h0
  · simp [h0, hl]
  · have hlt := residue_lt w (Int.xor a b)
    have hlog : (residue w (Int.xor a b)).log2 < w := (Nat.log2_lt h0).2 hlt
    constructor
    · intro h i hi
      have hsmall : (residue w (Int.xor a b)).log2 < i := by omega
      exact Nat.testBit_lt_two_pow ((Nat.log2_lt h0).1 hsmall)
    · intro h
      have := (Nat.log2_lt h0).2 (Nat.lt_pow_two_of_testBit _ h)
      omega

/-- A bit is the last of the first `i + 1` of the low `w` bits. -/
theorem bitAt_spec {w i : ℕ} (hi : i < w) (n : ℤ) :
    bitAt n i w = top w (i + 1) (residue w n) % 2 :=
  (top_residue_mod_two hi n).symm

/-- On numbers, clearing host bits is `Bits.cleared`. -/
theorem clearHostBits_natCast {w l : ℕ} (v : ℕ) :
    clearHostBits (v : ℤ) (w - l) = (cleared w l v : ℕ) := by
  unfold clearHostBits cleared
  rw [Int.shiftRight_eq_div_pow]
  push_cast
  rfl

/-- What clearing leaves is a multiple of the host bits. -/
theorem clearHostBits_emod (value : ℤ) (hostBits : ℕ) :
    clearHostBits value hostBits % 2^hostBits = 0 := by
  simp [clearHostBits]

/-- Shifting the host bits out of a natural number leaves its leading bits. -/
theorem natCast_shiftRight_eq_top {w l : ℕ} (v : ℕ) :
    (v : ℤ) >>> (w - l) = (top w l v : ℕ) := by
  rw [Int.shiftRight_eq_div_pow]
  unfold top
  push_cast
  rfl

end Hammertime
