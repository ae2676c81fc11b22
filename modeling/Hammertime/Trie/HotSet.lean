import Mathlib.Data.Finset.Sort
import Hammertime.Trie.Arena

/-!
# The set of HOT addresses

What a HOT trie is for: it stands for a finite set of addresses of one family, and every query is a
question about that set. `HotSet.apply` runs the three mutating calls on a mathematical set. The
queries are stated over the ascending list of the set's numbers (`values`), in which the count of a
prefix is the number of entries with its leading bits (`countUnder`). Both tries are proved to answer
as these definitions do.
-/

namespace Hammertime.Trie

open Bits

/-- The mutating calls of a HOT trie. -/
inductive Call where
  | addHotIp (address : Address)
  | removeHotIp (address : Address)
  | clear
deriving DecidableEq

/-- What a call returns or raises: `add_hot_ip` and `remove_hot_ip` return a bool and `clear` none. -/
abbrev Reply := Except TrieError (Option Bool)

/-- The replies to a list of calls, and the state after the last. -/
def runCalls {σ : Type*} (step : σ → Call → Reply × σ) : σ → List Call → List Reply × σ
  | s, [] => ([], s)
  | s, c :: calls =>
    let (reply, s) := step s c
    let (replies, s) := runCalls step s calls
    (reply :: replies, s)

/-- Two systems whose steps reply alike and keep a relation reply alike throughout every run, and end
related. -/
theorem runCalls_simulation {σ τ : Type*} {step : σ → Call → Reply × σ}
    {step' : τ → Call → Reply × τ} {R : σ → τ → Prop}
    (hstep : ∀ s t c, R s t → (step s c).1 = (step' t c).1 ∧ R (step s c).2 (step' t c).2)
    (calls : List Call) {s : σ} {t : τ} (h : R s t) :
    (runCalls step s calls).1 = (runCalls step' t calls).1 ∧
      R (runCalls step s calls).2 (runCalls step' t calls).2 := by
  induction calls generalizing s t with
  | nil => exact ⟨rfl, h⟩
  | cons c calls ih =>
    obtain ⟨hreply, hnext⟩ := hstep s t c h
    obtain ⟨hreplies, hlast⟩ := ih hnext
    refine ⟨?_, hlast⟩
    simp only [runCalls, hreply, hreplies]

namespace HotSet

/-- A call on a set of addresses of one family; an address of the other family is refused. -/
def apply (family : AddressFamily) (H : Finset Address) : Call → Reply × Finset Address
  | .addHotIp a =>
    if a.family = family then (.ok (some (decide (a ∉ H))), insert a H)
    else (.error (.familyMismatch family a.family), H)
  | .removeHotIp a =>
    if a.family = family then (.ok (some (decide (a ∈ H))), H.erase a)
    else (.error (.familyMismatch family a.family), H)
  | .clear => (.ok none, ∅)

/-- The numbers of the set, ascending. -/
def values (H : Finset Address) : List ℕ := (H.image Address.value).sort

theorem values_sorted (H : Finset Address) : (values H).Pairwise (· < ·) :=
  (Finset.sortedLT_sort _).pairwise

theorem mem_values {H : Finset Address} {v : ℕ} : v ∈ values H ↔ ∃ a ∈ H, a.value = v := by
  simp [values]

/-- In a set of one family, a member is known by its number. -/
theorem value_mem_values {H : Finset Address} {family : AddressFamily}
    (hH : ∀ a ∈ H, a.family = family) {a : Address} (ha : a.family = family) :
    a.value ∈ values H ↔ a ∈ H := by
  rw [mem_values]
  constructor
  · rintro ⟨b, hb, hval⟩
    have : b = a := Address.ext ((hH b hb).trans ha.symm) hval
    exact this ▸ hb
  · intro h
    exact ⟨a, h, rfl⟩

/-- An ascending list with the members of the set is the list of its numbers. -/
theorem eq_values {H : Finset Address} {L : List ℕ} (hL : L.Pairwise (· < ·))
    (hmem : ∀ v, v ∈ L ↔ ∃ a ∈ H, a.value = v) : L = values H := by
  have hperm : L.Perm (values H) := by
    refine (List.perm_ext_iff_of_nodup (hL.imp fun h => h.ne)
      ((values_sorted H).imp fun h => h.ne)).2 (fun v => ?_)
    rw [hmem, mem_values]
  exact hperm.eq_of_pairwise (fun u v _ _ h1 h2 => absurd h1 h2.asymm) hL (values_sorted H)

end HotSet

/-! ## Queries over the ascending numbers -/

/-- How many numbers share the first `l` bits of `x`. -/
def countUnder (w : ℕ) (L : List ℕ) (l x : ℕ) : ℕ := L.countP fun v => top w l v = top w l x

/-- Some prefix of a number is shared exactly when there are numbers at all: the prefix of no bits is
shared by all. -/
theorem countUnder_pos_iff {w : ℕ} {L : List ℕ} (hL : ∀ v ∈ L, v < 2^w) {x : ℕ} (hx : x < 2^w) :
    (∃ l ≤ w, 0 < countUnder w L l x) ↔ ¬ L = [] := by
  constructor
  · rintro ⟨l, -, hl⟩ rfl
    simp [countUnder] at hl
  · intro hne
    obtain ⟨v, hv⟩ := List.exists_mem_of_ne_nil _ hne
    refine ⟨0, Nat.zero_le _, List.countP_pos_iff.2 ⟨v, hv, ?_⟩⟩
    rw [top_zero (hL v hv), top_zero hx]
    simp

/-- The prefix of `v` of length `l`, or `v` itself when `l` is longer than the width. -/
def prefixAt (family : AddressFamily) (v l : ℕ) : Prefix where
  family := family
  network := cleared family.bitLength (min l family.bitLength) v
  length := min l family.bitLength
  length_le := min_le_right _ _
  host_bits_zero := by exact_mod_cast cleared_mod family.bitLength (min l family.bitLength) v

/-- The prefix of a prefix of the same length is itself. -/
theorem prefixAt_cleared (family : AddressFamily) (v : ℕ) {l : ℕ} (hl : l ≤ family.bitLength) :
    prefixAt family (cleared family.bitLength l v) l = prefixAt family v l := by
  ext
  · rfl
  · simp [prefixAt, min_eq_left hl, cleared_cleared (le_refl l) hl]
  · rfl

/-- The answer of `ancestor_counts`. -/
def ancestorsOf (family : AddressFamily) (L : List ℕ) (v m : ℕ) : List PrefixCount :=
  (List.range' m (family.bitLength + 1 - m)).map fun l =>
    ⟨prefixAt family v l, countUnder family.bitLength L l v⟩

/-- The answer of `longest_matching_prefix`. -/
def longestOf (family : AddressFamily) (L : List ℕ) (v : ℕ) : Option Prefix :=
  if L = [] then none
  else some (prefixAt family v (Nat.findGreatest
    (fun l => 0 < countUnder family.bitLength L l v) family.bitLength))

/-- The order of `iter_prefix_counts`: by network, then by length. -/
def PrefixCount.Before (p q : PrefixCount) : Prop :=
  p.pfx.network < q.pfx.network ∨ p.pfx.network = q.pfx.network ∧ p.pfx.length < q.pfx.length

/-- The answer of `iter_prefix_counts`: in order, every prefix of length at least `m` of a number,
with its count. -/
structure IsPrefixListing (family : AddressFamily) (L : List ℕ) (m : ℕ) (ps : List PrefixCount) :
    Prop where
  sorted : ps.Pairwise PrefixCount.Before
  mem_iff : ∀ p, p ∈ ps ↔ ∃ l v, m ≤ l ∧ l ≤ family.bitLength ∧ v ∈ L ∧
    p = ⟨prefixAt family v l, countUnder family.bitLength L l v⟩

/-- There is only one such listing. -/
theorem IsPrefixListing.unique {family : AddressFamily} {L : List ℕ} {m : ℕ}
    {ps qs : List PrefixCount} (hp : IsPrefixListing family L m ps)
    (hq : IsPrefixListing family L m qs) : ps = qs := by
  have hasymm : ∀ p q : PrefixCount, p.Before q → ¬ q.Before p := by
    unfold PrefixCount.Before
    intro p q h1 h2
    omega
  have hirr : ∀ p : PrefixCount, ¬ p.Before p := fun p h => hasymm p p h h
  have hperm : ps.Perm qs := by
    refine (List.perm_ext_iff_of_nodup ?_ ?_).2 (fun p => by rw [hp.mem_iff, hq.mem_iff])
    · refine hp.sorted.imp ?_
      rintro p q h rfl
      exact hirr p h
    · refine hq.sorted.imp ?_
      rintro p q h rfl
      exact hirr p h
  exact hperm.eq_of_pairwise (fun p q _ _ h1 h2 => absurd h2 (hasymm p q h1)) hp.sorted hq.sorted

/-! ## Counts as cardinalities -/

section Card

variable {family : AddressFamily} {H : Finset Address}

/-- A prefix whose network has the family's width contains the addresses that begin with its bits. -/
theorem contains_iff {p : Prefix} {n : ℕ} (hn : p.network = n) (a : Address) :
    p.contains a = true ↔ a.family = p.family ∧
      top p.family.bitLength p.length a.value = top p.family.bitLength p.length n := by
  unfold Prefix.contains
  rw [hn]
  simp only [natCast_shiftRight_eq_top, Nat.cast_inj]
  split_ifs with h
  · simp [h]
  · simp [not_not.1 h]

/-- A prefix that contains an address has a network of the family's width. -/
theorem network_of_contains {p : Prefix} {a : Address} (h : p.contains a = true) :
    a.family = p.family ∧ p.network = (cleared p.family.bitLength p.length a.value : ℕ) := by
  unfold Prefix.contains at h
  split_ifs at h with hf
  refine ⟨not_not.1 hf, ?_⟩
  have hshift := of_decide_eq_true h
  have hdiv : p.network = p.network >>> (p.family.bitLength - p.length) *
      2^(p.family.bitLength - p.length) := by
    rw [Int.shiftRight_eq_div_pow]
    have := Int.ediv_mul_cancel (Int.dvd_of_emod_eq_zero p.host_bits_zero)
    push_cast at this ⊢
    exact this.symm
  rw [hdiv, ← hshift, natCast_shiftRight_eq_top]
  unfold cleared top
  push_cast
  rfl

/-- The number of members that a prefix contains, by their leading bits. -/
theorem card_filter_contains (hfam : ∀ a ∈ H, a.family = family) {p : Prefix}
    (hp : p.family = family) {n : ℕ} (hn : p.network = n) :
    (H.filter fun a => p.contains a = true).card =
      countUnder family.bitLength (HotSet.values H) p.length n := by
  subst hp
  have hinj : Set.InjOn Address.value (H.filter fun a => p.contains a = true) := by
    intro a ha b hb hab
    have h1 := hfam a (Finset.mem_filter.1 ha).1
    have h2 := hfam b (Finset.mem_filter.1 hb).1
    exact Address.ext (h1.trans h2.symm) hab
  have hnodup : (HotSet.values H).Nodup := (HotSet.values_sorted H).imp fun h => h.ne
  rw [← Finset.card_image_of_injOn hinj, countUnder, List.countP_eq_length_filter,
    ← List.toFinset_card_of_nodup (hnodup.filter _)]
  congr 1
  ext v
  simp only [Finset.mem_image, Finset.mem_filter, List.mem_toFinset, List.mem_filter,
    HotSet.mem_values, contains_iff hn, decide_eq_true_eq]
  constructor
  · rintro ⟨a, ⟨ha, -, hbits⟩, rfl⟩
    exact ⟨⟨a, ha, rfl⟩, hbits⟩
  · rintro ⟨⟨a, ha, rfl⟩, hbits⟩
    exact ⟨a, ⟨ha, hfam a ha, hbits⟩, rfl⟩

/-- A prefix of a member, as the tries build it, is a prefix that contains a member. -/
theorem prefixAt_contains {v l : ℕ} (hl : l ≤ family.bitLength) (a : Address) :
    (prefixAt family v l).contains a = true ↔ a.family = family ∧
      top family.bitLength l a.value = top family.bitLength l v := by
  rw [contains_iff (n := cleared family.bitLength l v) (by simp [prefixAt, hl])]
  simp only [prefixAt, min_eq_left hl, top_cleared]

/-- A prefix that contains an address is the address's prefix of its length. -/
theorem eq_prefixAt {p : Prefix} {a : Address} (h : p.contains a = true) :
    p = prefixAt p.family a.value p.length := by
  obtain ⟨-, hn⟩ := network_of_contains h
  have hl := min_eq_left p.length_le
  ext
  · rfl
  · simp [prefixAt, hn, hl]
  · simp [prefixAt, hl]

end Card

end Hammertime.Trie
