import Hammertime.Codec
import Hammertime.Trie.Soundness

/-!
# What `check_patricia` raises

A violation is raised with a message that writes the integers it names, and the interpreter refuses
to write an integer of too many digits: it raises a `ValueError` in place of the violation. The
checks bound what they name by the bit length and by the arena's capacity, but an id that is out of
range, a length or a count may be any integer of a corrupted trie. `check_patricia` does what it
documents exactly when its message can be written (`check_patricia_answers`).
-/

namespace Hammertime.Trie

open Codec (withinDigits)
open Lib

/-- The limit on the digits of an integer that is written in decimal, none when it is disabled. -/
structure DigitLimit where
  digits : Option ℕ
  /-- `sys.set_int_max_str_digits` refuses a lower limit. -/
  le_digits : ∀ n ∈ digits, 640 ≤ n

namespace DigitLimit

theorem le_default : ∀ n ∈ some 4300, 640 ≤ n := by simp

/-- The limit that the interpreter starts with. -/
def default : DigitLimit := ⟨some 4300, le_default⟩

/-- Whether the integer can be written. -/
def writes (limit : DigitLimit) (n : ℤ) : Bool := withinDigits limit.digits n

variable {limit : DigitLimit}

theorem writes_of_le {m n : ℤ} (hm : limit.writes m = true) (h : n.natAbs ≤ m.natAbs) :
    limit.writes n = true := by
  unfold writes withinDigits at hm ⊢
  cases hlimit : limit.digits with
  | none => rfl
  | some digits =>
    rw [hlimit] at hm
    exact decide_eq_true (h.trans_lt (of_decide_eq_true hm))

/-- The least integer that is too long. -/
theorem writes_pow {digits : ℕ} (h : limit.digits = some digits) :
    limit.writes (10 ^ digits) = false := by
  simp [writes, withinDigits, h, Int.natAbs_pow]

/-- Small integers can be written. -/
theorem writes_small {n : ℤ} (h : n.natAbs ≤ 128) : limit.writes n = true := by
  unfold writes withinDigits
  cases hlimit : limit.digits with
  | none => rfl
  | some digits =>
    have hdigits : 3 ≤ digits := le_trans (by norm_num) (limit.le_digits digits hlimit)
    have hpow : 10 ^ 3 ≤ 10 ^ digits := Nat.pow_le_pow_right (by norm_num) hdigits
    exact decide_eq_true (by omega)

end DigitLimit

/-- The integers in "child[{branch}] of node {parent}", which the root's messages do not have. -/
def whereWritten (parent : ℤ) (branch : ℕ) : List ℤ :=
  if parent = noNode then [] else [(branch : ℤ), parent]

/-- The integers that the message of a violation writes in decimal. A network is written in
hexadecimal, which has no limit. -/
def InvariantViolation.written (bits : ℕ) : InvariantViolation → List ℤ
  | .storageLists capacity network hotCount child =>
    [(capacity : ℤ), (network : ℤ), (hotCount : ℤ), (child : ℤ), 2 * (capacity : ℤ)]
  | .outsideArena parent branch nid capacity => whereWritten parent branch ++ [nid, (capacity : ℤ)]
  | .released parent branch nid length => whereWritten parent branch ++ [nid, length]
  | .reachedTwice nid parent branch => nid :: whereWritten parent branch
  | .lengthOver nid length bits => [nid, length, (bits : ℤ)]
  | .badNetwork nid _ length => [nid, length, (bits : ℤ)]
  | .notExtending nid length parent parentLength => [nid, length, parent, parentLength]
  | .wrongBranch nid parent branch parentLength =>
    nid :: whereWritten parent branch ++ [(branch : ℤ), parentLength]
  | .leafLength nid length bits => [nid, length, (bits : ℤ)]
  | .leafCount nid count => [nid, count]
  | .oneChild nid left right => [nid, left, right]
  | .childrenSum nid count left right total => [nid, count, left, right, total]
  | .capacityAccount capacity live free => [(capacity : ℤ), live, (free : ℤ), live + free]
  | .freeOutside position nid capacity => [(position : ℤ), nid, (capacity : ℤ)]
  | .freeTwice nid first position => [nid, (first : ℤ), (position : ℤ)]
  | .freeLive nid length => [nid, length]
  | .deadUnlisted nid length => [nid, length]
  | .nodeCount size nodes => [(size : ℤ), nodes]
  | .liveCount size live => [(size : ℤ), live]
  | .nodesLeaves size leaves => [(size : ℤ), (leaves : ℤ), 2 * (leaves : ℤ) - 1]
  | .leavesHotIp leaves count => [(leaves : ℤ), count]
  | .raised _ => []

/-- What a call of `check_patricia` raises. -/
inductive CheckError where
  | invariantViolation (v : InvariantViolation)
  /-- "Exceeds the limit for integer string conversion", of the interpreter. -/
  | valueError
  | other (e : TrieError)
deriving DecidableEq

/-- A `raise` of the check: its message is written first. -/
def InvariantViolation.raise (limit : DigitLimit) (bits : ℕ) : InvariantViolation → CheckError
  | .raised e => .other e
  | v => if (v.written bits).all limit.writes then .invariantViolation v else .valueError

/-- A call of `check_patricia`. -/
def checkPatriciaCall (limit : DigitLimit) (t : PatriciaTrie) : Except CheckError Unit :=
  (checkPatricia t).mapError (InvariantViolation.raise limit t.bitLength)

/-- The call does what the check documents: it returns on a trie that stands for a set of
addresses, or raises an `InvariantViolation`. -/
def Answers (limit : DigitLimit) (t : PatriciaTrie) : Prop :=
  (checkPatriciaCall limit t = .ok () ∧ ∃ H, StandsFor t H) ∨
    ∃ v, checkPatriciaCall limit t = .error (.invariantViolation v)

/-- The message of the violation can be written. -/
def Fits (limit : DigitLimit) (bits : ℕ) (v : InvariantViolation) : Prop :=
  ∀ n ∈ v.written bits, limit.writes n = true

/-- Every integer of the trie can be written, every sum of two counts, and twice every list's
length. -/
structure Short (limit : DigitLimit) (t : PatriciaTrie) : Prop where
  root : limit.writes t.root = true
  length : ∀ x ∈ t.arena.length, limit.writes x = true
  hotCount : ∀ x ∈ t.arena.hotCount, limit.writes x = true
  child : ∀ x ∈ t.arena.child, limit.writes x = true
  freeIds : ∀ x ∈ t.arena.freeIds, limit.writes x = true
  sums : ∀ x ∈ t.arena.hotCount, ∀ y ∈ t.arena.hotCount, limit.writes (x + y) = true
  sizes : ∀ l ∈ [t.arena.network, t.arena.length, t.arena.hotCount, t.arena.child, t.arena.freeIds],
    limit.writes (2 * (l.length : ℤ)) = true

/-! ## The messages on a short trie -/

section Parts

variable {limit : DigitLimit} {a : NodeArena} {bits : ℕ}

theorem readRaw_fits (l : List ℤ) (i : ℤ) : Meets (readRaw l i) (fun x => x ∈ l) (Fits limit bits) := by
  unfold readRaw NodeArena.readAt
  cases hx : IntIndex.get? l i with
  | none => exact fun n hn => absurd hn List.not_mem_nil
  | some x => exact IntIndex.mem_of_get? hx

theorem whereWritten_fits {parent : ℤ} {branch : ℕ} (hparent : limit.writes parent = true)
    (hbranch : limit.writes branch = true) : ∀ n ∈ whereWritten parent branch,
      limit.writes n = true := by
  unfold whereWritten
  split_ifs with hroot
  · exact fun n hn => absurd hn List.not_mem_nil
  · simp [hparent, hbranch]

theorem checkExtends_fits (hlength : ∀ x ∈ a.length, limit.writes x = true) {nid parent : ℤ}
    {branch : ℕ} (hnid : limit.writes nid = true) (hparent : limit.writes parent = true)
    (hbranch : limit.writes branch = true) {length : ℤ} (hlen : limit.writes length = true)
    (network : ℤ) :
    Meets (checkExtends a bits nid length network parent branch) (fun _ => True)
      (Fits limit bits) := by
  unfold checkExtends
  split_ifs with hroot
  · trivial
  · refine (readRaw_fits a.length parent).bind fun parentLength hin => ?_
    have habove := hlength parentLength hin
    refine Meets.check (fun _ => ?_) fun _ => ?_
    · simp [Fits, InvariantViolation.written, hnid, hlen, hparent, habove]
    refine (readRaw_fits a.network parent).bind fun parentNetwork _ => ?_
    refine Meets.check (fun _ => ?_) fun _ => trivial
    have hwhere := whereWritten_fits hparent hbranch
    simpa [Fits, InvariantViolation.written, hnid, hbranch, habove, or_imp, forall_and] using hwhere

/-- What the check reads of a node of a short trie is short. -/
structure NodeShort (limit : DigitLimit) (a : NodeArena) (reached : List ℤ) (nid : ℤ)
    (r : ℤ × ℤ × ℤ) : Prop where
  inRange : 0 ≤ nid ∧ nid < a.length.length
  fresh : nid ∉ reached
  length : limit.writes r.1 = true
  left : limit.writes r.2.1 = true
  right : limit.writes r.2.2 = true

theorem checkNode_fits (hlength : ∀ x ∈ a.length, limit.writes x = true)
    (hchild : ∀ x ∈ a.child, limit.writes x = true)
    (hcapacity : limit.writes a.length.length = true) (hbits : limit.writes bits = true)
    {nid parent : ℤ} {branch : ℕ} (hnid : limit.writes nid = true)
    (hparent : limit.writes parent = true) (hbranch : limit.writes branch = true)
    (reached : List ℤ) :
    Meets (checkNode a bits reached nid parent branch) (NodeShort limit a reached nid)
      (Fits limit bits) := by
  have hwhere := whereWritten_fits hparent hbranch
  unfold checkNode
  simp only [throw_bind]
  refine Meets.check (fun _ => ?_) fun hrange => ?_
  · simpa [Fits, InvariantViolation.written, hnid, hcapacity, or_imp, forall_and] using hwhere
  by_cases hlive : ¬ a.isLive nid = true
  · rw [if_pos hlive]
    refine (readRaw_fits a.length nid).bind fun length hin => ?_
    have hlen := hlength length hin
    show Fits limit bits (.released parent branch nid length)
    simpa [Fits, InvariantViolation.written, hnid, hlen, or_imp, forall_and] using hwhere
  rw [if_neg hlive]
  refine Meets.check (fun _ => ?_) fun hfresh => ?_
  · simpa [Fits, InvariantViolation.written, hnid, or_imp, forall_and] using hwhere
  refine (readRaw_fits a.length nid).bind fun length hin => ?_
  have hlen := hlength length hin
  refine (readRaw_fits a.network nid).bind fun network _ => ?_
  refine Meets.check (fun _ => ?_) fun _ => ?_
  · simp [Fits, InvariantViolation.written, hnid, hlen, hbits]
  refine Meets.check (fun _ => ?_) fun _ => ?_
  · simp [Fits, InvariantViolation.written, hnid, hlen, hbits]
  refine (checkExtends_fits hlength hnid hparent hbranch hlen network).bind fun _ _ => ?_
  refine (readRaw_fits a.child (2 * nid)).bind fun left hleft => ?_
  refine (readRaw_fits a.child (2 * nid + 1)).bind fun right hright => ?_
  exact ⟨not_not.mp hrange, hfresh, hlen, hchild left hleft, hchild right hright⟩

/-- What the walk of a short trie has collected is short. -/
structure WalkedShort (limit : DigitLimit) (a : NodeArena) (walked : Walked) : Prop where
  nodup : walked.reached.Nodup
  inRange : ∀ i ∈ walked.reached, 0 ≤ i ∧ i < a.length.length
  leaves_le : walked.leaves ≤ walked.reached.length
  internal : ∀ n ∈ walked.internal,
    limit.writes n.1 = true ∧ limit.writes n.2.1 = true ∧ limit.writes n.2.2 = true

theorem checkLoop_fits (hlength : ∀ x ∈ a.length, limit.writes x = true)
    (hcounts : ∀ x ∈ a.hotCount, limit.writes x = true)
    (hchild : ∀ x ∈ a.child, limit.writes x = true)
    (hcapacity : limit.writes a.length.length = true) (hbits : limit.writes bits = true)
    {fuel : ℕ} (stack : List (ℤ × ℤ × ℕ)) (walked : Walked)
    (hstack : ∀ entry ∈ stack, limit.writes entry.1 = true ∧ limit.writes entry.2.1 = true ∧
      limit.writes entry.2.2 = true) (hwalked : WalkedShort limit a walked) :
    Meets (checkLoop a bits fuel stack walked) (WalkedShort limit a) (Fits limit bits) := by
  induction fuel generalizing stack walked with
  | zero =>
    cases stack with
    | nil => exact hwalked
    | cons entry stack => exact fun n hn => absurd hn List.not_mem_nil
  | succ fuel ih =>
    cases stack with
    | nil => exact hwalked
    | cons entry stack =>
      obtain ⟨nid, parent, branch⟩ := entry
      obtain ⟨⟨hnid, hparent, hbranch⟩, hrest⟩ := List.forall_mem_cons.mp hstack
      unfold checkLoop
      simp only [throw_bind]
      refine (checkNode_fits hlength hchild hcapacity hbits hnid hparent hbranch
        walked.reached).bind ?_
      rintro ⟨length, left, right⟩ hnode
      obtain ⟨hrange, hfresh, hlen, hleft, hright⟩ := hnode
      refine (readRaw_fits a.hotCount nid).bind fun count hin => ?_
      have hcount := hcounts count hin
      -- One more slot is reached, and as a leaf one more leaf.
      have hnodup : (nid :: walked.reached).Nodup := List.nodup_cons.mpr ⟨hfresh, hwalked.nodup⟩
      have hranges : ∀ i ∈ nid :: walked.reached, 0 ≤ i ∧ i < a.length.length :=
        List.forall_mem_cons.mpr ⟨hrange, hwalked.inRange⟩
      have hleaves := hwalked.leaves_le
      show Meets (if left = noNode ∧ right = noNode then _ else _) _ _
      by_cases hleaf : left = noNode ∧ right = noNode
      · rw [if_pos hleaf]
        refine Meets.check (fun _ => ?_) fun _ => ?_
        · simp [Fits, InvariantViolation.written, hnid, hlen, hbits]
        refine Meets.check (fun _ => ?_) fun _ => ?_
        · simp [Fits, InvariantViolation.written, hnid, hcount]
        refine ih stack _ hrest ⟨hnodup, hranges, ?_, hwalked.internal⟩
        exact Nat.succ_le_succ hleaves
      · rw [if_neg hleaf]
        refine Meets.check (fun _ => ?_) fun _ => ?_
        · simp [Fits, InvariantViolation.written, hnid, hleft, hright]
        refine ih _ _ ?_ ⟨hnodup, hranges, Nat.le_succ_of_le hleaves, ?_⟩
        · have hzero : limit.writes ((0 : ℕ) : ℤ) = true := DigitLimit.writes_small (by norm_num)
          have hone : limit.writes ((1 : ℕ) : ℤ) = true := DigitLimit.writes_small (by norm_num)
          exact List.forall_mem_cons.mpr ⟨⟨hleft, hnid, hzero⟩,
            List.forall_mem_cons.mpr ⟨⟨hright, hnid, hone⟩, hrest⟩⟩
        · intro n hn
          rcases List.mem_append.mp hn with hn | hn
          · exact hwalked.internal n hn
          · rw [List.mem_singleton.mp hn]
            exact ⟨hnid, hleft, hright⟩

theorem checkSums_fits (hcounts : ∀ x ∈ a.hotCount, limit.writes x = true)
    (hsums : ∀ x ∈ a.hotCount, ∀ y ∈ a.hotCount, limit.writes (x + y) = true)
    {internal : List (ℤ × ℤ × ℤ)} (h : ∀ n ∈ internal,
      limit.writes n.1 = true ∧ limit.writes n.2.1 = true ∧ limit.writes n.2.2 = true) :
    Meets (checkSums a internal) (fun _ => True) (Fits limit bits) := by
  induction internal with
  | nil => trivial
  | cons n internal ih =>
    obtain ⟨nid, left, right⟩ := n
    obtain ⟨⟨hnid, hleft, hright⟩, hrest⟩ := List.forall_mem_cons.mp h
    unfold checkSums
    simp only [throw_bind]
    refine (readRaw_fits a.hotCount nid).bind fun count hcount => ?_
    refine (readRaw_fits a.hotCount left).bind fun l hl => ?_
    refine (readRaw_fits a.hotCount right).bind fun r hr => ?_
    refine Meets.check (fun _ => ?_) fun _ => ih hrest
    have htotal := hsums l hl r hr
    simp [Fits, InvariantViolation.written, hnid, hleft, hright, hcounts count hcount, htotal]

theorem checkListed_fits {length : List ℤ} (hlength : ∀ x ∈ length, limit.writes x = true)
    (hcapacity : limit.writes length.length = true) {size : ℕ} (hsize : limit.writes size = true)
    (position : ℕ) {listed freeIds : List ℤ} (hlisted : listed.length = position)
    (hfree : ∀ x ∈ freeIds, limit.writes x = true) (hposition : position + freeIds.length ≤ size) :
    Meets (checkListed length position listed freeIds) (fun _ => True) (Fits limit bits) := by
  induction freeIds generalizing position listed with
  | nil => trivial
  | cons nid freeIds ih =>
    rw [List.length_cons] at hposition
    obtain ⟨hnid, hrest⟩ := List.forall_mem_cons.mp hfree
    have hpos : limit.writes position = true := DigitLimit.writes_of_le hsize (by omega)
    unfold checkListed
    simp only [throw_bind]
    refine Meets.check (fun _ => ?_) fun _ => ?_
    · simp [Fits, InvariantViolation.written, hnid, hcapacity, hpos]
    refine Meets.check (fun hin => ?_) fun _ => ?_
    · have hfirst : limit.writes (listed.idxOf nid) = true := by
        have hlt := List.idxOf_lt_length_of_mem hin
        exact DigitLimit.writes_of_le hsize (by omega)
      simp [Fits, InvariantViolation.written, hnid, hfirst, hpos]
    refine (readRaw_fits length nid).bind fun x hx => ?_
    refine Meets.check (fun _ => ?_) fun _ => ?_
    · simp [Fits, InvariantViolation.written, hnid, hlength x hx]
    exact ih (position + 1) (by simp [hlisted]) hrest (by omega)

theorem checkDead_fits {size : ℕ} (hsize : limit.writes size = true) (listed : List ℤ) (nid : ℕ)
    {length : List ℤ} (hlength : ∀ x ∈ length, limit.writes x = true)
    (hnid : nid + length.length ≤ size) :
    Meets (checkDead listed nid length) (fun _ => True) (Fits limit bits) := by
  induction length generalizing nid with
  | nil => trivial
  | cons len length ih =>
    rw [List.length_cons] at hnid
    obtain ⟨hlen, hrest⟩ := List.forall_mem_cons.mp hlength
    have hself : limit.writes nid = true := DigitLimit.writes_of_le hsize (by omega)
    unfold checkDead
    refine Meets.check (fun _ => ?_) fun _ => ih (nid + 1) hrest (by omega)
    simp [Fits, InvariantViolation.written, hself, hlen]

end Parts

/-! ## The call -/

section Call

variable {limit : DigitLimit} {t : PatriciaTrie}

/-- A list's length can be written where twice it can. -/
theorem Short.writes_length (h : Short limit t) {l : List ℤ} (hl : l ∈ [t.arena.network,
    t.arena.length, t.arena.hotCount, t.arena.child, t.arena.freeIds]) :
    limit.writes l.length = true :=
  DigitLimit.writes_of_le (h.sizes l hl) (by omega)

/-- The count of the root is one of the list's. -/
theorem mem_of_hotIpCount {count : ℤ} (h : t.hotIpCount = .ok count) :
    count = 0 ∨ count ∈ t.arena.hotCount := by
  unfold PatriciaTrie.hotIpCount NodeArena.hotCountAt at h
  split_ifs at h with hroot
  · exact Or.inl (Except.ok.inj h).symm
  · obtain ⟨-, -, hread⟩ := except_bind_ok.mp h
    unfold NodeArena.readAt at hread
    split at hread
    · next x hx =>
      obtain rfl := Except.ok.inj hread
      exact Or.inr (IntIndex.mem_of_get? hx)
    · cases hread

/-- On a short trie every message of the check can be written. -/
theorem Short.checkPatricia_fits (h : Short limit t) :
    Meets (checkPatricia t) (fun _ => True) (Fits limit t.bitLength) := by
  have hcapacity := h.writes_length (l := t.arena.length) (by simp)
  have hnetwork := h.writes_length (l := t.arena.network) (by simp)
  have hhotCount := h.writes_length (l := t.arena.hotCount) (by simp)
  have hchild := h.writes_length (l := t.arena.child) (by simp)
  have hfree := h.writes_length (l := t.arena.freeIds) (by simp)
  have hdouble := h.sizes t.arena.length (by simp)
  have hbits : limit.writes t.bitLength = true := by
    have hle : t.bitLength ≤ 128 := by
      unfold PatriciaTrie.bitLength
      cases t.family <;> decide
    exact DigitLimit.writes_small (by omega)
  have hlive : limit.writes t.arena.liveCount = true := by
    unfold NodeArena.liveCount
    rcases Nat.le_total t.arena.freeIds.length t.arena.length.length with hle | hle
    · exact DigitLimit.writes_of_le hcapacity (by omega)
    · exact DigitLimit.writes_of_le hfree (by omega)
  unfold checkPatricia
  simp only [throw_bind]
  refine Meets.check (fun _ => ?_) fun _ => ?_
  · simp [Fits, InvariantViolation.written, hcapacity, hnetwork, hhotCount, hchild, hdouble]
  refine (checkLoop_fits h.length h.hotCount h.child hcapacity hbits _ ⟨[], [], 0⟩ ?_
    ⟨List.nodup_nil, by simp, le_refl _, by simp⟩).bind fun walked hwalked => ?_
  · have hnone : limit.writes noNode = true := DigitLimit.writes_small (by decide)
    have hzero : limit.writes ((0 : ℕ) : ℤ) = true := DigitLimit.writes_small (by norm_num)
    split_ifs
    · exact List.forall_mem_cons.mpr ⟨⟨h.root, hnone, hzero⟩, by simp⟩
    · simp
  refine (checkSums_fits h.hotCount h.sums hwalked.internal).bind fun _ _ => ?_
  refine Meets.check (fun hne => absurd ?_ hne) fun _ => ?_
  · unfold NodeArena.liveCount NodeArena.freeCount NodeArena.capacity
    omega
  refine (checkListed_fits h.length hcapacity hfree 0 rfl h.freeIds (by omega)).bind
    fun listed _ => ?_
  refine (checkDead_fits hcapacity listed 0 h.length (by omega)).bind fun _ _ => ?_
  -- The nodes reached are slots, and the leaves are nodes reached.
  have hle := length_le_of_inRange hwalked.nodup hwalked.inRange
  have hleavesLe := hwalked.leaves_le
  have hsize : limit.writes walked.reached.length = true :=
    DigitLimit.writes_of_le hcapacity (by omega)
  have hleaves : limit.writes walked.leaves = true := DigitLimit.writes_of_le hcapacity (by omega)
  have hnodes : limit.writes (2 * (walked.leaves : ℤ) - 1) = true := by
    rcases Nat.eq_zero_or_pos walked.leaves with hzero | hpos
    · rw [hzero]
      exact DigitLimit.writes_small (by decide)
    · exact DigitLimit.writes_of_le hdouble (by omega)
  refine Meets.check (fun _ => ?_) fun _ => ?_
  · simp [Fits, InvariantViolation.written, hsize, PatriciaTrie.nodeCount, hlive]
  refine Meets.check (fun _ => ?_) fun _ => ?_
  · simp [Fits, InvariantViolation.written, hsize, hlive]
  by_cases hempty : walked.reached.length ≠ 0
  · rw [if_pos hempty]
    refine Meets.check (fun _ => ?_) fun _ => ?_
    · simp [Fits, InvariantViolation.written, hsize, hleaves, hnodes]
    cases hcount : t.hotIpCount with
    | error e => exact fun n hn => absurd hn List.not_mem_nil
    | ok count =>
      refine Meets.check (fun _ => ?_) fun _ => trivial
      have hwritten : limit.writes count = true := by
        rcases mem_of_hotIpCount hcount with rfl | hin
        · exact DigitLimit.writes_small (by decide)
        · exact h.hotCount count hin
      simp [Fits, InvariantViolation.written, hleaves, hwritten]
  · rw [if_neg hempty]
    trivial

/-- The call does what it documents exactly when the message of the violation can be written. -/
theorem answers_iff (limit : DigitLimit) (t : PatriciaTrie) :
    Answers limit t ↔ ∀ v, checkPatricia t = .error v → Fits limit t.bitLength v := by
  obtain ⟨hraised, hsound⟩ := check_patricia_sound t
  unfold Answers checkPatriciaCall
  cases hcheck : checkPatricia t with
  | ok u => exact iff_of_true (Or.inl ⟨rfl, hsound hcheck⟩) fun v hv => by cases hv
  | error v =>
    have hraise : v.raise limit t.bitLength =
        if (v.written t.bitLength).all limit.writes then .invariantViolation v
        else .valueError := by
      cases v with
      | raised e => exact absurd hcheck (hraised e)
      | _ => rfl
    simp only [Except.mapError, hraise, reduceCtorEq, false_and, false_or, Except.error.injEq,
      forall_eq']
    unfold Fits
    rw [← List.all_eq_true]
    split_ifs with hall
    · exact iff_of_true ⟨v, rfl⟩ hall
    · exact iff_of_false (fun ⟨v', hv'⟩ => by cases hv') hall

/-- On an arena without slots, a root whose id is too long to write. -/
theorem not_answers_of_root {family : AddressFamily} {root : ℤ}
    (hroot : limit.writes root = false) : ¬ Answers limit ⟨family, NodeArena.empty, root⟩ := by
  have hne : root ≠ noNode := by
    rintro rfl
    rw [DigitLimit.writes_small (by decide)] at hroot
    cases hroot
  have hrange : ¬ (0 ≤ root ∧ root < 0) := by omega
  have hcheck : checkPatricia ⟨family, NodeArena.empty, root⟩ =
      .error (.outsideArena noNode 0 root 0) := by
    simp [checkPatricia, NodeArena.empty, hne, checkLoop, checkNode, hrange, bind, Except.bind,
      throw, throwThe, MonadExceptOf.throw]
  rw [answers_iff]
  intro hfits
  have hwrites := hfits _ hcheck root (by simp [InvariantViolation.written])
  rw [hroot] at hwrites
  cases hwrites

end Call

/-- **What `check_patricia` raises**, under a limit on the digits of integers: the call does what it
documents exactly when the message of the violation it finds can be written. It does on every trie
whose own integers are short enough, and on every trie exactly when the limit is disabled. -/
theorem check_patricia_answers (limit : DigitLimit) :
    (∀ t, Answers limit t ↔ ∀ v, checkPatricia t = .error v → Fits limit t.bitLength v) ∧
      (∀ t, Short limit t → Answers limit t) ∧
      ((∀ t, Answers limit t) ↔ limit.digits = none) := by
  refine ⟨answers_iff limit, fun t ht => ?_, ?_⟩
  · rw [answers_iff]
    exact fun v hv => ht.checkPatricia_fits.of_error hv
  · constructor
    · intro hall
      cases hdigits : limit.digits with
      | none => rfl
      | some digits =>
        -- An integer that is too long, as the root of a trie without slots.
        have hlong := DigitLimit.writes_pow hdigits
        exact absurd (hall ⟨.ipv4, NodeArena.empty, 10 ^ digits⟩) (not_answers_of_root hlong)
    · intro hnone t
      rw [answers_iff]
      intro v _ n _
      simp [DigitLimit.writes, withinDigits, hnone]

/-- The empty arena with the root `10 ** 4300`, in the interpreter as it starts: the check raises the
interpreter's `ValueError`. -/
theorem check_patricia_overlong_root :
    ¬ Answers DigitLimit.default ⟨.ipv4, NodeArena.empty, 10 ^ 4300⟩ :=
  not_answers_of_root (DigitLimit.writes_pow rfl)

end Hammertime.Trie
