import Mathlib.Data.List.Perm.Subperm
import Mathlib.Data.List.Range
import Mathlib.Tactic

/-!
# Blocks of messages, resumed after a crash

A producer writes blocks of messages to a log that drops a message it holds already. The messages of a
block arrive in any order, and a crash leaves some of them out. What the log holds is then `Partway`:
the blocks below some index, one after the other, and a part of the block at the index. Offering a
message of an earlier block again changes nothing, and offering all of the block at the index moves
the log past it. So a producer that starts over loses nothing and repeats nothing, as long as it leaves
out no block from the one of the log's last message on.
-/

namespace Hammertime.Lib

variable {μ : Type}

/-- No message is in two blocks, or twice in one. -/
structure DistinctBlocks (block : ℕ → List μ) : Prop where
  nodup : ∀ i, (block i).Nodup
  index : ∀ i j m, m ∈ block i → m ∈ block j → i = j

/-- The log is the blocks below an index, one after the other, each in some order. -/
def Through (block : ℕ → List μ) (index : ℕ) (log : List μ) : Prop :=
  ∃ part : ℕ → List μ, (∀ i < index, (part i).Perm (block i)) ∧
    log = (List.range index).flatMap part

/-- The log is the blocks below an index, and then a part of the block at the index. -/
def Partway (block : ℕ → List μ) (index : ℕ) (log : List μ) : Prop :=
  ∃ front rest, Through block index front ∧ rest.Nodup ∧ rest ⊆ block index ∧ log = front ++ rest

/-- A log takes a message unless it holds it. -/
def offer [DecidableEq μ] (log : List μ) (m : μ) : List μ := if m ∈ log then log else log ++ [m]

variable {block : ℕ → List μ} {index : ℕ} {log : List μ}

namespace Through

theorem mem_iff (h : Through block index log) (m : μ) : m ∈ log ↔ ∃ i < index, m ∈ block i := by
  obtain ⟨part, hpart, rfl⟩ := h
  rw [List.mem_flatMap]
  constructor
  · rintro ⟨i, hi, hm⟩
    have hlt := List.mem_range.mp hi
    exact ⟨i, hlt, (hpart i hlt).mem_iff.mp hm⟩
  · rintro ⟨i, hi, hm⟩
    exact ⟨i, List.mem_range.mpr hi, (hpart i hi).mem_iff.mpr hm⟩

/-- The indices of the messages do not decrease along the log. -/
theorem pairwise (h : Through block index log) {indexOf : μ → ℤ}
    (hindex : ∀ i, ∀ m ∈ block i, indexOf m = i) :
    log.Pairwise fun m m' => indexOf m ≤ indexOf m' := by
  obtain ⟨part, hpart, rfl⟩ := h
  have hmem : ∀ i ∈ List.range index, ∀ m ∈ part i, indexOf m = i := fun i hi m hm =>
    hindex i m ((hpart i (List.mem_range.mp hi)).mem_iff.mp hm)
  rw [List.pairwise_flatMap]
  constructor
  · intro i hi
    refine List.pairwise_of_forall_mem_list fun m hm m' hm' => ?_
    rw [hmem i hi m hm, hmem i hi m' hm']
  · refine List.Pairwise.imp_of_mem (fun {i j} hi hj hlt m hm m' hm' => ?_) List.pairwise_lt_range
    rw [hmem i hi m hm, hmem j hj m' hm']
    exact_mod_cast hlt.le

theorem nodup (h : Through block index log) (hdistinct : DistinctBlocks block) : log.Nodup := by
  obtain ⟨part, hpart, rfl⟩ := h
  rw [List.nodup_flatMap]
  constructor
  · intro i hi
    exact (hpart i (List.mem_range.mp hi)).nodup_iff.mpr (hdistinct.nodup i)
  · refine List.Pairwise.imp_of_mem (fun {i j} hi hj hlt m hm hm' => ?_) List.pairwise_lt_range
    have hin := (hpart i (List.mem_range.mp hi)).mem_iff.mp hm
    have hin' := (hpart j (List.mem_range.mp hj)).mem_iff.mp hm'
    exact hlt.ne (hdistinct.index i j m hin hin')

end Through

namespace Partway

theorem nil : Partway block 0 [] :=
  ⟨[], [], ⟨fun _ => [], fun i hi => absurd hi (Nat.not_lt_zero i), rfl⟩, List.nodup_nil,
    List.nil_subset _, rfl⟩

/-- Every message of the log is of a block up to the index. -/
theorem exists_block (h : Partway block index log) {m : μ} (hm : m ∈ log) :
    ∃ i ≤ index, m ∈ block i := by
  obtain ⟨front, rest, hfront, -, hrest, rfl⟩ := h
  rcases List.mem_append.mp hm with hm | hm
  · obtain ⟨i, hi, hmem⟩ := (hfront.mem_iff m).mp hm
    exact ⟨i, hi.le, hmem⟩
  · exact ⟨index, le_rfl, hrest hm⟩

/-- Every message of a block below the index is in the log. -/
theorem mem_of_lt (h : Partway block index log) {i : ℕ} (hi : i < index) {m : μ}
    (hm : m ∈ block i) : m ∈ log := by
  obtain ⟨front, rest, hfront, -, -, rfl⟩ := h
  exact List.mem_append_left _ ((hfront.mem_iff m).mpr ⟨i, hi, hm⟩)

/-- Once the log holds all of the block at the index, it is past it. -/
theorem succ (h : Partway block index log) (hdistinct : DistinctBlocks block)
    (hall : ∀ m ∈ block index, m ∈ log) : Partway block (index + 1) log := by
  obtain ⟨front, rest, hfront, hnodup, hrest, rfl⟩ := h
  -- What the log holds of the block is not in the blocks before it.
  have hback : block index ⊆ rest := by
    intro m hm
    rcases List.mem_append.mp (hall m hm) with hin | hin
    · obtain ⟨i, hi, hmem⟩ := (hfront.mem_iff m).mp hin
      exact absurd (hdistinct.index i index m hmem hm) hi.ne
    · exact hin
  have hperm : rest.Perm (block index) :=
    (List.perm_ext_iff_of_nodup hnodup (hdistinct.nodup index)).mpr fun m =>
      ⟨fun hm => hrest hm, fun hm => hback hm⟩
  obtain ⟨part, hpart, rfl⟩ := hfront
  have hbelow : ∀ i ∈ List.range index, Function.update part index rest i = part i := fun i hi =>
    Function.update_of_ne (List.mem_range.mp hi).ne _ _
  refine ⟨_, [], ⟨Function.update part index rest, fun i hi => ?_, rfl⟩, List.nodup_nil,
    List.nil_subset _, ?_⟩
  · rcases Nat.lt_succ_iff_lt_or_eq.mp hi with hi | rfl
    · rw [hbelow i (List.mem_range.mpr hi)]
      exact hpart i hi
    · rw [Function.update_self]
      exact hperm
  · rw [List.append_nil, List.range_succ, List.flatMap_append, List.flatMap_singleton,
      Function.update_self, List.flatMap_congr hbelow]

/-- A producer that is at most at the index goes past a block that the log holds. -/
theorem advance (h : Partway block index log) (hdistinct : DistinctBlocks block) {i : ℕ}
    (hi : i ≤ index) (hall : ∀ m ∈ block i, m ∈ log) :
    ∃ next, index ≤ next ∧ i + 1 ≤ next ∧ next ≤ max index (i + 1) ∧ Partway block next log := by
  rcases hi.lt_or_eq with hlt | rfl
  · exact ⟨index, le_rfl, hlt, le_max_left _ _, h⟩
  · exact ⟨i + 1, Nat.le_succ i, le_rfl, le_max_right _ _, h.succ hdistinct hall⟩

/-- The log repeats nothing. -/
theorem nodup (h : Partway block index log) (hdistinct : DistinctBlocks block) : log.Nodup := by
  obtain ⟨front, rest, hfront, hnodup, hrest, rfl⟩ := h
  refine List.nodup_append.mpr ⟨hfront.nodup hdistinct, hnodup, fun m hm m' hm' heq => ?_⟩
  obtain ⟨i, hi, hmem⟩ := (hfront.mem_iff m).mp hm
  exact hi.ne (hdistinct.index i index m hmem (heq ▸ hrest hm'))

/-- Blocks beyond the index may differ. -/
theorem congr {block' : ℕ → List μ} (h : Partway block index log)
    (hbelow : ∀ i < index, block' i = block i) (hat : block index ⊆ block' index) :
    Partway block' index log := by
  obtain ⟨front, rest, ⟨part, hpart, hfront⟩, hnodup, hrest, hlog⟩ := h
  refine ⟨front, rest, ⟨part, fun i hi => ?_, hfront⟩, hnodup, fun m hm => hat (hrest hm), hlog⟩
  rw [hbelow i hi]
  exact hpart i hi

/-- A log whose messages are all of blocks below some bound that it has reached is these blocks. -/
theorem through (h : Partway block index log) (hdistinct : DistinctBlocks block) {bound : ℕ}
    (hbound : bound ≤ index) (hall : ∀ m ∈ log, ∃ i < bound, m ∈ block i) :
    Through block bound log := by
  obtain ⟨front, rest, ⟨part, hpart, rfl⟩, -, hrest, rfl⟩ := h
  have hrestNil : rest = [] := by
    refine List.eq_nil_iff_forall_not_mem.mpr fun m hm => ?_
    obtain ⟨i, hi, hmem⟩ := hall m (List.mem_append_right _ hm)
    have heq := hdistinct.index i index m hmem (hrest hm)
    omega
  have hnil : ∀ i ∈ List.range' bound (index - bound), part i = [] := by
    intro i hi
    obtain ⟨hlow, hhigh⟩ := List.mem_range'_1.mp hi
    have hlt : i < index := by omega
    refine List.eq_nil_iff_forall_not_mem.mpr fun m hm => ?_
    have hin : m ∈ (List.range index).flatMap part ++ rest :=
      List.mem_append_left _ (List.mem_flatMap.mpr ⟨i, List.mem_range.mpr hlt, hm⟩)
    obtain ⟨j, hj, hmem⟩ := hall m hin
    have heq := hdistinct.index j i m hmem ((hpart i hlt).mem_iff.mp hm)
    omega
  refine ⟨part, fun i hi => hpart i (by omega), ?_⟩
  have hsplit : List.range index = List.range bound ++ List.range' bound (index - bound) := by
    have happend := List.range'_append_1 (s := 0) (m := bound) (n := index - bound)
    rw [Nat.zero_add, Nat.add_sub_cancel' hbound] at happend
    rw [List.range_eq_range', List.range_eq_range']
    exact happend.symm
  have hlast : (List.range' bound (index - bound)).flatMap part = [] :=
    List.flatMap_eq_nil_iff.mpr hnil
  rw [hrestNil, List.append_nil, hsplit, List.flatMap_append, hlast, List.append_nil]

variable [DecidableEq μ]

/-- A message of an earlier block is dropped. -/
theorem offer_old (h : Partway block index log) {i : ℕ} (hi : i < index) {m : μ}
    (hm : m ∈ block i) : offer log m = log := if_pos (h.mem_of_lt hi hm)

theorem foldl_offer_old (h : Partway block index log) {i : ℕ} (hi : i < index) {ms : List μ}
    (hms : ms ⊆ block i) : ms.foldl offer log = log := by
  induction ms with
  | nil => rfl
  | cons m ms ih =>
    obtain ⟨hm, hrest⟩ := List.cons_subset.mp hms
    rw [List.foldl_cons, h.offer_old hi hm]
    exact ih hrest

/-- A message of the block at the index is taken, if it is not there. -/
theorem offer (h : Partway block index log) {m : μ} (hm : m ∈ block index) :
    Partway block index (offer log m) := by
  unfold Lib.offer
  split_ifs with hin
  · exact h
  · obtain ⟨front, rest, hfront, hnodup, hrest, rfl⟩ := h
    refine ⟨front, rest ++ [m], hfront, ?_, List.append_subset.mpr ⟨hrest, ?_⟩, ?_⟩
    · refine List.nodup_append.mpr ⟨hnodup, List.nodup_singleton m, fun a ha b hb => ?_⟩
      rw [List.mem_singleton.mp hb]
      exact fun heq => hin (List.mem_append_right _ (heq ▸ ha))
    · exact List.cons_subset.mpr ⟨hm, List.nil_subset _⟩
    · rw [List.append_assoc]

theorem foldl_offer (h : Partway block index log) {ms : List μ} (hms : ms ⊆ block index) :
    Partway block index (ms.foldl Lib.offer log) := by
  induction ms generalizing log with
  | nil => exact h
  | cons m ms ih =>
    obtain ⟨hm, hrest⟩ := List.cons_subset.mp hms
    exact ih (h.offer hm) hrest

/-- What is offered of a block up to the index leaves the log partway. -/
theorem offers (h : Partway block index log) {i : ℕ} (hi : i ≤ index) {ms : List μ}
    (hms : ms ⊆ block i) : Partway block index (ms.foldl Lib.offer log) := by
  rcases hi.lt_or_eq with hlt | rfl
  · rw [h.foldl_offer_old hlt hms]
    exact h
  · exact h.foldl_offer hms

end Partway

/-- What is offered is held, and what is held stays. -/
theorem mem_foldl_offer [DecidableEq μ] {ms : List μ} {m : μ} :
    m ∈ ms.foldl offer log ↔ m ∈ log ∨ m ∈ ms := by
  induction ms generalizing log with
  | nil => simp
  | cons a ms ih =>
    have hoffer : m ∈ offer log a ↔ m ∈ log ∨ m = a := by
      unfold offer
      split_ifs with ha
      · constructor
        · exact .inl
        · rintro (h | rfl)
          · exact h
          · exact ha
      · rw [List.mem_append, List.mem_singleton]
    rw [List.foldl_cons, ih, List.mem_cons, hoffer, or_assoc]

end Hammertime.Lib
