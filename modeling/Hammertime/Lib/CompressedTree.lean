import Hammertime.Lib.TopBits

/-!
# Path-compressed binary trees of numbers

A tree of `w`-bit numbers in which a node stands at the point where the numbers below it part: it
carries the bits that they share, and exactly two children, one for each next bit. Nodes are labelled,
so that a tree can be laid out in a store addressed by the labels. `Shape w` says that a tree is such
a tree. What matters of it is its list of `leaves`, ascending, and how many of them begin with given
bits (`under`); insertion and deletion are described by the leaves, and the steps of a walk by `under`.
-/

namespace Hammertime

open Bits

/-- The number of leading bits that two `w`-bit numbers share. -/
def Bits.shared (w u v : ℕ) : ℕ := Nat.findGreatest (fun l => top w l u = top w l v) w

/-- Bit `l` of a `w`-bit number, counted from the most significant. -/
def Bits.bit (w l v : ℕ) : ℕ := top w (l + 1) v % 2

/-- Numbers share at least `l` bits exactly when their first `l` bits agree. -/
theorem Bits.le_shared_iff {w l u v : ℕ} (hu : u < 2^w) (hv : v < 2^w) (hl : l ≤ w) :
    l ≤ shared w u v ↔ top w l u = top w l v := by
  constructor
  · intro h
    have hs : top w (shared w u v) u = top w (shared w u v) v :=
      Nat.findGreatest_spec (P := fun l => top w l u = top w l v) (Nat.zero_le w)
        (by rw [top_zero hu, top_zero hv])
    exact top_eq_of_le h (Nat.findGreatest_le w) hs
  · intro h
    exact Nat.le_findGreatest hl h

theorem Bits.shared_le (w u v : ℕ) : shared w u v ≤ w := Nat.findGreatest_le w

theorem Bits.bit_lt (w l v : ℕ) : bit w l v < 2 := Nat.mod_lt _ (by norm_num)

/-- One more leading bit. -/
theorem Bits.top_succ_bit {w l : ℕ} (hl : l < w) (v : ℕ) :
    top w (l + 1) v = 2 * top w l v + bit w l v := top_succ hl v

/-- A labelled path-compressed tree: a leaf holds a number, and a node the bits that the numbers
below it share, with how many of them there are. -/
inductive Tree (ι : Type*) where
  | leaf (id : ι) (value : ℕ)
  | node (id : ι) (network length : ℕ) (left right : Tree ι)

namespace Tree

open scoped List

variable {ι : Type*}

/-- The label at the top. -/
def id : Tree ι → ι
  | leaf id _ => id
  | node id _ _ _ _ => id

/-- The bits at the top: a leaf's number, or those that the node's numbers share. -/
def network : Tree ι → ℕ
  | leaf _ value => value
  | node _ network _ _ _ => network

/-- How many bits the top carries: all of them at a leaf. -/
def length (w : ℕ) : Tree ι → ℕ
  | leaf _ _ => w
  | node _ _ length _ _ => length

/-- The numbers of the tree, from left to right. -/
def leaves : Tree ι → List ℕ
  | leaf _ value => [value]
  | node _ _ _ left right => left.leaves ++ right.leaves

/-- How many numbers the tree holds. -/
def count (t : Tree ι) : ℕ := t.leaves.length

/-- The labels, top first. -/
def ids : Tree ι → List ι
  | leaf id _ => [id]
  | node id _ _ left right => id :: (left.ids ++ right.ids)

/-- The tree is compressed: a node's bits are `length` many and no more, its children carry more
bits and begin with them, and the next bit is 0 on the left and 1 on the right. -/
def Shape (w : ℕ) : Tree ι → Prop
  | leaf _ value => value < 2^w
  | node _ network length left right =>
    length < w ∧ network < 2^w ∧ cleared w length network = network ∧
      length < left.length w ∧ length < right.length w ∧
      top w (length + 1) left.network = 2 * top w length network ∧
      top w (length + 1) right.network = 2 * top w length network + 1 ∧
      left.Shape w ∧ right.Shape w

/-- How many numbers of the tree begin with the first `l` bits of `x`. -/
def under (w l x : ℕ) (t : Tree ι) : ℕ := t.leaves.countP fun v => top w l v = top w l x

section Shape

variable {w : ℕ} {t left right : Tree ι} {id : ι} {network len : ℕ}

@[simp] theorem id_leaf (value : ℕ) : (leaf id value).id = id := rfl
@[simp] theorem id_node : (node id network len left right).id = id := rfl
@[simp] theorem network_leaf (value : ℕ) : (leaf id value).network = value := rfl
@[simp] theorem network_node : (node id network len left right).network = network := rfl
@[simp] theorem length_leaf (value : ℕ) : (leaf id value).length w = w := rfl
@[simp] theorem length_node : (node id network len left right).length w = len := rfl

theorem Shape.network_lt (h : t.Shape w) : t.network < 2^w := by
  cases t with
  | leaf id value => exact h
  | node id network len left right => exact h.2.1

theorem Shape.residue_network (h : t.Shape w) : residue w (t.network : ℤ) = t.network :=
  residue_natCast h.network_lt

theorem Shape.length_le (h : t.Shape w) : t.length w ≤ w := by
  cases t with
  | leaf id value => exact le_rfl
  | node id network len left right => exact h.1.le

/-- What the top carries has nothing below its bits. -/
theorem Shape.cleared_network (h : t.Shape w) : cleared w (t.length w) t.network = t.network := by
  cases t with
  | leaf id value => exact cleared_self w value
  | node id network len left right => exact h.2.2.1

theorem count_pos (t : Tree ι) : 0 < t.count := by
  induction t with
  | leaf id value => simp [count, leaves]
  | node id network len left right ihl ihr =>
    simp only [count, leaves, List.length_append] at *
    omega

theorem exists_mem_leaves (t : Tree ι) : ∃ v, v ∈ t.leaves :=
  List.exists_mem_of_length_pos t.count_pos

theorem count_node : (node id network len left right).count = left.count + right.count := by
  simp [count, leaves]

/-- A tree has one node fewer than it has leaves. -/
theorem ids_length (t : Tree ι) : t.ids.length + 1 = 2 * t.count := by
  induction t with
  | leaf id value => simp [ids, count, leaves]
  | node id network len left right ihl ihr =>
    rw [count_node]
    simp only [ids, List.length_cons, List.length_append]
    omega

/-- Every number of the tree begins with the bits at its top. -/
theorem Shape.top_of_mem (h : t.Shape w) {v : ℕ} (hv : v ∈ t.leaves) :
    top w (t.length w) v = top w (t.length w) t.network := by
  induction t with
  | leaf id value =>
    rw [List.mem_singleton.1 hv]
    rfl
  | node id network len left right ihl ihr =>
    obtain ⟨hlt, -, -, hll, hlr, htl, htr, hsl, hsr⟩ := h
    -- A child's bits extend the node's by one, so the number's first `len` bits are the node's.
    have hv1 := top_succ_bit hlt v
    rcases List.mem_append.1 hv with hv | hv
    · have := top_eq_of_le (k := len + 1) hll hsl.length_le (ihl hsl hv)
      have hb := bit_lt w len v
      simp only [Tree.length, Tree.network]
      omega
    · have := top_eq_of_le (k := len + 1) hlr hsr.length_le (ihr hsr hv)
      have hb := bit_lt w len v
      simp only [Tree.length, Tree.network]
      omega

/-- The numbers on the left of a node go on with a 0. -/
theorem Shape.top_left (h : (node id network len left right).Shape w) {v : ℕ}
    (hv : v ∈ left.leaves) : top w (len + 1) v = 2 * top w len network := by
  obtain ⟨-, -, -, hll, -, htl, -, hsl, -⟩ := h
  rw [← htl]
  exact top_eq_of_le hll hsl.length_le (hsl.top_of_mem hv)

/-- The numbers on the right of a node go on with a 1. -/
theorem Shape.top_right (h : (node id network len left right).Shape w) {v : ℕ}
    (hv : v ∈ right.leaves) : top w (len + 1) v = 2 * top w len network + 1 := by
  obtain ⟨-, -, -, -, hlr, -, htr, -, hsr⟩ := h
  rw [← htr]
  exact top_eq_of_le hlr hsr.length_le (hsr.top_of_mem hv)

theorem Shape.lt_of_mem (h : t.Shape w) {v : ℕ} (hv : v ∈ t.leaves) : v < 2^w := by
  induction t with
  | leaf id value => rw [List.mem_singleton.1 hv]; exact h
  | node id network len left right ihl ihr =>
    rcases List.mem_append.1 hv with hv | hv
    · exact ihl h.2.2.2.2.2.2.2.1 hv
    · exact ihr h.2.2.2.2.2.2.2.2 hv

/-- The numbers of a tree ascend from left to right. -/
theorem Shape.leaves_sorted (h : t.Shape w) : t.leaves.Pairwise (· < ·) := by
  induction t with
  | leaf id value => simp [leaves]
  | node id network len left right ihl ihr =>
    have hs := h
    obtain ⟨-, -, -, -, -, -, -, hsl, hsr⟩ := hs
    refine List.pairwise_append.2 ⟨ihl hsl, ihr hsr, ?_⟩
    intro u hu v hv
    apply lt_of_top_lt (w := w) (l := len + 1)
    rw [h.top_left hu, h.top_right hv]
    omega

end Shape

/-! ## Walking by bits -/

section Under

variable {w l x : ℕ} {t left right : Tree ι} {id : ι} {network len : ℕ}

theorem under_node :
    (node id network len left right).under w l x = left.under w l x + right.under w l x := by
  simp [under, leaves]

theorem under_eq_zero (h : ∀ v ∈ t.leaves, top w l v ≠ top w l x) : t.under w l x = 0 := by
  simpa [under, List.countP_eq_zero] using h

/-- Bits that part from those at the top are not below it. -/
theorem Shape.under_of_parted (h : t.Shape w) (hl : l ≤ w)
    (hne : top w (min (t.length w) l) t.network ≠ top w (min (t.length w) l) x) :
    t.under w l x = 0 := by
  apply under_eq_zero
  intro v hv he
  apply hne
  rw [← top_eq_of_le (min_le_left _ _) h.length_le (h.top_of_mem hv)]
  exact top_eq_of_le (min_le_right _ _) hl he

/-- Bits that the top carries are shared by every number below it. -/
theorem Shape.under_of_le (h : t.Shape w) (hl : l ≤ t.length w)
    (he : top w l t.network = top w l x) : t.under w l x = t.count := by
  unfold under count
  rw [List.countP_eq_length]
  intro v hv
  have := top_eq_of_le hl h.length_le (h.top_of_mem hv)
  simp [this, he]

/-- Past a node, the bits asked for lie below the child that their next bit names. -/
theorem Shape.under_child (h : (node id network len left right).Shape w) (hl : len < l)
    (hlw : l ≤ w) (he : top w len network = top w len x) :
    (node id network len left right).under w l x =
      if bit w len x = 0 then left.under w l x else right.under w l x := by
  have hx := top_succ_bit h.1 x
  rw [under_node]
  split_ifs with hb
  · rw [under_eq_zero (t := right), Nat.add_zero]
    intro v hv hvx
    have h1 := h.top_right hv
    have h2 := top_eq_of_le (k := len + 1) hl hlw hvx
    omega
  · rw [under_eq_zero (t := left), Nat.zero_add]
    intro v hv hvx
    have h1 := h.top_left hv
    have h2 := top_eq_of_le (k := len + 1) hl hlw hvx
    have h3 := bit_lt w len x
    omega

/-- A tree holds a number at most once. -/
theorem Shape.under_self (h : t.Shape w) (v : ℕ) :
    t.under w w v = if v ∈ t.leaves then 1 else 0 := by
  have hnodup : t.leaves.Nodup := h.leaves_sorted.imp (fun hlt => hlt.ne)
  have : t.under w w v = t.leaves.count v := by
    simp only [under, top_self, List.count]
    congr 1
  rw [this, hnodup.count]

end Under

/-! ## Replacing the subtree that a walk stops at

A walk goes down by the bits of `v` until `stop` holds of a node, and at a leaf in any case. Insertion
and deletion both put another tree in the place of the one where such a walk stops. -/

/-- The labels that the walk passes. -/
def passed (w v : ℕ) (stop : Tree ι → Bool) : Tree ι → List ι
  | leaf _ _ => []
  | node id network len left right =>
    if stop (node id network len left right) then []
    else id :: if bit w len v = 0 then left.passed w v stop else right.passed w v stop

/-- The subtree that the walk stops at. -/
def reached (w v : ℕ) (stop : Tree ι → Bool) : Tree ι → Tree ι
  | leaf id value => leaf id value
  | node id network len left right =>
    if stop (node id network len left right) then node id network len left right
    else if bit w len v = 0 then left.reached w v stop else right.reached w v stop

/-- The tree with `f` applied to the subtree that the walk stops at. -/
def replace (w v : ℕ) (stop : Tree ι → Bool) (f : Tree ι → Tree ι) : Tree ι → Tree ι
  | leaf id value => f (leaf id value)
  | node id network len left right =>
    if stop (node id network len left right) then f (node id network len left right)
    else if bit w len v = 0 then node id network len (left.replace w v stop f) right
    else node id network len left (right.replace w v stop f)

section Replace

variable {w v : ℕ} {stop : Tree ι → Bool} {f : Tree ι → Tree ι}

/-- The label at the top stays unless the walk stops there. -/
theorem id_replace (t : Tree ι) : (t.replace w v stop f).id =
    if t.passed w v stop = [] then (f (t.reached w v stop)).id else t.id := by
  cases t with
  | leaf id value => simp [replace, passed, reached]
  | node id network len left right =>
    unfold replace passed reached
    split_ifs <;> simp_all [Tree.id]

/-- The count changes by what it changes at the subtree replaced. -/
theorem count_replace (t : Tree ι) {a b : ℕ}
    (h : (f (t.reached w v stop)).count + a = (t.reached w v stop).count + b) :
    (t.replace w v stop f).count + a = t.count + b := by
  induction t with
  | leaf id value => exact h
  | node id network len left right ihl ihr =>
    unfold replace
    unfold reached at h
    split_ifs with hs hb
    · simpa [hs] using h
    · have := ihl (by simpa [hs, hb] using h)
      rw [count_node, count_node]
      omega
    · have := ihr (by simpa [hs, hb] using h)
      rw [count_node, count_node]
      omega

/-- The labels are those passed, those of the subtree reached, and others that the walk never
meets. -/
theorem ids_perm_passed (w v : ℕ) (stop : Tree ι → Bool) (t : Tree ι) :
    ∃ others, t.ids.Perm (t.passed w v stop ++ (t.reached w v stop).ids ++ others) ∧
      ∀ f : Tree ι → Tree ι, (t.replace w v stop f).ids.Perm
        (t.passed w v stop ++ (f (t.reached w v stop)).ids ++ others) := by
  induction t with
  | leaf id value => exact ⟨[], by simp [passed, reached], fun f => by simp [passed, reached, replace]⟩
  | node id network len left right ihl ihr =>
    unfold passed reached replace
    split_ifs with hs hb
    · exact ⟨[], by simp, fun f => by simp⟩
    · -- What the walk never meets grows by the right subtree.
      obtain ⟨others, h1, h2⟩ := ihl
      refine ⟨others ++ right.ids, ?_, fun f => ?_⟩
      · simpa [ids] using (h1.append_right right.ids).cons id
      · simpa [ids] using ((h2 f).append_right right.ids).cons id
    · obtain ⟨others, h1, h2⟩ := ihr
      refine ⟨others ++ left.ids, ?_, fun f => ?_⟩
      · simpa [ids] using (List.perm_append_comm.trans (h1.append_right left.ids)).cons id
      · simpa [ids] using (List.perm_append_comm.trans ((h2 f).append_right left.ids)).cons id

theorem Shape.reached {t : Tree ι} (h : t.Shape w) : (t.reached w v stop).Shape w := by
  induction t with
  | leaf id value => exact h
  | node id network len left right ihl ihr =>
    unfold Tree.reached
    split_ifs
    · exact h
    · exact ihl h.2.2.2.2.2.2.2.1
    · exact ihr h.2.2.2.2.2.2.2.2

theorem passed_nodup {t : Tree ι} (h : t.ids.Nodup) : (t.passed w v stop).Nodup := by
  obtain ⟨others, h1, -⟩ := ids_perm_passed w v stop t
  have := h1.nodup_iff.1 h
  rw [List.append_assoc] at this
  exact (List.nodup_append.1 this).1

theorem passed_subset (w v : ℕ) (stop : Tree ι → Bool) (t : Tree ι) :
    t.passed w v stop ⊆ t.ids := by
  obtain ⟨others, h1, -⟩ := ids_perm_passed w v stop t
  intro i hi
  exact h1.mem_iff.2 (by simp [hi])

theorem reached_subset (w v : ℕ) (stop : Tree ι → Bool) (t : Tree ι) :
    (t.reached w v stop).ids ⊆ t.ids := by
  obtain ⟨others, h1, -⟩ := ids_perm_passed w v stop t
  intro i hi
  exact h1.mem_iff.2 (by simp [hi])

/-- The walk does not meet again what it has passed. -/
theorem not_mem_reached {t : Tree ι} (h : t.ids.Nodup) {i : ι} (hi : i ∈ t.passed w v stop) :
    i ∉ (t.reached w v stop).ids := by
  obtain ⟨others, h1, -⟩ := ids_perm_passed w v stop t
  have := h1.nodup_iff.1 h
  rw [List.append_assoc] at this
  intro hr
  exact (List.nodup_append.1 this).2.2 i hi i (List.mem_append_left _ hr) rfl

end Replace

/-! ## Insertion -/

/-- Above the tree, a node at the point where `v` parts from it, which holds the tree and a leaf. -/
def graft (w v : ℕ) (internal leafId : ι) (t : Tree ι) : Tree ι :=
  if bit w (shared w t.network v) v = 0 then
    node internal (cleared w (shared w t.network v) v) (shared w t.network v) (leaf leafId v) t
  else
    node internal (cleared w (shared w t.network v) v) (shared w t.network v) t (leaf leafId v)

/-- The tree with `v` added: a graft where its bits part from the tree's. -/
def insert (w v : ℕ) (internal leafId : ι) : Tree ι → Tree ι
  | leaf id value => graft w v internal leafId (leaf id value)
  | node id network len left right =>
    if shared w network v < len then graft w v internal leafId (node id network len left right)
    else if bit w len v = 0 then node id network len (left.insert w v internal leafId) right
    else node id network len left (right.insert w v internal leafId)

/-- Whether `v` parts from the tree inside its top, which is where insertion grafts. -/
def parts (w v : ℕ) (t : Tree ι) : Bool := shared w t.network v < t.length w

section Insert

variable {w v : ℕ} {internal leafId : ι} {t left right : Tree ι} {id : ι} {network len : ℕ}

theorem leaves_graft_perm (w v : ℕ) (internal leafId : ι) (t : Tree ι) :
    (t.graft w v internal leafId).leaves.Perm (v :: t.leaves) := by
  unfold graft
  split_ifs
  · exact List.Perm.refl _
  · exact List.perm_append_comm

theorem ids_graft_perm (w v : ℕ) (internal leafId : ι) (t : Tree ι) :
    (t.graft w v internal leafId).ids.Perm (internal :: leafId :: t.ids) := by
  unfold graft
  split_ifs
  · exact List.Perm.refl _
  · exact List.Perm.cons _ List.perm_append_comm

/-- Insertion adds the number, and nothing else. -/
theorem leaves_insert_perm (w v : ℕ) (internal leafId : ι) (t : Tree ι) :
    (t.insert w v internal leafId).leaves.Perm (v :: t.leaves) := by
  induction t with
  | leaf id value => exact leaves_graft_perm w v internal leafId _
  | node id network len left right ihl ihr =>
    unfold insert
    split_ifs
    · exact leaves_graft_perm w v internal leafId _
    · exact ihl.append_right right.leaves
    · exact (ihr.append_left left.leaves).trans List.perm_middle

theorem mem_leaves_insert {x : ℕ} :
    x ∈ (t.insert w v internal leafId).leaves ↔ x = v ∨ x ∈ t.leaves := by
  rw [(leaves_insert_perm w v internal leafId t).mem_iff, List.mem_cons]

/-- A graft of a number that parts from the tree inside its top is compressed. -/
theorem Shape.graft (h : t.Shape w) (hv : v < 2^w) (hpart : shared w t.network v < t.length w) :
    (t.graft w v internal leafId).Shape w := by
  have hnet := h.network_lt
  have hlen := h.length_le
  have hcw : shared w t.network v < w := by omega
  have hsame : top w (shared w t.network v) t.network = top w (shared w t.network v) v :=
    (le_shared_iff hnet hv hcw.le).1 le_rfl
  have hdiff : top w (shared w t.network v + 1) t.network ≠ top w (shared w t.network v + 1) v :=
    fun he => absurd ((le_shared_iff hnet hv hcw).2 he) (by omega)
  have hv1 := top_succ_bit hcw v
  have ht1 := top_succ_bit hcw t.network
  have hbv := bit_lt w (shared w t.network v) v
  have hbt := bit_lt w (shared w t.network v) t.network
  have hclt : cleared w (shared w t.network v) v < 2^w := lt_of_le_of_lt (cleared_le _ _ _) hv
  have hcc := cleared_cleared (le_refl (shared w t.network v)) hcw.le v
  have htop := top_cleared w (shared w t.network v) v
  unfold Tree.graft
  generalize shared w t.network v = c at *
  split_ifs with hb
  · refine ⟨hcw, hclt, hcc, hcw, hpart, ?_, ?_, hv, h⟩
    · simp only [Tree.network]
      omega
    · omega
  · refine ⟨hcw, hclt, hcc, hpart, hcw, ?_, ?_, h, hv⟩
    · omega
    · simp only [Tree.network]
      omega

/-- Insertion keeps at the top every bit that the tree's top shares with the number. -/
theorem Shape.insert_top (internal leafId : ι) (h : t.Shape w) (hv : v < 2^w) {k : ℕ}
    (hk : k ≤ t.length w) (he : top w k t.network = top w k v) :
    k ≤ (t.insert w v internal leafId).length w ∧
      top w k (t.insert w v internal leafId).network = top w k v := by
  have hgraft : k ≤ (t.graft w v internal leafId).length w ∧
      top w k (t.graft w v internal leafId).network = top w k v := by
    have hkw : k ≤ w := hk.trans h.length_le
    have hle : k ≤ shared w t.network v := (le_shared_iff h.network_lt hv hkw).2 he
    have := top_cleared_of_le hle (shared_le w t.network v) v
    unfold Tree.graft
    split_ifs
    · exact ⟨hle, this⟩
    · exact ⟨hle, this⟩
  cases t with
  | leaf id value => exact hgraft
  | node id network len left right =>
    unfold Tree.insert
    split_ifs
    · exact hgraft
    · exact ⟨hk, he⟩
    · exact ⟨hk, he⟩

/-- A number that the tree does not hold parts from a leaf before its end. -/
theorem shared_lt_of_ne {u : ℕ} (hu : u < 2^w) (hv : v < 2^w) (hne : u ≠ v) :
    shared w u v < w := by
  by_contra hle
  have := (le_shared_iff hu hv le_rfl).1 (not_lt.1 hle)
  rw [top_self, top_self] at this
  exact hne this

/-- Insertion of a new number keeps the tree compressed. -/
theorem Shape.insert (h : t.Shape w) (hv : v < 2^w) (hnew : v ∉ t.leaves) :
    (t.insert w v internal leafId).Shape w := by
  induction t with
  | leaf id value =>
    refine Shape.graft h hv (shared_lt_of_ne h hv ?_)
    intro he
    exact hnew (List.mem_singleton.2 he.symm)
  | node id network len left right ihl ihr =>
    have hs := h
    obtain ⟨hlt, hnlt, hclr, hll, hlr, htl, htr, hsl, hsr⟩ := hs
    have hnl : v ∉ left.leaves := fun hin => hnew (List.mem_append_left _ hin)
    have hnr : v ∉ right.leaves := fun hin => hnew (List.mem_append_right _ hin)
    unfold Tree.insert
    split_ifs with hpart hb
    · exact h.graft hv hpart
    · -- The number goes on with a 0, as the left child does.
      have he := (le_shared_iff hnlt hv hlt.le).1 (not_lt.1 hpart)
      have hv1 := top_succ_bit hlt v
      obtain ⟨k1, k2⟩ := hsl.insert_top internal leafId hv (k := len + 1) hll
        (by omega)
      exact ⟨hlt, hnlt, hclr, k1, hlr, by omega, htr, ihl hsl hnl, hsr⟩
    · have he := (le_shared_iff hnlt hv hlt.le).1 (not_lt.1 hpart)
      have hv1 := top_succ_bit hlt v
      have hb1 := bit_lt w len v
      obtain ⟨k1, k2⟩ := hsr.insert_top internal leafId hv (k := len + 1) hlr
        (by omega)
      exact ⟨hlt, hnlt, hclr, hll, k1, htl, by omega, hsl, ihr hsr hnr⟩

/-- Insertion is a graft at the first subtree that the number parts from. -/
theorem insert_eq_replace (t : Tree ι) : t.insert w v internal leafId =
    t.replace w v (parts w v) (graft w v internal leafId) := by
  induction t with
  | leaf id value => rfl
  | node id network len left right ihl ihr =>
    have hs : parts w v (node id network len left right) = true ↔ shared w network v < len :=
      decide_eq_true_iff
    unfold insert replace
    simp only [hs, ihl, ihr]

/-- Insertion adds the two labels that it is given, and nothing else. -/
theorem ids_insert_perm (w v : ℕ) (internal leafId : ι) (t : Tree ι) :
    (t.insert w v internal leafId).ids.Perm (internal :: leafId :: t.ids) := by
  obtain ⟨others, h1, h2⟩ := ids_perm_passed w v (parts w v) t
  rw [insert_eq_replace]
  have hg := ids_graft_perm w v internal leafId (t.reached w v (parts w v))
  calc (t.replace w v (parts w v) (graft w v internal leafId)).ids
    _ ~ t.passed w v (parts w v) ++ (internal :: leafId :: (t.reached w v (parts w v)).ids) ++ others :=
      (h2 _).trans ((hg.append_left _).append_right others)
    _ ~ internal :: leafId :: (t.passed w v (parts w v) ++ (t.reached w v (parts w v)).ids ++ others) := by
      rw [List.append_assoc, List.append_assoc]
      exact List.perm_middle.trans (List.perm_middle.cons internal)
    _ ~ internal :: leafId :: t.ids := (h1.symm.cons leafId).cons internal

/-- A number that the tree does not hold parts from the subtree that its walk stops at. -/
theorem Shape.parts_reached (h : t.Shape w) (hv : v < 2^w) (hnew : v ∉ t.leaves) :
    shared w (t.reached w v (parts w v)).network v < (t.reached w v (parts w v)).length w := by
  induction t with
  | leaf id value =>
    refine shared_lt_of_ne h hv ?_
    intro he
    exact hnew (List.mem_singleton.2 he.symm)
  | node id network len left right ihl ihr =>
    have hnl : v ∉ left.leaves := fun hin => hnew (List.mem_append_left _ hin)
    have hnr : v ∉ right.leaves := fun hin => hnew (List.mem_append_right _ hin)
    unfold Tree.reached
    split_ifs with hs hb
    · exact of_decide_eq_true hs
    · exact ihl h.2.2.2.2.2.2.2.1 hnl
    · exact ihr h.2.2.2.2.2.2.2.2 hnr

end Insert

/-! ## The numbers determine the tree -/

/-- The tree without its labels. -/
def unlabelled : Tree ι → Tree Unit
  | leaf _ value => leaf () value
  | node _ network len left right => node () network len left.unlabelled right.unlabelled

section Unlabelled

variable {κ : Type*} {w : ℕ} {s : Tree ι} {t : Tree κ}

@[simp] theorem network_unlabelled (t : Tree ι) : t.unlabelled.network = t.network := by
  cases t <;> rfl

@[simp] theorem length_unlabelled (w : ℕ) (t : Tree ι) : t.unlabelled.length w = t.length w := by
  cases t <;> rfl

@[simp] theorem leaves_unlabelled (t : Tree ι) : t.unlabelled.leaves = t.leaves := by
  induction t with
  | leaf id value => rfl
  | node id network len left right ihl ihr => simp only [unlabelled, leaves, ihl, ihr]

@[simp] theorem count_unlabelled (t : Tree ι) : t.unlabelled.count = t.count := by
  unfold count
  rw [leaves_unlabelled]

/-- The left numbers of a node are those that go on with a 0. -/
theorem Shape.filter_left {id : ι} {network len : ℕ} {left right : Tree ι}
    (h : (node id network len left right).Shape w) :
    (node id network len left right).leaves.filter
      (fun v => top w (len + 1) v = 2 * top w len network) = left.leaves := by
  have hleft : left.leaves.filter (fun v => top w (len + 1) v = 2 * top w len network) =
      left.leaves :=
    List.filter_eq_self.mpr fun v hv => decide_eq_true (h.top_left hv)
  have hright : right.leaves.filter (fun v => top w (len + 1) v = 2 * top w len network) = [] := by
    refine List.filter_eq_nil_iff.mpr fun v hv => ?_
    rw [h.top_right hv, decide_eq_true_iff]
    omega
  rw [leaves, List.filter_append, hleft, hright, List.append_nil]

/-- The numbers of a node part no later than where it stands. -/
theorem Shape.length_le_of_leaves {id : ι} {network len : ℕ} {left right : Tree ι}
    (hs : (node id network len left right).Shape w) (ht : t.Shape w)
    (h : (node id network len left right).leaves = t.leaves) : t.length w ≤ len := by
  by_contra hlt
  obtain ⟨u, hu⟩ := left.exists_mem_leaves
  obtain ⟨v, hv⟩ := right.exists_mem_leaves
  have hut : u ∈ t.leaves := h ▸ List.mem_append_left _ hu
  have hvt : v ∈ t.leaves := h ▸ List.mem_append_right _ hv
  have hsame : top w (t.length w) u = top w (t.length w) v :=
    (ht.top_of_mem hut).trans (ht.top_of_mem hvt).symm
  have hnext := top_eq_of_le (k := len + 1) (by omega) ht.length_le hsame
  rw [hs.top_left hu, hs.top_right hv] at hnext
  omega

/-- Compressed trees of the same numbers differ in their labels only. -/
theorem Shape.unlabelled_eq (hs : s.Shape w) (ht : t.Shape w) (h : s.leaves = t.leaves) :
    s.unlabelled = t.unlabelled := by
  induction s generalizing t with
  | leaf id value =>
    cases t with
    | leaf id' value' => rw [unlabelled, unlabelled, (List.cons.inj h).1]
    | node id' network' len' left' right' =>
      -- A node has two numbers or more.
      have hlength := congrArg List.length h
      have hl := left'.count_pos
      have hr := right'.count_pos
      simp only [leaves, List.length_append, List.length_singleton, count] at hlength hl hr
      omega
  | node id network len left right ihl ihr =>
    cases t with
    | leaf id' value' =>
      have hlength := congrArg List.length h
      have hl := left.count_pos
      have hr := right.count_pos
      simp only [leaves, List.length_append, List.length_singleton, count] at hlength hl hr
      omega
    | node id' network' len' left' right' =>
      -- Both stand where the numbers part, and carry what they share.
      have hlen : len = len' :=
        le_antisymm (ht.length_le_of_leaves hs h.symm) (hs.length_le_of_leaves ht h)
      subst hlen
      obtain ⟨v, hv⟩ := (node id network len left right).exists_mem_leaves
      have hv' : v ∈ (node id' network' len left' right').leaves := h ▸ hv
      have htop : top w len network = top w len network' :=
        (hs.top_of_mem hv).symm.trans (ht.top_of_mem hv')
      have hnetwork : network = network' := by
        calc network = cleared w len network := hs.cleared_network.symm
          _ = cleared w len network' := cleared_eq_iff.mpr htop
          _ = network' := ht.cleared_network
      subst hnetwork
      have hleft : left.leaves = left'.leaves := by
        rw [← hs.filter_left, ← ht.filter_left, h]
      have hright : right.leaves = right'.leaves := by
        have happend : left.leaves ++ right.leaves = left'.leaves ++ right'.leaves := h
        rw [hleft] at happend
        exact List.append_cancel_left happend
      obtain ⟨-, -, -, -, -, -, -, hsl, hsr⟩ := hs
      obtain ⟨-, -, -, -, -, -, -, htl, htr⟩ := ht
      rw [unlabelled, unlabelled, ihl hsl htl hleft, ihr hsr htr hright]

end Unlabelled

/-! ## Deletion -/

/-- The tree without `v`: its leaf and the node above go, and the sibling takes the node's place. A
tree of one leaf has nothing left. -/
def erase (w v : ℕ) : Tree ι → Option (Tree ι)
  | leaf _ _ => none
  | node id network len left right =>
    if bit w len v = 0 then
      match left.erase w v with
      | none => some right
      | some left' => some (node id network len left' right)
    else
      match right.erase w v with
      | none => some left
      | some right' => some (node id network len left right')

/-- Whether the tree is one leaf. -/
def isLeaf : Tree ι → Bool
  | leaf _ _ => true
  | node _ _ _ _ _ => false

/-- Whether the walk's next step ends at a leaf. -/
def aboveLeaf (w v : ℕ) : Tree ι → Bool
  | leaf _ _ => true
  | node _ _ len left right => if bit w len v = 0 then left.isLeaf else right.isLeaf

/-- The child that the walk does not take. -/
def sibling (w v : ℕ) : Tree ι → Tree ι
  | leaf id value => leaf id value
  | node _ _ len left right => if bit w len v = 0 then right else left

/-- The labels from the top down to the leaf that a walk by the bits of `v` ends at. -/
def trail (w v : ℕ) : Tree ι → List ι
  | leaf id _ => [id]
  | node id _ len left right =>
    id :: if bit w len v = 0 then left.trail w v else right.trail w v

/-- What deleting `v` from `t` leaves: nothing when `v` was its only number, and otherwise a
compressed tree of the other numbers, whose top still begins with the bits at the top of `t`. -/
def ErasedTo (w v : ℕ) (t : Tree ι) : Option (Tree ι) → Prop
  | none => ∃ id, t = leaf id v
  | some t' => t'.Shape w ∧ t.leaves.Perm (v :: t'.leaves) ∧ t.length w ≤ t'.length w ∧
      top w (t.length w) t'.network = top w (t.length w) t.network

section Erase

variable {w v : ℕ} {t left right : Tree ι} {id : ι} {network len : ℕ}

/-- A number of a node is on the side that its next bit names. -/
theorem Shape.mem_left_of_bit (h : (node id network len left right).Shape w)
    (hv : v ∈ (node id network len left right).leaves) (hb : bit w len v = 0) :
    v ∈ left.leaves := by
  rcases List.mem_append.1 hv with hin | hin
  · exact hin
  · have h1 := h.top_right hin
    have h2 := top_succ_bit h.1 v
    omega

theorem Shape.mem_right_of_bit (h : (node id network len left right).Shape w)
    (hv : v ∈ (node id network len left right).leaves) (hb : bit w len v ≠ 0) :
    v ∈ right.leaves := by
  rcases List.mem_append.1 hv with hin | hin
  · have h1 := h.top_left hin
    have h2 := top_succ_bit h.1 v
    have h3 := bit_lt w len v
    omega
  · exact hin

/-- Deletion of a number that the tree holds. -/
theorem Shape.erase (h : t.Shape w) (hv : v ∈ t.leaves) : t.ErasedTo w v (t.erase w v) := by
  induction t with
  | leaf id value =>
    obtain rfl := List.mem_singleton.1 hv
    exact ⟨id, rfl⟩
  | node id network len left right ihl ihr =>
    have hs := h
    obtain ⟨hlt, hnlt, hclr, hll, hlr, htl, htr, hsl, hsr⟩ := hs
    -- The top of a child begins with the node's bits.
    have htopl := top_succ_bit hlt left.network
    have htopr := top_succ_bit hlt right.network
    have hbl := bit_lt w len left.network
    have hbr := bit_lt w len right.network
    unfold Tree.erase
    split_ifs with hb
    · have hin := h.mem_left_of_bit hv hb
      have ih := ihl hsl hin
      split
      · -- The left child is the leaf: the right child takes the node's place.
        rename_i heq
        rw [heq] at ih
        obtain ⟨lid, rfl⟩ := ih
        refine ⟨hsr, List.Perm.refl _, hlr.le, ?_⟩
        show top w len right.network = top w len network
        omega
      · rename_i left' heq
        rw [heq] at ih
        obtain ⟨hs', hperm, hlen, htop⟩ := ih
        have htop' := top_eq_of_le (k := len + 1) hll hsl.length_le htop
        exact ⟨⟨hlt, hnlt, hclr, by omega, hlr, by omega, htr, hs', hsr⟩,
          hperm.append_right right.leaves, le_rfl, rfl⟩
    · have hin := h.mem_right_of_bit hv hb
      have ih := ihr hsr hin
      split
      · rename_i heq
        rw [heq] at ih
        obtain ⟨rid, rfl⟩ := ih
        refine ⟨hsl, List.perm_append_comm, hll.le, ?_⟩
        show top w len left.network = top w len network
        omega
      · rename_i right' heq
        rw [heq] at ih
        obtain ⟨hs', hperm, hlen, htop⟩ := ih
        have htop' := top_eq_of_le (k := len + 1) hlr hsr.length_le htop
        exact ⟨⟨hlt, hnlt, hclr, hll, by omega, htl, by omega, hsl, hs'⟩,
          (hperm.append_left left.leaves).trans List.perm_middle, le_rfl, rfl⟩

/-- Deletion puts the sibling of the leaf in the place of the node above them. -/
theorem erase_eq_replace (t : Tree ι) : t.erase w v =
    if t.isLeaf then none else some (t.replace w v (aboveLeaf w v) (sibling w v)) := by
  induction t with
  | leaf id value => rfl
  | node id network len left right ihl ihr =>
    unfold erase replace
    rw [ihl, ihr]
    cases left <;> cases right <;> simp [aboveLeaf, isLeaf, sibling] <;> split_ifs <;> simp

/-- Where a walk down to a number that the tree holds ends: at the number's leaf, below the node
that deletion replaces. -/
theorem Shape.trail_eq (h : t.Shape w) (hv : v ∈ t.leaves) (hleaf : t.isLeaf = false) :
    ∃ parent network len leafId sib,
      t.reached w v (aboveLeaf w v) = (if bit w len v = 0
        then node parent network len (leaf leafId v) sib
        else node parent network len sib (leaf leafId v)) ∧
      t.trail w v = t.passed w v (aboveLeaf w v) ++ [parent, leafId] := by
  induction t with
  | leaf id value => cases hleaf
  | node id network len left right ihl ihr =>
    have hs := h
    obtain ⟨-, -, -, -, -, -, -, hsl, hsr⟩ := hs
    by_cases hb : bit w len v = 0
    · have hin := h.mem_left_of_bit hv hb
      cases left with
      | leaf leafId value =>
        obtain rfl := List.mem_singleton.1 hin
        refine ⟨id, network, len, leafId, right, ?_, ?_⟩
        · simp [Tree.reached, aboveLeaf, isLeaf, hb]
        · simp [trail, passed, aboveLeaf, isLeaf, hb]
      | node =>
        obtain ⟨parent, network', len', leafId, sib, h1, h2⟩ := ihl hsl hin rfl
        refine ⟨parent, network', len', leafId, sib, ?_, ?_⟩
        · rw [← h1]
          conv_lhs => unfold Tree.reached
          simp [aboveLeaf, isLeaf, hb]
        · conv_lhs => unfold trail
          conv_rhs => unfold passed
          simp [aboveLeaf, isLeaf, hb, h2]
    · have hin := h.mem_right_of_bit hv hb
      cases right with
      | leaf leafId value =>
        obtain rfl := List.mem_singleton.1 hin
        refine ⟨id, network, len, leafId, left, ?_, ?_⟩
        · simp [Tree.reached, aboveLeaf, isLeaf, hb]
        · simp [trail, passed, aboveLeaf, isLeaf, hb]
      | node =>
        obtain ⟨parent, network', len', leafId, sib, h1, h2⟩ := ihr hsr hin rfl
        refine ⟨parent, network', len', leafId, sib, ?_, ?_⟩
        · rw [← h1]
          conv_lhs => unfold Tree.reached
          simp [aboveLeaf, isLeaf, hb]
        · conv_lhs => unfold trail
          conv_rhs => unfold passed
          simp [aboveLeaf, isLeaf, hb, h2]

/-- Deletion of a number takes two labels away, its leaf's and that of the node above. -/
theorem ids_perm_erase {t : Tree ι} {parent leafId : ι} {sib : Tree ι}
    (h : t.reached w v (aboveLeaf w v) = (if bit w len v = 0
      then node parent network len (leaf leafId v) sib
      else node parent network len sib (leaf leafId v))) :
    t.ids.Perm (parent :: leafId :: (t.replace w v (aboveLeaf w v) (sibling w v)).ids) := by
  obtain ⟨others, h1, h2⟩ := ids_perm_passed w v (aboveLeaf w v) t
  have hsib : sibling w v (t.reached w v (aboveLeaf w v)) = sib := by
    rw [h]
    split_ifs with hb <;> simp [sibling, hb]
  have hids : (t.reached w v (aboveLeaf w v)).ids.Perm (parent :: leafId :: sib.ids) := by
    rw [h]
    split_ifs with hb
    · exact List.Perm.refl _
    · exact List.Perm.cons _ List.perm_append_comm
  have h2' := h2 (sibling w v)
  rw [hsib] at h2'
  calc t.ids
    _ ~ t.passed w v (aboveLeaf w v) ++ (parent :: leafId :: sib.ids) ++ others :=
      h1.trans ((hids.append_left _).append_right others)
    _ ~ parent :: leafId :: (t.passed w v (aboveLeaf w v) ++ sib.ids ++ others) := by
      rw [List.append_assoc, List.append_assoc]
      exact List.perm_middle.trans (List.perm_middle.cons parent)
    _ ~ parent :: leafId :: (t.replace w v (aboveLeaf w v) (sibling w v)).ids :=
      (h2'.symm.cons leafId).cons parent

end Erase

/-! ## The prefixes that have numbers below them -/

/-- The prefixes of the edge into the top, from length `first` on, each with the count there. -/
def edge (w first : ℕ) (t : Tree ι) : List (ℕ × ℕ × ℕ) :=
  (List.range' first (t.length w + 1 - first)).map fun l => (cleared w l t.network, l, t.count)

/-- Every prefix with a number below it, as bits, length and count, from length `m` on: each edge
expanded into the prefixes that it stands for, `first` being where the edge into the top begins. -/
def prefixes (w m first : ℕ) : Tree ι → List (ℕ × ℕ × ℕ)
  | leaf id value => edge w (max first m) (leaf id value)
  | node id network len left right =>
    edge w (max first m) (node id network len left right) ++
      (left.prefixes w m (len + 1) ++ right.prefixes w m (len + 1))

/-- The order of prefixes: by their bits, and by length where the bits agree. -/
def Before (p q : ℕ × ℕ × ℕ) : Prop := p.1 < q.1 ∨ p.1 = q.1 ∧ p.2.1 < q.2.1

section Prefixes

variable {w m first : ℕ} {t left right : Tree ι} {id : ι} {network len : ℕ}

theorem mem_edge {n l c : ℕ} :
    (n, l, c) ∈ t.edge w first ↔ first ≤ l ∧ l ≤ t.length w ∧
      n = cleared w l t.network ∧ c = t.count := by
  simp only [edge, List.mem_map, List.mem_range'_1, Prod.mk.injEq]
  constructor
  · rintro ⟨l', hl', rfl, rfl, rfl⟩
    exact ⟨by omega, by omega, rfl, rfl⟩
  · rintro ⟨h1, h2, rfl, rfl⟩
    exact ⟨l, by omega, rfl, rfl, rfl⟩

/-- The prefixes listed are those of the tree's numbers, each with how many numbers share it. -/
theorem Shape.mem_prefixes (h : t.Shape w) (hf : first ≤ t.length w) {n l c : ℕ} :
    (n, l, c) ∈ t.prefixes w m first ↔ max first m ≤ l ∧ l ≤ w ∧
      ∃ v ∈ t.leaves, n = cleared w l v ∧ c = t.under w l v := by
  -- On the edge into the top, the prefixes of the top are those of every number below it.
  have hedge : ∀ (t : Tree ι), t.Shape w → l ≤ t.length w → ∀ v ∈ t.leaves,
      cleared w l t.network = cleared w l v ∧ t.count = t.under w l v := by
    intro t hs hl v hv
    have := (top_eq_of_le hl hs.length_le (hs.top_of_mem hv)).symm
    exact ⟨cleared_eq_iff.2 this, (hs.under_of_le hl this).symm⟩
  induction t generalizing first with
  | leaf id value =>
    rw [prefixes, mem_edge]
    constructor
    · rintro ⟨h1, h2, rfl, rfl⟩
      obtain ⟨e1, e2⟩ := hedge _ h h2 value (by simp [leaves])
      exact ⟨h1, h2, value, by simp [leaves], e1, e2⟩
    · rintro ⟨h1, h2, v, hv, rfl, rfl⟩
      obtain ⟨e1, e2⟩ := hedge (leaf id value) h h2 v hv
      exact ⟨h1, h2, e1.symm, e2.symm⟩
  | node id network len left right ihl ihr =>
    have hs := h
    obtain ⟨hlt, -, -, hll, hlr, -, -, hsl, hsr⟩ := hs
    simp only [prefixes, List.mem_append, mem_edge, @ihl (len + 1) hsl hll,
      @ihr (len + 1) hsr hlr]
    have hf' : first ≤ len := hf
    -- Below the node, the numbers that share a prefix are on one side of it.
    have hunder : ∀ v, v ∈ (node id network len left right).leaves → len + 1 ≤ l → l ≤ w →
        (node id network len left right).under w l v =
          if bit w len v = 0 then left.under w l v else right.under w l v :=
      fun v hv h1 h2 => h.under_child h1 h2 (h.top_of_mem hv).symm
    have hbitl : ∀ v ∈ left.leaves, bit w len v = 0 := by
      intro v hv
      have h1 := h.top_left hv
      have h2 := top_succ_bit hlt v
      have h3 := bit_lt w len v
      omega
    have hbitr : ∀ v ∈ right.leaves, bit w len v ≠ 0 := by
      intro v hv
      have h1 := h.top_right hv
      have h2 := top_succ_bit hlt v
      omega
    constructor
    · rintro (⟨h1, h2, rfl, rfl⟩ | ⟨h1, h2, v, hv, rfl, rfl⟩ | ⟨h1, h2, v, hv, rfl, rfl⟩)
      · obtain ⟨v, hv⟩ := exists_mem_leaves (node id network len left right)
        obtain ⟨e1, e2⟩ := hedge _ h h2 v hv
        exact ⟨h1, h2.trans h.length_le, v, hv, e1, e2⟩
      · have hin : v ∈ (node id network len left right).leaves := List.mem_append_left _ hv
        refine ⟨by omega, h2, v, hin, rfl, ?_⟩
        rw [hunder v hin (by omega) h2, if_pos (hbitl v hv)]
      · have hin : v ∈ (node id network len left right).leaves := List.mem_append_right _ hv
        refine ⟨by omega, h2, v, hin, rfl, ?_⟩
        rw [hunder v hin (by omega) h2, if_neg (hbitr v hv)]
    · rintro ⟨h1, h2, v, hv, rfl, rfl⟩
      by_cases hl : l ≤ len
      · obtain ⟨e1, e2⟩ := hedge _ h hl v hv
        exact .inl ⟨h1, hl, e1.symm, e2.symm⟩
      · rcases List.mem_append.1 hv with hin | hin
        · refine .inr (.inl ⟨by omega, h2, v, hin, rfl, ?_⟩)
          rw [hunder v hv (by omega) h2, if_pos (hbitl v hin)]
        · refine .inr (.inr ⟨by omega, h2, v, hin, rfl, ?_⟩)
          rw [hunder v hv (by omega) h2, if_neg (hbitr v hin)]

/-- The prefixes are listed in order, each before those that extend it. -/
theorem Shape.prefixes_sorted (h : t.Shape w) (hf : first ≤ t.length w) :
    (t.prefixes w m first).Pairwise Before := by
  have hedge : ∀ (t : Tree ι) (first : ℕ), t.Shape w → (t.edge w first).Pairwise Before := by
    intro t first hs
    unfold edge
    rw [List.pairwise_map]
    have hr := @List.pairwise_lt_range' first (t.length w + 1 - first) 1 Nat.one_pos
    refine hr.imp_of_mem ?_
    intro k l hk hl hkl
    have := hs.length_le
    have := List.mem_range'_1.1 hl
    rcases (cleared_mono (w := w) hkl.le (by omega) t.network).lt_or_eq with hlt | heq
    · exact .inl hlt
    · exact .inr ⟨heq, hkl⟩
  induction t generalizing first with
  | leaf id value => exact hedge _ _ h
  | node id network len left right ihl ihr =>
    have hs := h
    obtain ⟨hlt, -, hclr, hll, hlr, htl, htr, hsl, hsr⟩ := hs
    refine List.pairwise_append.2 ⟨hedge _ _ h, List.pairwise_append.2 ⟨ihl hsl hll, ihr hsr hlr,
      ?_⟩, ?_⟩
    · -- A prefix on the left goes on with a 0 where one on the right goes on with a 1.
      rintro ⟨n1, l1, c1⟩ hp ⟨n2, l2, c2⟩ hq
      obtain ⟨h1, h2, v1, hv1, rfl, -⟩ := (hsl.mem_prefixes hll).1 hp
      obtain ⟨h3, h4, v2, hv2, rfl, -⟩ := (hsr.mem_prefixes hlr).1 hq
      left
      apply lt_of_top_lt (w := w) (l := len + 1)
      rw [top_cleared_of_le (by omega) h2, top_cleared_of_le (by omega) h4, h.top_left hv1,
        h.top_right hv2]
      omega
    · -- A prefix of the edge is a prefix of everything below it.
      rintro ⟨n1, l1, c1⟩ hp ⟨n2, l2, c2⟩ hq
      obtain ⟨h1, h2, rfl, -⟩ := mem_edge.1 hp
      have h2' : l1 ≤ len := h2
      have hq' : max (len + 1) m ≤ l2 ∧ l2 ≤ w ∧ ∃ v ∈ (node id network len left right).leaves,
          n2 = cleared w l2 v := by
        rcases List.mem_append.1 hq with hq | hq
        · obtain ⟨h3, h4, v, hv, rfl, -⟩ := (hsl.mem_prefixes hll).1 hq
          exact ⟨h3, h4, v, List.mem_append_left _ hv, rfl⟩
        · obtain ⟨h3, h4, v, hv, rfl, -⟩ := (hsr.mem_prefixes hlr).1 hq
          exact ⟨h3, h4, v, List.mem_append_right _ hv, rfl⟩
      obtain ⟨h3, h4, v, hv, rfl⟩ := hq'
      have hle : cleared w l1 network ≤ cleared w l2 v := by
        have e : top w l1 v = top w l1 network := top_eq_of_le h2' hlt.le (h.top_of_mem hv)
        rw [← cleared_eq_iff.2 e]
        exact cleared_mono (by omega) h4 v
      rcases hle.lt_or_eq with hlt' | heq
      · exact .inl hlt'
      · exact .inr ⟨heq, by show l1 < l2; omega⟩

end Prefixes

end Tree

end Hammertime
