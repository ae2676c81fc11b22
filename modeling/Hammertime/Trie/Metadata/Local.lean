import Hammertime.Lib.Machine
import Hammertime.Trie.Metadata.Combine

/-!
# Metadata on the prefix it was declared on

`PrefixMetadataStore` of `hammertime.trie.metadata.local`: a document for each declared prefix of one
family, and the reads that fold the documents along a path. `declare` refuses a document that would
put two kinds under one key of one path. `reads_mean` says what this check, made against one pair of
prefixes at a time, gives for every path after any history.
-/

namespace Hammertime.Trie

open Lib

/-! ### What a caller passes as a document -/

/-- A key of a `Mapping`: a `str`, or an object of another type. -/
inductive DocumentKey where
  | text (key : Text)
  | other (typeName : String) (identity : ℕ)
deriving DecidableEq

/-- A value of a `Mapping`. -/
inductive DocumentValue where
  | value (value : MetadataValue)
  | other (typeName : String)
deriving DecidableEq

/-- A `Mapping`, or an object that is none. -/
inductive Document where
  | mapping (items : Dict DocumentKey DocumentValue)
  | other (typeName : String)

/-- `_require_metadata`, with the document that it lets pass. -/
def requireMetadata (items : Dict DocumentKey DocumentValue) : Except MetadataError Metadata :=
  items.items.foldlM (fun stored item =>
    match item with
    | (.other typeName _, _) => .error (.keyType typeName)
    | (.text key, .other typeName) => .error (.valueType typeName (some key))
    | (.text key, .value value) => .ok (stored.set key value)) emptyMetadata

/-! ### Paths -/

/-- `_covers`: the outer prefix contains the inner one or is it. -/
def covers (outer inner : Prefix) : Bool :=
  if inner.length < outer.length then false
  else
    let shift := outer.family.bitLength - outer.length
    decide (outer.network >>> shift = inner.network >>> shift)

/-- The prefix of a length on the path of a network. -/
def ancestorAt (family : AddressFamily) (network : ℤ) (length : ℕ)
    (h : length ≤ family.bitLength) : Prefix where
  family := family
  network := clearHostBits network (family.bitLength - length)
  length := length
  length_le := h
  host_bits_zero := clearHostBits_emod _ _

/-- The prefix of one address. -/
def hostRoute (a : Address) : Prefix where
  family := a.family
  network := a.value
  length := a.family.bitLength
  length_le := le_refl _
  host_bits_zero := by
    rw [Nat.sub_self, pow_zero, Int.emod_one]

/-! ### The store -/

/-- `PrefixMetadataStore`. -/
structure PrefixMetadataStore where
  family : AddressFamily
  declarations : Dict Prefix Metadata

namespace PrefixMetadataStore

/-- `PrefixMetadataStore(family)`. -/
def new (family : AddressFamily) : PrefixMetadataStore := ⟨family, .empty⟩

variable (s : PrefixMetadataStore)

/-- `_check_family`. -/
def checkFamily (family : AddressFamily) : Except MetadataError Unit :=
  if family = s.family then .ok () else .error (.family s.family family)

/-- The error of `_check_path`. Its text has both prefixes, whose networks are written as addresses. -/
def pathError (key : Text) (kind : Kind) (p : Prefix) (present : Kind) (other : Prefix) :
    MetadataError :=
  if (Address.make? p.family p.network).isNone then .addressRange p.family
  else if (Address.make? other.family other.network).isNone then .addressRange other.family
  else .path key kind p present other

/-- `_check_path`: no key may have two kinds on one path. -/
def checkPath (p : Prefix) (document : Metadata) : Except MetadataError Unit :=
  s.declarations.items.forM fun declaration =>
    if declaration.1 = p ∨ ¬ (covers declaration.1 p ∨ covers p declaration.1) then .ok ()
    else
      document.items.forM fun item =>
        match declaration.2.get? item.1 with
        | none => .ok ()
        | some present =>
          if present.kind = item.2.kind then .ok ()
          else .error (pathError item.1 item.2.kind p present.kind declaration.1)

/-- `declare`: the family, the document's shape and the path are checked before the store changes. -/
def declare (p : Prefix) (document : Document) : Program MetadataError PrefixMetadataStore PUnit := do
  let s ← get
  Program.ofExcept (s.checkFamily p.family)
  match document with
  | .other typeName => throw (.notAMapping typeName)
  | .mapping items => do
    let stored ← Program.ofExcept (requireMetadata items)
    Program.ofExcept (s.checkPath p stored)
    set { s with declarations := s.declarations.set p stored }

/-- `revoke`: whether there was a declaration. -/
def revoke (p : Prefix) : Program MetadataError PrefixMetadataStore Bool := do
  let s ← get
  Program.ofExcept (s.checkFamily p.family)
  set { s with declarations := s.declarations.erase p }
  pure (s.declarations.contains p)

/-- `clear`. -/
def clear : Program MetadataError PrefixMetadataStore PUnit :=
  modify fun s => { s with declarations := .empty }

/-! ### The reads -/

/-- One probe of `_fold`: the declaration of the prefix of a length. -/
def probe (network : ℤ) (length : ℕ) : Except MetadataError (Option Metadata) :=
  if h : length ≤ s.family.bitLength then
    .ok (s.declarations.get? (ancestorAt s.family network length h))
  else .error .negativeShift

/-- The loop of `_fold`: the declarations at the lengths, in order. -/
def pathAt (network : ℤ) : List ℕ → Except MetadataError (List Metadata)
  | [] => .ok []
  | length :: rest => do
    let declared ← s.probe network length
    let path ← pathAt network rest
    pure (declared.toList ++ path)

/-- `_fold`: the declarations at the lengths `0..through_length` on the path of a network. -/
def fold (network throughLength : ℤ) : Except MetadataError Metadata :=
  if s.declarations.items = [] then .ok emptyMetadata
  else do
    let path ← s.pathAt network (List.range (throughLength + 1).toNat)
    combinePath path

/-- `local`. -/
def localAt (p : Prefix) : Except MetadataError Metadata := do
  s.checkFamily p.family
  pure ((s.declarations.get? p).getD emptyMetadata)

/-- `inherited`. -/
def inherited (p : Prefix) : Except MetadataError Metadata := do
  s.checkFamily p.family
  s.fold p.network (p.length - 1)

/-- `effective_for_prefix`. -/
def effectiveForPrefix (p : Prefix) : Except MetadataError Metadata := do
  s.checkFamily p.family
  s.fold p.network p.length

/-- `effective`. -/
def effective (a : Address) : Except MetadataError Metadata := do
  s.checkFamily a.family
  s.fold (hostRoute a).network (hostRoute a).length

end PrefixMetadataStore

/-- A call that may change the store. -/
inductive StoreCall where
  | declare (p : Prefix) (document : Document)
  | revoke (p : Prefix)
  | clear

/-- Make the call; what it answers is dropped. -/
def StoreCall.perform : StoreCall → Program MetadataError PrefixMetadataStore PUnit
  | .declare p document => PrefixMetadataStore.declare p document
  | .revoke p => do
    let _ ← PrefixMetadataStore.revoke p
  | .clear => PrefixMetadataStore.clear

/-! ### Prefixes on one path -/

/-- Shifting out more bits than were cleared. -/
theorem clearHostBits_shiftRight (network : ℤ) {cleared shift : ℕ} (h : cleared ≤ shift) :
    clearHostBits network cleared >>> shift = network >>> shift := by
  obtain ⟨rest, rfl⟩ := Nat.exists_eq_add_of_le h
  have hpos : (0 : ℤ) < 2^cleared := by positivity
  unfold clearHostBits
  rw [Int.shiftRight_eq_div_pow, Int.shiftRight_eq_div_pow, Int.shiftRight_eq_div_pow]
  push_cast
  rw [pow_add, ← Int.ediv_ediv_of_nonneg hpos.le, Int.mul_ediv_cancel _ hpos.ne',
    Int.ediv_ediv_of_nonneg hpos.le]

/-- A prefix is the one of its length on the path of a network where they agree above its host
bits. -/
theorem eq_ancestorAt_iff {p : Prefix} {network : ℤ} :
    p = ancestorAt p.family network p.length p.length_le ↔
      p.network >>> (p.family.bitLength - p.length) =
        network >>> (p.family.bitLength - p.length) := by
  have hself : p.network = clearHostBits p.network (p.family.bitLength - p.length) := by
    have hzero := p.host_bits_zero
    have hdiv := Int.emod_add_mul_ediv p.network (2^(p.family.bitLength - p.length))
    unfold clearHostBits
    rw [Int.shiftRight_eq_div_pow]
    push_cast
    rw [mul_comm]
    omega
  constructor
  · intro heq
    have hnetwork := congrArg Prefix.network heq
    rw [hnetwork]
    exact clearHostBits_shiftRight network (le_refl _)
  · intro hshift
    refine Prefix.ext rfl ?_ rfl
    rw [hself]
    unfold clearHostBits
    rw [hshift]
    rfl

/-- The declared prefixes that contain an address are those on its path. -/
theorem contains_iff_ancestorAt {p : Prefix} {a : Address} (h : p.family = a.family) :
    p.contains a = true ↔ p = ancestorAt p.family a.value p.length p.length_le := by
  rw [eq_ancestorAt_iff]
  unfold Prefix.contains
  rw [if_neg (not_not.mpr h.symm)]
  exact decide_eq_true_iff.trans eq_comm

/-- Of two prefixes on one path the shorter one covers the longer one. -/
theorem covers_of_ancestors {p q : Prefix} {network : ℤ} (hfamily : p.family = q.family)
    (hp : p = ancestorAt p.family network p.length p.length_le)
    (hq : q = ancestorAt q.family network q.length q.length_le) (hle : p.length ≤ q.length) :
    covers p q = true := by
  have hshift := eq_ancestorAt_iff.mp hp
  have hnetwork : q.network = clearHostBits network (q.family.bitLength - q.length) :=
    congrArg Prefix.network hq
  unfold covers
  rw [if_neg (not_lt.mpr hle), decide_eq_true_iff, hshift, hnetwork]
  refine (clearHostBits_shiftRight network ?_).symm
  rw [hfamily]
  exact Nat.sub_le_sub_left hle _

namespace PrefixMetadataStore

variable {s : PrefixMetadataStore}

/-! ### What a fold reads -/

/-- The prefix of a length on the path of a network, if the family has the length. -/
def ancestor? (family : AddressFamily) (network : ℤ) (length : ℕ) : Option Prefix :=
  if h : length ≤ family.bitLength then some (ancestorAt family network length h) else none

/-- The declarations at the lengths on the path of a network. -/
def declaredOn (s : PrefixMetadataStore) (network : ℤ) (lengths : List ℕ) :
    List (Prefix × Metadata) :=
  lengths.filterMap fun length =>
    (ancestor? s.family network length).bind fun p =>
      (s.declarations.get? p).map fun document => (p, document)

theorem mem_declaredOn {network : ℤ} {lengths : List ℕ} {p : Prefix} {document : Metadata} :
    (p, document) ∈ s.declaredOn network lengths ↔
      p.length ∈ lengths ∧ ancestor? s.family network p.length = some p ∧
        s.declarations.get? p = some document := by
  unfold declaredOn
  rw [List.mem_filterMap]
  constructor
  · rintro ⟨length, hmem, h⟩
    obtain ⟨q, hq, hget⟩ := Option.bind_eq_some_iff.mp h
    obtain ⟨document', hdocument, heq⟩ := Option.map_eq_some_iff.mp hget
    cases heq
    have hlength : p.length = length := by
      unfold ancestor? at hq
      split_ifs at hq
      cases hq
      rfl
    rw [hlength]
    exact ⟨hmem, hq, hdocument⟩
  · rintro ⟨hmem, hp, hget⟩
    exact ⟨p.length, hmem, Option.bind_eq_some_iff.mpr ⟨p, hp, Option.map_eq_some_iff.mpr
      ⟨document, hget, rfl⟩⟩⟩

theorem ancestor?_eq_some {family : AddressFamily} {network : ℤ} {p : Prefix}
    (h : p.family = family) :
    ancestor? family network p.length = some p ↔
      p = ancestorAt p.family network p.length p.length_le := by
  subst h
  unfold ancestor?
  rw [dif_pos p.length_le, Option.some_inj, eq_comm]

/-- The declarations come shortest first. -/
theorem declaredOn_sorted (network : ℤ) {lengths : List ℕ} (h : lengths.Pairwise (· < ·)) :
    (s.declaredOn network lengths).Pairwise fun x y => x.1.length < y.1.length := by
  have hlength : ∀ length x, ((ancestor? s.family network length).bind fun p =>
      (s.declarations.get? p).map fun document => (p, document)) = some x → x.1.length = length := by
    intro length x hx
    obtain ⟨q, hq, hget⟩ := Option.bind_eq_some_iff.mp hx
    obtain ⟨document, -, heq⟩ := Option.map_eq_some_iff.mp hget
    unfold ancestor? at hq
    split_ifs at hq
    cases hq
    rw [← heq]
    rfl
  unfold declaredOn
  rw [List.pairwise_filterMap]
  refine h.imp fun {l l'} hlt x hx y hy => ?_
  rw [hlength l x hx, hlength l' y hy]
  exact hlt

/-- The loop of `_fold` reads the declarations of the path. -/
theorem pathAt_eq (s : PrefixMetadataStore) (network : ℤ) {lengths : List ℕ}
    (h : ∀ length ∈ lengths, length ≤ s.family.bitLength) :
    s.pathAt network lengths = .ok ((s.declaredOn network lengths).map Prod.snd) := by
  induction lengths with
  | nil => rfl
  | cons length rest ih =>
    obtain ⟨hlength, hrest⟩ := List.forall_mem_cons.mp h
    unfold pathAt probe
    rw [dif_pos hlength, ih hrest]
    show Except.ok _ = _
    unfold declaredOn
    have hancestor : ancestor? s.family network length =
        some (ancestorAt s.family network length hlength) := dif_pos hlength
    rw [List.filterMap_cons, hancestor, Option.bind_some]
    cases s.declarations.get? (ancestorAt s.family network length hlength) with
    | none => rfl
    | some document => rfl

/-- A fold is `combine_path` of the declarations on the path. -/
theorem fold_eq (s : PrefixMetadataStore) (network : ℤ) {throughLength : ℤ}
    (h : throughLength ≤ s.family.bitLength) :
    s.fold network throughLength =
      combinePath ((s.declaredOn network (List.range (throughLength + 1).toNat)).map Prod.snd) := by
  unfold fold
  split_ifs with hempty
  · -- Nothing is declared.
    have hnone : s.declaredOn network (List.range (throughLength + 1).toNat) = [] := by
      rw [List.eq_nil_iff_forall_not_mem]
      rintro ⟨p, document⟩ hmem
      have hget := Dict.mem_items_iff.mpr (mem_declaredOn.mp hmem).2.2
      rw [hempty] at hget
      exact List.not_mem_nil hget
    rw [hnone]
    rfl
  · rw [s.pathAt_eq network fun length hlength => ?_]
    · rfl
    · rw [List.mem_range] at hlength
      omega

/-! ### What every history keeps -/

/-- The declared prefixes are of the store's family, and no path has two kinds under one key. -/
structure Consistent (s : PrefixMetadataStore) : Prop where
  families : ∀ p document, s.declarations.get? p = some document → p.family = s.family
  oneKind : ∀ p document q document', s.declarations.get? p = some document →
    s.declarations.get? q = some document' → covers p q = true → kinds.SameKinds document document'

theorem checkFamily_ok {family : AddressFamily} :
    s.checkFamily family = .ok () ↔ family = s.family := by
  unfold checkFamily
  split_ifs with h
  · simp [h]
  · simp [h]

theorem checkFamily_error {family : AddressFamily} (h : family ≠ s.family) :
    s.checkFamily family = .error (.family s.family family) := if_neg h

/-- The other declarations of a prefix's path have no other kind under a key of the document. -/
def Fits (s : PrefixMetadataStore) (p : Prefix) (document : Metadata) : Prop :=
  ∀ other declared, s.declarations.get? other = some declared → other ≠ p →
    covers other p = true ∨ covers p other = true → kinds.SameKinds declared document

/-- The check against every declared prefix of the path, both ways. -/
theorem checkPath_ok {p : Prefix} {document : Metadata} (h : s.checkPath p document = .ok ()) :
    s.Fits p document := by
  intro other declared hget hne hpath
  have hchecked := except_forM_ok.mp h (other, declared) (Dict.mem_items_iff.mpr hget)
  rw [if_neg (not_or.mpr ⟨hne, not_not.mpr hpath⟩)] at hchecked
  intro key x y hx hy
  have hitem := except_forM_ok.mp hchecked (key, y) (Dict.mem_items_iff.mpr hy)
  dsimp only at hitem
  rw [hx] at hitem
  dsimp only at hitem
  by_contra hkind
  rw [if_neg (show x.kind ≠ y.kind from hkind)] at hitem
  cases hitem

/-- And against no more than these. -/
theorem Fits.checkPath {p : Prefix} {document : Metadata} (h : s.Fits p document) :
    s.checkPath p document = .ok () := by
  refine except_forM_ok.mpr fun declaration hmem => ?_
  have hget := Dict.mem_items_iff.mp hmem
  split_ifs with hother
  · rfl
  · obtain ⟨hne, hpath⟩ := not_or.mp hother
    refine except_forM_ok.mpr fun item hitem => ?_
    have hy := Dict.mem_items_iff.mp hitem
    cases hx : declaration.2.get? item.1 with
    | none => rfl
    | some present => exact if_pos (h _ _ hget hne (not_not.mp hpath) item.1 present item.2 hx hy)

/-- A document that passes the checks is stored. -/
theorem declare_ok {p : Prefix} {items : Dict DocumentKey DocumentValue} {stored : Metadata}
    (hfamily : p.family = s.family) (hstored : requireMetadata items = .ok stored)
    (hpath : s.checkPath p stored = .ok ()) :
    declare p (.mapping items) s =
      .ok ⟨⟩ { s with declarations := s.declarations.set p stored } := by
  have hchecked := (Program.ofExcept_ok (s := s)).mpr ⟨checkFamily_ok.mpr hfamily, rfl⟩
  have hread := (Program.ofExcept_ok (s := s)).mpr ⟨hstored, rfl⟩
  have hpassed := (Program.ofExcept_ok (s := s)).mpr ⟨hpath, rfl⟩
  refine Program.bind_ok.mpr ⟨s, s, rfl, Program.bind_ok.mpr ⟨(), s, hchecked, ?_⟩⟩
  refine Program.bind_ok.mpr ⟨stored, s, hread, ?_⟩
  exact Program.bind_ok.mpr ⟨(), s, hpassed, rfl⟩

/-- What `declare` does when it returns, and that it does nothing when it raises. -/
theorem declare_cases (p : Prefix) (document : Document) (s : PrefixMetadataStore) :
    (∃ items stored, document = .mapping items ∧ requireMetadata items = .ok stored ∧
        p.family = s.family ∧ s.checkPath p stored = .ok () ∧
        declare p document s = .ok ⟨⟩ { s with declarations := s.declarations.set p stored }) ∨
      ∃ e, declare p document s = .error e s := by
  have hdeclare : declare p document s = (Program.ofExcept (s.checkFamily p.family) >>= fun _ =>
      match document with
      | .other typeName => throw (.notAMapping typeName)
      | .mapping items => Program.ofExcept (requireMetadata items) >>= fun stored =>
          Program.ofExcept (s.checkPath p stored) >>= fun _ =>
            set { s with declarations := s.declarations.set p stored } :
      Program MetadataError PrefixMetadataStore PUnit) s := rfl
  rw [hdeclare]
  by_cases hfamily : p.family = s.family
  · have hchecked := (Program.ofExcept_ok (s := s)).mpr ⟨checkFamily_ok.mpr hfamily, rfl⟩
    cases document with
    | other typeName =>
      exact Or.inr ⟨_, Program.bind_error.mpr (Or.inr ⟨(), s, hchecked, rfl⟩)⟩
    | mapping items =>
      cases hstored : requireMetadata items with
      | error e =>
        have hraised := (Program.ofExcept_error (s := s)).mpr ⟨hstored, rfl⟩
        refine Or.inr ⟨e, Program.bind_error.mpr (Or.inr ⟨(), s, hchecked, ?_⟩)⟩
        exact Program.bind_error.mpr (Or.inl hraised)
      | ok stored =>
        have hread := (Program.ofExcept_ok (s := s)).mpr ⟨hstored, rfl⟩
        cases hpath : s.checkPath p stored with
        | error e =>
          have hraised := (Program.ofExcept_error (s := s)).mpr ⟨hpath, rfl⟩
          refine Or.inr ⟨e, Program.bind_error.mpr (Or.inr ⟨(), s, hchecked, ?_⟩)⟩
          refine Program.bind_error.mpr (Or.inr ⟨stored, s, hread, ?_⟩)
          exact Program.bind_error.mpr (Or.inl hraised)
        | ok u =>
          rw [← hdeclare]
          exact Or.inl ⟨items, stored, rfl, hstored, hfamily, hpath,
            declare_ok hfamily hstored hpath⟩
  · have hraised := (Program.ofExcept_error (s := s)).mpr ⟨checkFamily_error hfamily, rfl⟩
    exact Or.inr ⟨_, Program.bind_error.mpr (Or.inl hraised)⟩

/-- A replaced or a new declaration that passed the check keeps the store consistent. -/
theorem Consistent.set (h : Consistent s) {p : Prefix} {stored : Metadata}
    (hfamily : p.family = s.family) (hpath : s.checkPath p stored = .ok ()) :
    Consistent { s with declarations := s.declarations.set p stored } where
  families q document hget := by
    dsimp only at hget
    rw [Dict.get?_set] at hget
    split_ifs at hget with heq
    · rw [← heq]
      exact hfamily
    · exact h.families q document hget
  oneKind q document q' document' hq hq' hcovers := by
    dsimp only at hq hq'
    rw [Dict.get?_set] at hq hq'
    split_ifs at hq hq' with heq heq' heq'
    · -- The declaration itself, twice.
      cases hq
      cases hq'
      exact Kinded.SameKinds.refl stored
    · -- The new declaration above an old one.
      cases hq
      rw [← heq] at hcovers
      exact (checkPath_ok hpath q' document' hq' (Ne.symm heq') (Or.inr hcovers)).symm
    · -- The new declaration below an old one.
      cases hq'
      rw [← heq'] at hcovers
      exact checkPath_ok hpath q document hq (Ne.symm heq) (Or.inl hcovers)
    · exact h.oneKind q document q' document' hq hq' hcovers

/-- A store with fewer declarations is consistent too. -/
theorem Consistent.of_le (h : Consistent s) {declarations : Dict Prefix Metadata}
    (hle : ∀ p document, declarations.get? p = some document →
      s.declarations.get? p = some document) :
    Consistent { s with declarations := declarations } where
  families p document hget := h.families p document (hle p document hget)
  oneKind p document q document' hp hq :=
    h.oneKind p document q document' (hle p document hp) (hle q document' hq)

/-- What `revoke` does when it returns, and that it does nothing when it raises. -/
theorem revoke_cases (p : Prefix) (s : PrefixMetadataStore) :
    (revoke p s = .ok (s.declarations.contains p)
        { s with declarations := s.declarations.erase p }) ∨
      ∃ e, revoke p s = .error e s := by
  have hrevoke : revoke p s = (Program.ofExcept (s.checkFamily p.family) >>= fun _ =>
      (set { s with declarations := s.declarations.erase p } :
        Program MetadataError PrefixMetadataStore PUnit) >>= fun _ =>
          pure (s.declarations.contains p) : Program MetadataError PrefixMetadataStore Bool) s := rfl
  rw [hrevoke]
  by_cases hfamily : p.family = s.family
  · have hchecked := (Program.ofExcept_ok (s := s)).mpr ⟨checkFamily_ok.mpr hfamily, rfl⟩
    exact Or.inl (Program.bind_ok.mpr ⟨(), s, hchecked, rfl⟩)
  · have hraised := (Program.ofExcept_error (s := s)).mpr ⟨checkFamily_error hfamily, rfl⟩
    exact Or.inr ⟨_, Program.bind_error.mpr (Or.inl hraised)⟩

/-- The store after a call, whether the call returned or raised. -/
def performed (s : PrefixMetadataStore) (call : StoreCall) : PrefixMetadataStore :=
  Program.after (call.perform s)

/-- The store after a history of calls on a new one. -/
def run (family : AddressFamily) (calls : List StoreCall) : PrefixMetadataStore :=
  calls.foldl performed (new family)

theorem performed_declare (p : Prefix) (document : Document) (s : PrefixMetadataStore) :
    (∃ stored, p.family = s.family ∧ s.checkPath p stored = .ok () ∧
        s.performed (.declare p document) =
          { s with declarations := s.declarations.set p stored }) ∨
      s.performed (.declare p document) = s := by
  unfold performed StoreCall.perform
  dsimp only
  rcases declare_cases p document s with ⟨_, stored, -, -, hfamily, hpath, hok⟩ | ⟨e, herror⟩
  · rw [hok]
    exact Or.inl ⟨stored, hfamily, hpath, rfl⟩
  · rw [herror]
    exact Or.inr rfl

theorem performed_revoke (p : Prefix) (s : PrefixMetadataStore) :
    s.performed (.revoke p) = { s with declarations := s.declarations.erase p } ∨
      s.performed (.revoke p) = s := by
  unfold performed StoreCall.perform
  dsimp only
  rcases revoke_cases p s with hok | ⟨e, herror⟩
  · have hrun : (revoke p >>= fun _ => pure PUnit.unit) s =
        .ok ⟨⟩ { s with declarations := s.declarations.erase p } :=
      Program.bind_ok.mpr ⟨_, _, hok, rfl⟩
    rw [hrun]
    exact Or.inl rfl
  · have hrun : (revoke p >>= fun _ => pure PUnit.unit) s = .error e s :=
      Program.bind_error.mpr (Or.inl herror)
    rw [hrun]
    exact Or.inr rfl

theorem Consistent.performed (h : Consistent s) (call : StoreCall) :
    Consistent (s.performed call) := by
  cases call with
  | declare p document =>
    rcases performed_declare p document s with ⟨stored, hfamily, hpath, heq⟩ | heq
    · rw [heq]
      exact h.set hfamily hpath
    · rw [heq]
      exact h
  | revoke p =>
    rcases performed_revoke p s with heq | heq
    · rw [heq]
      refine h.of_le fun q document hget => ?_
      rw [Dict.get?_erase] at hget
      split_ifs at hget
      exact hget
    · rw [heq]
      exact h
  | clear => exact h.of_le fun q document hget => by cases hget

theorem consistent_run (family : AddressFamily) (calls : List StoreCall) :
    Consistent (run family calls) := by
  have hnew : Consistent (new family) := by
    constructor
    · intro p document hget
      cases hget
    · intro p document q document' hget
      cases hget
  exact invariant_foldl (I := Consistent) (fun s call h => h.performed call) hnew calls

/-! ### The reads of a consistent store -/

/-- The documents on a path are compatible in pairs, so that the fold of a path is defined. -/
theorem Consistent.fold_ok (h : Consistent s) (network : ℤ) {throughLength : ℤ}
    (hle : throughLength ≤ s.family.bitLength) :
    ∃ document, s.fold network throughLength = .ok document := by
  rw [s.fold_eq network hle]
  set declared := s.declaredOn network (List.range (throughLength + 1).toNat) with hdeclared
  have hpairs : (declared.map Prod.snd).Pairwise kinds.dictionaries.Compatible := by
    rw [List.pairwise_map]
    have hsorted := declaredOn_sorted (s := s) network
      (List.pairwise_lt_range (n := (throughLength + 1).toNat))
    refine hsorted.imp_of_mem fun {x y} hx hy hlt => ?_
    obtain ⟨-, hpath, hget⟩ := mem_declaredOn.mp hx
    obtain ⟨-, hpath', hget'⟩ := mem_declaredOn.mp hy
    have hfamily := h.families _ _ hget
    have hfamily' := h.families _ _ hget'
    -- Both are on the path of the network, and so the shorter one covers the longer one.
    have hcovers := covers_of_ancestors (hfamily.trans hfamily'.symm)
      ((ancestor?_eq_some hfamily).mp hpath) ((ancestor?_eq_some hfamily').mp hpath') hlt.le
    exact Kinded.dictionaries_compatible.mpr (h.oneKind _ _ _ _ hget hget' hcovers)
  have hdefined := (Kinded.dictionaries_separated.path_isSome_iff _).mpr hpairs
  obtain ⟨document, hdocument⟩ := Option.isSome_iff_exists.mp hdefined
  exact ⟨document, combinePath_ok.mpr hdocument⟩

/-- A fold depends on the declarations of its path alone. -/
theorem fold_congr {t : PrefixMetadataStore} (hfamily : t.family = s.family) (network : ℤ)
    {throughLength : ℤ} (hle : throughLength ≤ s.family.bitLength)
    (h : ∀ p, p.family = s.family → p = ancestorAt p.family network p.length p.length_le →
      t.declarations.get? p = s.declarations.get? p) :
    t.fold network throughLength = s.fold network throughLength := by
  rw [s.fold_eq network hle, t.fold_eq network (by rw [hfamily]; exact hle)]
  have heq : ∀ lengths, t.declaredOn network lengths = s.declaredOn network lengths := by
    intro lengths
    unfold declaredOn
    refine List.filterMap_congr fun length _ => ?_
    rw [hfamily]
    cases hancestor : ancestor? s.family network length with
    | none => rfl
    | some p =>
      unfold ancestor? at hancestor
      split_ifs at hancestor with hlength
      cases hancestor
      rw [Option.bind_some, Option.bind_some, h _ rfl rfl]
  rw [heq]

/-- The fold through a prefix is the fold of its strict ancestors, combined with its own document. -/
theorem fold_self {p : Prefix} (hfamily : p.family = s.family) :
    s.fold p.network p.length = s.fold p.network (p.length - 1) >>= fun ancestors =>
      combine ancestors ((s.declarations.get? p).getD emptyMetadata) := by
  have hlength : p.length ≤ s.family.bitLength := by
    rw [← hfamily]
    exact p.length_le
  have hself : ancestor? s.family p.network p.length = some p :=
    (ancestor?_eq_some hfamily).mpr (eq_ancestorAt_iff.mpr rfl)
  rw [s.fold_eq _ (by omega), s.fold_eq _ (by omega)]
  have hrange : List.range ((p.length : ℤ) + 1).toNat = List.range p.length ++ [p.length] := by
    have hnat : ((p.length : ℤ) + 1).toNat = p.length + 1 := by omega
    rw [hnat, List.range_succ]
  have hrange' : ((p.length : ℤ) - 1 + 1).toNat = p.length := by omega
  rw [hrange, hrange']
  have happend : s.declaredOn p.network (List.range p.length ++ [p.length]) =
      s.declaredOn p.network (List.range p.length) ++
        ((s.declarations.get? p).map fun document => (p, document)).toList := by
    unfold declaredOn
    rw [List.filterMap_append, List.filterMap_cons, hself]
    cases hget : s.declarations.get? p with
    | none => simp [hget]
    | some document => simp [hget]
  rw [happend, List.map_append]
  cases s.declarations.get? p with
  | none =>
    show combinePath (_ ++ []) = combinePath _ >>= fun ancestors => combine ancestors emptyMetadata
    rw [List.append_nil]
    cases combinePath ((s.declaredOn p.network (List.range p.length)).map Prod.snd) with
    | error e => rfl
    | ok ancestors => exact (combine_ok.mpr ⟨(Kinded.empty_sameKinds _).symm, (Dict.merge_empty _).symm⟩).symm
  | some document => exact combinePath_concat _ document

/-! ### What the reads mean -/

/-- The reads of a store never fail, and give what was declared. -/
structure ReadsMean (s : PrefixMetadataStore) : Prop where
  /-- A declaration returns exactly where the prefix is of the family, the document has the shape, and
  it fits the other declarations of the path. -/
  declare_returns : ∀ p document, (∃ t, declare p document s = .ok ⟨⟩ t) ↔ p.family = s.family ∧
    ∃ items stored, document = .mapping items ∧ requireMetadata items = .ok stored ∧
      s.Fits p stored
  /-- It then stores the document, and leaves the other declarations. -/
  declared : ∀ p document t, declare p document s = .ok ⟨⟩ t → t.family = s.family ∧
    ∃ items stored, document = .mapping items ∧ requireMetadata items = .ok stored ∧
      ∀ q, t.declarations.get? q = if q = p then some stored else s.declarations.get? q
  /-- A revocation removes the declaration, if there is one, and leaves the others. -/
  revoked : ∀ p, p.family = s.family → ∃ t,
    revoke p s = .ok (s.declarations.get? p).isSome t ∧ t.family = s.family ∧
      ∀ q, t.declarations.get? q = if q = p then none else s.declarations.get? q
  cleared : clear s = .ok ⟨⟩ (new s.family)
  /-- No two declared prefixes of one path have two kinds under one key. -/
  oneKind : ∀ p document q document', s.declarations.get? p = some document →
    s.declarations.get? q = some document' → covers p q = true ∨ covers q p = true →
    ∀ key x y, document.get? key = some x → document'.get? key = some y → x.kind = y.kind
  /-- A rejected declaration leaves the store as it is. -/
  rejected : ∀ p document e t, declare p document s = .error e t → t = s
  inherited_returns : ∀ p, p.family = s.family → ∃ read, s.inherited p = .ok read
  effectiveForPrefix_returns : ∀ p, p.family = s.family →
    ∃ read, s.effectiveForPrefix p = .ok read
  effective_returns : ∀ a, a.family = s.family → ∃ read, s.effective a = .ok read
  /-- The documents of the declared prefixes that contain an address, shortest prefix first. -/
  effective_eq : ∀ a, a.family = s.family → ∃ path : List (Prefix × Metadata),
    path.Pairwise (fun x y => x.1.length < y.1.length) ∧
      (∀ p document, (p, document) ∈ path ↔
        s.declarations.get? p = some document ∧ p.contains a = true) ∧
      s.effective a = combinePath (path.map Prod.snd)
  effectiveForPrefix_eq : ∀ p, s.effectiveForPrefix p =
    s.inherited p >>= fun ancestors => s.localAt p >>= fun own => combine ancestors own
  /-- A declaration is read inside its prefix only, and so is its revocation. -/
  declare_inside : ∀ q document a, q.contains a = false →
    (s.performed (.declare q document)).effective a = s.effective a
  revoke_inside : ∀ q a, q.contains a = false → (s.performed (.revoke q)).effective a = s.effective a

/-- The declarations that `effective` reads are those of the prefixes that contain the address. -/
theorem Consistent.mem_declaredOn_address (h : Consistent s) {a : Address}
    (hfamily : a.family = s.family) (p : Prefix) (document : Metadata) :
    (p, document) ∈ s.declaredOn a.value (List.range ((a.family.bitLength : ℤ) + 1).toNat) ↔
      s.declarations.get? p = some document ∧ p.contains a = true := by
  rw [mem_declaredOn, and_comm (a := _ ∈ _), and_comm (b := _ = some document), and_assoc]
  refine and_congr_right fun hget => ?_
  have hp := h.families p document hget
  rw [ancestor?_eq_some hp, contains_iff_ancestorAt (hp.trans hfamily.symm)]
  refine and_iff_left ?_
  have hlength : p.length ≤ a.family.bitLength := by
    rw [hfamily, ← hp]
    exact p.length_le
  rw [List.mem_range]
  omega

/-- A change of the declaration of one prefix does not reach the addresses outside it. -/
theorem effective_congr {t : PrefixMetadataStore} (hfamily : t.family = s.family) {q : Prefix}
    {a : Address} (houtside : q.contains a = false)
    (h : ∀ p, p ≠ q → t.declarations.get? p = s.declarations.get? p) :
    t.effective a = s.effective a := by
  by_cases ha : a.family = s.family
  · have hfold : t.fold a.value a.family.bitLength = s.fold a.value a.family.bitLength := by
      refine fold_congr hfamily a.value (by rw [ha]) fun p hp hpath => h p fun heq => ?_
      rw [← heq, (contains_iff_ancestorAt (hp.trans ha.symm)).mpr hpath] at houtside
      cases houtside
    unfold effective
    rw [checkFamily_ok.mpr ha, checkFamily_ok.mpr (ha.trans hfamily.symm)]
    exact hfold
  · unfold effective
    rw [checkFamily_error ha, checkFamily_error fun heq => ha (heq.trans hfamily), hfamily]
    rfl

theorem declare_returns_iff (p : Prefix) (document : Document) (s : PrefixMetadataStore) :
    (∃ t, declare p document s = .ok ⟨⟩ t) ↔ p.family = s.family ∧
      ∃ items stored, document = .mapping items ∧ requireMetadata items = .ok stored ∧
        s.Fits p stored := by
  constructor
  · rintro ⟨t, hreturns⟩
    rcases declare_cases p document s with ⟨items, stored, hitems, hstored, hfamily, hpath, -⟩ |
      ⟨e, herror⟩
    · exact ⟨hfamily, items, stored, hitems, hstored, checkPath_ok hpath⟩
    · rw [herror] at hreturns
      cases hreturns
  · rintro ⟨hfamily, items, stored, rfl, hstored, hfits⟩
    exact ⟨_, declare_ok hfamily hstored hfits.checkPath⟩

theorem Consistent.readsMean (h : Consistent s) : ReadsMean s where
  declare_returns p document := declare_returns_iff p document s
  declared p document t hreturns := by
    rcases declare_cases p document s with ⟨items, stored, hitems, hstored, -, -, hok⟩ | ⟨e, herror⟩
    · rw [hok] at hreturns
      cases hreturns
      refine ⟨rfl, items, stored, hitems, hstored, fun q => ?_⟩
      dsimp only
      rw [Dict.get?_set]
      exact if_congr eq_comm rfl rfl
    · rw [herror] at hreturns
      cases hreturns
  revoked p hp := by
    refine ⟨_, Program.bind_ok.mpr ⟨s, s, rfl, Program.bind_ok.mpr ⟨(), s,
      Program.ofExcept_ok.mpr ⟨checkFamily_ok.mpr hp, rfl⟩, rfl⟩⟩, rfl, fun q => ?_⟩
    show (s.declarations.erase p).get? q = _
    rw [Dict.get?_erase]
    exact if_congr eq_comm rfl rfl
  cleared := rfl
  oneKind p document q document' hp hq hpath := by
    rcases hpath with hcovers | hcovers
    · exact h.oneKind p document q document' hp hq hcovers
    · exact (h.oneKind q document' p document hq hp hcovers).symm
  rejected p document e t herror := by
    rcases declare_cases p document s with ⟨_, _, -, -, -, -, hok⟩ | ⟨e', herror'⟩
    · rw [hok] at herror
      cases herror
    · rw [herror'] at herror
      cases herror
      rfl
  inherited_returns p hp := by
    have hlength := p.length_le
    rw [hp] at hlength
    unfold inherited
    rw [checkFamily_ok.mpr hp]
    exact h.fold_ok p.network (by omega)
  effectiveForPrefix_returns p hp := by
    have hlength := p.length_le
    rw [hp] at hlength
    unfold effectiveForPrefix
    rw [checkFamily_ok.mpr hp]
    exact h.fold_ok p.network (by omega)
  effective_returns a ha := by
    unfold effective
    rw [checkFamily_ok.mpr ha]
    exact h.fold_ok a.value (by rw [← ha]; rfl)
  effective_eq a ha := by
    have hle : (a.family.bitLength : ℤ) ≤ s.family.bitLength := by rw [ha]
    refine ⟨s.declaredOn a.value (List.range ((a.family.bitLength : ℤ) + 1).toNat),
      declaredOn_sorted a.value List.pairwise_lt_range, h.mem_declaredOn_address ha, ?_⟩
    unfold effective
    rw [checkFamily_ok.mpr ha]
    exact s.fold_eq a.value hle
  effectiveForPrefix_eq p := by
    unfold effectiveForPrefix inherited localAt
    by_cases hp : p.family = s.family
    · rw [checkFamily_ok.mpr hp]
      exact fold_self hp
    · rw [checkFamily_error hp]
      rfl
  declare_inside q document a houtside := by
    rcases performed_declare q document s with ⟨stored, -, -, heq⟩ | heq
    · rw [heq]
      apply effective_congr _ houtside
      · exact fun p hne => Dict.get?_set_of_ne _ (Ne.symm hne) stored
      · rfl
    · rw [heq]
  revoke_inside q a houtside := by
    rcases performed_revoke q s with heq | heq
    · rw [heq]
      apply effective_congr _ houtside
      · intro p hne
        show (s.declarations.erase q).get? p = _
        rw [Dict.get?_erase, if_neg (Ne.symm hne)]
      · rfl
    · rw [heq]

/-- **The reads never fail and mean what was declared**, after any history of calls. -/
theorem reads_mean (family : AddressFamily) (calls : List StoreCall) : ReadsMean (run family calls) :=
  (consistent_run family calls).readsMean

end PrefixMetadataStore

end Hammertime.Trie
