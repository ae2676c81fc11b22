import Hammertime.Addressing
import Hammertime.Lib.Json
import Hammertime.Lib.PartialMonoid
import Hammertime.Lib.Program

/-!
# Combining metadata along a path

The downward algebra of `hammertime.trie.metadata.combine`. A document maps keys to values of three
kinds, and each kind has its own rule: sets union, bitmasks OR, and of two policies the more specific
one wins. Two kinds under one key do not combine.

`combine_laws` says that the documents are a partial monoid under `combine`: `combine` computes the
product of the dictionaries over the three kinds, and `combine_path` the path of a list.
-/

namespace Hammertime.Trie

open Lib

/-! ### Values and documents -/

/-- What an `Override` holds: `str | int | bool`. -/
inductive OverrideValue where
  | text (value : Text)
  | int (value : ℤ)
  | bool (value : Bool)
deriving DecidableEq

/-- `Tags`, `Bitmask` and `Override`. A negative mask cannot be built. -/
inductive MetadataValue where
  | tags (values : Finset Text)
  | bitmask (bits : ℕ)
  | override (value : OverrideValue)
deriving DecidableEq

/-- The three kinds. -/
inductive Kind where
  | tags
  | bitmask
  | override
deriving DecidableEq, Repr

/-- `__name__` of a kind. -/
def Kind.name : Kind → String
  | .tags => "Tags"
  | .bitmask => "Bitmask"
  | .override => "Override"

/-- `_kind`. -/
def MetadataValue.kind : MetadataValue → Kind
  | .tags _ => .tags
  | .bitmask _ => .bitmask
  | .override _ => .override

/-- A metadata document: a `Mapping` of `str` to one of the three kinds. -/
abbrev Metadata := Dict Text MetadataValue

/-- `EMPTY_METADATA`. -/
def emptyMetadata : Metadata := .empty

/-- What the metadata functions raise. -/
inductive MetadataError where
  /-- `ValueError`: two different kinds do not combine. -/
  | kinds (key : Option Text) (less more : Kind)
  /-- `TypeError`: the document is not a `Mapping`. -/
  | notAMapping (typeName : String)
  /-- `TypeError`: a key of the document is not a `str`. -/
  | keyType (typeName : String)
  /-- `TypeError`: a value of the document is none of the three kinds. -/
  | valueType (typeName : String) (key : Option Text)
  /-- `ValueError`: a key would have two kinds on one path. -/
  | path (key : Text) (kind : Kind) (declared : Prefix) (present : Kind) (other : Prefix)
  /-- `InvalidAddressError`: a prefix in a message has a network out of range. -/
  | addressRange (family : AddressFamily)
  /-- `ValueError`: an argument of the other family. -/
  | family (store argument : AddressFamily)
  /-- `ValueError`: `negative shift count`. -/
  | negativeShift

/-- The text of an error, with `repr` of a string and `str` of a prefix. -/
def MetadataError.message (repr : Text → String) (text : Prefix → String) : MetadataError → String
  | .kinds none less more =>
    s!"two different kinds do not combine: {less.name} and {more.name}"
  | .kinds (some key) less more =>
    "metadata key " ++ repr key ++
      s!" has two different kinds do not combine: {less.name} and {more.name}"
  | .notAMapping typeName => s!"a metadata document must be a Mapping, got {typeName}"
  | .keyType typeName => s!"metadata keys must be str, got a {typeName}"
  | .valueType typeName none =>
    s!"a metadata value must be a Tags, Bitmask or Override; got a {typeName}"
  | .valueType typeName (some key) =>
    s!"a metadata value must be a Tags, Bitmask or Override; got a {typeName}" ++
      " under metadata key " ++ repr key
  | .path key kind declared present other =>
    "metadata key " ++ repr key ++ " would have two kinds on one path: " ++
      s!"{kind.name} on " ++ text declared ++ s!" and {present.name} on " ++ text other
  | .addressRange argument => s!"value out of range for {argument.text}"
  | .family store argument =>
    s!"this store holds {store.text} prefixes; got an {argument.text} argument"
  | .negativeShift => "negative shift count"

/-! ### Combining -/

/-- `_combine_checked`. -/
def combineChecked (key : Option Text) (lessSpecific moreSpecific : MetadataValue) :
    Except MetadataError MetadataValue :=
  if lessSpecific.kind ≠ moreSpecific.kind then
    .error (.kinds key lessSpecific.kind moreSpecific.kind)
  else
    match lessSpecific, moreSpecific with
    | .tags values, .tags values' => .ok (.tags (values ∪ values'))
    | .bitmask bits, .bitmask bits' => .ok (.bitmask (bits ||| bits'))
    | _, _ => .ok moreSpecific

/-- The body of the loop of `combine`: one pair of the more specific document. -/
def combineItem (result : Metadata) (item : Text × MetadataValue) : Except MetadataError Metadata :=
  match result.get? item.1 with
  | none => .ok (result.set item.1 item.2)
  | some present => do
    let value ← combineChecked (some item.1) present item.2
    pure (result.set item.1 value)

/-- `combine`. Both documents are checked whole first, which these pass by their type. -/
def combine (lessSpecific moreSpecific : Metadata) : Except MetadataError Metadata :=
  moreSpecific.items.foldlM combineItem lessSpecific

/-- `combine_path`: left fold of `combine`, least specific first. -/
def combinePath (documents : List Metadata) : Except MetadataError Metadata :=
  documents.foldlM combine emptyMetadata

/-! ### The values of each kind -/

/-- The rule of each kind, for two values of it. -/
def join : MetadataValue → MetadataValue → MetadataValue
  | .tags values, .tags values' => .tags (values ∪ values')
  | .bitmask bits, .bitmask bits' => .bitmask (bits ||| bits')
  | _, moreSpecific => moreSpecific

theorem join_kind {x y : MetadataValue} (h : x.kind = y.kind) : (join x y).kind = x.kind := by
  cases x with
  | tags values =>
    cases y with
    | tags values' => rfl
    | bitmask bits => cases h
    | override value => cases h
  | bitmask bits =>
    cases y with
    | tags values => cases h
    | bitmask bits' => rfl
    | override value => cases h
  | override value => exact h.symm

theorem join_assoc {x y z : MetadataValue} (hxy : x.kind = y.kind) (hyz : y.kind = z.kind) :
    join (join x y) z = join x (join y z) := by
  cases x with
  | tags values =>
    cases y with
    | tags values' =>
      cases z with
      | tags values'' => exact congrArg MetadataValue.tags (Finset.union_assoc _ _ _)
      | bitmask bits => cases hyz
      | override value => cases hyz
    | bitmask bits => cases hxy
    | override value => cases hxy
  | bitmask bits =>
    cases y with
    | tags values => cases hxy
    | bitmask bits' =>
      cases z with
      | tags values => cases hyz
      | bitmask bits'' => exact congrArg MetadataValue.bitmask (Nat.lor_assoc _ _ _)
      | override value => cases hyz
    | override value => cases hxy
  | override value =>
    cases y with
    | tags values => cases hxy
    | bitmask bits => cases hxy
    | override value' => rfl

/-- The three kinds, each with its rule. -/
def kinds : Kinded MetadataValue Kind where
  kind := MetadataValue.kind
  op := join
  kind_op _ _ := join_kind
  op_assoc _ _ _ := join_assoc

/-- `_combine_checked` joins two values of one kind and refuses two kinds. -/
theorem combineChecked_eq (key : Option Text) (x y : MetadataValue) :
    combineChecked key x y =
      if x.kind = y.kind then .ok (join x y) else .error (.kinds key x.kind y.kind) := by
  unfold combineChecked
  by_cases h : x.kind = y.kind
  · rw [if_neg (not_not.mpr h), if_pos h]
    cases x with
    | tags values => cases y <;> rfl
    | bitmask bits => cases y <;> rfl
    | override value => rfl
  · rw [if_pos h, if_neg h]

theorem join_self (x : MetadataValue) : join x x = x := by
  cases x with
  | tags values => exact congrArg _ (Finset.union_self values)
  | bitmask bits => exact congrArg _ (Nat.or_self bits)
  | override value => rfl

/-- Only policies depend on the order. -/
theorem join_comm {x y : MetadataValue} (h : x.kind = y.kind) (hx : x.kind ≠ .override) :
    join x y = join y x := by
  cases x with
  | tags values =>
    cases y with
    | tags values' => exact congrArg _ (Finset.union_comm _ _)
    | bitmask bits => cases h
    | override value => cases h
  | bitmask bits =>
    cases y with
    | tags values => cases h
    | bitmask bits' => exact congrArg _ (Nat.lor_comm _ _)
    | override value => cases h
  | override value => exact absurd rfl hx

/-! ### `combine` is the product of the dictionaries -/

theorem combineItem_ok {d r : Metadata} {item : Text × MetadataValue} :
    combineItem d item = .ok r ↔
      (∀ x, d.get? item.1 = some x → x.kind = item.2.kind) ∧
        r = d.set item.1 ((d.get? item.1).elim item.2 fun x => join x item.2) := by
  unfold combineItem
  cases hx : d.get? item.1 with
  | none => simp [eq_comm]
  | some x =>
    dsimp only
    rw [combineChecked_eq]
    by_cases hkind : x.kind = item.2.kind
    · rw [if_pos hkind]
      simp [bind, Except.bind, pure, Except.pure, hkind, eq_comm]
    · rw [if_neg hkind]
      simp [bind, Except.bind, hkind]

theorem combineItem_error {d : Metadata} {item : Text × MetadataValue} {e : MetadataError}
    (h : combineItem d item = .error e) :
    ∃ x, d.get? item.1 = some x ∧ x.kind ≠ item.2.kind ∧
      e = .kinds (some item.1) x.kind item.2.kind := by
  unfold combineItem at h
  cases hx : d.get? item.1 with
  | none =>
    rw [hx] at h
    cases h
  | some x =>
    rw [hx] at h
    dsimp only at h
    rw [combineChecked_eq] at h
    by_cases hkind : x.kind = item.2.kind
    · rw [if_pos hkind] at h
      cases h
    · rw [if_neg hkind] at h
      cases h
      exact ⟨x, rfl, hkind, rfl⟩

/-- The loop of `combine` over pairs with distinct keys. -/
theorem combineItems_ok {d r : Metadata} {l : List (Text × MetadataValue)}
    (hl : (l.map Prod.fst).Nodup) :
    l.foldlM combineItem d = .ok r ↔
      (∀ item ∈ l, ∀ x, d.get? item.1 = some x → x.kind = item.2.kind) ∧
        r = d.mergeItems join l := by
  induction l generalizing d with
  | nil =>
    show Except.ok d = .ok r ↔ _ ∧ r = d
    simp [eq_comm]
  | cons item rest ih =>
    rw [List.map_cons, List.nodup_cons] at hl
    rw [List.foldlM_cons, except_bind_ok]
    simp only [combineItem_ok, and_assoc, exists_and_left, exists_eq_left, ih hl.2,
      List.forall_mem_cons]
    -- What is written at the key of one pair is not what a later pair meets.
    have hlater : ∀ item' ∈ rest, ∀ value, (d.set item.1 value).get? item'.1 = d.get? item'.1 := by
      intro item' hmem value
      refine Dict.get?_set_of_ne _ (fun heq => hl.1 ?_) _
      rw [heq]
      exact List.mem_map_of_mem hmem
    refine and_congr_right fun _ => and_congr ?_ Iff.rfl
    constructor
    · intro h item' hmem x hx
      exact h item' hmem x ((hlater item' hmem _).trans hx)
    · intro h item' hmem x hx
      exact h item' hmem x ((hlater item' hmem _).symm.trans hx)

theorem combineItems_error {d : Metadata} {l : List (Text × MetadataValue)} {e : MetadataError}
    (hl : (l.map Prod.fst).Nodup) (h : l.foldlM combineItem d = .error e) :
    ∃ item ∈ l, ∃ x, d.get? item.1 = some x ∧ x.kind ≠ item.2.kind ∧
      e = .kinds (some item.1) x.kind item.2.kind := by
  induction l generalizing d with
  | nil => cases h
  | cons item rest ih =>
    rw [List.map_cons, List.nodup_cons] at hl
    rw [List.foldlM_cons, except_bind_error] at h
    rcases h with h | ⟨d', hd', h⟩
    · obtain ⟨x, hx⟩ := combineItem_error h
      exact ⟨item, List.mem_cons_self, x, hx⟩
    · obtain ⟨item', hmem, x, hx, hkind, he⟩ := ih hl.2 h
      obtain ⟨-, rfl⟩ := combineItem_ok.mp hd'
      have hne : item.1 ≠ item'.1 := fun heq => hl.1 (heq ▸ List.mem_map_of_mem hmem)
      rw [Dict.get?_set_of_ne _ hne] at hx
      exact ⟨item', List.mem_cons_of_mem _ hmem, x, hx, hkind, he⟩

/-- `combine` returns where both have one kind at each key. -/
theorem combine_ok {a b c : Metadata} :
    combine a b = .ok c ↔ kinds.SameKinds a b ∧ c = a.merge join b := by
  unfold combine
  rw [combineItems_ok b.nodup]
  refine and_congr ?_ Iff.rfl
  constructor
  · intro h key x y hx hy
    exact h (key, y) (Dict.mem_items_iff.mpr hy) x hx
  · intro h item hmem x hx
    exact h item.1 x item.2 hx (Dict.mem_items_iff.mp hmem)

/-- Two values of different kinds under one key. -/
structure Clash (key : Text) (less more : Kind) (documents documents' : List Metadata) : Prop where
  differ : less ≠ more
  less : ∃ d ∈ documents, ∃ x, d.get? key = some x ∧ x.kind = less
  more : ∃ d ∈ documents', ∃ y, d.get? key = some y ∧ y.kind = more

/-- It refuses two kinds under one key, and nothing else. -/
theorem combine_error {a b : Metadata} {e : MetadataError} (h : combine a b = .error e) :
    ∃ key less more, e = .kinds (some key) less more ∧ Clash key less more [a] [b] := by
  obtain ⟨item, hmem, x, hx, hkind, rfl⟩ := combineItems_error b.nodup h
  exact ⟨item.1, x.kind, item.2.kind, rfl, hkind, ⟨a, List.mem_singleton.mpr rfl, x, hx, rfl⟩,
    b, List.mem_singleton.mpr rfl, item.2, Dict.mem_items_iff.mp hmem, rfl⟩

theorem combine_toOption (a b : Metadata) :
    (combine a b).toOption = kinds.dictionaries.mul a b := by
  cases h : combine a b with
  | ok c => exact (Kinded.dictionaries_mul.mpr (combine_ok.mp h)).symm
  | error e =>
    cases hmul : kinds.dictionaries.mul a b with
    | none => rfl
    | some c =>
      have hok := combine_ok.mpr (Kinded.dictionaries_mul.mp hmul)
      rw [h] at hok
      cases hok

/-- What a sequence of two fallible steps returns. -/
theorem toOption_bind {α β : Type} (x : Except MetadataError α) (f : α → Except MetadataError β) :
    (x >>= f).toOption = x.toOption.bind fun a => (f a).toOption := by
  cases x with
  | ok a => rfl
  | error e => rfl

/-- `combine_path` is the path of the documents. -/
theorem combinePath_toOption (documents : List Metadata) :
    (combinePath documents).toOption = kinds.dictionaries.path documents := by
  unfold combinePath PartialMonoid.path
  show (documents.foldlM combine emptyMetadata).toOption =
    documents.foldlM kinds.dictionaries.mul emptyMetadata
  generalize emptyMetadata = start
  induction documents generalizing start with
  | nil => rfl
  | cons document rest ih =>
    rw [List.foldlM_cons, List.foldlM_cons, toOption_bind, combine_toOption]
    exact congrArg _ (funext fun result => ih result)

theorem combinePath_ok {documents : List Metadata} {r : Metadata} :
    combinePath documents = .ok r ↔ kinds.dictionaries.path documents = some r := by
  rw [← combinePath_toOption]
  cases combinePath documents with
  | ok a => simp [Except.toOption]
  | error e => simp [Except.toOption]

theorem combinePath_concat (documents : List Metadata) (document : Metadata) :
    combinePath (documents ++ [document]) =
      combinePath documents >>= fun result => combine result document := by
  unfold combinePath
  rw [List.foldlM_append]
  congr 1
  funext result
  rw [List.foldlM_cons]
  cases combine result document with
  | ok r => rfl
  | error e => rfl

/-- A fold fails for two kinds under one key of its documents, and for nothing else. -/
theorem combinePath_error {documents : List Metadata} {e : MetadataError}
    (h : combinePath documents = .error e) :
    ∃ key less more, e = .kinds (some key) less more ∧ Clash key less more documents documents := by
  induction documents using List.reverseRecOn with
  | nil => cases h
  | append_singleton documents document ih =>
    rw [combinePath_concat, except_bind_error] at h
    rcases h with h | ⟨r, hr, h⟩
    · obtain ⟨key, less, more, rfl, hdiffer, ⟨d, hd, hless⟩, d', hd', hmore⟩ := ih h
      exact ⟨key, less, more, rfl, hdiffer, ⟨d, List.mem_append_left _ hd, hless⟩, d',
        List.mem_append_left _ hd', hmore⟩
    · obtain ⟨key, less, more, rfl, hdiffer, ⟨d, hd, x, hx, hkind⟩, d', hd', hmore⟩ :=
        combine_error h
      rw [List.mem_singleton] at hd hd'
      subst hd hd'
      obtain ⟨d, hd, y, hy, hkind'⟩ := Kinded.exists_kind_of_path (combinePath_ok.mp hr) hx
      exact ⟨key, less, more, rfl, hdiffer, ⟨d, List.mem_append_left _ hd, y, hy, hkind'.trans hkind⟩,
        d', List.mem_append_right _ (List.mem_singleton.mpr rfl), hmore⟩

/-! ### The laws -/

/-- The documents are a partial monoid under `combine`. -/
structure CombineLaws : Prop where
  /-- Both sides are defined and equal, or neither is defined. -/
  assoc : ∀ a b c : Metadata,
    (combine a b >>= fun ab => combine ab c).toOption =
      (combine b c >>= fun bc => combine a bc).toOption
  /-- They are undefined where two of the documents have two kinds under one key. -/
  undefined : ∀ a b c : Metadata, (combine a b >>= fun ab => combine ab c).toOption = none ↔
    ∃ key less more, Clash key less more [a, b, c] [a, b, c]
  empty_combine : ∀ a : Metadata, combine emptyMetadata a = .ok a
  combine_empty : ∀ a : Metadata, combine a emptyMetadata = .ok a
  combine_self : ∀ a : Metadata, combine a a = .ok a
  /-- Either order is defined where the other is. -/
  comm_defined : ∀ a b : Metadata, (combine a b).toOption = none ↔ (combine b a).toOption = none
  /-- On keys without a policy the order does not matter. -/
  comm : ∀ a b ab ba : Metadata, combine a b = .ok ab → combine b a = .ok ba → ∀ key : Text,
    (∀ value, a.get? key ≠ some (.override value)) →
    (∀ value, b.get? key ≠ some (.override value)) → ab.get? key = ba.get? key
  /-- Folding piecewise gives what folding the whole path gives. -/
  path_append : ∀ documents documents' : List Metadata,
    (combinePath (documents ++ documents')).toOption =
      (combinePath documents >>= fun a => combinePath documents' >>= fun b => combine a b).toOption
  /-- Folding the whole path fails for two kinds that its documents have under one key. -/
  path_error : ∀ (documents : List Metadata) (e : MetadataError), combinePath documents = .error e →
    ∃ key less more, e = .kinds (some key) less more ∧ Clash key less more documents documents
  /-- And so does folding it piecewise. -/
  pieces_error : ∀ (documents documents' : List Metadata) (e : MetadataError),
    (combinePath documents >>= fun a => combinePath documents' >>= fun b => combine a b) = .error e →
    ∃ key less more, e = .kinds (some key) less more ∧
      Clash key less more (documents ++ documents') (documents ++ documents')

theorem combine_assoc (a b c : Metadata) :
    (combine a b >>= fun ab => combine ab c).toOption =
      (combine b c >>= fun bc => combine a bc).toOption := by
  rw [toOption_bind, toOption_bind, combine_toOption, combine_toOption]
  simp only [combine_toOption]
  exact kinds.dictionaries.mul_assoc a b c

/-- Some two of the documents of a fold that is undefined clash. -/
theorem combinePath_none_iff (documents : List Metadata) :
    (combinePath documents).toOption = none ↔
      ∃ key less more, Clash key less more documents documents := by
  constructor
  · intro hnone
    cases h : combinePath documents with
    | ok r =>
      rw [h] at hnone
      cases hnone
    | error e =>
      obtain ⟨key, less, more, -, hclash⟩ := combinePath_error h
      exact ⟨key, less, more, hclash⟩
  · rintro ⟨key, less, more, hdiffer, ⟨d, hd, x, hx, rfl⟩, d', hd', y, hy, rfl⟩
    rw [combinePath_toOption, ← Option.not_isSome_iff_eq_none,
      Kinded.dictionaries_separated.path_isSome_iff]
    intro hpairs
    have hsame : documents.Pairwise kinds.SameKinds :=
      hpairs.imp fun h => Kinded.dictionaries_compatible.mp h
    -- To have the same kinds is symmetric and reflexive, so that any two of the documents do.
    have hsymm : Std.Symm (kinds.SameKinds (κ := Text)) := ⟨fun _ _ => Kinded.SameKinds.symm⟩
    have hall := hsame.forall_of_forall (fun a _ => Kinded.SameKinds.refl a) hd hd'
    exact hdiffer (hall key x y hx hy)

theorem combinePath_three (a b c : Metadata) :
    combinePath [a, b, c] = combine a b >>= fun ab => combine ab c := by
  have hfirst : combine emptyMetadata a = .ok a :=
    combine_ok.mpr ⟨Kinded.empty_sameKinds a, (Dict.empty_merge a).symm⟩
  unfold combinePath
  rw [List.foldlM_cons, hfirst]
  show (combine a b >>= fun ab => combine ab c >>= fun abc => Except.ok abc) = _
  congr 1
  funext ab
  cases combine ab c with
  | ok abc => rfl
  | error e => rfl

theorem combine_self (a : Metadata) : combine a a = .ok a := by
  refine combine_ok.mpr ⟨Kinded.SameKinds.refl a, Dict.ext_get? ?_ fun key => ?_⟩
  · rw [Dict.keys_merge, List.filter_eq_nil_iff.mpr (by simp), List.append_nil]
  · rw [Dict.get?_merge]
    cases a.get? key with
    | none => rfl
    | some x => exact congrArg some (join_self x).symm

theorem combine_defined_comm (a b : Metadata) :
    (combine a b).toOption = none ↔ (combine b a).toOption = none := by
  have hiff : ∀ a b : Metadata, (combine a b).toOption = none ↔ ¬ kinds.SameKinds a b := by
    intro a b
    rw [combine_toOption, ← Option.not_isSome_iff_eq_none]
    exact not_congr Kinded.dictionaries_compatible
  rw [hiff, hiff]
  exact not_congr ⟨Kinded.SameKinds.symm, Kinded.SameKinds.symm⟩

theorem combine_comm {a b ab ba : Metadata} (hab : combine a b = .ok ab) (hba : combine b a = .ok ba)
    {key : Text} (ha : ∀ value, a.get? key ≠ some (.override value)) :
    ab.get? key = ba.get? key := by
  obtain ⟨hkinds, rfl⟩ := combine_ok.mp hab
  obtain ⟨-, rfl⟩ := combine_ok.mp hba
  rw [Dict.get?_merge, Dict.get?_merge]
  cases hx : a.get? key with
  | none => cases b.get? key <;> rfl
  | some x =>
    cases hy : b.get? key with
    | none => rfl
    | some y =>
      refine congrArg some (join_comm (hkinds key x y hx hy) fun hkind => ?_)
      cases x with
      | tags values => cases hkind
      | bitmask bits => cases hkind
      | override value => exact ha value hx

theorem combinePath_append (documents documents' : List Metadata) :
    (combinePath (documents ++ documents')).toOption =
      (combinePath documents >>= fun a => combinePath documents' >>= fun b =>
        combine a b).toOption := by
  rw [combinePath_toOption, PartialMonoid.path_append, toOption_bind, combinePath_toOption]
  congr 1
  funext a
  rw [toOption_bind, combinePath_toOption]
  congr 1
  funext b
  rw [combine_toOption]

/-- The failure of a piecewise fold. -/
theorem combinePath_pieces_error {documents documents' : List Metadata} {e : MetadataError}
    (h : (combinePath documents >>= fun a => combinePath documents' >>= fun b => combine a b) =
      .error e) :
    ∃ key less more, e = .kinds (some key) less more ∧
      Clash key less more (documents ++ documents') (documents ++ documents') := by
  rcases except_bind_error.mp h with h | ⟨a, ha, h⟩
  · obtain ⟨key, less, more, rfl, hdiffer, ⟨d, hd, hless⟩, d', hd', hmore⟩ := combinePath_error h
    exact ⟨key, less, more, rfl, hdiffer, ⟨d, List.mem_append_left _ hd, hless⟩, d',
      List.mem_append_left _ hd', hmore⟩
  · rcases except_bind_error.mp h with h | ⟨b, hb, h⟩
    · obtain ⟨key, less, more, rfl, hdiffer, ⟨d, hd, hless⟩, d', hd', hmore⟩ := combinePath_error h
      exact ⟨key, less, more, rfl, hdiffer, ⟨d, List.mem_append_right _ hd, hless⟩, d',
        List.mem_append_right _ hd', hmore⟩
    · obtain ⟨key, less, more, rfl, hdiffer, ⟨d, hd, x, hx, hless⟩, d', hd', y, hy, hmore⟩ :=
        combine_error h
      rw [List.mem_singleton] at hd hd'
      subst hd hd'
      obtain ⟨d, hd, x', hx', hkind⟩ := Kinded.exists_kind_of_path (combinePath_ok.mp ha) hx
      obtain ⟨d', hd', y', hy', hkind'⟩ := Kinded.exists_kind_of_path (combinePath_ok.mp hb) hy
      exact ⟨key, less, more, rfl, hdiffer,
        ⟨d, List.mem_append_left _ hd, x', hx', hkind.trans hless⟩, d',
        List.mem_append_right _ hd', y', hy', hkind'.trans hmore⟩

/-- **The metadata documents are a partial monoid.** -/
theorem combine_laws : CombineLaws where
  assoc := combine_assoc
  undefined a b c := by
    rw [← combinePath_three]
    exact combinePath_none_iff [a, b, c]
  empty_combine a := combine_ok.mpr ⟨Kinded.empty_sameKinds a, (Dict.empty_merge a).symm⟩
  combine_empty a := combine_ok.mpr ⟨(Kinded.empty_sameKinds a).symm, (Dict.merge_empty a).symm⟩
  combine_self := combine_self
  comm_defined := combine_defined_comm
  comm _ _ _ _ hab hba _ ha _ := combine_comm hab hba ha
  path_append := combinePath_append
  path_error _ _ h := combinePath_error h
  pieces_error _ _ _ h := combinePath_pieces_error h

end Hammertime.Trie
