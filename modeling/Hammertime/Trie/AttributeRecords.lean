import Hammertime.Attributes.Exactness
import Hammertime.Lib.Program
import Hammertime.Trie.Agreement

/-!
# The attribute records beside the trie

`IpAttributeRecords`, `apply_hot_ip_added` and `apply_hot_ip_removed` of
`hammertime.trie.metadata.ip_attributes`: for one address family, the map from each HOT address to
the canonical text of its attribute document and its request count, and the two steps that move the
map together with the trie. A step is a program on both, so that whatever it changed before an
exception would still be there after it; the theorem at the end says that there is nothing.
-/

namespace Hammertime.Trie

open Lib Attributes

/-- What a caller passes for `request_count`. A `bool`, a subclass of `int` and a float are not an
exact `int`. -/
inductive Count where
  | int (value : ℤ)
  | other

/-- What the steps raise. -/
inductive RecordError where
  /-- `ValueError`: the trie, the records and the address must share one address family. -/
  | familiesDiffer (trie records address : AddressFamily)
  /-- `ValueError`: these records hold addresses of another family. -/
  | recordsFamily (records address : AddressFamily)
  /-- `TypeError`: `request_count must be an exact int`. -/
  | countType
  /-- `ValueError`: `request_count must be >= 0`. -/
  | countNegative
  /-- `InvalidAttributesError`. -/
  | attributes (fault : Fault)
  /-- What the trie raises. -/
  | trie (error : TrieError)

/-- `IpAttributeRecords`: the canonical text and the request count of each address, and the sum of
the texts' lengths. -/
structure IpAttributeRecords where
  family : AddressFamily
  records : Dict Address (List Char × ℤ)
  bytes : ℤ

/-- A trie and its records. -/
structure FamilyState where
  trie : PatriciaTrie
  records : IpAttributeRecords

/-- The text of `DEFAULT_ATTRIBUTES`. -/
def defaultText (format : FloatFormat) : List Char :=
  Json.text format.repr (.obj [((("attributes_version" : String) : Text), .int 1)])

/-- `_prepare`: the canonical text to store for a document; `None` selects the default. -/
def prepare (format : FloatFormat) (heap : Heap) : Value → Except Fault (List Char)
  | .none => .ok (defaultText format)
  | attributes => CanonicalAttributes.text <$> canonicalizeIpAttributes format.repr heap attributes

namespace IpAttributeRecords

variable (records : IpAttributeRecords)

/-- `_commit`: replace the whole record of an address and move the byte total. -/
def commit (address : Address) (text : List Char) (requestCount : ℤ) : IpAttributeRecords :=
  { records with
    records := records.records.set address (text, requestCount)
    bytes := records.bytes + ((text.length : ℤ) -
      match records.records.get? address with
      | none => 0
      | some previous => (previous.1.length : ℤ)) }

/-- `discard`, once the family is checked. -/
def discard (address : Address) : IpAttributeRecords :=
  match records.records.get? address with
  | none => records
  | some removed =>
    { records with
      records := records.records.erase address
      bytes := records.bytes - removed.1.length }

end IpAttributeRecords

namespace FamilyState

/-- `_check_families`. -/
def checkFamilies (address : Address) : Program RecordError FamilyState PUnit := fun s =>
  if s.trie.family = s.records.family ∧ s.records.family = address.family then .ok ⟨⟩ s
  else .error (.familiesDiffer s.trie.family s.records.family address.family) s

/-- `_check_request_count`. -/
def checkRequestCount : Count → Program RecordError FamilyState ℤ
  | .int n => if n < 0 then throw .countNegative else pure n
  | .other => throw .countType

/-- A call of the trie that returns an answer and changes it. -/
def callTrie (f : PatriciaTrie → Except TrieError (Bool × PatriciaTrie)) :
    Program RecordError FamilyState Bool := fun s =>
  match f s.trie with
  | .ok (answer, trie) => .ok answer { s with trie }
  | .error e => .error (.trie e) s

/-- `apply_hot_ip_added`: validate, then the trie, then the record. -/
def applyHotIpAdded (format : FloatFormat) (heap : Heap) (address : Address) (attributes : Value)
    (requestCount : Count) : Program RecordError FamilyState Bool := do
  checkFamilies address
  let count ← checkRequestCount requestCount
  match prepare format heap attributes with
  | .error fault => throw (.attributes fault)
  | .ok prepared =>
    let changed ← callTrie (·.addHotIp address)
    modify fun s => { s with records := s.records.commit address prepared count }
    pure changed

/-- `apply_hot_ip_removed`: the trie, then the record, whatever the trie answered. -/
def applyHotIpRemoved (address : Address) : Program RecordError FamilyState Bool := do
  checkFamilies address
  let changed ← callTrie (·.removeHotIp address)
  let s ← get
  if s.records.family = address.family then
    set { s with records := s.records.discard address }
    pure changed
  else throw (.recordsFamily s.records.family address.family)

/-- `PatriciaTrie(family)` and `IpAttributeRecords(family)`. -/
def new (family : AddressFamily) : FamilyState := ⟨PatriciaTrie.new family, ⟨family, .empty, 0⟩⟩

end FamilyState

/-- A call of one of the two steps. A document is given with the heap it lives in. -/
inductive ApplyCall where
  | added (heap : Heap) (address : Address) (attributes : Value) (requestCount : Count)
  | removed (address : Address)

namespace ApplyCall

/-- Make the call. -/
def perform (format : FloatFormat) : ApplyCall → Program RecordError FamilyState Bool
  | added heap address attributes requestCount =>
    FamilyState.applyHotIpAdded format heap address attributes requestCount
  | removed address => FamilyState.applyHotIpRemoved address

/-- The state after the calls of a list, whether each returned or raised. -/
def run (format : FloatFormat) (family : AddressFamily) (calls : List ApplyCall) : FamilyState :=
  calls.foldl (fun s call => Program.after (call.perform format s)) (.new family)

/-! ### What the records should be -/

/-- An `apply_hot_ip_added` is accepted when the address is of the family, the count is an `int` that
is not negative, and the document is `None` or valid. The answer is what it records. -/
def accepted (format : FloatFormat) (family : AddressFamily) (heap : Heap) (address : Address)
    (attributes : Value) : Count → Option (List Char × ℤ)
  | .other => none
  | .int count =>
    if address.family = family ∧ 0 ≤ count then
      match prepare format heap attributes with
      | .error _ => none
      | .ok text => some (text, count)
    else none

/-- What one call makes of the records: an accepted addition replaces the address's record, a
removal of an address of the family ends it, and everything else leaves them. -/
def expect (format : FloatFormat) (family : AddressFamily)
    (records : Address → Option (List Char × ℤ)) : ApplyCall → Address → Option (List Char × ℤ)
  | added heap address attributes requestCount =>
    match accepted format family heap address attributes requestCount with
    | none => records
    | some record => fun a => if a = address then some record else records a
  | removed address => fun a => if a = address ∧ address.family = family then none else records a

/-- For each address, what the most recent accepted addition since its last removal recorded. -/
def expected (format : FloatFormat) (family : AddressFamily) (calls : List ApplyCall) :
    Address → Option (List Char × ℤ) :=
  calls.foldl (expect format family) fun _ => none

end ApplyCall

/-! ### The default document -/

/-- The default document passes its own check, and its text is the one stored. -/
theorem canonicalize_default (format : FloatFormat) {heap : Heap} {id : ℕ}
    (hheap : heap id = .dict [(.str (("attributes_version" : String) : Text), .int 1)]) :
    canonicalizeIpAttributes format.repr heap (.container id) =
      .ok ⟨[((("attributes_version" : String) : Text), .int 1)], defaultText format⟩ := by
  have hbound : (1 : ℤ) < s8Bound := one_lt_pow₀ (by norm_num) (by norm_num)
  have hlength : (defaultText format).length = 24 := rfl
  refine ((canonicalize_exact format heap _).1 _).mpr
    ⟨[((("attributes_version" : String) : Text), .int 1)], ?_, ⟨by decide, ?_, ?_, ?_⟩, rfl⟩
  · exact unfolds_obj.mpr ⟨id, _, rfl, hheap, .cons ⟨rfl, rfl⟩ .nil⟩
  · refine wellFormed_obj.mpr ⟨List.nodup_singleton _, fun p hp => ?_⟩
    rw [List.mem_singleton] at hp
    rw [hp]
    exact ⟨Text.ofString_not_hasSurrogate _, by linarith, hbound⟩
  · show (defaultText format).length ≤ maxBytes
    rw [hlength]
    decide
  · refine ⟨.int 1, 1, rfl, rfl, le_refl _, fun _ => ⟨fun p hp => ?_, fun weight h => ?_⟩⟩
    · rw [List.mem_singleton] at hp
      rw [hp]
      rfl
    · have hnone : Dict.lookup (("weight" : String) : Text)
          [((("attributes_version" : String) : Text), Json.int 1)] = none := if_neg (by decide)
      rw [hnone] at h
      cases h

/-! ### Sums over records -/

/-- The sum of the lengths of the stored texts. -/
def textBytes (items : List (Address × (List Char × ℤ))) : ℤ :=
  (items.map fun p => (p.2.1.length : ℤ)).sum

theorem textBytes_write (a : Address) (record : List Char × ℤ)
    (items : List (Address × (List Char × ℤ))) :
    textBytes (Dict.write a record items) = textBytes items + ((record.1.length : ℤ) -
      match Dict.lookup a items with
      | none => 0
      | some previous => (previous.1.length : ℤ)) := by
  induction items with
  | nil => simp [Dict.write, Dict.lookup, textBytes]
  | cons p rest ih =>
    by_cases hp : p.1 = a
    · simp only [Dict.write, Dict.lookup, if_pos hp, textBytes, List.map_cons, List.sum_cons]
      ring
    · simp only [Dict.write, Dict.lookup, if_neg hp, textBytes, List.map_cons, List.sum_cons] at ih ⊢
      rw [ih]
      ring

theorem textBytes_erase {d : Dict Address (List Char × ℤ)} {a : Address} {record : List Char × ℤ}
    (h : d.get? a = some record) :
    textBytes (d.erase a).items = textBytes d.items - record.1.length := by
  obtain ⟨items, hnodup⟩ := d
  show textBytes (items.filter fun p => p.1 ≠ a) = textBytes items - _
  replace h : Dict.lookup a items = some record := h
  induction items with
  | nil => cases h
  | cons p rest ih =>
    obtain ⟨hp, hrest⟩ := List.nodup_cons.mp hnodup
    by_cases ha : p.1 = a
    · -- The key is the head's, so the rest stays as it is.
      rw [Dict.lookup, if_pos ha] at h
      cases h
      have hfilter : rest.filter (fun q => q.1 ≠ a) = rest := by
        refine List.filter_eq_self.mpr fun q hq => ?_
        simp only [ne_eq, decide_not, Bool.not_eq_eq_eq_not, Bool.not_true, decide_eq_false_iff_not]
        intro hqa
        exact hp (ha ▸ hqa ▸ List.mem_map_of_mem hq)
      rw [List.filter_cons_of_neg (by simpa using ha), hfilter]
      simp only [textBytes, List.map_cons, List.sum_cons]
      ring
    · rw [Dict.lookup, if_neg ha] at h
      rw [List.filter_cons_of_pos (by simpa using ha)]
      simp only [textBytes, List.map_cons, List.sum_cons] at ih ⊢
      rw [ih hrest h]
      ring

/-! ### The trie and the records in step -/

/-- The trie's HOT addresses are the records' keys, the records are the expected ones, and the byte
total is theirs. -/
structure InStep (family : AddressFamily) (expected : Address → Option (List Char × ℤ))
    (s : FamilyState) : Prop where
  represents : s.trie.Represents family s.records.records.keys.toFinset
  family : s.records.family = family
  records : ∀ a, s.records.records.get? a = expected a
  bytes : s.records.bytes = textBytes s.records.records.items

variable {format : FloatFormat} {family : AddressFamily}
  {expected : Address → Option (List Char × ℤ)} {s : FamilyState}

theorem inStep_new (family : AddressFamily) : InStep family (fun _ => none) (.new family) :=
  ⟨PatriciaTrie.represents_new family, rfl, fun _ => rfl, rfl⟩

/-- The check of the families passes exactly for an address of the family. -/
theorem InStep.checkFamilies (h : InStep family expected s) (address : Address) :
    FamilyState.checkFamilies address s =
      if address.family = family then .ok ⟨⟩ s
      else .error (.familiesDiffer family family address.family) s := by
  have htrie : s.trie.family = family := h.represents.1
  unfold FamilyState.checkFamilies
  rw [htrie, h.family]
  by_cases hf : address.family = family
  · rw [if_pos ⟨rfl, hf.symm⟩, if_pos hf]
  · rw [if_neg fun hc => hf hc.2.symm, if_neg hf]

theorem keys_set_toFinset (d : Dict Address (List Char × ℤ)) (a : Address)
    (record : List Char × ℤ) : (d.set a record).keys.toFinset = insert a d.keys.toFinset := by
  ext x
  simp only [List.mem_toFinset, Finset.mem_insert, Dict.mem_keys_iff, Dict.get?_set]
  by_cases hx : a = x
  · simp [hx]
  · simp [hx, Ne.symm hx]

theorem keys_discard_toFinset (records : IpAttributeRecords) (a : Address) :
    (records.discard a).records.keys.toFinset = records.records.keys.toFinset.erase a := by
  unfold IpAttributeRecords.discard
  cases h : records.records.get? a with
  | none =>
    have hnot : a ∉ records.records.keys.toFinset := by
      rw [List.mem_toFinset]
      exact Dict.get?_eq_none_iff.mp h
    exact (Finset.erase_eq_of_notMem hnot).symm
  | some record =>
    ext x
    simp only [List.mem_toFinset, Finset.mem_erase, Dict.mem_keys_iff, Dict.get?_erase]
    by_cases hx : a = x
    · simp [hx]
    · simp [hx, Ne.symm hx]

theorem get?_discard (records : IpAttributeRecords) (a x : Address) :
    (records.discard a).records.get? x = if a = x then none else records.records.get? x := by
  unfold IpAttributeRecords.discard
  cases h : records.records.get? a with
  | none =>
    by_cases hx : a = x
    · rw [if_pos hx, ← hx]
      exact h
    · rw [if_neg hx]
  | some record => exact Dict.get?_erase _ _ _

/-- An accepted addition moves the trie and the records together. -/
theorem InStep.commit (h : InStep family expected s) {address : Address}
    (hfamily : address.family = family) (record : List Char × ℤ) :
    ∃ changed trie, s.trie.addHotIp address = .ok (changed, trie) ∧
      InStep family (fun a => if a = address then some record else expected a)
        ⟨trie, s.records.commit address record.1 record.2⟩ := by
  obtain ⟨trie, hadd, hrep⟩ := h.represents.addHotIp hfamily
  refine ⟨_, trie, hadd, ?_, h.family, fun a => ?_, ?_⟩
  · show trie.Represents family (s.records.records.set address record).keys.toFinset
    rw [keys_set_toFinset]
    exact hrep
  · show (s.records.records.set address record).get? a = _
    rw [Dict.get?_set, h.records]
    by_cases ha : address = a
    · rw [if_pos ha, if_pos ha.symm]
    · rw [if_neg ha, if_neg (Ne.symm ha)]
  · show s.records.bytes + _ = textBytes (Dict.write address record s.records.records.items)
    rw [textBytes_write, h.bytes]
    rfl

/-- What an addition does: an accepted one commits, any other raises and changes nothing. -/
theorem InStep.added (h : InStep family expected s) (format : FloatFormat) (heap : Heap)
    (address : Address) (attributes : Value) (requestCount : Count) :
    match ApplyCall.accepted format family heap address attributes requestCount with
    | none => ∃ e, FamilyState.applyHotIpAdded format heap address attributes requestCount s =
        .error e s
    | some record => ∃ changed s',
        FamilyState.applyHotIpAdded format heap address attributes requestCount s =
          .ok changed s' ∧
        InStep family (fun a => if a = address then some record else expected a) s' := by
  unfold FamilyState.applyHotIpAdded
  simp only [Program.bind_apply, h.checkFamilies]
  cases requestCount with
  | other =>
    by_cases hf : address.family = family
    · rw [if_pos hf]
      exact ⟨.countType, rfl⟩
    · rw [if_neg hf]
      exact ⟨_, rfl⟩
  | int count =>
    by_cases hf : address.family = family
    · by_cases hneg : count < 0
      · have haccepted : ApplyCall.accepted format family heap address attributes (.int count) =
            none := if_neg fun hc => absurd hc.2 (not_le.mpr hneg)
        rw [haccepted, if_pos hf]
        refine ⟨.countNegative, ?_⟩
        simp [FamilyState.checkRequestCount, hneg, Program.throw_apply]
      · have hcheck : FamilyState.checkRequestCount (.int count) s = .ok count s := by
          simp [FamilyState.checkRequestCount, hneg, Program.pure_apply]
        rw [if_pos hf]
        simp only [ApplyCall.accepted, if_pos (show address.family = family ∧ 0 ≤ count from
          ⟨hf, not_lt.mp hneg⟩), hcheck]
        cases hprepare : prepare format heap attributes with
        | error fault => exact ⟨_, rfl⟩
        | ok text =>
          obtain ⟨changed, trie, hadd, hin⟩ := h.commit hf (text, count)
          refine ⟨changed, _, ?_, hin⟩
          dsimp only
          refine Program.bind_ok.mpr ⟨changed, { s with trie }, ?_, rfl⟩
          simp [FamilyState.callTrie, hadd]
    · have haccepted : ApplyCall.accepted format family heap address attributes (.int count) =
          none := if_neg fun hc => hf hc.1
      rw [haccepted, if_neg hf]
      exact ⟨_, rfl⟩

/-- What a removal does: one of an address of the family drops it from both, any other raises and
changes nothing. -/
theorem InStep.removed (h : InStep family expected s) (address : Address) :
    if address.family = family then ∃ changed s',
      FamilyState.applyHotIpRemoved address s = .ok changed s' ∧
        InStep family (fun a => if a = address then none else expected a) s'
    else ∃ e, FamilyState.applyHotIpRemoved address s = .error e s := by
  have hcheck := h.checkFamilies address
  by_cases hf : address.family = family
  · rw [if_pos hf] at hcheck ⊢
    obtain ⟨trie, hremove, hrep⟩ := h.represents.removeHotIp hf
    have hcall : FamilyState.callTrie (·.removeHotIp address) s =
        .ok (decide (address ∈ s.records.records.keys.toFinset)) { s with trie } := by
      simp [FamilyState.callTrie, hremove]
    refine ⟨decide (address ∈ s.records.records.keys.toFinset),
      ⟨trie, s.records.discard address⟩, ?_, ?_, ?_, fun a => ?_, ?_⟩
    · refine Program.bind_ok.mpr ⟨_, _, hcheck, Program.bind_ok.mpr ⟨_, _, hcall, ?_⟩⟩
      refine Program.bind_ok.mpr ⟨_, _, rfl, ?_⟩
      rw [if_pos (h.family.trans hf.symm)]
      rfl
    · show trie.Represents family (s.records.discard address).records.keys.toFinset
      rw [keys_discard_toFinset]
      exact hrep
    · show (s.records.discard address).family = family
      unfold IpAttributeRecords.discard
      split <;> exact h.family
    · show (s.records.discard address).records.get? a = _
      rw [get?_discard, h.records]
      by_cases ha : address = a
      · rw [if_pos ha, if_pos ha.symm]
      · rw [if_neg ha, if_neg (Ne.symm ha)]
    · show (s.records.discard address).bytes = textBytes (s.records.discard address).records.items
      unfold IpAttributeRecords.discard
      cases hget : s.records.records.get? address with
      | none => exact h.bytes
      | some record =>
        show s.records.bytes - _ = textBytes (s.records.records.erase address).items
        rw [textBytes_erase hget, h.bytes]
  · rw [if_neg hf] at hcheck ⊢
    exact ⟨_, Program.bind_error.mpr (Or.inl hcheck)⟩

/-- One call keeps the trie and the records in step, and changes nothing when it raises. -/
theorem InStep.perform (h : InStep family expected s) (call : ApplyCall) :
    InStep family (call.expect format family expected) (Program.after (call.perform format s)) ∧
      ∀ e s', call.perform format s = .error e s' → s' = s := by
  -- A call that raises leaves the state, and is expected to leave the records.
  have hraised : ∀ e, call.perform format s = .error e s →
      call.expect format family expected = expected →
      InStep family (call.expect format family expected) (Program.after (call.perform format s)) ∧
        ∀ e s', call.perform format s = .error e s' → s' = s := by
    intro e hrun hexpect
    rw [hrun, hexpect]
    exact ⟨h, fun e' s' heq => by cases heq; rfl⟩
  have hreturned : ∀ changed s', call.perform format s = .ok changed s' →
      InStep family (call.expect format family expected) s' →
      InStep family (call.expect format family expected) (Program.after (call.perform format s)) ∧
        ∀ e s', call.perform format s = .error e s' → s' = s := by
    intro changed s' hrun hin
    rw [hrun]
    exact ⟨hin, fun e' s'' heq => by cases heq⟩
  cases call with
  | added heap address attributes requestCount =>
    have hadded := h.added format heap address attributes requestCount
    cases haccepted : ApplyCall.accepted format family heap address attributes requestCount with
    | none =>
      rw [haccepted] at hadded
      obtain ⟨e, hrun⟩ := hadded
      exact hraised e hrun (by simp [ApplyCall.expect, haccepted])
    | some record =>
      rw [haccepted] at hadded
      obtain ⟨changed, s', hrun, hin⟩ := hadded
      exact hreturned changed s' hrun (by simpa [ApplyCall.expect, haccepted] using hin)
  | removed address =>
    have hremoved := h.removed address
    by_cases hf : address.family = family
    · rw [if_pos hf] at hremoved
      obtain ⟨changed, s', hrun, hin⟩ := hremoved
      exact hreturned changed s' hrun (by simpa [ApplyCall.expect, hf] using hin)
    · rw [if_neg hf] at hremoved
      obtain ⟨e, hrun⟩ := hremoved
      exact hraised e hrun (by simp [ApplyCall.expect, hf])

/-- Every run of calls keeps them in step. -/
theorem inStep_run (format : FloatFormat) (family : AddressFamily) (calls : List ApplyCall) :
    InStep family (ApplyCall.expected format family calls) (ApplyCall.run format family calls) := by
  induction calls using List.reverseRecOn with
  | nil => exact inStep_new family
  | append_singleton calls call ih =>
    rw [ApplyCall.expected, ApplyCall.run, List.foldl_append, List.foldl_append]
    exact (ih.perform call).1

/-- The trie and the attribute records stay in step: after every run of the two steps from empty, the
record keys are the trie's HOT addresses, each record is what the most recent accepted addition of
its address since it last became HOT recorded, the byte total is the sum of the stored texts'
lengths, and a further call that raises changes nothing. -/
theorem records_in_step (format : FloatFormat) (family : AddressFamily) (calls : List ApplyCall) :
    (∃ hot, (ApplyCall.run format family calls).trie.iterHotAddresses = .ok hot ∧
      ∀ a, a ∈ hot ↔ a ∈ (ApplyCall.run format family calls).records.records.keys) ∧
    (∀ a, (ApplyCall.run format family calls).records.records.get? a =
      ApplyCall.expected format family calls a) ∧
    (ApplyCall.run format family calls).records.bytes =
      textBytes (ApplyCall.run format family calls).records.records.items ∧
    ∀ (call : ApplyCall) e s', call.perform format (ApplyCall.run format family calls) =
      .error e s' → s' = ApplyCall.run format family calls := by
  have h := inStep_run format family calls
  obtain ⟨hot, hlist, -, hmem⟩ := h.represents.iterHotAddresses
  refine ⟨⟨hot, hlist, fun a => ?_⟩, h.records, h.bytes, fun call => (h.perform call).2⟩
  rw [hmem, List.mem_toFinset]

end Hammertime.Trie
