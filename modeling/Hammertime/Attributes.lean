import Mathlib.Data.Nat.Size
import Hammertime.Lib.Dict
import Hammertime.Lib.Json
import Hammertime.Lib.Program

/-!
# The attribute document's rules

`canonicalize_ip_attributes` of `hammertime.core.events.attributes`: one read of a document into a
canonical copy, the rules on that copy, and its compact text.

A document is an object of Python's heap, with any sharing and any cycles. A container is known by
its identity; every other value by what it is, since the reader never looks at its identity. A
subclass of a built-in type is read through the base type's own functions, so it is that type here.
The reader is the source's loop over an explicit stack. A copy is built as a value and put into its
parent once it is complete, where the source fills it in place: the parent is not looked at in
between. A copy that takes the place of a container met again is a tree, so it needs no identity:
it cannot be on the path, and a copy of it has its content.

The interpreter's recursion limit, which only a caller at the edge of the stack can meet in
`json.dumps`, is left out.
-/

namespace Hammertime.Attributes

open Lib

/-- `_MAX_BYTES`. -/
def maxBytes : ℕ := 1024

/-- `_MAX_KEYS`. -/
def maxKeys : ℕ := 16

/-- `_MAX_WEIGHT`. -/
def maxWeight : ℤ := 1000000

/-- `_KNOWN_VERSION`. -/
def knownVersion : ℤ := 1

/-- `_REGISTERED_KEYS`. -/
def registeredKeys : List Text :=
  [("attributes_version" : String), ("weight" : String)]

/-- `_S8_BOUND`. -/
def s8Bound : ℤ := 10 ^ 640

/-- `_LOG10_2_FLOOR`. -/
def log10TwoFloor : ℕ := 30102

/-- `_QUOTED_KEY_CHARS`. -/
def quotedKeyChars : ℕ := 64

/-! ### Rejections -/

/-- `InvalidAttributesError`, by the rule that was broken. `top` is the top-level key the fault is
under. -/
inductive Fault where
  | notAnObject (kind : String)
  | tooManyKeys (count : ℕ)
  | keyNotString (top : Option Text)
  | keySurrogate (top : Option Text)
  | duplicateKey (key : Text) (top : Option Text)
  | tooLarge (top : Option Text)
  | valueSurrogate (top : Text)
  | integerTooLong (top : Text)
  | nonFinite (top : Text)
  | selfReference (top : Text)
  | notJson (top : Text)
  | versionMissing
  | versionInvalid
  | unregisteredKey (key : Text)
  | weightInvalid
  | serializedTooLarge (size : ℕ)

/-- A rejection under S6. -/
def Fault.IsSize : Fault → Prop
  | .tooLarge _ => True
  | .serializedTooLarge _ => True
  | _ => False

/-- `_quote`, with `repr` for the `repr` of a string. -/
def quoted (repr : Text → String) (key : Text) : String :=
  repr (key.take quotedKeyChars) ++ if quotedKeyChars < key.length then "..." else ""

/-- `_under`. -/
def under (repr : Text → String) : Option Text → String
  | none => ""
  | some top => " under key " ++ quoted repr top

/-- The text of a rejection. -/
def Fault.message (repr : Text → String) : Fault → String
  | .notAnObject kind => s!"attributes must be a JSON object, got {kind}"
  | .tooManyKeys count => s!"attributes has {count} keys, more than the maximum of {maxKeys}"
  | .keyNotString top => "attributes has a key that is not a string" ++ under repr top
  | .keySurrogate top =>
    "attributes has a key holding an unpaired UTF-16 surrogate" ++ under repr top
  | .duplicateKey key top => "attributes has two keys spelt " ++ quoted repr key ++ under repr top
  | .tooLarge top => s!"attributes is more than {maxBytes} bytes serialized" ++ under repr top
  | .valueSurrogate top =>
    "attributes has a string value holding an unpaired UTF-16 surrogate" ++ under repr (some top)
  | .integerTooLong top =>
    "attributes contains an integer of more than 640 digits" ++ under repr (some top)
  | .nonFinite top =>
    "attributes contains a non-finite number" ++ under repr (some top) ++ ", not valid JSON"
  | .selfReference top => "attributes refers to itself" ++ under repr (some top)
  | .notJson top =>
    "attributes contains a value" ++ under repr (some top) ++ " that is not in the JSON data model"
  | .versionMissing => "attributes is missing the required attributes_version"
  | .versionInvalid => "attributes_version must be a JSON integer >= 1"
  | .unregisteredKey key =>
    "attributes has unregistered key " ++ quoted repr key ++
      ": must be one of ['attributes_version', 'weight'] or match ^x_[a-z0-9_]\x7b1,48\x7d$"
  | .weightInvalid => s!"weight must be a JSON integer in [0, {maxWeight}]"
  | .serializedTooLarge size =>
    s!"attributes is {size} bytes serialized, more than the maximum of {maxBytes}"

/-! ### Documents -/

/-- A Python value. A `dict` or a `list` is its identity. -/
inductive Value where
  | none
  | bool (value : Bool)
  | str (text : Text)
  | int (value : ℤ)
  | float (value : Float64)
  | container (id : ℕ)
  | foreign

/-- What the object with an identity holds. -/
inductive Container where
  | list (items : List Value)
  | dict (entries : List (Value × Value))

/-- The objects of the heap, by identity. -/
abbrev Heap := ℕ → Container

/-- What a frame reads: a value of the heap, or a part of a copy built before. -/
inductive Raw where
  | value (value : Value)
  | copy (json : Json)

/-- A container's entries as `list.__iter__` or `dict.items` yields them. -/
inductive Entries where
  | list (items : List Raw)
  | dict (entries : List (Raw × Raw))

/-- A copy of a container. -/
inductive Target where
  | list (items : List Json)
  | dict (fields : List (Text × Json))

/-- The entries of a container of the heap. -/
def Container.entries : Container → Entries
  | .list items => .list (items.map .value)
  | .dict entries => .dict (entries.map fun e => (.value e.1, .value e.2))

namespace Target

/-- The entries of a copy. -/
def entries : Target → Entries
  | .list items => .list (items.map .copy)
  | .dict fields => .dict (fields.map fun p => (.copy (.str p.1), .copy p.2))

/-- The copy as a JSON value. -/
def json : Target → Json
  | .list items => .arr items
  | .dict fields => .obj fields

/-- The fields of a copied `dict`. The root of a document is one. -/
def fields : Target → List (Text × Json)
  | .list _ => []
  | .dict fields => fields

end Target

/-- `_list_minimum`. -/
def listMinimum (count : ℕ) : ℕ := if count = 0 then 2 else 2 * count + 1

/-- `_dict_minimum`. -/
def dictMinimum (count : ℕ) : ℕ := if count = 0 then 2 else 5 * count + 1

namespace Entries

/-- `list.__len__` or `dict.__len__`. -/
def length : Entries → ℕ
  | .list items => items.length
  | .dict entries => entries.length

/-- The smallest compact encoding of so many entries. -/
def minimum : Entries → ℕ
  | .list items => listMinimum items.length
  | .dict entries => dictMinimum entries.length

end Entries

/-- What a value is, by its type. A container comes with its identity, a copy has none. -/
inductive View where
  | null
  | bool (value : Bool)
  | str (text : Text)
  | int (value : ℤ)
  | float (value : Float64)
  | container (entries : Entries) (id : Option ℕ)
  | foreign

/-- What the reader sees of a value. -/
def Raw.view (heap : Heap) : Raw → View
  | .value .none => .null
  | .value (.bool b) => .bool b
  | .value (.str t) => .str t
  | .value (.int n) => .int n
  | .value (.float f) => .float f
  | .value (.container id) => .container (heap id).entries (some id)
  | .value .foreign => .foreign
  | .copy .null => .null
  | .copy (.bool b) => .bool b
  | .copy (.int n) => .int n
  | .copy (.float f) => .float f
  | .copy (.str t) => .str t
  | .copy (.arr items) => .container (Target.list items).entries none
  | .copy (.obj fields) => .container (Target.dict fields).entries none

/-! ### The reader -/

/-- A container being copied: the entries still to read, and the copy so far. -/
inductive Progress where
  | list (rest : List Raw) (target : List Json)
  | dict (rest : List (Raw × Raw)) (target : List (Text × Json))

namespace Progress

/-- How many entries are still to read. -/
def remaining : Progress → ℕ
  | .list rest _ => rest.length
  | .dict rest _ => rest.length

/-- The copy so far. -/
def target : Progress → Target
  | .list _ target => .list target
  | .dict _ target => .dict target

/-- Add a value to the copy, under `key` in a `dict`. -/
def put (key : Text) (value : Json) : Progress → Progress
  | .list rest target => .list rest (target ++ [value])
  | .dict rest target => .dict rest (target ++ [(key, value)])

end Progress

/-- Nothing of the entries read yet. -/
def Entries.start : Entries → Progress
  | .list items => .list items []
  | .dict entries => .dict entries []

/-- `_Frame`, with the key under which the copy goes into the frame below. -/
structure Frame where
  progress : Progress
  /-- The copied top-level key this container sits under; none for the root. -/
  top : Option Text
  sourceId : Option ℕ
  slot : Text

/-- `_Reader` with the loop's stack and path. -/
structure Reader where
  /-- A lower bound on the compact size of the document. -/
  total : ℕ
  /-- The copy of each container read in full, by identity. -/
  readInFull : Dict ℕ Target
  stack : List Frame
  onPath : Finset ℕ

namespace Reader

variable (repr : Float64 → List Char) (heap : Heap) (r : Reader)

/-- The reader with its bound raised. -/
def charged (amount : ℕ) : Reader := { r with total := r.total + amount }

/-- `_charge`: raise the running lower bound, and reject under S6 once it passes the cap. -/
def charge (amount : ℕ) (top : Option Text) : Except Fault Reader :=
  if maxBytes < r.total + amount then .error (.tooLarge top)
  else .ok (r.charged amount)

/-- The charge for the sign of a number. -/
def chargeSign (n : ℤ) (top : Option Text) : Except Fault Reader :=
  if n < 0 then r.charge 1 top else .ok r

/-- `_key`. The container's minimum counted this key as an empty string. -/
def key (raw : Raw) (top : Option Text) : Except Fault (Text × Reader) :=
  match raw.view heap with
  | .str t => do
    let r ← r.charge t.length top
    if t.HasSurrogate then .error (.keySurrogate top)
    else pure (t, r)
  | _ => .error (.keyNotString top)

/-- `_container`: the entries to read for a container and the identity they are read under. One on
the path is a cycle; of one read in full the copy is read. -/
def container (entries : Entries) (id : Option ℕ) (top : Text) :
    Except Fault (Entries × Option ℕ) :=
  match id with
  | none => .ok (entries, none)
  | some id =>
    if id ∈ r.onPath then .error (.selfReference top)
    else
      match r.readInFull.get? id with
      | none => .ok (entries, some id)
      | some copy => .ok (copy.entries, none)

/-- What `_value` makes of a value: its copy, or the container that is to be read. -/
inductive Found where
  | leaf (copy : Json)
  | child (entries : Entries) (id : Option ℕ)

/-- `_value`: copy one value. The enclosing container's minimum counted it at one byte; each branch
charges the rest. -/
def value (raw : Raw) (top : Text) : Except Fault (Found × Reader) :=
  match raw.view heap with
  | .null => do
    let r ← r.charge 3 (some top)
    pure (.leaf .null, r)
  | .bool b => do
    let r ← r.charge (if b then 3 else 4) (some top)
    pure (.leaf (.bool b), r)
  | .str t => do
    let r ← r.charge (t.length + 1) (some top)
    if t.HasSurrogate then .error (.valueSurrogate top)
    else pure (.leaf (.str t), r)
  | .int n => do
    -- A number of `b` bits is at least `2^(b-1)`, which has more than `(b-1) log10(2)` digits.
    let r ← r.charge ((n.natAbs.size - 1) * log10TwoFloor / 100000) (some top)
    let r ← r.chargeSign n (some top)
    if -s8Bound < n ∧ n < s8Bound then pure (.leaf (.int n), r)
    else .error (.integerTooLong top)
  | .float f =>
    if f.isFinite then do
      let r ← r.charge ((repr f).length - 1) (some top)
      pure (.leaf (.float f), r)
    else .error (.nonFinite top)
  | .container entries id => do
    let (entries, id) ← r.container entries id top
    let r ← r.charge (entries.minimum - 1) (some top)
    pure (.child entries id, r)
  | .foreign => .error (.notJson top)

/-- The frame on top of the stack is exhausted: its copy is remembered and goes into the frame
below. The root's copy is the answer. -/
def finish (frame : Frame) (below : List Frame) : Target × Reader ⊕ Reader :=
  let target := frame.progress.target
  let r :=
    match frame.sourceId with
    | none => { r with stack := below }
    | some id =>
      { r with
        stack := below
        onPath := r.onPath.erase id
        readInFull := r.readInFull.set id target }
  match below with
  | [] => .inl (target, r)
  | parent :: rest =>
    .inr { r with
      stack := { parent with progress := parent.progress.put frame.slot target.json } :: rest }

/-- What becomes of a value that was read from `frame`, whose other entries are in `progress`. -/
def place (frame : Frame) (below : List Frame) (progress : Progress) (slot top : Text) :
    Found → Reader
  | .leaf copy =>
    { r with stack := { frame with progress := progress.put slot copy } :: below }
  | .child entries id =>
    { r with
      stack := ⟨entries.start, some top, id, slot⟩ :: { frame with progress := progress } :: below
      onPath := match id with
        | none => r.onPath
        | some id => insert id r.onPath }

/-- One turn of the loop of `read`, with the frame on top of the stack. -/
def advance (frame : Frame) (below : List Frame) : Except Fault (Target × Reader ⊕ Reader) :=
  match frame.progress with
  | .list [] _ => .ok (r.finish frame below)
  | .dict [] _ => .ok (r.finish frame below)
  | .dict ((rawKey, rawValue) :: rest) target => do
    let (key, r) ← r.key heap rawKey frame.top
    if key ∈ target.map Prod.fst then .error (.duplicateKey key frame.top)
    else
      let top := frame.top.getD key
      let (found, r) ← r.value repr heap rawValue top
      pure (.inr (r.place frame below (.dict rest target) key top found))
  | .list (raw :: rest) target => do
    -- Only the root has no top-level key, and the root is a dict.
    let top := frame.top.getD []
    let (found, r) ← r.value repr heap raw top
    pure (.inr (r.place frame below (.list rest target) [] top found))

/-- One turn of the loop. The stack is never empty before the root is exhausted. -/
def step : Except Fault (Target × Reader ⊕ Reader) :=
  match r.stack with
  | [] => .ok (.inl (.list [], r))
  | frame :: below => r.advance repr heap frame below

/-- The bytes the bound still allows and the turns that the frames still need. -/
def work : ℕ :=
  maxBytes - r.total + (r.stack.map fun frame => frame.progress.remaining + 1).sum

variable {repr heap r}

theorem charge_ok {amount : ℕ} {top : Option Text} {r' : Reader} :
    r.charge amount top = .ok r' ↔
      r.total + amount ≤ maxBytes ∧ r' = r.charged amount := by
  unfold charge
  split_ifs with h
  · simp [not_le.mpr h]
  · simp [not_lt.mp h, eq_comm]

theorem charge_error {amount : ℕ} {top : Option Text} {fault : Fault} :
    r.charge amount top = .error fault ↔ maxBytes < r.total + amount ∧ fault = .tooLarge top := by
  unfold charge
  split_ifs with h
  · simp [h, eq_comm]
  · simp [h]

/-- What a key that was read is, and what reading it cost. -/
theorem key_ok {raw : Raw} {top : Option Text} {t : Text} {r' : Reader} :
    r.key heap raw top = .ok (t, r') ↔
      raw.view heap = .str t ∧ r.total + t.length ≤ maxBytes ∧ ¬ t.HasSurrogate ∧
        r' = r.charged t.length := by
  unfold key
  split
  · rename_i t' hview
    rw [except_bind_ok, hview]
    simp only [charge_ok]
    constructor
    · rintro ⟨r₁, ⟨hle, rfl⟩, h⟩
      split_ifs at h with hs
      cases h
      exact ⟨rfl, hle, hs, rfl⟩
    · rintro ⟨h, hle, hs, rfl⟩
      cases h
      exact ⟨_, ⟨hle, rfl⟩, by rw [if_neg hs]; rfl⟩
  · rename_i hview
    constructor
    · intro h
      cases h
    · rintro ⟨h, -⟩
      exact absurd h (hview t)

/-- The bytes of the sign. -/
def signLength (n : ℤ) : ℕ := if n < 0 then 1 else 0

theorem charged_charged (r : Reader) (a b : ℕ) : (r.charged a).charged b = r.charged (a + b) := by
  simp only [charged, add_assoc]

theorem chargeSign_ok {n : ℤ} {top : Option Text} {r' : Reader} (hr : r.total ≤ maxBytes) :
    r.chargeSign n top = .ok r' ↔
      r.total + signLength n ≤ maxBytes ∧ r' = r.charged (signLength n) := by
  unfold chargeSign signLength
  by_cases hn : n < 0
  · rw [if_pos hn, if_pos hn]
    exact charge_ok
  · rw [if_neg hn, if_neg hn]
    exact ⟨fun h => ⟨hr, (Except.ok.inj h).symm⟩, fun h => congrArg _ h.2.symm⟩

/-- Reading a value changes nothing of the reader but its bound, which grows by what the container
to be read needs at least. -/
theorem value_framed {raw : Raw} {top : Text} {found : Found} {r' : Reader}
    (h : r.value repr heap raw top = .ok (found, r')) :
    ∃ amount, r.total + amount ≤ maxBytes ∧ r' = r.charged amount ∧
      ∀ entries id, found = .child entries id → amount = entries.minimum - 1 := by
  have hcharge : ∀ {amount : ℕ} {r₁ : Reader} {j : Json}, r.charge amount (some top) = .ok r₁ →
      (Except.ok (.leaf j, r₁) : Except Fault _) = .ok (found, r') →
      ∃ amount, r.total + amount ≤ maxBytes ∧ r' = r.charged amount ∧
        ∀ entries id, found = .child entries id → amount = entries.minimum - 1 := by
    intro amount r₁ j hc h
    cases h
    exact ⟨amount, (charge_ok.mp hc).1, (charge_ok.mp hc).2, fun _ _ h => by cases h⟩
  unfold value at h
  split at h
  · obtain ⟨r₁, hc, h⟩ := except_bind_ok.mp h
    exact hcharge hc h
  · obtain ⟨r₁, hc, h⟩ := except_bind_ok.mp h
    exact hcharge hc h
  · obtain ⟨r₁, hc, h⟩ := except_bind_ok.mp h
    split_ifs at h
    exact hcharge hc h
  · obtain ⟨r₁, hc, h⟩ := except_bind_ok.mp h
    obtain ⟨hle, rfl⟩ := charge_ok.mp hc
    obtain ⟨r₂, hs, h⟩ := except_bind_ok.mp h
    obtain ⟨hle', rfl⟩ := (chargeSign_ok hle).mp hs
    split_ifs at h
    cases h
    rw [charged_charged]
    exact ⟨_, by rw [← add_assoc]; exact hle', rfl, fun _ _ h => by cases h⟩
  · split_ifs at h
    obtain ⟨r₁, hc, h⟩ := except_bind_ok.mp h
    exact hcharge hc h
  · obtain ⟨⟨entries₁, id₁⟩, -, h⟩ := except_bind_ok.mp h
    obtain ⟨r₁, hc, h⟩ := except_bind_ok.mp h
    cases h
    exact ⟨_, (charge_ok.mp hc).1, (charge_ok.mp hc).2, fun _ _ h => by cases h; rfl⟩
  · cases h

/-- A container's minimum pays for a turn for each of its entries and one more. -/
theorem Entries.length_lt_minimum (entries : Entries) : entries.length + 1 ≤ entries.minimum - 1 := by
  cases entries <;> simp only [Entries.length, Entries.minimum, listMinimum, dictMinimum] <;>
    split_ifs <;> omega

theorem remaining_start (entries : Entries) : entries.start.remaining = entries.length := by
  cases entries <;> rfl

theorem remaining_put (key : Text) (value : Json) (progress : Progress) :
    (progress.put key value).remaining = progress.remaining := by
  cases progress <;> rfl

/-- Putting a value that was read in its place leaves less work than the entry was. -/
theorem work_place_lt {raw : Raw} {top slot : Text} {found : Found} {r' : Reader}
    (h : r.value repr heap raw top = .ok (found, r')) {frame : Frame} {below : List Frame}
    (hstack : r.stack = frame :: below) {progress : Progress}
    (hprogress : progress.remaining < frame.progress.remaining) :
    (r'.place frame below progress slot top found).work < r.work := by
  obtain ⟨amount, hle, rfl, hchild⟩ := value_framed h
  unfold work
  rw [hstack]
  cases found with
  | leaf copy =>
    simp only [place, charged, List.map_cons, List.sum_cons, remaining_put]
    omega
  | child entries id =>
    have hamount := hchild entries id rfl
    have hmin := Entries.length_lt_minimum entries
    simp only [place, charged, List.map_cons, List.sum_cons, remaining_start]
    omega

/-- Finishing a frame leaves less work. -/
theorem work_finish_lt {frame : Frame} {below : List Frame} {r' : Reader}
    (hstack : r.stack = frame :: below) (h : r.finish frame below = .inr r') :
    r'.work < r.work := by
  have hwork : r.work = maxBytes - r.total + (frame.progress.remaining + 1 +
      (below.map fun frame => frame.progress.remaining + 1).sum) := by
    rw [work, hstack, List.map_cons, List.sum_cons]
  rw [hwork]
  unfold finish at h
  cases below with
  | nil => cases h
  | cons parent rest =>
    cases h
    cases frame.sourceId <;>
    · simp only [work, List.map_cons, List.sum_cons, remaining_put]
      omega

/-- Every turn of the loop leaves less work. -/
theorem step_work_lt {r' : Reader} (h : r.step repr heap = .ok (.inr r')) : r'.work < r.work := by
  unfold step at h
  split at h
  · cases h
  rename_i frame below hstack
  unfold advance at h
  split at h
  · exact work_finish_lt hstack (Except.ok.inj h)
  · exact work_finish_lt hstack (Except.ok.inj h)
  · rename_i rawKey rawValue rest target hprogress
    obtain ⟨⟨key, r₁⟩, hkey, h⟩ := except_bind_ok.mp h
    obtain ⟨-, hle, -, rfl⟩ := key_ok.mp hkey
    dsimp only at h
    split_ifs at h
    obtain ⟨⟨found, r₂⟩, hvalue, h⟩ := except_bind_ok.mp h
    cases h
    refine (work_place_lt hvalue hstack (by simp [Progress.remaining, hprogress])).trans_le ?_
    simp only [work, charged]
    omega
  · rename_i raw rest target hprogress
    obtain ⟨⟨found, r₂⟩, hvalue, h⟩ := except_bind_ok.mp h
    cases h
    exact work_place_lt hvalue hstack (by simp [Progress.remaining, hprogress])

variable (repr heap)

/-- The loop of `read`: the root's copy, and the reader as it is left. -/
def loop (r : Reader) : Except Fault (Target × Reader) :=
  match _h : r.step repr heap with
  | .error fault => .error fault
  | .ok (.inl answer) => .ok answer
  | .ok (.inr r') => loop r'
termination_by r.work
decreasing_by exact step_work_lt ‹_›

end Reader

/-- `_describe`, of a document that is not a `dict`. -/
def describe (heap : Heap) : Value → String
  | .none => "null"
  | .bool _ => "a boolean"
  | .str _ => "a string"
  | .int _ => "a number"
  | .float _ => "a number"
  | .container id =>
    match heap id with
    | .list _ => "an array"
    | .dict _ => "a value that is not a dict"
  | .foreign => "a value that is not a dict"

/-- `_Reader().read`: the fields of the copy, and the reader as it is left. -/
def read (repr : Float64 → List Char) (heap : Heap) (document : Value) :
    Except Fault (List (Text × Json) × Reader) :=
  match (Raw.value document).view heap with
  | .container (.dict entries) id => do
    -- S2
    if maxKeys < entries.length then .error (.tooManyKeys entries.length)
    else
      let r ← (⟨0, .empty, [], ∅⟩ : Reader).charge (dictMinimum entries.length) none
      let (target, r) ← Reader.loop repr heap
        { r with
          stack := [⟨.dict entries [], none, id, []⟩]
          onPath := id.toFinset }
      pure (target.fields, r)
  | _ => .error (.notAnObject (describe heap document))

/-! ### The rules on the copy -/

/-- `_is_json_integer`, with the integer. -/
def jsonInteger : Json → Option ℤ
  | .int n => some n
  | .float f => if f.isInteger then some f.toInt else none
  | _ => none

/-- A code point of `[a-z0-9_]`. -/
def isNameChar (c : CodePoint) : Bool :=
  (0x61 ≤ c.val ∧ c.val ≤ 0x7a) ∨ (0x30 ≤ c.val ∧ c.val ≤ 0x39) ∨ c.val = 0x5f

/-- `_EXPERIMENTAL_KEY.fullmatch`: `x_` and one to 48 name characters. -/
def isExperimental : Text → Bool
  | x :: underscore :: name =>
    x.val = 0x78 && underscore.val = 0x5f && name.all isNameChar && 1 ≤ name.length &&
      name.length ≤ 48
  | _ => false

/-- R1 of one key. -/
def isRegistered (key : Text) : Bool := key ∈ registeredKeys || isExperimental key

/-- `_check_version_and_registry`: S3, R1 and R2. -/
def checkVersionAndRegistry (fields : List (Text × Json)) : Except Fault Unit :=
  match Dict.lookup (("attributes_version" : String) : Text) fields with
  | none => .error .versionMissing
  | some version =>
    match jsonInteger version with
    | none => .error .versionInvalid
    | some version =>
      if version < 1 then .error .versionInvalid
      else if knownVersion < version then .ok ()
      else
        match fields.find? fun p => !isRegistered p.1 with
        | some p => .error (.unregisteredKey p.1)
        | none =>
          match Dict.lookup (("weight" : String) : Text) fields with
          | none => .ok ()
          | some weight =>
            match jsonInteger weight with
            | none => .error .weightInvalid
            | some weight =>
              if 0 ≤ weight ∧ weight ≤ maxWeight then .ok () else .error .weightInvalid

/-- `CanonicalAttributes`. -/
structure CanonicalAttributes where
  document : List (Text × Json)
  text : List Char

/-- `canonicalize_ip_attributes`. -/
def canonicalizeIpAttributes (repr : Float64 → List Char) (heap : Heap) (document : Value) :
    Except Fault CanonicalAttributes := do
  let (copy, _) ← read repr heap document
  checkVersionAndRegistry copy
  let text := Json.text repr (.obj copy)
  if maxBytes < text.length then .error (.serializedTooLarge text.length)
  else pure ⟨copy, text⟩

end Hammertime.Attributes
