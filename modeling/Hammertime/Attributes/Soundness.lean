import Hammertime.Attributes.Unfolding

/-!
# What is accepted is the unfolding

What reading one value returns or raises, and that what the reader has copied is right at every turn
of its loop: however the entries that are still to be read unfold, the finished copy is the unfolding
of its source, and a copy that is remembered is the unfolding of the container it stands for.
-/

namespace Hammertime.Attributes

open Lib

variable {heap : Heap}

/-! ### What reading a value returns -/

/-- The value that something seen is, when it is not a container. -/
def View.leaf : View → Option Json
  | .null => some .null
  | .bool b => some (.bool b)
  | .str t => some (.str t)
  | .int n => some (.int n)
  | .float f => some (.float f)
  | .container _ _ => none
  | .foreign => none

theorem View.unfolds_of_leaf {view : View} {j j' : Json} (h : view.leaf = some j) :
    view.Unfolds heap j' ↔ j' = j := by
  cases view <;> simp only [View.leaf, Option.some.injEq, reduceCtorEq] at h <;> rw [← h] <;> rfl

namespace Reader

variable {format : FloatFormat} {r r' : Reader} {raw : Raw} {top : Text}

/-- A value that is no container is read by a charge for it, unless it breaks a rule or the bound. -/
theorem value_leaf {j : Json} (hleaf : (raw.view heap).leaf = some j) :
    (∀ found r', r.value format.repr heap raw top = .ok (found, r') →
      found = .leaf j ∧ WellFormed j ∧ r.total + (cost format.repr j - 1) ≤ maxBytes ∧
        r' = r.charged (cost format.repr j - 1)) ∧
    ∀ fault, r.value format.repr heap raw top = .error fault →
      maxBytes < r.total + (cost format.repr j - 1) ∨ ¬ WellFormed j ∧ ¬ fault.IsSize := by
  unfold value
  cases hview : raw.view heap with
  | container entries id => rw [hview] at hleaf; cases hleaf
  | foreign => rw [hview] at hleaf; cases hleaf
  | null =>
    rw [hview] at hleaf
    cases hleaf
    refine ⟨fun found r' h => ?_, fun fault h => ?_⟩
    · obtain ⟨r₁, hc, h⟩ := except_bind_ok.mp h
      cases h
      exact ⟨rfl, trivial, charge_ok.mp hc⟩
    · rcases except_bind_error.mp h with h | ⟨_, _, h⟩
      · exact Or.inl (charge_error.mp h).1
      · cases h
  | bool b =>
    rw [hview] at hleaf
    cases hleaf
    have hcost : (if b then 3 else 4) = cost format.repr (.bool b) - 1 := by cases b <;> rfl
    refine ⟨fun found r' h => ?_, fun fault h => ?_⟩
    · obtain ⟨r₁, hc, h⟩ := except_bind_ok.mp h
      cases h
      rw [← hcost]
      exact ⟨rfl, trivial, charge_ok.mp hc⟩
    · rcases except_bind_error.mp h with h | ⟨_, _, h⟩
      · rw [← hcost]
        exact Or.inl (charge_error.mp h).1
      · cases h
  | str t =>
    -- A string is charged before it is searched for surrogates.
    rw [hview] at hleaf
    cases hleaf
    refine ⟨fun found r' h => ?_, fun fault h => ?_⟩
    · obtain ⟨r₁, hc, h⟩ := except_bind_ok.mp h
      split_ifs at h with hs
      cases h
      exact ⟨rfl, hs, charge_ok.mp hc⟩
    · rcases except_bind_error.mp h with h | ⟨_, _, h⟩
      · exact Or.inl (charge_error.mp h).1
      · split_ifs at h with hs
        · cases h
          exact Or.inr ⟨fun hw => hw hs, fun hf => hf⟩
        · cases h
  | int n =>
    -- An integer pays for its digits, then for its sign, and is compared with the bound last.
    rw [hview] at hleaf
    cases hleaf
    have hcost : cost format.repr (.int n) - 1 = digitBound n + signLength n := rfl
    rw [hcost]
    refine ⟨fun found r' h => ?_, fun fault h => ?_⟩
    · obtain ⟨r₁, hc, h⟩ := except_bind_ok.mp h
      obtain ⟨hle, rfl⟩ := charge_ok.mp hc
      obtain ⟨r₂, hs, h⟩ := except_bind_ok.mp h
      obtain ⟨hle', rfl⟩ := (chargeSign_ok hle).mp hs
      split_ifs at h with hbound
      cases h
      refine ⟨rfl, hbound, ?_, charged_charged r _ _⟩
      rw [← add_assoc]
      exact hle'
    · rcases except_bind_error.mp h with h | ⟨r₁, hc, h⟩
      · have := (charge_error.mp h).1
        refine Or.inl (this.trans_le ?_)
        exact Nat.add_le_add_left (Nat.le_add_right _ _) _
      · obtain ⟨hle, rfl⟩ := charge_ok.mp hc
        rcases except_bind_error.mp h with h | ⟨r₂, hs, h⟩
        · unfold chargeSign at h
          split_ifs at h with hn
          have hs : signLength n = 1 := if_pos hn
          rw [hs, ← add_assoc]
          exact Or.inl (charge_error.mp h).1
        · split_ifs at h with hbound
          · cases h
          · cases h
            exact Or.inr ⟨hbound, fun hf => hf⟩
  | float f =>
    -- A float that is not finite is refused before any charge.
    rw [hview] at hleaf
    cases hleaf
    refine ⟨fun found r' h => ?_, fun fault h => ?_⟩
    · dsimp only at h
      split_ifs at h with hf
      obtain ⟨r₁, hc, h⟩ := except_bind_ok.mp h
      cases h
      exact ⟨rfl, hf, charge_ok.mp hc⟩
    · dsimp only at h
      split_ifs at h with hf
      · rcases except_bind_error.mp h with h | ⟨_, _, h⟩
        · exact Or.inl (charge_error.mp h).1
        · cases h
      · cases h
        exact Or.inr ⟨hf, fun hf => hf⟩

/-- A container is read by its entries, or by its copy's, after a charge for their minimum. -/
theorem value_container {entries : Entries} {id : Option ℕ}
    (hview : raw.view heap = .container entries id) {found : Found} :
    r.value format.repr heap raw top = .ok (found, r') ↔
      ∃ entries' id', r.container entries id top = .ok (entries', id') ∧
        found = .child entries' id' ∧ r.total + (entries'.minimum - 1) ≤ maxBytes ∧
        r' = r.charged (entries'.minimum - 1) := by
  unfold value
  rw [hview]
  dsimp only
  rw [except_bind_ok]
  constructor
  · rintro ⟨⟨entries', id'⟩, hcontainer, h⟩
    obtain ⟨r₁, hc, h⟩ := except_bind_ok.mp h
    cases h
    exact ⟨entries', id', hcontainer, rfl, charge_ok.mp hc⟩
  · rintro ⟨entries', id', hcontainer, rfl, hle, rfl⟩
    exact ⟨(entries', id'), hcontainer,
      except_bind_ok.mpr ⟨_, charge_ok.mpr ⟨hle, rfl⟩, rfl⟩⟩

theorem value_container_error {entries : Entries} {id : Option ℕ}
    (hview : raw.view heap = .container entries id) {fault : Fault} :
    r.value format.repr heap raw top = .error fault ↔
      r.container entries id top = .error fault ∨
      ∃ entries' id', r.container entries id top = .ok (entries', id') ∧
        maxBytes < r.total + (entries'.minimum - 1) ∧ fault = .tooLarge (some top) := by
  unfold value
  rw [hview]
  dsimp only
  rw [except_bind_error]
  refine or_congr Iff.rfl ?_
  constructor
  · rintro ⟨⟨entries', id'⟩, hcontainer, h⟩
    rcases except_bind_error.mp h with h | ⟨_, _, h⟩
    · exact ⟨entries', id', hcontainer, charge_error.mp h⟩
    · cases h
  · rintro ⟨entries', id', hcontainer, hlt, rfl⟩
    exact ⟨(entries', id'), hcontainer,
      except_bind_error.mpr (Or.inl (charge_error.mpr ⟨hlt, rfl⟩))⟩

end Reader

/-! ### What is accepted is the unfolding -/

/-- However the rest of the entries unfolds, the finished copy has the property. -/
def Progress.Sound (heap : Heap) (goal : Json → Prop) : Progress → Prop
  | .list rest target => ∀ more, List.Forall₂ (Raw.Unfolds heap) more rest →
      goal (.arr (target ++ more))
  | .dict rest target => ∀ more, List.Forall₂ (EntryUnfolds heap) more rest →
      goal (.obj (target ++ more))

theorem Progress.Sound.done {goal : Json → Prop} {progress : Progress}
    (h : progress.Sound heap goal) (hdone : progress.remaining = 0) :
    goal progress.target.json := by
  cases progress with
  | list rest target =>
    have hnil : rest = [] := List.length_eq_zero_iff.mp hdone
    subst hnil
    have hgoal := h [] .nil
    rwa [List.append_nil] at hgoal
  | dict rest target =>
    have hnil : rest = [] := List.length_eq_zero_iff.mp hdone
    subst hnil
    have hgoal := h [] .nil
    rwa [List.append_nil] at hgoal

/-- The frames below one whose copy will have the property `pending`: each turns the copy it waits
for into one with a property that the next waits for, and the last of them is `root`. -/
def Awaits (heap : Heap) (root : Json → Prop) : (Json → Prop) → Text → List Frame → Prop
  | pending, _, [] => ∀ j, pending j → root j
  | pending, slot, frame :: below => ∃ goal : Json → Prop,
      (∀ j, pending j → (frame.progress.put slot j).Sound heap goal) ∧
      (∀ j, WellFormed j → WellFormed (frame.progress.put slot j).target.json) ∧
      (∀ id, frame.sourceId = some id → ∀ j, goal j → Unfolds heap j (.container id)) ∧
      Awaits heap root goal frame.slot below

/-- What has been copied so far is right. -/
structure Reader.Sound (heap : Heap) (root : Json → Prop) (r : Reader) : Prop where
  memo : ∀ id target, r.readInFull.get? id = some target →
    Unfolds heap target.json (.container id) ∧ WellFormed target.json
  stack : ∃ frame below, r.stack = frame :: below ∧ ∃ goal : Json → Prop,
    frame.progress.Sound heap goal ∧ WellFormed frame.progress.target.json ∧
    (∀ id, frame.sourceId = some id → ∀ j, goal j → Unfolds heap j (.container id)) ∧
    Awaits heap root goal frame.slot below

namespace Reader

variable {format : FloatFormat} {r r' : Reader} {raw : Raw} {top slot : Text}
  {root goal : Json → Prop}

/-- Only an object of the heap has an identity. -/
theorem eq_of_view_container {entries : Entries} {id : ℕ}
    (hview : raw.view heap = .container entries (some id)) : raw = .value (.container id) := by
  cases raw with
  | value v => cases v <;> simp_all [Raw.view]
  | copy j => cases j <;> simp_all [Raw.view]

/-- What is read for a container unfolds as the container does. -/
theorem container_sound {entries entries' : Entries} {id id' : Option ℕ}
    (hmemo : ∀ id target, r.readInFull.get? id = some target →
      Unfolds heap target.json (.container id))
    (hview : raw.view heap = .container entries id)
    (h : r.container entries id top = .ok (entries', id')) :
    (∀ target, entries'.Unfolds heap target ↔ raw.Unfolds heap target.json) ∧
      ∀ i, id' = some i → ∀ j, raw.Unfolds heap j → Unfolds heap j (.container i) := by
  have hself : ∀ target, entries.Unfolds heap target ↔ raw.Unfolds heap target.json := by
    intro target
    rw [Raw.unfolds_iff, hview]
    constructor
    · exact fun ht => ⟨target, rfl, ht⟩
    · rintro ⟨target', hj, ht⟩
      rw [Target.json_inj hj]
      exact ht
  unfold container at h
  cases id with
  | none =>
    cases h
    exact ⟨hself, fun i hi => by cases hi⟩
  | some id =>
    have hraw := eq_of_view_container hview
    dsimp only at h
    split_ifs at h
    cases hm : r.readInFull.get? id with
    | none =>
      rw [hm] at h
      cases h
      refine ⟨hself, fun i hi j hj => ?_⟩
      cases hi
      rw [hraw] at hj
      exact hj
    | some copy =>
      rw [hm] at h
      cases h
      refine ⟨fun target => ?_, fun i hi => by cases hi⟩
      have hcopy := hmemo id copy hm
      rw [target_entries_unfolds, hraw]
      constructor
      · rintro rfl
        exact hcopy
      · exact fun ht => Target.json_inj (ht.unique hcopy)

/-- A fresh frame over entries that unfold as `raw` does. -/
theorem start_sound {entries : Entries}
    (h : ∀ target, entries.Unfolds heap target ↔ raw.Unfolds heap target.json) :
    entries.start.Sound heap (raw.Unfolds heap) ∧ WellFormed entries.start.target.json := by
  cases entries with
  | list items =>
    exact ⟨fun more hmore => (h (.list more)).mp hmore,
      wellFormed_arr.mpr fun j hj => absurd hj List.not_mem_nil⟩
  | dict entries =>
    exact ⟨fun more hmore => (h (.dict more)).mp hmore,
      wellFormed_obj.mpr ⟨List.nodup_nil, fun p hp => absurd hp List.not_mem_nil⟩⟩

/-- Putting a value that was read in its place keeps what has been copied right. -/
theorem place_sound {frame : Frame} {below : List Frame} {progress : Progress} {found : Found}
    (hmemo : ∀ id target, r.readInFull.get? id = some target →
      Unfolds heap target.json (.container id) ∧ WellFormed target.json)
    (hvalue : r.value format.repr heap raw top = .ok (found, r'))
    (hput : ∀ j, raw.Unfolds heap j → (progress.put slot j).Sound heap goal)
    (hwell : ∀ j, WellFormed j → WellFormed (progress.put slot j).target.json)
    (hsource : ∀ id, frame.sourceId = some id → ∀ j, goal j → Unfolds heap j (.container id))
    (hbelow : Awaits heap root goal frame.slot below) :
    (r'.place frame below progress slot top found).Sound heap root := by
  cases hleaf : (raw.view heap).leaf with
  | some j =>
    obtain ⟨rfl, hj, -, rfl⟩ := (value_leaf hleaf).1 _ _ hvalue
    have hraw : raw.Unfolds heap j := Raw.unfolds_iff.mpr ((View.unfolds_of_leaf hleaf).mpr rfl)
    exact ⟨hmemo, _, _, rfl, goal, hput j hraw, hwell j hj, hsource, hbelow⟩
  | none =>
    cases hview : raw.view heap with
    | container entries id =>
      obtain ⟨entries', id', hcontainer, rfl, -, rfl⟩ := (value_container hview).mp hvalue
      obtain ⟨hentries, hid⟩ :=
        container_sound (fun id target h => (hmemo id target h).1) hview hcontainer
      obtain ⟨hstart, hstartWell⟩ := start_sound hentries
      exact ⟨hmemo, _, _, rfl, raw.Unfolds heap, hstart, hstartWell, hid, goal, hput, hwell,
        hsource, hbelow⟩
    | foreign =>
      unfold value at hvalue
      rw [hview] at hvalue
      cases hvalue
    | _ =>
      rw [hview] at hleaf
      cases hleaf

/-- A finished frame hands a right copy to the frame below it, or to the caller. -/
theorem finish_sound {frame : Frame} {below : List Frame}
    (hmemo : ∀ id target, r.readInFull.get? id = some target →
      Unfolds heap target.json (.container id) ∧ WellFormed target.json)
    (hdone : goal frame.progress.target.json) (hwell : WellFormed frame.progress.target.json)
    (hsource : ∀ id, frame.sourceId = some id → ∀ j, goal j → Unfolds heap j (.container id))
    (hbelow : Awaits heap root goal frame.slot below) :
    (∀ target r', r.finish frame below = .inl (target, r') →
      root target.json ∧ WellFormed target.json) ∧
    ∀ r', r.finish frame below = .inr r' → r'.Sound heap root := by
  -- The copy is remembered under the identity it was read under.
  have hmemo' : ∀ source, frame.sourceId = some source → ∀ id target,
      (r.readInFull.set source frame.progress.target).get? id = some target →
      Unfolds heap target.json (.container id) ∧ WellFormed target.json := by
    intro source hid id target h
    rw [Dict.get?_set] at h
    split_ifs at h with heq
    · cases h
      cases heq
      exact ⟨hsource _ hid _ hdone, hwell⟩
    · exact hmemo id target h
  unfold finish
  cases below with
  | nil =>
    refine ⟨fun target r' h => ?_, fun r' h => by cases h⟩
    cases h
    exact ⟨hbelow _ hdone, hwell⟩
  | cons parent rest =>
    refine ⟨fun target r' h => (by cases h), fun r' h => ?_⟩
    obtain ⟨goal', hput, hwell', hsource', hrest⟩ := hbelow
    cases h
    refine ⟨?_, _, _, rfl, goal', hput _ hdone, hwell' _ hwell, hsource', hrest⟩
    intro id target h
    cases hid : frame.sourceId with
    | none =>
      rw [hid] at h
      exact hmemo id target h
    | some source =>
      rw [hid] at h
      exact hmemo' source hid id target h

/-- Taking one entry of a `dict` off the rest. -/
theorem sound_dict_cons {rawKey : Raw} {rest : List (Raw × Raw)} {target : List (Text × Json)}
    {key : Text} (h : (Progress.dict ((rawKey, raw) :: rest) target).Sound heap goal)
    (hkey : rawKey.view heap = .str key) (j : Json) (hj : raw.Unfolds heap j) :
    ((Progress.dict rest target).put key j).Sound heap goal := by
  intro more hmore
  rw [List.append_assoc]
  exact h ((key, j) :: more) (.cons ⟨hkey, hj⟩ hmore)

/-- Taking one item of a `list` off the rest. -/
theorem sound_list_cons {rest : List Raw} {target : List Json}
    (h : (Progress.list (raw :: rest) target).Sound heap goal) (j : Json)
    (hj : raw.Unfolds heap j) : ((Progress.list rest target).put slot j).Sound heap goal := by
  intro more hmore
  rw [List.append_assoc]
  exact h (j :: more) (.cons hj hmore)

theorem wellFormed_put_dict {rest rest' : List (Raw × Raw)} {target : List (Text × Json)}
    {key : Text} (h : WellFormed (Progress.dict rest target).target.json)
    (hkey : ¬ key.HasSurrogate) (hnew : key ∉ target.map Prod.fst) (j : Json)
    (hj : WellFormed j) : WellFormed ((Progress.dict rest' target).put key j).target.json := by
  obtain ⟨hnodup, hall⟩ := wellFormed_obj.mp h
  refine wellFormed_obj.mpr ⟨?_, fun p hp => ?_⟩
  · rw [List.map_append, List.nodup_append]
    refine ⟨hnodup, List.nodup_singleton _, fun a ha b hb hab => ?_⟩
    have hkey : b = key := List.mem_singleton.mp hb
    rw [hab, hkey] at ha
    exact hnew ha
  · rcases List.mem_append.mp hp with hp | hp
    · exact hall p hp
    · rw [List.mem_singleton] at hp
      rw [hp]
      exact ⟨hkey, hj⟩

theorem wellFormed_put_list {rest rest' : List Raw} {target : List Json}
    (h : WellFormed (Progress.list rest target).target.json) (j : Json) (hj : WellFormed j) :
    WellFormed ((Progress.list rest' target).put slot j).target.json := by
  refine wellFormed_arr.mpr fun x hx => ?_
  rcases List.mem_append.mp hx with hx | hx
  · exact wellFormed_arr.mp h x hx
  · rw [List.mem_singleton] at hx
    rw [hx]
    exact hj

/-- One turn on a `dict` with an entry left. -/
theorem advance_dict_ok {frame : Frame} {below : List Frame} {rawKey rawValue : Raw}
    {rest : List (Raw × Raw)} {target : List (Text × Json)}
    (hprogress : frame.progress = .dict ((rawKey, rawValue) :: rest) target)
    {answer : Target × Reader ⊕ Reader} :
    r.advance format.repr heap frame below = .ok answer ↔
      ∃ key found r₁, rawKey.view heap = .str key ∧ r.total + key.length ≤ maxBytes ∧
        ¬ key.HasSurrogate ∧ key ∉ target.map Prod.fst ∧
        (r.charged key.length).value format.repr heap rawValue (frame.top.getD key) =
          .ok (found, r₁) ∧
        answer = .inr (r₁.place frame below (.dict rest target) key (frame.top.getD key) found) := by
  unfold advance
  rw [hprogress]
  dsimp only
  rw [except_bind_ok]
  constructor
  · rintro ⟨⟨key, r₁⟩, hkey, h⟩
    obtain ⟨hview, hle, hsur, rfl⟩ := key_ok.mp hkey
    dsimp only at h
    split_ifs at h with hdup
    obtain ⟨⟨found, r₂⟩, hvalue, h⟩ := except_bind_ok.mp h
    cases h
    exact ⟨key, found, r₂, hview, hle, hsur, hdup, hvalue, rfl⟩
  · rintro ⟨key, found, r₁, hview, hle, hsur, hdup, hvalue, rfl⟩
    refine ⟨(key, r.charged key.length), key_ok.mpr ⟨hview, hle, hsur, rfl⟩, ?_⟩
    dsimp only
    rw [if_neg hdup]
    exact except_bind_ok.mpr ⟨_, hvalue, rfl⟩

/-- One turn on a `list` with an item left. -/
theorem advance_list_ok {frame : Frame} {below : List Frame} {rest : List Raw}
    {target : List Json} (hprogress : frame.progress = .list (raw :: rest) target)
    {answer : Target × Reader ⊕ Reader} :
    r.advance format.repr heap frame below = .ok answer ↔
      ∃ found r₁, r.value format.repr heap raw (frame.top.getD []) = .ok (found, r₁) ∧
        answer = .inr (r₁.place frame below (.list rest target) [] (frame.top.getD []) found) := by
  unfold advance
  rw [hprogress]
  dsimp only
  rw [except_bind_ok]
  constructor
  · rintro ⟨⟨found, r₁⟩, hvalue, h⟩
    cases h
    exact ⟨found, r₁, hvalue, rfl⟩
  · rintro ⟨found, r₁, hvalue, rfl⟩
    exact ⟨_, hvalue, rfl⟩

/-- One turn on a frame with nothing left. -/
theorem advance_done {frame : Frame} {below : List Frame} (hdone : frame.progress.remaining = 0) :
    r.advance format.repr heap frame below = .ok (r.finish frame below) := by
  unfold advance
  split
  · rfl
  · rfl
  · rename_i hprogress
    rw [hprogress] at hdone
    cases hdone
  · rename_i hprogress
    rw [hprogress] at hdone
    cases hdone

/-- The ways a frame can be: with nothing left, or with an entry of a `dict` or of a `list`. -/
theorem progress_cases (progress : Progress) : progress.remaining = 0 ∨
    (∃ rawKey rawValue rest target, progress = .dict ((rawKey, rawValue) :: rest) target) ∨
    ∃ raw rest target, progress = .list (raw :: rest) target := by
  cases progress with
  | list rest target =>
    cases rest with
    | nil => exact Or.inl rfl
    | cons raw rest => exact Or.inr (Or.inr ⟨raw, rest, target, rfl⟩)
  | dict rest target =>
    cases rest with
    | nil => exact Or.inl rfl
    | cons entry rest => exact Or.inr (Or.inl ⟨entry.1, entry.2, rest, target, rfl⟩)

theorem step_eq {frame : Frame} {below : List Frame} (hstack : r.stack = frame :: below) :
    r.step format.repr heap = r.advance format.repr heap frame below := by
  unfold step
  rw [hstack]

/-- What a right answer of one turn is. -/
def AnswerSound (heap : Heap) (root : Json → Prop) : Target × Reader ⊕ Reader → Prop
  | .inl (target, _) => root target.json ∧ WellFormed target.json
  | .inr r' => r'.Sound heap root

/-- One turn keeps what has been copied right, and what it returns is right. -/
theorem step_sound (h : r.Sound heap root) {answer : Target × Reader ⊕ Reader}
    (hstep : r.step format.repr heap = .ok answer) : AnswerSound heap root answer := by
  obtain ⟨hmemo, frame, below, hstack, goal, hsound, hwell, hsource, hbelow⟩ := h
  rw [step_eq hstack] at hstep
  rcases progress_cases frame.progress with
    hdone | ⟨rawKey, rawValue, rest, target, hprogress⟩ | ⟨raw, rest, target, hprogress⟩
  · rw [advance_done hdone] at hstep
    obtain ⟨hl, hr⟩ := finish_sound hmemo (hsound.done hdone) hwell hsource hbelow
    have heq := Except.ok.inj hstep
    cases answer with
    | inl answer => exact hl answer.1 answer.2 heq
    | inr r' => exact hr r' heq
  · obtain ⟨key, found, r₁, hview, -, hsur, hdup, hvalue, rfl⟩ :=
      (advance_dict_ok hprogress).mp hstep
    rw [hprogress] at hsound hwell
    exact place_sound (r := r.charged key.length) hmemo hvalue (sound_dict_cons hsound hview)
      (wellFormed_put_dict hwell hsur hdup) hsource hbelow
  · obtain ⟨found, r₁, hvalue, rfl⟩ := (advance_list_ok hprogress).mp hstep
    rw [hprogress] at hsound hwell
    exact place_sound hmemo hvalue (sound_list_cons hsound) (wellFormed_put_list hwell) hsource
      hbelow

/-- The loop is one turn and the loop after it. -/
theorem loop_eq (repr : Float64 → List Char) (heap : Heap) (r : Reader) :
    r.loop repr heap = match r.step repr heap with
      | .error fault => .error fault
      | .ok (.inl answer) => .ok answer
      | .ok (.inr r') => r'.loop repr heap := by
  rw [loop]
  split <;> rename_i h <;> rw [h]

/-- The loop returns a right copy of the root. -/
theorem loop_sound (h : r.Sound heap root) {target : Target}
    (hloop : r.loop format.repr heap = .ok (target, r')) :
    root target.json ∧ WellFormed target.json := by
  induction r using loop.induct format.repr heap with
  | case1 r fault hstep =>
    rw [loop_eq, hstep] at hloop
    cases hloop
  | case2 r answer hstep =>
    rw [loop_eq, hstep] at hloop
    have hanswer := step_sound h hstep
    rw [Except.ok.inj hloop] at hanswer
    exact hanswer
  | case3 r r₁ hstep ih =>
    rw [loop_eq, hstep] at hloop
    exact ih (step_sound h hstep) hloop

end Reader

end Hammertime.Attributes
