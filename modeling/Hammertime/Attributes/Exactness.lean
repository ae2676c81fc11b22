import Hammertime.Attributes.Soundness

/-!
# Attribute validation is exact

A document whose unfolding is a finite tree is read: at every turn the reader's bound and the charges
still to come sum to the charge for the whole tree, and no container on the path is met again, since
it would be a part of itself. So the reader accepts a document exactly when its unfolding exists and
the rules admit it.
-/

namespace Hammertime.Attributes

open Lib

variable {heap : Heap}

/-! ### What unfolds is accepted, within the bound -/

/-- The rest of the entries unfolds, so that the copy will be `T` for a further charge of `n`. -/
def Progress.Finishes (heap : Heap) (repr : Float64 → List Char) (T : Json) (n : ℕ) :
    Progress → Prop
  | .list rest target => ∃ more, List.Forall₂ (Raw.Unfolds heap) more rest ∧
      T = .arr (target ++ more) ∧ n = itemsCost repr more
  | .dict rest target => ∃ more, List.Forall₂ (EntryUnfolds heap) more rest ∧
      T = .obj (target ++ more) ∧ n = fieldsCost repr more

/-- The frames below one whose copy will be `T` end with the copy `J` for a further charge of
`n`. -/
def Owes (heap : Heap) (repr : Float64 → List Char) (J : Json) :
    Json → Text → List Frame → ℕ → Prop
  | T, _, [], n => T = J ∧ n = 0
  | T, slot, frame :: below, n => ∃ T' m n',
      (frame.progress.put slot T).Finishes heap repr T' m ∧
      (∀ id, frame.sourceId = some id → Unfolds heap T' (.container id)) ∧
      n = m + n' ∧ Owes heap repr J T' frame.slot below n'

/-- The reader is on its way to the copy `J`, and has been charged for all of it but what is still
to come. -/
structure Reader.Bound (heap : Heap) (repr : Float64 → List Char) (J : Json) (r : Reader) :
    Prop where
  memo : ∀ id target, r.readInFull.get? id = some target →
    Unfolds heap target.json (.container id)
  path : ∀ id ∈ r.onPath, ∃ frame ∈ r.stack, frame.sourceId = some id
  stack : ∃ frame below, r.stack = frame :: below ∧ ∃ T m n,
    frame.progress.Finishes heap repr T m ∧
    (∀ id, frame.sourceId = some id → Unfolds heap T (.container id)) ∧
    Owes heap repr J T frame.slot below n ∧ r.total + m + n = cost repr J

section Parts

variable {repr : Float64 → List Char} {J T T' : Json} {m n : ℕ} {progress : Progress} {slot : Text}

/-- A part is smaller than the whole. -/
theorem sizeOf_lt_of_put (h : (progress.put slot T).Finishes heap repr T' m) :
    sizeOf T < sizeOf T' := by
  cases progress with
  | list rest target =>
    obtain ⟨more, -, rfl, -⟩ := h
    have hmem : T ∈ target ++ [T] ++ more := by simp
    have := List.sizeOf_lt_of_mem hmem
    simp only [Json.arr.sizeOf_spec]
    omega
  | dict rest target =>
    obtain ⟨more, -, rfl, -⟩ := h
    have hmem : (slot, T) ∈ target ++ [(slot, T)] ++ more := by simp
    have := List.sizeOf_lt_of_mem hmem
    simp only [Json.obj.sizeOf_spec, Prod.mk.sizeOf_spec] at this ⊢
    omega

theorem wellFormed_of_put (h : (progress.put slot T).Finishes heap repr T' m)
    (hw : WellFormed T') : WellFormed T := by
  cases progress with
  | list rest target =>
    obtain ⟨more, -, rfl, -⟩ := h
    exact wellFormed_arr.mp hw T (by simp)
  | dict rest target =>
    obtain ⟨more, -, rfl, -⟩ := h
    exact ((wellFormed_obj.mp hw).2 (slot, T) (by simp)).2

theorem Owes.wellFormed {below : List Frame} (h : Owes heap repr J T slot below n)
    (hw : WellFormed J) : WellFormed T := by
  induction below generalizing T slot n with
  | nil => exact h.1 ▸ hw
  | cons frame below ih =>
    obtain ⟨T', m, n', hfin, -, -, hrest⟩ := h
    exact wellFormed_of_put hfin (ih hrest)

/-- The frames below read larger trees. -/
theorem Owes.larger {below : List Frame} (h : Owes heap repr J T slot below n) {frame : Frame}
    (hframe : frame ∈ below) {id : ℕ} (hid : frame.sourceId = some id) :
    ∃ T', Unfolds heap T' (.container id) ∧ sizeOf T < sizeOf T' := by
  induction below generalizing T slot n with
  | nil => exact absurd hframe List.not_mem_nil
  | cons frame' below ih =>
    obtain ⟨T', m, n', hfin, hsource, -, hrest⟩ := h
    have hlt := sizeOf_lt_of_put hfin
    rcases List.mem_cons.mp hframe with rfl | hframe
    · exact ⟨T', hsource id hid, hlt⟩
    · obtain ⟨T'', hun, hlt'⟩ := ih hrest hframe
      exact ⟨T'', hun, hlt.trans hlt'⟩

end Parts

namespace Reader

variable {format : FloatFormat} {r r' : Reader} {raw : Raw} {top slot : Text} {J T j : Json}

/-- Nothing that is a part of the tree being read is on the path. -/
theorem not_mem_onPath {frame : Frame} {below : List Frame} {n id : ℕ}
    (hpath : ∀ id ∈ r.onPath, ∃ frame ∈ r.stack, frame.sourceId = some id)
    (hstack : r.stack = frame :: below)
    (hsource : ∀ id, frame.sourceId = some id → Unfolds heap T (.container id))
    (howes : Owes heap format.repr J T frame.slot below n)
    (hj : Unfolds heap j (.container id)) (hlt : sizeOf j < sizeOf T) : id ∉ r.onPath := by
  intro hmem
  obtain ⟨frame', hframe', hid⟩ := hpath id hmem
  rw [hstack] at hframe'
  rcases List.mem_cons.mp hframe' with rfl | hframe'
  · rw [hj.unique (hsource id hid)] at hlt
    exact lt_irrefl _ hlt
  · obtain ⟨T', hT', hlt'⟩ := howes.larger hframe' hid
    rw [hj.unique hT'] at hlt
    exact lt_irrefl _ (hlt.trans hlt')

/-- The charges for a tree are its minimum and the charges for its parts. -/
theorem start_finishes (format : FloatFormat) {entries : Entries} {target : Target}
    (h : entries.Unfolds heap target) :
    ∃ m, entries.start.Finishes heap format.repr target.json m ∧
      cost format.repr target.json - 1 = entries.minimum - 1 + m := by
  cases entries with
  | list items =>
    cases target with
    | dict fields => cases h
    | list copy =>
      refine ⟨itemsCost format.repr copy, ⟨copy, h, rfl, rfl⟩, ?_⟩
      have hlen := List.Forall₂.length_eq h
      show cost format.repr (.arr copy) - 1 = listMinimum items.length - 1 + _
      rw [cost_arr, hlen]
      unfold listMinimum
      split_ifs <;> omega
  | dict entries =>
    cases target with
    | list items => cases h
    | dict copy =>
      refine ⟨fieldsCost format.repr copy, ⟨copy, h, rfl, rfl⟩, ?_⟩
      have hlen := List.Forall₂.length_eq h
      show cost format.repr (.obj copy) - 1 = dictMinimum entries.length - 1 + _
      rw [cost_obj, hlen]
      unfold dictMinimum
      split_ifs <;> omega

/-- What reading a value that unfolds to `j` does: the copy, or a frame that will be it. -/
def ValueBound (heap : Heap) (repr : Float64 → List Char) (r : Reader) (j : Json) :
    Found × Reader → Prop
  | (.leaf copy, r') => copy = j ∧ r' = r.charged (cost repr j - 1)
  | (.child entries id, r') => ∃ amount m, r' = r.charged amount ∧
      entries.start.Finishes heap repr j m ∧ cost repr j - 1 = amount + m ∧
      ∀ i, id = some i → Unfolds heap j (.container i)

theorem value_bound (format : FloatFormat) (top : Text)
    (hmemo : ∀ id target, r.readInFull.get? id = some target →
      Unfolds heap target.json (.container id))
    (hraw : raw.Unfolds heap j)
    (hpath : ∀ id, Unfolds heap j (.container id) → id ∉ r.onPath) :
    (∀ answer, r.value format.repr heap raw top = .ok answer →
      ValueBound heap format.repr r j answer) ∧
    ∀ fault, r.value format.repr heap raw top = .error fault →
      maxBytes < r.total + (cost format.repr j - 1) ∨ ¬ WellFormed j ∧ ¬ fault.IsSize := by
  have hun := Raw.unfolds_iff.mp hraw
  cases hleaf : (raw.view heap).leaf with
  | some j' =>
    rw [View.unfolds_of_leaf hleaf] at hun
    subst hun
    refine ⟨fun answer h => ?_, (value_leaf hleaf).2⟩
    obtain ⟨hfound, -, -, hr⟩ := (value_leaf hleaf).1 answer.1 answer.2 h
    obtain ⟨found, r'⟩ := answer
    cases hfound
    exact ⟨rfl, hr⟩
  | none =>
    cases hview : raw.view heap with
    | foreign =>
      rw [hview] at hun
      cases hun
    | container entries id =>
      rw [hview] at hun
      obtain ⟨target, rfl, htarget⟩ := hun
      have hfound : ∀ entries' id', r.container entries id top = .ok (entries', id') →
          ∃ m, entries'.start.Finishes heap format.repr target.json m ∧
            cost format.repr target.json - 1 = entries'.minimum - 1 + m ∧
            ∀ i, id' = some i → Unfolds heap target.json (.container i) := by
        intro entries' id' hcontainer
        obtain ⟨hentries, hid⟩ := container_sound hmemo hview hcontainer
        obtain ⟨m, hfin, hcost⟩ := start_finishes format ((hentries target).mpr hraw)
        exact ⟨m, hfin, hcost, fun i hi => hid i hi _ hraw⟩
      refine ⟨fun answer h => ?_, fun fault h => ?_⟩
      · obtain ⟨found, r'⟩ := answer
        obtain ⟨entries', id', hcontainer, rfl, -, rfl⟩ := (value_container hview).mp h
        obtain ⟨m, hfin, hcost, hid⟩ := hfound entries' id' hcontainer
        exact ⟨_, m, rfl, hfin, hcost, hid⟩
      · rcases (value_container_error hview).mp h with h | ⟨entries', id', hcontainer, hlt, -⟩
        · -- The only other rejection of a container is a cycle.
          exfalso
          unfold container at h
          cases id with
          | none => cases h
          | some id =>
            dsimp only at h
            split_ifs at h with hmem
            · rw [eq_of_view_container hview] at hraw
              exact hpath id hraw hmem
            · cases hm : r.readInFull.get? id <;> rw [hm] at h <;> cases h
        · obtain ⟨m, -, hcost, -⟩ := hfound entries' id' hcontainer
          exact Or.inl (hlt.trans_le (by omega))
    | _ =>
      rw [hview] at hleaf
      cases hleaf

/-- Putting a value that was read in its place keeps the reader on its way. -/
theorem place_bound {frame : Frame} {below : List Frame} {progress : Progress} {found : Found}
    {m n : ℕ}
    (hmemo : ∀ id target, r.readInFull.get? id = some target →
      Unfolds heap target.json (.container id))
    (hpath : ∀ id ∈ r.onPath, ∃ frame' ∈ frame :: below, frame'.sourceId = some id)
    (hvalue : ValueBound heap format.repr r j (found, r'))
    (hput : (progress.put slot j).Finishes heap format.repr T m)
    (hsource : ∀ id, frame.sourceId = some id → Unfolds heap T (.container id))
    (howes : Owes heap format.repr J T frame.slot below n)
    (htotal : r.total + (cost format.repr j - 1) + m + n = cost format.repr J) :
    (r'.place frame below progress slot top found).Bound heap format.repr J := by
  cases found with
  | leaf copy =>
    obtain ⟨rfl, rfl⟩ := hvalue
    refine ⟨hmemo, fun id hid => ?_, _, _, rfl, T, m, n, hput, hsource, howes, htotal⟩
    obtain ⟨frame', hframe', hsid⟩ := hpath id hid
    rcases List.mem_cons.mp hframe' with rfl | hframe'
    · exact ⟨_, List.mem_cons_self, hsid⟩
    · exact ⟨frame', List.mem_cons_of_mem _ hframe', hsid⟩
  | child entries source =>
    obtain ⟨amount, m', rfl, hstart, hcost, hid⟩ := hvalue
    refine ⟨hmemo, fun id hmem => ?_, _, _, rfl, j, m', m + n, hstart, hid,
      ⟨T, m, n, hput, hsource, rfl, howes⟩, ?_⟩
    · -- An identity on the path is the new frame's or was there before.
      have hcases : source = some id ∨ id ∈ r.onPath := by
        cases source with
        | none => exact Or.inr hmem
        | some i =>
          rcases Finset.mem_insert.mp hmem with rfl | hmem
          · exact Or.inl rfl
          · exact Or.inr hmem
      rcases hcases with hnew | hold
      · exact ⟨_, List.mem_cons_self, hnew⟩
      · obtain ⟨frame', hframe', hsid⟩ := hpath id hold
        rcases List.mem_cons.mp hframe' with rfl | hframe'
        · exact ⟨_, List.mem_cons_of_mem _ List.mem_cons_self, hsid⟩
        · exact ⟨frame', List.mem_cons_of_mem _ (List.mem_cons_of_mem _ hframe'), hsid⟩
    · show r.total + amount + m' + (m + n) = _
      omega

/-- What one turn leads to: the whole copy for exactly its charge, or further on the way. -/
def AnswerBound (heap : Heap) (repr : Float64 → List Char) (J : Json) :
    Target × Reader ⊕ Reader → Prop
  | .inl (target, r') => target.json = J ∧ r'.total = cost repr J
  | .inr r' => r'.Bound heap repr J

/-- A finished frame leads on. -/
theorem finish_bound {frame : Frame} {below : List Frame} {m n : ℕ}
    (hmemo : ∀ id target, r.readInFull.get? id = some target →
      Unfolds heap target.json (.container id))
    (hpath : ∀ id ∈ r.onPath, ∃ frame' ∈ frame :: below, frame'.sourceId = some id)
    (hdone : frame.progress.remaining = 0)
    (hfin : frame.progress.Finishes heap format.repr T m)
    (hsource : ∀ id, frame.sourceId = some id → Unfolds heap T (.container id))
    (howes : Owes heap format.repr J T frame.slot below n)
    (htotal : r.total + m + n = cost format.repr J) :
    AnswerBound heap format.repr J (r.finish frame below) := by
  -- Nothing is left, so that the copy is the tree.
  have hT : frame.progress.target.json = T ∧ m = 0 := by
    cases hp : frame.progress with
    | list rest target =>
      rw [hp] at hdone hfin
      obtain ⟨more, hmore, rfl, rfl⟩ := hfin
      cases List.length_eq_zero_iff.mp hdone
      cases hmore
      exact ⟨by rw [List.append_nil]; rfl, rfl⟩
    | dict rest target =>
      rw [hp] at hdone hfin
      obtain ⟨more, hmore, rfl, rfl⟩ := hfin
      cases List.length_eq_zero_iff.mp hdone
      cases hmore
      exact ⟨by rw [List.append_nil]; rfl, rfl⟩
  obtain ⟨rfl, rfl⟩ := hT
  unfold finish
  cases below with
  | nil =>
    obtain ⟨hJ, rfl⟩ := howes
    refine ⟨hJ, ?_⟩
    cases frame.sourceId <;> exact htotal
  | cons parent rest =>
    obtain ⟨T', m', n', hput, hsource', rfl, hrest⟩ := howes
    have hmem : ∀ {id}, (∃ frame' ∈ frame :: parent :: rest, frame'.sourceId = some id) →
        frame.sourceId ≠ some id → ∃ frame' ∈
          { parent with progress := parent.progress.put frame.slot frame.progress.target.json } ::
            rest, frame'.sourceId = some id := by
      rintro id ⟨frame', hframe', hsid⟩ hne
      rcases List.mem_cons.mp hframe' with rfl | hframe'
      · exact absurd hsid hne
      · rcases List.mem_cons.mp hframe' with rfl | hframe'
        · exact ⟨_, List.mem_cons_self, hsid⟩
        · exact ⟨frame', List.mem_cons_of_mem _ hframe', hsid⟩
    cases hid : frame.sourceId with
    | none =>
      refine ⟨hmemo, fun id hpid => hmem (hpath id hpid) (by rw [hid]; simp), _, _, rfl, T', m', n',
        hput, hsource', hrest, ?_⟩
      show r.total + m' + n' = _
      omega
    | some source =>
      refine ⟨fun id target h => ?_, fun id hpid => ?_, _, _, rfl, T', m', n', hput, hsource',
        hrest, ?_⟩
      · have h : (r.readInFull.set source frame.progress.target).get? id = some target := h
        rw [Dict.get?_set] at h
        split_ifs at h with heq
        · cases h
          cases heq
          exact hsource source hid
        · exact hmemo id target h
      · obtain ⟨hne, hpid⟩ := Finset.mem_erase.mp hpid
        exact hmem (hpath id hpid) (by rw [hid]; simpa using Ne.symm hne)
      · show r.total + m' + n' = _
        omega

/-- Taking an entry of a `dict` whose rest unfolds. -/
theorem finishes_dict_cons {rawKey : Raw} {rest : List (Raw × Raw)} {target : List (Text × Json)}
    {m : ℕ} (h : (Progress.dict ((rawKey, raw) :: rest) target).Finishes heap format.repr T m) :
    ∃ key j m', rawKey.view heap = .str key ∧ raw.Unfolds heap j ∧
      ((Progress.dict rest target).put key j).Finishes heap format.repr T m' ∧
      m = key.length + (cost format.repr j - 1) + m' := by
  obtain ⟨more, hmore, rfl, rfl⟩ := h
  cases hmore with
  | @cons field _ more _ hentry hrest =>
    refine ⟨field.1, field.2, fieldsCost format.repr more, hentry.1, hentry.2,
      ⟨more, hrest, by rw [List.append_assoc]; rfl, rfl⟩, ?_⟩
    simp [fieldsCost]

theorem finishes_list_cons {rest : List Raw} {target : List Json} {m : ℕ}
    (h : (Progress.list (raw :: rest) target).Finishes heap format.repr T m) (slot : Text) :
    ∃ j m', raw.Unfolds heap j ∧
      ((Progress.list rest target).put slot j).Finishes heap format.repr T m' ∧
      m = cost format.repr j - 1 + m' := by
  obtain ⟨more, hmore, rfl, rfl⟩ := h
  cases hmore with
  | @cons j _ more _ hj hrest =>
    refine ⟨j, itemsCost format.repr more, hj,
      ⟨more, hrest, by rw [List.append_assoc]; rfl, rfl⟩, ?_⟩
    simp [itemsCost]

/-- Why a turn on an entry of a `dict` with a text key raises. -/
theorem advance_dict_error {frame : Frame} {below : List Frame} {rawKey rawValue : Raw}
    {rest : List (Raw × Raw)} {target : List (Text × Json)} {key : Text} {fault : Fault}
    (hprogress : frame.progress = .dict ((rawKey, rawValue) :: rest) target)
    (hview : rawKey.view heap = .str key)
    (h : r.advance format.repr heap frame below = .error fault) :
    maxBytes < r.total + key.length ∨
      (key.HasSurrogate ∨ key ∈ target.map Prod.fst) ∧ ¬ fault.IsSize ∨
      (r.charged key.length).value format.repr heap rawValue (frame.top.getD key) =
        .error fault := by
  unfold advance at h
  rw [hprogress] at h
  rcases except_bind_error.mp h with h | ⟨⟨key', r₁⟩, hkey, h⟩
  · unfold Reader.key at h
    rw [hview] at h
    rcases except_bind_error.mp h with h | ⟨r₁, -, h⟩
    · exact Or.inl (charge_error.mp h).1
    · split_ifs at h with hs
      · cases h
        exact Or.inr (Or.inl ⟨Or.inl hs, fun hf => hf⟩)
      · cases h
  · obtain ⟨hview', -, -, rfl⟩ := key_ok.mp hkey
    cases hview.symm.trans hview'
    dsimp only at h
    split_ifs at h with hdup
    · cases h
      exact Or.inr (Or.inl ⟨Or.inr hdup, fun hf => hf⟩)
    · rcases except_bind_error.mp h with h | ⟨_, _, h⟩
      · exact Or.inr (Or.inr h)
      · cases h

theorem advance_list_error {frame : Frame} {below : List Frame} {rest : List Raw}
    {target : List Json} {fault : Fault} (hprogress : frame.progress = .list (raw :: rest) target)
    (h : r.advance format.repr heap frame below = .error fault) :
    r.value format.repr heap raw (frame.top.getD []) = .error fault := by
  unfold advance at h
  rw [hprogress] at h
  rcases except_bind_error.mp h with h | ⟨_, _, h⟩
  · exact h
  · cases h

/-- A turn of a reader on its way leads on, and raises only if the tree is too large or breaks a
rule on values; a rejection under S6 means that it is too large. -/
theorem step_bound (h : r.Bound heap format.repr J) :
    (∀ answer, r.step format.repr heap = .ok answer → AnswerBound heap format.repr J answer) ∧
    ∀ fault, r.step format.repr heap = .error fault →
      maxBytes < cost format.repr J ∨ ¬ WellFormed J ∧ ¬ fault.IsSize := by
  obtain ⟨hmemo, hpath, frame, below, hstack, T, m, n, hfin, hsource, howes, htotal⟩ := h
  have hpath' : ∀ id ∈ r.onPath, ∃ frame' ∈ frame :: below, frame'.sourceId = some id := by
    rw [← hstack]
    exact hpath
  rw [step_eq hstack]
  rcases progress_cases frame.progress with
    hdone | ⟨rawKey, rawValue, rest, target, hprogress⟩ | ⟨raw, rest, target, hprogress⟩
  · rw [advance_done hdone]
    refine ⟨fun answer heq => ?_, fun fault heq => by cases heq⟩
    rw [← Except.ok.inj heq]
    exact finish_bound hmemo hpath' hdone hfin hsource howes htotal
  · rw [hprogress] at hfin
    obtain ⟨key, j, m', hview, hj, hput, rfl⟩ := finishes_dict_cons hfin
    have hlt := sizeOf_lt_of_put hput
    obtain ⟨hok, herror⟩ := value_bound (r := r.charged key.length) format (frame.top.getD key)
      hmemo hj fun id hid => not_mem_onPath hpath hstack hsource howes hid hlt
    refine ⟨fun answer heq => ?_, fun fault heq => ?_⟩
    · obtain ⟨key', found, r₁, hview', -, -, -, hvalue, rfl⟩ :=
        (advance_dict_ok hprogress).mp heq
      cases hview.symm.trans hview'
      refine place_bound (r := r.charged key.length) hmemo hpath' (hok _ hvalue) hput hsource howes
        ?_
      show r.total + key.length + _ + _ + _ = _
      omega
    · rcases advance_dict_error hprogress hview heq with hsize | ⟨hbad, hnot⟩ | hvalue
      · exact Or.inl (by omega)
      · refine Or.inr ⟨fun hw => ?_, hnot⟩
        -- The key breaks a rule in the tree too.
        have hT := howes.wellFormed hw
        obtain ⟨more, -, rfl, -⟩ := hput
        obtain ⟨hnodup, hall⟩ := wellFormed_obj.mp hT
        rcases hbad with hs | hdup
        · exact (hall (key, j) (by simp)).1 hs
        · rw [List.map_append, List.map_append] at hnodup
          have hdis := (List.nodup_append.mp (List.nodup_append.mp hnodup).1).2.2
          exact hdis key hdup key (by simp) rfl
      · rcases herror fault hvalue with hsize | ⟨hbad, hnot⟩
        · have hsize : maxBytes < r.total + key.length + (cost format.repr j - 1) := hsize
          exact Or.inl (by omega)
        · exact Or.inr ⟨fun hw => hbad (wellFormed_of_put hput (howes.wellFormed hw)), hnot⟩
  · rw [hprogress] at hfin
    obtain ⟨j, m', hj, hput, rfl⟩ := finishes_list_cons hfin []
    have hlt := sizeOf_lt_of_put hput
    obtain ⟨hok, herror⟩ := value_bound format (frame.top.getD []) hmemo hj fun id hid => not_mem_onPath hpath hstack hsource howes hid hlt
    refine ⟨fun answer heq => ?_, fun fault heq => ?_⟩
    · obtain ⟨found, r₁, hvalue, rfl⟩ := (advance_list_ok hprogress).mp heq
      refine place_bound hmemo hpath' (hok _ hvalue) hput hsource howes ?_
      omega
    · rcases herror fault (advance_list_error hprogress heq) with hsize | ⟨hbad, hnot⟩
      · exact Or.inl (by omega)
      · exact Or.inr ⟨fun hw => hbad (wellFormed_of_put hput (howes.wellFormed hw)), hnot⟩

/-- The loop of a reader on its way: it returns the tree for exactly its charge, or raises for the
same reasons as a turn. -/
theorem loop_bound (h : r.Bound heap format.repr J) :
    (∀ target r', r.loop format.repr heap = .ok (target, r') →
      target.json = J ∧ r'.total = cost format.repr J) ∧
    ∀ fault, r.loop format.repr heap = .error fault →
      maxBytes < cost format.repr J ∨ ¬ WellFormed J ∧ ¬ fault.IsSize := by
  induction r using loop.induct format.repr heap with
  | case1 r fault hstep =>
    rw [loop_eq, hstep]
    refine ⟨fun target r' heq => (by cases heq), fun fault' heq => ?_⟩
    cases heq
    exact (step_bound h).2 fault hstep
  | case2 r answer hstep =>
    rw [loop_eq, hstep]
    refine ⟨fun target r' heq => ?_, fun fault heq => by cases heq⟩
    cases heq
    exact (step_bound h).1 _ hstep
  | case3 r r₁ hstep ih =>
    rw [loop_eq, hstep]
    exact ih ((step_bound h).1 _ hstep)

end Reader

/-! ### The whole validation -/

/-- R1 and R2. -/
structure Registered (fields : List (Text × Json)) : Prop where
  keys : ∀ p ∈ fields, isRegistered p.1 = true
  weight : ∀ weight, Dict.lookup (("weight" : String) : Text) fields = some weight →
    ∃ n, jsonInteger weight = some n ∧ 0 ≤ n ∧ n ≤ maxWeight

/-- The rules on a document that unfolds to an object with these fields. -/
structure Admissible (repr : Float64 → List Char) (fields : List (Text × Json)) : Prop where
  /-- S2. -/
  keys : fields.length ≤ maxKeys
  /-- S4, S5 and S8. -/
  values : WellFormed (.obj fields)
  /-- S6. -/
  size : (Json.text repr (.obj fields)).length ≤ maxBytes
  /-- S3, and R1 and R2 up to the version this build interprets. -/
  version : ∃ value version,
    Dict.lookup (("attributes_version" : String) : Text) fields = some value ∧
      jsonInteger value = some version ∧ 1 ≤ version ∧
      (version ≤ knownVersion → Registered fields)

theorem checkVersionAndRegistry_ok {fields : List (Text × Json)} :
    checkVersionAndRegistry fields = .ok () ↔ ∃ value version,
      Dict.lookup (("attributes_version" : String) : Text) fields = some value ∧
        jsonInteger value = some version ∧ 1 ≤ version ∧
        (version ≤ knownVersion → Registered fields) := by
  unfold checkVersionAndRegistry
  cases hvalue : Dict.lookup (("attributes_version" : String) : Text) fields with
  | none => simp
  | some value =>
    cases hversion : jsonInteger value with
    | none => simp [hversion]
    | some version =>
      dsimp only
      -- The document has one version, so that the statement is about that one.
      have hreg : (∃ value' version', some value = some value' ∧
          jsonInteger value' = some version' ∧ 1 ≤ version' ∧
          (version' ≤ knownVersion → Registered fields)) ↔
          1 ≤ version ∧ (version ≤ knownVersion → Registered fields) := by
        constructor
        · rintro ⟨value', version', hv, hi, h⟩
          cases hv
          cases hversion.symm.trans hi
          exact h
        · exact fun h => ⟨value, version, rfl, hversion, h⟩
      rw [hreg, hversion]
      dsimp only
      split_ifs with hlow hhigh
      · simp [not_le.mpr hlow]
      · simp [not_lt.mp hlow, not_le.mpr hhigh]
      -- A version that this build knows is held to the registry.
      · have hknown : version ≤ knownVersion := not_lt.mp hhigh
        cases hfind : fields.find? fun p => !isRegistered p.1 with
        | some p =>
          have hp := List.find?_some hfind
          have hmem := List.mem_of_find?_eq_some hfind
          refine ⟨fun h => (by cases h), fun h => ?_⟩
          rw [(h.2 hknown).keys p hmem] at hp
          cases hp
        | none =>
          have hkeys : ∀ p ∈ fields, isRegistered p.1 = true := by
            simpa using List.find?_eq_none.mp hfind
          have hiff : 1 ≤ version ∧ (version ≤ knownVersion → Registered fields) ↔
              Registered fields :=
            ⟨fun h => h.2 hknown, fun h => ⟨not_lt.mp hlow, fun _ => h⟩⟩
          rw [hiff]
          cases hweight : Dict.lookup (("weight" : String) : Text) fields with
          | none =>
            refine ⟨fun _ => ⟨hkeys, fun weight h => ?_⟩, fun _ => rfl⟩
            rw [hweight] at h
            cases h
          | some weight =>
            cases hn : jsonInteger weight with
            | none =>
              refine ⟨fun h => (by simp [hn] at h), fun h => ?_⟩
              obtain ⟨n, hn', -⟩ := h.weight weight hweight
              rw [hn] at hn'
              cases hn'
            | some n =>
              simp only [hn]
              constructor
              · intro h
                split_ifs at h with hrange
                refine ⟨hkeys, fun weight' h' => ⟨n, ?_, hrange⟩⟩
                cases hweight.symm.trans h'
                exact hn
              · intro h
                obtain ⟨n', hn', hrange⟩ := h.weight weight hweight
                cases hn.symm.trans hn'
                rw [if_pos hrange]

/-- The rules on the copy do not measure it. -/
theorem checkVersionAndRegistry_error {fields : List (Text × Json)} {fault : Fault}
    (h : checkVersionAndRegistry fields = .error fault) : ¬ fault.IsSize := by
  unfold checkVersionAndRegistry at h
  intro hs
  repeat' split at h
  all_goals cases h
  all_goals exact hs

/-- The reader as `read` starts it on a `dict`. -/
def startReader (entries : List (Raw × Raw)) (id : Option ℕ) : Reader :=
  ⟨dictMinimum entries.length, .empty, [⟨.dict entries [], none, id, []⟩], id.toFinset⟩

/-- What `read` does on a `dict`: it checks S2 and runs the loop. -/
theorem read_eq {format : FloatFormat} {document : Value} {entries : List (Raw × Raw)}
    {id : Option ℕ} (hview : (Raw.value document).view heap = .container (.dict entries) id) :
    read format.repr heap document =
      if maxKeys < entries.length then .error (.tooManyKeys entries.length)
      else (startReader entries id).loop format.repr heap >>= fun answer =>
        .ok (answer.1.fields, answer.2) := by
  unfold read
  rw [hview]
  dsimp only
  split_ifs with hkeys
  · rfl
  · have hmin : dictMinimum entries.length ≤ maxBytes := by
      unfold dictMinimum maxBytes
      unfold maxKeys at hkeys
      split_ifs <;> omega
    have hcharge : (⟨0, .empty, [], ∅⟩ : Reader).charge (dictMinimum entries.length) none =
        .ok ⟨dictMinimum entries.length, .empty, [], ∅⟩ := by
      unfold Reader.charge
      rw [if_neg (by simpa using hmin)]
      simp [Reader.charged]
    rw [hcharge]
    rfl

/-- What a document seen as a `dict` unfolds to. -/
theorem unfolds_of_view {document : Value} {entries : List (Raw × Raw)} {id : Option ℕ}
    (hview : (Raw.value document).view heap = .container (.dict entries) id) {j : Json} :
    Unfolds heap j document ↔
      ∃ fields, j = .obj fields ∧ List.Forall₂ (EntryUnfolds heap) fields entries := by
  have h : Unfolds heap j document ↔ (Raw.value document).Unfolds heap j := Iff.rfl
  rw [h, Raw.unfolds_iff, hview]
  constructor
  · rintro ⟨target, rfl, ht⟩
    cases target with
    | list items => cases ht
    | dict fields => exact ⟨fields, rfl, ht⟩
  · rintro ⟨fields, rfl, hfields⟩
    exact ⟨.dict fields, rfl, hfields⟩

theorem source_of_view {document : Value} {entries : Entries} {id : Option ℕ}
    (hview : (Raw.value document).view heap = .container entries id) (i : ℕ) (hi : id = some i)
    (j : Json) (hj : Unfolds heap j document) : Unfolds heap j (.container i) := by
  subst hi
  have hdocument := Reader.eq_of_view_container hview
  cases hdocument
  exact hj

/-- The loop of `read` on a document that unfolds. -/
theorem startReader_bound {format : FloatFormat} {document : Value}
    {entries : List (Raw × Raw)} {id : Option ℕ}
    (hview : (Raw.value document).view heap = .container (.dict entries) id)
    {fields : List (Text × Json)} (hfields : List.Forall₂ (EntryUnfolds heap) fields entries) :
    (∀ target r', (startReader entries id).loop format.repr heap = .ok (target, r') →
      target.json = .obj fields ∧ r'.total = cost format.repr (.obj fields)) ∧
    ∀ fault, (startReader entries id).loop format.repr heap = .error fault →
      maxBytes < cost format.repr (.obj fields) ∨
        ¬ WellFormed (.obj fields) ∧ ¬ fault.IsSize := by
  refine Reader.loop_bound ⟨fun id target h => (by cases h), fun i hi => ?_, _, _, rfl,
    .obj fields, fieldsCost format.repr fields, 0, ⟨fields, hfields, rfl, rfl⟩, fun i hi => ?_,
    ⟨rfl, rfl⟩, ?_⟩
  · exact ⟨_, List.mem_cons_self, Option.mem_toFinset.mp hi⟩
  · exact source_of_view hview i hi _ ((unfolds_of_view hview).mpr ⟨fields, rfl, hfields⟩)
  · rw [cost_obj, hfields.length_eq]
    rfl

/-- What `read` returns is the unfolding, read for exactly its charge. -/
theorem read_ok {format : FloatFormat} {document : Value} {fields : List (Text × Json)}
    {r : Reader} (h : read format.repr heap document = .ok (fields, r)) :
    Unfolds heap (.obj fields) document ∧ fields.length ≤ maxKeys ∧ WellFormed (.obj fields) ∧
      r.total = cost format.repr (.obj fields) := by
  cases hview : (Raw.value document).view heap with
  | container entries id =>
    cases entries with
    | list items =>
      unfold read at h
      rw [hview] at h
      cases h
    | dict entries =>
      rw [read_eq hview] at h
      split_ifs at h with hkeys
      obtain ⟨⟨target, r'⟩, hloop, h⟩ := except_bind_ok.mp h
      cases h
      -- Soundness says that the copy is the unfolding.
      have hsound : (startReader entries id).Sound heap fun j => Unfolds heap j document := by
        refine ⟨fun id target h => (by cases h), _, _, rfl, fun j => Unfolds heap j document,
          fun more hmore => ?_, ?_, source_of_view hview, fun j hj => hj⟩
        · rw [List.nil_append]
          exact (unfolds_of_view hview).mpr ⟨more, rfl, hmore⟩
        · exact wellFormed_obj.mpr ⟨List.nodup_nil, fun p hp => absurd hp List.not_mem_nil⟩
      obtain ⟨hun, hwell⟩ := Reader.loop_sound hsound hloop
      obtain ⟨fields, hjson, hfields⟩ := (unfolds_of_view hview).mp hun
      have htarget : target = .dict fields := Target.json_inj hjson
      subst htarget
      refine ⟨hun, hfields.length_eq ▸ not_lt.mp hkeys, hwell, ?_⟩
      exact ((startReader_bound hview hfields).1 _ _ hloop).2
  | _ =>
    unfold read at h
    rw [hview] at h
    cases h

/-- A document that unfolds is read, unless it has too many keys, is too large, or breaks a rule on
values. -/
theorem read_error {format : FloatFormat} {document : Value} {j : Json} {fault : Fault}
    (hun : Unfolds heap j document) (h : read format.repr heap document = .error fault) :
    (∀ fields, j = .obj fields →
      maxKeys < fields.length ∨ maxBytes < cost format.repr j ∨ ¬ WellFormed j) ∧
    (fault.IsSize → maxBytes < cost format.repr j) := by
  cases hview : (Raw.value document).view heap with
  | container entries id =>
    cases entries with
    | list items =>
      unfold read at h
      rw [hview] at h
      cases h
      have hun' : (Raw.value document).Unfolds heap j := hun
      rw [Raw.unfolds_iff, hview] at hun'
      obtain ⟨target, rfl, ht⟩ := hun'
      refine ⟨fun fields hj => ?_, fun hs => hs.elim⟩
      rw [show target = .dict fields from Target.json_inj hj] at ht
      exact ht.elim
    | dict entries =>
      obtain ⟨fields, rfl, hfields⟩ := (unfolds_of_view hview).mp hun
      rw [read_eq hview] at h
      split_ifs at h with hkeys
      · cases h
        refine ⟨fun fields' hj => Or.inl ?_, fun hs => hs.elim⟩
        cases hj
        rw [hfields.length_eq]
        exact hkeys
      · rcases except_bind_error.mp h with h | ⟨_, _, h⟩
        · rcases (startReader_bound hview hfields).2 fault h with hsize | ⟨hbad, hnot⟩
          · exact ⟨fun _ _ => Or.inr (Or.inl hsize), fun _ => hsize⟩
          · exact ⟨fun _ _ => Or.inr (Or.inr hbad), fun hs => absurd hs hnot⟩
        · cases h
  | _ =>
    unfold read at h
    rw [hview] at h
    cases h
    have hun' : (Raw.value document).Unfolds heap j := hun
    rw [Raw.unfolds_iff, hview] at hun'
    refine ⟨fun fields hj => ?_, fun hs => hs.elim⟩
    first
    | exact hun'.elim
    | exact absurd (hun'.symm.trans hj) (by simp)

/-- The checks after the read. -/
theorem canonicalize_of_read {format : FloatFormat} {document : Value}
    {fields : List (Text × Json)} {r : Reader}
    (h : read format.repr heap document = .ok (fields, r)) (c : CanonicalAttributes) :
    canonicalizeIpAttributes format.repr heap document = .ok c ↔
      checkVersionAndRegistry fields = .ok () ∧
        (Json.text format.repr (.obj fields)).length ≤ maxBytes ∧
        c = ⟨fields, Json.text format.repr (.obj fields)⟩ := by
  unfold canonicalizeIpAttributes
  rw [h]
  show (checkVersionAndRegistry fields >>= _) = _ ↔ _
  rw [except_bind_ok]
  constructor
  · rintro ⟨_, hcheck, h⟩
    dsimp only at h
    split_ifs at h with hsize
    cases h
    exact ⟨hcheck, not_lt.mp hsize, rfl⟩
  · rintro ⟨hcheck, hsize, rfl⟩
    exact ⟨(), hcheck, if_neg (not_lt.mpr hsize)⟩

/-- Attribute validation is exact. Whatever the heap, with any sharing and any cycles, it ends; it
succeeds exactly on the documents whose unfolding is a finite tree that the rules admit, and then
returns that tree and its compact text; the bound it has been charged is then the sum over the tree,
each shared part as often as it is met, and is at most the size of the text; and a document whose
text is within the cap is never rejected under S6. -/
theorem canonicalize_exact (format : FloatFormat) (heap : Heap) (document : Value) :
    (∀ c, canonicalizeIpAttributes format.repr heap document = .ok c ↔
      ∃ fields, Unfolds heap (.obj fields) document ∧ Admissible format.repr fields ∧
        c = ⟨fields, Json.text format.repr (.obj fields)⟩) ∧
    (∀ fields r, read format.repr heap document = .ok (fields, r) →
      Unfolds heap (.obj fields) document ∧ r.total = cost format.repr (.obj fields) ∧
        r.total ≤ (Json.text format.repr (.obj fields)).length) ∧
    ∀ j, Unfolds heap j document → (Json.text format.repr j).length ≤ maxBytes →
      ∀ fault, canonicalizeIpAttributes format.repr heap document = .error fault →
        ¬ fault.IsSize := by
  refine ⟨fun c => ⟨fun h => ?_, ?_⟩, fun fields r h => ?_, fun j hun hsize fault h hs => ?_⟩
  · -- A result comes from a read, which returns the unfolding.
    have h' := h
    unfold canonicalizeIpAttributes at h
    obtain ⟨⟨fields, r⟩, hread, -⟩ := except_bind_ok.mp h
    obtain ⟨hcheck, hsize, hc⟩ := (canonicalize_of_read hread c).mp h'
    obtain ⟨hun, hkeys, hwell, -⟩ := read_ok hread
    exact ⟨fields, hun, ⟨hkeys, hwell, hsize, checkVersionAndRegistry_ok.mp hcheck⟩, hc⟩
  · rintro ⟨fields, hun, hadm, rfl⟩
    have hcost := (cost_le_length format (.obj fields)).trans hadm.size
    cases hread : read format.repr heap document with
    | error fault =>
      rcases (read_error hun hread).1 fields rfl with hkeys | hlarge | hbad
      · exact absurd hadm.keys (not_le.mpr hkeys)
      · exact absurd hcost (not_le.mpr hlarge)
      · exact absurd hadm.values hbad
    | ok answer =>
      obtain ⟨fields', r⟩ := answer
      cases hun.unique (read_ok hread).1
      exact (canonicalize_of_read hread _).mpr
        ⟨checkVersionAndRegistry_ok.mpr hadm.version, hadm.size, rfl⟩
  · obtain ⟨hun, -, -, htotal⟩ := read_ok h
    exact ⟨hun, htotal, htotal ▸ cost_le_length format _⟩
  · unfold canonicalizeIpAttributes at h
    rcases except_bind_error.mp h with h | ⟨⟨fields, r⟩, hread, h⟩
    · have := (read_error hun h).2 hs
      exact absurd ((cost_le_length format j).trans hsize) (not_le.mpr this)
    · cases hun.unique (read_ok hread).1
      rcases except_bind_error.mp h with h | ⟨_, -, h⟩
      · exact checkVersionAndRegistry_error h hs
      · dsimp only at h
        split_ifs at h with hlarge
        · exact absurd hsize (not_le.mpr hlarge)
        · cases h

end Hammertime.Attributes
