import Mathlib.Data.List.Pairwise
import Hammertime.Detection
import Hammertime.Lib.Machine

/-!
# The configuration poller

`ConfigPoller` of `hammertime.core.runtime`. `poll_once` reads the document, compares its version with
the one in force, awaits the service's apply hook, and only then puts the new version in force. The
polling loop and `reload_config` both call it, and nothing keeps one call out while another waits in
the hook, so the comparison may be with a version that is no longer in force when the hook returns.

The hooks that suspend are `AggregatorWorker.apply_config` and `TrieWorker.apply_config`. Both hold
their worker's `asyncio.Lock` until they return, and the lock is given to those who wait for it in the
order in which they asked, so that calls leave the hook in the order in which they entered it. The hook
of ingest never suspends.

Loading is a parameter here: what matters is whether a document is rejected, and the configuration it
gives otherwise.
-/

namespace Hammertime.Config

open Lib

variable {Document : Type}

/-- A `ConfigPoller` with the calls of `poll_once` that are inside the apply hook. -/
structure Poller where
  current : DetectionConfig
  /-- The calls inside the hook, each with its candidate, in the order in which they entered it: the
  first has the lock, or is the next to have it. -/
  applying : List (ℕ × DetectionConfig)
  /-- The configurations applied so far, in the order in which their applications completed. -/
  applied : List DetectionConfig

/-- What happens next. -/
inductive PollAction (Document : Type) where
  /-- A call of `poll_once` runs up to the hook, with the contents that the document has then. -/
  | poll (call : ℕ) (document : Document)
  /-- The hook of a call returns, which only that of the first one does. -/
  | applyReturns (call : ℕ)
  /-- The hook of a call raises: its pass does, or the call is cancelled in the pass or before it. -/
  | applyRaises (call : ℕ)

variable (load : Document → Except Failure DetectionConfig)

/-- The configuration is put in force. -/
def Poller.assign (poller : Poller) (candidate : DetectionConfig) : Poller :=
  { poller with current := candidate, applied := poller.applied ++ [candidate] }

/-- The call enters the hook, behind those that are in it. -/
def Poller.enter (poller : Poller) (call : ℕ) (candidate : DetectionConfig) : Poller :=
  { poller with applying := poller.applying ++ [(call, candidate)] }

/-- The call leaves the hook. -/
def Poller.leave (poller : Poller) (call : ℕ) : Poller :=
  { poller with applying := poller.applying.filter fun other => other.1 ≠ call }

/-- `poll_once`, as far as the hook. Without a hook, or with one that does not suspend, the assignment
follows at once. -/
def Poller.poll (suspends : Bool) (poller : Poller) (call : ℕ) (document : Document) : Poller :=
  match load document with
  -- `config_rejected`.
  | .error _ => poller
  | .ok candidate =>
    if candidate.configVersion ≤ poller.current.configVersion then poller
    else if suspends then poller.enter call candidate
    else poller.assign candidate

/-- One step of a poller. A call that is already in the hook is not made again. -/
def Poller.step (suspends : Bool) (poller : Poller) : PollAction Document → Poller
  | .poll call document =>
    if call ∈ poller.applying.map Prod.fst then poller else poller.poll load suspends call document
  | .applyReturns call =>
    match poller.applying with
    | [] => poller
    | (first, candidate) :: waiting =>
      -- The lock is released and the configuration assigned before anything else runs.
      if first = call then { poller with applying := waiting }.assign candidate else poller
  | .applyRaises call => poller.leave call

/-- `ConfigPoller(path, current, ...)`. -/
def Poller.start (current : DetectionConfig) : Poller := ⟨current, [], []⟩

/-- A call that passes the version check has read a newer version than every call inside the hook. -/
def NewerThanApplying (poller : Poller) : PollAction Document → Prop
  | .poll _ document => ∀ candidate, load document = .ok candidate →
      poller.current.configVersion < candidate.configVersion →
      ∀ other ∈ poller.applying, other.2.configVersion < candidate.configVersion
  | _ => True

/-! ### What a step can do -/

/-- The steps of a poller. -/
inductive Stepped (suspends : Bool) (poller : Poller) : PollAction Document → Poller → Prop
  /-- The call is made already, or its document is rejected or not newer, or it is not its turn. -/
  | nothing (action : PollAction Document) : Stepped suspends poller action poller
  | passes {call : ℕ} {document : Document} {candidate : DetectionConfig} : suspends = true →
      load document = .ok candidate →
      poller.current.configVersion < candidate.configVersion →
      Stepped suspends poller (.poll call document) (poller.enter call candidate)
  | assigns {call : ℕ} {document : Document} {candidate : DetectionConfig} : suspends = false →
      load document = .ok candidate →
      poller.current.configVersion < candidate.configVersion →
      Stepped suspends poller (.poll call document) (poller.assign candidate)
  | returns {call : ℕ} {candidate : DetectionConfig} {waiting : List (ℕ × DetectionConfig)} :
      poller.applying = (call, candidate) :: waiting →
      Stepped suspends poller (.applyReturns call)
        ({ poller with applying := waiting }.assign candidate)
  | raises (call : ℕ) : Stepped suspends poller (.applyRaises call) (poller.leave call)

theorem step_stepped (suspends : Bool) (poller : Poller) (action : PollAction Document) :
    Stepped load suspends poller action (poller.step load suspends action) := by
  cases action with
  | poll call document =>
    by_cases hmade : call ∈ poller.applying.map Prod.fst
    · have hstep : poller.step load suspends (.poll call document) = poller := if_pos hmade
      rw [hstep]
      exact .nothing _
    · have hstep : poller.step load suspends (.poll call document) =
          poller.poll load suspends call document := if_neg hmade
      rw [hstep]
      unfold Poller.poll
      cases hload : load document with
      | error e => exact .nothing _
      | ok candidate =>
        dsimp only
        by_cases hold : candidate.configVersion ≤ poller.current.configVersion
        · rw [if_pos hold]
          exact .nothing _
        · rw [if_neg hold]
          by_cases hsuspends : suspends = true
          · rw [if_pos hsuspends]
            exact .passes hsuspends hload (not_le.mp hold)
          · rw [if_neg hsuspends]
            exact .assigns (Bool.eq_false_iff.mpr hsuspends) hload (not_le.mp hold)
  | applyReturns call =>
    cases happlying : poller.applying with
    | nil =>
      simp only [Poller.step, happlying]
      exact .nothing _
    | cons head waiting =>
      obtain ⟨first, candidate⟩ := head
      simp only [Poller.step, happlying]
      split_ifs with hfirst
      · subst hfirst
        exact .returns happlying
      · exact .nothing _
  | applyRaises call => exact .raises call

/-! ### What is in force -/

/-- The configuration in force is the last one applied, or the initial one. -/
def InForce (initial : DetectionConfig) (poller : Poller) : Prop :=
  poller.current = poller.applied.getLast?.getD initial

theorem InForce.assign (initial : DetectionConfig) (poller : Poller) (candidate : DetectionConfig) :
    InForce initial (poller.assign candidate) := by
  unfold InForce Poller.assign
  rw [List.getLast?_concat]
  rfl

theorem InForce.step {initial : DetectionConfig} {suspends : Bool} {poller poller' : Poller}
    {action : PollAction Document} (h : InForce initial poller)
    (hstep : Stepped load suspends poller action poller') : InForce initial poller' := by
  cases hstep with
  | nothing => exact h
  | passes => exact h
  | assigns => exact InForce.assign initial poller _
  | returns => exact InForce.assign initial _ _
  | raises => exact h

/-- A document that is rejected, and a hook that raises, leave the configuration in force. -/
theorem current_step (suspends : Bool) (poller : Poller) (action : PollAction Document)
    (h : (∃ call document e, action = .poll call document ∧ load document = .error e) ∨
      ∃ call, action = .applyRaises call) :
    (poller.step load suspends action).current = poller.current := by
  obtain ⟨call, document, e, rfl, he⟩ | ⟨call, rfl⟩ := h
  · simp only [Poller.step, Poller.poll, he, ite_self]
  · rfl

/-! ### Versions -/

/-- The versions applied so far and then those inside the hook increase, and the one in force is the
newest applied. A hook that does not suspend has no call inside. -/
structure Forward (suspends : Bool) (initial : DetectionConfig) (poller : Poller) : Prop where
  increasing : ((initial :: poller.applied ++ poller.applying.map Prod.snd).map
    DetectionConfig.configVersion).Pairwise (· < ·)
  bounded : ∀ config ∈ initial :: poller.applied,
    config.configVersion ≤ poller.current.configVersion
  idle : suspends = false → poller.applying = []

variable {suspends : Bool} {initial candidate : DetectionConfig} {poller poller' : Poller}

/-- A version that is newer than the one in force and than those inside the hook continues them. -/
theorem Forward.newest (h : Forward suspends initial poller)
    (hnew : poller.current.configVersion < candidate.configVersion)
    (hnewest : ∀ other ∈ poller.applying, other.2.configVersion < candidate.configVersion) :
    ((initial :: poller.applied ++ poller.applying.map Prod.snd ++ [candidate]).map
      DetectionConfig.configVersion).Pairwise (· < ·) := by
  rw [List.map_append, List.pairwise_append]
  refine ⟨h.increasing, List.pairwise_singleton _ _, fun v hv w hw => ?_⟩
  rw [List.mem_singleton.mp hw]
  obtain ⟨config, hconfig, rfl⟩ := List.mem_map.mp hv
  obtain hconfig | hconfig := List.mem_append.mp hconfig
  · exact (h.bounded config hconfig).trans_lt hnew
  · obtain ⟨other, hother, rfl⟩ := List.mem_map.mp hconfig
    exact hnewest other hother

/-- The call with the newest version enters the hook. -/
theorem Forward.enter (h : Forward suspends initial poller) (hsuspends : suspends = true)
    (hnew : poller.current.configVersion < candidate.configVersion)
    (hnewest : ∀ other ∈ poller.applying, other.2.configVersion < candidate.configVersion)
    (call : ℕ) : Forward suspends initial (poller.enter call candidate) := by
  refine ⟨?_, h.bounded, fun hidle => ?_⟩
  · have hincreasing := h.newest hnew hnewest
    have hbehind : (poller.enter call candidate).applying.map Prod.snd =
        poller.applying.map Prod.snd ++ [candidate] := List.map_append
    rw [hbehind, ← List.append_assoc]
    exact hincreasing
  · rw [hsuspends] at hidle
    cases hidle

/-- With no call in the hook the newest version is put in force at once. -/
theorem Forward.assign (h : Forward suspends initial poller) (hidle : poller.applying = [])
    (hnew : poller.current.configVersion < candidate.configVersion) :
    Forward suspends initial (poller.assign candidate) := by
  refine ⟨?_, fun config hconfig => ?_, fun _ => hidle⟩
  · have hnone : ∀ other ∈ poller.applying, other.2.configVersion < candidate.configVersion := by
      rw [hidle]
      exact fun other hother => absurd hother List.not_mem_nil
    have hincreasing := h.newest hnew hnone
    unfold Poller.assign
    rw [hidle, List.map_nil, List.append_nil] at hincreasing ⊢
    exact hincreasing
  · have hmem : config ∈ (initial :: poller.applied) ++ [candidate] := hconfig
    show config.configVersion ≤ candidate.configVersion
    obtain hold | hlast := List.mem_append.mp hmem
    · exact ((h.bounded config hold).trans_lt hnew).le
    · rw [List.mem_singleton.mp hlast]

/-- The first call in the hook puts its configuration in force. -/
theorem Forward.returns {call : ℕ} {waiting : List (ℕ × DetectionConfig)}
    (h : Forward suspends initial poller) (happlying : poller.applying = (call, candidate) :: waiting) :
    Forward suspends initial ({ poller with applying := waiting }.assign candidate) := by
  have hincreasing := h.increasing
  rw [happlying, List.map_cons] at hincreasing
  refine ⟨?_, fun config hconfig => ?_, fun hidle => ?_⟩
  · have hsame : initial :: poller.applied ++ candidate :: waiting.map Prod.snd =
        initial :: (poller.applied ++ [candidate]) ++ waiting.map Prod.snd := by simp
    rw [hsame] at hincreasing
    exact hincreasing
  · show config.configVersion ≤ candidate.configVersion
    rw [List.map_append, List.map_cons, List.pairwise_append] at hincreasing
    have hmem : config ∈ (initial :: poller.applied) ++ [candidate] := hconfig
    obtain hold | hlast := List.mem_append.mp hmem
    · exact (hincreasing.2.2 _ (List.mem_map_of_mem hold) _ List.mem_cons_self).le
    · rw [List.mem_singleton.mp hlast]
  · have hnil := h.idle hidle
    rw [happlying] at hnil
    cases hnil

/-- A call that leaves the hook takes its version out of the order. -/
theorem Forward.leave (h : Forward suspends initial poller) (call : ℕ) :
    Forward suspends initial (poller.leave call) := by
  have hsub : ((poller.leave call).applying.map Prod.snd).Sublist (poller.applying.map Prod.snd) :=
    List.filter_sublist.map Prod.snd
  refine ⟨h.increasing.sublist ((List.Sublist.append_left hsub _).map _), h.bounded, fun hidle => ?_⟩
  unfold Poller.leave
  rw [h.idle hidle]
  rfl

theorem Forward.step {action : PollAction Document} (h : Forward suspends initial poller)
    (hstep : Stepped load suspends poller action poller')
    (hnewest : NewerThanApplying load poller action) : Forward suspends initial poller' := by
  cases hstep with
  | nothing => exact h
  | passes hsuspends hload hnew => exact h.enter hsuspends hnew (hnewest _ hload hnew) _
  | assigns hsuspends hload hnew => exact h.assign (h.idle hsuspends) hnew
  | returns happlying => exact h.returns happlying
  | raises call => exact h.leave call

/-- In every run in which a call that passes the version check has read a newer version than every call
inside the hook, the versions applied strictly increase from the initial one in the order in which
their applications complete. In every run the configuration in force is the last one applied, and a
rejected document or a hook that raises does not change it. -/
theorem versions_move_forward (suspends : Bool) (initial : DetectionConfig)
    (actions : List (PollAction Document))
    (h : Along (Poller.step load suspends) (NewerThanApplying load) (Poller.start initial) actions) :
    ((initial :: (actions.foldl (Poller.step load suspends) (Poller.start initial)).applied).map
        DetectionConfig.configVersion).Pairwise (· < ·) ∧
      InForce initial (actions.foldl (Poller.step load suspends) (Poller.start initial)) ∧
      ∀ action : PollAction Document,
        ((∃ call document e, action = .poll call document ∧ load document = .error e) ∨
          ∃ call, action = .applyRaises call) →
        ((actions.foldl (Poller.step load suspends) (Poller.start initial)).step load suspends
          action).current =
          (actions.foldl (Poller.step load suspends) (Poller.start initial)).current := by
  have hstart : Forward suspends initial (Poller.start initial) := by
    refine ⟨List.pairwise_singleton _ _, fun config hconfig => ?_, fun _ => rfl⟩
    rw [List.mem_singleton.mp hconfig]
    exact le_refl _
  have hforward := h.invariant
    (fun s a hs ha => hs.step load (step_stepped load suspends s a) ha) hstart
  have hinForce : InForce initial (actions.foldl (Poller.step load suspends) (Poller.start initial)) :=
    invariant_foldl (fun s a hs => InForce.step load hs (step_stepped load suspends s a))
      (show InForce initial (Poller.start initial) from rfl) actions
  have hincreasing := hforward.increasing
  rw [List.map_append, List.pairwise_append] at hincreasing
  exact ⟨hincreasing.1, hinForce, fun action => current_step load suspends _ action⟩

/-- A configuration of a version. -/
def sampleConfig (version : ℕ) : DetectionConfig :=
  { DetectionConfig.shipped with configVersion := version + 1, configVersion_pos := by omega }

/-- A poll reads version 2 and is in the hook while another reads version 3 and waits behind it. -/
theorem versions_move_forward_twice :
    ((sampleConfig 0 :: (([.poll 0 1, .poll 1 2, .applyReturns 0, .applyReturns 1] :
      List (PollAction ℕ)).foldl (Poller.step (fun v => .ok (sampleConfig v)) true)
        (Poller.start (sampleConfig 0))).applied).map DetectionConfig.configVersion).Pairwise
          (· < ·) := by
  refine (versions_move_forward (fun v => .ok (sampleConfig v)) true (sampleConfig 0)
    [.poll 0 1, .poll 1 2, .applyReturns 0, .applyReturns 1] ⟨?_, ?_, trivial, trivial, trivial⟩).1
  · intro _ _ _ other hother
    cases hother
  · intro candidate hload _ other hother
    cases hload
    rw [List.mem_singleton.mp hother]
    decide

/-- A poll reads version 3 and is in the hook. The document is rolled back, and another poll reads
version 2, which is newer than the one in force, and waits behind the first: it is applied last. -/
theorem older_version_is_applied_last :
    (([.poll 0 2, .poll 1 1, .applyReturns 0, .applyReturns 1] : List (PollAction ℕ)).foldl
        (Poller.step (fun v => .ok (sampleConfig v)) true)
        (Poller.start (sampleConfig 0))).applied.map DetectionConfig.configVersion = [3, 2] :=
  rfl

end Hammertime.Config
