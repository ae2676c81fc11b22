import Hammertime.Trie.Recovery

/-!
# The hot-ip log of the trie service

The trie service publishes to the prefix-stats log only: whatever a process does, and wherever it is
interrupted, the log that it reads stays as it is.
-/

namespace Hammertime.Trie

open Codec (Library)
open Lib Bus

/-- The bus has the hot-ip log that it had. -/
def TrieWorker.SameHotIp (s t : TrieWorker) : Prop := t.bus.logs hotIpTopic = s.bus.logs hotIpTopic

instance : Std.Refl TrieWorker.SameHotIp := ⟨fun _ => rfl⟩

instance : IsTrans TrieWorker TrieWorker.SameHotIp := ⟨fun _ _ _ h h' => Eq.trans h' h⟩

theorem TrieWorker.note_sameHotIp (mutator : TrieState → Except StateError TrieState) :
    Program.Within SameHotIp (note mutator) := by
  intro worker
  unfold note
  cases mutator worker.state with
  | ok state => rfl
  | error error => rfl

theorem TrieWorker.onFamily_sameHotIp (family : AddressFamily)
    (step : Program RecordError FamilyState Bool) :
    Program.Within SameHotIp (onFamily family step) := by
  intro worker
  unfold onFamily
  cases worker.state.families family with
  | none => rfl
  | some fs =>
    dsimp only
    cases step fs with
    | ok changed fs' => rfl
    | error error fs' => rfl

theorem TrieWorker.handleMessage_sameHotIp (library : Library) (message : ConsumedMessage) :
    Program.Within SameHotIp (handleMessage library message) := by
  have hnoted : ∀ mutator (answer : HotIpOutcome × Option PreparedStats),
      Program.Within SameHotIp (do
        note mutator
        pure answer) := fun mutator answer =>
    Program.Within.bind (note_sameHotIp mutator) fun _ => Program.Within.pure answer
  refine Program.Within.bind Program.Within.get fun worker => ?_
  split_ifs
  · exact Program.Within.pure _
  · cases decodeMessage library message with
    | error reason => exact hnoted _ _
    | ok payload =>
      dsimp only
      split_ifs
      · exact hnoted _ _
      · refine Program.Within.bind (onFamily_sameHotIp _ _) fun changed => ?_
        refine Program.Within.bind (note_sameHotIp _) fun _ => ?_
        intro worker
        rw [after_conclude]
        exact refl worker

theorem TrieWorker.handle_sameHotIp (library : Library) (publishing : Publishing)
    (message : ConsumedMessage) :
    Program.Within SameHotIp (handle library publishing message) := by
  have hpublished : ∀ stats, Program.Within SameHotIp (publishStats publishing stats) := by
    intro stats worker
    have hlogs := logs_after_publish publishing stats worker.bus
      (show hotIpTopic ≠ prefixStatsTopic by decide)
    unfold publishStats
    cases hrun : publish publishing stats worker.bus with
    | ok u bus =>
      rw [hrun] at hlogs
      exact hlogs
    | error error bus =>
      rw [hrun] at hlogs
      exact hlogs
  refine Program.Within.bind Program.Within.get fun worker => ?_
  split_ifs
  · exact Program.Within.pure _
  · refine Program.Within.bind (handleMessage_sameHotIp library message) fun answer => ?_
    obtain ⟨outcome, stats⟩ := answer
    cases stats with
    | none => exact Program.Within.pure _
    | some stats => exact Program.Within.bind (hpublished stats) fun _ => Program.Within.pure _

/-- A turn of the loop publishes nothing to the log that it reads. -/
theorem TrieProcess.pump_sameHotIp (library : Library) (process : TrieProcess)
    (publishing : Publishing) :
    (process.pump library publishing).2.logs hotIpTopic =
      process.worker.bus.logs hotIpTopic := by
  unfold pump
  split_ifs
  · obtain ⟨turn, consumer⟩ := process.consumer.consume process.worker.bus hotIpTopic
    cases turn with
    | yielded message =>
      have hsame := TrieWorker.handle_sameHotIp library publishing message process.worker
      dsimp only
      cases hrun : process.worker.handle library publishing message with
      | ok outcome worker =>
        rw [hrun] at hsame
        exact hsame
      | error error worker =>
        rw [hrun] at hsame
        exact hsame
    | waiting => rfl
    | ended => rfl
    | skipped => rfl
  · rfl

/-- The trie service publishes nothing to the log that it reads. -/
theorem TrieSystem.step_sameHotIp (library : Library) (publisher : PrefixStatsPublisher)
    (served : Finset AddressFamily) (system : TrieSystem) {action : ProcessAction}
    (hreads : ∀ key value messageId, action ≠ .publish key value messageId) :
    (system.step library publisher served action).bus.logs hotIpTopic =
      system.bus.logs hotIpTopic := by
  cases action with
  | publish key value messageId => exact absurd rfl (hreads key value messageId)
  | boot config => rfl
  | crash => rfl
  | pump publishing =>
    unfold TrieSystem.step
    cases system.process with
    | none => rfl
    | some process => exact TrieProcess.pump_sameHotIp library _ publishing
  | readEnd | subscribe | applyConfig _ | stop =>
    unfold TrieSystem.step
    cases system.process <;> rfl

theorem TrieSystem.foldl_sameHotIp (library : Library) (publisher : PrefixStatsPublisher)
    (served : Finset AddressFamily) {actions : List ProcessAction}
    (hreads : ∀ action ∈ actions, ∀ key value messageId, action ≠ .publish key value messageId)
    (system : TrieSystem) :
    (actions.foldl (step library publisher served) system).bus.logs hotIpTopic =
      system.bus.logs hotIpTopic := by
  induction actions generalizing system with
  | nil => rfl
  | cons action actions ih =>
    obtain ⟨hfirst, hrest⟩ := List.forall_mem_cons.mp hreads
    exact (ih hrest _).trans (step_sameHotIp library publisher served system hfirst)

end Hammertime.Trie
