import Hammertime.Aggregator.Worker
import Hammertime.Codec.Wire
import Hammertime.Ingest.Publisher

/-!
# Observations on their way from the ingest to the aggregator

The environment of a worker that runs over the codec, and the messages it can meet there: what
`ObservationPublisher` sends for an entry of an accepted batch is, to the worker's `_decode`, the
observation of that entry.
-/

namespace Hammertime.Aggregator

open Lib
open Codec (Library)

/-- The environment over the codec, under the clock and the outcomes given. -/
noncomputable def codecEnv (library : Library) (hlimit : library.intMaxStrDigits = none)
    (now : ℕ → ℤ) (outcome : ℕ → CallOutcome) : Env where
  now := now
  outcome := outcome
  arrange _ ips := ips.toList
  text := library.addressText
  digest message := library.digest (Text.ofString message)
  wire := Codec.wire library hlimit
  arrange_nodup _ ips := ips.nodup_toList
  mem_arrange _ _ _ := Finset.mem_toList

/-- What `_decode` makes of a message does not depend on the terms in which the codec is held. -/
theorem decodeObservation_of_decodeMessage {library : Library}
    (hlimit : library.intMaxStrDigits = none) (now : ℕ → ℤ) (outcome : ℕ → CallOutcome)
    {m : ConsumedMessage} {id : Text} {payload : Codec.RequestObservation}
    {entry : Codec.Observation}
    (h : Ingest.decodeMessage library m.key m.value = some (id, payload, entry)) :
    ∃ eventId, decodeObservation (codecEnv library hlimit now outcome) m =
      some (eventId,
        ⟨Codec.toTimestamp payload.windowStart, payload.windowSeconds.number,
          [⟨entry.ip, entry.requestCount.number.toNat⟩]⟩,
        ⟨entry.ip, entry.requestCount.number.toNat⟩) := by
  unfold Ingest.decodeMessage at h
  split at h
  · cases h
  · next envelope hdecode =>
    split at h
    · next payload' hpayload =>
      split at h
      · next entry' hentries =>
        dsimp only at h
        split_ifs at h with hsubject hkey
        cases h
        rw [not_not] at hsubject hkey
        have hread : (codecEnv library hlimit now outcome).wire.decode m.value =
            .ok (Codec.toEnvelope library envelope) := by
          show (Codec.toEnvelope library <$> Codec.decode library m.value).mapError _ = _
          rw [hdecode]
          rfl
        refine ⟨(Codec.toEnvelope library envelope).eventId
          (codecEnv library hlimit now outcome).digest, ?_⟩
        have hsubject' : (Codec.toEnvelope library envelope).subject =
            some (library.addressText entry.ip) := by
          show envelope.subject.map (Codec.characters ∘ Codec.PyString.content) = _
          rw [← Option.map_map, hsubject, Option.map_some, Codec.characters_ofString]
        have hobservations : payload.observations.map (fun observation : Codec.Observation =>
            (⟨observation.ip, observation.requestCount.number.toNat⟩ : Observation)) =
            [⟨entry.ip, entry.requestCount.number.toNat⟩] := by
          rw [hentries]
          rfl
        have hkind : (Codec.toEnvelope library envelope).payload = .requestObservation
            ⟨Codec.toTimestamp payload.windowStart, payload.windowSeconds.number,
              [⟨entry.ip, entry.requestCount.number.toNat⟩]⟩ := by
          show Codec.toPayload library envelope.payload = _
          rw [hpayload, ← hobservations]
          rfl
        unfold decodeObservation
        rw [hread]
        dsimp only
        rw [hkind]
        dsimp only
        exact (if_neg (not_not.mpr hsubject')).trans (if_neg (not_not.mpr hkey))
      · cases h
    · cases h

/-- The batch of one entry. -/
def singleBatch (agentId : String) (sequence : ℤ) (windowStart : Codec.DateTime)
    (windowSeconds : ℤ) (entry : Observation) : Ingest.Batch :=
  ⟨agentId, sequence, windowStart, windowSeconds, [entry]⟩

/-- An observation of any count that the ingest admits reaches the worker, on the partition and at
the offset that the log gives it. -/
theorem exists_delivery (library : Library) (hlimit : library.intMaxStrDigits = none)
    (now : ℕ → ℤ) (outcome : ℕ → CallOutcome) {windowStart windowSeconds : ℤ}
    (hstart : datetimeRange windowStart = true) (hseconds : 1 ≤ windowSeconds ∧ windowSeconds ≤ 3600)
    (entry : Observation) (hcount : entry.requestCount ≤ Ingest.maxRequestCount)
    (partition offset : ℕ) :
    ∃ (message : ConsumedMessage) (eventId : String),
      message.partition = partition ∧ message.offset = offset ∧
      decodeObservation (codecEnv library hlimit now outcome) message =
        some (eventId, ⟨windowStart, windowSeconds, [entry]⟩, entry) := by
  obtain ⟨start, hfrom⟩ := Codec.fromTimestamp_of_range hstart
  have hoffset := Codec.fromTimestamp_offset hfrom
  have haccepted : (singleBatch "agent" 0 start windowSeconds entry).Accepted := by
    refine ⟨⟨le_refl 0, show (0 : ℤ) ≤ 9223372036854775807 by norm_num⟩, hseconds,
      ⟨start, Codec.DateTime.isUtc_self hoffset⟩, fun ip => ?_⟩
    by_cases hip : entry.ip = ip
    · simpa [Ingest.total, singleBatch, hip] using hcount
    · simp [Ingest.total, singleBatch, hip]
  have hversion : library.within 1 = true := Ingest.within_of_small (by decide)
  obtain ⟨data, hdata⟩ := Ingest.exists_encode ⟨1, hversion⟩ haccepted hcount hoffset
  obtain ⟨payload, hdecode, hutc, hwindow⟩ := Ingest.decodeMessage_encode ⟨1, hversion⟩ hdata
  let message : ConsumedMessage :=
    ⟨"hammertime.observations.v1", partition, offset,
      some (utf8 (library.addressText entry.ip)), data⟩
  obtain ⟨eventId, hread⟩ := decodeObservation_of_decodeMessage hlimit now outcome (m := message)
    hdecode
  refine ⟨message, eventId, rfl, rfl, ?_⟩
  rw [hread, hwindow, Codec.toTimestamp_fromTimestamp hfrom hutc]
  simp [Codec.PyObject.number, Codec.PyObject.value?, singleBatch]

/-! ### An environment to run in -/

/-- The environment over an interpreter without a limit on the digits of integers. -/
noncomputable def interpreterEnv (now : ℕ → ℤ) (outcome : ℕ → CallOutcome) : Env :=
  codecEnv (Codec.libraryWith none (by simp)) rfl now outcome

theorem interpreterEnv_digest_injective (now : ℕ → ℤ) (outcome : ℕ → CallOutcome) :
    Function.Injective (interpreterEnv now outcome).digest := by
  intro message message' h
  exact Codec.Text.ofString_inj.mp (Codec.digest_inj (Text.ofString_not_hasSurrogate message)
    (Text.ofString_not_hasSurrogate message') h)

/-- An environment in which nothing fails and the clock stands still. -/
noncomputable def sampleEnv : Env := interpreterEnv (fun _ => 0) fun _ => .returns

theorem orderly_sampleEnv : sampleEnv.Orderly :=
  ⟨fun _ => rfl, fun _ _ _ => le_rfl, fun _ => show datetimeRange 0 = true by decide⟩

/-- A store that holds the HOT IPs of the shard 0 and its counter, and empty logs. -/
def sharedWith (hot : Finset Address) (nextSequence : ℕ) : Shared where
  tick := 0
  store :=
    { hotIps := Dict.empty.set 0 hot
      nextSequence := Dict.empty.set 0 nextSequence
      leases := .empty }
  hotIp := ⟨[], ∅⟩
  reconciliation := ⟨[], ∅⟩

end Hammertime.Aggregator
