import Std.Data.String.ToInt
import Hammertime.Codec.RoundTrip
import Hammertime.Ingest.Publisher
import Hammertime.Store.Dedup

/-!
# Identities

`compute_event_id` of `hammertime.core.events.envelope` and `SequenceKey.cache_key` of
`hammertime.store.dedup`. Both join an agent id, a sequence and what follows with `\x1f`, and nothing
keeps that character out of an agent id. The parts after the agent id are free of it, so the joined
text is read from its end: first the subject, then the event type, then the sequence, and what is left
is the agent id, whatever it holds.
-/

namespace Hammertime.Codec

open Lib

/-! ### The parts -/

/-- The separator of the parts. -/
def separator : CodePoint := CodePoint.ofChar '\x1f'

theorem ofString_separator : Text.ofString "\x1f" = [separator] := rfl

theorem separator_notMem_ofString {s : String} (h : '\x1f' ∉ s.toList) :
    separator ∉ Text.ofString s := by
  intro hmem
  obtain ⟨c, hc, heq⟩ := List.mem_map.mp hmem
  rw [CodePoint.ofChar_inj heq] at hc
  exact h hc

/-- The decimal text of an integer of either sign holds no separator. -/
theorem separator_notMem_format (n : ℤ) : separator ∉ PyObject.format (.int n) := by
  apply separator_notMem_ofString
  cases n with
  | ofNat n => exact separator_notMem_repr n
  | negSucc n =>
    show '\x1f' ∉ intText (Int.negSucc n)
    rw [intText_negSucc, List.mem_cons, not_or]
    exact ⟨by decide, separator_notMem_repr (n + 1)⟩

theorem format_int_inj {m n : ℤ}
    (h : PyObject.format (.int m) = PyObject.format (.int n)) : m = n :=
  Int.repr_injective (Text.ofString_inj.mp h)

theorem separator_notMem_knownEventTypes : ∀ t ∈ knownEventTypes, separator ∉ t := by
  decide

/-! ### The hashed message of an event -/

/-- What the producers of the repository put into an envelope: a known event type, a plain integer as
the sequence, plain strings, and a subject that does not hold the separator, the text of an IP or of a
CIDR. -/
structure EventEnvelope.Produced (envelope : EventEnvelope) (sequence : ℤ)
    (subject : Text) : Prop where
  known : envelope.eventType.content ∈ knownEventTypes
  free : separator ∉ subject
  sequence : envelope.sequence = .int sequence
  subject : envelope.subject = some (.plain subject)
  agentId : envelope.agentId.format = envelope.agentId.content
  eventType : envelope.eventType.format = envelope.eventType.content

/-- The message is the agent id, the separator and parts that can be read back, from their end. -/
theorem identityText_eq (agentId sequence eventType subject : Text) :
    identityText agentId sequence eventType (some subject) =
      ((agentId ++ separator :: sequence) ++ separator :: eventType) ++ separator :: subject := by
  simp only [identityText, ofString_separator, List.append_assoc, List.cons_append, List.nil_append]

/-- The message determines its parts, whatever characters the agent id holds. -/
theorem identityText_inj {agentId agentId' eventType eventType' subject subject' : Text}
    {sequence sequence' : ℤ} (ht : eventType ∈ knownEventTypes) (ht' : eventType' ∈ knownEventTypes)
    (hs : separator ∉ subject) (hs' : separator ∉ subject')
    (h : identityText agentId (PyObject.format (.int sequence)) eventType (some subject) =
      identityText agentId' (PyObject.format (.int sequence')) eventType' (some subject')) :
    agentId = agentId' ∧ sequence = sequence' ∧ eventType = eventType' ∧ subject = subject' := by
  rw [identityText_eq, identityText_eq] at h
  obtain ⟨h, hsubject⟩ := separated_inj_right hs hs' h
  obtain ⟨h, htype⟩ := separated_inj_right (separator_notMem_knownEventTypes _ ht)
    (separator_notMem_knownEventTypes _ ht') h
  obtain ⟨hagent, hsequence⟩ := separated_inj_right (separator_notMem_format sequence)
    (separator_notMem_format sequence') h
  exact ⟨hagent, format_int_inj hsequence, htype, hsubject⟩

/-- With a digest that tells the hashed texts apart, the `event_id` determines the parts. -/
theorem EventEnvelope.eventId_inj {library : Library} (hdigest : Ingest.DigestInjective library)
    {e e' : EventEnvelope} {sequence sequence' : ℤ} {subject subject' : Text}
    (he : e.Produced sequence subject) (he' : e'.Produced sequence' subject')
    (h : e.eventId library = e'.eventId library) :
    e.agentId = e'.agentId ∧ sequence = sequence' ∧ e.eventType = e'.eventType ∧
      subject = subject' := by
  have htext := hdigest _ _ e.identified e'.identified (Text.ofString_inj.mp h)
  rw [he.sequence, he.subject, he.agentId, he.eventType, he'.sequence, he'.subject, he'.agentId,
    he'.eventType] at htext
  obtain ⟨hagent, hsequence, htype, hsubject⟩ :=
    identityText_inj he.known he'.known he.free he'.free htext
  exact ⟨PyString.ext hagent (he.agentId.trans (hagent.trans he'.agentId.symm)), hsequence,
    PyString.ext htype (he.eventType.trans (htype.trans he'.eventType.symm)), hsubject⟩

/-- Every message of the ingest publisher is made so. -/
theorem produced_envelope {library : Library}
    (publisher : Ingest.ObservationPublisher library) (batch : Ingest.Batch) (entry : Hammertime.Observation)
    (timestamp : DateTime) (h : '\x1f' ∉ (library.addressText entry.ip).toList) :
    (publisher.envelope batch entry timestamp).Produced batch.sequence
      (Text.ofString (library.addressText entry.ip)) where
  known := List.mem_cons_self
  free := separator_notMem_ofString h
  sequence := rfl
  subject := rfl
  agentId := rfl
  eventType := rfl

/-! ### The dedup identity -/

/-- The text determines the pair. -/
theorem cacheKey_injective : Function.Injective Store.SequenceKey.cacheKey := by
  intro key key' h
  unfold Store.SequenceKey.cacheKey at h
  rw [ofString_separator, List.append_assoc, List.append_assoc] at h
  obtain ⟨hagent, hsequence⟩ := separated_inj_right (separator_notMem_format key.sequence)
    (separator_notMem_format key'.sequence) h
  exact Store.SequenceKey.ext hagent (format_int_inj hsequence)

theorem redisKey_injective : Function.Injective Store.SequenceKey.redisKey :=
  fun _ _ h => cacheKey_injective (List.append_cancel_left h)

/-! ### Both -/

/-- Identities are told apart whatever characters an agent id holds. The message that
`compute_event_id` hashes determines the agent id, the sequence, the event type and the subject, and
so does the `event_id`, with a digest that tells the messages apart; the key of a dedup pair
determines the agent id and the sequence, with and without the prefix of the store. -/
theorem identities_injective :
    (∀ (agentId agentId' eventType eventType' subject subject' : Text) (sequence sequence' : ℤ),
      eventType ∈ knownEventTypes → eventType' ∈ knownEventTypes →
      separator ∉ subject → separator ∉ subject' →
      identityText agentId (PyObject.format (.int sequence)) eventType (some subject) =
        identityText agentId' (PyObject.format (.int sequence')) eventType' (some subject') →
      agentId = agentId' ∧ sequence = sequence' ∧ eventType = eventType' ∧ subject = subject') ∧
    (∀ library : Library, Ingest.DigestInjective library →
      ∀ (e e' : EventEnvelope) (sequence sequence' : ℤ) (subject subject' : Text),
        e.Produced sequence subject → e'.Produced sequence' subject' →
        e.eventId library = e'.eventId library →
        e.agentId = e'.agentId ∧ sequence = sequence' ∧ e.eventType = e'.eventType ∧
          subject = subject') ∧
    Function.Injective Store.SequenceKey.cacheKey ∧ Function.Injective Store.SequenceKey.redisKey :=
  ⟨fun _ _ _ _ _ _ _ _ ht ht' hs hs' h => identityText_inj ht ht' hs hs' h,
    fun _ hdigest _ _ _ _ _ _ he he' h => EventEnvelope.eventId_inj hdigest he he' h,
    cacheKey_injective, redisKey_injective⟩

/-- A batch of an agent, with no counts. -/
def namedBatch (agentId : String) (sequence : ℤ) : Ingest.Batch :=
  { Ingest.sampleBatch with agentId, sequence, observations := [] }

/-- What the publisher makes of a count of 1 for the first IPv4 address. -/
noncomputable def namedEnvelope (agentId : String) (sequence : ℤ) : EventEnvelope :=
  Ingest.samplePublisher.envelope (namedBatch agentId sequence) ⟨⟨.ipv4, 1, one_lt_ipv4_width⟩, 1⟩
    Ingest.sampleBatch.windowStart

theorem namedEnvelope_produced (agentId : String) (sequence : ℤ) :
    (namedEnvelope agentId sequence).Produced sequence
      (Text.ofString (interpreter.addressText ⟨.ipv4, 1, by decide⟩)) :=
  produced_envelope Ingest.samplePublisher (namedBatch agentId sequence) _ _ (by decide)

/-- An agent id that ends like a sequence does not take another agent's identities. -/
theorem identities_injective_sample :
    (namedEnvelope "edge\x1f1" 7).eventId interpreter ≠ (namedEnvelope "edge" 17).eventId interpreter ∧
      (⟨Text.ofString "edge\x1f1", 7⟩ : Store.SequenceKey).cacheKey ≠
        (⟨Text.ofString "edge", 17⟩ : Store.SequenceKey).cacheKey := by
  obtain ⟨-, hevents, hkeys, -⟩ := identities_injective
  constructor
  · intro h
    obtain ⟨-, hsequence, -, -⟩ := hevents interpreter (fun _ _ => digest_inj) _ _ 7 17 _ _
      (namedEnvelope_produced _ _) (namedEnvelope_produced _ _) h
    exact absurd hsequence (by decide)
  · intro h
    exact absurd (congrArg Store.SequenceKey.sequence (hkeys h)) (by decide)

end Hammertime.Codec
