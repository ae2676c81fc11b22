import Hammertime.Codec.Identity
import Hammertime.Lib.Resume
import Hammertime.Trie.Process

/-!
# The prefix-stats log across crashes

Every process of the trie service replays the whole hot-ip log and publishes the statistics of the
events from the last one that the prefix-stats log knows. What the messages of an event say is the
block of its offset: it follows from the log up to there, and is the same in every process. The
prefix-stats log is `Partway` through the blocks at any time, and through all that were handled once a
process has caught up.
-/

namespace Hammertime.Trie

open Bits
open Codec (Library DateTime)
open Lib Bus

/-! ### What a message carries -/

/-- What a message of the prefix-stats log is about. -/
structure StatsFact where
  pfx : Prefix
  sequence : ℤ
  hotCount : ℤ
deriving DecidableEq

/-- A record of the log decodes to a fact, under the prefix as its key and its subject. -/
def Tells (library : Library) (record : Bus.Record) (fact : StatsFact) : Prop :=
  ∃ (text : String) (envelope : Codec.EventEnvelope) (payload : Codec.PrefixStatsChanged),
    fact.pfx.text library = some text ∧ record.key = some (utf8 text) ∧
    Codec.decode library record.value = .ok envelope ∧
    envelope.agentId = .plain (Text.ofString agentId) ∧ envelope.sequence = .int fact.sequence ∧
    envelope.subject = some (.plain (Text.ofString text)) ∧
    envelope.payload = .prefixStatsChanged payload ∧ payload.prefixText = Text.ofString text ∧
    payload.hotCount = .int fact.hotCount ∧ payload.capacity = .int fact.pfx.capacity ∧
    payload.sequence = .int fact.sequence

/-- The record that the log makes of a message. -/
def StatsMessage.record (message : StatsMessage) : Bus.Record :=
  ⟨some (utf8 message.key), message.value⟩

/-- The text that the id of a message is the digest of. -/
def statsIdentity (sequence : ℤ) (key : String) : Text :=
  Codec.identityText agentId (Codec.PyObject.format (.int sequence)) eventType
    (some (Text.ofString key))

/-- A message is about a fact. -/
structure Carries (library : Library) (message : StatsMessage) (fact : StatsFact) : Prop where
  key : fact.pfx.text library = some message.key
  tells : Tells library message.record fact
  messageId : message.messageId =
    Text.ofString (library.digest (statsIdentity fact.sequence message.key))

/-- The id under which the topic keeps the message of a fact. -/
def StatsFact.messageId (library : Library) (fact : StatsFact) : Option String :=
  (fact.pfx.text library).map fun text => library.digest (statsIdentity fact.sequence text)

variable {library : Library}

theorem Carries.messageId_eq {message : StatsMessage} {fact : StatsFact}
    (h : Carries library message fact) :
    fact.messageId library = some (Codec.characters message.messageId) := by
  unfold StatsFact.messageId
  rw [h.key, h.messageId, Codec.characters_ofString]
  rfl

/-- One turn of the loop of `prepare`. -/
theorem prepareOne_carries {sequence configVersion : ℤ} {timestamp : DateTime}
    {stats : PrefixStats} {message : StatsMessage}
    (h : prepareOne library sequence configVersion timestamp stats = .ok message) :
    Carries library message ⟨stats.pfx, sequence, stats.hotCount⟩ := by
  unfold prepareOne at h
  cases htext : stats.pfx.text library with
  | none =>
    rw [htext] at h
    cases h
  | some text =>
    rw [htext] at h
    dsimp only at h
    have hmade : ∀ {x : Except Codec.CodecError StatsMessage},
        x.mapError PrepareError.codec = .ok message → x = .ok message := by
      intro x hx
      cases x with
      | ok a => exact congrArg Except.ok (Except.ok.inj hx)
      | error e => cases hx
    obtain ⟨envelope, henvelope, h⟩ := except_bind_ok.mp (hmade h)
    obtain ⟨value, hvalue, h⟩ := except_bind_ok.mp h
    cases h
    have henvelope : Codec.makeEnvelope (.plain agentId) (.int sequence) (.plain eventType)
        (.int configVersion) timestamp
        (.prefixStatsChanged (statsPayload stats text sequence timestamp))
        (.int Codec.schemaVersion) ((some (Text.ofString text)).map .plain) = .ok envelope := henvelope
    obtain ⟨-, hagent, hsequence, htype, -, -, hpayload, -, hsubject⟩ :=
      Codec.makeEnvelope_plain henvelope
    have hidentified := Codec.makeEnvelope_plainlyIdentified henvelope
    -- The envelope decodes to what it was.
    have hclass : envelope.eventType.content = Text.ofString envelope.payload.className := by
      rw [htype, hpayload]
      rfl
    have hstrings : envelope.payload.StringsWellFormed := by
      rw [hpayload]
      exact Text.ofString_not_hasSurrogate _
    have hcount : envelope.payload.observationCount ≤ Codec.maxObservations := by
      rw [hpayload]
      exact Nat.zero_le _
    obtain ⟨decoded, hdecoded, hnormal⟩ := (Codec.round_trip_of_encode hclass
      (hidentified.stringsWellFormed hstrings) hcount hvalue).mpr hidentified.eventId_eq
    have hnormalPayload := hnormal.payload
    rw [hpayload] at hnormalPayload
    cases hkind : decoded.payload with
    | requestObservation payload =>
      rw [hkind] at hnormalPayload
      exact absurd hnormalPayload id
    | hotIp payload =>
      rw [hkind] at hnormalPayload
      exact absurd hnormalPayload id
    | prefixStatsChanged payload =>
      rw [hkind] at hnormalPayload
      have hpayloadNormal : (statsPayload stats text sequence timestamp).Normal payload :=
        hnormalPayload
      have hplain : ∀ {n : ℤ} {object : Codec.PyObject},
          (Codec.PyObject.int n).IsInteger object → object = .int n := by
        rintro n object ⟨m, hm, rfl⟩
        cases hm
        rfl
      have hseq := hnormal.sequence
      rw [hsequence] at hseq
      have hagent' : decoded.agentId = .plain (Text.ofString agentId) := by
        rw [hnormal.agentId, hagent]
        rfl
      have hsubject' : decoded.subject = some (.plain (Text.ofString text)) := by
        rw [hnormal.subject, hsubject]
        rfl
      refine ⟨htext, ⟨text, decoded, payload, htext, rfl, hdecoded, hagent', hplain hseq, hsubject',
        hkind, hpayloadNormal.prefixText, hplain hpayloadNormal.hotCount,
        hplain hpayloadNormal.capacity, hplain hpayloadNormal.sequence⟩, ?_⟩
      show envelope.eventId library = _
      unfold Codec.EventEnvelope.eventId
      rw [hagent, hsequence, htype, hsubject]
      rfl

/-! ### The text of a prefix -/

theorem slash_notMem_repr (n : ℕ) : '/' ∉ n.repr.toList := by
  rw [Nat.toList_repr]
  intro h
  exact absurd (Nat.isDigit_of_mem_toDigits (by norm_num) (by norm_num) h) (by decide)

theorem make?_eq_some {family : AddressFamily} {value : ℤ} {a : Address}
    (h : Address.make? family value = some a) : a.family = family ∧ (a.value : ℤ) = value := by
  unfold Address.make? at h
  split_ifs at h with hrange
  cases h
  exact ⟨rfl, Int.toNat_of_nonneg hrange.1⟩

/-- The text of a prefix determines it. -/
theorem prefix_text_inj {p p' : Prefix} {text : String} (h : p.text library = some text)
    (h' : p'.text library = some text) : p = p' := by
  unfold Prefix.text at h h'
  obtain ⟨a, ha, rfl⟩ := Option.map_eq_some_iff.mp h
  obtain ⟨a', ha', htext⟩ := Option.map_eq_some_iff.mp h'
  obtain ⟨hfamily, hvalue⟩ := make?_eq_some ha
  obtain ⟨hfamily', hvalue'⟩ := make?_eq_some ha'
  have hlist := congrArg String.toList htext
  have hshape : ∀ (a : Address) (l : ℕ), (s!"{library.addressText a}/{l}").toList =
      (library.addressText a).toList ++ '/' :: l.repr.toList := by
    intro a l
    simp only [toString, String.toList_append, List.append_assoc]
    rfl
  rw [hshape, hshape] at hlist
  obtain ⟨haddress, hlength⟩ := separated_inj_right (slash_notMem_repr _) (slash_notMem_repr _) hlist
  have hlengths : p'.length = p.length := repr_inj (String.toList_inj.mp hlength)
  -- The text of an address parses back to it.
  have hparse := library.parseAddress_text a
  rw [← String.toList_inj.mp haddress, library.parseAddress_text] at hparse
  have hsame : a' = a := Option.some.inj hparse
  ext
  · rw [← hfamily, ← hfamily', hsame]
  · rw [← hvalue, ← hvalue', hsame]
  · exact hlengths.symm

/-! ### The facts of an event -/

/-- The HOT addresses of a reading under a prefix. -/
def Reading.under (reading : Reading) (p : Prefix) : Set Address :=
  {a | (reading.records a).isSome ∧ p.contains a = true}

/-- What the messages of an event are about: its address's prefixes, from the shortest that is
reported on, with the number of HOT addresses under each after the event. -/
noncomputable def statsFacts (publisher : PrefixStatsPublisher) (reading : Reading) (ip : Address)
    (sequence : ℤ) : List StatsFact :=
  let shortest := publisher.minPrefixLength ip.family
  (List.range' shortest (ip.family.bitLength + 1 - shortest)).map fun l =>
    ⟨prefixAt ip.family ip.value l, sequence, (reading.under (prefixAt ip.family ip.value l)).ncard⟩

variable {served : Finset AddressFamily} {reading : Reading} {state : TrieState}
  {publisher : PrefixStatsPublisher}

/-- The keys of a pair that is in step are the HOT addresses of its family. -/
theorem InStep.ncard_under {family : AddressFamily} {fs : FamilyState}
    (h : InStep family (reading.recordsOf family) fs) {p : Prefix} (hp : p.family = family) :
    (reading.under p).ncard =
      (fs.records.records.keys.toFinset.filter fun a => p.contains a = true).card := by
  rw [← Set.ncard_coe_finset]
  congr 1
  ext a
  rw [Finset.coe_filter, Set.mem_ofPred_eq]
  unfold Reading.under
  rw [Set.mem_ofPred_eq, h.mem_keys]
  refine and_congr_left fun hcontains => ?_
  have hfamily := (network_of_contains hcontains).1.trans hp
  unfold Reading.recordsOf
  rw [if_pos hfamily]

theorem InStep.countUnder_eq {family : AddressFamily} {fs : FamilyState}
    (h : InStep family (reading.recordsOf family) fs) (v : ℕ) {l : ℕ} (hl : l ≤ family.bitLength) :
    countUnder family.bitLength (HotSet.values fs.records.records.keys.toFinset) l v =
      (reading.under (prefixAt family v l)).ncard := by
  have hn : (prefixAt family v l).network = (cleared family.bitLength l v : ℕ) := by
    simp [prefixAt, min_eq_left hl]
  have hlen : (prefixAt family v l).length = l := by simp [prefixAt, min_eq_left hl]
  rw [h.ncard_under rfl, card_filter_contains h.represents.2.1 rfl hn, hlen]
  unfold countUnder
  rw [top_cleared]

/-- What `prepare` makes of an event: one message for each fact, in their order. -/
theorem Shows.prepare_carries (h : Shows served reading state) {ip : Address} {fs : FamilyState}
    (hfs : state.families ip.family = some fs) (hserved : ip.family ∈ served)
    {sequence configVersion : ℤ} {timestamp : DateTime} {prepared : PreparedStats}
    (hprepare : publisher.prepare library fs.trie ip sequence configVersion timestamp =
      .ok prepared) :
    List.Forall₂ (Carries library) prepared.messages (statsFacts publisher reading ip sequence) := by
  obtain ⟨fs', hfs', hin⟩ := h.pair _ hserved
  obtain rfl : fs = fs' := Option.some.inj (hfs.symm.trans hfs')
  obtain ⟨hfamily, hH, o, hintact, hvalues⟩ := hin.represents
  have hshortest := publisher.minPrefixLength_le ip.family
  have hcounts := hintact.ancestorCounts_eq (m := publisher.minPrefixLength ip.family)
    hfamily.symm (by rw [PatriciaTrie.bitLength, hfamily]; exact hshortest)
  rw [hvalues, hfamily] at hcounts
  unfold PrefixStatsPublisher.prepare at hprepare
  obtain ⟨stats, hstats, hprepare⟩ := except_bind_ok.mp hprepare
  obtain ⟨messages, hmessages, hprepare⟩ := except_bind_ok.mp hprepare
  cases hprepare
  rw [hfamily] at hstats
  unfold ancestorStats at hstats
  rw [hcounts] at hstats
  have hstats : (ancestorsOf ip.family (HotSet.values fs.records.records.keys.toFinset) ip.value
    (publisher.minPrefixLength ip.family)).mapM PrefixStats.make = .ok stats := hstats
  rw [Codec.mapM_ok] at hstats hmessages
  unfold ancestorsOf at hstats
  unfold statsFacts
  dsimp only
  rw [List.forall₂_map_left_iff] at hstats
  rw [List.forall₂_map_right_iff]
  have hmade : List.Forall₂ (fun l (s : PrefixStats) =>
      s.pfx = prefixAt ip.family ip.value l ∧
        s.hotCount = (reading.under (prefixAt ip.family ip.value l)).ncard)
      (List.range' (publisher.minPrefixLength ip.family)
        (ip.family.bitLength + 1 - publisher.minPrefixLength ip.family)) stats := by
    refine List.Forall₂.imp (fun l s hs => ?_)
      ((List.forall₂_and_left _ _).mpr ⟨fun l hl => List.mem_range'_1.mp hl, hstats⟩)
    obtain ⟨⟨-, hl⟩, hmake⟩ := hs
    unfold PrefixStats.make at hmake
    split_ifs at hmake
    cases hmake
    refine ⟨rfl, ?_⟩
    dsimp only
    rw [hin.countUnder_eq ip.value (by omega)]
  -- A message is about the prefix that its turn of the loop was.
  have hcompose : ∀ {ls : List ℕ} {stats : List PrefixStats} {messages : List StatsMessage},
      List.Forall₂ (fun l (s : PrefixStats) => s.pfx = prefixAt ip.family ip.value l ∧
        s.hotCount = (reading.under (prefixAt ip.family ip.value l)).ncard) ls stats →
      List.Forall₂ (fun s m => prepareOne library sequence configVersion timestamp s = .ok m)
        stats messages →
      List.Forall₂ (fun m l => Carries library m ⟨prefixAt ip.family ip.value l, sequence,
        (reading.under (prefixAt ip.family ip.value l)).ncard⟩) messages ls := by
    intro ls stats messages hls
    induction hls generalizing messages with
    | nil =>
      intro hmessages
      rw [List.forall₂_nil_left_iff.mp hmessages]
      exact .nil
    | cons hhead _ ih =>
      intro hmessages
      obtain ⟨m, rest, hm, hrest, rfl⟩ := List.forall₂_cons_left_iff.mp hmessages
      refine .cons ?_ (ih hrest)
      rw [← hhead.2, ← hhead.1]
      exact prepareOne_carries hm
  exact hcompose hmade hmessages

/-! ### The facts of a log -/

/-- The messages of a hot-ip log, as a subscription from its start yields them. -/
def logMessages (log : List Bus.Record) : List ConsumedMessage :=
  log.mapIdx fun i record =>
    { topic := hotIpTopic, partition := thePartition, offset := i, key := record.key,
      value := record.value }

/-- The event of a message, if it changes the hot set. -/
def change (library : Library) (served : Finset AddressFamily) (reading : Reading)
    (message : ConsumedMessage) : Option Codec.HotIpEvent :=
  match decodeMessage library message with
  | .error _ => none
  | .ok payload =>
    if payload.ip.family ∈ served ∧
        (reading.records payload.ip).isSome ≠ (recordAfter library payload).isSome then some payload
    else none

theorem change_served {message : ConsumedMessage} {payload : Codec.HotIpEvent}
    (h : change library served reading message = some payload) :
    decodeMessage library message = .ok payload ∧ payload.ip.family ∈ served ∧
      (reading.records payload.ip).isSome ≠ (recordAfter library payload).isSome := by
  unfold change at h
  split at h
  · cases h
  · split_ifs at h with hchange
    cases h
    exact ⟨‹_›, hchange⟩

section Log

variable (library : Library) (publisher : PrefixStatsPublisher) (served : Finset AddressFamily)
  (log : List Bus.Record)

/-- What the first messages of a log say. -/
def readingAt (i : ℕ) : Reading :=
  Reading.empty.absorbAll library served ((logMessages log).take i)

/-- What the prefix-stats log should say of the event at an offset. -/
noncomputable def factsAt (i : ℕ) : List StatsFact :=
  match ((logMessages log)[i]?).bind (change library served (readingAt library served log i)) with
  | none => []
  | some payload =>
    statsFacts publisher (readingAt library served log (i + 1)) payload.ip (i + 1)

variable {library publisher served log} {i j : ℕ}

theorem length_logMessages : (logMessages log).length = log.length := List.length_mapIdx

theorem logMessages_getElem? (log : List Bus.Record) (i : ℕ) : (logMessages log)[i]? =
    log[i]?.map fun record =>
      { topic := hotIpTopic, partition := thePartition, offset := i, key := record.key,
        value := record.value } := List.getElem?_mapIdx

theorem logMessages_append (log more : List Bus.Record) :
    ∃ rest, logMessages (log ++ more) = logMessages log ++ rest :=
  ⟨_, List.mapIdx_append⟩

/-- The reading after one more message. -/
theorem readingAt_succ {message : ConsumedMessage} (h : (logMessages log)[i]? = some message) :
    readingAt library served log (i + 1) =
      (readingAt library served log i).absorb library served message := by
  unfold readingAt Reading.absorbAll
  rw [List.take_add_one, h, List.foldl_append]
  rfl

/-- The reading of so many messages is at the last of them. -/
theorem readingAt_position (hi : i ≤ log.length) :
    (readingAt library served log i).position = if i = 0 then none else some (i - 1 : ℤ) := by
  unfold readingAt
  rw [Reading.position_absorbAll]
  cases i with
  | zero => rfl
  | succ i =>
    have hlt : i < log.length := hi
    have hlast : ((logMessages log).take (i + 1)).getLast? = (logMessages log)[i]? := by
      rw [List.getLast?_eq_getElem?, List.length_take, length_logMessages, min_eq_left hi,
        Nat.add_sub_cancel, List.getElem?_take_of_lt (Nat.lt_succ_self i)]
    rw [hlast, logMessages_getElem?, List.getElem?_eq_getElem hlt, if_neg (Nat.succ_ne_zero i)]
    simp

theorem readingAt_append (more : List Bus.Record) (hi : i ≤ log.length) :
    readingAt library served (log ++ more) i = readingAt library served log i := by
  obtain ⟨rest, hrest⟩ := logMessages_append log more
  unfold readingAt
  rw [hrest, List.take_append_of_le_length (length_logMessages.symm ▸ hi)]

/-- What is said of an event stands when the log grows. -/
theorem factsAt_append (more : List Bus.Record) (hi : i < log.length) :
    factsAt library publisher served (log ++ more) i = factsAt library publisher served log i := by
  obtain ⟨rest, hrest⟩ := logMessages_append log more
  unfold factsAt
  rw [readingAt_append more hi.le, readingAt_append more hi, hrest,
    List.getElem?_append_left (length_logMessages.symm ▸ hi)]

/-- Beyond the log there is nothing to say. -/
theorem factsAt_of_length_le (hi : log.length ≤ i) :
    factsAt library publisher served log i = [] := by
  unfold factsAt
  rw [List.getElem?_eq_none (length_logMessages.symm ▸ hi)]
  rfl

/-- Nor where the message changes nothing. -/
theorem factsAt_of_unchanged {message : ConsumedMessage}
    (hmessage : (logMessages log)[i]? = some message)
    (h : change library served (readingAt library served log i) message = none) :
    factsAt library publisher served log i = [] := by
  unfold factsAt
  rw [hmessage, Option.bind_some, h]

theorem factsAt_of_change {message : ConsumedMessage} {payload : Codec.HotIpEvent}
    (hmessage : (logMessages log)[i]? = some message)
    (h : change library served (readingAt library served log i) message = some payload) :
    factsAt library publisher served log i =
      statsFacts publisher (readingAt library served log (i + 1)) payload.ip (i + 1) := by
  unfold factsAt
  rw [hmessage, Option.bind_some, h]

theorem factsAt_sequence {fact : StatsFact} (h : fact ∈ factsAt library publisher served log i) :
    fact.sequence = i + 1 := by
  unfold factsAt at h
  split at h
  · cases h
  · unfold statsFacts at h
    obtain ⟨l, -, rfl⟩ := List.mem_map.mp h
    rfl

theorem prefixAt_length {family : AddressFamily} {l : ℕ} (v : ℕ) (hl : l ≤ family.bitLength) :
    (prefixAt family v l).length = l := min_eq_left hl

/-- The facts of an event are about different prefixes. -/
theorem factsAt_prefixes :
    ((factsAt library publisher served log i).map StatsFact.pfx).Nodup := by
  unfold factsAt
  split
  · exact List.nodup_nil
  · unfold statsFacts
    dsimp only
    rw [List.map_map]
    refine List.Nodup.map_on (fun l hl l' hl' heq => ?_) List.nodup_range'
    obtain ⟨hlow, hhigh⟩ := List.mem_range'_1.mp hl
    obtain ⟨hlow', hhigh'⟩ := List.mem_range'_1.mp hl'
    have hlength := congrArg Prefix.length heq
    dsimp only [Function.comp_apply] at hlength
    rw [prefixAt_length _ (by omega), prefixAt_length _ (by omega)] at hlength
    exact hlength

/-- A fact of a log is known by its sequence and its prefix. -/
theorem factsAt_ext {fact fact' : StatsFact} (h : fact ∈ factsAt library publisher served log i)
    (h' : fact' ∈ factsAt library publisher served log j)
    (hsequence : fact.sequence = fact'.sequence) (hpfx : fact.pfx = fact'.pfx) :
    fact = fact' := by
  have hindex : i = j := by
    have hi := factsAt_sequence h
    have hj := factsAt_sequence h'
    omega
  rw [← hindex] at h'
  exact List.inj_on_of_nodup_map factsAt_prefixes h h' hpfx

theorem distinctBlocks_factsAt : DistinctBlocks (factsAt library publisher served log) where
  nodup _ := List.Nodup.of_map _ factsAt_prefixes
  index i j fact hi hj := by
    have hsequence := factsAt_sequence hi
    have hsequence' := factsAt_sequence hj
    omega

end Log

/-! ### What the topic holds -/

theorem statsIdentity_wellFormed (sequence : ℤ) (key : String) :
    ¬ (statsIdentity sequence key).HasSurrogate := by
  unfold statsIdentity
  rw [Codec.identityText_hasSurrogate]
  rintro (h | h | h | ⟨t, ht, h⟩)
  · exact Text.ofString_not_hasSurrogate _ h
  · exact Text.ofString_not_hasSurrogate _ h
  · exact Text.ofString_not_hasSurrogate _ h
  · cases ht
    exact Text.ofString_not_hasSurrogate _ h

/-- The agent and the type are the same in every message, so the text determines the rest. -/
theorem statsIdentity_inj {sequence sequence' : ℤ} {key key' : String}
    (h : statsIdentity sequence key = statsIdentity sequence' key') :
    sequence = sequence' ∧ key = key' := by
  have hshape : ∀ (n : ℤ) (key : String), statsIdentity n key =
      Text.ofString agentId ++ Codec.separator ::
        (Codec.PyObject.format (.int n) ++ Codec.separator ::
          (Text.ofString eventType ++ Codec.separator :: Text.ofString key)) := by
    intro n key
    simp only [statsIdentity, Codec.identityText, Codec.ofString_separator, List.append_assoc,
      List.cons_append, List.nil_append]
  rw [hshape, hshape] at h
  have hrest := (List.cons.inj (List.append_cancel_left h)).2
  obtain ⟨hsequence, hrest⟩ := separated_inj (Codec.separator_notMem_format sequence)
    (Codec.separator_notMem_format sequence') hrest
  have hkey := (List.cons.inj (List.append_cancel_left hrest)).2
  exact ⟨Codec.format_int_inj hsequence, Codec.Text.ofString_inj.mp hkey⟩

/-- With a digest that tells texts apart, facts of one id are of one event and one prefix. -/
theorem StatsFact.messageId_inj (hdigest : Ingest.DigestInjective library)
    {fact fact' : StatsFact} {id : String} (h : fact.messageId library = some id)
    (h' : fact'.messageId library = some id) :
    fact.sequence = fact'.sequence ∧ fact.pfx = fact'.pfx := by
  obtain ⟨text, htext, hid⟩ := Option.map_eq_some_iff.mp h
  obtain ⟨text', htext', hid'⟩ := Option.map_eq_some_iff.mp h'
  obtain ⟨hsequence, hsame⟩ := statsIdentity_inj (hdigest _ _ (statsIdentity_wellFormed _ _)
    (statsIdentity_wellFormed _ _) (hid.trans hid'.symm))
  rw [← hsame] at htext'
  exact ⟨hsequence, prefix_text_inj htext htext'⟩

/-- The topic of the stats holds the messages of these facts, in this order, and knows their ids. -/
structure HoldsFacts (library : Library) (bus : InMemoryBus) (facts : List StatsFact) : Prop where
  tells : List.Forall₂ (Tells library) (bus.logs prefixStatsTopic) facts
  seen : ∀ id, id ∈ bus.seenIds prefixStatsTopic ↔
    ∃ fact ∈ facts, fact.messageId library = some id

theorem holdsFacts_empty (library : Library) : HoldsFacts library {} [] where
  tells := .nil
  seen id := by simp

/-- Another topic's publishes are not seen. -/
theorem HoldsFacts.publish_other {bus : InMemoryBus} {facts : List StatsFact}
    (h : HoldsFacts library bus facts) {topic : String} (htopic : topic ≠ prefixStatsTopic)
    (key : Bytes ⊕ String) (value : Bytes) (messageId : Option String) :
    HoldsFacts library (bus.publish topic key value messageId) facts where
  tells := by
    have hlogs := bus.logs_publish topic key value messageId prefixStatsTopic
    rw [if_neg htopic.symm, List.append_nil] at hlogs
    obtain ⟨-, hlogs⟩ | ⟨-, hlogs⟩ := hlogs <;> rw [hlogs] <;> exact h.tells
  seen id := by
    rw [InMemoryBus.mem_seenIds_publish, h.seen]
    exact or_iff_left fun hnew => htopic hnew.1.symm

variable {bus : InMemoryBus} {facts block : List StatsFact} {known : StatsFact → Prop}

/-- A message that the topic is offered. -/
theorem HoldsFacts.offered (h : HoldsFacts library bus facts) {message : StatsMessage}
    {fact : StatsFact} (hcarries : Carries library message fact)
    (hsame : ∀ fact' ∈ facts, fact'.messageId library = fact.messageId library → fact' = fact) :
    HoldsFacts library (bus.publish prefixStatsTopic (.inr message.key) message.value
      (some (Codec.characters message.messageId))) (offer facts fact) := by
  have hid := hcarries.messageId_eq
  have hrepeats : bus.Repeats prefixStatsTopic (some (Codec.characters message.messageId)) ↔
      fact ∈ facts := by
    unfold InMemoryBus.Repeats
    constructor
    · rintro ⟨id, ⟨⟩, hseen⟩
      obtain ⟨fact', hmem, hid'⟩ := (h.seen _).mp hseen
      exact hsame fact' hmem (hid'.trans hid.symm) ▸ hmem
    · intro hmem
      exact ⟨_, rfl, (h.seen _).mpr ⟨fact, hmem, hid⟩⟩
  unfold offer
  constructor
  · have hlogs := bus.logs_publish prefixStatsTopic (.inr message.key) message.value
      (some (Codec.characters message.messageId)) prefixStatsTopic
    obtain ⟨hold, hlogs⟩ | ⟨hnew, hlogs⟩ := hlogs
    · rw [hlogs, if_pos (hrepeats.mp hold)]
      exact h.tells
    · rw [hlogs, if_pos rfl, if_neg fun hmem => hnew (hrepeats.mpr hmem)]
      exact List.rel_append h.tells (.cons hcarries.tells .nil)
  · intro id
    rw [InMemoryBus.mem_seenIds_publish, h.seen]
    split_ifs with hmem
    · refine or_iff_left_of_imp ?_
      rintro ⟨-, hnew⟩
      exact ⟨fact, hmem, hid.trans hnew⟩
    · constructor
      · rintro (⟨fact', hmem', hid'⟩ | ⟨-, hnew⟩)
        · exact ⟨fact', List.mem_append_left _ hmem', hid'⟩
        · exact ⟨fact, List.mem_append_right _ (List.mem_singleton.mpr rfl), hid.trans hnew⟩
      · rintro ⟨fact', hmem', hid'⟩
        rcases List.mem_append.mp hmem' with hmem' | hmem'
        · exact .inl ⟨fact', hmem', hid'⟩
        · rw [List.mem_singleton.mp hmem', hid] at hid'
          exact .inr ⟨rfl, hid'⟩

/-- One of the concurrent publishes of an event: its message is offered, unless the publish failed
before the topic took it. -/
theorem HoldsFacts.publishOne (h : HoldsFacts library bus facts) (publishing : Publishing)
    {message : StatsMessage} {fact : StatsFact} (hcarries : Carries library message fact)
    (hsame : ∀ fact' ∈ facts, fact'.messageId library = fact.messageId library → fact' = fact) :
    HoldsFacts library (publishOne publishing bus message)
      (if publishing.outcome message = .raises false then facts else offer facts fact) := by
  have hoffered := h.offered hcarries hsame
  unfold Trie.publishOne
  cases hcase : publishing.outcome message with
  | returns => simpa using hoffered
  | raises applied =>
    cases applied with
    | false => simpa using h
    | true => simpa using hoffered

/-- Every element on the left of a correspondence has a partner. -/
theorem forall₂_exists_right {α β : Type} {R : α → β → Prop} {xs : List α} {ys : List β}
    (h : List.Forall₂ R xs ys) {x : α} (hx : x ∈ xs) : ∃ y ∈ ys, R x y := by
  induction h with
  | nil => exact absurd hx List.not_mem_nil
  | cons hhead htail ih =>
    rcases List.mem_cons.mp hx with rfl | hx
    · exact ⟨_, List.mem_cons_self, hhead⟩
    · obtain ⟨y, hy, hR⟩ := ih hx
      exact ⟨y, List.mem_cons_of_mem _ hy, hR⟩

/-- And every element on the right. -/
theorem forall₂_exists_left {α β : Type} {R : α → β → Prop} {xs : List α} {ys : List β}
    (h : List.Forall₂ R xs ys) {y : β} (hy : y ∈ ys) : ∃ x ∈ xs, R x y :=
  forall₂_exists_right h.flip hy

/-- The publishes of an event, in the order in which the topic meets them: the topic is offered some
of its facts, and those of every publish that returned. -/
theorem HoldsFacts.publishes (h : HoldsFacts library bus facts) (publishing : Publishing)
    (hknown : ∀ fact fact' id, known fact → known fact' →
      fact.messageId library = some id → fact'.messageId library = some id → fact = fact')
    (hfacts : ∀ fact ∈ facts, known fact) (hblock : ∀ fact ∈ block, known fact)
    {messages : List StatsMessage}
    (hmessages : ∀ message ∈ messages, ∃ fact ∈ block, Carries library message fact) :
    ∃ taken, taken ⊆ block ∧
      HoldsFacts library (messages.foldl (Trie.publishOne publishing) bus)
        (taken.foldl offer facts) ∧
      ∀ message ∈ messages, publishing.outcome message = .returns →
        ∃ fact ∈ taken, Carries library message fact := by
  induction messages using List.reverseRecOn with
  | nil => exact ⟨[], List.nil_subset _, h, fun _ hmem => absurd hmem List.not_mem_nil⟩
  | append_singleton messages message ih =>
    obtain ⟨taken, htaken, hholds, hreturned⟩ :=
      ih fun m hm => hmessages m (List.mem_append_left _ hm)
    obtain ⟨fact, hfact, hcarries⟩ :=
      hmessages message (List.mem_append_right _ (List.mem_singleton.mpr rfl))
    have hsame : ∀ fact' ∈ taken.foldl offer facts,
        fact'.messageId library = fact.messageId library → fact' = fact := by
      intro fact' hmem hid
      refine hknown fact' fact _ ?_ (hblock fact hfact) (hid.trans hcarries.messageId_eq)
        hcarries.messageId_eq
      rcases mem_foldl_offer.mp hmem with hmem | hmem
      · exact hfacts fact' hmem
      · exact hblock fact' (htaken hmem)
    have hone := hholds.publishOne publishing hcarries hsame
    rw [List.foldl_append]
    by_cases houtcome : publishing.outcome message = .raises false
    · rw [if_pos houtcome] at hone
      refine ⟨taken, htaken, hone, fun m hm hreturns => ?_⟩
      rcases List.mem_append.mp hm with hm | hm
      · exact hreturned m hm hreturns
      · rw [List.mem_singleton.mp hm, houtcome] at hreturns
        cases hreturns
    · rw [if_neg houtcome] at hone
      refine ⟨taken ++ [fact], ?_, ?_, fun m hm hreturns => ?_⟩
      · exact List.append_subset.mpr ⟨htaken, List.cons_subset.mpr ⟨hfact, List.nil_subset _⟩⟩
      · rw [List.foldl_append]
        exact hone
      · rcases List.mem_append.mp hm with hm | hm
        · obtain ⟨fact', hmem, hcarries'⟩ := hreturned m hm hreturns
          exact ⟨fact', List.mem_append_left _ hmem, hcarries'⟩
        · rw [List.mem_singleton.mp hm]
          exact ⟨fact, List.mem_append_right _ (List.mem_singleton.mpr rfl), hcarries⟩

/-- What `publish` leaves of the topic; where it returned, every fact of the event is there. -/
theorem HoldsFacts.publish (h : HoldsFacts library bus facts) (publishing : Publishing)
    (hknown : ∀ fact fact' id, known fact → known fact' →
      fact.messageId library = some id → fact'.messageId library = some id → fact = fact')
    (hfacts : ∀ fact ∈ facts, known fact) (hblock : ∀ fact ∈ block, known fact)
    {prepared : PreparedStats}
    (hprepared : List.Forall₂ (Carries library) prepared.messages block) :
    ∃ taken, taken ⊆ block ∧
      HoldsFacts library (Program.after (Trie.publish publishing prepared bus))
        (taken.foldl offer facts) ∧
      ∀ u bus', Trie.publish publishing prepared bus = .ok u bus' → block ⊆ taken := by
  have hmem : ∀ {message}, message ∈ publishing.arrange prepared.messages ↔
      message ∈ prepared.messages := (publishing.arrange_perm _).mem_iff
  have harranged : ∀ message ∈ publishing.arrange prepared.messages,
      ∃ fact ∈ block, Carries library message fact := fun message hmessage =>
    forall₂_exists_right hprepared (hmem.mp hmessage)
  obtain ⟨taken, htaken, hholds, hreturned⟩ :=
    h.publishes publishing hknown hfacts hblock harranged
  refine ⟨taken, htaken, ?_, fun u bus' hrun fact hfact => ?_⟩
  · unfold Trie.publish
    dsimp only
    split_ifs <;> exact hholds
  · have hcount : prepared.messages.countP
        (fun message => publishing.outcome message ≠ .returns) = 0 := by
      unfold Trie.publish at hrun
      dsimp only at hrun
      split_ifs at hrun with _ hnone
      exact hnone
    obtain ⟨message, hmessage, hcarries⟩ := forall₂_exists_left hprepared hfact
    have hreturns : publishing.outcome message = .returns := by
      have hnot := List.countP_eq_zero.mp hcount message hmessage
      simpa using hnot
    obtain ⟨fact', hfact', hcarries'⟩ := hreturned message (hmem.mpr hmessage) hreturns
    exact hknown fact fact' _ (hblock fact hfact) (hblock fact' (htaken hfact'))
      hcarries.messageId_eq hcarries'.messageId_eq ▸ hfact'

end Hammertime.Trie
