import Hammertime.Codec.Interpreter
import Hammertime.Codec.Wire
import Hammertime.Tools.AgentToken

/-!
# Rotating a token

`hammertime-agent-token rotate` edits a v2 registry as plain JSON. It compares the envelope with the
deployment key and then touches one entry: the current hash becomes the predecessor, to expire when
the overlap ends, and the hash of a fresh token takes its place. `--drop-previous` takes the
predecessor away. The loader of the ingest service reads anew what was written, at any later time,
and drops a predecessor that has expired by then; `authenticate` looks at the expiry again at every
request.

Every loading of the edited document is compared with the loading of the document before it
(`load_replaced`): the record of the agent is another one, and those of the other agents are what
they were, less the predecessors that have expired in between. `token_rotation` says what this means
for the tokens.
-/

namespace Hammertime.Tools

open Lib Ingest

/-! ### The command -/

/-- What is used of `datetime`, besides what the loader uses of it. -/
structure RotationLibrary extends RegistryLibrary where
  /-- `timedelta(hours=...)` in microseconds: none for its `OverflowError`, and for the `ValueError`
  of a nan. -/
  timedelta : Float64 → Option ℤ
  /-- `isoformat`. -/
  isoformat : Codec.DateTime → Text
  /-- The number that the float of `timestamp` is. -/
  timestamp : Codec.DateTime → ℚ
  fromisoformat_isoformat : ∀ value : Codec.DateTime, value.offset = some 0 →
    fromisoformat (isoformat value) = some (some (timestamp value))

/-- What ends `rotate` early. -/
inductive RotateError where
  /-- `registry document must be a JSON object`. -/
  | notObject
  | wrongVersion (found : Option Json)
  | wrongAlgorithm (found : Option Json)
  | wrongKeyId (found : Option Json)
  | agentNotFound (agentId : Text)
  /-- `already has a previous_token_hash from an unfinished rotation`. -/
  | unfinishedRotation (agentId : Text)
  | overlapNotPositive (hours : Float64)
  /-- What `timedelta`, or its sum with the time of day, raises. -/
  | outOfRange
  /-- The `KeyError` of an entry without `token_hash`. -/
  | missingTokenHash
  /-- What is raised, at one step or another, where the agents or an entry are no object. -/
  | notDictionary

/-- The arguments of `rotate`. -/
structure RotateArgs where
  agentId : Text
  overlapHours : Float64
  dropPrevious : Bool

/-- `document[key] = value`. -/
def setField (fields : List (Text × Json)) (key : String) (value : Json) : List (Text × Json) :=
  Dict.write (Text.ofString key) value fields

/-- `entry.pop(key, None)`. -/
def popField (fields : List (Text × Json)) (key : String) : List (Text × Json) :=
  fields.filter fun field => field.1 ≠ Text.ofString key

/-- `hours <= 0`, which no nan is. -/
def notPositive (hours : Float64) : Bool :=
  if hours.isFinite then hours.value ≤ 0 else hours.significand = 0 && hours.bits.msb

/-- `_new_envelope`. -/
def newEnvelope (library : RegistryLibrary) : List (Text × Json) :=
  [(Text.ofString "registry_version", .int registryVersion),
    (Text.ofString "hash_algorithm", .str hashAlgorithm),
    (Text.ofString "key_id", .str library.keyId),
    (Text.ofString "agents", .obj [])]

/-- `_load_envelope`, of the document at the path if there is one. -/
def loadEnvelope (library : RegistryLibrary) :
    Option Json → Except RotateError (List (Text × Json))
  | none => .ok (newEnvelope library)
  | some (.obj fields) =>
    if ¬ (fieldOf fields "registry_version").any isRegistryVersion then
      .error (.wrongVersion (fieldOf fields "registry_version"))
    else if ¬ isText hashAlgorithm (fieldOf fields "hash_algorithm") then
      .error (.wrongAlgorithm (fieldOf fields "hash_algorithm"))
    else if ¬ isText library.keyId (fieldOf fields "key_id") then
      .error (.wrongKeyId (fieldOf fields "key_id"))
    else if (fieldOf fields "agents").isSome then .ok fields
    else .ok (setField fields "agents" (.obj []))
  | some _ => .error .notObject

variable (library : RotationLibrary)

/-- `datetime.now(UTC) + timedelta(hours=...)`, of a clock that shows `now`. -/
def overlapEnd (now : Codec.DateTime) (hours : Float64) : Option Codec.DateTime :=
  match library.timedelta hours with
  | none => none
  | some overlap =>
    if h : 0 ≤ now.wall + overlap ∧ now.wall + overlap < Codec.maxMicroseconds then
      some ⟨now.wall + overlap, some 0, h⟩
    else none

/-- What `_cmd_rotate` does to the entry of the agent. -/
def rotateEntry (now : Codec.DateTime) (args : RotateArgs) (newToken : String)
    (entry : List (Text × Json)) : Except RotateError (List (Text × Json)) :=
  if args.dropPrevious then
    .ok (popField (popField entry "previous_token_hash") "previous_token_expires_at")
  else if (fieldOf entry "previous_token_hash").isSome then
    .error (.unfinishedRotation args.agentId)
  else if notPositive args.overlapHours then .error (.overlapNotPositive args.overlapHours)
  else
    match overlapEnd library now args.overlapHours with
    | none => .error .outOfRange
    | some expiresAt =>
      match fieldOf entry "token_hash" with
      | none => .error .missingTokenHash
      | some tokenHash =>
        let entry := setField entry "previous_token_hash" tokenHash
        let entry := setField entry "previous_token_expires_at" (.str (library.isoformat expiresAt))
        .ok (setField entry "token_hash" (.str (hashTokenHex library.toRegistryLibrary newToken)))

/-- The document with another entry for an agent. -/
def replaceEntry (fields agents : List (Text × Json)) (agentId : Text)
    (entry : List (Text × Json)) : Json :=
  .obj (setField fields "agents" (.obj (Dict.write agentId (.obj entry) agents)))

/-- `_cmd_rotate`, from the document that was read to the one that is written. -/
def rotate (now : Codec.DateTime) (args : RotateArgs) (newToken : String)
    (document : Option Json) : Except RotateError Json := do
  let fields ← loadEnvelope library.toRegistryLibrary document
  match fieldOf fields "agents" with
  | some (.obj agents) =>
    match Dict.lookup args.agentId agents with
    | none => .error (.agentNotFound args.agentId)
    | some .null => .error (.agentNotFound args.agentId)
    | some (.obj entry) => do
      let rotated ← rotateEntry library now args newToken entry
      return replaceEntry fields agents args.agentId rotated
    | some _ => .error .notDictionary
  | _ => .error .notDictionary

/-! ### What a rotation keeps -/

/-- The agents of a document. -/
def agentsIn : Json → List (Text × Json)
  | .obj fields =>
    match fieldOf fields "agents" with
    | some (.obj agents) => agents
    | _ => []
  | _ => []

/-- The hash stands in no entry of the document. -/
def Fresh (document : Json) (hash : List UInt8) : Prop :=
  ∀ agentId entry, (agentId, Json.obj entry) ∈ agentsIn document →
    hashIn entry "token_hash" ≠ some hash ∧ hashIn entry "previous_token_hash" ≠ some hash

/-- The flag and the rate of a record. -/
def flagsOf (record : LoadedRecord) : Bool × Option ℤ := (record.enabled, record.rateLimitRps)

/-- The second registry, which is loaded at `t₀`, has the agents of the first with their flags and
rates, and answers from then on as the first does, but for one agent. -/
structure KeepsOthers (library : RegistryLibrary) (registry registry' : LoadedRegistry) (t₀ : ℤ)
    (agentId : Text) : Prop where
  flags : ∀ b, (registry'.get? b).map flagsOf = (registry.get? b).map flagsOf
  others : ∀ b, b ≠ agentId → ∀ t, t₀ ≤ t → ∀ token,
    (registry'.authenticate library t b token).map flagsOf =
      (registry.authenticate library t b token).map flagsOf

/-- The credentials of the agent are exactly the tokens of these hashes, and with them it is
authenticated if it is enabled. -/
def Credentials (library : RegistryLibrary) (registry : LoadedRegistry) (t : ℤ) (agentId : Text)
    (enabled : Bool) (accepted : List UInt8 → Prop) : Prop :=
  ∀ token, (registry.Admits library t agentId token ↔ accepted (library.hashToken token)) ∧
    ((∃ record, registry.authenticate library t agentId token = .ok record) ↔
      enabled = true ∧ accepted (library.hashToken token))

/-! ### Reading what was written -/

theorem fieldOf_setField (fields : List (Text × Json)) (key key' : String) (value : Json) :
    fieldOf (setField fields key value) key' =
      if key = key' then some value else fieldOf fields key' := by
  unfold fieldOf setField
  rw [Dict.lookup_write]
  exact if_congr Codec.Text.ofString_inj rfl rfl

theorem fieldOf_popField (fields : List (Text × Json)) (key key' : String) :
    fieldOf (popField fields key) key' = if key = key' then none else fieldOf fields key' := by
  unfold fieldOf popField
  rw [Dict.lookup_filter]
  exact if_congr Codec.Text.ofString_inj rfl rfl

theorem mem_keys_setField {fields : List (Text × Json)} {key : String} {value : Json} {k : Text}
    (h : k ∈ (setField fields key value).map Prod.fst) :
    k = Text.ofString key ∨ k ∈ fields.map Prod.fst := by
  unfold setField at h
  rw [Dict.write_keys] at h
  split_ifs at h with hmem
  · exact Or.inr h
  · obtain h | h := List.mem_append.mp h
    · exact Or.inr h
    · exact Or.inl (List.mem_singleton.mp h)

theorem mem_keys_popField {fields : List (Text × Json)} {key : String} {k : Text}
    (h : k ∈ (popField fields key).map Prod.fst) : k ∈ fields.map Prod.fst :=
  (List.filter_sublist.map Prod.fst).subset h

variable {library : RegistryLibrary}

/-- Writing the agents leaves an envelope that the loader accepts. -/
theorem envelope_setAgents {fields : List (Text × Json)} (h : Envelope library fields)
    (agents : Json) : Envelope library (setField fields "agents" agents) := by
  obtain ⟨version, algorithm, keyId, known⟩ := h
  refine ⟨?_, ?_, ?_, fun key hkey => ?_⟩
  · rw [fieldOf_setField, if_neg (by decide)]
    exact version
  · rw [fieldOf_setField, if_neg (by decide)]
    exact algorithm
  · rw [fieldOf_setField, if_neg (by decide)]
    exact keyId
  · obtain rfl | hkey := mem_keys_setField hkey
    · simp [envelopeRequiredKeys]
    · exact known key hkey

/-- What the loader makes of the fields of a rotation. -/
theorem previousFromDocument_ok {now : ℤ} {agentId : Text} {tokenHash : List UInt8}
    {fields : List (Text × Json)} {previous : Option (List UInt8 × ℚ)} :
    previousFromDocument library now agentId tokenHash fields = .ok previous ↔
      (fieldOf fields "previous_token_hash" = none ∧
          fieldOf fields "previous_token_expires_at" = none ∧ previous = none) ∨
        ∃ hash expiry previousTokenHash expiresAt,
          fieldOf fields "previous_token_hash" = some hash ∧
          fieldOf fields "previous_token_expires_at" = some expiry ∧
          parseHashHex agentId "previous_token_hash" hash = .ok previousTokenHash ∧
          previousTokenHash ≠ tokenHash ∧ parseExpiresAt library agentId expiry = .ok expiresAt ∧
          previous = if expiresAt ≤ (now : ℚ) then none else some (previousTokenHash, expiresAt) := by
  unfold previousFromDocument
  constructor
  · intro h
    split at h
    next hhash hexpiry => exact Or.inl ⟨hhash, hexpiry, (Except.ok.inj h).symm⟩
    next hash expiry hhash hexpiry =>
      obtain ⟨previousTokenHash, hparsed, h⟩ := except_bind_ok.mp h
      split_ifs at h with hsame
      obtain ⟨expiresAt, hexpires, h⟩ := except_bind_ok.mp h
      exact Or.inr ⟨hash, expiry, previousTokenHash, expiresAt, hhash, hexpiry, hparsed, hsame,
        hexpires, (Except.ok.inj h).symm⟩
    · cases h
  · rintro (⟨hhash, hexpiry, rfl⟩ |
      ⟨hash, expiry, previousTokenHash, expiresAt, hhash, hexpiry, hparsed, hsame, hexpires, rfl⟩)
    · rw [hhash, hexpiry]
    · rw [hhash, hexpiry]
      dsimp only
      rw [hparsed, Codec.ok_bind, if_neg hsame, hexpires]
      rfl

/-! ### Loading later -/

/-- A record as it is loaded later: without a predecessor that has expired by then. -/
def loadedAt (t₀ : ℤ) (record : LoadedRecord) : LoadedRecord :=
  { record with
    previousTokenHash := record.previousTokenHash.filter fun previous => (t₀ : ℚ) < previous.2 }

/-- The hashes of a record. -/
def hashesOf (record : LoadedRecord) : List (List UInt8) := record.hashes.map Prod.fst

theorem mem_hashesOf {record : LoadedRecord} {hash : List UInt8} :
    hash ∈ hashesOf record ↔ hash = record.tokenHash ∨
      ∃ expiresAt, record.previousTokenHash = some (hash, expiresAt) := by
  unfold hashesOf LoadedRecord.hashes
  cases record.previousTokenHash with
  | none => simp
  | some previous =>
    obtain ⟨previousTokenHash, expiresAt⟩ := previous
    simp [eq_comm]

theorem hashesOf_loadedAt (t₀ : ℤ) (record : LoadedRecord) :
    (hashesOf (loadedAt t₀ record)).Sublist (hashesOf record) := by
  unfold hashesOf LoadedRecord.hashes loadedAt
  cases record.previousTokenHash with
  | none => exact List.Sublist.refl _
  | some previous =>
    by_cases hlt : (t₀ : ℚ) < previous.2
    · simp [Option.filter, hlt]
    · simp [Option.filter, hlt]

/-- A predecessor that was dropped would have matched nothing since. -/
theorem matches_loadedAt {t₀ t : ℤ} (hle : t₀ ≤ t) (record : LoadedRecord) (hash : List UInt8) :
    (loadedAt t₀ record).Matches t hash ↔ record.Matches t hash := by
  unfold LoadedRecord.Matches loadedAt
  refine or_congr Iff.rfl (exists_congr fun expiresAt => and_congr_left fun hlt => ?_)
  have hlate : (t₀ : ℚ) < expiresAt := lt_of_le_of_lt (by exact_mod_cast hle) hlt
  rw [Option.filter_eq_some_iff]
  exact and_iff_left (decide_eq_true hlate)

theorem previousFromDocument_later {t t₀ : ℤ} (hle : t ≤ t₀) {agentId : Text}
    {tokenHash : List UInt8} {fields : List (Text × Json)} {previous : Option (List UInt8 × ℚ)}
    (h : previousFromDocument library t agentId tokenHash fields = .ok previous) :
    previousFromDocument library t₀ agentId tokenHash fields =
      .ok (previous.filter fun previous => (t₀ : ℚ) < previous.2) := by
  rw [previousFromDocument_ok] at h ⊢
  obtain ⟨hhash, hexpiry, rfl⟩ | ⟨hash, expiry, previousTokenHash, expiresAt, hhash, hexpiry,
    hparsed, hsame, hexpires, rfl⟩ := h
  · exact Or.inl ⟨hhash, hexpiry, rfl⟩
  · refine Or.inr ⟨hash, expiry, previousTokenHash, expiresAt, hhash, hexpiry, hparsed, hsame,
      hexpires, ?_⟩
    -- What had expired at the first loading has expired at the second.
    have hmono : (t : ℚ) ≤ (t₀ : ℚ) := by exact_mod_cast hle
    by_cases hexpired : expiresAt ≤ (t₀ : ℚ)
    · rw [if_pos hexpired]
      split_ifs
      · rfl
      · simp [Option.filter, not_lt.mpr hexpired]
    · have hlive : ¬ expiresAt ≤ (t : ℚ) := fun h => hexpired (h.trans hmono)
      rw [if_neg hexpired, if_neg hlive]
      simp [Option.filter, not_le.mp hexpired]

/-- An entry that was accepted is accepted at every later time. -/
theorem recordFromDocument_later {t t₀ : ℤ} (hle : t ≤ t₀) {agentId : Text} {entry : Json}
    {record : LoadedRecord} (h : recordFromDocument library t agentId entry = .ok record) :
    recordFromDocument library t₀ agentId entry = .ok (loadedAt t₀ record) := by
  rw [recordFromDocument_ok] at h ⊢
  obtain ⟨fields, value, hentry, htoken, hvalue, hhash, hprevious, hrest⟩ := h
  exact ⟨fields, value, hentry, htoken, hvalue, hhash, previousFromDocument_later hle hprevious,
    hrest⟩

/-! ### Loading with another entry -/

/-- The registry of records that are changed under their own ids. -/
theorem get?_fromRecords_map {records : List LoadedRecord}
    (hnodup : (records.map LoadedRecord.agentId).Nodup) {change : LoadedRecord → LoadedRecord}
    (hchange : ∀ record, (change record).agentId = record.agentId) (agentId : Text) :
    (fromRecords (records.map change)).get? agentId =
      ((fromRecords records).get? agentId).map change := by
  have hnodup' : ((records.map change).map LoadedRecord.agentId).Nodup := by
    rw [List.map_map]
    exact (List.map_congr_left fun record _ => hchange record) ▸ hnodup
  refine Option.ext fun found => ?_
  rw [Option.map_eq_some_iff]
  constructor
  · intro hfound
    obtain ⟨hmem, rfl⟩ := mem_of_get?_fromRecords hfound
    obtain ⟨record, hrecord, rfl⟩ := List.mem_map.mp hmem
    rw [hchange]
    exact ⟨record, get?_fromRecords hnodup hrecord, rfl⟩
  · rintro ⟨record, hrecord, rfl⟩
    obtain ⟨hmem, rfl⟩ := mem_of_get?_fromRecords hrecord
    rw [← hchange]
    exact get?_fromRecords hnodup' (List.mem_map_of_mem hmem)

/-- No hash stands twice in the records of which one is replaced and the others lose hashes, if the
hashes of the new one are those of the old one or stand nowhere. -/
theorem nodup_hashes_replaced {records : List LoadedRecord} {agentId : Text} {t₀ : ℤ}
    {record record' : LoadedRecord} (hids : (records.map LoadedRecord.agentId).Nodup)
    (hhashes : ((records.flatMap LoadedRecord.hashes).map Prod.fst).Nodup)
    (hmem : record ∈ records) (hid : record.agentId = agentId) (hnodup : (hashesOf record').Nodup)
    (hfresh : ∀ hash ∈ hashesOf record', hash ∈ hashesOf record ∨
      ∀ other ∈ records, hash ∉ hashesOf other) :
    (((records.map fun r => if r.agentId = agentId then record' else loadedAt t₀ r).flatMap
      LoadedRecord.hashes).map Prod.fst).Nodup := by
  rw [List.map_flatMap, List.nodup_flatMap] at hhashes ⊢
  obtain ⟨hinside, hacross⟩ := hhashes
  -- The record that is replaced is the only one of its id.
  have hunique : ∀ r ∈ records, r.agentId = agentId → r = record := fun r hr h =>
    List.inj_on_of_nodup_map hids hr hmem (h.trans hid.symm)
  -- Its new hashes are apart from those of every other record.
  have happart : ∀ r ∈ records, List.Disjoint (hashesOf record) (hashesOf r) →
      List.Disjoint (hashesOf record') (hashesOf (loadedAt t₀ r)) := by
    intro r hr hdisjoint hash hnew hold
    have hold' := (hashesOf_loadedAt t₀ r).subset hold
    obtain hhash | hnowhere := hfresh hash hnew
    · exact hdisjoint hhash hold'
    · exact hnowhere r hr hold'
  constructor
  · intro r' hr'
    obtain ⟨r, hr, rfl⟩ := List.mem_map.mp hr'
    split_ifs
    · exact hnodup
    · exact (hinside r hr).sublist (hashesOf_loadedAt t₀ r)
  · rw [List.pairwise_map]
    refine (hacross.and (List.pairwise_map.mp hids)).imp_of_mem ?_
    rintro r r' hr hr' ⟨hdisjoint, hne⟩
    show List.Disjoint (hashesOf _) (hashesOf _)
    have hdisjoint' : List.Disjoint (hashesOf r) (hashesOf r') := hdisjoint
    split_ifs with h h' h'
    · exact absurd (h.trans h'.symm) hne
    · rw [hunique r hr h] at hdisjoint'
      exact happart r' hr' hdisjoint'
    · rw [hunique r' hr' h'] at hdisjoint'
      exact (happart r hr hdisjoint'.symm).symm
    · exact fun hash hr hr' => hdisjoint' ((hashesOf_loadedAt t₀ r).subset hr)
        ((hashesOf_loadedAt t₀ r').subset hr')

/-- What is loaded of a document of which one entry was replaced: another record for its agent, and
for the others what was loaded before. -/
theorem load_replaced {t t₀ : ℤ} (hle : t ≤ t₀) {fields agents entry : List (Text × Json)}
    {registry : LoadedRegistry} {agentId : Text} {record record' : LoadedRecord}
    (hload : loadAgentRegistryDocument library t (.obj fields) = .ok registry)
    (hagents : fieldOf fields "agents" = some (.obj agents))
    (hkeys : (agents.map Prod.fst).Nodup) (hget : registry.get? agentId = some record)
    (hread : recordFromDocument library t₀ agentId (.obj entry) = .ok record')
    (hnodup : (hashesOf record').Nodup)
    (hfresh : ∀ hash ∈ hashesOf record', hash ∈ hashesOf record ∨
      ∀ b other, registry.get? b = some other → hash ∉ hashesOf other) :
    ∃ registry', loadAgentRegistryDocument library t₀ (replaceEntry fields agents agentId entry) =
        .ok registry' ∧
      ∀ b, registry'.get? b =
        if b = agentId then some record' else (registry.get? b).map (loadedAt t₀) := by
  obtain ⟨fields', agents', records, heq, henvelope, hagents', hrecords, hhashes, rfl⟩ :=
    loadAgentRegistryDocument_ok.mp hload
  cases heq
  rw [hagents] at hagents'
  cases hagents'
  have hids : (records.map LoadedRecord.agentId).Nodup := map_agentId hrecords ▸ hkeys
  obtain ⟨hmem, hid⟩ := mem_of_get?_fromRecords hget
  have hid' := recordFromDocument_agentId hread
  have hagent : agentId ∈ agents.map Prod.fst := by
    rw [map_agentId hrecords, ← hid]
    exact List.mem_map_of_mem hmem
  let change := fun r : LoadedRecord => if r.agentId = agentId then record' else loadedAt t₀ r
  have hchange : ∀ r, (change r).agentId = r.agentId := by
    intro r
    show (if r.agentId = agentId then record' else loadedAt t₀ r).agentId = r.agentId
    split_ifs with h
    · rw [hid', h]
    · rfl
  -- Every entry of the written document is read as the changed record.
  have hwritten : List.Forall₂ (fun agent record =>
      recordFromDocument library t₀ agent.1 agent.2 = .ok record)
        (Dict.write agentId (.obj entry) agents) (records.map change) := by
    rw [Dict.write_eq_map hkeys hagent, List.forall₂_map_left_iff, List.forall₂_map_right_iff]
    refine hrecords.imp fun agent r hr => ?_
    have hrid := recordFromDocument_agentId hr
    show _ = Except.ok (if r.agentId = agentId then record' else loadedAt t₀ r)
    rw [hrid]
    split_ifs with h
    · exact hread
    · exact recordFromDocument_later hle hr
  have hfresh' : ∀ hash ∈ hashesOf record', hash ∈ hashesOf record ∨
      ∀ other ∈ records, hash ∉ hashesOf other := fun hash hhash =>
    (hfresh hash hhash).imp_right fun hnowhere other hother =>
      hnowhere _ other (get?_fromRecords hids hother)
  refine ⟨fromRecords (records.map change), loadAgentRegistryDocument_ok.mpr ⟨_, _, _, rfl,
    envelope_setAgents henvelope _, ?_, hwritten,
    nodup_hashes_replaced hids hhashes hmem hid hnodup hfresh', rfl⟩, fun b => ?_⟩
  · rw [fieldOf_setField, if_pos rfl]
  · rw [get?_fromRecords_map hids hchange]
    split_ifs with h
    · rw [h, hget]
      exact congrArg some (if_pos hid)
    · refine Option.map_congr fun r hr => if_neg ?_
      rw [(mem_of_get?_fromRecords hr).2]
      exact h

theorem agentsIn_obj {fields agents : List (Text × Json)}
    (h : fieldOf fields "agents" = some (.obj agents)) : agentsIn (.obj fields) = agents := by
  unfold agentsIn
  dsimp only
  rw [h]

/-- The records of a registry are what the entries of its document were read as. -/
theorem get?_loaded {t : ℤ} {document : Json} {registry : LoadedRegistry}
    (hload : loadAgentRegistryDocument library t document = .ok registry)
    (hkeys : ((agentsIn document).map Prod.fst).Nodup) {agentId : Text} {record : LoadedRecord} :
    registry.get? agentId = some record ↔ ∃ entry, (agentId, entry) ∈ agentsIn document ∧
      recordFromDocument library t agentId entry = .ok record := by
  obtain ⟨fields, agents, records, rfl, -, hagents, hrecords, -, rfl⟩ :=
    loadAgentRegistryDocument_ok.mp hload
  rw [agentsIn_obj hagents] at hkeys ⊢
  have hids : (records.map LoadedRecord.agentId).Nodup := map_agentId hrecords ▸ hkeys
  constructor
  · intro hget
    obtain ⟨hmem, rfl⟩ := mem_of_get?_fromRecords hget
    obtain ⟨⟨agentId, entry⟩, hentry, hread⟩ := exists_left_of_forall₂ hrecords hmem
    rw [recordFromDocument_agentId hread]
    exact ⟨entry, hentry, hread⟩
  · rintro ⟨entry, hentry, hread⟩
    obtain ⟨record', hmem, hread'⟩ := exists_right_of_forall₂ hrecords hentry
    cases hread.symm.trans hread'
    rw [← recordFromDocument_agentId hread]
    exact get?_fromRecords hids hmem

/-- A hash that stands in no entry is that of no record. -/
theorem Fresh.not_mem {t : ℤ} {document : Json} {registry : LoadedRegistry}
    (hload : loadAgentRegistryDocument library t document = .ok registry)
    (hkeys : ((agentsIn document).map Prod.fst).Nodup) {hash : List UInt8}
    (hfresh : Fresh document hash) {agentId : Text} {record : LoadedRecord}
    (hget : registry.get? agentId = some record) : hash ∉ hashesOf record := by
  obtain ⟨entry, hentry, hread⟩ := (get?_loaded hload hkeys).mp hget
  obtain ⟨fields, value, rfl, -, hvalue, hparsed, hprevious, -⟩ := recordFromDocument_ok.mp hread
  obtain ⟨hcurrent, hformer⟩ := hfresh agentId fields hentry
  have hin : ∀ {key : String} {json : Json} {bytes : List UInt8}, fieldOf fields key = some json →
      parseHashHex agentId key json = .ok bytes → hashIn fields key = some bytes := by
    intro key json bytes hfield hbytes
    obtain ⟨text, rfl, htext⟩ := parseHashHex_ok hbytes
    unfold hashIn
    rw [hfield]
    exact htext
  rw [mem_hashesOf]
  rintro (rfl | ⟨expiresAt, hsome⟩)
  · exact hcurrent (hin hvalue hparsed)
  · obtain ⟨-, -, hnone⟩ | ⟨former, -, previousTokenHash, end', hfield, -, hbytes, -, -, hkept⟩ :=
      previousFromDocument_ok.mp hprevious
    · rw [hnone] at hsome
      cases hsome
    · rw [hkept] at hsome
      split_ifs at hsome
      cases hsome
      exact hformer (hin hfield hbytes)

/-! ### The entry that is edited -/

/-- What the loader looks at besides the hashes is in the second entry what it is in the first. -/
structure KeepsRest (entry entry' : List (Text × Json)) : Prop where
  token : fieldOf entry' "token" = fieldOf entry "token"
  enabled : fieldOf entry' "enabled" = fieldOf entry "enabled"
  rate : fieldOf entry' "rate_limit_rps" = fieldOf entry "rate_limit_rps"
  known : ∀ key ∈ entry'.map Prod.fst, key ∈ recordAllowedKeys ∨ key ∈ entry.map Prod.fst

/-- The entry has a new hash, and the old one until the overlap ends. -/
structure Rotated (library : RotationLibrary) (newToken : String) (expiresAt : Codec.DateTime)
    (entry rotated : List (Text × Json)) : Prop extends KeepsRest entry rotated where
  current : fieldOf rotated "token_hash" =
    some (.str (hashTokenHex library.toRegistryLibrary newToken))
  previous : ∃ tokenHash, fieldOf entry "token_hash" = some tokenHash ∧
    fieldOf rotated "previous_token_hash" = some tokenHash
  expiry : fieldOf rotated "previous_token_expires_at" = some (.str (library.isoformat expiresAt))

/-- The entry has no hash but the current one. -/
structure Dropped (entry rotated : List (Text × Json)) : Prop extends KeepsRest entry rotated where
  current : fieldOf rotated "token_hash" = fieldOf entry "token_hash"
  previous : fieldOf rotated "previous_token_hash" = none
  expiry : fieldOf rotated "previous_token_expires_at" = none

/-- The record that is read of an entry with other hashes. -/
theorem recordFromDocument_edited {t t₀ : ℤ} {agentId : Text} {entry entry' : List (Text × Json)}
    {record : LoadedRecord} {value : Json} {tokenHash : List UInt8}
    {previous : Option (List UInt8 × ℚ)} (hrest : KeepsRest entry entry')
    (hread : recordFromDocument library t agentId (.obj entry) = .ok record)
    (hvalue : fieldOf entry' "token_hash" = some value)
    (hparsed : parseHashHex agentId "token_hash" value = .ok tokenHash)
    (hprevious : previousFromDocument library t₀ agentId tokenHash entry' = .ok previous) :
    recordFromDocument library t₀ agentId (.obj entry') =
      .ok { record with tokenHash := tokenHash, previousTokenHash := previous } := by
  obtain ⟨fields, -, heq, htoken, -, -, -, henabled, hrate, hknown, hid⟩ :=
    recordFromDocument_ok.mp hread
  cases heq
  refine recordFromDocument_ok.mpr ⟨entry', value, rfl, ?_, hvalue, hparsed, hprevious, ?_, ?_, ?_,
    hid⟩
  · rw [hrest.token, htoken]
  · unfold enabledFromDocument at henabled ⊢
    rw [hrest.enabled]
    exact henabled
  · unfold rateFromDocument at hrate ⊢
    rw [hrest.rate]
    exact hrate
  · exact fun key hkey => (hrest.known key hkey).elim id fun h => hknown key h

variable {library : RotationLibrary}

/-- The end of an overlap is a time in UTC, which the loader reads back. -/
theorem fromisoformat_overlapEnd {now expiresAt : Codec.DateTime} {hours : Float64}
    (h : overlapEnd library now hours = some expiresAt) :
    library.fromisoformat (library.isoformat expiresAt) =
      some (some (library.timestamp expiresAt)) := by
  refine library.fromisoformat_isoformat expiresAt ?_
  unfold overlapEnd at h
  split at h
  · cases h
  · split_ifs at h
    cases h
    rfl

/-- What a rotation writes into the entry. -/
theorem rotateEntry_ok {now : Codec.DateTime} {args : RotateArgs} {newToken : String}
    {entry rotated : List (Text × Json)} (hdrop : args.dropPrevious = false)
    (h : rotateEntry library now args newToken entry = .ok rotated) :
    ∃ expiresAt, overlapEnd library now args.overlapHours = some expiresAt ∧
      Rotated library newToken expiresAt entry rotated := by
  unfold rotateEntry at h
  rw [if_neg (by simp [hdrop])] at h
  split_ifs at h
  split at h
  · cases h
  next expiresAt hend =>
    split at h
    · cases h
    next tokenHash hhash =>
      cases h
      refine ⟨expiresAt, hend, ⟨?_, ?_, ?_, fun key hkey => ?_⟩, ?_, ⟨tokenHash, hhash, ?_⟩, ?_⟩
      · simp [fieldOf_setField]
      · simp [fieldOf_setField]
      · simp [fieldOf_setField]
      · obtain rfl | hkey := mem_keys_setField hkey
        · simp [recordAllowedKeys]
        obtain rfl | hkey := mem_keys_setField hkey
        · simp [recordAllowedKeys]
        obtain rfl | hkey := mem_keys_setField hkey
        · simp [recordAllowedKeys]
        exact Or.inr hkey
      · simp [fieldOf_setField]
      · simp [fieldOf_setField]
      · simp [fieldOf_setField]

/-- What `--drop-previous` leaves of the entry. -/
theorem rotateEntry_drop {now : Codec.DateTime} {args : RotateArgs} {newToken : String}
    {entry rotated : List (Text × Json)} (hdrop : args.dropPrevious = true)
    (h : rotateEntry library now args newToken entry = .ok rotated) : Dropped entry rotated := by
  unfold rotateEntry at h
  rw [if_pos hdrop] at h
  cases h
  refine ⟨⟨?_, ?_, ?_, fun key hkey => ?_⟩, ?_, ?_, ?_⟩
  · simp [fieldOf_popField]
  · simp [fieldOf_popField]
  · simp [fieldOf_popField]
  · exact Or.inr (mem_keys_popField (mem_keys_popField hkey))
  · simp [fieldOf_popField]
  · simp [fieldOf_popField]
  · simp [fieldOf_popField]

/-- What `rotate` does to a document that has agents. -/
theorem rotate_ok {now : Codec.DateTime} {args : RotateArgs} {newToken : String}
    {fields agents : List (Text × Json)} {written : Json}
    (hagents : fieldOf fields "agents" = some (.obj agents))
    (hwritten : rotate library now args newToken (some (.obj fields)) = .ok written) :
    ∃ entry rotated, Dict.lookup args.agentId agents = some (.obj entry) ∧
      rotateEntry library now args newToken entry = .ok rotated ∧
      written = replaceEntry fields agents args.agentId rotated := by
  obtain ⟨fields', henvelope, h⟩ := except_bind_ok.mp hwritten
  have hsame : fields' = fields := by
    unfold loadEnvelope at henvelope
    dsimp only at henvelope
    split_ifs at henvelope with _ _ _ hsome
    · exact (Except.ok.inj henvelope).symm
    · rw [hagents] at hsome
      exact absurd rfl hsome
  subst hsame
  rw [hagents] at h
  dsimp only at h
  split at h
  · cases h
  · cases h
  next entry hentry =>
    obtain ⟨rotated, hrotated, h⟩ := except_bind_ok.mp h
    exact ⟨entry, rotated, hentry, hrotated, (Except.ok.inj h).symm⟩
  · cases h

/-! ### The tokens after a rotation -/

section

variable {library : RegistryLibrary} {registry registry' : LoadedRegistry} {agentId : Text}

theorem credentials_of_get? {record : LoadedRecord} (hget : registry.get? agentId = some record)
    (t : ℤ) {accepted : List UInt8 → Prop} (h : ∀ hash, record.Matches t hash ↔ accepted hash) :
    Credentials library registry t agentId record.enabled accepted := by
  intro token
  rw [← h]
  constructor
  · rw [LoadedRegistry.admits_iff]
    constructor
    · rintro ⟨found, hfound, hmatches⟩
      cases hget.symm.trans hfound
      exact hmatches
    · exact fun hmatches => ⟨record, hget, hmatches⟩
  · constructor
    · rintro ⟨found, hok⟩
      obtain ⟨hfound, henabled, hmatches⟩ := LoadedRegistry.authenticate_ok.mp hok
      cases hget.symm.trans hfound
      exact ⟨henabled, hmatches⟩
    · rintro ⟨henabled, hmatches⟩
      exact ⟨record, LoadedRegistry.authenticate_ok.mpr ⟨hget, henabled, hmatches⟩⟩

/-- An agent that is only loaded later gets the same answers. -/
theorem authenticate_loadedAt {t₀ t : ℤ} (hle : t₀ ≤ t)
    (hget : registry'.get? agentId = (registry.get? agentId).map (loadedAt t₀)) (token : String) :
    (registry'.authenticate library t agentId token).map flagsOf =
      (registry.authenticate library t agentId token).map flagsOf := by
  obtain ⟨hnone, hr⟩ | ⟨record, hsome, hcases⟩ :=
    LoadedRegistry.authenticate_cases library registry t agentId token
  · rw [hnone] at hget
    rw [hr]
    unfold LoadedRegistry.authenticate
    rw [hget]
    rfl
  · rw [hsome] at hget
    have hmatches := matches_loadedAt hle record (library.hashToken token)
    obtain ⟨hnone, -⟩ | ⟨record', hsome', hcases'⟩ :=
      LoadedRegistry.authenticate_cases library registry' t agentId token
    · rw [hget] at hnone
      cases hnone
    · cases hget.symm.trans hsome'
      rw [hmatches] at hcases'
      have henabled : (loadedAt t₀ record).enabled = record.enabled := rfl
      rw [henabled] at hcases'
      obtain ⟨hm, hr⟩ | ⟨hm, he, hr⟩ | ⟨hm, he, hr⟩ := hcases
      · obtain ⟨-, hr'⟩ | ⟨hm', -⟩ | ⟨hm', -⟩ := hcases'
        · rw [hr, hr']
        · exact absurd hm' hm
        · exact absurd hm' hm
      · obtain ⟨hm', -⟩ | ⟨-, -, hr'⟩ | ⟨-, he', -⟩ := hcases'
        · exact absurd hm hm'
        · rw [hr, hr']
        · exact absurd (he.symm.trans he') Bool.false_ne_true
      · obtain ⟨hm', -⟩ | ⟨-, he', -⟩ | ⟨-, -, hr'⟩ := hcases'
        · exact absurd hm hm'
        · exact absurd (he'.symm.trans he) Bool.false_ne_true
        · rw [hr, hr']
          rfl

/-- What is loaded of a document with another entry for one agent keeps the others. -/
theorem keepsOthers_of_get? {t₀ : ℤ} {record record' : LoadedRecord}
    (hget : registry.get? agentId = some record)
    (h : ∀ b, registry'.get? b =
      if b = agentId then some record' else (registry.get? b).map (loadedAt t₀))
    (hflags : flagsOf record' = flagsOf record) :
    KeepsOthers library registry registry' t₀ agentId := by
  refine ⟨fun b => ?_, fun b hb t hle token => ?_⟩
  · rw [h b]
    split_ifs with hb
    · rw [hb, hget]
      exact congrArg some hflags
    · rw [Option.map_map]
      rfl
  · exact authenticate_loadedAt hle ((h b).trans (if_neg hb)) token

/-- What is loaded of a document with another entry for one agent: the other agents are kept, and
that one has the hashes of its new record. -/
theorem load_edited {t t₀ : ℤ} (hle : t ≤ t₀) {fields agents entry : List (Text × Json)}
    {record record' : LoadedRecord} {accepted : ℤ → List UInt8 → Prop}
    (hload : loadAgentRegistryDocument library t (.obj fields) = .ok registry)
    (hagents : fieldOf fields "agents" = some (.obj agents))
    (hkeys : (agents.map Prod.fst).Nodup) (hget : registry.get? agentId = some record)
    (hread : recordFromDocument library t₀ agentId (.obj entry) = .ok record')
    (hnodup : (hashesOf record').Nodup)
    (hfresh : ∀ hash ∈ hashesOf record', hash ∈ hashesOf record ∨
      ∀ b other, registry.get? b = some other → hash ∉ hashesOf other)
    (hflags : flagsOf record' = flagsOf record)
    (hmatches : ∀ t', t₀ ≤ t' → ∀ hash, record'.Matches t' hash ↔ accepted t' hash) :
    ∃ registry', loadAgentRegistryDocument library t₀ (replaceEntry fields agents agentId entry) =
        .ok registry' ∧
      KeepsOthers library registry registry' t₀ agentId ∧
      ∀ t', t₀ ≤ t' → Credentials library registry' t' agentId record.enabled (accepted t') := by
  obtain ⟨registry', hload', hget'⟩ :=
    load_replaced hle hload hagents hkeys hget hread hnodup hfresh
  refine ⟨registry', hload', keepsOthers_of_get? hget hget' hflags, fun t' hle' => ?_⟩
  have henabled : record'.enabled = record.enabled := congrArg Prod.fst hflags
  rw [← henabled]
  exact credentials_of_get? ((hget' agentId).trans (if_pos rfl)) t' (hmatches t' hle')

end

/-- The record of the agent whose entry is edited, and the entry. -/
theorem rotate_loaded {t : ℤ} {document written : Json} {registry : LoadedRegistry}
    (hload : loadAgentRegistryDocument library.toRegistryLibrary t document = .ok registry)
    (hkeys : ((agentsIn document).map Prod.fst).Nodup) {now : Codec.DateTime} {args : RotateArgs}
    {newToken : String} (h : rotate library now args newToken (some document) = .ok written) :
    ∃ fields agents entry rotated record, document = .obj fields ∧
      fieldOf fields "agents" = some (.obj agents) ∧ (agents.map Prod.fst).Nodup ∧
      registry.get? args.agentId = some record ∧
      recordFromDocument library.toRegistryLibrary t args.agentId (.obj entry) = .ok record ∧
      rotateEntry library now args newToken entry = .ok rotated ∧
      written = replaceEntry fields agents args.agentId rotated := by
  obtain ⟨fields, agents, records, rfl, -, hagents, hrecords, -⟩ :=
    loadAgentRegistryDocument_ok.mp hload
  obtain ⟨entry, rotated, hlookup, hrotated, rfl⟩ := rotate_ok hagents h
  have hin := agentsIn_obj hagents
  have hagentsKeys : (agents.map Prod.fst).Nodup := hin ▸ hkeys
  have hentry : (args.agentId, Json.obj entry) ∈ agents :=
    (Dict.mem_items_iff (d := ⟨agents, hagentsKeys⟩)).mpr hlookup
  obtain ⟨record, -, hread⟩ := exists_right_of_forall₂ hrecords hentry
  have hget : registry.get? args.agentId = some record :=
    (get?_loaded hload hkeys).mpr ⟨_, hin ▸ hentry, hread⟩
  exact ⟨fields, agents, entry, rotated, record, rfl, hagents, hagentsKeys, hget, hread, hrotated,
    rfl⟩

/-- The record that is read of a rotated entry. -/
theorem recordFromDocument_rotated {t : ℤ} (t₀ : ℤ) {agentId : Text} {newToken : String}
    {entry rotated : List (Text × Json)} {record : LoadedRecord} {expiresAt : Codec.DateTime}
    (hrotated : Rotated library newToken expiresAt entry rotated)
    (hread : recordFromDocument library.toRegistryLibrary t agentId (.obj entry) = .ok record)
    (hend : library.fromisoformat (library.isoformat expiresAt) =
      some (some (library.timestamp expiresAt)))
    (hne : library.hashToken newToken ≠ record.tokenHash) :
    recordFromDocument library.toRegistryLibrary t₀ agentId (.obj rotated) =
      .ok { record with
        tokenHash := library.hashToken newToken
        previousTokenHash := if library.timestamp expiresAt ≤ (t₀ : ℚ) then none
          else some (record.tokenHash, library.timestamp expiresAt) } := by
  obtain ⟨tokenHash, hcurrent, hformer⟩ := hrotated.previous
  obtain ⟨fields, value, heq, -, hvalue, hparsed, -⟩ := recordFromDocument_ok.mp hread
  cases heq
  rw [hcurrent] at hvalue
  cases hvalue
  -- The field that a hash is read from is only named in errors.
  have hparsed' : parseHashHex agentId "previous_token_hash" tokenHash = .ok record.tokenHash := by
    obtain ⟨text, rfl, htext⟩ := parseHashHex_ok hparsed
    unfold parseHashHex at hparsed ⊢
    dsimp only at hparsed ⊢
    split_ifs at hparsed with hlength
    rw [if_neg hlength, htext]
  have hexpires : parseExpiresAt library.toRegistryLibrary agentId
      (.str (library.isoformat expiresAt)) = .ok (library.timestamp expiresAt) := by
    unfold parseExpiresAt
    dsimp only
    rw [hend]
  refine recordFromDocument_edited hrotated.toKeepsRest hread hrotated.current
    (parseHashHex_hexdigest agentId "token_hash" (library.length_hashToken newToken)) ?_
  exact previousFromDocument_ok.mpr (Or.inr ⟨_, _, record.tokenHash, _, hformer, hrotated.expiry,
    hparsed', hne.symm, hexpires, rfl⟩)

/-- The record that is read of an entry without its predecessor. -/
theorem recordFromDocument_dropped {library : RegistryLibrary} {t : ℤ} (t₀ : ℤ) {agentId : Text}
    {entry rotated : List (Text × Json)} {record : LoadedRecord} (hdropped : Dropped entry rotated)
    (hread : recordFromDocument library t agentId (.obj entry) = .ok record) :
    recordFromDocument library t₀ agentId (.obj rotated) =
      .ok { record with previousTokenHash := none } := by
  obtain ⟨fields, value, heq, -, hvalue, hparsed, -⟩ := recordFromDocument_ok.mp hread
  cases heq
  exact recordFromDocument_edited hdropped.toKeepsRest hread (hdropped.current.trans hvalue) hparsed
    (previousFromDocument_ok.mpr (Or.inl ⟨hdropped.previous, hdropped.expiry, rfl⟩))

/-- What the rotated agent accepts: the new token, and the old one as long as the overlap lasts,
whether or not it was over when the document was loaded. -/
theorem matches_rotated {t₀ t : ℤ} (hle : t₀ ≤ t) {record : LoadedRecord} {newHash : List UInt8}
    {timestamp : ℚ} (hash : List UInt8) :
    LoadedRecord.Matches { record with
        tokenHash := newHash
        previousTokenHash := if timestamp ≤ (t₀ : ℚ) then none
          else some (record.tokenHash, timestamp) } t hash ↔
      hash = newHash ∨ hash = record.tokenHash ∧ (t : ℚ) < timestamp := by
  unfold LoadedRecord.Matches
  dsimp only
  refine or_congr Iff.rfl ?_
  have hmono : (t₀ : ℚ) ≤ (t : ℚ) := by exact_mod_cast hle
  split_ifs with hexpired
  · -- It had expired at the loading, and has ever since.
    have hlate : timestamp ≤ (t : ℚ) := hexpired.trans hmono
    simp [not_lt.mpr hlate]
  · simp only [Option.some.injEq, Prod.mk.injEq]
    constructor
    · rintro ⟨_, ⟨rfl, rfl⟩, hlt⟩
      exact ⟨rfl, hlt⟩
    · rintro ⟨rfl, hlt⟩
      exact ⟨timestamp, ⟨rfl, rfl⟩, hlt⟩

/-- Rotation keeps every agent authenticated. Of a document that was accepted, what `rotate` writes
is accepted at every later time, with the same agents, flags and rates, and with the answers it gave
to all agents but one; that one is known by its new token, and by its old one until the overlap
ends, whenever the document is loaded. What `rotate --drop-previous` writes knows it by its current
token only. -/
theorem token_rotation (library : RotationLibrary) (t : ℤ) (document : Json)
    (registry : LoadedRegistry)
    (hload : loadAgentRegistryDocument library.toRegistryLibrary t document = .ok registry)
    (hkeys : ((agentsIn document).map Prod.fst).Nodup) :
    (∀ (now : Codec.DateTime) (args : RotateArgs) (newToken : String) (written : Json),
      args.dropPrevious = false → Fresh document (library.hashToken newToken) →
      rotate library now args newToken (some document) = .ok written →
      ∃ record expiresAt, registry.get? args.agentId = some record ∧
        overlapEnd library now args.overlapHours = some expiresAt ∧
        ∀ t₀, t ≤ t₀ → ∃ registry',
          loadAgentRegistryDocument library.toRegistryLibrary t₀ written = .ok registry' ∧
          KeepsOthers library.toRegistryLibrary registry registry' t₀ args.agentId ∧
          ∀ t', t₀ ≤ t' → Credentials library.toRegistryLibrary registry' t' args.agentId
            record.enabled fun hash => hash = library.hashToken newToken ∨
              hash = record.tokenHash ∧ (t' : ℚ) < library.timestamp expiresAt) ∧
    ∀ (now : Codec.DateTime) (args : RotateArgs) (newToken : String) (written : Json),
      args.dropPrevious = true → rotate library now args newToken (some document) = .ok written →
      ∃ record, registry.get? args.agentId = some record ∧
        ∀ t₀, t ≤ t₀ → ∃ registry',
          loadAgentRegistryDocument library.toRegistryLibrary t₀ written = .ok registry' ∧
          KeepsOthers library.toRegistryLibrary registry registry' t₀ args.agentId ∧
          ∀ t', t₀ ≤ t' → Credentials library.toRegistryLibrary registry' t' args.agentId
            record.enabled fun hash => hash = record.tokenHash := by
  constructor
  · intro now args newToken written hdrop hfresh hwritten
    obtain ⟨fields, agents, entry, rotated, record, rfl, hagents, hagentsKeys, hget, hread, hrotated,
      rfl⟩ := rotate_loaded hload hkeys hwritten
    obtain ⟨expiresAt, hend, hrotated⟩ := rotateEntry_ok hdrop hrotated
    have hnowhere : ∀ b other, registry.get? b = some other →
        library.hashToken newToken ∉ hashesOf other := fun b other hother =>
      hfresh.not_mem hload hkeys hother
    have hne : library.hashToken newToken ≠ record.tokenHash := fun h =>
      hnowhere _ _ hget (mem_hashesOf.mpr (Or.inl h))
    refine ⟨record, expiresAt, hget, hend, fun t₀ hle => ?_⟩
    have hread' := recordFromDocument_rotated t₀ hrotated hread
      (fromisoformat_overlapEnd hend) hne
    refine load_edited hle hload hagents hagentsKeys hget hread' ?_ ?_ rfl fun t' hle' hash =>
      matches_rotated hle' hash
    · unfold hashesOf LoadedRecord.hashes
      dsimp only
      split_ifs
      · simp
      · simp [hne]
    · intro hash hhash
      obtain rfl | ⟨expiry, hsome⟩ := mem_hashesOf.mp hhash
      · exact Or.inr hnowhere
      · dsimp only at hsome
        split_ifs at hsome
        cases hsome
        exact Or.inl (mem_hashesOf.mpr (Or.inl rfl))
  · intro now args newToken written hdrop hwritten
    obtain ⟨fields, agents, entry, rotated, record, rfl, hagents, hagentsKeys, hget, hread, hrotated,
      rfl⟩ := rotate_loaded hload hkeys hwritten
    have hdropped := rotateEntry_drop hdrop hrotated
    refine ⟨record, hget, fun t₀ hle => ?_⟩
    have hread' := recordFromDocument_dropped t₀ hdropped hread
    refine load_edited hle hload hagents hagentsKeys hget hread' ?_ ?_ rfl fun t' _ hash => ?_
    · simp [hashesOf, LoadedRecord.hashes]
    · intro hash hhash
      obtain rfl | ⟨expiry, hsome⟩ := mem_hashesOf.mp hhash
      · exact Or.inl (mem_hashesOf.mpr (Or.inl rfl))
      · cases hsome
    · unfold LoadedRecord.Matches
      simp

/-! ### A library -/

theorem timeText_dropLast (wall : ℕ) :
    (Codec.timeText wall).dropLast ++ ['Z'] = Codec.timeText wall := by
  refine List.dropLast_append_getLast? 'Z' ?_
  unfold Codec.timeText Codec.fractionText
  split_ifs <;> simp [List.getLast?_cons]

/-- `isoformat` of a wall clock in UTC. -/
noncomputable def utcText (wall : Codec.UtcWall) : String :=
  String.ofList ((Codec.timeText wall.1.toNat).dropLast ++ "+00:00".toList)

theorem utcText_injective : Function.Injective utcText := by
  intro wall wall' h
  have hbody := List.append_cancel_right (String.ofList_injective h)
  have htime : Codec.timeText wall.1.toNat = Codec.timeText wall'.1.toNat := by
    rw [← timeText_dropLast, hbody, timeText_dropLast]
  exact Codec.wallText_injective (congrArg String.ofList htime)

/-- `timestamp` of a wall clock in UTC. -/
def utcTimestamp (wall : ℤ) : ℚ := (wall : ℚ) / 1000000 - Codec.epochSeconds

/-- The hashes of `plainLibrary`, with times in UTC. -/
noncomputable def utcLibrary : RotationLibrary where
  hashToken := plainLibrary.hashToken
  keyId := plainLibrary.keyId
  fromisoformat text :=
    (Codec.textInverse utcText text).map fun wall => some (utcTimestamp wall.1)
  length_hashToken := plainLibrary.length_hashToken
  timedelta hours := if hours.isFinite then some (round (hours.value * 3600000000)) else none
  isoformat value := Text.ofString (utcText ⟨value.wall, value.inRange⟩)
  timestamp value := utcTimestamp value.wall
  fromisoformat_isoformat value _ := by
    rw [Codec.textInverse_apply utcText_injective]
    rfl

/-- The entry of an agent of which only the token is set. -/
def settledEntry (token : String) : List (Text × Json) :=
  [(Text.ofString "token_hash", .str (hashTokenHex plainLibrary token))]

/-- Two agents, neither of them in a rotation. -/
def settledAgents : List (Text × Json) :=
  [(Text.ofString "edge-1", .obj (settledEntry "old")),
    (Text.ofString "edge-2", .obj (settledEntry "other"))]

/-- The fields of their document. -/
def settledFields : List (Text × Json) :=
  setField (newEnvelope plainLibrary) "agents" (.obj settledAgents)

/-- What is loaded of it. -/
def settledRegistry : LoadedRegistry :=
  fromRecords [⟨Text.ofString "edge-1", plainLibrary.hashToken "old", none, true, none⟩,
    ⟨Text.ofString "edge-2", plainLibrary.hashToken "other", none, true, none⟩]

theorem midnight_inRange :
    (0 : ℤ) ≤ 63902822400000000 ∧ (63902822400000000 : ℤ) < Codec.maxMicroseconds := by decide

/-- The first midnight of 2026. -/
def midnight : Codec.DateTime := ⟨63902822400000000, some 0, midnight_inRange⟩

/-- A rotation with the default overlap. -/
def dayRotation : RotateArgs := ⟨Text.ofString "edge-1", ⟨0x4038000000000000⟩, false⟩

/-- The predecessor of the same agent is dropped. -/
def dropRotation : RotateArgs := { dayRotation with dropPrevious := true }

theorem value_day : dayRotation.overlapHours.value = 24 := by
  have hexponent : dayRotation.overlapHours.exponent = 1027 := by decide
  have hsignificand : dayRotation.overlapHours.significand = 2 ^ 51 := by decide
  have hsign : dayRotation.overlapHours.bits.msb = false := by decide
  unfold Float64.value
  rw [hexponent, hsignificand, hsign]
  norm_num

/-- The overlap ends at the next midnight. -/
theorem overlapEnd_day :
    overlapEnd utcLibrary midnight dayRotation.overlapHours =
      some ⟨63902908800000000, some 0, by decide⟩ := by
  have hfinite : dayRotation.overlapHours.isFinite = true := by decide
  have hday : utcLibrary.timedelta dayRotation.overlapHours = some 86400000000 := by
    show (if dayRotation.overlapHours.isFinite = true then
      some (round (dayRotation.overlapHours.value * 3600000000)) else none) = _
    rw [if_pos hfinite, value_day]
    norm_num
  unfold overlapEnd
  rw [hday]
  rfl

theorem timestamp_overlapEnd :
    utcLibrary.timestamp ⟨63902908800000000, some 0, by decide⟩ = 1767312000 := by
  show utcTimestamp 63902908800000000 = 1767312000
  unfold utcTimestamp Codec.epochSeconds
  norm_num

/-- Neither agent has the new token. -/
theorem fresh_new : Fresh (.obj settledFields) (utcLibrary.hashToken "new") := by
  intro agentId entry hentry
  have hsettled : (agentId, Json.obj entry) ∈ settledAgents := hentry
  simp only [settledAgents, List.mem_cons, List.not_mem_nil, or_false, Prod.mk.injEq,
    Json.obj.injEq] at hsettled
  obtain ⟨-, rfl⟩ | ⟨-, rfl⟩ := hsettled
  · exact ⟨by decide, by decide⟩
  · exact ⟨by decide, by decide⟩

/-- The rotation writes a new entry for the agent. -/
theorem rotate_day :
    ∃ rotated expiresAt, overlapEnd utcLibrary midnight dayRotation.overlapHours = some expiresAt ∧
      Rotated utcLibrary "new" expiresAt (settledEntry "old") rotated ∧
      rotate utcLibrary midnight dayRotation "new" (some (.obj settledFields)) =
        .ok (replaceEntry settledFields settledAgents dayRotation.agentId rotated) := by
  have hpositive : notPositive dayRotation.overlapHours = false := by
    have hfinite : dayRotation.overlapHours.isFinite = true := by decide
    unfold notPositive
    rw [if_pos hfinite, value_day]
    norm_num
  have hentry : ∃ rotated, rotateEntry utcLibrary midnight dayRotation "new" (settledEntry "old") =
      .ok rotated := by
    unfold rotateEntry
    rw [if_neg (by decide), if_neg (by decide), hpositive, if_neg Bool.false_ne_true,
      overlapEnd_day]
    exact ⟨_, rfl⟩
  obtain ⟨rotated, hrotated⟩ := hentry
  obtain ⟨expiresAt, hend, hrest⟩ := rotateEntry_ok rfl hrotated
  refine ⟨rotated, expiresAt, hend, hrest, ?_⟩
  show (rotateEntry utcLibrary midnight dayRotation "new" (settledEntry "old") >>= fun rotated =>
    .ok (replaceEntry settledFields settledAgents dayRotation.agentId rotated)) = _
  rw [hrotated]
  rfl

/-- The old token of the agent is one of its credentials until the next midnight. When the
predecessor is dropped before, the new token is, and the old one is not. -/
theorem token_rotation_day :
    ∃ written dropped,
      rotate utcLibrary midnight dayRotation "new" (some (.obj settledFields)) = .ok written ∧
      rotate utcLibrary midnight dropRotation "unused" (some written) = .ok dropped ∧
      (∀ t₀, 1767225600 ≤ t₀ → ∃ registry',
        loadAgentRegistryDocument utcLibrary.toRegistryLibrary t₀ written = .ok registry' ∧
        ∀ t, t₀ ≤ t →
          (registry'.Admits utcLibrary.toRegistryLibrary t (Text.ofString "edge-1") "old" ↔
            t < 1767312000)) ∧
      ∀ t₀, 1767225600 ≤ t₀ → ∃ registry',
        loadAgentRegistryDocument utcLibrary.toRegistryLibrary t₀ dropped = .ok registry' ∧
        ∀ t, t₀ ≤ t →
          registry'.Admits utcLibrary.toRegistryLibrary t (Text.ofString "edge-1") "new" ∧
          ¬ registry'.Admits utcLibrary.toRegistryLibrary t (Text.ofString "edge-1") "old" := by
  have hload : loadAgentRegistryDocument utcLibrary.toRegistryLibrary 1767225600
      (.obj settledFields) = .ok settledRegistry := rfl
  have hne : utcLibrary.hashToken "old" ≠ utcLibrary.hashToken "new" := by decide
  obtain ⟨rotated, expiresAt, hend, hrest, hwritten⟩ := rotate_day
  have hdropped : rotate utcLibrary midnight dropRotation "unused"
      (some (replaceEntry settledFields settledAgents dayRotation.agentId rotated)) =
        .ok (replaceEntry _ _ dropRotation.agentId
          (popField (popField rotated "previous_token_hash") "previous_token_expires_at")) := rfl
  refine ⟨_, _, hwritten, hdropped, ?_⟩
  obtain ⟨record, _, hget, hend', hlater⟩ :=
    (token_rotation utcLibrary 1767225600 _ settledRegistry hload (by decide)).1
      midnight dayRotation "new" _ rfl fresh_new hwritten
  cases hget
  cases hend.symm.trans hend'
  constructor
  · intro t₀ hle
    obtain ⟨registry', hload', -, hcredentials⟩ := hlater t₀ hle
    refine ⟨registry', hload', fun t hle' => ?_⟩
    cases overlapEnd_day.symm.trans hend
    refine (hcredentials t hle' "old").1.trans ?_
    rw [timestamp_overlapEnd]
    constructor
    · rintro (h | ⟨-, h⟩)
      · exact absurd h hne
      · exact_mod_cast h
    · exact fun h => Or.inr ⟨rfl, by exact_mod_cast h⟩
  · -- The document that is edited is the one the rotation wrote, in which the new token is current.
    obtain ⟨registry, hload', -⟩ := hlater 1767225600 le_rfl
    have hkeys : ((agentsIn (replaceEntry settledFields settledAgents dayRotation.agentId
        rotated)).map Prod.fst).Nodup := by
      have hsame : (agentsIn (replaceEntry settledFields settledAgents dayRotation.agentId
        rotated)).map Prod.fst = settledAgents.map Prod.fst := rfl
      rw [hsame]
      decide
    have hold : recordFromDocument utcLibrary.toRegistryLibrary 1767225600 (Text.ofString "edge-1")
        (.obj (settledEntry "old")) =
          .ok ⟨Text.ofString "edge-1", plainLibrary.hashToken "old", none, true, none⟩ := rfl
    have hread := recordFromDocument_rotated 1767225600 hrest hold (fromisoformat_overlapEnd hend)
      hne.symm
    have hnew := (get?_loaded hload' hkeys).mpr ⟨_, List.mem_cons_self, hread⟩
    obtain ⟨record, hget', hafter⟩ := (token_rotation utcLibrary 1767225600 _ registry hload'
      hkeys).2 midnight dropRotation "unused" _ rfl hdropped
    cases hnew.symm.trans hget'
    intro t₀ hle
    obtain ⟨registry', hload'', -, hcredentials⟩ := hafter t₀ hle
    refine ⟨registry', hload'', fun t hle' => ⟨?_, ?_⟩⟩
    · exact (hcredentials t hle' "new").1.mpr rfl
    · exact fun h => hne ((hcredentials t hle' "old").1.mp h)

end Hammertime.Tools
