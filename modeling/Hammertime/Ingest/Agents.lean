import Hammertime.Codec.Fields
import Hammertime.Ingest.Auth
import Hammertime.Lib.Hex

/-!
# The agent registry document

`hammertime.ingest.auth.agents`: `load_agent_registry_document` reads the v2 envelope that holds, for
every agent, the keyed hash of its token, that of the token before it as long as a rotation overlaps,
its enabled flag and its rate. A predecessor whose overlap is over is dropped on loading, and no hash
may stand twice in what is left; expiry is looked at again when a token is presented, on a clock that
has moved on.

The ids of a document are the keys of a JSON object and may hold any code point. The part of a
registry that a header can name is the registry of the middleware (`LoadedRegistry.named`).
-/

namespace Hammertime.Ingest

open Lib

/-! ### The records -/

/-- What is used of the deployment key and of `datetime`. -/
structure RegistryLibrary where
  /-- The HMAC-SHA-256 of a token's UTF-8, under the key. -/
  hashToken : String → List UInt8
  /-- `derive_key_id`. -/
  keyId : Text
  /-- `datetime.fromisoformat`: none for its `ValueError`, else nothing for a naive value and the
  number that the float of `timestamp` is for one with an offset. -/
  fromisoformat : Text → Option (Option ℚ)
  length_hashToken : ∀ token, (hashToken token).length = 32

/-- `AgentRecord`, with the id that the document gives. -/
structure LoadedRecord where
  agentId : Text
  tokenHash : List UInt8
  previousTokenHash : Option (List UInt8 × ℚ)
  enabled : Bool
  rateLimitRps : Option ℤ

/-- `AgentRegistry`, as the loader builds it. -/
abbrev LoadedRegistry := Dict Text LoadedRecord

/-- The `ConfigurationError`s of the loader, with what their texts name. -/
inductive RegistryError where
  | notObject
  | noVersion
  | wrongVersion (found : Json)
  | wrongAlgorithm (found : Option Json)
  | wrongKeyId (found : Option Json)
  | agentsNotObject
  | unknownFields (keys : List Text)
  | entryNotObject (agentId : Text)
  | plaintextToken (agentId : Text)
  | missingTokenHash (agentId : Text)
  | notHexLength (agentId : Text) (field : String)
  | notHex (agentId : Text) (field : String)
  | halfRotation (agentId : Text)
  | notRotated (agentId : Text)
  | expiryNotText (agentId : Text)
  | expiryNotDateTime (agentId value : Text)
  | expiryNaive (agentId value : Text)
  | enabledNotBoolean (agentId : Text)
  | rateNotInteger (agentId : Text)
  | rateNotPositive (agentId : Text) (rate : ℤ)
  | unknownEntryFields (agentId : Text) (keys : List Text)
  | sharedHash (earlierAgentId agentId : Text)

/-- `REGISTRY_VERSION`. -/
def registryVersion : ℤ := 2

/-- `HASH_ALGORITHM`. -/
def hashAlgorithm : Text := Text.ofString "hmac-sha256"

/-- `_HASH_HEX_LENGTH`. -/
def hashHexLength : ℕ := 64

/-- `_ENVELOPE_REQUIRED_KEYS`. -/
def envelopeRequiredKeys : List Text :=
  ["registry_version", "hash_algorithm", "key_id", "agents"].map Text.ofString

/-- `_RECORD_ALLOWED_KEYS`. -/
def recordAllowedKeys : List Text :=
  ["token_hash", "previous_token_hash", "previous_token_expires_at", "enabled",
    "rate_limit_rps"].map Text.ofString

variable (library : RegistryLibrary)

/-- `AgentRegistry.authenticate`. -/
def LoadedRegistry.authenticate (registry : LoadedRegistry) (now : ℤ) (agentId : Text)
    (token : String) : Except AgentAuthError LoadedRecord :=
  match registry.get? agentId with
  | none => .error .unknownAgent
  | some record =>
    let presentedHash := library.hashToken token
    let currentMatches : Bool := presentedHash = record.tokenHash
    let previousMatches : Bool :=
      match record.previousTokenHash with
      | none => false
      | some (hash, expiresAt) => presentedHash = hash && (now : ℚ) < expiresAt
    if ¬ (currentMatches || previousMatches) then .error .invalidCredential
    else if ¬ record.enabled then .error .agentDisabled
    else .ok record

/-! ### The loader -/

/-- `_parse_hash_hex`. -/
def parseHashHex (agentId : Text) (field : String) : Json → Except RegistryError (List UInt8)
  | .str value =>
    if value.length ≠ hashHexLength then .error (.notHexLength agentId field)
    else
      match fromhex value with
      | none => .error (.notHex agentId field)
      | some bytes => .ok bytes
  | _ => .error (.notHexLength agentId field)

/-- `_parse_expires_at`. -/
def parseExpiresAt (agentId : Text) : Json → Except RegistryError ℚ
  | .str value =>
    match library.fromisoformat value with
    | none => .error (.expiryNotDateTime agentId value)
    | some none => .error (.expiryNaive agentId value)
    | some (some timestamp) => .ok timestamp
  | _ => .error (.expiryNotText agentId)

/-- The field of an object. -/
def fieldOf (fields : List (Text × Json)) (key : String) : Option Json :=
  Dict.lookup (Text.ofString key) fields

/-- The rotation of an entry, dropped if its overlap is over. -/
def previousFromDocument (now : ℤ) (agentId : Text) (tokenHash : List UInt8)
    (fields : List (Text × Json)) : Except RegistryError (Option (List UInt8 × ℚ)) :=
  match fieldOf fields "previous_token_hash", fieldOf fields "previous_token_expires_at" with
  | none, none => .ok none
  | some hash, some expiry => do
    let previousTokenHash ← parseHashHex agentId "previous_token_hash" hash
    if previousTokenHash = tokenHash then .error (.notRotated agentId)
    else
      let expiresAt ← parseExpiresAt library agentId expiry
      return if expiresAt ≤ now then none else some (previousTokenHash, expiresAt)
  | _, _ => .error (.halfRotation agentId)

/-- The enabled flag of an entry. -/
def enabledFromDocument (agentId : Text) (fields : List (Text × Json)) :
    Except RegistryError Bool :=
  match fieldOf fields "enabled" with
  | none => .ok true
  | some (.bool enabled) => .ok enabled
  | some _ => .error (.enabledNotBoolean agentId)

/-- The rate of an entry. A boolean is no integer here. -/
def rateFromDocument (agentId : Text) (fields : List (Text × Json)) :
    Except RegistryError (Option ℤ) :=
  match fieldOf fields "rate_limit_rps" with
  | none => .ok none
  | some .null => .ok none
  | some (.int rate) =>
    if rate ≤ 0 then .error (.rateNotPositive agentId rate) else .ok (some rate)
  | some _ => .error (.rateNotInteger agentId)

/-- `_record_from_document`. -/
def recordFromDocument (now : ℤ) (agentId : Text) : Json → Except RegistryError LoadedRecord
  | .obj fields =>
    if (fieldOf fields "token").isSome then .error (.plaintextToken agentId)
    else
      match fieldOf fields "token_hash" with
      | none => .error (.missingTokenHash agentId)
      | some value => do
        let tokenHash ← parseHashHex agentId "token_hash" value
        let previousTokenHash ← previousFromDocument library now agentId tokenHash fields
        let enabled ← enabledFromDocument agentId fields
        let rateLimitRps ← rateFromDocument agentId fields
        let unknown := (fields.map Prod.fst).filter fun key => key ∉ recordAllowedKeys
        if unknown ≠ [] then .error (.unknownEntryFields agentId unknown)
        else return ⟨agentId, tokenHash, previousTokenHash, enabled, rateLimitRps⟩
  | _ => .error (.entryNotObject agentId)

/-- The hashes of a record that are looked at for duplicates, each with its agent. -/
def LoadedRecord.hashes (record : LoadedRecord) : List (List UInt8 × Text) :=
  (record.tokenHash, record.agentId) ::
    (record.previousTokenHash.map fun previous => (previous.1, record.agentId)).toList

/-- The loop that finds a hash that stands twice. -/
def checkSharedHashes : Dict (List UInt8) Text → List (List UInt8 × Text) →
    Except RegistryError Unit
  | _, [] => .ok ()
  | seenHashes, (hash, agentId) :: rest =>
    match seenHashes.get? hash with
    | some earlierAgentId => .error (.sharedHash earlierAgentId agentId)
    | none => checkSharedHashes (seenHashes.set hash agentId) rest

/-- `AgentRegistry.from_records`. -/
def fromRecords (records : List LoadedRecord) : LoadedRegistry :=
  records.foldl (fun registry record => registry.set record.agentId record) .empty

/-- `value == REGISTRY_VERSION`: Python compares an integer and a float as numbers. -/
def isRegistryVersion : Json → Bool
  | .int value => value = registryVersion
  | .float value => value.isFinite && value.value = registryVersion
  | _ => false

/-- The field is there and is the text. -/
def isText (text : Text) : Option Json → Bool
  | some (.str value) => value = text
  | _ => false

/-- `load_agent_registry_document`. -/
def loadAgentRegistryDocument (now : ℤ) : Json → Except RegistryError LoadedRegistry
  | .obj fields =>
    match fieldOf fields "registry_version" with
    | none => .error .noVersion
    | some version =>
      if ¬ isRegistryVersion version then .error (.wrongVersion version)
      else if ¬ isText hashAlgorithm (fieldOf fields "hash_algorithm") then
        .error (.wrongAlgorithm (fieldOf fields "hash_algorithm"))
      else if ¬ isText library.keyId (fieldOf fields "key_id") then
        .error (.wrongKeyId (fieldOf fields "key_id"))
      else
        match fieldOf fields "agents" with
        | some (.obj agents) =>
          let unknown := (fields.map Prod.fst).filter fun key => key ∉ envelopeRequiredKeys
          if unknown ≠ [] then .error (.unknownFields unknown)
          else do
            let records ← agents.mapM fun agent => recordFromDocument library now agent.1 agent.2
            let _ ← checkSharedHashes .empty (records.flatMap LoadedRecord.hashes)
            return fromRecords records
        | _ => .error .agentsNotObject
  | _ => .error .notObject

/-! ### What the loader accepts -/

variable {library}

/-- The check passes exactly when no hash stands twice. -/
theorem checkSharedHashes_ok {seenHashes : Dict (List UInt8) Text}
    {hashes : List (List UInt8 × Text)} :
    checkSharedHashes seenHashes hashes = .ok () ↔
      (hashes.map Prod.fst).Nodup ∧ ∀ pair ∈ hashes, seenHashes.get? pair.1 = none := by
  induction hashes generalizing seenHashes with
  | nil => exact ⟨fun _ => ⟨List.nodup_nil, fun _ hpair => by cases hpair⟩, fun _ => rfl⟩
  | cons pair rest ih =>
    unfold checkSharedHashes
    rw [List.map_cons, List.nodup_cons]
    cases hseen : seenHashes.get? pair.1 with
    | some earlierAgentId =>
      refine ⟨fun h => (by cases h), fun h => ?_⟩
      rw [h.2 pair List.mem_cons_self] at hseen
      cases hseen
    | none =>
      dsimp only
      rw [ih]
      constructor
      · intro ⟨hnodup, hrest⟩
        have hother : ∀ p ∈ rest, pair.1 ≠ p.1 ∧ seenHashes.get? p.1 = none := by
          intro p hp
          have hnone := hrest p hp
          rw [Dict.get?_set] at hnone
          split_ifs at hnone with heq
          exact ⟨heq, hnone⟩
        refine ⟨⟨fun hmem => ?_, hnodup⟩, fun p hp => ?_⟩
        · obtain ⟨p, hp, heq⟩ := List.mem_map.mp hmem
          exact (hother p hp).1 heq.symm
        · obtain rfl | hp := List.mem_cons.mp hp
          · exact hseen
          · exact (hother p hp).2
      · intro ⟨⟨hfirst, hnodup⟩, hall⟩
        refine ⟨hnodup, fun p hp => ?_⟩
        have hne : pair.1 ≠ p.1 := fun heq => hfirst (heq ▸ List.mem_map_of_mem hp)
        rw [Dict.get?_set_of_ne _ hne]
        exact hall p (List.mem_cons_of_mem _ hp)

/-- A record of the registry is one that was read, under its own id. -/
theorem mem_of_get?_fromRecords {records : List LoadedRecord} {agentId : Text}
    {record : LoadedRecord} (h : (fromRecords records).get? agentId = some record) :
    record ∈ records ∧ record.agentId = agentId := by
  have hfold : ∀ (records : List LoadedRecord) (registry : LoadedRegistry),
      (records.foldl (fun registry record => registry.set record.agentId record) registry).get?
          agentId = some record →
        registry.get? agentId = some record ∨ record ∈ records ∧ record.agentId = agentId := by
    intro records
    induction records with
    | nil => exact fun registry hget => Or.inl hget
    | cons first rest ih =>
      intro registry hget
      obtain hget | ⟨hmem, hid⟩ := ih _ hget
      · rw [Dict.get?_set] at hget
        split_ifs at hget with hid
        · cases hget
          exact Or.inr ⟨List.mem_cons_self, hid⟩
        · exact Or.inl hget
      · exact Or.inr ⟨List.mem_cons_of_mem _ hmem, hid⟩
  obtain hnone | hmem := hfold records .empty h
  · cases hnone
  · exact hmem

/-- With distinct ids every record is in the registry. -/
theorem get?_fromRecords {records : List LoadedRecord}
    (hnodup : (records.map LoadedRecord.agentId).Nodup) {record : LoadedRecord}
    (h : record ∈ records) : (fromRecords records).get? record.agentId = some record := by
  -- What later records write is under other ids.
  have hother : ∀ (records : List LoadedRecord) (registry : LoadedRegistry),
      record.agentId ∉ records.map LoadedRecord.agentId →
      (records.foldl (fun registry record => registry.set record.agentId record) registry).get?
          record.agentId = registry.get? record.agentId := by
    intro records
    induction records with
    | nil => exact fun registry _ => rfl
    | cons first rest ih =>
      intro registry hnot
      rw [List.map_cons, List.mem_cons, not_or] at hnot
      rw [List.foldl_cons, ih _ hnot.2, Dict.get?_set_of_ne _ (Ne.symm hnot.1)]
  have hfold : ∀ (records : List LoadedRecord) (registry : LoadedRegistry),
      (records.map LoadedRecord.agentId).Nodup → record ∈ records →
      (records.foldl (fun registry record => registry.set record.agentId record) registry).get?
          record.agentId = some record := by
    intro records
    induction records with
    | nil => exact fun _ _ hmem => by cases hmem
    | cons first rest ih =>
      intro registry hnodup hmem
      obtain ⟨hfirst, hrest⟩ := List.nodup_cons.mp hnodup
      obtain rfl | hmem := List.mem_cons.mp hmem
      · rw [List.foldl_cons, hother rest _ hfirst, Dict.get?_set_self]
      · exact ih _ hrest hmem
  exact hfold records .empty hnodup h

/-- What `_record_from_document` makes of an entry. -/
theorem recordFromDocument_ok {now : ℤ} {agentId : Text} {entry : Json} {record : LoadedRecord} :
    recordFromDocument library now agentId entry = .ok record ↔
      ∃ fields value, entry = .obj fields ∧ fieldOf fields "token" = none ∧
        fieldOf fields "token_hash" = some value ∧
        parseHashHex agentId "token_hash" value = .ok record.tokenHash ∧
        previousFromDocument library now agentId record.tokenHash fields =
          .ok record.previousTokenHash ∧
        enabledFromDocument agentId fields = .ok record.enabled ∧
        rateFromDocument agentId fields = .ok record.rateLimitRps ∧
        (∀ key ∈ fields.map Prod.fst, key ∈ recordAllowedKeys) ∧ record.agentId = agentId := by
  constructor
  · intro h
    unfold recordFromDocument at h
    split at h
    · next fields =>
      split_ifs at h with htoken
      split at h
      · cases h
      next value hvalue =>
        obtain ⟨tokenHash, hhash, h⟩ := except_bind_ok.mp h
        obtain ⟨previous, hprevious, h⟩ := except_bind_ok.mp h
        obtain ⟨enabled, henabled, h⟩ := except_bind_ok.mp h
        obtain ⟨rate, hrate, h⟩ := except_bind_ok.mp h
        dsimp only at h
        split_ifs at h with hunknown
        cases h
        refine ⟨fields, value, rfl, ?_, hvalue, hhash, hprevious, henabled, hrate, ?_, rfl⟩
        · simpa using htoken
        · simpa using hunknown
    · cases h
  · intro h
    obtain ⟨fields, value, rfl, htoken, hvalue, hhash, hprevious, henabled, hrate, hknown, rfl⟩ := h
    unfold recordFromDocument
    dsimp only
    rw [htoken, hvalue]
    dsimp only
    rw [if_neg (by simp), hhash]
    simp only [Codec.ok_bind, hprevious, henabled, hrate]
    rw [if_neg (by simpa using hknown)]
    rfl

theorem recordFromDocument_agentId {now : ℤ} {agentId : Text} {entry : Json}
    {record : LoadedRecord} (h : recordFromDocument library now agentId entry = .ok record) :
    record.agentId = agentId := by
  obtain ⟨_, _, -, -, -, -, -, -, -, -, hid⟩ := recordFromDocument_ok.mp h
  exact hid

section

variable {α β : Type} {R : α → β → Prop} {l : List α} {l' : List β}

theorem exists_left_of_forall₂ (h : List.Forall₂ R l l') {b : β} (hb : b ∈ l') :
    ∃ a ∈ l, R a b := by
  induction h with
  | nil => cases hb
  | cons hab _ ih =>
    obtain rfl | hb := List.mem_cons.mp hb
    · exact ⟨_, List.mem_cons_self, hab⟩
    · obtain ⟨a, ha, hr⟩ := ih hb
      exact ⟨a, List.mem_cons_of_mem _ ha, hr⟩

theorem exists_right_of_forall₂ (h : List.Forall₂ R l l') {a : α} (ha : a ∈ l) :
    ∃ b ∈ l', R a b :=
  exists_left_of_forall₂ (R := flip R) h.flip ha

end

/-- The records have the ids of their entries. -/
theorem map_agentId {now : ℤ} {agents : List (Text × Json)} {records : List LoadedRecord}
    (h : List.Forall₂ (fun agent record =>
      recordFromDocument library now agent.1 agent.2 = .ok record) agents records) :
    agents.map Prod.fst = records.map LoadedRecord.agentId := by
  induction h with
  | nil => rfl
  | cons hread _ ih => rw [List.map_cons, List.map_cons, ih, recordFromDocument_agentId hread]

/-- The envelope of a document is that of the loader's version, algorithm and key. -/
structure Envelope (library : RegistryLibrary) (fields : List (Text × Json)) : Prop where
  version : ∃ version, fieldOf fields "registry_version" = some version ∧
    isRegistryVersion version = true
  algorithm : isText hashAlgorithm (fieldOf fields "hash_algorithm") = true
  keyId : isText library.keyId (fieldOf fields "key_id") = true
  known : ∀ key ∈ fields.map Prod.fst, key ∈ envelopeRequiredKeys

/-- What `load_agent_registry_document` accepts, and what it makes of it. -/
theorem loadAgentRegistryDocument_ok {now : ℤ} {document : Json} {registry : LoadedRegistry} :
    loadAgentRegistryDocument library now document = .ok registry ↔
      ∃ fields agents records, document = .obj fields ∧ Envelope library fields ∧
        fieldOf fields "agents" = some (.obj agents) ∧
        List.Forall₂ (fun agent record =>
          recordFromDocument library now agent.1 agent.2 = .ok record) agents records ∧
        ((records.flatMap LoadedRecord.hashes).map Prod.fst).Nodup ∧
        registry = fromRecords records := by
  constructor
  · intro h
    unfold loadAgentRegistryDocument at h
    split at h
    · next fields =>
      split at h
      · cases h
      next version hversion =>
        split_ifs at h with hv halgorithm hkey
        split at h
        next agents hagents =>
          dsimp only at h
          split_ifs at h with hunknown
          obtain ⟨records, hrecords, h⟩ := except_bind_ok.mp h
          obtain ⟨_, hshared, h⟩ := except_bind_ok.mp h
          cases h
          refine ⟨fields, agents, records, rfl, ⟨⟨version, hversion, by simpa using hv⟩,
            by simpa using halgorithm, by simpa using hkey, by simpa using hunknown⟩, hagents,
            Codec.mapM_ok.mp hrecords, (checkSharedHashes_ok.mp hshared).1, rfl⟩
        · cases h
    · cases h
  · intro h
    obtain ⟨fields, agents, records, rfl, ⟨⟨version, hversion, hv⟩, halgorithm, hkey, hknown⟩,
      hagents, hrecords, hnodup, rfl⟩ := h
    unfold loadAgentRegistryDocument
    dsimp only
    rw [hversion]
    dsimp only
    rw [if_neg (by simpa using hv), if_neg (by simpa using halgorithm), if_neg (by simpa using hkey),
      hagents]
    dsimp only
    rw [if_neg (by simpa using hknown), Codec.mapM_ok.mpr hrecords, Codec.ok_bind,
      checkSharedHashes_ok.mpr ⟨hnodup, fun _ _ => rfl⟩]
    rfl

/-! ### One credential, one identity -/

/-- The hash is the current one of the record, or the previous one before it expires. -/
def LoadedRecord.Matches (record : LoadedRecord) (now : ℤ) (hash : List UInt8) : Prop :=
  hash = record.tokenHash ∨
    ∃ expiresAt, record.previousTokenHash = some (hash, expiresAt) ∧ (now : ℚ) < expiresAt

/-- `authenticate`, in terms of the record. -/
theorem LoadedRegistry.authenticate_cases (library : RegistryLibrary) (registry : LoadedRegistry)
    (now : ℤ) (agentId : Text) (token : String) :
    (registry.get? agentId = none ∧
        registry.authenticate library now agentId token = .error .unknownAgent) ∨
      ∃ record, registry.get? agentId = some record ∧
        ((¬ record.Matches now (library.hashToken token) ∧
            registry.authenticate library now agentId token = .error .invalidCredential) ∨
          (record.Matches now (library.hashToken token) ∧ record.enabled = false ∧
            registry.authenticate library now agentId token = .error .agentDisabled) ∨
          (record.Matches now (library.hashToken token) ∧ record.enabled = true ∧
            registry.authenticate library now agentId token = .ok record)) := by
  unfold LoadedRegistry.authenticate
  cases hget : registry.get? agentId with
  | none => exact Or.inl ⟨rfl, rfl⟩
  | some record =>
    refine Or.inr ⟨record, rfl, ?_⟩
    have hmatches : (decide (library.hashToken token = record.tokenHash) ||
        match record.previousTokenHash with
        | none => false
        | some (hash, expiresAt) =>
          decide (library.hashToken token = hash) && decide ((now : ℚ) < expiresAt)) = true ↔
        record.Matches now (library.hashToken token) := by
      unfold LoadedRecord.Matches
      cases record.previousTokenHash with
      | none => simp
      | some previous =>
        obtain ⟨hash, expiresAt⟩ := previous
        simp only [Bool.or_eq_true, Bool.and_eq_true, decide_eq_true_eq, Option.some.injEq,
          Prod.mk.injEq]
        refine or_congr Iff.rfl ⟨fun h => ⟨expiresAt, ⟨h.1.symm, rfl⟩, h.2⟩, ?_⟩
        rintro ⟨_, ⟨rfl, rfl⟩, hlt⟩
        exact ⟨rfl, hlt⟩
    dsimp only
    by_cases hm : record.Matches now (library.hashToken token)
    · rw [if_neg (not_not.mpr (hmatches.mpr hm))]
      cases henabled : record.enabled with
      | false => exact Or.inr (Or.inl ⟨hm, rfl, rfl⟩)
      | true => exact Or.inr (Or.inr ⟨hm, rfl, rfl⟩)
    · rw [if_pos fun h => hm (hmatches.mp h)]
      exact Or.inl ⟨hm, rfl⟩

/-- The agent is registered and the credential is one of its own, whether or not it is enabled. -/
def LoadedRegistry.Admits (library : RegistryLibrary) (registry : LoadedRegistry) (now : ℤ)
    (agentId : Text) (token : String) : Prop :=
  registry.authenticate library now agentId token ≠ .error .unknownAgent ∧
    registry.authenticate library now agentId token ≠ .error .invalidCredential

theorem LoadedRegistry.admits_iff {registry : LoadedRegistry} {now : ℤ} {agentId : Text}
    {token : String} :
    registry.Admits library now agentId token ↔
      ∃ record, registry.get? agentId = some record ∧
        record.Matches now (library.hashToken token) := by
  unfold Admits
  obtain ⟨hnone, hr⟩ | ⟨record, hget, ⟨hm, hr⟩ | ⟨hm, -, hr⟩ | ⟨hm, -, hr⟩⟩ :=
    authenticate_cases library registry now agentId token
  · simp [hnone, hr]
  · simp [hget, hr, hm]
  · simp [hget, hr, hm]
  · simp [hget, hr, hm]

theorem LoadedRegistry.authenticate_ok {registry : LoadedRegistry} {now : ℤ} {agentId : Text}
    {token : String} {record : LoadedRecord} :
    registry.authenticate library now agentId token = .ok record ↔
      registry.get? agentId = some record ∧ record.enabled = true ∧
        record.Matches now (library.hashToken token) := by
  obtain ⟨hnone, hr⟩ | ⟨found, hget, ⟨hm, hr⟩ | ⟨hm, he, hr⟩ | ⟨hm, he, hr⟩⟩ :=
    authenticate_cases library registry now agentId token
  · simp [hnone, hr]
  · rw [hr, hget]
    refine ⟨fun h => (by cases h), ?_⟩
    rintro ⟨h, -, hm'⟩
    cases h
    exact absurd hm' hm
  · rw [hr, hget]
    refine ⟨fun h => (by cases h), ?_⟩
    rintro ⟨h, he', -⟩
    cases h
    rw [he] at he'
    cases he'
  · rw [hr, hget, Except.ok.injEq, Option.some.injEq]
    refine ⟨fun h => ⟨h, h ▸ he, h ▸ hm⟩, fun h => h.1⟩

/-- A hash that a record matches is one that the duplicate check saw. -/
theorem LoadedRecord.Matches.mem_hashes {record : LoadedRecord} {now : ℤ} {hash : List UInt8}
    (h : record.Matches now hash) : (hash, record.agentId) ∈ record.hashes := by
  unfold hashes
  obtain rfl | ⟨expiresAt, hprevious, -⟩ := h
  · exact List.mem_cons_self
  · rw [hprevious]
    exact List.mem_cons_of_mem _ List.mem_cons_self

/-- Where no hash stands twice, a hash belongs to one agent. -/
theorem agentId_of_mem_hashes {hashes : List (List UInt8 × Text)}
    (hnodup : (hashes.map Prod.fst).Nodup) {hash : List UInt8} {agentId agentId' : Text}
    (h : (hash, agentId) ∈ hashes) (h' : (hash, agentId') ∈ hashes) : agentId = agentId' :=
  congrArg Prod.snd (List.inj_on_of_nodup_map hnodup h h' rfl)

/-- The hash that a field of an entry gives. -/
def hashIn (fields : List (Text × Json)) (key : String) : Option (List UInt8) :=
  match fieldOf fields key with
  | some (.str value) => fromhex value
  | _ => none

/-- The time that the expiry of an entry gives. -/
def expiryIn (library : RegistryLibrary) (fields : List (Text × Json)) : Option ℚ :=
  match fieldOf fields "previous_token_expires_at" with
  | some (.str value) => (library.fromisoformat value).join
  | _ => none

/-- What the entry of an agent in the document says of a hash at a time. -/
def EntryMatches (library : RegistryLibrary) (fields : List (Text × Json)) (now : ℤ)
    (hash : List UInt8) : Prop :=
  hashIn fields "token_hash" = some hash ∨
    ∃ expiresAt, hashIn fields "previous_token_hash" = some hash ∧
      expiryIn library fields = some expiresAt ∧ (now : ℚ) < expiresAt

theorem parseHashHex_ok {agentId : Text} {key : String} {value : Json} {bytes : List UInt8}
    (h : parseHashHex agentId key value = .ok bytes) :
    ∃ text, value = .str text ∧ fromhex text = some bytes := by
  unfold parseHashHex at h
  split at h
  · next text =>
    split_ifs at h
    split at h
    · cases h
    · next hbytes =>
      cases h
      exact ⟨text, rfl, hbytes⟩
  · cases h

theorem parseExpiresAt_ok {agentId : Text} {value : Json} {timestamp : ℚ}
    (h : parseExpiresAt library agentId value = .ok timestamp) :
    ∃ text, value = .str text ∧ library.fromisoformat text = some (some timestamp) := by
  unfold parseExpiresAt at h
  split at h
  · next text =>
    split at h
    · cases h
    · cases h
    · next hparsed =>
      cases h
      exact ⟨text, rfl, hparsed⟩
  · cases h

/-- From the loading on, a predecessor that was kept matches what the entry says of it, and one that
was dropped had expired. -/
theorem previousFromDocument_matches {t₀ now : ℤ} (hle : t₀ ≤ now) {agentId : Text}
    {tokenHash : List UInt8} {fields : List (Text × Json)} {previous : Option (List UInt8 × ℚ)}
    (hprevious : previousFromDocument library t₀ agentId tokenHash fields = .ok previous)
    (hash : List UInt8) :
    (∃ expiresAt, previous = some (hash, expiresAt) ∧ (now : ℚ) < expiresAt) ↔
      ∃ expiresAt, hashIn fields "previous_token_hash" = some hash ∧
        expiryIn library fields = some expiresAt ∧ (now : ℚ) < expiresAt := by
  unfold previousFromDocument at hprevious
  split at hprevious
  next hnone _ =>
    have hrecord := Except.ok.inj hprevious
    have hnothing : hashIn fields "previous_token_hash" = none := by
      unfold hashIn
      rw [hnone]
    rw [← hrecord, hnothing]
    simp
  next hashValue expiryValue hhashValue hexpiryValue =>
    obtain ⟨previousTokenHash, hparsed, hrest⟩ := except_bind_ok.mp hprevious
    split_ifs at hrest
    obtain ⟨expiresAt, hexpires, hkept⟩ := except_bind_ok.mp hrest
    obtain ⟨hashText, rfl, hhashText⟩ := parseHashHex_ok hparsed
    obtain ⟨expiryText, rfl, hexpiryText⟩ := parseExpiresAt_ok hexpires
    have hhashIn : hashIn fields "previous_token_hash" = some previousTokenHash := by
      unfold hashIn
      rw [hhashValue]
      exact hhashText
    have hexpiryIn : expiryIn library fields = some expiresAt := by
      unfold expiryIn
      rw [hexpiryValue]
      dsimp only
      rw [hexpiryText]
      rfl
    rw [hhashIn, hexpiryIn]
    have hrecord := Except.ok.inj hkept
    rw [← hrecord]
    split_ifs with hexpired
    · -- It was dropped, and has expired ever since.
      have hlate : expiresAt ≤ (now : ℚ) := hexpired.trans (by exact_mod_cast hle)
      constructor
      · rintro ⟨_, hsome, -⟩
        cases hsome
      · rintro ⟨_, -, heq, hlt⟩
        cases heq
        exact absurd hlt (not_lt.mpr hlate)
    · constructor
      · rintro ⟨_, heq, hlt⟩
        cases heq
        exact ⟨expiresAt, rfl, rfl, hlt⟩
      · rintro ⟨_, heq, heq', hlt⟩
        cases heq
        cases heq'
        exact ⟨expiresAt, rfl, hlt⟩
  · cases hprevious

/-- From its loading on, a record matches what its entry does: a predecessor that was dropped had
expired. -/
theorem matches_iff_entryMatches {t₀ now : ℤ} (hle : t₀ ≤ now) {agentId : Text} {entry : Json}
    {record : LoadedRecord} (h : recordFromDocument library t₀ agentId entry = .ok record)
    (hash : List UInt8) :
    ∃ fields, entry = .obj fields ∧
      (record.Matches now hash ↔ EntryMatches library fields now hash) ∧
      (record.enabled = true ↔ (fieldOf fields "enabled").getD (.bool true) = .bool true) := by
  obtain ⟨fields, value, rfl, -, hvalue, hhash, hprevious, henabled, -⟩ :=
    recordFromDocument_ok.mp h
  refine ⟨fields, rfl, ?_, ?_⟩
  · obtain ⟨text, rfl, hbytes⟩ := parseHashHex_ok hhash
    have hcurrent : hashIn fields "token_hash" = some record.tokenHash := by
      unfold hashIn
      rw [hvalue]
      exact hbytes
    unfold LoadedRecord.Matches EntryMatches
    rw [hcurrent, Option.some.injEq]
    refine or_congr eq_comm ?_
    exact previousFromDocument_matches hle hprevious hash
  · unfold enabledFromDocument at henabled
    split at henabled
    next hnone =>
      rw [hnone, ← Except.ok.inj henabled]
      simp
    next enabled hsome =>
      rw [hsome, ← Except.ok.inj henabled]
      simp
    · cases henabled

/-- One credential, one identity. Of a document that was accepted, no token is a credential of two
agents, at whatever time; `authenticate` returns the record of an agent exactly when it is registered
and enabled and the token is its current one or its previous one before that expires; and from the
time of the loading on this is what the entries of the document say. -/
theorem one_identity (library : RegistryLibrary) (t₀ : ℤ) (document : Json)
    (registry : LoadedRegistry)
    (h : loadAgentRegistryDocument library t₀ document = .ok registry) :
    (∀ (token : String) (t : ℤ) (agentId agentId' : Text),
      registry.Admits library t agentId token → registry.Admits library t agentId' token →
      agentId = agentId') ∧
    (∀ (token : String) (t : ℤ) (agentId : Text) (record : LoadedRecord),
      registry.authenticate library t agentId token = .ok record ↔
        registry.get? agentId = some record ∧ record.enabled = true ∧
          (library.hashToken token = record.tokenHash ∨
            ∃ expiresAt, record.previousTokenHash = some (library.hashToken token, expiresAt) ∧
              (t : ℚ) < expiresAt)) ∧
    ∀ fields agents, document = .obj fields → fieldOf fields "agents" = some (.obj agents) →
      (agents.map Prod.fst).Nodup → ∀ (token : String) (t : ℤ), t₀ ≤ t → ∀ agentId : Text,
        (∃ record, registry.authenticate library t agentId token = .ok record) ↔
          ∃ entry, (agentId, Json.obj entry) ∈ agents ∧
            (fieldOf entry "enabled").getD (.bool true) = .bool true ∧
            EntryMatches library entry t (library.hashToken token) := by
  obtain ⟨fields, agents, records, rfl, -, hagents, hrecords, hnodup, rfl⟩ :=
    loadAgentRegistryDocument_ok.mp h
  refine ⟨fun token t agentId agentId' hadmits hadmits' => ?_, fun token t agentId record =>
    LoadedRegistry.authenticate_ok, ?_⟩
  · obtain ⟨record, hget, hmatches⟩ := LoadedRegistry.admits_iff.mp hadmits
    obtain ⟨record', hget', hmatches'⟩ := LoadedRegistry.admits_iff.mp hadmits'
    obtain ⟨hmem, rfl⟩ := mem_of_get?_fromRecords hget
    obtain ⟨hmem', rfl⟩ := mem_of_get?_fromRecords hget'
    -- The loader has refused every document with one hash under two agents.
    exact agentId_of_mem_hashes hnodup (List.mem_flatMap.mpr ⟨record, hmem, hmatches.mem_hashes⟩)
      (List.mem_flatMap.mpr ⟨record', hmem', hmatches'.mem_hashes⟩)
  · intro fields' agents' hdocument hagents' hkeys token t hle agentId
    cases hdocument
    rw [hagents] at hagents'
    cases hagents'
    constructor
    · rintro ⟨record, hok⟩
      obtain ⟨hget, henabled, hmatches⟩ := LoadedRegistry.authenticate_ok.mp hok
      obtain ⟨hmem, rfl⟩ := mem_of_get?_fromRecords hget
      obtain ⟨⟨agentId, value⟩, hagent, hread⟩ := exists_left_of_forall₂ hrecords hmem
      obtain ⟨entry, rfl, hiff, hiff'⟩ := matches_iff_entryMatches hle hread (library.hashToken token)
      rw [recordFromDocument_agentId hread]
      exact ⟨entry, hagent, hiff'.mp henabled, hiff.mp hmatches⟩
    · rintro ⟨entry, hagent, henabled, hmatches⟩
      obtain ⟨record, hmem, hread⟩ := exists_right_of_forall₂ hrecords hagent
      obtain ⟨fields, heq, hiff, hiff'⟩ := matches_iff_entryMatches hle hread (library.hashToken token)
      cases heq
      have hid := recordFromDocument_agentId hread
      have hget := get?_fromRecords (map_agentId hrecords ▸ hkeys) hmem
      rw [hid] at hget
      exact ⟨record, LoadedRegistry.authenticate_ok.mpr ⟨hget, hiff'.mpr henabled,
        hiff.mpr hmatches⟩⟩

/-- A library whose hash is the text of the token itself, cut to 32 bytes. -/
def plainLibrary : RegistryLibrary where
  hashToken token := ((token.toList.map fun c : Char => UInt8.ofNat c.toNat) ++ List.replicate 32 0).take 32
  keyId := Text.ofString "0123456789abcdef"
  fromisoformat text :=
    if text = Text.ofString "2026-01-01T00:00:00Z" then some (some 1767225600) else none
  length_hashToken token := by simp

/-- A document with an agent in the middle of a rotation and another one. -/
def rotatingDocument : Json :=
  .obj [(Text.ofString "registry_version", .int 2),
    (Text.ofString "hash_algorithm", .str hashAlgorithm),
    (Text.ofString "key_id", .str plainLibrary.keyId),
    (Text.ofString "agents", .obj [
      (Text.ofString "edge-1", .obj [
        (Text.ofString "token_hash", .str (hexdigest (plainLibrary.hashToken "new"))),
        (Text.ofString "previous_token_hash", .str (hexdigest (plainLibrary.hashToken "old"))),
        (Text.ofString "previous_token_expires_at",
          .str (Text.ofString "2026-01-01T00:00:00Z"))]),
      (Text.ofString "edge-2", .obj [
        (Text.ofString "token_hash", .str (hexdigest (plainLibrary.hashToken "other"))),
        (Text.ofString "enabled", .bool false)])])]

/-- What is loaded of it before the rotation ends. -/
def rotatingRegistry : LoadedRegistry :=
  fromRecords [
    ⟨Text.ofString "edge-1", plainLibrary.hashToken "new",
      some (plainLibrary.hashToken "old", 1767225600), true, none⟩,
    ⟨Text.ofString "edge-2", plainLibrary.hashToken "other", none, false, none⟩]

/-- The old token is a credential of nobody but the agent that is rotated. -/
theorem one_identity_rotating :
    loadAgentRegistryDocument plainLibrary 1767225599 rotatingDocument = .ok rotatingRegistry ∧
      ∀ agentId, rotatingRegistry.Admits plainLibrary 1767225599 agentId "old" →
        agentId = Text.ofString "edge-1" := by
  have hload : loadAgentRegistryDocument plainLibrary 1767225599 rotatingDocument =
      .ok rotatingRegistry := rfl
  have hone := (one_identity plainLibrary 1767225599 rotatingDocument _ hload).1 "old" 1767225599
  refine ⟨hload, fun agentId hadmits => hone agentId _ hadmits ?_⟩
  exact LoadedRegistry.admits_iff.mpr ⟨_, rfl, Or.inr ⟨1767225600, rfl, by norm_num⟩⟩

/-! ### The registry of the middleware -/

/-- The characters of a text that holds no surrogate. -/
def textChars? : Text → Option (List Char)
  | [] => some []
  | c :: rest =>
    if CodePoint.IsSurrogate c then none
    else (textChars? rest).map fun chars => Char.ofNat c.val :: chars

/-- The string of a text that holds no surrogate. -/
def textString? (text : Text) : Option String := (textChars? text).map String.ofList

/-- A code point that is no surrogate is that of its character. -/
theorem ofChar_ofNat {c : CodePoint} (h : ¬ c.IsSurrogate) :
    CodePoint.ofChar (Char.ofNat c.val) = c := by
  have hvalid : c.val.isValidChar := by
    have hlt := c.isLt
    unfold CodePoint.IsSurrogate at h
    unfold Nat.isValidChar
    omega
  refine Fin.ext ?_
  show (Char.ofNat c.val).toNat = c.val
  unfold Char.ofNat
  rw [dif_pos hvalid]
  rfl

theorem textChars?_eq_some {text : Text} {chars : List Char} :
    textChars? text = some chars ↔ chars.map CodePoint.ofChar = text := by
  induction text generalizing chars with
  | nil =>
    unfold textChars?
    rw [Option.some.injEq, List.map_eq_nil_iff, eq_comm]
  | cons c rest ih =>
    unfold textChars?
    split_ifs with hsurrogate
    · refine ⟨fun h => (by cases h), fun h => ?_⟩
      obtain ⟨char, chars, rfl, rfl, -⟩ := List.map_eq_cons_iff.mp h
      exact absurd hsurrogate (CodePoint.ofChar_not_isSurrogate char)
    · rw [Option.map_eq_some_iff]
      constructor
      · rintro ⟨chars, hchars, rfl⟩
        rw [List.map_cons, ofChar_ofNat hsurrogate, ih.mp hchars]
      · intro h
        obtain ⟨char, chars, rfl, rfl, hrest⟩ := List.map_eq_cons_iff.mp h
        exact ⟨chars, ih.mpr hrest, congrArg (· :: chars) (Char.ofNat_toNat char)⟩

theorem textString?_eq_some {text : Text} {string : String} :
    textString? text = some string ↔ Text.ofString string = text := by
  unfold textString? Text.ofString
  rw [Option.map_eq_some_iff]
  constructor
  · rintro ⟨chars, hchars, rfl⟩
    rw [String.toList_ofList]
    exact textChars?_eq_some.mp hchars
  · intro h
    exact ⟨string.toList, textChars?_eq_some.mpr h, String.ofList_toList⟩

/-- Keys that are renamed apart stay distinct, also with some left out. -/
theorem nodup_keys_filterMap {κ κ' α β : Type} {items : List (κ × α)}
    (h : (items.map Prod.fst).Nodup) (f : κ → Option κ')
    (hf : ∀ {k l m}, f k = some m → f l = some m → k = l) (g : κ' → α → β) :
    ((items.filterMap fun p => (f p.1).map fun k => (k, g k p.2)).map Prod.fst).Nodup := by
  have hkeys : (items.filterMap fun p => (f p.1).map fun k => (k, g k p.2)).map Prod.fst =
      (items.map Prod.fst).filterMap f := by
    rw [List.map_filterMap, List.filterMap_map]
    refine List.filterMap_congr fun p _ => ?_
    simp only [Function.comp, Option.map_map]
    exact Option.map_id'
  rw [hkeys]
  exact h.filterMap fun k l m hk hl => hf hk hl

/-- A record under the id that a header gives. -/
def LoadedRecord.named (record : LoadedRecord) (agentId : String) : AgentRecord :=
  ⟨agentId, record.tokenHash, record.previousTokenHash, record.enabled, record.rateLimitRps⟩

/-- The registry that the middleware reads: the agents that a header can name. -/
def LoadedRegistry.named (registry : LoadedRegistry) : AgentRegistry where
  items := registry.items.filterMap fun agent =>
    (textString? agent.1).map fun agentId => (agentId, agent.2.named agentId)
  nodup := by
    refine nodup_keys_filterMap registry.nodup textString? (fun {text text' string} h h' => ?_)
      fun agentId record => record.named agentId
    rw [← textString?_eq_some.mp h, ← textString?_eq_some.mp h']

theorem LoadedRegistry.get?_named (registry : LoadedRegistry) (agentId : String) :
    (LoadedRegistry.named registry).get? agentId =
      (registry.get? (Text.ofString agentId)).map fun record => record.named agentId := by
  refine Option.ext fun found => ?_
  rw [Option.map_eq_some_iff, ← Dict.mem_items_iff]
  show _ ∈ registry.items.filterMap _ ↔ _
  rw [List.mem_filterMap]
  constructor
  · rintro ⟨⟨text, record⟩, hmem, hsome⟩
    obtain ⟨string, hstring, heq⟩ := Option.map_eq_some_iff.mp hsome
    cases heq
    rw [textString?_eq_some.mp hstring]
    exact ⟨record, Dict.mem_items_iff.mp hmem, rfl⟩
  · rintro ⟨record, hget, rfl⟩
    refine ⟨(Text.ofString agentId, record), Dict.mem_items_iff.mpr hget, ?_⟩
    dsimp only
    rw [textString?_eq_some.mpr rfl]
    rfl

/-- The middleware authenticates against what was loaded. -/
theorem authenticate_named (primitives : Primitives)
    (hhash : primitives.hashToken = library.hashToken) (registry : LoadedRegistry) (now : ℤ)
    (agentId token : String) :
    AgentRegistry.authenticate primitives (LoadedRegistry.named registry) now agentId token =
      (registry.authenticate library now (Text.ofString agentId) token).map
        fun record => record.named agentId := by
  unfold AgentRegistry.authenticate LoadedRegistry.authenticate
  rw [LoadedRegistry.get?_named, hhash]
  cases registry.get? (Text.ofString agentId) with
  | none => rfl
  | some record =>
    obtain ⟨id, tokenHash, previousTokenHash, enabled, rateLimitRps⟩ := record
    cases previousTokenHash with
    | none =>
      dsimp only [Option.map, LoadedRecord.named]
      split_ifs <;> rfl
    | some previous =>
      dsimp only [Option.map, LoadedRecord.named]
      split_ifs <;> rfl

end Hammertime.Ingest
