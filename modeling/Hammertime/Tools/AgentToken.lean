import Hammertime.Ingest.Agents

/-!
# Migrating a registry

`hammertime-agent-token migrate` converts a v1 registry, which holds the tokens in plain text, to the
v2 document of their hashes, and tells the operator to destroy the original. It looks at nothing of an
entry but that its token is a string: the enabled flag and the rate are carried over as they are, and
tokens are not compared. What the loader of the ingest service then refuses is known exactly
(`migrate_preserves_iff`).
-/

namespace Hammertime.Tools

open Lib Ingest

variable (library : RegistryLibrary)

/-! ### The command -/

/-- What ends `migrate` early. -/
inductive MigrateError where
  /-- `registry document must be a JSON object`. -/
  | notObject
  /-- `agent ... is missing a 'token' string`. -/
  | missingToken (agentId : Text)
  /-- The `UnicodeEncodeError` of a token with a surrogate, which nothing handles. -/
  | unicodeEncode
deriving DecidableEq

/-- `_registry_entry`, with the flag and the rate as they are passed. -/
def registryEntry (tokenHashHex : Text) (enabled rateLimitRps : Json)
    (previous : Option (Text × Text)) : Json :=
  let rotation :=
    match previous with
    | none => []
    | some (hash, expiresAt) =>
      [(Text.ofString "previous_token_hash", Json.str hash),
        (Text.ofString "previous_token_expires_at", .str expiresAt)]
  .obj ((Text.ofString "token_hash", .str tokenHashHex) :: rotation ++
    [(Text.ofString "enabled", enabled), (Text.ofString "rate_limit_rps", rateLimitRps)])

/-- `fields.get("enabled", True)`. -/
def enabledOf (fields : List (Text × Json)) : Json := (fieldOf fields "enabled").getD (.bool true)

/-- `fields.get("rate_limit_rps")`. -/
def rateOf (fields : List (Text × Json)) : Json := (fieldOf fields "rate_limit_rps").getD .null

/-- `hash_token`: the digest in hexadecimal. -/
def hashTokenHex (token : String) : Text := hexdigest (library.hashToken token)

/-- The entry that is written for an entry that is read. -/
def migrateEntry (agentId : Text) (fields : List (Text × Json)) : Except MigrateError Json :=
  match fieldOf fields "token" with
  | some (.str text) =>
    match textString? text with
    | none => .error .unicodeEncode
    | some token =>
      .ok (registryEntry (hashTokenHex library token) (enabledOf fields) (rateOf fields) none)
  | _ => .error (.missingToken agentId)

/-- The loop body of `_cmd_migrate`. -/
def migrateAgent : Text × Json → Except MigrateError (Text × Json)
  | (agentId, .obj fields) => do
    let entry ← migrateEntry library agentId fields
    return (agentId, entry)
  | (agentId, _) => .error (.missingToken agentId)

/-- The v2 envelope. -/
def envelope (agents : List (Text × Json)) : Json :=
  .obj [(Text.ofString "registry_version", .int registryVersion),
    (Text.ofString "hash_algorithm", .str hashAlgorithm),
    (Text.ofString "key_id", .str library.keyId),
    (Text.ofString "agents", .obj agents)]

/-- `_cmd_migrate`, from the v1 document that was read to the v2 document that is written. -/
def migrate : Json → Except MigrateError Json
  | .obj agents => do
    let migrated ← agents.mapM (migrateAgent library)
    return envelope library migrated
  | _ => .error .notObject

/-! ### What is preserved -/

/-- A rate as a document has it. -/
def rateJson : Option ℤ → Json
  | none => .null
  | some rate => .int rate

/-- The entry of a v1 document has the token. -/
def HasToken (agent : Text × Json) (fields : List (Text × Json)) (token : String) : Prop :=
  agent.2 = .obj fields ∧ fieldOf fields "token" = some (.str (Text.ofString token))

/-- The v2 document means what the v1 document did, for the tokens that are used: it loads at every
time, with the same agents, and each of them has its token, its flag and its rate. -/
def Preserves (tokens : Set String) (agents : List (Text × Json)) (v2 : Json) : Prop :=
  ∀ t₀, ∃ registry, loadAgentRegistryDocument library t₀ v2 = .ok registry ∧
    (∀ agentId, (∃ record, registry.get? agentId = some record) ↔ agentId ∈ agents.map Prod.fst) ∧
    ∀ agent ∈ agents, ∀ fields token, HasToken agent fields token →
      (∀ t, ∀ token' ∈ tokens, registry.Admits library t agent.1 token' ↔ token' = token) ∧
      ∃ record, registry.get? agent.1 = some record ∧ enabledOf fields = .bool record.enabled ∧
        rateOf fields = rateJson record.rateLimitRps

/-- What the loader goes on to ask of a v1 document: every flag is a boolean, every rate is null or a
positive integer, and no two agents have one token. -/
structure Migratable (agents : List (Text × Json)) : Prop where
  enabled : ∀ agent ∈ agents, ∀ fields, agent.2 = .obj fields →
    ∃ enabled, enabledOf fields = .bool enabled
  rate : ∀ agent ∈ agents, ∀ fields, agent.2 = .obj fields →
    rateOf fields = .null ∨ ∃ rate, rateOf fields = .int rate ∧ 0 < rate
  tokens : agents.Pairwise fun agent agent' => ∀ fields fields' token token',
    HasToken agent fields token → HasToken agent' fields' token' → token ≠ token'

variable {library}

/-! ### One entry -/

theorem migrateEntry_ok {agentId : Text} {fields : List (Text × Json)} {entry : Json}
    (h : migrateEntry library agentId fields = .ok entry) :
    ∃ token, fieldOf fields "token" = some (.str (Text.ofString token)) ∧
      entry = registryEntry (hashTokenHex library token) (enabledOf fields) (rateOf fields) none := by
  unfold migrateEntry at h
  split at h
  next text htext =>
    split at h
    · cases h
    next token htoken =>
      cases h
      refine ⟨token, ?_, rfl⟩
      rw [htext, textString?_eq_some.mp htoken]
  · cases h

theorem migrateAgent_ok {agent migrated : Text × Json}
    (h : migrateAgent library agent = .ok migrated) :
    ∃ fields token, HasToken agent fields token ∧
      migrated = (agent.1, registryEntry (hashTokenHex library token) (enabledOf fields)
        (rateOf fields) none) := by
  unfold migrateAgent at h
  split at h
  next agentId fields =>
    obtain ⟨entry, hentry, h⟩ := except_bind_ok.mp h
    obtain ⟨token, htoken, rfl⟩ := migrateEntry_ok hentry
    cases h
    exact ⟨fields, token, ⟨rfl, htoken⟩, rfl⟩
  · cases h

theorem HasToken.unique {agent : Text × Json} {fields fields' : List (Text × Json)}
    {token token' : String} (h : HasToken agent fields token) (h' : HasToken agent fields' token') :
    fields = fields' ∧ token = token' := by
  obtain ⟨hfields, htoken⟩ := h
  obtain ⟨hfields', htoken'⟩ := h'
  rw [hfields] at hfields'
  cases hfields'
  rw [htoken, Option.some.injEq, Json.str.injEq] at htoken'
  exact ⟨rfl, Codec.Text.ofString_inj.mp htoken'⟩

/-- What the loader makes of the entry of an agent, if it accepts it. -/
structure Loads (library : RegistryLibrary) (agent : Text × Json) (record : LoadedRecord) : Prop where
  agentId : record.agentId = agent.1
  previous : record.previousTokenHash = none
  entry : ∃ fields token, HasToken agent fields token ∧
    record.tokenHash = library.hashToken token ∧ enabledOf fields = .bool record.enabled ∧
    rateOf fields = rateJson record.rateLimitRps ∧ ∀ rate ∈ record.rateLimitRps, 0 < rate

theorem parseHashHex_hexdigest (agentId : Text) (field : String) {hash : List UInt8}
    (h : hash.length = 32) : parseHashHex agentId field (.str (hexdigest hash)) = .ok hash := by
  unfold parseHashHex
  dsimp only
  rw [if_neg, fromhex_hexdigest]
  rw [length_hexdigest, h]
  decide

theorem enabledFromDocument_ok {agentId : Text} {fields : List (Text × Json)} {enabled : Bool} :
    enabledFromDocument agentId fields = .ok enabled ↔ enabledOf fields = .bool enabled := by
  unfold enabledFromDocument enabledOf
  split
  next hnone => simp [hnone]
  next flag hflag => simp [hflag]
  next other hother hsome =>
    rw [hsome, Option.getD_some]
    exact ⟨fun h => (by cases h), fun h => absurd h (hother enabled)⟩

theorem rateFromDocument_ok {agentId : Text} {fields : List (Text × Json)} {rate : Option ℤ} :
    rateFromDocument agentId fields = .ok rate ↔
      rateOf fields = rateJson rate ∧ ∀ n ∈ rate, 0 < n := by
  unfold rateFromDocument rateOf
  split
  next hnone => cases rate <;> simp [hnone, rateJson]
  next hnull => cases rate <;> simp [hnull, rateJson]
  next n hn =>
    rw [hn, Option.getD_some]
    split_ifs with hpos
    · refine ⟨fun h => (by cases h), fun h => ?_⟩
      cases rate with
      | none => cases h.1
      | some m =>
        have hm : n = m := Json.int.inj h.1
        exact absurd (h.2 m rfl) (by omega)
    · cases rate with
      | none => exact ⟨fun h => (by cases h), fun h => (by cases h.1)⟩
      | some m =>
        rw [Except.ok.injEq, Option.some.injEq]
        refine ⟨fun h => ?_, fun h => Json.int.inj h.1⟩
        rw [h]
        refine ⟨rfl, fun k hk => ?_⟩
        cases hk
        omega
  next other hnull hint hsome =>
    rw [hsome, Option.getD_some]
    refine ⟨fun h => (by cases h), fun h => ?_⟩
    cases rate with
    | none => exact absurd h.1 (hnull)
    | some m => exact absurd h.1 (hint m)

/-- The loader accepts the entry of an agent exactly when its flag and its rate pass. -/
theorem recordFromDocument_migrated {agent migrated : Text × Json} {t₀ : ℤ} {record : LoadedRecord}
    (h : migrateAgent library agent = .ok migrated) :
    recordFromDocument library t₀ migrated.1 migrated.2 = .ok record ↔ Loads library agent record := by
  obtain ⟨fields, token, htoken, rfl⟩ := migrateAgent_ok h
  generalize hwritten : [(Text.ofString "token_hash", Json.str (hashTokenHex library token)),
    (Text.ofString "enabled", enabledOf fields), (Text.ofString "rate_limit_rps", rateOf fields)] =
      written
  have hentry : registryEntry (hashTokenHex library token) (enabledOf fields) (rateOf fields) none =
      .obj written := by
    rw [← hwritten]
    rfl
  have hplain : fieldOf written "token" = none := by
    rw [← hwritten]
    rfl
  have hhash : fieldOf written "token_hash" = some (.str (hashTokenHex library token)) := by
    rw [← hwritten]
    rfl
  have hnothing : ∀ tokenHash, previousFromDocument library t₀ agent.1 tokenHash written = .ok none := by
    rw [← hwritten]
    intro tokenHash
    rfl
  have henabled : enabledOf written = enabledOf fields := by
    rw [← hwritten]
    rfl
  have hrate : rateOf written = rateOf fields := by
    rw [← hwritten]
    rfl
  have hknown : ∀ key ∈ written.map Prod.fst, key ∈ recordAllowedKeys := by
    rw [← hwritten]
    intro key hkey
    simp only [List.map_cons, List.map_nil, List.mem_cons, List.not_mem_nil, or_false] at hkey
    obtain rfl | rfl | rfl := hkey <;> simp [recordAllowedKeys]
  have hparsed := parseHashHex_hexdigest agent.1 "token_hash" (library.length_hashToken token)
  rw [recordFromDocument_ok, hentry]
  constructor
  · rintro ⟨fields', value, heq, -, hvalue, hbytes, hprevious, hflag, hlimit, -, hid⟩
    cases heq
    rw [hhash] at hvalue
    cases hvalue
    have htokenHash := Except.ok.inj (hparsed.symm.trans hbytes)
    rw [hnothing] at hprevious
    rw [enabledFromDocument_ok, henabled] at hflag
    rw [rateFromDocument_ok, hrate] at hlimit
    exact ⟨hid, (Except.ok.inj hprevious).symm, fields, token, htoken, htokenHash.symm, hflag,
      hlimit.1, hlimit.2⟩
  · rintro ⟨hid, hprevious, fields', token', htoken', htokenHash, hflag, hlimit⟩
    obtain ⟨rfl, rfl⟩ := htoken.unique htoken'
    refine ⟨written, _, rfl, hplain, hhash, ?_, ?_, ?_, ?_, hknown, hid⟩
    · rw [htokenHash]
      exact hparsed
    · rw [hprevious, hnothing]
    · rw [enabledFromDocument_ok, henabled]
      exact hflag
    · rw [rateFromDocument_ok, hrate]
      exact hlimit

/-! ### The document -/

section

variable {α β γ : Type} {R : α → β → Prop}

/-- Two lists that are related, of which the first has its items related to those of a third. -/
theorem forall₂_comp {S : β → γ → Prop} {T : α → γ → Prop} {l : List α} {l' : List β} {l'' : List γ}
    (h : List.Forall₂ R l l') (hT : ∀ a b c, R a b → (S b c ↔ T a c)) :
    List.Forall₂ S l' l'' ↔ List.Forall₂ T l l'' := by
  induction h generalizing l'' with
  | nil => rw [List.forall₂_nil_left_iff, List.forall₂_nil_left_iff]
  | cons hab _ ih =>
    cases l'' with
    | nil => simp
    | cons c rest => rw [List.forall₂_cons, List.forall₂_cons, ih, hT _ _ c hab]

theorem exists_forall₂ {l : List α} (h : ∀ a ∈ l, ∃ b, R a b) : ∃ l', List.Forall₂ R l l' := by
  induction l with
  | nil => exact ⟨[], .nil⟩
  | cons a rest ih =>
    obtain ⟨b, hb⟩ := h a List.mem_cons_self
    obtain ⟨l', hl'⟩ := ih fun a' ha' => h a' (List.mem_cons_of_mem _ ha')
    exact ⟨b :: l', .cons hb hl'⟩

/-- What holds between the items of a list holds between those that they are related to. -/
theorem pairwise_of_forall₂ {P : α → α → Prop} {Q : β → β → Prop} {l : List α} {l' : List β}
    (h : List.Forall₂ R l l') (hpairwise : l.Pairwise P)
    (hQ : ∀ a a' b b', R a b → R a' b' → P a a' → Q b b') : l'.Pairwise Q := by
  induction h with
  | nil => exact .nil
  | cons hab htail ih =>
    obtain ⟨hfirst, hrest⟩ := List.pairwise_cons.mp hpairwise
    refine List.pairwise_cons.mpr ⟨fun b' hb' => ?_, ih hrest⟩
    obtain ⟨a', ha', hr⟩ := exists_left_of_forall₂ htail hb'
    exact hQ _ _ _ _ hab hr (hfirst a' ha')

end

theorem envelope_ok (library : RegistryLibrary) (agents : List (Text × Json)) :
    ∃ fields, envelope library agents = .obj fields ∧ Envelope library fields ∧
      fieldOf fields "agents" = some (.obj agents) := by
  refine ⟨_, rfl, ⟨⟨.int registryVersion, rfl, by decide⟩, rfl, ?_, ?_⟩, rfl⟩
  · show decide (library.keyId = library.keyId) = true
    exact decide_eq_true rfl
  · intro key hkey
    simp only [List.map_cons, List.map_nil, List.mem_cons, List.not_mem_nil, or_false] at hkey
    obtain rfl | rfl | rfl | rfl := hkey <;> simp [envelopeRequiredKeys]

/-- The hashes that the duplicate check sees, where nothing is rotated. -/
theorem hashes_of_loads {agents : List (Text × Json)} {records : List LoadedRecord}
    (h : List.Forall₂ (Loads library) agents records) :
    (records.flatMap LoadedRecord.hashes).map Prod.fst = records.map LoadedRecord.tokenHash := by
  induction h with
  | nil => rfl
  | cons hload _ ih =>
    rw [List.flatMap_cons, List.map_append, ih]
    unfold LoadedRecord.hashes
    rw [hload.previous]
    rfl

theorem map_agentId_of_loads {agents : List (Text × Json)} {records : List LoadedRecord}
    (h : List.Forall₂ (Loads library) agents records) :
    records.map LoadedRecord.agentId = agents.map Prod.fst := by
  induction h with
  | nil => rfl
  | cons hload _ ih => rw [List.map_cons, List.map_cons, ih, hload.agentId]

/-- What the loader makes of a document that was migrated. -/
theorem load_migrated {agents : List (Text × Json)} {v2 : Json} {t₀ : ℤ} {registry : LoadedRegistry}
    (h : migrate library (.obj agents) = .ok v2) :
    loadAgentRegistryDocument library t₀ v2 = .ok registry ↔
      ∃ records, List.Forall₂ (Loads library) agents records ∧
        (records.map LoadedRecord.tokenHash).Nodup ∧ registry = fromRecords records := by
  obtain ⟨migrated, hmigrated, h⟩ := except_bind_ok.mp h
  cases h
  have hloads : ∀ records, List.Forall₂ (fun agent record =>
      recordFromDocument library t₀ agent.1 agent.2 = .ok record) migrated records ↔
      List.Forall₂ (Loads library) agents records := fun records =>
    forall₂_comp (Codec.mapM_ok.mp hmigrated) fun _ _ _ => recordFromDocument_migrated
  obtain ⟨fields, hfields, henvelope, hagents⟩ := envelope_ok library migrated
  rw [hfields, loadAgentRegistryDocument_ok]
  constructor
  · rintro ⟨fields', agents', records, heq, -, hagents', hrecords, hnodup, hregistry⟩
    cases heq
    rw [hagents] at hagents'
    cases hagents'
    have hloaded := (hloads records).mp hrecords
    rw [hashes_of_loads hloaded] at hnodup
    exact ⟨records, hloaded, hnodup, hregistry⟩
  · rintro ⟨records, hloaded, hnodup, hregistry⟩
    refine ⟨fields, migrated, records, rfl, henvelope, hagents, (hloads records).mpr hloaded, ?_,
      hregistry⟩
    rw [hashes_of_loads hloaded]
    exact hnodup

theorem Loads.matches_iff {agent : Text × Json} {record : LoadedRecord} (h : Loads library agent record)
    (t : ℤ) (hash : List UInt8) : record.Matches t hash ↔ hash = record.tokenHash := by
  unfold LoadedRecord.Matches
  rw [h.previous]
  simp

/-- A document that loads has only fields that the loader takes, and no token twice. -/
theorem migratable_of_preserves {library : RegistryLibrary} {tokens : Set String}
    {agents : List (Text × Json)} {v2 : Json} (h : migrate library (.obj agents) = .ok v2)
    (hpreserves : Preserves library tokens agents v2) : Migratable agents := by
  obtain ⟨registry, hload, -⟩ := hpreserves 0
  obtain ⟨records, hloads, hnodup, rfl⟩ := (load_migrated h).mp hload
  have hentry : ∀ agent ∈ agents, ∀ fields, agent.2 = .obj fields →
      ∃ record : LoadedRecord, enabledOf fields = .bool record.enabled ∧
        rateOf fields = rateJson record.rateLimitRps ∧ ∀ rate ∈ record.rateLimitRps, 0 < rate := by
    intro agent hagent fields hfields
    obtain ⟨record, -, hload⟩ := exists_right_of_forall₂ hloads hagent
    obtain ⟨fields', token, htoken, -, hrest⟩ := hload.entry
    rw [htoken.1] at hfields
    cases hfields
    exact ⟨record, hrest⟩
  refine ⟨fun agent hagent fields hfields => ?_, fun agent hagent fields hfields => ?_, ?_⟩
  · obtain ⟨record, henabled, -⟩ := hentry agent hagent fields hfields
    exact ⟨record.enabled, henabled⟩
  · obtain ⟨record, -, hrate, hpos⟩ := hentry agent hagent fields hfields
    cases hlimit : record.rateLimitRps with
    | none =>
      rw [hlimit] at hrate
      exact Or.inl hrate
    | some rate =>
      rw [hlimit] at hrate
      exact Or.inr ⟨rate, hrate, hpos rate hlimit⟩
  · -- Two agents with one token would have one hash.
    have hpairwise : records.Pairwise fun record record' => record.tokenHash ≠ record'.tokenHash :=
      List.pairwise_map.mp hnodup
    refine pairwise_of_forall₂ (R := flip (Loads library)) hloads.flip hpairwise ?_
    intro record record' agent agent' hload hload' hne fields fields' token token' htoken htoken' heq
    obtain ⟨_, _, hhas, hhash, -⟩ := Loads.entry hload
    obtain ⟨_, _, hhas', hhash', -⟩ := Loads.entry hload'
    rw [hhash, hhash', (hhas.unique htoken).2, (hhas'.unique htoken').2, heq] at hne
    exact hne rfl

/-- What the loader takes, it loads, with the agents and the tokens that the document had. -/
theorem preserves_of_migratable {library : RegistryLibrary} {tokens : Set String}
    (hinjective : Set.InjOn library.hashToken tokens) {agents : List (Text × Json)}
    (hkeys : (agents.map Prod.fst).Nodup)
    (hused : ∀ agent ∈ agents, ∀ fields token, HasToken agent fields token → token ∈ tokens)
    {v2 : Json} (h : migrate library (.obj agents) = .ok v2) (hmigratable : Migratable agents) :
    Preserves library tokens agents v2 := by
  intro t₀
  -- The loader makes a record of every entry.
  have hexists : ∀ agent ∈ agents, ∃ record, Loads library agent record := by
    intro agent hagent
    obtain ⟨migrated, hmigrated, -⟩ := except_bind_ok.mp h
    obtain ⟨entry, -, hentry⟩ := exists_right_of_forall₂ (Codec.mapM_ok.mp hmigrated) hagent
    obtain ⟨fields, token, htoken, -⟩ := migrateAgent_ok hentry
    obtain ⟨enabled, henabled⟩ := hmigratable.enabled agent hagent fields htoken.1
    obtain hnull | ⟨rate, hrate, hpos⟩ := hmigratable.rate agent hagent fields htoken.1
    · exact ⟨⟨agent.1, library.hashToken token, none, enabled, none⟩, rfl, rfl, fields, token, htoken,
        rfl, henabled, hnull, fun rate hmem => by cases hmem⟩
    · refine ⟨⟨agent.1, library.hashToken token, none, enabled, some rate⟩, rfl, rfl, fields, token,
        htoken, rfl, henabled, hrate, fun rate' hmem => ?_⟩
      cases hmem
      exact hpos
  obtain ⟨records, hloads⟩ := exists_forall₂ hexists
  have hnodup : (records.map LoadedRecord.tokenHash).Nodup := by
    refine List.pairwise_map.mpr (pairwise_of_forall₂ hloads
      (List.Pairwise.and_mem.mp hmigratable.tokens) ?_)
    intro agent agent' record record' hload hload' ⟨hagent, hagent', hne⟩ heq
    obtain ⟨fields, token, hhas, hhash, -⟩ := hload.entry
    obtain ⟨fields', token', hhas', hhash', -⟩ := hload'.entry
    rw [hhash, hhash'] at heq
    exact hne fields fields' token token' hhas hhas'
      (hinjective (hused agent hagent fields token hhas)
        (hused agent' hagent' fields' token' hhas') heq)
  -- The records have the keys of the document as their ids.
  have hids := map_agentId_of_loads hloads
  refine ⟨fromRecords records, (load_migrated h).mpr ⟨records, hloads, hnodup, rfl⟩, ?_, ?_⟩
  · intro agentId
    rw [← hids]
    constructor
    · rintro ⟨record, hget⟩
      obtain ⟨hmem, rfl⟩ := mem_of_get?_fromRecords hget
      exact List.mem_map_of_mem hmem
    · intro hmem
      obtain ⟨record, hrecord, rfl⟩ := List.mem_map.mp hmem
      exact ⟨record, get?_fromRecords (hids ▸ hkeys) hrecord⟩
  · intro agent hagent fields token htoken
    obtain ⟨record, hmem, hload⟩ := exists_right_of_forall₂ hloads hagent
    have hget := get?_fromRecords (hids ▸ hkeys) hmem
    rw [hload.agentId] at hget
    obtain ⟨fields', token', htoken', hhash, henabled, hrate, -⟩ := hload.entry
    obtain ⟨rfl, rfl⟩ := htoken.unique htoken'
    refine ⟨fun t presented hpresented => ?_, record, hget, henabled, hrate⟩
    rw [LoadedRegistry.admits_iff]
    constructor
    -- The hash tells the tokens apart, so that no other token is admitted.
    · rintro ⟨found, hfound, hmatches⟩
      rw [hget] at hfound
      cases hfound
      rw [hload.matches_iff, hhash] at hmatches
      exact hinjective hpresented (hused agent hagent fields token htoken) hmatches
    · rintro rfl
      exact ⟨record, hget, (hload.matches_iff t _).mpr hhash.symm⟩

/-- The migration of a document preserves its meaning exactly when every flag is a boolean, every rate
is null or a positive integer, and no two agents have one token. The hash is injective on the tokens
that are used. -/
theorem migrate_preserves_iff (library : RegistryLibrary) (tokens : Set String)
    (hinjective : Set.InjOn library.hashToken tokens) (agents : List (Text × Json))
    (hkeys : (agents.map Prod.fst).Nodup)
    (hused : ∀ agent ∈ agents, ∀ fields token, HasToken agent fields token → token ∈ tokens)
    (v2 : Json) (h : migrate library (.obj agents) = .ok v2) :
    Preserves library tokens agents v2 ↔ Migratable agents := by
  constructor
  · exact migratable_of_preserves h
  · exact preserves_of_migratable hinjective hkeys hused h

/-- Two agents, of which one is disabled and has a rate of its own. -/
def plainAgents : List (Text × Json) :=
  [(Text.ofString "edge-1", .obj [(Text.ofString "token", .str (Text.ofString "one"))]),
    (Text.ofString "edge-2", .obj [(Text.ofString "token", .str (Text.ofString "two")),
      (Text.ofString "enabled", .bool false), (Text.ofString "rate_limit_rps", .int 5)])]

/-- They are migrated with their meaning. -/
theorem migrate_preserves_iff_plain : ∃ v2, migrate plainLibrary (.obj plainAgents) = .ok v2 ∧
    Preserves plainLibrary {"one", "two"} plainAgents v2 := by
  have htokens : ∀ agent ∈ plainAgents, ∀ fields token, HasToken agent fields token →
      agent.1 = Text.ofString "edge-1" ∧ token = "one" ∨
        agent.1 = Text.ofString "edge-2" ∧ token = "two" := by
    intro agent hagent fields token htoken
    obtain rfl | rfl : agent = _ ∨ agent = _ := by
      simpa only [plainAgents, List.mem_cons, List.not_mem_nil, or_false] using hagent
    · exact Or.inl ⟨rfl, (htoken.unique ⟨rfl, rfl⟩).2⟩
    · exact Or.inr ⟨rfl, (htoken.unique ⟨rfl, rfl⟩).2⟩
  refine ⟨_, rfl, (migrate_preserves_iff plainLibrary {"one", "two"} ?_ plainAgents (by decide) ?_ _
    rfl).mpr ⟨?_, ?_, ?_⟩⟩
  · intro token htoken token' htoken' heq
    obtain rfl | rfl := htoken <;> obtain rfl | rfl := htoken'
    · rfl
    · exact absurd heq (by decide)
    · exact absurd heq (by decide)
    · rfl
  · intro agent hagent fields token htoken
    obtain ⟨-, rfl⟩ | ⟨-, rfl⟩ := htokens agent hagent fields token htoken
    · exact Or.inl rfl
    · exact Or.inr rfl
  · intro agent hagent fields hfields
    obtain rfl | rfl : agent = _ ∨ agent = _ := by
      simpa only [plainAgents, List.mem_cons, List.not_mem_nil, or_false] using hagent
    · cases hfields
      exact ⟨true, rfl⟩
    · cases hfields
      exact ⟨false, rfl⟩
  · intro agent hagent fields hfields
    obtain rfl | rfl : agent = _ ∨ agent = _ := by
      simpa only [plainAgents, List.mem_cons, List.not_mem_nil, or_false] using hagent
    · cases hfields
      exact Or.inl rfl
    · cases hfields
      exact Or.inr ⟨5, rfl, by decide⟩
  · refine List.pairwise_cons.mpr ⟨fun agent hagent fields fields' token token' htoken htoken' => ?_,
      List.pairwise_singleton _ _⟩
    obtain rfl := List.mem_singleton.mp hagent
    rw [(htoken.unique ⟨rfl, rfl⟩).2, (htoken'.unique ⟨rfl, rfl⟩).2]
    decide

/-- A rate of zero is carried over, and the document that is written does not load. -/
theorem migrate_zero_rate :
    let agents : List (Text × Json) :=
      [(Text.ofString "edge-1", .obj [(Text.ofString "token", .str (Text.ofString "one")),
        (Text.ofString "rate_limit_rps", .int 0)])]
    ∃ v2, migrate plainLibrary (.obj agents) = .ok v2 ∧
      loadAgentRegistryDocument plainLibrary 0 v2 =
        .error (.rateNotPositive (Text.ofString "edge-1") 0) ∧
      ¬ Preserves plainLibrary {"one"} agents v2 := by
  intro agents
  have hload : ∀ v2, migrate plainLibrary (.obj agents) = .ok v2 →
      loadAgentRegistryDocument plainLibrary 0 v2 =
        .error (.rateNotPositive (Text.ofString "edge-1") 0) := by
    intro v2 h
    cases h
    rfl
  refine ⟨_, rfl, hload _ rfl, fun hpreserves => ?_⟩
  obtain ⟨registry, hregistry, -⟩ := hpreserves 0
  rw [hload _ rfl] at hregistry
  cases hregistry

end Hammertime.Tools
