import Hammertime.Aggregator.Counter
import Hammertime.Lib.Dict
import Hammertime.Lib.Json

/-!
# Loading a detection configuration

`load` of `hammertime.core.config.loader`: the text is parsed, `_validate_document` checks its keys and
the types of its integers, and the constructor of `DetectionConfig` checks the rules between fields.
The numeric minimums of `schemas/detection_config.v1.json` are in neither, and `bucket_seconds` divides
before anything asks whether it is zero.

Nor does anything bound the number of buckets by what a list can hold. `load_enforces_schema` says for
which documents the outcome is nevertheless what the schema asks for.
-/

namespace Hammertime.Config

open Lib

/-! ### The keys -/

/-- `_INTEGER_KEYS`. -/
inductive IntegerKey where
  | configVersion
  | windowSeconds
  | bucketSeconds
  | hotThreshold
  | coldThreshold
  | minimumHotIps
  | allowedLatenessSeconds
  | stateRetentionSeconds
  | weightMax
deriving DecidableEq

namespace IntegerKey

/-- The key in the document. -/
def name : IntegerKey → String
  | configVersion => "config_version"
  | windowSeconds => "window_seconds"
  | bucketSeconds => "bucket_seconds"
  | hotThreshold => "hot_threshold"
  | coldThreshold => "cold_threshold"
  | minimumHotIps => "minimum_hot_ips"
  | allowedLatenessSeconds => "allowed_lateness_seconds"
  | stateRetentionSeconds => "state_retention_seconds"
  | weightMax => "weight_max"

/-- The default of the field of `DetectionConfig`. -/
def default : IntegerKey → ℤ
  | configVersion => 1
  | windowSeconds => 300
  | bucketSeconds => 10
  | hotThreshold => 1000
  | coldThreshold => 800
  | minimumHotIps => 16
  | allowedLatenessSeconds => 30
  | stateRetentionSeconds => 600
  | weightMax => 1000000

/-- The `minimum` of the schema. -/
def minimum : IntegerKey → ℤ
  | coldThreshold => 0
  | allowedLatenessSeconds => 0
  | weightMax => 1000
  | _ => 1

/-- All of them, in the order of the fields. -/
def all : List IntegerKey :=
  [configVersion, windowSeconds, bucketSeconds, hotThreshold, coldThreshold, minimumHotIps,
    allowedLatenessSeconds, stateRetentionSeconds, weightMax]

end IntegerKey

/-- `_REQUIRED_KEYS`. -/
def requiredKeys : List String :=
  ["config_version", "window_seconds", "bucket_seconds", "hot_threshold", "cold_threshold",
    "minimum_hot_ips", "minimum_hot_ratio"]

/-- `_KNOWN_KEYS`. -/
def knownKeys : List String :=
  IntegerKey.all.map IntegerKey.name ++ ["minimum_hot_ratio", "weight_function"]

/-- `0.10`. -/
def defaultHotRatio : Json := .float ⟨0x3fb999999999999a⟩

/-! ### The outcomes -/

/-- What `path.read_text()` raises. -/
inductive ReadError where
  | osError
  /-- `UnicodeDecodeError`, which is a `ValueError`. -/
  | unicodeError

/-- What `json.loads` raises. -/
inductive ParseError where
  | decodeError
  /-- A `ValueError` of its own: an integer with too many digits. -/
  | valueError
  /-- A document that is nested too deeply. -/
  | recursionError

/-- What `load` raises. All but the last three are `ConfigurationError`s. -/
inductive LoadError where
  /-- `cannot read detection config`. -/
  | unreadable
  /-- `is not valid JSON`. -/
  | notJson
  /-- `detection config document must be a JSON object`. -/
  | notObject
  /-- `detection config missing required keys`. -/
  | missingKeys (keys : List String)
  /-- `detection config has unknown keys`. -/
  | unknownKeys (keys : List Text)
  /-- `must be an integer`, of the one of these keys that the set gives first. -/
  | notInteger (keys : List IntegerKey)
  /-- `detection config field 'weight_function' must be one of`. -/
  | weightFunction
  /-- A rule of `DetectionConfig.__post_init__`. -/
  | rule (text : String)
  /-- A `TypeError` of the constructor: `does not match DetectionConfig`. -/
  | mismatch
  | valueError
  | zeroDivision
  | recursionError

/-- A `ConfigurationError` or a `ValueError`, which is what the callers of `load` handle. -/
def LoadError.handled : LoadError → Bool
  | .zeroDivision => false
  | .recursionError => false
  | _ => true

/-! ### The structure of a document -/

/-- A document that has passed `_validate_document`. -/
structure Document where
  integers : IntegerKey → Option ℤ
  minimumHotRatio : Option Json
  weightFunction : Option WeightFunction

/-- `WEIGHT_FUNCTIONS`. -/
def weightFunctionOf : Json → Option WeightFunction
  | .str name => if name = Text.ofString "threshold_ratio" then some .thresholdRatio else none
  | _ => none

/-- The value is there and is no integer. A boolean is none. -/
def wrongInteger : Option Json → Bool
  | none => false
  | some (.int _) => false
  | some _ => true

/-- The value of an integer key. -/
def integerOf : Option Json → Option ℤ
  | some (.int n) => some n
  | _ => none

/-- `_validate_document`. -/
def validateDocument : Json → Except LoadError Document
  | .obj fields =>
    let get (key : String) := Dict.lookup (Text.ofString key) fields
    let missing := requiredKeys.filter fun key => (get key).isNone
    let unknown := (fields.map Prod.fst).filter fun key => key ∉ knownKeys.map Text.ofString
    let wrong := IntegerKey.all.filter fun key => wrongInteger (get key.name)
    if missing ≠ [] then .error (.missingKeys missing)
    else if unknown ≠ [] then .error (.unknownKeys unknown)
    else if wrong ≠ [] then .error (.notInteger wrong)
    else
      let document (weightFunction : Option WeightFunction) : Document :=
        ⟨fun key => integerOf (get key.name), get "minimum_hot_ratio", weightFunction⟩
      match get "weight_function" with
      | none => .ok (document none)
      | some value =>
        match weightFunctionOf value with
        | none => .error .weightFunction
        | some weightFunction => .ok (document (some weightFunction))
  | _ => .error .notObject

/-! ### The rules between fields -/

/-- `DetectionConfig` with the two fields that only the detector reads. The ratio is what the document
has. -/
structure FullConfig extends DetectionConfig where
  minimumHotIps : ℤ
  minimumHotRatio : Json

/-- `0.0 <= ratio <= 1.0`, none for a `TypeError`. Python compares a boolean as an integer. -/
def ratioWithin : Json → Option Bool
  | .bool _ => some true
  | .int n => some (0 ≤ n ∧ n ≤ 1)
  | .float f => some (f.isFinite && (0 ≤ f.value ∧ f.value ≤ 1))
  | _ => none

namespace Document

variable (document : Document)

/-- The argument of the constructor, or its default. -/
def value (key : IntegerKey) : ℤ := (document.integers key).getD key.default

/-- The argument for `minimum_hot_ratio`. -/
def ratio : Json := document.minimumHotRatio.getD defaultHotRatio

/-- `DetectionConfig(**data)`, with `__post_init__`. The weight function has been looked up. -/
def construct : Except LoadError FullConfig :=
  if hversion : document.value .configVersion < 1 then
    .error (.rule "config_version must be >= 1")
  else if hcold : document.value .hotThreshold ≤ document.value .coldThreshold then
    .error (.rule "cold_threshold must be strictly below hot_threshold")
  -- `window_seconds % bucket_seconds`.
  else if hbucket : document.value .bucketSeconds = 0 then .error .zeroDivision
  else if hdvd : (document.value .windowSeconds).fmod (document.value .bucketSeconds) ≠ 0 then
    .error (.rule "window_seconds must be a whole multiple of bucket_seconds")
  else if hretention : document.value .stateRetentionSeconds < document.value .windowSeconds then
    .error (.rule "state_retention_seconds must cover at least one window")
  else
    match ratioWithin document.ratio with
    | none => .error .mismatch
    | some false => .error (.rule "minimum_hot_ratio must be within [0, 1]")
    | some true =>
      if hweight : ¬ (1000 ≤ document.value .weightMax ∧ document.value .weightMax ≤ 1000000) then
        .error (.rule "weight_max must be within [1000, 1000000]")
      else
        .ok
          { configVersion := document.value .configVersion
            windowSeconds := document.value .windowSeconds
            bucketSeconds := document.value .bucketSeconds
            hotThreshold := document.value .hotThreshold
            coldThreshold := document.value .coldThreshold
            allowedLatenessSeconds := document.value .allowedLatenessSeconds
            stateRetentionSeconds := document.value .stateRetentionSeconds
            weightFunction := document.weightFunction.getD .thresholdRatio
            weightMax := document.value .weightMax
            configVersion_pos := not_lt.mp hversion
            cold_lt_hot := not_le.mp hcold
            bucketSeconds_ne := hbucket
            bucketSeconds_dvd := not_not.mp hdvd
            window_le_retention := not_lt.mp hretention
            weightMax_range := not_not.mp hweight
            minimumHotIps := document.value .minimumHotIps
            minimumHotRatio := document.ratio }

end Document

/-- `load`, of what `path.read_text()` gave. -/
def load (loads : Text → Except ParseError Json) (raw : Except ReadError Text) :
    Except LoadError FullConfig :=
  match raw with
  | .error .osError => .error .unreadable
  | .error .unicodeError => .error .valueError
  | .ok text =>
    match loads text with
    | .error .decodeError => .error .notJson
    | .error .valueError => .error .valueError
    | .error .recursionError => .error .recursionError
    | .ok data => do (← validateDocument data).construct

/-! ### What the schema asks for -/

/-- Python's `//`. -/
def floorDiv (a b : ℤ) : Except Failure ℤ := if b = 0 then .error .zeroDivision else .ok (a.fdiv b)

/-- Python's `%`. -/
def floorMod (a b : ℤ) : Except Failure ℤ := if b = 0 then .error .zeroDivision else .ok (a.fmod b)

/-- `bucket_start`, with its division. -/
def bucketStartChecked (eventEpochSeconds bucketSeconds : ℤ) : Except Failure ℤ := do
  return (← floorDiv eventEpochSeconds bucketSeconds) * bucketSeconds

/-- `bucket_index`, with its two divisions. -/
def bucketIndexChecked (eventEpochSeconds bucketSeconds bucketCount : ℤ) : Except Failure ℤ := do
  floorMod (← floorDiv eventEpochSeconds bucketSeconds) bucketCount

namespace FullConfig

variable (config : FullConfig)

/-- A field by its key. -/
def value : IntegerKey → ℤ
  | .configVersion => config.configVersion
  | .windowSeconds => config.windowSeconds
  | .bucketSeconds => config.bucketSeconds
  | .hotThreshold => config.hotThreshold
  | .coldThreshold => config.coldThreshold
  | .minimumHotIps => config.minimumHotIps
  | .allowedLatenessSeconds => config.allowedLatenessSeconds
  | .stateRetentionSeconds => config.stateRetentionSeconds
  | .weightMax => config.weightMax

/-- The bounds of `schemas/detection_config.v1.json`. A boolean is no number there. -/
structure WithinSchema : Prop where
  minimum : ∀ key : IntegerKey, key.minimum ≤ config.value key
  weightMax : config.weightMax ≤ 1000000
  ratio : ratioWithin config.minimumHotRatio = some true
  ratioNumber : ∀ b, config.minimumHotRatio ≠ .bool b

/-- The rules between fields. -/
structure CrossField : Prop where
  cold_lt_hot : config.coldThreshold < config.hotThreshold
  bucket_dvd : config.bucketSeconds ∣ config.windowSeconds
  retention : config.windowSeconds ≤ config.stateRetentionSeconds

/-- Nothing that computes with the configuration raises. -/
structure NeverRaises : Prop where
  counter : ∃ counter, Aggregator.IpCounter.make config.bucketSeconds config.bucketCount =
    .ok counter
  bucketStart : ∀ t, bucketStartChecked t config.bucketSeconds =
    .ok (Hammertime.bucketStart t config.bucketSeconds)
  bucketIndex : ∀ t, bucketIndexChecked t config.bucketSeconds config.bucketCount =
    .ok (Hammertime.bucketIndex t config.bucketSeconds config.bucketCount)
  thresholdRatio : ∀ count, ∃ weight,
    Hammertime.thresholdRatio count config.toDetectionConfig = .ok weight

end FullConfig

/-- The outcome of `load` is a handled error, or a configuration as the schema asks for. -/
def Enforced : Except LoadError FullConfig → Prop
  | .error e => e.handled = true
  | .ok config => config.WithinSchema ∧ config.CrossField ∧ config.NeverRaises

/-- A configuration within the schema can be computed with, exactly if a list can be as long as its
ring. -/
theorem FullConfig.WithinSchema.neverRaises_iff {config : FullConfig} (h : config.WithinSchema) :
    config.NeverRaises ↔ config.bucketCount ≤ Aggregator.IpCounter.maxSlots := by
  have hbucket : 1 ≤ config.bucketSeconds := h.minimum .bucketSeconds
  have hwindow : 1 ≤ config.windowSeconds := h.minimum .windowSeconds
  have hhot : 1 ≤ config.hotThreshold := h.minimum .hotThreshold
  have hcount : 0 < config.bucketCount := by
    have hmul := config.bucketSeconds_mul_bucketCount
    have hpos : 0 < config.bucketSeconds := by omega
    exact (mul_pos_iff_of_pos_left hpos).mp (by omega)
  have hdiv : ∀ t, floorDiv t config.bucketSeconds = .ok (t.fdiv config.bucketSeconds) :=
    fun t => if_neg (by omega)
  have hmake := Aggregator.IpCounter.exists_make_iff (show 0 < config.bucketSeconds by omega) hcount
  refine ⟨fun hnever => hmake.mp hnever.counter, fun hslots =>
    ⟨hmake.mpr hslots, fun t => ?_, fun t => ?_, fun count => ?_⟩⟩
  · unfold bucketStartChecked
    rw [hdiv]
    rfl
  · unfold bucketIndexChecked
    rw [hdiv]
    exact if_neg (by omega)
  · unfold Hammertime.thresholdRatio
    rw [if_neg (by omega)]
    exact ⟨_, rfl⟩

/-! ### When the schema is enforced -/

namespace Document

variable (document : Document)

/-- The two checks before the division. -/
def ReachesDivision : Prop :=
  1 ≤ document.value .configVersion ∧ document.value .coldThreshold < document.value .hotThreshold

/-- The checks after the division. -/
structure PassesRules : Prop where
  dvd : (document.value .windowSeconds).fmod (document.value .bucketSeconds) = 0
  retention : document.value .windowSeconds ≤ document.value .stateRetentionSeconds
  ratio : ratioWithin document.ratio = some true
  weightMax : 1000 ≤ document.value .weightMax ∧ document.value .weightMax ≤ 1000000

/-- The bounds of the schema that nothing checks, and that of a list of as many slots as the window has
buckets, which is in no schema. -/
structure UncheckedBounds : Prop where
  windowSeconds : 1 ≤ document.value .windowSeconds
  bucketSeconds : 1 ≤ document.value .bucketSeconds
  coldThreshold : 0 ≤ document.value .coldThreshold
  minimumHotIps : 1 ≤ document.value .minimumHotIps
  allowedLatenessSeconds : 0 ≤ document.value .allowedLatenessSeconds
  ratio : ∀ b, document.ratio ≠ .bool b
  slots : (document.value .windowSeconds).fdiv (document.value .bucketSeconds) ≤
    Aggregator.IpCounter.maxSlots

/-- A document that gets as far as the division has a bucket to divide by, and one that passes all
checks is within the bounds that they leave out. -/
def Harmless : Prop :=
  document.ReachesDivision → document.value .bucketSeconds ≠ 0 ∧
    (document.PassesRules → document.UncheckedBounds)

end Document

/-- The text is not nested too deeply, and its document, if it has the structure, is harmless. -/
def HarmlessText (loads : Text → Except ParseError Json) : Except ReadError Text → Prop
  | .error _ => True
  | .ok text =>
    match loads text with
    | .error .recursionError => False
    | .error _ => True
    | .ok data => ∀ document, validateDocument data = .ok document → document.Harmless

namespace Document

variable {document : Document}

theorem construct_of_not_reachesDivision (h : ¬ document.ReachesDivision) :
    ∃ text, document.construct = .error (.rule text) := by
  unfold construct
  by_cases hversion : document.value .configVersion < 1
  · rw [dif_pos hversion]
    exact ⟨_, rfl⟩
  · have hcold : document.value .hotThreshold ≤ document.value .coldThreshold := by
      unfold ReachesDivision at h
      omega
    rw [dif_neg hversion, dif_pos hcold]
    exact ⟨_, rfl⟩

/-- The division raises before any other check looks at the bucket. -/
theorem construct_of_bucketSeconds_eq_zero (h : document.ReachesDivision)
    (hbucket : document.value .bucketSeconds = 0) : document.construct = .error .zeroDivision := by
  unfold construct
  rw [dif_neg (not_lt.mpr h.1), dif_neg (not_le.mpr h.2), dif_pos hbucket]

/-- What passes all checks is built field by field. -/
theorem construct_of_passesRules (h : document.ReachesDivision)
    (hbucket : document.value .bucketSeconds ≠ 0) (hrules : document.PassesRules) :
    ∃ config, document.construct = .ok config ∧ (∀ key, config.value key = document.value key) ∧
      config.minimumHotRatio = document.ratio := by
  unfold construct
  rw [dif_neg (not_lt.mpr h.1), dif_neg (not_le.mpr h.2), dif_neg hbucket,
    dif_neg (not_not.mpr hrules.dvd), dif_neg (not_lt.mpr hrules.retention)]
  split
  next hratio => rw [hrules.ratio] at hratio; cases hratio
  next hratio => rw [hrules.ratio] at hratio; cases hratio
  next hratio =>
    rw [dif_neg (not_not.mpr hrules.weightMax)]
    refine ⟨_, rfl, fun key => ?_, rfl⟩
    cases key <;> rfl

/-- A check after the division refuses with an error of its own. -/
theorem construct_of_not_passesRules (h : document.ReachesDivision)
    (hbucket : document.value .bucketSeconds ≠ 0) (hrules : ¬ document.PassesRules) :
    ∃ e, document.construct = .error e ∧ e.handled = true := by
  unfold construct
  rw [dif_neg (not_lt.mpr h.1), dif_neg (not_le.mpr h.2), dif_neg hbucket]
  split
  next => exact ⟨_, rfl, rfl⟩
  next hdvd =>
    split
    next => exact ⟨_, rfl, rfl⟩
    next hretention =>
      split
      next => exact ⟨_, rfl, rfl⟩
      next => exact ⟨_, rfl, rfl⟩
      next hratio =>
        have hweight : ¬ (1000 ≤ document.value .weightMax ∧ document.value .weightMax ≤ 1000000) :=
          fun hweight => hrules ⟨not_not.mp hdvd, not_lt.mp hretention, hratio, hweight⟩
        rw [dif_pos hweight]
        exact ⟨_, rfl, rfl⟩

/-- What is built is within the schema and has a ring that a list can hold exactly if the bounds hold
that no check is about. The lower bounds of `hot_threshold` and `state_retention_seconds` follow from
the rules. -/
theorem withinSchema_iff (h : document.ReachesDivision) (hrules : document.PassesRules)
    {config : FullConfig} (hvalue : ∀ key, config.value key = document.value key)
    (hratio : config.minimumHotRatio = document.ratio) :
    config.WithinSchema ∧ config.bucketCount ≤ Aggregator.IpCounter.maxSlots ↔
      document.UncheckedBounds := by
  have hcount : config.bucketCount =
      (document.value .windowSeconds).fdiv (document.value .bucketSeconds) := by
    rw [← hvalue .windowSeconds, ← hvalue .bucketSeconds]
    rfl
  rw [hcount]
  constructor
  · rintro ⟨hschema, hslots⟩
    have hmin : ∀ key, key.minimum ≤ document.value key := by
      intro key
      rw [← hvalue key]
      exact hschema.minimum key
    refine ⟨hmin .windowSeconds, hmin .bucketSeconds, hmin .coldThreshold, hmin .minimumHotIps,
      hmin .allowedLatenessSeconds, fun b => ?_, hslots⟩
    rw [← hratio]
    exact hschema.ratioNumber b
  · intro hbounds
    obtain ⟨hversion, hcold⟩ := h
    have hretention := hrules.retention
    have hweight := hrules.weightMax
    obtain ⟨hwindow, hbucket, hcold', hips, hlateness, hnumber, hslots⟩ := hbounds
    refine ⟨⟨fun key => ?_, ?_, ?_, fun b => ?_⟩, hslots⟩
    · rw [hvalue key]
      cases key <;> simp only [IntegerKey.minimum] <;> omega
    · have hmax := hvalue .weightMax
      rw [FullConfig.value] at hmax
      omega
    · rw [hratio]
      exact hrules.ratio
    · rw [hratio]
      exact hnumber b

theorem enforced_construct_iff : Enforced document.construct ↔ document.Harmless := by
  unfold Harmless
  by_cases hreach : document.ReachesDivision
  · by_cases hbucket : document.value .bucketSeconds = 0
    · rw [construct_of_bucketSeconds_eq_zero hreach hbucket]
      constructor
      · intro h
        cases h
      · intro h
        exact absurd hbucket (h hreach).1
    · by_cases hrules : document.PassesRules
      · obtain ⟨config, hconfig, hvalue, hratio⟩ :=
          construct_of_passesRules hreach hbucket hrules
        have hiff := withinSchema_iff hreach hrules hvalue hratio
        have hcross : config.CrossField :=
          ⟨config.cold_lt_hot, ⟨_, config.bucketSeconds_mul_bucketCount.symm⟩,
            config.window_le_retention⟩
        rw [hconfig]
        constructor
        · rintro ⟨hschema, -, hnever⟩ _
          exact ⟨hbucket, fun _ => hiff.mp ⟨hschema, hschema.neverRaises_iff.mp hnever⟩⟩
        · intro h
          obtain ⟨hschema, hslots⟩ := hiff.mpr ((h hreach).2 hrules)
          exact ⟨hschema, hcross, hschema.neverRaises_iff.mpr hslots⟩
      · obtain ⟨e, he, hhandled⟩ := construct_of_not_passesRules hreach hbucket hrules
        rw [he]
        constructor
        · intro _ _
          exact ⟨hbucket, fun h => absurd h hrules⟩
        · intro _
          exact hhandled
  · obtain ⟨text, htext⟩ := construct_of_not_reachesDivision hreach
    rw [htext]
    constructor
    · intro _ h
      exact absurd h hreach
    · intro _
      rfl

end Document

/-- The structural checks raise nothing but a `ConfigurationError`. -/
theorem handled_of_validateDocument_eq_error {data : Json} {e : LoadError}
    (h : validateDocument data = .error e) : e.handled = true := by
  unfold validateDocument at h
  dsimp only at h
  split at h
  next fields =>
    split_ifs at h
    · cases h
      rfl
    · cases h
      rfl
    · cases h
      rfl
    · split at h
      next => cases h
      next =>
        split at h
        next =>
          cases h
          rfl
        next => cases h
  next =>
    cases h
    rfl

/-- Loading enforces the schema on exactly the harmless texts. -/
theorem load_enforces_schema (loads : Text → Except ParseError Json)
    (raw : Except ReadError Text) : Enforced (load loads raw) ↔ HarmlessText loads raw := by
  cases raw with
  | error e => cases e <;> exact ⟨fun _ => trivial, fun _ => rfl⟩
  | ok text =>
    unfold load HarmlessText
    dsimp only
    cases hloads : loads text with
    | error e =>
      cases e with
      | decodeError => exact ⟨fun _ => trivial, fun _ => rfl⟩
      | valueError => exact ⟨fun _ => trivial, fun _ => rfl⟩
      | recursionError =>
        constructor
        · intro h
          cases h
        · intro h
          exact h.elim
    | ok data =>
      dsimp only
      cases hvalid : validateDocument data with
      | error e =>
        have hhandled := handled_of_validateDocument_eq_error hvalid
        exact ⟨fun _ document h => (by cases h), fun _ => hhandled⟩
      | ok document =>
        have hiff : Enforced document.construct ↔ document.Harmless :=
          Document.enforced_construct_iff
        constructor
        · intro h document' hdocument
          cases hdocument
          exact hiff.mp h
        · intro h
          exact hiff.mpr (h document rfl)

/-- The required keys of a document, with a bucket of no length. -/
def zeroBucketDocument : Json :=
  .obj [(Text.ofString "config_version", .int 1), (Text.ofString "window_seconds", .int 300),
    (Text.ofString "bucket_seconds", .int 0), (Text.ofString "hot_threshold", .int 1000),
    (Text.ofString "cold_threshold", .int 800), (Text.ofString "minimum_hot_ips", .int 16),
    (Text.ofString "minimum_hot_ratio", .int 0)]

/-- Its text. -/
def zeroBucketText : Text :=
  Text.ofString (String.ofList (Json.text (fun _ => []) zeroBucketDocument))

/-- The parser, as far as it is used here. -/
def zeroBucketLoads (text : Text) : Except ParseError Json :=
  if text = zeroBucketText then .ok zeroBucketDocument else .error .decodeError

/-- `bucket_seconds` is 0, and `load` raises a `ZeroDivisionError`. -/
theorem zero_bucket_is_not_refused : ¬ Enforced (load zeroBucketLoads (.ok zeroBucketText)) := by
  have hloads : zeroBucketLoads zeroBucketText = .ok zeroBucketDocument := if_pos rfl
  have hload : load zeroBucketLoads (.ok zeroBucketText) =
      validateDocument zeroBucketDocument >>= Document.construct := by
    unfold load
    dsimp only
    rw [hloads]
  have hvalid : ∃ document, validateDocument zeroBucketDocument = .ok document ∧
      document.construct = .error .zeroDivision := ⟨_, rfl, rfl⟩
  obtain ⟨document, hdocument, hconstruct⟩ := hvalid
  have hbind : (validateDocument zeroBucketDocument >>= Document.construct) =
      .error .zeroDivision := by
    rw [hdocument]
    exact hconstruct
  rw [hload, hbind]
  exact Bool.false_ne_true

end Hammertime.Config
