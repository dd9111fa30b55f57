import Reeva.Codec.JsonRoundTrip
import Reeva.Legacy.S3CompatibleConfig

/-!
# Encrypted storage provider configurations

A provider's configuration is stored encrypted, in an envelope that a reader tells from a plain
configuration by its members. The envelope is written by the model's `config` column, by the
migration that encrypts the rows of older releases, and by the import of a legacy export. The
encryption service is a parameter: `encrypt` gets the random bytes of the call as its first argument.
A row holds the value of its `jsonb` column.
-/

namespace Reeva

/-- The encryption service with the key that the writers share. -/
structure Encryption where
  encrypt : ℕ → Json → String → String
  decrypt : String → String → Option Json

/-- `STORAGE_PROVIDER_CONFIG_PURPOSE`. -/
def storageProviderConfigPurpose : String := "reeva:storage-provider-config:v1"

/-- `ENVELOPE_KEY`. -/
def envelopeKey : String := "__reevaStorageProviderConfig"

/-- `ENVELOPE_VERSION`. -/
def envelopeVersion : ℤ := 1

/-- `typeof value === 'string'`. -/
def isString : Option Json → Bool
  | some (.str _) => true
  | _ => false

/-- `isEncryptedStorageProviderConfig`. -/
def isEncryptedStorageProviderConfig (value : Json) : Bool :=
  match value with
  | .obj _ =>
    ((value.get? envelopeKey).bind Js.number?) = some (envelopeVersion : ℚ) &&
      isString (value.get? "payload")
  | _ => false

/-- An envelope. -/
def envelope (payload : String) : Json :=
  .obj [(envelopeKey, .int envelopeVersion), ("payload", .str payload)]

namespace Encryption

variable (E : Encryption)

/-- `encryptStorageProviderConfig`. -/
def encryptStorageProviderConfig (iv : ℕ) (value : Json) : Json :=
  envelope (E.encrypt iv value storageProviderConfigPurpose)

/-- `decryptStorageProviderConfig`. A plain configuration is accepted as it is. -/
def decryptStorageProviderConfig (value : Json) : Except String Json :=
  if isEncryptedStorageProviderConfig value then
    match value.get? "payload" with
    | some (.str payload) =>
      match E.decrypt payload storageProviderConfigPurpose with
      | some (.obj fields) => .ok (.obj fields)
      | _ => .error ("Cannot decrypt storage provider configuration. " ++
          "Check APP_KEY consistency across Reeva instances.")
    | _ => .error "Storage provider configuration in the database is invalid."
  else
    match value with
    | .obj fields => .ok (.obj fields)
    | _ => .error "Storage provider configuration in the database is invalid."

/-! ## The model's column -/

/-- The column's `prepare`: the text that is sent to the database. -/
def prepare (iv : ℕ) (value : Json) : Except String String := do
  let config ← match value with
    | .str s => match Json.parse s with
      | some config => .ok config
      | none => .error "Storage provider config must be a JSON object."
    | config => .ok config
  match config with
  | .obj _ =>
    if isEncryptedStorageProviderConfig config then return config.stringify
    else return (E.encryptStorageProviderConfig iv config).stringify
  | _ => .error "Storage provider config must be a JSON object."

/-- The column's `consume`, applied to what the database's driver reads. -/
def consume (value : Json) : Except String Json :=
  match value with
  | .str s => match Json.parse s with
    | some config => E.decryptStorageProviderConfig config
    | none => .error "Storage provider config in the database is not valid JSON."
  | config => E.decryptStorageProviderConfig config

/-! ## The migration -/

/-- The object that a value is. -/
def asConfig (message : String) : Json → Except String Json
  | .obj fields => .ok (.obj fields)
  | _ => .error message

/-- `parseConfig`. -/
def parseConfig (value : Json) : Except String Json :=
  let invalid := "Found an invalid storage provider configuration during encryption migration."
  match value with
  | .str s => match Json.parse s with
    | some parsed => asConfig invalid parsed
    | none => .error "Unexpected token in JSON"
  | parsed => asConfig invalid parsed

/-- `config.configSource === 'environment'`. -/
def environmentBacked (config : Json) : Bool :=
  config.get? "configSource" = some (.str "environment")

end Encryption

/-- What the migration reads of its process: the environment, and the platform's URL parser. -/
structure Startup where
  env : String → Option Json
  parseUrl : String → Option Url

/-- `migrateEnvironmentProvider`. -/
def Startup.migrateEnvironmentProvider (start : Startup) : Except String Json := do
  let migrated ← normalizeS3CompatibleConfig start.parseUrl
    (.obj (present [
      ("bucket", start.env "S3_BUCKET"),
      ("endpoint", start.env "S3_ENDPOINT"),
      ("region", start.env "S3_REGION"),
      ("accessKeyId", start.env "S3_ACCESS_KEY_ID"),
      ("secretAccessKey", start.env "S3_SECRET_ACCESS_KEY"),
      ("sessionToken", start.env "S3_SESSION_TOKEN"),
      ("forcePathStyle", start.env "S3_FORCE_PATH_STYLE"),
      ("maxAttempts", start.env "S3_MAX_ATTEMPTS"),
      ("connectionTimeoutMs", start.env "S3_CONNECTION_TIMEOUT_MS"),
      ("socketTimeoutMs", start.env "S3_SOCKET_TIMEOUT_MS"),
      ("downloadUrlTtlSeconds", start.env "S3_DOWNLOAD_URL_TTL_SECONDS")]))
    "s3"
  return .obj (("driver", .str "s3") :: migrated)

/-- A row of `storage_providers`, as far as the migration reads it. -/
structure ProviderRow where
  id : String
  config : Json
  deriving DecidableEq, Repr

/-- The table, whose column is of type `jsonb` and whose rows have one identifier each. -/
structure ProviderTable where
  rows : List ProviderRow
  nodup : (rows.map ProviderRow.id).Nodup
  stored : ∀ row ∈ rows, row.config.jsonb = row.config

/-- `UPDATE storage_providers SET config = … WHERE id = …`. -/
def ProviderTable.update (t : ProviderTable) (rowId : String) (config : Json) : ProviderTable where
  rows := t.rows.map fun row =>
    if row.id = rowId then { row with config := config.jsonb } else row
  nodup := by
    have hids : (t.rows.map fun row =>
        if row.id = rowId then { row with config := config.jsonb } else row).map ProviderRow.id =
          t.rows.map ProviderRow.id := by
      rw [List.map_map]
      refine List.map_congr_left fun row _ => ?_
      simp only [Function.comp_apply]
      split <;> rfl
    rw [hids]
    exact t.nodup
  stored := by
    intro row hrow
    obtain ⟨old, hold, rfl⟩ := List.mem_map.mp hrow
    split
    · exact Json.jsonb_jsonb config
    · exact t.stored old hold

/-- What the iteration for one provider writes; `none` continues with the next. -/
def ProviderTable.put (t : ProviderTable) (rowId : String) : Option Json → ProviderTable
  | some config => t.update rowId config
  | none => t

/-- The loop over the providers that were selected. An error rolls the migration's transaction back. -/
def ProviderTable.forEach (t : ProviderTable) (f : ProviderRow → Except String (Option Json)) :
    Except String ProviderTable :=
  t.rows.foldlM (fun now provider => (f provider).map (now.put provider.id)) t

namespace Encryption

variable (E : Encryption)

/-- The iteration of `up` for one provider. -/
def upRow (start : Startup) (iv : ℕ) (provider : ProviderRow) : Except String (Option Json) := do
  let config ← parseConfig provider.config
  if isEncryptedStorageProviderConfig config then return none
  else if environmentBacked config then
    match start.migrateEnvironmentProvider with
    | .ok migrated => return some (E.encryptStorageProviderConfig iv migrated)
    | .error _ => .error ("Cannot migrate the environment-backed S3 provider. " ++
        "Keep its complete legacy S3_* settings available for this startup, " ++
        "then run migrations again.")
  else return some (E.encryptStorageProviderConfig iv config)

/-- `up`; the random bytes are those of the row. -/
def up (start : Startup) (iv : String → ℕ) (t : ProviderTable) : Except String ProviderTable :=
  t.forEach fun provider => E.upRow start (iv provider.id) provider

/-- The iteration of `down` for one provider. -/
def downRow (provider : ProviderRow) : Except String (Option Json) := do
  let config ← parseConfig provider.config
  if isEncryptedStorageProviderConfig config then
    return some (← E.decryptStorageProviderConfig config)
  else return none

/-- `down`. -/
def down (t : ProviderTable) : Except String ProviderTable := t.forEach E.downRow

/-! ## The import's encryptor -/

/-- `createStorageConfigEncryptor(appKey).encrypt`. -/
def scriptEncrypt (iv : ℕ) (config : Json) : Json :=
  .obj [("__reevaStorageProviderConfig", .int 1),
    ("payload", .str (E.encrypt iv config "reeva:storage-provider-config:v1"))]

end Encryption

end Reeva
