import Reeva.Cms.Database
import Reeva.Storage.LocalProvider
import Reeva.Storage.Settings

/-!
# Storage providers

The service behind the pages of the storage providers: it creates and edits their rows, whose
configuration it brings into normal form, and shows them in a form. `StorageManager.resolve` makes a
client of a row. The forms and the configurations are JSON objects; a field that is left out is
`undefined`.
-/

namespace Reeva

/-- The functions of the platform: the parser of URLs, and `s.toLowerCase()`. -/
structure StoragePlatform where
  parseUrl : String → Option Url
  toLowerCase : String → String

/-- `S3_DRIVERS` -/
def s3Drivers : List String := ["s3", "minio", "seaweedfs", "oci", "r2"]

/-- `GB_IN_BYTES` -/
def gbInBytes : ℕ := 1024 * 1024 * 1024

/-- The driver of a row: `configured.trim().toLowerCase()` where it is configured, else its type. -/
def driverName (platform : StoragePlatform) (configured : Option Json) (type : String) : String :=
  match configured with
  | some (.str d) =>
    if Js.trim d = "" then platform.toLowerCase type else platform.toLowerCase (Js.trim d)
  | _ => platform.toLowerCase type

namespace StorageProviderService

/-- `inputString` -/
def inputString (value : Option Json) (label : String) (maxLength : ℕ) : Except String String :=
  match value with
  | none | some .null | some (.str "") => .ok ""
  | some (.str s) =>
    if maxLength < Js.length s then
      .error (label ++ " must be a string of " ++ toString maxLength ++ " characters or fewer.")
    else .ok (Js.trim s)
  | some _ =>
    .error (label ++ " must be a string of " ++ toString maxLength ++ " characters or fewer.")

/-- `isChecked` -/
def isChecked (value : Option Json) : Bool :=
  [some (.bool true), some (.str "true"), some (.str "1"), some (.str "on")].contains value

/-- `validateProviderName` -/
def validateProviderName : Option Json → Except String String
  | some (.str s) =>
    if Js.trim s = "" ∨ 100 < Js.length (Js.trim s) then
      .error "Provider name is required and must be 100 characters or fewer."
    else .ok (Js.trim s)
  | _ => .error "Provider name is required and must be 100 characters or fewer."

/-- `Math.round(q)` -/
def round (q : ℚ) : ℤ := ⌊q + 1 / 2⌋

/-- `quotaInBytes`; the product with a power of two is exact. -/
def quotaInBytes (value : Option Json) : Except String ℤ :=
  match value.bind Js.toNumber with
  | some quota =>
    if quota < 0 ∨ 1000000 < quota then
      .error "Storage quota must be a non-negative finite GB value."
    else .ok (round (quota * gbInBytes))
  | none => .error "Storage quota must be a non-negative finite GB value."

/-- `a || b` -/
def orJson (a b : Option Json) : Option Json := if a.any Js.truthy then a else b

/-- A text that counts where it is not empty. -/
def entered (text : String) : Option Json := if text = "" then none else some (.str text)

section service

variable (platform : StoragePlatform)

/-- `providerDriver` -/
def providerDriver (provider : StorageProvider) : String :=
  driverName platform (provider.config.get? "driver") provider.type

/-- The configuration that `normalizedProviderConfig` normalises for an S3-compatible driver. -/
def mergedConfig (driver : String) (input : Json) (existing : Option Json) : Except String Json := do
  let old (key : String) : Option Json := existing.bind (·.get? key)
  let enteredAccessKey ← inputString (input.get? "accessKeyId") "Access key ID" 512
  let enteredSecretKey ← inputString (input.get? "secretAccessKey") "Secret access key" 4096
  let clearCredentials := isChecked (input.get? "clearCredentials")
  let clearSessionToken := isChecked (input.get? "clearSessionToken")
  if clearCredentials ∧ (enteredAccessKey ≠ "" ∨ enteredSecretKey ≠ "") then
    .error "Leave credential fields empty when clearing stored credentials."
  if clearCredentials = false ∧ decide (enteredAccessKey = "") ≠ decide (enteredSecretKey = "") then
    .error "Enter both access key ID and secret access key to replace credentials."
  let bucket ← inputString (coalesce (input.get? "bucket") (old "bucket")) "Bucket name" 255
  let region ← inputString (coalesce (input.get? "region") (old "region")) "Region" 100
  let endpoint ← inputString (coalesce (input.get? "endpoint") (old "endpoint")) "Endpoint" 2048
  let forcePathStyle ←
    inputString (coalesce (input.get? "forcePathStyle") (old "forcePathStyle")) "Path style" 16
  let enteredSessionToken ← inputString (input.get? "sessionToken") "Session token" 4096
  return .obj (present [
    ("driver", some (.str driver)),
    ("bucket", some (.str bucket)),
    ("region", some (.str (if region = "" then "us-east-1" else region))),
    ("endpoint", entered endpoint),
    ("forcePathStyle", some (.str (if forcePathStyle = "" then "auto" else forcePathStyle))),
    ("maxAttempts", coalesce (input.get? "maxAttempts") (old "maxAttempts")),
    ("connectionTimeoutMs",
      coalesce (input.get? "connectionTimeoutMs") (old "connectionTimeoutMs")),
    ("socketTimeoutMs", coalesce (input.get? "socketTimeoutMs") (old "socketTimeoutMs")),
    ("downloadUrlTtlSeconds",
      coalesce (input.get? "downloadUrlTtlSeconds") (old "downloadUrlTtlSeconds")),
    ("accessKeyId", if clearCredentials then none
      else orJson (entered enteredAccessKey) (orJson (old "accessKeyId") (old "accessKey"))),
    ("secretAccessKey", if clearCredentials then none
      else orJson (entered enteredSecretKey) (orJson (old "secretAccessKey") (old "secretKey"))),
    ("sessionToken", if clearCredentials || clearSessionToken then none
      else orJson (entered enteredSessionToken) (old "sessionToken"))])

/-- `normalizedProviderConfig` -/
def normalizedProviderConfig (driver : String) (input : Json) (existing : Option Json) :
    Except String Json :=
  if driver = "local" then do
    let root ← inputString (coalesce (input.get? "root") (existing.bind (·.get? "root")))
      "Storage root" 2048
    if root = "" ∨ NodePath.isAbsolute root = false then
      .error "Local storage root must be an absolute path."
    else return .obj [("driver", .str "local"), ("root", .str root)]
  else if s3Drivers.contains driver = false then .error "Unsupported storage provider driver."
  else do
    let config ← mergedConfig driver input existing
    let normalized ← normalizeS3CompatibleConfig platform.parseUrl config driver
    return .obj (("driver", .str driver) :: normalized)

/-- `createProvider`: the row that is created, under a new identifier. -/
def createProvider (id : Id) (input : Json) : Except String StorageProvider := do
  let name ← validateProviderName (input.get? "name")
  let driver := platform.toLowerCase (← inputString (input.get? "driver") "Provider driver" 32)
  if driver ≠ "local" ∧ s3Drivers.contains driver = false then
    .error "Choose a supported local or S3-compatible storage provider."
  else do
    let config ← normalizedProviderConfig platform driver input none
    let type :=
      if driver = "local" then "local"
      else if ["minio", "seaweedfs"].contains driver then "self-hosted"
      else "cloud"
    let quotaBytes ← quotaInBytes (coalesce (input.get? "quotaGb") (some (.int 10)))
    return { id, name, type, config, isDefault := false, isActive := true
             quotaBytes := some quotaBytes, deletedAt := none }

/-- `updateProvider`: the row that is saved for the one that was found. -/
def updateProvider (provider : StorageProvider) (input : Json) : Except String StorageProvider := do
  let name ← validateProviderName (input.get? "name")
  let driver := providerDriver platform provider
  let config ← normalizedProviderConfig platform driver input (some provider.config)
  let quotaBytes ← quotaInBytes (input.get? "quotaGb")
  return { provider with name, config, quotaBytes := some quotaBytes }

/-- The checks of `activateProvider`. -/
def checkActivation (provider : StorageProvider) : Except String Unit :=
  let driver := providerDriver platform provider
  if driver = "local" then
    match provider.config.get? "root" with
    | some (.str root) =>
      if NodePath.isAbsolute root then .ok ()
      else .error
        "Configure a valid absolute local storage root before activating this provider."
    | _ => .error
        "Configure a valid absolute local storage root before activating this provider."
  else if s3Drivers.contains driver = false then .error "Unsupported storage provider driver."
  else (normalizeS3CompatibleConfig platform.parseUrl provider.config driver).map fun _ => ()

end service

end StorageProviderService

/-- What `StorageManager.resolve` makes of a row: a provider of local files with its root, or a client
of an S3-compatible store, made of its settings. -/
inductive StorageClient
  | files (root : Option Json)
  | s3 (config : List (String × Json))
  deriving DecidableEq

/-- `new S3CompatibleProvider(config)` -/
def S3CompatibleProvider.new (platform : StoragePlatform) (config : Json) :
    Except String StorageClient :=
  (normalizeS3CompatibleConfig platform.parseUrl config "s3").map .s3

/-- `StorageManager.resolve` -/
def StorageManager.resolve (platform : StoragePlatform) (provider : StorageProvider) :
    Except String StorageClient := do
  match provider.config with
  | .obj _ => .ok ()
  | _ => .error "Storage provider configuration must be an object."
  let driver := driverName platform (provider.config.get? "driver") provider.type
  if driver = "local" then return .files (provider.config.get? "root")
  else if s3Drivers.contains driver then do
    let s3Config ← normalizeS3CompatibleConfig platform.parseUrl provider.config driver
    S3CompatibleProvider.new platform (.obj s3Config)
  else .error ("Unsupported storage provider driver: " ++ driver)

end Reeva
