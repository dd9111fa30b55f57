import Reeva.Cms.SoftwareService
import Reeva.Codec.Number
import Reeva.Interleaving.RowLocks
import Reeva.Licensing.Database

/-!
# The licence service

The requests of `LicenseService` that change something, statement by statement, over the tables of the
licences. The fields of a form come as JSON values, where `none` is `undefined`: such a field is left
out of a statement, `null` is refused by a column that must not be null, and the driver sends any
other value as a text.
-/

open Interleaving ReadCommitted

namespace Reeva.Licensing

/-! ## The outside world -/

/-- A call to something outside of the database. -/
inductive Call
  | randomUuid
  | now
  | generateKeyPair

/-- What a call returns; a key pair is the private and the public key as PEM. -/
def Call.Res : Call → Type
  | randomUuid => Id
  | now => ℤ
  | generateKeyPair => String × String

/-- The calls. -/
def calls : Signature.{0} := ⟨Call, Call.Res⟩

/-- What the environment decides in a call. -/
inductive Outcome
  | done
  | id (id : Id)
  | keys (privateKey publicKey : String)
  | tick (milliseconds : ℕ)

/-- The outside world is the clock, in milliseconds. -/
def world : Machine calls where
  State := ℕ
  Choice := Outcome
  run _
    | .randomUuid, .id id, clock => some (id, clock)
    | .now, _, clock => some ((clock : ℤ), clock)
    | .generateKeyPair, .keys privateKey publicKey, clock => some ((privateKey, publicKey), clock)
    | _, _, _ => none
  env
    | .tick n, clock => some (clock + n)
    | _, _ => none

/-- The machine of the licences. -/
abbrev machine : Machine (signature schema calls) := Service schema world

/-- A state of the machine. -/
abbrev State := System schema ℕ

/-- A program over the licences. -/
abbrev Program := Prog (signature schema calls) (Failure String)

/-- What the service uses of its libraries. -/
structure Runtime where
  /-- The row identifier that PostgreSQL reads a text as. -/
  parseUuid : String → Option Id
  /-- The text that the driver sends for a value that is neither `null` nor a string. -/
  driverText : Json → String
  /-- `DateTime.fromISO(value)`; `none` when it is not valid. -/
  fromISO : Json → Option ℤ
  /-- `crypto.sign` with the private key of a PEM, or the message of what it throws. -/
  sign : String → List UInt8 → Except String (List UInt8)
  /-- `toString('base64')` -/
  base64 : List UInt8 → String

/-- The fields of a licence form. -/
structure LicenseInput where
  licenseKey : Input
  productName : Input
  customerName : Input
  customerEmail : Input
  status : Input
  maxActivations : Input
  expiresAt : Input

/-- `throw new Error(message)`. -/
def raise {α : Type} (message : String) : Program α := .fail (.raised message)

/-- `if (c) throw new Error(message)`. -/
def refuse (c : Prop) [Decidable c] (message : String) : Program Unit :=
  if c then raise message else pure ()

/-- The value of a computation that may throw. -/
def orThrow {α : Type} : Except String α → Program α
  | .ok a => pure a
  | .error message => raise message

/-- A query of the tables. -/
def select {α : Type} (f : Tables → α) : Program α := query (D := schema) fun d => f (Db.toTables d)

/-- A write. -/
def exec (w : Write) : Program ℕ := write (D := schema) w

/-- A call. -/
def call (c : Call) : Program c.Res := ext (E := calls) c

/-- The licence with an identifier, unless it was deleted. -/
def Tables.license (t : Tables) (id : Id) : Option License :=
  t.licenses.find? fun l => l.id = id && l.deletedAt.isNone

/-- The activations of a licence. -/
def Tables.activationsOf (t : Tables) (id : Id) : List LicenseActivation :=
  t.activations.filter (·.licenseId = some id)

/-- The setting with a key, unless it was deleted. -/
def Tables.setting (t : Tables) (key : String) : Option Setting :=
  t.settings.find? fun s => s.key = key && s.deletedAt.isNone

/-! ## Values of columns -/

/-- `value === 'revoked'` -/
def isRevoked (value : Input) : Bool := value = some (.str "revoked")

/-- A value with which an expression `value ? … : …` goes on. -/
def truthy (value : Input) : Option Json := value.filter Js.truthy

/-- The text that a column takes from a value that is not `null`. -/
def columnText (rt : Runtime) : Json → String
  | .str s => s
  | value => rt.driverText value

/-- A nullable text column after an assignment. -/
def assigned (rt : Runtime) (loaded : Option String) : Input → Option String
  | none => loaded
  | some .null => none
  | some value => some (columnText rt value)

/-- A text column that must not be null. -/
def required (column : String) : Option String → Except String String
  | some s => .ok s
  | none => .error ("null value in column \"" ++ column ++ "\" violates not-null constraint")

/-- `Number.isNaN(Number.parseInt(value)) ? fallback : Number.parseInt(value)` of a value that is
truthy. -/
def parseCount (fallback : ℤ) (value : Input) : ℤ :=
  match truthy value with
  | some value => (Js.parseInt (Js.text value)).getD fallback
  | none => fallback

/-- `value ? DateTime.fromISO(value) : null`, as the column takes it. -/
def parseExpiry (rt : Runtime) (value : Input) : Except String (Option ℤ) :=
  match truthy value with
  | some value =>
    match rt.fromISO value with
    | some time => .ok (some time)
    | none => .error "Invalid value for \"License.expiresAt\"."
  | none => .ok none

namespace LicenseService

/-! ## Licences -/

/-- A part of a generated key. -/
def keyPart (uuid : Id) : String := (String.ofList (uuid.toList.take 4)).toUpper

/-- `generateLicenseKey` -/
def generateLicenseKey (rt : Runtime) (licenseKey : Input) : Program String :=
  match truthy licenseKey with
  | some value => return columnText rt value
  | none => do
    let part1 ← call .randomUuid
    let part2 ← call .randomUuid
    let part3 ← call .randomUuid
    return "REEVA-" ++ keyPart part1 ++ "-" ++ keyPart part2 ++ "-" ++ keyPart part3

/-- `createLicense` -/
def createLicense (rt : Runtime) (data : LicenseInput) : Program License := do
  let id ← call .randomUuid
  let licenseKey ← generateLicenseKey rt data.licenseKey
  let productName ← orThrow (required "product_name" (assigned rt none data.productName))
  let expiresAt ← orThrow (parseExpiry rt data.expiresAt)
  let row : License :=
    { id
      licenseKey
      productName
      customerName := assigned rt none data.customerName
      customerEmail := assigned rt none data.customerEmail
      status := ((truthy data.status).map (columnText rt)).getD "active"
      maxActivations := parseCount 1 data.maxActivations
      activationCount := 0
      expiresAt
      revokedAt := none
      deletedAt := none }
  let _ ← exec (.insertLicense row)
  return row

/-- `License.query().where('id', id).forUpdate().firstOrFail()` -/
def lockLicense (rt : Runtime) (id : String) : Program License := do
  match rt.parseUuid id with
  | none => raise "invalid input syntax for type uuid"
  | some id => do
    let found ← select fun t => (t.license id).toList.map (·.id)
    let _ ← db (D := schema) (.lock (Row.forUpdate .licenses found))
    let license ← select fun t => (t.license id).filter fun l => found.contains l.id
    match license with
    | some license => return license
    | none => raise "Row not found"

/-- The licence in memory after the assignments of `updateLicense`. -/
def merged (rt : Runtime) (data : LicenseInput) (revokedAt : Option ℤ) (license : License) :
    Except String License := do
  let licenseKey ← required "license_key" (assigned rt (some license.licenseKey) data.licenseKey)
  let productName ← required "product_name" (assigned rt (some license.productName) data.productName)
  let status ← required "status" (assigned rt (some license.status) data.status)
  let expiresAt ← parseExpiry rt data.expiresAt
  return { license with
    licenseKey
    productName
    customerName := assigned rt license.customerName data.customerName
    customerEmail := assigned rt license.customerEmail data.customerEmail
    status
    maxActivations := parseCount license.maxActivations data.maxActivations
    expiresAt
    revokedAt := if isRevoked data.status then revokedAt else none }

/-- `updateLicense` -/
def updateLicense (rt : Runtime) (id : String) (data : LicenseInput) : Program License :=
  transaction do
    let license ← lockLicense rt id
    let revokedAt ←
      if isRevoked data.status ∧ license.revokedAt = none then some <$> call .now
      else pure license.revokedAt
    let updated ← orThrow (merged rt data revokedAt license)
    let _ ← exec (.saveLicense license updated)
    return updated

/-- `toggleLicense` -/
def toggleLicense (rt : Runtime) (id : String) : Program License :=
  transaction do
    let license ← lockLicense rt id
    let toggled := { license with
      status := if license.status = "active" then "inactive" else "active" }
    let _ ← exec (.saveLicense license toggled)
    return toggled

/-- `deleteLicense` -/
def deleteLicense (rt : Runtime) (id : String) : Program License :=
  transaction do
    let license ← lockLicense rt id
    let now ← call .now
    let deleted := { license with deletedAt := some now }
    let _ ← exec (.saveLicense license deleted)
    return deleted

/-! ## Activations -/

/-- `Setting.updateOrCreate({ key }, { value })` -/
def updateOrCreateSetting (key value : String) : Program Unit := do
  let found ← select fun t => (t.setting key).toList.map (·.id)
  let _ ← db (D := schema) (.lock (Row.forUpdate .settings found))
  let setting ← select fun t => (t.setting key).filter fun s => found.contains s.id
  match setting with
  | some setting => do
    let _ ← exec (.saveSetting setting { setting with value := some value })
    return ()
  | none => do
    let id ← call .randomUuid
    let _ ← exec (.insertSetting { id, key, value := some value, deletedAt := none })
    return ()

/-- `getPrivateKey`; the key is the PEM that is read. -/
def getPrivateKey : Program String := do
  let _ ← db (D := schema) (.advisory 3)
  let keySetting ← select fun t => t.setting "license_private_key"
  match keySetting with
  | some setting =>
    match setting.value with
    | some value => return value
    | none => raise "Invalid private key"
  | none => do
    let (privateKey, publicKey) ← call .generateKeyPair
    let id ← call .randomUuid
    let _ ← exec (.insertSetting
      { id, key := "license_private_key", value := some privateKey, deletedAt := none })
    updateOrCreateSetting "license_public_key" publicKey
    return privateKey

/-- The signed part of a token. -/
def tokenPayload (license : License) (machineId : String) (iat : ℤ) : Json :=
  .obj [("lid", .str license.id), ("key", .str license.licenseKey), ("hid", .str machineId),
    ("prod", .str license.productName), ("exp", (license.expiresAt.map Json.int).getD .null),
    ("iat", .int iat)]

/-- A token. -/
def token (rt : Runtime) (payload : Json) (signature : List UInt8) : String :=
  rt.base64 (Js.utf8 (Json.obj [("p", payload), ("s", .str (rt.base64 signature))]).stringify)

/-- The machine that a request names, if the request is well formed. -/
def checkMachineId : Input → Option String
  | some (.str machineId) =>
    if Js.trim machineId = "" ∨ 255 < Js.length machineId then none else some (Js.trim machineId)
  | _ => none

/-- `if (license.expiresAt && license.expiresAt <= DateTime.utc()) throw …` -/
def refuseExpired (license : License) : Program Unit :=
  match license.expiresAt with
  | some expiresAt => do
    let now : ℤ ← call .now
    refuse (expiresAt ≤ now) "License has expired"
  | none => pure ()

/-- `issueActivationToken` -/
def issueActivationToken (rt : Runtime) (licenseId : String) (machineId : Input) :
    Program String :=
  match checkMachineId machineId with
  | none => raise "Machine ID is required and must be 255 characters or fewer"
  | some machineId =>
    transaction do
      let license ← lockLicense rt licenseId
      refuse (license.status ≠ "active") "License is not active"
      refuseExpired license
      let activations ← select fun t => t.activationsOf license.id
      refuse (activations.any (·.machineId = machineId) = true)
        "This machine is already activated for this license"
      refuse (license.maxActivations ≤ activations.length) "Activation limit reached"
      let iat ← call .now
      let payload := tokenPayload license machineId iat
      let privateKey ← getPrivateKey
      let signature ← orThrow (rt.sign privateKey (Js.utf8 payload.stringify))
      let id ← call .randomUuid
      let _ ← exec (.insertActivation { id, licenseId := some license.id, machineId })
      let _ ← exec (.saveLicense license
        { license with activationCount := activations.length + 1 })
      return token rt payload signature

/-- `removeActivation` -/
def removeActivation (rt : Runtime) (licenseId activationId : String) : Program Unit :=
  transaction do
    let license ← lockLicense rt licenseId
    match rt.parseUuid activationId with
    | none => raise "invalid input syntax for type uuid"
    | some activationId => do
      let activation ← select fun t =>
        (t.activationsOf license.id).find? (·.id = activationId)
      match activation with
      | none => raise "Row not found"
      | some activation => do
        let _ ← exec (.deleteActivation activation.id)
        let count ← select fun t => (t.activationsOf license.id).length
        let _ ← exec (.saveLicense license { license with activationCount := count })
        return ()

end LicenseService

/-! ## Requests -/

/-- A request of the service. -/
inductive Request
  | createLicense (data : LicenseInput)
  | updateLicense (id : String) (data : LicenseInput)
  | toggleLicense (id : String)
  | deleteLicense (id : String)
  | issueActivationToken (licenseId : String) (machineId : Input)
  | removeActivation (licenseId activationId : String)

/-- What a request returns. -/
inductive Reply
  | license (license : License)
  | token (token : String)
  | done

open LicenseService in
/-- The program of a request. -/
def Request.program (rt : Runtime) : Request → Program Reply
  | createLicense data => (LicenseService.createLicense rt data).bind fun l => .ret (.license l)
  | updateLicense id data => (LicenseService.updateLicense rt id data).bind fun l => .ret (.license l)
  | toggleLicense id => (LicenseService.toggleLicense rt id).bind fun l => .ret (.license l)
  | deleteLicense id => (LicenseService.deleteLicense rt id).bind fun l => .ret (.license l)
  | issueActivationToken licenseId machineId =>
    (LicenseService.issueActivationToken rt licenseId machineId).bind fun t => .ret (.token t)
  | removeActivation licenseId activationId =>
    (LicenseService.removeActivation rt licenseId activationId).bind fun _ => .ret .done

end Reeva.Licensing
