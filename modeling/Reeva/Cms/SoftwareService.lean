import Reeva.Cms.ArtifactRepository
import Reeva.Cms.Names

/-!
# The product service

The requests of `SoftwareService`, statement by statement: products and their slugs, the default
product, signing keys and the signature policy. A value of unknown type comes as a JSON value, where
`none` is `undefined`.
-/

open Interleaving ReadCommitted

namespace Reeva

/-- A value of a request that may have any type. -/
abbrev Input := Option Json

/-- `typeof input === 'string' ? input.trim() : ''` -/
def trimmedText : Input → String
  | some (.str s) => Js.trim s
  | _ => ""

/-- The check of a product's name. -/
def nameError : String := "Name must be between 1 and 120 characters."

/-- `input === true || input === 'on' || input === 'true' || input === '1'` -/
def isRequired (input : Input) : Bool :=
  input = some (.bool true) || input = some (.str "on") || input = some (.str "true") ||
    input = some (.str "1")

namespace SoftwareService

open Cms

/-- The loop that looks for a free slug; `fuel` bounds the number of attempts. -/
def freeSlug (baseSlug : String) : (fuel : ℕ) → (slug : String) → (suffix : ℕ) → Cms String
  | 0, _, _ => halt
  | fuel + 1, slug, suffix => do
    let taken ← select fun t => t.software.any (·.slug = slug)
    let next := Js.increment suffix
    if taken then freeSlug baseSlug fuel (suffixedSlug baseSlug next) next
    else return slug

/-- `create` -/
def create (node : Node) (fuel : ℕ) (nameInput : Input) : Cms Software := do
  let name := trimmedText nameInput
  refuse (name = "" ∨ 120 < Js.length name) nameError
  let baseSlug := createSafeSlug node name
  transaction do
    let _ ← db (D := cmsSchema) (.advisory 3)
    let slug ← freeSlug baseSlug fuel baseSlug 1
    let id ← call .randomUuid
    let row : Software :=
      { id, name, slug, isActive := true, isDefault := false, requireSignedUpdates := false }
    let _ ← exec (.insertSoftware row)
    return row

/-- `toggleActive` -/
def toggleActive (id : Id) : Cms Software :=
  transaction do
    let found ← selectForUpdate .software (fun t => (t.softwareById id).toList.map (·.id))
      fun ids t => t.software.find? fun s => ids.contains s.id && s.id = id
    match found with
    | none => raise "Software not found."
    | some software => do
      refuse (software.isDefault ∧ software.isActive)
        "The default software cannot be deactivated. Choose another default first."
      let _ ← exec (.updateSoftware (·.id = id) fun s => { s with isActive := !software.isActive })
      orFail (← select (·.softwareById id))

/-- `setDefault` -/
def setDefault (id : Id) : Cms Software :=
  transaction do
    let _ ← db (D := cmsSchema) (.advisory 1)
    let activeRows ← selectForUpdate .software
      (fun t => (t.software.filter (·.isActive)).map (·.id))
      fun ids t => t.software.filter fun s => ids.contains s.id && s.isActive
    refuse (¬activeRows.any (·.id = id)) "Only active software can be the default."
    let _ ← exec (.updateSoftware (fun _ => true) fun s => { s with isDefault := false })
    let _ ← exec (.updateSoftware (·.id = id) fun s => { s with isDefault := true })
    orFail (← select (·.softwareById id))

/-- `updateName` -/
def updateName (id : Id) (input : Input) : Cms Software := do
  let name := trimmedText input
  refuse (name = "" ∨ 120 < Js.length name) nameError
  let software ← findSoftware id
  let renamed := { software with name }
  let _ ← exec (.saveSoftware software renamed)
  return renamed

/-- `addSigningKey` -/
def addSigningKey (node : Node) (softwareId : Id) (input : Input) : Cms SoftwareSigningKey := do
  let software ← findSoftware softwareId
  let (publicKey, keyId) ← orThrow (validateOtaPublicKey node (trimmedText input))
  let existing ← select fun t => t.signingKeys.find? (·.keyId = keyId)
  match existing with
  | some existing => do
    refuse (existing.softwareId ≠ software.id)
      "A signing key must be dedicated to one software product."
    refuse (existing.isActive = false) "This key was revoked and cannot be reactivated."
    raise "This public key is already registered for this software."
  | none => do
    let id ← call .randomUuid
    let row : SoftwareSigningKey :=
      { id, softwareId := software.id, keyId, publicKey, isActive := true }
    let _ ← exec (.insertSigningKey row)
    return row

/-- The check of one published artifact before signatures are required. `keysById` lists the product's
active keys. -/
def verifyPublished (node : Node) (keysById : List (String × String)) (a : LoadedArtifact) :
    Except String Unit := do
  let publicKey := a.artifact.signatureKeyId.bind fun keyId =>
    if keyId = "" then none else keysById.lookup keyId
  let payload ← createOtaReleasePayload a
  match a.artifact.signature, publicKey with
  | some signature, some publicKey =>
    if signature = "" ∨ publicKey = "" ∨
        verifyOtaReleaseSignature node payload (.str signature) publicKey = false then
      throw ("Sign and verify every published release before enabling signed updates. " ++
        "Missing or invalid signature: " ++ a.artifact.fileName ++ ".")
    else return ()
  | _, _ =>
    throw ("Sign and verify every published release before enabling signed updates. " ++
      "Missing or invalid signature: " ++ a.artifact.fileName ++ ".")

/-- `setRequireSignedUpdates` -/
def setRequireSignedUpdates (node : Node) (softwareId : Id) (input : Input) : Cms Software := do
  let software ← findSoftware softwareId
  let required := isRequired input
  if required then
    let keys ← select (·.activeSigningKeys software.id)
    refuse (keys = []) "Add an active Ed25519 public key before enabling signatures."
    let artifacts ← loadArtifacts fun t a => a.isPublished && !a.isArchived &&
      t.hasVersion a fun v => v.softwareId = software.id && v.isActive
    let keysById := (keys.map fun key => (key.keyId, key.publicKey)).reverse
    let _ ← orThrow (artifacts.mapM (verifyPublished node keysById))
  let changed := { software with requireSignedUpdates := required }
  let _ ← exec (.saveSoftware software changed)
  return changed

/-- `revokeSigningKey` -/
def revokeSigningKey (softwareId : Id) (keyId : String) : Cms SoftwareSigningKey := do
  let software ← findSoftware softwareId
  refuse (Js.isSha256Hex keyId = false) "Invalid signing key identifier."
  let found ← select (·.activeSigningKey software.id keyId)
  match found with
  | none => raise "Active signing key not found."
  | some key => do
    if software.requireSignedUpdates then
      let activeKeyCount ← select fun t => (t.activeSigningKeys software.id).length
      refuse (activeKeyCount ≤ 1)
        "Register a replacement public key before revoking the last active key."
      let usedByPublishedArtifact ← select fun t => t.artifacts.any fun a =>
        a.signatureKeyId = some keyId && a.isPublished && !a.isArchived && a.deletedAt.isNone &&
          t.hasVersion a fun v => v.softwareId = software.id && v.isActive
      refuse (usedByPublishedArtifact = true)
        "Re-sign or archive published releases with another active key before revoking this key."
    let revoked := { key with isActive := false }
    let _ ← exec (.saveSigningKey key revoked)
    let _ ← exec (.updateArtifacts
      (fun t a => a.signatureKeyId = some keyId &&
        t.hasVersion a fun v => v.softwareId = software.id)
      fun a => { a with signature := none, signatureKeyId := none, signatureManifest := none })
    return revoked

end SoftwareService

end Reeva
