import Reeva.Cms.VersionService
import Reeva.Release.ManagedSigner

/-!
# The artifact service

The requests of `ArtifactService` that change artifacts, statement by statement: uploads with their
quota reservation and compensation, edits, publication, signatures and the rebuilding of names. Where
the source dereferences a relation that was not found, the request fails.
-/

open Interleaving ReadCommitted

namespace Reeva

/-- The fields of an artifact form. The channel is a text. -/
structure ArtifactInput where
  versionId : Input
  platformId : Input
  architectureId : Input
  storageProviderId : Input
  channel : Option String
  isArchived : Input
  isPublished : Input

/-- An uploaded file. -/
structure MultipartFile where
  tmpPath : Option String
  size : ℤ
  extname : Option String
  clientName : String

/-- The hexadecimal digests of a file. -/
structure Checksums where
  md5 : String
  sha1 : String
  sha256 : String
  sha512 : String

/-- The release channels. -/
def channels : List String := ["dev", "staging", "beta", "stable"]

/-- `value === 'on' || value === true` -/
def isOn (value : Input) : Bool := value = some (.str "on") || value = some (.bool true)

/-- The error of reading a property of `null`. -/
def nullError : String := "Cannot read properties of null"

namespace ArtifactService

open Cms

/-- `computeChecksums` of a stream's content. -/
def computeChecksums (node : Node) (content : List UInt8) : Checksums where
  md5 := node.digest "md5" content
  sha1 := node.digest "sha1" content
  sha256 := node.digest "sha256" content
  sha512 := node.digest "sha512" content

/-- One required identifier of `assertUploadMetadata`. -/
def requiredId (name : String) : Input → Except String Id
  | some (.str id) => if isUuid id then .ok id else .error ("A valid " ++ name ++ " is required.")
  | _ => .error ("A valid " ++ name ++ " is required.")

/-- The identifiers that `assertUploadMetadata` let through. -/
structure UploadIds where
  versionId : Id
  platformId : Id
  architectureId : Id
  storageProviderId : Id

/-- `assertUploadMetadata` -/
def assertUploadMetadata (data : ArtifactInput) : Except String UploadIds := do
  let versionId ← requiredId "versionId" data.versionId
  let platformId ← requiredId "platformId" data.platformId
  let architectureId ← requiredId "architectureId" data.architectureId
  let storageProviderId ← requiredId "storageProviderId" data.storageProviderId
  if data.channel.any fun channel => channel ≠ "" && !channels.contains channel then
    throw "Unsupported release channel."
  else return { versionId, platformId, architectureId, storageProviderId }

/-- Whether a platform excludes an architecture. -/
def isExcluded (node : Node) (platform architecture : Target) : Bool :=
  node.toLowerCase platform.name = "android" &&
    (includes (node.toLowerCase architecture.name) "x86" ||
      includes (node.toLowerCase architecture.name) "x64")

/-- Whether a platform takes files with an extension. -/
def isExtValid (node : Node) (platform : Target) (ext : String) : Bool :=
  let pName := node.toLowerCase platform.name
  if includes pName "windows" then ["exe", "zip", "msi", "nupkg"].contains ext
  else if includes pName "mac" then ["dmg", "pkg", "zip", "app"].contains ext
  else if pName = "android" then ["apk", "aab"].contains ext
  else if ["linux", "ubuntu", "debian", "linux_mint", "fedora", "rhel", "centos",
      "opensuse"].contains pName then
    ["appimage", "deb", "rpm", "tar", "gz", "zip"].contains ext
  else true

/-- The key of an artifact's object. -/
def storageKey (id : Id) : String := "artifacts/" ++ id ++ "/payload"

/-! ## Reservations -/

/-- `Number(x || 0)` of a sum of whole numbers. -/
def toNumber (n : ℤ) : ℚ := (Js.toDouble n).getD n

/-- The checks of `reserveQuota`, given the bytes in use. -/
def quotaError (quota currentUsage sizeBytes : ℚ) : Option String :=
  if 0 < quota then
    let usagePercent := ((Js.toDouble (currentUsage / quota)).bind fun q =>
      Js.toDouble (q * 100)).getD 0
    if 95 ≤ usagePercent then
      some ("Storage quota exceeded (" ++ Js.toFixed 1 usagePercent ++
        "%). Artifact upload blocked.")
    else if quota < (Js.toDouble (currentUsage + sizeBytes)).getD 0 then
      some ("This file (" ++ Js.toFixed 2 (sizeBytes / 1024 / 1024) ++
        " MB) would exceed your remaining storage.")
    else none
  else none

/-- Seven days in milliseconds. -/
def reservationLifetime : ℕ := 7 * 24 * 60 * 60 * 1000

/-- `reserveQuota` -/
def reserveQuota (id storageProviderId : Id) (sizeBytes : ℤ) : Cms Unit :=
  transaction do
    let provider ← selectForUpdate .storageProviders
      (fun t => (t.storageProvider storageProviderId).toList.map (·.id))
      fun ids t => (t.storageProvider storageProviderId).filter fun p => ids.contains p.id
    let provider ← orFail provider
    refuse (provider.isActive = false) "The selected storage provider is not active."
    let now : ℕ ← call .now
    let artifactsUsage ← select fun t =>
      ((t.artifacts.filter (·.storageProviderId = storageProviderId)).filterMap (·.sizeBytes)).sum
    let reservationsUsage ← select fun t =>
      ((t.reservations.filter fun r =>
        r.storageProviderId = storageProviderId && now < r.expiresAt).map (·.sizeBytes)).sum
    let currentUsage := (Js.toDouble (toNumber artifactsUsage + toNumber reservationsUsage)).getD 0
    match quotaError (toNumber (provider.quotaBytes.getD 0)) currentUsage sizeBytes with
    | some message => raise message
    | none => do
      let _ ← exec (.insertReservation
        { id, storageProviderId, sizeBytes, expiresAt := now + reservationLifetime })
      return ()

/-- Deletes the objects of expired reservations. -/
def deleteObjects (storageProviderId : Id) : List Reservation → Cms Unit
  | [] => return ()
  | r :: rs => do
    orThrow (← call (.delete storageProviderId (storageKey r.id)))
    deleteObjects storageProviderId rs

/-- `cleanupExpiredReservations`; `fuel` bounds the number of batches. -/
def cleanupExpiredReservations (storageProviderId : Id) (now : ℕ) : (fuel : ℕ) → Cms Unit
  | 0 => halt
  | fuel + 1 => do
    let expired ← select fun t =>
      ((t.reservations.filter fun r =>
        r.storageProviderId = storageProviderId && r.expiresAt ≤ now).mergeSort
          fun r s => r.expiresAt ≤ s.expiresAt).take 100
    if expired = [] then return ()
    else do
      deleteObjects storageProviderId expired
      transaction do
        let _ ← exec (.deleteReservations fun r => r.storageProviderId = storageProviderId &&
          (expired.map (·.id)).contains r.id && r.expiresAt ≤ now)
        return ()
      cleanupExpiredReservations storageProviderId now fuel

/-! ## Uploads -/

/-- The part of the upload that fails without an object: the digests and the call of the storage. -/
def storeObject (node : Node) (storageProviderId : Id) (key tmpPath : String) :
    Cms (Checksums × String) := do
  let content ← orThrow (← call (.readFile tmpPath))
  let uploaded ← orThrow (← call (.upload storageProviderId key tmpPath))
  return (computeChecksums node content, uploaded)

/-- The finalising transaction: the artifact's row takes the place of the reservation. -/
def finalise (artifact : Artifact) : Cms Artifact :=
  transaction do
    let publishedAt ← if artifact.isPublished then some <$> call .now else pure none
    let row := { artifact with publishedAt }
    let _ ← exec (.insertArtifact row)
    let _ ← exec (.deleteReservations (·.id = artifact.id))
    return row

/-- The compensation of a failed upload. -/
def compensate (objectStored : Bool) (storageProviderId artifactId : Id) : Cms Unit := do
  let deleted : Except String Unit ←
    if objectStored then call (.delete storageProviderId (storageKey artifactId)) else pure (.ok ())
  if deleted.toBool then do
    let _ ← (exec (.deleteReservations (·.id = artifactId))).attempt
    return ()
  else return ()

/-- The file name's extension of an uploaded file. -/
def uploadExtension (node : Node) (file : MultipartFile) : String :=
  node.toLowerCase (orElse (file.extname.getD "") (fileExtension file.clientName))

/-- What `uploadArtifact` checks and loads before it touches the storage: the row to be, without
digests. -/
def prepareUpload (node : Node) (file : MultipartFile) (data : ArtifactInput) :
    Cms (Artifact × String) := do
  let ids ← orThrow (assertUploadMetadata data)
  let tmpPath := file.tmpPath.getD ""
  refuse (tmpPath = "" ∨ Js.isSafeInteger file.size = false ∨ file.size ≤ 0)
    "The uploaded file is empty or unavailable."
  let ⟨version, software⟩ ← findVersion ids.versionId
  let platform ← orFail (← select (·.platform ids.platformId))
  let architecture ← orFail (← select (·.architecture ids.architectureId))
  let storageProvider ← orFail (← select (·.storageProvider ids.storageProviderId))
  refuse (storageProvider.isActive = false)
    "The selected storage provider is not active or completely configured."
  refuse (isExcluded node platform architecture = true)
    "Android does not support x86 or x64 architecture in this configuration."
  let ext := uploadExtension node file
  refuse (isExtValid node platform ext = false)
    ("Invalid file extension (." ++ ext ++ ") for platform " ++ platform.displayName ++ ".")
  match software with
  | none => raise "Cannot upload an artifact for inactive software."
  | some software => do
    refuse (software.isActive = false) "Cannot upload an artifact for inactive software."
    refuse (isOn data.isPublished = true ∧ software.requireSignedUpdates = true)
      "Upload this artifact as a draft, sign its release manifest, then publish it."
    let fileName := buildFileName node software.name platform.name architecture.name version ext
    let artifactId ← call .randomUuid
    let row : Artifact :=
      { id := artifactId, fileName, versionId := version.id, platformId := platform.id
        architectureId := architecture.id, storageKey := storageKey artifactId
        storageProviderId := storageProvider.id, sizeBytes := some file.size
        mimeType := some "application/octet-stream", isArchived := false
        channel := orElse (data.channel.getD "") "dev", isPublished := isOn data.isPublished
        publishedAt := none, checksum := none, checksumMd5 := none, checksumSha1 := none
        checksumSha256 := none, checksumSha512 := none, downloadCount := 0, signature := none
        signatureKeyId := none, signatureManifest := none, deletedAt := none }
    return (row, tmpPath)

/-- The upload proper, from the reservation on. -/
def storeArtifact (node : Node) (row : Artifact) (tmpPath : String) : Cms Artifact := do
  reserveQuota row.id row.storageProviderId (row.sizeBytes.getD 0)
  let stored ← (storeObject node row.storageProviderId row.storageKey tmpPath).attempt
  match stored with
  | .error e => do
    compensate false row.storageProviderId row.id
    throw e
  | .ok (hashes, key) => do
    let finalised ← (do
      refuse (key ≠ row.storageKey) "Storage provider changed the assigned object key."
      finalise
        { row with
          checksum := some hashes.sha256, checksumMd5 := some hashes.md5
          checksumSha1 := some hashes.sha1, checksumSha256 := some hashes.sha256
          checksumSha512 := some hashes.sha512 }).attempt
    match finalised with
    | .ok artifact => return artifact
    | .error e => do
      compensate true row.storageProviderId row.id
      throw e

/-- `uploadArtifact` -/
def uploadArtifact (node : Node) (fuel : ℕ) (file : MultipartFile) (data : ArtifactInput) :
    Cms Artifact := do
  let (row, tmpPath) ← prepareUpload node file data
  orThrow (← call (.resolve row.storageProviderId))
  let now : ℕ ← call .now
  cleanupExpiredReservations row.storageProviderId now fuel
  storeArtifact node row tmpPath

/-! ## Edits -/

/-- `updateArtifact` -/
def updateArtifact (node : Node) (id : Id) (data : ArtifactInput) : Cms (Artifact × String) := do
  let ids ← orThrow (assertUploadMetadata { data with
    storageProviderId :=
      orInput data.storageProviderId (some (.str "00000000-0000-4000-8000-000000000000")) })
  let channel := data.channel.getD ""
  refuse (channels.contains channel = false) "Unsupported release channel."
  let artifact ← orFail (← select (·.artifact id))
  let ⟨version, software⟩ ← findVersion ids.versionId
  let platform ← orFail (← select (·.platform ids.platformId))
  let architecture ← orFail (← select (·.architecture ids.architectureId))
  refuse (isExcluded node platform architecture = true)
    "Android does not support x86 or x64 architecture."
  match software with
  | none => raise "Cannot assign an artifact to inactive software."
  | some software => do
    refuse (software.isActive = false) "Cannot assign an artifact to inactive software."
    let newFileName := buildFileName node software.name platform.name architecture.name version
      (orElse (fileExtension artifact.fileName) "bin")
    let merged := { artifact with
      versionId := ids.versionId, platformId := ids.platformId
      architectureId := ids.architectureId, isArchived := isOn data.isArchived
      fileName := newFileName, channel, signature := none, signatureKeyId := none
      signatureManifest := none }
    let _ ← exec (.saveArtifact artifact merged)
    return (merged, newFileName)

/-- `deleteArtifact` -/
def deleteArtifact (id : Id) : Cms Artifact := do
  let artifact ← orFail (← select (·.artifact id))
  let now : ℕ ← call .now
  let deleted := { artifact with deletedAt := some now }
  let _ ← exec (.saveArtifact artifact deleted)
  return deleted

/-- `assertValidReleaseSignature` -/
def assertValidReleaseSignature (node : Node) (a : LoadedArtifact) (version : Version) :
    Cms Unit := do
  let signature := a.artifact.signature.getD ""
  let keyId := a.artifact.signatureKeyId.getD ""
  refuse (signature = "" ∨ keyId = "")
    "A valid release signature is required before publishing this artifact."
  let signingKey ← select (·.activeSigningKey version.softwareId keyId)
  match signingKey with
  | none => raise "The release signature is invalid or its signing key is inactive."
  | some signingKey => do
    let payload ← orThrow (createOtaReleasePayload a)
    refuse
      (verifyOtaReleaseSignature node payload (.str signature) signingKey.publicKey = false)
      "The release signature is invalid or its signing key is inactive."

/-- `publishArtifact` -/
def publishArtifact (node : Node) (id : Id) : Cms Artifact := do
  let a ← loadArtifact id
  refuse (a.artifact.isPublished = true) "Artifact is already published."
  refuse (a.artifact.isArchived = true)
    "Archived artifacts cannot be published. Unarchive the artifact first."
  match a.version with
  | some ⟨version, some software⟩ => do
    if software.requireSignedUpdates then assertValidReleaseSignature node a version
    let now : ℕ ← call .now
    let published := { a.artifact with isPublished := true, publishedAt := some now }
    let _ ← exec (.saveArtifact a.artifact published)
    return published
  | _ => raise nullError

/-- `setArtifactSignature` -/
def setArtifactSignature (node : Node) (id : Id) (keyIdInput signatureInput : Input) :
    Cms Artifact := do
  let a ← loadArtifact id
  let keyId := trimmedText keyIdInput
  let signature := trimmedText signatureInput
  refuse (Js.isSha256Hex keyId = false) "Invalid signing key identifier."
  match a.version with
  | none => raise nullError
  | some ⟨version, _⟩ => do
    let signingKey ← select (·.activeSigningKey version.softwareId keyId)
    match signingKey with
    | none => raise "The selected signing key is not active for this software."
    | some signingKey => do
      let payload ← orThrow (createOtaReleasePayload a)
      refuse
        (verifyOtaReleaseSignature node payload (.str signature) signingKey.publicKey = false)
        ("Signature verification failed. " ++
          "Sign the current manifest payload with the matching Ed25519 private key.")
      match parseOtaReleasePayload payload with
      | none => raise "Unexpected token in JSON"
      | some manifest => do
        let signed := { a.artifact with
          signature := some signature, signatureKeyId := some keyId
          signatureManifest := some manifest }
        let _ ← exec (.saveArtifact a.artifact signed)
        return signed

/-- `requestManagedSignature` -/
def requestManagedSignature (node : Node) (id : Id) : Cms (Option ManagedSigningRequest) := do
  let a ← loadArtifact id
  match a.version with
  | some ⟨version, some software⟩ => do
    let key ← ManagedSignerService.getKey node software.slug
    let registered ← select (·.activeSigningKey version.softwareId key.keyId)
    refuse (registered = none) "Register the managed public key for this software first."
    let payload ← orThrow (createOtaReleasePayload a)
    ManagedSignerService.createRequest node key payload
  | _ => raise nullError

/-- `importManagedSignature` -/
def importManagedSignature (node : Node) (id : Id) : Cms Artifact := do
  let a ← loadArtifact id
  match a.version with
  | some ⟨_, some software⟩ => do
    let key ← ManagedSignerService.getKey node software.slug
    let payload ← orThrow (createOtaReleasePayload a)
    let request ← ManagedSignerService.getRequest node key payload
    match request with
    | none => raise "This manifest has not been independently approved and signed."
    | some request => do
      refuse (request.status ≠ .str "signed" ∨ Js.truthy request.signature = false)
        "This manifest has not been independently approved and signed."
      setArtifactSignature node id (some (.str request.keyId)) (some request.signature)
  | _ => raise nullError

/-! ## Rebuilding names -/

/-- The digests of an artifact's object, when it can be read. -/
def readChecksums (node : Node) (provider : Option StorageProvider) (key : String) :
    Cms Checksums := do
  let provider ← orThrow (provider.elim (.error nullError) .ok)
  orThrow (← call (.resolve provider.id))
  let content ← orThrow (← call (.getStream provider.id key))
  return computeChecksums node content

/-- The body of the loop of `rebuildAllNames`: how many artifacts it saved. -/
def rebuildNames (node : Node) (a : LoadedArtifact) (provider : Option StorageProvider) :
    Cms ℕ := do
  match a.version, a.platform, a.architecture with
  | some ⟨version, some software⟩, some platform, some architecture => do
    let newFileName := buildFileName node software.name platform.name architecture.name version
      (orElse (fileExtension a.artifact.fileName) "bin")
    let hashes ← (readChecksums node provider a.artifact.storageKey).attempt
    let renamed := { a.artifact with fileName := newFileName }
    let rehashed :=
      match hashes with
      | .ok hashes =>
        { renamed with
          checksum := some hashes.sha256, checksumMd5 := some hashes.md5
          checksumSha1 := some hashes.sha1, checksumSha256 := some hashes.sha256
          checksumSha512 := some hashes.sha512 }
      | .error _ => renamed
    let needsSave : Bool := a.artifact.fileName ≠ newFileName || hashes.toBool
    if needsSave then do
      let cleared := { rehashed with
        signature := none, signatureKeyId := none, signatureManifest := none }
      let _ ← exec (.saveArtifact a.artifact cleared)
      return 1
    else return 0
  | _, _, _ => raise nullError

/-- The loop of `rebuildAllNames`. -/
def rebuildLoop (node : Node) (providers : List StorageProvider) :
    List LoadedArtifact → (updatedCount : ℕ) → Cms ℕ
  | [], updatedCount => return updatedCount
  | a :: rest, updatedCount => do
    let saved ← rebuildNames node a (providers.find? (·.id = a.artifact.storageProviderId))
    rebuildLoop node providers rest (updatedCount + saved)

/-- `rebuildAllNames` -/
def rebuildAllNames (node : Node) : Cms ℕ := do
  let artifacts ← loadArtifacts fun _ _ => true
  let providers ← select fun t => t.storageProviders.filter fun p =>
    (artifacts.any (·.artifact.storageProviderId = p.id)) && p.deletedAt.isNone
  rebuildLoop node providers artifacts 0

end ArtifactService

end Reeva
