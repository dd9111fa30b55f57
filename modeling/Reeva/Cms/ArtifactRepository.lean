import Reeva.Cms.World

/-!
# Reading artifacts

`publicQuery`, the one predicate of every public read path, and the queries that load an artifact
with its relations. A relation is loaded by a query of its own, which the soft deletion of the related
model hides rows from.
-/

open Interleaving ReadCommitted

namespace Reeva

/-! ## Rows that the models see -/

/-- The live artifact with a given key. -/
def Tables.artifact (t : Tables) (id : Id) : Option Artifact :=
  t.artifacts.find? fun a => a.id = id && a.deletedAt.isNone

/-- The live version with a given key. -/
def Tables.version (t : Tables) (id : Id) : Option Version :=
  t.versions.find? fun v => v.id = id && v.deletedAt.isNone

/-- The live platform with a given key. -/
def Tables.platform (t : Tables) (id : Id) : Option Target :=
  t.platforms.find? fun p => p.id = id && p.deletedAt.isNone

/-- The live architecture with a given key. -/
def Tables.architecture (t : Tables) (id : Id) : Option Target :=
  t.architectures.find? fun p => p.id = id && p.deletedAt.isNone

/-- The live storage provider with a given key. -/
def Tables.storageProvider (t : Tables) (id : Id) : Option StorageProvider :=
  t.storageProviders.find? fun p => p.id = id && p.deletedAt.isNone

/-- The software with a given key. -/
def Tables.softwareById (t : Tables) (id : Id) : Option Software :=
  t.software.find? (·.id = id)

/-- `SoftwareSigningKey.query().where({ softwareId, keyId, isActive: true }).first()` -/
def Tables.activeSigningKey (t : Tables) (softwareId : Id) (keyId : String) :
    Option SoftwareSigningKey :=
  t.signingKeys.find? fun k => k.softwareId = softwareId && k.keyId = keyId && k.isActive

/-- The active signing keys of a product. -/
def Tables.activeSigningKeys (t : Tables) (softwareId : Id) : List SoftwareSigningKey :=
  t.signingKeys.filter fun k => k.softwareId = softwareId && k.isActive

/-- `whereHas('version', …)`: the version row satisfies `p`, deleted or not. -/
def Tables.hasVersion (t : Tables) (a : Artifact) (p : Version → Bool) : Bool :=
  t.versions.any fun v => v.id = a.versionId && p v

/-! ## The public query -/

/-- `(SELECT name FROM … WHERE id = …)` -/
def nameById (targets : List Target) (id : Id) : Json :=
  jsonOfNullable ((targets.find? (·.id = id)).map (·.name))

/-- The `jsonb_build_object` of the signature policy. -/
def signedManifest (t : Tables) (s : Software) (v : Version) (a : Artifact) : Json :=
  .obj
    [("schemaVersion", .int 1), ("software", .str s.slug), ("version", .str v.number),
      ("codename", jsonOfNullable v.codename), ("changelog", jsonOfNullable v.changelog),
      ("channel", .str a.channel), ("platform", nameById t.platforms a.platformId),
      ("architecture", nameById t.architectures a.architectureId), ("fileName", .str a.fileName),
      ("sizeBytes", (a.sizeBytes.map Json.int).getD .null),
      ("sha256", jsonOfNullable a.checksumSha256)]

/-- The signature policy of a product for one of its artifacts. -/
def signaturePolicy (t : Tables) (s : Software) (v : Version) (a : Artifact) : Bool :=
  !s.requireSignedUpdates ||
    t.signingKeys.any fun k =>
      k.softwareId = s.id && some k.keyId = a.signatureKeyId && k.isActive && a.signature.isSome &&
        a.signatureManifest.map Json.jsonb = some (signedManifest t s v a).jsonb

/-- Whether `publicQuery` returns an artifact. -/
def isPublic (t : Tables) (softwareId : Option Id) (a : Artifact) : Bool :=
  a.deletedAt.isNone &&
    (t.versions.any fun v =>
      t.software.any fun s =>
        v.softwareId = s.id && v.id = a.versionId && v.deletedAt.isNone && v.isActive &&
          s.isActive && signaturePolicy t s v a && (softwareId.isNone || softwareId = some s.id)) &&
    (t.platforms.any fun p => p.id = a.platformId && p.deletedAt.isNone) &&
    (t.architectures.any fun p => p.id = a.architectureId && p.deletedAt.isNone) &&
    (t.storageProviders.any fun p =>
      p.id = a.storageProviderId && p.deletedAt.isNone && p.isActive) &&
    a.isPublished && !a.isArchived

/-- `publicQuery` -/
def publicQuery (t : Tables) (softwareId : Option Id) : List Artifact :=
  t.artifacts.filter (isPublic t softwareId)

/-! ## Loading relations -/

/-- A version with its preloaded software. -/
def Tables.loadVersion (t : Tables) (v : Version) : LoadedVersion :=
  ⟨v, t.softwareById v.softwareId⟩

/-- An artifact with its preloaded relations, all read from the same tables. -/
def Tables.load (t : Tables) (a : Artifact) : LoadedArtifact where
  artifact := a
  version := (t.version a.versionId).map t.loadVersion
  platform := t.platform a.platformId
  architecture := t.architecture a.architectureId

namespace Cms

/-- `VersionRepository.findById` -/
def findVersion (id : Id) : Cms LoadedVersion := do
  let version ← orFail (← select (·.version id))
  let software ← select (·.softwareById version.softwareId)
  return ⟨version, software⟩

/-- `SoftwareRepository.findById` -/
def findSoftware (id : Id) : Cms Software := do
  orFail (← select (·.softwareById id))

/-- The relations of an artifact, read one after another. -/
def preload (artifact : Artifact) : Cms LoadedArtifact := do
  let version ← select (·.version artifact.versionId)
  let software ← select fun t => version.bind fun v => t.softwareById v.softwareId
  let platform ← select (·.platform artifact.platformId)
  let architecture ← select (·.architecture artifact.architectureId)
  return { artifact, version := version.map fun v => ⟨v, software⟩, platform, architecture }

/-- `Artifact.query().where('id', id).preload(…).firstOrFail()` -/
def loadArtifact (id : Id) : Cms LoadedArtifact := do
  let artifact ← orFail (← select (·.artifact id))
  preload artifact

/-- `Artifact.query().where(p).preload(…)`: every relation is read once for all artifacts. -/
def loadArtifacts (p : Tables → Artifact → Bool) : Cms (List LoadedArtifact) := do
  let artifacts ← select fun t => t.artifacts.filter fun a => p t a && a.deletedAt.isNone
  let versions ← select fun t =>
    t.versions.filter fun v => (artifacts.any (·.versionId = v.id)) && v.deletedAt.isNone
  let software ← select fun t => t.software.filter fun s => versions.any (·.softwareId = s.id)
  let platforms ← select fun t =>
    t.platforms.filter fun p => (artifacts.any (·.platformId = p.id)) && p.deletedAt.isNone
  let architectures ← select fun t =>
    t.architectures.filter fun p => (artifacts.any (·.architectureId = p.id)) && p.deletedAt.isNone
  return artifacts.map fun a => {
    artifact := a
    version := (versions.find? (·.id = a.versionId)).map fun v =>
      ⟨v, software.find? (·.id = v.softwareId)⟩
    platform := platforms.find? (·.id = a.platformId)
    architecture := architectures.find? (·.id = a.architectureId) }

end Cms

end Reeva
