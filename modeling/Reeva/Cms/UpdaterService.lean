import Mathlib.Data.Prod.Lex
import Mathlib.Data.String.Basic
import Reeva.Cms.SoftwareService
import Reeva.Queries.Ordering

/-!
# The public endpoints

`UpdaterService`, as far as it reads: the newest release for a client, the newest release, the pages
of releases and the artifact of a download; and the answers that `UpdaterController` makes of them.
Every function reads one state of the database. A join is a list of pairs, and a preloaded relation is
read from the same tables as the row.
-/

namespace Reeva

/-! ## Semantic versions -/

/-- An identifier of a pre-release. -/
inductive PrereleaseIdentifier
  | number (n : ℕ)
  | text (s : String)
  deriving DecidableEq, Repr

/-- `SemVer` -/
structure SemVer where
  major : ℕ
  minor : ℕ
  patch : ℕ
  prerelease : List PrereleaseIdentifier
  deriving DecidableEq, Repr

/-- The three numbers of a version, ordered by the first one that differs. -/
abbrev Core := ℕ ×ₗ ℕ ×ₗ ℕ

/-- The numbers of a semantic version. -/
def SemVer.core (v : SemVer) : Core := toLex (v.major, toLex (v.minor, v.patch))

/-- The numbers of a version row. -/
def Version.core (v : Version) : Core := toLex (v.major, toLex (v.minor, v.patch))

/-- Precedence of pre-release identifiers: numbers by their value and below texts, texts by their
characters. -/
def PrereleaseIdentifier.Precedes : PrereleaseIdentifier → PrereleaseIdentifier → Prop
  | number n, number m => n < m
  | number _, text _ => True
  | text _, number _ => False
  | text s, text t => s < t

/-- Precedence of semantic versions. A version precedes its release when it is a pre-release. -/
def SemVer.Precedes (v w : SemVer) : Prop :=
  v.core < w.core ∨ v.core = w.core ∧ v.prerelease ≠ [] ∧
    (w.prerelease = [] ∨ List.Lex PrereleaseIdentifier.Precedes v.prerelease w.prerelease)

/-- What the endpoints take from the package semver. -/
structure SemverPackage where
  /-- `semver.parse(s)` -/
  parse : String → Option SemVer
  /-- `semver.valid(s) !== null` -/
  valid : String → Bool
  /-- `semver.gt(s, t)` -/
  gt : String → String → Bool

/-- The greatest number of a column of type `integer`. -/
def maxInteger : ℕ := 2 ^ 31 - 1

/-- The numbers of a version fit their columns. -/
def Version.Fits (v : Version) : Prop :=
  v.major ≤ maxInteger ∧ v.minor ≤ maxInteger ∧ v.patch ≤ maxInteger

/-- The numbers of a semantic version fit the columns. -/
def SemVer.Fits (v : SemVer) : Prop :=
  v.major ≤ maxInteger ∧ v.minor ≤ maxInteger ∧ v.patch ≤ maxInteger

instance (v : SemVer) : Decidable v.Fits := inferInstanceAs (Decidable (_ ∧ _ ∧ _))

/-- What the package documents: three numbers with dots between them are a release, valid texts are
those that parse, and `gt` is precedence. -/
structure SemverPackage.Documented (semver : SemverPackage) : Prop where
  parse_number : ∀ v : Version, v.Fits →
    semver.parse v.number = some ⟨v.major, v.minor, v.patch, []⟩
  valid_eq : ∀ s, semver.valid s = (semver.parse s).isSome
  gt_iff : ∀ s t v w, semver.parse s = some v → semver.parse t = some w →
    (semver.gt s t = true ↔ w.Precedes v)

/-! ## The service -/

/-- The errors of the updater service. -/
inductive UpdaterError
  | publicArtifactNotFound (message : String)
  | artifactStorage (message : String)
  | unsupportedReleaseTarget (message : String)
  | publicSoftwareNotFound (message : String)
  | error (message : String)
  /-- An error of the database: a number that does not fit its column. -/
  | outOfRange
  /-- A member of `null` was read. -/
  | typeError
  deriving DecidableEq, Repr

/-- `findActiveBySlug` -/
def Tables.findActiveBySlug (t : Tables) (slug : String) : Option Software :=
  t.software.find? fun s => s.slug = slug && s.isActive

/-- `findActiveDefault` -/
def Tables.findActiveDefault (t : Tables) : Option Software :=
  t.software.find? fun s => s.isDefault && s.isActive

/-- `Platform.findBy('name', name)` -/
def Tables.platformByName (t : Tables) (name : String) : Option Target :=
  t.platforms.find? fun p => p.name = name && p.deletedAt.isNone

/-- `Architecture.findBy('name', name)` -/
def Tables.architectureByName (t : Tables) (name : String) : Option Target :=
  t.architectures.find? fun p => p.name = name && p.deletedAt.isNone

/-- `.join('versions as v', 'v.id', 'artifacts.version_id')` -/
def Tables.joinVersions (t : Tables) (artifacts : List Artifact) : List (Artifact × Version) :=
  artifacts.flatMap fun a => (t.versions.filter (·.id = a.versionId)).map fun v => (a, v)

/-- `findPublicById`, with the storage provider. -/
def Tables.findPublicById (t : Tables) (id : Id) (softwareId : Option Id) :
    Option (LoadedArtifact × Option StorageProvider) :=
  ((publicQuery t softwareId).find? (·.id = id)).map fun a =>
    (t.load a, t.storageProvider a.storageProviderId)

namespace UpdaterService

open Queries

/-- `resolveSoftware` -/
def resolveSoftware (t : Tables) (slug : Option String) : Except UpdaterError Software :=
  let software := match slug.filter (· ≠ "") with
    | some slug => t.findActiveBySlug slug
    | none => t.findActiveDefault
  match software with
  | some software => .ok software
  | none => .error (.publicSoftwareNotFound "Software is not available.")

/-- The public artifacts of a product for a target and a channel, each with its version. -/
def targetQuery (t : Tables) (softwareId platformId architectureId : Id) (channel : String) :
    List (Artifact × Version) :=
  (t.joinVersions (publicQuery t (some softwareId))).filter fun (a, _) =>
    a.platformId = platformId && a.architectureId = architectureId && a.channel = channel

/-- The condition of `checkForUpdate` on versions: the three numbers are compared one by one, and a
stable version with the same numbers is newer than a pre-release. -/
def isNewer (current : SemVer) (v : Version) : Bool :=
  v.major > current.major || (v.major = current.major && v.minor > current.minor) ||
    (v.major = current.major && v.minor = current.minor && v.patch > current.patch) ||
    (!current.prerelease.isEmpty && v.major = current.major && v.minor = current.minor &&
      v.patch = current.patch)

/-- `orderBy('v.major', 'desc').orderBy('v.minor', 'desc').orderBy('v.patch', 'desc')` -/
def byVersion (x : Artifact × Version) : Core := x.2.core

/-- The same, then `orderBy('artifacts.id', 'asc')`. -/
def byVersionAndId (x : Artifact × Version) : Core ×ₗ Idᵒᵈ :=
  toLex (x.2.core, OrderDual.toDual x.1.id)

/-- `checkForUpdate` -/
def checkForUpdate (semver : SemverPackage) (t : Tables) (platform arch version channel : String)
    (softwareSlug : Option String) : Except UpdaterError (Option LoadedArtifact) :=
  match semver.parse version with
  | none => .error (.error "Invalid semantic version.")
  | some current => do
    let software ← resolveSoftware t softwareSlug
    match t.platformByName platform, t.architectureByName arch with
    | some platformRow, some architectureRow =>
      if ¬current.Fits then throw .outOfRange
      let rows := (targetQuery t software.id platformRow.id architectureRow.id channel).filter
        fun x => isNewer current x.2
      return (orderByDesc byVersion rows).head?.map fun x => t.load x.1
    | _, _ => throw (.unsupportedReleaseTarget "Platform or architecture not supported.")

/-- `getLatest` -/
def getLatest (t : Tables) (platform arch channel : String) (softwareSlug : Option String) :
    Except UpdaterError (Option LoadedArtifact) := do
  let software ← resolveSoftware t softwareSlug
  match t.platformByName platform, t.architectureByName arch with
  | some platformRow, some architectureRow =>
    let rows := targetQuery t software.id platformRow.id architectureRow.id channel
    return (orderByDesc byVersion rows).head?.map fun x => t.load x.1
  | _, _ => return none

/-- `pagination` -/
structure Pagination where
  total : ℕ
  page : ℕ
  limit : ℕ
  totalPages : ℕ
  deriving DecidableEq, Repr

/-- What `getReleases` returns. -/
structure Releases where
  results : List LoadedArtifact
  pagination : Pagination
  deriving DecidableEq, Repr

/-- `getReleases` -/
def getReleases (t : Tables) (platform arch channel : String) (limit page : ℕ)
    (softwareSlug : Option String) : Except UpdaterError Releases := do
  let software ← resolveSoftware t softwareSlug
  match t.platformByName platform, t.architectureByName arch with
  | some platformRow, some architectureRow =>
    let rows := targetQuery t software.id platformRow.id architectureRow.id channel
    let results := (Queries.page limit (orderByDesc byVersionAndId rows) page).map fun x =>
      t.load x.1
    return {
      results
      pagination := {
        total := rows.length, page, limit, totalPages := Queries.totalPages rows.length limit } }
  | _, _ => throw (.error "Platform or architecture not supported.")

/-- `recordAndStream`, up to its call of the storage: the artifact, and where it is stored. -/
def artifactToStream (t : Tables) (artifactId : Id) (softwareSlug : Option String) :
    Except UpdaterError (LoadedArtifact × StorageProvider) := do
  let software ← resolveSoftware t softwareSlug
  match t.findPublicById artifactId (some software.id) with
  | none => throw (.publicArtifactNotFound "Public artifact not found.")
  | some (_, none) => throw (.artifactStorage "Artifact storage provider is unavailable.")
  | some (artifact, some storageProvider) => return (artifact, storageProvider)

end UpdaterService

/-! ## The controller -/

namespace UpdaterController

/-- What the endpoints read of a request. -/
structure Query where
  platform : Input
  arch : Input
  channel : Input
  version : Input
  currentVersion : Input
  deriving DecidableEq, Repr

/-- `CHANNELS` -/
def channels : List String := ["dev", "staging", "beta", "stable"]

/-- `readText`; `null` and `undefined` are one. -/
def readText : Input → Option String
  | some (.str value) =>
    let normalized := Js.trim value
    if normalized = "" ∨ 100 < Js.length normalized then none else some normalized
  | _ => none

/-- `/^[a-z0-9_-]+$/i` -/
def isTargetName (s : String) : Bool :=
  s ≠ "" && s.toList.all fun c => c.isAlphanum || c = '_' || c = '-'

/-- The context of a release. -/
structure ReleaseContext where
  platform : String
  arch : String
  channel : String
  deriving DecidableEq, Repr

/-- `releaseContext` -/
def releaseContext (request : Query) : Option ReleaseContext :=
  match readText request.platform, readText request.arch,
    readText (some (request.channel.getD (.str "stable"))) with
  | some platform, some arch, some channel =>
    if isTargetName platform && isTargetName arch && channels.contains channel then
      some { platform, arch, channel }
    else none
  | _, _, _ => none

/-- An answer: an error with its status code, no update, or a release with its envelope. The other
members of an answer are columns of the release. -/
inductive Answer
  | error (status : ℕ) (error : String)
  | noUpdate
  | update (update : LoadedArtifact) (signedManifest : Option OtaSignatureEnvelope)
  | latest (artifact : LoadedArtifact) (hasUpdate : Bool)
      (signedManifest : Option OtaSignatureEnvelope)
  deriving DecidableEq, Repr

/-- The envelope of a release, whose version, platform and architecture the answer reads. -/
def signedManifest (a : LoadedArtifact) : Except UpdaterError (Option OtaSignatureEnvelope) :=
  (createOtaSignatureEnvelope a).mapError .error

/-- `check` -/
def check (semver : SemverPackage) (t : Tables) (request : Query) (slug : Option String) :
    Except UpdaterError Answer :=
  let invalid := Answer.error 400 "Invalid platform, arch, channel, or version."
  match releaseContext request, readText request.version with
  | some context, some version =>
    if semver.valid version = false then .ok invalid
    else
      match UpdaterService.checkForUpdate semver t context.platform context.arch version
        context.channel slug with
      | .ok none => .ok .noUpdate
      | .ok (some update) =>
        if update.version.isNone then .error .typeError
        else (signedManifest update).map (.update update)
      | .error (.unsupportedReleaseTarget _) =>
        .ok (.error 404 "Platform or architecture not supported.")
      | .error (.publicSoftwareNotFound _) => .ok (.error 404 "Software not found.")
      | .error e => .error e
  | _, _ => .ok invalid

/-- `latest` -/
def latest (semver : SemverPackage) (t : Tables) (request : Query) (slug : Option String) :
    Except UpdaterError Answer :=
  let invalid := Answer.error 400 "Invalid platform, arch, channel, or currentVersion."
  let given := request.currentVersion ≠ none ∧ request.currentVersion ≠ some (.str "")
  let currentVersion := if given then readText request.currentVersion else none
  match releaseContext request with
  | none => .ok invalid
  | some context =>
    if given ∧ (currentVersion.any semver.valid) = false then .ok invalid
    else
      match UpdaterService.getLatest t context.platform context.arch context.channel slug with
      | .error (.publicSoftwareNotFound _) => .ok (.error 404 "Software not found.")
      | .error e => .error e
      | .ok none => .ok (.error 404 "No releases found for the specified platform context.")
      | .ok (some artifact) =>
        match artifact.version, artifact.platform, artifact.architecture with
        | some ⟨version, _⟩, some _, some _ =>
          let hasUpdate := match currentVersion with
            | some currentVersion => semver.gt version.number currentVersion
            | none => true
          (signedManifest artifact).map (.latest artifact hasUpdate)
        | _, _, _ => .error .typeError

end UpdaterController

end Reeva
