import Reeva.Cms.SoftwareService

/-!
# The version service

The requests of `VersionService` that change versions, statement by statement, with the checks of
their fields.
-/

open Interleaving ReadCommitted

namespace Reeva

/-- `a || b` of two values. -/
def orInput (a b : Input) : Input := if a.any Js.truthy then a else b

/-- The fields of a version form. -/
structure VersionInput where
  softwareId : Input
  major : Input
  minor : Input
  patch : Input
  codename : Input
  changelogs : Input
  changelog : Input
  isActive : Input
  releaseDate : Input

namespace VersionService

open Cms

/-- `parsePart`: the text of a whole number of at most nine digits. -/
def parsePart : Input → Option ℕ
  | some (.str s) =>
    if s.toList ≠ [] ∧ s.toList.length ≤ 9 ∧ s.toList.all Char.isDigit then
      some (Nat.ofDigitChars 10 s.toList 0)
    else none
  | some j =>
    match Js.integer? j with
    | some n => if 0 ≤ n ∧ n ≤ 999999999 then some n.toNat else none
    | none => none
  | none => none

/-- `parseVersionParts` -/
def parseVersionParts (data : VersionInput) : Except String (ℕ × ℕ × ℕ) :=
  match parsePart data.major, parsePart data.minor, parsePart data.patch with
  | some major, some minor, some patch => .ok (major, minor, patch)
  | _, _, _ =>
    .error "Version parts must be non-negative whole numbers with at most nine digits."

/-- `parseCodename` -/
def parseCodename : Input → Except String (Option String)
  | none | some .null | some (.str "") => .ok none
  | some (.str value) =>
    if 100 < Js.length value then .error "Codename must be 100 characters or fewer."
    else .ok (if Js.trim value = "" then none else some (Js.trim value))
  | some _ => .error "Codename must be 100 characters or fewer."

/-- `parseChangelog` -/
def parseChangelog : Input → Except String (Option String)
  | none | some .null | some (.str "") => .ok none
  | some (.str value) =>
    if 20000 < Js.length value then .error "Changelog must be 20,000 characters or fewer."
    else .ok (some value)
  | some _ => .error "Changelog must be 20,000 characters or fewer."

/-- `parseReleaseDate` -/
def parseReleaseDate (node : Node) : Input → Except String (Option String)
  | none | some .null | some (.str "") => .ok none
  | some (.str value) =>
    if node.toISODate value ≠ some value then .error "Release date must use YYYY-MM-DD format."
    else .ok (some value)
  | some _ => .error "Release date is invalid."

/-- `validateAndCheckDuplicate` -/
def validateAndCheckDuplicate (node : Node) (vString : String) (major minor patch : ℕ)
    (softwareId : Id) (excludeId : Option Id) : Cms Unit := do
  refuse (node.semverValid vString = false) ("Invalid semantic version number: " ++ vString ++ ".")
  let existing ← select fun t => t.versions.any fun v =>
    v.major = major && v.minor = minor && v.patch = patch && v.softwareId = softwareId &&
      v.deletedAt.isNone && some v.id ≠ excludeId
  refuse (existing = true) ("Version " ++ vString ++ " already exists.")

/-- `` `${major}.${minor}.${patch}` `` -/
def versionString (major minor patch : ℕ) : String :=
  toString major ++ "." ++ toString minor ++ "." ++ toString patch

/-- `createVersion` -/
def createVersion (node : Node) (data : VersionInput) : Cms Version := do
  match data.softwareId with
  | some (.str softwareId) => do
    let software ← findSoftware softwareId
    refuse (software.isActive = false) "Cannot add versions to inactive software."
    let (major, minor, patch) ← orThrow (parseVersionParts data)
    validateAndCheckDuplicate node (versionString major minor patch) major minor patch software.id
      none
    let codename ← orThrow (parseCodename data.codename)
    let changelog ← orThrow (parseChangelog (orInput data.changelogs data.changelog))
    let releaseDate ← orThrow (parseReleaseDate node data.releaseDate)
    let id ← call .randomUuid
    let row : Version :=
      { id, softwareId := software.id, major, minor, patch, codename, changelog
        isActive := data.isActive = some (.str "on"), releaseDate, deletedAt := none }
    let _ ← exec (.insertVersion row)
    return row
  | _ => raise "A software product is required."

/-- `updateVersion` -/
def updateVersion (node : Node) (id : Id) (data : VersionInput) : Cms Version := do
  let ⟨version, _⟩ ← findVersion id
  let (major, minor, patch) ← orThrow (parseVersionParts data)
  validateAndCheckDuplicate node (versionString major minor patch) major minor patch
    version.softwareId (some version.id)
  let nextCodename ← orThrow (parseCodename data.codename)
  let nextChangelog ← orThrow (parseChangelog (orInput data.changelogs data.changelog))
  let signedMetadataChanged : Bool :=
    version.major ≠ major || version.minor ≠ minor || version.patch ≠ patch ||
      version.codename ≠ nextCodename || version.changelog ≠ nextChangelog
  let releaseDate ← orThrow (parseReleaseDate node data.releaseDate)
  let updated : Version :=
    { version with
      major, minor, patch, codename := nextCodename, changelog := nextChangelog
      isActive := data.isActive = some (.str "on") || data.isActive = some (.bool true)
      releaseDate }
  let _ ← exec (.saveVersion version updated)
  if signedMetadataChanged then
    let _ ← exec (.updateArtifacts (fun _ a => a.versionId = version.id)
      fun a => { a with signature := none, signatureKeyId := none, signatureManifest := none })
    return updated
  else return updated

/-- `toggleVersion` -/
def toggleVersion (id : Id) : Cms Version := do
  let ⟨version, _⟩ ← findVersion id
  let toggled := { version with isActive := !version.isActive }
  let _ ← exec (.saveVersion version toggled)
  return toggled

/-- `deleteVersion` -/
def deleteVersion (id : Id) : Cms Version := do
  let ⟨version, _⟩ ← findVersion id
  let hasArtifacts ← select fun t =>
    t.artifacts.any fun a => a.versionId = version.id && a.deletedAt.isNone
  refuse (hasArtifacts = true)
    ("Cannot delete version because it has associated artifacts. " ++
      "Delete the artifacts first.")
  let now : ℕ ← call .now
  let deleted := { version with deletedAt := some now }
  let _ ← exec (.saveVersion version deleted)
  return version

end VersionService

end Reeva
