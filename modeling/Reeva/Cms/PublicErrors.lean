import Reeva.Cms.ReadEndpoints
import Reeva.Queries.Conditions

/-!
# What the public endpoints throw

The service signals a product or a target that it does not know in several ways, and binds the numbers
of a client's version in its query. `check_bindings_iff` says for which versions PostgreSQL accepts the
numbers, and `unknown_targets_iff` for which requests every endpoint answers where its target is
unknown.
-/

namespace Reeva

open Queries

namespace UpdaterService

/-! ## The numbers that are bound -/

/-- The condition of `checkForUpdate` on versions, as the query builder makes it. -/
def newerConditions (current : SemVer) : Conditions Version :=
  let same (column : Version → ℕ) (value : ℕ) : Condition Version := .compare column .eq value
  let query :=
    ((Conditions.andWhere [] (.compare Version.major .gt current.major)).orWhere
      (.group ((Conditions.andWhere [] (same Version.major current.major)).andWhere
        (.compare Version.minor .gt current.minor)))).orWhere
      (.group (((Conditions.andWhere [] (same Version.major current.major)).andWhere
        (same Version.minor current.minor)).andWhere (.compare Version.patch .gt current.patch)))
  if current.prerelease.isEmpty then query
  else
    query.orWhere (.group (((Conditions.andWhere [] (same Version.major current.major)).andWhere
      (same Version.minor current.minor)).andWhere (same Version.patch current.patch)))

/-- It selects what is newer. -/
theorem selects_newerConditions (current : SemVer) (v : Version) :
    (newerConditions current).selects v = isNewer current v := by
  unfold newerConditions isNewer
  cases hp : current.prerelease.isEmpty <;>
    simp [Conditions.andWhere, Conditions.orWhere, Conditions.selects, Condition.holds, holdsAll,
      holdsAny, Bool.or_assoc, Bool.and_assoc]

/-- The numbers that it binds are those of the client's version. -/
theorem mem_bindings_newerConditions {current : SemVer} {n : ℕ} :
    n ∈ bindingsAny (newerConditions current) ↔
      n = current.major ∨ n = current.minor ∨ n = current.patch := by
  unfold newerConditions
  cases hp : current.prerelease.isEmpty <;>
    simp [Conditions.andWhere, Conditions.orWhere, Condition.bindings, bindingsAll, bindingsAny] <;>
    tauto

/-- The integers that `checkForUpdate` binds: none where it does not come to its query. -/
def boundIntegers (semver : SemverPackage) (t : Tables) (platform arch version : String)
    (softwareSlug : Option String) : List ℕ :=
  match semver.parse version, resolveSoftware t softwareSlug, t.platformByName platform,
    t.architectureByName arch with
  | some current, .ok _, some _, some _ => bindingsAny (newerConditions current)
  | _, _, _, _ => []

/-- They fit their columns exactly where the version does. -/
theorem forall_mem_bindings_iff {current : SemVer} :
    (∀ n ∈ bindingsAny (newerConditions current), n ≤ maxInteger) ↔ current.Fits := by
  simp only [mem_bindings_newerConditions]
  constructor
  · exact fun h => ⟨h _ (.inl rfl), h _ (.inr (.inl rfl)), h _ (.inr (.inr rfl))⟩
  · rintro h n (rfl | rfl | rfl)
    · exact h.1
    · exact h.2.1
    · exact h.2.2

/-- What `resolveSoftware` throws. -/
theorem resolveSoftware_error {t : Tables} {slug : Option String} {e : UpdaterError}
    (h : resolveSoftware t slug = .error e) :
    e = .publicSoftwareNotFound "Software is not available." := by
  unfold resolveSoftware at h
  dsimp only at h
  split at h
  · cases h
  · exact (Except.error.inj h).symm

/-- Only a number that does not fit is out of range. -/
theorem checkForUpdate_ne_outOfRange {semver : SemverPackage} {t : Tables}
    {platform arch version channel : String} {slug : Option String}
    (h : ∀ current, semver.parse version = some current → current.Fits) :
    checkForUpdate semver t platform arch version channel slug ≠ .error .outOfRange := by
  unfold checkForUpdate
  cases hparse : semver.parse version with
  | none => exact fun h => by cases h
  | some current =>
    simp only [Bind.bind, Except.bind]
    cases hsoftware : resolveSoftware t slug with
    | error e =>
      obtain rfl := resolveSoftware_error hsoftware
      exact fun h => by cases h
    | ok software =>
      dsimp only
      split
      · rw [if_neg (not_not.mpr (h current hparse))]
        exact fun h => by cases h
      · exact fun h => by cases h

end UpdaterService

namespace UpdaterController

/-! ## Client versions -/

/-- `check` fails on a number only where the service does. -/
theorem check_ne_outOfRange {semver : SemverPackage} {t : Tables} {request : Query}
    {slug : Option String} {version : String} (hread : readText request.version = some version)
    (h : ∀ current, semver.parse version = some current → current.Fits) :
    check semver t request slug ≠ .error .outOfRange := by
  unfold check
  rw [hread]
  split
  · rename_i context version' hcontext hversion
    obtain rfl := Option.some.inj hversion
    split_ifs
    · exact fun h => by cases h
    · cases hupdate : UpdaterService.checkForUpdate semver t context.platform context.arch version
        context.channel slug with
      | ok update =>
        cases update with
        | none => exact fun h => by cases h
        | some update =>
          dsimp only
          split_ifs
          · exact fun h => by cases h
          · unfold signedManifest
            cases createOtaSignatureEnvelope update with
            | error e => exact fun h => by cases h
            | ok envelope => exact fun h => by cases h
      | error e =>
        have hne : UpdaterService.checkForUpdate semver t context.platform context.arch version
            context.channel slug ≠ .error .outOfRange :=
          UpdaterService.checkForUpdate_ne_outOfRange h
        rw [hupdate] at hne
        cases e with
        | outOfRange => exact absurd rfl hne
        | _ => exact fun h => by cases h
  · exact fun h => by cases h

/-- The request of a client on Windows. -/
def windowsRequest (version : String) : Query where
  platform := some (.str "windows")
  arch := some (.str "x64")
  channel := none
  version := some (.str version)
  currentVersion := none

/-- For a version that `check` accepts: the numbers that are bound fit their columns whatever is asked
for, and no request fails on a number, exactly where the version's numbers fit. -/
theorem check_bindings_iff {semver : SemverPackage} {raw version : String}
    (hread : readText (some (.str raw)) = some version) (hvalid : semver.valid version = true) :
    ((∀ t platform arch slug,
        ∀ n ∈ UpdaterService.boundIntegers semver t platform arch version slug, n ≤ maxInteger) ↔
      ∀ current, semver.parse version = some current → current.Fits) ∧
    ((∀ t (request : Query) slug, request.version = some (.str raw) →
        check semver t request slug ≠ .error .outOfRange) ↔
      ∀ current, semver.parse version = some current → current.Fits) := by
  have hsoftware : UpdaterService.resolveSoftware publicTables (some "p") =
      .ok { releaseSoftware with requireSignedUpdates := false } := by decide +kernel
  have hp : publicTables.platformByName "windows" = some ⟨"w", "windows", "Windows", none⟩ := rfl
  have hq : publicTables.architectureByName "x64" = some ⟨"x", "x64", "x64", none⟩ := rfl
  refine ⟨⟨fun h current hparse => ?_, fun h t platform arch slug => ?_⟩,
    ⟨fun h current hparse => ?_, fun h t request slug hversion => ?_⟩⟩
  · have hbound := h publicTables "windows" "x64" (some "p")
    simp only [UpdaterService.boundIntegers, hparse, hsoftware, hp, hq] at hbound
    exact UpdaterService.forall_mem_bindings_iff.mp hbound
  · unfold UpdaterService.boundIntegers
    split
    · rename_i current _ _ _ hparse _ _ _
      exact UpdaterService.forall_mem_bindings_iff.mpr (h current hparse)
    · exact fun n hn => by cases hn
  · by_contra hfits
    refine h publicTables (windowsRequest raw) (some "p") rfl ?_
    have hsame : releaseContext (windowsRequest raw) = releaseContext (windowsRequest "") := rfl
    have hcontext : releaseContext (windowsRequest "") = some ⟨"windows", "x64", "stable"⟩ := by
      decide +kernel
    unfold check
    rw [hsame, hcontext, show readText (windowsRequest raw).version = some version from hread]
    dsimp only
    rw [if_neg (by rw [hvalid]; decide)]
    have hthrows : UpdaterService.checkForUpdate semver publicTables "windows" "x64" version
        "stable" (some "p") = .error .outOfRange := by
      unfold UpdaterService.checkForUpdate
      simp only [hparse, hsoftware, hp, hq, hfits, Bind.bind, Except.bind]
      rfl
    rw [hthrows]
  · exact check_ne_outOfRange (by rw [hversion, hread]) h

/-- Version 1.2.3 of a client. -/
theorem check_bindings_example :
    ((∀ t platform arch slug,
        ∀ n ∈ UpdaterService.boundIntegers toySemver t platform arch "1.2.3" slug, n ≤ maxInteger) ↔
      ∀ current, toySemver.parse "1.2.3" = some current → current.Fits) ∧
    ((∀ t (request : Query) slug, request.version = some (.str " 1.2.3 ") →
        check toySemver t request slug ≠ .error .outOfRange) ↔
      ∀ current, toySemver.parse "1.2.3" = some current → current.Fits) :=
  check_bindings_iff (by decide +kernel) (by decide +kernel)

/-- A client of version 3000000000.0.0 is accepted, and its request fails on the number. -/
theorem check_outOfRange :
    readText (some (.str "3000000000.0.0")) = some "3000000000.0.0" ∧
      toySemver.valid "3000000000.0.0" = true ∧
      3000000000 ∈ UpdaterService.boundIntegers toySemver publicTables "windows" "x64"
        "3000000000.0.0" (some "p") ∧ maxInteger < 3000000000 ∧
      check toySemver publicTables (windowsRequest "3000000000.0.0") (some "p") =
        .error .outOfRange := by
  decide +kernel

/-! ## Unknown targets -/

/-- What the endpoint of the releases reads of a request. -/
structure PageQuery extends Query where
  page : Input
  limit : Input

/-- `positiveInteger` -/
def positiveInteger (value : Input) (fallback max : ℕ) : Option ℕ :=
  let parse (text : String) : Option ℕ :=
    let parsed := Nat.ofDigitChars 10 text.toList 0
    if text ≠ "" ∧ text.toList.all Char.isDigit = true ∧ 1 ≤ parsed ∧ parsed ≤ max then some parsed
    else none
  match value with
  | none | some (.str "") => some fallback
  | some (.str text) => parse text
  | some (.int n) => parse (Js.text (.int n))
  | some (.float m e) => parse (Js.text (.float m e))
  | some _ => none

/-- An answer of the endpoint of the releases: an error, or a page of releases with their envelopes. -/
inductive PageAnswer
  | error (status : ℕ) (error : String)
  | page (data : List (LoadedArtifact × Option OtaSignatureEnvelope))
      (pagination : UpdaterService.Pagination)
  deriving DecidableEq, Repr

/-- A release of a page, whose relations the answer reads. -/
def pageEntry (artifact : LoadedArtifact) :
    Except UpdaterError (LoadedArtifact × Option OtaSignatureEnvelope) :=
  match artifact.version, artifact.platform, artifact.architecture with
  | some _, some _, some _ => (signedManifest artifact).map fun envelope => (artifact, envelope)
  | _, _, _ => .error .typeError

/-- What `releases` makes of a page, or of what its service throws. -/
def pageAnswer : Except UpdaterError UpdaterService.Releases → Except UpdaterError PageAnswer
  | .ok ⟨[], _⟩ => .ok (.error 404 "No releases found for the specified platform context.")
  | .ok ⟨results, pagination⟩ => (results.mapM pageEntry).map (.page · pagination)
  | .error (.unsupportedReleaseTarget _) =>
    .ok (.error 404 "Platform or architecture not supported.")
  | .error (.publicSoftwareNotFound _) => .ok (.error 404 "Software not found.")
  | .error e => .error e

/-- `releases` -/
def releases (t : Tables) (request : PageQuery) (slug : Option String) :
    Except UpdaterError PageAnswer :=
  match releaseContext request.toQuery, positiveInteger request.page 1 1000000,
    positiveInteger request.limit 20 100 with
  | some context, some page, some limit =>
    pageAnswer (UpdaterService.getReleases t context.platform context.arch context.channel limit page
      slug)
  | _, _, _ => .ok (.error 400 "Invalid platform, arch, channel, page, or limit.")

/-- A request with a well-formed platform, architecture, channel, versions and page. -/
structure WellFormed (semver : SemverPackage) (request : PageQuery) (context : ReleaseContext) :
    Prop where
  context : releaseContext request.toQuery = some context
  version : ∃ version, readText request.version = some version ∧ semver.valid version = true
  currentVersion : request.currentVersion = none ∨ request.currentVersion = some (.str "") ∨
    ∃ version, readText request.currentVersion = some version ∧ semver.valid version = true
  page : (positiveInteger request.page 1 1000000).isSome = true
  limit : (positiveInteger request.limit 20 100).isSome = true

/-- The product is available. -/
def Available (t : Tables) (slug : Option String) : Prop :=
  ∃ s, UpdaterService.resolveSoftware t slug = .ok s

/-- The platform and the architecture are registered. -/
def Registered (t : Tables) (context : ReleaseContext) : Prop :=
  (t.platformByName context.platform).isSome = true ∧
    (t.architectureByName context.arch).isSome = true

/-- Every endpoint answers with status 404. -/
def Answered (semver : SemverPackage) (t : Tables) (request : PageQuery) (slug : Option String) :
    Prop :=
  (∃ message, check semver t request.toQuery slug = .ok (.error 404 message)) ∧
    (∃ message, latest semver t request.toQuery slug = .ok (.error 404 message)) ∧
    ∃ message, releases t request slug = .ok (.error 404 message)

section unknown

variable {semver : SemverPackage} {t : Tables} {request : PageQuery} {context : ReleaseContext}
  {slug : Option String}

/-- `check` answers what its service throws. -/
theorem check_of_error (hrequest : WellFormed semver request context) {e : UpdaterError}
    {message : String}
    (hthrows : ∀ version, semver.valid version = true → UpdaterService.checkForUpdate semver t
      context.platform context.arch version context.channel slug = .error e)
    (he : (∃ m, e = .unsupportedReleaseTarget m ∧
        message = "Platform or architecture not supported.") ∨
      ∃ m, e = .publicSoftwareNotFound m ∧ message = "Software not found.") :
    check semver t request.toQuery slug = .ok (.error 404 message) := by
  obtain ⟨version, hread, hvalid⟩ := hrequest.version
  unfold check
  rw [hrequest.context, hread]
  dsimp only
  rw [if_neg (by rw [hvalid]; decide), hthrows version hvalid]
  obtain ⟨m, rfl, rfl⟩ | ⟨m, rfl, rfl⟩ := he
  · rfl
  · rfl

/-- `latest` passes its checks. -/
theorem latest_of_wellFormed (hrequest : WellFormed semver request context) {message : String}
    (h : UpdaterService.getLatest t context.platform context.arch context.channel slug = .ok none ∧
        message = "No releases found for the specified platform context." ∨
      (∃ m, UpdaterService.getLatest t context.platform context.arch context.channel slug =
        .error (.publicSoftwareNotFound m)) ∧ message = "Software not found.") :
    latest semver t request.toQuery slug = .ok (.error 404 message) := by
  unfold latest
  rw [hrequest.context]
  dsimp only
  rw [if_neg ?_]
  · obtain ⟨hnone, rfl⟩ | ⟨⟨m, hthrows⟩, rfl⟩ := h
    · rw [hnone]
    · rw [hthrows]
  · rintro ⟨hgiven, hinvalid⟩
    rw [if_pos hgiven] at hinvalid
    obtain hnone | hempty | ⟨version, hread, hvalid⟩ := hrequest.currentVersion
    · exact hgiven.1 hnone
    · exact hgiven.2 hempty
    · rw [hread, Option.any_some, hvalid] at hinvalid
      cases hinvalid

/-- `releases` passes its checks. -/
theorem releases_of_wellFormed (hrequest : WellFormed semver request context) :
    ∃ page limit, releases t request slug = pageAnswer
      (UpdaterService.getReleases t context.platform context.arch context.channel limit page slug) := by
  obtain ⟨page, hpage⟩ := Option.isSome_iff_exists.mp hrequest.page
  obtain ⟨limit, hlimit⟩ := Option.isSome_iff_exists.mp hrequest.limit
  refine ⟨page, limit, ?_⟩
  unfold releases
  rw [hrequest.context, hpage, hlimit]

/-- A product that is not available is answered. -/
theorem answered_of_unavailable (hsemver : semver.Documented)
    (hrequest : WellFormed semver request context) (h : ¬Available t slug) :
    Answered semver t request slug := by
  obtain ⟨e, herror⟩ : ∃ e, UpdaterService.resolveSoftware t slug = .error e := by
    cases hs : UpdaterService.resolveSoftware t slug with
    | ok s => exact absurd ⟨s, hs⟩ h
    | error e => exact ⟨e, rfl⟩
  obtain rfl := UpdaterService.resolveSoftware_error herror
  refine ⟨⟨_, check_of_error hrequest (fun version hvalid => ?_)
    (.inr ⟨"Software is not available.", rfl, rfl⟩)⟩,
    ⟨_, latest_of_wellFormed hrequest (.inr ⟨⟨"Software is not available.", ?_⟩, rfl⟩)⟩, ?_⟩
  · rw [hsemver.valid_eq] at hvalid
    obtain ⟨current, hparse⟩ := Option.isSome_iff_exists.mp hvalid
    unfold UpdaterService.checkForUpdate
    rw [hparse, herror]
    rfl
  · unfold UpdaterService.getLatest
    rw [herror]
    rfl
  · obtain ⟨page, limit, hreleases⟩ := @releases_of_wellFormed semver t request context slug hrequest
    refine ⟨"Software not found.", hreleases.trans ?_⟩
    unfold UpdaterService.getReleases
    rw [herror]
    rfl

/-- A target that is not registered is answered by two of the endpoints, and thrown by the third. -/
theorem unregistered_answers (hsemver : semver.Documented)
    (hrequest : WellFormed semver request context) (h : Available t slug)
    (hregistered : ¬Registered t context) :
    check semver t request.toQuery slug =
        .ok (.error 404 "Platform or architecture not supported.") ∧
      latest semver t request.toQuery slug =
        .ok (.error 404 "No releases found for the specified platform context.") ∧
      releases t request slug = .error (.error "Platform or architecture not supported.") := by
  obtain ⟨s, hs⟩ := h
  have htarget : t.platformByName context.platform = none ∨
      t.architectureByName context.arch = none := by
    by_contra hboth
    rw [not_or] at hboth
    exact hregistered ⟨Option.isSome_iff_ne_none.mpr hboth.1, Option.isSome_iff_ne_none.mpr hboth.2⟩
  refine ⟨check_of_error hrequest (fun version hvalid => ?_)
      (.inl ⟨"Platform or architecture not supported.", rfl, rfl⟩),
    latest_of_wellFormed hrequest (.inl ⟨?_, rfl⟩), ?_⟩
  · rw [hsemver.valid_eq] at hvalid
    obtain ⟨current, hparse⟩ := Option.isSome_iff_exists.mp hvalid
    unfold UpdaterService.checkForUpdate
    rw [hparse, hs]
    obtain hp | hq := htarget
    · rw [hp]
      rfl
    · rw [hq]
      cases t.platformByName context.platform <;> rfl
  · unfold UpdaterService.getLatest
    rw [hs]
    obtain hp | hq := htarget
    · rw [hp]
      rfl
    · rw [hq]
      cases t.platformByName context.platform <;> rfl
  · obtain ⟨page, limit, hreleases⟩ := @releases_of_wellFormed semver t request context slug hrequest
    refine hreleases.trans ?_
    unfold UpdaterService.getReleases
    rw [hs]
    obtain hp | hq := htarget
    · rw [hp]
      rfl
    · rw [hq]
      cases t.platformByName context.platform <;> rfl

end unknown

/-- Every well-formed request for an unknown product or target is answered with status 404, and none
fails, exactly where the product is not available or the target is registered. -/
theorem unknown_targets_iff {semver : SemverPackage} (hsemver : semver.Documented) (t : Tables)
    (slug : Option String) {request : PageQuery} {context : ReleaseContext}
    (hrequest : WellFormed semver request context) :
    (¬Available t slug ∨ ¬Registered t context → Answered semver t request slug) ↔
      ¬Available t slug ∨ Registered t context := by
  by_cases havailable : Available t slug
  · by_cases hregistered : Registered t context
    · simp only [havailable, hregistered, not_true_eq_false, or_self, false_imp_iff, or_true]
    · obtain ⟨-, -, hthrown⟩ := unregistered_answers hsemver hrequest havailable hregistered
      simp only [havailable, hregistered, not_true_eq_false, not_false_eq_true, or_true, forall_const,
        or_self, iff_false]
      rintro ⟨-, -, message, hanswer⟩
      rw [hthrown] at hanswer
      cases hanswer
  · simp only [havailable, not_false_eq_true, true_or, forall_const, iff_true]
    exact answered_of_unavailable hsemver hrequest havailable

/-- A request for a platform. -/
def platformRequest (platform : String) : PageQuery where
  platform := some (.str platform)
  arch := some (.str "x64")
  channel := some (.str "dev")
  version := some (.str "0.9.0")
  currentVersion := none
  page := none
  limit := none

/-- The requests are well formed. -/
theorem wellFormed_platformRequest (platform : String)
    (h : releaseContext (platformRequest platform).toQuery = some ⟨platform, "x64", "dev"⟩) :
    WellFormed toySemver (platformRequest platform) ⟨platform, "x64", "dev"⟩ where
  context := h
  version := ⟨"0.9.0", show readText (some (.str "0.9.0")) = _ by decide +kernel, by decide +kernel⟩
  currentVersion := .inl rfl
  page := rfl
  limit := rfl

/-- A request for a product that there is not. -/
theorem unknown_targets_example :
    (¬Available publicTables (some "q") ∨ ¬Registered publicTables ⟨"solaris", "x64", "dev"⟩ →
      Answered toySemver publicTables (platformRequest "solaris") (some "q")) ↔
      ¬Available publicTables (some "q") ∨ Registered publicTables ⟨"solaris", "x64", "dev"⟩ :=
  unknown_targets_iff toySemver_documented publicTables (some "q")
    (wellFormed_platformRequest "solaris" (by decide +kernel))

/-- A request for an unknown platform of an available product: the endpoint of the releases throws. -/
theorem unknown_platform_thrown :
    WellFormed toySemver (platformRequest "solaris") ⟨"solaris", "x64", "dev"⟩ ∧
      Available publicTables (some "p") ∧ ¬Registered publicTables ⟨"solaris", "x64", "dev"⟩ ∧
      releases publicTables (platformRequest "solaris") (some "p") =
        .error (.error "Platform or architecture not supported.") :=
  ⟨wellFormed_platformRequest "solaris" (by decide +kernel), ⟨_, rfl⟩, by
    unfold Registered
    decide +kernel, by decide +kernel⟩

end UpdaterController

end Reeva
