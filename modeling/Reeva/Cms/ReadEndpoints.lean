import Reeva.Cms.SignedOnly
import Reeva.Cms.UpdaterService
import Reeva.Codec.JsonRoundTrip

/-!
# The read endpoints agree

The endpoints select from the same artifacts: the public artifacts of a product for a target and a
channel. The unique indexes leave no two of them with the same version, so that their order by version
is a function of the database, whatever comes after the version in the order; and the condition of
`checkForUpdate` is precedence, which holds of the newest artifact when it holds of any.
-/

namespace Reeva

open Queries

/-! ## Versions -/

/-- The order by the first number that differs, number by number. -/
theorem core_lt_iff {a b c a' b' c' : ℕ} :
    (toLex (a, toLex (b, c)) : Core) < toLex (a', toLex (b', c')) ↔
      a < a' ∨ a = a' ∧ (b < b' ∨ b = b' ∧ c < c') := by
  simp only [Prod.Lex.toLex_lt_toLex]

/-- The numbers are the same one by one. -/
theorem core_eq_iff {a b c a' b' c' : ℕ} :
    (toLex (a, toLex (b, c)) : Core) = toLex (a', toLex (b', c')) ↔ a = a' ∧ b = b' ∧ c = c' := by
  simp only [toLex_inj, Prod.mk.injEq]

/-- The semantic version of a row. -/
def Version.semver (v : Version) : SemVer := ⟨v.major, v.minor, v.patch, []⟩

/-- The condition of `checkForUpdate` is precedence. -/
theorem isNewer_iff {current : SemVer} {v : Version} :
    UpdaterService.isNewer current v = true ↔ current.Precedes v.semver := by
  simp only [UpdaterService.isNewer, SemVer.Precedes, Version.semver, SemVer.core, core_lt_iff,
    core_eq_iff, Bool.or_eq_true, Bool.and_eq_true, decide_eq_true_eq, gt_iff_lt,
    Bool.not_eq_true', List.isEmpty_eq_false_iff, true_or, and_true]
  by_cases hp : current.prerelease = []
  · simp only [hp, ne_eq, not_true_eq_false, false_and, and_false, or_false]
    omega
  · simp only [hp, ne_eq, not_false_eq_true, true_and, and_true]
    omega

/-- What is newer than a version precedes nothing that is older. -/
theorem isNewer_of_lt {current : SemVer} {v w : Version} (h : v.core < w.core)
    (hn : UpdaterService.isNewer current v = true) : UpdaterService.isNewer current w = true := by
  rw [isNewer_iff] at hn ⊢
  rcases hn with hn | ⟨hn, -, -⟩
  · exact .inl (hn.trans h)
  · exact .inl (hn.trans_lt h)

namespace UpdaterService

/-! ## The selection -/

section selection

variable {t : Tables} {softwareId platformId architectureId : Id} {channel : String}
  {x y : Artifact × Version}

/-- The rows of the selection. -/
theorem mem_targetQuery :
    x ∈ targetQuery t softwareId platformId architectureId channel ↔
      x.1 ∈ publicQuery t (some softwareId) ∧ (x.2 ∈ t.versions ∧ x.2.id = x.1.versionId) ∧
        x.1.platformId = platformId ∧ x.1.architectureId = architectureId ∧
        x.1.channel = channel := by
  obtain ⟨a, v⟩ := x
  simp only [targetQuery, Tables.joinVersions, List.mem_filter, List.mem_flatMap, List.mem_map,
    decide_eq_true_eq, Prod.mk.injEq, Bool.and_eq_true, and_assoc]
  constructor
  · rintro ⟨⟨b, hb, w, hw, hid, rfl, rfl⟩, h⟩
    exact ⟨hb, hw, hid, h⟩
  · rintro ⟨ha, hv, hid, h⟩
    exact ⟨⟨a, ha, v, hv, hid, rfl, rfl⟩, h⟩

/-- No row comes twice. -/
theorem nodup_targetQuery (hv : t.Valid) :
    (targetQuery t softwareId platformId architectureId channel).Nodup := by
  refine List.Nodup.filter _ (List.nodup_flatMap.mpr ⟨fun a _ => ?_, ?_⟩)
  · exact (hv.versionIds.of_map.filter _).map fun v w h => (Prod.mk.inj h).2
  · refine (hv.artifactIds.of_map.filter _).imp fun {a b} hab => ?_
    intro x hxa hxb
    obtain ⟨v, -, rfl⟩ := List.mem_map.mp hxa
    obtain ⟨w, -, hw⟩ := List.mem_map.mp hxb
    exact hab (Prod.mk.inj hw).1.symm

/-- A row of the selection is of the selected product, and has live relations. -/
theorem related_of_mem (hv : t.Valid)
    (hx : x ∈ targetQuery t softwareId platformId architectureId channel) :
    x.1 ∈ t.artifacts ∧ x.2.softwareId = softwareId ∧
      ∃ s p q, Admitted t x.1 x.2 s p q := by
  obtain ⟨hpub, ⟨hvm, hid⟩, -⟩ := mem_targetQuery.mp hx
  obtain ⟨ha, v, s, p, q, hadm⟩ := admitted_of_public hv hpub
  have hv' := List.find?_some hadm.version
  simp only [Bool.and_eq_true, decide_eq_true_eq] at hv'
  obtain rfl := List.inj_on_of_nodup_map hv.versionIds
    (List.mem_of_find?_eq_some hadm.version) hvm (hv'.1.trans hid.symm)
  refine ⟨ha, ?_, s, p, q, hadm⟩
  have hp := (List.mem_filter.mp hpub).2
  simp only [isPublic, Bool.and_eq_true, List.any_eq_true, decide_eq_true_eq, Option.isNone_some,
    Bool.false_or, Option.some.injEq] at hp
  obtain ⟨⟨⟨⟨⟨⟨-, w, hwm, s', -, hw⟩, -⟩, -⟩, -⟩, -⟩, -⟩ := hp
  obtain rfl := List.inj_on_of_nodup_map hv.versionIds hwm hvm
    (hw.1.1.1.1.1.2.trans hid.symm)
  exact hw.1.1.1.1.1.1.trans hw.2.symm

/-- Its loaded form has the version of the row. -/
theorem load_of_mem (hv : t.Valid)
    (hx : x ∈ targetQuery t softwareId platformId architectureId channel) :
    ∃ s p q, (t.load x.1).version = some ⟨x.2, some s⟩ ∧ (t.load x.1).platform = some p ∧
      (t.load x.1).architecture = some q := by
  obtain ⟨-, -, s, p, q, hadm⟩ := related_of_mem hv hx
  exact ⟨s, p, q, by simp [Tables.load, Tables.loadVersion, hadm.version, hadm.software],
    hadm.platform, hadm.architecture⟩

/-- The unique indexes leave no two rows with the same version. -/
theorem distinguishes_targetQuery (hv : t.Valid) :
    Distinguishes byVersion (targetQuery t softwareId platformId architectureId channel) := by
  rintro ⟨a, v⟩ hx ⟨b, w⟩ hy hcore
  obtain ⟨ha, hvs, -⟩ := related_of_mem hv hx
  obtain ⟨hb, hws, -⟩ := related_of_mem hv hy
  obtain ⟨-, ⟨hvm, hva⟩, hpa, hqa, hca⟩ := mem_targetQuery.mp hx
  obtain ⟨-, ⟨hwm, hwb⟩, hpb, hqb, hcb⟩ := mem_targetQuery.mp hy
  obtain ⟨hmajor, hminor, hpatch⟩ := core_eq_iff.mp hcore
  dsimp only at *
  obtain rfl : v = w := List.inj_on_of_nodup_map hv.semvers hvm hwm (by
    simp only [hvs, hws, hmajor, hminor, hpatch])
  obtain rfl : a = b := List.inj_on_of_nodup_map hv.systemChannels ha hb (by
    simp only [← hva, ← hwb, hpa, hpb, hqa, hqb, hca, hcb])
  rfl

/-- The selection, the newest first. -/
def releases (t : Tables) (softwareId platformId architectureId : Id) (channel : String) :
    List (Artifact × Version) :=
  orderByDesc byVersion (targetQuery t softwareId platformId architectureId channel)

/-- The versions strictly descend. -/
theorem pairwise_releases (hv : t.Valid) :
    (releases t softwareId platformId architectureId channel).Pairwise (Before byVersion) :=
  pairwise_before_orderByDesc (distinguishes_targetQuery hv) (nodup_targetQuery hv)

/-- Every artifact comes once. -/
theorem nodup_artifacts (hv : t.Valid) :
    ((releases t softwareId platformId architectureId channel).map (·.1)).Nodup := by
  refine List.Nodup.map_on (fun x hx y hy hxy => ?_)
    ((orderByDesc_perm _ _).nodup_iff.mpr (nodup_targetQuery hv))
  obtain ⟨-, ⟨hxm, hxv⟩, -⟩ := mem_targetQuery.mp (mem_orderByDesc.mp hx)
  obtain ⟨-, ⟨hym, hyv⟩, -⟩ := mem_targetQuery.mp (mem_orderByDesc.mp hy)
  refine Prod.ext hxy (List.inj_on_of_nodup_map hv.versionIds hxm hym ?_)
  rw [hxv, hyv, hxy]

/-- The artifacts are those that the public query returns for the target and the channel. -/
theorem mem_artifacts (hv : t.Valid) {a : Artifact} :
    a ∈ (releases t softwareId platformId architectureId channel).map (·.1) ↔
      a ∈ publicQuery t (some softwareId) ∧ a.platformId = platformId ∧
        a.architectureId = architectureId ∧ a.channel = channel := by
  rw [List.mem_map]
  constructor
  · rintro ⟨x, hx, rfl⟩
    obtain ⟨hpub, -, h⟩ := mem_targetQuery.mp (mem_orderByDesc.mp hx)
    exact ⟨hpub, h⟩
  · rintro ⟨hpub, h⟩
    obtain ⟨-, v, _, _, _, hadm⟩ := admitted_of_public hv hpub
    have hid := List.find?_some hadm.version
    simp only [Bool.and_eq_true, decide_eq_true_eq] at hid
    exact ⟨(a, v), mem_orderByDesc.mpr (mem_targetQuery.mpr
      ⟨hpub, ⟨List.mem_of_find?_eq_some hadm.version, hid.1⟩, h⟩), rfl⟩

/-- The key of an artifact has no say in the order. -/
theorem orderByDesc_byVersionAndId (hv : t.Valid) :
    orderByDesc byVersionAndId (targetQuery t softwareId platformId architectureId channel) =
      releases t softwareId platformId architectureId channel := by
  refine orderByDesc_eq (distinguishes_targetQuery hv) (nodup_targetQuery hv)
    (nodup_targetQuery hv) (fun _ => Iff.rfl) fun x _ y _ hlt => ?_
  exact Prod.Lex.toLex_lt_toLex.mpr (.inl hlt)

/-- The newest artifact that is newer than a version is the newest one, or there is none. -/
theorem head?_newer (hv : t.Valid) (current : SemVer) :
    (orderByDesc byVersion ((targetQuery t softwareId platformId architectureId channel).filter
      fun x => isNewer current x.2)).head? =
      (releases t softwareId platformId architectureId channel).head?.filter
        fun x => isNewer current x.2 := by
  rw [orderByDesc_filter (distinguishes_targetQuery hv) (nodup_targetQuery hv)]
  exact head?_filter ((pairwise_releases hv).imp fun {x y} h => isNewer_of_lt h)

end selection

/-! ## The endpoints -/

/-- What a product is asked for by: its slug, or nothing when it is the default product. -/
def Addresses (slug : Option String) (s : Software) : Prop :=
  (slug = some s.slug ∧ s.slug ≠ "") ∨ (slug.filter (· ≠ "") = none ∧ s.isDefault = true)

/-- An active product is found by what it is asked for by. -/
theorem resolveSoftware_of_addresses {t : Tables} (hv : t.Valid) {s : Software}
    (hs : s ∈ t.software) (hactive : s.isActive = true) {slug : Option String}
    (h : Addresses slug s) : resolveSoftware t slug = .ok s := by
  rcases h with ⟨rfl, hne⟩ | ⟨hnone, hdefault⟩
  · have hfind : t.findActiveBySlug s.slug = some s :=
      find?_of_nodup hv.slugs hs (by simp [hactive]) fun x hx => by
        simp only [Bool.and_eq_true, decide_eq_true_eq] at hx
        exact hx.1
    simp [resolveSoftware, Option.filter, hne, hfind]
  · have hmem : s ∈ t.software.filter (·.isDefault) := List.mem_filter.mpr ⟨hs, hdefault⟩
    have hfind : t.findActiveDefault = some s := by
      cases hf : t.findActiveDefault with
      | none => exact absurd (List.find?_eq_none.mp hf s hs) (by simp [hdefault, hactive])
      | some s' =>
        have hs' := List.find?_some hf
        simp only [Bool.and_eq_true] at hs'
        have hmem' : s' ∈ t.software.filter (·.isDefault) :=
          List.mem_filter.mpr ⟨List.mem_of_find?_eq_some hf, hs'.1⟩
        rw [eq_of_length_le_one hv.softwareDefault hmem' hmem]
    simp only [resolveSoftware, hnone, hfind]

/-- The pages of releases, one after another. -/
def allReleases (t : Tables) (platform arch channel : String) (limit : ℕ)
    (softwareSlug : Option String) : Except UpdaterError (List LoadedArtifact) := do
  let first ← getReleases t platform arch channel limit 1 softwareSlug
  let pages ← (List.range first.pagination.totalPages).mapM fun k =>
    getReleases t platform arch channel limit (k + 1) softwareSlug
  return pages.flatMap (·.results)

section endpoints

variable {t : Tables} {s : Software} {slug : Option String} {platform arch : String}
  {p q : Target} (channel : String)

/-- The newest release, once the product and the target are found. -/
theorem getLatest_eq (hs : resolveSoftware t slug = .ok s)
    (hp : t.platformByName platform = some p) (hq : t.architectureByName arch = some q) :
    getLatest t platform arch channel slug =
      .ok ((releases t s.id p.id q.id channel).head?.map fun x => t.load x.1) := by
  simp only [getLatest, hs, hp, hq]
  rfl

/-- A page of releases, once the product and the target are found. -/
theorem getReleases_eq (hv : t.Valid) (hs : resolveSoftware t slug = .ok s)
    (hp : t.platformByName platform = some p) (hq : t.architectureByName arch = some q)
    (limit page : ℕ) :
    getReleases t platform arch channel limit page slug = .ok {
      results := (Queries.page limit (releases t s.id p.id q.id channel) page).map fun x =>
        t.load x.1
      pagination := {
        total := (releases t s.id p.id q.id channel).length, page, limit
        totalPages :=
          Queries.totalPages (releases t s.id p.id q.id channel).length limit } } := by
  simp only [getReleases, hs, hp, hq, orderByDesc_byVersionAndId hv]
  rw [releases, length_orderByDesc]
  rfl

/-- All pages together are all releases. -/
theorem allReleases_eq (hv : t.Valid) (hs : resolveSoftware t slug = .ok s)
    (hp : t.platformByName platform = some p) (hq : t.architectureByName arch = some q)
    {limit : ℕ} (hlimit : 1 ≤ limit) :
    allReleases t platform arch channel limit slug =
      .ok ((releases t s.id p.id q.id channel).map fun x => t.load x.1) := by
  simp only [allReleases, getReleases_eq channel hv hs hp hq]
  change (List.mapM (fun k => pure _) (List.range _) >>= fun pages : List Releases =>
    Except.ok (pages.flatMap (·.results))) = _
  rw [List.mapM_pure]
  change Except.ok _ = Except.ok _
  rw [List.flatMap_map, ← List.map_flatMap]
  exact congrArg (fun rows : List (Artifact × Version) => Except.ok (rows.map fun x => t.load x.1))
    (flatMap_pages _ hlimit)

/-- The newest release for a client, once the product and the target are found. -/
theorem checkForUpdate_eq {semver : SemverPackage} (hv : t.Valid)
    (hs : resolveSoftware t slug = .ok s) (hp : t.platformByName platform = some p)
    (hq : t.architectureByName arch = some q) {version : String} {current : SemVer}
    (hversion : semver.parse version = some current) (hfits : current.Fits) :
    checkForUpdate semver t platform arch version channel slug =
      .ok (((releases t s.id p.id q.id channel).head?.filter fun x => isNewer current x.2).map
        fun x => t.load x.1) := by
  rw [← head?_newer hv]
  simp only [checkForUpdate, hversion, hs, hp, hq, hfits, not_true_eq_false, if_false]
  rfl

end endpoints

end UpdaterService

open UpdaterService

namespace UpdaterController

/-- Two answers with the same release carry the same envelope. -/
theorem update_iff_latest (e : Except UpdaterError (Option OtaSignatureEnvelope))
    (b a : LoadedArtifact) (envelope : Option OtaSignatureEnvelope) :
    e.map (Answer.update b) = .ok (.update a envelope) ↔
      e.map (Answer.latest b true) = .ok (.latest a true envelope) := by
  cases e <;> simp [Except.map]

/-- Without an update, there is no answer with one. -/
theorem latest_false_ne (e : Except UpdaterError (Option OtaSignatureEnvelope))
    (b a : LoadedArtifact) (envelope : Option OtaSignatureEnvelope) :
    e.map (Answer.latest b false) ≠ .ok (.latest a true envelope) := by
  cases e <;> simp [Except.map]

/-- A version that was read was given. -/
theorem given_of_readText {input : Input} {c : String} (h : readText input = some c) :
    input ≠ none ∧ input ≠ some (.str "") := by
  constructor <;> intro hnone <;> rw [hnone] at h
  · cases h
  · exact absurd (h.symm.trans (by decide : readText (some (.str "")) = none)) nofun

section answers

variable {semver : SemverPackage} {t : Tables} {request : Query} {slug : Option String}
  {context : ReleaseContext} {c : String} (hcontext : releaseContext request = some context)
  (hvalid : semver.valid c = true)

include hcontext hvalid

/-- `check` answers with the update, if there is one. -/
theorem check_eq (hversion : readText request.version = some c) {update : Option LoadedArtifact}
    (h : checkForUpdate semver t context.platform context.arch c context.channel slug = .ok update)
    (hv : ∀ a ∈ update, a.version.isSome = true) :
    check semver t request slug = match update with
      | none => .ok .noUpdate
      | some a => (signedManifest a).map (.update a) := by
  simp only [check, hcontext, hversion, hvalid, Bool.true_eq_false, if_false, h]
  cases update with
  | none => rfl
  | some a => simp [Option.isSome_iff_ne_none.mp (hv a rfl)]

/-- `latest` answers with the newest release, and compares it with the client's version. -/
theorem latest_eq (hcurrent : readText request.currentVersion = some c) {a : LoadedArtifact}
    (h : getLatest t context.platform context.arch context.channel slug = .ok (some a))
    {v : LoadedVersion} {p q : Target} (hv : a.version = some v) (hp : a.platform = some p)
    (hq : a.architecture = some q) :
    latest semver t request slug =
      (signedManifest a).map (.latest a (semver.gt v.version.number c)) := by
  have hgiven := given_of_readText hcurrent
  simp [latest, hcontext, hgiven, hcurrent, hvalid, h, hv, hp, hq]

/-- Without a release there is no update. -/
theorem latest_eq_of_none (hcurrent : readText request.currentVersion = some c)
    (h : getLatest t context.platform context.arch context.channel slug = .ok none) :
    latest semver t request slug =
      .ok (.error 404 "No releases found for the specified platform context.") := by
  have hgiven := given_of_readText hcurrent
  simp [latest, hcontext, hgiven, hcurrent, hvalid, h]

/-- `check` reports an update when `latest` says that its release is one, and it is the same release. -/
theorem check_iff_latest (hversion : readText request.version = some c)
    (hcurrent : readText request.currentVersion = some c) {o : Option (Artifact × Version)}
    {newer : Artifact × Version → Bool}
    (hlatest : getLatest t context.platform context.arch context.channel slug =
      .ok (o.map fun x => t.load x.1))
    (hcheck : checkForUpdate semver t context.platform context.arch c context.channel slug =
      .ok ((o.filter newer).map fun x => t.load x.1))
    (ho : ∀ x ∈ o, (∃ s p q, (t.load x.1).version = some ⟨x.2, some s⟩ ∧
      (t.load x.1).platform = some p ∧ (t.load x.1).architecture = some q) ∧
      (semver.gt x.2.number c = true ↔ newer x = true))
    (a : LoadedArtifact) (envelope : Option OtaSignatureEnvelope) :
    check semver t request slug = .ok (.update a envelope) ↔
      latest semver t request slug = .ok (.latest a true envelope) := by
  cases o with
  | none =>
    rw [latest_eq_of_none hcontext hvalid hcurrent hlatest,
      check_eq hcontext hvalid hversion hcheck (by simp)]
    exact iff_of_false (by simp) (by simp)
  | some x =>
    obtain ⟨⟨s, p, q, hv, hp, hq⟩, hgt⟩ := ho x rfl
    rw [latest_eq hcontext hvalid hcurrent hlatest hv hp hq]
    cases hn : newer x with
    | true =>
      simp only [Option.filter, hn, if_true, Option.map_some] at hcheck
      rw [check_eq hcontext hvalid hversion hcheck (by
        rintro _ ⟨⟩
        simp [hv]), hgt.mpr hn]
      exact update_iff_latest _ _ _ _
    | false =>
      have hne : semver.gt x.2.number c = false := by
        rw [Bool.eq_false_iff, ne_eq, hgt, hn]
        decide
      simp only [Option.filter, hn, Bool.false_eq_true, if_false, Option.map_none] at hcheck
      rw [check_eq hcontext hvalid hversion hcheck (by simp), hne]
      exact iff_of_false (by simp) (latest_false_ne _ _ _ _)

end answers

end UpdaterController

/-- The update is the newest release, if the client's version precedes it. -/
theorem update_iff {t : Tables} (hv : t.Valid) {softwareId platformId architectureId : Id}
    {channel : String} {current : SemVer} {o : Option (Artifact × Version)}
    (ho : ∀ x ∈ o, x ∈ targetQuery t softwareId platformId architectureId channel)
    {a : LoadedArtifact} :
    ((o.filter fun x => isNewer current x.2).map fun x => t.load x.1) = some a ↔
      (o.map fun x => t.load x.1) = some a ∧
        ∃ v ∈ a.version, current.Precedes v.version.semver := by
  cases o with
  | none => simp
  | some x =>
    obtain ⟨_, _, _, hx, -⟩ := load_of_mem hv (ho x rfl)
    simp only [Option.filter, Option.map_some, Option.some.injEq]
    constructor
    · intro h
      split at h
      · obtain rfl := Option.some.inj h
        exact ⟨rfl, _, hx, isNewer_iff.mp ‹_›⟩
      · cases h
    · rintro ⟨rfl, v, hx', hprec⟩
      obtain rfl := Option.some.inj (hx.symm.trans hx')
      rw [if_pos (isNewer_iff.mpr hprec)]
      rfl

/-- For every state of the database, product, target, channel and client version: all pages together
list the public artifacts of the product, target and channel, each once and the newest first, the
newest release is their first, the update is that one if the client's version precedes it, and the
answers about it agree. -/
theorem read_endpoints_agree {semver : SemverPackage} (hsemver : semver.Documented) {t : Tables}
    (hvalid : t.Valid) (hcolumns : ∀ v ∈ t.versions, v.Fits) {s : Software} (hs : s ∈ t.software)
    (hactive : s.isActive = true) {slug : Option String} (hslug : Addresses slug s)
    {platform arch : String} {p q : Target} (hp : t.platformByName platform = some p)
    (hq : t.architectureByName arch = some q) (channel : String) {limit : ℕ} (hlimit : 1 ≤ limit)
    {c : String} {current : SemVer} (hc : semver.parse c = some current) (hfits : current.Fits) :
    ∃ l : List LoadedArtifact,
      allReleases t platform arch channel limit slug = .ok l ∧
      (l.map (·.artifact)).Nodup ∧
      (∀ a, a ∈ l.map (·.artifact) ↔ a ∈ publicQuery t (some s.id) ∧ a.platformId = p.id ∧
        a.architectureId = q.id ∧ a.channel = channel) ∧
      (∀ x ∈ l, x.version.isSome = true) ∧
      (l.Pairwise fun x y => ∀ v ∈ x.version, ∀ w ∈ y.version, w.version.core < v.version.core) ∧
      (∀ page, ∃ r, getReleases t platform arch channel limit page slug = .ok r ∧
        r.pagination.totalPages = ⌈(l.length : ℚ) / limit⌉₊) ∧
      getLatest t platform arch channel slug = .ok l.head? ∧
      (∃ r, checkForUpdate semver t platform arch c channel slug = .ok r ∧
        ∀ x, r = some x ↔
          l.head? = some x ∧ ∃ v ∈ x.version, current.Precedes v.version.semver) ∧
      ∀ request : UpdaterController.Query,
        UpdaterController.releaseContext request = some ⟨platform, arch, channel⟩ →
        UpdaterController.readText request.version = some c →
        UpdaterController.readText request.currentVersion = some c →
        ∀ a envelope, UpdaterController.check semver t request slug = .ok (.update a envelope) ↔
          UpdaterController.latest semver t request slug = .ok (.latest a true envelope) := by
  have hresolve := resolveSoftware_of_addresses hvalid hs hactive hslug
  have hmem : ∀ x ∈ releases t s.id p.id q.id channel,
      x ∈ targetQuery t s.id p.id q.id channel := fun x hx => mem_orderByDesc.mp hx
  have hartifacts : ((releases t s.id p.id q.id channel).map fun x => t.load x.1).map (·.artifact) =
      (releases t s.id p.id q.id channel).map (·.1) := List.map_map
  refine ⟨(releases t s.id p.id q.id channel).map fun x => t.load x.1,
    allReleases_eq channel hvalid hresolve hp hq hlimit, ?_, ?_, ?_, ?_, ?_, ?_, ?_, ?_⟩
  · -- Each artifact is listed once.
    rw [hartifacts]
    exact nodup_artifacts hvalid
  · intro a
    rw [hartifacts]
    exact mem_artifacts hvalid
  · rintro _ ha
    obtain ⟨x, hx, rfl⟩ := List.mem_map.mp ha
    obtain ⟨_, _, _, hv, -⟩ := load_of_mem hvalid (hmem x hx)
    rw [hv]
    rfl
  · -- The newest comes first: the list is sorted by the numbers of the versions.
    refine List.pairwise_map.mpr ((pairwise_releases hvalid).imp_of_mem ?_)
    intro x y hx hy hxy v hv w hw
    obtain ⟨_, _, _, hx, -⟩ := load_of_mem hvalid (hmem x hx)
    obtain ⟨_, _, _, hy, -⟩ := load_of_mem hvalid (hmem y hy)
    obtain rfl := Option.some.inj (hx.symm.trans hv)
    obtain rfl := Option.some.inj (hy.symm.trans hw)
    exact hxy
  · intro page
    rw [List.length_map]
    exact ⟨_, getReleases_eq channel hvalid hresolve hp hq limit page, rfl⟩
  · rw [getLatest_eq channel hresolve hp hq, List.head?_map]
  · refine ⟨_, checkForUpdate_eq channel hvalid hresolve hp hq hc hfits, fun a => ?_⟩
    rw [List.head?_map]
    exact update_iff hvalid (fun x hx => hmem x (List.mem_of_mem_head? hx))
  · -- The two endpoints ask for the same first release and compare it with the same version.
    intro request hcontext hversion hcurrent a envelope
    have hvalidc : semver.valid c = true := by
      rw [hsemver.valid_eq, hc]
      rfl
    refine UpdaterController.check_iff_latest hcontext hvalidc hversion hcurrent
      (getLatest_eq channel hresolve hp hq)
      (checkForUpdate_eq channel hvalid hresolve hp hq hc hfits) (fun x hx => ?_) a envelope
    have hx := hmem x (List.mem_of_mem_head? hx)
    have hxm := (mem_targetQuery.mp hx).2.1.1
    refine ⟨load_of_mem hvalid hx, ?_⟩
    rw [isNewer_iff]
    exact hsemver.gt_iff _ _ _ _ (hsemver.parse_number x.2 (hcolumns x.2 hxm)) hc

/-! ## A product with one release -/

/-- A number, and the characters behind it. -/
def readNumeral (cs : List Char) : Option (ℕ × List Char) :=
  let (ds, cs) := Json.digits cs
  if ds = [] then none else some (Nat.ofDigitChars 10 ds 0, cs)

/-- Three numbers with dots between them. -/
def readRelease (cs : List Char) : Option SemVer :=
  match readNumeral cs with
  | some (major, '.' :: cs) =>
    match readNumeral cs with
    | some (minor, '.' :: cs) =>
      match readNumeral cs with
      | some (patch, []) => some ⟨major, minor, patch, []⟩
      | _ => none
    | _ => none
  | _ => none

/-- Semantic versions without pre-releases. -/
def toySemver : SemverPackage where
  parse s := readRelease s.toList
  valid s := (readRelease s.toList).isSome
  gt s t := match readRelease s.toList, readRelease t.toList with
    | some v, some w => decide (w.core < v.core)
    | _, _ => false

/-- A number is read back in front of something else. -/
theorem readNumeral_toDigits (n : ℕ) {t : List Char}
    (h : ∀ c, t.head? = some c → c.isDigit = false) :
    readNumeral (Nat.toDigits 10 n ++ t) = some (n, t) := by
  simp only [readNumeral, Json.digits_append (Json.toDigits_isDigit n) h, Nat.toDigits_ne_nil,
    if_false, Nat.ofDigitChars_ten_toDigits]

/-- The number of a version is read as its three numbers. -/
theorem readRelease_number (v : Version) :
    readRelease v.number.toList = some ⟨v.major, v.minor, v.patch, []⟩ := by
  have hdot : ∀ (cs : List Char) c, ('.' :: cs).head? = some c → c.isDigit = false := by
    rintro cs _ ⟨⟩
    decide
  have hlast := readNumeral_toDigits v.patch (t := []) nofun
  rw [List.append_nil] at hlast
  simp only [Version.number, String.toList_append, Nat.toString_eq_repr, Nat.repr,
    String.toList_ofList, List.append_assoc]
  have text : ".".toList = ['.'] := rfl
  simp only [readRelease, text, List.cons_append, List.nil_append,
    readNumeral_toDigits _ (hdot _), hlast]

/-- Nothing that is read is a pre-release. -/
theorem readRelease_prerelease {cs : List Char} {v : SemVer} (h : readRelease cs = some v) :
    v.prerelease = [] := by
  simp only [readRelease] at h
  split at h
  · split at h
    · split at h
      · obtain rfl := Option.some.inj h
        rfl
      · cases h
    · cases h
  · cases h

/-- A text is parsed character by character. -/
theorem toySemver_parse (s : String) : toySemver.parse s = readRelease s.toList := rfl

/-- The toy versions are as documented. -/
theorem toySemver_documented : toySemver.Documented where
  parse_number v _ := by rw [toySemver_parse, readRelease_number]
  valid_eq _ := rfl
  gt_iff s t v w hs ht := by
    have hs' : readRelease s.toList = some v := hs
    have ht' : readRelease t.toList = some w := ht
    simp only [toySemver, hs', ht', decide_eq_true_eq, SemVer.Precedes, readRelease_prerelease ht',
      ne_eq, not_true_eq_false, false_and, and_false, or_false]

/-- The tables of a product with one release, which needs no signature. -/
def publicTables : Tables :=
  { releaseTables none unsigned with
    software := [{ releaseSoftware with requireSignedUpdates := false }] }

/-- The tables satisfy their constraints. -/
theorem publicTables_valid : publicTables.Valid := by
  have hkeys : toyKeyId 'a' ≠ toyKeyId 'b' := by decide
  constructor <;> simp [publicTables, releaseTables, releaseSoftware, hkeys]

/-- The release is an update for version 0.9.0. -/
theorem read_endpoints_agree_example :
    ∃ l, allReleases publicTables "windows" "x64" "dev" 1 (some "p") = .ok l ∧
      l.map (·.artifact) = [unsigned] ∧
      getLatest publicTables "windows" "x64" "dev" (some "p") = .ok l.head? := by
  have hcolumns : ∀ v ∈ publicTables.versions, v.Fits := by
    intro v hv
    obtain rfl := List.mem_singleton.mp hv
    exact ⟨by decide, by decide, by decide⟩
  have hslug : Addresses (some "p") { releaseSoftware with requireSignedUpdates := false } :=
    .inl ⟨rfl, by decide⟩
  have hp : publicTables.platformByName "windows" = some ⟨"w", "windows", "Windows", none⟩ := rfl
  have hq : publicTables.architectureByName "x64" = some ⟨"x", "x64", "x64", none⟩ := rfl
  have hc : toySemver.parse "0.9.0" = some ⟨0, 9, 0, []⟩ := by decide +kernel
  obtain ⟨l, hall, hn, hmem, -, -, -, hlatest, -⟩ :=
    read_endpoints_agree toySemver_documented publicTables_valid hcolumns (by decide) rfl hslug
      hp hq "dev" (le_refl 1) hc (by decide)
  have hpublic : publicQuery publicTables (some "p") = [unsigned] := by decide +kernel
  refine ⟨l, hall, List.perm_singleton.mp
    ((List.perm_ext_iff_of_nodup hn (List.nodup_singleton _)).mpr fun a => ?_), hlatest⟩
  rw [hmem, show (releaseSoftware.id : Id) = "p" from rfl, hpublic, List.mem_singleton]
  constructor
  · exact fun h => h.1
  · rintro rfl
    exact ⟨rfl, rfl, rfl, rfl⟩

end Reeva
