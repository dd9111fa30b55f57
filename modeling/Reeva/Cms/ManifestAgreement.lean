import Reeva.Release.VersionGate

/-!
# Agreement on manifests

Reeva encodes the manifest of a release, and the signer decodes it, with limits of its own on each
field. Nothing is shared between the two. For the metadata that the CMS admits, the signer reads
every payload within the limit of its length, and reads the same manifest (`manifest_agreement`).

Most limits differ in their unit: the CMS counts code units of UTF-16, the signer bytes of UTF-8.
-/

open Interleaving ReadCommitted

namespace Reeva

/-! ## Slugs -/

/-- A slug that the loop of `create` may yield: the slug of a name, or a candidate with a suffix that
JavaScript can count to. -/
def IsIssued (node : Node) (slug : String) : Prop :=
  ∃ name n, 0 < n ∧ n ≤ 9007199254740992 ∧ slug = candidate (createSafeSlug node name) n

/-- The loop yields candidates. -/
theorem freeSlug_returns (base : String) (fuel : ℕ) {n : ℕ} (hpos : 0 < n)
    (hn : n ≤ 9007199254740992) :
    (SoftwareService.freeSlug base fuel (candidate base n) n).Returns fun slug =>
      ∃ m, 0 < m ∧ m ≤ 9007199254740992 ∧ slug = candidate base m := by
  induction fuel generalizing n with
  | zero => exact fun r => nomatch r
  | succ fuel ih =>
    refine Prog.returns_bind fun taken => ?_
    cases taken with
    | false => exact ⟨n, hpos, hn, rfl⟩
    | true =>
      change (SoftwareService.freeSlug base fuel (suffixedSlug base (Js.increment n))
        (Js.increment n)).Returns _
      by_cases hlt : n < 9007199254740992
      · obtain ⟨hnext, hcount⟩ := candidate_increment base hpos hlt
        rw [hnext, hcount]
        exact ih (by omega) (by omega)
      · -- Here the counter is stuck.
        have hstuck : Js.increment n = n := if_neg hlt
        have hcandidate : suffixedSlug base n = candidate base n := by
          rw [candidate, if_neg (by omega)]
        rw [hstuck, hcandidate]
        exact ih hpos hn

/-- A new product has such a slug. -/
theorem create_issues (node : Node) (fuel : ℕ) (input : Input) :
    Performs True (fun w => ∀ r, w = .insertSoftware r → IsIssued node r.slug)
      (SoftwareService.create node fuel input) := by
  have hreturns : ∀ base, (SoftwareService.freeSlug base fuel base 1).Returns fun slug =>
      ∃ n, 0 < n ∧ n ≤ 9007199254740992 ∧ slug = candidate base n := by
    intro base
    have hfirst : candidate base 1 = base := if_pos rfl
    have hloop := freeSlug_returns base fuel Nat.one_pos (by decide)
    rwa [hfirst] at hloop
  refine (Performs.refuse _ _).bind fun _ => .transaction trivial ?_
  refine (Performs.advisory trivial _).bind fun _ => ?_
  refine Prog.only_bind_of_returns (freeSlug_performs _ _ _ _) (hreturns _) ?_
  rintro slug ⟨n, hpos, hn, rfl⟩
  refine (Performs.call _).bind fun id => (Performs.exec fun r hr => ?_).bind fun _ => .pure _
  cases hr
  exact ⟨_, n, hpos, hn, rfl⟩

/-- The signer takes it. -/
theorem IsIssued.validSlug {node : Node} {slug : String} (h : IsIssued node slug) :
    Signer.validSlug slug = true := by
  obtain ⟨name, n, -, hn, rfl⟩ := h
  obtain ⟨hbase, hlength⟩ := isSlug_createSafeSlug node name
  unfold candidate
  split
  · exact signer_takes hbase hlength
  · obtain ⟨hslug, hshort⟩ := isSlug_suffixedSlug hbase hn
    exact signer_takes hslug hshort

/-! ## Texts -/

/-- A text has at most three bytes for each of its code units. -/
theorem byteLength_le (s : String) : Signer.byteLength s ≤ 3 * Js.length s := by
  have hsum : ∀ cs : List Char, Js.byteSize cs ≤
      3 * (cs.map fun c => if c.toNat < 0x10000 then 1 else 2).sum := by
    intro cs
    induction cs with
    | nil => exact Nat.le_refl 0
    | cons c cs ih =>
      have hc := Js.utf8Size_le c
      rw [Js.byteSize_cons, List.map_cons, List.sum_cons]
      omega
  have hbytes : Signer.byteLength s = Js.byteSize s.toList := by
    rw [← Js.length_utf8_ofList, String.ofList_toList]
    rfl
  rw [hbytes]
  exact hsum s.toList

/-- A nullable text of few code units has few bytes. -/
theorem all_byteLength_le {o : Option String} {units bytes : ℕ}
    (h : ∀ s, o = some s → Js.length s ≤ units) (hle : 3 * units ≤ bytes) :
    o.all (fun v => Signer.byteLength v ≤ bytes) = true := by
  cases o with
  | none => rfl
  | some s =>
    have hbytes : Signer.byteLength s ≤ bytes := by
      calc
        Signer.byteLength s ≤ 3 * Js.length s := byteLength_le s
        _ ≤ 3 * units := Nat.mul_le_mul_left 3 (h s rfl)
        _ ≤ bytes := hle
    exact decide_eq_true hbytes

/-- The name of a platform or an architecture: printable ASCII. -/
structure IsTargetName (name : String) : Prop where
  ne_empty : name ≠ ""
  printable : ∀ c ∈ name.toList, 32 ≤ c.toNat ∧ c.toNat ≤ 126
  short : name.toList.length ≤ 50

/-- The signer takes it. -/
theorem IsTargetName.isContext {name : String} (h : IsTargetName name) :
    Signer.isContext name = true := by
  have hbytes : Signer.byteLength name ≤ 100 := by
    rw [Signer.byteLength_of_ascii fun c hc => Nat.lt_of_le_of_lt (h.printable c hc).2 (by decide)]
    exact h.short.trans (by decide)
  have hcontrol : name.toList.any Signer.isControl = false := by
    refine List.any_eq_false.mpr fun c hc => ?_
    have hprintable := h.printable c hc
    simp only [Signer.isControl, Bool.or_eq_true, Bool.and_eq_true, decide_eq_true_eq]
    omega
  simp only [Signer.isContext, h.ne_empty, hbytes, hcontrol, ne_eq, not_false_eq_true, decide_true,
    Bool.not_false, Bool.and_self]

/-- A codename that was accepted is short. -/
theorem length_of_parseCodename {input : Input} {codename : Option String}
    (h : VersionService.parseCodename input = .ok codename) :
    ∀ s, codename = some s → Js.length s ≤ 100 := by
  rintro s rfl
  unfold VersionService.parseCodename at h
  split at h
  · cases h
  · cases h
  · cases h
  · rename_i value _
    split_ifs at h with hlong hblank
    · cases h
    · obtain rfl := Option.some.inj (Except.ok.inj h)
      exact (Js.length_trim_le value).trans (Nat.le_of_not_lt hlong)
  · cases h

/-- So is a changelog. -/
theorem length_of_parseChangelog {input : Input} {changelog : Option String}
    (h : VersionService.parseChangelog input = .ok changelog) :
    ∀ s, changelog = some s → Js.length s ≤ 20000 := by
  rintro s rfl
  unfold VersionService.parseChangelog at h
  split at h
  · cases h
  · cases h
  · cases h
  · split_ifs at h with hlong
    obtain rfl := Option.some.inj (Except.ok.inj h)
    exact Nat.le_of_not_lt hlong
  · cases h

/-- Digits are a number of as many places. -/
theorem ofDigitChars_lt {ds : List Char} (hd : ∀ d ∈ ds, d.isDigit = true) (start : ℕ) :
    Nat.ofDigitChars 10 ds start < (start + 1) * 10 ^ ds.length := by
  induction ds generalizing start with
  | nil =>
    rw [Nat.ofDigitChars_nil, List.length_nil, Nat.pow_zero, Nat.mul_one]
    exact Nat.lt_succ_self start
  | cons d ds ih =>
    have hvalue := (Signer.digitChar_value (hd d (.head _))).1
    rw [Nat.ofDigitChars_cons, List.length_cons, Nat.pow_succ]
    calc
      Nat.ofDigitChars 10 ds (10 * start + (d.toNat - '0'.toNat))
        < (10 * start + (d.toNat - '0'.toNat) + 1) * 10 ^ ds.length :=
          ih (fun c hc => hd c (.tail _ hc)) _
      _ ≤ (start + 1) * 10 * 10 ^ ds.length := Nat.mul_le_mul_right _ (by omega)
      _ = (start + 1) * (10 ^ ds.length * 10) := by rw [Nat.mul_assoc, Nat.mul_comm 10]

/-- A part of a version has at most nine digits. -/
theorem le_of_parsePart {input : Input} {n : ℕ} (h : VersionService.parsePart input = some n) :
    n ≤ 999999999 := by
  unfold VersionService.parsePart at h
  split at h
  · rename_i s
    split_ifs at h with hdigits
    obtain rfl := Option.some.inj h
    obtain ⟨-, hlength, hall⟩ := hdigits
    have hlt := ofDigitChars_lt (List.all_eq_true.mp hall) 0
    have hpow : 10 ^ s.toList.length ≤ 10 ^ 9 := Nat.pow_le_pow_right (by decide) hlength
    omega
  · split at h
    · split_ifs at h with hrange
      obtain rfl := Option.some.inj h
      omega
    · cases h
  · cases h

/-- The numbers of a version that was accepted. -/
theorem semverRange_of_parseVersionParts {data : VersionInput} {p : ℕ × ℕ × ℕ}
    (h : VersionService.parseVersionParts data = .ok p) : SemverRange p := by
  unfold VersionService.parseVersionParts at h
  split at h
  · rename_i major minor patch hmajor hminor hpatch
    obtain rfl := Except.ok.inj h
    have hle : 999999999 ≤ 2147483647 := by decide
    exact ⟨(le_of_parsePart hmajor).trans hle, (le_of_parsePart hminor).trans hle,
      (le_of_parsePart hpatch).trans hle⟩
  · cases h

/-! ## Manifests -/

/-- The manifest that is decoded. -/
def OtaReleaseManifest.decoded (m : OtaReleaseManifest) : Signer.Manifest :=
  ⟨1, m.software, m.version, m.codename, m.changelog, m.channel, m.platform, m.architecture,
    m.fileName, m.sizeBytes.toNat, m.sha256⟩

/-- Every field of the signer's manifest is that of Reeva's. -/
structure Agrees (manifest : Signer.Manifest) (m : OtaReleaseManifest) : Prop where
  schemaVersion : manifest.schemaVersion = 1
  software : manifest.software = m.software
  version : manifest.version = m.version
  codename : manifest.codename = m.codename
  changelog : manifest.changelog = m.changelog
  channel : manifest.channel = m.channel
  platform : manifest.platform = m.platform
  architecture : manifest.architecture = m.architecture
  fileName : manifest.fileName = m.fileName
  sizeBytes : (manifest.sizeBytes : ℤ) = m.sizeBytes
  sha256 : manifest.sha256 = m.sha256

theorem OtaReleaseManifest.agrees_decoded {m : OtaReleaseManifest} (hpos : 0 ≤ m.sizeBytes) :
    Agrees m.decoded m :=
  ⟨rfl, rfl, rfl, rfl, rfl, rfl, rfl, rfl, rfl, Int.toNat_of_nonneg hpos, rfl⟩

/-- The signer decodes the manifest of a file that is not too large. -/
theorem OtaReleaseManifest.fromJson_toJson {m : OtaReleaseManifest} (hpos : 0 ≤ m.sizeBytes)
    (hsafe : Js.isSafeInteger m.sizeBytes = true) :
    Signer.Manifest.fromJson m.toJson = some m.decoded := by
  have hoption : ∀ o, Signer.readOption (jsonOfNullable o) = some o := by
    intro o
    cases o <;> rfl
  have hschema : Signer.readUnsigned 32 (.int 1) = some 1 := by decide
  have hsize : Signer.readUnsigned 64 (.int m.sizeBytes) = some m.sizeBytes.toNat := by
    unfold Js.isSafeInteger at hsafe
    simp only [Bool.and_eq_true, decide_eq_true_eq] at hsafe
    refine if_pos ⟨hpos, ?_⟩
    exact lt_of_le_of_lt (by omega : m.sizeBytes ≤ 9007199254740991) (by decide)
  have hvalues : Signer.Manifest.fromJson m.toJson = Signer.Manifest.ofValues (.int 1)
      (.str m.software) (.str m.version) (jsonOfNullable m.codename) (jsonOfNullable m.changelog)
      (.str m.channel) (.str m.platform) (.str m.architecture) (.str m.fileName) (.int m.sizeBytes)
      (.str m.sha256) := by
    rfl
  rw [hvalues]
  simp only [Signer.Manifest.ofValues, hschema, hsize, hoption, Signer.readString,
    Option.bind_eq_bind, Option.bind_some, Option.pure_def]
  rfl

/-- What the signer reads in the text of a manifest. -/
theorem readManifest_toJson {m : OtaReleaseManifest} (hpos : 0 ≤ m.sizeBytes)
    (hsafe : Js.isSafeInteger m.sizeBytes = true) (product : String) :
    readManifest (Js.utf8 m.toJson.stringify) product =
      if m.decoded.supported product then .ok m.decoded
      else .error (Signer.invalid "Unsupported or mismatched release metadata.") := by
  unfold readManifest
  rw [Js.fromUtf8_utf8, Option.bind_some, Json.parse_stringify, Option.bind_some,
    OtaReleaseManifest.fromJson_toJson hpos hsafe]

/-- What the CMS has accepted of the rows of a release. -/
structure AcceptedMetadata (node : Node) (software : Software) (version : Version)
    (platform architecture : Target) (artifact : Artifact) (sizeBytes : ℤ) (sha256 : String) :
    Prop where
  slug : IsIssued node software.slug
  parts : ∃ data, VersionService.parseVersionParts data =
    .ok (version.major, version.minor, version.patch)
  codename : ∃ input, VersionService.parseCodename input = .ok version.codename
  changelog : ∃ input, VersionService.parseChangelog input = .ok version.changelog
  channel : artifact.channel ∈ channels
  platform : IsTargetName platform.name
  architecture : IsTargetName architecture.name
  fileName : IsBuilt node artifact.fileName
  shortName : artifact.fileName.toList.length ≤ 255
  size : artifact.sizeBytes = some sizeBytes
  safe : Js.isSafeInteger sizeBytes = true
  nonneg : 0 ≤ sizeBytes
  checksum : artifact.checksumSha256 = some sha256
  hex : Js.isSha256Hex sha256 = true

section accepted

variable {node : Node} {software : Software} {version : Version} {platform architecture : Target}
  {artifact : Artifact} {sizeBytes : ℤ} {sha256 : String}

/-- A name that was built is taken by the signer. -/
theorem fileName_supported {fileName : String} (h : IsBuilt node fileName)
    (hshort : fileName.toList.length ≤ 255) :
    fileName ≠ "" ∧ Signer.byteLength fileName ≤ 500 ∧
      fileName.toList.any (fun c => Signer.isControl c || c = '/' || c = '\\') = false := by
  obtain ⟨productName, platformName, architectureName, version, extension, rfl⟩ := h
  refine ⟨fun hempty => ?_, ?_, List.any_eq_false.mpr fun c hc => ?_⟩
  · have hlength := length_buildFileName node productName platformName architectureName version
      extension
    rw [hempty] at hlength
    unfold builtLength at hlength
    change 0 = _ at hlength
    omega
  · rw [Signer.byteLength_of_ascii fun c hc =>
      toNat_lt_of_isFileChar (isFileChar_of_mem_buildFileName hc)]
    exact hshort.trans (by decide)
  · have hfile := isFileChar_of_mem_buildFileName hc
    have hascii := toNat_lt_of_isFileChar hfile
    have hnone : ∀ n < 128, isFileChar (Char.ofNat n) = true →
        (Signer.isControl (Char.ofNat n) || Char.ofNat n = '/' || Char.ofNat n = '\\') = false := by
      decide
    have hchar := hnone c.toNat hascii
    rw [Char.ofNat_toNat] at hchar
    rw [hchar hfile]
    exact Bool.false_ne_true

/-- Both programs read the same digests. -/
theorem validHex_of_isSha256Hex (h : Js.isSha256Hex sha256 = true) :
    Signer.validHex sha256 = true := by
  simp only [Js.isSha256Hex, Bool.and_eq_true, beq_iff_eq] at h
  obtain ⟨hlength, hall⟩ := h
  have hbytes : Signer.byteLength sha256 = 64 := by
    rw [Signer.byteLength_of_ascii fun c hc =>
      (Signer.hexChar_ascii (List.all_eq_true.mp hall c hc)).2, hlength]
  simp only [Signer.validHex, hbytes, decide_true, Bool.true_and]
  exact hall

/-- The signer supports the metadata that the CMS accepts, for its own product only. -/
theorem AcceptedMetadata.supported_iff
    (h : AcceptedMetadata node software version platform architecture artifact sizeBytes sha256)
    {product : String} :
    (rowsManifest software version platform architecture artifact sizeBytes
      sha256).decoded.supported product = true ↔ product = software.slug := by
  constructor
  · intro hsupported
    simp only [Signer.Manifest.supported, Bool.and_eq_true, decide_eq_true_eq] at hsupported
    exact hsupported.1.1.1.1.1.1.1.1.1.1.1.2.symm
  · rintro rfl
    have hversion : Signer.isSemver version.number = true := by
      obtain ⟨data, hparts⟩ := h.parts
      have hrange : SemverRange version.numbers := semverRange_of_parseVersionParts hparts
      rw [Version.number_eq]
      exact isSemver_rendered hrange
    have hchannel : ["stable", "beta", "dev", "staging"].contains artifact.channel = true := by
      have hall : channels.all (["stable", "beta", "dev", "staging"].contains ·) = true := by
        decide
      exact List.all_eq_true.mp hall _ h.channel
    obtain ⟨hname, hnameBytes, hnameChars⟩ := fileName_supported h.fileName h.shortName
    have hsize : sizeBytes.toNat ≤ 9007199254740991 := by
      have hsafe := h.safe
      unfold Js.isSafeInteger at hsafe
      simp only [Bool.and_eq_true, decide_eq_true_eq] at hsafe
      omega
    have hhex : Signer.validHex sha256 = true := validHex_of_isSha256Hex h.hex
    have hcodename : version.codename.all (fun v => Signer.byteLength v ≤ 1024) = true := by
      obtain ⟨input, hinput⟩ := h.codename
      exact all_byteLength_le (length_of_parseCodename hinput) (by decide)
    have hchangelog : version.changelog.all (fun v => Signer.byteLength v ≤ 90000) = true := by
      obtain ⟨input, hinput⟩ := h.changelog
      exact all_byteLength_le (length_of_parseChangelog hinput) (by decide)
    simp only [Signer.Manifest.supported, OtaReleaseManifest.decoded, rowsManifest, h.slug.validSlug,
      hversion, hchannel, h.platform.isContext, h.architecture.isContext, hname, hnameBytes,
      hnameChars, hsize, hhex, hcodename, hchangelog, ne_eq, not_false_eq_true, decide_true,
      Bool.not_false, Bool.and_self]

end accepted

/-- The products that `create` makes have slugs of the form that is issued. For a release of such a
product whose other metadata the CMS has accepted, a manifest and a payload are built; if the payload
has at most 120000 characters, the signer reads it for the slug of the product, with the bytes of the
manifest's JSON text and with each field as it is in the manifest. It reads no such payload for any
other product. -/
theorem manifest_agreement (node : Node) :
    (∀ fuel input, Performs True (fun w => ∀ r, w = .insertSoftware r → IsIssued node r.slug)
      (SoftwareService.create node fuel input)) ∧
    ∀ software version platform architecture artifact sizeBytes sha256,
      AcceptedMetadata node software version platform architecture artifact sizeBytes sha256 →
      ∃ m payload,
        buildOtaReleaseManifest ⟨artifact, some ⟨version, some software⟩, some platform,
          some architecture⟩ = .ok m ∧
        createOtaReleasePayload ⟨artifact, some ⟨version, some software⟩, some platform,
          some architecture⟩ = .ok payload ∧
        (payload.toList.length ≤ 120000 → ∃ manifest,
          Signer.parsePayload payload software.slug = .ok (Js.utf8 m.toJson.stringify, manifest) ∧
          Agrees manifest m) ∧
        ∀ product, product ≠ software.slug → ∃ e, Signer.parsePayload payload product = .error e := by
  refine ⟨create_issues node, ?_⟩
  intro software version platform architecture artifact sizeBytes sha256 h
  generalize hm : rowsManifest software version platform architecture artifact sizeBytes sha256 = m
  have hbytes : m.sizeBytes = sizeBytes := by rw [← hm]; rfl
  have hpos : 0 ≤ m.sizeBytes := hbytes ▸ h.nonneg
  have hsafe : Js.isSafeInteger m.sizeBytes = true := hbytes ▸ h.safe
  have hsupported : ∀ {product}, m.decoded.supported product = true ↔ product = software.slug := by
    rw [← hm]
    exact h.supported_iff
  refine ⟨m, m.payload, ?_, ?_, fun hlength => ⟨m.decoded, ?_, m.agrees_decoded hpos⟩,
    fun product hother => ?_⟩
  · rw [← hm]
    exact buildOtaReleaseManifest_rows software version platform architecture h.size h.safe h.nonneg
      h.checksum h.hex
  · rw [← hm]
    exact createOtaReleasePayload_rows software version platform architecture h.size h.safe h.nonneg
      h.checksum h.hex
  · refine (parsePayload_payload_iff m).mpr ⟨(length_payload_le_iff m).mp hlength, rfl, ?_⟩
    rw [readManifest_toJson hpos hsafe, if_pos (hsupported.mpr rfl)]
  · cases hparse : Signer.parsePayload m.payload product with
    | error e => exact ⟨e, rfl⟩
    | ok p =>
      obtain ⟨bytes, manifest⟩ := p
      obtain ⟨-, rfl, hread⟩ := (parsePayload_payload_iff m).mp hparse
      rw [readManifest_toJson hpos hsafe, if_neg fun hs => hother (hsupported.mp hs)] at hread
      cases hread

/-! ## A release -/

/-- A version with a codename and a changelog that is escaped. -/
def auroraVersion : Version :=
  { releaseVersion (some "Aurora") with changelog := some "Über \"all\"\n" }

/-- Its release. -/
def auroraArtifact : Artifact :=
  { unsigned with fileName := buildFileName toyNode "P" "windows" "x64" auroraVersion "zip" }

/-- The metadata of the release is accepted. -/
theorem acceptedMetadata_aurora :
    AcceptedMetadata toyNode releaseSoftware auroraVersion windowsTarget x64Target auroraArtifact 1
      (toyKeyId 'c') where
  slug := ⟨"p", 1, by decide, by decide, by decide +kernel⟩
  parts := ⟨⟨none, some (.int 1), some (.int 0), some (.str "0"), none, none, none, none, none⟩,
    by decide +kernel⟩
  codename := ⟨some (.str " Aurora "), by decide +kernel⟩
  changelog := ⟨some (.str "Über \"all\"\n"), by decide +kernel⟩
  channel := by decide
  platform := ⟨by decide, Js.forall_of_all (by decide +kernel), by decide⟩
  architecture := ⟨by decide, Js.forall_of_all (by decide +kernel), by decide⟩
  fileName := ⟨_, _, _, _, _, rfl⟩
  shortName := by
    unfold auroraArtifact
    rw [length_buildFileName]
    decide +kernel
  size := rfl
  safe := by decide
  nonneg := by decide
  checksum := rfl
  hex := by decide

/-- The signer reads the payload of the release for its product, and for no other. -/
theorem manifest_agreement_aurora :
    ∃ m payload manifest,
      buildOtaReleaseManifest ⟨auroraArtifact, some ⟨auroraVersion, some releaseSoftware⟩,
        some windowsTarget, some x64Target⟩ = .ok m ∧
      Signer.parsePayload payload "p" = .ok (Js.utf8 m.toJson.stringify, manifest) ∧
      Agrees manifest m ∧ ∃ e, Signer.parsePayload payload "q" = .error e := by
  obtain ⟨m, payload, hbuild, hcreate, hread, hother⟩ := (manifest_agreement toyNode).2 _ _ _ _ _ _ _
    acceptedMetadata_aurora
  have hshort : payload.toList.length ≤ 120000 := by
    have h := acceptedMetadata_aurora
    have hrows := createOtaReleasePayload_rows releaseSoftware auroraVersion windowsTarget x64Target
      h.size h.safe h.nonneg h.checksum h.hex
    have hpayload := Except.ok.inj (hcreate.symm.trans hrows)
    rw [hpayload, length_payload_le_iff, byteSize_rowsManifest _ _ _ _ h.size h.nonneg h.hex]
    decide +kernel
  obtain ⟨manifest, hparse, hagrees⟩ := hread hshort
  exact ⟨m, payload, manifest, hbuild, hparse, hagrees, hother "q" (by decide)⟩

end Reeva
