import Reeva.Cms.FileNames
import Reeva.Codec.JsonSize
import Reeva.Release.PayloadEncoding

/-!
# The size of what is signed

The CMS limits the texts of a release in UTF-16 code units, and a payload in characters of base64url.
In between the texts are escaped and encoded. `payload_fits_iff` says which releases have payloads
within the limit, which are those that can be verified and signed.
-/

namespace Reeva

/-- The bytes of a nullable string in JSON. -/
def nullableSize : Option String → ℕ
  | some s => Json.textSize s
  | none => 4

theorem byteSize_nullable (s : Option String) :
    Js.byteSize (jsonOfNullable s).print = nullableSize s := by
  cases s with
  | some s => exact Json.byteSize_printStr s
  | none => decide

/-- The bytes of a release's manifest: 207 for the names, the digest and the punctuation, and those of
the other values. -/
def releaseSize (software : Software) (version : Version) (platform architecture : Target)
    (artifact : Artifact) : ℕ :=
  207 + Json.textSize software.slug + Json.textSize version.number +
    nullableSize version.codename + nullableSize version.changelog +
    Json.textSize artifact.channel + Json.textSize platform.name +
    Json.textSize architecture.name + Json.textSize artifact.fileName +
    (Nat.toDigits 10 (artifact.sizeBytes.getD 0).toNat).length

/-- A text of characters that are not escaped. -/
theorem textSize_of_plain {s : String}
    (h : ∀ c ∈ s.toList, 32 ≤ c.toNat ∧ c.toNat < 128 ∧ c ≠ '"' ∧ c ≠ '\\') :
    Json.textSize s = s.toList.length + 2 := by
  have hone : ∀ c ∈ s.toList, Json.charSize c = 1 := by
    intro c hc
    obtain ⟨hge, hlt, hquote, hslash⟩ := h c hc
    have hnot : ¬c.toNat < 32 := Nat.not_lt.mpr hge
    simp only [Json.charSize, Json.isLongEscaped, hnot, hquote, hslash, decide_false, Bool.false_and,
      Bool.false_eq_true, if_false, or_self, Js.utf8Size_of_ascii hlt]
  unfold Json.textSize
  rw [List.map_congr_left hone, List.map_const', List.sum_replicate_nat, Nat.mul_one]

/-- A digest has 66 bytes. -/
theorem textSize_sha256 {s : String} (h : Js.isSha256Hex s = true) : Json.textSize s = 66 := by
  unfold Js.isSha256Hex at h
  simp only [Bool.and_eq_true, beq_iff_eq] at h
  rw [textSize_of_plain, h.1]
  intro c hc
  have hhex := List.all_eq_true.mp h.2 c hc
  unfold Js.isLowerHex at hhex
  simp only [Bool.or_eq_true, Char.isDigit, Bool.and_eq_true, decide_eq_true_eq, ge_iff_le,
    Char.le_def, UInt32.le_iff_toNat_le] at hhex
  change 48 ≤ c.toNat ∧ c.toNat ≤ 57 ∨ 97 ≤ c.toNat ∧ c.toNat ≤ 102 at hhex
  refine ⟨by omega, by omega, ?_, ?_⟩
  · rintro rfl
    revert hhex
    decide
  · rintro rfl
    revert hhex
    decide

/-- The digits of a number have one byte each. -/
theorem byteSize_printInt {n : ℤ} (h : 0 ≤ n) :
    Js.byteSize (Json.printInt n) = (Nat.toDigits 10 n.toNat).length := by
  have habs : n.natAbs = n.toNat := by omega
  unfold Json.printInt
  rw [if_neg (Int.not_lt.mpr h), habs]
  refine Js.byteSize_of_ascii fun c hc => ?_
  have hdigit := Json.toDigits_isDigit n.toNat c hc
  simp only [Char.isDigit, Bool.and_eq_true, decide_eq_true_eq, UInt32.le_iff_toNat_le] at hdigit
  change _ ∧ c.toNat ≤ 57 at hdigit
  omega

/-- The manifest of a release, as it is built of its rows. -/
def rowsManifest (software : Software) (version : Version) (platform architecture : Target)
    (artifact : Artifact) (sizeBytes : ℤ) (sha256 : String) : OtaReleaseManifest :=
  ⟨software.slug, version.number, version.codename, version.changelog, artifact.channel,
    platform.name, architecture.name, artifact.fileName, sizeBytes, sha256⟩

section rows

variable (software : Software) (version : Version) (platform architecture : Target)
  {artifact : Artifact} {sizeBytes : ℤ} {sha256 : String}

/-- The bytes of its JSON text. -/
theorem byteSize_rowsManifest (hsize : artifact.sizeBytes = some sizeBytes) (hpos : 0 ≤ sizeBytes)
    (hhex : Js.isSha256Hex sha256 = true) :
    Js.byteSize (rowsManifest software version platform architecture artifact sizeBytes
      sha256).toJson.print = releaseSize software version platform architecture artifact := by
  have hnames : Json.textSize "schemaVersion" = 15 ∧ Json.textSize "software" = 10 ∧
      Json.textSize "version" = 9 ∧ Json.textSize "codename" = 10 ∧
      Json.textSize "changelog" = 11 ∧ Json.textSize "channel" = 9 ∧
      Json.textSize "platform" = 10 ∧ Json.textSize "architecture" = 14 ∧
      Json.textSize "fileName" = 10 ∧ Json.textSize "sizeBytes" = 11 ∧
      Json.textSize "sha256" = 8 := by decide +kernel
  have hschema : Js.byteSize (Json.printInt 1) = 1 := by decide
  unfold OtaReleaseManifest.toJson OtaReleaseManifest.entries rowsManifest
  rw [Json.byteSize_print_obj]
  simp only [List.map_cons, List.map_nil, List.sum_cons, List.sum_nil, hnames, byteSize_nullable,
    Json.print, Json.byteSize_printStr, hschema, byteSize_printInt hpos, textSize_sha256 hhex]
  unfold releaseSize
  rw [hsize, Option.getD_some]
  omega

/-- The manifest of a release is built of its rows. -/
theorem buildOtaReleaseManifest_rows (hsize : artifact.sizeBytes = some sizeBytes)
    (hsafe : Js.isSafeInteger sizeBytes = true) (hpos : 0 ≤ sizeBytes)
    (hsha : artifact.checksumSha256 = some sha256) (hhex : Js.isSha256Hex sha256 = true) :
    buildOtaReleaseManifest ⟨artifact, some ⟨version, some software⟩, some platform,
      some architecture⟩ = .ok (rowsManifest software version platform architecture artifact sizeBytes
        sha256) := by
  unfold buildOtaReleaseManifest
  dsimp only
  rw [hsize, hsha]
  simp only [hsafe, hhex, Int.not_lt.mpr hpos, Bool.not_true, decide_false, Bool.or_self,
    Bool.false_eq_true, if_false]
  rfl

/-- The payload of a release. -/
theorem createOtaReleasePayload_rows (hsize : artifact.sizeBytes = some sizeBytes)
    (hsafe : Js.isSafeInteger sizeBytes = true) (hpos : 0 ≤ sizeBytes)
    (hsha : artifact.checksumSha256 = some sha256) (hhex : Js.isSha256Hex sha256 = true) :
    createOtaReleasePayload ⟨artifact, some ⟨version, some software⟩, some platform,
      some architecture⟩ = .ok (rowsManifest software version platform architecture artifact sizeBytes
        sha256).payload := by
  unfold createOtaReleasePayload
  rw [buildOtaReleaseManifest_rows software version platform architecture hsize hsafe hpos hsha hhex]
  rfl

/-- The length of a payload is within the limit exactly where the text has at most 90000 bytes. -/
theorem length_payload_le_iff (m : OtaReleaseManifest) :
    m.payload.toList.length ≤ 120000 ↔ Js.byteSize m.toJson.print ≤ 90000 := by
  have hlength : m.payload.toList.length = (Js.byteSize m.toJson.print * 4 + 2) / 3 := by
    unfold OtaReleaseManifest.payload
    rw [String.toList_ofList, Base64Url.length_encode, Json.stringify, Js.length_utf8_ofList]
  omega

/-- Only then is the payload canonical. -/
theorem canonical_payload_iff (m : OtaReleaseManifest) {bytes : List UInt8} :
    Canonical m.payload bytes ↔
      Js.byteSize m.toJson.print ≤ 90000 ∧ bytes = Js.utf8 m.toJson.stringify := by
  have hpayload : m.payload.toList = Base64Url.encode (Js.utf8 m.toJson.stringify) := by
    unfold OtaReleaseManifest.payload
    rw [String.toList_ofList]
  constructor
  · rintro ⟨-, hencode, hle⟩
    rw [hpayload] at hencode
    exact ⟨(length_payload_le_iff m).mp hle, (Base64Url.encode_injective hencode).symm⟩
  · intro ⟨hle, hbytes⟩
    rw [hbytes]
    refine ⟨?_, hpayload, (length_payload_le_iff m).mpr hle⟩
    refine Js.utf8_ne_nil fun hempty => ?_
    have hprint : m.toJson.print = [] := by
      rw [Json.stringify, ← String.ofList_nil] at hempty
      exact String.ofList_injective hempty
    cases hprint

/-- Only then do signatures verify over it. -/
theorem verify_payload_iff (node : Node) (m : OtaReleaseManifest) {signature : Json} {pem : String} :
    verifyOtaReleaseSignature node m.payload signature pem = true ↔
      Js.byteSize m.toJson.print ≤ 90000 ∧
        SignatureOver node (Js.utf8 m.toJson.stringify) signature pem := by
  rw [verifyOtaReleaseSignature_iff]
  constructor
  · intro ⟨bytes, hc, hs⟩
    have hle := (canonical_payload_iff m).mp hc
    rw [hle.2] at hs
    exact ⟨hle.1, hs⟩
  · exact fun ⟨hle, hs⟩ => ⟨_, (canonical_payload_iff m).mpr ⟨hle, rfl⟩, hs⟩

/-- Only then does the signer read it. -/
theorem parsePayload_payload_iff (m : OtaReleaseManifest) {product : String} {bytes : List UInt8}
    {manifest : Signer.Manifest} :
    Signer.parsePayload m.payload product = .ok (bytes, manifest) ↔
      Js.byteSize m.toJson.print ≤ 90000 ∧ bytes = Js.utf8 m.toJson.stringify ∧
        readManifest bytes product = .ok manifest := by
  rw [parsePayload_eq_ok_iff, canonical_payload_iff, and_assoc]

end rows

/-! ## The limits of the CMS -/

/-- What the CMS admits of the texts and numbers of a release. -/
structure WithinLimits (software : Software) (version : Version) (platform architecture : Target)
    (artifact : Artifact) : Prop where
  slug : Js.length software.slug ≤ 80
  parts : version.major ≤ 999999999 ∧ version.minor ≤ 999999999 ∧ version.patch ≤ 999999999
  codename : ∀ s, version.codename = some s → Js.length s ≤ 100
  changelog : ∀ s, version.changelog = some s → Js.length s ≤ 20000
  channel : artifact.channel ∈ channels
  platform : Js.length platform.name ≤ 50
  architecture : Js.length architecture.name ≤ 50
  fileName : Js.length artifact.fileName ≤ 255

/-- The number of a version has at most 29 characters. -/
theorem length_number_le {v : Version}
    (h : v.major ≤ 999999999 ∧ v.minor ≤ 999999999 ∧ v.patch ≤ 999999999) :
    Js.length v.number ≤ 29 := by
  have hdigits : ∀ n ≤ 999999999, (toString n).toList.length ≤ 9 := by
    intro n hn
    rw [Nat.toString_eq_repr, Nat.toList_repr]
    exact (Nat.length_toDigits_le_iff (by decide) (by decide)).mpr (Nat.lt_of_le_of_lt hn (by decide))
  have hdot : ".".toList.length = 1 := rfl
  have hmajor := hdigits _ h.1
  have hminor := hdigits _ h.2.1
  have hpatch := hdigits _ h.2.2
  rw [Js.length_of_ascii fun c hc => toNat_lt_of_isFileChar (isFileChar_of_mem_number hc)]
  unfold Version.number
  simp only [String.toList_append, List.length_append, hdot]
  omega

/-- Within the limits, everything but the changelog takes less than 4000 bytes. -/
theorem WithinLimits.releaseSize_le {software : Software} {version : Version}
    {platform architecture : Target} {artifact : Artifact} {sizeBytes : ℤ}
    (h : WithinLimits software version platform architecture artifact)
    (hsize : artifact.sizeBytes = some sizeBytes) (hsafe : Js.isSafeInteger sizeBytes = true) :
    releaseSize software version platform architecture artifact ≤
      3667 + nullableSize version.changelog := by
  have hslug := Json.textSize_le_six software.slug
  have hnumber := Json.textSize_le_six version.number
  have hplatform := Json.textSize_le_six platform.name
  have harchitecture := Json.textSize_le_six architecture.name
  have hfile := Json.textSize_le_six artifact.fileName
  have hchannel : Json.textSize artifact.channel ≤ 9 := by
    have hall : channels.all (fun s => Json.textSize s ≤ 9) = true := by decide +kernel
    exact of_decide_eq_true (List.all_eq_true.mp hall _ h.channel)
  have hcodename : nullableSize version.codename ≤ 602 := by
    cases hcode : version.codename with
    | none => exact (by decide : 4 ≤ 602)
    | some s =>
      have hlength := h.codename s hcode
      have htext := Json.textSize_le_six s
      change Json.textSize s ≤ 602
      omega
  have hdigits : (Nat.toDigits 10 (artifact.sizeBytes.getD 0).toNat).length ≤ 16 := by
    rw [hsize, Option.getD_some]
    unfold Js.isSafeInteger at hsafe
    simp only [Bool.and_eq_true, decide_eq_true_eq] at hsafe
    refine (Nat.length_toDigits_le_iff (by decide) (by decide)).mpr ?_
    have hbound : sizeBytes.toNat ≤ 9007199254740991 := by omega
    exact Nat.lt_of_le_of_lt hbound (by decide)
  have hslugLimit := h.slug
  have hnumberLimit := length_number_le h.parts
  have hplatformLimit := h.platform
  have harchitectureLimit := h.architecture
  have hfileLimit := h.fileName
  unfold releaseSize
  omega

/-- Within the limits, a changelog with few long escapes leaves room. -/
theorem WithinLimits.releaseSize_le_of_few {software : Software} {version : Version}
    {platform architecture : Target} {artifact : Artifact} {sizeBytes : ℤ}
    (h : WithinLimits software version platform architecture artifact)
    (hsize : artifact.sizeBytes = some sizeBytes) (hsafe : Js.isSafeInteger sizeBytes = true)
    (hfew : ∀ s, version.changelog = some s → s.toList.countP Json.isLongEscaped ≤ 8000) :
    releaseSize software version platform architecture artifact ≤ 90000 := by
  have hrest := h.releaseSize_le hsize hsafe
  have hchangelog : nullableSize version.changelog ≤ 84002 := by
    cases hlog : version.changelog with
    | none => exact (by decide : 4 ≤ 84002)
    | some s =>
      have htext := Json.textSize_le s
      have hlength := h.changelog s hlog
      have hcount := hfew s hlog
      change Json.textSize s ≤ 84002
      omega
  omega

/-- Every release with complete metadata has a payload. It has at most 120000 characters exactly where
the JSON texts of the eleven members sum up to at most 90000 bytes; only then are there signatures
that the server verifies over it, and only then does the signer read it. Within the limits of the CMS
this is so for every changelog with at most 8000 control characters that are written with six bytes. -/
theorem payload_fits_iff (node : Node) {software : Software} {version : Version}
    {platform architecture : Target} {artifact : Artifact} {sizeBytes : ℤ} {sha256 : String}
    (hsize : artifact.sizeBytes = some sizeBytes) (hsafe : Js.isSafeInteger sizeBytes = true)
    (hpos : 0 ≤ sizeBytes) (hsha : artifact.checksumSha256 = some sha256)
    (hhex : Js.isSha256Hex sha256 = true) :
    ∃ payload json, createOtaReleasePayload ⟨artifact, some ⟨version, some software⟩, some platform,
        some architecture⟩ = .ok payload ∧ payload.toList = Base64Url.encode json ∧
      (payload.toList.length ≤ 120000 ↔
        releaseSize software version platform architecture artifact ≤ 90000) ∧
      (∀ signature pem, verifyOtaReleaseSignature node payload signature pem = true ↔
        releaseSize software version platform architecture artifact ≤ 90000 ∧
          SignatureOver node json signature pem) ∧
      (∀ product bytes manifest, Signer.parsePayload payload product = .ok (bytes, manifest) ↔
        releaseSize software version platform architecture artifact ≤ 90000 ∧ bytes = json ∧
          readManifest bytes product = .ok manifest) ∧
      (WithinLimits software version platform architecture artifact →
        (∀ s, version.changelog = some s → s.toList.countP Json.isLongEscaped ≤ 8000) →
        payload.toList.length ≤ 120000) := by
  have hbytes := byteSize_rowsManifest software version platform architecture hsize hpos hhex
  refine ⟨_, Js.utf8 (rowsManifest software version platform architecture artifact sizeBytes
    sha256).toJson.stringify, createOtaReleasePayload_rows software version platform architecture hsize
    hsafe hpos hsha hhex, ?_, ?_, fun signature pem => ?_, fun product bytes manifest => ?_, fun h hfew => ?_⟩
  · unfold OtaReleaseManifest.payload
    rw [String.toList_ofList]
  · rw [length_payload_le_iff, hbytes]
  · rw [← hbytes]
    exact verify_payload_iff node _
  · rw [← hbytes]
    exact parsePayload_payload_iff _
  · rw [length_payload_le_iff, hbytes]
    exact h.releaseSize_le_of_few hsize hsafe hfew

/-! ## Two changelogs -/

/-- The release with a changelog of one repeated character. -/
def loggedVersion (c : Char) : Version :=
  { releaseVersion none with changelog := some (repeated 20000 c) }

/-- The length of a repeated character, and its bytes. -/
theorem length_repeated (n : ℕ) {c : Char} (h : c.toNat < 128) : Js.length (repeated n c) = n := by
  unfold repeated
  rw [Js.length_of_ascii, String.toList_ofList, List.length_replicate]
  intro d hd
  rw [String.toList_ofList] at hd
  rw [List.eq_of_mem_replicate hd]
  exact h

theorem textSize_repeated (n : ℕ) (c : Char) :
    Json.textSize (repeated n c) = n * Json.charSize c + 2 := by
  unfold Json.textSize repeated
  rw [String.toList_ofList, List.map_replicate, List.sum_replicate_nat]

/-- The CMS accepts such a changelog. -/
theorem parseChangelog_repeated {c : Char} (h : c.toNat < 128) :
    VersionService.parseChangelog (some (.str (repeated 20000 c))) =
      .ok (some (repeated 20000 c)) := by
  have hlength := length_repeated 20000 h
  unfold VersionService.parseChangelog
  split
  · rename_i he
    cases he
  · rename_i he
    cases he
  · rename_i he
    rw [Json.str.inj (Option.some.inj he)] at hlength
    cases hlength
  · rename_i value _ he
    obtain rfl := Json.str.inj (Option.some.inj he)
    rw [if_neg (by omega)]
  · rename_i hne he
    exact absurd (Option.some.inj he).symm (hne _)

/-- The targets of the release. -/
def windowsTarget : Target := ⟨"w", "windows", "Windows", none⟩

def x64Target : Target := ⟨"x", "x64", "x64", none⟩

/-- The release with such a changelog is within the limits. -/
theorem withinLimits_loggedVersion {c : Char} (h : c.toNat < 128) :
    WithinLimits releaseSoftware (loggedVersion c) windowsTarget x64Target unsigned where
  slug := by decide
  parts := by
    have hparts : (1 : ℕ) ≤ 999999999 ∧ (0 : ℕ) ≤ 999999999 ∧ (0 : ℕ) ≤ 999999999 := by decide
    exact hparts
  codename s hs := by cases hs
  changelog s hs := by
    obtain rfl := Option.some.inj hs
    exact Nat.le_of_eq (length_repeated 20000 h)
  channel := by decide
  platform := by decide
  architecture := by decide
  fileName := by decide

/-- A changelog of 20000 letters leaves a payload that can be verified. -/
theorem payload_fits_letters :
    ∃ payload, createOtaReleasePayload ⟨unsigned, some ⟨loggedVersion 'x', some releaseSoftware⟩,
        some windowsTarget, some x64Target⟩ = .ok payload ∧ payload.toList.length ≤ 120000 := by
  obtain ⟨payload, json, hcreate, -, -, -, -, hfits⟩ := @payload_fits_iff toyNode releaseSoftware
    (loggedVersion 'x') windowsTarget x64Target unsigned 1 (toyKeyId 'c') rfl (by decide) (by decide)
    rfl (by decide)
  refine ⟨payload, hcreate, hfits (withinLimits_loggedVersion (by decide)) fun s hs => ?_⟩
  obtain rfl := Option.some.inj hs
  have hnone : Json.isLongEscaped 'x' = false := by decide
  unfold repeated
  rw [String.toList_ofList, List.countP_replicate, hnone]
  exact Nat.zero_le _

/-- A changelog of 20000 control characters is accepted and leaves a payload that no signature
verifies over and that the signer refuses. -/
theorem payload_too_long :
    let control := Char.ofNat 1
    VersionService.parseChangelog (some (.str (repeated 20000 control))) =
      .ok (some (repeated 20000 control)) ∧
    WithinLimits releaseSoftware (loggedVersion control) windowsTarget x64Target unsigned ∧
    ∃ payload, createOtaReleasePayload ⟨unsigned, some ⟨loggedVersion control, some releaseSoftware⟩,
        some windowsTarget, some x64Target⟩ = .ok payload ∧ 120000 < payload.toList.length ∧
      (∀ signature pem, verifyOtaReleaseSignature toyNode payload signature pem = false) ∧
      ∀ product, ∃ e, Signer.parsePayload payload product = .error e := by
  intro control
  have hascii : control.toNat < 128 := by decide
  have hsix : Json.charSize control = 6 := by decide
  have hbytes := @byteSize_rowsManifest releaseSoftware (loggedVersion control) windowsTarget
    x64Target unsigned 1 (toyKeyId 'c') rfl (by decide) (by decide)
  have hlarge : 90000 < releaseSize releaseSoftware (loggedVersion control) windowsTarget x64Target
      unsigned := by
    have hchangelog : nullableSize (loggedVersion control).changelog = 120002 := by
      change Json.textSize (repeated 20000 control) = 120002
      rw [textSize_repeated, hsix]
    unfold releaseSize
    omega
  refine ⟨parseChangelog_repeated hascii, withinLimits_loggedVersion hascii, _,
    createOtaReleasePayload_rows _ _ _ _ rfl (by decide) (by decide) rfl (by decide), ?_,
    fun signature pem => ?_, fun product => ?_⟩
  · by_contra hle
    have hfits := (length_payload_le_iff _).mp (Nat.not_lt.mp hle)
    rw [hbytes] at hfits
    omega
  · refine Bool.not_eq_true _ ▸ fun hverify => ?_
    have hfits := ((verify_payload_iff toyNode _).mp hverify).1
    rw [hbytes] at hfits
    omega
  · cases hparse : Signer.parsePayload _ product with
    | error e => exact ⟨e, rfl⟩
    | ok found =>
      have hfits := ((parsePayload_payload_iff _).mp hparse).1
      rw [hbytes] at hfits
      omega

end Reeva
