import Reeva.Storage.ResolvedSettings

/-!
# The forms of an S3-compatible provider

A form is merged with the configuration that it edits, and the result is brought into normal form.
`normalizedProviderConfig_eq_ok_iff` says field by field which settings are saved.
-/

namespace Reeva

open Legacy (bind_eq_ok map_eq_ok)
open StorageProviderService

section texts

variable {value : Option Json} {label text : String} {maxLength : ℕ}

/-- `inputString` returns trimmed strings of at most the length that is allowed. -/
theorem inputString_eq_ok (h : inputString value label maxLength = .ok text) :
    Js.trim text = text ∧ Js.length text ≤ maxLength := by
  unfold inputString at h
  split at h
  · obtain rfl := Except.ok.inj h
    exact ⟨by decide, Nat.zero_le _⟩
  · obtain rfl := Except.ok.inj h
    exact ⟨by decide, Nat.zero_le _⟩
  · obtain rfl := Except.ok.inj h
    exact ⟨by decide, Nat.zero_le _⟩
  · rename_i s _
    split_ifs at h with hlong
    obtain rfl := Except.ok.inj h
    exact ⟨trim_trim s, (Js.length_trim_le s).trans (Nat.le_of_not_lt hlong)⟩
  · cases h

/-- A string that is not too long is read. -/
theorem inputString_str (label : String) {s : String} (h : Js.length s ≤ maxLength) :
    inputString (some (.str s)) label maxLength = .ok (Js.trim s) := by
  have hempty : Js.trim "" = "" := by decide
  unfold inputString
  split
  · rename_i he
    cases he
  · rename_i he
    cases he
  · rename_i he
    obtain rfl := Json.str.inj (Option.some.inj he)
    rw [hempty]
  · rename_i t _ he
    obtain rfl := Json.str.inj (Option.some.inj he)
    rw [if_neg (Nat.not_lt.mpr h)]
  · rename_i hstr he
    exact absurd (Option.some.inj he).symm (hstr s)

/-- A string that is read is not too long. -/
theorem length_of_inputString {s : String} (h : inputString (some (.str s)) label maxLength = .ok text) :
    Js.length s ≤ maxLength := by
  by_contra hlong
  have hne : s ≠ "" := by
    rintro rfl
    exact hlong (Nat.zero_le _)
  unfold inputString at h
  split at h
  · rename_i he
    cases he
  · rename_i he
    cases he
  · rename_i he
    exact hne (Json.str.inj (Option.some.inj he))
  · rename_i t _ he
    obtain rfl := Json.str.inj (Option.some.inj he)
    rw [if_pos (Nat.lt_of_not_le hlong)] at h
    cases h
  · cases h

/-- A text that was entered is read where it is not empty. -/
theorem asOptionalString_entered (name : String) (htrim : Js.trim text = text) :
    asOptionalString (entered text) name = .ok (if text = "" then none else some text) := by
  unfold entered
  split_ifs with hempty
  · rfl
  · exact asOptionalString_trimmed name htrim hempty

end texts

/-! ## Merging -/

/-- What is entered into a form. -/
structure Entries where
  accessKeyId : String
  secretAccessKey : String
  bucket : String
  region : String
  endpoint : String
  forcePathStyle : String
  sessionToken : String

/-- The value of a field of a form, or the one that is stored. -/
def merge (input : Json) (existing : Option Json) (key : String) : Option Json :=
  coalesce (input.get? key) (existing.bind (·.get? key))

/-- Whether a form clears the credentials. -/
def clearsCredentials (input : Json) : Bool := isChecked (input.get? "clearCredentials")

/-- Whether a form clears the session token. -/
def clearsSessionToken (input : Json) : Bool :=
  clearsCredentials input || isChecked (input.get? "clearSessionToken")

/-- The entries of a form that are accepted. -/
structure Entries.ReadFrom (input : Json) (existing : Option Json) (e : Entries) : Prop where
  accessKeyId : inputString (input.get? "accessKeyId") "Access key ID" 512 = .ok e.accessKeyId
  secretAccessKey :
    inputString (input.get? "secretAccessKey") "Secret access key" 4096 = .ok e.secretAccessKey
  cleared : clearsCredentials input = true → e.accessKeyId = "" ∧ e.secretAccessKey = ""
  paired : clearsCredentials input = false → (e.accessKeyId = "" ↔ e.secretAccessKey = "")
  bucket : inputString (merge input existing "bucket") "Bucket name" 255 = .ok e.bucket
  region : inputString (merge input existing "region") "Region" 100 = .ok e.region
  endpoint : inputString (merge input existing "endpoint") "Endpoint" 2048 = .ok e.endpoint
  forcePathStyle :
    inputString (merge input existing "forcePathStyle") "Path style" 16 = .ok e.forcePathStyle
  sessionToken : inputString (input.get? "sessionToken") "Session token" 4096 = .ok e.sessionToken

/-- A credential that is merged: the one that is entered, or the one that is stored under its name or
under the name that older releases gave it. -/
def mergedSecret (input : Json) (existing : Option Json) (text key legacyKey : String) :
    Option Json :=
  if clearsCredentials input then none
  else orJson (entered text)
    (orJson (existing.bind (·.get? key)) (existing.bind (·.get? legacyKey)))

/-- The session token that is merged. -/
def mergedToken (input : Json) (existing : Option Json) (text : String) : Option Json :=
  if clearsSessionToken input then none
  else orJson (entered text) (existing.bind (·.get? "sessionToken"))

/-- The members that are merged. -/
def Entries.merged (e : Entries) (driver : String) (input : Json) (existing : Option Json) :
    List (String × Option Json) := [
  ("driver", some (.str driver)),
  ("bucket", some (.str e.bucket)),
  ("region", some (.str (if e.region = "" then "us-east-1" else e.region))),
  ("endpoint", entered e.endpoint),
  ("forcePathStyle", some (.str (if e.forcePathStyle = "" then "auto" else e.forcePathStyle))),
  ("maxAttempts", merge input existing "maxAttempts"),
  ("connectionTimeoutMs", merge input existing "connectionTimeoutMs"),
  ("socketTimeoutMs", merge input existing "socketTimeoutMs"),
  ("downloadUrlTtlSeconds", merge input existing "downloadUrlTtlSeconds"),
  ("accessKeyId", mergedSecret input existing e.accessKeyId "accessKeyId" "accessKey"),
  ("secretAccessKey", mergedSecret input existing e.secretAccessKey "secretAccessKey" "secretKey"),
  ("sessionToken", mergedToken input existing e.sessionToken)]

section merging

variable {driver : String} {input : Json} {existing : Option Json} {e : Entries}

/-- A member of what is merged. -/
theorem Entries.get?_merged (e : Entries) (driver : String) (input : Json) (existing : Option Json)
    (k : String) :
    (Json.obj (present (e.merged driver input existing))).get? k =
      ((e.merged driver input existing).lookup k).join := by
  have hnames : (e.merged driver input existing).map (·.1) = ["driver", "bucket", "region",
      "endpoint", "forcePathStyle", "maxAttempts", "connectionTimeoutMs", "socketTimeoutMs",
      "downloadUrlTtlSeconds", "accessKeyId", "secretAccessKey", "sessionToken"] := rfl
  refine get?_present ?_ k
  rw [hnames]
  decide

/-- What is accepted of a form is merged. -/
theorem mergedConfig_eq_ok_iff {config : Json} :
    mergedConfig driver input existing = .ok config ↔
      ∃ e : Entries, e.ReadFrom input existing ∧
        config = .obj (present (e.merged driver input existing)) := by
  constructor
  · intro h
    unfold mergedConfig at h
    obtain ⟨accessKeyId, haccess, h⟩ := bind_eq_ok.mp h
    obtain ⟨secretAccessKey, hsecret, h⟩ := bind_eq_ok.mp h
    dsimp only at h
    -- The two checks of the credentials stand before the other fields are read.
    by_cases hcleared : isChecked (input.get? "clearCredentials") = true ∧
        (accessKeyId ≠ "" ∨ secretAccessKey ≠ "")
    · rw [if_pos hcleared] at h
      cases h
    by_cases hpaired : isChecked (input.get? "clearCredentials") = false ∧
        decide (accessKeyId = "") ≠ decide (secretAccessKey = "")
    · rw [if_neg hcleared, if_pos hpaired] at h
      cases h
    rw [if_neg hcleared, if_neg hpaired] at h
    obtain ⟨bucket, hbucket, h⟩ := bind_eq_ok.mp h
    obtain ⟨region, hregion, h⟩ := bind_eq_ok.mp h
    obtain ⟨endpoint, hendpoint, h⟩ := bind_eq_ok.mp h
    obtain ⟨forcePathStyle, hstyle, h⟩ := bind_eq_ok.mp h
    obtain ⟨sessionToken, htoken, h⟩ := bind_eq_ok.mp h
    push Not at hcleared hpaired
    refine ⟨⟨accessKeyId, secretAccessKey, bucket, region, endpoint, forcePathStyle, sessionToken⟩,
      ⟨haccess, hsecret, hcleared, fun hclear => ?_, hbucket, hregion, hendpoint, hstyle, htoken⟩,
      (Except.ok.inj h).symm⟩
    exact decide_eq_decide.mp (hpaired hclear)
  · rintro ⟨e, he, rfl⟩
    have hcleared : ¬(isChecked (input.get? "clearCredentials") = true ∧
        (e.accessKeyId ≠ "" ∨ e.secretAccessKey ≠ "")) := by
      rintro ⟨hclear, hne | hne⟩
      · exact hne (he.cleared hclear).1
      · exact hne (he.cleared hclear).2
    have hpaired : ¬(isChecked (input.get? "clearCredentials") = false ∧
        decide (e.accessKeyId = "") ≠ decide (e.secretAccessKey = "")) :=
      fun h => h.2 (decide_eq_decide.mpr (he.paired h.1))
    unfold mergedConfig
    refine bind_eq_ok.mpr ⟨_, he.accessKeyId, bind_eq_ok.mpr ⟨_, he.secretAccessKey, ?_⟩⟩
    dsimp only
    rw [if_neg hcleared, if_neg hpaired]
    refine bind_eq_ok.mpr ⟨_, he.bucket, bind_eq_ok.mpr ⟨_, he.region, ?_⟩⟩
    refine bind_eq_ok.mpr ⟨_, he.endpoint, bind_eq_ok.mpr ⟨_, he.forcePathStyle, ?_⟩⟩
    exact bind_eq_ok.mpr ⟨_, he.sessionToken, rfl⟩

end merging

/-! ## Reading a form -/

/-- A bucket's name as it is read of a form. -/
def readBucket (value : Option Json) : Except String String := do
  let bucket ← inputString value "Bucket name" 255
  if bucket = "" ∨ badBucket bucket = true then
    .error "S3_BUCKET is required and cannot contain path separators or whitespace."
  else return bucket

/-- A region as it is read of a form. -/
def readRegion (value : Option Json) : Except String String := do
  let region ← inputString value "Region" 100
  return if region = "" then "us-east-1" else region

/-- An endpoint as it is read of a form. -/
def readEndpoint (parseUrl : String → Option Url) (driver : String) (value : Option Json) :
    Except String (Option String) := do
  let endpoint ← inputString value "Endpoint" 2048
  normalizeEndpoint parseUrl (if endpoint = "" then none else some endpoint)
    (takesLegacyHost driver) none none

/-- The path style that a text stands for; `none` is the automatic one. -/
def pathStyle (text : String) : Except String (Option Bool) :=
  if text = "" ∨ text = "auto" then .ok none
  else if text = "true" then .ok (some true)
  else if text = "false" then .ok (some false)
  else .error "S3_FORCE_PATH_STYLE must be one of auto, true, or false."

/-- A path style as it is read of a form. -/
def readPathStyle (value : Option Json) : Except String (Option Bool) := do
  pathStyle (← inputString value "Path style" 16)

/-- The automatic path style. -/
def automaticPathStyle (driver : String) (endpoint : Option String) : Bool :=
  driver = "minio" || driver = "seaweedfs" || endpoint.any (· ≠ "")

/-- The settings that are read of a form and of the configuration that it edits. -/
structure FormReads (parseUrl : String → Option Url) (driver : String) (input : Json)
    (existing : Option Json) (s : Settings) : Prop where
  bucket : readBucket (merge input existing "bucket") = .ok s.bucket
  region : readRegion (merge input existing "region") = .ok s.region
  endpoint : readEndpoint parseUrl driver (merge input existing "endpoint") = .ok s.endpoint
  forcePathStyle : ∃ style, readPathStyle (merge input existing "forcePathStyle") = .ok style ∧
    s.forcePathStyle = style.getD (automaticPathStyle driver s.endpoint)
  maxAttempts : asPositiveInteger (merge input existing "maxAttempts") 3 "S3_MAX_ATTEMPTS" 10 =
    .ok s.maxAttempts
  connectionTimeoutMs : asPositiveInteger (merge input existing "connectionTimeoutMs") 10000
    "S3_CONNECTION_TIMEOUT_MS" 120000 = .ok s.connectionTimeoutMs
  socketTimeoutMs : asPositiveInteger (merge input existing "socketTimeoutMs") 120000
    "S3_SOCKET_TIMEOUT_MS" 600000 = .ok s.socketTimeoutMs
  downloadUrlTtlSeconds : asPositiveInteger (merge input existing "downloadUrlTtlSeconds") 3600
    "S3_DOWNLOAD_URL_TTL_SECONDS" 604800 = .ok s.downloadUrlTtlSeconds
  secrets : ∃ id secret token,
    inputString (input.get? "accessKeyId") "Access key ID" 512 = .ok id ∧
    inputString (input.get? "secretAccessKey") "Secret access key" 4096 = .ok secret ∧
    inputString (input.get? "sessionToken") "Session token" 4096 = .ok token ∧
    (clearsCredentials input = true → id = "" ∧ secret = "") ∧
    (clearsCredentials input = false → (id = "" ↔ secret = "")) ∧
    asOptionalString (mergedSecret input existing id "accessKeyId" "accessKey")
      "S3_ACCESS_KEY_ID" = .ok s.accessKeyId ∧
    asOptionalString (mergedSecret input existing secret "secretAccessKey" "secretKey")
      "S3_SECRET_ACCESS_KEY" = .ok s.secretAccessKey ∧
    asOptionalString (mergedToken input existing token) "S3_SESSION_TOKEN" = .ok s.sessionToken
  paired : s.accessKeyId.isSome = s.secretAccessKey.isSome
  token : s.sessionToken.isSome = true → s.accessKeyId ≠ none

section reading

variable {parseUrl : String → Option Url} {driver text : String} {input : Json}
  {value existing : Option Json}

theorem readBucket_eq_ok_iff (h : inputString value "Bucket name" 255 = .ok text) {bucket : String} :
    readBucket value = .ok bucket ↔
      asOptionalString (some (.str text)) "S3_BUCKET" = .ok (some bucket) ∧
        badBucket bucket = false := by
  have htrim := (inputString_eq_ok h).1
  have hread : readBucket value = if text = "" ∨ badBucket text = true then
      .error "S3_BUCKET is required and cannot contain path separators or whitespace."
      else .ok text := by
    unfold readBucket
    rw [h]
    rfl
  rw [hread]
  by_cases hempty : text = ""
  · rw [if_pos (.inl hempty), hempty]
    exact ⟨fun h => (by cases h), fun h => (by cases h.1)⟩
  · rw [asOptionalString_trimmed _ htrim hempty]
    split_ifs with hbad
    · refine ⟨fun h => (by cases h), fun h => ?_⟩
      obtain rfl := Option.some.inj (Except.ok.inj h.1)
      obtain hbad | hbad := hbad
      · exact absurd hbad hempty
      · rw [h.2] at hbad
        cases hbad
    · push Not at hbad
      constructor
      · intro h
        obtain rfl := Except.ok.inj h
        exact ⟨rfl, Bool.eq_false_iff.mpr hbad.2⟩
      · intro h
        rw [Option.some.inj (Except.ok.inj h.1)]

theorem readRegion_eq_ok_iff (h : inputString value "Region" 100 = .ok text) {region : String} :
    readRegion value = .ok region ↔ ∃ r,
      asOptionalString (some (.str (if text = "" then "us-east-1" else text))) "S3_REGION" = .ok r ∧
        region = r.getD "us-east-1" := by
  have hread : readRegion value = .ok (if text = "" then "us-east-1" else text) := by
    unfold readRegion
    rw [h]
    rfl
  have hsame : asOptionalString (some (.str (if text = "" then "us-east-1" else text))) "S3_REGION" =
      .ok (some (if text = "" then "us-east-1" else text)) := by
    split_ifs with hempty
    · exact asOptionalString_trimmed _ (by decide) (by decide)
    · exact asOptionalString_trimmed _ (inputString_eq_ok h).1 hempty
  rw [hread, hsame]
  constructor
  · intro h
    exact ⟨_, rfl, (Except.ok.inj h).symm⟩
  · rintro ⟨r, hr, rfl⟩
    rw [← Except.ok.inj hr]
    rfl

theorem readEndpoint_eq_ok_iff (h : inputString value "Endpoint" 2048 = .ok text)
    {endpoint : Option String} :
    readEndpoint parseUrl driver value = .ok endpoint ↔ ∃ e,
      asOptionalString (entered text) "S3_ENDPOINT" = .ok e ∧
        normalizeEndpoint parseUrl e (takesLegacyHost driver) none none = .ok endpoint := by
  have hread : readEndpoint parseUrl driver value =
      normalizeEndpoint parseUrl (if text = "" then none else some text) (takesLegacyHost driver)
        none none := by
    unfold readEndpoint
    rw [h]
    rfl
  rw [hread, asOptionalString_entered _ (inputString_eq_ok h).1]
  constructor
  · exact fun h => ⟨_, rfl, h⟩
  · rintro ⟨e, he, h⟩
    rw [Except.ok.inj he]
    exact h

theorem readPathStyle_eq_ok_iff (h : inputString value "Path style" 16 = .ok text)
    {endpoint : Option String} {forcePathStyle : Bool} :
    (∃ style, readPathStyle value = .ok style ∧
        forcePathStyle = style.getD (automaticPathStyle driver endpoint)) ↔
      parsePathStyle (some (.str (if text = "" then "auto" else text))) endpoint driver =
        .ok forcePathStyle := by
  have hread : readPathStyle value = pathStyle text := by
    unfold readPathStyle
    rw [h]
    rfl
  have hparse : parsePathStyle (some (.str (if text = "" then "auto" else text))) endpoint driver =
      (pathStyle text).map (·.getD (automaticPathStyle driver endpoint)) := by
    unfold pathStyle
    -- The three words of the form, and any other text.
    by_cases hauto : text = "" ∨ text = "auto"
    · rw [if_pos hauto]
      obtain rfl | rfl := hauto <;> rfl
    rw [if_neg hauto]
    by_cases htrue : text = "true"
    · subst htrue
      rfl
    rw [if_neg htrue]
    by_cases hfalse : text = "false"
    · subst hfalse
      rfl
    rw [if_neg hfalse, if_neg (not_or.mp hauto).1]
    have hne : ∀ literal, text ≠ literal → some (Json.str text) ≠ some (.str literal) :=
      fun literal hne he => hne (Json.str.inj (Option.some.inj he))
    unfold parsePathStyle
    split
    · rename_i he
      cases he
    · rename_i he
      exact absurd he (hne _ htrue)
    · rename_i he
      cases he
    · rename_i he
      exact absurd he (hne _ hfalse)
    · rename_i he
      cases he
    · rename_i he
      cases he
    · rename_i he
      exact absurd he (hne _ (not_or.mp hauto).1)
    · rename_i he
      exact absurd he (hne _ (not_or.mp hauto).2)
    · rfl
  rw [hread, hparse]
  constructor
  · rintro ⟨style, hstyle, rfl⟩
    rw [hstyle]
    rfl
  · intro hmap
    obtain ⟨style, hstyle, hb⟩ := map_eq_ok.mp hmap
    exact ⟨style, hstyle, hb.symm⟩

/-- Where settings are read of a form its entries are accepted. -/
theorem FormReads.entries {s : Settings} (h : FormReads parseUrl driver input existing s) :
    ∃ e : Entries, e.ReadFrom input existing := by
  obtain ⟨bucket, hbucket, -⟩ := bind_eq_ok.mp h.bucket
  obtain ⟨region, hregion, -⟩ := bind_eq_ok.mp h.region
  obtain ⟨endpoint, hendpoint, -⟩ := bind_eq_ok.mp h.endpoint
  obtain ⟨_, hread, -⟩ := h.forcePathStyle
  obtain ⟨style, hstyle, -⟩ := bind_eq_ok.mp hread
  obtain ⟨id, secret, token, hid, hsecret, htoken, hcleared, hpaired, -⟩ := h.secrets
  exact ⟨⟨id, secret, bucket, region, endpoint, style, token⟩,
    ⟨hid, hsecret, hcleared, hpaired, hbucket, hregion, hendpoint, hstyle, htoken⟩⟩

/-- The settings of what is merged are those that are read of the form. -/
theorem readFrom_merged_iff {e : Entries} (he : e.ReadFrom input existing) {s : Settings} :
    s.ReadFrom parseUrl driver (.obj (present (e.merged driver input existing))) ↔
      FormReads parseUrl driver input existing s := by
  have hget := e.get?_merged driver input existing
  -- A current name whose value is null falls back to the old one, which is not there.
  have hcurrent : ∀ o : Option Json, ∀ name, asOptionalString (coalesce o none) name =
      asOptionalString o name := by
    intro o name
    cases o with
    | none => rfl
    | some v => cases v <;> rfl
  constructor
  · intro h
    obtain ⟨endpoint, hendpoint, hnormal⟩ := h.endpoint
    obtain ⟨region, hregion, hdefault⟩ := h.region
    have hbucket := h.bucket
    have haccess := h.accessKeyId
    have hsecret := h.secretAccessKey
    have htoken := h.sessionToken
    have hstyle := h.forcePathStyle
    have hattempts := h.maxAttempts
    have hconnection := h.connectionTimeoutMs
    have hsocket := h.socketTimeoutMs
    have hdownload := h.downloadUrlTtlSeconds
    rw [hget] at hbucket hendpoint hregion htoken hstyle hattempts hconnection hsocket hdownload
    rw [hget, hget] at haccess hsecret hnormal
    constructor
    · exact (readBucket_eq_ok_iff he.bucket).mpr ⟨hbucket, h.bucketChars⟩
    · exact (readRegion_eq_ok_iff he.region).mpr ⟨region, hregion, hdefault⟩
    · exact (readEndpoint_eq_ok_iff he.endpoint).mpr ⟨endpoint, hendpoint, hnormal⟩
    · exact (readPathStyle_eq_ok_iff he.forcePathStyle).mpr hstyle
    · exact hattempts
    · exact hconnection
    · exact hsocket
    · exact hdownload
    · exact ⟨_, _, _, he.accessKeyId, he.secretAccessKey, he.sessionToken, he.cleared, he.paired,
        (hcurrent _ _).symm.trans haccess, (hcurrent _ _).symm.trans hsecret, htoken⟩
    · exact h.paired
    · exact h.token
  · intro h
    obtain ⟨hbucket, hchars⟩ := (readBucket_eq_ok_iff he.bucket).mp h.bucket
    obtain ⟨id, secret, token, hid, hsecret, htoken, -, -, hread⟩ := h.secrets
    obtain rfl := Except.ok.inj (he.accessKeyId.symm.trans hid)
    obtain rfl := Except.ok.inj (he.secretAccessKey.symm.trans hsecret)
    obtain rfl := Except.ok.inj (he.sessionToken.symm.trans htoken)
    constructor
    · exact ⟨_, rfl⟩
    · rw [hget]
      exact hbucket
    · exact hchars
    · rw [hget, hget, hget]
      exact (readEndpoint_eq_ok_iff he.endpoint).mp h.endpoint
    · rw [hget, hget]
      exact (hcurrent _ _).trans hread.1
    · rw [hget, hget]
      exact (hcurrent _ _).trans hread.2.1
    · rw [hget]
      exact hread.2.2
    · exact h.paired
    · exact h.token
    · rw [hget]
      exact (readRegion_eq_ok_iff he.region).mp h.region
    · rw [hget]
      exact h.maxAttempts
    · rw [hget]
      exact h.connectionTimeoutMs
    · rw [hget]
      exact h.socketTimeoutMs
    · rw [hget]
      exact h.downloadUrlTtlSeconds
    · rw [hget]
      exact (readPathStyle_eq_ok_iff he.forcePathStyle).mp h.forcePathStyle

/-- The settings that are saved of a form are those that are read of it. -/
theorem normalizedProviderConfig_eq_ok_iff {platform : StoragePlatform} (hdriver : driver ∈ s3Drivers)
    {config : Json} :
    normalizedProviderConfig platform driver input existing = .ok config ↔
      ∃ s : Settings, FormReads platform.parseUrl driver input existing s ∧
        config = s.stored (some driver) := by
  have hlocal : driver ≠ "local" := by
    rintro rfl
    revert hdriver
    decide
  have hcontains : ¬s3Drivers.contains driver = false := by
    rw [List.contains_iff_mem.mpr hdriver]
    simp
  have hnormal : normalizedProviderConfig platform driver input existing =
      (mergedConfig driver input existing >>= fun config =>
        (normalizeS3CompatibleConfig platform.parseUrl config driver).map fun r =>
          .obj (("driver", .str driver) :: r)) := by
    unfold normalizedProviderConfig
    rw [if_neg hlocal, if_neg hcontains]
    rfl
  rw [hnormal]
  constructor
  · intro h
    obtain ⟨merged, hmerged, h⟩ := bind_eq_ok.mp h
    obtain ⟨r, hr, rfl⟩ := map_eq_ok.mp h
    obtain ⟨e, he, rfl⟩ := mergedConfig_eq_ok_iff.mp hmerged
    obtain ⟨s, hs, rfl⟩ := normalize_eq_ok_iff.mp hr
    exact ⟨s, (readFrom_merged_iff he).mp hs, rfl⟩
  · rintro ⟨s, hs, rfl⟩
    obtain ⟨e, he⟩ := hs.entries
    refine bind_eq_ok.mpr ⟨_, mergedConfig_eq_ok_iff.mpr ⟨e, he, rfl⟩, ?_⟩
    rw [((readFrom_merged_iff he).mpr hs).normalize]
    rfl

end reading

end Reeva
