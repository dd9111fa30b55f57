import Reeva.Storage.ProviderForms

/-!
# Updates that leave fields out

A field that a form leaves out falls back to what is stored. Stored values went through the validators
of forms, but were normalised since: `omitted_fields_kept_iff` says which of them the validators accept
again.
-/

namespace Reeva

open Legacy (bind_eq_ok map_eq_ok)
open StorageProviderService

/-- What a form says about a field: nothing, or a value that its validator accepts. -/
inductive Gives {α : Type} (value : Option Json) (read : Option Json → Except String α) :
    Option α → Prop
  | omitted (h : coalesce value none = none) : Gives value read none
  | given {a : α} (h : coalesce value none ≠ none) (hread : read value = .ok a) :
    Gives value read (some a)

section giving

variable {α : Type} {value stored : Option Json} {check : Option Json → Except String α} {a : α}
  {given : Option α}

/-- A field that is left out falls back to what is stored. -/
theorem coalesce_of_omitted (h : coalesce value none = none) (stored : Option Json) :
    coalesce value stored = stored := by
  cases value with
  | none => rfl
  | some v => cases v <;> first | rfl | cases h

/-- A field with a value does not. -/
theorem coalesce_of_given (h : coalesce value none ≠ none) (stored : Option Json) :
    coalesce value stored = value := by
  cases value with
  | none => exact absurd rfl h
  | some v => cases v <;> first | rfl | exact absurd rfl h

/-- Where the validator accepts what is stored, it accepts what a form makes of it. -/
theorem Gives.coalesce (h : Gives value check given) (hstored : given = none → check stored = .ok a) :
    check (coalesce value stored) = .ok (given.getD a) := by
  cases h with
  | omitted hnone =>
    rw [coalesce_of_omitted hnone]
    exact hstored rfl
  | given hsome hread =>
    rw [coalesce_of_given hsome]
    exact hread

end giving

/-- The root of a local provider as it is read of a form. -/
def readRoot (value : Option Json) : Except String String := do
  let root ← inputString value "Storage root" 2048
  if root = "" ∨ NodePath.isAbsolute root = false then
    .error "Local storage root must be an absolute path."
  else return root

/-- What a form says about the credentials: nothing, that they are cleared, or a pair of keys. -/
inductive GivesCredentials (input : Json) : Option (Option (String × String)) → Prop
  | omitted (hid : inputString (input.get? "accessKeyId") "Access key ID" 512 = .ok "")
    (hsecret : inputString (input.get? "secretAccessKey") "Secret access key" 4096 = .ok "")
    (hclear : clearsCredentials input = false) : GivesCredentials input none
  | cleared (hid : inputString (input.get? "accessKeyId") "Access key ID" 512 = .ok "")
    (hsecret : inputString (input.get? "secretAccessKey") "Secret access key" 4096 = .ok "")
    (hclear : clearsCredentials input = true) : GivesCredentials input (some none)
  | given {id secret : String}
    (hid : inputString (input.get? "accessKeyId") "Access key ID" 512 = .ok id) (hne : id ≠ "")
    (hsecret : inputString (input.get? "secretAccessKey") "Secret access key" 4096 = .ok secret)
    (hne' : secret ≠ "") (hclear : clearsCredentials input = false) :
    GivesCredentials input (some (some (id, secret)))

/-- What a form says about the session token. -/
inductive GivesToken (input : Json) : Option (Option String) → Prop
  | omitted (h : inputString (input.get? "sessionToken") "Session token" 4096 = .ok "")
    (hclear : clearsSessionToken input = false) : GivesToken input none
  | cleared (h : inputString (input.get? "sessionToken") "Session token" 4096 = .ok "")
    (hclear : clearsSessionToken input = true) : GivesToken input (some none)
  | given {token : String}
    (h : inputString (input.get? "sessionToken") "Session token" 4096 = .ok token)
    (hne : token ≠ "") (hclear : clearsSessionToken input = false) :
    GivesToken input (some (some token))

/-- The values that a form gives for the settings. -/
structure Edit where
  bucket : Option String
  region : Option String
  endpoint : Option (Option String)
  forcePathStyle : Option (Option Bool)
  maxAttempts : Option ℤ
  connectionTimeoutMs : Option ℤ
  socketTimeoutMs : Option ℤ
  downloadUrlTtlSeconds : Option ℤ
  credentials : Option (Option (String × String))
  sessionToken : Option (Option String)

/-- The settings with the values that are given, and the old values of those that are left out. -/
def Edit.applied (driver : String) (e : Edit) (old : Settings) : Settings where
  bucket := e.bucket.getD old.bucket
  region := e.region.getD old.region
  endpoint := e.endpoint.getD old.endpoint
  accessKeyId := e.credentials.elim old.accessKeyId (·.map (·.1))
  secretAccessKey := e.credentials.elim old.secretAccessKey (·.map (·.2))
  sessionToken := e.sessionToken.getD old.sessionToken
  forcePathStyle := e.forcePathStyle.elim old.forcePathStyle
    (·.getD (automaticPathStyle driver (e.endpoint.getD old.endpoint)))
  maxAttempts := e.maxAttempts.getD old.maxAttempts
  connectionTimeoutMs := e.connectionTimeoutMs.getD old.connectionTimeoutMs
  socketTimeoutMs := e.socketTimeoutMs.getD old.socketTimeoutMs
  downloadUrlTtlSeconds := e.downloadUrlTtlSeconds.getD old.downloadUrlTtlSeconds

/-- A form gives these values, which are valid; a session token goes with credentials. -/
structure Edit.GivenBy (parseUrl : String → Option Url) (driver : String) (old : Settings)
    (input : Json) (e : Edit) : Prop where
  bucket : Gives (input.get? "bucket") readBucket e.bucket
  region : Gives (input.get? "region") readRegion e.region
  endpoint : Gives (input.get? "endpoint") (readEndpoint parseUrl driver) e.endpoint
  forcePathStyle : Gives (input.get? "forcePathStyle") readPathStyle e.forcePathStyle
  maxAttempts : Gives (input.get? "maxAttempts")
    (asPositiveInteger · 3 "S3_MAX_ATTEMPTS" 10) e.maxAttempts
  connectionTimeoutMs : Gives (input.get? "connectionTimeoutMs")
    (asPositiveInteger · 10000 "S3_CONNECTION_TIMEOUT_MS" 120000) e.connectionTimeoutMs
  socketTimeoutMs : Gives (input.get? "socketTimeoutMs")
    (asPositiveInteger · 120000 "S3_SOCKET_TIMEOUT_MS" 600000) e.socketTimeoutMs
  downloadUrlTtlSeconds : Gives (input.get? "downloadUrlTtlSeconds")
    (asPositiveInteger · 3600 "S3_DOWNLOAD_URL_TTL_SECONDS" 604800) e.downloadUrlTtlSeconds
  credentials : GivesCredentials input e.credentials
  sessionToken : GivesToken input e.sessionToken
  token : ∀ t, e.sessionToken = some (some t) → (e.applied driver old).accessKeyId ≠ none

/-- A provider that was created, or edited before. -/
inductive Kept (platform : StoragePlatform) (p : StorageProvider) : Prop
  | created (id : Id) (input : Json) (h : createProvider platform id input = .ok p)
  | edited (provider : StorageProvider) (input : Json)
    (h : updateProvider platform provider input = .ok p)

/-- What is known of the settings of such a provider. -/
structure KeptSettings (parseUrl : String → Option Url) (driver : String) (s : Settings) : Prop where
  value : ∃ value, s.ReadFrom parseUrl driver value
  bucket : Js.length s.bucket ≤ 255
  region : Js.length s.region ≤ 100

section updating

variable {platform : StoragePlatform} {parseUrl : String → Option Url} {driver : String}
  {input : Json} {existing : Option Json} {old s : Settings} {e : Edit} {p : StorageProvider}

/-- What is saved of a form for a local provider. -/
theorem normalizedProviderConfig_local (platform : StoragePlatform) (input : Json)
    (existing : Option Json) :
    normalizedProviderConfig platform "local" input existing =
      (readRoot (merge input existing "root")).map fun root =>
        .obj [("driver", .str "local"), ("root", .str root)] := by
  unfold normalizedProviderConfig readRoot merge
  rw [if_pos rfl]
  cases inputString (coalesce (input.get? "root") (existing.bind (·.get? "root"))) "Storage root"
      2048 with
  | error message => rfl
  | ok root =>
    change (if root = "" ∨ NodePath.isAbsolute root = false then _ else _) = Except.map _ (if
      root = "" ∨ NodePath.isAbsolute root = false then _ else _)
    split_ifs <;> rfl

/-- A root that was read is read again. -/
theorem readRoot_again {value : Option Json} {root : String} (h : readRoot value = .ok root) :
    readRoot (some (.str root)) = .ok root := by
  unfold readRoot at h
  obtain ⟨text, htext, h⟩ := bind_eq_ok.mp h
  split_ifs at h with hbad
  obtain rfl := Except.ok.inj h
  obtain ⟨htrim, hlong⟩ := inputString_eq_ok htext
  unfold readRoot
  rw [inputString_str _ hlong, htrim]
  exact if_neg hbad

/-- What a form saves is known to be short. -/
theorem FormReads.kept (h : FormReads parseUrl driver input existing s) :
    KeptSettings parseUrl driver s := by
  obtain ⟨e, he⟩ := h.entries
  refine ⟨⟨_, (readFrom_merged_iff he).mpr h⟩, ?_, ?_⟩
  · obtain ⟨bucket, hbucket, hread⟩ := bind_eq_ok.mp h.bucket
    split_ifs at hread
    rw [← Except.ok.inj hread]
    exact (inputString_eq_ok hbucket).2
  · obtain ⟨region, hregion, hread⟩ := bind_eq_ok.mp h.region
    rw [← Except.ok.inj hread]
    split_ifs
    · decide
    · exact (inputString_eq_ok hregion).2

/-- The texts of settings that were kept are read again. -/
theorem KeptSettings.again (laws : UrlLaws parseUrl) (h : KeptSettings parseUrl driver old) :
    readBucket (some (.str old.bucket)) = .ok old.bucket ∧
      readRegion (some (.str old.region)) = .ok old.region ∧
      ((∀ endpoint ∈ old.endpoint, Js.length endpoint ≤ 2048) →
        readEndpoint parseUrl driver (old.endpoint.map .str) = .ok old.endpoint) := by
  obtain ⟨value, hvalue⟩ := h.value
  obtain ⟨b, -, hb, hne⟩ := asOptionalString_eq_some hvalue.bucket
  have hbucket : Js.trim old.bucket = old.bucket := by rw [hb, trim_trim]
  obtain ⟨hregion, hregion'⟩ := hvalue.trim_region
  refine ⟨?_, ?_, fun hshort => ?_⟩
  · have hread : inputString (some (.str old.bucket)) "Bucket name" 255 = .ok old.bucket := by
      rw [inputString_str _ h.bucket, hbucket]
    exact (readBucket_eq_ok_iff hread).mpr
      ⟨asOptionalString_trimmed _ hbucket hne, hvalue.bucketChars⟩
  · have hread : inputString (some (.str old.region)) "Region" 100 = .ok old.region := by
      rw [inputString_str _ h.region, hregion]
    refine (readRegion_eq_ok_iff hread).mpr ⟨some old.region, ?_, rfl⟩
    rw [if_neg hregion']
    exact asOptionalString_trimmed _ hregion hregion'
  · obtain ⟨e, -, hendpoint⟩ := hvalue.endpoint
    obtain ⟨hstored, hagain⟩ := normalizeEndpoint_again laws hendpoint (takesLegacyHost driver)
      none none "S3_ENDPOINT"
    cases hurl : old.endpoint with
    | none => rfl
    | some url =>
      rw [hurl] at hstored hagain
      obtain ⟨t, ht, htrim, hne⟩ := asOptionalString_eq_some hstored
      obtain rfl := Json.str.inj (Option.some.inj ht)
      have hread : inputString (some (.str url)) "Endpoint" 2048 = .ok url := by
        rw [inputString_str _ (hshort url hurl), ← htrim]
      refine (readEndpoint_eq_ok_iff hread).mpr ⟨some url, ?_, hagain⟩
      unfold entered
      rw [if_neg hne]
      exact hstored

/-- A secret that is stored counts where none is entered. -/
theorem asOptionalString_kept {o : Option String} {name : String}
    (h : asOptionalString (o.map .str) name = .ok o) :
    asOptionalString (orJson (entered "") (orJson (o.map .str) none)) name = .ok o := by
  cases o with
  | none => rfl
  | some s =>
    obtain ⟨-, -, -, hne⟩ := asOptionalString_eq_some h
    have htruthy : orJson (some (.str s)) none = some (.str s) := if_pos (decide_eq_true hne)
    change asOptionalString (orJson none (orJson (some (.str s)) none)) name = _
    rw [htruthy]
    exact h

/-- A secret that is entered counts. -/
theorem asOptionalString_replaced {text : String} (name : String) (htrim : Js.trim text = text)
    (hne : text ≠ "") (stored : Option Json) :
    asOptionalString (orJson (entered text) stored) name = .ok (some text) := by
  have htruthy : orJson (some (.str text)) stored = some (.str text) := if_pos (decide_eq_true hne)
  unfold entered
  rw [if_neg hne, htruthy]
  exact asOptionalString_trimmed name htrim hne

/-- The credentials that are merged where a form gives these ones. -/
theorem GivesCredentials.merged (driver : String) {given : Option (Option (String × String))}
    (h : GivesCredentials input given)
    (hid : asOptionalString (old.accessKeyId.map .str) "S3_ACCESS_KEY_ID" = .ok old.accessKeyId)
    (hsecret : asOptionalString (old.secretAccessKey.map .str) "S3_SECRET_ACCESS_KEY" =
      .ok old.secretAccessKey) :
    ∃ id secret, inputString (input.get? "accessKeyId") "Access key ID" 512 = .ok id ∧
      inputString (input.get? "secretAccessKey") "Secret access key" 4096 = .ok secret ∧
      (clearsCredentials input = true → id = "" ∧ secret = "") ∧
      (clearsCredentials input = false → (id = "" ↔ secret = "")) ∧
      asOptionalString (mergedSecret input (some (old.stored (some driver))) id "accessKeyId"
        "accessKey") "S3_ACCESS_KEY_ID" = .ok (given.elim old.accessKeyId (·.map (·.1))) ∧
      asOptionalString (mergedSecret input (some (old.stored (some driver))) secret
        "secretAccessKey" "secretKey") "S3_SECRET_ACCESS_KEY" =
          .ok (given.elim old.secretAccessKey (·.map (·.2))) := by
  have hget := old.get?_stored (some driver)
  unfold mergedSecret
  rw [Option.bind_some, Option.bind_some, Option.bind_some, Option.bind_some, hget, hget, hget, hget]
  cases h with
  | omitted hid' hsecret' hclear =>
    refine ⟨"", "", hid', hsecret', fun _ => ⟨rfl, rfl⟩, fun _ => Iff.rfl, ?_, ?_⟩
    · rw [if_neg (Bool.eq_false_iff.mp hclear)]
      exact asOptionalString_kept hid
    · rw [if_neg (Bool.eq_false_iff.mp hclear)]
      exact asOptionalString_kept hsecret
  | cleared hid' hsecret' hclear =>
    refine ⟨"", "", hid', hsecret', fun _ => ⟨rfl, rfl⟩, fun _ => Iff.rfl, ?_, ?_⟩
    · rw [if_pos hclear]
      rfl
    · rw [if_pos hclear]
      rfl
  | given hid' hne hsecret' hne' hclear =>
    refine ⟨_, _, hid', hsecret', fun hc => ?_, fun _ => ⟨fun he => absurd he hne,
      fun he => absurd he hne'⟩, ?_, ?_⟩
    · rw [hclear] at hc
      cases hc
    · rw [if_neg (Bool.eq_false_iff.mp hclear)]
      exact asOptionalString_replaced _ (inputString_eq_ok hid').1 hne _
    · rw [if_neg (Bool.eq_false_iff.mp hclear)]
      exact asOptionalString_replaced _ (inputString_eq_ok hsecret').1 hne' _

/-- The session token that is merged where a form gives this one. -/
theorem GivesToken.merged (driver : String) {given : Option (Option String)}
    (h : GivesToken input given)
    (htoken : asOptionalString (old.sessionToken.map .str) "S3_SESSION_TOKEN" =
      .ok old.sessionToken) :
    ∃ token, inputString (input.get? "sessionToken") "Session token" 4096 = .ok token ∧
      asOptionalString (mergedToken input (some (old.stored (some driver))) token)
        "S3_SESSION_TOKEN" = .ok (given.getD old.sessionToken) := by
  have hget := old.get?_stored (some driver)
  unfold mergedToken
  rw [Option.bind_some, hget]
  cases h with
  | omitted hread hclear =>
    refine ⟨"", hread, ?_⟩
    rw [if_neg (Bool.eq_false_iff.mp hclear)]
    exact htoken
  | cleared hread hclear =>
    refine ⟨"", hread, ?_⟩
    rw [if_pos hclear]
    rfl
  | given hread hne hclear =>
    refine ⟨_, hread, ?_⟩
    rw [if_neg (Bool.eq_false_iff.mp hclear)]
    exact asOptionalString_replaced _ (inputString_eq_ok hread).1 hne _

/-- A session token that is kept, or given, goes with credentials. -/
theorem Edit.GivenBy.hasCredentials (he : e.GivenBy parseUrl driver old input)
    (hold : old.sessionToken.isSome = true → old.accessKeyId ≠ none) :
    (e.applied driver old).sessionToken.isSome = true → (e.applied driver old).accessKeyId ≠ none := by
  intro hsome
  have hgiven := he.sessionToken
  cases htoken : e.sessionToken with
  | some token =>
    cases token with
    | some t => exact he.token t htoken
    | none =>
      unfold Edit.applied at hsome
      rw [htoken] at hsome
      cases hsome
  | none =>
    unfold Edit.applied at hsome ⊢
    rw [htoken] at hsome hgiven
    dsimp only at hsome ⊢
    cases hgiven with
    | omitted hread hclear =>
      have hcredentials := he.credentials
      cases hc : e.credentials with
      | none => exact hold hsome
      | some pair =>
        cases pair with
        | some keys => exact fun h => by cases h
        | none =>
          rw [hc] at hcredentials
          cases hcredentials with
          | cleared hid hsecret hclear' =>
            unfold clearsSessionToken at hclear
            rw [hclear'] at hclear
            cases hclear

/-- The settings that are read of a form that leaves fields out. -/
theorem Edit.GivenBy.reads (laws : UrlLaws parseUrl) (hold : KeptSettings parseUrl driver old)
    (he : e.GivenBy parseUrl driver old input) (hstyle : e.forcePathStyle ≠ none)
    (hendpoint : e.endpoint = none → ∀ endpoint ∈ old.endpoint, Js.length endpoint ≤ 2048) :
    FormReads parseUrl driver input (some (old.stored (some driver))) (e.applied driver old) := by
  obtain ⟨hbucket, hregion, hurl⟩ := hold.again laws
  obtain ⟨value, hvalue⟩ := hold.value
  obtain ⟨hattempts, hconnection, hsocket, hdownload⟩ := hvalue.numbers
  have hget := old.get?_stored (some driver)
  -- What the form leaves out is taken from the stored settings, and that is read again as it was.
  have hmerge : ∀ k, merge input (some (old.stored (some driver))) k =
      coalesce (input.get? k) (((old.members (some driver)).lookup k).join) := by
    intro k
    unfold merge
    rw [Option.bind_some, hget]
  constructor
  · rw [hmerge]
    exact he.bucket.coalesce fun _ => hbucket
  · rw [hmerge]
    exact he.region.coalesce fun _ => hregion
  · rw [hmerge]
    exact he.endpoint.coalesce fun hnone => hurl (hendpoint hnone)
  · rw [hmerge]
    -- The path style is stored as a boolean, which the form's reader would refuse.
    refine ⟨_, he.forcePathStyle.coalesce (a := none) fun hnone => absurd hnone hstyle, ?_⟩
    unfold Edit.applied
    cases hgiven : e.forcePathStyle with
    | none => exact absurd hgiven hstyle
    | some style => rfl
  · rw [hmerge]
    exact he.maxAttempts.coalesce fun _ => asPositiveInteger_int _ hattempts (by decide)
  · rw [hmerge]
    exact he.connectionTimeoutMs.coalesce fun _ => asPositiveInteger_int _ hconnection (by decide)
  · rw [hmerge]
    exact he.socketTimeoutMs.coalesce fun _ => asPositiveInteger_int _ hsocket (by decide)
  · rw [hmerge]
    exact he.downloadUrlTtlSeconds.coalesce fun _ => asPositiveInteger_int _ hdownload (by decide)
  · obtain ⟨id, secret, hid, hsecret, hcleared, hpaired, haccess, hkey⟩ :=
      he.credentials.merged driver (asOptionalString_again hvalue.accessKeyId)
        (asOptionalString_again hvalue.secretAccessKey)
    obtain ⟨token, htoken, hsession⟩ :=
      he.sessionToken.merged driver (asOptionalString_again hvalue.sessionToken)
    exact ⟨id, secret, token, hid, hsecret, htoken, hcleared, hpaired, haccess, hkey, hsession⟩
  · unfold Edit.applied
    dsimp only
    cases e.credentials with
    | none => exact hvalue.paired
    | some given => cases given <;> rfl
  · exact he.hasCredentials hvalue.token

/-- A form that leaves fields out is accepted exactly where it gives the path style, and the endpoint or
the stored one fits into the form. -/
theorem Edit.GivenBy.saved_iff (laws : UrlLaws platform.parseUrl) (hdriver : driver ∈ s3Drivers)
    (hold : KeptSettings platform.parseUrl driver old)
    (he : e.GivenBy platform.parseUrl driver old input) :
    normalizedProviderConfig platform driver input (some (old.stored (some driver))) =
        .ok ((e.applied driver old).stored (some driver)) ↔
      e.forcePathStyle ≠ none ∧
        (e.endpoint ≠ none ∨ ∀ endpoint ∈ old.endpoint, Js.length endpoint ≤ 2048) := by
  constructor
  · intro h
    obtain ⟨s, hs, -⟩ := (normalizedProviderConfig_eq_ok_iff hdriver).mp h
    refine ⟨fun hnone => ?_, ?_⟩
    · -- What is stored is a boolean, which `inputString` does not take.
      obtain ⟨style, hstyle, -⟩ := hs.forcePathStyle
      have hgiven := he.forcePathStyle
      rw [hnone] at hgiven
      cases hgiven with
      | omitted hnone =>
        unfold merge at hstyle
        rw [coalesce_of_omitted hnone, Option.bind_some, old.get?_stored (some driver)] at hstyle
        cases hstyle
    · by_contra hcon
      push Not at hcon
      obtain ⟨hnone, endpoint, hmem, hlong⟩ := hcon
      have hread := hs.endpoint
      have hgiven := he.endpoint
      rw [hnone] at hgiven
      cases hgiven with
      | omitted hnone =>
        unfold merge at hread
        rw [coalesce_of_omitted hnone, Option.bind_some, old.get?_stored (some driver)] at hread
        have hstored : ((old.members (some driver)).lookup "endpoint").join =
            old.endpoint.map .str := rfl
        rw [hstored, hmem] at hread
        obtain ⟨text, htext, -⟩ := bind_eq_ok.mp hread
        exact absurd (length_of_inputString htext) (Nat.not_le.mpr hlong)
  · rintro ⟨hstyle, hendpoint⟩
    refine (normalizedProviderConfig_eq_ok_iff hdriver).mpr ⟨_, he.reads laws hold hstyle ?_, rfl⟩
    exact fun hnone => hendpoint.resolve_left fun hne => hne hnone

/-- The two kinds of configurations that a provider keeps. -/
inductive KeptConfig (parseUrl : String → Option Url) (driver : String) (config : Json) : Prop
  | root (root : String) (hdriver : driver = "local") (hroot : readRoot (some (.str root)) = .ok root)
    (h : config = .obj [("driver", .str "local"), ("root", .str root)])
  | settings (old : Settings) (hdriver : driver ∈ s3Drivers) (hold : KeptSettings parseUrl driver old)
    (h : config = old.stored (some driver))

theorem keptConfig_of_normalizedProviderConfig {config : Json}
    (h : normalizedProviderConfig platform driver input existing = .ok config) :
    KeptConfig platform.parseUrl driver config := by
  by_cases hlocal : driver = "local"
  · subst hlocal
    rw [normalizedProviderConfig_local] at h
    obtain ⟨root, hroot, rfl⟩ := map_eq_ok.mp h
    exact .root root rfl (readRoot_again hroot) rfl
  · have hdriver : driver ∈ s3Drivers := by
      by_contra hcon
      unfold normalizedProviderConfig at h
      rw [if_neg hlocal, if_pos (by simpa using hcon)] at h
      cases h
    obtain ⟨s, hs, rfl⟩ := (normalizedProviderConfig_eq_ok_iff hdriver).mp h
    exact .settings s hdriver hs.kept rfl

/-- A provider that was created or edited has one of them, under the name of its driver. -/
theorem Kept.config (laws : platform.Lawful) (h : Kept platform p) :
    KeptConfig platform.parseUrl (providerDriver platform p) p.config := by
  have hkept : ∃ driver, KeptConfig platform.parseUrl driver p.config := by
    cases h with
    | created id input h =>
      obtain ⟨driver, hconfig⟩ := config_of_createProvider h
      exact ⟨driver, keptConfig_of_normalizedProviderConfig hconfig⟩
    | edited provider input h =>
      obtain ⟨name, config, quotaBytes, -, hconfig, -, rfl⟩ := updateProvider_eq_ok_iff.mp h
      exact ⟨_, keptConfig_of_normalizedProviderConfig hconfig⟩
  obtain ⟨driver, hkept⟩ := hkept
  have hname : providerDriver platform p = driver := by
    unfold providerDriver
    cases hkept with
    | root root hdriver hroot h =>
      rw [h, hdriver]
      exact driverName_of_mem laws (.head _) p.type
    | settings old hdriver hold h =>
      rw [h, old.get?_stored (some driver)]
      exact driverName_of_mem laws (.tail _ hdriver) p.type
  rw [hname]
  exact hkept

/-- An update of a kept provider saves the values that a form gives and keeps the others: always for a
local provider, and for an S3-compatible one exactly where the form gives the path style, and the
endpoint or the stored one fits into the form. -/
theorem omitted_fields_kept_iff (laws : platform.Lawful) (h : Kept platform p) :
    (∃ root, p.config = .obj [("driver", .str "local"), ("root", .str root)] ∧
      ∀ input name quotaBytes given, validateProviderName (input.get? "name") = .ok name →
        quotaInBytes (input.get? "quotaGb") = .ok quotaBytes →
        Gives (input.get? "root") readRoot given →
        ∃ p', updateProvider platform p input = .ok p' ∧
          p'.config = .obj [("driver", .str "local"), ("root", .str (given.getD root))]) ∨
    ∃ (driver : String) (old : Settings), driver ∈ s3Drivers ∧ p.config = old.stored (some driver) ∧
      ∀ input name quotaBytes (e : Edit), validateProviderName (input.get? "name") = .ok name →
        quotaInBytes (input.get? "quotaGb") = .ok quotaBytes →
        e.GivenBy platform.parseUrl driver old input →
        ((∃ p', updateProvider platform p input = .ok p' ∧
            p'.config = (e.applied driver old).stored (some driver)) ↔
          e.forcePathStyle ≠ none ∧
            (e.endpoint ≠ none ∨ ∀ endpoint ∈ old.endpoint, Js.length endpoint ≤ 2048)) := by
  have hsaves : ∀ {input name quotaBytes config},
      validateProviderName (input.get? "name") = .ok name →
      quotaInBytes (input.get? "quotaGb") = .ok quotaBytes →
      ((∃ p', updateProvider platform p input = .ok p' ∧ p'.config = config) ↔
        normalizedProviderConfig platform (providerDriver platform p) input (some p.config) =
          .ok config) := by
    intro input name quotaBytes config hname hquota
    constructor
    · rintro ⟨p', hp', rfl⟩
      obtain ⟨-, config, -, -, hconfig, -, rfl⟩ := updateProvider_eq_ok_iff.mp hp'
      exact hconfig
    · exact fun hconfig => ⟨_, updateProvider_eq_ok_iff.mpr
        ⟨name, config, quotaBytes, hname, hconfig, hquota, rfl⟩, rfl⟩
  have hkept := h.config laws
  generalize providerDriver platform p = driver at hsaves hkept
  cases hkept with
  | root root hdriver hroot hconfig =>
    refine .inl ⟨root, hconfig, fun input name quotaBytes given hname hquota hgiven => ?_⟩
    refine (hsaves hname hquota).mpr ?_
    rw [hdriver, normalizedProviderConfig_local, hconfig]
    refine map_eq_ok.mpr ⟨given.getD root, ?_, rfl⟩
    exact hgiven.coalesce fun _ => hroot
  | settings old hdriver hold hconfig =>
    refine .inr ⟨driver, old, hdriver, hconfig, fun input name quotaBytes e hname hquota he => ?_⟩
    rw [hsaves hname hquota, hconfig]
    exact he.saved_iff laws.url hdriver hold

end updating

/-- The configuration of the provider that `minioForm` makes. -/
theorem minioForm_config :
    ∃ p, createProvider toyPlatform "p1" minioForm = .ok p ∧ p.config = .obj [
      ("driver", .str "minio"), ("bucket", .str "ota"), ("region", .str "us-east-1"),
      ("endpoint", .str "http://minio:9000"), ("accessKeyId", .str "key"),
      ("secretAccessKey", .str "secret"), ("forcePathStyle", .bool true), ("maxAttempts", .int 3),
      ("connectionTimeoutMs", .int 10000), ("socketTimeoutMs", .int 120000),
      ("downloadUrlTtlSeconds", .int 3600)] := by
  refine ⟨⟨"p1", "Objects", "self-hosted", .obj [("driver", .str "minio"), ("bucket", .str "ota"),
    ("region", .str "us-east-1"), ("endpoint", .str "http://minio:9000"),
    ("accessKeyId", .str "key"), ("secretAccessKey", .str "secret"), ("forcePathStyle", .bool true),
    ("maxAttempts", .int 3), ("connectionTimeoutMs", .int 10000), ("socketTimeoutMs", .int 120000),
    ("downloadUrlTtlSeconds", .int 3600)], false, true, some 10737418240, none⟩, ?_, rfl⟩
  decide +kernel

/-- A form that gives a region and leaves out all other settings, and the path style where asked to. -/
def regionForm (forcePathStyle : Option Json) : Json :=
  .obj (present [("name", some (.str "Objects")), ("quotaGb", some (.str "10")),
    ("region", some (.str "eu-1")), ("forcePathStyle", forcePathStyle)])

/-- With a path style the region changes and the rest is kept. -/
theorem omitted_fields_kept_region :
    ∃ p p', createProvider toyPlatform "p1" minioForm = .ok p ∧
      updateProvider toyPlatform p (regionForm (some (.str "auto"))) = .ok p' ∧
      p'.config.get? "region" = some (.str "eu-1") ∧ p'.config.get? "bucket" = some (.str "ota") := by
  obtain ⟨p, hcreated, hconfig⟩ := minioForm_config
  have hname : validateProviderName ((regionForm (some (.str "auto"))).get? "name") =
    .ok "Objects" := rfl
  have hquota : quotaInBytes ((regionForm (some (.str "auto"))).get? "quotaGb") =
    .ok 10737418240 := by decide +kernel
  obtain ⟨root, hroot, -⟩ | ⟨driver, old, hdriver, hold, hiff⟩ :=
    omitted_fields_kept_iff lawful_toyPlatform (.created "p1" minioForm hcreated)
  · rw [hroot] at hconfig
    simp at hconfig
  · have hget : ∀ k, p.config.get? k = ((old.members (some driver)).lookup k).join := by
      intro k
      rw [hold]
      exact old.get?_stored (some driver) k
    have hendpoint : some (.str "http://minio:9000") = old.endpoint.map Json.str := by
      have h := hget "endpoint"
      rw [hconfig] at h
      exact h
    have hbucket : some (.str "ota") = some (Json.str old.bucket) := by
      have h := hget "bucket"
      rw [hconfig] at h
      exact h
    obtain ⟨endpoint, hurl, hsame⟩ := Option.map_eq_some_iff.mp hendpoint.symm
    obtain ⟨p', hp', hafter⟩ := (hiff (regionForm (some (.str "auto"))) "Objects" 10737418240
      { bucket := none, region := some "eu-1", endpoint := none, forcePathStyle := some none
        maxAttempts := none, connectionTimeoutMs := none, socketTimeoutMs := none
        downloadUrlTtlSeconds := none, credentials := none, sessionToken := none }
      hname hquota
      { bucket := .omitted rfl, region := .given (by decide) (by decide +kernel)
        endpoint := .omitted rfl
        forcePathStyle := .given (by decide) (by decide +kernel), maxAttempts := .omitted rfl
        connectionTimeoutMs := .omitted rfl, socketTimeoutMs := .omitted rfl
        downloadUrlTtlSeconds := .omitted rfl, credentials := .omitted rfl rfl rfl
        sessionToken := .omitted rfl rfl, token := fun t h => by cases h }).mpr
      ⟨by decide, .inr fun e he => by
        rw [hurl, Option.mem_some_iff] at he
        rw [← he, Json.str.inj hsame]
        decide⟩
    refine ⟨p, p', hcreated, hp', ?_, ?_⟩
    · rw [hafter, Settings.get?_stored]
      rfl
    · rw [hafter, Settings.get?_stored, hbucket]
      rfl

/-- Without one the update fails: what is stored is a boolean. -/
theorem region_update_refused :
    ∃ p, createProvider toyPlatform "p1" minioForm = .ok p ∧
      updateProvider toyPlatform p (regionForm none) =
        .error "Path style must be a string of 16 characters or fewer." := by
  have hfails : (createProvider toyPlatform "p1" minioForm >>= fun p =>
      updateProvider toyPlatform p (regionForm none)) =
        .error "Path style must be a string of 16 characters or fewer." := by
    decide +kernel
  obtain ⟨p, hcreated, -⟩ := minioForm_config
  rw [hcreated] at hfails
  exact ⟨p, hcreated, hfails⟩

end Reeva
