import Mathlib.Data.List.DropRight
import Reeva.Legacy.S3CompatibleConfig
import Reeva.Legacy.ImportRun

/-!
# The settings of an S3-compatible provider

`normalizeS3CompatibleConfig` reads the settings of a provider out of a configuration. `ReadFrom` says
which settings it reads, member by member, and `normal_form_stable` that it reads the same settings
out of its own result, whatever driver it is told.
-/

namespace Reeva

/-- `S3CompatibleConfig` -/
structure Settings where
  bucket : String
  region : String
  endpoint : Option String
  accessKeyId : Option String
  secretAccessKey : Option String
  sessionToken : Option String
  forcePathStyle : Bool
  maxAttempts : ℤ
  connectionTimeoutMs : ℤ
  socketTimeoutMs : ℤ
  downloadUrlTtlSeconds : ℤ
  deriving DecidableEq, Repr

/-- The members of the settings. -/
def Settings.fields (s : Settings) : List (String × Json) :=
  present [
    ("bucket", some (.str s.bucket)),
    ("region", some (.str s.region)),
    ("endpoint", s.endpoint.map .str),
    ("accessKeyId", s.accessKeyId.map .str),
    ("secretAccessKey", s.secretAccessKey.map .str),
    ("sessionToken", s.sessionToken.map .str),
    ("forcePathStyle", some (.bool s.forcePathStyle)),
    ("maxAttempts", some (.int s.maxAttempts)),
    ("connectionTimeoutMs", some (.int s.connectionTimeoutMs)),
    ("socketTimeoutMs", some (.int s.socketTimeoutMs)),
    ("downloadUrlTtlSeconds", some (.int s.downloadUrlTtlSeconds))]

/-- The text of a port: strings and numbers have one. -/
def portText : Option Json → String
  | some (.str s) => s
  | some (.int n) => Js.text (.int n)
  | some (.float m e) => Js.text (.float m e)
  | _ => ""

/-- `a ?? b` -/
def coalesce (a b : Option Json) : Option Json :=
  match a with
  | none | some .null => b
  | v => v

/-- `bucket.includes('/') || bucket.includes('\\') || /\s/.test(bucket)` -/
def badBucket (bucket : String) : Bool :=
  bucket.toList.any fun c => c = '/' || c = '\\' || Js.isSpace c

/-- Whether an endpoint may lack a scheme. -/
def takesLegacyHost (driver : String) : Bool := driver = "minio" || driver = "seaweedfs"

/-- The settings that a configuration has for a driver. -/
structure Settings.ReadFrom (parseUrl : String → Option Url) (driver : String) (value : Json)
    (s : Settings) : Prop where
  object : ∃ fields, value = .obj fields
  bucket : asOptionalString (value.get? "bucket") "S3_BUCKET" = .ok (some s.bucket)
  bucketChars : badBucket s.bucket = false
  endpoint : ∃ e, asOptionalString (value.get? "endpoint") "S3_ENDPOINT" = .ok e ∧
    normalizeEndpoint parseUrl e (takesLegacyHost driver) (value.get? "port") (value.get? "useSSL") =
      .ok s.endpoint
  accessKeyId : asOptionalString (coalesce (value.get? "accessKeyId") (value.get? "accessKey"))
    "S3_ACCESS_KEY_ID" = .ok s.accessKeyId
  secretAccessKey : asOptionalString
    (coalesce (value.get? "secretAccessKey") (value.get? "secretKey")) "S3_SECRET_ACCESS_KEY" =
      .ok s.secretAccessKey
  sessionToken : asOptionalString (value.get? "sessionToken") "S3_SESSION_TOKEN" = .ok s.sessionToken
  paired : s.accessKeyId.isSome = s.secretAccessKey.isSome
  token : s.sessionToken.isSome = true → s.accessKeyId ≠ none
  region : ∃ r, asOptionalString (value.get? "region") "S3_REGION" = .ok r ∧
    s.region = r.getD "us-east-1"
  maxAttempts : asPositiveInteger (value.get? "maxAttempts") 3 "S3_MAX_ATTEMPTS" 10 =
    .ok s.maxAttempts
  connectionTimeoutMs : asPositiveInteger (value.get? "connectionTimeoutMs") 10000
    "S3_CONNECTION_TIMEOUT_MS" 120000 = .ok s.connectionTimeoutMs
  socketTimeoutMs : asPositiveInteger (value.get? "socketTimeoutMs") 120000 "S3_SOCKET_TIMEOUT_MS"
    600000 = .ok s.socketTimeoutMs
  downloadUrlTtlSeconds : asPositiveInteger (value.get? "downloadUrlTtlSeconds") 3600
    "S3_DOWNLOAD_URL_TTL_SECONDS" 604800 = .ok s.downloadUrlTtlSeconds
  forcePathStyle : parsePathStyle (value.get? "forcePathStyle") s.endpoint driver =
    .ok s.forcePathStyle

section reading

open Legacy (bind_eq_ok)

variable {parseUrl : String → Option Url} {driver : String} {value : Json}

/-- `asOptionalString` returns trimmed strings that are not empty. -/
theorem asOptionalString_eq_some {v : Option Json} {name s : String}
    (h : asOptionalString v name = .ok (some s)) : ∃ t, v = some (.str t) ∧ s = Js.trim t ∧ s ≠ "" := by
  unfold asOptionalString at h
  split at h
  · cases h
  · cases h
  · cases h
  · rename_i t _
    split_ifs at h with hblank
    obtain rfl := Option.some.inj (Except.ok.inj h)
    exact ⟨t, rfl, rfl, hblank⟩
  · cases h

/-- The result consists of the members of the settings that are read. -/
theorem readFrom_of_normalize {r : List (String × Json)}
    (h : normalizeS3CompatibleConfig parseUrl value driver = .ok r) :
    ∃ s : Settings, s.ReadFrom parseUrl driver value ∧ r = s.fields := by
  unfold normalizeS3CompatibleConfig at h
  simp only [Bind.bind, Except.bind] at h
  split at h
  · rename_i fields
    split at h
    · cases h
    rename_i bucket hbucket
    split_ifs at h with hbad
    split at h
    · cases h
    rename_i e he
    split at h
    · cases h
    rename_i endpoint hendpoint
    split at h
    · cases h
    rename_i accessKeyId haccess
    split at h
    · cases h
    rename_i secretAccessKey hsecret
    split at h
    · cases h
    rename_i sessionToken hsession
    split_ifs at h with hpaired htoken
    split at h
    · cases h
    rename_i region hregion
    split at h
    · cases h
    rename_i maxAttempts hattempts
    split at h
    · cases h
    rename_i connectionTimeoutMs hconnection
    split at h
    · cases h
    rename_i socketTimeoutMs hsocket
    split at h
    · cases h
    rename_i downloadUrlTtlSeconds hdownload
    split at h
    · cases h
    rename_i forcePathStyle hstyle
    -- All checks have passed.
    push Not at hbad hpaired htoken
    cases bucket with
    | none => exact absurd rfl hbad.1
    | some bucket =>
      exact ⟨⟨bucket, region.getD "us-east-1", endpoint, accessKeyId, secretAccessKey, sessionToken,
        forcePathStyle, maxAttempts, connectionTimeoutMs, socketTimeoutMs, downloadUrlTtlSeconds⟩,
        ⟨⟨fields, rfl⟩, hbucket, Bool.eq_false_iff.mpr hbad.2, ⟨e, he, hendpoint⟩, haccess, hsecret,
          hsession, hpaired, htoken, ⟨region, hregion, rfl⟩, hattempts, hconnection, hsocket,
          hdownload, hstyle⟩, (Except.ok.inj h).symm⟩
  · cases h

/-- Settings that can be read are read. -/
theorem Settings.ReadFrom.normalize {s : Settings} (h : s.ReadFrom parseUrl driver value) :
    normalizeS3CompatibleConfig parseUrl value driver = .ok s.fields := by
  obtain ⟨fields, rfl⟩ := h.object
  obtain ⟨e, he, hendpoint⟩ := h.endpoint
  obtain ⟨region, hregion, hdefault⟩ := h.region
  obtain ⟨-, -, -, hne⟩ := asOptionalString_eq_some h.bucket
  have hbad : ¬(s.bucket = "" ∨ badBucket s.bucket = true) := by
    rw [h.bucketChars]
    simpa using hne
  unfold badBucket at hbad
  have htoken : ¬(s.sessionToken.isSome = true ∧ s.accessKeyId = none) :=
    fun hboth => h.token hboth.1 hboth.2
  unfold normalizeS3CompatibleConfig
  dsimp only
  refine bind_eq_ok.mpr ⟨(), rfl, ?_⟩
  refine bind_eq_ok.mpr ⟨_, h.bucket, ?_⟩
  rw [Option.getD_some, if_neg hbad]
  refine bind_eq_ok.mpr ⟨_, he, bind_eq_ok.mpr ⟨_, hendpoint, ?_⟩⟩
  refine bind_eq_ok.mpr ⟨_, h.accessKeyId, bind_eq_ok.mpr ⟨_, h.secretAccessKey, ?_⟩⟩
  refine bind_eq_ok.mpr ⟨_, h.sessionToken, ?_⟩
  rw [if_neg (not_not.mpr h.paired), if_neg htoken]
  refine bind_eq_ok.mpr ⟨_, hregion, bind_eq_ok.mpr ⟨_, h.maxAttempts, ?_⟩⟩
  refine bind_eq_ok.mpr ⟨_, h.connectionTimeoutMs, bind_eq_ok.mpr ⟨_, h.socketTimeoutMs, ?_⟩⟩
  refine bind_eq_ok.mpr ⟨_, h.downloadUrlTtlSeconds, bind_eq_ok.mpr ⟨_, h.forcePathStyle, ?_⟩⟩
  rw [← hdefault]
  rfl

/-- A configuration is accepted exactly where settings are read out of it. -/
theorem normalize_eq_ok_iff {r : List (String × Json)} :
    normalizeS3CompatibleConfig parseUrl value driver = .ok r ↔
      ∃ s : Settings, s.ReadFrom parseUrl driver value ∧ r = s.fields :=
  ⟨readFrom_of_normalize, fun ⟨_, hs, hr⟩ => hr ▸ hs.normalize⟩

end reading

/-! ## Members -/

/-- The members of an object whose names are different. -/
theorem get?_present {fields : List (String × Option Json)} (h : (fields.map (·.1)).Nodup)
    (k : String) : (Json.obj (present fields)).get? k = (fields.lookup k).join := by
  change (present fields).reverse.lookup k = _
  induction fields with
  | nil => rfl
  | cons f fields ih =>
    obtain ⟨l, v⟩ := f
    rw [List.map_cons, List.nodup_cons] at h
    have hrest := ih h.2
    by_cases hk : k = l
    · subst hk
      have hnone : fields.lookup k = none := by
        rw [List.lookup_eq_none_iff]
        intro f hf
        simpa using fun he : k = f.1 => h.1 (List.mem_map.mpr ⟨f, hf, he.symm⟩)
      rw [List.lookup_cons_self]
      rw [hnone] at hrest
      cases v with
      | none => exact hrest
      | some v =>
        change ((k, v) :: present fields).reverse.lookup k = _
        rw [List.reverse_cons, List.lookup_append, hrest, List.lookup_cons_self]
        rfl
    · have hne : (k == l) = false := by simpa using hk
      rw [List.lookup_cons, hne]
      cases v with
      | none => exact hrest
      | some v =>
        change ((l, v) :: present fields).reverse.lookup k = _
        rw [List.reverse_cons, List.lookup_append, hrest, List.lookup_cons, hne]
        exact Option.or_none

/-- The members of settings that are stored, with the name of their driver where it is given. -/
def Settings.members (driver : Option String) (s : Settings) : List (String × Option Json) :=
  [("driver", driver.map .str),
    ("bucket", some (.str s.bucket)),
    ("region", some (.str s.region)),
    ("endpoint", s.endpoint.map .str),
    ("accessKeyId", s.accessKeyId.map .str),
    ("secretAccessKey", s.secretAccessKey.map .str),
    ("sessionToken", s.sessionToken.map .str),
    ("forcePathStyle", some (.bool s.forcePathStyle)),
    ("maxAttempts", some (.int s.maxAttempts)),
    ("connectionTimeoutMs", some (.int s.connectionTimeoutMs)),
    ("socketTimeoutMs", some (.int s.socketTimeoutMs)),
    ("downloadUrlTtlSeconds", some (.int s.downloadUrlTtlSeconds))]

/-- The settings as they are stored. -/
def Settings.stored (driver : Option String) (s : Settings) : Json :=
  .obj (present (s.members driver))

/-- A member of what is stored. -/
theorem Settings.get?_stored (d : Option String) (s : Settings) (k : String) :
    (s.stored d).get? k = ((s.members d).lookup k).join := by
  have hnames : (s.members d).map (·.1) = ["driver", "bucket", "region", "endpoint", "accessKeyId",
      "secretAccessKey", "sessionToken", "forcePathStyle", "maxAttempts", "connectionTimeoutMs",
      "socketTimeoutMs", "downloadUrlTtlSeconds"] := rfl
  refine get?_present ?_ k
  rw [hnames]
  decide

/-! ## Stability -/

section texts

/-- A path without the slashes at its end has none at its end. -/
theorem getLast?_dropSlashes (s : String) : (dropSlashes s).toList.getLast? ≠ some '/' := by
  unfold dropSlashes
  rw [String.toList_ofList, List.getLast?_reverse]
  intro h
  have hslash := List.head?_dropWhile_not (· = '/') s.toList.reverse
  rw [h] at hslash
  cases hslash

/-- It has nothing to drop. -/
theorem dropSlashes_dropSlashes (s : String) : dropSlashes (dropSlashes s) = dropSlashes s := by
  unfold dropSlashes
  rw [String.toList_ofList, List.reverse_reverse, List.dropWhile_idempotent]

theorem mem_dropSlashes {s : String} {c : Char} (h : c ∈ (dropSlashes s).toList) : c ∈ s.toList := by
  unfold dropSlashes at h
  rw [String.toList_ofList, List.mem_reverse] at h
  exact List.mem_reverse.mp ((List.dropWhile_suffix _).subset h)

/-- A slash at the end is dropped. -/
theorem dropSlash_append (s : String) : dropSlash (s ++ "/") = s := by
  have hreverse : (s ++ "/").toList.reverse = '/' :: s.toList.reverse := by
    rw [String.toList_append, List.reverse_append]
    rfl
  unfold dropSlash
  simp only [hreverse]
  rw [List.reverse_reverse, String.ofList_toList]

/-- Without one the text stays as it is. -/
theorem dropSlash_of_getLast? {s : String} (h : s.toList.getLast? ≠ some '/') : dropSlash s = s := by
  unfold dropSlash
  split
  · rename_i cs hreverse
    rw [← List.head?_reverse, hreverse] at h
    exact absurd rfl h
  · rfl

/-- The endpoint that is kept of a URL. -/
def Url.endpoint (u : Url) : String := u.protocol ++ "//" ++ u.host ++ dropSlashes u.pathname

/-- It is what `normalizeEndpoint` returns. -/
theorem Url.dropSlash_href (u : Url) :
    dropSlash { u with pathname := dropSlashes u.pathname }.href = u.endpoint := by
  unfold Url.href Url.endpoint
  dsimp only
  split_ifs with hroot
  · rw [dropSlash_append, hroot, String.append_empty]
  · refine dropSlash_of_getLast? ?_
    have hne : (dropSlashes u.pathname).toList ≠ [] := fun he =>
      hroot (String.toList_eq_nil_iff.mp he)
    rw [String.toList_append, List.getLast?_append_of_ne_nil _ hne]
    exact getLast?_dropSlashes _

/-- A URL that an endpoint may have. -/
structure Url.IsEndpoint (u : Url) : Prop where
  protocol : u.protocol = "http:" ∨ u.protocol = "https:"
  username : u.username = ""
  password : u.password = ""
  search : u.search = ""
  hash : u.hash = ""

variable {parseUrl : String → Option Url} {value s : String} {legacyHost : Bool}
  {port useSSL : Option Json}

/-- An endpoint with a scheme and a port before it is parsed. -/
def completed (value : String) (port useSSL : Option Json) : String :=
  (if useSSL = some (.bool true) ∨ useSSL = some (.str "true") then "https" else "http") ++ "://" ++
    value ++ if portText port = "" then "" else ":" ++ portText port

/-- The text that is parsed. -/
def endpointText (legacyHost : Bool) (value : String) (port useSSL : Option Json) : String :=
  if legacyHost && !hasScheme value then completed value port useSSL else value

/-- The part of `normalizeEndpoint` from the parser on. -/
def parsedEndpoint (parseUrl : String → Option Url) (text : String) :
    Except String (Option String) :=
  match parseUrl text with
  | none => .error "S3_ENDPOINT must be a valid HTTP or HTTPS URL."
  | some endpoint =>
    if (endpoint.protocol ≠ "http:" ∧ endpoint.protocol ≠ "https:") ∨ endpoint.username ≠ "" ∨
        endpoint.password ≠ "" ∨ endpoint.search ≠ "" ∨ endpoint.hash ≠ "" then
      .error "S3_ENDPOINT must use HTTP or HTTPS without credentials, query, or fragment."
    else .ok (some (dropSlash { endpoint with pathname := dropSlashes endpoint.pathname }.href))

theorem parsedEndpoint_eq_ok_iff {text : String} {e : Option String} :
    parsedEndpoint parseUrl text = .ok e ↔
      ∃ u, parseUrl text = some u ∧ u.IsEndpoint ∧ e = some u.endpoint := by
  unfold parsedEndpoint
  cases parseUrl text with
  | none =>
    constructor
    · exact fun h => by cases h
    · rintro ⟨u, hu, -⟩
      cases hu
  | some endpoint =>
    dsimp only
    split_ifs with hbad
    · constructor
      · exact fun h => by cases h
      · rintro ⟨u, hu, hendpoint, -⟩
        obtain rfl := Option.some.inj hu
        obtain ⟨hhttp, hhttps⟩ | h | h | h | h := hbad
        · exact absurd hendpoint.protocol (not_or.mpr ⟨hhttp, hhttps⟩)
        · exact absurd hendpoint.username h
        · exact absurd hendpoint.password h
        · exact absurd hendpoint.search h
        · exact absurd hendpoint.hash h
    · rw [Url.dropSlash_href]
      constructor
      · intro h
        obtain rfl := Except.ok.inj h
        simp only [not_or, not_and_or, not_not, ne_eq] at hbad
        exact ⟨endpoint, rfl, ⟨hbad.1, hbad.2.1, hbad.2.2.1, hbad.2.2.2.1, hbad.2.2.2.2⟩, rfl⟩
      · rintro ⟨u, hu, -, rfl⟩
        obtain rfl := Option.some.inj hu
        rfl

/-- A port that `normalizeEndpoint` refuses. -/
def isBadPort (text : String) : Prop :=
  text ≠ "" ∧ (¬text.toList.all Char.isDigit ∨ Nat.ofDigitChars 10 text.toList 0 < 1 ∨
    65535 < Nat.ofDigitChars 10 text.toList 0)

instance (text : String) : Decidable (isBadPort text) :=
  inferInstanceAs (Decidable (text ≠ "" ∧ (¬text.toList.all Char.isDigit ∨
    Nat.ofDigitChars 10 text.toList 0 < 1 ∨ 65535 < Nat.ofDigitChars 10 text.toList 0)))

/-- An endpoint is completed, where its scheme is missing, and parsed. -/
theorem normalizeEndpoint_some : normalizeEndpoint parseUrl (some value) legacyHost port useSSL =
    if legacyHost && !hasScheme value then
      if isBadPort (portText port) then
        .error "Storage endpoint port must be an integer between 1 and 65535."
      else parsedEndpoint parseUrl (completed value port useSSL)
    else parsedEndpoint parseUrl value := by
  unfold normalizeEndpoint
  simp only [Bind.bind, Except.bind]
  by_cases hlegacy : (legacyHost && !hasScheme value) = true
  · rw [if_pos hlegacy, if_pos hlegacy]
    rfl
  · rw [if_neg hlegacy, if_neg hlegacy]
    rfl

/-- What is parsed of an endpoint, and what is kept of it. -/
theorem normalizeEndpoint_eq_ok_iff {e : Option String} :
    normalizeEndpoint parseUrl (some value) legacyHost port useSSL = .ok e ↔
      ((legacyHost && !hasScheme value) = true → ¬isBadPort (portText port)) ∧
      ∃ u, parseUrl (endpointText legacyHost value port useSSL) = some u ∧ u.IsEndpoint ∧
        e = some u.endpoint := by
  rw [← parsedEndpoint_eq_ok_iff, normalizeEndpoint_some]
  unfold endpointText
  by_cases hlegacy : (legacyHost && !hasScheme value) = true
  · rw [if_pos hlegacy, if_pos hlegacy]
    by_cases hbad : isBadPort (portText port)
    · rw [if_pos hbad]
      exact ⟨fun h => (by cases h), fun h => absurd hbad (h.1 hlegacy)⟩
    · rw [if_neg hbad]
      exact ⟨fun h => ⟨fun _ => hbad, h⟩, fun h => h.2⟩
  · rw [if_neg hlegacy, if_neg hlegacy]
    exact ⟨fun h => ⟨fun hl => absurd hl hlegacy, h⟩, fun h => h.2⟩

/-- What the platform's URL parser does with the URLs that it has parsed: an HTTP URL without credentials,
query and fragment, and without slashes at the end of its path, is parsed as it is written; where
nothing of the path is left, the root is parsed; no white space is left in a host or a path. -/
structure UrlLaws (parseUrl : String → Option Url) : Prop where
  reparse : ∀ s u, parseUrl s = some u → u.IsEndpoint → dropSlashes u.pathname ≠ "" →
    parseUrl { u with pathname := dropSlashes u.pathname }.href =
      some { u with pathname := dropSlashes u.pathname }
  reparseRoot : ∀ s u, parseUrl s = some u → u.IsEndpoint →
    parseUrl (u.protocol ++ "//" ++ u.host) = some { u with pathname := "/" }
  noSpace : ∀ s u, parseUrl s = some u → u.IsEndpoint →
    ∀ c ∈ u.host.toList ++ u.pathname.toList, Js.isSpace c = false

/-- The endpoint of a URL is parsed to a URL with the same endpoint. -/
theorem UrlLaws.parse_endpoint (laws : UrlLaws parseUrl) {u : Url} (hu : parseUrl s = some u)
    (h : u.IsEndpoint) :
    ∃ u', parseUrl u.endpoint = some u' ∧ u'.IsEndpoint ∧ u'.endpoint = u.endpoint := by
  by_cases hroot : dropSlashes u.pathname = ""
  · refine ⟨{ u with pathname := "/" }, ?_,
      ⟨h.protocol, h.username, h.password, h.search, h.hash⟩, ?_⟩
    · unfold Url.endpoint
      rw [hroot, String.append_empty]
      exact laws.reparseRoot s u hu h
    · have hslash : dropSlashes "/" = "" := by decide
      unfold Url.endpoint
      rw [hslash, hroot]
  · refine ⟨{ u with pathname := dropSlashes u.pathname }, ?_,
      ⟨h.protocol, h.username, h.password, h.search, h.hash⟩, ?_⟩
    · have hhref : { u with pathname := dropSlashes u.pathname }.href = u.endpoint := by
        unfold Url.href Url.endpoint
        rw [if_neg hroot]
      rw [← hhref]
      exact laws.reparse s u hu h hroot
    · unfold Url.endpoint
      rw [dropSlashes_dropSlashes]

/-- It has a scheme. -/
theorem Url.IsEndpoint.hasScheme {u : Url} (h : u.IsEndpoint) : hasScheme u.endpoint = true := by
  unfold Url.endpoint
  obtain h | h := h.protocol
  · rw [h, String.append_assoc, String.append_assoc]
    simp only [String.toList_append, Reeva.hasScheme]
    rfl
  · rw [h, String.append_assoc, String.append_assoc]
    simp only [String.toList_append, Reeva.hasScheme]
    rfl

/-- It has no white space, and is not empty. -/
theorem UrlLaws.trim_endpoint (laws : UrlLaws parseUrl) {u : Url} (hu : parseUrl s = some u)
    (h : u.IsEndpoint) : Js.trim u.endpoint = u.endpoint ∧ u.endpoint ≠ "" := by
  have hprotocol : ∀ c ∈ u.protocol.toList, Js.isSpace c = false := by
    have hall : "http:".toList.all (fun c => !Js.isSpace c) = true ∧
        "https:".toList.all (fun c => !Js.isSpace c) = true := by decide
    intro c hc
    obtain h | h := h.protocol
    · rw [h] at hc
      simpa using List.all_eq_true.mp hall.1 c hc
    · rw [h] at hc
      simpa using List.all_eq_true.mp hall.2 c hc
  have hspace : ∀ c ∈ u.endpoint.toList, Js.isSpace c = false := by
    intro c hc
    unfold Url.endpoint at hc
    simp only [String.toList_append, List.mem_append] at hc
    obtain ((hc | hc) | hc) | hc := hc
    · exact hprotocol c hc
    · have hall : "//".toList.all (fun c => !Js.isSpace c) = true := by decide
      simpa using List.all_eq_true.mp hall c hc
    · exact laws.noSpace s u hu h c (List.mem_append_left _ hc)
    · exact laws.noSpace s u hu h c (List.mem_append_right _ (mem_dropSlashes hc))
  refine ⟨?_, fun hempty => ?_⟩
  · unfold Js.trim
    rw [Js.strip_of_forall hspace, String.ofList_toList]
  · have hscheme := h.hasScheme
    rw [hempty] at hscheme
    cases hscheme

end texts

section stability

/-- What is left after stripping has nothing to strip. -/
theorem strip_strip (p : Char → Bool) (cs : List Char) :
    Js.strip p (Js.strip p cs) = Js.strip p cs := by
  have hprefix : Js.strip p cs <+: cs.dropWhile p := by
    unfold Js.strip
    rw [← List.reverse_suffix, List.reverse_reverse]
    exact List.dropWhile_suffix _
  have hfront : (Js.strip p cs).dropWhile p = Js.strip p cs := by
    cases hstrip : Js.strip p cs with
    | nil => rfl
    | cons c rest =>
      rw [hstrip] at hprefix
      obtain ⟨t, ht⟩ := hprefix
      have hhead := List.head?_dropWhile_not p cs
      rw [← ht] at hhead
      exact List.dropWhile_cons_of_neg (by simpa using hhead)
  have hback : (Js.strip p cs).reverse.dropWhile p = (Js.strip p cs).reverse := by
    unfold Js.strip
    rw [List.reverse_reverse, List.dropWhile_idempotent]
  have hstrip : Js.strip p (Js.strip p cs) =
      (((Js.strip p cs).dropWhile p).reverse.dropWhile p).reverse := rfl
  rw [hstrip, hfront, hback, List.reverse_reverse]

/-- A trimmed text is trimmed. -/
theorem trim_trim (s : String) : Js.trim (Js.trim s) = Js.trim s := by
  unfold Js.trim
  rw [String.toList_ofList, strip_strip]

/-- `asOptionalString` returns a trimmed string as it is. -/
theorem asOptionalString_trimmed {s : String} (name : String) (htrim : Js.trim s = s) (hne : s ≠ "") :
    asOptionalString (some (.str s)) name = .ok (some s) := by
  unfold asOptionalString
  split
  · rename_i he
    cases he
  · rename_i he
    cases he
  · rename_i he
    exact absurd (Json.str.inj (Option.some.inj he)) hne
  · rename_i t _ he
    obtain rfl := Json.str.inj (Option.some.inj he)
    rw [htrim, if_neg hne]
  · rename_i hstr he
    exact absurd (Option.some.inj he).symm (hstr s)

/-- What it has returned it returns again. -/
theorem asOptionalString_again {v : Option Json} {name name' : String} {o : Option String}
    (h : asOptionalString v name = .ok o) : asOptionalString (o.map .str) name' = .ok o := by
  cases o with
  | none => rfl
  | some s =>
    obtain ⟨t, -, rfl, hne⟩ := asOptionalString_eq_some h
    exact asOptionalString_trimmed name' (trim_trim t) hne

/-- `asPositiveInteger` returns numbers within its limits. -/
theorem asPositiveInteger_range {v : Option Json} {fallback max n : ℤ} {name : String}
    (hfallback : 1 ≤ fallback ∧ fallback ≤ max)
    (h : asPositiveInteger v fallback name max = .ok n) : 1 ≤ n ∧ n ≤ max := by
  unfold asPositiveInteger at h
  split at h
  · obtain rfl := Except.ok.inj h
    exact hfallback
  · obtain rfl := Except.ok.inj h
    exact hfallback
  · obtain rfl := Except.ok.inj h
    exact hfallback
  · split at h
    · rename_i q _
      split_ifs at h with hq
      obtain rfl := Except.ok.inj h
      have hnum : ((q.num : ℤ) : ℚ) = q := Rat.coe_int_num_of_den_eq_one hq.1
      rw [← hnum] at hq
      exact ⟨by exact_mod_cast hq.2.1, by exact_mod_cast hq.2.2⟩
    · cases h

/-- A number within the limits is returned as it is. -/
theorem asPositiveInteger_int {fallback max n : ℤ} (name : String) (hn : 1 ≤ n ∧ n ≤ max)
    (hmax : max ≤ 9007199254740991) :
    asPositiveInteger (some (.int n)) fallback name max = .ok n := by
  have hsafe : Js.isSafeInteger n = true := by
    unfold Js.isSafeInteger
    simp only [Bool.and_eq_true, decide_eq_true_eq]
    omega
  have hnumber : Js.toNumber (.int n) = some (n : ℚ) := Js.toDouble_intCast hsafe
  have hq : ((n : ℚ)).den = 1 ∧ 1 ≤ (n : ℚ) ∧ (n : ℚ) ≤ max :=
    ⟨Rat.den_intCast n, by exact_mod_cast hn.1, by exact_mod_cast hn.2⟩
  unfold asPositiveInteger
  dsimp only
  rw [hnumber]
  dsimp only
  rw [if_pos hq, Rat.num_intCast]

variable {parseUrl : String → Option Url} {driver : String} {value : Json} {s : Settings}

/-- What is known of settings that were read. -/
theorem Settings.ReadFrom.numbers (h : s.ReadFrom parseUrl driver value) :
    (1 ≤ s.maxAttempts ∧ s.maxAttempts ≤ 10) ∧
      (1 ≤ s.connectionTimeoutMs ∧ s.connectionTimeoutMs ≤ 120000) ∧
      (1 ≤ s.socketTimeoutMs ∧ s.socketTimeoutMs ≤ 600000) ∧
      1 ≤ s.downloadUrlTtlSeconds ∧ s.downloadUrlTtlSeconds ≤ 604800 :=
  ⟨asPositiveInteger_range (by decide) h.maxAttempts,
    asPositiveInteger_range (by decide) h.connectionTimeoutMs,
    asPositiveInteger_range (by decide) h.socketTimeoutMs,
    asPositiveInteger_range (by decide) h.downloadUrlTtlSeconds⟩

/-- The boolean that was read is read again. -/
theorem parsePathStyle_bool (b : Bool) (endpoint : Option String) (driver : String) :
    parsePathStyle (some (.bool b)) endpoint driver = .ok b := by
  cases b <;> rfl

/-- The endpoint that was read is read again, whatever the driver. -/
theorem normalizeEndpoint_again (laws : UrlLaws parseUrl) {value : Option String} {legacyHost : Bool}
    {port useSSL : Option Json} {e : Option String}
    (h : normalizeEndpoint parseUrl value legacyHost port useSSL = .ok e) (legacyHost' : Bool)
    (port' useSSL' : Option Json) (name : String) :
    asOptionalString (e.map .str) name = .ok e ∧
      normalizeEndpoint parseUrl e legacyHost' port' useSSL' = .ok e := by
  cases value with
  | none =>
    obtain rfl := Except.ok.inj h
    exact ⟨rfl, rfl⟩
  | some value =>
    obtain ⟨-, u, hu, hurl, rfl⟩ := normalizeEndpoint_eq_ok_iff.mp h
    obtain ⟨htrim, hne⟩ := laws.trim_endpoint hu hurl
    obtain ⟨u', hu', hurl', hsame⟩ := laws.parse_endpoint hu hurl
    have hscheme : ¬(legacyHost' && !hasScheme u.endpoint) = true := by
      rw [hurl.hasScheme]
      simp
    refine ⟨asOptionalString_trimmed _ htrim hne, normalizeEndpoint_eq_ok_iff.mpr
      ⟨fun hl => absurd hl hscheme, u', ?_, hurl', congrArg some hsame.symm⟩⟩
    unfold endpointText
    rw [if_neg hscheme]
    exact hu'

/-- The region that was read is a trimmed text. -/
theorem Settings.ReadFrom.trim_region (h : s.ReadFrom parseUrl driver value) :
    Js.trim s.region = s.region ∧ s.region ≠ "" := by
  obtain ⟨r, hregion, hdefault⟩ := h.region
  rw [hdefault]
  cases r with
  | none => decide
  | some r =>
    obtain ⟨t, -, rfl, hne⟩ := asOptionalString_eq_some hregion
    exact ⟨trim_trim t, hne⟩

/-- The settings that were read are read out of what is stored of them, under every driver. -/
theorem Settings.ReadFrom.again (laws : UrlLaws parseUrl) (h : s.ReadFrom parseUrl driver value)
    (d : Option String) (driver' : String) : s.ReadFrom parseUrl driver' (s.stored d) := by
  obtain ⟨hattempts, hconnection, hsocket, hdownload⟩ := h.numbers
  obtain ⟨e, -, hendpoint⟩ := h.endpoint
  obtain ⟨hregion, hne⟩ := h.trim_region
  -- The names of older releases have no members, so that the current ones count.
  have hcurrent : ∀ o : Option String, coalesce (o.map .str) none = o.map .str := by
    intro o
    cases o <;> rfl
  have haccess : coalesce ((s.stored d).get? "accessKeyId") ((s.stored d).get? "accessKey") =
      s.accessKeyId.map .str := by
    rw [get?_stored, get?_stored]
    exact hcurrent s.accessKeyId
  have hsecret : coalesce ((s.stored d).get? "secretAccessKey") ((s.stored d).get? "secretKey") =
      s.secretAccessKey.map .str := by
    rw [get?_stored, get?_stored]
    exact hcurrent s.secretAccessKey
  have hstyle : (s.stored d).get? "forcePathStyle" = some (.bool s.forcePathStyle) :=
    get?_stored d s _
  have hregion' : asOptionalString ((s.stored d).get? "region") "S3_REGION" = .ok (some s.region) := by
    have hget : (s.stored d).get? "region" = some (.str s.region) := get?_stored d s _
    rw [hget]
    exact asOptionalString_trimmed _ hregion hne
  constructor
  · exact ⟨_, rfl⟩
  · rw [get?_stored]
    exact asOptionalString_again h.bucket
  · exact h.bucketChars
  · refine ⟨s.endpoint, ?_⟩
    rw [get?_stored]
    exact normalizeEndpoint_again laws hendpoint _ _ _ _
  · rw [haccess]
    exact asOptionalString_again h.accessKeyId
  · rw [hsecret]
    exact asOptionalString_again h.secretAccessKey
  · rw [get?_stored]
    exact asOptionalString_again h.sessionToken
  · exact h.paired
  · exact h.token
  · exact ⟨some s.region, hregion', rfl⟩
  · rw [get?_stored]
    exact asPositiveInteger_int _ hattempts (by decide)
  · rw [get?_stored]
    exact asPositiveInteger_int _ hconnection (by decide)
  · rw [get?_stored]
    exact asPositiveInteger_int _ hsocket (by decide)
  · rw [get?_stored]
    exact asPositiveInteger_int _ hdownload (by decide)
  · rw [hstyle]
    exact parsePathStyle_bool _ _ _

/-- The normal form of a configuration is its own normal form, under every driver. -/
theorem normal_form_stable (laws : UrlLaws parseUrl) {r : List (String × Json)}
    (h : normalizeS3CompatibleConfig parseUrl value driver = .ok r) (driver' : String) :
    normalizeS3CompatibleConfig parseUrl (.obj r) driver' = .ok r := by
  obtain ⟨s, hs, rfl⟩ := normalize_eq_ok_iff.mp h
  exact (hs.again laws none driver').normalize

end stability

end Reeva
