import Reeva.Codec.Number

/-!
# Normal form of an S3-compatible configuration

`normalizeS3CompatibleConfig`: the checks and defaults that every S3 configuration goes through. An
absent property is `none`. The URL parser of the platform is a parameter.
-/

namespace Reeva

/-- A parsed URL. -/
structure Url where
  protocol : String
  host : String
  pathname : String
  username : String
  password : String
  search : String
  hash : String
  deriving DecidableEq, Repr

/-- `url.toString()` for a URL without credentials, query and fragment. -/
def Url.href (u : Url) : String :=
  u.protocol ++ "//" ++ u.host ++ if u.pathname = "" then "/" else u.pathname

/-- The members that are not `undefined`. -/
def present (fields : List (String × Option Json)) : List (String × Json) :=
  fields.filterMap fun f => f.2.map fun v => (f.1, v)

/-- `value.replace(/\/+$/, '')`. -/
def dropSlashes (s : String) : String :=
  String.ofList ((s.toList.reverse.dropWhile (· = '/')).reverse)

/-- `value.replace(/\/$/, '')`. -/
def dropSlash (s : String) : String :=
  match s.toList.reverse with
  | '/' :: cs => String.ofList cs.reverse
  | _ => s

/-- `asOptionalString`. -/
def asOptionalString (value : Option Json) (name : String) : Except String (Option String) :=
  match value with
  | none | some .null | some (.str "") => .ok none
  | some (.str s) =>
    if Js.trim s = "" then .error s!"{name} must be a non-empty string when configured."
    else .ok (some (Js.trim s))
  | some _ => .error s!"{name} must be a non-empty string when configured."

/-- `asPositiveInteger`. -/
def asPositiveInteger (value : Option Json) (fallback : ℤ) (name : String) (max : ℤ) :
    Except String ℤ :=
  match value with
  | none | some .null | some (.str "") => .ok fallback
  | some v =>
    match Js.toNumber v with
    | some q =>
      if q.den = 1 ∧ 1 ≤ q ∧ q ≤ max then .ok q.num
      else .error s!"{name} must be an integer between 1 and {max}."
    | none => .error s!"{name} must be an integer between 1 and {max}."

/-- `/^[a-z][a-z\d+.-]*:\/\//i.test(s)`. -/
def hasScheme (s : String) : Bool :=
  match s.toList with
  | c :: cs =>
    let rest := cs.dropWhile fun c => c.isAlphanum || c = '+' || c = '.' || c = '-'
    c.isAlpha && rest.take 3 = [':', '/', '/']
  | [] => false

/-- `normalizeEndpoint`. -/
def normalizeEndpoint (parseUrl : String → Option Url) (value : Option String) (legacyHost : Bool)
    (port useSSL : Option Json) : Except String (Option String) :=
  match value with
  | none => .ok none
  | some value => do
    let endpointValue ←
      if legacyHost && !hasScheme value then do
        let secure := useSSL = some (.bool true) ∨ useSSL = some (.str "true")
        let portText := match port with
          | some (.str s) => s
          | some (.int n) => Js.text (.int n)
          | some (.float m e) => Js.text (.float m e)
          | _ => ""
        let digits := portText.toList
        let number := Nat.ofDigitChars 10 digits 0
        if portText ≠ "" ∧ (¬digits.all Char.isDigit ∨ number < 1 ∨ 65535 < number) then
          .error "Storage endpoint port must be an integer between 1 and 65535."
        else
          let scheme := if secure then "https" else "http"
          .ok (scheme ++ "://" ++ value ++ if portText = "" then "" else ":" ++ portText)
      else .ok value
    match parseUrl endpointValue with
    | none => .error "S3_ENDPOINT must be a valid HTTP or HTTPS URL."
    | some endpoint =>
      if (endpoint.protocol ≠ "http:" ∧ endpoint.protocol ≠ "https:") ∨ endpoint.username ≠ "" ∨
          endpoint.password ≠ "" ∨ endpoint.search ≠ "" ∨ endpoint.hash ≠ "" then
        .error "S3_ENDPOINT must use HTTP or HTTPS without credentials, query, or fragment."
      else .ok (some (dropSlash { endpoint with pathname := dropSlashes endpoint.pathname }.href))

/-- `parsePathStyle`. -/
def parsePathStyle (value : Option Json) (endpoint : Option String) (legacyDriver : String) :
    Except String Bool :=
  match value with
  | some (.bool true) | some (.str "true") => .ok true
  | some (.bool false) | some (.str "false") => .ok false
  | none | some .null | some (.str "") | some (.str "auto") =>
    .ok (legacyDriver = "minio" || legacyDriver = "seaweedfs" || endpoint.any (· ≠ ""))
  | some _ => .error "S3_FORCE_PATH_STYLE must be one of auto, true, or false."

/-- `normalizeS3CompatibleConfig`: the members of the normal form. -/
def normalizeS3CompatibleConfig (parseUrl : String → Option Url) (value : Json)
    (driver : String) : Except String (List (String × Json)) := do
  match value with
  | .obj _ => .ok ()
  | _ => .error "S3 storage configuration must be an object."
  let either (k l : String) : Option Json := match value.get? k with
    | none | some .null => value.get? l
    | v => v
  let bucket := (← asOptionalString (value.get? "bucket") "S3_BUCKET").getD ""
  if bucket = "" ∨ bucket.toList.any fun c => c = '/' || c = '\\' || Js.isSpace c then
    .error "S3_BUCKET is required and cannot contain path separators or whitespace."
  let endpointValue ← asOptionalString (value.get? "endpoint") "S3_ENDPOINT"
  let endpoint ← normalizeEndpoint parseUrl endpointValue
    (driver = "minio" || driver = "seaweedfs") (value.get? "port") (value.get? "useSSL")
  let accessKeyId ← asOptionalString (either "accessKeyId" "accessKey") "S3_ACCESS_KEY_ID"
  let secretAccessKey ←
    asOptionalString (either "secretAccessKey" "secretKey") "S3_SECRET_ACCESS_KEY"
  let sessionToken ← asOptionalString (value.get? "sessionToken") "S3_SESSION_TOKEN"
  if accessKeyId.isSome ≠ secretAccessKey.isSome then
    .error "S3_ACCESS_KEY_ID and S3_SECRET_ACCESS_KEY must be configured together."
  if sessionToken.isSome ∧ accessKeyId = none then
    .error "S3_SESSION_TOKEN requires S3_ACCESS_KEY_ID and S3_SECRET_ACCESS_KEY."
  let region := (← asOptionalString (value.get? "region") "S3_REGION").getD "us-east-1"
  let maxAttempts ← asPositiveInteger (value.get? "maxAttempts") 3 "S3_MAX_ATTEMPTS" 10
  let connectionTimeoutMs ← asPositiveInteger (value.get? "connectionTimeoutMs") 10000
    "S3_CONNECTION_TIMEOUT_MS" 120000
  let socketTimeoutMs ← asPositiveInteger (value.get? "socketTimeoutMs") 120000
    "S3_SOCKET_TIMEOUT_MS" 600000
  let downloadUrlTtlSeconds ← asPositiveInteger (value.get? "downloadUrlTtlSeconds") 3600
    "S3_DOWNLOAD_URL_TTL_SECONDS" 604800
  let forcePathStyle ← parsePathStyle (value.get? "forcePathStyle") endpoint driver
  return present [
    ("bucket", some (.str bucket)),
    ("region", some (.str region)),
    ("endpoint", endpoint.map .str),
    ("accessKeyId", accessKeyId.map .str),
    ("secretAccessKey", secretAccessKey.map .str),
    ("sessionToken", sessionToken.map .str),
    ("forcePathStyle", some (.bool forcePathStyle)),
    ("maxAttempts", some (.int maxAttempts)),
    ("connectionTimeoutMs", some (.int connectionTimeoutMs)),
    ("socketTimeoutMs", some (.int socketTimeoutMs)),
    ("downloadUrlTtlSeconds", some (.int downloadUrlTtlSeconds))]

end Reeva
