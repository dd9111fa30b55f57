import Mathlib.Algebra.Ring.Int.Defs
import Reeva.Codec.Base64Url
import Reeva.Codec.Json
import Reeva.Codec.Text

/-!
# What the signer reads

The signer's own checks: the credentials of a request, the release manifest inside a payload, as serde
reads it, and the answers of the key store. The crates for SHA-256 and Ed25519 are parameters,
collected in `Crates`; lengths are those of Rust, in bytes of UTF-8.
-/

namespace Reeva.Signer

/-- What the code takes from the crates `sha2` and `ed25519_dalek`. -/
structure Crates where
  /-- A public key. -/
  VerifyingKey : Type
  /-- `Sha256::digest` -/
  sha256 : List UInt8 → List UInt8
  /-- `VerifyingKey::from_bytes` of 32 bytes. -/
  fromBytes : List UInt8 → Option VerifyingKey
  /-- `key.to_public_key_der()` -/
  toPublicKeyDer : VerifyingKey → Option (List UInt8)
  /-- `key.to_public_key_pem(LineEnding::LF)` -/
  toPublicKeyPem : VerifyingKey → Option String
  /-- `VerifyingKey::from_public_key_pem` -/
  fromPublicKeyPem : String → Option VerifyingKey
  /-- `key.verify_strict(bytes, &signature)` for a signature of 64 bytes. -/
  verifyStrict : VerifyingKey → List UInt8 → List UInt8 → Bool

/-- A status of HTTP. -/
inductive StatusCode
  | badRequest
  | unauthorized
  | notFound
  | conflict
  | gone
  | tooManyRequests
  | serviceUnavailable
  deriving DecidableEq, Repr

/-- `ApiError` -/
structure ApiError where
  status : StatusCode
  message : String
  deriving DecidableEq, Repr

/-- `invalid` -/
def invalid (message : String) : ApiError := ⟨.badRequest, message⟩

/-- `unavailable` -/
def unavailable : ApiError := ⟨.serviceUnavailable, "Signing backend unavailable or sealed."⟩

/-- `value.len()` -/
def byteLength (value : String) : ℕ := (Js.utf8 value).length

/-- The length of a text of ASCII characters, as Rust counts it. -/
theorem byteLength_of_ascii {s : String} (h : ∀ c ∈ s.toList, c.toNat < 128) :
    byteLength s = s.toList.length := by
  have hone : ∀ c ∈ s.toList, (String.utf8EncodeChar c).length = 1 := by
    intro c hc
    have hsize : c.utf8Size = 1 := Char.utf8Size_eq_one_iff.mpr
      (UInt32.le_iff_toNat_le.mpr (Nat.le_of_lt_succ (h c hc)))
    rw [String.length_utf8EncodeChar, hsize]
  rw [byteLength, Js.utf8, List.length_flatMap, List.map_congr_left hone, List.map_const',
    List.sum_replicate_nat, Nat.mul_one]

/-- `hex::encode` -/
def hexEncode (bytes : List UInt8) : String :=
  String.ofList (bytes.flatMap fun b => [Nat.digitChar (b.toNat / 16), Nat.digitChar (b.toNat % 16)])

/-- Bytes are determined by their hexadecimal digits. -/
theorem hexEncode_injective {a b : List UInt8} (h : hexEncode a = hexEncode b) :
    a = b := by
  have digits : ∀ x < 256, ∀ y < 256, Nat.digitChar (x / 16) = Nat.digitChar (y / 16) →
      Nat.digitChar (x % 16) = Nat.digitChar (y % 16) → x = y := by
    have digit : ∀ m < 16, ∀ n < 16, Nat.digitChar m = Nat.digitChar n → m = n := by decide
    intro x hx y hy hhigh hlow
    have h₁ := digit _ (by omega) _ (by omega) hhigh
    have h₂ := digit _ (by omega) _ (by omega) hlow
    omega
  replace h := String.ofList_injective h
  induction a generalizing b with
  | nil =>
    cases b with
    | nil => rfl
    | cons y b => cases h
  | cons x a ih =>
    cases b with
    | nil => cases h
    | cons y b =>
      simp only [List.flatMap_cons, List.cons_append, List.nil_append, List.cons.injEq] at h
      obtain ⟨hhigh, hlow, hrest⟩ := h
      rw [ih hrest, UInt8.toNat_inj.mp (digits _ x.toNat_lt _ y.toNat_lt hhigh hlow)]

section checks

variable (crates : Crates)

/-- `digest` -/
def digest (bytes : List UInt8) : String := hexEncode (crates.sha256 bytes)

/-- `token_hash` -/
def tokenHash (value : String) : List UInt8 := crates.sha256 (Js.utf8 value)

/-- The token of a header `authorization`, when it has the form of one. -/
def bearerToken (authorization : Option String) : String :=
  (authorization.bind fun value => do
    let rest ← "Bearer ".toList.isPrefixOf? value.toList
    return String.ofList rest).getD ""

/-- `check_auth` -/
def checkAuth (authorization : Option String) (expected : List UInt8) : Except ApiError Unit :=
  let token := bearerToken authorization
  if 256 < byteLength token ∨ tokenHash crates token ≠ expected then
    .error ⟨.unauthorized, "Invalid signing identity."⟩
  else .ok ()

/-- `valid_slug` -/
def validSlug (value : String) : Bool :=
  value ≠ "" && byteLength value ≤ 80 && value.toList.head? ≠ some '-' &&
    value.toList.getLast? ≠ some '-' &&
    value.toList.all fun c => c.isLower || c.isDigit || c = '-'

/-- `valid_hex` -/
def validHex (value : String) : Bool :=
  byteLength value = 64 && value.toList.all fun c => c.isDigit || ('a' ≤ c && c ≤ 'f')

/-- A character of a product is an ASCII character other than NUL. -/
theorem slugChar_ascii {c : Char} (h : (c.isLower || c.isDigit || c = '-') = true) :
    0 < c.toNat ∧ c.toNat < 128 := by
  change (decide ('a'.val ≤ c.val) && decide (c.val ≤ 'z'.val) || c.isDigit || c = '-') = true at h
  simp only [Bool.or_eq_true, Char.isDigit, Bool.and_eq_true, decide_eq_true_eq, ge_iff_le,
    UInt32.le_iff_toNat_le] at h
  change (97 ≤ c.toNat ∧ c.toNat ≤ 122 ∨ 48 ≤ c.toNat ∧ c.toNat ≤ 57) ∨ c = '-' at h
  obtain (h | h) | rfl := h
  · omega
  · omega
  · decide

/-- A character of a key is an ASCII character other than NUL. -/
theorem hexChar_ascii {c : Char} (h : (c.isDigit || ('a' ≤ c && c ≤ 'f')) = true) :
    0 < c.toNat ∧ c.toNat < 128 := by
  simp only [Bool.or_eq_true, Char.isDigit, Bool.and_eq_true, decide_eq_true_eq, ge_iff_le,
    Char.le_def, UInt32.le_iff_toNat_le] at h
  change 48 ≤ c.toNat ∧ c.toNat ≤ 57 ∨ 97 ≤ c.toNat ∧ c.toNat ≤ 102 at h
  omega

end checks

/-! ## The manifest -/

/-- `Manifest` -/
structure Manifest where
  schemaVersion : ℕ
  software : String
  version : String
  codename : Option String
  changelog : Option String
  channel : String
  platform : String
  architecture : String
  fileName : String
  sizeBytes : ℕ
  sha256 : String
  deriving DecidableEq, Repr

/-- An unsigned number of so many bits. -/
def readUnsigned (bits : ℕ) : Json → Option ℕ
  | .int n => if 0 ≤ n ∧ n < 2 ^ bits then some n.toNat else none
  | _ => none

/-- A string. -/
def readString : Json → Option String
  | .str s => some s
  | _ => none

/-- A string or `null`. -/
def readOption : Json → Option (Option String)
  | .null => some none
  | .str s => some (some s)
  | _ => none

/-- The members of a manifest. -/
def manifestFields : List String :=
  ["schemaVersion", "software", "version", "codename", "changelog", "channel", "platform",
    "architecture", "fileName", "sizeBytes", "sha256"]

/-- The values of a manifest, in order. -/
def Manifest.ofValues (schemaVersion software version codename changelog channel platform
    architecture fileName sizeBytes sha256 : Json) : Option Manifest := do
  return {
    schemaVersion := ← readUnsigned 32 schemaVersion
    software := ← readString software
    version := ← readString version
    codename := ← readOption codename
    changelog := ← readOption changelog
    channel := ← readString channel
    platform := ← readString platform
    architecture := ← readString architecture
    fileName := ← readString fileName
    sizeBytes := ← readUnsigned 64 sizeBytes
    sha256 := ← readString sha256 }

/-- `serde_json::from_slice` of a manifest: an object with these members and no other, none of them
twice, of which the nullable ones may be missing; or an array of their values. -/
def Manifest.fromJson : Json → Option Manifest
  | .obj fields =>
    if fields.all (fun f => manifestFields.contains f.1) ∧ (fields.map (·.1)).Nodup then do
      Manifest.ofValues (← fields.lookup "schemaVersion") (← fields.lookup "software")
        (← fields.lookup "version") ((fields.lookup "codename").getD .null)
        ((fields.lookup "changelog").getD .null) (← fields.lookup "channel")
        (← fields.lookup "platform") (← fields.lookup "architecture") (← fields.lookup "fileName")
        (← fields.lookup "sizeBytes") (← fields.lookup "sha256")
    else none
  | .arr [schemaVersion, software, version, codename, changelog, channel, platform, architecture,
      fileName, sizeBytes, sha256] =>
    Manifest.ofValues schemaVersion software version codename changelog channel platform architecture
      fileName sizeBytes sha256
  | _ => none

/-- `value.split(separator)` -/
def split (separator : Char) : List Char → List (List Char)
  | [] => [[]]
  | c :: cs =>
    if c = separator then [] :: split separator cs
    else
      match split separator cs with
      | part :: parts => (c :: part) :: parts
      | [] => [[c]]

/-- A part of a version: a number of type `i32` without leading zeros. -/
def isVersionPart (part : List Char) : Bool :=
  part ≠ [] && (part.length = 1 || part.head? ≠ some '0') && part.all Char.isDigit &&
    Nat.ofDigitChars 10 part 0 ≤ 2147483647

/-- Three such parts. -/
def isSemver (version : String) : Bool :=
  let parts := split '.' version.toList
  parts.length = 3 && parts.all isVersionPart

/-- `char::is_control` -/
def isControl (c : Char) : Bool := c.toNat < 32 || (127 ≤ c.toNat && c.toNat < 160)

/-- The name of a platform or an architecture. -/
def isContext (value : String) : Bool :=
  value ≠ "" && byteLength value ≤ 100 && !value.toList.any isControl

/-- The metadata that `parse_payload` supports. -/
def Manifest.supported (m : Manifest) (product : String) : Bool :=
  m.schemaVersion = 1 && validSlug product && m.software = product && isSemver m.version &&
    ["stable", "beta", "dev", "staging"].contains m.channel && isContext m.platform &&
    isContext m.architecture && m.fileName ≠ "" && byteLength m.fileName ≤ 500 &&
    !m.fileName.toList.any (fun c => isControl c || c = '/' || c = '\\') &&
    m.sizeBytes ≤ 9007199254740991 && validHex m.sha256 &&
    m.codename.all (fun v => byteLength v ≤ 1024) && m.changelog.all (fun v => byteLength v ≤ 90000)

/-- `parse_payload` -/
def parsePayload (payload product : String) : Except ApiError (List UInt8 × Manifest) :=
  if payload = "" ∨ 120000 < byteLength payload then .error (invalid "Invalid manifest size.")
  else
    match Base64Url.decodeStrict payload.toList with
    | none => .error (invalid "Invalid base64url payload.")
    | some bytes =>
      if Base64Url.encode bytes ≠ payload.toList then .error (invalid "Noncanonical payload.")
      else
        match ((Js.fromUtf8 bytes).bind Json.parse).bind Manifest.fromJson with
        | none => .error (invalid "Invalid release manifest.")
        | some m =>
          if m.supported product then .ok (bytes, m)
          else .error (invalid "Unsupported or mismatched release metadata.")

/-! ## The key store -/

/-- `PublicKey` -/
structure PublicKey where
  product : String
  keyVersion : ℕ
  keyId : String
  publicKey : String
  deriving DecidableEq, Repr

/-- `value[key]` -/
def member (value : Json) (key : String) : Json := (value.get? key).getD .null

/-- `value.as_u64()` -/
def asU64 : Json → Option ℕ := readUnsigned 64

/-- `STANDARD.decode`, which takes an encoder's output only. -/
def decodeBase64 (text : String) : Option (List UInt8) :=
  let bytes := Base64Url.decodeStandard text.toList
  if Base64Url.encodeStandard bytes = text.toList then some bytes else none

section keyStore

variable (crates : Crates)

/-- The part of `Bao::key` that reads the answer. -/
def readKey (product : String) (version : Option ℕ) (result : Json) : Except ApiError PublicKey :=
  let data := member result "data"
  if member data "type" ≠ .str "ed25519" ∨ member data "derived" ≠ .bool false ∨
      member data "exportable" ≠ .bool false ∨
      member data "allow_plaintext_backup" ≠ .bool false then
    .error ⟨.conflict, "Signing key does not satisfy custody policy."⟩
  else
    match (asU64 (member data "latest_version")).filter (· < 2 ^ 32) with
    | none => .error unavailable
    | some latest =>
      let version := version.getD latest
      if version = 0 ∨ latest < version ∨
          version < (asU64 (member data "min_encryption_version")).getD 0 then
        .error ⟨.conflict, "Signing key version is disabled."⟩
      else
        let found := do
          let raw ← readString
            (member (member (member data "keys") (toString version)) "public_key")
          let raw ← (decodeBase64 raw).filter (·.length = 32)
          let key ← crates.fromBytes raw
          let der ← crates.toPublicKeyDer key
          let pem ← crates.toPublicKeyPem key
          return (digest crates der, pem)
        match found with
        | none => .error unavailable
        | some (keyId, publicKey) => .ok { product, keyVersion := version, keyId, publicKey }

/-- The part of `Bao::sign` that reads the answer. -/
def readSignature (key : PublicKey) (bytes : List UInt8) (result : Json) : Except ApiError String :=
  let found := do
    let wrapped ← readString (member (member result "data") "signature")
    let text ← ("vault:v" ++ toString key.keyVersion ++ ":").toList.isPrefixOf? wrapped.toList
    let signature ← (decodeBase64 (String.ofList text)).filter (·.length = 64)
    let pub ← crates.fromPublicKeyPem key.publicKey
    if crates.verifyStrict pub bytes signature then
      return String.ofList (Base64Url.encode signature)
    else none
  match found with
  | none => .error unavailable
  | some signature => .ok signature

/-- `request_id` -/
def requestId (product keyId : String) (bytes : List UInt8) : String :=
  hexEncode (crates.sha256 (Js.utf8 "reeva-signer-v1" ++ 0 :: (Js.utf8 product ++ 0 ::
    (Js.utf8 keyId ++ 0 :: bytes))))

end keyStore

section reading

variable {crates : Crates} {key : PublicKey} {answer : Json}

/-- A key that is read is one of the crates. -/
theorem readKey_ok {product : String} {version : Option ℕ}
    (h : readKey crates product version answer = .ok key) :
    ∃ pub der, crates.toPublicKeyDer pub = some der ∧
      crates.toPublicKeyPem pub = some key.publicKey ∧ key.keyId = digest crates der := by
  unfold readKey at h
  dsimp only at h
  split at h
  · cases h
  · split at h
    · cases h
    · split at h
      · cases h
      · split at h
        · cases h
        · rename_i keyId publicKey hfound
          obtain ⟨raw, -, hfound⟩ := Option.bind_eq_some_iff.mp hfound
          obtain ⟨bytes, -, hfound⟩ := Option.bind_eq_some_iff.mp hfound
          obtain ⟨pub, -, hfound⟩ := Option.bind_eq_some_iff.mp hfound
          obtain ⟨der, hder, hfound⟩ := Option.bind_eq_some_iff.mp hfound
          obtain ⟨pem, hpem, hfound⟩ := Option.bind_eq_some_iff.mp hfound
          obtain ⟨hid, hkey⟩ := Prod.mk.inj (Option.some.inj hfound)
          rw [← Except.ok.inj h]
          exact ⟨pub, der, hder, hkey ▸ hpem, hid.symm⟩

/-- A key that is read has the version that was asked for. -/
theorem readKey_version {product : String} {version : ℕ}
    (h : readKey crates product (some version) answer = .ok key) : key.keyVersion = version := by
  unfold readKey at h
  dsimp only at h
  split at h
  · cases h
  · split at h
    · cases h
    · split at h
      · cases h
      · split at h
        · cases h
        · rw [← Except.ok.inj h]
          rfl

/-- A signature that is read is valid. -/
theorem readSignature_ok {bytes : List UInt8} {text : String}
    (h : readSignature crates key bytes answer = .ok text) :
    ∃ pub signature, crates.fromPublicKeyPem key.publicKey = some pub ∧ signature.length = 64 ∧
      crates.verifyStrict pub bytes signature = true ∧
      text = String.ofList (Base64Url.encode signature) := by
  unfold readSignature at h
  dsimp only at h
  split at h
  · cases h
  · rename_i found hfound
    obtain ⟨wrapped, -, hfound⟩ := Option.bind_eq_some_iff.mp hfound
    obtain ⟨rest, -, hfound⟩ := Option.bind_eq_some_iff.mp hfound
    obtain ⟨signature, hlength, hfound⟩ := Option.bind_eq_some_iff.mp hfound
    obtain ⟨pub, hpub, hfound⟩ := Option.bind_eq_some_iff.mp hfound
    have hlong := of_decide_eq_true (Option.filter_eq_some_iff.mp hlength).2
    split at hfound
    · rename_i hverify
      refine ⟨pub, signature, hpub, hlong, hverify, ?_⟩
      rw [← Except.ok.inj h]
      exact (Option.some.inj hfound).symm
    · cases hfound

end reading

end Reeva.Signer
