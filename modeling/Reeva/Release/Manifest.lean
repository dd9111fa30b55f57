import Reeva.Codec.Base64Url
import Reeva.Codec.JsonRoundTrip
import Reeva.Codec.Number
import Reeva.Codec.Text
import Reeva.Cms.Database

/-!
# Signed release manifests

The manifest that Reeva builds from an artifact and its relations, the payload that is signed, the
verification of a signature over it, and the envelope that the update endpoints serve. Node's
cryptography and the Unicode tables are parameters, collected in `Node`.
-/

namespace Reeva

/-- What the code takes from Node, its Unicode tables, luxon and semver. -/
structure Node where
  /-- A public key object. -/
  KeyObject : Type
  /-- `createPublicKey`, with the message of what it throws. -/
  createPublicKey : String → Except String KeyObject
  /-- `key.asymmetricKeyType`. -/
  asymmetricKeyType : KeyObject → String
  /-- `key.export({ format: 'der', type: 'spki' })`. -/
  exportDer : KeyObject → List UInt8
  /-- `key.export({ format: 'pem', type: 'spki' })`. -/
  exportPem : KeyObject → String
  /-- `verify(null, data, key, signature)`. -/
  verify : List UInt8 → KeyObject → List UInt8 → Bool
  /-- `createHash(algorithm).update(data).digest('hex')`. -/
  digest : String → List UInt8 → String
  /-- `s.normalize('NFKD')`. -/
  normalizeNfkd : String → String
  /-- `s.toLowerCase()`. -/
  toLowerCase : String → String
  /-- A character of `\p{M}`. -/
  isMark : Char → Bool
  /-- `DateTime.fromISO(s).toISODate()`; `none` when the date is invalid. -/
  toISODate : String → Option String
  /-- `semver.valid(s)` -/
  semverValid : String → Bool

/-- A version with its preloaded software. -/
structure LoadedVersion where
  version : Version
  software : Option Software
  deriving DecidableEq, Repr

/-- An artifact with its preloaded relations. -/
structure LoadedArtifact where
  artifact : Artifact
  version : Option LoadedVersion
  platform : Option Target
  architecture : Option Target
  deriving DecidableEq, Repr

/-- `OtaReleaseManifest`, whose `schemaVersion` is always 1. -/
structure OtaReleaseManifest where
  software : String
  version : String
  codename : Option String
  changelog : Option String
  channel : String
  platform : String
  architecture : String
  fileName : String
  sizeBytes : ℤ
  sha256 : String
  deriving DecidableEq, Repr

/-- `OtaSignatureEnvelope`. -/
structure OtaSignatureEnvelope where
  payload : String
  signature : String
  keyId : String
  deriving DecidableEq, Repr

/-- A nullable string as a JSON value. -/
def jsonOfNullable : Option String → Json
  | some s => .str s
  | none => .null

/-- The manifest's own properties, in their order. -/
def OtaReleaseManifest.entries (m : OtaReleaseManifest) : List (String × Json) :=
  [("schemaVersion", .int 1), ("software", .str m.software), ("version", .str m.version),
    ("codename", jsonOfNullable m.codename), ("changelog", jsonOfNullable m.changelog),
    ("channel", .str m.channel), ("platform", .str m.platform),
    ("architecture", .str m.architecture), ("fileName", .str m.fileName),
    ("sizeBytes", .int m.sizeBytes), ("sha256", .str m.sha256)]

/-- The manifest as a JSON value. -/
def OtaReleaseManifest.toJson (m : OtaReleaseManifest) : Json := .obj m.entries

/-- `` `${major}.${minor}.${patch}` ``. -/
def Version.number (v : Version) : String :=
  toString v.major ++ "." ++ toString v.minor ++ "." ++ toString v.patch

/-- `buildOtaReleaseManifest`. -/
def buildOtaReleaseManifest (a : LoadedArtifact) : Except String OtaReleaseManifest :=
  match a.version, a.platform, a.architecture with
  | some ⟨version, some software⟩, some platform, some architecture =>
    match a.artifact.sizeBytes with
    | some sizeBytes =>
      if !Js.isSafeInteger sizeBytes || sizeBytes < 0 then
        .error "Release size is missing or invalid and cannot be signed."
      else
        match a.artifact.checksumSha256 with
        | some sha256 =>
          if !Js.isSha256Hex sha256 then
            .error "A valid SHA-256 checksum is required before signing a release."
          else
            .ok {
              software := software.slug
              version := version.number
              codename := version.codename
              changelog := version.changelog
              channel := a.artifact.channel
              platform := platform.name
              architecture := architecture.name
              fileName := a.artifact.fileName
              sizeBytes
              sha256 }
        | none => .error "A valid SHA-256 checksum is required before signing a release."
    | none => .error "Release size is missing or invalid and cannot be signed."
  | _, _, _ => .error "Release metadata is incomplete and cannot be signed."

/-- The payload of a manifest: the base64url form of its compact JSON text. -/
def OtaReleaseManifest.payload (m : OtaReleaseManifest) : String :=
  String.ofList (Base64Url.encode (Js.utf8 m.toJson.stringify))

/-- `createOtaReleasePayload`. -/
def createOtaReleasePayload (a : LoadedArtifact) : Except String String :=
  (buildOtaReleaseManifest a).map OtaReleaseManifest.payload

/-- `JSON.parse(Buffer.from(payload, 'base64url').toString('utf8'))`. -/
def parseOtaReleasePayload (payload : String) : Option Json :=
  (Js.fromUtf8 (Base64Url.decodeLenient payload.toList)).bind Json.parse

variable (node : Node)

/-- `getPublicKey`. -/
def getPublicKey (publicKeyPem : String) : Except String node.KeyObject := do
  let key ← node.createPublicKey publicKeyPem
  if node.asymmetricKeyType key = "ed25519" then return key
  else throw "OTA release keys must use Ed25519."

/-- `getOtaSigningKeyId`. -/
def getOtaSigningKeyId (publicKeyPem : String) : Except String String := do
  let publicKey ← getPublicKey node publicKeyPem
  return node.digest "sha256" (node.exportDer publicKey)

/-- `validateOtaPublicKey`, for a string: the normalised key and its identifier. -/
def validateOtaPublicKey (publicKeyPem : String) : Except String (String × String) :=
  if 4096 < Js.length publicKeyPem then .error "Provide an Ed25519 public key in PEM format."
  else
    let trimmed := Js.trim publicKeyPem
    if !("-----BEGIN PUBLIC KEY-----".toList).isPrefixOf trimmed.toList then
      .error "Provide an Ed25519 public key in SPKI PEM format."
    else do
      let key ← getPublicKey node trimmed
      let keyId ← getOtaSigningKeyId node trimmed
      return (node.exportPem key, keyId)

/-- `verifyOtaReleaseSignature`. -/
def verifyOtaReleaseSignature (payload : String) (signature : Json) (publicKeyPem : String) :
    Bool :=
  match signature with
  | .str signature =>
    if signature.toList.length ≠ 86 ∨ !signature.toList.all Base64Url.isAlphabet then false
    else if payload.toList = [] ∨ !payload.toList.all Base64Url.isAlphabet ∨
        120000 < payload.toList.length then false
    else
      let payloadBytes := Base64Url.decodeLenient payload.toList
      let signatureBytes := Base64Url.decodeLenient signature.toList
      if signatureBytes.length ≠ 64 ∨ Base64Url.encode signatureBytes ≠ signature.toList ∨
          payloadBytes.length = 0 ∨ Base64Url.encode payloadBytes ≠ payload.toList then false
      else
        match getPublicKey node publicKeyPem with
        | .ok key => node.verify payloadBytes key signatureBytes
        | .error _ => false
  | _ => false

/-- `createOtaSignatureEnvelope`. -/
def createOtaSignatureEnvelope (a : LoadedArtifact) :
    Except String (Option OtaSignatureEnvelope) :=
  match a.artifact.signature, a.artifact.signatureKeyId with
  | some signature, some keyId =>
    if signature = "" ∨ keyId = "" then .ok none
    else
      match buildOtaReleaseManifest a with
      | .error e => .error e
      | .ok manifest =>
        match a.artifact.signatureManifest with
        | none => .ok none
        | some snapshot =>
          if manifest.entries.any fun entry => snapshot.get? entry.1 ≠ some entry.2 then .ok none
          else .ok (some { payload := manifest.payload, signature, keyId })
  | _, _ => .ok none

/-! ## A toy scheme

A signature scheme that can be evaluated, for concrete runs: a key is the last character of its text,
and the signature of some data is the key's number and the length of the data, filled up with zeros.
-/

/-- The signature of `data` under `key`. -/
def toySign (key : Char) (data : List UInt8) : List UInt8 :=
  UInt8.ofNat key.toNat :: UInt8.ofNat data.length :: UInt8.ofNat (data.length / 256) ::
    List.replicate 61 0

/-- A key identifier that is easy to write down. -/
def toyKeyId (digit : Char) : String := String.ofList (List.replicate 64 digit)

/-- Node with the toy scheme, with texts left as they are, and with the length for a digest. -/
def toyNode : Node where
  KeyObject := Char
  createPublicKey pem := .ok (pem.toList.getLast?.getD 'A')
  asymmetricKeyType _ := "ed25519"
  exportDer key := [UInt8.ofNat key.toNat]
  exportPem key := "-----BEGIN PUBLIC KEY-----" ++ String.ofList [key]
  verify data key signature := signature == toySign key data
  digest _ data := String.ofList
    (List.replicate (64 - (Nat.toDigits 16 data.length).length) '0' ++
      Nat.toDigits 16 data.length)
  normalizeNfkd := id
  toLowerCase s := s
  isMark _ := false
  toISODate _ := none
  semverValid _ := true

end Reeva
