import Reeva.Cms.World
import Reeva.Cms.Names

/-!
# The client of the managed signer

`ManagedSignerService`: what Reeva asks of the remote signer, and the checks that an answer has to
pass before Reeva uses it.
-/

open Interleaving ReadCommitted

namespace Reeva

/-- `ManagedSigningKey` -/
structure ManagedSigningKey where
  product : String
  keyVersion : ℤ
  keyId : String
  publicKey : String
  deriving DecidableEq, Repr

/-- `ManagedSigningRequest`. `status` and `signature` are what the signer sent, whatever its type. -/
structure ManagedSigningRequest extends ManagedSigningKey where
  id : String
  payload : String
  payloadDigest : String
  status : Json
  signature : Json
  expiresAt : ℤ
  deriving DecidableEq, Repr

/-- A character that `encodeURIComponent` keeps. -/
def isUriChar (c : Char) : Bool :=
  c.isAlphanum || ['-', '_', '.', '!', '~', '*', '\'', '(', ')'].contains c

/-- `encodeURIComponent` -/
def encodeUriComponent (s : String) : String :=
  String.ofList (s.toList.flatMap fun c =>
    if isUriChar c then [c]
    else (String.utf8EncodeChar c).flatMap fun b =>
      ['%', (Nat.digitChar (b.toNat / 16)).toUpper, (Nat.digitChar (b.toNat % 16)).toUpper])

namespace ManagedSignerService

variable (node : Node)

/-- `managedRequestId` -/
def managedRequestId (product keyId payload : String) : String :=
  node.digest "sha256"
    (Js.utf8 "reeva-signer-v1" ++ 0 :: (Js.utf8 product ++ 0 :: (Js.utf8 keyId ++
      0 :: Base64Url.decodeLenient payload.toList)))

/-- `key` -/
def key (value : Option (List (String × Json))) (product : String) :
    Except String ManagedSigningKey :=
  match value with
  | none => .error "Invalid managed signing key response."
  | some fields =>
    let value := Json.obj fields
    match (value.get? "keyVersion").bind Js.integer?, value.get? "publicKey" with
    | some keyVersion, some (.str publicKey) =>
      if value.get? "product" ≠ some (.str product) ∨ keyVersion < 1 then
        .error "Invalid managed signing key response."
      else do
        let (publicKey, keyId) ← validateOtaPublicKey node publicKey
        if value.get? "keyId" ≠ some (.str keyId) then
          throw "Managed signing key fingerprint mismatch."
        else return { product, keyVersion, keyId, publicKey }
    | _, _ => .error "Invalid managed signing key response."

/-- `getKey` -/
def getKey (product : String) : Cms ManagedSigningKey := do
  let value ← Cms.call (.signer ("/v1/products/" ++ encodeUriComponent product ++ "/key") none)
  let value ← Cms.orThrow value
  Cms.orThrow (key node value product)

/-- `signingRequest` -/
def signingRequest (value : Option (List (String × Json))) (managedKey : ManagedSigningKey)
    (payload : String) : Except String (Option ManagedSigningRequest) :=
  match value with
  | none => .ok none
  | some fields => do
    let value := Json.obj fields
    let actualKey ← key node (some fields) managedKey.product
    let id := managedRequestId node managedKey.product managedKey.keyId payload
    let payloadDigest := node.digest "sha256" (Base64Url.decodeLenient payload.toList)
    let status := (value.get? "status").getD .null
    let signature := (value.get? "signature").getD .null
    match (value.get? "expiresAt").bind Js.integer? with
    | none => throw "Managed signing request does not match this release."
    | some expiresAt =>
      if actualKey.keyId ≠ managedKey.keyId ∨ actualKey.keyVersion ≠ managedKey.keyVersion ∨
          value.get? "id" ≠ some (.str id) ∨ value.get? "payload" ≠ some (.str payload) ∨
          value.get? "payloadDigest" ≠ some (.str payloadDigest) ∨
          ¬(["pending", "signed"].contains (Js.text status) = true) ∨
          Js.isSafeInteger expiresAt = false then
        throw "Managed signing request does not match this release."
      else if status = .str "signed" ∧
          verifyOtaReleaseSignature node payload signature managedKey.publicKey = false then
        throw "Managed signer returned an invalid release signature."
      else if status = .str "pending" ∧ value.get? "signature" ≠ some .null then
        throw "Invalid pending signing request."
      else
        return some { actualKey with id, payload, payloadDigest, status, signature, expiresAt }

/-- `createRequest` -/
def createRequest (managedKey : ManagedSigningKey) (payload : String) :
    Cms (Option ManagedSigningRequest) := do
  let value ← Cms.call (.signer "/v1/requests" (some (.obj
    [("product", .str managedKey.product), ("keyId", .str managedKey.keyId),
      ("keyVersion", .int managedKey.keyVersion), ("payload", .str payload)])))
  let value ← Cms.orThrow value
  Cms.orThrow (signingRequest node value managedKey payload)

/-- `getRequest` -/
def getRequest (managedKey : ManagedSigningKey) (payload : String) :
    Cms (Option ManagedSigningRequest) := do
  let value ← Cms.call (.signer
    ("/v1/requests/" ++ managedRequestId node managedKey.product managedKey.keyId payload) none)
  let value ← Cms.orThrow value
  Cms.orThrow (signingRequest node value managedKey payload)

end ManagedSignerService

end Reeva
