import Reeva.Codec.Base64Url
import Reeva.Codec.Text

/-!
# The command line tool for release keys

The command `sign` of `scripts/ota_signing.mjs`: its options, its checks of the payload and of the
private key, and what it writes. The file system and Node's cryptography are parameters, collected in
`Host`.
-/

namespace Reeva.OtaSigning

/-- What the tool takes from Node. -/
structure Host where
  /-- A private key object. -/
  PrivateKey : Type
  /-- `readFileSync(path, 'utf8')`, with the message of what it throws. -/
  readFileSync : String → Except String String
  /-- `createPrivateKey`, with the message of what it throws. -/
  createPrivateKey : String → Except String PrivateKey
  /-- `key.asymmetricKeyType` -/
  asymmetricKeyType : PrivateKey → String
  /-- `statSync(path).mode`, with the message of what it throws. -/
  mode : String → Except String ℕ
  /-- `sign(null, data, key)` -/
  sign : List UInt8 → PrivateKey → List UInt8

/-- What has been written so far. -/
structure Streams where
  stdout : String
  stderr : String
  deriving DecidableEq, Repr

/-- A command writes, and may throw an error with a message. -/
abbrev Script := ExceptT String (StateM Streams)

/-- A call that writes nothing. -/
def call {α : Type} (result : Except String α) : Script α := fun s => (result, s)

/-- `process.stdout.write` -/
def writeOut (text : String) : Script Unit := fun s => (.ok (), { s with stdout := s.stdout ++ text })

/-- `process.stderr.write` -/
def writeError (text : String) : Script Unit := fun s =>
  (.ok (), { s with stderr := s.stderr ++ text })

/-- `parseOptions`, after the options that were read before. -/
def parseOptions (options : List (String × String)) :
    List String → Except String (List (String × String))
  | [] => .ok options
  | [name] =>
    .error ("Invalid or duplicate option: " ++ if name = "" then "(missing)" else name)
  | name :: value :: args =>
    if !"--".toList.isPrefixOf name.toList ∨ value = "" ∨ (options.lookup name).isSome then
      .error ("Invalid or duplicate option: " ++ if name = "" then "(missing)" else name)
    else parseOptions (options ++ [(name, value)]) args

/-- The warning about a key file that others can read. -/
def permissionWarning : String :=
  "Warning: private key file permissions allow group/other access. " ++
    "Restrict them to owner-only.\n"

/-- `signPayload` -/
def signPayload (host : Host) (options : List (String × String)) : Script Unit :=
  let privatePath := (options.lookup "--private-key").getD ""
  let payloadText := (options.lookup "--payload-base64url").getD ""
  if privatePath = "" ∨ payloadText = "" ∨ options.length ≠ 2 then
    throw "Provide --payload-base64url and --private-key."
  else if !payloadText.toList.all Base64Url.isAlphabet ∨ 120000 < Js.length payloadText then
    throw "The payload must be a base64url string representing at most 90 KB."
  else do
    let text ← call (host.readFileSync privatePath)
    let privateKey ← call (host.createPrivateKey text)
    if host.asymmetricKeyType privateKey ≠ "ed25519" then
      throw "OTA release signing keys must use Ed25519."
    else do
      let mode ← call (host.mode privatePath)
      -- Group and others have the six low bits of the mode.
      (if mode % 64 ≠ 0 then writeError permissionWarning else pure ())
      let payload := Base64Url.decodeLenient payloadText.toList
      if payload.length = 0 ∨ Base64Url.encode payload ≠ payloadText.toList then
        throw "The payload is not valid canonical base64url."
      else writeOut (String.ofList (Base64Url.encode (host.sign payload privateKey)) ++ "\n")

/-- The command `sign`, with the exit code. -/
def sign (host : Host) (args : List String) : Streams × ℕ :=
  match (do signPayload host (← call (parseOptions [] args)) : Script Unit) ⟨"", ""⟩ with
  | (.ok _, streams) => (streams, 0)
  | (.error message, streams) => ({ streams with stderr := streams.stderr ++ message ++ "\n" }, 1)

end Reeva.OtaSigning
