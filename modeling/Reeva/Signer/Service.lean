import Reeva.Signer.Database
import Reeva.Signer.Manifest

/-!
# The signer

The handlers of the signer, statement by statement, over its tables and the key store. Any number of
replicas run them. `now()` is the time at which a transaction starts, in whole seconds. The answers of
the key store are whatever it sends; a call of it that fails is `unavailable`. An error of the database
is a failure of its own here, and stands for the answer of `database_error`. The time limits of locks
and handlers are left to the environment, which may end a program at any point.
-/

open Interleaving ReadCommitted

namespace Reeva.Signer

/-! ## The outside world -/

/-- A call to something outside of the database. -/
inductive Call
  /-- `SELECT EXTRACT(EPOCH FROM now())::bigint` -/
  | now
  /-- `slots.try_acquire_owned()` -/
  | acquire
  /-- `Bao::call` -/
  | bao (method path : String) (body : Option Json)

/-- What a call returns. -/
def Call.Res : Call → Type
  | now => ℤ
  | acquire => Bool
  | bao _ _ _ => Except ApiError Json

/-- The calls. -/
def calls : Signature.{0} := ⟨Call, Call.Res⟩

/-- What the environment decides in a call. -/
inductive Outcome
  | done
  | acquired (b : Bool)
  | answer (value : Json)
  | failed
  | tick (milliseconds : ℕ)

/-- Whole seconds, rounded. -/
def epoch (milliseconds : ℕ) : ℤ := (milliseconds + 500) / 1000

/-- The outside world is the clock, in milliseconds. -/
def world : Machine calls where
  State := ℕ
  Choice := Outcome
  run _
    | .now, .done, clock => some (epoch clock, clock)
    | .acquire, .acquired b, clock => some (b, clock)
    | .bao _ _ _, .answer value, clock => some (.ok value, clock)
    | .bao _ _ _, .failed, clock => some (.error unavailable, clock)
    | _, _, _ => none
  env
    | .tick n, clock => some (clock + n)
    | _, _ => none

/-- The machine of the signer. -/
abbrev machine : Machine (signature schema calls) := Service schema world

/-- A state of the machine. -/
abbrev State := System schema ℕ

/-- A handler. -/
abbrev Handler := Prog (signature schema calls) (Failure ApiError)

/-- `return Err(error)` -/
def raise {α : Type} (error : ApiError) : Handler α := .fail (.raised error)

/-- `if c { return Err(error) }` -/
def refuse (c : Prop) [Decidable c] (error : ApiError) : Handler Unit :=
  if c then raise error else pure ()

/-- The value of a result, or its error. -/
def orThrow {α : Type} : Except ApiError α → Handler α
  | .ok a => pure a
  | .error error => raise error

/-- A query of the tables. -/
def select {α : Type} (f : Tables → α) : Handler α := query (D := schema) fun d => f (Db.toTables d)

/-- A write. -/
def exec (w : Write) : Handler ℕ := write (D := schema) w

/-- A call. -/
def call (c : Call) : Handler c.Res := ext (E := calls) c

/-! ## The key store -/

/-- `Bao::key` -/
def Bao.key (crates : Crates) (product : String) (version : Option ℕ) : Handler PublicKey := do
  refuse (validSlug product = false) (invalid "Invalid product slug.")
  let result : Except ApiError Json ← call (.bao "GET" ("transit/keys/reeva-" ++ product) none)
  let result ← orThrow result
  orThrow (readKey crates product version result)

/-- `Bao::sign` -/
def Bao.sign (crates : Crates) (key : PublicKey) (bytes : List UInt8) : Handler String := do
  let result : Except ApiError Json ← call (.bao "POST" ("transit/sign/reeva-" ++ key.product)
    (some (.obj [("input", .str (String.ofList (Base64Url.encodeStandard bytes))),
      ("key_version", .int key.keyVersion), ("prehashed", .bool false)])))
  let result ← orThrow result
  orThrow (readSignature crates key bytes result)

/-! ## Handlers -/

/-- The two identities that a replica knows, as hashes of their tokens. -/
structure App where
  requesterHash : List UInt8
  approverHash : List UInt8

/-- `CreateRequest` -/
structure CreateRequest where
  product : String
  payload : String
  keyId : String
  keyVersion : ℕ

/-- `Approval` -/
structure Approval where
  payloadDigest : String
  artifactSha256 : String
  artifactSizeBytes : ℕ
  expiresAt : ℤ
  deriving DecidableEq

/-- `check_read` -/
def checkRead (crates : Crates) (app : App) (authorization : Option String) : Except ApiError Unit :=
  match checkAuth crates authorization app.requesterHash with
  | .ok () => .ok ()
  | .error _ => checkAuth crates authorization app.approverHash

/-- The error of a full table. -/
def retentionLimit : ApiError :=
  ⟨.tooManyRequests,
    "Signing request retention limit reached. Export audit and prune old completed requests."⟩

/-- The error of an unknown request. -/
def notFound : ApiError := ⟨.notFound, "Signing request not found."⟩

/-- The transaction of `create_request` for a request that is to have this row, whose expiry is set. -/
def enqueue (row : SigningRequest) : Handler SigningRequest :=
  transaction do
    let now : ℤ ← call .now
    let _ ← db (D := schema) (.advisory 1)
    let _ ← exec (.prune now)
    let existing ← select (·.request row.id)
    match existing with
    | some found =>
      if found.status = .pending then do
        let count ← exec (.renew row.id now)
        let renewed ← select fun t => if count = 0 then none else t.request row.id
        match renewed with
        | some value => do
          let _ ← exec (.insertAudit ⟨row.id, "renewed", "requester"⟩)
          return value
        | none => return found
      else return found
    | none => do
      let count ← select (·.requests.length)
      refuse (10000 ≤ count) retentionLimit
      let row := { row with expiresAt := now + day }
      let _ ← exec (.insertRequest row)
      let _ ← exec (.insertAudit ⟨row.id, "requested", "requester"⟩)
      return row

/-- `create_request` -/
def createRequest (crates : Crates) (app : App) (authorization : Option String)
    (input : CreateRequest) : Handler SigningRequest := do
  orThrow (checkAuth crates authorization app.requesterHash)
  refuse (validHex input.keyId = false ∨ input.keyVersion = 0 ∨ 2147483647 < input.keyVersion)
    (invalid "Invalid signing key.")
  let (bytes, _) ← orThrow (parsePayload input.payload input.product)
  let key ← Bao.key crates input.product (some input.keyVersion)
  refuse (key.keyId ≠ input.keyId) ⟨.conflict, "Public key fingerprint changed."⟩
  enqueue
    { id := requestId crates input.product key.keyId bytes
      product := input.product
      payload := input.payload
      payloadDigest := digest crates bytes
      keyId := key.keyId
      keyVersion := key.keyVersion
      publicKey := key.publicKey
      status := .pending
      signature := none
      expiresAt := 0 }

/-- `get_request` -/
def getRequest (crates : Crates) (app : App) (authorization : Option String) (id : String) :
    Handler SigningRequest := do
  orThrow (checkRead crates app authorization)
  refuse (validHex id = false) (invalid "Invalid request identifier.")
  let row ← select (·.request id)
  match row with
  | some row => return row
  | none => raise notFound

/-- `SELECT * FROM signing_requests WHERE id = $1 FOR UPDATE` -/
def lockRequest (id : String) : Handler SigningRequest := do
  let found ← select fun t => (t.request id).isSome
  if found then do
    let _ ← db (D := schema) (.lock [(.request id, .exclusive)])
    let row ← select (·.request id)
    match row with
    | some row => return row
    | none => raise notFound
  else raise notFound

/-- `approve` -/
def approve (crates : Crates) (app : App) (authorization : Option String) (id : String)
    (input : Approval) : Handler SigningRequest := do
  orThrow (checkAuth crates authorization app.approverHash)
  refuse (validHex id = false) (invalid "Invalid request identifier.")
  let permit : Bool ← call .acquire
  refuse (permit = false) ⟨.tooManyRequests, "Signer concurrency limit reached."⟩
  transaction do
    let now : ℤ ← call .now
    let request ← lockRequest id
    let (bytes, manifest) ← orThrow (parsePayload request.payload request.product)
    refuse (input.payloadDigest ≠ request.payloadDigest ∨ input.artifactSha256 ≠ manifest.sha256 ∨
        input.artifactSizeBytes ≠ manifest.sizeBytes ∨ input.expiresAt ≠ request.expiresAt)
      ⟨.conflict, "Approval does not match the exact manifest and artifact."⟩
    let key ← Bao.key crates request.product (some request.keyVersion)
    refuse (key.keyId ≠ request.keyId) ⟨.conflict, "Signing key changed."⟩
    if request.status = .signed then return request
    else do
      refuse (request.expiresAt < now)
        ⟨.gone, "Approval request expired. Resubmit and review the renewed request."⟩
      let signature ← Bao.sign crates key bytes
      let again ← Bao.key crates request.product (some request.keyVersion)
      refuse (again.keyId ≠ key.keyId) unavailable
      let _ ← exec (.sign id signature)
      let _ ← exec (.insertAudit ⟨id, "approved-and-signed", "approver"⟩)
      return { request with status := .signed, signature := some signature }

/-- A request to a replica. -/
inductive Request
  | createRequest (app : App) (authorization : Option String) (input : CreateRequest)
  | getRequest (app : App) (authorization : Option String) (id : String)
  | approve (app : App) (authorization : Option String) (id : String) (input : Approval)

/-- The handler of a request. -/
def Request.program (crates : Crates) : Request → Handler SigningRequest
  | createRequest app authorization input => Signer.createRequest crates app authorization input
  | getRequest app authorization id => Signer.getRequest crates app authorization id
  | approve app authorization id input => Signer.approve crates app authorization id input

/-- Replicas that answer requests over one database. -/
def start (crates : Crates) (requests : List Request) (d : Db) (clock : ℕ) :
    Config machine (Failure ApiError) SigningRequest :=
  ⟨⟨Server.idle d, clock⟩, requests.map (·.program crates)⟩

end Reeva.Signer
