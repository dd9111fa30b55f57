import Mathlib.Logic.Function.Basic
import Reeva.Codec.Json
import Reeva.Codec.Text
import Reeva.Throttling.FixedWindow

/-!
# Rate limits of the sign-in pages

The part of `AuthService` that counts attempts, and the login request that asks it. The table
`auth_rate_limits` has at most one row for each key, so it is a function; a row is a counter of a
fixed window. Times are milliseconds, and a value of unknown type comes as a JSON value, where `none` is
`undefined`.
-/

open FixedWindow

namespace Reeva.Auth

/-- What the service uses of its libraries. -/
structure Runtime where
  /-- `createHash('sha256').update(s).digest('hex')` -/
  sha256 : String → String
  /-- `s.toLowerCase()` -/
  toLowerCase : String → String

/-- The table `auth_rate_limits`. -/
abbrev RateLimits := String → Option Counter

/-- What the limits are for. -/
inductive Action
  | login
  | passwordReset
  deriving DecidableEq, Repr

/-- The name of an action. -/
def Action.text : Action → String
  | login => "login"
  | passwordReset => "password-reset"

/-- One minute. -/
def minute : ℕ := 60000

/-- `ipLimit` -/
def ipLimit (action : Action) : ℕ := if action = .login then 30 else 20

/-- `identityLimit` -/
def identityLimit (action : Action) : ℕ := if action = .login then 8 else 5

section service

variable (rt : Runtime)

/-- `rateLimitKey` -/
def rateLimitKey (action : Action) (subject value : String) : String :=
  rt.sha256 (action.text ++ ":" ++ subject ++ ":" ++ value)

/-- `identity.trim().toLowerCase() || 'missing'` -/
def normalizedIdentity (identity : String) : String :=
  let normalized := rt.toLowerCase (Js.trim identity)
  if normalized = "" then "missing" else normalized

/-- The row after `INSERT … ON CONFLICT … MERGE`. -/
def merged (now windowEnd : ℕ) : Option Counter → Counter
  | none => ⟨1, windowEnd⟩
  | some row =>
    { attempts := if row.windowEnd ≤ now then 1 else row.attempts + 1
      windowEnd := if row.windowEnd ≤ now then windowEnd else row.windowEnd }

/-- `incrementCounter`, which returns the attempts. -/
def incrementCounter (now : ℕ) (key : String) (t : RateLimits) : ℕ × RateLimits :=
  let row := merged now (now + minute) (t key)
  (row.attempts, Function.update t key (some row))

/-- `db.from('auth_rate_limits').where('window_ends_at', '<=', now).delete()` -/
def deleteExpired (now : ℕ) (t : RateLimits) : RateLimits := fun key =>
  (t key).filter fun row => !(row.windowEnd ≤ now : Bool)

/-- `isAuthRequestThrottled` -/
def isAuthRequestThrottled (action : Action) (ipAddress identity : String) (now : ℕ)
    (t : RateLimits) : Bool × RateLimits :=
  let ipKey := rateLimitKey rt action "ip" ipAddress
  let identityKey := rateLimitKey rt action "identity" (normalizedIdentity rt identity)
  let (ipAttempts, t) := incrementCounter now ipKey t
  if ipLimit action < ipAttempts then (true, deleteExpired now t)
  else
    let (identityAttempts, t) := incrementCounter now identityKey t
    (identityLimit action < identityAttempts, deleteExpired now t)

/-- `clearLoginAttempts` -/
def clearLoginAttempts (ipAddress identity : String) (t : RateLimits) : RateLimits :=
  let keys := [rateLimitKey rt .login "ip" ipAddress,
    rateLimitKey rt .login "identity" (normalizedIdentity rt identity)]
  fun key => if key ∈ keys then none else t key

/-! ## Calls -/

/-- A call of the service. -/
inductive Call
  | isAuthRequestThrottled (action : Action) (ipAddress identity : String)
  | clearLoginAttempts (ipAddress identity : String)
  deriving DecidableEq, Repr

/-- What a call answers, and the table after it. -/
def Call.run (now : ℕ) (t : RateLimits) : Call → Option Bool × RateLimits
  | isAuthRequestThrottled action ip identity =>
    (Auth.isAuthRequestThrottled rt action ip identity now t).map some id
  | clearLoginAttempts ip identity => (none, Auth.clearLoginAttempts rt ip identity t)

/-- A call that was answered. -/
structure Answered where
  time : ℕ
  call : Call
  /-- What the call returned. -/
  answer : Option Bool
  /-- The table after the call. -/
  table : RateLimits

/-- The answers of calls that are made one after another. -/
def trace : RateLimits → List (ℕ × Call) → List Answered
  | _, [] => []
  | t, (now, call) :: calls =>
    ⟨now, call, (call.run rt now t).1, (call.run rt now t).2⟩ :: trace (call.run rt now t).2 calls

/-- The table after calls. -/
def tableAfter : RateLimits → List (ℕ × Call) → RateLimits
  | t, [] => t
  | t, (now, call) :: calls => tableAfter (call.run rt now t).2 calls

/-! ## Logins -/

/-- How the check of an address and a password ends: `verifyCredentials` refuses them or fails, the
account is inactive, the session cannot be opened, or it is. -/
inductive Verification
  | invalidCredentials
  | failed (message : String)
  | inactive
  | loginFailed (message : String)
  | loggedIn
  deriving DecidableEq, Repr

/-- What a login request ends with. -/
inductive StoreOutcome
  | invalidForm
  | tooManyAttempts
  | verified (v : Verification)
  deriving DecidableEq, Repr

/-- A login request. -/
structure LoginRequest where
  incomingIp : String
  email : Option Json
  password : Option Json
  /-- What the accounts say to an address and a password at the time of the request. -/
  verify : String → String → Verification

/-- `SessionController.store` -/
def store (now : ℕ) (t : RateLimits) (request : LoginRequest) : StoreOutcome × RateLimits :=
  match request.email, request.password with
  | some (.str email), some (.str password) =>
    if 255 < Js.length email ∨ 1024 < Js.length password then (.invalidForm, t)
    else
      match isAuthRequestThrottled rt .login request.incomingIp email now t with
      | (true, t) => (.tooManyAttempts, t)
      | (false, t) =>
        match request.verify (Js.trim email) password with
        | .loggedIn => (.verified .loggedIn, clearLoginAttempts rt request.incomingIp email t)
        | v => (.verified v, t)
  | _, _ => (.invalidForm, t)

/-- A login request that was answered. -/
structure Login where
  time : ℕ
  incomingIp : String
  outcome : StoreOutcome

/-- The request got past the limits. -/
def Login.passed (l : Login) : Bool :=
  match l.outcome with
  | .verified _ => true
  | _ => false

/-- The request got past the limits and opened no session. -/
def Login.refused (l : Login) : Bool := l.passed && l.outcome ≠ .verified .loggedIn

/-- Login requests that are made one after another. -/
def logins : RateLimits → List (ℕ × LoginRequest) → List Login
  | _, [] => []
  | t, (now, request) :: requests =>
    ⟨now, request.incomingIp, (store rt now t request).1⟩ ::
      logins (store rt now t request).2 requests

end service

end Reeva.Auth
