import Reeva.Interleaving.Course
import Reeva.Users.AddressLookup

/-!
# Passwords, links to reset them, and sessions

The requests that issue and check credentials: `AuthService`, `UserService`,
`SessionController.store`, and the two middlewares that decide whether a request is let through. A
`DELETE` deletes the rows that it saw when it started, one after another, where they still meet its
condition. The outside world remembers when each request asked for the time, and who was given which
identifier of a remember-me token; a hash that it makes of a password is one that verifies it.
-/

open Interleaving ReadCommitted

namespace Reeva.Users.Credentials

/-! ## The tables -/

/-- The statements that change the tables. -/
inductive Write
  | saveUser (loaded new : User)
  | insertResetToken (r : PasswordResetToken)
  | deleteResetToken (id : ℕ)
  | deleteResetTokenOf (email : String) (id : ℕ)
  | insertRememberMeToken (user : User) (r : RememberMeToken)
  | deleteRememberMeTokenOf (user : Id) (id : ℕ)

/-- What a write does to the tables, before the constraints are checked. -/
def Write.run (t : Tables) : Write → ℕ × Tables
  | saveUser l n => Users.Write.run t (.saveUser l n)
  | insertResetToken r => Users.Write.run t (.insertResetToken r)
  | deleteResetToken id => Users.Write.run t (.deleteResetToken id)
  | deleteResetTokenOf email id => (t.resetTokens.countP fun r => r.email = email && r.id = id,
      { t with
        resetTokens := t.resetTokens.filter fun r => !(r.email = email && r.id = id : Bool) })
  | insertRememberMeToken _ r => Users.Write.run t (.insertRememberMeToken r)
  | deleteRememberMeTokenOf user id =>
    (t.rememberMeTokens.countP fun r => r.tokenableId = user && r.id = id,
      { t with
        rememberMeTokens :=
          t.rememberMeTokens.filter fun r => !(r.tokenableId = user && r.id = id : Bool) })

/-- The row that a write changes. -/
def Write.row : Write → Row
  | saveUser l _ => .user l.id
  | insertResetToken r => .resetToken r.id
  | deleteResetToken id => .resetToken id
  | deleteResetTokenOf _ id => .resetToken id
  | insertRememberMeToken _ r => .rememberMeToken r.id
  | deleteRememberMeTokenOf _ id => .rememberMeToken id

/-- What else it locks: entries of unique indexes, and the key that a foreign key refers to. -/
def Write.others : Write → List (Row × Mode)
  | saveUser _ n => [(.email n.email, .exclusive)]
  | insertResetToken r => [(.resetTokenText r.token, .exclusive)]
  | insertRememberMeToken _ r => [(.userKey r.tokenableId, .share)]
  | _ => []

/-- The database of the credentials. -/
abbrev schema : Schema where
  Db := Db
  Write := Write
  Row := Row
  decRow := inferInstance
  apply w d :=
    if h : (w.run d.toTables).2.Valid then some ((w.run d.toTables).1, ⟨(w.run d.toTables).2, h⟩)
    else none
  locks w _ := (w.row, .exclusive) :: w.others

/-! ## The outside world -/

/-- What the requests use of their libraries. -/
structure Runtime where
  /-- `createHash('sha256').update(s).digest('hex')` -/
  sha256 : String → String
  /-- `hash.verify(hashed, password)` -/
  verify : String → String → Bool

/-- A call to something outside of the database. -/
inductive Call
  | now
  | randomBytes (size : ℕ)
  | nextResetTokenId
  | nextRememberMeTokenId
  | hash (password : String)
  | sendMail (email token : String)
  deriving DecidableEq

/-- What a call returns. -/
def Call.Res : Call → Type
  | now => ℤ
  | randomBytes _ => String
  | nextResetTokenId => ℕ
  | nextRememberMeTokenId => ℕ
  | hash _ => Except String String
  | sendMail _ _ => Except String Unit

/-- The calls. -/
def calls : Signature.{0} := ⟨Call, Call.Res⟩

/-- The clock, in milliseconds, the time that each request asked for last, and the identifiers of
remember-me tokens with the requests that they were given to. -/
structure Outside where
  clock : ℕ
  asked : ℕ → ℤ
  given : ℕ → Option ℕ

variable (rt : Runtime)

/-- One call of program `i`. -/
def Call.run (i : ℕ) : (c : Call) → Outcome → Outside → Option (c.Res × Outside)
  | .now, .done, w =>
    some ((w.clock : ℤ), { w with asked := Function.update w.asked i w.clock })
  | .randomBytes _, .text digits, w => some (digits, w)
  | .nextResetTokenId, .number n, w => some (n, w)
  | .nextRememberMeTokenId, .number n, w =>
    if w.given n = none then some (n, { w with given := Function.update w.given n (some i) })
    else none
  | .hash password, .text hashed, w =>
    if rt.verify hashed password = true then some (.ok hashed, w) else none
  | .hash _, .thrown message, w => some (.error message, w)
  | .sendMail _ _, .done, w => some (.ok (), w)
  | .sendMail _ _, .thrown message, w => some (.error message, w)
  | _, _, _ => none

/-- The outside world. -/
def world : Machine calls where
  State := Outside
  Choice := Outcome
  run := Call.run rt
  env
    | .tick n, w => some { w with clock := w.clock + n }
    | _, _ => none

/-- The machine of the credentials. -/
abbrev machine : Machine (signature schema calls) := Service schema (world rt)

/-- A state of the machine. -/
abbrev State := System schema Outside

/-- A program over the credentials. -/
abbrev Program := Prog (signature schema calls) (Failure String)

/-- `throw new Error(message)`. -/
def raise {α : Type} (message : String) : Program α := .fail (.raised message)

/-- `if (c) throw new Error(message)`. -/
def refuse (c : Prop) [Decidable c] (message : String) : Program Unit :=
  if c then raise message else pure ()

/-- The value of a computation that may throw. -/
def orThrow {α : Type} : Except String α → Program α
  | .ok a => pure a
  | .error message => raise message

/-- The row that a query with `OrFail` found. -/
def orFail {α : Type} : Option α → Program α
  | some a => pure a
  | none => raise "Row not found"

/-- A query of the tables. -/
def select {α : Type} (f : Tables → α) : Program α := query (D := schema) fun d => f (Db.toTables d)

/-- A write. -/
def exec (w : Write) : Program ℕ := write (D := schema) w

/-- A call. -/
def call (c : Call) : Program c.Res := ext (E := calls) c

/-! ## Rows -/

/-- The rows that a statement saw are deleted one after another. -/
def deleteEach (w : ℕ → Write) : List ℕ → Program Unit
  | [] => return ()
  | id :: ids => do
    let _ ← exec (w id)
    deleteEach w ids

/-- `trx.from('password_reset_tokens').where('email', email).delete()` -/
def deleteResetTokensOf (email : String) : Program Unit := do
  let ids ← select fun t => (t.resetTokens.filter (·.email = email)).map (·.id)
  deleteEach (.deleteResetTokenOf email) ids

/-- `trx.from('remember_me_tokens').where('tokenable_id', user).delete()` -/
def deleteRememberMeTokensOf (user : Id) : Program Unit := do
  let ids ← select fun t => (t.rememberMeTokens.filter (·.tokenableId = user)).map (·.id)
  deleteEach (.deleteRememberMeTokenOf user) ids

/-- `save()` of a user with another password and the next version; the hook of `AuthFinder` hashes
the password. -/
def savePassword (user : User) (password : String) : Program User := do
  let hashed : Except String String ← call (.hash password)
  let passwordHash ← orThrow hashed
  let saved := { user with passwordHash, authVersion := user.authVersion + 1 }
  let _ ← exec (.saveUser user saved)
  return saved

/-! ## `AuthService` -/

/-- An unexpired row with this text in the column `token`. -/
def findResetToken (token : String) (now : ℤ) (t : Tables) : Option PasswordResetToken :=
  t.resetTokens.find? fun r => r.token = token && now < r.expiresAt

/-- One hour. -/
def hour : ℤ := 3600000

/-- `sendPasswordResetLink` -/
def sendPasswordResetLink (mailEnabled : Bool) (email : String) : Program Unit := do
  let user ← (if mailEnabled then select (resetUser · email) else pure none)
  match user.filter (·.isActive) with
  | none => return ()
  | some user => do
    let token : String ← call (.randomBytes 32)
    let now : ℤ ← call .now
    transaction do
      deleteResetTokensOf user.email
      let id : ℕ ← call .nextResetTokenId
      let _ ← exec (.insertResetToken
        { id, email := user.email, token := rt.sha256 token, expiresAt := now + hour })
      return ()
    let sent : Except String Unit ← call (.sendMail user.email token)
    orThrow sent

/-- `verifyResetToken` -/
def verifyResetToken (token : String) : Program (Option PasswordResetToken) := do
  let now : ℤ ← call .now
  let hashed ← select (findResetToken (rt.sha256 token) now)
  match hashed with
  | some hashed => return some hashed
  | none => select (findResetToken token now)

/-- A locking read: the row that the query found is locked, and then looked at again. -/
def lockResetToken (token : String) (now : ℤ) : Program (Option PasswordResetToken) := do
  let found ← select (findResetToken token now)
  match found with
  | none => return none
  | some r => do
    let _ ← db (D := schema) (.lock [(.resetToken r.id, .exclusive)])
    select fun t => (findResetToken token now t).filter (·.id = r.id)

/-- What `updatePasswordByToken` throws. -/
def invalidToken : String := "Invalid token or expired."

/-- `updatePasswordByToken` -/
def updatePasswordByToken (token password : String) : Program User := do
  let now : ℤ ← call .now
  transaction do
    let hashed ← lockResetToken (rt.sha256 token) now
    let found ← (match hashed with
      | some hashed => pure (some hashed)
      | none => lockResetToken token now)
    match found with
    | none => raise invalidToken
    | some tokenData => do
      let consumed ← exec (.deleteResetToken tokenData.id)
      refuse (consumed ≠ 1) invalidToken
      let user ← select (·.findByEmail tokenData.email)
      let user ← orFail user
      refuse (user.isActive = false) invalidToken
      let saved ← savePassword user password
      deleteResetTokensOf user.email
      deleteRememberMeTokensOf user.id
      return saved

/-! ## `UserService` -/

/-- `userRepository.findById(id)` -/
def findById (id : Id) : Program User := do
  let user ← select (·.findById id)
  orFail user

/-- A user gets another password, and loses the remember-me tokens and the links to reset it. -/
def replacePassword (user : User) (password : String) : Program User :=
  transaction do
    let saved ← savePassword user password
    deleteRememberMeTokensOf user.id
    deleteResetTokensOf user.email
    return saved

/-- `resetPassword` -/
def resetPassword (id currentUserId : Id) : Program (String × String) := do
  let user ← findById id
  refuse (user.id = currentUserId)
    "You cannot reset your own password from here. Use your Profile page."
  refuse (user.isRoot = true) "Root user password cannot be reset from here."
  let newPassword : String ← call (.randomBytes 8)
  let saved ← replacePassword user newPassword
  return (saved.email, newPassword)

/-- `toggleActiveUser` -/
def toggleActiveUser (id currentUserId : Id) : Program (String × Bool) := do
  let user ← findById id
  refuse (user.isRoot = true) "Root user cannot be disabled/enabled."
  refuse (user.id = currentUserId) "You cannot toggle your own active status."
  let toggled := { user with isActive := !user.isActive, authVersion := user.authVersion + 1 }
  let _ ← exec (.saveUser user toggled)
  return (toggled.email, toggled.isActive)

/-- `updateUser` and `updateProfile` -/
def updateUser (id : Id) (fullName : Input) : Program User := do
  let fullName ← orThrow (UserService.validateFullName fullName)
  let user ← findById id
  let updated := { user with fullName }
  let _ ← exec (.saveUser user updated)
  return updated

/-- `changePassword` -/
def changePassword (id : Id) (currentPassword newPassword : String) : Program User := do
  refuse (Js.length newPassword < 12 ∨ 128 < Js.length newPassword)
    "New password must be between 12 and 128 characters."
  let user ← findById id
  refuse (rt.verify user.passwordHash currentPassword = false) "Current password is incorrect."
  replacePassword user newPassword

/-- `updateAppearance` -/
def updateAppearance (id : Id) (theme : String) (accentColor : ℚ) : Program User := do
  let user ← findById id
  refuse (["light", "dark", "system"].contains theme = false) "Unsupported appearance theme."
  refuse (accentColor.den ≠ 1 ∨ accentColor < 0 ∨ 6 < accentColor) "Unsupported accent color."
  let updated := { user with theme := some theme, accentColor := some accentColor.num }
  let _ ← exec (.saveUser user updated)
  return updated

/-! ## Sessions -/

/-- What a session has of its user. -/
structure Session where
  user : Id
  authVersion : ℤ
  deriving DecidableEq

/-- `rememberMeTokensAge: '30 days'` -/
def rememberMeTokensAge : ℤ := 30 * 24 * 60 * 60 * 1000

/-- `User.rememberMeTokens.create(user)`: the row, of whose secret the cookie has the text. -/
def createRememberMeToken (user : User) : Program RememberMeToken := do
  let secret : String ← call (.randomBytes 40)
  let now : ℤ ← call .now
  let id : ℕ ← call .nextRememberMeTokenId
  let token : RememberMeToken :=
    { id, tokenableId := user.id, hash := rt.sha256 secret, expiresAt := now + rememberMeTokensAge }
  let _ ← exec (.insertRememberMeToken user token)
  return token

/-- What the login pages say of everything that is wrong. -/
def invalidCredentials : String := "Invalid email or password."

/-- `SessionController.store`, from `User.verifyCredentials` on. -/
def store (email password : String) (rememberMe : Bool) :
    Program (Session × Option RememberMeToken) := do
  let user ← select (loginUser · email)
  match user with
  | none => do
    let _ ← call (.hash password)
    raise invalidCredentials
  | some user => do
    refuse (rt.verify user.passwordHash password = false) invalidCredentials
    refuse (user.isActive = false) invalidCredentials
    let token ← (if rememberMe then some <$> createRememberMeToken rt user else pure none)
    return (⟨user.id, user.authVersion⟩, token)

/-- `AuthMiddleware.handle` lets a user's session through. -/
def Session.valid (s : Session) (user : User) : Bool :=
  s.user = user.id && s.authVersion = user.authVersion && user.isActive

/-- `SilentAuthMiddleware` and `AuthMiddleware`, for a session, or for the cookie of a remember-me
token: whether the request is let through, and with which session. -/
def authenticate : Option Session → Option (ℕ × String) → Program (Option Session)
  | some s, _ => do
    let user ← select (·.findById s.user)
    return if user.any s.valid then some s else none
  | none, some (id, secret) => do
    let now : ℤ ← call .now
    let token ← select fun t => t.rememberMeTokens.find? fun r =>
      r.id = id && r.hash = rt.sha256 secret && now ≤ r.expiresAt
    match token with
    | none => return none
    | some token => do
      let user ← select (·.findById token.tokenableId)
      match user with
      | none => return none
      | some user => do
        let _ ← exec (.deleteRememberMeTokenOf user.id token.id)
        let _ ← createRememberMeToken rt user
        return if user.isActive then some ⟨user.id, user.authVersion⟩ else none
  | none, none => return none

/-! ## Requests -/

/-- A request. -/
inductive Request
  | sendPasswordResetLink (mailEnabled : Bool) (email : String)
  | verifyResetToken (token : String)
  | updatePasswordByToken (token password : String)
  | resetPassword (id currentUserId : Id)
  | toggleActiveUser (id currentUserId : Id)
  | updateUser (id : Id) (fullName : Input)
  | changePassword (id : Id) (currentPassword newPassword : String)
  | updateAppearance (id : Id) (theme : String) (accentColor : ℚ)
  | store (email password : String) (rememberMe : Bool)
  | authenticate (session : Option Session) (cookie : Option (ℕ × String))

/-- What a request returns. -/
inductive Reply
  | nothing
  | token (r : Option PasswordResetToken)
  | user (u : User)
  | password (email newPassword : String)
  | active (email : String) (isActive : Bool)
  | login (s : Session) (token : Option RememberMeToken)
  | admitted (s : Option Session)

/-- The program of a request. -/
def Request.program : Request → Program Reply
  | .sendPasswordResetLink mailEnabled email => do
    Credentials.sendPasswordResetLink rt mailEnabled email
    return .nothing
  | .verifyResetToken token => .token <$> Credentials.verifyResetToken rt token
  | .updatePasswordByToken token password =>
    .user <$> Credentials.updatePasswordByToken rt token password
  | .resetPassword id currentUserId => do
    let (email, newPassword) ← Credentials.resetPassword id currentUserId
    return .password email newPassword
  | .toggleActiveUser id currentUserId => do
    let (email, isActive) ← Credentials.toggleActiveUser id currentUserId
    return .active email isActive
  | .updateUser id fullName => .user <$> Credentials.updateUser id fullName
  | .changePassword id currentPassword newPassword =>
    .user <$> Credentials.changePassword rt id currentPassword newPassword
  | .updateAppearance id theme accentColor =>
    .user <$> Credentials.updateAppearance id theme accentColor
  | .store email password rememberMe => do
    let (s, token) ← Credentials.store rt email password rememberMe
    return .login s token
  | .authenticate session cookie => .admitted <$> Credentials.authenticate rt session cookie

/-- Requests over one database. -/
def start (requests : List Request) (d : Db) (w : Outside) :
    Config (machine rt) (Failure String) Reply :=
  ⟨⟨Server.idle d, w⟩, requests.map (·.program rt)⟩

/-- What a request has returned. -/
def replyOf {rt : Runtime} (c : Config (machine rt) (Failure String) Reply) (i : ℕ) :
    Option Reply :=
  match c.pool[i]? with
  | some (.ret reply) => some reply
  | _ => none

theorem replyOf_eq_some {rt : Runtime} {c : Config (machine rt) (Failure String) Reply} {i : ℕ}
    {reply : Reply} : replyOf c i = some reply ↔ c.pool[i]? = some (.ret reply) := by
  unfold replyOf
  constructor
  · intro h
    split at h
    · rename_i found hfound
      rw [hfound, Option.some.inj h]
    · cases h
  · intro h
    rw [h]

/-! ## A small instance -/

/-- Hashes that are easily told from what they are of. -/
def plainRuntime : Runtime where
  sha256 s := "sha256 " ++ s
  verify hashed password := hashed = "hash " ++ password

/-- One user. -/
def oneUser : User :=
  ⟨"u", "a@b.c", none, "hash old password", true, false, 0, none, none, none⟩

/-- A database with the user only. -/
def oneUserDb : Db := ⟨⟨[oneUser], [], []⟩, by decide +kernel⟩

/-- Nobody has asked for anything. -/
def emptyOutside : Outside := ⟨0, fun _ => 0, fun _ => none⟩

end Reeva.Users.Credentials
