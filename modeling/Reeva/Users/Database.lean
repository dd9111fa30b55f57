import Reeva.Licensing.Database

/-!
# The tables of the accounts

Users, the tokens of password resets and the tokens that keep a user signed in, with the unique
indexes, the foreign key and the column types of the migrations. A user is deleted by setting
`deletedAt`, a token by removing its row. Times are milliseconds; `createdAt` and `updatedAt` are left
out, since nothing here reads them.
-/

open ReadCommitted

namespace Reeva.Users

open Licensing (fits isInt4)

/-- A row of `users`. -/
structure User where
  id : Id
  email : String
  fullName : Option String
  passwordHash : String
  isActive : Bool
  isRoot : Bool
  authVersion : ℤ
  theme : Option String
  accentColor : Option ℤ
  deletedAt : Option ℤ
  deriving DecidableEq, Repr

/-- A row of `password_reset_tokens`. -/
structure PasswordResetToken where
  id : ℕ
  email : String
  token : String
  expiresAt : ℤ
  deriving DecidableEq, Repr

/-- A row of `remember_me_tokens`. -/
structure RememberMeToken where
  id : ℕ
  tokenableId : Id
  hash : String
  expiresAt : ℤ
  deriving DecidableEq, Repr

/-- `save()` of a user that was loaded as `l` and is `n` in memory. -/
def User.saveOnto (l n r : User) : User where
  id := r.id
  email := dirty l.email n.email r.email
  fullName := dirty l.fullName n.fullName r.fullName
  passwordHash := dirty l.passwordHash n.passwordHash r.passwordHash
  isActive := dirty l.isActive n.isActive r.isActive
  isRoot := dirty l.isRoot n.isRoot r.isRoot
  authVersion := dirty l.authVersion n.authVersion r.authVersion
  theme := dirty l.theme n.theme r.theme
  accentColor := dirty l.accentColor n.accentColor r.accentColor
  deletedAt := dirty l.deletedAt n.deletedAt r.deletedAt

/-- The contents of the tables. -/
structure Tables where
  users : List User
  resetTokens : List PasswordResetToken
  rememberMeTokens : List RememberMeToken

/-- The columns of a user take its values. -/
def User.fits (u : User) : Bool :=
  Licensing.fits 255 u.email && u.fullName.all (Licensing.fits 255) &&
    Licensing.fits 255 u.passwordHash && isInt4 u.authVersion && u.theme.all (Licensing.fits 10) &&
    u.accentColor.all isInt4

/-- The columns of a reset token take its values. -/
def PasswordResetToken.fits (r : PasswordResetToken) : Bool :=
  Licensing.fits 255 r.email && Licensing.fits 255 r.token

/-- The keys, unique indexes and column types of the migrations. -/
structure Tables.Valid (t : Tables) : Prop where
  userIds : (t.users.map (·.id)).Nodup
  emails : (t.users.map (·.email)).Nodup
  users : ∀ u ∈ t.users, u.fits = true
  resetTokenIds : (t.resetTokens.map (·.id)).Nodup
  resetTokenTexts : (t.resetTokens.map (·.token)).Nodup
  resetTokens : ∀ r ∈ t.resetTokens, r.fits = true
  rememberMeTokenIds : (t.rememberMeTokens.map (·.id)).Nodup
  hashes : ∀ r ∈ t.rememberMeTokens, fits 255 r.hash = true
  /-- The foreign key of `remember_me_tokens`. -/
  owned : ∀ r ∈ t.rememberMeTokens, r.tokenableId ∈ t.users.map (·.id)

instance (t : Tables) : Decidable t.Valid :=
  decidable_of_iff
    ((t.users.map (·.id)).Nodup ∧ (t.users.map (·.email)).Nodup ∧
      (∀ u ∈ t.users, u.fits = true) ∧ (t.resetTokens.map (·.id)).Nodup ∧
      (t.resetTokens.map (·.token)).Nodup ∧ (∀ r ∈ t.resetTokens, r.fits = true) ∧
      (t.rememberMeTokens.map (·.id)).Nodup ∧
      (∀ r ∈ t.rememberMeTokens, fits 255 r.hash = true) ∧
      (∀ r ∈ t.rememberMeTokens, r.tokenableId ∈ t.users.map (·.id)))
    ⟨fun ⟨h₁, h₂, h₃, h₄, h₅, h₆, h₇, h₈, h₉⟩ => ⟨h₁, h₂, h₃, h₄, h₅, h₆, h₇, h₈, h₉⟩,
      fun ⟨h₁, h₂, h₃, h₄, h₅, h₆, h₇, h₈, h₉⟩ => ⟨h₁, h₂, h₃, h₄, h₅, h₆, h₇, h₈, h₉⟩⟩

/-- A database: tables that satisfy their constraints. -/
structure Db extends Tables where
  valid : toTables.Valid

/-- A database without rows. -/
def emptyDb : Db := ⟨⟨[], [], []⟩, by decide⟩

/-- The statements that change the tables. -/
inductive Write
  | insertUser (r : User)
  | saveUser (loaded new : User)
  | insertResetToken (r : PasswordResetToken)
  | deleteResetToken (id : ℕ)
  | deleteResetTokensOf (email : String)
  | insertRememberMeToken (r : RememberMeToken)
  | deleteRememberMeTokensOf (user : Id)

/-- What a write does to the tables, before the constraints are checked. -/
def Write.run (t : Tables) : Write → ℕ × Tables
  | insertUser r => (1, { t with users := t.users ++ [r] })
  | saveUser l n => (updateRows (·.id = l.id) (l.saveOnto n) t.users).map id
      fun rows => { t with users := rows }
  | insertResetToken r => (1, { t with resetTokens := t.resetTokens ++ [r] })
  | deleteResetToken id => (t.resetTokens.countP (·.id = id),
      { t with resetTokens := t.resetTokens.filter fun r => !(r.id = id : Bool) })
  | deleteResetTokensOf email => (t.resetTokens.countP (·.email = email),
      { t with resetTokens := t.resetTokens.filter fun r => !(r.email = email : Bool) })
  | insertRememberMeToken r => (1, { t with rememberMeTokens := t.rememberMeTokens ++ [r] })
  | deleteRememberMeTokensOf user => (t.rememberMeTokens.countP (·.tokenableId = user),
      { t with
        rememberMeTokens := t.rememberMeTokens.filter fun r => !(r.tokenableId = user : Bool) })

/-- What a lock protects: the columns of a row, its key, or an entry of a unique index. -/
inductive Row
  | user (id : Id)
  | userKey (id : Id)
  | email (value : String)
  | resetToken (id : ℕ)
  | resetTokenText (value : String)
  | rememberMeToken (id : ℕ)
  deriving DecidableEq, Repr

/-- The locks that a write takes. A row that is inserted belongs to its program until the commit. -/
def Write.locks (t : Tables) : Write → List (Row × Mode)
  | insertUser r => [(.email r.email, .exclusive), (.user r.id, .exclusive)]
  | saveUser l n => [(.email n.email, .exclusive), (.user l.id, .exclusive)]
  | insertResetToken r =>
    [(.resetTokenText r.token, .exclusive), (.resetToken r.id, .exclusive)]
  | deleteResetToken id => [(.resetToken id, .exclusive)]
  | deleteResetTokensOf email =>
    (t.resetTokens.filter (·.email = email)).map fun r => (.resetToken r.id, .exclusive)
  | insertRememberMeToken r =>
    [(.userKey r.tokenableId, .share), (.rememberMeToken r.id, .exclusive)]
  | deleteRememberMeTokensOf user =>
    (t.rememberMeTokens.filter (·.tokenableId = user)).map fun r =>
      (.rememberMeToken r.id, .exclusive)

/-- The database of the accounts. -/
abbrev schema : Schema where
  Db := Db
  Write := Write
  Row := Row
  decRow := inferInstance
  apply w d :=
    if h : (w.run d.toTables).2.Valid then some ((w.run d.toTables).1, ⟨(w.run d.toTables).2, h⟩)
    else none
  locks w d := w.locks d.toTables

/-- A write that the constraints allow runs. -/
theorem apply_tables {d d' : Db} {w : Write} {n : ℕ} (h : schema.apply w d = some (n, d')) :
    n = (w.run d.toTables).1 ∧ d'.toTables = (w.run d.toTables).2 := by
  simp only [schema] at h
  split at h
  · obtain ⟨rfl, rfl⟩ := Prod.mk.inj (Option.some.inj h)
    exact ⟨rfl, rfl⟩
  · cases h

end Reeva.Users
