import Reeva.Signer.Manifest
import Reeva.Users.World

/-!
# The user service

`UserService.createUser` and its checks, and the two places that look a user up by the address that
somebody typed: the login of `SessionController.store` and `AuthService.sendPasswordResetLink`.
-/

open Interleaving ReadCommitted

namespace Reeva.Users

variable (node : Node)

/-- `/^[^\s@]+@[^\s@]+\.[^\s@]+$/.test(email)`: one `@`, no white space, and a dot in what follows that
neither starts nor ends it. -/
def isEmail (email : String) : Bool :=
  email.toList.all (fun c => !Js.isSpace c) &&
    match Signer.split '@' email.toList with
    | [name, domain] => name ≠ [] && (domain.drop 1).dropLast.contains '.'
    | _ => false

namespace UserService

/-- The address that `createUser` lets through. -/
def validateEmail : Input → Except String String
  | some (.str email) =>
    if isEmail email = false ∨ 255 < Js.length email then
      .error "Please enter a valid email address."
    else .ok email
  | _ => .error "Please enter a valid email address."

/-- The name that `createUser`, `updateUser` and `updateProfile` let through. -/
def validateFullName : Input → Except String (Option String)
  | some .null => .ok none
  | some (.str fullName) =>
    if 255 < Js.length fullName then .error "Name must be 255 characters or fewer."
    else .ok (some fullName)
  | _ => .error "Name must be 255 characters or fewer."

/-- `createUser`: the address and the password of the new user. The model's hooks hash the password
and choose the identifier; the database has the defaults of the other columns. -/
def createUser (email fullName : Input) : Program (String × String) := do
  let email ← orThrow (validateEmail email)
  let fullName ← orThrow (validateFullName fullName)
  let email := node.toLowerCase (Js.trim email)
  let existing ← select (·.findByEmail email)
  refuse (existing.isSome = true) "A user with this email already exists."
  let randomPassword ← call (.randomBytes 24)
  let hashed ← call (.hash randomPassword)
  let passwordHash ← orThrow hashed
  let id ← call .randomUuid
  let _ ← exec (.insertUser {
    id, email, fullName, passwordHash
    isActive := true
    isRoot := false
    authVersion := 0
    theme := some "system"
    accentColor := some 0
    deletedAt := none })
  return (email, randomPassword)

end UserService

/-- The user whom `SessionController.store` checks the password of. -/
def loginUser (t : Tables) (email : String) : Option User := t.findForAuth (Js.trim email)

/-- The user whom `AuthService.sendPasswordResetLink` sends a link to, if the account is active. -/
def resetUser (t : Tables) (email : String) : Option User := t.findByEmail (Js.trim email)

end Reeva.Users
