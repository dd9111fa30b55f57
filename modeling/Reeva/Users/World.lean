import Mathlib.Data.List.Nodup
import Reeva.Cms.SoftwareService
import Reeva.Interleaving.RowLocks
import Reeva.Users.Database

/-!
# The accounts as a service

What the requests about accounts call outside of their database: the clock, the random numbers, the
hash of passwords and the mail server. Together with the tables they make the machine that these
requests run on. Random texts and identifiers are the environment's choice, a password may fail to be
hashed, and a mail may fail to be sent.
-/

open Interleaving ReadCommitted

namespace Reeva.Users

/-- A call to something outside of the database. -/
inductive Call
  | now
  | randomUuid
  | randomBytes (size : ℕ)
  | nextResetTokenId
  | hash (password : String)
  | sendMail (email token : String)
  deriving DecidableEq

/-- What a call returns. The bytes come in hexadecimal digits; a hash or a mail may be a message of
what was thrown. -/
def Call.Res : Call → Type
  | now => ℤ
  | randomUuid => Id
  | randomBytes _ => String
  | nextResetTokenId => ℕ
  | hash _ => Except String String
  | sendMail _ _ => Except String Unit

/-- The calls. -/
def calls : Signature.{0} := ⟨Call, Call.Res⟩

/-- What the environment decides in a call. -/
inductive Outcome
  | done
  | id (id : Id)
  | text (text : String)
  | number (n : ℕ)
  | thrown (message : String)
  | tick (milliseconds : ℕ)

/-- The outside world is the clock, in milliseconds. -/
def world : Machine calls where
  State := ℕ
  Choice := Outcome
  run _
    | .now, .done, clock => some ((clock : ℤ), clock)
    | .randomUuid, .id id, clock => some (id, clock)
    | .randomBytes _, .text digits, clock => some (digits, clock)
    | .nextResetTokenId, .number n, clock => some (n, clock)
    | .hash _, .text hashed, clock => some (.ok hashed, clock)
    | .hash _, .thrown message, clock => some (.error message, clock)
    | .sendMail _ _, .done, clock => some (.ok (), clock)
    | .sendMail _ _, .thrown message, clock => some (.error message, clock)
    | _, _, _ => none
  env
    | .tick n, clock => some (clock + n)
    | _, _ => none

/-- The machine of the accounts. -/
abbrev machine : Machine (signature schema calls) := Service schema world

/-- A state of the machine. -/
abbrev State := System schema ℕ

/-- A program over the accounts. -/
abbrev Program := Prog (signature schema calls) (Failure String)

/-- `throw new Error(message)`. -/
def raise {α : Type} (message : String) : Program α := .fail (.raised message)

/-- `if (c) throw new Error(message)`. -/
def refuse (c : Prop) [Decidable c] (message : String) : Program Unit :=
  if c then raise message else pure ()

/-- The value of a computation that may throw. -/
def orThrow {α : Type} : Except String α → Program α
  | .ok a => pure a
  | .error message => raise message

/-- A query of the tables. -/
def select {α : Type} (f : Tables → α) : Program α := query (D := schema) fun d => f (Db.toTables d)

/-- A write. -/
def exec (w : Write) : Program ℕ := write (D := schema) w

/-- A call. -/
def call (c : Call) : Program c.Res := ext (E := calls) c

/-- `User.findBy('email', email)` -/
def Tables.findByEmail (t : Tables) (email : String) : Option User :=
  t.users.find? fun u => u.email = email && u.deletedAt.isNone

/-- `User.find(id)` -/
def Tables.findById (t : Tables) (id : Id) : Option User :=
  t.users.find? fun u => u.id = id && u.deletedAt.isNone

/-- `User.findForAuth(['email'], value)` of the mixin `withAuthFinder` -/
def Tables.findForAuth (t : Tables) (value : String) : Option User :=
  t.users.find? fun u => u.email = value && u.deletedAt.isNone

/-- At most one user has an address, so the lookup finds a user who is there. -/
theorem Tables.Valid.findByEmail_eq_some_iff {t : Tables} (ht : t.Valid) {email : String}
    {u : User} :
    t.findByEmail email = some u ↔ u ∈ t.users ∧ u.email = email ∧ u.deletedAt = none := by
  constructor
  · intro h
    have hu := List.find?_some h
    simp only [Bool.and_eq_true, decide_eq_true_eq, Option.isNone_iff_eq_none] at hu
    exact ⟨List.mem_of_find?_eq_some h, hu.1, hu.2⟩
  · rintro ⟨hmem, rfl, hdeleted⟩
    cases hfind : t.findByEmail u.email with
    | none =>
      have hnot := List.find?_eq_none.mp hfind u hmem
      simp [hdeleted] at hnot
    | some v =>
      have hv := List.find?_some hfind
      simp only [Bool.and_eq_true, decide_eq_true_eq] at hv
      rw [List.inj_on_of_nodup_map ht.emails (List.mem_of_find?_eq_some hfind) hmem hv.1]

end Reeva.Users
