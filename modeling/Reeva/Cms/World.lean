import Reeva.Release.Manifest

/-!
# The CMS as a service

What the CMS calls outside of its database: the clock, the generator of identifiers, uploaded files,
the object storages and the managed signer. Together with the database they make the machine that
every request of the CMS runs on. An upload may fail before or after the storage kept the bytes, a
deletion before or after it dropped them, and the signer may answer anything.
-/

open Interleaving ReadCommitted

namespace Reeva

/-- A call of the CMS to something outside of its database. -/
inductive CmsCall
  | randomUuid
  | now
  | readFile (tmpPath : String)
  | resolve (provider : Id)
  | upload (provider : Id) (key tmpPath : String)
  | delete (provider : Id) (key : String)
  | getStream (provider : Id) (key : String)
  | signer (path : String) (body : Option Json)
  deriving DecidableEq

/-- What a call returns, or the message of what it throws. The signer's response is an object, given
by its members, or nothing. -/
def CmsCall.Res : CmsCall → Type
  | randomUuid => Id
  | now => ℕ
  | readFile _ => Except String (List UInt8)
  | resolve _ => Except String Unit
  | upload _ _ _ => Except String String
  | delete _ _ => Except String Unit
  | getStream _ _ => Except String (List UInt8)
  | signer _ _ => Except String (Option (List (String × Json)))

/-- The calls. -/
def cmsCalls : Signature.{0} := ⟨CmsCall, CmsCall.Res⟩

/-- The state of the outside world. -/
structure CmsWorld where
  /-- The time in milliseconds. -/
  clock : ℕ
  /-- What each program read off the clock, the oldest reading first. -/
  readings : ℕ → List ℕ
  /-- The identifiers that were given out, each with the program that it went to. -/
  issued : List (ℕ × Id)
  /-- The uploaded files that wait for their request. -/
  files : String → Option (List UInt8)
  /-- The objects of each storage provider. -/
  objects : Id → String → Option (List UInt8)

/-- A world without files and objects. -/
def emptyWorld : CmsWorld := ⟨0, fun _ => [], [], fun _ => none, fun _ _ => none⟩

/-- How a call ends, where the CMS does not decide it. -/
inductive Outcome
  | done
  | failed (message : String)
  | failedLate (message : String)
  | id (id : Id)
  | key (key : String)
  | response (r : Option (List (String × Json)))
  | tick (milliseconds : ℕ)

/-- The objects with one more, or one less. -/
def CmsWorld.setObject (w : CmsWorld) (provider : Id) (key : String)
    (content : Option (List UInt8)) : CmsWorld :=
  { w with objects := fun p k => if p = provider ∧ k = key then content else w.objects p k }

/-- One call of program `i`. -/
def CmsCall.run (i : ℕ) : (c : CmsCall) → Outcome → CmsWorld → Option (c.Res × CmsWorld)
  | randomUuid, .id id, w =>
    if id ∈ w.issued.map (·.2) then none else some (id, { w with issued := (i, id) :: w.issued })
  | now, _, w =>
    some (w.clock, { w with readings := Function.update w.readings i (w.readings i ++ [w.clock]) })
  | readFile tmpPath, o, w =>
    match o, w.files tmpPath with
    | .done, some content => some (.ok content, w)
    | .failed m, _ => some (.error m, w)
    | _, _ => none
  | resolve _, .done, w => some (.ok (), w)
  | resolve _, .failed m, w => some (.error m, w)
  | upload provider key tmpPath, o, w =>
    match o, w.files tmpPath with
    | .key k, some content => some (.ok k, w.setObject provider key (some content))
    | .failedLate m, some content => some (.error m, w.setObject provider key (some content))
    | .failed m, _ => some (.error m, w)
    | _, _ => none
  | delete provider key, .done, w => some (.ok (), w.setObject provider key none)
  | delete provider key, .failedLate m, w => some (.error m, w.setObject provider key none)
  | delete _ _, .failed m, w => some (.error m, w)
  | getStream provider key, o, w =>
    match o, w.objects provider key with
    | .done, some content => some (.ok content, w)
    | .failed m, _ => some (.error m, w)
    | _, _ => none
  | signer _ _, .response r, w => some (.ok r, w)
  | signer _ _, .failed m, w => some (.error m, w)
  | _, _, _ => none

/-- The outside world; time passes on its own. -/
def cmsWorld : Machine cmsCalls where
  State := CmsWorld
  Choice := Outcome
  run := CmsCall.run
  env
    | .tick n, w => some { w with clock := w.clock + n }
    | _, _ => none

/-- The machine of the CMS. -/
abbrev cms : Machine (signature cmsSchema cmsCalls) := Service cmsSchema cmsWorld

/-- A state of the CMS. -/
abbrev CmsState := System cmsSchema CmsWorld

/-- The tables as program `i` sees them. -/
def tables (σ : CmsState) (i : ℕ) : Tables := Db.toTables (σ.server.view i)

/-- A program of the CMS. -/
abbrev Cms := Prog (signature cmsSchema cmsCalls) (Failure String)

namespace Cms

/-- `throw new Error(message)`. -/
def raise {α : Type} (message : String) : Cms α := .fail (.raised message)

/-- `if (c) throw new Error(message)`. -/
def refuse (c : Prop) [Decidable c] (message : String) : Cms Unit :=
  if c then raise message else pure ()

/-- The value of a computation that may throw. -/
def orThrow {α : Type} : Except String α → Cms α
  | .ok a => pure a
  | .error message => raise message

/-- The row that a query with `OrFail` found. -/
def orFail {α : Type} : Option α → Cms α
  | some a => pure a
  | none => raise "Row not found"

/-- A query of the tables. -/
def select {α : Type} (f : Tables → α) : Cms α := query (D := cmsSchema) fun d => f (Db.toTables d)

/-- A write. -/
def exec (w : Write) : Cms ℕ := write (D := cmsSchema) w

/-- A call that does not throw. -/
def call (c : CmsCall) : Cms c.Res := ext (E := cmsCalls) c

/-- A program whose result nobody reads. -/
def discard {α : Type} (p : Cms α) : Cms Unit := p >>= fun _ => pure ()

/-- A locking read: the rows that match when it starts are locked one after another, and what is read
is what is left of them then. -/
def selectForUpdate {α : Type} (table : TableName) (ids : Tables → List Id)
    (read : List Id → Tables → α) : Cms α := do
  let found ← select ids
  let _ ← db (D := cmsSchema) (.lock (Row.forUpdate table found))
  select (read found)

end Cms

end Reeva
