import Reeva.Cms.Database

/-!
# The tables of the licences

Licences, their activations and the settings that keep the signing key, with the unique indexes, the
foreign key and the column types of the migrations. A licence is deleted by setting `deletedAt`, an
activation by removing its row. Times are milliseconds.
-/

open ReadCommitted

namespace Reeva.Licensing

/-- A row of `licenses`. -/
structure License where
  id : Id
  licenseKey : String
  productName : String
  customerName : Option String
  customerEmail : Option String
  status : String
  maxActivations : ℤ
  activationCount : ℤ
  expiresAt : Option ℤ
  revokedAt : Option ℤ
  deletedAt : Option ℤ
  deriving DecidableEq, Repr

/-- A row of `license_activations`. -/
structure LicenseActivation where
  id : Id
  licenseId : Option Id
  machineId : String
  deriving DecidableEq, Repr

/-- A row of `settings`. -/
structure Setting where
  id : Id
  key : String
  value : Option String
  deletedAt : Option ℤ
  deriving DecidableEq, Repr

/-- `save()` of a licence that was loaded as `l` and is `n` in memory. -/
def License.saveOnto (l n r : License) : License where
  id := r.id
  licenseKey := dirty l.licenseKey n.licenseKey r.licenseKey
  productName := dirty l.productName n.productName r.productName
  customerName := dirty l.customerName n.customerName r.customerName
  customerEmail := dirty l.customerEmail n.customerEmail r.customerEmail
  status := dirty l.status n.status r.status
  maxActivations := dirty l.maxActivations n.maxActivations r.maxActivations
  activationCount := dirty l.activationCount n.activationCount r.activationCount
  expiresAt := dirty l.expiresAt n.expiresAt r.expiresAt
  revokedAt := dirty l.revokedAt n.revokedAt r.revokedAt
  deletedAt := dirty l.deletedAt n.deletedAt r.deletedAt

/-- `save()` of a setting. -/
def Setting.saveOnto (l n r : Setting) : Setting where
  id := r.id
  key := dirty l.key n.key r.key
  value := dirty l.value n.value r.value
  deletedAt := dirty l.deletedAt n.deletedAt r.deletedAt

/-- The contents of the tables. -/
structure Tables where
  licenses : List License
  activations : List LicenseActivation
  settings : List Setting

/-- A text that a column of `varchar(n)` takes. -/
def fits (n : ℕ) (s : String) : Bool := s.toList.length ≤ n && !s.toList.contains (Char.ofNat 0)

/-- A number that a column of type `integer` takes. -/
def isInt4 (n : ℤ) : Bool := -2147483648 ≤ n && n ≤ 2147483647

/-- The columns of a licence take its values. -/
def License.fits (l : License) : Bool :=
  Licensing.fits 255 l.licenseKey && Licensing.fits 255 l.productName &&
    l.customerName.all (Licensing.fits 255) && l.customerEmail.all (Licensing.fits 255) &&
    Licensing.fits 50 l.status && isInt4 l.maxActivations && isInt4 l.activationCount

/-- The keys, unique indexes and column types of the migrations. -/
structure Tables.Valid (t : Tables) : Prop where
  licenseIds : (t.licenses.map (·.id)).Nodup
  licenseKeys : (t.licenses.map (·.licenseKey)).Nodup
  licenses : ∀ l ∈ t.licenses, l.fits = true
  activationIds : (t.activations.map (·.id)).Nodup
  machineIds : ∀ a ∈ t.activations, fits 255 a.machineId = true
  /-- The foreign key of `license_activations`. -/
  owned : ∀ a ∈ t.activations, ∀ id ∈ a.licenseId, id ∈ t.licenses.map (·.id)
  settingIds : (t.settings.map (·.id)).Nodup
  settingKeys : (t.settings.map (·.key)).Nodup

instance (t : Tables) : Decidable t.Valid :=
  decidable_of_iff
    ((t.licenses.map (·.id)).Nodup ∧ (t.licenses.map (·.licenseKey)).Nodup ∧
      (∀ l ∈ t.licenses, l.fits = true) ∧ (t.activations.map (·.id)).Nodup ∧
      (∀ a ∈ t.activations, fits 255 a.machineId = true) ∧
      (∀ a ∈ t.activations, ∀ id ∈ a.licenseId, id ∈ t.licenses.map (·.id)) ∧
      (t.settings.map (·.id)).Nodup ∧ (t.settings.map (·.key)).Nodup)
    ⟨fun ⟨h₁, h₂, h₃, h₄, h₅, h₆, h₇, h₈⟩ => ⟨h₁, h₂, h₃, h₄, h₅, h₆, h₇, h₈⟩,
      fun ⟨h₁, h₂, h₃, h₄, h₅, h₆, h₇, h₈⟩ => ⟨h₁, h₂, h₃, h₄, h₅, h₆, h₇, h₈⟩⟩

/-- A database: tables that satisfy their constraints. -/
structure Db extends Tables where
  valid : toTables.Valid

/-- A database without rows. -/
def emptyDb : Db := ⟨⟨[], [], []⟩, by decide⟩

/-- The statements that change the tables. -/
inductive Write
  | insertLicense (r : License)
  | saveLicense (loaded new : License)
  | insertActivation (r : LicenseActivation)
  | deleteActivation (id : Id)
  | insertSetting (r : Setting)
  | saveSetting (loaded new : Setting)

/-- What a write does to the tables, before the constraints are checked. -/
def Write.run (t : Tables) : Write → ℕ × Tables
  | insertLicense r => (1, { t with licenses := t.licenses ++ [r] })
  | saveLicense l n => (updateRows (·.id = l.id) (l.saveOnto n) t.licenses).map id
      fun rows => { t with licenses := rows }
  | insertActivation r => (1, { t with activations := t.activations ++ [r] })
  | deleteActivation id => (t.activations.countP (·.id = id),
      { t with activations := t.activations.filter fun a => !(a.id = id : Bool) })
  | insertSetting r => (1, { t with settings := t.settings ++ [r] })
  | saveSetting l n => (updateRows (·.id = l.id) (l.saveOnto n) t.settings).map id
      fun rows => { t with settings := rows }

/-- The tables. -/
inductive TableName
  | licenses
  | activations
  | settings
  deriving DecidableEq, Repr

/-- What a lock protects: the columns of a row, its key, or an entry of a unique index. -/
inductive Row
  | columns (table : TableName) (id : Id)
  | key (table : TableName) (id : Id)
  | entry (table : TableName) (value : String)
  deriving DecidableEq, Repr

/-- The locks of `FOR UPDATE` on licences. -/
def Row.forUpdate (table : TableName) (ids : List Id) : List (Row × Mode) :=
  ids.flatMap fun id => [(.columns table id, .exclusive), (.key table id, .exclusive)]

/-- The locks that a write takes. A row that is inserted belongs to its program until the commit. -/
def Write.locks : Write → List (Row × Mode)
  | insertLicense r =>
    [(.entry .licenses r.licenseKey, .exclusive), (.columns .licenses r.id, .exclusive)]
  | saveLicense l n =>
    [(.entry .licenses n.licenseKey, .exclusive), (.columns .licenses l.id, .exclusive)]
  | insertActivation r => (.columns .activations r.id, .exclusive) ::
      r.licenseId.toList.map fun id => (.key .licenses id, .share)
  | deleteActivation id => Row.forUpdate .activations [id]
  | insertSetting r =>
    [(.entry .settings r.key, .exclusive), (.columns .settings r.id, .exclusive)]
  | saveSetting l n =>
    [(.entry .settings n.key, .exclusive), (.columns .settings l.id, .exclusive)]

/-- The database of the licences. -/
abbrev schema : Schema where
  Db := Db
  Write := Write
  Row := Row
  decRow := inferInstance
  apply w d :=
    if h : (w.run d.toTables).2.Valid then some ((w.run d.toTables).1, ⟨(w.run d.toTables).2, h⟩)
    else none
  locks w _ := w.locks

/-- A write that the constraints allow runs. -/
theorem apply_tables {d d' : Db} {w : Write} {n : ℕ} (h : schema.apply w d = some (n, d')) :
    d'.toTables = (w.run d.toTables).2 := by
  simp only [schema] at h
  split at h
  · cases h
    rfl
  · cases h

/-- Writes that are published together are published one after the other. -/
theorem publish_append {d d' : Db} {ws ws' : List Write}
    (h : Server.publish (D := schema) (ws ++ ws') d = some d') :
    ∃ d₁, Server.publish (D := schema) ws d = some d₁ ∧
      Server.publish (D := schema) ws' d₁ = some d' := by
  rw [Server.publish, List.foldlM_append] at h
  exact Option.bind_eq_some_iff.mp h

/-- A write that is published runs. -/
theorem publish_cons {d d' : Db} {w : Write} {ws : List Write}
    (h : Server.publish (D := schema) (w :: ws) d = some d') :
    ∃ d₁ : Db, d₁.toTables = (w.run d.toTables).2 ∧
      Server.publish (D := schema) ws d₁ = some d' := by
  rw [Server.publish, List.foldlM_cons] at h
  obtain ⟨d₁, h₁, h₂⟩ := Option.bind_eq_some_iff.mp h
  obtain ⟨⟨m, d₂⟩, ha, rfl⟩ := Option.map_eq_some_iff.mp h₁
  exact ⟨d₂, apply_tables ha, h₂⟩

/-- A save onto the row that was loaded leaves the row in memory. -/
theorem License.saveOnto_self (l n : License) (h : n.id = l.id) : l.saveOnto n l = n := by
  have column : ∀ {α : Type} [DecidableEq α] (a b : α), dirty a b a = b := fun a b => by
    unfold dirty
    split
    · exact Eq.symm ‹_›
    · rfl
  cases n
  simp only [saveOnto, column, ← h]

end Reeva.Licensing
