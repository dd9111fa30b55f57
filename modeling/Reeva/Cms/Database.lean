import Reeva.Codec.Json
import Reeva.Interleaving.ReadCommitted

/-!
# The tables of the CMS

The rows of the release catalogue as the models declare them, the unique indexes and check constraints
of the migrations, and the statements that change them. `Db` carries its constraints, so a statement
that would violate one has no result. A model's `save` is `saveOnto`: it writes a column only where
the value in memory differs from the one that was loaded, and leaves the stored value otherwise.

Rows are never removed: deletion sets `deletedAt`, which the model queries of `SoftDeletes` hide.
Times are milliseconds. Columns that nothing here reads (`createdAt`, `updatedAt`) are left out.
-/

open ReadCommitted

namespace Reeva

/-- A primary key. -/
abbrev Id := String

/-- A row of `software`. -/
structure Software where
  id : Id
  name : String
  slug : String
  isActive : Bool
  isDefault : Bool
  requireSignedUpdates : Bool
  deriving DecidableEq, Repr

/-- A row of `software_signing_keys`. -/
structure SoftwareSigningKey where
  id : Id
  softwareId : Id
  keyId : String
  publicKey : String
  isActive : Bool
  deriving DecidableEq, Repr

/-- A row of `versions`. -/
structure Version where
  id : Id
  softwareId : Id
  major : ℕ
  minor : ℕ
  patch : ℕ
  codename : Option String
  changelog : Option String
  isActive : Bool
  releaseDate : Option String
  deletedAt : Option ℕ
  deriving DecidableEq, Repr

/-- A row of `platforms` or `architectures`. -/
structure Target where
  id : Id
  name : String
  displayName : String
  deletedAt : Option ℕ
  deriving DecidableEq, Repr

/-- A row of `storage_providers`, with its configuration decrypted. -/
structure StorageProvider where
  id : Id
  name : String
  type : String
  config : Json
  isDefault : Bool
  isActive : Bool
  quotaBytes : Option ℤ
  deletedAt : Option ℕ
  deriving DecidableEq, Repr

/-- A row of `artifacts`. -/
structure Artifact where
  id : Id
  fileName : String
  versionId : Id
  platformId : Id
  architectureId : Id
  storageKey : String
  storageProviderId : Id
  sizeBytes : Option ℤ
  mimeType : Option String
  isArchived : Bool
  channel : String
  isPublished : Bool
  publishedAt : Option ℕ
  checksum : Option String
  checksumMd5 : Option String
  checksumSha1 : Option String
  checksumSha256 : Option String
  checksumSha512 : Option String
  downloadCount : ℕ
  signature : Option String
  signatureKeyId : Option String
  signatureManifest : Option Json
  deletedAt : Option ℕ
  deriving DecidableEq, Repr

/-- A row of `storage_upload_reservations`. -/
structure Reservation where
  id : Id
  storageProviderId : Id
  sizeBytes : ℤ
  expiresAt : ℕ
  deriving DecidableEq, Repr

/-! ## Lucid's dirty columns -/

/-- What a column holds after a save: the new value where it differs from the loaded one. -/
def dirty {α : Type} [DecidableEq α] (loaded new stored : α) : α :=
  if new = loaded then stored else new

/-- The same for a `jsonb` column, whose values are compared as sets of members. A value of such a
column stands for its `jsonb` form. -/
def dirtyJson (loaded new stored : Option Json) : Option Json :=
  if new.map Json.jsonb = loaded.map Json.jsonb then stored else new

/-- `save()` of a software row that was loaded as `l` and is `n` in memory. -/
def Software.saveOnto (l n r : Software) : Software where
  id := r.id
  name := dirty l.name n.name r.name
  slug := dirty l.slug n.slug r.slug
  isActive := dirty l.isActive n.isActive r.isActive
  isDefault := dirty l.isDefault n.isDefault r.isDefault
  requireSignedUpdates :=
    dirty l.requireSignedUpdates n.requireSignedUpdates r.requireSignedUpdates

/-- `save()` of a signing key. -/
def SoftwareSigningKey.saveOnto (l n r : SoftwareSigningKey) : SoftwareSigningKey where
  id := r.id
  softwareId := dirty l.softwareId n.softwareId r.softwareId
  keyId := dirty l.keyId n.keyId r.keyId
  publicKey := dirty l.publicKey n.publicKey r.publicKey
  isActive := dirty l.isActive n.isActive r.isActive

/-- `save()` of a version. -/
def Version.saveOnto (l n r : Version) : Version where
  id := r.id
  softwareId := dirty l.softwareId n.softwareId r.softwareId
  major := dirty l.major n.major r.major
  minor := dirty l.minor n.minor r.minor
  patch := dirty l.patch n.patch r.patch
  codename := dirty l.codename n.codename r.codename
  changelog := dirty l.changelog n.changelog r.changelog
  isActive := dirty l.isActive n.isActive r.isActive
  releaseDate := dirty l.releaseDate n.releaseDate r.releaseDate
  deletedAt := dirty l.deletedAt n.deletedAt r.deletedAt

/-- `save()` of a storage provider. -/
def StorageProvider.saveOnto (l n r : StorageProvider) : StorageProvider where
  id := r.id
  name := dirty l.name n.name r.name
  type := dirty l.type n.type r.type
  config := dirty l.config n.config r.config
  isDefault := dirty l.isDefault n.isDefault r.isDefault
  isActive := dirty l.isActive n.isActive r.isActive
  quotaBytes := dirty l.quotaBytes n.quotaBytes r.quotaBytes
  deletedAt := dirty l.deletedAt n.deletedAt r.deletedAt

/-- `save()` of an artifact. -/
def Artifact.saveOnto (l n r : Artifact) : Artifact where
  id := r.id
  fileName := dirty l.fileName n.fileName r.fileName
  versionId := dirty l.versionId n.versionId r.versionId
  platformId := dirty l.platformId n.platformId r.platformId
  architectureId := dirty l.architectureId n.architectureId r.architectureId
  storageKey := dirty l.storageKey n.storageKey r.storageKey
  storageProviderId := dirty l.storageProviderId n.storageProviderId r.storageProviderId
  sizeBytes := dirty l.sizeBytes n.sizeBytes r.sizeBytes
  mimeType := dirty l.mimeType n.mimeType r.mimeType
  isArchived := dirty l.isArchived n.isArchived r.isArchived
  channel := dirty l.channel n.channel r.channel
  isPublished := dirty l.isPublished n.isPublished r.isPublished
  publishedAt := dirty l.publishedAt n.publishedAt r.publishedAt
  checksum := dirty l.checksum n.checksum r.checksum
  checksumMd5 := dirty l.checksumMd5 n.checksumMd5 r.checksumMd5
  checksumSha1 := dirty l.checksumSha1 n.checksumSha1 r.checksumSha1
  checksumSha256 := dirty l.checksumSha256 n.checksumSha256 r.checksumSha256
  checksumSha512 := dirty l.checksumSha512 n.checksumSha512 r.checksumSha512
  downloadCount := dirty l.downloadCount n.downloadCount r.downloadCount
  signature := dirty l.signature n.signature r.signature
  signatureKeyId := dirty l.signatureKeyId n.signatureKeyId r.signatureKeyId
  signatureManifest := dirtyJson l.signatureManifest n.signatureManifest r.signatureManifest
  deletedAt := dirty l.deletedAt n.deletedAt r.deletedAt

/-! ## The database -/

/-- The contents of the tables. -/
structure Tables where
  software : List Software
  signingKeys : List SoftwareSigningKey
  versions : List Version
  platforms : List Target
  architectures : List Target
  storageProviders : List StorageProvider
  artifacts : List Artifact
  reservations : List Reservation

/-- The primary keys, unique indexes and check constraints of the migrations. -/
structure Tables.Valid (t : Tables) : Prop where
  softwareIds : (t.software.map (·.id)).Nodup
  /-- `uq_software_slug` -/
  slugs : (t.software.map (·.slug)).Nodup
  /-- `uq_software_default` -/
  softwareDefault : (t.software.filter (·.isDefault)).length ≤ 1
  /-- `chk_software_default_active` -/
  defaultActive : ∀ s ∈ t.software, s.isDefault = true → s.isActive = true
  signingKeyIds : (t.signingKeys.map (·.id)).Nodup
  /-- `uq_software_signing_keys_key_id` -/
  keyIds : (t.signingKeys.map (·.keyId)).Nodup
  versionIds : (t.versions.map (·.id)).Nodup
  /-- `uq_versions_software_semver` -/
  semvers : (t.versions.map fun v => (v.softwareId, v.major, v.minor, v.patch)).Nodup
  platformIds : (t.platforms.map (·.id)).Nodup
  architectureIds : (t.architectures.map (·.id)).Nodup
  providerIds : (t.storageProviders.map (·.id)).Nodup
  /-- `uq_storage_default` -/
  storageDefault :
    (t.storageProviders.filter fun p => p.isDefault && p.deletedAt.isNone).length ≤ 1
  artifactIds : (t.artifacts.map (·.id)).Nodup
  /-- `uq_artifacts_system_channel` -/
  systemChannels :
    (t.artifacts.map fun a => (a.versionId, a.platformId, a.architectureId, a.channel)).Nodup
  reservationIds : (t.reservations.map (·.id)).Nodup

instance (t : Tables) : Decidable t.Valid :=
  decidable_of_iff
    ((t.software.map (·.id)).Nodup ∧ (t.software.map (·.slug)).Nodup ∧
      (t.software.filter (·.isDefault)).length ≤ 1 ∧
      (∀ s ∈ t.software, s.isDefault = true → s.isActive = true) ∧
      (t.signingKeys.map (·.id)).Nodup ∧ (t.signingKeys.map (·.keyId)).Nodup ∧
      (t.versions.map (·.id)).Nodup ∧
      (t.versions.map fun v => (v.softwareId, v.major, v.minor, v.patch)).Nodup ∧
      (t.platforms.map (·.id)).Nodup ∧ (t.architectures.map (·.id)).Nodup ∧
      (t.storageProviders.map (·.id)).Nodup ∧
      (t.storageProviders.filter fun p => p.isDefault && p.deletedAt.isNone).length ≤ 1 ∧
      (t.artifacts.map (·.id)).Nodup ∧
      (t.artifacts.map fun a => (a.versionId, a.platformId, a.architectureId, a.channel)).Nodup ∧
      (t.reservations.map (·.id)).Nodup)
    ⟨fun ⟨h₁, h₂, h₃, h₄, h₅, h₆, h₇, h₈, h₉, h₁₀, h₁₁, h₁₂, h₁₃, h₁₄, h₁₅⟩ =>
      ⟨h₁, h₂, h₃, h₄, h₅, h₆, h₇, h₈, h₉, h₁₀, h₁₁, h₁₂, h₁₃, h₁₄, h₁₅⟩,
    fun ⟨h₁, h₂, h₃, h₄, h₅, h₆, h₇, h₈, h₉, h₁₀, h₁₁, h₁₂, h₁₃, h₁₄, h₁₅⟩ =>
      ⟨h₁, h₂, h₃, h₄, h₅, h₆, h₇, h₈, h₉, h₁₀, h₁₁, h₁₂, h₁₃, h₁₄, h₁₅⟩⟩

/-- A database: tables that satisfy their constraints. -/
structure Db extends Tables where
  valid : toTables.Valid

/-- `UPDATE … SET f WHERE p`: the number of rows and the table. -/
def updateRows {α : Type} (p : α → Bool) (f : α → α) (rows : List α) : ℕ × List α :=
  (rows.countP p, rows.map fun r => if p r then f r else r)

/-- The statements that change the tables. -/
inductive Write
  | insertSoftware (r : Software)
  | saveSoftware (loaded new : Software)
  | updateSoftware (p : Software → Bool) (f : Software → Software)
  | insertSigningKey (r : SoftwareSigningKey)
  | saveSigningKey (loaded new : SoftwareSigningKey)
  | insertVersion (r : Version)
  | saveVersion (loaded new : Version)
  | insertStorageProvider (r : StorageProvider)
  | saveStorageProvider (loaded new : StorageProvider)
  | updateStorageProviders (p : StorageProvider → Bool) (f : StorageProvider → StorageProvider)
  | insertArtifact (r : Artifact)
  | saveArtifact (loaded new : Artifact)
  | updateArtifacts (p : Tables → Artifact → Bool) (f : Artifact → Artifact)
  | insertReservation (r : Reservation)
  | deleteReservations (p : Reservation → Bool)

/-- What a write does to the tables, before the constraints are checked. -/
def Write.run (t : Tables) : Write → ℕ × Tables
  | insertSoftware r => (1, { t with software := t.software ++ [r] })
  | saveSoftware l n => (updateRows (·.id = l.id) (l.saveOnto n) t.software).map id
      fun rows => { t with software := rows }
  | updateSoftware p f => (updateRows p f t.software).map id fun rows => { t with software := rows }
  | insertSigningKey r => (1, { t with signingKeys := t.signingKeys ++ [r] })
  | saveSigningKey l n => (updateRows (·.id = l.id) (l.saveOnto n) t.signingKeys).map id
      fun rows => { t with signingKeys := rows }
  | insertVersion r => (1, { t with versions := t.versions ++ [r] })
  | saveVersion l n => (updateRows (·.id = l.id) (l.saveOnto n) t.versions).map id
      fun rows => { t with versions := rows }
  | insertStorageProvider r => (1, { t with storageProviders := t.storageProviders ++ [r] })
  | saveStorageProvider l n =>
    (updateRows (·.id = l.id) (l.saveOnto n) t.storageProviders).map id
      fun rows => { t with storageProviders := rows }
  | updateStorageProviders p f => (updateRows p f t.storageProviders).map id
      fun rows => { t with storageProviders := rows }
  | insertArtifact r => (1, { t with artifacts := t.artifacts ++ [r] })
  | saveArtifact l n => (updateRows (·.id = l.id) (l.saveOnto n) t.artifacts).map id
      fun rows => { t with artifacts := rows }
  | updateArtifacts p f => (updateRows (p t) f t.artifacts).map id
      fun rows => { t with artifacts := rows }
  | insertReservation r => (1, { t with reservations := t.reservations ++ [r] })
  | deleteReservations p =>
    (t.reservations.countP p, { t with reservations := t.reservations.filter fun r => !p r })

/-- The tables. -/
inductive TableName
  | software
  | signingKeys
  | versions
  | platforms
  | architectures
  | storageProviders
  | artifacts
  | reservations
  deriving DecidableEq, Repr

/-- What a lock protects: the columns of a row, its key, or an entry of a unique index. An update locks
the columns, a foreign key shares the key, and `FOR UPDATE` takes both. -/
inductive Row
  | columns (table : TableName) (id : Id)
  | key (table : TableName) (id : Id)
  | entry (table : TableName) (values : List String)
  deriving DecidableEq, Repr

/-- The locks of an update. -/
def Row.updated (table : TableName) (ids : List Id) : List (Row × Mode) :=
  ids.map fun id => (.columns table id, .exclusive)

/-- The locks of `FOR UPDATE`. -/
def Row.forUpdate (table : TableName) (ids : List Id) : List (Row × Mode) :=
  ids.flatMap fun id => [(.columns table id, .exclusive), (.key table id, .exclusive)]

/-- The lock of a foreign key. -/
def Row.references (table : TableName) (id : Id) : Row × Mode := (.key table id, .share)

/-- The locks that a write takes. -/
def Write.locks (t : Tables) : Write → List (Row × Mode)
  | insertSoftware r => [(.entry .software [r.slug], .exclusive)]
  | saveSoftware l _ => Row.updated .software [l.id]
  | updateSoftware p _ => Row.updated .software ((t.software.filter p).map (·.id))
  | insertSigningKey r =>
    [(.entry .signingKeys [r.keyId], .exclusive), Row.references .software r.softwareId]
  | saveSigningKey l _ => Row.updated .signingKeys [l.id]
  | insertVersion r =>
    [(.entry .versions [r.softwareId, toString r.major, toString r.minor, toString r.patch],
      .exclusive), Row.references .software r.softwareId]
  | saveVersion l n =>
    (.entry .versions [n.softwareId, toString n.major, toString n.minor, toString n.patch],
      .exclusive) :: Row.updated .versions [l.id]
  | insertStorageProvider _ => []
  | saveStorageProvider l _ => Row.updated .storageProviders [l.id]
  | updateStorageProviders p _ =>
    Row.updated .storageProviders ((t.storageProviders.filter p).map (·.id))
  | insertArtifact r =>
    [(.entry .artifacts [r.versionId, r.platformId, r.architectureId, r.channel], .exclusive),
      Row.references .versions r.versionId, Row.references .platforms r.platformId,
      Row.references .architectures r.architectureId,
      Row.references .storageProviders r.storageProviderId]
  | saveArtifact l n =>
    (.entry .artifacts [n.versionId, n.platformId, n.architectureId, n.channel], .exclusive) ::
      Row.updated .artifacts [l.id]
  | updateArtifacts p _ => Row.updated .artifacts ((t.artifacts.filter (p t)).map (·.id))
  | insertReservation r => [Row.references .storageProviders r.storageProviderId]
  | deleteReservations p => Row.updated .reservations ((t.reservations.filter p).map (·.id))

/-- The CMS database. -/
abbrev cmsSchema : Schema where
  Db := Db
  Write := Write
  Row := Row
  decRow := inferInstance
  apply w d :=
    if h : (w.run d.toTables).2.Valid then some ((w.run d.toTables).1, ⟨(w.run d.toTables).2, h⟩)
    else none
  locks w d := w.locks d.toTables

/-- A write that the constraints allow runs. -/
theorem apply_tables {d d' : Db} {w : Write} {n : ℕ} (h : cmsSchema.apply w d = some (n, d')) :
    d'.toTables = (w.run d.toTables).2 := by
  simp only [cmsSchema] at h
  split at h
  · cases h
    rfl
  · cases h

/-- A write leaves the tables as they are or runs. -/
theorem applyOne_tables (d : Db) (w : Write) :
    (Server.applyOne (D := cmsSchema) d w).toTables = d.toTables ∨
      (Server.applyOne (D := cmsSchema) d w).toTables = (w.run d.toTables).2 := by
  simp only [Server.applyOne, cmsSchema]
  split
  · exact .inr rfl
  · exact .inl rfl

/-- A write that is published alone. -/
theorem publish_one {w : Write} {d d' : Db}
    (h : Server.publish (D := cmsSchema) [w] d = some d') : d'.toTables = (w.run d.toTables).2 := by
  obtain ⟨d₁, h₁, h₂⟩ := Option.bind_eq_some_iff.mp h
  obtain ⟨⟨n, d₂⟩, ha, rfl⟩ := Option.map_eq_some_iff.mp h₁
  cases h₂
  exact apply_tables ha

/-- Two writes that are published together. -/
theorem publish_two {w₁ w₂ : Write} {d d' : Db}
    (h : Server.publish (D := cmsSchema) [w₁, w₂] d = some d') :
    d'.toTables = (w₂.run (w₁.run d.toTables).2).2 := by
  obtain ⟨d₁, h₁, h₂⟩ := Option.bind_eq_some_iff.mp h
  obtain ⟨⟨n, d₁⟩, ha, rfl⟩ := Option.map_eq_some_iff.mp h₁
  rw [publish_one h₂, apply_tables ha]

/-- A column that the save leaves alone. -/
theorem dirty_self {α : Type} [DecidableEq α] (a r : α) : dirty a a r = r := if_pos rfl

/-- A column of the row that was loaded takes the value in memory. -/
theorem dirty_loaded {α : Type} [DecidableEq α] (l n : α) : dirty l n l = n := by
  unfold dirty
  split
  · exact Eq.symm ‹_›
  · rfl

/-- The rows of a table after an update. -/
theorem mem_updateRows {α : Type} {p : α → Bool} {f : α → α} {rows : List α} {b : α} :
    b ∈ (updateRows p f rows).2 ↔ ∃ a ∈ rows, (p a = true ∧ f a = b) ∨ (p a = false ∧ a = b) := by
  simp only [updateRows, List.mem_map]
  refine exists_congr fun a => and_congr_right fun _ => ?_
  cases p a <;> simp

end Reeva
