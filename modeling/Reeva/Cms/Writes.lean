import Reeva.Cms.ArtifactService

/-!
# What each request writes

`Performs T W p` says that every write of a program `p` satisfies `W`, whatever its queries and calls
return. Each request of the CMS has one lemma, which asks of `W` just the writes that the request may
perform. Everything that is said later about the effect of a request on the tables goes through these
lemmas, so that only they look into a request's text.
-/

open Interleaving ReadCommitted

namespace Reeva

/-- Every write of the program satisfies `W`, and it uses transactions only where `T` holds. -/
def Performs {α : Type} (T : Prop) (W : Write → Prop) (p : Cms α) : Prop := p.Only (Writes T W)

namespace Performs

variable {T : Prop} {W : Write → Prop} {α β : Type}

theorem bind {p : Cms α} {f : α → Cms β} (hp : Performs T W p) (hf : ∀ a, Performs T W (f a)) :
    Performs T W (p >>= f) := Prog.only_bind hp hf

/-- A weaker condition on the writes holds too. -/
theorem mono {W' : Write → Prop} {p : Cms α} (hp : Performs T W p) (h : ∀ w, W w → W' w) :
    Performs T W' p := Prog.Only.mono (fun s hs => by
  cases s with
  | db s =>
    cases s with
    | write w => exact h w hs
    | _ => exact hs
  | _ => exact hs) hp

theorem pure (a : α) : Performs T W (Pure.pure a : Cms α) := trivial

theorem discard {p : Cms α} (hp : Performs T W p) : Performs T W (Cms.discard p) :=
  hp.bind fun _ => pure ()

theorem raise (message : String) : Performs T W (Cms.raise message : Cms α) := trivial

theorem throw (e : Failure String) : Performs T W (MonadExcept.throw e : Cms α) := trivial

theorem refuse (c : Prop) [Decidable c] (message : String) : Performs T W (Cms.refuse c message) := by
  unfold Cms.refuse
  split
  · exact raise message
  · exact pure ()

/-- What follows a check may count on it. -/
theorem refuse_bind {c : Prop} [Decidable c] {message : String} {f : Unit → Cms α}
    (hf : ¬c → Performs T W (f ())) : Performs T W (Cms.refuse c message >>= f) := by
  by_cases hc : c
  · simp only [Cms.refuse, if_pos hc]
    exact raise message
  · simp only [Cms.refuse, if_neg hc]
    exact hf hc

theorem orThrow (e : Except String α) : Performs T W (Cms.orThrow e) := by
  cases e <;> trivial

/-- What follows a computation that may throw may count on its result. -/
theorem orThrow_bind {e : Except String α} {f : α → Cms β}
    (hf : ∀ a, e = .ok a → Performs T W (f a)) : Performs T W (Cms.orThrow e >>= f) := by
  cases e with
  | ok a => exact hf a rfl
  | error message => trivial

theorem orFail (o : Option α) : Performs T W (Cms.orFail o) := by
  cases o <;> trivial

theorem select (f : Tables → α) : Performs T W (Cms.select f) := only_db trivial

theorem call (c : CmsCall) : Performs T W (Cms.call c) := only_ext trivial

theorem exec {w : Write} (h : W w) : Performs T W (Cms.exec w) := only_db h

theorem halt : Performs T W (ReadCommitted.halt : Cms α) := ⟨trivial, fun r => nomatch r⟩

theorem lock (hT : T) (rows : List (Row × Mode)) :
    Performs T W (ReadCommitted.db (D := cmsSchema) (.lock rows) : Cms Unit) :=
  only_db (D := cmsSchema) (P := Writes T W) (s := .lock rows) hT

theorem advisory (hT : T) (n : ℕ) :
    Performs T W (ReadCommitted.db (D := cmsSchema) (.advisory n) : Cms Unit) :=
  only_db (D := cmsSchema) (P := Writes T W) (s := .advisory n) hT

theorem attempt {p : Cms α} (hp : Performs T W p) : Performs T W p.attempt := Prog.only_attempt hp

theorem transaction (hT : T) {p : Cms α} (hp : Performs T W p) :
    Performs T W (ReadCommitted.transaction p) := only_transaction hT hT hT hp

theorem selectForUpdate (hT : T) (table : TableName) (ids : Tables → List Id)
    (read : List Id → Tables → α) : Performs T W (Cms.selectForUpdate table ids read) :=
  (select ids).bind fun _ => (lock hT _).bind fun _ => select _

theorem ite {c : Prop} [Decidable c] {p q : Cms α} (hp : Performs T W p) (hq : Performs T W q) :
    Performs T W (if c then p else q) := by
  split
  · exact hp
  · exact hq

end Performs

variable {T : Prop} {W : Write → Prop} (node : Node)

/-! ## Loading -/

theorem findVersion_performs (id : Id) : Performs T W (Cms.findVersion id) :=
  (Performs.select _).bind fun _ => (Performs.orFail _).bind fun _ =>
    (Performs.select _).bind fun _ => .pure _

theorem findSoftware_performs (id : Id) : Performs T W (Cms.findSoftware id) :=
  (Performs.select _).bind fun _ => .orFail _

theorem loadArtifact_performs (id : Id) : Performs T W (Cms.loadArtifact id) :=
  (Performs.select _).bind fun _ => (Performs.orFail _).bind fun _ =>
    (Performs.select _).bind fun _ => (Performs.select _).bind fun _ =>
      (Performs.select _).bind fun _ => (Performs.select _).bind fun _ => .pure _

theorem loadArtifacts_performs (p : Tables → Artifact → Bool) :
    Performs T W (Cms.loadArtifacts p) :=
  (Performs.select _).bind fun _ => (Performs.select _).bind fun _ =>
    (Performs.select _).bind fun _ => (Performs.select _).bind fun _ =>
      (Performs.select _).bind fun _ => .pure _

/-! ## Products -/

section SoftwareService

open SoftwareService

theorem freeSlug_performs (baseSlug : String) (fuel : ℕ) (slug : String) (suffix : ℕ) :
    Performs T W (freeSlug baseSlug fuel slug suffix) := by
  induction fuel generalizing slug suffix with
  | zero => exact .halt
  | succ fuel ih => exact (Performs.select _).bind fun _ => .ite (ih _ _) (.pure _)

/-- A new product is active, not the default, and does not require signatures. -/
theorem create_performs (hT : T) (fuel : ℕ) (input : Input)
    (h : ∀ r, r.isActive = true → r.isDefault = false → r.requireSignedUpdates = false →
      W (.insertSoftware r)) : Performs T W (create node fuel input) := by
  refine (Performs.refuse _ _).bind fun _ => .transaction hT ?_
  refine (Performs.advisory hT _).bind fun _ => ?_
  refine (freeSlug_performs _ _ _ _).bind fun slug => (Performs.call _).bind fun id => ?_
  exact (Performs.exec (h _ rfl rfl rfl)).bind fun _ => .pure _

/-- Toggling changes `isActive` only. -/
theorem toggleActive_performs (hT : T) (id : Id)
    (h : ∀ active, W (.updateSoftware (·.id = id) fun s => { s with isActive := active })) :
    Performs T W (toggleActive id) := by
  refine .transaction hT ((Performs.selectForUpdate hT _ _ _).bind fun found => ?_)
  cases found with
  | none => exact .raise _
  | some software =>
    refine (Performs.refuse _ _).bind fun _ => (Performs.exec (h _)).bind fun _ => ?_
    exact (Performs.select _).bind fun _ => .orFail _

/-- The choice of a default changes `isDefault` only. -/
theorem setDefault_performs (hT : T) (id : Id)
    (h : ∀ p default, W (.updateSoftware p fun s => { s with isDefault := default })) :
    Performs T W (setDefault id) := by
  refine .transaction hT ((Performs.advisory hT _).bind fun _ => ?_)
  refine (Performs.selectForUpdate hT _ _ _).bind fun _ => (Performs.refuse _ _).bind fun _ => ?_
  refine (Performs.exec (h _ _)).bind fun _ => (Performs.exec (h _ _)).bind fun _ => ?_
  exact (Performs.select _).bind fun _ => .orFail _

/-- A new name changes `name` only. -/
theorem updateName_performs (id : Id) (input : Input)
    (h : ∀ l name, W (.saveSoftware l { l with name })) : Performs T W (updateName id input) := by
  refine (Performs.refuse _ _).bind fun _ => (findSoftware_performs _).bind fun software => ?_
  exact (Performs.exec (h _ _)).bind fun _ => .pure _

/-- A registered key is active. -/
theorem addSigningKey_performs (softwareId : Id) (input : Input)
    (h : ∀ r, r.isActive = true → W (.insertSigningKey r)) :
    Performs T W (addSigningKey node softwareId input) := by
  refine (findSoftware_performs _).bind fun software => (Performs.orThrow _).bind fun key => ?_
  refine (Performs.select _).bind fun existing => ?_
  cases existing with
  | some existing =>
    exact (Performs.refuse _ _).bind fun _ => (Performs.refuse _ _).bind fun _ => .raise _
  | none => exact (Performs.call _).bind fun id => (Performs.exec (h _ rfl)).bind fun _ => .pure _

/-- The policy changes `requireSignedUpdates` only. -/
theorem setRequireSignedUpdates_performs (softwareId : Id) (input : Input)
    (h : ∀ l required, W (.saveSoftware l { l with requireSignedUpdates := required })) :
    Performs T W (setRequireSignedUpdates node softwareId input) := by
  refine (findSoftware_performs _).bind fun software => ?_
  have save : Performs T W (do
      let changed := { software with requireSignedUpdates := isRequired input }
      let _ ← Cms.exec (.saveSoftware software changed)
      return changed) := (Performs.exec (h _ _)).bind fun _ => .pure _
  refine .ite ?_ save
  refine (Performs.select _).bind fun keys => (Performs.refuse _ _).bind fun _ => ?_
  exact (loadArtifacts_performs _).bind fun artifacts => (Performs.orThrow _).bind fun _ => save

/-- A revocation makes one active key inactive and clears signature triples. -/
theorem revokeSigningKey_performs (softwareId : Id) (keyId : String)
    (hk : ∀ l : SoftwareSigningKey, W (.saveSigningKey l { l with isActive := false }))
    (hc : ∀ p, W (.updateArtifacts p fun a =>
      { a with signature := none, signatureKeyId := none, signatureManifest := none })) :
    Performs T W (revokeSigningKey softwareId keyId) := by
  refine (findSoftware_performs _).bind fun software => (Performs.refuse _ _).bind fun _ => ?_
  refine (Performs.select _).bind fun found => ?_
  cases found with
  | none => exact .raise _
  | some key =>
    have revoke : Performs T W (do
        let revoked := { key with isActive := false }
        let _ ← Cms.exec (.saveSigningKey key revoked)
        let _ ← Cms.exec (.updateArtifacts
          (fun t a => a.signatureKeyId = some keyId &&
            t.hasVersion a fun v => v.softwareId = software.id)
          fun a => { a with signature := none, signatureKeyId := none, signatureManifest := none })
        return revoked) :=
      (Performs.exec (hk _)).bind fun _ => (Performs.exec (hc _)).bind fun _ => .pure _
    refine .ite ?_ revoke
    refine (Performs.select _).bind fun count => (Performs.refuse _ _).bind fun _ => ?_
    exact (Performs.select _).bind fun used => (Performs.refuse _ _).bind fun _ => revoke

end SoftwareService

/-! ## Versions -/

section VersionService

open VersionService

theorem validateAndCheckDuplicate_performs (vString : String) (major minor patch : ℕ)
    (softwareId : Id) (excludeId : Option Id) :
    Performs T W (validateAndCheckDuplicate node vString major minor patch softwareId excludeId) :=
  (Performs.refuse _ _).bind fun _ => (Performs.select _).bind fun _ => .refuse _ _

/-- A new version is inserted. -/
theorem createVersion_performs (data : VersionInput) (h : ∀ r, W (.insertVersion r)) :
    Performs T W (createVersion node data) := by
  unfold createVersion
  split
  · refine (findSoftware_performs _).bind fun software => (Performs.refuse _ _).bind fun _ => ?_
    refine (Performs.orThrow _).bind fun ⟨major, minor, patch⟩ => ?_
    refine (validateAndCheckDuplicate_performs node _ _ _ _ _ _).bind fun _ => ?_
    refine (Performs.orThrow _).bind fun _ => (Performs.orThrow _).bind fun _ => ?_
    refine (Performs.orThrow _).bind fun _ => (Performs.call _).bind fun id => ?_
    exact (Performs.exec (h _)).bind fun _ => .pure _
  · exact .raise _

/-- An edit saves the version, within its product, and clears signature triples. -/
theorem updateVersion_performs (id : Id) (data : VersionInput)
    (hv : ∀ l n, n.softwareId = l.softwareId → W (.saveVersion l n))
    (hc : ∀ p, W (.updateArtifacts p fun a =>
      { a with signature := none, signatureKeyId := none, signatureManifest := none })) :
    Performs T W (updateVersion node id data) := by
  refine (findVersion_performs _).bind fun ⟨version, _⟩ => ?_
  refine (Performs.orThrow _).bind fun ⟨major, minor, patch⟩ => ?_
  refine (validateAndCheckDuplicate_performs node _ _ _ _ _ _).bind fun _ => ?_
  refine (Performs.orThrow _).bind fun _ => (Performs.orThrow _).bind fun _ => ?_
  refine (Performs.orThrow _).bind fun _ => (Performs.exec (by apply hv; rfl)).bind fun _ => ?_
  exact .ite ((Performs.exec (hc _)).bind fun _ => .pure _) (.pure _)

theorem toggleVersion_performs (id : Id)
    (h : ∀ l n, n.softwareId = l.softwareId → W (.saveVersion l n)) :
    Performs T W (toggleVersion id) :=
  (findVersion_performs _).bind fun _ =>
    (Performs.exec (by apply h; rfl)).bind fun _ => .pure _

/-- A deletion changes `deletedAt` only. -/
theorem deleteVersion_performs (id : Id)
    (h : ∀ (l : Version) (now : ℕ), W (.saveVersion l { l with deletedAt := some now })) :
    Performs T W (deleteVersion id) :=
  (findVersion_performs _).bind fun _ => (Performs.select _).bind fun _ =>
    (Performs.refuse _ _).bind fun _ => (Performs.call _).bind fun _ =>
      (Performs.exec (h _ _)).bind fun _ => .pure _

end VersionService

/-! ## Artifacts -/

section ArtifactService

open ArtifactService

/-- A reservation is inserted. -/
theorem reserveQuota_performs (hT : T) (id storageProviderId : Id) (sizeBytes : ℤ)
    (h : ∀ r, W (.insertReservation r)) :
    Performs T W (reserveQuota id storageProviderId sizeBytes) := by
  refine .transaction hT ((Performs.selectForUpdate hT _ _ _).bind fun provider => ?_)
  refine (Performs.orFail _).bind fun provider => (Performs.refuse _ _).bind fun _ => ?_
  refine (Performs.call _).bind fun now => (Performs.select _).bind fun artifacts => ?_
  refine (Performs.select _).bind fun reservations => ?_
  dsimp only
  split
  · exact .raise _
  · exact (Performs.exec (h _)).bind fun _ => .pure _

theorem deleteObjects_performs (storageProviderId : Id) (rs : List Reservation) :
    Performs T W (deleteObjects storageProviderId rs) := by
  induction rs with
  | nil => exact .pure _
  | cons r rs ih => exact (Performs.call _).bind fun _ => (Performs.orThrow _).bind fun _ => ih

/-- Reservations are deleted. -/
theorem cleanupExpiredReservations_performs (hT : T) (storageProviderId : Id) (now fuel : ℕ)
    (h : ∀ p, W (.deleteReservations p)) :
    Performs T W (cleanupExpiredReservations storageProviderId now fuel) := by
  induction fuel with
  | zero => exact .halt
  | succ fuel ih =>
    refine (Performs.select _).bind fun expired => .ite (.pure _) ?_
    refine (deleteObjects_performs _ _).bind fun _ => Performs.bind (.transaction hT ?_) fun _ => ih
    exact (Performs.exec (h _)).bind fun _ => .pure _

theorem compensate_performs (objectStored : Bool) (storageProviderId artifactId : Id)
    (h : ∀ p, W (.deleteReservations p)) :
    Performs T W (compensate objectStored storageProviderId artifactId) := by
  have rest : ∀ deleted : Except String Unit, Performs T W (if deleted.toBool then do
      let _ ← (Cms.exec (.deleteReservations (·.id = artifactId))).attempt
      return ()
    else return () : Cms Unit) := fun deleted =>
    .ite ((Performs.attempt (.exec (h _))).bind fun _ => .pure _) (.pure _)
  unfold compensate
  split
  · exact (Performs.call _).bind rest
  · exact (Performs.pure _).bind rest

theorem prepareUpload_performs (file : MultipartFile) (data : ArtifactInput) :
    Performs T W (prepareUpload node file data) := by
  refine (Performs.orThrow _).bind fun ids => (Performs.refuse _ _).bind fun _ => ?_
  refine (findVersion_performs _).bind fun ⟨version, software⟩ => ?_
  refine (Performs.select _).bind fun _ => (Performs.orFail _).bind fun platform => ?_
  refine (Performs.select _).bind fun _ => (Performs.orFail _).bind fun architecture => ?_
  refine (Performs.select _).bind fun _ => (Performs.orFail _).bind fun storageProvider => ?_
  refine (Performs.refuse _ _).bind fun _ => (Performs.refuse _ _).bind fun _ => ?_
  refine (Performs.refuse _ _).bind fun _ => ?_
  cases software with
  | none => exact .raise _
  | some software =>
    refine (Performs.refuse _ _).bind fun _ => (Performs.refuse _ _).bind fun _ => ?_
    exact (Performs.call _).bind fun _ => .pure _

/-- A finalisation inserts the artifact, with the time of its publication, and deletes reservations. -/
theorem finalise_performs (hT : T) (artifact : Artifact)
    (ha : ∀ publishedAt, W (.insertArtifact { artifact with publishedAt }))
    (hd : ∀ p, W (.deleteReservations p)) : Performs T W (finalise artifact) := by
  have rest : ∀ publishedAt : Option ℕ, Performs T W (do
      let _ ← Cms.exec (.insertArtifact { artifact with publishedAt })
      let _ ← Cms.exec (.deleteReservations (·.id = artifact.id))
      return { artifact with publishedAt } : Cms Artifact) := fun publishedAt =>
    (Performs.exec (ha _)).bind fun _ => (Performs.exec (hd _)).bind fun _ => .pure _
  refine .transaction hT ?_
  split
  · exact Performs.bind (.bind (.call _) fun _ => .pure _) fun _ => rest _
  · exact Performs.bind (.pure _) fun _ => rest _

/-- A prepared row with the digests of its object and the time of its publication. -/
def Artifact.stored (row : Artifact) (hashes : Checksums) (publishedAt : Option ℕ) : Artifact :=
  { row with
    checksum := some hashes.sha256, checksumMd5 := some hashes.md5
    checksumSha1 := some hashes.sha1, checksumSha256 := some hashes.sha256
    checksumSha512 := some hashes.sha512, publishedAt }

/-- An upload inserts and deletes reservations and inserts the artifact that was prepared, with its
digests and the time of its publication. -/
theorem storeArtifact_performs (hT : T) (row : Artifact) (tmpPath : String)
    (hr : ∀ r, W (.insertReservation r)) (hd : ∀ p, W (.deleteReservations p))
    (ha : ∀ hashes publishedAt, W (.insertArtifact (row.stored hashes publishedAt))) :
    Performs T W (storeArtifact node row tmpPath) := by
  refine (reserveQuota_performs hT _ _ _ hr).bind fun _ => Performs.bind (.attempt ?_) fun stored => ?_
  · refine (Performs.call _).bind fun _ => (Performs.orThrow _).bind fun content => ?_
    exact (Performs.call _).bind fun _ => (Performs.orThrow _).bind fun _ => .pure _
  · cases stored with
    | error e => exact (compensate_performs _ _ _ hd).bind fun _ => .throw _
    | ok stored =>
      refine Performs.bind (.attempt ((Performs.refuse _ _).bind fun _ => ?_)) fun finalised => ?_
      · exact finalise_performs hT _ (fun _ => ha _ _) hd
      · cases finalised with
        | ok artifact => exact .pure _
        | error e => exact (compensate_performs _ _ _ hd).bind fun _ => .throw _

/-- A file name that `buildFileName` has made. -/
def IsBuilt (fileName : String) : Prop :=
  ∃ software platform architecture version extension,
    fileName = buildFileName node software platform architecture version extension

/-- A row that an upload prepares has no signature, and a name that was built. -/
theorem prepareUpload_returns (file : MultipartFile) (data : ArtifactInput) :
    (prepareUpload node file data).Returns fun prepared => prepared.1.signature = none ∧
      prepared.1.signatureKeyId = none ∧ prepared.1.signatureManifest = none ∧
      IsBuilt node prepared.1.fileName := by
  refine Prog.returns_bind fun ids => Prog.returns_bind fun _ => Prog.returns_bind ?_
  rintro ⟨version, software⟩
  refine Prog.returns_bind fun _ => Prog.returns_bind fun platform => ?_
  refine Prog.returns_bind fun _ => Prog.returns_bind fun architecture => ?_
  refine Prog.returns_bind fun _ => Prog.returns_bind fun storageProvider => ?_
  refine Prog.returns_bind fun _ => Prog.returns_bind fun _ => Prog.returns_bind fun _ => ?_
  cases software with
  | none => trivial
  | some software => exact Prog.returns_bind fun _ => Prog.returns_bind fun _ =>
      Prog.returns_bind fun _ => ⟨rfl, rfl, rfl, _, _, _, _, _, rfl⟩

/-- An upload inserts and deletes reservations and inserts an artifact without a signature. -/
theorem uploadArtifact_performs (hT : T) (fuel : ℕ) (file : MultipartFile) (data : ArtifactInput)
    (hr : ∀ r, W (.insertReservation r)) (hd : ∀ p, W (.deleteReservations p))
    (ha : ∀ r, r.signature = none → r.signatureKeyId = none → r.signatureManifest = none →
      IsBuilt node r.fileName → W (.insertArtifact r)) :
    Performs T W (uploadArtifact node fuel file data) := by
  refine Prog.only_bind_of_returns (prepareUpload_performs node file data)
    (prepareUpload_returns node file data) ?_
  rintro ⟨row, tmpPath⟩ hrow
  refine (Performs.call _).bind fun _ => (Performs.orThrow _).bind fun _ => ?_
  refine (Performs.call _).bind fun now => ?_
  refine (cleanupExpiredReservations_performs hT _ _ _ hd).bind fun _ => ?_
  exact storeArtifact_performs node hT _ _ hr hd fun _ _ =>
    ha _ hrow.1 hrow.2.1 hrow.2.2.1 hrow.2.2.2

/-- An edit saves the artifact without a signature, under a name that was built. -/
theorem updateArtifact_performs (id : Id) (data : ArtifactInput)
    (h : ∀ l n, n.signature = none → n.signatureKeyId = none → n.signatureManifest = none →
      n.deletedAt = l.deletedAt → IsBuilt node n.fileName → W (.saveArtifact l n)) :
    Performs T W (updateArtifact node id data) := by
  refine (Performs.orThrow _).bind fun ids => (Performs.refuse _ _).bind fun _ => ?_
  refine (Performs.select _).bind fun _ => (Performs.orFail _).bind fun artifact => ?_
  refine (findVersion_performs _).bind fun ⟨version, software⟩ => ?_
  refine (Performs.select _).bind fun _ => (Performs.orFail _).bind fun platform => ?_
  refine (Performs.select _).bind fun _ => (Performs.orFail _).bind fun architecture => ?_
  refine (Performs.refuse _ _).bind fun _ => ?_
  cases software with
  | none => exact .raise _
  | some software =>
    exact (Performs.refuse _ _).bind fun _ =>
      (Performs.exec (by exact h _ _ rfl rfl rfl rfl ⟨_, _, _, _, _, rfl⟩)).bind fun _ => .pure _

/-- A deletion leaves the signature as it was loaded. -/
theorem deleteArtifact_performs (id : Id)
    (h : ∀ (l : Artifact) (now : ℕ), W (.saveArtifact l { l with deletedAt := some now })) :
    Performs T W (deleteArtifact id) :=
  (Performs.select _).bind fun _ => (Performs.orFail _).bind fun _ =>
    (Performs.call _).bind fun _ => (Performs.exec (h _ _)).bind fun _ => .pure _

theorem assertValidReleaseSignature_performs (a : LoadedArtifact) (version : Version) :
    Performs T W (assertValidReleaseSignature node a version) := by
  refine (Performs.refuse _ _).bind fun _ => (Performs.select _).bind fun signingKey => ?_
  cases signingKey with
  | none => exact .raise _
  | some signingKey => exact (Performs.orThrow _).bind fun _ => .refuse _ _

/-- A publication leaves the signature as it was loaded. -/
theorem publishArtifact_performs (id : Id)
    (h : ∀ l publishedAt, W (.saveArtifact l { l with isPublished := true, publishedAt })) :
    Performs T W (publishArtifact node id) := by
  refine (loadArtifact_performs _).bind fun a => (Performs.refuse _ _).bind fun _ => ?_
  refine (Performs.refuse _ _).bind fun _ => ?_
  have save : Performs T W (do
      let now : ℕ ← Cms.call .now
      let published := { a.artifact with isPublished := true, publishedAt := some now }
      let _ ← Cms.exec (.saveArtifact a.artifact published)
      return published) :=
    (Performs.call _).bind fun _ => (Performs.exec (h _ _)).bind fun _ => .pure _
  split
  · exact .ite ((assertValidReleaseSignature_performs node _ _).bind fun _ => save) save
  · exact .raise _

/-- A rebuilt artifact is saved without a signature. -/
theorem rebuildNames_performs (a : LoadedArtifact) (provider : Option StorageProvider)
    (h : ∀ l n, n.signature = none → n.signatureKeyId = none → n.signatureManifest = none →
      IsBuilt node n.fileName → W (.saveArtifact l n)) :
    Performs T W (rebuildNames node a provider) := by
  unfold rebuildNames
  split
  · refine Performs.bind (.attempt ?_) fun hashes => .ite ?_ (.pure _)
    · refine (Performs.orThrow _).bind fun provider => (Performs.call _).bind fun _ => ?_
      refine (Performs.orThrow _).bind fun _ => (Performs.call _).bind fun _ => ?_
      exact (Performs.orThrow _).bind fun _ => .pure _
    · refine (Performs.exec (h _ _ rfl rfl rfl ?_)).bind fun _ => .pure _
      cases hashes with
      | ok hashes => exact ⟨_, _, _, _, _, rfl⟩
      | error e => exact ⟨_, _, _, _, _, rfl⟩
  · exact .raise _

theorem rebuildLoop_performs (providers : List StorageProvider) (as : List LoadedArtifact)
    (count : ℕ)
    (h : ∀ l n, n.signature = none → n.signatureKeyId = none → n.signatureManifest = none →
      IsBuilt node n.fileName → W (.saveArtifact l n)) :
    Performs T W (rebuildLoop node providers as count) := by
  induction as generalizing count with
  | nil => exact .pure _
  | cons a as ih => exact (rebuildNames_performs node _ _ h).bind fun _ => ih _

theorem rebuildAllNames_performs
    (h : ∀ l n, n.signature = none → n.signatureKeyId = none → n.signatureManifest = none →
      IsBuilt node n.fileName → W (.saveArtifact l n)) : Performs T W (rebuildAllNames node) :=
  (loadArtifacts_performs _).bind fun _ => (Performs.select _).bind fun _ =>
    rebuildLoop_performs node _ _ _ h

end ArtifactService

end Reeva
