import Reeva.Cms.Admission
import Reeva.Cms.Submission
import Reeva.Cms.Acceptance

/-!
# Signed-only publication

Every state that the operations of the CMS reach from a database without signatures, one operation
after the other, has coherent tables. Together with the agreement of the two signature policies
(`envelope_of_admitted`), this means that a signed-only product never offers an artifact without a
valid envelope. An operation may end early at any of its statements, and the clock, the files and the
objects may change in any way between two operations.
-/

open Interleaving ReadCommitted

namespace Reeva

/-- An operation of the CMS. `fuel` bounds the loops that search for a free slug and clean up. -/
inductive Operation
  | createSoftware (fuel : ℕ) (name : Input)
  | updateName (id : Id) (name : Input)
  | toggleActive (id : Id)
  | setDefault (id : Id)
  | addSigningKey (softwareId : Id) (publicKey : Input)
  | setRequireSignedUpdates (softwareId : Id) (required : Input)
  | revokeSigningKey (softwareId : Id) (keyId : String)
  | createVersion (data : VersionInput)
  | updateVersion (id : Id) (data : VersionInput)
  | toggleVersion (id : Id)
  | deleteVersion (id : Id)
  | uploadArtifact (fuel : ℕ) (file : MultipartFile) (data : ArtifactInput)
  | updateArtifact (id : Id) (data : ArtifactInput)
  | setArtifactSignature (id : Id) (keyId signature : Input)
  | importManagedSignature (id : Id)
  | publishArtifact (id : Id)
  | deleteArtifact (id : Id)
  | rebuildAllNames

/-- The program of an operation. -/
def Operation.program (node : Node) : Operation → Cms Unit
  | createSoftware fuel name => Cms.discard (SoftwareService.create node fuel name)
  | updateName id name => Cms.discard (SoftwareService.updateName id name)
  | toggleActive id => Cms.discard (SoftwareService.toggleActive id)
  | setDefault id => Cms.discard (SoftwareService.setDefault id)
  | addSigningKey softwareId publicKey =>
    Cms.discard (SoftwareService.addSigningKey node softwareId publicKey)
  | setRequireSignedUpdates softwareId required =>
    Cms.discard (SoftwareService.setRequireSignedUpdates node softwareId required)
  | revokeSigningKey softwareId keyId =>
    Cms.discard (SoftwareService.revokeSigningKey softwareId keyId)
  | createVersion data => Cms.discard (VersionService.createVersion node data)
  | updateVersion id data => Cms.discard (VersionService.updateVersion node id data)
  | toggleVersion id => Cms.discard (VersionService.toggleVersion id)
  | deleteVersion id => Cms.discard (VersionService.deleteVersion id)
  | uploadArtifact fuel file data => Cms.discard (ArtifactService.uploadArtifact node fuel file data)
  | updateArtifact id data => Cms.discard (ArtifactService.updateArtifact node id data)
  | setArtifactSignature id keyId signature =>
    Cms.discard (ArtifactService.setArtifactSignature node id keyId signature)
  | importManagedSignature id => Cms.discard (ArtifactService.importManagedSignature node id)
  | publishArtifact id => Cms.discard (ArtifactService.publishArtifact node id)
  | deleteArtifact id => Cms.discard (ArtifactService.deleteArtifact id)
  | rebuildAllNames => Cms.discard (ArtifactService.rebuildAllNames node)

/-- The states that operations reach, each run on its own, from a database without signatures. -/
inductive Reachable (node : Node) : CmsState → Prop
  | start {d : Db} {w : CmsWorld} (h : ∀ a ∈ d.artifacts, a.signature = none) :
    Reachable node ⟨Server.idle d, w⟩
  | operation {σ σ' : CmsState} {op : Operation} {choices : List cms.Choice}
    {out : Except (Failure String) Unit} (h : Reachable node σ)
    (he : (op.program node).eval cms 0 choices σ = some (out, σ')) : Reachable node σ'
  | world {σ : CmsState} (w : CmsWorld) (h : Reachable node σ) : Reachable node ⟨σ.server, w⟩

/-- What is committed and what the running operation sees is coherent. -/
def CoherentState (node : Node) (σ : CmsState) : Prop :=
  Coherent node (Db.toTables σ.server.db) ∧ Coherent node (tables σ 0)

/-- A statement of an operation with harmless writes keeps the state coherent. -/
theorem CoherentState.harmless_step {node : Node} {s : Action cmsSchema cmsCalls}
    (hs : Writes True Harmless s) {ch : cms.Choice} {σ σ' : CmsState}
    {r : (signature cmsSchema cmsCalls).Res s} (hc : CoherentState node σ)
    (hr : cms.run 0 s ch σ = some (r, σ')) : CoherentState node σ' := by
  cases s with
  | halt => cases ch <;> cases hr
  | ext c =>
    cases ch with
    | db φ => cases hr
    | abort j => cases hr
    | ext o =>
      simp only [cms, Service] at hr
      split at hr
      · cases hr
      · obtain ⟨_, -, hw⟩ := Option.map_eq_some_iff.mp hr
        cases hw
        exact hc
  | db s =>
    cases ch with
    | ext o => cases hr
    | abort j => cases hr
    | db φ =>
      simp only [cms, Service] at hr
      split at hr
      · cases hr
      · obtain ⟨⟨r', srv⟩, he, hw⟩ := Option.map_eq_some_iff.mp hr
        cases hw
        refine Server.seen_exec (D := cmsSchema) (P := fun d => Coherent node (Db.toTables d)) he ?_ hc
        rintro w rfl
        exact coherent_applyOne hc.2 (Harmless.coherent node hs hc.2)

/-- The save of a submission finds the artifact as it was loaded. -/
theorem undisturbed_of_loaded {t : Tables} (hv : t.Valid) {l n : Artifact} (hl : l ∈ t.artifacts) :
    ∀ a ∈ t.artifacts, a.id = l.id → TripleUndisturbed l n a := by
  intro a ha hid
  obtain rfl := List.inj_on_of_nodup_map hv.artifactIds ha hl hid
  exact ⟨fun h => .inr h.symm, fun h => .inr h.symm, fun h => .inr h.symm⟩

/-- The terms of an operation that runs alone allow signature submissions. -/
theorem allowsSubmission_alone (node : Node) :
    AllowsSubmission node (Guard.always cms) (Discipline.alone cms (CoherentState node)) 0
      fun a σ => a ∈ (tables σ 0).artifacts where
  refl _ := rfl
  read _ _ _ _ := trivial
  world _ _ h := h
  keys := by
    rintro σ _ - - rfl
    exact .refl _
  load _ _ h := h
  keep := by
    rintro a σ _ h rfl
    exact h
  save σ l n φ r srv hc hl hs _ he := by
    refine ⟨Server.seen_exec (D := cmsSchema) (P := fun d => Coherent node (Db.toTables d)) he ?_ hc,
      trivial⟩
    intro w hw
    cases hw
    exact coherent_applyOne hc.2
      (coherent_saveSigned node hc.2 hs (undisturbed_of_loaded (Db.valid (σ.server.view 0)) hl))

/-- An operation with harmless writes keeps the state coherent. -/
theorem wp_of_harmless {node : Node} {α : Type} {p : Cms α} (hp : Performs True Harmless p)
    {σ : CmsState} :
    wp (Guard.always cms) (Discipline.alone cms (CoherentState node)) 0 p (fun _ _ => True)
      (fun _ _ => True) σ := by
  refine wp_mono (fun _ _ _ => trivial) (fun _ _ _ => trivial) (wp_of_only ?_ hp)
  exact fun s hs ch σ r σ' hc _ hr => ⟨hc.harmless_step hs hr, trivial⟩

/-- The operations that submit a signature. -/
def Operation.submits : Operation → Bool
  | setArtifactSignature _ _ _ | importManagedSignature _ => true
  | _ => false

/-- The writes of every other operation are harmless. -/
theorem Operation.harmless (node : Node) (op : Operation) (h : op.submits = false) :
    Performs True Harmless (op.program node) := by
  cases op with
  | createSoftware fuel name =>
    exact (create_performs node trivial _ _ fun r _ _ _ => .insertSoftware r).discard
  | updateName id name => exact (updateName_performs _ _ fun l _ => .saveSoftware l _).discard
  | toggleActive id => exact (toggleActive_performs trivial _ fun _ => .updateSoftware _ _).discard
  | setDefault id => exact (setDefault_performs trivial _ fun p _ => .updateSoftware p _).discard
  | addSigningKey softwareId publicKey =>
    exact (addSigningKey_performs node _ _ fun r _ => .insertSigningKey r).discard
  | setRequireSignedUpdates softwareId required =>
    exact (setRequireSignedUpdates_performs node _ _ fun l _ => .saveSoftware l _).discard
  | revokeSigningKey softwareId keyId => exact (revokeSigningKey_performs _ _ .revoke .clear).discard
  | createVersion data => exact (createVersion_performs node _ .insertVersion).discard
  | updateVersion id data =>
    exact (updateVersion_performs node _ _ (fun l n _ => .saveVersion l n) .clear).discard
  | toggleVersion id => exact (toggleVersion_performs _ fun l n _ => .saveVersion l n).discard
  | deleteVersion id => exact (deleteVersion_performs _ fun l _ => .saveVersion l _).discard
  | uploadArtifact fuel file data =>
    exact (uploadArtifact_performs node trivial _ _ _ .insertReservation .deleteReservations
      fun r hs hi hm _ => .insertArtifact r hs hi hm).discard
  | updateArtifact id data =>
    exact (updateArtifact_performs node _ _ fun l n hs hi hm _ _ =>
      .saveArtifact l n (.inl hs) (.inl hi) (.inl hm)).discard
  | setArtifactSignature id keyId signature => cases h
  | importManagedSignature id => cases h
  | publishArtifact id =>
    exact (publishArtifact_performs node _ fun l _ =>
      .saveArtifact l _ (.inr rfl) (.inr rfl) (.inr rfl)).discard
  | deleteArtifact id =>
    exact (deleteArtifact_performs _ fun l _ =>
      .saveArtifact l _ (.inr rfl) (.inr rfl) (.inr rfl)).discard
  | rebuildAllNames =>
    exact (rebuildAllNames_performs node fun l n hs hi hm _ =>
      .saveArtifact l n (.inl hs) (.inl hi) (.inl hm)).discard

/-- What is discarded may be anything. -/
theorem wp_discard {node : Node} {α : Type} {p : Cms α} {σ : CmsState}
    (hc : CoherentState node σ)
    (h : wp (Guard.always cms) (Discipline.alone cms (CoherentState node)) 0 p (fun _ _ => True)
      (fun _ _ => True) σ) :
    wp (Guard.always cms) (Discipline.alone cms (CoherentState node)) 0 (Cms.discard p)
      (fun _ _ => True) (fun _ _ => True) σ :=
  wp_bind (fun _ => rfl) (wp_mono (fun _ _ _ _ _ _ => trivial) (fun _ _ _ => trivial) h) hc

/-- Every operation keeps the state coherent. -/
theorem Operation.program_wp (node : Node) (op : Operation) {σ : CmsState}
    (hc : CoherentState node σ) :
    wp (Guard.always cms) (Discipline.alone cms (CoherentState node)) 0 (op.program node)
      (fun _ _ => True) (fun _ _ => True) σ := by
  have hA := allowsSubmission_alone node
  cases h : op.submits with
  | false => exact wp_of_harmless (op.harmless node h)
  | true =>
    cases op with
    | setArtifactSignature id keyId signature =>
      exact wp_discard hc (hA.setArtifactSignature _ _ _ hc)
    | importManagedSignature id => exact wp_discard hc (hA.importManagedSignature _ hc)
    | _ => cases h

/-- Every reachable state is coherent. -/
theorem Reachable.coherent {node : Node} {σ : CmsState} (h : Reachable node σ) :
    CoherentState node σ := by
  induction h with
  | @start d w hnone =>
    have hc : Coherent node d.toTables := by
      intro a ha signature _ _ hs
      rw [hnone a ha] at hs
      cases hs
    exact ⟨hc, hc⟩
  | @operation σ σ' op choices out _ he ih =>
    exact (wp_eval (D := Discipline.alone cms (CoherentState node)) (fun _ => rfl)
      (op.program_wp node ih) ih he).1
  | world w _ ih => exact ih

/-- In every reachable state, an artifact that the public query returns for a product that requires
signed updates has a valid envelope. -/
theorem signedOnly_publication_safe (node : Node) {σ : CmsState} (h : Reachable node σ) :
    PublicationSafe node (Db.toTables σ.server.db) :=
  publicationSafe_of_coherent node (Db.valid σ.server.db) h.coherent.1

/-! ## A release that is signed -/

/-- A published artifact without a signature. -/
def unsigned : Artifact where
  id := "a"
  fileName := "p.zip"
  versionId := "v"
  platformId := "w"
  architectureId := "x"
  storageKey := ArtifactService.storageKey "a"
  storageProviderId := "s"
  sizeBytes := some 1
  mimeType := none
  isArchived := false
  channel := "dev"
  isPublished := true
  publishedAt := none
  checksum := none
  checksumMd5 := none
  checksumSha1 := none
  checksumSha256 := some (toyKeyId 'c')
  checksumSha512 := none
  downloadCount := 0
  signature := none
  signatureKeyId := none
  signatureManifest := none
  deletedAt := none

/-- The product of the release. -/
def releaseSoftware : Software := ⟨"p", "P", "p", true, true, true⟩

/-- The version of the release. -/
def releaseVersion (codename : Option String) : Version :=
  ⟨"v", "p", 1, 0, 0, codename, none, true, none, none⟩

/-- The tables of a signed-only product with two active keys and one release. -/
def releaseTables (codename : Option String) (a : Artifact) : Tables where
  software := [releaseSoftware]
  signingKeys := [⟨"k", "p", toyKeyId 'a', "-----BEGIN PUBLIC KEY-----A", true⟩,
    ⟨"l", "p", toyKeyId 'b', "-----BEGIN PUBLIC KEY-----B", true⟩]
  versions := [releaseVersion codename]
  platforms := [⟨"w", "windows", "Windows", none⟩]
  architectures := [⟨"x", "x64", "x64", none⟩]
  storageProviders := [⟨"s", "S", "local", .null, true, true, none, none⟩]
  artifacts := [a]
  reservations := []

/-- With any one release, the tables satisfy their constraints. -/
theorem releaseTables_valid (codename : Option String) (a : Artifact) :
    (releaseTables codename a).Valid := by
  have hkeys : toyKeyId 'a' ≠ toyKeyId 'b' := by decide
  constructor <;> simp [releaseTables, releaseSoftware, hkeys]

/-- The database of one release. -/
def oneRelease (codename : Option String) (a : Artifact) : Db :=
  ⟨releaseTables codename a, releaseTables_valid codename a⟩

/-- The manifest of the release. -/
def releaseManifest (codename : Option String) : OtaReleaseManifest :=
  ⟨"p", "1.0.0", codename, none, "dev", "windows", "x64", "p.zip", 1, toyKeyId 'c'⟩

/-- A save of the release. -/
theorem save_oneRelease {codename : Option String} {l n a : Artifact} (h : a.id = l.id) :
    cmsSchema.apply (.saveArtifact l n) (oneRelease codename a) =
      some (1, oneRelease codename (l.saveOnto n a)) := by
  have hrun : Write.run (releaseTables codename a) (.saveArtifact l n) =
      (1, releaseTables codename (l.saveOnto n a)) := by
    simp [Write.run, updateRows, releaseTables, h]
  simp only [cmsSchema, oneRelease, hrun, releaseTables_valid, dif_pos]

/-- The release with a toy signature by one of the keys. -/
def signedRelease (codename : Option String) (key digit : Char) (a : Artifact) : Artifact :=
  a.submitted (toySignature key (releaseManifest codename)) (toyKeyId digit)
    (releaseManifest codename)

/-- The release with its first signature. -/
def firstSigned : Artifact := unsigned.saveOnto (signedRelease none 'A' 'a' unsigned) unsigned

/-- A toy signature over the release's manifest is accepted. -/
theorem oneRelease_accepts (ok : Guard cms) (i : ℕ) (w : CmsWorld)
    (hq : ∀ {γ : Type} (f : Db → γ) σ, ok i (.db (.query f)) (.db .none) σ)
    (codename : Option String) (a : Artifact) (key digit : Char) {k : SoftwareSigningKey}
    (hm : buildOtaReleaseManifest ((releaseTables codename a).load a) =
      .ok (releaseManifest codename))
    (ha : a.id = "a" ∧ a.versionId = "v" ∧ a.deletedAt = none)
    (hk : (releaseTables codename a).activeSigningKey "p" (toyKeyId digit) = some k)
    (hdigit : trimmedText (some (.str (toyKeyId digit))) = toyKeyId digit)
    (hhex : Js.isSha256Hex (toyKeyId digit) = true)
    (hkey : getPublicKey toyNode k.publicKey = .ok key)
    (hlen : ((releaseManifest codename).toJson.print.flatMap String.utf8EncodeChar).length ≤
      90000) :
    (ArtifactService.setArtifactSignature toyNode "a" (some (.str (toyKeyId digit)))
        (some (.str (toySignature key (releaseManifest codename))))).Steps ok i
      ⟨Server.idle (oneRelease codename a), w⟩
      (Cms.exec (.saveArtifact a (signedRelease codename key digit a)) >>=
        fun _ => pure (signedRelease codename key digit a))
      ⟨Server.idle (oneRelease codename a), w⟩ := by
  obtain ⟨hid, hversion, hlive⟩ := ha
  have hver := verify_toySignature key key (releaseManifest codename) (releaseManifest codename) hkey
    hlen
  rw [beq_self_eq_true, ← trimmedText_toySignature] at hver
  have hfound : (releaseTables codename a).artifact "a" = some a := by
    simp [Tables.artifact, releaseTables, hid, hlive]
  have hv : (releaseTables codename a).version a.versionId = some (releaseVersion codename) := by
    simp [Tables.version, releaseTables, releaseVersion, hversion]
  have h := setArtifactSignature_accepts (d := oneRelease codename a) (w := w) toyNode hq "a"
    (some (.str (toyKeyId digit))) (some (.str (toySignature key (releaseManifest codename)))) hfound
    hv (by rw [hdigit]; exact hhex) (by rw [hdigit]; exact hk) hm hver
  rw [trimmedText_toySignature, hdigit] at h
  exact h

/-- A published release is public when its product's policy admits it. -/
theorem mem_publicQuery_oneRelease {codename : Option String} {a : Artifact}
    (hpolicy : signaturePolicy (releaseTables codename a) releaseSoftware
      (releaseVersion codename) a = true)
    (hids : a.versionId = "v" ∧ a.platformId = "w" ∧ a.architectureId = "x" ∧
      a.storageProviderId = "s")
    (hlive : a.isPublished = true ∧ a.isArchived = false ∧ a.deletedAt = none) :
    a ∈ publicQuery (releaseTables codename a) (some "p") := by
  simp only [releaseTables, releaseSoftware, releaseVersion] at hpolicy
  simp [publicQuery, isPublic, releaseTables, releaseSoftware, releaseVersion, hpolicy, hids, hlive]

/-- Signing a published release of a signed-only product makes it public, with a valid envelope. -/
theorem signedOnly_publication_safe_example :
    ∃ σ, Reachable toyNode σ ∧ publicQuery (Db.toTables σ.server.db) (some "p") ≠ [] ∧
      PublicationSafe toyNode (Db.toTables σ.server.db) := by
  have accepted := oneRelease_accepts (Guard.always cms) 0 emptyWorld (fun _ _ => trivial) none
    unsigned 'A' 'a' rfl ⟨rfl, rfl, rfl⟩ rfl (by decide +kernel) (by decide) rfl (by decide +kernel)
  have saved := accepted.trans (steps_exec trivial (save_oneRelease rfl) .refl)
  obtain ⟨choices, he⟩ := (saved.bind (f := fun _ => pure ())).eval rfl
  have start : Reachable toyNode ⟨Server.idle (oneRelease none unsigned), emptyWorld⟩ :=
    .start (by decide)
  have reached : Reachable toyNode ⟨Server.idle (oneRelease none firstSigned), emptyWorld⟩ :=
    start.operation (show (Operation.program toyNode (.setArtifactSignature "a"
      (some (.str (toyKeyId 'a'))) (some (.str (toySignature 'A' (releaseManifest none)))))).eval
        cms 0 choices _ = some (.ok (), _) from he)
  have policy := signaturePolicy_of_snapshot (t := releaseTables none firstSigned)
    (s := releaseSoftware) (v := releaseVersion none) (a := firstSigned) (List.mem_cons_self ..) rfl
    rfl rfl rfl rfl
  have admitted := mem_publicQuery_oneRelease policy ⟨rfl, rfl, rfl, rfl⟩ ⟨rfl, rfl, rfl⟩
  exact ⟨_, reached, List.ne_nil_of_mem admitted, signedOnly_publication_safe toyNode reached⟩

end Reeva
