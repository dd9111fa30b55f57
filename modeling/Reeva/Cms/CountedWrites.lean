import Reeva.Cms.Downloads
import Reeva.Cms.Eligibility

/-!
# Writes that leave the download counts

No operation of the CMS changes a download count or the key of an artifact, and a new artifact has
been downloaded never: each operation writes what `KeepsCounts` allows. The count of every artifact
is therefore the same after such writes, also of one that they insert.
-/

open Interleaving ReadCommitted

namespace Reeva.Downloads

/-- A write that leaves the download counts, and inserts artifacts without downloads. -/
def KeepsCounts : Reeva.Write → Prop
  | .insertArtifact r => r.downloadCount = 0
  | .saveArtifact l n => n.downloadCount = l.downloadCount
  | .updateArtifacts _ f => ∀ a, (f a).id = a.id ∧ (f a).downloadCount = a.downloadCount
  | _ => True

/-! ## The operations -/

section operations

open ArtifactService

variable (node : Node)

/-- The row that an upload prepares has no downloads. -/
theorem prepareUpload_downloads (file : MultipartFile) (data : ArtifactInput) :
    (prepareUpload node file data).Returns fun prepared => prepared.1.downloadCount = 0 := by
  refine Prog.returns_bind fun ids => Prog.returns_bind fun _ => Prog.returns_bind ?_
  intro ⟨version, software⟩
  refine Prog.returns_bind fun _ => Prog.returns_bind fun platform => ?_
  refine Prog.returns_bind fun _ => Prog.returns_bind fun architecture => ?_
  refine Prog.returns_bind fun _ => Prog.returns_bind fun storageProvider => ?_
  refine Prog.returns_bind fun _ => Prog.returns_bind fun _ => Prog.returns_bind fun _ => ?_
  cases software with
  | none => trivial
  | some software => exact Prog.returns_bind fun _ => Prog.returns_bind fun _ =>
      Prog.returns_bind fun _ => rfl

theorem uploadArtifact_keepsCounts (fuel : ℕ) (file : MultipartFile) (data : ArtifactInput) :
    Performs True KeepsCounts (uploadArtifact node fuel file data) := by
  refine Prog.only_bind_of_returns (prepareUpload_performs node file data)
    (prepareUpload_downloads node file data) fun ⟨row, tmpPath⟩ hrow => ?_
  refine (Performs.call _).bind fun _ => (Performs.orThrow _).bind fun _ => ?_
  refine (Performs.call _).bind fun now => ?_
  refine (cleanupExpiredReservations_performs trivial _ _ _ fun _ => trivial).bind fun _ => ?_
  exact storeArtifact_performs node trivial _ _ (fun _ => trivial) (fun _ => trivial) fun _ _ => hrow

theorem updateArtifact_keepsCounts (id : Id) (data : ArtifactInput) :
    Performs True KeepsCounts (updateArtifact node id data) := by
  refine (Performs.orThrow _).bind fun ids => (Performs.refuse _ _).bind fun _ => ?_
  refine (Performs.select _).bind fun _ => (Performs.orFail _).bind fun artifact => ?_
  refine (findVersion_performs _).bind fun ⟨version, software⟩ => ?_
  refine (Performs.select _).bind fun _ => (Performs.orFail _).bind fun platform => ?_
  refine (Performs.select _).bind fun _ => (Performs.orFail _).bind fun architecture => ?_
  refine (Performs.refuse _ _).bind fun _ => ?_
  cases software with
  | none => exact .raise _
  | some software =>
    refine (Performs.refuse _ _).bind fun _ => Performs.bind (Performs.exec ?_) fun _ => .pure _
    exact rfl

/-- A submission leaves the count as it was loaded. -/
theorem submits_keepsCounts {w : Reeva.Write} (h : Submits node w) : KeepsCounts w := by
  cases h
  rfl

theorem rebuildAllNames_keepsCounts : Performs True KeepsCounts (rebuildAllNames node) := by
  refine (loadArtifacts_performs _).bind fun artifacts => (Performs.select _).bind fun providers => ?_
  -- The loop saves each artifact with the count that was loaded.
  have loop : ∀ (as : List LoadedArtifact) (count : ℕ),
      Performs True KeepsCounts (rebuildLoop node providers as count) := by
    intro as
    induction as with
    | nil => exact fun _ => .pure _
    | cons a as ih =>
      refine fun count => Performs.bind ?_ fun _ => ih _
      unfold rebuildNames
      split
      · refine Performs.bind (.attempt ?_) fun hashes => .ite ?_ (.pure _)
        · refine (Performs.orThrow _).bind fun provider => (Performs.call _).bind fun _ => ?_
          refine (Performs.orThrow _).bind fun _ => (Performs.call _).bind fun _ => ?_
          exact (Performs.orThrow _).bind fun _ => .pure _
        · refine (Performs.exec ?_).bind fun _ => .pure _
          cases hashes <;> rfl
      · exact .raise _
  exact loop artifacts 0

/-- No operation changes a count. -/
theorem operation_keepsCounts (op : Operation) : Performs True KeepsCounts (op.program node) := by
  cases op with
  | createSoftware fuel name =>
    exact (create_performs node trivial _ _ fun _ _ _ _ => trivial).discard
  | updateName id name => exact (updateName_performs _ _ fun _ _ => trivial).discard
  | toggleActive id => exact (toggleActive_performs trivial _ fun _ => trivial).discard
  | setDefault id => exact (setDefault_performs trivial _ fun _ _ => trivial).discard
  | addSigningKey softwareId publicKey =>
    exact (addSigningKey_performs node _ _ fun _ _ => trivial).discard
  | setRequireSignedUpdates softwareId required =>
    exact (setRequireSignedUpdates_performs node _ _ fun _ _ => trivial).discard
  | revokeSigningKey softwareId keyId =>
    exact (revokeSigningKey_performs _ _ (fun _ => trivial) fun _ _ => ⟨rfl, rfl⟩).discard
  | createVersion data => exact (createVersion_performs node _ fun _ => trivial).discard
  | updateVersion id data =>
    exact (updateVersion_performs node _ _ (fun _ _ _ => trivial) fun _ _ => ⟨rfl, rfl⟩).discard
  | toggleVersion id => exact (toggleVersion_performs _ fun _ _ _ => trivial).discard
  | deleteVersion id => exact (deleteVersion_performs _ fun _ _ => trivial).discard
  | uploadArtifact fuel file data => exact (uploadArtifact_keepsCounts node _ _ _).discard
  | updateArtifact id data => exact (updateArtifact_keepsCounts node _ _).discard
  | setArtifactSignature id keyId signature =>
    exact (setArtifactSignature_performs node (fun _ => submits_keepsCounts node) _ _ _).discard
  | importManagedSignature id =>
    exact (importManagedSignature_performs node (fun _ => submits_keepsCounts node) _).discard
  | publishArtifact id => exact (publishArtifact_performs node _ fun _ _ => rfl).discard
  | deleteArtifact id => exact (deleteArtifact_performs _ fun _ _ => rfl).discard
  | rebuildAllNames => exact (rebuildAllNames_keepsCounts node).discard

end operations

/-! ## Their effect -/

/-- The download count of an artifact; an artifact that is not there has been downloaded never. -/
def downloadCount (t : Tables) (id : Id) : ℕ :=
  ((t.artifacts.find? fun a => a.id = id).map (·.downloadCount)).getD 0

/-- Rows that are changed but for their keys are found under them. -/
theorem find?_map_of_id {f : Artifact → Artifact} (hf : ∀ a, (f a).id = a.id) (as : List Artifact)
    (id : Id) :
    (as.map f).find? (fun a => a.id = id) = (as.find? fun a => a.id = id).map f := by
  rw [List.find?_map]
  congr 2
  funext a
  simp [hf]

/-- The count of every artifact survives changes that keep keys and counts. -/
theorem downloadCount_map {t t' : Tables} {f : Artifact → Artifact}
    (h : t'.artifacts = t.artifacts.map f)
    (hf : ∀ a, (f a).id = a.id ∧ (f a).downloadCount = a.downloadCount) (id : Id) :
    downloadCount t' id = downloadCount t id := by
  rw [downloadCount, h, find?_map_of_id (fun a => (hf a).1), Option.map_map, downloadCount]
  congr 2
  funext a
  exact (hf a).2

/-- A write that keeps the counts does. -/
theorem downloadCount_run {w : Reeva.Write} (hw : KeepsCounts w) (t : Tables) (id : Id) :
    downloadCount (w.run t).2 id = downloadCount t id := by
  have same : ∀ {t' : Tables}, t'.artifacts = t.artifacts →
      downloadCount t' id = downloadCount t id := fun h => by rw [downloadCount, h, downloadCount]
  cases w with
  | insertArtifact r =>
    have hr : r.downloadCount = 0 := hw
    change ((((t.artifacts ++ [r]).find? _).map _).getD 0) = _
    rw [List.find?_append, downloadCount]
    cases t.artifacts.find? fun a => a.id = id with
    | some a => rfl
    | none =>
      by_cases hid : r.id = id <;> simp [hid, hr]
  | saveArtifact l n =>
    have hn : n.downloadCount = l.downloadCount := hw
    refine downloadCount_map (f := fun r => if r.id = l.id then l.saveOnto n r else r) ?_ ?_ id
    · simp [Write.run, updateRows]
    · intro a
      split
      · exact ⟨rfl, by rw [Artifact.saveOnto]; exact hn ▸ dirty_self ..⟩
      · exact ⟨rfl, rfl⟩
  | updateArtifacts p f =>
    refine downloadCount_map (f := fun r => if p t r then f r else r) rfl ?_ id
    intro a
    split
    · exact hw a
    · exact ⟨rfl, rfl⟩
  | _ => exact same rfl

end Reeva.Downloads
