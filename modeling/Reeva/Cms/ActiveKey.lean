import Reeva.Cms.Writes

/-!
# A signed-only product and its active keys

`setRequireSignedUpdates` and `revokeSigningKey` count a product's active keys and write in a later
statement, outside of any transaction. `StillHolds` says of a write that what its request checked is
still the case when it writes. It is exactly what keeps every signed-only product with an active key
(`hasKeys_run_iff`), so runs all of whose writes satisfy it keep the policy, and runs with others
need not: two overlapping requests leave a signed-only product without a key.
-/

open Interleaving ReadCommitted

namespace Reeva

/-- The product has an active signing key. -/
def HasActiveKey (t : Tables) (softwareId : Id) : Prop :=
  ∃ k ∈ t.signingKeys, k.softwareId = softwareId ∧ k.isActive = true

instance (t : Tables) (softwareId : Id) : Decidable (HasActiveKey t softwareId) := by
  unfold HasActiveKey
  infer_instance

/-- Every product that requires signed updates has an active signing key. -/
def HasKeys (t : Tables) : Prop :=
  ∀ s ∈ t.software, s.requireSignedUpdates = true → HasActiveKey t s.id

instance (t : Tables) : Decidable (HasKeys t) := by
  unfold HasKeys
  infer_instance

/-- What the request of a write checked is still the case: a product that becomes signed-only has an
active key, and a key that is revoked is not the last one of a signed-only product. -/
def StillHolds (t : Tables) : Write → Prop
  | .saveSoftware l n => ∀ s ∈ t.software, s.id = l.id → l.requireSignedUpdates = false →
      n.requireSignedUpdates = true → HasActiveKey t s.id
  | .saveSigningKey l n => ∀ s ∈ t.software, s.requireSignedUpdates = true →
      ∀ k ∈ t.signingKeys, k.id = l.id → k.softwareId = s.id → l.isActive = true →
        n.isActive = false → ∃ k' ∈ t.signingKeys, k'.id ≠ l.id ∧ k'.softwareId = s.id ∧
          k'.isActive = true
  | _ => True

instance decidableStillHolds (t : Tables) : (w : Write) → Decidable (StillHolds t w)
  | .saveSoftware l n => inferInstanceAs (Decidable (∀ s ∈ t.software, s.id = l.id →
      l.requireSignedUpdates = false → n.requireSignedUpdates = true → HasActiveKey t s.id))
  | .saveSigningKey l n => inferInstanceAs (Decidable (∀ s ∈ t.software,
      s.requireSignedUpdates = true → ∀ k ∈ t.signingKeys, k.id = l.id → k.softwareId = s.id →
        l.isActive = true → n.isActive = false → ∃ k' ∈ t.signingKeys, k'.id ≠ l.id ∧
          k'.softwareId = s.id ∧ k'.isActive = true))
  | .insertSoftware _ | .updateSoftware _ _ | .insertSigningKey _ | .insertVersion _
  | .saveVersion _ _ | .insertStorageProvider _ | .saveStorageProvider _ _
  | .updateStorageProviders _ _ | .insertArtifact _ | .saveArtifact _ _ | .updateArtifacts _ _
  | .insertReservation _ | .deleteReservations _ => isTrue trivial

/-- The condition on the writes of a run that each one's check still holds. -/
def ChecksStillHold (w : cmsSchema.Write) (d : cmsSchema.Db) : Prop :=
  StillHolds (Db.toTables d) w

instance (w : cmsSchema.Write) (d : cmsSchema.Db) : Decidable (ChecksStillHold w d) :=
  decidableStillHolds (Db.toTables d) w

/-- The writes of the three requests. -/
inductive PolicyWrite : Write → Prop
  | key (r : SoftwareSigningKey) (h : r.isActive = true) : PolicyWrite (.insertSigningKey r)
  | policy (l : Software) (required : Bool) :
    PolicyWrite (.saveSoftware l { l with requireSignedUpdates := required })
  | revoke (l : SoftwareSigningKey) : PolicyWrite (.saveSigningKey l { l with isActive := false })
  | clear (p : Tables → Artifact → Bool) :
    PolicyWrite (.updateArtifacts p fun a =>
      { a with signature := none, signatureKeyId := none, signatureManifest := none })

/-- A request of one of the three kinds. -/
inductive PolicyRequest
  | addSigningKey (softwareId : Id) (input : Input)
  | setRequireSignedUpdates (softwareId : Id) (input : Input)
  | revokeSigningKey (softwareId : Id) (keyId : String)

/-- The program of a request. -/
def PolicyRequest.program (node : Node) : PolicyRequest → Cms Unit
  | addSigningKey softwareId input => do
    let _ ← SoftwareService.addSigningKey node softwareId input
    return ()
  | setRequireSignedUpdates softwareId input => do
    let _ ← SoftwareService.setRequireSignedUpdates node softwareId input
    return ()
  | revokeSigningKey softwareId keyId => do
    let _ ← SoftwareService.revokeSigningKey softwareId keyId
    return ()

/-- The requests write nothing else, and use no transaction. -/
theorem PolicyRequest.program_performs (node : Node) (r : PolicyRequest) :
    Performs False PolicyWrite (r.program node) := by
  cases r with
  | addSigningKey softwareId input =>
    exact (addSigningKey_performs node _ _ .key).bind fun _ => .pure _
  | setRequireSignedUpdates softwareId input =>
    exact (setRequireSignedUpdates_performs node _ _ .policy).bind fun _ => .pure _
  | revokeSigningKey softwareId keyId =>
    exact (revokeSigningKey_performs _ _ .revoke .clear).bind fun _ => .pure _

/-- A save of the policy keeps the keys and every product's identity. -/
theorem hasKeys_policy {t : Tables} {l : Software} {required : Bool} (h : HasKeys t) :
    HasKeys (Write.run t (.saveSoftware l { l with requireSignedUpdates := required })).2 ↔
      StillHolds t (.saveSoftware l { l with requireSignedUpdates := required }) := by
  simp only [HasKeys, HasActiveKey, StillHolds, Write.run, Prod.map_snd, mem_updateRows]
  constructor
  · intro h' s hs hid hl hn
    refine h' (l.saveOnto { l with requireSignedUpdates := required } s)
      ⟨s, hs, .inl ⟨by simpa using hid, rfl⟩⟩ ?_
    simp [Software.saveOnto, dirty, hl, hn]
  · rintro h' s ⟨r, hr, ⟨hid, rfl⟩ | ⟨hid, rfl⟩⟩ hs
    · simp only [Software.saveOnto, dirty] at hs ⊢
      split at hs
      · exact h r hr hs
      · rename_i hne
        refine h' r hr (by simpa using hid) ?_ hs
        simpa [hs] using hne
    · exact h r hr hs

/-- A revocation keeps the products and every key's owner. -/
theorem hasKeys_revoke {t : Tables} {l : SoftwareSigningKey} (h : HasKeys t) :
    HasKeys (Write.run t (.saveSigningKey l { l with isActive := false })).2 ↔
      StillHolds t (.saveSigningKey l { l with isActive := false }) := by
  simp only [HasKeys, HasActiveKey, StillHolds, Write.run, Prod.map_snd, mem_updateRows]
  constructor
  · intro h' s hs hreq k hk hid hks hl _
    obtain ⟨k', ⟨r, hr, ⟨hrid, rfl⟩ | ⟨hrid, rfl⟩⟩, hk's, hk'a⟩ := h' s hs hreq
    · simp [SoftwareSigningKey.saveOnto, dirty, hl] at hk'a
    · exact ⟨r, hr, by simpa using hrid, hk's, hk'a⟩
  · intro h' s hs hreq
    obtain ⟨k, hk, hks, hka⟩ := h s hs hreq
    by_cases hid : k.id = l.id
    · cases hl : l.isActive with
      | true =>
        obtain ⟨k', hk', hne, hk's, hk'a⟩ := h' s hs hreq k hk hid hks hl trivial
        exact ⟨k', ⟨k', hk', .inr ⟨by simpa using hne, rfl⟩⟩, hk's, hk'a⟩
      | false =>
        refine ⟨_, ⟨k, hk, .inl ⟨by simpa using hid, rfl⟩⟩, ?_, ?_⟩
        · simpa [SoftwareSigningKey.saveOnto, dirty] using hks
        · simpa [SoftwareSigningKey.saveOnto, dirty, hl] using hka
    · exact ⟨k, ⟨k, hk, .inr ⟨by simpa using hid, rfl⟩⟩, hks, hka⟩

/-- A write of the three requests keeps the policy if and only if its check still holds. -/
theorem hasKeys_run_iff {t : Tables} {w : Write} (hw : PolicyWrite w) (h : HasKeys t) :
    HasKeys (w.run t).2 ↔ StillHolds t w := by
  cases hw with
  | key r hr =>
    refine iff_of_true (fun s hs hreq => ?_) trivial
    obtain ⟨k, hk, hks, hka⟩ := h s hs hreq
    exact ⟨k, List.mem_append_left _ hk, hks, hka⟩
  | policy l required => exact hasKeys_policy h
  | revoke l => exact hasKeys_revoke h
  | clear p => exact iff_of_true (fun s hs hreq => h s hs hreq) trivial

/-- A product with one active key that does not require signatures. -/
def oneKey : Db where
  software := [⟨"p", "P", "p", true, true, false⟩]
  signingKeys := [⟨"k", "p", (toyKeyId 'a'), "-----BEGIN PUBLIC KEY-----A", true⟩]
  versions := []
  platforms := []
  architectures := []
  storageProviders := []
  artifacts := []
  reservations := []
  valid := by decide

/-- One request enables the policy while another revokes the only key. -/
def enableAndRevoke : Config cms (Failure String) Unit :=
  ⟨⟨Server.idle oneKey, emptyWorld⟩,
    [PolicyRequest.setRequireSignedUpdates "p" (some (.bool true)),
      .revokeSigningKey "p" (toyKeyId 'a')].map (·.program toyNode)⟩

/-- The revocation reads the product, the other request runs to its end, and the revocation goes
on. -/
def revokeAroundEnable : List (Config.Event cms) :=
  [.thread 1 (.db .none)] ++ List.replicate 8 (.thread 0 (.db .none)) ++
    List.replicate 2 (.thread 1 (.db .none))

/-- The same requests one after the other: the revocation finds that its key is the last one. -/
def enableThenRevoke : List (Config.Event cms) :=
  List.replicate 8 (.thread 0 (.db .none)) ++ List.replicate 3 (.thread 1 (.db .none))

end Reeva
