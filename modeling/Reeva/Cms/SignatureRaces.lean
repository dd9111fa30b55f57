import Reeva.Cms.SignedOnly

/-!
# Overlapping signature requests

Requests that sign, edit, rebuild and revoke, interleaved statement by statement. None of them locks
the artifact between its load and its save, so the save of a submission may leave a column alone that
another request has changed in the meantime. In runs where this does not happen (`Undisturbed`) every
triple stays coherent. Where it does, three overlapping requests combine the signature of one with the
manifest of another, and the public query admits the result.
-/

open Interleaving ReadCommitted

namespace Reeva

/-- A request that takes part. -/
inductive SignatureRequest
  | setArtifactSignature (id : Id) (keyId signature : Input)
  | updateArtifact (id : Id) (data : ArtifactInput)
  | updateVersion (id : Id) (data : VersionInput)
  | rebuildAllNames
  | revokeSigningKey (softwareId : Id) (keyId : String)

/-- The program of a request. -/
def SignatureRequest.program (node : Node) : SignatureRequest → Cms Unit
  | setArtifactSignature id keyId signature =>
    Cms.discard (ArtifactService.setArtifactSignature node id keyId signature)
  | updateArtifact id data => Cms.discard (ArtifactService.updateArtifact node id data)
  | updateVersion id data => Cms.discard (VersionService.updateVersion node id data)
  | rebuildAllNames => Cms.discard (ArtifactService.rebuildAllNames node)
  | revokeSigningKey softwareId keyId =>
    Cms.discard (SoftwareService.revokeSigningKey softwareId keyId)

/-- The condition on the writes of a run: when a submission is saved, each of the three columns that
the save omits still holds what it was loaded with, or is null. -/
def Undisturbed (w : cmsSchema.Write) (d : cmsSchema.Db) : Prop :=
  match w with
  | .saveArtifact l n => n.signature ≠ none →
    ∀ a ∈ (Db.toTables d).artifacts, a.id = l.id → TripleUndisturbed l n a
  | _ => True

/-- The terms of the requests: the tables are coherent, and registered keys stay registered. -/
def signatureTerms (node : Node) : Discipline cms :=
  Discipline.autocommit cmsWorld (fun d => Coherent node (Db.toTables d))
    fun d d' => KeysGrow (Db.toTables d) (Db.toTables d')

/-- A write of the requests other than the save of a submission keeps the terms. -/
theorem Harmless.keeps {node : Node} {w : Write} (hw : Harmless w) {d : Db} {n : ℕ} {d' : Db}
    (hc : Coherent node d.toTables) (ha : cmsSchema.apply w d = some (n, d')) :
    Coherent node d'.toTables ∧ KeysGrow d.toTables d'.toTables := by
  simp only [cmsSchema] at ha
  split at ha
  · cases ha
    exact ⟨hw.coherent node hc, hw.keysGrow _⟩
  · cases ha

/-- The terms allow undisturbed submissions. -/
theorem allowsSubmission_signatureTerms (node : Node) (i : ℕ) :
    AllowsSubmission node (Guard.onWrites cmsWorld Undisturbed) (signatureTerms node) i
      fun _ _ => True where
  refl _ := .refl _
  read _ _ _ _ := .refl _
  world _ _ h := h
  keys σ σ' hi hi' hr := by
    simp only [tables, Server.view_of_none (hi.1 i), Server.view_of_none (hi'.1 i)]
    exact hr
  load _ _ _ := trivial
  keep _ _ _ _ _ := trivial
  save σ l n φ r srv hi _ hs hok he := by
    simp only [tables, Server.view_of_none (hi.1 i)] at hs
    refine autocommit_write (D := cmsSchema) (X := cmsWorld) (fun _ => .refl _) ?_ hi he
    intro n' d' ha
    simp only [cmsSchema] at ha
    split at ha
    · cases ha
      obtain ⟨signature, _, _, hsig, -⟩ := hs.vouched
      exact ⟨coherent_saveSigned node hi.2 hs (hok (by simp [hsig])), .refl _⟩
    · cases ha

/-- Every request keeps the terms. -/
theorem SignatureRequest.program_wp (node : Node) (request : SignatureRequest) {i : ℕ}
    {σ : CmsState} (hi : (signatureTerms node).inv σ) :
    wp (Guard.onWrites cmsWorld Undisturbed) (signatureTerms node) i (request.program node)
      (fun _ _ => True) (fun _ _ => True) σ := by
  have discard : ∀ {α : Type} {p : Cms α}, wp (Guard.onWrites cmsWorld Undisturbed)
      (signatureTerms node) i p (fun _ _ => True) (fun _ _ => True) σ →
      wp (Guard.onWrites cmsWorld Undisturbed) (signatureTerms node) i (Cms.discard p)
        (fun _ _ => True) (fun _ _ => True) σ := fun h =>
    wp_bind (fun _ => KeysGrow.refl _) (wp_mono (fun _ _ _ _ _ _ => trivial) (fun _ _ _ => trivial) h) hi
  have harmless : ∀ {α : Type} {p : Cms α}, Performs False Harmless p →
      wp (Guard.onWrites cmsWorld Undisturbed) (signatureTerms node) i p (fun _ _ => True)
        (fun _ _ => True) σ := fun hp =>
    wp_mono (fun _ _ _ => trivial) (fun _ _ _ => trivial) (wp_of_only
      (fun s hs ch σ r σ' hinv hok hrun => autocommit_step (fun _ => .refl _)
        (fun w d n d' hw _ hc ha => Harmless.keeps hw hc ha) hs hinv hok hrun) hp)
  cases request <;> refine discard ?_
  case setArtifactSignature id keyId signature =>
    exact (allowsSubmission_signatureTerms node i).setArtifactSignature _ _ _ hi
  case updateArtifact id data =>
    exact harmless (updateArtifact_performs node _ _ fun l n hs hi hm _ _ =>
      .saveArtifact l n (.inl hs) (.inl hi) (.inl hm))
  case updateVersion id data =>
    exact harmless (updateVersion_performs node _ _ (fun l n _ => .saveVersion l n) .clear)
  case rebuildAllNames =>
    exact harmless (rebuildAllNames_performs node fun l n hs hi hm _ =>
      .saveArtifact l n (.inl hs) (.inl hi) (.inl hm))
  case revokeSigningKey softwareId keyId =>
    exact harmless (revokeSigningKey_performs _ _ .revoke .clear)

/-- In every interleaving of the requests in which every save of a submission finds the columns that
it omits undisturbed, every triple stays coherent, and what is published is signed as it is. -/
theorem signature_triples_coherent (node : Node) (requests : List SignatureRequest) {d : Db}
    (hd : Coherent node d.toTables) {w : CmsWorld} {c : Config cms (Failure String) Unit}
    (hr : Config.Run (Guard.onWrites cmsWorld Undisturbed)
      ⟨⟨Server.idle d, w⟩, requests.map (·.program node)⟩ c) :
    Coherent node c.state.server.db.toTables ∧
      PublicationSafe node c.state.server.db.toTables := by
  have start : (signatureTerms node).inv ⟨Server.idle d, w⟩ := ⟨fun _ => rfl, hd⟩
  have sound : Sound (Guard.onWrites cmsWorld Undisturbed) (signatureTerms node)
      (fun _ _ _ => True) (fun _ _ _ => True)
      ⟨⟨Server.idle d, w⟩, requests.map (·.program node)⟩ := by
    refine ⟨start, fun i p hi => ?_⟩
    obtain ⟨request, -, rfl⟩ := List.mem_map.mp (List.mem_of_getElem? hi)
    exact request.program_wp node start
  have hc := (sound.run (Discipline.autocommit_compatible (fun _ => .refl _)
    fun _ _ _ h₁ h₂ => h₁.trans h₂) hr).1.2
  exact ⟨hc, publicationSafe_of_coherent node c.state.server.db.valid hc⟩

/-! ## Three overlapping requests -/

/-- An edit of the release's version, which gives it a code name. -/
def newCodename : VersionInput where
  softwareId := none
  major := some (.int 1)
  minor := some (.int 0)
  patch := some (.int 0)
  codename := some (.str "x")
  changelogs := none
  changelog := none
  isActive := some (.bool true)
  releaseDate := none

/-- An artifact without its signature. -/
def cleared (a : Artifact) : Artifact :=
  { a with signature := none, signatureKeyId := none, signatureManifest := none }

/-- The save of the edited version. -/
theorem saveVersion_oneRelease (a : Artifact) :
    cmsSchema.apply (.saveVersion (releaseVersion none) (releaseVersion (some "x")))
      (oneRelease none a) = some (1, oneRelease (some "x") a) := by
  have hrun : Write.run (releaseTables none a)
      (.saveVersion (releaseVersion none) (releaseVersion (some "x"))) =
      (1, releaseTables (some "x") a) := rfl
  simp only [cmsSchema, oneRelease, hrun, releaseTables_valid, dif_pos]

/-- The clearing of the version's artifacts. -/
theorem clear_oneRelease {a : Artifact} (ha : a.versionId = "v") :
    cmsSchema.apply (.updateArtifacts (fun _ a => a.versionId = "v") cleared)
      (oneRelease (some "x") a) = some (1, oneRelease (some "x") (cleared a)) := by
  have hrun : Write.run (releaseTables (some "x") a)
      (.updateArtifacts (fun _ a => a.versionId = "v") cleared) =
      (1, releaseTables (some "x") (cleared a)) := by
    simp [Write.run, updateRows, releaseTables, ha]
  simp only [cmsSchema, oneRelease, hrun, releaseTables_valid, dif_pos]

/-- The edit, with nothing in between. -/
theorem updateVersion_steps (i : ℕ) (w : CmsWorld) {a : Artifact} (ha : a.versionId = "v") :
    (VersionService.updateVersion toyNode "v" newCodename).Steps (Guard.always cms) i
      ⟨Server.idle (oneRelease none a), w⟩ (.ret (releaseVersion (some "x")))
      ⟨Server.idle (oneRelease (some "x") (cleared a)), w⟩ := by
  have hq : ∀ {γ : Type} (f : Db → γ) σ, Guard.always cms i (.db (.query f)) (.db .none) σ :=
    fun _ _ => trivial
  have found : (Cms.findVersion "v").Steps (Guard.always cms) i
      ⟨Server.idle (oneRelease none a), w⟩ (.ret ⟨releaseVersion none, some releaseSoftware⟩)
      ⟨Server.idle (oneRelease none a), w⟩ := by
    have hv : (oneRelease none a).toTables.version "v" = some (releaseVersion none) := rfl
    refine steps_select hq ?_
    rw [hv, orFail_bind]
    refine steps_select hq ?_
    exact .refl
  have checked : (VersionService.validateAndCheckDuplicate toyNode
      (VersionService.versionString 1 0 0) 1 0 0 "p" (some "v")).Steps (Guard.always cms) i
      ⟨Server.idle (oneRelease none a), w⟩ (.ret ()) ⟨Server.idle (oneRelease none a), w⟩ := by
    unfold VersionService.validateAndCheckDuplicate
    rw [refuse_bind (by decide)]
    refine steps_select hq ?_
    exact .refl
  have hparts : VersionService.parseVersionParts newCodename = .ok (1, 0, 0) := by decide +kernel
  have hcodename : VersionService.parseCodename newCodename.codename = .ok (some "x") := by
    decide +kernel
  have hchangelog : VersionService.parseChangelog
      (orInput newCodename.changelogs newCodename.changelog) = .ok none := by decide
  have hdate : VersionService.parseReleaseDate toyNode newCodename.releaseDate = .ok none := rfl
  refine found.bind.trans ?_
  rw [Prog.ret_bind]
  simp only [hparts, hcodename, hchangelog, hdate, orThrow_bind]
  refine checked.bind.trans ?_
  exact steps_exec trivial (saveVersion_oneRelease a)
    (steps_exec trivial (clear_oneRelease ha) .refl)

/-- A release is signed, and then three requests overlap: one that signs it with the second key, one
that edits its version, and one that signs the edited release with the first key. -/
def races : Config cms (Failure String) Unit :=
  ⟨⟨Server.idle (oneRelease none unsigned), emptyWorld⟩,
    [SignatureRequest.setArtifactSignature "a" (some (.str (toyKeyId 'a')))
        (some (.str (toySignature 'A' (releaseManifest none)))),
      .setArtifactSignature "a" (some (.str (toyKeyId 'b')))
        (some (.str (toySignature 'B' (releaseManifest none)))),
      .updateVersion "v" newCodename,
      .setArtifactSignature "a" (some (.str (toyKeyId 'a')))
        (some (.str (toySignature 'A' (releaseManifest (some "x")))))].map (·.program toyNode)⟩

/-- Undisturbed, the first request publishes the release with a coherent triple. -/
theorem signature_triples_coherent_example :
    ∃ c, Config.Run (Guard.onWrites cmsWorld Undisturbed) races c ∧
      publicQuery c.state.server.db.toTables (some "p") ≠ [] ∧
      Coherent toyNode c.state.server.db.toTables ∧
      PublicationSafe toyNode c.state.server.db.toTables := by
  have undisturbed : Undisturbed (.saveArtifact unsigned (signedRelease none 'A' 'a' unsigned))
      (oneRelease none unsigned) := fun _ =>
    undisturbed_of_loaded (releaseTables_valid none unsigned) (List.mem_cons_self ..)
  have first := (oneRelease_accepts (Guard.onWrites cmsWorld Undisturbed) 0 emptyWorld
    (fun _ _ => trivial) none unsigned 'A' 'a' rfl ⟨rfl, rfl, rfl⟩ rfl (by decide +kernel) (by decide)
    rfl (by decide +kernel)).trans (steps_exec undisturbed (save_oneRelease rfl) .refl)
  have run := (first.bind (f := fun _ => pure ())).run (c := races) rfl rfl
  have start : Coherent toyNode (oneRelease none unsigned).toTables := by
    intro a ha signature _ _ hs
    obtain rfl := List.mem_singleton.mp ha
    cases hs
  have policy := signaturePolicy_of_snapshot (t := releaseTables none firstSigned)
    (s := releaseSoftware) (v := releaseVersion none) (a := firstSigned) (List.mem_cons_self ..)
    rfl rfl rfl rfl rfl
  have admitted := mem_publicQuery_oneRelease policy ⟨rfl, rfl, rfl, rfl⟩ ⟨rfl, rfl, rfl⟩
  exact ⟨_, run, List.ne_nil_of_mem admitted, signature_triples_coherent toyNode _ start run⟩

/-- Two keys sign differently. -/
theorem toySignature_ne (m m' : OtaReleaseManifest) : toySignature 'B' m ≠ toySignature 'A' m' := by
  intro h
  have hl := congrArg String.toList h
  rw [toySignature, toySignature, String.toList_ofList, String.toList_ofList] at hl
  have hb := List.head_eq_of_cons_eq (Base64Url.encode_injective hl)
  exact absurd hb (by decide)

/-- The edited release, signed again with the first key. -/
def signedAgain : Artifact :=
  (cleared firstSigned).saveOnto (signedRelease (some "x") 'A' 'a' (cleared firstSigned))
    (cleared firstSigned)

/-- The same after the delayed save of the second key's signature, which omits the manifest. -/
def mixedUp : Artifact :=
  firstSigned.saveOnto (signedRelease none 'B' 'b' firstSigned) signedAgain

/-- The second key's signature stands over the edited manifest. -/
theorem mixedUp_triple : mixedUp.signature = some (toySignature 'B' (releaseManifest none)) ∧
    mixedUp.signatureKeyId = some (toyKeyId 'b') ∧
    mixedUp.signatureManifest = some (releaseManifest (some "x")).toJson := by
  have signature : firstSigned.signature = some (toySignature 'A' (releaseManifest none)) := rfl
  have snapshot : firstSigned.signatureManifest = some (releaseManifest none).toJson := rfl
  have again : signedAgain.signatureManifest = some (releaseManifest (some "x")).toJson := rfl
  have keyId : firstSigned.signatureKeyId = some (toyKeyId 'a') := rfl
  refine ⟨?_, ?_, ?_⟩
  · simp only [mixedUp, Artifact.saveOnto, signedRelease, Artifact.submitted, signature, dirty]
    exact if_neg fun h => toySignature_ne _ _ (Option.some.inj h)
  · simp only [mixedUp, Artifact.saveOnto, signedRelease, Artifact.submitted, keyId, dirty]
    exact if_neg (by decide)
  · simp only [mixedUp, Artifact.saveOnto, signedRelease, Artifact.submitted, snapshot, again,
      dirtyJson, if_true]

/-- The second key's signature was made for a manifest of another length. -/
theorem mixedUp_incoherent : ¬Coherent toyNode (releaseTables (some "x") mixedUp) := by
  intro hc
  obtain ⟨hsig, hkey, hman⟩ := mixedUp_triple
  obtain ⟨-, m, -, hm, k, hk, hid, hver⟩ :=
    hc mixedUp (List.mem_singleton.mpr rfl) _ _ _ hsig hkey hman
  obtain rfl := toJson_jsonb_injective hm
  have hpem : getPublicKey toyNode k.publicKey = .ok 'B' := by
    simp only [releaseTables, List.mem_cons, List.not_mem_nil, or_false] at hk
    rcases hk with rfl | rfl
    · exact absurd hid (by decide)
    · rfl
  have hlen : ∀ codename ∈ [none, some "x"],
      ((releaseManifest codename).toJson.print.flatMap String.utf8EncodeChar).length =
        252 - (codename.map fun _ => 1).getD 0 := by decide +kernel
  rw [verify_toySignature 'B' 'B' _ _ hpem (by rw [hlen _ (by simp)]; decide), toySign, toySign,
    Json.stringify, Json.stringify, Js.utf8_ofList, Js.utf8_ofList, hlen _ (by simp),
    hlen _ (by simp)] at hver
  exact absurd hver (by decide)

/-- The four requests can leave the release mixed up. -/
theorem races_run : ∃ c, Config.Run (Guard.always cms) races c ∧
    c.state.server.db = oneRelease (some "x") mixedUp := by
  have hq : ∀ (i : ℕ) {γ : Type} (f : Db → γ) σ,
      Guard.always cms i (.db (.query f)) (.db .none) σ := fun _ _ _ _ => trivial
  have first := (oneRelease_accepts (Guard.always cms) 0 emptyWorld (hq 0) none unsigned 'A' 'a' rfl
    ⟨rfl, rfl, rfl⟩ rfl (by decide +kernel) (by decide) rfl (by decide +kernel)).trans
    (steps_exec trivial (save_oneRelease rfl) .refl)
  have second := oneRelease_accepts (Guard.always cms) 1 emptyWorld (hq 1) none firstSigned 'B' 'b' rfl
    ⟨rfl, rfl, rfl⟩ rfl (by decide +kernel) (by decide) rfl (by decide +kernel)
  have edit := updateVersion_steps 2 emptyWorld (a := firstSigned) rfl
  have third := (oneRelease_accepts (Guard.always cms) 3 emptyWorld (hq 3) (some "x")
    (cleared firstSigned) 'A' 'a' rfl ⟨rfl, rfl, rfl⟩ rfl (by decide +kernel) (by decide) rfl
    (by decide +kernel)).trans (steps_exec trivial (save_oneRelease rfl) .refl)
  have hid : signedAgain.id = firstSigned.id := by
    simp only [signedAgain, cleared, Artifact.saveOnto]
  have delayed : (Cms.exec (.saveArtifact firstSigned (signedRelease none 'B' 'b' firstSigned)) >>=
      fun _ => pure (signedRelease none 'B' 'b' firstSigned) : Cms Artifact).Steps (Guard.always cms) 1
      ⟨Server.idle (oneRelease (some "x") signedAgain), emptyWorld⟩
      (.ret (signedRelease none 'B' 'b' firstSigned))
      ⟨Server.idle (oneRelease (some "x") mixedUp), emptyWorld⟩ :=
    steps_exec trivial (save_oneRelease hid) .refl
  have run₁ := (first.bind (f := fun _ => pure ())).run (c := races) rfl rfl
  have run₂ := run₁.trans ((second.bind (f := fun _ => pure ())).run rfl rfl)
  have run₃ := run₂.trans ((edit.bind (f := fun _ => pure ())).run rfl rfl)
  have run₄ := run₃.trans ((third.bind (f := fun _ => pure ())).run rfl rfl)
  exact ⟨_, run₄.trans ((delayed.bind (f := fun _ => pure ())).run rfl rfl), rfl⟩

/-- An interleaving can publish a release with a signature that was made for other metadata. -/
theorem signature_triples_incoherent :
    ∃ c, Config.Run (Guard.always cms) races c ∧ Coherent toyNode (oneRelease none unsigned).toTables ∧
      publicQuery c.state.server.db.toTables (some "p") ≠ [] ∧
      ¬Coherent toyNode c.state.server.db.toTables := by
  obtain ⟨c, hrun, hdb⟩ := races_run
  obtain ⟨hsig, hkey, hman⟩ := mixedUp_triple
  have start : Coherent toyNode (oneRelease none unsigned).toTables := by
    intro a ha signature _ _ hs
    obtain rfl := List.mem_singleton.mp ha
    cases hs
  have policy := signaturePolicy_of_snapshot (t := releaseTables (some "x") mixedUp)
    (s := releaseSoftware) (v := releaseVersion (some "x")) (a := mixedUp)
    (List.mem_cons_of_mem _ (List.mem_cons_self ..)) rfl rfl hkey (by rw [hsig]; rfl)
    (hman.trans rfl)
  have admitted := mem_publicQuery_oneRelease policy ⟨rfl, rfl, rfl, rfl⟩ ⟨rfl, rfl, rfl⟩
  refine ⟨c, hrun, start, ?_, ?_⟩ <;> rw [hdb]
  · exact List.ne_nil_of_mem admitted
  · exact mixedUp_incoherent

end Reeva
