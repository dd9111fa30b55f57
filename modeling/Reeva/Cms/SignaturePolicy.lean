import Reeva.Cms.AtomicOperations

/-!
# The signature policy of a product

Turning the policy on and revoking a key, in every database that operations reach one after the other.
The gate of `setRequireSignedUpdates` verifies signatures over the current metadata, whereas the public
query compares snapshots; that they agree rests on what the stored columns say of each other
(`Coherent`, `SignaturesInOrder`) and on no signature verifying over two payloads. A revocation leaves
no artifact of the product with the key, and the key stays revoked whatever follows.
-/

open Interleaving ReadCommitted

namespace Reeva

/-! ## The public query of a product -/

/-- What the public query asks of an artifact besides its version, its product and its signature. -/
structure Offered (t : Tables) (a : Artifact) : Prop where
  live : a.deletedAt.isNone = true
  platform : (t.platforms.any fun p => p.id = a.platformId && p.deletedAt.isNone) = true
  architecture : (t.architectures.any fun p => p.id = a.architectureId && p.deletedAt.isNone) = true
  provider : (t.storageProviders.any fun p =>
    p.id = a.storageProviderId && p.deletedAt.isNone && p.isActive) = true
  published : a.isPublished = true
  unarchived : a.isArchived = false

/-- The version and the product of an artifact that the public query returns. -/
structure ReleasedBy (t : Tables) (softwareId : Id) (a : Artifact) (v : Version) (s : Software) :
    Prop where
  version : v ∈ t.versions
  versionId : v.id = a.versionId
  live : v.deletedAt.isNone = true
  versionActive : v.isActive = true
  software : s ∈ t.software
  product : v.softwareId = s.id
  softwareActive : s.isActive = true
  softwareId : s.id = softwareId

/-- The public query of a product, condition by condition. -/
theorem mem_publicQuery {t : Tables} {softwareId : Id} {a : Artifact} :
    a ∈ publicQuery t (some softwareId) ↔ a ∈ t.artifacts ∧ Offered t a ∧
      ∃ v s, ReleasedBy t softwareId a v s ∧ signaturePolicy t s v a = true := by
  unfold publicQuery isPublic
  simp only [List.mem_filter, Bool.and_eq_true, List.any_eq_true, decide_eq_true_eq,
    Option.isNone_some, Bool.false_or, Option.some.injEq, Bool.not_eq_true']
  refine and_congr_right fun _ => ⟨?_, ?_⟩
  · rintro ⟨⟨⟨⟨⟨⟨hlive, v, hv, s, hs, hrel⟩, hp⟩, hq⟩, hsp⟩, hpublished⟩, harchived⟩
    obtain ⟨⟨⟨⟨⟨⟨hvs, hva⟩, hvd⟩, hvactive⟩, hsactive⟩, hpolicy⟩, hid⟩ := hrel
    refine ⟨⟨hlive, ?_, ?_, ?_, hpublished, harchived⟩, v, s,
      ⟨hv, hva, hvd, hvactive, hs, hvs, hsactive, hid.symm⟩, hpolicy⟩
    · simpa only [List.any_eq_true, Bool.and_eq_true, decide_eq_true_eq] using hp
    · simpa only [List.any_eq_true, Bool.and_eq_true, decide_eq_true_eq] using hq
    · simpa only [List.any_eq_true, Bool.and_eq_true, decide_eq_true_eq] using hsp
  · rintro ⟨⟨hlive, hp, hq, hsp, hpublished, harchived⟩, v, s,
      ⟨hv, hva, hvd, hvactive, hs, hvs, hsactive, hid⟩, hpolicy⟩
    simp only [List.any_eq_true, Bool.and_eq_true, decide_eq_true_eq] at hp hq hsp
    exact ⟨⟨⟨⟨⟨⟨hlive, v, hv, s, hs, ⟨⟨⟨⟨⟨hvs, hva⟩, hvd⟩, hvactive⟩, hsactive⟩, hpolicy⟩,
      hid.symm⟩, hp⟩, hq⟩, hsp⟩, hpublished⟩, harchived⟩

/-- Two queries over the same artifacts agree where they agree on each of them. -/
theorem publicQuery_congr {t t' : Tables} {softwareId : Id} (ha : t'.artifacts = t.artifacts)
    (h : ∀ a ∈ t.artifacts, a ∈ publicQuery t' (some softwareId) ↔
      a ∈ publicQuery t (some softwareId)) :
    publicQuery t' (some softwareId) = publicQuery t (some softwareId) := by
  unfold publicQuery at h ⊢
  rw [ha] at h ⊢
  refine List.filter_congr fun a hmem => ?_
  have hiff := h a hmem
  simp only [List.mem_filter, hmem, true_and] at hiff
  exact Bool.eq_iff_iff.mpr hiff

/-! ## Requiring signed updates -/

/-- The terms of an atomic operation: a statement that fails has had no effect. -/
def Timely : Guard cms := fun _ _ ch _ => ∀ φ, ch = .db φ → φ ≠ .late

/-- A loop that returns has passed each element. -/
theorem ok_of_mapM {α : Type} {f : α → Except String Unit} {as : List α} {us : List Unit}
    (h : as.mapM f = .ok us) : ∀ a ∈ as, f a = .ok () := by
  induction as generalizing us with
  | nil => exact fun a ha => by cases ha
  | cons a as ih =>
    rw [List.mapM_cons] at h
    cases hf : f a with
    | error e =>
      rw [hf] at h
      cases h
    | ok u =>
      rw [hf] at h
      cases hrest : as.mapM f with
      | error e =>
        change (as.mapM f >>= fun us => Except.ok (u :: us)) = _ at h
        rw [hrest] at h
        cases h
      | ok us' =>
        intro b hb
        obtain rfl | hb := List.mem_cons.mp hb
        · exact hf
        · exact ih hrest b hb

/-- The active keys of a product by their identifiers. -/
def keysById (t : Tables) (softwareId : Id) : List (String × String) :=
  ((t.activeSigningKeys softwareId).map fun key => (key.keyId, key.publicKey)).reverse

/-- The gate of `setRequireSignedUpdates` was passed. -/
def GatePassed (node : Node) (t : Tables) (s : Software) : Prop :=
  ∀ a ∈ t.artifacts, a.isPublished = true → a.isArchived = false → a.deletedAt.isNone = true →
    (t.hasVersion a fun v => v.softwareId = s.id && v.isActive) = true →
      SoftwareService.verifyPublished node (keysById t s.id) (t.load a) = .ok ()

/-- The tables with another policy for one product. -/
def Tables.withPolicy (t : Tables) (softwareId : Id) (required : Bool) : Tables :=
  { t with software := t.software.map fun s =>
      if s.id = softwareId then { s with requireSignedUpdates := required } else s }

/-- What `setRequireSignedUpdates` ends in: the gate was passed and the policy is set, or nothing has
changed. -/
theorem setRequireSignedUpdates_solo (node : Node) (d : Db) (softwareId : Id) (input : Input) :
    Solo Timely (fun _ => True) d (SoftwareService.setRequireSignedUpdates node softwareId input)
      (fun _ d' => ∃ s, d.toTables.softwareById softwareId = some s ∧
        (isRequired input = true → GatePassed node d.toTables s) ∧
        d'.toTables = d.toTables.withPolicy softwareId (isRequired input))
      (fun _ d' => d' = d) := by
  refine .findSoftware (fun _ => rfl) fun s hs => ?_
  have hid : s.id = softwareId := by simpa using List.find?_some hs
  have hmem : s ∈ d.software := List.mem_of_find?_eq_some hs
  have hsave : (isRequired input = true → GatePassed node d.toTables s) →
      Solo Timely (fun _ => True) d (do
        let changed := { s with requireSignedUpdates := isRequired input }
        let _ ← Cms.exec (.saveSoftware s changed)
        return changed)
        (fun _ d' => ∃ s, d.toTables.softwareById softwareId = some s ∧
          (isRequired input = true → GatePassed node d.toTables s) ∧
          d'.toTables = d.toTables.withPolicy softwareId (isRequired input))
        (fun _ d' => d' = d) := by
    intro hgate
    refine .exec rfl rfl fun n d' happ => ⟨trivial, .pure ⟨s, hs, hgate, ?_⟩, ?_⟩
    · rw [apply_tables happ]
      unfold Tables.withPolicy
      simp only [Write.run, updateRows, Prod.map_apply]
      congr 1
      refine List.map_congr_left fun r hr => ?_
      by_cases hr' : r.id = s.id
      · obtain rfl := List.inj_on_of_nodup_map d.valid.softwareIds hr hmem hr'
        simp only [hid, decide_true, if_true, Software.saveOnto, dirty_loaded]
      · rw [if_neg (by simpa using hr'), if_neg (by rwa [hid] at hr')]
    · rintro ⟨σ, hσ⟩
      exact absurd rfl (hσ .late rfl)
  unfold isRequired at hsave
  dsimp only
  split
  · rename_i hreq
    refine .select (.refuse rfl fun _ => .loadArtifacts (fun _ => rfl) ?_) rfl
    refine .orThrow (fun _ => rfl) fun us hus => hsave fun _ => ?_
    intro a ha hpublished harchived hlive hversion
    refine ok_of_mapM hus _ (List.mem_map.mpr ⟨a, List.mem_filter.mpr ⟨ha, ?_⟩, rfl⟩)
    rw [hpublished, harchived, hlive, hversion]
    rfl
  · rename_i hreq
    exact hsave fun h => absurd h hreq

/-- No signature verifies over two payloads under one key. -/
def SignsOnce (node : Node) : Prop :=
  ∀ key signature data data', node.verify data key signature = true →
    node.verify data' key signature = true → data = data'

/-- A signature that verifies over two manifests is over one. -/
theorem manifest_eq_of_verify {node : Node} (hsigns : SignsOnce node) {m m' : OtaReleaseManifest}
    {signature publicKey : String}
    (h : verifyOtaReleaseSignature node m.payload (.str signature) publicKey = true)
    (h' : verifyOtaReleaseSignature node m'.payload (.str signature) publicKey = true) : m = m' := by
  have hbytes : ∀ m : OtaReleaseManifest, ∀ key, getPublicKey node publicKey = .ok key →
      verifyOtaReleaseSignature node m.payload (.str signature) publicKey = true →
        node.verify (Js.utf8 m.toJson.stringify) key (Base64Url.decodeLenient signature.toList) =
          true := by
    intro m key hkey hm
    unfold verifyOtaReleaseSignature at hm
    dsimp only at hm
    split_ifs at hm
    rw [hkey] at hm
    unfold OtaReleaseManifest.payload at hm
    rwa [String.toList_ofList, Base64Url.decodeLenient_encode] at hm
  cases hkey : getPublicKey node publicKey with
  | error e =>
    unfold verifyOtaReleaseSignature at h
    dsimp only at h
    split_ifs at h
    rw [hkey] at h
    cases h
  | ok key =>
    have hdata := hsigns key _ _ _ (hbytes m key hkey h) (hbytes m' key hkey h')
    have hpayload : m.payload = m'.payload := by
      unfold OtaReleaseManifest.payload
      rw [hdata]
    have hparse := parse_payload m
    rw [hpayload, parse_payload m'] at hparse
    exact toJson_jsonb_injective (by rw [Option.some.inj hparse])

/-- What passes the check of one published artifact. -/
theorem verifyPublished_ok {node : Node} {keys : List (String × String)} {a : LoadedArtifact}
    (h : SoftwareService.verifyPublished node keys a = .ok ()) :
    ∃ signature keyId publicKey m, a.artifact.signature = some signature ∧
      a.artifact.signatureKeyId = some keyId ∧ (keyId, publicKey) ∈ keys ∧
      buildOtaReleaseManifest a = .ok m ∧
      verifyOtaReleaseSignature node m.payload (.str signature) publicKey = true := by
  unfold SoftwareService.verifyPublished at h
  dsimp only at h
  cases hp : createOtaReleasePayload a with
  | error e =>
    rw [hp] at h
    cases h
  | ok payload =>
    obtain ⟨m, hm, rfl⟩ := build_of_payload hp
    rw [hp] at h
    simp only [Bind.bind, Except.bind] at h
    split at h
    · rename_i signature publicKey hsignature hpublicKey
      obtain ⟨keyId, hkeyId, hlookup⟩ := Option.bind_eq_some_iff.mp hpublicKey
      split_ifs at h with hbad
      split_ifs at hlookup
      rw [not_or, not_or] at hbad
      refine ⟨signature, keyId, publicKey, m, hsignature, hkeyId, ?_, hm, by simpa using hbad.2.2⟩
      obtain ⟨before, after, rfl, -⟩ := List.lookup_eq_some_iff.mp hlookup
      simp
    · cases h

/-- An artifact with relations that passed the gate satisfies the policy of its product. -/
theorem policy_of_gate {node : Node} (hsigns : SignsOnce node) {t : Tables} (hvalid : t.Valid)
    (hcoherent : Coherent node t) (horder : SignaturesInOrder t) {a : Artifact} (ha : a ∈ t.artifacts)
    {v : Version} {s : Software} {p q : Target} (hrel : Related t a v s p q)
    (h : SoftwareService.verifyPublished node (keysById t s.id) (t.load a) = .ok ())
    (required : Bool) :
    signaturePolicy t { s with requireSignedUpdates := required } v a = true := by
  obtain ⟨signature, keyId, publicKey, m, hsig, hkeyId, hmem, hbuild, hverify⟩ := verifyPublished_ok h
  replace hsig : a.signature = some signature := hsig
  replace hkeyId : a.signatureKeyId = some keyId := hkeyId
  obtain ⟨key, hkey, hpair⟩ := List.mem_map.mp (List.mem_reverse.mp hmem)
  obtain ⟨hid, rfl⟩ := Prod.mk.inj hpair
  obtain ⟨hkeymem, hactive⟩ := List.mem_filter.mp hkey
  simp only [Bool.and_eq_true, decide_eq_true_eq] at hactive
  obtain ⟨snapshot, hsnapshot⟩ :=
    Option.isSome_iff_exists.mp ((horder a ha).whole (by rw [hsig]; rfl)).2
  obtain ⟨-, m', -, hjsonb, key', hkey', hid', hverify'⟩ :=
    hcoherent a ha _ _ _ hsig hkeyId hsnapshot
  obtain rfl := hvalid.key_unique hkeymem hkey' (hid.trans hid'.symm)
  obtain rfl := manifest_eq_of_verify hsigns hverify hverify'
  have hsame := ((build_iff_sameMembers hvalid hrel).mp hbuild).2
  unfold signaturePolicy
  rw [Bool.or_eq_true, List.any_eq_true]
  refine .inr ⟨key, hkeymem, ?_⟩
  have hslug : signedManifest t { s with requireSignedUpdates := required } v a =
      signedManifest t s v a := rfl
  have hmanifest := hslug.trans (signedManifest_eq hsame)
  rw [hmanifest, hsig, hkeyId, hsnapshot, hid]
  simp [hactive.1, hactive.2, hjsonb]

/-- A stricter policy admits no more. -/
theorem policy_of_required {t : Tables} {s : Software} {v : Version} {a : Artifact}
    (h : signaturePolicy t { s with requireSignedUpdates := true } v a = true) :
    signaturePolicy t s v a = true := by
  unfold signaturePolicy at h ⊢
  rw [Bool.or_eq_true] at h ⊢
  exact .inr (h.resolve_left (by simp))

/-- Turning the policy on withdraws no release and adds none. -/
theorem publicQuery_withPolicy {node : Node} (hsigns : SignsOnce node) {d : Db}
    (hcoherent : Coherent node d.toTables) (horder : SignaturesInOrder d.toTables) {s : Software}
    (hs : d.toTables.softwareById s.id = some s) (hgate : GatePassed node d.toTables s) :
    publicQuery (d.toTables.withPolicy s.id true) (some s.id) =
      publicQuery d.toTables (some s.id) := by
  have hmem : s ∈ d.software := List.mem_of_find?_eq_some hs
  refine publicQuery_congr rfl fun a ha => ?_
  rw [mem_publicQuery, mem_publicQuery]
  refine and_congr_right fun _ => ⟨?_, ?_⟩
  · rintro ⟨hoffered, v, s', hrel, hpolicy⟩
    obtain ⟨r, hr, hset⟩ := List.mem_map.mp hrel.software
    -- The product with the policy on is the row that was changed.
    have hrid : r.id = s.id := by
      have hsid := hrel.softwareId
      rw [← hset] at hsid
      split_ifs at hsid
      · exact hsid
      · exact hsid
    obtain rfl := List.inj_on_of_nodup_map d.valid.softwareIds hr hmem hrid
    rw [if_pos rfl] at hset
    subst hset
    exact ⟨⟨hoffered.live, hoffered.platform, hoffered.architecture, hoffered.provider,
      hoffered.published, hoffered.unarchived⟩, v, r, ⟨hrel.version, hrel.versionId, hrel.live,
      hrel.versionActive, hr, hrel.product, hrel.softwareActive, rfl⟩, policy_of_required hpolicy⟩
  · rintro ⟨hoffered, v, s', hrel, hpolicy⟩
    obtain rfl := List.inj_on_of_nodup_map d.valid.softwareIds hrel.software hmem hrel.softwareId
    -- A public artifact is one that the gate looked at.
    have hpublic : a ∈ publicQuery d.toTables (some s'.id) :=
      mem_publicQuery.mpr ⟨ha, hoffered, v, s', hrel, hpolicy⟩
    obtain ⟨-, v', s'', p, q, hadmitted⟩ := admitted_of_public d.valid hpublic
    have hv' := List.find?_some hadmitted.version
    simp only [Bool.and_eq_true, decide_eq_true_eq] at hv'
    obtain rfl := List.inj_on_of_nodup_map d.valid.versionIds hrel.version
      (List.mem_of_find?_eq_some hadmitted.version) (hrel.versionId.trans hv'.1.symm)
    have hs'' : s'' = s' := by
      have hfound := hadmitted.software
      rw [hrel.product, hs] at hfound
      exact (Option.some.inj hfound).symm
    subst hs''
    have hversion : (d.toTables.hasVersion a fun v => v.softwareId = s''.id && v.isActive) = true :=
      List.any_eq_true.mpr ⟨v, hrel.version, by simp [hrel.versionId, hrel.product,
        hrel.versionActive]⟩
    -- So its signature has been verified, and it passes the policy.
    have hverified := hgate a ha hoffered.published hoffered.unarchived hoffered.live hversion
    refine ⟨⟨hoffered.live, hoffered.platform, hoffered.architecture, hoffered.provider,
      hoffered.published, hoffered.unarchived⟩, v, { s'' with requireSignedUpdates := true },
      ⟨hrel.version, hrel.versionId, hrel.live, hrel.versionActive, ?_, hrel.product,
        hrel.softwareActive, rfl⟩, ?_⟩
    · exact List.mem_map.mpr ⟨s'', hmem, if_pos rfl⟩
    · exact policy_of_gate hsigns d.valid hcoherent horder ha hadmitted.toRelated hverified true

/-- A choice of a statement that succeeds. -/
def isPrompt : cms.Choice → Bool
  | .db .none => true
  | _ => false

/-- What succeeds is timely. -/
theorem timely_of_isPrompt (i : ℕ) (s : Action cmsSchema cmsCalls) (ch : cms.Choice) (σ : CmsState)
    (h : isPrompt ch = true) : Timely i s ch σ := by
  rintro φ rfl rfl
  cases h

/-- Node before anything was signed. -/
def quietNode : Node := { toyNode with verify := fun _ _ _ => false }

/-- A product without the policy, with one artifact that is not published. -/
def draftRelease : Db where
  toTables := (releaseTables none { unsigned with isPublished := false }).withPolicy "p" false
  valid := by
    have hkeys : toyKeyId 'a' ≠ toyKeyId 'b' := by decide
    constructor <;> simp [Tables.withPolicy, releaseTables, releaseSoftware, hkeys]

/-- What a revocation makes of a signing key. -/
def SoftwareSigningKey.revokedBy (key k : SoftwareSigningKey) : SoftwareSigningKey :=
  if k.id = key.id then { k with isActive := false } else k

/-- What a revocation makes of an artifact. -/
def Artifact.withoutKey (t : Tables) (softwareId : Id) (keyId : String) (a : Artifact) : Artifact :=
  if (a.signatureKeyId = some keyId && t.hasVersion a fun v => v.softwareId = softwareId) then
    { a with signature := none, signatureKeyId := none, signatureManifest := none }
  else a

/-- The tables after a revocation. -/
def Tables.withoutKey (t : Tables) (softwareId : Id) (key : SoftwareSigningKey) : Tables :=
  { t with
    signingKeys := t.signingKeys.map key.revokedBy
    artifacts := t.artifacts.map (Artifact.withoutKey t softwareId key.keyId) }

/-- Some artifact that is published uses the key. -/
def UsedByPublished (t : Tables) (softwareId : Id) (keyId : String) : Prop :=
  ∃ a ∈ t.artifacts, a.signatureKeyId = some keyId ∧ a.isPublished = true ∧ a.isArchived = false ∧
    a.deletedAt.isNone = true ∧
    (t.hasVersion a fun v => v.softwareId = softwareId && v.isActive) = true

/-- What `revokeSigningKey` ends in; a check that throws has changed nothing. -/
theorem revokeSigningKey_solo (d : Db) (softwareId : Id) (keyId : String) :
    Solo (Guard.always cms) (fun _ => True) d (SoftwareService.revokeSigningKey softwareId keyId)
      (fun _ d' => ∃ s key, d.toTables.softwareById softwareId = some s ∧
        d.toTables.activeSigningKey softwareId keyId = some key ∧
        (s.requireSignedUpdates = true → ¬UsedByPublished d.toTables softwareId keyId) ∧
        d'.toTables = d.toTables.withoutKey softwareId key)
      (fun e d' => ∀ m, e = .raised m → d' = d) := by
  refine .findSoftware (fun _ _ _ => rfl) fun s hs => ?_
  obtain rfl : s.id = softwareId := by simpa using List.find?_some hs
  refine .refuse (fun _ _ => rfl) fun _ => .select ?_ (fun _ _ => rfl)
  split
  · exact .raise fun _ _ => rfl
  · rename_i key hkey
    have hfound := List.find?_some hkey
    simp only [Bool.and_eq_true, decide_eq_true_eq] at hfound
    have hmem : key ∈ d.signingKeys := List.mem_of_find?_eq_some hkey
    -- The two writes, once the check for published artifacts has passed or was not made.
    have hwrites : (s.requireSignedUpdates = true → ¬UsedByPublished d.toTables s.id keyId) →
        Solo (Guard.always cms) (fun _ => True) d (do
          let revoked := { key with isActive := false }
          let _ ← Cms.exec (.saveSigningKey key revoked)
          let _ ← Cms.exec (.updateArtifacts
            (fun t a => a.signatureKeyId = some keyId &&
              t.hasVersion a fun v => v.softwareId = s.id)
            fun a => { a with signature := none, signatureKeyId := none, signatureManifest := none })
          return revoked)
          (fun _ d' => ∃ s' key, d.toTables.softwareById s.id = some s' ∧
            d.toTables.activeSigningKey s.id keyId = some key ∧
            (s'.requireSignedUpdates = true → ¬UsedByPublished d.toTables s.id keyId) ∧
            d'.toTables = d.toTables.withoutKey s.id key)
          (fun e d' => ∀ m, e = .raised m → d' = d) := by
      intro hunused
      refine .exec (fun _ h => by cases h) (fun _ h => by cases h) fun n d₁ happ₁ => ⟨trivial, ?_,
        fun _ _ h => by cases h⟩
      refine .exec (fun _ h => by cases h) (fun _ h => by cases h) fun n d₂ happ₂ => ⟨trivial,
        .pure ⟨s, key, hs, hkey, hunused, ?_⟩, fun _ _ h => by cases h⟩
      rw [apply_tables happ₂, apply_tables happ₁]
      unfold Tables.withoutKey
      simp only [Write.run, updateRows, Prod.map_apply, id_eq]
      congr 1
      · -- The save of the model changes one row and one column.
        refine List.map_congr_left fun k hk => ?_
        unfold SoftwareSigningKey.revokedBy
        by_cases hid : k.id = key.id
        · obtain rfl := List.inj_on_of_nodup_map d.valid.signingKeyIds hk hmem hid
          rw [if_pos (by simp), if_pos rfl]
          simp only [SoftwareSigningKey.saveOnto, dirty_loaded]
        · rw [if_neg (by simpa using hid), if_neg hid]
      · rw [hfound.1.2]
        rfl
    dsimp only
    split
    · refine .select (.refuse (fun _ _ => rfl) fun _ => .select (.refuse (fun _ _ => rfl)
        fun hused => hwrites fun _ => ?_) fun _ _ => rfl) fun _ _ => rfl
      rintro ⟨a, ha, hakey, hpublished, harchived, hlive, hversion⟩
      refine hused (List.any_eq_true.mpr ⟨a, ha, ?_⟩)
      rw [hpublished, harchived, hlive, hversion]
      simp [hakey]
    · rename_i hreq
      exact hwrites fun h => absurd h hreq

section withoutKey

variable {t : Tables} {softwareId : Id} {key : SoftwareSigningKey} {a : Artifact}

/-- A revocation changes nothing but the three columns of an artifact. -/
theorem withoutKey_columns (t : Tables) (softwareId : Id) (keyId : String) (a : Artifact) :
    Artifact.withoutKey t softwareId keyId a = a ∨
      Artifact.withoutKey t softwareId keyId a =
        { a with signature := none, signatureKeyId := none, signatureManifest := none } := by
  unfold Artifact.withoutKey
  split_ifs
  · exact .inr rfl
  · exact .inl rfl

/-- An artifact with another key is as it was. -/
theorem withoutKey_of_ne {keyId : String} (h : a.signatureKeyId ≠ some keyId) :
    Artifact.withoutKey t softwareId keyId a = a := by
  unfold Artifact.withoutKey
  rw [if_neg]
  simp [h]

/-- The other tables ask the same of an artifact after a revocation. -/
theorem offered_withoutKey :
    Offered (t.withoutKey softwareId key) (Artifact.withoutKey t softwareId key.keyId a) ↔
      Offered t a := by
  obtain h | h := withoutKey_columns t softwareId key.keyId a
  · rw [h]
    exact ⟨fun o => ⟨o.1, o.2, o.3, o.4, o.5, o.6⟩, fun o => ⟨o.1, o.2, o.3, o.4, o.5, o.6⟩⟩
  · rw [h]
    exact ⟨fun o => ⟨o.1, o.2, o.3, o.4, o.5, o.6⟩, fun o => ⟨o.1, o.2, o.3, o.4, o.5, o.6⟩⟩

/-- An artifact has the same version and product after a revocation. -/
theorem releasedBy_withoutKey {productId : Id} {v : Version} {s : Software} :
    ReleasedBy (t.withoutKey softwareId key) productId
        (Artifact.withoutKey t softwareId key.keyId a) v s ↔ ReleasedBy t productId a v s := by
  obtain h | h := withoutKey_columns t softwareId key.keyId a
  · rw [h]
    exact ⟨fun o => ⟨o.1, o.2, o.3, o.4, o.5, o.6, o.7, o.8⟩,
      fun o => ⟨o.1, o.2, o.3, o.4, o.5, o.6, o.7, o.8⟩⟩
  · rw [h]
    exact ⟨fun o => ⟨o.1, o.2, o.3, o.4, o.5, o.6, o.7, o.8⟩,
      fun o => ⟨o.1, o.2, o.3, o.4, o.5, o.6, o.7, o.8⟩⟩

/-- The policy says the same of an artifact with another key. -/
theorem policy_withoutKey (hvalid : t.Valid) (hkey : key ∈ t.signingKeys) {v : Version} {s : Software}
    (h : s.requireSignedUpdates = true → a.signatureKeyId ≠ some key.keyId) :
    signaturePolicy (t.withoutKey softwareId key) s v
      (Artifact.withoutKey t softwareId key.keyId a) = signaturePolicy t s v a := by
  cases hreq : s.requireSignedUpdates with
  | false => simp [signaturePolicy, hreq]
  | true =>
    have hne := h hreq
    rw [withoutKey_of_ne hne]
    unfold signaturePolicy
    congr 1
    have hmanifest : signedManifest (t.withoutKey softwareId key) s v a = signedManifest t s v a := rfl
    rw [hmanifest]
    -- A key that an artifact with another one counts on is not the revoked one.
    have hkept : ∀ k ∈ t.signingKeys, some k.keyId = a.signatureKeyId → key.revokedBy k = k := by
      intro k hk hid
      refine if_neg fun heq => hne ?_
      rw [← hid, List.inj_on_of_nodup_map hvalid.signingKeyIds hk hkey heq]
    have hkeyId : ∀ k, (key.revokedBy k).keyId = k.keyId := by
      intro k
      unfold SoftwareSigningKey.revokedBy
      split_ifs <;> rfl
    change ((t.signingKeys.map key.revokedBy).any _) = _
    rw [List.any_map, Bool.eq_iff_iff, List.any_eq_true, List.any_eq_true]
    refine exists_congr fun k => and_congr_right fun hk => ?_
    by_cases hid : some k.keyId = a.signatureKeyId
    · rw [Function.comp_apply, hkept k hk hid]
    · simp [hid, hkeyId]

/-- A revocation withdraws no release and adds none. -/
theorem publicQuery_withoutKey (hvalid : t.Valid) (hkey : key ∈ t.signingKeys) {s : Software}
    (hs : t.softwareById softwareId = some s)
    (hunused : s.requireSignedUpdates = true → ¬UsedByPublished t softwareId key.keyId) :
    (publicQuery (t.withoutKey softwareId key) (some softwareId)).map (·.id) =
      (publicQuery t (some softwareId)).map (·.id) := by
  have hid : ∀ b, (Artifact.withoutKey t softwareId key.keyId b).id = b.id := by
    intro b
    obtain h | h := withoutKey_columns t softwareId key.keyId b
    · rw [h]
    · rw [h]
  -- An artifact is public with its signature cleared where it was before.
  have hpublic : ∀ b ∈ t.artifacts,
      isPublic (t.withoutKey softwareId key) (some softwareId)
        (Artifact.withoutKey t softwareId key.keyId b) = isPublic t (some softwareId) b := by
    intro b hb
    have hmem : Artifact.withoutKey t softwareId key.keyId b ∈
        (t.withoutKey softwareId key).artifacts := List.mem_map_of_mem hb
    have hiff : Artifact.withoutKey t softwareId key.keyId b ∈
          publicQuery (t.withoutKey softwareId key) (some softwareId) ↔
        b ∈ publicQuery t (some softwareId) := by
      rw [mem_publicQuery, mem_publicQuery, offered_withoutKey, and_iff_right hmem,
        and_iff_right hb]
      refine and_congr_right fun hoffered => exists_congr fun v => exists_congr fun s' => ?_
      rw [releasedBy_withoutKey]
      refine and_congr_right fun hrel => ?_
      rw [policy_withoutKey hvalid hkey]
      -- Under the policy the key's artifacts are not published, or the revocation would have been
      -- refused.
      intro hreq hused
      have hid' : s.id = softwareId := by simpa using List.find?_some hs
      obtain rfl := List.inj_on_of_nodup_map hvalid.softwareIds hrel.software
        (List.mem_of_find?_eq_some hs) (hrel.softwareId.trans hid'.symm)
      refine hunused hreq ⟨b, hb, hused, hoffered.published, hoffered.unarchived, hoffered.live, ?_⟩
      refine List.any_eq_true.mpr ⟨v, hrel.version, ?_⟩
      simp [hrel.versionId, hrel.product, hrel.softwareId, hrel.versionActive]
    simp only [publicQuery, List.mem_filter, hmem, hb, true_and] at hiff
    exact Bool.eq_iff_iff.mpr hiff
  unfold publicQuery
  have hartifacts : (t.withoutKey softwareId key).artifacts =
      t.artifacts.map (Artifact.withoutKey t softwareId key.keyId) := rfl
  rw [hartifacts, List.filter_map, List.map_map]
  have hfilter : t.artifacts.filter
      (isPublic (t.withoutKey softwareId key) (some softwareId) ∘
        Artifact.withoutKey t softwareId key.keyId) =
      t.artifacts.filter (isPublic t (some softwareId)) := List.filter_congr hpublic
  rw [hfilter]
  exact List.map_congr_left fun b _ => hid b

end withoutKey

/-! ## What is revoked stays so -/

/-- The key is registered, is not active, and no artifact has it. -/
structure Retired (keyId : String) (t : Tables) : Prop where
  key : ∃ k ∈ t.signingKeys, k.keyId = keyId ∧ k.isActive = false
  artifacts : ∀ a ∈ t.artifacts, a.signatureKeyId ≠ some keyId

/-- A careful write leaves a retired key retired. -/
theorem Careful.retired {node : Node} {keyId : String} {d : Db} {w : Write}
    (h : Careful node d.toTables w) (hd : Retired keyId d.toTables) :
    Retired keyId (w.run d.toTables).2 := by
  obtain ⟨⟨k, hk, hid, hactive⟩, hartifacts⟩ := hd
  refine ⟨?_, fun a' ha' => ?_⟩
  · have hsame : ∀ t' : Tables, t'.signingKeys = d.signingKeys →
        ∃ k ∈ t'.signingKeys, k.keyId = keyId ∧ k.isActive = false := by
      intro t' ht
      exact ⟨k, by rwa [ht], hid, hactive⟩
    cases h with
    | orderly h =>
      cases h with
      | insertSigningKey r => exact ⟨k, List.mem_append_left _ hk, hid, hactive⟩
      | revoke l =>
        by_cases hl : k.id = l.id
        · refine ⟨l.saveOnto { l with isActive := false } k,
            mem_updateRows.mpr ⟨k, hk, .inl ⟨by simpa using hl, rfl⟩⟩, ?_, ?_⟩
          · exact (dirty_self _ _).trans hid
          · simp only [SoftwareSigningKey.saveOnto, dirty]
            split_ifs
            · exact hactive
            · rfl
        · exact ⟨k, mem_updateRows.mpr ⟨k, hk, .inr ⟨by simpa using hl, rfl⟩⟩, hid, hactive⟩
      | _ => exact hsame _ rfl
    | unsigned hl hs hi hm => exact hsame _ rfl
    | submission signature m hl hv hvid hkmem hkactive hproduct => exact hsame _ rfl
  · cases h.signatureFrom ha' with
    | none hs hi =>
      rw [hi]
      simp
    | kept ha hv hs hi hm =>
      rw [hi]
      exact hartifacts _ ha
    | @submitted v k' hv hvid hk' hactive' hproduct hi hm =>
      rw [hi]
      intro heq
      obtain rfl := d.valid.key_unique hk' hk ((Option.some.inj heq).trans hid.symm)
      exact absurd (hactive'.symm.trans hactive) (by simp)

/-- Whatever follows, a retired key stays retired. -/
theorem Reaches.retired {node : Node} {keyId : String} {d d' : Db} (h : Reaches node d d')
    (hd : Retired keyId d.toTables) : Retired keyId d'.toTables := by
  refine h.keeps (I := fun d => Retired keyId d.toTables) ?_ ?_ hd
  · intro d d' w n hd hw happ
    rw [apply_tables happ]
    exact hw.retired hd
  · intro d d' _ hk _ ha hd
    exact ⟨by rw [hk]; exact hd.key, by rw [ha]; exact hd.artifacts⟩

/-- `addSigningKey` refuses a retired key. -/
theorem addSigningKey_solo {node : Node} {d : Db} (softwareId : Id) {input : Input}
    {key : String × String} (hkey : validateOtaPublicKey node (trimmedText input) = .ok key)
    (hd : Retired key.2 d.toTables) :
    Solo (Guard.always cms) (fun _ => True) d (SoftwareService.addSigningKey node softwareId input)
      (fun _ _ => False) (fun _ d' => d' = d) := by
  refine .findSoftware (fun _ => rfl) fun s _ => .orThrow (fun _ => rfl) fun key' hkey' => ?_
  obtain rfl : key = key' := Except.ok.inj (hkey.symm.trans hkey')
  refine .select ?_ rfl
  obtain ⟨k, hk, hid, hactive⟩ := hd.key
  split
  · rename_i existing hexisting
    have heid : existing.keyId = key.2 := by simpa using List.find?_some hexisting
    obtain rfl := d.valid.key_unique (List.mem_of_find?_eq_some hexisting) hk (heid.trans hid.symm)
    refine .refuse rfl fun _ => .refuse rfl fun hnot => ?_
    exact absurd hactive hnot
  · rename_i hnone
    exact absurd (by simpa using hid) (List.find?_eq_none.mp hnone k hk)

end Reeva
