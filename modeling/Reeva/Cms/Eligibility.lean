import Reeva.Interleaving.Publications
import Reeva.Cms.SignedOnly

/-!
# Two readings of eligibility

The database decides whether an artifact is eligible by comparing its snapshot with the manifest that
it builds from the current rows; JavaScript decides whether there is an envelope by comparing the
snapshot member by member with the manifest that it builds from the loaded relations. They decide the
same, wherever the snapshot is one that a signature submission wrote, however many requests have
changed the metadata since.
-/

open Interleaving ReadCommitted

namespace Reeva

variable (node : Node)

/-! ## What submissions leave in an artifact -/

/-- Each of the three columns is null or was written by a signature submission, not necessarily the
same one. -/
structure FromSubmissions (a : Artifact) : Prop where
  signature : ∀ s ∈ a.signature, ∃ payload publicKey,
    verifyOtaReleaseSignature node payload (.str s) publicKey = true
  keyId : ∀ k ∈ a.signatureKeyId, Js.isSha256Hex k = true
  snapshot : ∀ j ∈ a.signatureManifest, ∃ m : OtaReleaseManifest,
    m.Signable ∧ j.jsonb = m.toJson.jsonb

/-- An artifact whose columns are null or those of another one. -/
theorem FromSubmissions.of_triple {node : Node} {a a' : Artifact} (h : FromSubmissions node a)
    (ht : TripleFrom a a') : FromSubmissions node a' := by
  obtain ⟨hs, hk, hm⟩ := ht
  refine ⟨fun s hmem => ?_, fun k hmem => ?_, fun j hmem => ?_⟩
  · rcases hs with hs | hs <;> rw [hs] at hmem
    · cases hmem
    · exact h.signature s hmem
  · rcases hk with hk | hk <;> rw [hk] at hmem
    · cases hmem
    · exact h.keyId k hmem
  · rcases hm with hm | hm <;> rw [hm] at hmem
    · cases hmem
    · exact h.snapshot j hmem

/-- The save of a submission. -/
inductive Submits : Write → Prop
  | intro (l : Artifact) (signature keyId payload publicKey : String) (m : OtaReleaseManifest)
    (hs : verifyOtaReleaseSignature node payload (.str signature) publicKey = true)
    (hk : Js.isSha256Hex keyId = true) (hm : m.Signable) :
    Submits (.saveArtifact l (l.submitted signature keyId m))

/-- The three columns after the save of a submission: each is the submitted one or the stored one. -/
theorem FromSubmissions.saveOnto {node : Node} {a l : Artifact} (h : FromSubmissions node a)
    {signature keyId payload publicKey : String} {m : OtaReleaseManifest}
    (hs : verifyOtaReleaseSignature node payload (.str signature) publicKey = true)
    (hk : Js.isSha256Hex keyId = true) (hm : m.Signable) :
    FromSubmissions node (l.saveOnto (l.submitted signature keyId m) a) := by
  refine ⟨fun s hmem => ?_, fun k hmem => ?_, fun j hmem => ?_⟩
  · simp only [Artifact.saveOnto, dirty] at hmem
    split at hmem
    · exact h.signature s hmem
    · obtain rfl := Option.some.inj hmem
      exact ⟨payload, publicKey, hs⟩
  · simp only [Artifact.saveOnto, dirty] at hmem
    split at hmem
    · exact h.keyId k hmem
    · obtain rfl := Option.some.inj hmem
      exact hk
  · simp only [Artifact.saveOnto, dirtyJson] at hmem
    split at hmem
    · exact h.snapshot j hmem
    · obtain rfl := Option.some.inj hmem
      exact ⟨m, hm, rfl⟩

/-- Every write of an operation keeps what submissions leave. -/
theorem fromSubmissions_applyOne (w : Write) (d : Db) (hw : Harmless w ∨ Submits node w)
    (hd : ∀ a ∈ d.artifacts, FromSubmissions node a) :
    ∀ a ∈ (Db.toTables (Server.applyOne (D := cmsSchema) d w)).artifacts,
      FromSubmissions node a := by
  rcases applyOne_tables d w with ht | ht <;> rw [ht]
  · exact hd
  · intro a' ha'
    rcases hw with hw | ⟨l, signature, keyId, payload, publicKey, m, hs, hk, hm⟩
    · rcases hw.triples d.toTables a' ha' with ⟨hs, hi, hm⟩ | ⟨a, ha, htriple⟩
      · exact ⟨by simp [hs], by simp [hi], by simp [hm]⟩
      · exact (hd a ha).of_triple htriple
    · obtain ⟨a, ha, ⟨-, rfl⟩ | ⟨-, rfl⟩⟩ := mem_updateRows.mp ha'
      · exact (hd a ha).saveOnto hs hk hm
      · exact hd a ha

/-- A submission saves what it has verified. -/
theorem setArtifactSignature_performs {T : Prop} {W : Write → Prop}
    (h : ∀ w, Submits node w → W w) (id : Id) (keyId signature : Input) :
    Performs T W (ArtifactService.setArtifactSignature node id keyId signature) := by
  refine (loadArtifact_performs _).bind fun a => Performs.refuse_bind fun hhex => ?_
  split
  · exact .raise _
  · refine (Performs.select _).bind fun signingKey => ?_
    split
    · exact .raise _
    · refine Performs.orThrow_bind fun payload hp => Performs.refuse_bind fun hv => ?_
      split
      · exact .raise _
      · rename_i manifest hparse
        obtain ⟨m, hm, rfl⟩ := build_of_payload hp
        obtain rfl := Option.some.inj ((parse_payload m).symm.trans hparse)
        exact (Performs.exec (h _ (.intro a.artifact _ _ _ _ m (by simpa using hv)
          (by simpa using hhex) (signable_of_build hm)))).bind fun _ => .pure _

/-- So does an import, whatever the signer answers. -/
theorem importManagedSignature_performs {T : Prop} {W : Write → Prop}
    (h : ∀ w, Submits node w → W w) (id : Id) :
    Performs T W (ArtifactService.importManagedSignature node id) := by
  have getKey : ∀ product, Performs T W (ManagedSignerService.getKey node product) := fun product =>
    (Performs.call _).bind fun _ => (Performs.orThrow _).bind fun _ => .orThrow _
  have getRequest : ∀ key payload, Performs T W (ManagedSignerService.getRequest node key payload) :=
    fun key payload => (Performs.call _).bind fun _ => (Performs.orThrow _).bind fun _ => .orThrow _
  refine (loadArtifact_performs _).bind fun a => ?_
  split
  · refine (getKey _).bind fun key => (Performs.orThrow _).bind fun payload => ?_
    refine (getRequest key payload).bind fun request => ?_
    cases request with
    | none => exact .raise _
    | some request =>
      exact (Performs.refuse _ _).bind fun _ => setArtifactSignature_performs node h _ _ _
  · exact .raise _

/-- What each operation writes. -/
theorem Operation.performs (op : Operation) :
    Performs True (fun w => Harmless w ∨ Submits node w) (op.program node) := by
  cases h : op.submits with
  | false => exact Performs.mono (op.harmless node h) fun _ => .inl
  | true =>
    cases op with
    | setArtifactSignature id keyId signature =>
      exact (setArtifactSignature_performs node (fun _ => .inr) _ _ _).discard
    | importManagedSignature id => exact (importManagedSignature_performs node (fun _ => .inr) _).discard
    | _ => cases h

/-! ## The two readings -/

/-- A snapshot that a submission wrote has the `jsonb` form of the current manifest exactly where each
of its members is the current one. -/
theorem jsonb_eq_iff {j : Json} {m m' : OtaReleaseManifest} (h : j.jsonb = m'.toJson.jsonb) :
    j.jsonb = m.toJson.jsonb ↔ ∀ entry ∈ m.entries, j.get? entry.1 = some entry.2 := by
  constructor
  · exact fun hm entry he => get?_snapshot hm he
  · intro hall
    obtain rfl : m = m' := manifest_ext fun k v v' hv hv' => by
      have hj := hall (k, v) hv
      rw [get?_snapshot h hv'] at hj
      exact (Option.some.inj hj).symm
    exact h

/-- For an artifact with live relations, a signature and a key identifier, the database's comparison
succeeds exactly where JavaScript serves an envelope. -/
theorem jsonb_iff_envelope {t : Tables} (hv : t.Valid) {a : Artifact} {v : Version} {s : Software}
    {p q : Target} (hrel : Related t a v s p q) (ha : FromSubmissions node a)
    (hsig : a.signature ≠ none) (hkey : a.signatureKeyId ≠ none) :
    a.signatureManifest.map Json.jsonb = some (signedManifest t s v a).jsonb ↔
      ∃ envelope, createOtaSignatureEnvelope (t.load a) = .ok (some envelope) := by
  obtain ⟨signature, hsig⟩ := Option.ne_none_iff_exists'.mp hsig
  obtain ⟨keyId, hkey⟩ := Option.ne_none_iff_exists'.mp hkey
  obtain ⟨payload, publicKey, hver⟩ := ha.signature signature hsig
  have hkne : keyId ≠ "" := by
    rintro rfl
    exact absurd (ha.keyId "" hkey) (by decide)
  have henvelope : ∀ envelope, createOtaSignatureEnvelope (t.load a) = .ok (some envelope) ↔ _ :=
    fun _ => envelope_iff (a := t.load a) hsig hkey (ne_empty_of_verify node hver) hkne
  simp only [henvelope]
  constructor
  · intro heq
    obtain ⟨snapshot, hman, hj⟩ := Option.map_eq_some_iff.mp heq
    obtain ⟨m, hm, hsnap⟩ := ha.snapshot snapshot hman
    have same := sameMembers_of_jsonb (hj.symm.trans hsnap)
    exact ⟨_, m, snapshot, (build_iff_sameMembers hv hrel).mpr ⟨hm, same⟩, hman,
      fun entry he => get?_snapshot hsnap he, rfl⟩
  · rintro ⟨-, m, snapshot, hbuild, hman, hall, -⟩
    obtain ⟨m', -, hsnap⟩ := ha.snapshot snapshot hman
    have hman : a.signatureManifest = some snapshot := hman
    rw [hman, Option.map_some, signedManifest_eq ((build_iff_sameMembers hv hrel).mp hbuild).2]
    exact congrArg some ((jsonb_eq_iff hsnap).mpr hall)

/-- In every state that operations of the CMS reach, interleaved in any way, from one whose signature
columns were written by submissions: for an artifact with live relations, a signature, and the key
identifier of an active key of its software, the comparison of the public query succeeds exactly where
`createOtaSignatureEnvelope` returns an envelope. -/
theorem eligible_iff_envelope {operations : List Operation} {d : Db} {w : CmsWorld}
    (hd : ∀ a ∈ d.artifacts, FromSubmissions node a) {c : Config cms (Failure String) Unit}
    (hr : Config.Run (Guard.always cms)
      ⟨⟨Server.idle d, w⟩, operations.map (·.program node)⟩ c) :
    ∀ a ∈ c.state.server.db.artifacts, ∀ v s p q,
      Related (Db.toTables c.state.server.db) a v s p q → a.signature ≠ none →
      (∃ k ∈ c.state.server.db.signingKeys,
        k.softwareId = s.id ∧ a.signatureKeyId = some k.keyId ∧ k.isActive = true) →
      (∃ n, a.sizeBytes = some n ∧ Js.isSafeInteger n = true) →
      (a.signatureManifest.map Json.jsonb =
          some (signedManifest (Db.toTables c.state.server.db) s v a).jsonb ↔
        ∃ envelope, createOtaSignatureEnvelope ((Db.toTables c.state.server.db).load a) =
          .ok (some envelope)) := by
  have hc := keeping_run (D := cmsSchema) (X := cmsWorld)
    (P := fun d => ∀ a ∈ (Db.toTables d).artifacts, FromSubmissions node a)
    (W := fun w => Harmless w ∨ Submits node w) (fromSubmissions_applyOne node) (fun p hp => by
      obtain ⟨op, -, rfl⟩ := List.mem_map.mp hp
      exact op.performs node) hd hr
  rintro a ha v s p q hrel hsig ⟨k, -, -, hkey, -⟩ -
  exact jsonb_iff_envelope node c.state.server.db.valid hrel (hc a ha) hsig (by simp [hkey])

/-- One request, that signs a release. -/
def signing : Config cms (Failure String) Unit :=
  ⟨⟨Server.idle (oneRelease none unsigned), emptyWorld⟩,
    [Operation.setArtifactSignature "a" (some (.str (toyKeyId 'a')))
      (some (.str (toySignature 'A' (releaseManifest none))))].map (·.program toyNode)⟩

/-- Signing a release makes it eligible, and it has an envelope. -/
theorem eligible_iff_envelope_example :
    ∃ c, Config.Run (Guard.always cms) signing c ∧
      ∃ a ∈ c.state.server.db.artifacts, ∃ envelope,
        createOtaSignatureEnvelope ((Db.toTables c.state.server.db).load a) = .ok (some envelope) := by
  have accepted := oneRelease_accepts (Guard.always cms) 0 emptyWorld (fun _ _ => trivial) none
    unsigned 'A' 'a' rfl ⟨rfl, rfl, rfl⟩ rfl (by decide +kernel) (by decide) rfl (by decide +kernel)
  have saved := accepted.trans (steps_exec trivial (save_oneRelease rfl) .refl)
  have run := (saved.bind (f := fun _ => pure ())).run (c := signing) rfl rfl
  have start : ∀ a ∈ (oneRelease none unsigned).artifacts, FromSubmissions toyNode a := by
    intro a ha
    obtain rfl := List.mem_singleton.mp ha
    exact ⟨fun _ h => (by cases h), fun _ h => (by cases h), fun _ h => (by cases h)⟩
  refine ⟨_, run, firstSigned, List.mem_cons_self .., ?_⟩
  exact (eligible_iff_envelope toyNode start run firstSigned (List.mem_cons_self ..)
    (releaseVersion none) releaseSoftware ⟨"w", "windows", "Windows", none⟩
    ⟨"x", "x64", "x64", none⟩ ⟨rfl, rfl, rfl, rfl⟩ (by simp [firstSigned, unsigned,
      Artifact.saveOnto, dirty, signedRelease, Artifact.submitted])
    ⟨_, List.mem_cons_self .., rfl, rfl, rfl⟩ ⟨1, rfl, by decide⟩).mp rfl

end Reeva
