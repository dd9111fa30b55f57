import Reeva.Cms.Coherence

/-!
# Valid submissions are accepted

The converse of what `Submission` says: a signature that Node verifies over the payload of an
artifact's current metadata, under an active key of its product, passes every check of
`setArtifactSignature`, and the request goes on to its save. The rules before it execute a request on
a database that nobody else works on.
-/

open Interleaving ReadCommitted

namespace Reeva

/-! ## Signatures -/

/-- A signature of 64 bytes over an encoded payload is verified by Node alone. -/
theorem verify_encode (node : Node) {bytes signature : List UInt8} (hs : signature.length = 64)
    (hb : bytes ≠ []) (hlen : bytes.length ≤ 90000) {pem : String} {key : node.KeyObject}
    (hk : getPublicKey node pem = .ok key) :
    verifyOtaReleaseSignature node (String.ofList (Base64Url.encode bytes))
      (.str (String.ofList (Base64Url.encode signature))) pem = node.verify bytes key signature := by
  have hs86 : (Base64Url.encode signature).length = 86 := by rw [Base64Url.length_encode, hs]
  have hshort : ¬120000 < (Base64Url.encode bytes).length := by
    rw [Base64Url.length_encode]
    omega
  have halph : ∀ b, (Base64Url.encode b).all Base64Url.isAlphabet = true := fun b =>
    List.all_eq_true.mpr (Base64Url.encode_alphabet b)
  have hne : bytes.length ≠ 0 := by simpa using hb
  simp only [verifyOtaReleaseSignature, String.toList_ofList, hs86, halph,
    Base64Url.decodeLenient_encode, Base64Url.encode_ne_nil hb, hshort, hs, hne, hk, ne_eq,
    not_true_eq_false, Bool.not_true, Bool.false_eq_true, or_self, if_false]

/-- The toy signature over the payload of a manifest. -/
def toySignature (key : Char) (m : OtaReleaseManifest) : String :=
  String.ofList (Base64Url.encode (toySign key (Js.utf8 m.toJson.stringify)))

/-- A toy signature has no white space around it. -/
theorem trimmedText_toySignature (key : Char) (m : OtaReleaseManifest) :
    trimmedText (some (.str (toySignature key m))) = toySignature key m := by
  have space : ∀ n < 64, Js.isSpace (Base64Url.char n) = false := by decide
  have hchars : ∀ c ∈ Base64Url.encode (toySign key (Js.utf8 m.toJson.stringify)),
      Js.isSpace c = false := by
    intro c hc
    obtain ⟨n, hn, rfl⟩ := List.mem_map.mp hc
    exact space n (Base64Url.sextets_lt _ n hn)
  have hstrip := Js.strip_of_forall hchars
  rw [trimmedText, Js.trim, toySignature, String.toList_ofList, hstrip]

/-- Under the toy scheme a signature verifies over a payload exactly where it is the one that its key
makes. -/
theorem verify_toySignature (key key' : Char) (m m' : OtaReleaseManifest) {pem : String}
    (hpem : getPublicKey toyNode pem = .ok key)
    (hlen : (m.toJson.print.flatMap String.utf8EncodeChar).length ≤ 90000) :
    verifyOtaReleaseSignature toyNode m.payload (.str (toySignature key' m')) pem =
      (toySign key' (Js.utf8 m'.toJson.stringify) == toySign key (Js.utf8 m.toJson.stringify)) := by
  rw [← Js.utf8_ofList] at hlen
  have hne : m.toJson.stringify ≠ "" := by
    intro h
    have hprint := congrArg String.toList h
    rw [Json.stringify, String.toList_ofList] at hprint
    exact List.cons_ne_nil _ _ hprint
  exact verify_encode toyNode (by simp [toySign]) (Js.utf8_ne_nil hne) hlen hpem

/-! ## Execution on an idle server -/

section rules

variable {ok : Guard cms} {i : ℕ} {α β : Type} {d : Db} {w : CmsWorld} {p : Cms α} {σ : CmsState}

/-- A check that passes. -/
theorem refuse_bind {c : Prop} [Decidable c] (hc : ¬c) {message : String} {k : Unit → Cms α} :
    (Cms.refuse c message >>= k) = k () := by
  rw [Cms.refuse, if_neg hc]
  rfl

/-- A computation that does not throw. -/
theorem orThrow_bind (b : β) (k : β → Cms α) : (Cms.orThrow (.ok b) >>= k) = k b := rfl

/-- A row that is there. -/
theorem orFail_bind (b : β) (k : β → Cms α) : (Cms.orFail (some b) >>= k) = k b := rfl

/-- A query. -/
theorem steps_select (hq : ∀ {γ : Type} (f : Db → γ) σ, ok i (.db (.query f)) (.db .none) σ)
    {f : Tables → β} {k : β → Cms α} (h : (k (f d.toTables)).Steps ok i ⟨Server.idle d, w⟩ p σ) :
    (Cms.select f >>= k).Steps ok i ⟨Server.idle d, w⟩ p σ :=
  Prog.Steps.step (hq _ _) (show cms.run i (.db (.query fun d => f (Db.toTables d))) (.db .none)
    ⟨Server.idle d, w⟩ = some (.ok (f d.toTables), ⟨Server.idle d, w⟩) from rfl) h

/-- A write. -/
theorem steps_exec {wr : Write} (hw : ok i (.db (.write wr)) (.db .none) ⟨Server.idle d, w⟩)
    {k : ℕ → Cms α} {n : ℕ} {d' : Db} (ha : cmsSchema.apply wr d = some (n, d'))
    (h : (k n).Steps ok i ⟨Server.idle d', w⟩ p σ) :
    (Cms.exec wr >>= k).Steps ok i ⟨Server.idle d, w⟩ p σ := by
  have hrun : cms.run i (.db (.write wr)) (.db .none) ⟨Server.idle d, w⟩ =
      some (.ok n, ⟨Server.idle d', w⟩) := by
    show Option.map _ (Server.exec (D := cmsSchema) i (.write wr) .none (Server.idle d)) = _
    rw [Server.exec_write_idle ha]
    rfl
  exact Prog.Steps.step hw hrun h

end rules

/-! ## Submissions -/

/-- An artifact with the three columns of a submission. -/
def Artifact.submitted (a : Artifact) (signature keyId : String) (m : OtaReleaseManifest) :
    Artifact :=
  { a with
    signature := some signature, signatureKeyId := some keyId, signatureManifest := some m.toJson }

/-- Read with nothing in between, an artifact and its relations are those of one state. -/
theorem loadArtifact_steps {ok : Guard cms} {i : ℕ} {d : Db} {w : CmsWorld}
    (hq : ∀ {γ : Type} (f : Db → γ) σ, ok i (.db (.query f)) (.db .none) σ) {id : Id} {a : Artifact}
    (ha : d.toTables.artifact id = some a) :
    (Cms.loadArtifact id).Steps ok i ⟨Server.idle d, w⟩ (.ret (d.toTables.load a))
      ⟨Server.idle d, w⟩ := by
  refine steps_select hq ?_
  rw [ha, orFail_bind]
  refine steps_select hq ?_
  refine steps_select hq ?_
  refine steps_select hq ?_
  refine steps_select hq ?_
  have hload : d.toTables.load a = {
      artifact := a
      version := (d.toTables.version a.versionId).map fun v =>
        ⟨v, (d.toTables.version a.versionId).bind fun v => d.toTables.softwareById v.softwareId⟩
      platform := d.toTables.platform a.platformId
      architecture := d.toTables.architecture a.architectureId } := by
    cases hv : d.toTables.version a.versionId <;> simp [Tables.load, hv, Tables.loadVersion]
  rw [hload]
  exact .refl

/-- A signature that verifies over the current metadata, under an active key of the product, is
accepted: the request goes on to save it. -/
theorem setArtifactSignature_accepts {ok : Guard cms} {i : ℕ} (node : Node) {d : Db} {w : CmsWorld}
    (hq : ∀ {γ : Type} (f : Db → γ) σ, ok i (.db (.query f)) (.db .none) σ) (id : Id)
    (keyIdInput signatureInput : Input) {a : Artifact} {v : Version} {k : SoftwareSigningKey}
    {m : OtaReleaseManifest} (ha : d.toTables.artifact id = some a)
    (hv : d.toTables.version a.versionId = some v)
    (hhex : Js.isSha256Hex (trimmedText keyIdInput) = true)
    (hk : d.toTables.activeSigningKey v.softwareId (trimmedText keyIdInput) = some k)
    (hm : buildOtaReleaseManifest (d.toTables.load a) = .ok m)
    (hver : verifyOtaReleaseSignature node m.payload (.str (trimmedText signatureInput))
      k.publicKey = true) :
    (ArtifactService.setArtifactSignature node id keyIdInput signatureInput).Steps ok i
      ⟨Server.idle d, w⟩
      (Cms.exec (.saveArtifact a
          (a.submitted (trimmedText signatureInput) (trimmedText keyIdInput) m)) >>=
        fun _ => pure (a.submitted (trimmedText signatureInput) (trimmedText keyIdInput) m))
      ⟨Server.idle d, w⟩ := by
  refine (loadArtifact_steps hq ha).bind.trans ?_
  have hversion : (d.toTables.load a).version = some (d.toTables.loadVersion v) := by
    simp [Tables.load, hv]
  have hp : createOtaReleasePayload (d.toTables.load a) = .ok m.payload := by
    rw [createOtaReleasePayload, hm]
    rfl
  rw [Prog.ret_bind]
  simp only [hversion, Tables.loadVersion]
  rw [refuse_bind (by simp [hhex])]
  refine steps_select hq ?_
  simp only [hk, hp, orThrow_bind]
  rw [refuse_bind (by simp [hver])]
  simp only [parse_payload]
  exact .refl

end Reeva
