import Reeva.Release.RequestIdentity
import Reeva.Signer.Authorisation

/-!
# Reeva accepts what the signer answers

Reeva checks an answer of the signer field by field: it computes the name of the request, the digest
of the payload and the fingerprint of the key anew, and verifies the signature. The signer computes
each of them with other libraries. Where these agree with Node, every request that the signer has
stored passes Reeva's checks, in every state that its replicas reach (`answers_accepted`).
-/

open Interleaving ReadCommitted

namespace Reeva

/-! ## Answers -/

/-- The text of a status. -/
def Signer.Status.text : Signer.Status → String
  | pending => "pending"
  | signed => "signed"

/-- `Json(PublicKey)` -/
def Signer.PublicKey.members (key : Signer.PublicKey) : List (String × Json) :=
  [("product", .str key.product), ("keyVersion", .int key.keyVersion), ("keyId", .str key.keyId),
    ("publicKey", .str key.publicKey)]

/-- A signature, or `null`. -/
def Signer.SigningRequest.signatureJson (r : Signer.SigningRequest) : Json :=
  (r.signature.map Json.str).getD .null

/-- `Json(SigningRequest)` -/
def Signer.SigningRequest.members (r : Signer.SigningRequest) : List (String × Json) :=
  [("id", .str r.id), ("product", .str r.product), ("payload", .str r.payload),
    ("payloadDigest", .str r.payloadDigest), ("keyId", .str r.keyId),
    ("keyVersion", .int r.keyVersion), ("publicKey", .str r.publicKey),
    ("status", .str r.status.text), ("signature", r.signatureJson), ("expiresAt", .int r.expiresAt)]

/-! ## Agreement -/

/-- Node's cryptography and that of the signer's crates agree: on SHA-256, on the key that a PEM
text is of, on its DER, and on the signatures that are valid. -/
structure Agreement (node : Node) (crates : Signer.Crates) where
  /-- The key object of a key. -/
  keyObject : crates.VerifyingKey → node.KeyObject
  digest : ∀ bytes, node.digest "sha256" bytes = Signer.hexEncode (crates.sha256 bytes)
  /-- The crate writes a short text in PEM. -/
  length : ∀ key pem, crates.toPublicKeyPem key = some pem → Js.length pem ≤ 4096
  header : ∀ key pem, crates.toPublicKeyPem key = some pem →
    ("-----BEGIN PUBLIC KEY-----".toList).isPrefixOf (Js.trim pem).toList = true
  /-- Node reads it, and what Node writes itself. -/
  pem : ∀ key pem, crates.toPublicKeyPem key = some pem →
    node.createPublicKey (Js.trim pem) = .ok (keyObject key)
  exportPem : ∀ key, node.createPublicKey (node.exportPem (keyObject key)) = .ok (keyObject key)
  ed25519 : ∀ key, node.asymmetricKeyType (keyObject key) = "ed25519"
  exportDer : ∀ key der, crates.toPublicKeyDer key = some der → node.exportDer (keyObject key) = der
  /-- What the crate verifies, Node verifies. -/
  verify : ∀ key bytes signature, crates.verifyStrict key bytes signature = true →
    node.verify bytes (keyObject key) signature = true

section agreement

variable {node : Node} {crates : Signer.Crates}

/-- A digest is the same on both sides. -/
theorem Agreement.digest_eq (a : Agreement node crates) (bytes : List UInt8) :
    node.digest "sha256" bytes = Signer.digest crates bytes := a.digest bytes

/-- Node takes a key of the crate. -/
theorem Agreement.getPublicKey_pem (a : Agreement node crates) {key : crates.VerifyingKey}
    {pem : String} (h : crates.toPublicKeyPem key = some pem) :
    getPublicKey node (Js.trim pem) = .ok (a.keyObject key) := by
  simp only [getPublicKey, a.pem key pem h, Bind.bind, Except.bind, a.ed25519, if_true]
  rfl

/-- It takes the key again as it has written it. -/
theorem Agreement.getPublicKey_exportPem (a : Agreement node crates) (key : crates.VerifyingKey) :
    getPublicKey node (node.exportPem (a.keyObject key)) = .ok (a.keyObject key) := by
  simp only [getPublicKey, a.exportPem key, Bind.bind, Except.bind, a.ed25519, if_true]
  rfl

/-- The key passes Reeva's check, with the fingerprint that the signer has computed. -/
theorem Agreement.validates (a : Agreement node crates) {key : crates.VerifyingKey} {pem : String}
    {der : List UInt8}
    (hpem : crates.toPublicKeyPem key = some pem) (hder : crates.toPublicKeyDer key = some der) :
    validateOtaPublicKey node pem =
      .ok (node.exportPem (a.keyObject key), Signer.digest crates der) := by
  have hread := a.getPublicKey_pem hpem
  have hlength : ¬4096 < Js.length pem := Nat.not_lt.mpr (a.length key pem hpem)
  unfold validateOtaPublicKey
  dsimp only
  rw [if_neg hlength, a.header key pem hpem]
  simp only [Bool.not_true, Bool.false_eq_true, if_false, hread, getOtaSigningKeyId, Bind.bind,
    Except.bind, a.exportDer key der hder, ← a.digest_eq]
  rfl

/-- A key in an answer passes Reeva's checks. -/
theorem Agreement.key_ok (a : Agreement node crates) {fields : List (String × Json)}
    {product : String} {version : ℕ} {key : crates.VerifyingKey} {pem : String} {der : List UInt8}
    (hpem : crates.toPublicKeyPem key = some pem) (hder : crates.toPublicKeyDer key = some der)
    (hpos : 0 < version) (hle : version ≤ 2147483647)
    (hproduct : (Json.obj fields).get? "product" = some (.str product))
    (hversion : (Json.obj fields).get? "keyVersion" = some (.int version))
    (hkeyId : (Json.obj fields).get? "keyId" = some (.str (Signer.digest crates der)))
    (hkey : (Json.obj fields).get? "publicKey" = some (.str pem)) :
    ManagedSignerService.key node (some fields) product = .ok
      { product, keyVersion := version, keyId := Signer.digest crates der,
        publicKey := node.exportPem (a.keyObject key) } := by
  have hsafe : Js.isSafeInteger version = true := by
    simp only [Js.isSafeInteger, Bool.and_eq_true, decide_eq_true_eq]
    omega
  have hone : ¬((version : ℤ) < 1) := by omega
  simp only [ManagedSignerService.key, hversion, hkey, hproduct, hkeyId, Option.bind_some,
    Js.integer?_int hsafe, a.validates hpem hder, ne_eq, not_true_eq_false, hone,
    or_self, if_false, Bind.bind, Except.bind]
  rfl

/-- A signature that the signer has taken verifies for Reeva. -/
theorem Agreement.verifies (a : Agreement node crates) {key : crates.VerifyingKey}
    {payload : String} {bytes signature : List UInt8} (hpayload : Canonical payload bytes)
    (hlength : signature.length = 64) (hverify : crates.verifyStrict key bytes signature = true) :
    verifyOtaReleaseSignature node payload
      (.str (String.ofList (Base64Url.encode signature))) (node.exportPem (a.keyObject key)) =
      true := by
  refine (verifyOtaReleaseSignature_iff node).mpr ⟨bytes, hpayload, _, a.keyObject key, rfl, ?_⟩
  rw [String.toList_ofList, Base64Url.decodeLenient_encode, Base64Url.length_encode, hlength]
  exact ⟨rfl, List.all_eq_true.mpr (Base64Url.encode_alphabet signature), rfl, rfl,
    a.getPublicKey_exportPem key, a.verify key bytes signature hverify⟩

end agreement

/-! ## What is stored -/

namespace Signer

/-- A request is named by what it is made of. -/
def Named (crates : Crates) (r : SigningRequest) : Prop :=
  ∃ bytes manifest, parsePayload r.payload r.product = .ok (bytes, manifest) ∧
    r.id = requestId crates r.product r.keyId bytes ∧ r.payloadDigest = digest crates bytes

variable {crates : Crates} {requests : List Request} {clock : ℕ}
  {c : Config machine (Failure ApiError) SigningRequest}

/-- What `create_request` asks for is. -/
theorem Prepared.named {app : App} {authorization : Option String} {input : CreateRequest}
    {row : SigningRequest} (h : Prepared crates app authorization input row) :
    Named crates row := by
  obtain ⟨bytes, manifest, key, answer, hread, -, -, rfl⟩ := h.read
  exact ⟨bytes, manifest, hread, rfl, rfl⟩

/-- Whatever the replicas do, what is stored is. -/
theorem named_run (hr : Config.Run (.always machine) (start crates requests emptyDb clock) c) :
    ∀ r ∈ c.state.server.db.requests, Named crates r := by
  induction hr with
  | refl => exact fun r hr => by cases hr
  | @tail c₁ c₂ hrun hs ih =>
    have hsound := run_sound (P := fun _ => True) (d := emptyDb) (Nat.zero_le _)
      (fun _ _ _ _ _ _ _ _ _ _ _ _ _ => trivial) hrun
    rcases Terms.published_of_step hsound hs with hdb | ⟨i, -, request, -, hpublishes, -⟩
    · rw [hdb]
      exact ih
    intro r' hr'
    cases request with
    | createRequest app authorization input =>
      obtain ⟨row, now, hprepared, -, -, henqueued⟩ := hpublishes
      rcases henqueued.mem hr' with ⟨r, hr, e, rfl⟩ | ⟨e, rfl⟩
      · exact ih r hr
      · exact hprepared.named
    | getRequest app authorization id => exact hpublishes.elim
    | approve app authorization id input =>
      obtain ⟨-, -, now, -, happroved⟩ := hpublishes
      rcases happroved.mem hr' with hr | ⟨before, signature, hbefore, -, rfl⟩
      · exact ih r' hr
      · exact ih before (mem_of_requestAt hbefore).1

/-- A key that is read is of the product that it was asked for. -/
theorem readKey_product {product : String} {version : Option ℕ} {answer : Json} {key : PublicKey}
    (h : readKey crates product version answer = .ok key) : key.product = product := by
  unfold readKey at h
  dsimp only at h
  split at h
  · cases h
  · split at h
    · cases h
    · split at h
      · cases h
      · split at h
        · cases h
        · cases h
          rfl

end Signer

/-! ## What Reeva accepts -/

section answers

variable {node : Node} {crates : Signer.Crates} {r : Signer.SigningRequest}
  {managedKey actualKey : ManagedSigningKey}

/-- What the members of an answer are. -/
theorem get?_members : (Json.obj r.members).get? "id" = some (.str r.id) ∧
    (Json.obj r.members).get? "payload" = some (.str r.payload) ∧
    (Json.obj r.members).get? "payloadDigest" = some (.str r.payloadDigest) ∧
    (Json.obj r.members).get? "status" = some (.str r.status.text) ∧
    (Json.obj r.members).get? "signature" = some r.signatureJson ∧
    (Json.obj r.members).get? "expiresAt" = some (.int r.expiresAt) :=
  ⟨rfl, rfl, rfl, rfl, rfl, rfl⟩

/-- What Reeva makes of a request. -/
def Signer.SigningRequest.managed (r : Signer.SigningRequest) (key : ManagedSigningKey) :
    ManagedSigningRequest :=
  { key with
    id := r.id
    payload := r.payload
    payloadDigest := r.payloadDigest
    status := .str r.status.text
    signature := r.signatureJson
    expiresAt := r.expiresAt }

/-- An answer in which everything is as Reeva computes it is accepted. -/
theorem signingRequest_ok
    (hkey : ManagedSignerService.key node (some r.members) managedKey.product = .ok actualKey)
    (hkeyId : actualKey.keyId = managedKey.keyId)
    (hversion : actualKey.keyVersion = managedKey.keyVersion)
    (hid : ManagedSignerService.managedRequestId node managedKey.product managedKey.keyId
      r.payload = r.id)
    (hdigest : node.digest "sha256" (Base64Url.decodeLenient r.payload.toList) = r.payloadDigest)
    (hexpiry : Js.isSafeInteger r.expiresAt = true)
    (hstatus : r.status = .signed ↔ r.signature.isSome = true)
    (hsigned : ∀ signature, r.signature = some signature →
      verifyOtaReleaseSignature node r.payload (.str signature) managedKey.publicKey = true) :
    ManagedSignerService.signingRequest node (some r.members) managedKey r.payload =
      .ok (some (r.managed actualKey)) := by
  obtain ⟨hi, hp, hd, hs, hsig, he⟩ := get?_members (r := r)
  -- None of the checks throws: the status is one of two, a signed request has its signature, which
  -- verifies, and a pending one has none.
  have htext : ["pending", "signed"].contains (Js.text (.str r.status.text)) = true := by
    cases r.status <;> rfl
  have hverify : ¬(Json.str r.status.text = .str "signed" ∧
      verifyOtaReleaseSignature node r.payload r.signatureJson managedKey.publicKey = false) := by
    rintro ⟨htext, hfalse⟩
    cases hcase : r.status with
    | pending =>
      rw [hcase] at htext
      exact absurd (Json.str.inj htext) (by decide)
    | signed =>
      obtain ⟨signature, hsignature⟩ := Option.isSome_iff_exists.mp (hstatus.mp hcase)
      rw [Signer.SigningRequest.signatureJson, hsignature] at hfalse
      exact Bool.false_ne_true (hfalse.symm.trans (hsigned signature hsignature))
  have hpending : ¬(Json.str r.status.text = .str "pending" ∧
      some r.signatureJson ≠ some .null) := by
    rintro ⟨htext, hne⟩
    cases hcase : r.status with
    | signed =>
      rw [hcase] at htext
      exact absurd (Json.str.inj htext) (by decide)
    | pending =>
      have hnone : r.signature = none := by
        rw [← Option.not_isSome_iff_eq_none]
        exact fun h => Signer.Status.noConfusion (hcase.symm.trans (hstatus.mpr h))
      rw [Signer.SigningRequest.signatureJson, hnone] at hne
      exact hne rfl
  simp only [ManagedSignerService.signingRequest, hkey, Bind.bind, Except.bind, hi, hp, hd, hs,
    hsig, he, Option.bind_some, Option.getD_some, Js.integer?_int hexpiry, hkeyId, hversion, hid,
    hdigest, htext, hexpiry, ne_eq, not_true_eq_false, Bool.true_eq_false, or_self, if_false,
    hverify, hpending]
  rfl

end answers

/-- In every run of any number of replicas of the signer, whatever the key store answers: what the
signer says of a key, Reeva accepts; and every request that the signer has stored with that key,
Reeva accepts as an answer to its own, with the name, the status and the signature that are stored,
as long as JavaScript can write its expiry. A stored signature verifies for Reeva with the key as it
has read it. -/
theorem answers_accepted {node : Node} {crates : Signer.Crates} (a : Agreement node crates)
    (hcrates : crates.Faithful) {requests : List Signer.Request} {clock : ℕ}
    {c : Config Signer.machine (Failure Signer.ApiError) Signer.SigningRequest}
    (hr : Config.Run (.always Signer.machine)
      (Signer.start crates requests Signer.emptyDb clock) c)
    {r : Signer.SigningRequest} (hmem : r ∈ c.state.server.db.requests)
    (hexpiry : Js.isSafeInteger r.expiresAt = true) {key : Signer.PublicKey} {version : Option ℕ}
    {answer : Json} (hkey : Signer.readKey crates r.product version answer = .ok key)
    (hkeyId : key.keyId = r.keyId) (hversion : key.keyVersion = r.keyVersion) :
    ∃ managedKey request,
      ManagedSignerService.key node (some key.members) r.product = .ok managedKey ∧
      managedKey.keyId = r.keyId ∧
      ManagedSignerService.signingRequest node (some r.members) managedKey r.payload =
        .ok (some request) ∧
      request.id = r.id ∧ request.expiresAt = r.expiresAt ∧ request.status = .str r.status.text ∧
      request.signature = r.signatureJson ∧
      ∀ signature, r.signature = some signature →
        verifyOtaReleaseSignature node r.payload (.str signature) managedKey.publicKey = true := by
  obtain ⟨haccount, -⟩ := Signer.run_accounted hr
  obtain ⟨bytes, manifest, hread, hid, hdigest⟩ := Signer.named_run hr r hmem
  have hpayload : Canonical r.payload bytes := (parsePayload_eq_ok_iff.mp hread).1
  have hfits := c.state.server.db.valid.requests r hmem
  have hbounds : 0 < r.keyVersion ∧ r.keyVersion ≤ 2147483647 := by
    simp only [Signer.SigningRequest.fits, Bool.and_eq_true, decide_eq_true_eq] at hfits
    tauto
  -- The key that is asked for, and the one that the row was made with, have one fingerprint.
  have hrow := haccount.keys r hmem
  obtain ⟨product₀, version₀, answer₀, key₀, hkey₀, hkeyId₀, hpublic₀⟩ := hrow
  obtain ⟨pub, der, hder, hpem, hfingerprint⟩ := Signer.readKey_ok hkey
  obtain ⟨pub₀, der₀, hder₀, hpem₀, hfingerprint₀⟩ := Signer.readKey_ok hkey₀
  have hsame : pub₀ = pub := by
    refine hcrates.der _ _ _ _ hder₀ hder (Signer.hexEncode_injective ?_)
    exact hfingerprint₀.symm.trans (hkeyId₀.trans (hkeyId.symm.trans hfingerprint))
  subst hsame
  rw [hpublic₀] at hpem₀
  have hrowId : r.keyId = Signer.digest crates der := hkeyId.symm.trans hfingerprint
  have hrowId₀ : r.keyId = Signer.digest crates der₀ := hkeyId₀.symm.trans hfingerprint₀
  -- Reeva reads both keys.
  have hmanaged : ManagedSignerService.key node (some key.members) r.product = .ok
      ⟨r.product, r.keyVersion, Signer.digest crates der, node.exportPem (a.keyObject pub₀)⟩ :=
    a.key_ok hpem hder hbounds.1 hbounds.2 (by rw [← Signer.readKey_product hkey]; rfl)
      (by rw [← hversion]; rfl) (by rw [← hfingerprint]; rfl) rfl
  have hactual : ManagedSignerService.key node (some r.members) r.product = .ok
      ⟨r.product, r.keyVersion, Signer.digest crates der₀, node.exportPem (a.keyObject pub₀)⟩ :=
    a.key_ok hpem₀ hder₀ hbounds.1 hbounds.2 rfl rfl (by rw [← hrowId₀]; rfl) rfl
  -- What is stored was verified with a key of that fingerprint, so with this one.
  have hsigned : ∀ signature, r.signature = some signature →
      verifyOtaReleaseSignature node r.payload (.str signature)
        (node.exportPem (a.keyObject pub₀)) = true := by
    intro signature hsignature
    obtain ⟨bytes', manifest', pub', der', sig, hread', hpub', hder', hid', htext, hlength,
      hverify⟩ := (haccount.signed r hmem signature hsignature).verifies hcrates
        (haccount.keys r hmem) hsignature
    have hpub : pub' = pub₀ := by
      refine hcrates.der _ _ _ _ hder' hder₀ (Signer.hexEncode_injective ?_)
      exact hid'.symm.trans hrowId₀
    obtain rfl := Option.some.inj (hsignature.symm.trans htext)
    obtain ⟨rfl, -⟩ := Prod.mk.inj (Except.ok.inj (hread'.symm.trans hread))
    exact hpub ▸ a.verifies hpayload hlength hverify
  refine ⟨_, _, hmanaged, hrowId.symm, signingRequest_ok hactual ?_ rfl ?_ ?_ hexpiry
    (Signer.status_signed_iff hmem) hsigned, rfl, rfl, rfl, rfl, hsigned⟩
  · exact hrowId₀.symm.trans hrowId
  · change ManagedSignerService.managedRequestId node r.product (Signer.digest crates der)
      r.payload = r.id
    rw [hid, ← hrowId, ManagedSignerService.managedRequestId, hpayload.decodeLenient, a.digest_eq]
    rfl
  · rw [hpayload.decodeLenient, a.digest_eq, hdigest]

/-! ## An exchange -/

/-- A key in PEM. -/
def pemText : String := "-----BEGIN PUBLIC KEY-----\nBw==\n-----END PUBLIC KEY-----"

/-- The crates of the exchange, with one key, which has a text in PEM. -/
def pemCrates : Signer.Crates where
  VerifyingKey := Unit
  sha256 := Signer.toyCrates.sha256
  fromBytes _ := some ()
  toPublicKeyDer _ := some Signer.toyPublicKey
  toPublicKeyPem _ := some pemText
  fromPublicKeyPem pem := if pem = pemText then some () else none
  verifyStrict _ _ _ := true

/-- Node with the same key. -/
def pemNode : Node :=
  { toyNode with
    KeyObject := Unit
    createPublicKey := fun pem => if pem = pemText then .ok () else .error "Unsupported key."
    asymmetricKeyType := fun _ => "ed25519"
    exportDer := fun _ => Signer.toyPublicKey
    exportPem := fun _ => pemText
    verify := fun _ _ _ => true
    digest := fun _ bytes => Signer.hexEncode (Signer.toyCrates.sha256 bytes) }

theorem createPublicKey_pemText : pemNode.createPublicKey pemText = .ok () := by
  change (if pemText = pemText then Except.ok () else Except.error "Unsupported key.") = .ok ()
  exact if_pos rfl

/-- They agree. -/
def pemAgreement : Agreement pemNode pemCrates where
  keyObject _ := ()
  digest _ := rfl
  length _ pem h := by
    rw [← Option.some.inj h]
    decide +kernel
  header _ pem h := by
    rw [← Option.some.inj h]
    decide +kernel
  pem _ pem h := by
    have htrim : Js.trim pemText = pemText := by decide +kernel
    rw [← Option.some.inj h, htrim]
    exact createPublicKey_pemText
  exportPem _ := createPublicKey_pemText
  ed25519 _ := rfl
  exportDer _ der h := Option.some.inj h
  verify _ _ _ _ := rfl

/-- The crates fit. -/
theorem pemCrates_fitting : pemCrates.Fitting where
  digest := Signer.toyCrates_fitting.digest
  pem key pem h c hc := by
    have hall : (pemText.toList.all fun c => decide (0 < c.toNat)) = true := by decide +kernel
    rw [← Option.some.inj h] at hc
    exact of_decide_eq_true (List.all_eq_true.mp hall c hc)

/-- A key is read back from its text. -/
theorem pemCrates_faithful : pemCrates.Faithful where
  pem key pem h := by
    rw [← Option.some.inj h]
    change (if pemText = pemText then some () else none) = some ()
    exact if_pos rfl
  der _ _ _ _ _ _ _ := rfl

/-- The key as it is read. -/
def pemKey : Signer.PublicKey := { Signer.toyRead with publicKey := pemText }

/-- The requester of the exchange may create the request. -/
theorem pemKey_requestable : Signer.Requestable pemCrates Signer.toyApp (some "Bearer requester")
    Signer.toyInput (Js.utf8 Signer.toyManifest) Signer.toyRelease pemKey Signer.toyKey where
  requester := by decide +kernel
  identifier := by decide +kernel
  version := by decide
  read := Signer.parsePayload_toy
  readKey := by decide +kernel
  keyId := rfl

/-- Its approver may approve it. -/
theorem pemCrates_approver :
    Signer.checkAuth pemCrates (some "Bearer approver") Signer.toyApp.approverHash = .ok () := by
  decide +kernel

/-- The key store signs it. -/
theorem pemKey_signed :
    Signer.readSignature pemCrates pemKey (Js.utf8 Signer.toyManifest) Signer.toySignature =
      .ok (String.ofList (Base64Url.encode (List.replicate 64 9))) := by
  decide +kernel

/-- The exchange with these crates. -/
def pemExchange : Signer.Exchange pemCrates where
  app := Signer.toyApp
  authorization := some "Bearer requester"
  input := Signer.toyInput
  bytes := Js.utf8 Signer.toyManifest
  manifest := Signer.toyRelease
  key := pemKey
  found := Signer.toyKey
  requestable := pemKey_requestable
  approverApp := Signer.toyApp
  approverAuthorization := some "Bearer approver"
  approverKey := pemKey
  approverFound := Signer.toyKey
  answer := Signer.toySignature
  signature := String.ofList (Base64Url.encode (List.replicate 64 9))
  approver := pemCrates_approver
  readKey := pemKey_requestable.readKey
  keyId := rfl
  signed := pemKey_signed

/-- A request that has been created and approved is accepted with its signature. -/
theorem answers_accepted_example :
    ∃ c, Config.Run (.always Signer.machine) (Signer.start pemCrates
        [pemExchange.request, pemExchange.approve (Signer.epoch 0)] Signer.emptyDb 0) c ∧
      pemExchange.response 0 ∈ c.state.server.db.requests ∧
      ∃ managedKey request,
        ManagedSignerService.key pemNode (some pemKey.members) "p" = .ok managedKey ∧
        ManagedSignerService.signingRequest pemNode (some (pemExchange.response 0).members)
          managedKey Signer.toyInput.payload = .ok (some request) ∧
        request.status = .str "signed" ∧ request.signature = .str pemExchange.signature ∧
        verifyOtaReleaseSignature pemNode Signer.toyInput.payload (.str pemExchange.signature)
          managedKey.publicKey = true := by
  let requests := [pemExchange.request, pemExchange.approve (Signer.epoch 0)]
  have hcreate : requests[0]? = some pemExchange.request := rfl
  have happrove : requests[1]? = some (pemExchange.approve (Signer.epoch 0)) := rfl
  obtain ⟨c, h⟩ := Signer.exchange_run (d := Signer.emptyDb) Signer.allowsOthers_always
    pemCrates_fitting pemExchange 0 (by decide) hcreate happrove (fun _ h => by cases h) (by decide)
    (by decide)
  have hmem : pemExchange.response 0 ∈ c.state.server.db.requests := by
    rw [h.requests]
    exact List.mem_append_right _ (List.mem_singleton_self _)
  obtain ⟨managedKey, request, hkey, -, hrequest, -, -, hstatus, hsignature, hverify⟩ :=
    answers_accepted pemAgreement pemCrates_faithful h.run hmem (by decide)
      pemExchange.requestable.readKey rfl rfl
  exact ⟨c, h.run, hmem, managedKey, request, hkey, hrequest, hstatus, hsignature, hverify _ rfl⟩

end Reeva
