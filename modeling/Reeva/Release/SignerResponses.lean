import Reeva.Release.ManagedSigner

/-!
# What the signer's answers are checked for

`signingRequest` accepts an answer when `Matches` holds and the text of its status is one of two words.
The checks of the signature ask for the status itself, not for its text: so an answer whose status is
an array with such a word for its text is accepted with any signature. Every other accepted answer is
validated.
-/

open Interleaving ReadCommitted

namespace Reeva

open ManagedSignerService

variable (node : Node)

/-- The checks of an answer that do not look at its status. -/
structure Matches (fields : List (String × Json)) (managedKey : ManagedSigningKey)
    (payload : String) : Prop where
  key : ∃ actualKey, key node (some fields) managedKey.product = .ok actualKey ∧
    actualKey.keyId = managedKey.keyId ∧ actualKey.keyVersion = managedKey.keyVersion
  id : (Json.obj fields).get? "id" =
    some (.str (managedRequestId node managedKey.product managedKey.keyId payload))
  payloadDigest : (Json.obj fields).get? "payloadDigest" =
    some (.str (node.digest "sha256" (Base64Url.decodeLenient payload.toList)))
  payload : (Json.obj fields).get? "payload" = some (.str payload)
  expiresAt : ∃ n, ((Json.obj fields).get? "expiresAt").bind Js.integer? = some n ∧
    Js.isSafeInteger n = true

/-- The status of an answer. -/
def statusOf (fields : List (String × Json)) : Json := ((Json.obj fields).get? "status").getD .null

/-- The signature of an answer. -/
def signatureOf (fields : List (String × Json)) : Json :=
  ((Json.obj fields).get? "signature").getD .null

/-- The texts of a status that are accepted. -/
def statuses : List String := ["pending", "signed"]

variable {node} {fields : List (String × Json)} {managedKey : ManagedSigningKey} {payload : String}

/-- What is known of an answer that is accepted. -/
theorem accepted_of_signingRequest {r : ManagedSigningRequest}
    (h : signingRequest node (some fields) managedKey payload = .ok (some r)) :
    Matches node fields managedKey payload ∧ statuses.contains (Js.text (statusOf fields)) = true ∧
      (statusOf fields = .str "signed" →
        verifyOtaReleaseSignature node payload (signatureOf fields) managedKey.publicKey = true) ∧
      (statusOf fields = .str "pending" → (Json.obj fields).get? "signature" = some .null) ∧
      r.keyId = managedKey.keyId ∧ r.keyVersion = managedKey.keyVersion ∧
      r.id = managedRequestId node managedKey.product managedKey.keyId payload ∧
      r.payload = payload ∧ r.status = statusOf fields ∧ r.signature = signatureOf fields := by
  simp only [signingRequest] at h
  cases hkey : key node (some fields) managedKey.product with
  | error e =>
    rw [hkey] at h
    cases h
  | ok actualKey =>
    rw [hkey] at h
    dsimp only [Bind.bind, Except.bind] at h
    split at h
    · cases h
    · rename_i expiresAt hexpires
      split at h
      · cases h
      · rename_i hchecks
        simp only [not_or, not_not, Bool.not_eq_false] at hchecks
        obtain ⟨hid, hversion, hi, hp, hd, hs, he⟩ := hchecks
        split at h
        · cases h
        · rename_i hsigned
          split at h
          · cases h
          · rename_i hpending
            obtain rfl := Option.some.inj (Except.ok.inj h)
            refine ⟨⟨⟨actualKey, hkey, hid, hversion⟩, hi, hd, hp, expiresAt, hexpires, he⟩, hs,
              fun h => ?_, fun h => ?_, hid, hversion, rfl, rfl, rfl, rfl⟩
            · by_contra hne
              exact hsigned ⟨h, by simpa [signatureOf] using hne⟩
            · by_contra hne
              exact hpending ⟨h, hne⟩

/-- An answer is not read as nothing. -/
theorem signingRequest_ne_none (fields : List (String × Json)) :
    signingRequest node (some fields) managedKey payload ≠ .ok none := by
  intro h
  simp only [signingRequest] at h
  cases hkey : key node (some fields) managedKey.product with
  | error e =>
    rw [hkey] at h
    cases h
  | ok actualKey =>
    rw [hkey] at h
    dsimp only [Bind.bind, Except.bind] at h
    split at h
    · cases h
    · split at h
      · cases h
      · split at h
        · cases h
        · split at h <;> cases h

/-- An answer that matches is accepted, when its status is a disguised one. -/
theorem signingRequest_of_matches (h : Matches node fields managedKey payload)
    (hstatus : statuses.contains (Js.text (statusOf fields)) = true)
    (hs : statusOf fields ≠ .str "signed") (hp : statusOf fields ≠ .str "pending") :
    ∃ r, signingRequest node (some fields) managedKey payload = .ok (some r) ∧
      r.status = statusOf fields := by
  obtain ⟨⟨actualKey, hkey, hid, hversion⟩, hi, hd, hpay, n, hn, hsafe⟩ := h
  simp only [statusOf, statuses] at hstatus hs hp
  refine ⟨{ actualKey with
    id := managedRequestId node managedKey.product managedKey.keyId payload, payload
    payloadDigest := node.digest "sha256" (Base64Url.decodeLenient payload.toList)
    status := statusOf fields, signature := signatureOf fields, expiresAt := n }, ?_, rfl⟩
  simp only [signingRequest, hkey, Bind.bind, Except.bind, hn, hid, hversion, hi, hpay, hd, hstatus,
    hsafe, hs, hp, ne_eq, not_true_eq_false, Bool.true_eq_false, or_self, if_false, false_and]
  rfl

/-! ## Disguised statuses -/

/-- A status that is no string and has the text of one that is accepted. -/
def Disguised (fields : List (String × Json)) : Prop :=
  (∀ s, statusOf fields ≠ .str s) ∧ statuses.contains (Js.text (statusOf fields)) = true

/-- A request that is as it should be. -/
structure Validated (node : Node) (managedKey : ManagedSigningKey) (payload : String)
    (r : ManagedSigningRequest) : Prop where
  id : r.id = managedRequestId node managedKey.product managedKey.keyId payload
  keyId : r.keyId = managedKey.keyId
  keyVersion : r.keyVersion = managedKey.keyVersion
  status : (r.status = .str "pending" ∧ r.signature = .null) ∨ (r.status = .str "signed" ∧
    verifyOtaReleaseSignature node payload r.signature managedKey.publicKey = true)
  payload : r.payload = payload

/-- An accepted answer is validated where its status is not a disguised one, and nowhere else. -/
theorem signingRequest_validated_iff :
    (∀ r, signingRequest node (some fields) managedKey payload = .ok (some r) →
        Validated node managedKey payload r) ↔
      ¬(Matches node fields managedKey payload ∧ Disguised fields) := by
  constructor
  · rintro h ⟨hm, hne, htext⟩
    obtain ⟨r, hr, hstatus⟩ := signingRequest_of_matches hm htext (hne _) (hne _)
    rcases (h r hr).status with ⟨hs, -⟩ | ⟨hs, -⟩
    · exact hne _ (hstatus.symm.trans hs)
    · exact hne _ (hstatus.symm.trans hs)
  · intro h r hr
    obtain ⟨hm, htext, hsigned, hpending, hk, hv, hi, hp, hstatus, hsig⟩ :=
      accepted_of_signingRequest hr
    refine ⟨hi, hk, hv, ?_, hp⟩
    rw [hstatus, hsig]
    by_cases hstr : ∃ s, statusOf fields = .str s
    · obtain ⟨s, hs⟩ := hstr
      rw [hs] at htext
      simp only [statuses, Js.text, List.contains_cons, List.contains_nil, Bool.or_false,
        Bool.or_eq_true, beq_iff_eq] at htext
      rcases htext with rfl | rfl
      · exact .inl ⟨hs, by rw [signatureOf, hpending hs, Option.getD_some]⟩
      · exact .inr ⟨hs, hsigned hs⟩
    · exact absurd ⟨hm, fun s hs => hstr ⟨s, hs⟩, htext⟩ h

/-! ## The requests -/

/-- What `call` makes of a response with a status code and a body, as far as the body is JSON. -/
def answer (statusCode : ℕ) (body : Option Json) : Outcome :=
  if statusCode = 404 then .response none
  else if statusCode ≠ 200 then
    .failed "Managed signer unavailable, sealed, or request rejected."
  else match body with
    | some (.obj fields) => .response (some fields)
    | _ => .failed "Invalid managed signer response."

/-- The outcomes of a response: an object with a good status code, nothing for 404, and a failure for
everything else. -/
theorem answer_cases (statusCode : ℕ) (body : Option Json) :
    (statusCode = 404 ∧ answer statusCode body = .response none) ∨
      (∃ fields, statusCode = 200 ∧ body = some (.obj fields) ∧
        answer statusCode body = .response (some fields)) ∨
      ((∀ fields, ¬(statusCode = 200 ∧ body = some (.obj fields))) ∧
        ∃ message, answer statusCode body = .failed message) := by
  simp only [answer]
  split
  · exact .inl ⟨‹_›, rfl⟩
  · split
    · exact .inr (.inr ⟨fun _ h => by omega, _, rfl⟩)
    · rename_i hcode
      split
      · rename_i fields
        exact .inr (.inl ⟨fields, not_not.mp hcode, rfl, rfl⟩)
      · rename_i hbody
        exact .inr (.inr ⟨fun fields h => hbody fields h.2, _, rfl⟩)

/-- The two requests about a payload. -/
inductive SignerRequest
  | create
  | get

/-- The program of a request. -/
def SignerRequest.program (node : Node) (managedKey : ManagedSigningKey) (payload : String) :
    SignerRequest → Cms (Option ManagedSigningRequest)
  | create => createRequest node managedKey payload
  | get => getRequest node managedKey payload

/-- What a request makes of the answer that its call returned. -/
def SignerRequest.check (node : Node) (managedKey : ManagedSigningKey) (payload : String)
    (r : Except String (Option (List (String × Json)))) :
    Except (Failure String) (Option ManagedSigningRequest) :=
  (r.bind fun value => signingRequest node value managedKey payload).mapError .raised

/-- A request checks what its call returned. -/
theorem SignerRequest.eval (q : SignerRequest) {o : Outcome}
    {r : Except String (Option (List (String × Json)))} {i : ℕ} {σ : CmsState}
    (hlive : σ.server.gone i = false)
    (ho : ∀ path body w, CmsCall.run i (.signer path body) o w = some (r, w)) :
    (q.program node managedKey payload).eval cms i [.ext o] σ =
      some (SignerRequest.check node managedKey payload r, σ) := by
  have rest : ((Cms.orThrow r >>= fun value =>
      Cms.orThrow (signingRequest node value managedKey payload)) :
        Cms (Option ManagedSigningRequest)).eval cms i [] σ =
      some (SignerRequest.check node managedKey payload r, σ) := by
    cases r with
    | error e => rfl
    | ok value =>
      simp only [Cms.orThrow, Prog.pure_eq, Prog.bind_eq, Prog.ret_bind, SignerRequest.check,
        Except.bind]
      cases signingRequest node value managedKey payload <;> rfl
  have run : ∀ path body, cms.run i (.ext (.signer path body)) (.ext o) σ = some (r, σ) := by
    intro path body
    simp only [cms, Service, hlive, cmsWorld, ho]
    rfl
  have both : ∀ path body, (((Cms.call (.signer path body)) >>= fun value => Cms.orThrow value >>=
      fun value => Cms.orThrow (signingRequest node value managedKey payload)) :
        Cms (Option ManagedSigningRequest)).eval cms i [.ext o] σ =
      some (SignerRequest.check node managedKey payload r, σ) := by
    intro path body
    exact (congrArg (Option.bind · _) (run path body)).trans rest
  cases q <;> exact both _ _

variable (node managedKey payload) in
/-- The result of a request that got a response. -/
theorem SignerRequest.eval_answer (q : SignerRequest) (statusCode : ℕ) (body : Option Json) :
    ∃ r, (∀ i σ, σ.server.gone i = false → (q.program node managedKey payload).eval cms i
        [.ext (answer statusCode body)] σ =
          some (SignerRequest.check node managedKey payload r, σ)) ∧
      ((statusCode = 404 ∧ r = .ok none) ∨
        (∃ fields, statusCode = 200 ∧ body = some (.obj fields) ∧ r = .ok (some fields)) ∨
        ((∀ fields, ¬(statusCode = 200 ∧ body = some (.obj fields))) ∧ ∃ m, r = .error m)) := by
  rcases answer_cases statusCode body with ⟨h, ha⟩ | ⟨fields, h, hb, ha⟩ | ⟨h, m, ha⟩ <;>
    simp only [ha]
  · exact ⟨.ok none, fun i σ hlive => q.eval hlive fun _ _ _ => rfl, .inl ⟨h, rfl⟩⟩
  · exact ⟨.ok (some fields), fun i σ hlive => q.eval hlive fun _ _ _ => rfl,
      .inr (.inl ⟨fields, h, hb, rfl⟩)⟩
  · exact ⟨.error m, fun i σ hlive => q.eval hlive fun _ _ _ => rfl, .inr (.inr ⟨h, m, rfl⟩)⟩

/-- A request without its connection returns nothing. -/
theorem SignerRequest.eval_gone (q : SignerRequest) {c : (cms).Choice} {i : ℕ} {σ : CmsState}
    (hgone : σ.server.gone i = true) :
    (q.program node managedKey payload).eval cms i [c] σ = none := by
  have run : ∀ path body, cms.run i (.ext (.signer path body)) c σ = none := by
    intro path body
    cases c <;> simp only [cms, Service, hgone, if_true]
  cases q <;> exact congrArg (Option.bind · _) (run _ _)

/-- A database without rows. -/
def emptyDb : Db := ⟨⟨[], [], [], [], [], [], [], []⟩, by decide⟩

variable (node managedKey payload) in
/-- For every response of the signer: the request returns null only for 404, and otherwise a
validated request or an exception, if and only if the response is not one that matches and disguises
its status. -/
theorem signer_answer_validated_iff (q : SignerRequest) (statusCode : ℕ) (body : Option Json) :
    (∀ i σ σ' r, (q.program node managedKey payload).eval cms i
        [.ext (answer statusCode body)] σ = some (.ok r, σ') →
      (r = none → statusCode = 404) ∧ ∀ request ∈ r, Validated node managedKey payload request) ↔
      ∀ fields, statusCode = 200 → body = some (.obj fields) →
        ¬(Matches node fields managedKey payload ∧ Disguised fields) := by
  obtain ⟨r₀, heval, hr₀⟩ := q.eval_answer node managedKey payload statusCode body
  constructor
  · rintro h fields rfl rfl
    refine signingRequest_validated_iff.mp fun r hr => ?_
    have hrun := heval 0 ⟨Server.idle emptyDb, emptyWorld⟩ rfl
    rcases hr₀ with ⟨h404, -⟩ | ⟨fields', -, hb, rfl⟩ | ⟨hno, -⟩
    · exact absurd h404 (by decide)
    · obtain rfl := Json.obj.inj (Option.some.inj hb)
      refine (h 0 _ ⟨Server.idle emptyDb, emptyWorld⟩ (some r) (hrun.trans ?_)).2 r rfl
      simp only [SignerRequest.check, Except.bind, hr, Except.mapError]
    · exact absurd ⟨rfl, rfl⟩ (hno fields)
  · intro h i σ σ' r he
    cases hgone : σ.server.gone i with
    | true => exact absurd ((q.eval_gone hgone).symm.trans he) nofun
    | false =>
      have hres := (Prod.mk.inj (Option.some.inj ((heval i σ hgone).symm.trans he))).1
      rcases hr₀ with ⟨h404, rfl⟩ | ⟨fields, hcode, hb, rfl⟩ | ⟨-, m, rfl⟩
      · obtain rfl := Except.ok.inj hres
        exact ⟨fun _ => h404, nofun⟩
      · simp only [SignerRequest.check, Except.bind] at hres
        cases hr : signingRequest node (some fields) managedKey payload with
        | error e =>
          rw [hr] at hres
          cases hres
        | ok r' =>
          rw [hr] at hres
          obtain rfl := Except.ok.inj hres
          refine ⟨?_, ?_⟩
          · rintro rfl
            exact absurd hr (signingRequest_ne_none fields)
          · rintro request hm
            exact signingRequest_validated_iff.mpr (h fields hcode hb) request
              (hr.trans (by rw [hm]))
      · cases hres

/-! ## An array for a status -/

/-- A managed key under the toy scheme. -/
def toyManagedKey : ManagedSigningKey where
  product := "p"
  keyVersion := 1
  keyId := toyNode.digest "sha256" (toyNode.exportDer 'A')
  publicKey := "-----BEGIN PUBLIC KEY-----A"

/-- An answer about a payload with a given status and signature. -/
def toyAnswer (payload : String) (status signature : Json) : List (String × Json) :=
  [("product", .str "p"), ("keyVersion", .int 1), ("keyId", .str toyManagedKey.keyId),
    ("publicKey", .str toyManagedKey.publicKey),
    ("id", .str (managedRequestId toyNode "p" toyManagedKey.keyId payload)),
    ("payload", .str payload),
    ("payloadDigest", .str (toyNode.digest "sha256" (Base64Url.decodeLenient payload.toList))),
    ("status", status), ("signature", signature), ("expiresAt", .int 1900000000)]

/-- The key of such an answer is the managed key. -/
theorem key_toyAnswer (payload : String) (status signature : Json) :
    key toyNode (some (toyAnswer payload status signature)) toyManagedKey.product =
      .ok toyManagedKey := by
  have hversion : ((Json.obj (toyAnswer payload status signature)).get? "keyVersion").bind
      Js.integer? = some 1 := Js.integer?_int (by decide)
  simp only [key, hversion]
  rfl

/-- The answer with `["signed"]` for its status and no signature is accepted, and is not
validated. -/
theorem disguised_answer_accepted :
    ∃ r σ', (SignerRequest.get.program toyNode toyManagedKey "e30").eval cms 0
        [.ext (answer 200 (some (.obj (toyAnswer "e30" (.arr [.str "signed"]) .null))))]
        ⟨Server.idle emptyDb, emptyWorld⟩ = some (.ok (some r), σ') ∧
      ¬Validated toyNode toyManagedKey "e30" r := by
  have hm : Matches toyNode (toyAnswer "e30" (.arr [.str "signed"]) .null) toyManagedKey "e30" :=
    ⟨⟨_, key_toyAnswer _ _ _, rfl, rfl⟩, rfl, rfl, rfl, 1900000000,
      Js.integer?_int (by decide), by decide⟩
  obtain ⟨r, hr, hstatus⟩ := signingRequest_of_matches hm (by decide) (by decide) (by decide)
  refine ⟨r, ⟨Server.idle emptyDb, emptyWorld⟩, ?_, fun h => ?_⟩
  · refine (SignerRequest.eval .get rfl fun _ _ _ => rfl).trans ?_
    simp only [SignerRequest.check, Except.bind, hr, Except.mapError]
    rfl
  · rcases h.status with ⟨hs, -⟩ | ⟨hs, -⟩
    · exact absurd (hstatus.symm.trans hs) (by decide)
    · exact absurd (hstatus.symm.trans hs) (by decide)

end Reeva
