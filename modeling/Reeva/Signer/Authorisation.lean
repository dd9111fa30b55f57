import Reeva.Signer.Retention

/-!
# Who has signed what

A request is signed by one approval, of which the audit has one event, and nothing signs it again:
later approvals respond with what is there, and the other handler neither signs nor loses a
signature. What the approval has checked is about the row as it was then; the columns that it
checked are not changed afterwards, but for the expiry (`signer_authorisation`).
-/

open Interleaving ReadCommitted

namespace Reeva.Signer

/-! ## Keys and signatures -/

/-- What the signer relies on of the crates: a PEM is read back as its key, and the digest of a DER
tells keys apart. -/
structure Crates.Faithful (crates : Crates) : Prop where
  pem : ∀ key pem, crates.toPublicKeyPem key = some pem → crates.fromPublicKeyPem pem = some key
  der : ∀ key key' der der', crates.toPublicKeyDer key = some der →
    crates.toPublicKeyDer key' = some der' → crates.sha256 der = crates.sha256 der' → key = key'

/-- A row has the key that was read when it was made. -/
def HasKey (crates : Crates) (r : SigningRequest) : Prop :=
  ∃ product version answer key, readKey crates product version answer = .ok key ∧
    key.keyId = r.keyId ∧ key.publicKey = r.publicKey

/-- A text is the signature of a row's payload with the row's key, as the key store had it. -/
def SignedWith (crates : Crates) (r : SigningRequest) (signature : String) : Prop :=
  ∃ bytes manifest key found answer, parsePayload r.payload r.product = .ok (bytes, manifest) ∧
    readKey crates r.product (some r.keyVersion) found = .ok key ∧ key.keyId = r.keyId ∧
    readSignature crates key bytes answer = .ok signature

/-- The signature of a row is one of exactly the bytes of its payload with its public key, whose
fingerprint is the row's. -/
def Verifies (crates : Crates) (r : SigningRequest) : Prop :=
  ∃ bytes manifest pub der signature, parsePayload r.payload r.product = .ok (bytes, manifest) ∧
    crates.fromPublicKeyPem r.publicKey = some pub ∧ crates.toPublicKeyDer pub = some der ∧
    r.keyId = digest crates der ∧
    r.signature = some (String.ofList (Base64Url.encode signature)) ∧ signature.length = 64 ∧
    crates.verifyStrict pub bytes signature = true

section keys

variable {crates : Crates} {r : SigningRequest}

/-- A signature with the key that a row has verifies with the row's public key. -/
theorem SignedWith.verifies (hcrates : crates.Faithful) {signature : String}
    (h : SignedWith crates r signature) (hkey : HasKey crates r)
    (hr : r.signature = some signature) : Verifies crates r := by
  obtain ⟨bytes, manifest, key, found, answer, hread, hfound, hid, hsigned⟩ := h
  obtain ⟨product, version, made, key₀, hmade, hid₀, hpublic₀⟩ := hkey
  obtain ⟨pub, der, hder, hpem, hdigest⟩ := readKey_ok hfound
  obtain ⟨pub₀, der₀, hder₀, hpem₀, hdigest₀⟩ := readKey_ok hmade
  obtain ⟨pub₁, bytes₁, hpub₁, hlength, hverify, htext⟩ := readSignature_ok hsigned
  -- The keys of the two readings have one fingerprint.
  have hsame : pub = pub₀ := by
    refine hcrates.der _ _ _ _ hder hder₀ (hexEncode_injective ?_)
    rw [hid, hdigest₀.symm.trans hid₀ |>.symm] at hdigest
    exact hdigest.symm
  have hread₁ : pub₁ = pub := Option.some.inj (hpub₁.symm.trans (hcrates.pem _ _ hpem))
  refine ⟨bytes, manifest, pub₀, der₀, bytes₁, hread, ?_, hder₀, ?_, hr.trans (by rw [htext]),
    hlength, ?_⟩
  · rw [← hpublic₀]
    exact hcrates.pem _ _ hpem₀
  · rw [← hid₀, hdigest₀]
  · rw [← hsame, ← hread₁]
    exact hverify

end keys

/-! ## What the audit says -/

/-- How many approvals of a request the audit has. -/
def approvals (id : String) (d : Db) : ℕ :=
  d.audit.countP fun a => a.requestId = id && a.event = "approved-and-signed"

/-- What holds of the tables in every run. -/
structure Accounted (crates : Crates) (d : Db) : Prop where
  once : ∀ id, approvals id d = if (signatureAt id d).isSome then 1 else 0
  keys : ∀ r ∈ d.requests, HasKey crates r
  signed : ∀ r ∈ d.requests, ∀ s, r.signature = some s → SignedWith crates r s

section steps

variable {crates : Crates} {d d' : Db} {now : ℤ} {row : SigningRequest} {p : Option String → Prop}

/-- `create_request` notes no approval. -/
theorem Enqueued.approvals_eq (h : Enqueued p row now d d') (id : String) :
    approvals id d' = approvals id d := by
  -- Neither of its events is one.
  have hnone : ∀ events : List SigningAudit,
      (∀ a ∈ events, a.event ≠ "approved-and-signed") → d'.audit = d.audit ++ events →
      approvals id d' = approvals id d := by
    intro events hevents haudit
    have hzero : (events.countP fun a =>
        a.requestId = id && a.event = "approved-and-signed") = 0 := by
      refine List.countP_eq_zero.mpr fun a ha => ?_
      rw [decide_eq_false (hevents a ha), Bool.and_false]
      exact Bool.false_ne_true
    rw [approvals, haudit, List.countP_append, hzero, Nat.add_zero, approvals]
  cases h with
  | kept hrequests haudit => rw [approvals, haudit, approvals]
  | renewed audit hp hevents hrequests haudit =>
    refine hnone audit (fun a ha => ?_) haudit
    rw [(hevents a ha).1]
    exact (by decide : ("renewed" : String) ≠ "approved-and-signed")
  | inserted hgone hroom hrequests haudit =>
    refine hnone _ (fun a ha => ?_) haudit
    rw [List.mem_singleton.mp ha]
    exact (by decide : ("requested" : String) ≠ "approved-and-signed")

/-- A row that `create_request` asks for has its key, and no signature. -/
theorem Prepared.hasKey {app : App} {authorization : Option String} {input : CreateRequest}
    (h : Prepared crates app authorization input row) :
    HasKey crates row ∧ row.signature = none := by
  obtain ⟨bytes, manifest, key, answer, -, hkey, -, rfl⟩ := h.read
  exact ⟨⟨_, _, answer, key, hkey, rfl, rfl⟩, rfl⟩

/-- `create_request` keeps the account. -/
theorem Accounted.enqueued (ha : Accounted crates d) (h : Enqueued p row now d d')
    (hkey : HasKey crates row) (hpending : row.signature = none) : Accounted crates d' := by
  refine ⟨fun id => ?_, fun r' hr' => ?_, fun r' hr' s hs => ?_⟩
  · rw [h.approvals_eq, h.signatureAt_eq hpending]
    exact ha.once id
  · rcases h.mem hr' with ⟨r, hr, e, rfl⟩ | ⟨e, rfl⟩
    · exact ha.keys r hr
    · exact hkey
  · rcases h.mem hr' with ⟨r, hr, e, rfl⟩ | ⟨e, rfl⟩
    · exact ha.signed r hr s hs
    · cases hs.symm.trans hpending

/-- `approve` keeps it. -/
theorem Accounted.approved {id : String} {input : Approval} (ha : Accounted crates d)
    (h : Approved crates id input now d d') : Accounted crates d' := by
  refine ⟨fun x => ?_, fun r' hr' => ?_, fun r' hr' s hs => ?_⟩
  · cases h with
    | unchanged hsame =>
      have hrow : signatureAt x d' = signatureAt x d :=
        congrArg (·.bind (·.signature)) (requestAt_congr fun r _ => by rw [hsame])
      rw [approvals, hsame, hrow]
      exact ha.once x
    | signed r signature hr hchecked hrequests haudit =>
      have hcount : approvals x d' = approvals x d + if id = x then 1 else 0 := by
        rw [approvals, haudit, List.countP_append, List.countP_singleton, approvals]
        simp
      by_cases hx : id = x
      · -- The request had no signature, and the audit no approval of it.
        subst hx
        obtain ⟨hmem, rfl⟩ := mem_of_requestAt hr
        have hbefore : (signatureAt r.id d).isSome = false := by
          rw [signatureAt_of_mem hmem, ← Bool.not_eq_true, ← status_signed_iff hmem]
          exact hchecked.pending
        have hafter : signatureAt r.id d' = some signature := by
          have hsigned : signing r.id signature r ∈ d'.requests := by
            rw [hrequests]
            exact List.mem_map_of_mem hmem
          rw [signing, if_pos rfl] at hsigned
          exact signatureAt_of_mem hsigned
        rw [hcount, ha.once, hbefore, hafter, if_pos rfl]
        rfl
      · have hrow : signatureAt x d' = signatureAt x d :=
          congrArg (·.bind (·.signature)) (Approved.requestAt_eq
            (.signed r signature hr hchecked hrequests haudit) fun h => hx (Row.request.inj h).symm)
        rw [hcount, if_neg hx, Nat.add_zero, hrow]
        exact ha.once x
  · rcases h.mem hr' with hr' | ⟨r, signature, hr, -, rfl⟩
    · exact ha.keys r' hr'
    · exact ha.keys r (mem_of_requestAt hr).1
  · rcases h.mem hr' with hr' | ⟨r, signature, hr, hchecked, rfl⟩
    · exact ha.signed r' hr' s hs
    · obtain ⟨bytes, manifest, key, found, answer, hread, -, hfound, hid, hsigned⟩ :=
        hchecked.signed
      rw [← Option.some.inj hs]
      exact ⟨bytes, manifest, key, found, answer, hread, hfound, hid, hsigned⟩

end steps

/-! ## Runs -/

/-- A row was signed in a run from `c₀` to `c` by an approval that presented the approver's token,
and that was for the row as it was then: its digest, the file of its manifest, and its expiry. -/
def SignedBy (crates : Crates) (requests : List Request)
    (c₀ c : Config machine (Failure ApiError) SigningRequest) (r : SigningRequest) : Prop :=
  ∃ c₁ c₂ i app authorization input now before signature,
    c₀.Run (.always machine) c₁ ∧ c₁.StepBy (.always machine) i c₂ ∧ c₂.Run (.always machine) c ∧
    requests[i]? = some (.approve app authorization r.id input) ∧
    checkAuth crates authorization app.approverHash = .ok () ∧
    (app.requesterHash ≠ app.approverHash →
      checkAuth crates authorization app.requesterHash ≠ .ok ()) ∧
    requestAt (.request r.id) c₁.state.server.db = some before ∧
    Checked crates input before now signature ∧
    requestAt (.request r.id) c₂.state.server.db =
      some { before with status := .signed, signature := some signature } ∧
    ∃ e, r = { before with status := .signed, signature := some signature, expiresAt := e }

section runs

variable {crates : Crates} {requests : List Request} {clock : ℕ}
  {c₀ c c' : Config machine (Failure ApiError) SigningRequest} {r : SigningRequest}

/-- Who presents one of two different tokens does not present the other. -/
theorem checkAuth_unique {authorization : Option String} {hash hash' : List UInt8}
    (h : checkAuth crates authorization hash = .ok ()) (hne : hash' ≠ hash) :
    checkAuth crates authorization hash' ≠ .ok () := by
  have htoken : ∀ {expected}, checkAuth crates authorization expected = .ok () →
      tokenHash crates (bearerToken authorization) = expected := by
    intro expected h
    unfold checkAuth at h
    dsimp only at h
    split at h
    · cases h
    · rename_i hboth
      exact not_ne_iff.mp (not_or.mp hboth).2
  exact fun h' => hne ((htoken h').symm.trans (htoken h))

/-- A row that was signed stays one, whatever its expiry. -/
theorem SignedBy.extend (h : SignedBy crates requests c₀ c r) (hs : c.Step (.always machine) c')
    (e : ℤ) : SignedBy crates requests c₀ c' { r with expiresAt := e } := by
  obtain ⟨c₁, c₂, i, app, authorization, input, now, before, signature, h₀, h₁, h₂, hrequest, hauth,
    hother, hbefore, hchecked, hafter, e', rfl⟩ := h
  exact ⟨c₁, c₂, i, app, authorization, input, now, before, signature, h₀, h₁, h₂.tail hs, hrequest,
    hauth, hother, hbefore, hchecked, hafter, e, rfl⟩

/-- In every run from empty tables the account is kept, and signed rows were signed by an
approval. -/
theorem run_accounted
    (hr : Config.Run (.always machine) (start crates requests emptyDb clock) c) :
    Accounted crates c.state.server.db ∧ ∀ r ∈ c.state.server.db.requests, r.signature ≠ none →
      SignedBy crates requests (start crates requests emptyDb clock) c r := by
  induction hr with
  | refl =>
    refine ⟨⟨fun _ => rfl, fun r hr => ?_, fun r hr => ?_⟩, fun r hr => ?_⟩
    all_goals cases hr
  | @tail c₁ c₂ hrun hs ih =>
    obtain ⟨haccount, hsigned⟩ := ih
    have hsound := run_sound (P := fun _ => True) (d := emptyDb) (Nat.zero_le _)
      (fun _ _ _ _ _ _ _ _ _ _ _ _ _ => trivial) hrun
    rcases Terms.published_of_step hsound hs with hdb | ⟨i, hi, request, hrequest, hpublishes, -⟩
    · rw [hdb]
      exact ⟨haccount, fun r hr hs' => (hsigned r hr hs').extend hs r.expiresAt⟩
    cases request with
    | createRequest app authorization input =>
      obtain ⟨row, now, hprepared, -, -, henqueued⟩ := hpublishes
      obtain ⟨hkey, hpending⟩ := hprepared.hasKey
      refine ⟨haccount.enqueued henqueued hkey hpending, fun r' hr' hs' => ?_⟩
      rcases henqueued.mem hr' with ⟨r, hr, e, rfl⟩ | ⟨e, rfl⟩
      · exact (hsigned r hr hs').extend hs e
      · exact absurd hpending hs'
    | getRequest app authorization id => exact hpublishes.elim
    | approve app authorization id input =>
      obtain ⟨hauth, -, now, -, happroved⟩ := hpublishes
      refine ⟨haccount.approved happroved, fun r' hr' hs' => ?_⟩
      rcases happroved.mem hr' with hr | ⟨before, signature, hbefore, hchecked, rfl⟩
      · exact (hsigned r' hr hs').extend hs r'.expiresAt
      · have hid : before.id = id := (mem_of_requestAt hbefore).2
        rw [← hid] at hrequest hbefore
        exact ⟨c₁, c₂, i, app, authorization, input, now, before, signature, hrun, hi, .refl,
          hrequest, hauth, checkAuth_unique hauth, hbefore, hchecked, requestAt_of_mem hr',
          before.expiresAt, rfl⟩

/-- In every run of any number of replicas: a row is signed exactly when the audit has one approval
of it; then it was signed by an approval with the approver's token for the row as it was, and its
signature verifies over the bytes of its payload with its public key. No response has a signature
that is not committed. -/
theorem signer_authorisation (crates : Crates) (hcrates : crates.Faithful) (requests : List Request)
    (clock : ℕ) {c : Config machine (Failure ApiError) SigningRequest}
    (hr : Config.Run (.always machine) (start crates requests emptyDb clock) c) :
    (∀ r ∈ c.state.server.db.requests,
      (r.status = .signed ↔ approvals r.id c.state.server.db = 1) ∧
      (r.status = .signed → Verifies crates r ∧
        SignedBy crates requests (start crates requests emptyDb clock) c r)) ∧
    ∀ (i : ℕ) (response : SigningRequest), c.pool[i]? = some (.ret response) →
      ∀ s, response.signature = some s →
      ∃ r ∈ c.state.server.db.requests, r.id = response.id ∧ r.signature = some s := by
  obtain ⟨haccount, hsigned⟩ := run_accounted hr
  refine ⟨fun r hmem => ⟨?_, fun hstatus => ?_⟩, fun i response hret s hs => ?_⟩
  · rw [haccount.once, signatureAt_of_mem hmem, status_signed_iff hmem]
    split
    · rename_i hsome
      exact iff_of_true hsome rfl
    · rename_i hsome
      exact iff_of_false hsome (by decide)
  · obtain ⟨s, hs⟩ := Option.isSome_iff_exists.mp ((status_signed_iff hmem).mp hstatus)
    exact ⟨(haccount.signed r hmem s hs).verifies hcrates (haccount.keys r hmem) hs,
      hsigned r hmem (by rw [hs]; exact Option.some_ne_none s)⟩
  · have hsound := run_sound (P := fun _ => True) (d := emptyDb) (Nat.zero_le _)
      (fun _ _ _ _ _ _ _ _ _ _ _ _ _ => trivial) hr
    exact exists_of_signatureAt (hsound.returned (Terms.committing_compatible _ _) hret s hs)

end runs

/-- The crates of the exchange are such. -/
theorem toyCrates_faithful : toyCrates.Faithful where
  pem key pem h := by
    have hread : ∀ key : List UInt8,
        Base64Url.decodeStrict (String.ofList (Base64Url.encode key)).toList = some key :=
      fun key => by rw [String.toList_ofList, Base64Url.decodeStrict_encode]
    rw [← Option.some.inj h]
    exact hread key
  der key key' der der' h h' hsame := by
    have hder : ∀ {key der : List UInt8}, (if key.length = 32 then some key else none) = some der →
        (der ++ List.replicate 32 0).take 32 = key := by
      intro key der h
      split at h
      · rename_i hlength
        rw [← Option.some.inj h, List.take_append_of_le_length hlength.ge, ← hlength,
          List.take_length]
      · cases h
    exact (hder h).symm.trans (hsame.trans (hder h'))

/-- After the exchange, a request is signed that its approver has approved. -/
theorem signer_authorisation_toy :
    ∃ c, Config.Run (.always machine) (start toyCrates toyRequests emptyDb 0) c ∧
      ∃ r ∈ c.state.server.db.requests, r.status = .signed ∧
        approvals r.id c.state.server.db = 1 ∧ Verifies toyCrates r ∧
        SignedBy toyCrates toyRequests (start toyCrates toyRequests emptyDb 0) c r := by
  obtain ⟨c, hr, hsigned⟩ := toy_exchange
  obtain ⟨r, hmem, hr'⟩ := List.any_eq_true.mp hsigned
  have hstatus := (status_signed_iff hmem).mpr hr'
  obtain ⟨hrows, -⟩ := signer_authorisation toyCrates toyCrates_faithful toyRequests 0 hr
  obtain ⟨honce, hboth⟩ := hrows r hmem
  exact ⟨c, hr, r, hmem, hstatus, honce.mp hstatus, (hboth hstatus).1, (hboth hstatus).2⟩

end Reeva.Signer
