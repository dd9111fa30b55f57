import Mathlib.Data.List.Nodup
import Reeva.Signer.Service

/-!
# What the signer publishes

`create_request` prunes, looks up, counts and inserts in separate statements, of which it holds the
advisory lock throughout; `approve` holds the row of its request. Neither lock protects all that
the other handler changes, so what a transaction has read is carried to its commit by both at once:
which requests there are and when they expire by the advisory lock, each request by its row. What is
published is then a relation between the tables before and after it (`Enqueued`, `Approved`).
-/

open Interleaving ReadCommitted

namespace Reeva.Signer

/-! ## What the locks protect -/

/-- The request behind a lock. -/
def requestAt : Row → Db → Option SigningRequest
  | .request id, d => Tables.request d.toTables id
  | .entry _, _ => none

/-- The identifiers of the requests. -/
def requestIds (d : Db) : List String := d.requests.map (·.id)

/-- The requests with their expiries, which only the holder of the advisory lock changes. -/
def expiries (d : Db) : List (String × ℤ) := d.requests.map fun r => (r.id, r.expiresAt)

/-- The signature of a request. -/
def signatureAt (id : String) (d : Db) : Option String :=
  (requestAt (.request id) d).bind (·.signature)

/-- Signatures are kept. -/
def KeepsSignatures (d d' : Db) : Prop :=
  ∀ id s, signatureAt id d = some s → signatureAt id d' = some s

theorem KeepsSignatures.refl (d : Db) : KeepsSignatures d d := fun _ _ h => h

theorem KeepsSignatures.trans (d₁ d₂ d₃ : Db) (h₁ : KeepsSignatures d₁ d₂)
    (h₂ : KeepsSignatures d₂ d₃) : KeepsSignatures d₁ d₃ := fun id s h => h₂ id s (h₁ id s h)

section tables

variable {d d' : Db} {r r' : SigningRequest} {id : String}

/-- A request is the only one with its identifier. -/
theorem eq_of_id (h : r ∈ d.requests) (h' : r' ∈ d.requests) (hid : r.id = r'.id) : r = r' :=
  List.inj_on_of_nodup_map d.valid.ids h h' hid

/-- A request that is found is there. -/
theorem mem_of_requestAt (h : requestAt (.request id) d = some r) : r ∈ d.requests ∧ r.id = id := by
  have hid := List.find?_some h
  exact ⟨List.mem_of_find?_eq_some h, of_decide_eq_true hid⟩

/-- A request that is there is found. -/
theorem requestAt_of_mem (h : r ∈ d.requests) : requestAt (.request r.id) d = some r := by
  cases hfound : requestAt (.request r.id) d with
  | none => exact absurd (decide_eq_true rfl) (List.find?_eq_none.mp hfound r h)
  | some r' =>
    obtain ⟨hmem, hid⟩ := mem_of_requestAt hfound
    rw [eq_of_id hmem h hid]

/-- A request without an entry is not there. -/
theorem notMem_of_requestAt (h : requestAt (.request id) d = none) : id ∉ requestIds d := by
  intro hid
  obtain ⟨r, hr, rfl⟩ := List.mem_map.mp hid
  rw [requestAt_of_mem hr] at h
  cases h

/-- The signature of a request that is there. -/
theorem signatureAt_of_mem (h : r ∈ d.requests) : signatureAt r.id d = r.signature := by
  rw [signatureAt, requestAt_of_mem h]
  rfl

/-- A signature belongs to a request that is there. -/
theorem exists_of_signatureAt {s : String} (h : signatureAt id d = some s) :
    ∃ r ∈ d.requests, r.id = id ∧ r.signature = some s := by
  obtain ⟨r, hr, hs⟩ := Option.bind_eq_some_iff.mp h
  exact ⟨r, (mem_of_requestAt hr).1, (mem_of_requestAt hr).2, hs⟩

/-- The identifiers are among what the lock protects. -/
theorem requestIds_eq (d : Db) : requestIds d = (expiries d).map (·.1) := by
  unfold requestIds expiries
  rw [List.map_map]
  rfl

/-- A request with the same expiry. -/
theorem exists_of_expiries (h : expiries d' = expiries d) (hr' : r' ∈ d'.requests) :
    ∃ r ∈ d.requests, r.id = r'.id ∧ r.expiresAt = r'.expiresAt := by
  have hmem : (r'.id, r'.expiresAt) ∈ expiries d' := List.mem_map_of_mem hr'
  rw [h] at hmem
  obtain ⟨r, hr, heq⟩ := List.mem_map.mp hmem
  exact ⟨r, hr, (Prod.mk.inj heq).1, (Prod.mk.inj heq).2⟩

/-- A request whose row stands for the same. -/
theorem eq_of_requestAt (h : requestAt (.request r.id) d' = requestAt (.request r.id) d)
    (hr : r ∈ d.requests) (hr' : r' ∈ d'.requests) (hid : r.id = r'.id) : r' = r := by
  have hfound := requestAt_of_mem hr'
  rw [← hid, h, requestAt_of_mem hr] at hfound
  exact (Option.some.inj hfound).symm

end tables

/-! ## The tables that a handler works on -/

/-- The requests that are left by a pruning. -/
def pruned (now : ℤ) (d : Db) : List SigningRequest := d.requests.filter fun r => !r.prunable now

/-- A renewal. -/
def renewal (id : String) (now : ℤ) (r : SigningRequest) : SigningRequest :=
  if r.renewable id now then { r with expiresAt := now + day } else r

/-- A signature is put down. -/
def signing (id signature : String) (r : SigningRequest) : SigningRequest :=
  if r.id = id then { r with status := .signed, signature := some signature } else r

/-- A request that is left by a pruning. -/
theorem mem_pruned {now : ℤ} {d : Db} {r : SigningRequest} :
    r ∈ pruned now d ↔ r ∈ d.requests ∧ r.prunable now = false := by
  rw [pruned, List.mem_filter, Bool.not_eq_true']

/-- The requests that are pruned are those whose rows are among some. -/
def Pruned (now : ℤ) (rows : List Row) (d : Db) : Prop :=
  ∀ r ∈ d.requests, r.prunable now = true ↔ .request r.id ∈ rows

/-- The requests that are renewed have their rows among some, and signatures that satisfy `p`. -/
def Renewable (p : Option String → Prop) (id : String) (now : ℤ) (rows : List Row) (d : Db) :
    Prop :=
  ∀ r ∈ pruned now d, r.renewable id now = true → .request r.id ∈ rows ∧ p r.signature

section pruning

variable {d d' : Db} {now : ℤ} {rows : List Row} {id : String} {p : Option String → Prop}

/-- What is left can be counted by what the lock protects. -/
theorem Pruned.length_eq (h : Pruned now rows d) :
    (pruned now d).length = (expiries d).countP fun e => .request e.1 ∉ rows := by
  unfold pruned expiries
  rw [← List.countP_eq_length_filter, List.countP_map]
  refine List.countP_congr fun r hr => ?_
  rw [Function.comp_apply, decide_eq_true_eq, ← h r hr]
  simp

/-- Where nothing changes that the locks protect, the same requests are pruned. -/
theorem Pruned.stays (h : Pruned now rows d) (hexpiries : expiries d' = expiries d)
    (hkeeps : KeepsSignatures d d') (hrows : ∀ r ∈ rows, requestAt r d' = requestAt r d) :
    Pruned now rows d' := by
  intro r' hr'
  obtain ⟨r, hr, hid, hexpires⟩ := exists_of_expiries hexpiries hr'
  constructor
  · intro hprunable
    rw [← hid, ← h r hr]
    -- A request that was signed would still be.
    unfold SigningRequest.prunable at hprunable ⊢
    rw [Bool.and_eq_true, Option.isNone_iff_eq_none] at hprunable
    rw [Bool.and_eq_true, Option.isNone_iff_eq_none, hexpires]
    refine ⟨?_, hprunable.2⟩
    cases hsigned : r.signature with
    | none => rfl
    | some s =>
      have hstill := hkeeps r.id s ((signatureAt_of_mem hr).trans hsigned)
      rw [hid, signatureAt_of_mem hr', hprunable.1] at hstill
      cases hstill
  · intro hmem
    rw [← hid] at hmem
    rw [eq_of_requestAt (hrows _ hmem) hr hr' hid]
    exact (h r hr).mpr hmem

/-- A request that is left is left where the same requests are pruned. -/
theorem Pruned.exists_of_mem (h : Pruned now rows d) (h' : Pruned now rows d')
    (hexpiries : expiries d' = expiries d) {r' : SigningRequest} (hr' : r' ∈ pruned now d') :
    ∃ r ∈ pruned now d, r.id = r'.id ∧ r.expiresAt = r'.expiresAt := by
  rw [mem_pruned] at hr'
  obtain ⟨r, hr, hid, hexpires⟩ := exists_of_expiries hexpiries hr'.1
  refine ⟨r, mem_pruned.mpr ⟨hr, ?_⟩, hid, hexpires⟩
  rw [← Bool.not_eq_true, h r hr, hid, ← h' r' hr'.1, Bool.not_eq_true]
  exact hr'.2

/-- Nor do others renew what the locks protect. -/
theorem Renewable.stays {rows' : List Row} (h : Renewable p id now rows' d)
    (hpruned : Pruned now rows d) (hpruned' : Pruned now rows d')
    (hexpiries : expiries d' = expiries d)
    (hrows : ∀ r ∈ rows', requestAt r d' = requestAt r d) : Renewable p id now rows' d' := by
  intro r' hr' hrenewable
  obtain ⟨r, hr, hid, hexpires⟩ := hpruned.exists_of_mem hpruned' hexpiries hr'
  have hsame : r.renewable id now = true := by
    unfold SigningRequest.renewable at hrenewable ⊢
    rw [hid, hexpires]
    exact hrenewable
  obtain ⟨hmem, hp⟩ := h r hr hsame
  rw [eq_of_requestAt (hrows _ hmem) (mem_pruned.mp hr).1 (mem_pruned.mp hr').1 hid]
  exact ⟨hmem, hp⟩

end pruning


/-! ## What is published -/

/-- What `create_request` publishes for the row of a request. -/
inductive Enqueued (p : Option String → Prop) (row : SigningRequest) (now : ℤ) (d d' : Db) : Prop
  | kept (hrequests : d'.requests = pruned now d) (haudit : d'.audit = d.audit)
  | renewed (audit : List SigningAudit)
      (hp : ∀ r ∈ pruned now d, r.renewable row.id now = true → p r.signature)
      (hevents : ∀ a ∈ audit, a = ⟨row.id, "renewed", "requester"⟩ ∧
        ∃ r ∈ pruned now d, r.renewable row.id now = true)
      (hrequests : d'.requests = (pruned now d).map (renewal row.id now))
      (haudit : d'.audit = d.audit ++ audit)
  | inserted (hgone : ∀ r ∈ d.requests, r.id = row.id → r.prunable now = true)
      (hroom : (pruned now d).length < 10000)
      (hrequests : d'.requests = pruned now d ++ [{ row with expiresAt := now + day }])
      (haudit : d'.audit = d.audit ++ [⟨row.id, "requested", "requester"⟩])

/-- An approval is for a request as it is. -/
structure Approval.Matches (input : Approval) (r : SigningRequest) (manifest : Manifest) :
    Prop where
  payloadDigest : input.payloadDigest = r.payloadDigest
  artifactSha256 : input.artifactSha256 = manifest.sha256
  artifactSizeBytes : input.artifactSizeBytes = manifest.sizeBytes
  expiresAt : input.expiresAt = r.expiresAt

/-- What `approve` has checked when it signs a request. -/
structure Checked (crates : Crates) (input : Approval) (r : SigningRequest) (now : ℤ)
    (signature : String) : Prop where
  pending : r.status ≠ .signed
  unexpired : now ≤ r.expiresAt
  signed : ∃ bytes manifest key found answer,
    parsePayload r.payload r.product = .ok (bytes, manifest) ∧ input.Matches r manifest ∧
      readKey crates r.product (some r.keyVersion) found = .ok key ∧ key.keyId = r.keyId ∧
      readSignature crates key bytes answer = .ok signature

/-- What `approve` publishes for an identifier. -/
inductive Approved (crates : Crates) (id : String) (input : Approval) (now : ℤ) (d d' : Db) : Prop
  | unchanged (h : d'.toTables = d.toTables)
  | signed (r : SigningRequest) (signature : String) (hr : requestAt (.request id) d = some r)
      (hchecked : Checked crates input r now signature)
      (hrequests : d'.requests = d.requests.map (signing id signature))
      (haudit : d'.audit = d.audit ++ [⟨id, "approved-and-signed", "approver"⟩])

section effects

variable {d d' : Db} {now : ℤ} {row : SigningRequest} {p : Option String → Prop} {crates : Crates}
  {id : String} {input : Approval}

/-- A renewal keeps all but the expiry. -/
theorem renewal_keeps (id : String) (now : ℤ) (r : SigningRequest) :
    (renewal id now r).id = r.id ∧ (renewal id now r).signature = r.signature := by
  unfold renewal
  split
  · exact ⟨rfl, rfl⟩
  · exact ⟨rfl, rfl⟩

/-- Signing keeps the identifier and the expiry. -/
theorem signing_keeps (id signature : String) (r : SigningRequest) :
    (signing id signature r).id = r.id ∧ (signing id signature r).expiresAt = r.expiresAt := by
  unfold signing
  split
  · exact ⟨rfl, rfl⟩
  · exact ⟨rfl, rfl⟩

/-- A request has a signature when its status says so. -/
theorem status_signed_iff {r : SigningRequest} (hr : r ∈ d.requests) :
    r.status = .signed ↔ r.signature.isSome = true := by
  have hfits := d.valid.requests r hr
  unfold SigningRequest.fits at hfits
  rw [Bool.and_eq_true, decide_eq_true_eq] at hfits
  exact iff_of_eq hfits.2

/-- What is signed is not pruned. -/
theorem mem_pruned_of_signed {r : SigningRequest} (hr : r ∈ d.requests)
    (hsigned : r.signature ≠ none) : r ∈ pruned now d := by
  refine mem_pruned.mpr ⟨hr, ?_⟩
  unfold SigningRequest.prunable
  rw [Option.isNone_eq_false_iff.mpr (Option.isSome_iff_ne_none.mpr hsigned), Bool.false_and]

/-- Where the requests with an identifier are the same, so is what stands behind its row. -/
theorem requestAt_congr (h : ∀ r, r.id = id → (r ∈ d'.requests ↔ r ∈ d.requests)) :
    requestAt (.request id) d' = requestAt (.request id) d := by
  cases hfound : requestAt (.request id) d with
  | some r =>
    obtain ⟨hmem, rfl⟩ := mem_of_requestAt hfound
    exact requestAt_of_mem ((h r rfl).mpr hmem)
  | none =>
    cases hfound' : requestAt (.request id) d' with
    | none => rfl
    | some r =>
      obtain ⟨hmem, hid⟩ := mem_of_requestAt hfound'
      exact absurd (List.mem_map.mpr ⟨r, (h r hid).mp hmem, hid⟩) (notMem_of_requestAt hfound)

/-- `create_request` keeps signatures. -/
theorem Enqueued.keepsSignatures (h : Enqueued p row now d d') : KeepsSignatures d d' := by
  intro id s hs
  obtain ⟨r, hr, rfl, hsigned⟩ := exists_of_signatureAt hs
  have hleft : r ∈ pruned now d :=
    mem_pruned_of_signed hr (by rw [hsigned]; exact Option.some_ne_none s)
  cases h with
  | kept hrequests haudit =>
    rw [signatureAt_of_mem (by rw [hrequests]; exact hleft), hsigned]
  | renewed audit hp hevents hrequests haudit =>
    have hmem : renewal row.id now r ∈ d'.requests := by
      rw [hrequests]
      exact List.mem_map_of_mem hleft
    have hsame := signatureAt_of_mem hmem
    rwa [(renewal_keeps row.id now r).1, (renewal_keeps row.id now r).2, hsigned] at hsame
  | inserted hgone hroom hrequests haudit =>
    have hmem : r ∈ d'.requests := by
      rw [hrequests]
      exact List.mem_append_left _ hleft
    rw [signatureAt_of_mem hmem, hsigned]

/-- What it leaves was there, but for the expiry, or is the row. -/
theorem Enqueued.mem (h : Enqueued p row now d d') {r' : SigningRequest} (hr' : r' ∈ d'.requests) :
    (∃ r ∈ d.requests, ∃ e, r' = { r with expiresAt := e }) ∨
      ∃ e, r' = { row with expiresAt := e } := by
  cases h with
  | kept hrequests haudit =>
    rw [hrequests] at hr'
    exact .inl ⟨r', (mem_pruned.mp hr').1, r'.expiresAt, rfl⟩
  | renewed audit hp hevents hrequests haudit =>
    rw [hrequests] at hr'
    obtain ⟨r, hr, rfl⟩ := List.mem_map.mp hr'
    refine .inl ⟨r, (mem_pruned.mp hr).1, ?_⟩
    unfold renewal
    split
    · exact ⟨now + day, rfl⟩
    · exact ⟨r.expiresAt, rfl⟩
  | inserted hgone hroom hrequests haudit =>
    rw [hrequests, List.mem_append, List.mem_singleton] at hr'
    rcases hr' with hr' | rfl
    · exact .inl ⟨r', (mem_pruned.mp hr').1, r'.expiresAt, rfl⟩
    · exact .inr ⟨now + day, rfl⟩

/-- It signs nothing. -/
theorem Enqueued.signatureAt_eq (h : Enqueued p row now d d') (hpending : row.signature = none)
    (id : String) : signatureAt id d' = signatureAt id d := by
  cases hbefore : signatureAt id d with
  | some s => exact h.keepsSignatures id s hbefore
  | none =>
    cases hafter : signatureAt id d' with
    | none => rfl
    | some s =>
      obtain ⟨r', hr', rfl, hs⟩ := exists_of_signatureAt hafter
      rcases h.mem hr' with ⟨r, hr, e, rfl⟩ | ⟨e, rfl⟩
      · rw [← hbefore, signatureAt_of_mem hr, ← hs]
      · exact hs.symm.trans hpending

/-- It keeps the bound. -/
theorem Enqueued.bound (h : Enqueued p row now d d') (hd : d.requests.length ≤ 10000) :
    d'.requests.length ≤ 10000 := by
  have hle : (pruned now d).length ≤ d.requests.length := List.length_filter_le _ _
  cases h with
  | kept hrequests haudit =>
    rw [hrequests]
    exact hle.trans hd
  | renewed audit hp hevents hrequests haudit =>
    rw [hrequests, List.length_map]
    exact hle.trans hd
  | inserted hgone hroom hrequests haudit =>
    rw [hrequests, List.length_append, List.length_singleton]
    exact hroom

/-- For an identifier that is there it adds no request. -/
theorem Enqueued.not_grown (h : Enqueued p row now d d') (hid : row.id ∈ requestIds d) :
    d'.requests.length ≤ d.requests.length := by
  have hle : (pruned now d).length ≤ d.requests.length := List.length_filter_le _ _
  cases h with
  | kept hrequests haudit =>
    rw [hrequests]
    exact hle
  | renewed audit hp hevents hrequests haudit =>
    rw [hrequests, List.length_map]
    exact hle
  | inserted hgone hroom hrequests haudit =>
    -- The request with the identifier is pruned.
    obtain ⟨r, hr, hid⟩ := List.mem_map.mp hid
    have hlt : (pruned now d).length < d.requests.length := by
      refine List.length_filter_lt_length_iff_exists.mpr ⟨r, hr, ?_⟩
      rw [hgone r hr hid]
      exact Bool.false_ne_true
    rw [hrequests, List.length_append, List.length_singleton]
    exact hlt

/-- `approve` leaves what the advisory lock protects. -/
theorem Approved.expiries_eq (h : Approved crates id input now d d') :
    expiries d' = expiries d := by
  cases h with
  | unchanged h =>
    unfold expiries
    rw [h]
  | signed r signature hr hchecked hrequests haudit =>
    unfold expiries
    rw [hrequests, List.map_map]
    refine List.map_congr_left fun r' _ => ?_
    rw [Function.comp_apply, (signing_keeps id signature r').1, (signing_keeps id signature r').2]

/-- It leaves the other requests. -/
theorem Approved.requestAt_eq (h : Approved crates id input now d d') {row : Row}
    (hrow : row ≠ .request id) : requestAt row d' = requestAt row d := by
  cases row with
  | entry x => rfl
  | request x =>
    have hne : ∀ r : SigningRequest, r.id = x → ¬r.id = id := fun r hx hid =>
      hrow (by rw [← hx, hid])
    refine requestAt_congr fun r hid => ?_
    cases h with
    | unchanged h => rw [h]
    | signed r₀ signature hr hchecked hrequests haudit =>
      rw [hrequests]
      constructor
      · intro hmem
        obtain ⟨r', hr', rfl⟩ := List.mem_map.mp hmem
        rw [(signing_keeps id signature r').1] at hid
        rwa [signing, if_neg (hne r' hid)]
      · intro hmem
        refine List.mem_map.mpr ⟨r, hmem, ?_⟩
        rw [signing, if_neg (hne r hid)]

/-- What it leaves was there, or is the request that it has signed. -/
theorem Approved.mem (h : Approved crates id input now d d') {r' : SigningRequest}
    (hr' : r' ∈ d'.requests) : r' ∈ d.requests ∨
      ∃ r signature, requestAt (.request id) d = some r ∧ Checked crates input r now signature ∧
        r' = { r with status := .signed, signature := some signature } := by
  cases h with
  | unchanged h =>
    rw [h] at hr'
    exact .inl hr'
  | signed r signature hr hchecked hrequests haudit =>
    rw [hrequests] at hr'
    obtain ⟨r₀, hr₀, rfl⟩ := List.mem_map.mp hr'
    obtain ⟨hmem, hid⟩ := mem_of_requestAt hr
    by_cases hsame : r₀.id = id
    · obtain rfl := eq_of_id hr₀ hmem (hsame.trans hid.symm)
      exact .inr ⟨r₀, signature, hr, hchecked, if_pos hsame⟩
    · rw [signing, if_neg hsame]
      exact .inl hr₀

/-- It keeps signatures. -/
theorem Approved.keepsSignatures (h : Approved crates id input now d d') :
    KeepsSignatures d d' := by
  intro x s hs
  by_cases hx : x = id
  · cases h with
    | unchanged h =>
      obtain ⟨r, hr, rfl, hsigned⟩ := exists_of_signatureAt hs
      rw [signatureAt_of_mem (by rw [h]; exact hr), hsigned]
    | signed r signature hr hchecked hrequests haudit =>
      -- The request that it signs was not signed.
      obtain ⟨r', hr', hid', hsigned⟩ := exists_of_signatureAt hs
      obtain ⟨hmem, hid⟩ := mem_of_requestAt hr
      rw [eq_of_id hr' hmem (by rw [hid', hid, hx])] at hsigned
      refine absurd ((status_signed_iff hmem).mpr ?_) hchecked.pending
      rw [hsigned]
      rfl
  · rw [signatureAt, h.requestAt_eq (fun heq => hx (Row.request.inj heq))]
    exact hs

end effects

/-! ## What a transaction knows at its commit -/

/-- What `create_request` knows once the request with an identifier was not found. -/
structure Absent (id : String) (now : ℤ) (rows : List Row) (d : Db) : Prop where
  gone : Pruned now rows d
  id : id ∈ requestIds d → .request id ∈ rows

/-- What `create_request` knows once it has renewed `n` requests. -/
structure Renewing (p : Option String → Prop) (id : String) (now : ℤ) (n : ℕ)
    (rows rows' : List Row) (d : Db) : Prop where
  gone : Pruned now rows d
  locked : Renewable p id now rows' d
  counted : n ≠ 0 → ∃ r ∈ pruned now d, r.renewable id now = true

/-- What `create_request` has written when it commits, and what it knows then. -/
inductive Enqueuing (p : Option String → Prop) (row : SigningRequest) (now : ℤ)
    (rows rows' : List Row) (ws : List Write) (d : Db) : Prop
  | kept (hpruned : Pruned now rows d) (hws : ws = [.prune now])
  | renewed (n : ℕ) (audit : List SigningAudit) (h : Renewing p row.id now n rows rows' d)
      (hevents : ∀ a ∈ audit, a = ⟨row.id, "renewed", "requester"⟩ ∧ n ≠ 0)
      (hws : ws = .prune now :: .renew row.id now :: audit.map .insertAudit)
  | inserted (habsent : Absent row.id now rows d) (hroom : (pruned now d).length < 10000)
      (hrow : .request row.id ∈ rows')
      (hws : ws = [.prune now, .insertRequest { row with expiresAt := now + day },
        .insertAudit ⟨row.id, "requested", "requester"⟩])

/-- What `approve` has written when it commits with a response, and what it knows then. -/
inductive Approving (crates : Crates) (id : String) (input : Approval) (now : ℤ)
    (response : SigningRequest) (ws : List Write) (d : Db) : Prop
  | unchanged (hr : requestAt (.request id) d = some response)
      (hexpires : input.expiresAt = response.expiresAt) (hws : ws = [])
  | signed (r : SigningRequest) (signature : String) (hr : requestAt (.request id) d = some r)
      (hchecked : Checked crates input r now signature)
      (hresponse : response = { r with status := .signed, signature := some signature })
      (hws : ws = [.sign id signature, .insertAudit ⟨id, "approved-and-signed", "approver"⟩])

/-- A response has no signature that is not committed. -/
def Committed (response : SigningRequest) (d : Db) : Prop :=
  ∀ s, response.signature = some s → signatureAt response.id d = some s

section commits

variable {d d' : Db} {now : ℤ} {row : SigningRequest} {p : Option String → Prop} {crates : Crates}
  {id : String} {input : Approval} {rows rows' : List Row} {ws : List Write}

theorem Absent.stays (h : Absent id now rows d) (hexpiries : expiries d' = expiries d)
    (hkeeps : KeepsSignatures d d') (hrows : ∀ r ∈ rows, requestAt r d' = requestAt r d) :
    Absent id now rows d' ∧ (pruned now d').length = (pruned now d).length := by
  have hpruned := h.gone.stays hexpiries hkeeps hrows
  refine ⟨⟨hpruned, fun hid => h.id ?_⟩, ?_⟩
  · rwa [requestIds_eq, hexpiries, ← requestIds_eq] at hid
  · rw [hpruned.length_eq, hexpiries, ← h.gone.length_eq]

theorem Renewing.stays {n : ℕ} (h : Renewing p id now n rows rows' d)
    (hexpiries : expiries d' = expiries d) (hkeeps : KeepsSignatures d d')
    (hrows : ∀ r ∈ rows, requestAt r d' = requestAt r d)
    (hrows' : ∀ r ∈ rows', requestAt r d' = requestAt r d) : Renewing p id now n rows rows' d' := by
  have hgone := h.gone.stays hexpiries hkeeps hrows
  refine ⟨hgone, h.locked.stays h.gone hgone hexpiries hrows', fun hn => ?_⟩
  obtain ⟨r, hr, hsame⟩ := h.counted hn
  obtain ⟨r', hr', hid, hexpires⟩ := hgone.exists_of_mem h.gone hexpiries.symm hr
  refine ⟨r', hr', ?_⟩
  unfold SigningRequest.renewable at hsame ⊢
  rw [hid, hexpires]
  exact hsame

/-- What is known stays where nothing changes that the locks protect. -/
theorem Enqueuing.stays (h : Enqueuing p row now rows rows' ws d)
    (hexpiries : expiries d' = expiries d) (hkeeps : KeepsSignatures d d')
    (hrows : ∀ r ∈ rows, requestAt r d' = requestAt r d)
    (hrows' : ∀ r ∈ rows', requestAt r d' = requestAt r d) :
    Enqueuing p row now rows rows' ws d' := by
  cases h with
  | kept hpruned hws => exact .kept (hpruned.stays hexpiries hkeeps hrows) hws
  | renewed n audit h hevents hws =>
    exact .renewed n audit (h.stays hexpiries hkeeps hrows hrows') hevents hws
  | inserted habsent hroom hrow hws =>
    obtain ⟨habsent', hlength⟩ := habsent.stays hexpiries hkeeps hrows
    exact .inserted habsent' (by rwa [hlength]) hrow hws

/-- The tables after some writes are published. -/
theorem toTables_publish (h : Server.publish (D := schema) ws d = some d') :
    d'.toTables = ws.foldl (fun t w => (w.run t).2) d.toTables := by
  induction ws generalizing d with
  | nil => exact congrArg Db.toTables (Option.some.inj h).symm
  | cons w ws ih =>
    obtain ⟨d₁, h₁, h₂⟩ := publish_cons h
    rw [ih h₂, h₁, List.foldl_cons]

/-- Notes of events change the audit only. -/
theorem foldl_insertAudit (audit : List SigningAudit) (t : Tables) :
    (audit.map Write.insertAudit).foldl (fun t w => (w.run t).2) t =
      ⟨t.requests, t.audit ++ audit⟩ := by
  induction audit generalizing t with
  | nil => rw [List.append_nil]; rfl
  | cons a audit ih =>
    rw [List.map_cons, List.foldl_cons, ih]
    change Tables.mk t.requests ((t.audit ++ [a]) ++ audit) = _
    rw [List.append_assoc, List.singleton_append]

/-- What `create_request` publishes. -/
theorem Enqueuing.enqueued (h : Enqueuing p row now rows rows' ws d)
    (hd : Server.publish (D := schema) ws d = some d') : Enqueued p row now d d' := by
  have htables := toTables_publish hd
  cases h with
  | kept hpruned hws =>
    rw [hws] at htables
    exact .kept (by rw [htables]; rfl) (by rw [htables]; rfl)
  | renewed n audit h hevents hws =>
    rw [hws, List.foldl_cons, List.foldl_cons, foldl_insertAudit] at htables
    exact .renewed audit (fun r hr hsame => (h.locked r hr hsame).2)
      (fun a ha => ⟨(hevents a ha).1, h.counted (hevents a ha).2⟩) (by rw [htables]; rfl)
      (by rw [htables]; rfl)
  | inserted habsent hroom hrow hws =>
    rw [hws] at htables
    refine .inserted (fun r hr hid => ?_) hroom (by rw [htables]; rfl) (by rw [htables]; rfl)
    rw [habsent.gone r hr, hid]
    exact habsent.id (List.mem_map.mpr ⟨r, hr, hid⟩)

/-- It changes only requests whose rows it has locked. -/
theorem Enqueuing.requestAt_eq (h : Enqueuing p row now rows rows' ws d)
    (hd : Server.publish (D := schema) ws d = some d') {x : Row} (hx : x ∉ rows) (hx' : x ∉ rows') :
    requestAt x d' = requestAt x d := by
  have htables := toTables_publish hd
  cases x with
  | entry x => rfl
  | request x =>
    -- A request with this identifier is not pruned.
    have hleft : Pruned now rows d → ∀ r : SigningRequest, r.id = x →
        (r ∈ pruned now d ↔ r ∈ d.requests) := by
      intro hpruned r hid
      refine mem_pruned.trans ⟨And.left, fun hr => ⟨hr, ?_⟩⟩
      rw [← Bool.not_eq_true, hpruned r hr, hid]
      exact hx
    refine requestAt_congr fun r hid => ?_
    cases h with
    | kept hpruned hws =>
      rw [hws] at htables
      have hrequests : d'.requests = pruned now d := by rw [htables]; rfl
      rw [hrequests]
      exact hleft hpruned r hid
    | renewed n audit h hevents hws =>
      rw [hws, List.foldl_cons, List.foldl_cons, foldl_insertAudit] at htables
      have hrequests : d'.requests = (pruned now d).map (renewal row.id now) := by
        rw [htables]
        rfl
      rw [hrequests, ← hleft h.gone r hid]
      have hsame : ∀ r ∈ pruned now d, r.id = x → renewal row.id now r = r := fun r hr hid =>
        if_neg fun hrenew => hx' (hid ▸ (h.locked r hr hrenew).1)
      constructor
      · intro hmem
        obtain ⟨r', hr', rfl⟩ := List.mem_map.mp hmem
        rw [(renewal_keeps row.id now r').1] at hid
        rwa [hsame r' hr' hid]
      · exact fun hmem => List.mem_map.mpr ⟨r, hmem, hsame r hmem hid⟩
    | inserted habsent hroom hrow hws =>
      rw [hws] at htables
      have hrequests : d'.requests = pruned now d ++ [{ row with expiresAt := now + day }] := by
        rw [htables]
        rfl
      rw [hrequests, List.mem_append, List.mem_singleton, hleft habsent.gone r hid]
      refine or_iff_left fun hnew => hx' ?_
      rw [← hid, hnew]
      exact hrow

/-- What `approve` publishes. -/
theorem Approving.approved {response : SigningRequest}
    (h : Approving crates id input now response ws d)
    (hd : Server.publish (D := schema) ws d = some d') : Approved crates id input now d d' := by
  have htables := toTables_publish hd
  cases h with
  | unchanged hr hexpires hws =>
    rw [hws] at htables
    exact .unchanged htables
  | signed r signature hr hchecked hresponse hws =>
    rw [hws] at htables
    refine .signed r signature hr hchecked ?_ (by rw [htables]; rfl)
    rw [htables]
    refine List.map_congr_left fun r' _ => ?_
    unfold signing
    by_cases hid : r'.id = id
    · rw [if_pos hid, if_pos (decide_eq_true hid)]
    · rw [if_neg hid, if_neg fun h => hid (of_decide_eq_true h)]

/-- A response stays one that is committed. -/
theorem Committed.stays {response : SigningRequest} (h : Committed response d)
    (hkeeps : KeepsSignatures d d') : Committed response d' := fun s hs => hkeeps _ _ (h s hs)

/-- A request that is there is a response that is committed. -/
theorem committed_of_mem {r : SigningRequest} (h : r ∈ d.requests) : Committed r d := fun _ hs =>
  (signatureAt_of_mem h).trans hs

/-- The row that `approve` finds has the expiry that it was prepared for, and is what it responds
where it is signed. -/
theorem Approving.found {response : SigningRequest}
    (h : Approving crates id input now response ws d) :
    ∃ r, requestAt (.request id) d = some r ∧ input.expiresAt = r.expiresAt ∧
      (r.status = .signed → response = r) := by
  cases h with
  | unchanged hr hexpires hws => exact ⟨response, hr, hexpires, fun _ => rfl⟩
  | signed r signature hr hchecked hresponse hws =>
    obtain ⟨bytes, manifest, key, found, answer, -, hmatches, -⟩ := hchecked.signed
    exact ⟨r, hr, hmatches.expiresAt, fun h => absurd h hchecked.pending⟩

/-- What `approve` responds is committed with it. -/
theorem Approving.committed {response : SigningRequest}
    (h : Approving crates id input now response ws d)
    (hd : Server.publish (D := schema) ws d = some d') : Committed response d' := by
  have happroved := h.approved hd
  cases h with
  | unchanged hr hexpires hws =>
    exact (committed_of_mem (mem_of_requestAt hr).1).stays happroved.keepsSignatures
  | signed r signature hr hchecked hresponse hws =>
    have htables := toTables_publish hd
    obtain ⟨hmem, hid⟩ := mem_of_requestAt hr
    refine committed_of_mem ?_
    rw [htables, hws, hresponse]
    refine List.mem_map.mpr ⟨r, hmem, ?_⟩
    rw [if_pos (decide_eq_true hid)]

end commits

/-! ## What a transaction reads after a pruning -/

section reading

variable {d : Db} {now : ℤ} {rows : List Row} {id : String}

/-- A pruning keeps the constraints. -/
theorem prune_valid (now : ℤ) (d : Db) : ((Write.prune now).run d.toTables).2.Valid :=
  ⟨(d.valid.ids).sublist (List.filter_sublist.map _),
    fun r hr => d.valid.requests r (List.mem_of_mem_filter hr)⟩

/-- After a pruning, a transaction sees what is left. -/
theorem requests_applyAll_prune (now : ℤ) (d : Db) :
    (Db.toTables (Server.applyAll (D := schema) [.prune now] d)).requests = pruned now d := by
  have happly : schema.apply (.prune now) d =
      some (((Write.prune now).run d.toTables).1, ⟨_, prune_valid now d⟩) := dif_pos _
  have hone : Server.applyOne (D := schema) d (.prune now) = ⟨_, prune_valid now d⟩ := by
    rw [Server.applyOne, happly]
    rfl
  change (Db.toTables (Server.applyOne (D := schema) d (.prune now))).requests = _
  rw [hone]
  rfl

/-- A pruning and a renewal keep the constraints. -/
theorem renew_valid (id : String) (now : ℤ) {t : Tables} (h : t.Valid) :
    ((Write.renew id now).run t).2.Valid := by
  constructor
  · change ((t.requests.map (renewal id now)).map (·.id)).Nodup
    have hsame : (fun r : SigningRequest => r.id) ∘ renewal id now = fun r => r.id :=
      funext fun r => (renewal_keeps id now r).1
    rw [List.map_map, hsame]
    exact h.ids
  · intro r hr
    obtain ⟨r', hr', rfl⟩ := List.mem_map.mp hr
    have hsame : ∀ r : SigningRequest, (renewal id now r).fits = r.fits := fun r => by
      unfold renewal
      split
      · rfl
      · rfl
    exact (hsame r').trans (h.requests r' hr')

/-- After a renewal, too, it sees what is left. -/
theorem requests_applyAll_renew (id : String) (now : ℤ) (d : Db) :
    (Db.toTables (Server.applyAll (D := schema) [.prune now, .renew id now] d)).requests =
      (pruned now d).map (renewal id now) := by
  have hvalid := renew_valid id now (Server.applyAll (D := schema) [.prune now] d).valid
  have happly : schema.apply (.renew id now) (Server.applyAll (D := schema) [.prune now] d) =
      some (_, ⟨_, hvalid⟩) := dif_pos hvalid
  have hone : Server.applyOne (D := schema) (Server.applyAll (D := schema) [.prune now] d)
      (.renew id now) = ⟨_, hvalid⟩ := by
    rw [Server.applyOne, happly]
    rfl
  change (Db.toTables (Server.applyOne (D := schema)
    (Server.applyAll (D := schema) [.prune now] d) (.renew id now))).requests = _
  rw [hone, ← requests_applyAll_prune]
  rfl

/-- The rows of the requests that are pruned. -/
def prunedRows (now : ℤ) (d : Db) : List Row :=
  ((d.requests.filter (·.prunable now)).map (·.id)).map .request

/-- A pruning locks them. -/
theorem prunedRows_locked {x : Row} (h : x ∈ prunedRows now d) :
    (x, .exclusive) ∈ (Write.prune now).locks d.toTables := by
  obtain ⟨id, hid, rfl⟩ := List.mem_map.mp h
  exact List.mem_map.mpr ⟨id, hid, rfl⟩

/-- They are the rows of what it prunes. -/
theorem pruned_prunedRows (now : ℤ) (d : Db) : Pruned now (prunedRows now d) d := by
  intro r hr
  simp only [prunedRows, List.map_map, List.mem_map, Function.comp_apply, Row.request.injEq]
  constructor
  · exact fun hprunable => ⟨r, List.mem_filter.mpr ⟨hr, hprunable⟩, rfl⟩
  · rintro ⟨r', hr', hid⟩
    obtain ⟨hmem, hprunable⟩ := List.mem_filter.mp hr'
    rwa [← eq_of_id hmem hr hid]

/-- A request that is not found after a pruning was pruned, if it was there. -/
theorem absent_of_none (hpruned : Pruned now rows d)
    (h : (Db.toTables (Server.applyAll (D := schema) [.prune now] d)).request id = none) :
    Absent id now rows d := by
  refine ⟨hpruned, fun hid => ?_⟩
  obtain ⟨r, hr, rfl⟩ := List.mem_map.mp hid
  refine (hpruned r hr).mp ?_
  by_contra hprunable
  have hleft : r ∈ pruned now d := mem_pruned.mpr ⟨hr, by simpa using hprunable⟩
  unfold Tables.request at h
  rw [requests_applyAll_prune] at h
  exact List.find?_eq_none.mp h r hleft (decide_eq_true rfl)

/-- Where the table is full after a pruning, nothing was pruned. -/
theorem notMem_of_full (h : Absent id now rows d) (hbound : d.requests.length ≤ 10000)
    (hfull : 10000 ≤ (pruned now d).length) : id ∉ requestIds d := by
  intro hid
  obtain ⟨r, hr, rfl⟩ := List.mem_map.mp hid
  have hprunable := (h.gone r hr).mpr (h.id hid)
  have hlt : (pruned now d).length < d.requests.length := by
    refine List.length_filter_lt_length_iff_exists.mpr ⟨r, hr, ?_⟩
    rw [hprunable]
    exact Bool.false_ne_true
  omega

/-- The rows of the requests that are renewed. -/
def renewedRows (id : String) (now : ℤ) (d : Db) : List Row :=
  (((pruned now d).filter (·.renewable id now)).map (·.id)).map .request

/-- A renewal locks them. -/
theorem renewedRows_locked {x : Row} (h : x ∈ renewedRows id now d) :
    (x, .exclusive) ∈ (Write.renew id now).locks
      (Db.toTables (Server.applyAll (D := schema) [.prune now] d)) := by
  obtain ⟨x, hx, rfl⟩ := List.mem_map.mp h
  refine List.mem_map.mpr ⟨x, ?_, rfl⟩
  rw [requests_applyAll_prune]
  exact hx

/-- They are the rows of what it renews, and it says how many they are. -/
theorem renewing_of_apply {p : Option String → Prop} {n : ℕ} {d' : Db} (h : Pruned now rows d)
    (hp : ∀ r ∈ d.requests, r.renewable id now = true → p r.signature)
    (happly : schema.apply (.renew id now) (Server.applyAll (D := schema) [.prune now] d) =
      some (n, d')) : Renewing p id now n rows (renewedRows id now d) d := by
  refine ⟨h, fun r hr hrenewable => ⟨?_, hp r (mem_pruned.mp hr).1 hrenewable⟩, fun hn => ?_⟩
  · exact List.mem_map_of_mem (List.mem_map_of_mem (List.mem_filter.mpr ⟨hr, hrenewable⟩))
  · have hcount : n = (pruned now d).countP (·.renewable id now) := by
      rw [← requests_applyAll_prune]
      have happly' := (dif_pos (renew_valid id now
        (Server.applyAll (D := schema) [.prune now] d).valid)).symm.trans happly
      exact (Prod.mk.inj (Option.some.inj happly')).1.symm
    rw [hcount] at hn
    exact List.countP_pos_iff.mp (Nat.pos_of_ne_zero hn)

/-- A request that is found after a pruning is left by it. -/
theorem mem_of_found {r : SigningRequest}
    (h : (Db.toTables (Server.applyAll (D := schema) [.prune now] d)).request id = some r) :
    r ∈ pruned now d ∧ r.id = id := by
  unfold Tables.request at h
  rw [requests_applyAll_prune] at h
  have hid := List.find?_some h
  exact ⟨List.mem_of_find?_eq_some h, of_decide_eq_true hid⟩

/-- So is one that is found after a renewal, but for its expiry. -/
theorem exists_of_found {r : SigningRequest} {x : String}
    (h : (Db.toTables (Server.applyAll (D := schema) [.prune now, .renew id now] d)).request x =
      some r) : ∃ r' ∈ d.requests, r'.id = r.id ∧ r'.signature = r.signature := by
  unfold Tables.request at h
  rw [requests_applyAll_renew] at h
  obtain ⟨r', hr', rfl⟩ := List.mem_map.mp (List.mem_of_find?_eq_some h)
  have hkeeps := renewal_keeps id now r'
  exact ⟨r', (mem_pruned.mp hr').1, hkeeps.1.symm, hkeeps.2.symm⟩

end reading


end Reeva.Signer
