import Reeva.Cms.Database

/-!
# The tables of the signer

Signing requests and the audit of what happened to them. A request is pruned a day after it expired,
unless it was signed; its expiry is a time in seconds. `created_at` and the numbers of the audit rows
are left out, as nothing reads them.
-/

open ReadCommitted

namespace Reeva.Signer

/-- The values of the column `status`. -/
inductive Status
  | pending
  | signed
  deriving DecidableEq, Repr

/-- A row of `signing_requests`. -/
structure SigningRequest where
  id : String
  product : String
  payload : String
  payloadDigest : String
  keyId : String
  keyVersion : ℕ
  publicKey : String
  status : Status
  signature : Option String
  expiresAt : ℤ
  deriving DecidableEq, Repr

/-- A row of `signing_audit`. -/
structure SigningAudit where
  requestId : String
  event : String
  actor : String
  deriving DecidableEq, Repr

/-- The contents of the tables. -/
structure Tables where
  requests : List SigningRequest
  audit : List SigningAudit

/-- A text that a column of `varchar(n)` takes. -/
def fits (n : ℕ) (s : String) : Bool := s.toList.length ≤ n && !s.toList.contains (Char.ofNat 0)

/-- The columns of a request take its values. -/
def SigningRequest.fits (r : SigningRequest) : Bool :=
  Signer.fits 64 r.id && Signer.fits 80 r.product && !r.payload.toList.contains (Char.ofNat 0) &&
    Signer.fits 64 r.payloadDigest && Signer.fits 64 r.keyId && 0 < r.keyVersion &&
    r.keyVersion ≤ 2147483647 && !r.publicKey.toList.contains (Char.ofNat 0) &&
    r.signature.all (Signer.fits 86) && (r.status = .signed) = r.signature.isSome

/-- The primary key, the check constraints and the column types. -/
structure Tables.Valid (t : Tables) : Prop where
  ids : (t.requests.map (·.id)).Nodup
  requests : ∀ r ∈ t.requests, r.fits = true

instance (t : Tables) : Decidable t.Valid :=
  decidable_of_iff ((t.requests.map (·.id)).Nodup ∧ ∀ r ∈ t.requests, r.fits = true)
    ⟨fun ⟨h₁, h₂⟩ => ⟨h₁, h₂⟩, fun ⟨h₁, h₂⟩ => ⟨h₁, h₂⟩⟩

/-- A database: tables that satisfy their constraints. -/
structure Db extends Tables where
  valid : toTables.Valid

/-- A day in seconds. -/
def day : ℤ := 86400

/-- A request that is pruned at a time. -/
def SigningRequest.prunable (now : ℤ) (r : SigningRequest) : Bool :=
  r.signature.isNone && r.expiresAt < now - day

/-- A request that is renewed at a time. -/
def SigningRequest.renewable (id : String) (now : ℤ) (r : SigningRequest) : Bool :=
  r.id = id && r.expiresAt < now

/-- The statements that change the tables. -/
inductive Write
  /-- `DELETE … WHERE signature IS NULL AND expires_at < now - 86400` -/
  | prune (now : ℤ)
  /-- `UPDATE … SET expires_at = now + 86400 WHERE id = $1 AND expires_at < now` -/
  | renew (id : String) (now : ℤ)
  | insertRequest (r : SigningRequest)
  /-- `UPDATE … SET status = 'signed', signature = $2 WHERE id = $1` -/
  | sign (id signature : String)
  | insertAudit (r : SigningAudit)

/-- What a write does to the tables, before the constraints are checked. -/
def Write.run (t : Tables) : Write → ℕ × Tables
  | prune now => (t.requests.countP (·.prunable now),
      { t with requests := t.requests.filter fun r => !r.prunable now })
  | renew id now => (updateRows (·.renewable id now) (fun r => { r with expiresAt := now + day })
      t.requests).map (fun n => n) fun rows => { t with requests := rows }
  | insertRequest r => (1, { t with requests := t.requests ++ [r] })
  | sign id signature => (updateRows (·.id = id)
      (fun r => { r with status := .signed, signature := some signature }) t.requests).map
        (fun n => n) fun rows => { t with requests := rows }
  | insertAudit r => (1, { t with audit := t.audit ++ [r] })

/-- What a lock protects: a request, or an entry of the primary key's index. -/
inductive Row
  | request (id : String)
  | entry (id : String)
  deriving DecidableEq, Repr

/-- The locks of a write, which are those of the rows that it changes. -/
def Write.locks (t : Tables) : Write → List (Row × Mode)
  | prune now => ((t.requests.filter (·.prunable now)).map (·.id)).map fun id =>
      (.request id, .exclusive)
  | renew id now => ((t.requests.filter (·.renewable id now)).map (·.id)).map fun id =>
      (.request id, .exclusive)
  | insertRequest r => [(.entry r.id, .exclusive), (.request r.id, .exclusive)]
  | sign id _ => [(.request id, .exclusive)]
  | insertAudit _ => []

/-- The database of the signer. -/
abbrev schema : Schema where
  Db := Db
  Write := Write
  Row := Row
  decRow := inferInstance
  apply w d :=
    if h : (w.run d.toTables).2.Valid then some ((w.run d.toTables).1, ⟨(w.run d.toTables).2, h⟩)
    else none
  locks w d := w.locks (Db.toTables d)

/-- A write that the constraints allow runs. -/
theorem apply_tables {d d' : Db} {w : Write} {n : ℕ} (h : schema.apply w d = some (n, d')) :
    d'.toTables = (w.run d.toTables).2 := by
  simp only [schema] at h
  split at h
  · cases h
    rfl
  · cases h

/-- A write that is published runs. -/
theorem publish_cons {d d' : Db} {w : Write} {ws : List Write}
    (h : Server.publish (D := schema) (w :: ws) d = some d') :
    ∃ d₁ : Db, d₁.toTables = (w.run d.toTables).2 ∧
      Server.publish (D := schema) ws d₁ = some d' := by
  rw [Server.publish, List.foldlM_cons] at h
  obtain ⟨d₁, h₁, h₂⟩ := Option.bind_eq_some_iff.mp h
  obtain ⟨⟨m, d₂⟩, ha, rfl⟩ := Option.map_eq_some_iff.mp h₁
  exact ⟨d₂, apply_tables ha, h₂⟩

/-- The request with an identifier. -/
def Tables.request (t : Tables) (id : String) : Option SigningRequest :=
  t.requests.find? (·.id = id)

end Reeva.Signer
