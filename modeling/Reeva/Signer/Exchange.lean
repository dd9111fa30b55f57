import Reeva.Interleaving.Unhindered
import Reeva.Release.PayloadEncoding
import Reeva.Signer.Handlers

/-!
# A request and its approval

What the handlers can do when nobody keeps them waiting and the key store answers: `create_request`
adds the row that it was asked for, and `approve` signs it (`createRequest_attains`,
`approve_attains`). The constraints of the tables stop neither, as everything that was checked fits
its column (`createdRow_fits`, `signature_fits`).
-/

open Interleaving ReadCommitted

namespace Reeva.Signer

/-! ## What the columns take -/

/-- What the columns rely on of the crates: a digest has 32 bytes, and a PEM is a text without
NUL. -/
structure Crates.Fitting (crates : Crates) : Prop where
  digest : ∀ bytes, (crates.sha256 bytes).length = 32
  pem : ∀ key pem, crates.toPublicKeyPem key = some pem → ∀ c ∈ pem.toList, 0 < c.toNat

section columns

variable {crates : Crates} {product payload : String} {bytes : List UInt8}

/-- No character of a text is NUL. -/
theorem noNul_of_pos {s : String} (h : ∀ c ∈ s.toList, 0 < c.toNat) :
    s.toList.contains (Char.ofNat 0) = false := by
  rw [← Bool.not_eq_true, List.contains_iff_mem]
  exact fun hmem => absurd (h _ hmem) (by decide)

/-- A text that is short enough and has no NUL fits. -/
theorem fits_of_pos {n : ℕ} {s : String} (hlength : s.toList.length ≤ n)
    (h : ∀ c ∈ s.toList, 0 < c.toNat) : fits n s = true := by
  rw [Signer.fits, noNul_of_pos h, decide_eq_true hlength]
  rfl

/-- A digest is 64 hexadecimal digits. -/
theorem digest_digits (hcrates : crates.Fitting) (bytes : List UInt8) :
    (hexEncode (crates.sha256 bytes)).toList.length = 64 ∧
      ∀ c ∈ (hexEncode (crates.sha256 bytes)).toList, ∃ n < 16, c = Nat.digitChar n := by
  have hchars : (hexEncode (crates.sha256 bytes)).toList = (crates.sha256 bytes).flatMap fun b =>
      [Nat.digitChar (b.toNat / 16), Nat.digitChar (b.toNat % 16)] := String.toList_ofList
  rw [hchars]
  constructor
  · rw [List.length_flatMap]
    change ((crates.sha256 bytes).map fun _ => 2).sum = 64
    rw [List.map_const', List.sum_replicate_nat, hcrates.digest]
  · intro c hc
    obtain ⟨b, -, hb⟩ := List.mem_flatMap.mp hc
    have hlt := b.toNat_lt
    rcases List.mem_cons.mp hb with rfl | hb
    · exact ⟨_, by omega, rfl⟩
    · exact ⟨_, by omega, List.mem_singleton.mp hb⟩

/-- A digest fits. -/
theorem digest_fits (hcrates : crates.Fitting) (bytes : List UInt8) :
    fits 64 (hexEncode (crates.sha256 bytes)) = true := by
  have hdigit : ∀ n < 16, 0 < (Nat.digitChar n).toNat := by decide
  obtain ⟨hlength, hchars⟩ := digest_digits hcrates bytes
  refine fits_of_pos hlength.le fun c hc => ?_
  obtain ⟨n, hn, rfl⟩ := hchars c hc
  exact hdigit n hn

/-- A digest is an identifier. -/
theorem validHex_digest (hcrates : crates.Fitting) (bytes : List UInt8) :
    validHex (hexEncode (crates.sha256 bytes)) = true := by
  have hdigit : ∀ n < 16, ((Nat.digitChar n).isDigit ||
      ('a' ≤ Nat.digitChar n && Nat.digitChar n ≤ 'f')) = true := by decide
  obtain ⟨hlength, hdigits⟩ := digest_digits hcrates bytes
  have hchars : ∀ c ∈ (hexEncode (crates.sha256 bytes)).toList,
      (c.isDigit || ('a' ≤ c && c ≤ 'f')) = true := fun c hc => by
    obtain ⟨n, hn, rfl⟩ := hdigits c hc
    exact hdigit n hn
  unfold validHex
  rw [byteLength_of_ascii fun c hc => (hexChar_ascii (hchars c hc)).2, hlength,
    List.all_eq_true.mpr hchars]
  rfl

/-- A product fits. -/
theorem slug_fits (h : validSlug product = true) : fits 80 product = true := by
  unfold validSlug at h
  rw [Bool.and_eq_true, Bool.and_eq_true, Bool.and_eq_true, Bool.and_eq_true,
    List.all_eq_true] at h
  obtain ⟨⟨⟨⟨-, hlength⟩, -⟩, -⟩, hchars⟩ := h
  have hascii : ∀ c ∈ product.toList, 0 < c.toNat ∧ c.toNat < 128 := fun c hc =>
    slugChar_ascii (hchars c hc)
  refine fits_of_pos ?_ fun c hc => (hascii c hc).1
  rw [← byteLength_of_ascii fun c hc => (hascii c hc).2]
  exact of_decide_eq_true hlength

/-- A character of an encoded text is not NUL. -/
theorem encode_pos (bytes : List UInt8) : ∀ c ∈ Base64Url.encode bytes, 0 < c.toNat := by
  intro c hc
  have halphabet := Base64Url.encode_alphabet bytes c hc
  refine Nat.pos_of_ne_zero fun hzero => ?_
  have hnul : c = Char.ofNat 0 := by
    rw [← hzero, Char.ofNat_toNat]
  rw [hnul] at halphabet
  exact absurd halphabet (by decide)

/-- A payload that is read is the encoding of what is read. -/
theorem parsePayload_ok {manifest : Manifest}
    (h : parsePayload payload product = .ok (bytes, manifest)) :
    payload.toList = Base64Url.encode bytes ∧ manifest.supported product = true := by
  obtain ⟨hcanonical, hmanifest⟩ := parsePayload_eq_ok_iff.mp h
  exact ⟨hcanonical.2.1, supported_of_readManifest hmanifest⟩

/-- The product of a payload that is read is a slug. -/
theorem parsePayload_slug {manifest : Manifest}
    (h : parsePayload payload product = .ok (bytes, manifest)) : validSlug product = true := by
  have hsupported := (parsePayload_ok h).2
  unfold Manifest.supported at hsupported
  simp only [Bool.and_eq_true] at hsupported
  tauto

/-- What `create_request` asks for fits its columns. -/
theorem createdRow_fits (hcrates : crates.Fitting) {input : CreateRequest} {manifest : Manifest}
    {key : PublicKey} {answer : Json}
    (hread : parsePayload input.payload input.product = .ok (bytes, manifest))
    (hkey : readKey crates input.product (some input.keyVersion) answer = .ok key)
    (hversion : 0 < input.keyVersion ∧ input.keyVersion ≤ 2147483647) (e : ℤ) :
    SigningRequest.fits { createdRow crates input bytes key with expiresAt := e } = true := by
  obtain ⟨pub, der, -, hpem, hid⟩ := readKey_ok hkey
  have hpayload : ∀ c ∈ input.payload.toList, 0 < c.toNat := fun c hc => by
    rw [(parsePayload_ok hread).1] at hc
    exact encode_pos bytes c hc
  have hkeyId : fits 64 key.keyId = true := by
    rw [hid]
    exact digest_fits hcrates der
  unfold SigningRequest.fits createdRow
  dsimp only
  rw [requestId, digest_fits hcrates, slug_fits (parsePayload_slug hread), noNul_of_pos hpayload,
    digest, digest_fits hcrates, hkeyId, noNul_of_pos (hcrates.pem pub _ hpem),
    readKey_version hkey, decide_eq_true hversion.1, decide_eq_true hversion.2]
  rfl

/-- A signature that is read fits its column. -/
theorem signature_fits {key : PublicKey} {answer : Json} {signature : String}
    (h : readSignature crates key bytes answer = .ok signature) : fits 86 signature = true := by
  obtain ⟨pub, raw, -, hlength, -, rfl⟩ := readSignature_ok h
  refine fits_of_pos ?_ fun c hc => ?_
  · rw [String.toList_ofList, Base64Url.length_encode, hlength]
  · rw [String.toList_ofList] at hc
    exact encode_pos raw c hc

end columns

/-! ## What the constraints allow -/

section writes

variable {d : Db}

/-- A write that leaves the tables valid runs. -/
theorem apply_of_valid {w : Write} (h : (w.run d.toTables).2.Valid) :
    schema.apply w d = some ((w.run d.toTables).1, ⟨(w.run d.toTables).2, h⟩) := dif_pos h

/-- What is left by a pruning is valid. -/
theorem valid_prune (now : ℤ) : (Write.run d.toTables (.prune now)).2.Valid where
  ids := d.valid.ids.sublist (List.filter_sublist.map _)
  requests r hr := d.valid.requests r (List.mem_filter.mp hr).1

/-- An event breaks no constraint. -/
theorem valid_insertAudit (a : SigningAudit) : (Write.run d.toTables (.insertAudit a)).2.Valid :=
  ⟨d.valid.ids, d.valid.requests⟩

/-- Nor does a request that is not there yet and fits. -/
theorem valid_insertRequest {r : SigningRequest} (hid : r.id ∉ requestIds d)
    (hfits : r.fits = true) : (Write.run d.toTables (.insertRequest r)).2.Valid where
  ids := by
    change ((d.requests ++ [r]).map (·.id)).Nodup
    rw [List.map_append, List.nodup_append]
    refine ⟨d.valid.ids, List.nodup_singleton _, fun x hx y hy => ?_⟩
    rintro rfl
    rw [List.mem_singleton.mp hy] at hx
    exact hid hx
  requests r' hr' := by
    rcases List.mem_append.mp hr' with hr' | hr'
    · exact d.valid.requests r' hr'
    · rw [List.mem_singleton.mp hr']
      exact hfits

/-- Nor does a signature that fits. -/
theorem valid_sign {id signature : String} (hfits : fits 86 signature = true) :
    (Write.run d.toTables (.sign id signature)).2.Valid where
  ids := by
    have hids : ((d.requests.map fun r => if (r.id = id : Bool) then
        { r with status := .signed, signature := some signature } else r).map (·.id)) =
        d.requests.map (·.id) := by
      rw [List.map_map]
      refine List.map_congr_left fun r _ => ?_
      rw [Function.comp_apply]
      split <;> rfl
    exact hids ▸ d.valid.ids
  requests r' hr' := by
    obtain ⟨r, hr, rfl⟩ := List.mem_map.mp hr'
    have hr := d.valid.requests r hr
    split
    · unfold SigningRequest.fits at hr ⊢
      simp only [Bool.and_eq_true] at hr ⊢
      exact ⟨⟨hr.1.1, hfits⟩, rfl⟩
    · exact hr

end writes

/-! ## Requests -/

section handlers

variable {X : Machine calls} {ok : Guard (Service schema X)} {i : ℕ} {α β : Type}
  {σ : System schema X.State} {tx : Option (List Write)} {d : Db} {crates : Crates}
  {Q : α → System schema X.State → Prop}

/-- A check that is passed. -/
theorem refuse_attains {c : Prop} [Decidable c] {e : ApiError} {k : Unit → Handler α} (hc : ¬c)
    (h : Attains ok i (k ()) σ Q) : Attains ok i ((refuse c e).bind k) σ Q := by
  rw [refuse, if_neg hc]
  exact h

/-- A computation that succeeds. -/
theorem orThrow_attains {x : Except ApiError β} {b : β} {k : β → Handler α} (hx : x = .ok b)
    (h : Attains ok i (k b) σ Q) : Attains ok i ((orThrow x).bind k) σ Q := by
  rw [hx]
  exact h

/-- A key that the key store has. -/
theorem key_attains {product : String} {version : Option ℕ} {answer : Json} {key : PublicKey}
    {k : PublicKey → Handler α} {a : X.Choice} {w : X.State} (hc : Clear i tx d σ.server)
    (hok : ∀ e ch σ', ok i (.ext e) (.ext ch) σ') (hslug : validSlug product = true)
    (hrun : X.run i (Call.bao "GET" ("transit/keys/reeva-" ++ product) none) a σ.world =
      some (.ok answer, w))
    (hread : readKey crates product version answer = .ok key)
    (h : Attains ok i (k key) ⟨σ.server, w⟩ Q) :
    Attains ok i ((Bao.key crates product version).bind k) σ Q := by
  refine Attains.bind (refuse_attains (by rw [hslug]; decide) ?_)
  refine Attains.ext (e := Call.bao "GET" ("transit/keys/reeva-" ++ product) none) hc (hok _ _ _)
    hrun ?_
  refine orThrow_attains (k := fun answer => orThrow (readKey crates product version answer)) rfl ?_
  rw [hread]
  exact .ret h

/-- What is allowed of statements that renew nothing. -/
def AllowsOthers (ok : Guard (Service schema X)) (i : ℕ) : Prop :=
  ∀ s ch σ, (∀ id now, s ≠ .db (.write (.renew id now))) → ok i s ch σ

/-- A statement that is allowed. -/
theorem AllowsOthers.db (hok : AllowsOthers ok i) (s : Stmt schema)
    (hs : ∀ id now, s ≠ .write (.renew id now)) (σ : System schema X.State) :
    ok i (.db s) (.db .none) σ :=
  hok _ _ _ fun id now h => hs id now (by cases h; rfl)

/-- A transaction that begins like the one of `create_request`: it takes the lock, prunes, and looks
up a request among what is left. -/
theorem pruning_attains {id : String} {now : ℤ} {b : X.Choice} {w : X.State}
    {k : ℤ → Option SigningRequest → Handler α} (hc : Rests i d σ.server) (hok : AllowsOthers ok i)
    (hnow : X.run i Call.now b σ.world = some (now, w))
    (h : ∀ (srv : Server schema) (d' : Db), Clear i (some [Write.prune now]) d srv →
      Server.publish (D := schema) [Write.prune now] d = some d' → d'.requests = pruned now d →
      d'.audit = d.audit → Attains ok i (k now ((pruned now d).find? (·.id = id))) ⟨srv, w⟩
        fun a σ' => ∃ ws d', Clear i (some ws) d σ'.server ∧ Server.publish ws d = some d' ∧
          ∀ srv', Rests i d' srv' → Q a ⟨srv', σ'.world⟩) :
    Attains ok i (transaction do
      let now : ℤ ← call .now
      let _ ← db (D := schema) (.advisory 1)
      let _ ← exec (.prune now)
      let existing ← select (·.request id)
      k now existing) σ Q := by
  have hothers : ∀ s : Stmt schema, (∀ w, s ≠ .write w) → ∀ σ', ok i (.db s) (.db .none) σ' :=
    fun s hs => hok.db s fun _ _ => hs _
  refine Attains.transaction hc.clear (hothers _ fun _ h => by cases h)
    (hothers _ fun _ h => by cases h) fun srv hc₁ => ?_
  refine Attains.ext (σ := ⟨srv, σ.world⟩) (e := Call.now) hc₁ (hok _ _ _ fun _ _ h => by cases h)
    hnow ?_
  refine Attains.advisory (σ := ⟨srv, w⟩) hc₁ (hothers _ (fun _ h => by cases h) _)
    fun srv hc₂ => ?_
  -- What is left by the pruning is what it looks up.
  have hnothing : Server.publish (D := schema) [] d = some d := rfl
  refine Attains.write (σ := ⟨srv, w⟩) (w := Write.prune now) hc₂
    (hok.db _ (fun _ _ h => by cases h) _) hnothing (apply_of_valid (valid_prune now))
    fun srv hc₃ hpublish => ?_
  have hfind : (Db.toTables (Server.applyAll (D := schema) [.prune now] d)).request id =
      (pruned now d).find? (·.id = id) :=
    congrArg (fun d : Db => d.toTables.request id) (Server.applyAll_of_publish hpublish)
  exact Attains.query (σ := ⟨srv, w⟩) (f := fun d : schema.Db => (Db.toTables d).request id)
    (v := (pruned now d).find? (·.id = id)) hc₃ (hothers _ (fun _ h => by cases h) _) hfind
    (h srv _ hc₃ hpublish rfl rfl)

/-- Where a request is not there yet and the table is not full, its row is added. -/
theorem enqueue_attains {row : SigningRequest} {now : ℤ} {b : X.Choice} {w : X.State}
    (hc : Rests i d σ.server) (hok : AllowsOthers ok i)
    (hnow : X.run i Call.now b σ.world = some (now, w))
    (habsent : ∀ r ∈ pruned now d, r.id ≠ row.id) (hroom : (pruned now d).length < 10000)
    (hfits : SigningRequest.fits { row with expiresAt := now + day } = true) :
    Attains ok i (enqueue row) σ fun response σ' =>
      response = { row with expiresAt := now + day } ∧ σ'.world = w ∧
        ∃ d' : Db, Rests i d' σ'.server ∧ d'.requests = pruned now d ++ [response] ∧
          d'.audit = d.audit ++ [⟨row.id, "requested", "requester"⟩] := by
  refine pruning_attains hc hok hnow fun srv d₁ hc₁ hpublish hrows haudit => ?_
  have hnone : (pruned now d).find? (·.id = row.id) = none :=
    List.find?_eq_none.mpr fun r hr => by
      rw [decide_eq_true_eq]
      exact habsent r hr
  have hview : Server.applyAll (D := schema) [.prune now] d = d₁ :=
    Server.applyAll_of_publish hpublish
  rw [hnone]
  -- What is left is counted and added to.
  refine Attains.query (σ := ⟨srv, w⟩) (f := fun d : schema.Db => (Db.toTables d).requests.length)
    hc₁ (hok.db _ (fun _ _ h => by cases h) _) rfl ?_
  refine refuse_attains (not_le.mpr ?_) ?_
  · change (Db.toTables (Server.applyAll (D := schema) [.prune now] d)).requests.length < 10000
    rw [hview, hrows]
    exact hroom
  have hnew : row.id ∉ requestIds d₁ := fun h => by
    obtain ⟨r, hr, hid⟩ := List.mem_map.mp h
    exact habsent r (hrows ▸ hr) hid
  refine Attains.write (σ := ⟨srv, w⟩)
    (w := Write.insertRequest { row with expiresAt := now + day }) hc₁
    (hok.db _ (fun _ _ h => by cases h) _) hpublish
    (apply_of_valid (valid_insertRequest (r := { row with expiresAt := now + day }) hnew hfits))
    fun srv hc₂ hpublish => ?_
  refine Attains.write (σ := ⟨srv, w⟩) (w := Write.insertAudit ⟨row.id, "requested", "requester"⟩)
    hc₂ (hok.db _ (fun _ _ h => by cases h) _) hpublish (apply_of_valid (valid_insertAudit _))
    fun srv hc₃ hpublish => ?_
  refine .ret ⟨_, _, hc₃, hpublish, fun srv' hc' => ⟨rfl, rfl, _, hc', ?_, ?_⟩⟩
  · exact congrArg (· ++ [_]) hrows
  · exact congrArg (· ++ [_]) haudit

/-- Where it is signed, it stays as it is. -/
theorem enqueue_attains_signed {row found : SigningRequest} {now : ℤ} {b : X.Choice} {w : X.State}
    (hc : Rests i d σ.server) (hok : AllowsOthers ok i)
    (hnow : X.run i Call.now b σ.world = some (now, w)) (hfound : found ∈ d.requests)
    (hid : found.id = row.id) (hsigned : found.status = .signed) :
    Attains ok i (enqueue row) σ fun response σ' =>
      response = found ∧ σ'.world = w ∧
        ∃ d' : Db, Rests i d' σ'.server ∧ d'.requests = pruned now d ∧ d'.audit = d.audit := by
  refine pruning_attains hc hok hnow fun srv d₁ hc₁ hpublish hrows haudit => ?_
  have hkept : found ∈ d₁.requests := by
    rw [hrows]
    refine mem_pruned_of_signed hfound fun hnone => ?_
    rw [status_signed_iff hfound, hnone] at hsigned
    cases hsigned
  have hsome : (pruned now d).find? (·.id = row.id) = some found := by
    rw [← hrows, ← hid]
    exact requestAt_of_mem hkept
  have hpending : found.status ≠ .pending := by
    rw [hsigned]
    exact Status.noConfusion
  rw [hsome]
  dsimp only
  rw [if_neg hpending]
  exact .ret ⟨_, _, hc₁, hpublish, fun srv' hc' => ⟨rfl, rfl, _, hc', hrows, haudit⟩⟩

/-- What `create_request` finds in what it is asked for and in the key store. -/
structure Requestable (crates : Crates) (app : App) (authorization : Option String)
    (input : CreateRequest) (bytes : List UInt8) (manifest : Manifest) (key : PublicKey)
    (found : Json) : Prop where
  requester : checkAuth crates authorization app.requesterHash = .ok ()
  identifier : validHex input.keyId = true
  version : 0 < input.keyVersion ∧ input.keyVersion ≤ 2147483647
  read : parsePayload input.payload input.product = .ok (bytes, manifest)
  readKey : Signer.readKey crates input.product (some input.keyVersion) found = .ok key
  keyId : key.keyId = input.keyId

section requests

variable {app : App} {authorization : Option String} {input : CreateRequest} {bytes : List UInt8}
  {manifest : Manifest} {key : PublicKey} {found : Json} {now : ℤ} {a b : X.Choice}
  {w w' : X.State}

/-- The part of `create_request` up to its transaction. -/
theorem createRequest_attains_start
    (h : Requestable crates app authorization input bytes manifest key found)
    (hc : Rests i d σ.server) (hok : AllowsOthers ok i)
    (hrun : X.run i (Call.bao "GET" ("transit/keys/reeva-" ++ input.product) none) a σ.world =
      some (.ok found, w)) {Q : SigningRequest → System schema X.State → Prop}
    (hk : Attains ok i (enqueue (createdRow crates input bytes key)) ⟨σ.server, w⟩ Q) :
    Attains ok i (createRequest crates app authorization input) σ Q := by
  refine orThrow_attains h.requester (refuse_attains ?_ (orThrow_attains h.read ?_))
  · rw [h.identifier]
    rintro (hfalse | hzero | hlarge)
    · cases hfalse
    · exact absurd hzero (Nat.pos_iff_ne_zero.mp h.version.1)
    · exact absurd h.version.2 (not_le.mpr hlarge)
  exact key_attains hc.clear (fun _ _ _ => hok _ _ _ fun _ _ h => by cases h)
    (parsePayload_slug h.read) hrun h.readKey (refuse_attains (not_not.mpr h.keyId) hk)

/-- `create_request` adds the row of a request that is not there yet. -/
theorem createRequest_attains (hcrates : crates.Fitting)
    (h : Requestable crates app authorization input bytes manifest key found)
    (hc : Rests i d σ.server) (hok : AllowsOthers ok i)
    (hrun : X.run i (Call.bao "GET" ("transit/keys/reeva-" ++ input.product) none) a σ.world =
      some (.ok found, w)) (hnow : X.run i Call.now b w = some (now, w'))
    (habsent : ∀ r ∈ pruned now d, r.id ≠ requestId crates input.product input.keyId bytes)
    (hroom : (pruned now d).length < 10000) :
    Attains ok i (createRequest crates app authorization input) σ fun response σ' =>
      response = { createdRow crates input bytes key with expiresAt := now + day } ∧ σ'.world = w' ∧
        ∃ d' : Db, Rests i d' σ'.server ∧ d'.requests = pruned now d ++ [response] ∧
          d'.audit = d.audit ++ [⟨response.id, "requested", "requester"⟩] := by
  have hid : (createdRow crates input bytes key).id =
      requestId crates input.product input.keyId bytes := congrArg (requestId crates _ · _) h.keyId
  refine createRequest_attains_start h hc hok hrun ?_
  refine (enqueue_attains (σ := ⟨σ.server, w⟩) hc hok hnow
    (fun r hr => hid ▸ habsent r hr) hroom
    (createdRow_fits hcrates h.read h.readKey h.version _)).mono ?_
  rintro response σ' ⟨rfl, hworld, hrest⟩
  exact ⟨rfl, hworld, hrest⟩

/-- It responds with one that is signed as it is. -/
theorem createRequest_attains_signed {r : SigningRequest}
    (h : Requestable crates app authorization input bytes manifest key found)
    (hc : Rests i d σ.server) (hok : AllowsOthers ok i)
    (hrun : X.run i (Call.bao "GET" ("transit/keys/reeva-" ++ input.product) none) a σ.world =
      some (.ok found, w)) (hnow : X.run i Call.now b w = some (now, w')) (hr : r ∈ d.requests)
    (hid : r.id = requestId crates input.product input.keyId bytes) (hsigned : r.status = .signed) :
    Attains ok i (createRequest crates app authorization input) σ fun response σ' =>
      response = r ∧ σ'.world = w' ∧
        ∃ d' : Db, Rests i d' σ'.server ∧ d'.requests = pruned now d ∧ d'.audit = d.audit := by
  refine createRequest_attains_start h hc hok hrun ?_
  exact enqueue_attains_signed (σ := ⟨σ.server, w⟩) hc hok hnow hr
    (hid.trans (congrArg (requestId crates _ · _) h.keyId.symm)) hsigned

end requests

/-- `SELECT … FOR UPDATE` finds a request that is there. -/
theorem lockRequest_attains {id : String} {request : SigningRequest}
    {k : SigningRequest → Handler α} (hc : Clear i (some []) d σ.server) (hok : AllowsOthers ok i)
    (hrow : requestAt (.request id) d = some request)
    (h : ∀ srv, Clear i (some []) d srv → Attains ok i (k request) ⟨srv, σ.world⟩ Q) :
    Attains ok i ((lockRequest id).bind k) σ Q := by
  have hothers : ∀ s : Stmt schema, (∀ w, s ≠ .write w) → ∀ σ', ok i (.db s) (.db .none) σ' :=
    fun s hs => hok.db s fun _ _ => hs _
  refine Attains.bind (Attains.query (f := fun d : schema.Db => ((Db.toTables d).request id).isSome)
    (v := true) hc (hothers _ (fun _ h => by cases h) _) (congrArg Option.isSome hrow) ?_)
  refine Attains.lock hc (hothers _ (fun _ h => by cases h) _) fun srv hc' => ?_
  refine Attains.query (σ := ⟨srv, σ.world⟩) (f := fun d : schema.Db => (Db.toTables d).request id)
    (v := some request) hc' (hothers _ (fun _ h => by cases h) _) hrow ?_
  exact .ret (h srv hc')

/-- What `approve` finds at its request and in the key store. -/
structure Approvable (crates : Crates) (app : App) (authorization : Option String) (id : String)
    (input : Approval) (d : Db) (request : SigningRequest) (bytes : List UInt8) (key : PublicKey)
    (found : Json) : Prop where
  approver : checkAuth crates authorization app.approverHash = .ok ()
  identifier : validHex id = true
  row : requestAt (.request id) d = some request
  read : ∃ manifest, parsePayload request.payload request.product = .ok (bytes, manifest) ∧
    input.Matches request manifest
  readKey : Signer.readKey crates request.product (some request.keyVersion) found = .ok key
  keyId : key.keyId = request.keyId

/-- The outside world of an approval: a permit, the time of the transaction, and the key. -/
structure Answering (X : Machine calls) (i : ℕ) (product : String) (found : Json) (now : ℤ)
    (w w' : X.State) : Prop where
  permit : ∃ ch, X.run i Call.acquire ch w = some (true, w)
  now : ∃ ch, X.run i Call.now ch w = some (now, w')
  key : ∃ ch, X.run i (Call.bao "GET" ("transit/keys/reeva-" ++ product) none) ch w' =
    some (.ok found, w')

section approvals

variable {app : App} {authorization : Option String} {id : String} {input : Approval}
  {request : SigningRequest} {bytes : List UInt8} {key : PublicKey} {found : Json} {now : ℤ}
  {w' : X.State}

/-- The part of `approve` up to the status of its request. -/
theorem approve_attains_start (h : Approvable crates app authorization id input d request bytes key
    found) (hworld : Answering X i request.product found now σ.world w')
    (hc : Rests i d σ.server) (hok : AllowsOthers ok i)
    {Q : SigningRequest → System schema X.State → Prop}
    (hk : ∀ srv, Clear i (some []) d srv → Attains ok i
      (if request.status = .signed then (pure request : Handler SigningRequest)
      else do
        refuse (request.expiresAt < now)
          ⟨.gone, "Approval request expired. Resubmit and review the renewed request."⟩
        let signature ← Bao.sign crates key bytes
        let again ← Bao.key crates request.product (some request.keyVersion)
        refuse (again.keyId ≠ key.keyId) unavailable
        let _ ← exec (.sign id signature)
        let _ ← exec (.insertAudit ⟨id, "approved-and-signed", "approver"⟩)
        return { request with status := .signed, signature := some signature }) ⟨srv, w'⟩
      fun a σ' => ∃ ws d', Clear i (some ws) d σ'.server ∧ Server.publish ws d = some d' ∧
        ∀ srv', Rests i d' srv' → Q a ⟨srv', σ'.world⟩) :
    Attains ok i (approve crates app authorization id input) σ Q := by
  obtain ⟨ca, hpermit⟩ := hworld.permit
  obtain ⟨cn, hnow⟩ := hworld.now
  obtain ⟨ck, hget⟩ := hworld.key
  obtain ⟨manifest, hread, hmatches⟩ := h.read
  have hothers : ∀ s : Stmt schema, (∀ w, s ≠ .write w) → ∀ σ', ok i (.db s) (.db .none) σ' :=
    fun s hs => hok.db s fun _ _ => hs _
  have hcalls : ∀ e ch σ', ok i (.ext e) (.ext ch) σ' := fun _ _ _ =>
    hok _ _ _ fun _ _ h => by cases h
  refine orThrow_attains h.approver (refuse_attains (by rw [h.identifier]; decide) ?_)
  refine Attains.ext (e := Call.acquire) hc.clear (hcalls _ _ _) hpermit ?_
  refine refuse_attains (c := true = false) (by decide) ?_
  refine Attains.transaction (σ := ⟨σ.server, σ.world⟩) hc.clear (hothers _ fun _ h => by cases h)
    (hothers _ fun _ h => by cases h) fun srv hc₁ => ?_
  refine Attains.ext (σ := ⟨srv, σ.world⟩) (e := Call.now) hc₁ (hcalls _ _ _) hnow ?_
  refine lockRequest_attains (σ := ⟨srv, w'⟩) hc₁ hok h.row fun srv hc₂ => ?_
  refine orThrow_attains hread (refuse_attains ?_ ?_)
  · simp only [not_or, not_not]
    exact ⟨hmatches.payloadDigest, hmatches.artifactSha256, hmatches.artifactSizeBytes,
      hmatches.expiresAt⟩
  refine key_attains (σ := ⟨srv, w'⟩) hc₂ hcalls (parsePayload_slug hread) hget h.readKey ?_
  exact refuse_attains (not_not.mpr h.keyId) (hk srv hc₂)

/-- `approve` responds with a request that is signed. -/
theorem approve_attains_signed (h : Approvable crates app authorization id input d request bytes key
    found) (hworld : Answering X i request.product found now σ.world w')
    (hc : Rests i d σ.server) (hok : AllowsOthers ok i) (hsigned : request.status = .signed) :
    Attains ok i (approve crates app authorization id input) σ fun response σ' =>
      response = request ∧ σ'.world = w' ∧ Rests i d σ'.server := by
  refine approve_attains_start h hworld hc hok fun srv hc' => ?_
  rw [if_pos hsigned]
  exact .ret ⟨[], d, hc', rfl, fun srv' hc'' => ⟨rfl, rfl, hc''⟩⟩

/-- It signs a request that is pending and has not expired. -/
theorem approve_attains (h : Approvable crates app authorization id input d request bytes key found)
    (hworld : Answering X i request.product found now σ.world w') (hc : Rests i d σ.server)
    (hok : AllowsOthers ok i) (hpending : request.status ≠ .signed)
    (hunexpired : now ≤ request.expiresAt) {answer : Json} {signature : String} {a : X.Choice}
    (hpost : X.run i (Call.bao "POST" ("transit/sign/reeva-" ++ key.product)
      (some (.obj [("input", .str (String.ofList (Base64Url.encodeStandard bytes))),
        ("key_version", .int key.keyVersion), ("prehashed", .bool false)]))) a w' =
      some (.ok answer, w'))
    (hsignature : readSignature crates key bytes answer = .ok signature) :
    Attains ok i (approve crates app authorization id input) σ fun response σ' =>
      response = { request with status := .signed, signature := some signature } ∧ σ'.world = w' ∧
        ∃ d' : Db, Rests i d' σ'.server ∧ d'.requests = d.requests.map (signing id signature) ∧
          d'.audit = d.audit ++ [⟨id, "approved-and-signed", "approver"⟩] := by
  obtain ⟨ck, hget⟩ := hworld.key
  obtain ⟨manifest, hread, -⟩ := h.read
  have hcalls : ∀ e ch σ', ok i (.ext e) (.ext ch) σ' := fun _ _ _ =>
    hok _ _ _ fun _ _ h => by cases h
  refine approve_attains_start h hworld hc hok fun srv hc₁ => ?_
  rw [if_neg hpending]
  refine refuse_attains (not_lt.mpr hunexpired) ?_
  -- The key store signs, and has the same key still.
  have hsign : ∀ {α : Type} {k : String → Handler α} {Q : α → System schema X.State → Prop},
      Attains ok i (k signature) ⟨srv, w'⟩ Q →
      Attains ok i ((Bao.sign crates key bytes).bind k) ⟨srv, w'⟩ Q := fun hk => by
    refine Attains.bind (Attains.ext (σ := ⟨srv, w'⟩) (e := Call.bao "POST" _ _) hc₁ (hcalls _ _ _)
      hpost ?_)
    refine orThrow_attains (k := fun answer => orThrow (readSignature crates key bytes answer)) rfl
      ?_
    rw [hsignature]
    exact .ret hk
  refine hsign (key_attains (σ := ⟨srv, w'⟩) hc₁ hcalls (parsePayload_slug hread) hget h.readKey ?_)
  refine refuse_attains (not_not.mpr rfl) ?_
  have hnothing : Server.publish (D := schema) [] d = some d := rfl
  refine Attains.write (σ := ⟨srv, w'⟩) (w := Write.sign id signature) hc₁
    (hok.db _ (fun _ _ h => by cases h) _) hnothing
    (apply_of_valid (valid_sign (signature_fits hsignature))) fun srv hc₂ hpublish => ?_
  refine Attains.write (σ := ⟨srv, w'⟩)
    (w := Write.insertAudit ⟨id, "approved-and-signed", "approver"⟩) hc₂
    (hok.db _ (fun _ _ h => by cases h) _) hpublish (apply_of_valid (valid_insertAudit _))
    fun srv hc₃ hpublish => ?_
  refine .ret ⟨_, _, hc₃, hpublish, fun srv' hc' => ⟨rfl, rfl, _, hc', ?_, rfl⟩⟩
  exact List.map_congr_left fun r _ => by simp only [signing, decide_eq_true_eq]

end approvals

end handlers

/-! ## An exchange -/

/-- A request and its approval: what the requester and the approver send, and what the key store
answers them. -/
structure Exchange (crates : Crates) where
  app : App
  authorization : Option String
  input : CreateRequest
  bytes : List UInt8
  manifest : Manifest
  key : PublicKey
  found : Json
  /-- The requester is one, and the key store has the key that is asked for. -/
  requestable : Requestable crates app authorization input bytes manifest key found
  approverApp : App
  approverAuthorization : Option String
  approverKey : PublicKey
  approverFound : Json
  answer : Json
  signature : String
  /-- So is the approver, and it has the key still. -/
  approver : checkAuth crates approverAuthorization approverApp.approverHash = .ok ()
  readKey : Signer.readKey crates input.product (some input.keyVersion) approverFound =
    .ok approverKey
  keyId : approverKey.keyId = input.keyId
  /-- It answers with a signature. -/
  signed : readSignature crates approverKey bytes answer = .ok signature

namespace Exchange

variable {crates : Crates} (x : Exchange crates)

/-- What is asked for. -/
def request : Request := .createRequest x.app x.authorization x.input

/-- Its identifier. -/
def id : String := requestId crates x.input.product x.input.keyId x.bytes

/-- The row that it is to have at a time. -/
def created (now : ℤ) : SigningRequest :=
  { createdRow crates x.input x.bytes x.key with expiresAt := now + day }

/-- The row when it is signed. -/
def response (now : ℤ) : SigningRequest :=
  { x.created now with status := .signed, signature := some x.signature }

/-- What is sent to approve what was created at a time. -/
def approval (now : ℤ) : Approval where
  payloadDigest := digest crates x.bytes
  artifactSha256 := x.manifest.sha256
  artifactSizeBytes := x.manifest.sizeBytes
  expiresAt := now + day

/-- The approval as a request. -/
def approve (now : ℤ) : Request :=
  .approve x.approverApp x.approverAuthorization x.id (x.approval now)

/-- The row has the identifier. -/
theorem created_id (now : ℤ) : (x.created now).id = x.id :=
  congrArg (requestId crates _ · _) x.requestable.keyId

/-- The row can be approved, be it pending or signed. -/
theorem approvable (hcrates : crates.Fitting) (now : ℤ) {d : Db} {r : SigningRequest}
    (hr : r = x.created now ∨ r = x.response now) (hmem : r ∈ d.requests) :
    Approvable crates x.approverApp x.approverAuthorization x.id (x.approval now) d r x.bytes
      x.approverKey x.approverFound := by
  have hkey : Signer.readKey crates x.input.product (some x.key.keyVersion) x.approverFound =
      .ok x.approverKey := by
    rw [readKey_version x.requestable.readKey]
    exact x.readKey
  have hkeyId : x.approverKey.keyId = x.key.keyId := x.keyId.trans x.requestable.keyId.symm
  have hread := x.requestable.read
  -- What is looked at is the same in both.
  rcases hr with rfl | rfl
  · exact ⟨x.approver, validHex_digest hcrates _, x.created_id now ▸ requestAt_of_mem hmem,
      ⟨x.manifest, hread, rfl, rfl, rfl, rfl⟩, hkey, hkeyId⟩
  · exact ⟨x.approver, validHex_digest hcrates _, x.created_id now ▸ requestAt_of_mem hmem,
      ⟨x.manifest, hread, rfl, rfl, rfl, rfl⟩, hkey, hkeyId⟩

end Exchange

section runs

variable {crates : Crates} {requests : List Request} {d : Db} {clock later i j : ℕ}

/-- The program of a request. -/
theorem program_of_request {request : Request} (h : requests[i]? = some request) :
    (requests.map (·.program crates))[i]? = some (request.program crates) := by
  rw [List.getElem?_map, h]
  rfl

/-- The outside world of the signer answers. -/
theorem answering_world (i : ℕ) (product : String) (found : Json) (clock : ℕ) :
    Answering world i product found (epoch clock) clock clock where
  permit := ⟨.acquired true, rfl⟩
  now := ⟨.done, rfl⟩
  key := ⟨.answer found, rfl⟩

/-- Time passes. -/
theorem step_tick (ok : Guard machine) {c : Config machine (Failure ApiError) SigningRequest}
    {clock : ℕ} (later : ℕ) (h : (c.state.world : ℕ) = clock) :
    c.Step ok ⟨⟨c.state.server, clock + later⟩, c.pool⟩ := by
  have henv : machine.env (.ext (.tick later)) c.state =
      some ⟨c.state.server, clock + later⟩ := by
    rw [← h]
    rfl
  exact .env henv

/-- Nothing is forbidden. -/
theorem allowsOthers_always (i : ℕ) : AllowsOthers (X := world) (Guard.always machine) i :=
  fun _ _ _ _ => trivial

/-- What a request and its approval leave, one after the other: both programs have returned, and
nothing is locked. -/
structure Exchanged (ok : Guard machine) (x : Exchange crates) (requests : List Request) (d : Db)
    (clock later i j : ℕ) (c : Config machine (Failure ApiError) SigningRequest) : Prop where
  run : (start crates requests d clock).Run ok c
  world : (c.state.world : ℕ) = clock + later
  pool : c.pool = ((requests.map (·.program crates)).set i (.ret (x.created (epoch clock)))).set j
    (.ret (x.response (epoch clock)))
  rests : ∀ k, i ≠ k → j ≠ k → Rests (D := schema) k c.state.server.db c.state.server
  requests : c.state.server.db.requests = pruned (epoch clock) d ++ [x.response (epoch clock)]
  audit : c.state.server.db.audit = d.audit ++ [⟨x.id, "requested", "requester"⟩,
    ⟨x.id, "approved-and-signed", "approver"⟩]

/-- A request that is not there yet, and for which there is room, is created and then approved
before it expires. -/
theorem exchange_run {ok : Guard machine} (hok : ∀ i, AllowsOthers (X := world) ok i)
    (hcrates : crates.Fitting) (x : Exchange crates) (later : ℕ) (hij : i ≠ j)
    (hi : requests[i]? = some x.request) (hj : requests[j]? = some (x.approve (epoch clock)))
    (habsent : ∀ r ∈ pruned (epoch clock) d, r.id ≠ x.id)
    (hroom : (pruned (epoch clock) d).length < 10000)
    (hunexpired : epoch (clock + later) ≤ epoch clock + day) :
    ∃ c, Exchanged ok x requests d clock later i j c := by
  obtain ⟨created, σ₁, hcreate, hcreated, hclock, d₁, hrests, hrows, haudit⟩ :=
    createRequest_attains (σ := (⟨Server.idle d, clock⟩ : State)) (b := Outcome.done)
      (a := Outcome.answer x.found) hcrates x.requestable (Rests.idle (D := schema) i d)
      (hok i) rfl rfl habsent hroom
  replace hcreated : created = x.created (epoch clock) := hcreated
  subst hcreated
  have happrovable := x.approvable hcrates (epoch clock) (d := d₁) (.inl rfl)
    (by rw [hrows]; exact List.mem_append_right _ (List.mem_singleton_self _))
  obtain ⟨response, σ₂, happrove, hresponse, hworld, d₂, hrests₂, hrows₂, haudit₂⟩ :=
    approve_attains (X := world) (σ := ⟨σ₁.server, clock + later⟩) (a := Outcome.answer x.answer)
      happrovable (answering_world j _ _ _)
      (hcreate.rests hij (Rests.idle (D := schema) j d) hrests) (hok j)
      Status.noConfusion hunexpired rfl x.signed
  replace hresponse : response = x.response (epoch clock) := hresponse
  subst hresponse
  -- One after the other, with some time in between.
  have hrun₁ := hcreate.run (c := start crates requests d clock) rfl (program_of_request hi)
  have htick := step_tick ok later (c := ⟨σ₁, (requests.map (·.program crates)).set i
    (.ret (x.created (epoch clock)))⟩) hclock
  have hj' : ((requests.map (·.program crates)).set i (.ret (x.created (epoch clock))))[j]? =
      some ((x.approve (epoch clock)).program crates) := by
    rw [List.getElem?_set_ne hij]
    exact program_of_request hj
  have hrun₂ := happrove.run
    (c := (⟨⟨σ₁.server, clock + later⟩, (requests.map (·.program crates)).set i
      (.ret (x.created (epoch clock)))⟩ : Config machine (Failure ApiError) SigningRequest)) rfl hj'
  refine ⟨_, (hrun₁.tail htick).trans hrun₂, hworld, rfl, fun k hik hjk => ?_, ?_, ?_⟩
  · rw [hrests₂.db]
    have hidle := hcreate.rests hik (Rests.idle (D := schema) k d) hrests
    exact happrove.rests hjk hidle hrests₂
  · -- The other requests have other identifiers.
    have hothers : (pruned (epoch clock) d).map (signing x.id x.signature) =
        pruned (epoch clock) d := by
      refine (List.map_congr_left fun r hr => ?_).trans (List.map_id _)
      exact if_neg (habsent r hr)
    rw [hrests₂.db, hrows₂, hrows, List.map_append, hothers, List.map_singleton, signing,
      if_pos (x.created_id _)]
    rfl
  · rw [hrests₂.db, haudit₂, haudit, x.created_id, List.append_assoc]
    rfl

end runs

/-- Crates for which a digest is what a text begins with, a key is its bytes, and every signature is
valid. -/
def toyCrates : Crates where
  VerifyingKey := List UInt8
  sha256 bytes := (bytes ++ List.replicate 32 0).take 32
  fromBytes := some
  toPublicKeyDer key := if key.length = 32 then some key else none
  toPublicKeyPem key := some (String.ofList (Base64Url.encode key))
  fromPublicKeyPem pem := Base64Url.decodeStrict pem.toList
  verifyStrict _ _ _ := true

/-- A replica with two identities. -/
def toyApp : App := ⟨tokenHash toyCrates "requester", tokenHash toyCrates "approver"⟩

/-- The manifest of a release. -/
def toyManifest : String :=
  "[1,\"p\",\"1.0.0\",null,null,\"dev\",\"w\",\"x\",\"f\",1,\"" ++
    String.ofList (List.replicate 64 'a') ++ "\"]"

/-- A key, as the key store has it. -/
def toyPublicKey : List UInt8 := List.replicate 32 7

/-- What the key store says of the key. -/
def toyKey : Json :=
  .obj [("data", .obj [("type", .str "ed25519"), ("derived", .bool false),
    ("exportable", .bool false), ("allow_plaintext_backup", .bool false),
    ("latest_version", .int 1),
    ("keys", .obj [("1", .obj [("public_key",
      .str (String.ofList (Base64Url.encodeStandard toyPublicKey)))])])])]

/-- What it signs with. -/
def toySignature : Json :=
  .obj [("data", .obj [("signature",
    .str ("vault:v1:" ++ String.ofList (Base64Url.encodeStandard (List.replicate 64 9))))])]

/-- What is asked for. -/
def toyInput : CreateRequest where
  product := "p"
  payload := String.ofList (Base64Url.encode (Js.utf8 toyManifest))
  keyId := digest toyCrates toyPublicKey
  keyVersion := 1

/-- Its identifier. -/
def toyId : String := requestId toyCrates "p" toyInput.keyId (Js.utf8 toyManifest)

/-- An approval of it. -/
def toyApproval : Approval where
  payloadDigest := digest toyCrates (Js.utf8 toyManifest)
  artifactSha256 := String.ofList (List.replicate 64 'a')
  artifactSizeBytes := 1
  expiresAt := 86400

/-- The request is created and approved. -/
def toyRequests : List Request :=
  [.createRequest toyApp (some "Bearer requester") toyInput,
    .approve toyApp (some "Bearer approver") toyId toyApproval]

/-- Tables without rows. -/
def emptyDb : Db := ⟨⟨[], []⟩, ⟨List.nodup_nil, fun _ h => by cases h⟩⟩

/-- What the manifest says. -/
def toyRelease : Manifest where
  schemaVersion := 1
  software := "p"
  version := "1.0.0"
  codename := none
  changelog := none
  channel := "dev"
  platform := "w"
  architecture := "x"
  fileName := "f"
  sizeBytes := 1
  sha256 := String.ofList (List.replicate 64 'a')

/-- The key as it is read. -/
def toyRead : PublicKey where
  product := "p"
  keyVersion := 1
  keyId := digest toyCrates toyPublicKey
  publicKey := String.ofList (Base64Url.encode toyPublicKey)

/-- What is read from the payload. -/
theorem parsePayload_toy :
    parsePayload toyInput.payload "p" = .ok (Js.utf8 toyManifest, toyRelease) := by
  have hlist : toyInput.payload.toList = Base64Url.encode (Js.utf8 toyManifest) :=
    String.toList_ofList
  refine parsePayload_eq_ok_iff.mpr ⟨⟨by decide +kernel, hlist, ?_⟩, ?_⟩
  · rw [hlist, Base64Url.length_encode]
    decide +kernel
  · have hparse : (Json.parse toyManifest).bind Manifest.fromJson = some toyRelease := by
      decide +kernel
    have hsupported : toyRelease.supported "p" = true := by decide +kernel
    unfold readManifest
    rw [Js.fromUtf8_utf8, Option.bind_some, hparse]
    dsimp only
    rw [if_pos hsupported]

/-- The crates of the exchange fit. -/
theorem toyCrates_fitting : toyCrates.Fitting where
  digest bytes := by
    change ((bytes ++ List.replicate 32 0).take 32).length = 32
    rw [List.length_take, List.length_append, List.length_replicate]
    omega
  pem key pem h c hc := by
    rw [← Option.some.inj h, String.toList_ofList] at hc
    exact encode_pos key c hc

/-- The exchange. -/
def toyExchange : Exchange toyCrates where
  app := toyApp
  authorization := some "Bearer requester"
  input := toyInput
  bytes := Js.utf8 toyManifest
  manifest := toyRelease
  key := toyRead
  found := toyKey
  requestable := {
    requester := by decide +kernel
    identifier := by decide +kernel
    version := by decide
    read := parsePayload_toy
    readKey := by decide +kernel
    keyId := rfl }
  approverApp := toyApp
  approverAuthorization := some "Bearer approver"
  approverKey := toyRead
  approverFound := toyKey
  answer := toySignature
  signature := String.ofList (Base64Url.encode (List.replicate 64 9))
  approver := by decide +kernel
  readKey := by decide +kernel
  keyId := rfl
  signed := by decide +kernel

/-- Its approval. -/
theorem toyExchange_approve :
    toyExchange.approve (epoch 0) =
      .approve toyApp (some "Bearer approver") toyId toyApproval := by
  have hexpires : epoch 0 + day = 86400 := by decide
  dsimp only [Exchange.approve, Exchange.approval, Exchange.id, toyExchange, toyId, toyInput,
    toyApproval, toyRelease]
  rw [hexpires]

/-- A run in which the request is created and then approved. -/
theorem toy_exchange :
    ∃ c, Config.Run (.always machine) (start toyCrates toyRequests emptyDb 0) c ∧
      (c.state.server.db.requests.any fun r => r.signature.isSome) = true := by
  have hcreate : toyRequests[0]? = some toyExchange.request := rfl
  have happrove : toyRequests[1]? = some (toyExchange.approve (epoch 0)) := by
    rw [toyExchange_approve]
    rfl
  obtain ⟨c, h⟩ := exchange_run (d := emptyDb) allowsOthers_always toyCrates_fitting toyExchange 0
    (by decide) hcreate happrove (fun _ h => by cases h) (by decide) (by decide)
  refine ⟨c, h.run, List.any_eq_true.mpr ⟨toyExchange.response (epoch 0), ?_, rfl⟩⟩
  rw [h.requests]
  exact List.mem_append_right _ (List.mem_singleton_self _)

end Reeva.Signer
