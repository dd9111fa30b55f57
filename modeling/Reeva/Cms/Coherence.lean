import Reeva.Cms.Writes

/-!
# Coherent signature triples

An artifact's `signature`, `signatureKeyId` and `signatureManifest` are coherent when the signature
verifies over the payload of that manifest under the registered key of that identifier. Most writes
cannot break this: they leave each of the three columns as it is or set it to null (`Harmless`). The
one that can is the save of a signature submission, and `saveSigned` says when it does not: every
column of the three that the save omits must still hold the value that was submitted, or be null.
-/

open Interleaving ReadCommitted

namespace Reeva

/-! ## Manifests and their snapshots -/

/-- What `buildOtaReleaseManifest` makes sure of. -/
structure OtaReleaseManifest.Signable (m : OtaReleaseManifest) : Prop where
  safe : Js.isSafeInteger m.sizeBytes = true
  nonneg : 0 ≤ m.sizeBytes
  sha256 : Js.isSha256Hex m.sha256 = true

/-- A manifest that is built is signable. -/
theorem signable_of_build {a : LoadedArtifact} {m : OtaReleaseManifest}
    (h : buildOtaReleaseManifest a = .ok m) : m.Signable := by
  unfold buildOtaReleaseManifest at h
  split at h
  · split at h
    · split at h
      · cases h
      · rename_i hsize
        split at h
        · split at h
          · cases h
          · rename_i hsha
            cases h
            simp only [Bool.or_eq_true, Bool.not_eq_true', decide_eq_true_eq, not_or,
              Bool.not_eq_false, not_lt] at hsize
            exact ⟨hsize.1, hsize.2, by simpa using hsha⟩
        · cases h
    · cases h
  · cases h

/-- A payload is that of the manifest that was built. -/
theorem build_of_payload {a : LoadedArtifact} {payload : String}
    (h : createOtaReleasePayload a = .ok payload) :
    ∃ m, buildOtaReleaseManifest a = .ok m ∧ m.payload = payload := by
  unfold createOtaReleasePayload at h
  cases hb : buildOtaReleaseManifest a with
  | ok m =>
    rw [hb] at h
    exact ⟨m, rfl, Except.ok.inj h⟩
  | error e =>
    rw [hb] at h
    simp [Except.map] at h

/-- The snapshot that is parsed from a payload is the manifest of the payload. -/
theorem parse_payload (m : OtaReleaseManifest) :
    parseOtaReleasePayload m.payload = some m.toJson := by
  simp [parseOtaReleasePayload, OtaReleaseManifest.payload]

/-- A nullable string is read back. -/
theorem jsonOfNullable_injective {a b : Option String} (h : jsonOfNullable a = jsonOfNullable b) :
    a = b := by
  cases a <;> cases b <;> simp_all [jsonOfNullable]

/-- A nullable string has one `jsonb` form. -/
theorem jsonb_jsonOfNullable (a : Option String) : (jsonOfNullable a).jsonb = jsonOfNullable a := by
  cases a <;> simp [jsonOfNullable, Json.jsonb]

/-- The members of a manifest's `jsonb` form are the manifest's own properties. -/
theorem get?_jsonb_toJson (m : OtaReleaseManifest) {entry : String × Json}
    (h : entry ∈ m.entries) : m.toJson.jsonb.get? entry.1 = some entry.2 := by
  rw [OtaReleaseManifest.toJson, Json.get?_jsonb]
  simp only [OtaReleaseManifest.entries, List.mem_cons, List.not_mem_nil, or_false] at h
  rcases h with rfl | rfl | rfl | rfl | rfl | rfl | rfl | rfl | rfl | rfl | rfl <;>
    simp [Json.get?, OtaReleaseManifest.entries, List.lookup_cons, Json.jsonb,
      jsonb_jsonOfNullable]

/-- A manifest is determined by its properties. -/
theorem manifest_ext {m m' : OtaReleaseManifest}
    (member : ∀ k v v', (k, v) ∈ m.entries → (k, v') ∈ m'.entries → v = v') : m = m' := by
  have str : ∀ k a b, (k, Json.str a) ∈ m.entries → (k, Json.str b) ∈ m'.entries → a = b :=
    fun k a b ha hb => Json.str.inj (member k _ _ ha hb)
  have nullable : ∀ k a b, (k, jsonOfNullable a) ∈ m.entries →
      (k, jsonOfNullable b) ∈ m'.entries → a = b :=
    fun k a b ha hb => jsonOfNullable_injective (member k _ _ ha hb)
  cases m
  cases m'
  simp only [OtaReleaseManifest.mk.injEq]
  refine ⟨str "software" _ _ ?_ ?_, str "version" _ _ ?_ ?_, nullable "codename" _ _ ?_ ?_,
    nullable "changelog" _ _ ?_ ?_, str "channel" _ _ ?_ ?_, str "platform" _ _ ?_ ?_,
    str "architecture" _ _ ?_ ?_, str "fileName" _ _ ?_ ?_,
    Json.int.inj (member "sizeBytes" _ _ ?_ ?_), str "sha256" _ _ ?_ ?_⟩ <;>
    simp [OtaReleaseManifest.entries]

/-- A manifest is determined by its `jsonb` form. -/
theorem toJson_jsonb_injective {m m' : OtaReleaseManifest} (h : m.toJson.jsonb = m'.toJson.jsonb) :
    m = m' := by
  refine manifest_ext fun k v v' hv hv' => ?_
  have hm := get?_jsonb_toJson m hv
  rw [h, get?_jsonb_toJson m' hv'] at hm
  exact (Option.some.inj hm).symm

/-! ## Coherence -/

variable (node : Node)

/-- The signature verifies over the payload of the manifest in the snapshot, under the registered key
of that identifier. -/
def Vouched (t : Tables) (signature keyId : String) (snapshot : Json) : Prop :=
  Js.isSha256Hex keyId = true ∧
    ∃ m : OtaReleaseManifest, m.Signable ∧ snapshot.jsonb = m.toJson.jsonb ∧
      ∃ k ∈ t.signingKeys, k.keyId = keyId ∧
        verifyOtaReleaseSignature node m.payload (.str signature) k.publicKey = true

/-- Wherever all three columns are set, they belong together. -/
def Coherent (t : Tables) : Prop :=
  ∀ a ∈ t.artifacts, ∀ signature keyId snapshot, a.signature = some signature →
    a.signatureKeyId = some keyId → a.signatureManifest = some snapshot →
      Vouched node t signature keyId snapshot

/-- Registered keys stay registered. -/
def KeysGrow (t t' : Tables) : Prop :=
  ∀ k ∈ t.signingKeys, ∃ k' ∈ t'.signingKeys, k'.softwareId = k.softwareId ∧ k'.keyId = k.keyId ∧
    k'.publicKey = k.publicKey

theorem KeysGrow.refl (t : Tables) : KeysGrow t t := fun k hk => ⟨k, hk, rfl, rfl, rfl⟩

theorem KeysGrow.trans {t₁ t₂ t₃ : Tables} (h₁ : KeysGrow t₁ t₂) (h₂ : KeysGrow t₂ t₃) :
    KeysGrow t₁ t₃ := by
  intro k hk
  obtain ⟨k₂, hk₂, hs₂, hi₂, hp₂⟩ := h₁ k hk
  obtain ⟨k₃, hk₃, hs₃, hi₃, hp₃⟩ := h₂ k₂ hk₂
  exact ⟨k₃, hk₃, hs₃.trans hs₂, hi₃.trans hi₂, hp₃.trans hp₂⟩

/-- What is vouched for stays so while keys are only added. -/
theorem Vouched.mono {t t' : Tables} (hk : KeysGrow t t') {signature keyId : String}
    {snapshot : Json} (h : Vouched node t signature keyId snapshot) :
    Vouched node t' signature keyId snapshot := by
  obtain ⟨hhex, m, hm, hsnap, k, hmem, hid, hv⟩ := h
  obtain ⟨k', hmem', -, hid', hp'⟩ := hk k hmem
  exact ⟨hhex, m, hm, hsnap, k', hmem', hid'.trans hid, hp' ▸ hv⟩

/-- Each of the three columns is as before or null. -/
def TripleFrom (a a' : Artifact) : Prop :=
  (a'.signature = none ∨ a'.signature = a.signature) ∧
    (a'.signatureKeyId = none ∨ a'.signatureKeyId = a.signatureKeyId) ∧
    (a'.signatureManifest = none ∨ a'.signatureManifest = a.signatureManifest)

theorem TripleFrom.refl (a : Artifact) : TripleFrom a a := ⟨.inr rfl, .inr rfl, .inr rfl⟩

/-- Tables whose artifacts have their triples from coherent ones, or have none, are coherent. -/
theorem Coherent.of_triples {t t' : Tables} (hc : Coherent node t) (hk : KeysGrow t t')
    (h : ∀ a' ∈ t'.artifacts, a'.signature = none ∨ ∃ a ∈ t.artifacts, TripleFrom a a') :
    Coherent node t' := by
  intro a' ha' signature keyId snapshot hs hi hm
  rcases h a' ha' with hnone | ⟨a, ha, ts, ti, tm⟩
  · rw [hnone] at hs
    cases hs
  · refine (hc a ha signature keyId snapshot ?_ ?_ ?_).mono node hk
    · rcases ts with ts | ts <;> rw [ts] at hs
      · cases hs
      · exact hs
    · rcases ti with ti | ti <;> rw [ti] at hi
      · cases hi
      · exact hi
    · rcases tm with tm | tm <;> rw [tm] at hm
      · cases hm
      · exact hm

/-- The save of an artifact whose three columns are unchanged in memory or null. -/
theorem TripleFrom.saveOnto {l n : Artifact}
    (hs : n.signature = none ∨ n.signature = l.signature)
    (hi : n.signatureKeyId = none ∨ n.signatureKeyId = l.signatureKeyId)
    (hm : n.signatureManifest = none ∨ n.signatureManifest = l.signatureManifest) (a : Artifact) :
    TripleFrom a (l.saveOnto n a) := by
  refine ⟨?_, ?_, ?_⟩
  · simp only [Artifact.saveOnto, dirty]
    split
    · exact .inr rfl
    · rename_i hne
      exact .inl (hs.resolve_right hne)
  · simp only [Artifact.saveOnto, dirty]
    split
    · exact .inr rfl
    · rename_i hne
      exact .inl (hi.resolve_right hne)
  · simp only [Artifact.saveOnto, dirtyJson]
    split
    · exact .inr rfl
    · rename_i hne
      exact .inl (hm.resolve_right fun h => hne (by rw [h]))

/-- The writes that keep every triple or set its columns to null, and keep every registered key. -/
inductive Harmless : Write → Prop
  | insertSoftware (r : Software) : Harmless (.insertSoftware r)
  | saveSoftware (l n : Software) : Harmless (.saveSoftware l n)
  | updateSoftware (p : Software → Bool) (f : Software → Software) :
    Harmless (.updateSoftware p f)
  | insertSigningKey (r : SoftwareSigningKey) : Harmless (.insertSigningKey r)
  | revoke (l : SoftwareSigningKey) : Harmless (.saveSigningKey l { l with isActive := false })
  | insertVersion (r : Version) : Harmless (.insertVersion r)
  | saveVersion (l n : Version) : Harmless (.saveVersion l n)
  | insertArtifact (r : Artifact) (hs : r.signature = none) (hi : r.signatureKeyId = none)
    (hm : r.signatureManifest = none) : Harmless (.insertArtifact r)
  | saveArtifact (l n : Artifact) (hs : n.signature = none ∨ n.signature = l.signature)
    (hi : n.signatureKeyId = none ∨ n.signatureKeyId = l.signatureKeyId)
    (hm : n.signatureManifest = none ∨ n.signatureManifest = l.signatureManifest) :
    Harmless (.saveArtifact l n)
  | clear (p : Tables → Artifact → Bool) : Harmless (.updateArtifacts p fun a =>
      { a with signature := none, signatureKeyId := none, signatureManifest := none })
  | insertReservation (r : Reservation) : Harmless (.insertReservation r)
  | deleteReservations (p : Reservation → Bool) : Harmless (.deleteReservations p)

/-- A harmless write keeps the registered keys. -/
theorem Harmless.keysGrow {w : Write} (h : Harmless w) (t : Tables) : KeysGrow t (w.run t).2 := by
  cases h with
  | insertSigningKey r => exact fun k hk => ⟨k, List.mem_append_left _ hk, rfl, rfl, rfl⟩
  | revoke l =>
    intro k hk
    by_cases hid : k.id = l.id
    · refine ⟨l.saveOnto { l with isActive := false } k, ?_, ?_, ?_, ?_⟩
      · exact mem_updateRows.mpr ⟨k, hk, .inl ⟨by simpa using hid, rfl⟩⟩
      · exact dirty_self _ _
      · exact dirty_self _ _
      · exact dirty_self _ _
    · exact ⟨k, mem_updateRows.mpr ⟨k, hk, .inr ⟨by simpa using hid, rfl⟩⟩, rfl, rfl, rfl⟩
  | _ => exact .refl t

/-- After a harmless write an artifact has its triple from an earlier one, or has none. -/
theorem Harmless.triples {w : Write} (h : Harmless w) (t : Tables) :
    ∀ a' ∈ (w.run t).2.artifacts,
      (a'.signature = none ∧ a'.signatureKeyId = none ∧ a'.signatureManifest = none) ∨
        ∃ a ∈ t.artifacts, TripleFrom a a' := by
  cases h with
  | insertArtifact r hs hi hm =>
    intro a' ha'
    rcases List.mem_append.mp ha' with ha' | ha'
    · exact .inr ⟨a', ha', .refl a'⟩
    · rw [List.mem_singleton.mp ha']
      exact .inl ⟨hs, hi, hm⟩
  | saveArtifact l n hs hi hm =>
    intro a' ha'
    obtain ⟨a, ha, ⟨-, rfl⟩ | ⟨-, rfl⟩⟩ := mem_updateRows.mp ha'
    · exact .inr ⟨a, ha, .saveOnto hs hi hm a⟩
    · exact .inr ⟨a, ha, .refl a⟩
  | clear p =>
    intro a' ha'
    obtain ⟨a, ha, ⟨-, rfl⟩ | ⟨-, rfl⟩⟩ := mem_updateRows.mp ha'
    · exact .inr ⟨a, ha, .inl rfl, .inl rfl, .inl rfl⟩
    · exact .inr ⟨a, ha, .refl a⟩
  | _ => exact fun a' ha' => .inr ⟨a', ha', .refl a'⟩

/-- A harmless write keeps coherence. -/
theorem Harmless.coherent {w : Write} (h : Harmless w) {t : Tables} (hc : Coherent node t) :
    Coherent node (w.run t).2 :=
  hc.of_triples node (h.keysGrow t) fun a' ha' => (h.triples t a' ha').imp_left (·.1)

/-- Whether or not the constraints allow a write, coherence survives when the write keeps it. -/
theorem coherent_applyOne {node : Node} {d : Db} {w : Write} (hc : Coherent node d.toTables)
    (h : Coherent node (w.run d.toTables).2) :
    Coherent node (Db.toTables (Server.applyOne (D := cmsSchema) d w)) := by
  rcases applyOne_tables d w with ht | ht <;> rw [ht]
  · exact hc
  · exact h

/-! ## Signature submissions -/

/-- The save of a signature submission: what it puts into the three columns is vouched for, and it
changes nothing else. -/
structure Submission (t : Tables) (l n : Artifact) : Prop where
  /-- Only the three columns change. -/
  only : n = { l with
    signature := n.signature, signatureKeyId := n.signatureKeyId
    signatureManifest := n.signatureManifest }
  /-- What is submitted is vouched for. -/
  vouched : ∃ signature keyId snapshot, n.signature = some signature ∧
    n.signatureKeyId = some keyId ∧ n.signatureManifest = some snapshot ∧
    Vouched node t signature keyId snapshot

/-- A submission stays one while keys are only added. -/
theorem Submission.mono {t t' : Tables} (hk : KeysGrow t t') {l n : Artifact}
    (h : Submission node t l n) : Submission node t' l n := by
  obtain ⟨hl, s, i, m, hs, hi, hm, hv⟩ := h
  exact ⟨hl, s, i, m, hs, hi, hm, hv.mono node hk⟩

/-- Each of the three columns that the save of `n`, loaded as `l`, omits still holds in `a` the value
that `n` has there, or is null. -/
structure TripleUndisturbed (l n a : Artifact) : Prop where
  signature : n.signature = l.signature → a.signature = none ∨ a.signature = n.signature
  signatureKeyId : n.signatureKeyId = l.signatureKeyId →
    a.signatureKeyId = none ∨ a.signatureKeyId = n.signatureKeyId
  signatureManifest : n.signatureManifest.map Json.jsonb = l.signatureManifest.map Json.jsonb →
    a.signatureManifest = none ∨
      a.signatureManifest.map Json.jsonb = n.signatureManifest.map Json.jsonb

/-- The save of a submission keeps coherence when the columns that it omits are undisturbed. -/
theorem coherent_saveSigned {t : Tables} {l n : Artifact} (hc : Coherent node t)
    (hs : Submission node t l n) (hu : ∀ a ∈ t.artifacts, a.id = l.id → TripleUndisturbed l n a) :
    Coherent node (Write.run t (.saveArtifact l n)).2 := by
  obtain ⟨-, signature, keyId, snapshot, hns, hni, hnm, hv⟩ := hs
  intro a' ha' signature' keyId' snapshot' hs' hi' hm'
  obtain ⟨a, ha, ⟨hid, rfl⟩ | ⟨-, rfl⟩⟩ := mem_updateRows.mp ha'
  · have u := hu a ha (by simpa using hid)
    -- Written or omitted, each column that is not null now holds what was submitted.
    have hsig : some signature' = some signature := by
      rw [← hs', ← hns]
      simp only [Artifact.saveOnto, dirty] at hs' ⊢
      split
      · rename_i h
        rw [if_pos h] at hs'
        exact (u.signature h).resolve_left (by simp [hs'])
      · rfl
    have hkey : some keyId' = some keyId := by
      rw [← hi', ← hni]
      simp only [Artifact.saveOnto, dirty] at hi' ⊢
      split
      · rename_i h
        rw [if_pos h] at hi'
        exact (u.signatureKeyId h).resolve_left (by simp [hi'])
      · rfl
    have hsnap : snapshot'.jsonb = snapshot.jsonb := by
      refine Option.some.inj (show (some snapshot').map Json.jsonb = (some snapshot).map Json.jsonb
        from ?_)
      rw [← hm', ← hnm]
      simp only [Artifact.saveOnto, dirtyJson] at hm' ⊢
      split
      · rename_i h
        rw [if_pos h] at hm'
        exact (u.signatureManifest h).resolve_left (by simp [hm'])
      · rfl
    cases hsig
    cases hkey
    obtain ⟨hhex, m, hm, hsnapshot, hk⟩ := hv
    exact ⟨hhex, m, hm, hsnap.trans hsnapshot, hk⟩
  · exact hc a ha _ _ _ hs' hi' hm'

end Reeva
