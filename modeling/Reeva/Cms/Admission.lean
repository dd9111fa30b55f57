import Reeva.Cms.Coherence
import Mathlib.Data.List.Nodup

/-!
# What the public query admits

The SQL policy of `publicQuery` compares the stored snapshot with a manifest that the database builds
from the current rows; `createOtaSignatureEnvelope` compares it with one that JavaScript builds. On
coherent tables they agree: an admitted artifact of a signed-only product has an envelope, and its
signature verifies over the payload of its current metadata under an active key of that product.
-/

namespace Reeva

/-- The row that is found under a key of its own. -/
theorem find?_of_nodup {α κ : Type} {key : α → κ} {l : List α} {p : α → Bool} {v : α}
    (h : (l.map key).Nodup) (hv : v ∈ l) (hp : p v = true)
    (hk : ∀ x, p x = true → key x = key v) : l.find? p = some v := by
  cases hf : l.find? p with
  | none => exact absurd hp (by simpa using List.find?_eq_none.mp hf v hv)
  | some w =>
    have hw := hk w (List.find?_some hf)
    rw [List.inj_on_of_nodup_map h (List.mem_of_find?_eq_some hf) hv hw]

/-- A list with one element at most has no two. -/
theorem eq_of_length_le_one {α : Type} {l : List α} (h : l.length ≤ 1) {a b : α} (ha : a ∈ l)
    (hb : b ∈ l) : a = b := by
  match l, h with
  | [x], _ => rw [List.mem_singleton.mp ha, List.mem_singleton.mp hb]

/-- Registered keys are told apart by their identifiers. -/
theorem Tables.Valid.key_unique {t : Tables} (h : t.Valid) {k k' : SoftwareSigningKey}
    (hk : k ∈ t.signingKeys) (hk' : k' ∈ t.signingKeys) (hid : k.keyId = k'.keyId) : k = k' :=
  List.inj_on_of_nodup_map h.keyIds hk hk' hid

/-- A value whose `jsonb` form is a string, a number or null is that value. -/
theorem eq_of_jsonb_eq {j v : Json} (hv : ∀ xs, v ≠ .arr xs) (hv' : ∀ fs, v ≠ .obj fs)
    (h : j.jsonb = v) : j = v := by
  cases j with
  | arr xs => exact absurd h.symm (hv _)
  | obj fs => exact absurd h.symm (hv' _)
  | _ => exact h

/-- A manifest's own properties are strings, numbers or null. -/
theorem entry_ne (m : OtaReleaseManifest) {entry : String × Json} (h : entry ∈ m.entries) :
    (∀ xs, entry.2 ≠ .arr xs) ∧ ∀ fs, entry.2 ≠ .obj fs := by
  have nullable : ∀ o : Option String,
      (∀ xs, jsonOfNullable o ≠ .arr xs) ∧ ∀ fs, jsonOfNullable o ≠ .obj fs := by
    intro o
    cases o <;> simp [jsonOfNullable]
  simp only [OtaReleaseManifest.entries, List.mem_cons, List.not_mem_nil, or_false] at h
  rcases h with rfl | rfl | rfl | rfl | rfl | rfl | rfl | rfl | rfl | rfl | rfl <;>
    first | exact nullable _ | simp

/-- The members of a snapshot are those of the manifest with the same `jsonb` form. -/
theorem get?_snapshot {snapshot : Json} {m : OtaReleaseManifest}
    (h : snapshot.jsonb = m.toJson.jsonb) {entry : String × Json} (he : entry ∈ m.entries) :
    snapshot.get? entry.1 = some entry.2 := by
  have hm := get?_jsonb_toJson m he
  rw [← h] at hm
  cases snapshot with
  | obj fields =>
    rw [Json.get?_jsonb, Option.map_eq_some_iff] at hm
    obtain ⟨v, hv, hj⟩ := hm
    obtain ⟨harr, hobj⟩ := entry_ne m he
    rw [hv, eq_of_jsonb_eq harr hobj hj]
  | _ => simp [Json.jsonb, OtaReleaseManifest.toJson] at h

/-- The manifest that the database builds has the members that the snapshot's manifest has. -/
structure SameMembers (t : Tables) (s : Software) (v : Version) (a : Artifact)
    (m : OtaReleaseManifest) : Prop where
  software : s.slug = m.software
  version : v.number = m.version
  codename : v.codename = m.codename
  changelog : v.changelog = m.changelog
  channel : a.channel = m.channel
  platform : nameById t.platforms a.platformId = .str m.platform
  architecture : nameById t.architectures a.architectureId = .str m.architecture
  fileName : a.fileName = m.fileName
  sizeBytes : a.sizeBytes = some m.sizeBytes
  sha256 : a.checksumSha256 = some m.sha256

/-- A nullable string that is a given string. -/
theorem jsonOfNullable_eq_str {o : Option String} {s : String} (h : jsonOfNullable o = .str s) :
    o = some s := by
  cases o <;> simp_all [jsonOfNullable]

/-- Equality as `jsonb` values is equality of the members. -/
theorem sameMembers_of_jsonb {t : Tables} {s : Software} {v : Version} {a : Artifact}
    {m : OtaReleaseManifest} (h : (signedManifest t s v a).jsonb = m.toJson.jsonb) :
    SameMembers t s v a m := by
  have member : ∀ k x y, (k, y) ∈ m.entries → (signedManifest t s v a).get? k = some x →
      x.jsonb = x → x = y := by
    intro k x y hy hx hxj
    have hm := get?_jsonb_toJson m hy
    rw [← h, signedManifest, Json.get?_jsonb] at hm
    rw [signedManifest] at hx
    rw [hx, Option.map_some, hxj] at hm
    exact Option.some.inj hm
  have str : ∀ k x y, (k, Json.str y) ∈ m.entries →
      (signedManifest t s v a).get? k = some (.str x) → x = y :=
    fun k x y hy hx => Json.str.inj (member k _ _ hy hx rfl)
  have nullable : ∀ k x y, (k, y) ∈ m.entries →
      (signedManifest t s v a).get? k = some (jsonOfNullable x) → jsonOfNullable x = y :=
    fun k x y hy hx => member k _ _ hy hx (jsonb_jsonOfNullable x)
  refine ⟨str "software" _ _ ?_ ?_, str "version" _ _ ?_ ?_,
    jsonOfNullable_injective (nullable "codename" _ _ ?_ ?_),
    jsonOfNullable_injective (nullable "changelog" _ _ ?_ ?_), str "channel" _ _ ?_ ?_,
    nullable "platform" _ _ ?_ ?_, nullable "architecture" _ _ ?_ ?_, str "fileName" _ _ ?_ ?_,
    ?_, jsonOfNullable_eq_str (nullable "sha256" _ _ ?_ ?_)⟩
  case refine_17 =>
    have hsize := member "sizeBytes" ((a.sizeBytes.map Json.int).getD .null) (.int m.sizeBytes)
      (by simp [OtaReleaseManifest.entries]) (by simp [signedManifest, Json.get?, List.lookup_cons])
      (by cases a.sizeBytes <;> rfl)
    cases hs : a.sizeBytes with
    | none => simp [hs] at hsize
    | some n => simpa [hs] using hsize
  all_goals
    first
    | simp [OtaReleaseManifest.entries]
    | simp [signedManifest, Json.get?, nameById, List.lookup_cons]

/-- The database builds the document that JavaScript does. -/
theorem signedManifest_eq {t : Tables} {s : Software} {v : Version} {a : Artifact}
    {m : OtaReleaseManifest} (h : SameMembers t s v a m) : signedManifest t s v a = m.toJson := by
  simp only [signedManifest, OtaReleaseManifest.toJson, OtaReleaseManifest.entries, h.software,
    h.version, h.codename, h.changelog, h.channel, h.platform, h.architecture, h.fileName, h.sizeBytes,
    h.sha256, Option.map_some, Option.getD_some, jsonOfNullable]

/-- The name of a row that is there is the one that the database finds. -/
theorem nameById_of_mem {targets : List Target} {p : Target} (hn : (targets.map (·.id)).Nodup)
    (hp : p ∈ targets) {id : Id} (hid : p.id = id) : nameById targets id = .str p.name := by
  have hf : targets.find? (·.id = id) = some p :=
    find?_of_nodup hn hp (by simpa using hid) fun x hx => by
      simp only [decide_eq_true_eq] at hx
      rw [hx, hid]
  rw [nameById, hf]
  rfl

/-- A name that the database finds is that of the first row with the key. -/
theorem find?_of_nameById {targets : List Target} {id : Id} {name : String}
    (h : nameById targets id = .str name) {p : Target} (hn : (targets.map (·.id)).Nodup)
    (hp : p ∈ targets) (hid : p.id = id) : p.name = name := by
  rw [nameById_of_mem hn hp hid] at h
  exact Json.str.inj h

/-- The rows that an artifact's metadata comes from. -/
structure Related (t : Tables) (a : Artifact) (v : Version) (s : Software) (p q : Target) :
    Prop where
  version : t.version a.versionId = some v
  software : t.softwareById v.softwareId = some s
  platform : t.platform a.platformId = some p
  architecture : t.architecture a.architectureId = some q

/-- What the public query admits, row by row. -/
structure Admitted (t : Tables) (a : Artifact) (v : Version) (s : Software) (p q : Target) : Prop
    extends Related t a v s p q where
  policy : signaturePolicy t s v a = true

/-- An admitted artifact has live relations, and its product's policy admits it. -/
theorem admitted_of_public {t : Tables} (hv : t.Valid) {softwareId : Option Id} {a : Artifact}
    (h : a ∈ publicQuery t softwareId) :
    a ∈ t.artifacts ∧ ∃ v s p q, Admitted t a v s p q := by
  obtain ⟨ha, hpub⟩ := List.mem_filter.mp h
  refine ⟨ha, ?_⟩
  simp only [isPublic, Bool.and_eq_true, List.any_eq_true, decide_eq_true_eq] at hpub
  obtain ⟨⟨⟨⟨⟨⟨-, v, hvm, s, hsm, hvs⟩, p, hpm, hp⟩, q, hqm, hq⟩, -⟩, -⟩, -⟩ := hpub
  refine ⟨v, s, p, q, ⟨?_, ?_, ?_, ?_⟩, ?_⟩
  · refine find?_of_nodup hv.versionIds hvm ?_ fun x hx => ?_
    · simp [hvs.1.1.1.1.1.2, hvs.1.1.1.1.2]
    · simp only [Bool.and_eq_true, decide_eq_true_eq] at hx
      exact hx.1.trans hvs.1.1.1.1.1.2.symm
  · refine find?_of_nodup hv.softwareIds hsm ?_ fun x hx => ?_
    · simp [hvs.1.1.1.1.1.1]
    · simp only [decide_eq_true_eq] at hx
      exact hx.trans hvs.1.1.1.1.1.1
  · refine find?_of_nodup hv.platformIds hpm ?_ fun x hx => ?_
    · simp [hp.1, hp.2]
    · simp only [Bool.and_eq_true, decide_eq_true_eq] at hx
      exact hx.1.trans hp.1.symm
  · refine find?_of_nodup hv.architectureIds hqm ?_ fun x hx => ?_
    · simp [hq.1, hq.2]
    · simp only [Bool.and_eq_true, decide_eq_true_eq] at hx
      exact hx.1.trans hq.1.symm
  · exact hvs.1.2

variable (node : Node)

/-- Only a signature of 86 characters verifies. -/
theorem ne_empty_of_verify {payload signature publicKey : String}
    (h : verifyOtaReleaseSignature node payload (.str signature) publicKey = true) :
    signature ≠ "" := by
  rintro rfl
  simp [verifyOtaReleaseSignature] at h

/-- JavaScript builds the manifest that the database builds. -/
theorem build_iff_sameMembers {t : Tables} (hv : t.Valid) {a : Artifact} {v : Version} {s : Software}
    {p q : Target} (h : Related t a v s p q) {m : OtaReleaseManifest} :
    buildOtaReleaseManifest (t.load a) = .ok m ↔ m.Signable ∧ SameMembers t s v a m := by
  have hp := List.find?_some h.platform
  have hq := List.find?_some h.architecture
  simp only [Bool.and_eq_true, decide_eq_true_eq] at hp hq
  have hpm := List.mem_of_find?_eq_some h.platform
  have hqm := List.mem_of_find?_eq_some h.architecture
  constructor
  · intro hb
    refine ⟨signable_of_build hb, ?_⟩
    simp only [buildOtaReleaseManifest, Tables.load, h.version, h.platform, h.architecture,
      Option.map_some, Tables.loadVersion, h.software] at hb
    split at hb
    · rename_i size hsize
      split at hb
      · cases hb
      · split at hb
        · rename_i sha hsha
          split at hb
          · cases hb
          · cases hb
            exact ⟨rfl, rfl, rfl, rfl, rfl, nameById_of_mem hv.platformIds hpm hp.1,
              nameById_of_mem hv.architectureIds hqm hq.1, rfl, hsize, hsha⟩
        · cases hb
    · cases hb
  · rintro ⟨hm, same⟩
    have hpn := find?_of_nameById same.platform hv.platformIds hpm hp.1
    have hqn := find?_of_nameById same.architecture hv.architectureIds hqm hq.1
    simp only [buildOtaReleaseManifest, Tables.load, h.version, h.platform, h.architecture,
      Option.map_some, Tables.loadVersion, h.software, same.sizeBytes, same.sha256, hm.safe,
      hm.sha256, not_lt.mpr hm.nonneg, same.software, same.version, same.codename,
      same.changelog, same.channel, hpn, hqn, same.fileName, Bool.not_true, decide_false,
      Bool.or_self, Bool.false_eq_true, if_false]

/-- When there is an envelope: the snapshot has the members of the current manifest. -/
theorem envelope_iff {a : LoadedArtifact} {signature keyId : String}
    (hsig : a.artifact.signature = some signature) (hkey : a.artifact.signatureKeyId = some keyId)
    (hs : signature ≠ "") (hk : keyId ≠ "") {envelope : OtaSignatureEnvelope} :
    createOtaSignatureEnvelope a = .ok (some envelope) ↔
      ∃ m snapshot, buildOtaReleaseManifest a = .ok m ∧
        a.artifact.signatureManifest = some snapshot ∧
        (∀ entry ∈ m.entries, snapshot.get? entry.1 = some entry.2) ∧
        envelope = ⟨m.payload, signature, keyId⟩ := by
  simp only [createOtaSignatureEnvelope, hsig, hkey, hs, hk, or_self, if_false]
  cases hb : buildOtaReleaseManifest a with
  | error e => simp
  | ok m =>
    cases hman : a.artifact.signatureManifest with
    | none => simp
    | some snapshot =>
      dsimp only
      by_cases hall : ∀ entry ∈ m.entries, snapshot.get? entry.1 = some entry.2
      · rw [if_neg (by simpa using hall)]
        constructor
        · intro he
          exact ⟨m, snapshot, rfl, rfl, hall, (Option.some.inj (Except.ok.inj he)).symm⟩
        · rintro ⟨m', snapshot', hm, -, -, he⟩
          rw [he, Except.ok.inj hm]
      · rw [if_pos (by simpa using hall)]
        constructor
        · intro he
          exact absurd (Except.ok.inj he) (by simp)
        · rintro ⟨m', snapshot', hm, hsn, hall', -⟩
          obtain rfl := Except.ok.inj hm
          obtain rfl := Option.some.inj hsn
          exact absurd hall' hall

/-- An admitted artifact of a signed-only product has an envelope whose signature verifies over the
payload of the current metadata under an active key of that product. -/
theorem envelope_of_admitted {t : Tables} (hv : t.Valid) (hc : Coherent node t) {a : Artifact}
    (ha : a ∈ t.artifacts) {v : Version} {s : Software} {p q : Target}
    (h : Admitted t a v s p q) (hreq : s.requireSignedUpdates = true) :
    ∃ envelope, createOtaSignatureEnvelope (t.load a) = .ok (some envelope) ∧
      createOtaReleasePayload (t.load a) = .ok envelope.payload ∧
      ∃ k ∈ t.signingKeys, k.softwareId = s.id ∧ k.keyId = envelope.keyId ∧ k.isActive = true ∧
        verifyOtaReleaseSignature node envelope.payload (.str envelope.signature) k.publicKey =
          true := by
  have hpol := h.policy
  simp only [signaturePolicy, hreq, Bool.not_true, Bool.false_or, List.any_eq_true,
    Bool.and_eq_true, decide_eq_true_eq] at hpol
  obtain ⟨k, hk, ⟨⟨⟨hks, hkid⟩, hka⟩, hsig⟩, hsnap⟩ := hpol
  obtain ⟨signature, hsig⟩ := Option.isSome_iff_exists.mp hsig
  obtain ⟨snapshot, hman, hsnap⟩ := Option.map_eq_some_iff.mp hsnap
  obtain ⟨hhex, m, hm, hmj, k', hk', hk'id, hver⟩ := hc a ha _ _ _ hsig hkid.symm hman
  obtain rfl := hv.key_unique hk' hk hk'id
  have hbuild : buildOtaReleaseManifest (t.load a) = .ok m :=
    (build_iff_sameMembers hv h.toRelated).mpr
      ⟨hm, sameMembers_of_jsonb (hsnap.symm.trans hmj)⟩
  have hkne : k'.keyId ≠ "" := by
    intro he
    rw [he] at hhex
    exact absurd hhex (by decide)
  refine ⟨⟨m.payload, signature, k'.keyId⟩, ?_, ?_, k', hk', hks, rfl, hka, hver⟩
  · exact (envelope_iff (a := t.load a) hsig hkid.symm (ne_empty_of_verify node hver) hkne).mpr
      ⟨m, snapshot, hbuild, hman, fun entry he => get?_snapshot hmj he, rfl⟩
  · rw [createOtaReleasePayload, hbuild]
    rfl

/-- An artifact that the public query returns for a product that requires signed updates has an
envelope: it names an active key of that product, its payload is built from the artifact's current
metadata, and its signature verifies over that payload under that key. -/
def PublicationSafe (t : Tables) : Prop :=
  ∀ softwareId, ∀ a ∈ publicQuery t softwareId, ∀ v ∈ t.versions, v.id = a.versionId →
    ∀ s ∈ t.software, s.id = v.softwareId → s.requireSignedUpdates = true →
      ∃ envelope, createOtaSignatureEnvelope (t.load a) = .ok (some envelope) ∧
        createOtaReleasePayload (t.load a) = .ok envelope.payload ∧
        ∃ k ∈ t.signingKeys, k.softwareId = s.id ∧ k.keyId = envelope.keyId ∧ k.isActive = true ∧
          verifyOtaReleaseSignature node envelope.payload (.str envelope.signature) k.publicKey =
            true

/-- Coherent tables publish safely. -/
theorem publicationSafe_of_coherent {t : Tables} (hvalid : t.Valid) (hc : Coherent node t) :
    PublicationSafe node t := by
  intro softwareId a ha v hv hav s hs hvs hreq
  obtain ⟨hmem, v', s', p, q, hadm⟩ := admitted_of_public hvalid ha
  have hv' := List.find?_some hadm.version
  simp only [Bool.and_eq_true, decide_eq_true_eq] at hv'
  obtain rfl := List.inj_on_of_nodup_map hvalid.versionIds
    (List.mem_of_find?_eq_some hadm.version) hv (hv'.1.trans hav.symm)
  have hs' := List.find?_some hadm.software
  simp only [decide_eq_true_eq] at hs'
  obtain rfl := List.inj_on_of_nodup_map hvalid.softwareIds
    (List.mem_of_find?_eq_some hadm.software) hs (hs'.trans hvs.symm)
  exact envelope_of_admitted node hvalid hc hmem hadm hreq

/-- A product's policy admits an artifact whose snapshot is its current manifest. -/
theorem signaturePolicy_of_snapshot {t : Tables} {s : Software} {v : Version} {a : Artifact}
    {k : SoftwareSigningKey} (hk : k ∈ t.signingKeys) (hs : k.softwareId = s.id)
    (hactive : k.isActive = true) (hid : a.signatureKeyId = some k.keyId)
    (hsig : a.signature.isSome = true)
    (hsnap : a.signatureManifest = some (signedManifest t s v a)) :
    signaturePolicy t s v a = true := by
  rw [signaturePolicy, Bool.or_eq_true, List.any_eq_true]
  exact .inr ⟨k, hk, by simp [hs, hactive, hid, hsig, hsnap]⟩

end Reeva
