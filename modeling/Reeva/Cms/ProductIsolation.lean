import Reeva.Cms.ReadEndpoints

/-!
# Products do not see each other

Two states of the database that agree on a product, its versions, the artifacts of these and its
signing keys, and on the platforms, architectures and storage providers, give the same answers under
the product's slug: every condition of the public query is about rows of that product or about a
table that the states share.
-/

namespace Reeva

open Queries UpdaterService

/-! ## Slugs -/

/-- A slug that a product is created with is not empty. -/
theorem createSafeSlug_ne_empty (node : Node) (name : String) : createSafeSlug node name ≠ "" := by
  simp only [createSafeSlug, orElse]
  split
  · decide
  · assumption

/-- Nor is one with a suffix. -/
theorem suffixedSlug_ne_empty (baseSlug : String) (suffix : ℕ) : suffixedSlug baseSlug suffix ≠ "" := by
  intro h
  have hlist := congrArg String.toList h
  rw [suffixedSlug, String.toList_ofList] at hlist
  simp at hlist

/-! ## Two states -/

/-- Two states that agree on one product and on what products share. -/
structure AgreeOn (t t' : Tables) (s : Software) : Prop where
  left : s ∈ t.software
  right : s ∈ t'.software
  versions : ∀ v : Version, v.softwareId = s.id → (v ∈ t.versions ↔ v ∈ t'.versions)
  artifacts : ∀ v ∈ t.versions, v.softwareId = s.id → ∀ a : Artifact, a.versionId = v.id →
    (a ∈ t.artifacts ↔ a ∈ t'.artifacts)
  signingKeys : ∀ k : SoftwareSigningKey, k.softwareId = s.id →
    (k ∈ t.signingKeys ↔ k ∈ t'.signingKeys)
  platforms : t.platforms = t'.platforms
  architectures : t.architectures = t'.architectures
  storageProviders : t.storageProviders = t'.storageProviders

section isolation

variable {t t' : Tables} {s : Software}

/-- The agreement is mutual. -/
theorem AgreeOn.symm (h : AgreeOn t t' s) : AgreeOn t' t s where
  left := h.right
  right := h.left
  versions v hv := (h.versions v hv).symm
  artifacts v hm hv a ha := (h.artifacts v ((h.versions v hv).mpr hm) hv a ha).symm
  signingKeys k hk := (h.signingKeys k hk).symm
  platforms := h.platforms.symm
  architectures := h.architectures.symm
  storageProviders := h.storageProviders.symm

/-- The slug finds the product, or nothing when the product is not active. -/
theorem resolveSoftware_slug (hv : t.Valid) (hs : s ∈ t.software) (hslug : s.slug ≠ "") :
    resolveSoftware t (some s.slug) =
      if s.isActive then .ok s
      else .error (.publicSoftwareNotFound "Software is not available.") := by
  split
  · exact resolveSoftware_of_addresses hv hs ‹_› (.inl ⟨rfl, hslug⟩)
  · rename_i hactive
    have hnone : t.findActiveBySlug s.slug = none := by
      refine List.find?_eq_none.mpr fun x hx hxs => ?_
      simp only [Bool.and_eq_true, decide_eq_true_eq] at hxs
      obtain rfl := List.inj_on_of_nodup_map hv.slugs hx hs hxs.1
      exact hactive hxs.2
    simp [resolveSoftware, Option.filter, hslug, hnone]

/-- The states have the same platforms. -/
theorem AgreeOn.platformByName (h : AgreeOn t t' s) (name : String) :
    t.platformByName name = t'.platformByName name := by
  rw [Tables.platformByName, Tables.platformByName, h.platforms]

/-- The states have the same architectures. -/
theorem AgreeOn.architectureByName (h : AgreeOn t t' s) (name : String) :
    t.architectureByName name = t'.architectureByName name := by
  rw [Tables.architectureByName, Tables.architectureByName, h.architectures]

/-- The states agree on who has signed. -/
theorem AgreeOn.signaturePolicy (h : AgreeOn t t' s) (v : Version) (a : Artifact) :
    signaturePolicy t s v a = signaturePolicy t' s v a := by
  have hmanifest : signedManifest t s v a = signedManifest t' s v a := by
    rw [signedManifest, signedManifest, h.platforms, h.architectures]
  have hkeys : ∀ f : SoftwareSigningKey → Bool, (∀ k, f k = true → k.softwareId = s.id) →
      t.signingKeys.any f = t'.signingKeys.any f := by
    intro f hf
    rw [Bool.eq_iff_iff, List.any_eq_true, List.any_eq_true]
    refine exists_congr fun k => ⟨fun hk => ?_, fun hk => ?_⟩
    · exact ⟨(h.signingKeys k (hf k hk.2)).mp hk.1, hk.2⟩
    · exact ⟨(h.signingKeys k (hf k hk.2)).mpr hk.1, hk.2⟩
  rw [Reeva.signaturePolicy, Reeva.signaturePolicy, hmanifest]
  refine congrArg _ (hkeys _ fun k hk => ?_)
  simp only [Bool.and_eq_true, decide_eq_true_eq] at hk
  exact hk.1.1.1.1

/-- What is public in one state is public in the other. -/
theorem AgreeOn.mem_publicQuery (h : AgreeOn t t' s) (hv : t.Valid) {a : Artifact}
    (ha : a ∈ publicQuery t (some s.id)) : a ∈ publicQuery t' (some s.id) := by
  obtain ⟨ha, hpub⟩ := List.mem_filter.mp ha
  simp only [isPublic, Bool.and_eq_true, List.any_eq_true, decide_eq_true_eq, Option.isNone_some,
    Bool.false_or, Option.some.injEq] at hpub
  obtain ⟨⟨⟨⟨⟨⟨hlive, v, hvm, s', hs', hver⟩, hp⟩, hq⟩, hsp⟩, hpublished⟩, harchived⟩ := hpub
  obtain ⟨⟨⟨⟨⟨⟨hvs, hva⟩, hvd⟩, hvactive⟩, hsactive⟩, hpolicy⟩, hid⟩ := hver
  obtain rfl := List.inj_on_of_nodup_map hv.softwareIds h.left hs' hid
  refine List.mem_filter.mpr ⟨(h.artifacts v hvm hvs a hva.symm).mp ha, ?_⟩
  simp only [isPublic, Bool.and_eq_true, List.any_eq_true, decide_eq_true_eq, Option.isNone_some,
    Bool.false_or, Option.some.injEq, ← h.platforms, ← h.architectures, ← h.storageProviders]
  exact ⟨⟨⟨⟨⟨⟨hlive, v, (h.versions v hvs).mp hvm, s, h.right, ⟨⟨⟨⟨⟨hvs, hva⟩, hvd⟩, hvactive⟩,
    hsactive⟩, h.signaturePolicy v a ▸ hpolicy⟩, hid⟩, hp⟩, hq⟩, hsp⟩, hpublished⟩, harchived⟩

/-- The version of a public artifact belongs to the product. -/
theorem softwareId_of_public (hv : t.Valid) {a : Artifact} (ha : a ∈ publicQuery t (some s.id)) :
    ∀ v ∈ t.versions, v.id = a.versionId → v.softwareId = s.id := by
  intro v hvm hva
  exact (related_of_mem hv (x := (a, v)) (mem_targetQuery.mpr ⟨ha, ⟨hvm, hva⟩, rfl, rfl, rfl⟩)).2.1

/-- A public artifact has the same relations in both states. -/
theorem AgreeOn.load (h : AgreeOn t t' s) (hv : t.Valid) (hv' : t'.Valid) {a : Artifact}
    (ha : a ∈ publicQuery t (some s.id)) : t.load a = t'.load a := by
  obtain ⟨-, v, s₁, p, q, hadm⟩ := admitted_of_public hv ha
  obtain ⟨-, w, s₂, p', q', hadm'⟩ := admitted_of_public hv' (h.mem_publicQuery hv ha)
  have hvm := List.mem_of_find?_eq_some hadm.version
  have hwm := List.mem_of_find?_eq_some hadm'.version
  have hva := List.find?_some hadm.version
  have hwa := List.find?_some hadm'.version
  simp only [Bool.and_eq_true, decide_eq_true_eq] at hva hwa
  have hvs := softwareId_of_public hv ha v hvm hva.1
  obtain rfl := List.inj_on_of_nodup_map hv'.versionIds ((h.versions v hvs).mp hvm) hwm
    (hva.1.trans hwa.1.symm)
  have same : s₁ = s ∧ s₂ = s := by
    have h₁ := List.find?_some hadm.software
    have h₂ := List.find?_some hadm'.software
    simp only [decide_eq_true_eq] at h₁ h₂
    exact ⟨List.inj_on_of_nodup_map hv.softwareIds (List.mem_of_find?_eq_some hadm.software)
        h.left (h₁.trans hvs),
      List.inj_on_of_nodup_map hv'.softwareIds (List.mem_of_find?_eq_some hadm'.software)
        h.right (h₂.trans hvs)⟩
  simp only [Tables.load, hadm.version, hadm'.version, Option.map_some, Tables.loadVersion,
    hadm.software, hadm'.software, same.1, same.2, Tables.platform, Tables.architecture, h.platforms,
    h.architectures]

/-- The selections have the same rows. -/
theorem AgreeOn.mem_targetQuery (h : AgreeOn t t' s) (hv : t.Valid) {platformId architectureId : Id}
    {channel : String} {x : Artifact × Version}
    (hx : x ∈ targetQuery t s.id platformId architectureId channel) :
    x ∈ targetQuery t' s.id platformId architectureId channel := by
  obtain ⟨hpub, ⟨hvm, hva⟩, ht⟩ := UpdaterService.mem_targetQuery.mp hx
  have hvs := softwareId_of_public hv hpub x.2 hvm hva
  exact UpdaterService.mem_targetQuery.mpr
    ⟨h.mem_publicQuery hv hpub, ⟨(h.versions _ hvs).mp hvm, hva⟩, ht⟩

/-- The releases are the same. -/
theorem AgreeOn.releases (h : AgreeOn t t' s) (hv : t.Valid) (hv' : t'.Valid)
    (platformId architectureId : Id) (channel : String) :
    releases t s.id platformId architectureId channel =
      releases t' s.id platformId architectureId channel :=
  orderByDesc_eq (distinguishes_targetQuery hv') (nodup_targetQuery hv') (nodup_targetQuery hv)
    (fun _ => ⟨h.mem_targetQuery hv, h.symm.mem_targetQuery hv'⟩) fun _ _ _ _ hlt => hlt

/-- So are the loaded releases. -/
theorem AgreeOn.map_load (h : AgreeOn t t' s) (hv : t.Valid) (hv' : t'.Valid)
    {platformId architectureId : Id} {channel : String} {rows : List (Artifact × Version)}
    (hrows : rows ⊆ targetQuery t s.id platformId architectureId channel) :
    (rows.map fun x => t.load x.1) = rows.map fun x => t'.load x.1 :=
  List.map_congr_left fun _ hx =>
    h.load hv hv' (UpdaterService.mem_targetQuery.mp (hrows hx)).1

/-- An artifact is found in both states. -/
theorem AgreeOn.findPublicById (h : AgreeOn t t' s) (hv : t.Valid) (hv' : t'.Valid) (id : Id) :
    t.findPublicById id (some s.id) = t'.findPublicById id (some s.id) := by
  have found : ∀ {t t' : Tables} {a : Artifact}, AgreeOn t t' s → t.Valid → t'.Valid →
      (publicQuery t (some s.id)).find? (·.id = id) = some a →
      (publicQuery t' (some s.id)).find? (·.id = id) = some a := by
    intro t t' a h hv hv' ha
    have hid := List.find?_some ha
    simp only [decide_eq_true_eq] at hid
    refine find?_of_nodup (hv'.artifactIds.sublist (List.filter_sublist.map _))
      (h.mem_publicQuery hv (List.mem_of_find?_eq_some ha)) (by simp [hid]) fun x hx => ?_
    simp only [decide_eq_true_eq] at hx
    exact hx.trans hid.symm
  simp only [Tables.findPublicById]
  cases ha : (publicQuery t (some s.id)).find? (·.id = id) with
  | none =>
    cases ha' : (publicQuery t' (some s.id)).find? (·.id = id) with
    | none => rfl
    | some a => exact absurd ((found h.symm hv' hv ha').symm.trans ha) nofun
  | some a =>
    rw [found h hv hv' ha, Option.map_some, Option.map_some,
      h.load hv hv' (List.mem_of_find?_eq_some ha), Tables.storageProvider,
      Tables.storageProvider, h.storageProviders]

/-- So is the first of them, if it satisfies a condition. -/
theorem AgreeOn.head?_load (h : AgreeOn t t' s) (hv : t.Valid) (hv' : t'.Valid)
    (platformId architectureId : Id) (channel : String) (f : Artifact × Version → Bool) :
    (((UpdaterService.releases t s.id platformId architectureId channel).head?.filter f).map fun x =>
        t.load x.1) =
      ((UpdaterService.releases t' s.id platformId architectureId channel).head?.filter f).map fun x =>
        t'.load x.1 := by
  rw [← h.releases hv hv']
  refine Option.map_congr fun x hx => ?_
  have hhead := (Option.mem_filter_iff.mp hx).1
  exact h.load hv hv' (UpdaterService.mem_targetQuery.mp
    (mem_orderByDesc.mp (List.mem_of_mem_head? hhead))).1

/-! ## The endpoints -/

section endpoints

variable (h : AgreeOn t t' s) (hv : t.Valid) (hv' : t'.Valid) (hslug : s.slug ≠ "")

include h hv hv' hslug

/-- The product is found in both states, or the same error in both. -/
theorem AgreeOn.resolveSoftware :
    (resolveSoftware t (some s.slug) = .ok s ∧ resolveSoftware t' (some s.slug) = .ok s) ∨
      ∃ e, resolveSoftware t (some s.slug) = .error e ∧
        resolveSoftware t' (some s.slug) = .error e := by
  rw [resolveSoftware_slug hv h.left hslug, resolveSoftware_slug hv' h.right hslug]
  split
  · exact .inl ⟨rfl, rfl⟩
  · exact .inr ⟨_, rfl, rfl⟩

/-- The newest release for a client is the same. -/
theorem AgreeOn.checkForUpdate (semver : SemverPackage) (platform arch version channel : String) :
    checkForUpdate semver t platform arch version channel (some s.slug) =
      checkForUpdate semver t' platform arch version channel (some s.slug) := by
  simp only [UpdaterService.checkForUpdate, h.platformByName, h.architectureByName]
  cases semver.parse version with
  | none => rfl
  | some current =>
    rcases h.resolveSoftware hv hv' hslug with ⟨hs, hs'⟩ | ⟨e, he, he'⟩
    · cases t'.platformByName platform with
      | none => simp only [hs, hs']
      | some p =>
        cases t'.architectureByName arch with
        | none => simp only [hs, hs']
        | some q =>
          have hload := h.head?_load hv hv' p.id q.id channel fun x => isNewer current x.2
          rw [← head?_newer hv, ← head?_newer hv'] at hload
          simp only [hs, hs', Bind.bind, Except.bind, hload]
    · simp only [he, he', Bind.bind, Except.bind]

/-- The newest release is the same. -/
theorem AgreeOn.getLatest (platform arch channel : String) :
    getLatest t platform arch channel (some s.slug) =
      getLatest t' platform arch channel (some s.slug) := by
  simp only [UpdaterService.getLatest, h.platformByName, h.architectureByName]
  rcases h.resolveSoftware hv hv' hslug with ⟨hs, hs'⟩ | ⟨e, he, he'⟩
  · cases t'.platformByName platform with
    | none => simp only [hs, hs']
    | some p =>
      cases t'.architectureByName arch with
      | none => simp only [hs, hs']
      | some q =>
        have hload := h.head?_load hv hv' p.id q.id channel fun _ => true
        have keep : ∀ o : Option (Artifact × Version), o.filter (fun _ => true) = o := fun o => by
          cases o <;> rfl
        rw [keep, keep] at hload
        simp only [hs, hs', Bind.bind, Except.bind]
        exact congrArg Except.ok hload
  · simp only [he, he', Bind.bind, Except.bind]

/-- The pages of releases are the same. -/
theorem AgreeOn.getReleases (platform arch channel : String) (limit page : ℕ) :
    getReleases t platform arch channel limit page (some s.slug) =
      getReleases t' platform arch channel limit page (some s.slug) := by
  rcases h.resolveSoftware hv hv' hslug with ⟨hs, hs'⟩ | ⟨e, he, he'⟩
  · cases hp : t'.platformByName platform with
    | none =>
      simp only [UpdaterService.getReleases, h.platformByName, h.architectureByName, hs, hs', hp]
    | some p =>
      cases hq : t'.architectureByName arch with
      | none =>
        simp only [UpdaterService.getReleases, h.platformByName, h.architectureByName, hs, hs', hp,
          hq]
      | some q =>
        have hrows : Queries.page limit (UpdaterService.releases t s.id p.id q.id channel) page ⊆
            targetQuery t s.id p.id q.id channel :=
          fun x hx => mem_orderByDesc.mp (page_subset _ _ _ hx)
        rw [getReleases_eq channel hv hs ((h.platformByName _).trans hp)
          ((h.architectureByName _).trans hq), getReleases_eq channel hv' hs' hp hq,
          ← h.releases hv hv', h.map_load hv hv' hrows]
  · simp only [UpdaterService.getReleases, he, he', Bind.bind, Except.bind]

/-- The artifact of a download is the same. -/
theorem AgreeOn.artifactToStream (id : Id) :
    artifactToStream t id (some s.slug) = artifactToStream t' id (some s.slug) := by
  simp only [UpdaterService.artifactToStream]
  rcases h.resolveSoftware hv hv' hslug with ⟨hs, hs'⟩ | ⟨e, he, he'⟩
  · simp only [hs, hs', Bind.bind, Except.bind, h.findPublicById hv hv']
  · simp only [he, he', Bind.bind, Except.bind]

end endpoints

end isolation

/-- For every product and all states that agree on it: under the product's slug, the read endpoints
and the lookup of a download give the same results, and a download is of an artifact whose version
belongs to the product. -/
theorem product_isolation (semver : SemverPackage) {t t' : Tables} (hv : t.Valid) (hv' : t'.Valid)
    {s : Software} (h : AgreeOn t t' s) (hslug : s.slug ≠ "") :
    (∀ platform arch version channel,
      checkForUpdate semver t platform arch version channel (some s.slug) =
        checkForUpdate semver t' platform arch version channel (some s.slug)) ∧
    (∀ platform arch channel,
      getLatest t platform arch channel (some s.slug) =
        getLatest t' platform arch channel (some s.slug)) ∧
    (∀ platform arch channel limit page,
      getReleases t platform arch channel limit page (some s.slug) =
        getReleases t' platform arch channel limit page (some s.slug)) ∧
    (∀ id, artifactToStream t id (some s.slug) = artifactToStream t' id (some s.slug)) ∧
    ∀ id r, artifactToStream t id (some s.slug) = .ok r → r.1.artifact ∈ t.artifacts ∧
      r.1.artifact.id = id ∧ ∀ v ∈ t.versions, v.id = r.1.artifact.versionId →
        v.softwareId = s.id := by
  refine ⟨h.checkForUpdate hv hv' hslug semver, h.getLatest hv hv' hslug,
    h.getReleases hv hv' hslug, h.artifactToStream hv hv' hslug, fun id r hr => ?_⟩
  rw [UpdaterService.artifactToStream, resolveSoftware_slug hv h.left hslug] at hr
  split at hr
  · dsimp only [bind, Except.bind] at hr
    split at hr
    · cases hr
    · cases hr
    · rename_i found
      obtain rfl := Except.ok.inj hr
      obtain ⟨a, ha, hfound⟩ := Option.map_eq_some_iff.mp found
      obtain rfl := (Prod.mk.inj hfound).1
      have hmem := List.mem_of_find?_eq_some ha
      have hid := List.find?_some ha
      simp only [decide_eq_true_eq] at hid
      exact ⟨(List.mem_filter.mp hmem).1, hid, softwareId_of_public hv hmem⟩
  · cases hr

/-- The tables with a second product, which has a release of the same version. -/
def twoProducts : Tables :=
  { publicTables with
    software := publicTables.software ++ [⟨"q", "Q", "q", true, false, true⟩]
    versions := publicTables.versions ++ [⟨"u", "q", 1, 0, 0, none, none, true, none, none⟩]
    artifacts := publicTables.artifacts ++ [{ unsigned with id := "b", versionId := "u" }] }

/-- The tables satisfy their constraints. -/
theorem twoProducts_valid : twoProducts.Valid := by
  have hkeys : toyKeyId 'a' ≠ toyKeyId 'b' := by decide
  constructor <;>
    simp [twoProducts, publicTables, releaseTables, releaseSoftware, releaseVersion, unsigned, hkeys]

/-- Under the first product's slug, the release of the second one is not there. -/
theorem product_isolation_example :
    getLatest publicTables "windows" "x64" "dev" (some "p") =
        getLatest twoProducts "windows" "x64" "dev" (some "p") ∧
      ∀ r, artifactToStream twoProducts "b" (some "p") ≠ .ok r := by
  have h : AgreeOn twoProducts publicTables
      { releaseSoftware with requireSignedUpdates := false } := by
    refine ⟨by decide, by decide, fun v hv => ?_, fun v hm hv a ha => ?_, fun k _ => Iff.rfl, rfl,
      rfl, rfl⟩
    · refine ⟨fun hm => ?_, fun hm => List.mem_append_left _ hm⟩
      rcases List.mem_append.mp hm with hm | hm
      · exact hm
      · obtain rfl := List.mem_singleton.mp hm
        exact absurd hv (by decide)
    · refine ⟨fun hma => ?_, fun hma => List.mem_append_left _ hma⟩
      rcases List.mem_append.mp hma with hma | hma
      · exact hma
      · obtain rfl := List.mem_singleton.mp hma
        rcases List.mem_append.mp hm with hm | hm
        · obtain rfl := List.mem_singleton.mp hm
          exact absurd ha (by decide)
        · obtain rfl := List.mem_singleton.mp hm
          exact absurd hv (by decide)
  obtain ⟨-, hlatest, -, -, hstream⟩ :=
    product_isolation toySemver twoProducts_valid publicTables_valid h (by decide)
  refine ⟨(hlatest "windows" "x64" "dev").symm, fun r hr => ?_⟩
  obtain ⟨hmem, hid, hversion⟩ := hstream "b" r hr
  rcases List.mem_append.mp hmem with hmem | hmem
  · rw [List.mem_singleton.mp hmem] at hid
    exact absurd hid (by decide)
  · rw [List.mem_singleton.mp hmem] at hversion
    exact absurd (hversion ⟨"u", "q", 1, 0, 0, none, none, true, none, none⟩ (by decide) rfl)
      (by decide)

end Reeva
