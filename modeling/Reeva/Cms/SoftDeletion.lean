import Reeva.Interleaving.Alone
import Reeva.Cms.Admission
import Reeva.Cms.Uploads
import Reeva.Licensing.SettingService

/-!
# Duplicate checks and deleted rows

A deleted row keeps its place in the unique indexes, while the checks of the services do not see it. So
a request that passes its check violates a unique index exactly when a deleted row is in the way
(`duplicate_checks`), and what was deleted cannot be created again (`recreate_fails`).
-/

open Interleaving ReadCommitted

namespace Reeva

/-! ## Rows under a unique key -/

/-- A row that is added under a unique key. -/
theorem nodup_append_iff {α κ : Type} {key : α → κ} {rows : List α} {r : α} :
    ((rows ++ [r]).map key).Nodup ↔ (rows.map key).Nodup ∧ ∀ x ∈ rows, key x ≠ key r := by
  rw [List.map_append, List.map_singleton, List.nodup_append]
  simp

/-- A row that is changed under a unique key. -/
theorem nodup_update_iff {α κ ι : Type} [DecidableEq ι] (key : α → κ) {id : α → ι} {rows : List α}
    {l : α} {f : α → α} (hids : (rows.map id).Nodup) (hkeys : (rows.map key).Nodup) (hl : l ∈ rows) :
    ((updateRows (fun r => id r = id l) f rows).2.map key).Nodup ↔
      ∀ x ∈ rows, id x ≠ id l → key x ≠ key (f l) := by
  have same : ∀ x ∈ rows, id x = id l → x = l := fun x hx hid =>
    List.inj_on_of_nodup_map hids hx hl hid
  have hg : ∀ x ∈ rows, key (if decide (id x = id l) = true then f x else x) =
      if id x = id l then key (f l) else key x := by
    intro x hx
    by_cases hid : id x = id l
    · rw [if_pos (decide_eq_true hid), if_pos hid, same x hx hid]
    · rw [if_neg (by simpa using hid), if_neg hid]
  rw [updateRows, List.map_map, List.nodup_map_iff_inj_on (List.Nodup.of_map _ hids)]
  simp only [Function.comp_apply]
  constructor
  · intro h x hx hid hkey
    refine hid (congrArg id (h x hx l hl ?_))
    rw [hg x hx, hg l hl, if_neg hid, if_pos rfl, hkey]
  · intro h x hx y hy hxy
    rw [hg x hx, hg y hy] at hxy
    by_cases hxid : id x = id l <;> by_cases hyid : id y = id l
    · rw [same x hx hxid, same y hy hyid]
    · rw [if_pos hxid, if_neg hyid] at hxy
      exact absurd hxy.symm (h y hy hyid)
    · rw [if_neg hxid, if_pos hyid] at hxy
      exact absurd hxy (h x hx hxid)
    · rw [if_neg hxid, if_neg hyid] at hxy
      exact List.inj_on_of_nodup_map hkeys hx hy hxy

/-! ## Rules for one request at a time -/

section rules

variable {ok : Guard cms} {i : ℕ} {α β : Type} {tx : Option (List Write)} {d : Db}
  {Q : α → Option (List Write) → Db → Prop} {P : Prop}

/-- A request that ends as `Q` and `P` say when nobody else moves. -/
abbrev CmsAlone (ok : Guard cms) (i : ℕ) (tx : Option (List Write)) (d : Db) (p : Cms α)
    (Q : α → Option (List Write) → Db → Prop) (P : Prop) : Prop :=
  Alone (D := cmsSchema) (X := cmsWorld) ok i tx d p Q P

theorem alone_select {f : Tables → β} {k : β → Cms α}
    (h : CmsAlone ok i tx d
      (k (f (Db.toTables (Server.applyAll (D := cmsSchema) (tx.getD []) d)))) Q P) :
    CmsAlone ok i tx d (Cms.select f >>= k) Q P :=
  Alone.query (f := fun d : cmsSchema.Db => f (Db.toTables d)) h

theorem alone_refuse {c : Prop} [Decidable c] {message : String} {k : Unit → Cms α}
    (h : ¬c → CmsAlone ok i tx d (k ()) Q P) :
    CmsAlone ok i tx d (Cms.refuse c message >>= k) Q P := by
  unfold Cms.refuse
  split
  · exact Alone.raise
  · exact h ‹_›

theorem alone_orThrow {e : Except String β} {k : β → Cms α}
    (h : ∀ b, e = .ok b → CmsAlone ok i tx d (k b) Q P) :
    CmsAlone ok i tx d (Cms.orThrow e >>= k) Q P := by
  cases e with
  | ok b => exact h b rfl
  | error message => exact Alone.raise

theorem alone_orFail {o : Option β} {k : β → Cms α}
    (h : ∀ b, o = some b → CmsAlone ok i tx d (k b) Q P) :
    CmsAlone ok i tx d (Cms.orFail o >>= k) Q P := by
  cases o with
  | some b => exact h b rfl
  | none => exact Alone.raise

theorem alone_call {c : CmsCall} {k : c.Res → Cms α}
    (h : ∀ r : c.Res, CmsAlone ok i tx d (k r) Q P) :
    CmsAlone ok i tx d (Cms.call c >>= k) Q P :=
  Alone.ext (E := cmsCalls) (X := cmsWorld) (e := c) fun r _ => h r

end rules

/-- No version, artifact or reservation has this identifier. -/
structure Tables.IsNew (t : Tables) (id : Id) : Prop where
  versions : ∀ v ∈ t.versions, v.id ≠ id
  artifacts : ∀ a ∈ t.artifacts, a.id ≠ id
  reservations : ∀ r ∈ t.reservations, r.id ≠ id

/-- Generated identifiers are new. -/
def FreshIds : Guard cms
  | _, .ext .randomUuid, .ext (.id id), σ => (Db.toTables σ.server.db).IsNew id
  | _, _, _, _ => True

instance (t : Tables) (id : Id) : Decidable (t.IsNew id) :=
  decidable_of_iff ((∀ v ∈ t.versions, v.id ≠ id) ∧ (∀ a ∈ t.artifacts, a.id ≠ id) ∧
    ∀ r ∈ t.reservations, r.id ≠ id) ⟨fun ⟨hv, ha, hr⟩ => ⟨hv, ha, hr⟩, fun ⟨hv, ha, hr⟩ => ⟨hv, ha, hr⟩⟩

/-- The same as a test. -/
def testFreshIds : ℕ → Action cmsSchema cmsCalls → cms.Choice → CmsState → Bool
  | _, .ext .randomUuid, .ext (.id id), σ => (Db.toTables σ.server.db).IsNew id
  | _, _, _, _ => true

/-- A statement that passes the test meets the condition. -/
theorem freshIds_of_test (i : ℕ) (s : Action cmsSchema cmsCalls) (ch : cms.Choice) (σ : CmsState)
    (h : testFreshIds i s ch σ = true) : FreshIds i s ch σ := by
  cases s with
  | ext c =>
    cases c with
    | randomUuid =>
      cases ch with
      | ext o =>
        cases o with
        | id id => exact of_decide_eq_true (p := (Db.toTables σ.server.db).IsNew id) h
        | _ => trivial
      | _ => trivial
    | _ => trivial
  | _ => trivial

/-- A generated identifier. -/
theorem alone_randomUuid {i : ℕ} {α : Type} {tx : Option (List Write)} {d : Db}
    {Q : α → Option (List Write) → Db → Prop} {P : Prop} {k : Id → Cms α}
    (h : ∀ id, d.toTables.IsNew id → CmsAlone FreshIds i tx d (k id) Q P) :
    CmsAlone FreshIds i tx d (Cms.call .randomUuid >>= k) Q P := by
  refine Alone.ext (E := cmsCalls) (X := cmsWorld) (e := .randomUuid) ?_
  rintro (r : Id) ⟨σ, o, w, rfl, hok, hrun⟩
  cases o with
  | id id =>
    simp only [cmsWorld, CmsCall.run] at hrun
    split at hrun
    · cases hrun
    · obtain ⟨rfl, -⟩ := Prod.mk.inj (Option.some.inj hrun)
      exact h id hok
  | _ => cases hrun

/-! ## Versions -/

/-- The release slot of an artifact. -/
def Artifact.slot (a : Artifact) : Id × Id × Id × String :=
  (a.versionId, a.platformId, a.architectureId, a.channel)

/-- The number of a version within its product. -/
def Version.softwareSemver (v : Version) : Id × ℕ × ℕ × ℕ := (v.softwareId, v.major, v.minor, v.patch)

/-- A new version violates a constraint only where another has its key or its number. -/
theorem insertVersion_none {d : Db} {r : Version}
    (h : cmsSchema.apply (.insertVersion r) d = none) (hid : ∀ v ∈ d.versions, v.id ≠ r.id) :
    ∃ v ∈ d.versions, v.softwareSemver = r.softwareSemver := by
  by_contra hno
  push Not at hno
  have hvalid : (Write.run d.toTables (.insertVersion r)).2.Valid :=
    { d.valid with
      versionIds := nodup_append_iff.mpr ⟨d.valid.versionIds, hid⟩
      semvers := nodup_append_iff.mpr ⟨d.valid.semvers, hno⟩ }
  simp [cmsSchema, hvalid] at h

/-- A new version that the constraints allow has a number of its own. -/
theorem insertVersion_some {d d' : Db} {r : Version} {n : ℕ}
    (h : cmsSchema.apply (.insertVersion r) d = some (n, d')) : ∀ v ∈ d.versions, v.softwareSemver ≠ r.softwareSemver := by
  have hrows : d'.versions = d.versions ++ [r] := congrArg _ (apply_tables h)
  have hnodup := d'.valid.semvers
  rw [hrows] at hnodup
  exact (nodup_append_iff.mp hnodup).2

theorem softwareSemver_saveOnto (l n : Version) : (l.saveOnto n l).softwareSemver = n.softwareSemver := by
  simp [Version.softwareSemver, Version.saveOnto, dirty_loaded]

/-- A version that is changed violates a constraint only where another has its new number. -/
theorem saveVersion_none {d : Db} {l n : Version} (hl : l ∈ d.versions)
    (h : cmsSchema.apply (.saveVersion l n) d = none) :
    ∃ v ∈ d.versions, v.id ≠ l.id ∧ v.softwareSemver = n.softwareSemver := by
  by_contra hno
  push Not at hno
  have hids : ((updateRows (·.id = l.id) (l.saveOnto n) d.versions).2.map (·.id)) =
      d.versions.map (·.id) := by
    simp only [updateRows, List.map_map]
    refine List.map_congr_left fun v _ => ?_
    simp only [Function.comp_apply]
    split <;> rfl
  have hvalid : (Write.run d.toTables (.saveVersion l n)).2.Valid :=
    { d.valid with
      versionIds := hids ▸ d.valid.versionIds
      semvers := (nodup_update_iff Version.softwareSemver d.valid.versionIds d.valid.semvers hl).mpr
        fun v hv hid => by
          rw [softwareSemver_saveOnto]
          exact hno v hv hid }
  simp [cmsSchema, hvalid] at h

/-- A version that the constraints allow to change has its new number for itself. -/
theorem saveVersion_some {d d' : Db} {l n : Version} (hl : l ∈ d.versions) {c : ℕ}
    (h : cmsSchema.apply (.saveVersion l n) d = some (c, d')) :
    ∀ v ∈ d.versions, v.id ≠ l.id → v.softwareSemver ≠ n.softwareSemver := by
  have hrows : d'.versions = (updateRows (·.id = l.id) (l.saveOnto n) d.versions).2 :=
    congrArg _ (apply_tables h)
  have hnodup := d'.valid.semvers
  rw [hrows] at hnodup
  have hiff := nodup_update_iff Version.softwareSemver (f := l.saveOnto n) d.valid.versionIds
    d.valid.semvers hl
  rw [softwareSemver_saveOnto] at hiff
  exact hiff.mp hnodup

/-- A version that was found by its key. -/
theorem version_of_id {t : Tables} {id : Id} {v : Version} (h : t.version id = some v) :
    v.id = id ∧ v.deletedAt = none := by
  simpa using List.find?_some h

/-- A platform or an architecture that was found by its key. -/
theorem target_of_id {targets : List Target} {id : Id} {r : Target}
    (h : targets.find? (fun r => r.id = id && r.deletedAt.isNone) = some r) : r.id = id := by
  have hfound : r.id = id ∧ r.deletedAt = none := by simpa using List.find?_some h
  exact hfound.1

/-- A deleted version has a number. -/
def DeletedVersion (t : Tables) (number : Id × ℕ × ℕ × ℕ) : Prop :=
  ∃ v ∈ t.versions, v.deletedAt ≠ none ∧ v.softwareSemver = number

/-- Where no live version has a number, only a deleted one can. -/
theorem deletedVersion_of_check {t : Tables} {softwareId : Id} {major minor patch : ℕ}
    {excludeId : Option Id}
    (hcheck : ¬(t.versions.any fun v => v.major = major && v.minor = minor && v.patch = patch &&
      v.softwareId = softwareId && v.deletedAt.isNone && some v.id ≠ excludeId) = true)
    {v : Version} (hv : v ∈ t.versions) (hid : some v.id ≠ excludeId)
    (hnumber : v.softwareSemver = (softwareId, major, minor, patch)) :
    DeletedVersion t (softwareId, major, minor, patch) := by
  refine ⟨v, hv, fun hlive => hcheck (List.any_eq_true.mpr ⟨v, hv, ?_⟩), hnumber⟩
  simp only [Version.softwareSemver, Prod.mk.injEq] at hnumber
  simp [hnumber, hlive, hid]

/-- `createVersion` alone. -/
theorem createVersion_alone (node : Node) {i : ℕ} (d : Db) {data : VersionInput} {softwareId : Id}
    {major minor patch : ℕ} (hsoftware : data.softwareId = some (.str softwareId))
    (hparts : VersionService.parseVersionParts data = .ok (major, minor, patch)) :
    CmsAlone FreshIds i none d (VersionService.createVersion node data)
      (fun _ _ _ => ¬DeletedVersion d.toTables (softwareId, major, minor, patch))
      (DeletedVersion d.toTables (softwareId, major, minor, patch)) := by
  unfold VersionService.createVersion
  rw [hsoftware, hparts]
  simp only [Cms.findSoftware, VersionService.validateAndCheckDuplicate, Prog.bind_eq, Prog.bind_assoc]
  refine alone_select (alone_orFail fun software hfound => alone_refuse fun _ =>
    alone_orThrow fun parts hparts => ?_)
  obtain rfl := Except.ok.inj hparts
  have hid : software.id = softwareId := by simpa using List.find?_some hfound
  subst hid
  refine alone_refuse fun _ => alone_select (alone_refuse fun hcheck => ?_)
  refine alone_orThrow fun codename _ => alone_orThrow fun changelog _ =>
    alone_orThrow fun releaseDate _ => alone_randomUuid fun id hnew => ?_
  refine Alone.autocommit (D := cmsSchema) (fun hnone => ?_) fun n d' happ => Alone.ret ?_
  · obtain ⟨v, hv, hnumber⟩ := insertVersion_none hnone hnew.versions
    exact deletedVersion_of_check hcheck hv (by simp) hnumber
  · rintro ⟨v, hv, -, hnumber⟩
    exact insertVersion_some happ v hv hnumber

/-- A change of artifacts that keeps their identifiers and slots violates no constraint. -/
theorem updateArtifacts_ne_none {d : Db} {p : Tables → Artifact → Bool} {f : Artifact → Artifact}
    (hid : ∀ a, (f a).id = a.id) (hslot : ∀ a, (f a).slot = a.slot) :
    cmsSchema.apply (.updateArtifacts p f) d ≠ none := by
  intro h
  have keeps : ∀ {κ : Type} (key : Artifact → κ), (∀ a, key (f a) = key a) →
      (updateRows (p d.toTables) f d.artifacts).2.map key = d.artifacts.map key := by
    intro κ key hkey
    rw [updateRows, List.map_map]
    refine List.map_congr_left fun a _ => ?_
    simp only [Function.comp_apply]
    split
    · exact hkey a
    · rfl
  have hvalid : (Write.run d.toTables (.updateArtifacts p f)).2.Valid :=
    { d.valid with
      artifactIds := keeps (·.id) hid ▸ d.valid.artifactIds
      systemChannels := keeps Artifact.slot hslot ▸ d.valid.systemChannels }
  simp [cmsSchema, hvalid] at h

/-- `updateVersion` alone. -/
theorem updateVersion_alone (node : Node) {i : ℕ} (d : Db) {id : Id} {data : VersionInput}
    {l : Version} {major minor patch : ℕ} (hl : d.toTables.version id = some l)
    (hparts : VersionService.parseVersionParts data = .ok (major, minor, patch)) :
    CmsAlone FreshIds i none d (VersionService.updateVersion node id data)
      (fun _ _ _ => ¬DeletedVersion d.toTables (l.softwareId, major, minor, patch))
      (DeletedVersion d.toTables (l.softwareId, major, minor, patch)) := by
  unfold VersionService.updateVersion
  rw [hparts]
  simp only [Cms.findVersion, VersionService.validateAndCheckDuplicate, Prog.bind_eq, Prog.bind_assoc]
  refine alone_select (alone_orFail fun version hfound => alone_select ?_)
  obtain rfl := Option.some.inj (hl.symm.trans hfound)
  refine alone_orThrow fun parts hparts => ?_
  obtain rfl := Except.ok.inj hparts
  refine alone_refuse fun _ => alone_select (alone_refuse fun hcheck => ?_)
  refine alone_orThrow fun codename _ => alone_orThrow fun changelog _ =>
    alone_orThrow fun releaseDate _ => ?_
  have hlive : l.deletedAt = none := (version_of_id hl).2
  refine Alone.autocommit (D := cmsSchema) (fun hnone => ?_) fun n d' happ => ?_
  · obtain ⟨v, hv, hid, hnumber⟩ := saveVersion_none (List.mem_of_find?_eq_some hl) hnone
    exact deletedVersion_of_check hcheck hv (by simpa using hid) hnumber
  · have hnot : ¬DeletedVersion d.toTables (l.softwareId, major, minor, patch) := by
      rintro ⟨v, hv, hdeleted, hnumber⟩
      refine saveVersion_some (List.mem_of_find?_eq_some hl) happ v hv (fun hid => ?_) hnumber
      obtain rfl := List.inj_on_of_nodup_map d.valid.versionIds hv (List.mem_of_find?_eq_some hl) hid
      exact hdeleted hlive
    split
    · refine Alone.autocommit (D := cmsSchema) (fun hnone => ?_) fun n d' happ => Alone.ret hnot
      exact absurd hnone (updateArtifacts_ne_none (fun _ => rfl) fun _ => rfl)
    · exact Alone.ret hnot

/-! ## Artifacts -/

/-- A deleted artifact takes a release slot. -/
def DeletedArtifact (t : Tables) (slot : Id × Id × Id × String) : Prop :=
  ∃ a ∈ t.artifacts, a.deletedAt ≠ none ∧ a.slot = slot

/-- A new artifact violates a constraint only where another has its key or its slot. -/
theorem insertArtifact_none {d : Db} {r : Artifact}
    (h : cmsSchema.apply (.insertArtifact r) d = none) (hid : ∀ a ∈ d.artifacts, a.id ≠ r.id) :
    ∃ a ∈ d.artifacts, a.slot = r.slot := by
  by_contra hno
  push Not at hno
  have hvalid : (Write.run d.toTables (.insertArtifact r)).2.Valid :=
    { d.valid with
      artifactIds := nodup_append_iff.mpr ⟨d.valid.artifactIds, hid⟩
      systemChannels := nodup_append_iff.mpr ⟨d.valid.systemChannels, hno⟩ }
  simp [cmsSchema, hvalid] at h

/-- A new artifact that the constraints allow has a slot of its own. -/
theorem insertArtifact_some {d d' : Db} {r : Artifact} {n : ℕ}
    (h : cmsSchema.apply (.insertArtifact r) d = some (n, d')) :
    ∀ a ∈ d.artifacts, a.slot ≠ r.slot := by
  have hrows : d'.artifacts = d.artifacts ++ [r] := congrArg _ (apply_tables h)
  have hnodup := d'.valid.systemChannels
  rw [hrows] at hnodup
  exact (nodup_append_iff.mp hnodup).2

/-- A new reservation violates a constraint only where another has its key. -/
theorem insertReservation_ne_none {d : Db} {r : Reservation}
    (hid : ∀ s ∈ d.reservations, s.id ≠ r.id) :
    cmsSchema.apply (.insertReservation r) d ≠ none := by
  intro h
  have hvalid : (Write.run d.toTables (.insertReservation r)).2.Valid :=
    { d.valid with reservationIds := nodup_append_iff.mpr ⟨d.valid.reservationIds, hid⟩ }
  simp [cmsSchema, hvalid] at h

/-- The deletion of reservations violates no constraint. -/
theorem deleteReservations_ne_none {d : Db} {p : Reservation → Bool} :
    cmsSchema.apply (.deleteReservations p) d ≠ none := by
  intro h
  have hvalid : (Write.run d.toTables (.deleteReservations p)).2.Valid :=
    { d.valid with
      reservationIds := d.valid.reservationIds.sublist (List.filter_sublist.map _) }
  simp [cmsSchema, hvalid] at h

/-- An upload may still insert its artifact: the artifacts are those of `d`, and its identifier is as new
as it was. -/
structure Uploadable (d : Db) (row : Artifact) (d' : Db) : Prop where
  artifacts : d'.artifacts = d.artifacts
  artifactId : ∀ a ∈ d.artifacts, a.id ≠ row.id
  reservationId : ∀ r ∈ d'.reservations, r.id ≠ row.id

section uploads

variable {ok : Guard cms} {i : ℕ} {d d' : Db} {row : Artifact}

/-- Reservations that are deleted leave an upload possible. -/
theorem Uploadable.deleteReservations (h : Uploadable d row d') {p : Reservation → Bool} {n : ℕ}
    {d'' : Db} (happ : cmsSchema.apply (.deleteReservations p) d' = some (n, d'')) :
    Uploadable d row d'' where
  artifacts := (congrArg Tables.artifacts (apply_tables happ)).trans h.artifacts
  artifactId := h.artifactId
  reservationId r hr := by
    rw [show d''.reservations = _ from congrArg Tables.reservations (apply_tables happ)] at hr
    exact h.reservationId r (List.mem_of_mem_filter hr)

/-- The cleanup of expired reservations, alone. -/
theorem deleteObjects_alone {storageProviderId : Id} {rs : List Reservation} {P : Prop} :
    CmsAlone ok i none d (ArtifactService.deleteObjects storageProviderId rs)
      (fun _ tx d' => tx = none ∧ d' = d) P := by
  induction rs with
  | nil => exact Alone.ret ⟨rfl, rfl⟩
  | cons r rs ih => exact alone_call fun deleted => alone_orThrow fun _ _ => ih

theorem cleanup_alone {storageProviderId : Id} {now fuel : ℕ} {P : Prop}
    (h : Uploadable d row d') :
    CmsAlone ok i none d'
      (ArtifactService.cleanupExpiredReservations storageProviderId now fuel)
      (fun _ tx d'' => tx = none ∧ Uploadable d row d'') P := by
  induction fuel generalizing d' with
  | zero => exact Alone.halt
  | succ fuel ih =>
    unfold ArtifactService.cleanupExpiredReservations
    refine alone_select ?_
    split
    · exact Alone.ret ⟨rfl, h⟩
    · refine Alone.bind deleteObjects_alone ?_
      rintro _ _ _ ⟨rfl, rfl⟩
      refine Alone.bind (Alone.transaction (R := fun _ d'' => Uploadable d row d'') ?_) ?_
      · refine Alone.append (D := cmsSchema) rfl (fun hnone => ?_) fun n d'' happ hpub => Alone.ret ?_
        · exact absurd hnone deleteReservations_ne_none
        · exact ⟨_, d'', rfl, rfl, hpub, h.deleteReservations happ⟩
      · rintro _ _ _ ⟨rfl, h⟩
        exact ih h

/-- The reservation of an upload, alone. -/
theorem reserveQuota_alone {storageProviderId : Id} {sizeBytes : ℤ} {P : Prop}
    (h : Uploadable d row d') :
    CmsAlone ok i none d' (ArtifactService.reserveQuota row.id storageProviderId sizeBytes)
      (fun _ tx d'' => tx = none ∧ d''.artifacts = d.artifacts) P := by
  unfold ArtifactService.reserveQuota
  refine Alone.transaction (D := cmsSchema) (R := fun _ d'' => d''.artifacts = d.artifacts) ?_
  simp only [Cms.selectForUpdate, Prog.bind_eq, Prog.bind_assoc]
  refine alone_select (Alone.lock (D := cmsSchema) (alone_select (alone_orFail fun provider _ =>
    alone_refuse fun _ => ?_)))
  refine alone_call (c := .now) fun now => alone_select (alone_select ?_)
  split
  · exact Alone.raise
  · refine Alone.append (D := cmsSchema) rfl (fun hnone => ?_) fun n d'' happ hpub => Alone.ret ?_
    · exact absurd hnone (insertReservation_ne_none h.reservationId)
    · exact ⟨_, d'', rfl, rfl, hpub, (congrArg Tables.artifacts (apply_tables happ)).trans h.artifacts⟩

/-- The digests and the call of the storage, alone: neither violates a constraint. -/
theorem storeObject_alone {node : Node} {storageProviderId : Id} {key tmpPath : String} :
    CmsAlone ok i none d (ArtifactService.storeObject node storageProviderId key tmpPath)
      (fun _ tx d' => tx = none ∧ d' = d) False := by
  unfold ArtifactService.storeObject
  exact alone_call fun _ => alone_orThrow fun _ _ => alone_call fun _ => alone_orThrow fun _ _ =>
    Alone.ret ⟨rfl, rfl⟩

/-- The finalising transaction, alone. -/
theorem finalise_alone {artifact : Artifact} (hid : ∀ a ∈ d.artifacts, a.id ≠ artifact.id) :
    CmsAlone ok i none d (ArtifactService.finalise artifact)
      (fun _ tx _ => tx = none ∧ ∀ a ∈ d.artifacts, a.slot ≠ artifact.slot)
      (∃ a ∈ d.artifacts, a.slot = artifact.slot) := by
  unfold ArtifactService.finalise
  refine Alone.transaction (R := fun _ _ => ∀ a ∈ d.artifacts, a.slot ≠ artifact.slot) ?_
  have insert : ∀ publishedAt, CmsAlone ok i (some []) d (do
      let row := { artifact with publishedAt }
      let _ ← Cms.exec (.insertArtifact row)
      let _ ← Cms.exec (.deleteReservations (·.id = artifact.id))
      return row) (fun _ tx d' => ∃ ws d'', tx = some ws ∧ d' = d ∧
        Server.publish (D := cmsSchema) ws d = some d'' ∧ ∀ a ∈ d.artifacts, a.slot ≠ artifact.slot)
      (∃ a ∈ d.artifacts, a.slot = artifact.slot) := by
    intro publishedAt
    refine Alone.append (D := cmsSchema) rfl (fun hnone => ?_) fun n d' happ hpub => ?_
    · exact insertArtifact_none (r := { artifact with publishedAt }) hnone hid
    have hslot := insertArtifact_some happ
    refine Alone.append (D := cmsSchema) hpub (fun hnone => ?_) fun n d'' _ hpub => Alone.ret ?_
    · exact absurd hnone deleteReservations_ne_none
    · exact ⟨_, d'', rfl, rfl, hpub, hslot⟩
  split
  · exact alone_call (c := .now) fun now => insert (some now)
  · exact insert none

/-- The compensation of a failed upload, alone: whatever it meets, it throws nothing. -/
theorem compensate_alone {objectStored : Bool} {storageProviderId artifactId : Id} {P : Prop}
    {tx : Option (List Write)} :
    CmsAlone ok i tx d (ArtifactService.compensate objectStored storageProviderId artifactId)
      (fun _ _ _ => True) P := by
  have delete : ∀ deleted : Except String Unit, CmsAlone ok i tx d
      (if deleted.toBool then do
        let _ ← (Cms.exec (.deleteReservations (·.id = artifactId))).attempt
        return ()
      else return ()) (fun _ _ _ => True) P := by
    intro deleted
    split
    · rw [← Prog.bind_ret (Cms.exec _)]
      exact Alone.attempt (Q := fun _ _ _ => True) (B := True)
        (Alone.write (D := cmsSchema) (fun _ => trivial) fun _ _ _ => Alone.ret trivial)
        (fun _ _ _ _ => Alone.ret trivial) fun _ _ _ _ => Alone.ret trivial
    · exact Alone.ret trivial
  unfold ArtifactService.compensate
  split
  · exact alone_call (c := .delete storageProviderId (ArtifactService.storageKey artifactId)) delete
  · exact delete (.ok ())

/-- The upload proper, alone. -/
theorem storeArtifact_alone {node : Node} {tmpPath : String} (h : Uploadable d row d') :
    CmsAlone ok i none d' (ArtifactService.storeArtifact node row tmpPath)
      (fun _ _ _ => ∀ a ∈ d.artifacts, a.slot ≠ row.slot) (∃ a ∈ d.artifacts, a.slot = row.slot) := by
  unfold ArtifactService.storeArtifact
  refine Alone.bind (reserveQuota_alone h) ?_
  rintro _ _ d₁ ⟨rfl, hrows⟩
  refine Alone.attempt storeObject_alone ?_ ?_
  · rintro ⟨hashes, key⟩ _ _ ⟨rfl, rfl⟩
    refine Alone.attempt (Q := fun _ _ _ => ∀ a ∈ d.artifacts, a.slot ≠ row.slot)
      (B := ∃ a ∈ d.artifacts, a.slot = row.slot) ?_ ?_ ?_
    · refine alone_refuse fun _ => Alone.mono (finalise_alone ?_) ?_ ?_
      · rw [hrows]
        exact h.artifactId
      · rw [hrows]
        exact fun _ _ _ hq => hq.2
      · rw [hrows]
        exact id
    · exact fun _ _ _ hq => Alone.ret hq
    · exact fun e _ _ he => Alone.bind compensate_alone fun _ _ _ _ => Alone.fail he
  · exact fun e _ _ he => Alone.bind compensate_alone fun _ _ _ _ => Alone.fail fun hc => (he hc).elim

/-- The slot that an upload asks for. -/
def ArtifactInput.slot (data : ArtifactInput) (ids : ArtifactService.UploadIds) :
    Id × Id × Id × String :=
  (ids.versionId, ids.platformId, ids.architectureId, orElse (data.channel.getD "") "dev")

/-- The checks of an upload, alone. -/
theorem prepareUpload_alone {node : Node} {file : MultipartFile} {data : ArtifactInput} {P : Prop}
    {ids : ArtifactService.UploadIds} (hids : ArtifactService.assertUploadMetadata data = .ok ids) :
    CmsAlone FreshIds i none d (ArtifactService.prepareUpload node file data)
      (fun r tx d' => tx = none ∧ d' = d ∧ Uploadable d r.1 d ∧ r.1.slot = data.slot ids) P := by
  unfold ArtifactService.prepareUpload
  rw [hids]
  simp only [Cms.findVersion, Prog.bind_eq, Prog.bind_assoc]
  refine alone_orThrow fun ids' hids' => ?_
  obtain rfl := Except.ok.inj hids'
  refine alone_refuse fun _ => alone_select (alone_orFail fun version hversion => alone_select ?_)
  simp only [Prog.pure_eq, Prog.ret_bind]
  refine alone_select (alone_orFail fun platform hplatform => alone_select (alone_orFail
    fun architecture harchitecture => alone_select (alone_orFail fun provider _ => ?_)))
  refine alone_refuse fun _ => alone_refuse fun _ => alone_refuse fun _ => ?_
  split
  · exact Alone.raise
  · refine alone_refuse fun _ => alone_refuse fun _ => alone_randomUuid fun id hnew => Alone.ret ?_
    refine ⟨rfl, rfl, ⟨rfl, hnew.artifacts, hnew.reservations⟩, ?_⟩
    simp [Artifact.slot, ArtifactInput.slot, (version_of_id hversion).1, target_of_id hplatform,
      target_of_id harchitecture]

/-- `uploadArtifact` alone. -/
theorem uploadArtifact_alone {node : Node} {fuel : ℕ} {file : MultipartFile} {data : ArtifactInput}
    {ids : ArtifactService.UploadIds} (hids : ArtifactService.assertUploadMetadata data = .ok ids)
    (hlive : ∀ a ∈ d.artifacts, a.slot = data.slot ids → a.deletedAt ≠ none) :
    CmsAlone FreshIds i none d (ArtifactService.uploadArtifact node fuel file data)
      (fun _ _ _ => ¬DeletedArtifact d.toTables (data.slot ids))
      (DeletedArtifact d.toTables (data.slot ids)) := by
  unfold ArtifactService.uploadArtifact
  refine Alone.bind (prepareUpload_alone hids) ?_
  rintro ⟨row, tmpPath⟩ _ _ ⟨rfl, rfl, hrow, hslot⟩
  refine alone_call (c := .resolve row.storageProviderId) fun _ => alone_orThrow fun _ _ =>
    alone_call (c := .now) fun now => Alone.bind (cleanup_alone hrow) ?_
  rintro _ _ _ ⟨rfl, hrow⟩
  refine Alone.mono (storeArtifact_alone hrow) ?_ ?_
  · rintro _ _ _ hfree ⟨a, ha, -, htaken⟩
    exact hfree a ha (htaken.trans hslot.symm)
  · rintro ⟨a, ha, htaken⟩
    exact ⟨a, ha, hlive a ha (htaken.trans hslot), htaken.trans hslot⟩

end uploads

/-! ## Settings -/

namespace Licensing

/-- Generated identifiers are new. -/
def FreshIds : Guard machine
  | _, .ext .randomUuid, .ext (.id id), σ => ∀ s ∈ (Db.toTables σ.server.db).settings, s.id ≠ id
  | _, _, _, _ => True

/-- The same as a test. -/
def testFreshIds : ℕ → Action schema calls → machine.Choice → State → Bool
  | _, .ext .randomUuid, .ext (.id id), σ => (Db.toTables σ.server.db).settings.all (·.id ≠ id)
  | _, _, _, _ => true

/-- A statement that passes the test meets the condition. -/
theorem freshIds_of_test (i : ℕ) (s : Action schema calls) (ch : machine.Choice) (σ : State)
    (h : testFreshIds i s ch σ = true) : FreshIds i s ch σ := by
  cases s with
  | ext c =>
    cases c with
    | randomUuid =>
      cases ch with
      | ext o =>
        cases o with
        | id id => exact fun s hs => of_decide_eq_true (List.all_eq_true.mp h s hs)
        | _ => trivial
      | _ => trivial
    | _ => trivial
  | _ => trivial

/-- A deleted setting has a key. -/
def DeletedSetting (t : Tables) (key : String) : Prop :=
  ∃ s ∈ t.settings, s.deletedAt ≠ none ∧ s.key = key

/-- A new setting violates a constraint only where another has its identifier or its key. -/
theorem insertSetting_none {d : Db} {r : Setting} (h : schema.apply (.insertSetting r) d = none)
    (hid : ∀ s ∈ d.settings, s.id ≠ r.id) : ∃ s ∈ d.settings, s.key = r.key := by
  by_contra hno
  push Not at hno
  have hvalid : (Write.run d.toTables (.insertSetting r)).2.Valid :=
    { d.valid with
      settingIds := nodup_append_iff.mpr ⟨d.valid.settingIds, hid⟩
      settingKeys := nodup_append_iff.mpr ⟨d.valid.settingKeys, hno⟩ }
  simp [schema, hvalid] at h

/-- A new setting that the constraints allow has a key of its own. -/
theorem insertSetting_some {d d' : Db} {r : Setting} {n : ℕ}
    (h : schema.apply (.insertSetting r) d = some (n, d')) : ∀ s ∈ d.settings, s.key ≠ r.key := by
  have hrows : d'.settings = d.settings ++ [r] := congrArg _ (apply_tables h)
  have hnodup := d'.valid.settingKeys
  rw [hrows] at hnodup
  exact (nodup_append_iff.mp hnodup).2

/-- `createSetting` alone. -/
theorem createSetting_alone {i : ℕ} {d : Db} {key value : Input} {k : String}
    (hkey : SettingService.validateKey key = .ok k) :
    Alone (D := schema) (X := world) FreshIds i none d (SettingService.createSetting key value)
      (fun _ _ _ => ¬DeletedSetting d.toTables k) (DeletedSetting d.toTables k) := by
  unfold SettingService.createSetting
  rw [hkey]
  simp only [orThrow, refuse, Prog.pure_eq, Prog.bind_eq, Prog.ret_bind]
  cases SettingService.validateValue value with
  | error message => exact Alone.raise
  | ok value =>
    dsimp only [Prog.ret_bind]
    split
    · exact Alone.raise
    · refine Alone.query (f := fun d : schema.Db => (Db.toTables d).setting k) ?_
      split
      · exact Alone.raise
      · rename_i hcheck
        have hlive : ∀ s ∈ d.settings, s.key = k → s.deletedAt ≠ none := fun s hs hk hnone =>
          hcheck (List.find?_isSome.mpr ⟨s, hs, by simp [hk, hnone]⟩)
        refine Alone.ext (E := calls) (X := world) (e := .randomUuid) ?_
        rintro (id : Id) ⟨σ, o, w, rfl, hok, hrun⟩
        have hnew : ∀ s ∈ (Db.toTables σ.server.db).settings, s.id ≠ id := by
          cases o with
          | id id' =>
            obtain ⟨rfl, -⟩ := Prod.mk.inj (Option.some.inj hrun)
            exact hok
          | _ => cases hrun
        refine Alone.autocommit (D := schema) (fun hnone => ?_) fun n d' happ => Alone.ret ?_
        · obtain ⟨s, hs, hk⟩ := insertSetting_none hnone hnew
          exact ⟨s, hs, hlive s hs hk, hk⟩
        · rintro ⟨s, hs, -, hk⟩
          exact insertSetting_some happ s hs hk

end Licensing

/-! ## Checks and constraints -/

/-- A request passed its checks: it returned, or a constraint stopped it. -/
def Passed {α : Type} (r : Except (Failure String) α) : Prop :=
  (∃ a, r = .ok a) ∨ r = .error (.database .constraint)

/-- A request that passed its checks violates a constraint exactly when what is to blame is there. -/
theorem violates_iff {D : Schema} {E : Signature.{0}} {X : Machine E} {ok : Guard (Service D X)}
    {i : ℕ} {α : Type} {d : D.Db} {w : X.State} {p : Prog (signature D E) (Failure String) α}
    {P : Prop} (h : Alone (X := X) ok i none d p (fun _ _ _ => ¬P) P)
    {r : Except (Failure String) α} {σ' : System D X.State}
    (hc : Completes ok i p ⟨Server.idle d, w⟩ r σ') (hr : Passed r) :
    r ≠ .error (.database .constraint) ↔ ¬P := by
  obtain ⟨hok, herror⟩ := h.completes hc
  rcases hr with ⟨a, rfl⟩ | rfl
  · exact ⟨fun _ => hok a rfl, fun _ he => by cases he⟩
  · exact ⟨fun hne => absurd rfl hne, fun hnot => absurd (herror rfl) hnot⟩

/-- In every state, a request that passes its duplicate check, and an upload to a slot without a live
artifact that passes its checks, violates no constraint exactly when no deleted row has the same
number, slot or key. -/
theorem duplicate_checks (node : Node) (i : ℕ) :
    (∀ d w data softwareId major minor patch r σ', data.softwareId = some (.str softwareId) →
      VersionService.parseVersionParts data = .ok (major, minor, patch) →
      Completes FreshIds i (VersionService.createVersion node data) ⟨Server.idle d, w⟩ r σ' →
      Passed r → (r ≠ .error (.database .constraint) ↔
        ¬DeletedVersion (Db.toTables d) (softwareId, major, minor, patch))) ∧
    (∀ d w id data l major minor patch r σ', (Db.toTables d).version id = some l →
      VersionService.parseVersionParts data = .ok (major, minor, patch) →
      Completes FreshIds i (VersionService.updateVersion node id data) ⟨Server.idle d, w⟩ r σ' →
      Passed r → (r ≠ .error (.database .constraint) ↔
        ¬DeletedVersion (Db.toTables d) (l.softwareId, major, minor, patch))) ∧
    (∀ d w fuel file data ids r σ', ArtifactService.assertUploadMetadata data = .ok ids →
      (∀ a ∈ (Db.toTables d).artifacts, a.slot = data.slot ids → a.deletedAt ≠ none) →
      Completes FreshIds i (ArtifactService.uploadArtifact node fuel file data)
        ⟨Server.idle d, w⟩ r σ' →
      Passed r → (r ≠ .error (.database .constraint) ↔
        ¬DeletedArtifact (Db.toTables d) (data.slot ids))) ∧
    ∀ d w key value k r σ', Licensing.SettingService.validateKey key = .ok k →
      Completes Licensing.FreshIds i (Licensing.SettingService.createSetting key value)
        ⟨Server.idle d, w⟩ r σ' →
      Passed r → (r ≠ .error (.database .constraint) ↔
        ¬Licensing.DeletedSetting (Licensing.Db.toTables d) k) := by
  refine ⟨?_, ?_, ?_, ?_⟩
  · intro d w data softwareId major minor patch r σ' hsoftware hparts hc hr
    exact violates_iff (createVersion_alone node d hsoftware hparts) hc hr
  · intro d w id data l major minor patch r σ' hl hparts hc hr
    exact violates_iff (updateVersion_alone node d hl hparts) hc hr
  · intro d w fuel file data ids r σ' hids hlive hc hr
    exact violates_iff (uploadArtifact_alone hids hlive) hc hr
  · intro d w key value k r σ' hkey hc hr
    exact violates_iff (Licensing.createSetting_alone hkey) hc hr

/-! ## Requests that nothing is in the way of -/

/-- The form of version 2.0.0. -/
def secondVersion : VersionInput where
  softwareId := some (.str (toyUuid '1'))
  major := some (.str "2")
  minor := some (.str "0")
  patch := some (.str "0")
  codename := none
  changelogs := none
  changelog := none
  isActive := none
  releaseDate := none

/-- A version that is created under a new identifier. -/
def createChoices (id : Id) : List cms.Choice :=
  [.db .none, .db .none, .ext (.id id), .db .none]

/-- An uploaded byte. -/
def byteFile : MultipartFile := ⟨some "f", 1, some "zip", "f.zip"⟩

/-- Its form. -/
def byteForm : ArtifactInput :=
  ⟨some (.str (toyUuid '2')), some (.str (toyUuid '3')), some (.str (toyUuid '4')),
    some (.str (toyUuid '5')), some "dev", none, none⟩

/-- The byte is uploaded under a new identifier. -/
def uploadChoices (id : Id) : List cms.Choice :=
  List.replicate 5 (.db .none) ++ [.ext (.id id), .ext .done, .ext .done, .db .none] ++
    List.replicate 4 (.db .none) ++ [.ext .done] ++ List.replicate 4 (.db .none) ++
    [.ext .done, .ext (.key (ArtifactService.storageKey id))] ++ List.replicate 4 (.db .none)

/-- A version that is deleted. -/
def deleteChoices : List cms.Choice :=
  [.db .none, .db .none, .db .none, .ext .done, .db .none]

theorem passed_of_isSome {α : Type} {r : Except (Failure String) α} (h : r.toOption.isSome = true) :
    Passed r := by
  cases r with
  | ok a => exact .inl ⟨a, rfl⟩
  | error e => cases h

theorem eq_ok_of_toOption {ε α : Type} {r : Except ε α} {a : α} (h : r.toOption = some a) :
    r = .ok a := by
  cases r with
  | ok b => exact congrArg _ (Option.some.inj h)
  | error e => cases h

/-- A setting. -/
def settingForm : Input := some (.str "theme")

/-- Where nothing was deleted, version 2.0.0 can be created, version 1.0.0 can become it, a byte can be
uploaded and a setting can be created. -/
theorem duplicate_checks_example :
    (∃ r σ', Completes FreshIds 0 (VersionService.createVersion toyNode secondVersion)
      ⟨Server.idle uploadDb, uploadWorld⟩ r σ' ∧ r ≠ .error (.database .constraint)) ∧
    (∃ r σ', Completes FreshIds 0 (VersionService.updateVersion toyNode (toyUuid '2') secondVersion)
      ⟨Server.idle uploadDb, uploadWorld⟩ r σ' ∧ r ≠ .error (.database .constraint)) ∧
    (∃ r σ', Completes FreshIds 0 (ArtifactService.uploadArtifact toyNode 2 byteFile byteForm)
      ⟨Server.idle uploadDb, uploadWorld⟩ r σ' ∧ r ≠ .error (.database .constraint)) ∧
    ∃ r σ', Completes Licensing.FreshIds 0
      (Licensing.SettingService.createSetting settingForm settingForm)
      ⟨Server.idle Licensing.emptyDb, (0 : ℕ)⟩ r σ' ∧ r ≠ .error (.database .constraint) := by
  have hcreate : (drive cms testFreshIds 0 (VersionService.createVersion toyNode secondVersion)
      (createChoices (toyUuid 'a')) ⟨Server.idle uploadDb, uploadWorld⟩).any
      (fun p => p.1.toOption.isSome) = true := by
    decide +kernel
  have hupdate : (drive cms testFreshIds 0
      (VersionService.updateVersion toyNode (toyUuid '2') secondVersion)
      [.db .none, .db .none, .db .none, .db .none, .db .none]
      ⟨Server.idle uploadDb, uploadWorld⟩).any (fun p => p.1.toOption.isSome) = true := by
    decide +kernel
  have hupload : (drive cms testFreshIds 0
      (ArtifactService.uploadArtifact toyNode 2 byteFile byteForm)
      (uploadChoices (toyUuid 'a')) ⟨Server.idle uploadDb, uploadWorld⟩).any
      (fun p => p.1.toOption.isSome) = true := by
    decide +kernel
  have hsetting : (drive Licensing.machine Licensing.testFreshIds 0
      (Licensing.SettingService.createSetting settingForm settingForm)
      [.db .none, .ext (.id "S"), .db .none] ⟨Server.idle Licensing.emptyDb, (0 : ℕ)⟩).any
      (fun p => p.1.toOption.isSome) = true := by
    decide +kernel
  obtain ⟨r₁, σ₁, hc₁, hok₁⟩ := completes_of_drive freshIds_of_test hcreate
  obtain ⟨r₂, σ₂, hc₂, hok₂⟩ := completes_of_drive freshIds_of_test hupdate
  obtain ⟨r₃, σ₃, hc₃, hok₃⟩ := completes_of_drive freshIds_of_test hupload
  obtain ⟨r₄, σ₄, hc₄, hok₄⟩ := completes_of_drive Licensing.freshIds_of_test hsetting
  obtain ⟨hversions, hupdates, huploads, hsettings⟩ := duplicate_checks toyNode 0
  have hlive : ∀ v ∈ uploadDb.versions, v.deletedAt = none := by decide +kernel
  have hparts : VersionService.parseVersionParts secondVersion = .ok (2, 0, 0) := by decide +kernel
  have hfound : uploadDb.toTables.version (toyUuid '2') =
      some ⟨toyUuid '2', toyUuid '1', 1, 0, 0, none, none, true, none, none⟩ := by decide +kernel
  have hkey : Licensing.SettingService.validateKey settingForm = .ok "theme" := by decide +kernel
  refine ⟨⟨r₁, σ₁, hc₁, ?_⟩, ⟨r₂, σ₂, hc₂, ?_⟩, ⟨r₃, σ₃, hc₃, ?_⟩, r₄, σ₄, hc₄, ?_⟩
  · exact (hversions _ _ _ _ _ _ _ _ _ rfl hparts hc₁ (passed_of_isSome hok₁)).mpr
      fun ⟨v, hv, hdeleted, _⟩ => hdeleted (hlive v hv)
  · exact (hupdates _ _ _ _ _ _ _ _ _ _ hfound hparts hc₂ (passed_of_isSome hok₂)).mpr
      fun ⟨v, hv, hdeleted, _⟩ => hdeleted (hlive v hv)
  · exact (huploads _ _ _ _ _ _ _ _ rfl (fun _ ha => by cases ha) hc₃
      (passed_of_isSome hok₃)).mpr fun ⟨_, ha, _⟩ => by cases ha
  · exact (hsettings _ _ _ _ _ _ _ hkey hc₄ (passed_of_isSome hok₄)).mpr
      fun ⟨_, hs, _⟩ => by cases hs

/-- A constraint stopped a request. -/
def isConstraint {α : Type} : Except (Failure String) α → Bool
  | .error (.database .constraint) => true
  | _ => false

theorem eq_of_isConstraint {α : Type} {r : Except (Failure String) α} (h : isConstraint r = true) :
    r = .error (.database .constraint) := by
  unfold isConstraint at h
  split at h
  · rfl
  · cases h

/-- Version 2.0.0 is created and deleted, and cannot be created again. -/
theorem recreate_fails :
    ∃ v σ₁ v' σ₂ σ₃,
      Completes FreshIds 0 (VersionService.createVersion toyNode secondVersion)
        ⟨Server.idle uploadDb, uploadWorld⟩ (.ok v) σ₁ ∧
      Completes FreshIds 0 (VersionService.deleteVersion v.id) σ₁ (.ok v') σ₂ ∧
      Completes FreshIds 0 (VersionService.createVersion toyNode secondVersion) σ₂
        (.error (.database .constraint)) σ₃ := by
  have h : (drive cms testFreshIds 0 (VersionService.createVersion toyNode secondVersion)
      (createChoices (toyUuid 'a')) ⟨Server.idle uploadDb, uploadWorld⟩).any (fun p =>
        p.1.toOption.any fun v => (drive cms testFreshIds 0 (VersionService.deleteVersion v.id)
          deleteChoices p.2).any fun p => p.1.toOption.isSome &&
          (drive cms testFreshIds 0 (VersionService.createVersion toyNode secondVersion)
            (createChoices (toyUuid 'b')) p.2).any fun p => isConstraint p.1) = true := by
    decide +kernel
  obtain ⟨r, σ₁, hcreate, h⟩ := completes_of_drive freshIds_of_test h
  obtain ⟨v, hv, h⟩ := (Option.any_eq_true _ _).mp h
  obtain ⟨r', σ₂, hdelete, h⟩ := completes_of_drive freshIds_of_test h
  obtain ⟨hsome, h⟩ := Bool.and_eq_true_iff.mp h
  obtain ⟨v', hv'⟩ := Option.isSome_iff_exists.mp hsome
  obtain ⟨r'', σ₃, hagain, hend⟩ := completes_of_drive freshIds_of_test h
  obtain rfl := eq_ok_of_toOption hv
  obtain rfl := eq_ok_of_toOption hv'
  obtain rfl := eq_of_isConstraint hend
  exact ⟨v, σ₁, v', σ₂, σ₃, hcreate, hdelete, hagain⟩

end Reeva