import Reeva.Interleaving.Alone
import Reeva.Cms.SignedOnly

/-!
# Operations as atomic steps

The databases that operations of the CMS reach, one after the other, from a database without
signatures (`Reaches`). Each runs on its own to its end, in an outside world of its own, and may fail
at any of its statements. In all of them the three columns of a signature stand together or are null,
and an artifact's key is one of the product that its version belongs to (`SignaturesInOrder`).

`Solo` is what an operation without transactions ends in when it runs alone. Its rules execute the
text of the operation on the tables.
-/

open Interleaving ReadCommitted

namespace Reeva

/-! ## Running alone -/

/-- The terms of an operation that runs alone and keeps an invariant of databases. -/
def keeping (I : Db → Prop) : Discipline cms :=
  Discipline.alone cms fun σ => I σ.server.db ∧ I (σ.server.view 0)

/-- Outside of a transaction and from the committed database `d` the program keeps the invariant, and
ends in `Q` or fails in `F`. -/
def Solo {α : Type} (ok : Guard cms) (I : Db → Prop) (d : Db) (p : Cms α) (Q : α → Db → Prop)
    (F : Failure String → Db → Prop) : Prop :=
  ∀ σ : CmsState, σ.server.tx 0 = none → σ.server.db = d →
    wp ok (keeping I) 0 p (fun a σ' => σ'.server.tx 0 = none ∧ Q a σ'.server.db)
      (fun e σ' => σ'.server.tx 0 = none ∧ F e σ'.server.db) σ

namespace Solo

variable {ok : Guard cms} {I : Db → Prop} {d : Db} {α β : Type} {p : Cms α} {Q : α → Db → Prop}
  {F : Failure String → Db → Prop}

theorem pure {a : α} (h : Q a d) : Solo ok I d (Pure.pure a) Q F := by
  rintro σ htx rfl σ₁ rfl -
  exact ⟨htx, h⟩

theorem fail {e : Failure String} (h : F e d) : Solo ok I d (.fail e : Cms α) Q F := by
  rintro σ htx rfl σ₁ rfl -
  exact ⟨htx, h⟩

theorem raise {message : String} (h : F (.raised message) d) :
    Solo ok I d (Cms.raise message : Cms α) Q F := fail h

theorem mono {Q' : α → Db → Prop} {F' : Failure String → Db → Prop} (h : Solo ok I d p Q F)
    (hQ : ∀ a d, Q a d → Q' a d) (hF : ∀ e d, F e d → F' e d) : Solo ok I d p Q' F' :=
  fun σ htx hd => wp_mono (fun a _ hq => ⟨hq.1, hQ a _ hq.2⟩) (fun e _ he => ⟨he.1, hF e _ he.2⟩)
    (h σ htx hd)

/-- One program after another. -/
theorem bind {f : α → Cms β} {R : β → Db → Prop} (hI : I d) (h : Solo ok I d p Q F)
    (hf : ∀ a d, Q a d → Solo ok I d (f a) R F) : Solo ok I d (p >>= f) R F := by
  rintro σ htx rfl
  refine wp_bind (fun _ => rfl) (wp_mono (fun a σ' hq => hf a _ hq.2 σ' hq.1 rfl) (fun _ _ he => he)
    (h σ htx rfl)) ⟨hI, ?_⟩
  rw [Server.view_of_none htx]
  exact hI

/-- A program whose failures are looked at. -/
theorem attempt {f : Except (Failure String) α → Cms β} {R : β → Db → Prop}
    {F' : Failure String → Db → Prop} (hI : I d) (h : Solo ok I d p Q F')
    (hok : ∀ a d, Q a d → Solo ok I d (f (.ok a)) R F)
    (herror : ∀ e d, F' e d → Solo ok I d (f (.error e)) R F) :
    Solo ok I d (p.attempt >>= f) R F := by
  rintro σ htx rfl
  have hinv : (keeping I).inv σ := by
    refine ⟨hI, ?_⟩
    rw [Server.view_of_none htx]
    exact hI
  refine wp_bind (fun _ => rfl) (wp_tryCatch (fun _ => rfl) ?_ hinv) hinv
  refine wp_bind (fun _ => rfl) (wp_mono ?_ ?_ (h σ htx rfl)) hinv
  · rintro a σ' hq σ₁ rfl -
    exact hok a _ hq.2 σ' hq.1 rfl
  · rintro e σ' he σ₁ rfl -
    exact herror e _ he.2 σ' he.1 rfl

/-- Sequential composition is associative. -/
theorem assoc {γ : Type} {p : Cms γ} {f : γ → Cms β} {k : β → Cms α}
    (h : Solo ok I d (p >>= fun a => f a >>= k) Q F) : Solo ok I d (p >>= f >>= k) Q F := by
  have hassoc : (p >>= f >>= k) = (p >>= fun a => f a >>= k) := Prog.bind_assoc p f k
  rw [hassoc]
  exact h

/-- A query reads the tables as they are. -/
theorem select {f : Tables → β} {k : β → Cms α} (h : Solo ok I d (k (f d.toTables)) Q F)
    (hF : F (.database .connection) d) : Solo ok I d (Cms.select f >>= k) Q F := by
  rintro σ htx rfl
  refine wp_query fun σ₁ hr _ _ => ?_
  obtain rfl : σ = σ₁ := hr
  refine ⟨fun _ => trivial, ?_, ?_⟩
  · rw [Server.view_of_none htx]
    exact h σ htx rfl
  · rintro σ₁ rfl -
    exact ⟨htx, hF⟩

/-- A call changes nothing in the database. -/
theorem call {c : CmsCall} {k : c.Res → Cms α} (h : ∀ r, Solo ok I d (k r) Q F) :
    Solo ok I d (Cms.call c >>= k) Q F := by
  rintro σ htx rfl
  refine wp_call fun σ₁ hr hi _ r w _ _ => ?_
  obtain rfl : σ = σ₁ := hr
  exact ⟨hi, trivial, h r ⟨σ.server, w⟩ htx rfl⟩

/-- A write that the constraints refuse, or that is lost, changes nothing; one that they allow takes
effect, even where its answer does not arrive. -/
theorem exec {w : Write} {k : ℕ → Cms α} (hnone : F (.database .constraint) d)
    (hlost : F (.database .connection) d)
    (h : ∀ n d', cmsSchema.apply w d = some (n, d') → I d' ∧ Solo ok I d' (k n) Q F ∧
      ((∃ σ, ok 0 (.db (.write w)) (.db .late) σ) → F (.database .connection) d')) :
    Solo ok I d (Cms.exec w >>= k) Q F := by
  rintro σ htx rfl
  refine wp_db (D := cmsSchema) (s := .write w) fun σ₁ hr hi _ φ r srv hok he => ?_
  obtain rfl : σ = σ₁ := hr
  have hview : σ.server.view 0 = σ.server.db := Server.view_of_none htx
  simp only [Server.exec] at he
  split at he
  · split at he
    · -- The constraints refuse the write.
      obtain ⟨rfl, rfl⟩ := Prod.mk.inj (Option.some.inj he)
      refine ⟨hi, trivial, fun v hv => (by cases hv), fun e hv σ₁ hr _ => ?_⟩
      obtain rfl : σ = σ₁ := hr
      cases hv
      exact ⟨htx, hnone⟩
    · rename_i n d' happ
      rw [hview] at happ
      obtain ⟨hI, hk, hlate⟩ := h n d' happ
      -- Outside of a transaction the write is committed at once.
      have hdb : (σ.server.record 0 w).db = d' := by
        rw [Server.record_of_none htx]
        simp [Server.applyOne, happ]
      have htx' : (σ.server.record 0 w).tx 0 = none := by
        rw [Server.record_of_none htx]
        exact htx
      have hafter : (keeping I).inv ⟨σ.server.record 0 w, σ.world⟩ := by
        refine ⟨?_, ?_⟩
        · change I (σ.server.record 0 w).db
          rw [hdb]
          exact hI
        · change I ((σ.server.record 0 w).view 0)
          rw [Server.view_of_none htx', hdb]
          exact hI
      obtain ⟨rfl, rfl⟩ := Prod.mk.inj (Option.some.inj he)
      -- The write reports its count, is lost, or takes effect without an answer.
      cases φ with
      | none =>
        refine ⟨hafter, trivial, fun v hv => ?_, fun e hv => by cases hv⟩
        obtain rfl := Except.ok.inj hv
        exact hk ⟨σ.server.record 0 w, σ.world⟩ htx' hdb
      | lost =>
        refine ⟨hi, trivial, fun v hv => (by cases hv), fun e hv σ₁ hr _ => ?_⟩
        obtain rfl : σ = σ₁ := hr
        cases hv
        exact ⟨htx, hlost⟩
      | late =>
        refine ⟨hafter, trivial, fun v hv => (by cases hv), fun e hv σ₁ hr _ => ?_⟩
        obtain rfl : (⟨σ.server.record 0 w, σ.world⟩ : CmsState) = σ₁ := hr
        cases hv
        refine ⟨htx', ?_⟩
        change F _ (σ.server.record 0 w).db
        rw [hdb]
        exact hlate ⟨σ, hok⟩
  · cases he

/-- A check. -/
theorem refuse {c : Prop} [Decidable c] {message : String} {k : Unit → Cms α}
    (hF : F (.raised message) d) (h : ¬c → Solo ok I d (k ()) Q F) :
    Solo ok I d (Cms.refuse c message >>= k) Q F := by
  by_cases hc : c
  · simp only [Cms.refuse, if_pos hc]
    exact raise hF
  · simp only [Cms.refuse, if_neg hc]
    exact h hc

/-- A computation that may throw. -/
theorem orThrow {e : Except String β} {k : β → Cms α} (hF : ∀ m, F (.raised m) d)
    (h : ∀ b, e = .ok b → Solo ok I d (k b) Q F) : Solo ok I d (Cms.orThrow e >>= k) Q F := by
  cases e with
  | ok b => exact h b rfl
  | error m => exact raise (hF m)

/-- A row that has to be there. -/
theorem orFail {o : Option β} {k : β → Cms α} (hF : F (.raised "Row not found") d)
    (h : ∀ b, o = some b → Solo ok I d (k b) Q F) : Solo ok I d (Cms.orFail o >>= k) Q F := by
  cases o with
  | some b => exact h b rfl
  | none => exact raise hF

/-- What a program that ran to its end has kept and ended in. -/
theorem completes (h : Solo ok I d p Q F) (hI : I d) {w : CmsWorld}
    {r : Except (Failure String) α} {σ' : CmsState}
    (hc : Completes ok 0 p ⟨Server.idle d, w⟩ r σ') :
    I σ'.server.db ∧ (∀ a, r = .ok a → Q a σ'.server.db) ∧
      ∀ e, r = .error e → F e σ'.server.db := by
  obtain ⟨hinv, hend⟩ := wp_steps (R := keeping I) (fun _ => rfl) hc ⟨hI, hI⟩
    (h ⟨Server.idle d, w⟩ rfl rfl)
  refine ⟨hinv.1, fun a ha => ?_, fun e he => ?_⟩
  · subst ha
    exact (hend σ' rfl hinv).2
  · subst he
    exact (hend σ' rfl hinv).2

end Solo

/-! ## Reading with nothing in between -/

/-- The row that is found among those that some row of another list refers to. -/
theorem find?_referenced {α β : Type} {rows : List β} {key : β → Id} {live : β → Bool}
    {referring : List α} {ref : α → Id} {a : α} (ha : a ∈ referring) :
    (rows.filter fun v => (referring.any fun b => ref b = key v) && live v).find?
        (fun v => key v = ref a) = rows.find? fun v => key v = ref a && live v := by
  rw [List.find?_filter]
  congr 1
  funext v
  by_cases hv : key v = ref a
  · have hany : (referring.any fun b => ref b = key v) = true :=
      List.any_eq_true.mpr ⟨a, ha, by simp [hv]⟩
    rw [hany, Bool.true_and]
    simp [hv]
  · simp [hv]

/-- The relations of the artifacts of one query are those that the tables have. -/
theorem load_of_referenced {t : Tables} {p : Artifact → Bool} {a : Artifact}
    (ha : a ∈ t.artifacts.filter p) :
    let artifacts := t.artifacts.filter p
    let versions := t.versions.filter fun v =>
      (artifacts.any (·.versionId = v.id)) && v.deletedAt.isNone
    let software := t.software.filter fun s => versions.any (·.softwareId = s.id)
    let platforms := t.platforms.filter fun p =>
      (artifacts.any (·.platformId = p.id)) && p.deletedAt.isNone
    let architectures := t.architectures.filter fun p =>
      (artifacts.any (·.architectureId = p.id)) && p.deletedAt.isNone
    ({ artifact := a
       version := (versions.find? (·.id = a.versionId)).map fun v =>
         ⟨v, software.find? (·.id = v.softwareId)⟩
       platform := platforms.find? (·.id = a.platformId)
       architecture := architectures.find? (·.id = a.architectureId) } : LoadedArtifact) =
      t.load a := by
  intro artifacts versions software platforms architectures
  have hversion : versions.find? (·.id = a.versionId) = t.version a.versionId :=
    find?_referenced ha
  have hplatform : platforms.find? (·.id = a.platformId) = t.platform a.platformId :=
    find?_referenced ha
  have harchitecture : architectures.find? (·.id = a.architectureId) =
      t.architecture a.architectureId := find?_referenced ha
  rw [hversion, hplatform, harchitecture, Tables.load]
  congr 1
  cases hv : t.version a.versionId with
  | none => rfl
  | some v =>
    have hmem : v ∈ versions := List.mem_of_find?_eq_some (hversion.trans hv)
    have hsoftware : software.find? (·.id = v.softwareId) = t.softwareById v.softwareId := by
      have hfind : (t.software.filter fun s =>
          (versions.any fun v => v.softwareId = s.id) && true).find? (·.id = v.softwareId) =
            t.software.find? fun s => s.id = v.softwareId && true := find?_referenced hmem
      simp only [Bool.and_true] at hfind
      exact hfind
    simp only [Option.map_some, hsoftware, Tables.loadVersion]

namespace Solo

variable {ok : Guard cms} {I : Db → Prop} {d : Db} {α : Type} {Q : α → Db → Prop}
  {F : Failure String → Db → Prop}

theorem findSoftware {id : Id} {k : Software → Cms α} (hF : ∀ e, F e d)
    (h : ∀ s, d.toTables.softwareById id = some s → Solo ok I d (k s) Q F) :
    Solo ok I d (Cms.findSoftware id >>= k) Q F :=
  .assoc (.select (.orFail (hF _) h) (hF _))

theorem findVersion {id : Id} {k : LoadedVersion → Cms α} (hF : ∀ e, F e d)
    (h : ∀ v, d.toTables.version id = some v → Solo ok I d (k (d.toTables.loadVersion v)) Q F) :
    Solo ok I d (Cms.findVersion id >>= k) Q F :=
  .assoc (.select (.assoc (.orFail (hF _) fun v hv => .assoc (.select (h v hv) (hF _)))) (hF _))

theorem loadArtifact {id : Id} {k : LoadedArtifact → Cms α} (hF : ∀ e, F e d)
    (h : ∀ a, d.toTables.artifact id = some a → Solo ok I d (k (d.toTables.load a)) Q F) :
    Solo ok I d (Cms.loadArtifact id >>= k) Q F := by
  refine .assoc (.select (.assoc (.orFail (hF _) fun a ha => ?_)) (hF _))
  refine .assoc (.select (.assoc (.select (.assoc (.select (.assoc (.select ?_ (hF _))) (hF _)))
    (hF _))) (hF _))
  have hload : d.toTables.load a = {
      artifact := a
      version := (d.toTables.version a.versionId).map fun v =>
        ⟨v, (d.toTables.version a.versionId).bind fun v => d.toTables.softwareById v.softwareId⟩
      platform := d.toTables.platform a.platformId
      architecture := d.toTables.architecture a.architectureId } := by
    cases hv : d.toTables.version a.versionId <;> simp [Tables.load, hv, Tables.loadVersion]
  have hk := h a ha
  rw [hload] at hk
  exact hk

theorem loadArtifacts {p : Tables → Artifact → Bool} {k : List LoadedArtifact → Cms α}
    (hF : ∀ e, F e d)
    (h : Solo ok I d
      (k ((d.artifacts.filter fun a => p d.toTables a && a.deletedAt.isNone).map d.toTables.load))
      Q F) : Solo ok I d (Cms.loadArtifacts p >>= k) Q F := by
  refine .assoc (.select (.assoc (.select (.assoc (.select (.assoc (.select (.assoc (.select ?_
    (hF _))) (hF _))) (hF _))) (hF _))) (hF _))
  rw [← List.map_congr_left fun a ha => load_of_referenced ha] at h
  exact h

end Solo

/-- A program keeps what each of its writes keeps. -/
theorem keeps_of_performs {I : Db → Prop} {W : Write → Prop} {α : Type} {p : Cms α}
    (hI : ∀ (d d' : Db) w n, I d → W w → cmsSchema.apply w d = some (n, d') → I d')
    (hp : Performs True W p) {σ : CmsState} :
    wp (Guard.always cms) (keeping I) 0 p (fun _ _ => True) (fun _ _ => True) σ := by
  refine wp_mono (fun _ _ _ => trivial) (fun _ _ _ => trivial) (wp_of_only ?_ hp)
  intro s hs ch σ r σ' hinv _ hr
  refine ⟨?_, trivial⟩
  cases s with
  | halt => cases ch <;> cases hr
  | ext c =>
    cases ch with
    | db φ => cases hr
    | abort j => cases hr
    | ext o =>
      simp only [cms, Service] at hr
      split at hr
      · cases hr
      · obtain ⟨_, -, hw⟩ := Option.map_eq_some_iff.mp hr
        cases hw
        exact hinv
  | db s =>
    cases ch with
    | ext o => cases hr
    | abort j => cases hr
    | db φ =>
      simp only [cms, Service] at hr
      split at hr
      · cases hr
      · obtain ⟨⟨r', srv⟩, he, hw⟩ := Option.map_eq_some_iff.mp hr
        cases hw
        have hseen : I σ.server.db ∧ I (σ.server.view 0) := hinv
        refine Server.seen_exec (D := cmsSchema) he ?_ hseen
        rintro w rfl
        unfold Server.applyOne
        cases happ : cmsSchema.apply w (σ.server.view 0) with
        | none => exact hinv.2
        | some p => exact hI _ p.2 w p.1 hinv.2 hs happ

/-! ## Rebuilding names -/

/-- What `rebuildAllNames` saves for an artifact: the same targets, a name that is built anew with the
same extension, and no signature. -/
structure Renamed (node : Node) (l n : Artifact) : Prop where
  signature : n.signature = none
  signatureKeyId : n.signatureKeyId = none
  signatureManifest : n.signatureManifest = none
  platformId : n.platformId = l.platformId
  architectureId : n.architectureId = l.architectureId
  fileName : ∃ software platform architecture version, n.fileName =
    buildFileName node software platform architecture version
      (orElse (fileExtension l.fileName) "bin")

section rebuilding

variable {node : Node} {I : Db → Prop}
  (hI : ∀ (d d' : Db) (l n : Artifact) m, I d → l ∈ d.artifacts → Renamed node l n →
    cmsSchema.apply (.saveArtifact l n) d = some (m, d') → I d')

include hI

/-- The loop of `rebuildAllNames`, over artifacts that were loaded and have not been saved since. -/
theorem rebuildLoop_solo (providers : List StorageProvider) (as : List LoadedArtifact) :
    ∀ {d : Db} (count : ℕ), I d → (as.map (·.artifact.id)).Nodup →
      (∀ a ∈ as, a.artifact ∈ d.artifacts) →
      Solo (Guard.always cms) I d (ArtifactService.rebuildLoop node providers as count)
        (fun _ _ => True) fun _ _ => True := by
  induction as with
  | nil => exact fun _ _ _ _ => .pure trivial
  | cons a as ih =>
    intro d count hd hids hmem
    rw [List.map_cons, List.nodup_cons] at hids
    -- Reading an object changes nothing in the database.
    have hread : ∀ provider, Solo (Guard.always cms) I d
        (ArtifactService.readChecksums node provider a.artifact.storageKey) (fun _ d' => d' = d)
        fun _ d' => d' = d := by
      intro provider
      refine .orThrow (fun _ => rfl) fun provider _ => .call fun resolved => ?_
      refine .orThrow (fun _ => rfl) fun _ _ => .call fun content => ?_
      exact .orThrow (fun _ => rfl) fun _ _ => .pure rfl
    -- An artifact that is not saved leaves the others as they were; one that is saved does too.
    refine .bind (Q := fun _ d' => I d' ∧ ∀ b ∈ as, b.artifact ∈ d'.artifacts) hd ?_
      fun saved d' h => ih _ h.1 hids.2 h.2
    have hsave : ∀ (needsSave : Bool) (n : Artifact), Renamed node a.artifact n →
        Solo (Guard.always cms) I d
          (if needsSave then do
            let _ ← Cms.exec (.saveArtifact a.artifact n)
            return 1
          else return 0)
          (fun _ d' => I d' ∧ ∀ b ∈ as, b.artifact ∈ d'.artifacts) fun _ _ => True := by
      intro needsSave n hn
      cases needsSave with
      | false => exact .pure ⟨hd, fun b hb => hmem b (.tail _ hb)⟩
      | true =>
        refine .exec trivial trivial fun count d' happ => ?_
        have hd' := hI d d' a.artifact n count hd (hmem a (.head _)) hn happ
        refine ⟨hd', .pure ⟨hd', fun b hb => ?_⟩, fun _ => trivial⟩
        -- The other artifacts have other identifiers.
        have hne : b.artifact.id ≠ a.artifact.id := fun he =>
          hids.1 (List.mem_map.mpr ⟨b, hb, he⟩)
        rw [congrArg Tables.artifacts (apply_tables happ)]
        exact mem_updateRows.mpr ⟨b.artifact, hmem b (.tail _ hb), .inr ⟨by simpa using hne, rfl⟩⟩
    unfold ArtifactService.rebuildNames
    split
    · refine .attempt hd (hread _) (fun hashes d' h => ?_) fun e d' h => ?_
      · subst h
        exact hsave _ _ ⟨rfl, rfl, rfl, rfl, rfl, _, _, _, _, rfl⟩
      · subst h
        exact hsave _ _ ⟨rfl, rfl, rfl, rfl, rfl, _, _, _, _, rfl⟩
    · exact .raise trivial

/-- `rebuildAllNames` keeps what its saves keep. -/
theorem rebuildAllNames_solo {d : Db} (hd : I d) :
    Solo (Guard.always cms) I d (ArtifactService.rebuildAllNames node) (fun _ _ => True)
      fun _ _ => True := by
  refine .loadArtifacts (fun _ => trivial) (.select ?_ trivial)
  refine rebuildLoop_solo hI _ _ _ hd ?_ ?_
  · rw [List.map_map]
    exact d.valid.artifactIds.sublist (List.filter_sublist.map _)
  · intro a ha
    obtain ⟨b, hb, rfl⟩ := List.mem_map.mp ha
    exact (List.mem_filter.mp hb).1

end rebuilding

/-! ## What operations write -/

/-- The writes of an operation that keep signatures in order whatever the tables are. -/
inductive Orderly : Write → Prop
  | insertSoftware (r : Software) : Orderly (.insertSoftware r)
  | saveSoftware (l n : Software) : Orderly (.saveSoftware l n)
  | updateSoftware (p : Software → Bool) (f : Software → Software) : Orderly (.updateSoftware p f)
  | insertSigningKey (r : SoftwareSigningKey) : Orderly (.insertSigningKey r)
  | revoke (l : SoftwareSigningKey) : Orderly (.saveSigningKey l { l with isActive := false })
  | insertVersion (r : Version) : Orderly (.insertVersion r)
  | saveVersion (l n : Version) (h : n.softwareId = l.softwareId) : Orderly (.saveVersion l n)
  | insertArtifact (r : Artifact) (hs : r.signature = none) (hi : r.signatureKeyId = none)
    (hm : r.signatureManifest = none) : Orderly (.insertArtifact r)
  | publish (l : Artifact) (publishedAt : Option ℕ) :
    Orderly (.saveArtifact l { l with isPublished := true, publishedAt })
  | deleteArtifact (l : Artifact) (now : ℕ) :
    Orderly (.saveArtifact l { l with deletedAt := some now })
  | clear (p : Tables → Artifact → Bool) : Orderly (.updateArtifacts p fun a =>
      { a with signature := none, signatureKeyId := none, signatureManifest := none })
  | insertReservation (r : Reservation) : Orderly (.insertReservation r)
  | deleteReservations (p : Reservation → Bool) : Orderly (.deleteReservations p)

/-- The writes of an operation that runs alone: an artifact that is saved is one that the tables
have, and its three columns are null, or a submission under an active key of its product. -/
inductive Careful (node : Node) (t : Tables) : Write → Prop
  | orderly {w : Write} (h : Orderly w) : Careful node t w
  | unsigned {l n : Artifact} (hl : l ∈ t.artifacts) (hs : n.signature = none)
    (hi : n.signatureKeyId = none) (hm : n.signatureManifest = none) :
    Careful node t (.saveArtifact l n)
  | submission {l : Artifact} {v : Version} {k : SoftwareSigningKey} (signature : String)
    (m : OtaReleaseManifest) (hl : l ∈ t.artifacts) (hv : v ∈ t.versions) (hid : v.id = l.versionId)
    (hk : k ∈ t.signingKeys) (hactive : k.isActive = true) (hproduct : k.softwareId = v.softwareId) :
    Careful node t (.saveArtifact l (l.submitted signature k.keyId m))

/-- The operations that save an artifact whose three columns they have changed. -/
def Operation.savesTriple : Operation → Bool
  | updateArtifact _ _ | setArtifactSignature _ _ _ | importManagedSignature _ | rebuildAllNames =>
    true
  | _ => false

/-- The writes of every other operation are orderly. -/
theorem Operation.orderly (node : Node) (op : Operation) (h : op.savesTriple = false) :
    Performs True Orderly (op.program node) := by
  cases op with
  | createSoftware fuel name =>
    exact (create_performs node trivial _ _ fun r _ _ _ => .insertSoftware r).discard
  | updateName id name => exact (updateName_performs _ _ fun l _ => .saveSoftware l _).discard
  | toggleActive id => exact (toggleActive_performs trivial _ fun _ => .updateSoftware _ _).discard
  | setDefault id => exact (setDefault_performs trivial _ fun p _ => .updateSoftware p _).discard
  | addSigningKey softwareId publicKey =>
    exact (addSigningKey_performs node _ _ fun r _ => .insertSigningKey r).discard
  | setRequireSignedUpdates softwareId required =>
    exact (setRequireSignedUpdates_performs node _ _ fun l _ => .saveSoftware l _).discard
  | revokeSigningKey softwareId keyId => exact (revokeSigningKey_performs _ _ .revoke .clear).discard
  | createVersion data => exact (createVersion_performs node _ .insertVersion).discard
  | updateVersion id data => exact (updateVersion_performs node _ _ .saveVersion .clear).discard
  | toggleVersion id => exact (toggleVersion_performs _ .saveVersion).discard
  | deleteVersion id => exact (deleteVersion_performs _ fun l _ => .saveVersion l _ rfl).discard
  | uploadArtifact fuel file data =>
    exact (uploadArtifact_performs node trivial _ _ _ .insertReservation .deleteReservations
      fun r hs hi hm _ => .insertArtifact r hs hi hm).discard
  | publishArtifact id => exact (publishArtifact_performs node _ .publish).discard
  | deleteArtifact id => exact (deleteArtifact_performs _ .deleteArtifact).discard
  | _ => cases h

section careful

variable {node : Node} {I : Db → Prop}
  (hI : ∀ (d d' : Db) w n, I d → Careful node d.toTables w → cmsSchema.apply w d = some (n, d') → I d')

include hI

/-- An operation with orderly writes keeps what careful writes keep. -/
theorem keeps_of_orderly {α : Type} {p : Cms α} (hp : Performs True Orderly p) {σ : CmsState} :
    wp (Guard.always cms) (keeping I) 0 p (fun _ _ => True) (fun _ _ => True) σ :=
  keeps_of_performs (fun d d' w n hd hw happ => hI d d' w n hd (.orderly hw) happ) hp

/-- The save of an artifact that was loaded. -/
theorem keeps_save {l n : Artifact} {d : Db} {α : Type} {k : ℕ → Cms α} (hd : I d)
    (hw : Careful node d.toTables (.saveArtifact l n))
    (h : ∀ m d', cmsSchema.apply (.saveArtifact l n) d = some (m, d') → I d' →
      Solo (Guard.always cms) I d' (k m) (fun _ _ => True) fun _ _ => True) :
    Solo (Guard.always cms) I d (Cms.exec (.saveArtifact l n) >>= k) (fun _ _ => True)
      fun _ _ => True :=
  .exec trivial trivial fun m d' happ =>
    have hd' := hI d d' _ m hd hw happ
    ⟨hd', h m d' happ hd', fun _ => trivial⟩

/-- `updateArtifact` -/
theorem updateArtifact_keeps (id : Id) (data : ArtifactInput) {d : Db} (hd : I d) :
    Solo (Guard.always cms) I d (ArtifactService.updateArtifact node id data) (fun _ _ => True)
      fun _ _ => True := by
  have hF : ∀ e : Failure String, True := fun _ => trivial
  refine .orThrow (fun _ => trivial) fun ids _ => .refuse trivial fun _ => ?_
  refine .select (.orFail trivial fun artifact ha => ?_) trivial
  refine .findVersion hF fun version _ => ?_
  refine .select (.orFail trivial fun platform _ => ?_) trivial
  refine .select (.orFail trivial fun architecture _ => ?_) trivial
  refine .refuse trivial fun _ => ?_
  dsimp only [Tables.loadVersion]
  split
  · exact .raise trivial
  · refine .refuse trivial fun _ => ?_
    exact keeps_save hI hd (.unsigned (List.mem_of_find?_eq_some ha) rfl rfl rfl)
      fun _ _ _ _ => .pure trivial

/-- `setArtifactSignature` -/
theorem setArtifactSignature_keeps (id : Id) (keyIdInput signatureInput : Input) {d : Db}
    (hd : I d) :
    Solo (Guard.always cms) I d
      (ArtifactService.setArtifactSignature node id keyIdInput signatureInput) (fun _ _ => True)
      fun _ _ => True := by
  refine .loadArtifact (fun _ => trivial) fun artifact ha => .refuse trivial fun _ => ?_
  split
  · exact .raise trivial
  · rename_i version software hversion
    obtain ⟨v, hv, hload⟩ := Option.map_eq_some_iff.mp hversion
    obtain rfl : v = version := congrArg LoadedVersion.version hload
    refine .select ?_ trivial
    split
    · exact .raise trivial
    · rename_i signingKey hkey
      have hfound := List.find?_some hkey
      simp only [Bool.and_eq_true, decide_eq_true_eq] at hfound
      obtain ⟨⟨hproduct, hkeyId⟩, hactive⟩ := hfound
      have hid := List.find?_some hv
      simp only [Bool.and_eq_true, decide_eq_true_eq] at hid
      refine .orThrow (fun _ => trivial) fun payload hp => .refuse trivial fun _ => ?_
      split
      · exact .raise trivial
      · rename_i manifest hparse
        obtain ⟨m, -, rfl⟩ := build_of_payload hp
        obtain rfl := Option.some.inj ((parse_payload m).symm.trans hparse)
        have hw : Careful node d.toTables (.saveArtifact artifact
            (artifact.submitted (trimmedText signatureInput) signingKey.keyId m)) :=
          .submission _ m (List.mem_of_find?_eq_some ha) (List.mem_of_find?_eq_some hv) hid.1
            (List.mem_of_find?_eq_some hkey) hactive hproduct
        rw [hkeyId] at hw
        exact keeps_save hI hd hw fun _ _ _ _ => .pure trivial

/-- `importManagedSignature` -/
theorem importManagedSignature_keeps (id : Id) {d : Db} (hd : I d) :
    Solo (Guard.always cms) I d (ArtifactService.importManagedSignature node id) (fun _ _ => True)
      fun _ _ => True := by
  have hF : ∀ (e : Failure String) (d : Db), True := fun _ _ => trivial
  have getKey : ∀ product, Solo (Guard.always cms) I d (ManagedSignerService.getKey node product)
      (fun _ d' => d' = d) fun _ _ => True := by
    intro product
    refine .call fun value => .orThrow (fun _ => trivial) fun value _ => ?_
    cases ManagedSignerService.key node value product with
    | ok managedKey => exact .pure rfl
    | error message => exact .raise trivial
  have getRequest : ∀ key payload, Solo (Guard.always cms) I d
      (ManagedSignerService.getRequest node key payload) (fun _ d' => d' = d) fun _ _ => True := by
    intro key payload
    refine .call fun value => .orThrow (fun _ => trivial) fun value _ => ?_
    cases ManagedSignerService.signingRequest node value key payload with
    | ok request => exact .pure rfl
    | error message => exact .raise trivial
  refine .loadArtifact (fun _ => trivial) fun artifact _ => ?_
  split
  · refine .bind hd (getKey _) fun key d₁ h₁ => ?_
    obtain rfl := h₁
    refine .orThrow (fun _ => trivial) fun payload _ => ?_
    refine .bind hd (getRequest key payload) fun request d₂ h₂ => ?_
    obtain rfl := h₂
    cases request with
    | none => exact .raise trivial
    | some request =>
      exact .refuse trivial fun _ => setArtifactSignature_keeps hI id _ _ hd
  · exact .raise trivial

/-- `rebuildAllNames` -/
theorem rebuildAllNames_keeps {d : Db} (hd : I d) :
    Solo (Guard.always cms) I d (ArtifactService.rebuildAllNames node) (fun _ _ => True)
      fun _ _ => True :=
  rebuildAllNames_solo (fun d d' _ _ m hd hl hn happ =>
    hI d d' _ m hd (.unsigned hl hn.signature hn.signatureKeyId hn.signatureManifest) happ) hd

/-- Every operation keeps what careful writes keep, wherever it ends. -/
theorem Operation.keeps (op : Operation) {d : Db} (hd : I d) {w : CmsWorld}
    {r : Except (Failure String) Unit} {σ : CmsState}
    (hc : Completes (Guard.always cms) 0 (op.program node) ⟨Server.idle d, w⟩ r σ) :
    I σ.server.db := by
  have hdiscard : ∀ {α : Type} {p : Cms α}, Solo (Guard.always cms) I d p (fun _ _ => True)
      (fun _ _ => True) → Completes (Guard.always cms) 0 (Cms.discard p) ⟨Server.idle d, w⟩ r σ →
      I σ.server.db := fun hp hc =>
    (Solo.completes (Q := fun _ _ => True) (F := fun _ _ => True)
      (.bind hd hp fun _ _ _ => .pure trivial) hd hc).1
  cases h : op.savesTriple with
  | false =>
    exact (wp_steps (R := keeping I) (fun _ => rfl) hc ⟨hd, hd⟩
      (keeps_of_orderly hI (op.orderly node h))).1.1
  | true =>
    cases op with
    | updateArtifact id data => exact hdiscard (updateArtifact_keeps hI id data hd) hc
    | setArtifactSignature id keyId signature =>
      exact hdiscard (setArtifactSignature_keeps hI id keyId signature hd) hc
    | importManagedSignature id => exact hdiscard (importManagedSignature_keeps hI id hd) hc
    | rebuildAllNames => exact hdiscard (rebuildAllNames_keeps hI hd) hc
    | _ => cases h

end careful

/-! ## One operation after the other -/

/-- The database `d'` is reached from `d` by operations, each run on its own in an outside world of its
own. In between, the tables of the targets, the storage providers and the reservations may change in
any way. -/
inductive Reaches (node : Node) (d : Db) : Db → Prop
  | refl : Reaches node d d
  | operation {d' : Db} {op : Operation} {w : CmsWorld} {r : Except (Failure String) Unit}
    {σ : CmsState} (h : Reaches node d d')
    (hc : Completes (Guard.always cms) 0 (op.program node) ⟨Server.idle d', w⟩ r σ) :
    Reaches node d σ.server.db
  | others {d' d'' : Db} (h : Reaches node d d') (hs : d''.software = d'.software)
    (hk : d''.signingKeys = d'.signingKeys) (hv : d''.versions = d'.versions)
    (ha : d''.artifacts = d'.artifacts) : Reaches node d d''

/-- What careful writes keep, and what does not depend on the other tables, holds of everything that is
reached. -/
theorem Reaches.keeps {node : Node} {I : Db → Prop}
    (hI : ∀ (d d' : Db) w n, I d → Careful node d.toTables w → cmsSchema.apply w d = some (n, d') →
      I d')
    (hothers : ∀ d d' : Db, d'.software = d.software → d'.signingKeys = d.signingKeys →
      d'.versions = d.versions → d'.artifacts = d.artifacts → I d → I d')
    {d d' : Db} (h : Reaches node d d') (hd : I d) : I d' := by
  induction h with
  | refl => exact hd
  | operation _ hc ih => exact Operation.keeps hI _ ih hc
  | others _ hs hk hv ha ih => exact hothers _ _ hs hk hv ha ih

/-- No artifact has a signature, or anything of one. -/
def Unsigned (d : Db) : Prop :=
  ∀ a ∈ d.artifacts, a.signature = none ∧ a.signatureKeyId = none ∧ a.signatureManifest = none

/-- What is reached from a database without signatures is coherent. -/
theorem Reaches.coherent {node : Node} {d₀ d : Db} (h : Reaches node d₀ d) (hstart : Unsigned d₀) :
    Coherent node d.toTables := by
  induction h with
  | refl =>
    intro a ha signature keyId snapshot hs
    rw [(hstart a ha).1] at hs
    cases hs
  | operation _ hc ih =>
    exact (wp_steps (R := Discipline.alone cms (CoherentState node)) (fun _ => rfl) hc ⟨ih, ih⟩
      (Operation.program_wp node _ ⟨ih, ih⟩)).1.1
  | others _ _ hk _ ha ih =>
    refine ih.of_triples node (fun k hkey => ⟨k, ?_, rfl, rfl, rfl⟩) fun a hmem => ?_
    · rwa [hk]
    · rw [ha] at hmem
      exact .inr ⟨a, hmem, .refl a⟩

/-! ## Signatures in order -/

/-- A signature comes with its key and its snapshot, and the key is one of the product that the
artifact's version belongs to. -/
structure SignatureInOrder (t : Tables) (a : Artifact) : Prop where
  whole : a.signature.isSome = true → a.signatureKeyId.isSome = true ∧ a.signatureManifest.isSome = true
  home : ∀ keyId, a.signatureKeyId = some keyId → ∃ v ∈ t.versions, v.id = a.versionId ∧
    ∃ k ∈ t.signingKeys, k.keyId = keyId ∧ k.softwareId = v.softwareId

/-- The signatures of all artifacts are in order. -/
def SignaturesInOrder (t : Tables) : Prop := ∀ a ∈ t.artifacts, SignatureInOrder t a

/-- An artifact without a signature is in order. -/
theorem signatureInOrder_of_none {t : Tables} {a : Artifact} (hs : a.signature = none)
    (hi : a.signatureKeyId = none) : SignatureInOrder t a :=
  ⟨fun h => (by simp [hs] at h), fun keyId h => (by simp [hi] at h)⟩

/-- Versions stay, within their products. -/
def VersionsStay (t t' : Tables) : Prop :=
  ∀ v ∈ t.versions, ∃ v' ∈ t'.versions, v'.id = v.id ∧ v'.softwareId = v.softwareId

/-- A careful write leaves every version in its product. -/
theorem Careful.versionsStay {node : Node} {t : Tables} {w : Write} (h : Careful node t w) :
    VersionsStay t (w.run t).2 := by
  have hsame : ∀ t' : Tables, t'.versions = t.versions → VersionsStay t t' := by
    intro t' ht v hv
    exact ⟨v, by rwa [ht], rfl, rfl⟩
  cases h with
  | orderly h =>
    cases h with
    | insertVersion r => exact fun v hv => ⟨v, List.mem_append_left _ hv, rfl, rfl⟩
    | saveVersion l n hproduct =>
      intro v hv
      by_cases hid : v.id = l.id
      · refine ⟨l.saveOnto n v, mem_updateRows.mpr ⟨v, hv, .inl ⟨by simpa using hid, rfl⟩⟩, rfl, ?_⟩
        simp only [Version.saveOnto, hproduct, dirty_self]
      · exact ⟨v, mem_updateRows.mpr ⟨v, hv, .inr ⟨by simpa using hid, rfl⟩⟩, rfl, rfl⟩
    | _ => exact hsame _ rfl
  | unsigned hl hs hi hm => exact hsame _ rfl
  | submission signature m hl hv hid hk hactive hproduct => exact hsame _ rfl

/-- A careful write keeps the registered keys. -/
theorem Careful.keysGrow {node : Node} {t : Tables} {w : Write} (h : Careful node t w) :
    KeysGrow t (w.run t).2 := by
  cases h with
  | orderly h =>
    cases h with
    | insertSigningKey r => exact (Harmless.insertSigningKey r).keysGrow t
    | revoke l => exact (Harmless.revoke l).keysGrow t
    | _ => exact .refl t
  | unsigned hl hs hi hm => exact .refl t
  | submission signature m hl hv hid hk hactive hproduct => exact .refl t

/-- An artifact is in order while its version and its key stay. -/
theorem SignatureInOrder.mono {t t' : Tables} {a a' : Artifact} (h : SignatureInOrder t a)
    (hv : VersionsStay t t') (hk : KeysGrow t t') (hversion : a'.versionId = a.versionId)
    (hs : a'.signature = a.signature) (hi : a'.signatureKeyId = a.signatureKeyId)
    (hm : a'.signatureManifest = a.signatureManifest) : SignatureInOrder t' a' := by
  refine ⟨?_, fun keyId hkey => ?_⟩
  · rw [hs, hi, hm]
    exact h.whole
  · rw [hi] at hkey
    obtain ⟨v, hmem, hid, k, hkmem, hkid, hks⟩ := h.home keyId hkey
    obtain ⟨v', hmem', hid', hvs'⟩ := hv v hmem
    obtain ⟨k', hkmem', hks', hkid', -⟩ := hk k hkmem
    exact ⟨v', hmem', by rw [hid', hid, hversion], k', hkmem', by rw [hkid', hkid],
      by rw [hks', hks, hvs']⟩

/-- Where the signature of an artifact comes from in a careful write to the tables. -/
inductive SignatureFrom (t : Tables) (a' : Artifact) : Prop
  | none (hs : a'.signature = none) (hi : a'.signatureKeyId = none)
  | kept {a : Artifact} (ha : a ∈ t.artifacts) (hv : a'.versionId = a.versionId)
    (hs : a'.signature = a.signature) (hi : a'.signatureKeyId = a.signatureKeyId)
    (hm : a'.signatureManifest = a.signatureManifest)
  | submitted {v : Version} {k : SoftwareSigningKey} (hv : v ∈ t.versions)
    (hid : v.id = a'.versionId) (hk : k ∈ t.signingKeys) (hactive : k.isActive = true)
    (hproduct : k.softwareId = v.softwareId) (hi : a'.signatureKeyId = some k.keyId)
    (hm : a'.signatureManifest.isSome = true)

/-- A snapshot that is saved onto the one that was loaded is there where the new one is. -/
theorem isSome_dirtyJson (l n : Option Json) : (dirtyJson l n l).isSome = n.isSome := by
  unfold dirtyJson
  split_ifs with h
  · have hsome := congrArg Option.isSome h
    rw [Option.isSome_map, Option.isSome_map] at hsome
    exact hsome.symm
  · rfl

/-- Every artifact has its signature from somewhere after a careful write. -/
theorem Careful.signatureFrom {node : Node} {d : Db} {w : Write} (h : Careful node d.toTables w)
    {a' : Artifact} (ha' : a' ∈ (w.run d.toTables).2.artifacts) : SignatureFrom d.toTables a' := by
  have hsame : ∀ a ∈ d.artifacts, SignatureFrom d.toTables a := fun a ha =>
    .kept ha rfl rfl rfl rfl
  -- A save finds the row as it was loaded.
  have hsave : ∀ l n, l ∈ d.artifacts → a' ∈ (Write.run d.toTables (.saveArtifact l n)).2.artifacts →
      SignatureFrom d.toTables (l.saveOnto n l) → SignatureFrom d.toTables a' := by
    intro l n hl hmem hsaved
    obtain ⟨a, ha, ⟨hid, rfl⟩ | ⟨-, rfl⟩⟩ := mem_updateRows.mp hmem
    · obtain rfl := List.inj_on_of_nodup_map d.valid.artifactIds ha hl (by simpa using hid)
      exact hsaved
    · exact hsame a ha
  cases h with
  | orderly h =>
    cases h with
    | insertArtifact r hs hi hm =>
      obtain ha' | ha' := List.mem_append.mp ha'
      · exact hsame a' ha'
      · rw [List.mem_singleton.mp ha']
        exact .none hs hi
    | publish l publishedAt =>
      obtain ⟨a, ha, ⟨-, rfl⟩ | ⟨-, rfl⟩⟩ := mem_updateRows.mp ha'
      · exact .kept ha (dirty_self _ _) (dirty_self _ _) (dirty_self _ _) (if_pos rfl)
      · exact hsame a ha
    | deleteArtifact l now =>
      obtain ⟨a, ha, ⟨-, rfl⟩ | ⟨-, rfl⟩⟩ := mem_updateRows.mp ha'
      · exact .kept ha (dirty_self _ _) (dirty_self _ _) (dirty_self _ _) (if_pos rfl)
      · exact hsame a ha
    | clear p =>
      obtain ⟨a, ha, ⟨-, rfl⟩ | ⟨-, rfl⟩⟩ := mem_updateRows.mp ha'
      · exact .none rfl rfl
      · exact hsame a ha
    | _ => exact hsame a' ha'
  | unsigned hl hs hi hm =>
    refine hsave _ _ hl ha' (.none ?_ ?_)
    · exact (dirty_loaded _ _).trans hs
    · exact (dirty_loaded _ _).trans hi
  | @submission l v k signature m hl hv hid hk hactive hproduct =>
    refine hsave _ _ hl ha' (.submitted hv ?_ hk hactive hproduct ?_ ?_)
    · exact hid.trans (dirty_loaded _ _).symm
    · exact dirty_loaded _ _
    · exact isSome_dirtyJson _ _

/-- A careful write keeps signatures in order. -/
theorem Careful.signaturesInOrder {node : Node} {d : Db} {w : Write}
    (h : Careful node d.toTables w) (hd : SignaturesInOrder d.toTables) :
    SignaturesInOrder (w.run d.toTables).2 := by
  intro a' ha'
  cases h.signatureFrom ha' with
  | none hs hi => exact signatureInOrder_of_none hs hi
  | kept ha hv hs hi hm => exact (hd _ ha).mono h.versionsStay h.keysGrow hv hs hi hm
  | @submitted v k hv hid hk hactive hproduct hi hm =>
    refine ⟨fun _ => ⟨by rw [hi]; rfl, hm⟩, fun keyId hkey => ?_⟩
    rw [hi] at hkey
    obtain ⟨v', hv', hid', hvs'⟩ := h.versionsStay v hv
    obtain ⟨k', hk', hks', hkid', -⟩ := h.keysGrow k hk
    exact ⟨v', hv', by rw [hid', hid], k', hk', by rw [hkid', Option.some.inj hkey],
      by rw [hks', hproduct, hvs']⟩

/-- In everything that is reached from a database without signatures, signatures are in order. -/
theorem Reaches.signaturesInOrder {node : Node} {d₀ d : Db} (h : Reaches node d₀ d)
    (hstart : Unsigned d₀) : SignaturesInOrder d.toTables := by
  refine h.keeps (I := fun d => SignaturesInOrder d.toTables) ?_ ?_ fun a ha =>
    signatureInOrder_of_none (hstart a ha).1 (hstart a ha).2.1
  · intro d d' w n hd hw happ
    rw [apply_tables happ]
    exact hw.signaturesInOrder hd
  · intro d d' _ hk hv ha hd a hmem
    rw [ha] at hmem
    refine (hd a hmem).mono (fun v hmem => ⟨v, by rwa [hv], rfl, rfl⟩) (fun k hmem => ⟨k, ?_, rfl, rfl,
      rfl⟩) rfl rfl rfl rfl
    rwa [hk]

end Reeva
