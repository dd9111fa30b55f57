import Mathlib.Data.List.TakeWhile
import Mathlib.Tactic.SplitIfs
import Reeva.Cms.SignaturePolicy

/-!
# Synchronising names

What `rebuildAllNames` does when it runs alone, over a storage whose objects can be read: it is the
function `synced` on every artifact that is not deleted (`rebuildAllNames_completes_iff`). A signature
should be cleared only where the name or the digest was wrong. The loop clears it wherever the object
can be read: `names_synchronised_iff` says for which artifacts that makes a difference.
-/

open Interleaving ReadCommitted

namespace Reeva

/-! ## What the loop makes of an artifact -/

/-- The file name that an artifact should have. -/
def rightName (node : Node) (a : LoadedArtifact) : Option String :=
  match a.version, a.platform, a.architecture with
  | some ⟨version, some software⟩, some platform, some architecture =>
    some (buildFileName node software.name platform.name architecture.name version
      (orElse (fileExtension a.artifact.fileName) "bin"))
  | _, _, _ => none

/-- The stored bytes of an artifact, where its provider and its object are there. -/
def storedBytes (t : Tables) (w : CmsWorld) (a : Artifact) : Option (List UInt8) :=
  (t.storageProvider a.storageProviderId).bind fun p => w.objects p.id a.storageKey

/-- An artifact with the digests of its object. -/
def Artifact.rehashed (node : Node) (content : List UInt8) (a : Artifact) : Artifact :=
  let hashes := ArtifactService.computeChecksums node content
  { a with
    checksum := some hashes.sha256, checksumMd5 := some hashes.md5
    checksumSha1 := some hashes.sha1, checksumSha256 := some hashes.sha256
    checksumSha512 := some hashes.sha512 }

/-- An artifact without its signature. -/
def Artifact.unsigned (a : Artifact) : Artifact :=
  { a with signature := none, signatureKeyId := none, signatureManifest := none }

/-- An artifact as it is saved: under its name, and with its digests where the object can be read. -/
def Artifact.rebuilt (node : Node) (name : String) (content : Option (List UInt8)) (a : Artifact) :
    Artifact :=
  (content.elim { a with fileName := name } fun bytes =>
    Artifact.rehashed node bytes { a with fileName := name }).unsigned

/-- Whether an artifact is saved. -/
def needsSave (name : String) (content : Option (List UInt8)) (a : Artifact) : Bool :=
  a.fileName ≠ name || content.isSome

/-- An artifact after the loop, over the relations and the objects that the loop reads. -/
def synced (node : Node) (t : Tables) (w : CmsWorld) (a : Artifact) : Artifact :=
  (rightName node (t.load a)).elim a fun name =>
    if needsSave name (storedBytes t w a) a then a.rebuilt node name (storedBytes t w a) else a

/-- How many of some artifacts are saved. -/
def savedCount (node : Node) (t : Tables) (w : CmsWorld) (as : List Artifact) : ℕ :=
  as.countP fun a => (rightName node (t.load a)).any fun name => needsSave name (storedBytes t w a) a

/-! ## Running alone over readable objects -/

/-- Statements and storages work: what is read fails only where there is no object. -/
def Legible : Guard cms
  | _, .ext (.getStream provider key), ch, σ =>
    (σ.world.objects provider key).isSome = true → ch = .ext .done
  | _, .ext _, ch, _ => ch = .ext .done
  | _, _, ch, _ => ch = .db .none

section rules

variable {d : Db} {w : CmsWorld} {α β : Type} {σ : CmsState}

theorem completes_select_idle {f : Tables → β} {k : β → Cms α} {r : Except (Failure String) α} :
    Completes Legible 0 (Cms.select f >>= k) ⟨Server.idle d, w⟩ r σ ↔
      Completes Legible 0 (k (f d.toTables)) ⟨Server.idle d, w⟩ r σ := by
  have hrun : cms.run 0 (.db (.query fun d : Db => f d.toTables)) (.db .none) ⟨Server.idle d, w⟩ =
      some (.ok (f d.toTables), ⟨Server.idle d, w⟩) := rfl
  constructor
  · intro h
    obtain ⟨ch, r₁, σ₁, rfl, hr, hrest⟩ := Completes.cons h
    obtain ⟨rfl, rfl⟩ := Prod.mk.inj (Option.some.inj (hrun.symm.trans hr))
    exact hrest
  · exact fun h => .step rfl hrun h

/-- A sequence of programs in a sequence. -/
theorem completes_assoc {γ : Type} {p : Cms γ} {f : γ → Cms β} {k : β → Cms α}
    {r : Except (Failure String) α} {σ' : CmsState} :
    Completes Legible 0 ((p >>= f) >>= k) σ' r σ ↔
      Completes Legible 0 (p >>= fun c => f c >>= k) σ' r σ :=
  iff_of_eq (congrArg (fun p => Completes Legible 0 p σ' r σ) (Prog.bind_assoc p f k))

/-- The artifacts of a query with their relations. -/
theorem completes_loadArtifacts {p : Tables → Artifact → Bool} {k : List LoadedArtifact → Cms α}
    {r : Except (Failure String) α} :
    Completes Legible 0 (Cms.loadArtifacts p >>= k) ⟨Server.idle d, w⟩ r σ ↔
      Completes Legible 0 (k ((d.artifacts.filter fun a =>
        p d.toTables a && a.deletedAt.isNone).map d.toTables.load)) ⟨Server.idle d, w⟩ r σ := by
  rw [← List.map_congr_left fun a ha => load_of_referenced ha]
  refine completes_assoc.trans (completes_select_idle.trans ?_)
  refine completes_assoc.trans (completes_select_idle.trans ?_)
  refine completes_assoc.trans (completes_select_idle.trans ?_)
  refine completes_assoc.trans (completes_select_idle.trans ?_)
  exact completes_assoc.trans completes_select_idle

theorem completes_exec_idle {wr : Write} {k : ℕ → Cms α} {r : Except (Failure String) α} {n : ℕ}
    {d' : Db} (happ : cmsSchema.apply wr d = some (n, d')) :
    Completes Legible 0 (Cms.exec wr >>= k) ⟨Server.idle d, w⟩ r σ ↔
      Completes Legible 0 (k n) ⟨Server.idle d', w⟩ r σ := by
  have hrun : cms.run 0 (.db (.write wr)) (.db .none) ⟨Server.idle d, w⟩ =
      some (.ok n, ⟨Server.idle d', w⟩) := by
    change Option.map _ (Server.exec (D := cmsSchema) 0 (.write wr) .none (Server.idle d)) = _
    rw [Server.exec_write_idle happ]
    rfl
  constructor
  · intro h
    obtain ⟨ch, r₁, σ₁, rfl, hr, hrest⟩ := Completes.cons h
    obtain ⟨rfl, rfl⟩ := Prod.mk.inj (Option.some.inj (hrun.symm.trans hr))
    exact hrest
  · exact fun h => .step rfl hrun h

theorem completes_resolve_idle {provider : Id} {k : Except String Unit → Cms α}
    {r : Except (Failure String) α} :
    Completes Legible 0 (Cms.call (.resolve provider) >>= k) ⟨Server.idle d, w⟩ r σ ↔
      Completes Legible 0 (k (.ok ())) ⟨Server.idle d, w⟩ r σ := by
  have hrun : cms.run 0 (.ext (.resolve provider)) (.ext .done) ⟨Server.idle d, w⟩ =
      some (.ok (), ⟨Server.idle d, w⟩) := rfl
  constructor
  · intro h
    obtain ⟨ch, r₁, σ₁, rfl, hr, hrest⟩ := Completes.cons h
    obtain ⟨rfl, rfl⟩ := Prod.mk.inj (Option.some.inj (hrun.symm.trans hr))
    exact hrest
  · exact fun h => .step rfl hrun h

/-- An object that is there is read. -/
theorem completes_getStream_some {provider : Id} {key : String} {content : List UInt8}
    (hc : w.objects provider key = some content) {k : Except String (List UInt8) → Cms α}
    {r : Except (Failure String) α} :
    Completes Legible 0 (Cms.call (.getStream provider key) >>= k) ⟨Server.idle d, w⟩ r σ ↔
      Completes Legible 0 (k (.ok content)) ⟨Server.idle d, w⟩ r σ := by
  have hrun : cms.run 0 (.ext (.getStream provider key)) (.ext .done) ⟨Server.idle d, w⟩ =
      some (.ok content, ⟨Server.idle d, w⟩) := by
    change Option.map _ (CmsCall.run 0 (.getStream provider key) .done w) = _
    simp only [CmsCall.run, hc]
    rfl
  constructor
  · intro h
    obtain ⟨ch, r₁, σ₁, hok, hr, hrest⟩ := Completes.cons h
    obtain rfl : ch = .ext .done := hok (by simp [hc])
    obtain ⟨rfl, rfl⟩ := Prod.mk.inj (Option.some.inj (hrun.symm.trans hr))
    exact hrest
  · exact fun h => .step (fun _ => rfl) hrun h

/-- An object that is not there cannot be read. -/
theorem completes_getStream_none {provider : Id} {key : String}
    (hc : w.objects provider key = none) {k : Except String (List UInt8) → Cms α}
    {r : Except (Failure String) α} :
    Completes Legible 0 (Cms.call (.getStream provider key) >>= k) ⟨Server.idle d, w⟩ r σ ↔
      ∃ m, Completes Legible 0 (k (.error m)) ⟨Server.idle d, w⟩ r σ := by
  constructor
  · intro h
    obtain ⟨ch, r₁, σ₁, -, hr, hrest⟩ := Completes.cons h
    cases ch with
    | db φ => cases hr
    | abort j => cases hr
    | ext o =>
      obtain ⟨⟨r₂, w'⟩, hcall, hpair⟩ := Option.map_eq_some_iff.mp
        (show Option.map _ (CmsCall.run 0 (.getStream provider key) o w) = _ from hr)
      obtain ⟨rfl, rfl⟩ := Prod.mk.inj hpair
      cases o with
      | failed m =>
        obtain ⟨rfl, rfl⟩ := Prod.mk.inj (Option.some.inj hcall)
        exact ⟨m, hrest⟩
      | _ => simp [CmsCall.run, hc] at hcall
  · rintro ⟨m, h⟩
    have hrun : cms.run 0 (.ext (.getStream provider key)) (.ext (.failed m))
        ⟨Server.idle d, w⟩ = some (.error m, ⟨Server.idle d, w⟩) := rfl
    exact .step (fun hsome => by simp [hc] at hsome) hrun h

end rules

/-! ## The loop -/

/-- An artifact keeps its key and its place in a channel. -/
def SamePlace (f : Artifact → Artifact) : Prop :=
  ∀ a, (f a).id = a.id ∧ ((f a).versionId, (f a).platformId, (f a).architectureId, (f a).channel) =
    (a.versionId, a.platformId, a.architectureId, a.channel)

/-- A database whose artifacts have changed in their places. -/
def Db.mapArtifacts (d : Db) (f : Artifact → Artifact) (hf : SamePlace f) : Db where
  toTables := { d.toTables with artifacts := d.artifacts.map f }
  valid :=
    { d.valid with
      artifactIds := by
        rw [List.map_map]
        have hid : (fun a : Artifact => a.id) ∘ f = fun a => a.id := funext fun a => (hf a).1
        rw [hid]
        exact d.valid.artifactIds
      systemChannels := by
        rw [List.map_map]
        have hplace : (fun a : Artifact => (a.versionId, a.platformId, a.architectureId, a.channel)) ∘
            f = fun a => (a.versionId, a.platformId, a.architectureId, a.channel) :=
          funext fun a => (hf a).2
        rw [hplace]
        exact d.valid.systemChannels }

/-- Databases with the same tables are the same. -/
theorem Db.ext_tables {d d' : Db} (h : d.toTables = d'.toTables) : d = d' := by
  cases d
  cases d'
  cases h
  rfl

variable (node : Node)

/-- A rebuilt artifact keeps its place. -/
theorem samePlace_rebuilt (name : String) (content : Option (List UInt8)) :
    SamePlace (Artifact.rebuilt node name content) := by
  intro a
  cases content with
  | none => exact ⟨rfl, rfl⟩
  | some bytes => exact ⟨rfl, rfl⟩

/-- An artifact keeps its place in the loop. -/
theorem samePlace_synced (t : Tables) (w : CmsWorld) : SamePlace (synced node t w) := by
  intro a
  unfold synced
  cases rightName node (t.load a) with
  | none => exact ⟨rfl, rfl⟩
  | some name =>
    rw [Option.elim_some]
    split_ifs
    · exact samePlace_rebuilt node name _ a
    · exact ⟨rfl, rfl⟩

/-- So does one of some artifacts only. -/
theorem SamePlace.ite {f : Artifact → Artifact} (hf : SamePlace f) (p : Artifact → Prop)
    [DecidablePred p] : SamePlace fun a => if p a then f a else a := by
  intro a
  dsimp only
  split_ifs
  · exact hf a
  · exact ⟨rfl, rfl⟩

/-- The save of a rebuilt artifact. -/
theorem apply_rebuilt {d : Db} {l : Artifact} (hl : l ∈ d.artifacts) (name : String)
    (content : Option (List UInt8)) :
    ∃ n, cmsSchema.apply (.saveArtifact l (l.rebuilt node name content)) d =
      some (n, d.mapArtifacts (fun a => if a.id = l.id then a.rebuilt node name content else a)
        ((samePlace_rebuilt node name content).ite _)) := by
  have hrow : ∀ a ∈ d.artifacts,
      (if decide (a.id = l.id) = true then l.saveOnto (l.rebuilt node name content) a else a) =
        if a.id = l.id then a.rebuilt node name content else a := by
    intro a ha
    by_cases hid : a.id = l.id
    · obtain rfl := List.inj_on_of_nodup_map d.valid.artifactIds ha hl hid
      have hmanifest : ∀ o : Option Json, dirtyJson o none o = none := by
        intro o
        cases o <;> simp [dirtyJson]
      rw [if_pos (by simp), if_pos rfl]
      cases content with
      | none => simp [Artifact.saveOnto, Artifact.rebuilt, Artifact.unsigned, dirty_loaded, hmanifest]
      | some bytes =>
        simp [Artifact.saveOnto, Artifact.rebuilt, Artifact.rehashed, Artifact.unsigned, dirty_loaded,
          hmanifest]
    · rw [if_neg (by simpa using hid), if_neg hid]
  have hrun : (Write.run d.toTables (.saveArtifact l (l.rebuilt node name content))).2 =
      (d.mapArtifacts (fun a => if a.id = l.id then a.rebuilt node name content else a)
        ((samePlace_rebuilt node name content).ite _)).toTables := by
    simp only [Write.run, updateRows, Prod.map_apply, id_eq, Db.mapArtifacts]
    rw [List.map_congr_left hrow]
  have hvalid := Db.valid (d.mapArtifacts (fun a => if a.id = l.id then a.rebuilt node name content
    else a) ((samePlace_rebuilt node name content).ite _))
  rw [← hrun] at hvalid
  refine ⟨_, (dif_pos hvalid).trans (congrArg some (Prod.ext rfl ?_))⟩
  exact Db.ext_tables hrun

section loop

open ArtifactService

variable {d : Db} {w : CmsWorld} {α : Type} {σ : CmsState}

/-- The digests of an object that is there. -/
theorem completes_readChecksums_some {provider : Option StorageProvider} {key : String}
    {content : List UInt8} (hc : (provider.bind fun p => w.objects p.id key) = some content)
    {f : Except (Failure String) Checksums → Cms α} {r : Except (Failure String) α} :
    Completes Legible 0 ((readChecksums node provider key).attempt >>= f) ⟨Server.idle d, w⟩ r σ ↔
      Completes Legible 0 (f (.ok (computeChecksums node content))) ⟨Server.idle d, w⟩ r σ := by
  obtain ⟨p, rfl, hobject⟩ := Option.bind_eq_some_iff.mp hc
  refine Iff.trans (completes_resolve_idle (k := fun resolved =>
    (Cms.orThrow resolved >>= fun _ => Cms.call (.getStream p.id key) >>= fun stream =>
      Cms.orThrow stream >>= fun content =>
        (pure (computeChecksums node content) : Cms Checksums)).attempt >>= f)) ?_
  exact completes_getStream_some hobject (k := fun stream =>
    (Cms.orThrow stream >>= fun content =>
      (pure (computeChecksums node content) : Cms Checksums)).attempt >>= f)

/-- The digests of an object that is not there. -/
theorem completes_readChecksums_none {provider : Option StorageProvider} {key : String}
    (hc : (provider.bind fun p => w.objects p.id key) = none)
    {f : Except (Failure String) Checksums → Cms α} {q : Cms α} (hf : ∀ e, f (.error e) = q)
    {r : Except (Failure String) α} :
    Completes Legible 0 ((readChecksums node provider key).attempt >>= f) ⟨Server.idle d, w⟩ r σ ↔
      Completes Legible 0 q ⟨Server.idle d, w⟩ r σ := by
  cases provider with
  | none => rw [← hf (.raised nullError)]; rfl
  | some p =>
    refine Iff.trans (completes_resolve_idle (k := fun resolved =>
      (Cms.orThrow resolved >>= fun _ => Cms.call (.getStream p.id key) >>= fun stream =>
        Cms.orThrow stream >>= fun content =>
          (pure (computeChecksums node content) : Cms Checksums)).attempt >>= f)) ?_
    refine Iff.trans (completes_getStream_none hc (k := fun stream =>
      (Cms.orThrow stream >>= fun content =>
        (pure (computeChecksums node content) : Cms Checksums)).attempt >>= f)) ?_
    have hraised : ∀ m, ((Cms.orThrow (.error m) >>= fun content =>
        (pure (computeChecksums node content) : Cms Checksums)).attempt >>= f) = q := fun m =>
      hf (.raised m)
    simp only [hraised, exists_const]

/-- The end of the body of the loop. -/
theorem completes_save {needs : Bool} {l n : Artifact} {m : ℕ} {d' : Db}
    (happ : cmsSchema.apply (.saveArtifact l n) d = some (m, d')) {k : ℕ → Cms α}
    {r : Except (Failure String) α} :
    Completes Legible 0
        ((if needs then do
          let _ ← Cms.exec (.saveArtifact l n)
          return 1
        else return 0) >>= k) ⟨Server.idle d, w⟩ r σ ↔
      if needs = true then Completes Legible 0 (k 1) ⟨Server.idle d', w⟩ r σ
      else Completes Legible 0 (k 0) ⟨Server.idle d, w⟩ r σ := by
  cases needs with
  | false => exact Iff.rfl
  | true =>
    have hassoc : ((Cms.exec (.saveArtifact l n) >>= fun _ => (pure 1 : Cms ℕ)) >>= k) =
        Cms.exec (.saveArtifact l n) >>= fun _ => k 1 := Prog.bind_assoc _ _ _
    rw [if_pos rfl, if_pos rfl, hassoc]
    exact completes_exec_idle happ

/-- The body of the loop saves an artifact where it has another name or its object can be read. -/
theorem completes_rebuildNames {a : LoadedArtifact} {name : String}
    (hname : rightName node a = some name) (ha : a.artifact ∈ d.artifacts)
    {provider : Option StorageProvider} {content : Option (List UInt8)}
    (hc : (provider.bind fun p => w.objects p.id a.artifact.storageKey) = content) {k : ℕ → Cms α}
    {r : Except (Failure String) α} :
    Completes Legible 0 (rebuildNames node a provider >>= k) ⟨Server.idle d, w⟩ r σ ↔
      if needsSave name content a.artifact = true then
        Completes Legible 0 (k 1) ⟨Server.idle (d.mapArtifacts
          (fun b => if b.id = a.artifact.id then b.rebuilt node name content else b)
          ((samePlace_rebuilt node name content).ite _)), w⟩ r σ
      else Completes Legible 0 (k 0) ⟨Server.idle d, w⟩ r σ := by
  obtain ⟨artifact, version, platform, architecture⟩ := a
  unfold rightName at hname
  split at hname
  · rename_i v s p q hversion hplatform harchitecture
    subst hversion hplatform harchitecture
    obtain rfl := Option.some.inj hname
    let name := buildFileName node s.name p.name q.name v
      (orElse (fileExtension artifact.fileName) "bin")
    obtain ⟨m, happ⟩ := apply_rebuilt node ha name content
    refine Iff.trans (iff_of_eq (congrArg (fun p => Completes Legible 0 p _ _ _)
      (Prog.bind_assoc _ _ k))) ?_
    cases content with
    | none =>
      refine Iff.trans (completes_readChecksums_none node hc (q := (if needsSave name none artifact
        then do
          let _ ← Cms.exec (.saveArtifact artifact (artifact.rebuilt node name none))
          return 1
        else return 0) >>= k) fun _ => rfl) ?_
      exact completes_save happ
    | some bytes =>
      refine Iff.trans (completes_readChecksums_some node hc) ?_
      exact completes_save happ
  · cases hname

/-- An artifact without one of its relations stops the loop. -/
theorem rebuildNames_of_none {a : LoadedArtifact} (h : rightName node a = none)
    (provider : Option StorageProvider) : rebuildNames node a provider = Cms.raise nullError := by
  obtain ⟨artifact, version, platform, architecture⟩ := a
  unfold rightName at h
  split at h
  · cases h
  · rename_i hrel
    unfold rebuildNames
    split
    · rename_i v s p q hversion hplatform harchitecture
      exact (hrel v s p q hversion hplatform harchitecture).elim
    · rfl

/-- What the loop does to an artifact under its name. -/
theorem synced_of_name {t : Tables} {a : Artifact} {name : String}
    (h : rightName node (t.load a) = some name) :
    synced node t w a =
      if needsSave name (storedBytes t w a) a then a.rebuilt node name (storedBytes t w a) else a := by
  unfold synced
  rw [h]
  rfl

/-- A change of some of the artifacts. -/
def onIds (ids : List Id) (f : Artifact → Artifact) (a : Artifact) : Artifact :=
  if a.id ∈ ids then f a else a

theorem SamePlace.onIds {f : Artifact → Artifact} (hf : SamePlace f) (ids : List Id) :
    SamePlace (onIds ids f) := hf.ite _

/-- The database after the loop has gone through some artifacts. -/
def Db.syncedOn (t : Tables) (w : CmsWorld) (d : Db) (ids : List Id) : Db :=
  d.mapArtifacts (onIds ids (synced node t w)) ((samePlace_synced node t w).onIds _)

/-- Databases that differ in their artifacts only are the same where those are. -/
theorem eq_of_artifacts {d d' : Db} (h : d'.toTables = { d.toTables with artifacts := d'.artifacts })
    (ha : d'.artifacts = d.artifacts) : d' = d := by
  refine Db.ext_tables ?_
  rw [h, ha]

/-- Before the loop nothing has changed. -/
theorem syncedOn_nil (t : Tables) (d : Db) : d.syncedOn node t w [] = d := by
  refine eq_of_artifacts rfl ?_
  change d.artifacts.map (onIds [] (synced node t w)) = d.artifacts
  exact (List.map_congr_left fun a _ => if_neg List.not_mem_nil).trans (List.map_id' _)

/-- The loop goes on from an artifact that it has saved. -/
theorem syncedOn_saved {t : Tables} {f : Artifact → Artifact} {hf : SamePlace f} {id : Id}
    {ids : List Id} (hid : id ∉ ids)
    (h : ∀ b ∈ d.artifacts, f b = if b.id = id then synced node t w b else b) :
    (d.mapArtifacts f hf).syncedOn node t w ids = d.syncedOn node t w (id :: ids) := by
  refine Db.ext_tables (congrArg (fun artifacts => ({ d.toTables with artifacts } : Tables)) ?_)
  change (d.artifacts.map f).map _ = _
  rw [List.map_map]
  refine List.map_congr_left fun b hb => ?_
  rw [Function.comp_apply, h b hb]
  unfold onIds
  by_cases hb' : b.id = id
  · rw [if_pos hb', (samePlace_synced node t w b).1, hb', if_neg hid, if_pos (.head _)]
  · have hiff : b.id ∈ id :: ids ↔ b.id ∈ ids := by
      rw [List.mem_cons, or_iff_right hb']
    rw [if_neg hb']
    by_cases hmem : b.id ∈ ids
    · rw [if_pos hmem, if_pos (hiff.mpr hmem)]
    · rw [if_neg hmem, if_neg (hiff.not.mpr hmem)]

/-- The loop goes on from an artifact that it has left as it was. -/
theorem syncedOn_kept {t : Tables} {id : Id} {ids : List Id} (hid : id ∉ ids)
    (h : ∀ b ∈ d.artifacts, b.id = id → synced node t w b = b) :
    d.syncedOn node t w ids = d.syncedOn node t w (id :: ids) := by
  have hsame : d.mapArtifacts (fun b => b) (fun _ => ⟨rfl, rfl⟩) = d := by
    refine eq_of_artifacts rfl ?_
    exact List.map_id' _
  calc d.syncedOn node t w ids
    _ = (d.mapArtifacts (fun b => b) fun _ => ⟨rfl, rfl⟩).syncedOn node t w ids := by rw [hsame]
    _ = d.syncedOn node t w (id :: ids) := syncedOn_saved node hid fun b hb => by
      split_ifs with he
      · exact (h b hb he).symm
      · rfl

/-- The artifacts that the loop comes to: it stops at one without its relations. -/
def reached (t : Tables) (as : List Artifact) : List Artifact :=
  as.takeWhile fun a => (rightName node (t.load a)).isSome

/-- What the loop returns. -/
def loopResult (t : Tables) (w : CmsWorld) (as : List Artifact) (count : ℕ) :
    Except (Failure String) ℕ :=
  if as.all fun a => (rightName node (t.load a)).isSome then .ok (count + savedCount node t w as)
  else .error (.raised nullError)

/-- The loop has one result, and it has changed one by one the artifacts that it came to. -/
theorem completes_rebuildLoop {t : Tables} {providers : List StorageProvider} (as : List Artifact) :
    ∀ {d : Db} {count : ℕ} {r : Except (Failure String) ℕ}, (as.map (·.id)).Nodup →
      (∀ a ∈ as, a ∈ d.artifacts) →
      (∀ a ∈ as, providers.find? (·.id = a.storageProviderId) =
        t.storageProvider a.storageProviderId) →
      (Completes Legible 0 (rebuildLoop node providers (as.map t.load) count) ⟨Server.idle d, w⟩
          r σ ↔
        r = loopResult node t w as count ∧
          σ = ⟨Server.idle (d.syncedOn node t w ((reached node t as).map (·.id))), w⟩) := by
  induction as with
  | nil =>
    intro d count r _ _ _
    have hreached : (reached node t []).map (·.id) = [] := rfl
    rw [hreached, syncedOn_nil]
    exact completes_ret
  | cons a as ih =>
    intro d count r hids hmem hproviders
    rw [List.map_cons, List.nodup_cons] at hids
    have hmem' : ∀ b ∈ as, b ∈ d.artifacts := fun b hb => hmem b (.tail _ hb)
    have hproviders' : ∀ b ∈ as, providers.find? (·.id = b.storageProviderId) =
        t.storageProvider b.storageProviderId := fun b hb => hproviders b (.tail _ hb)
    have hrest : ∀ b ∈ as, b.id ≠ a.id := fun b hb he =>
      hids.1 (List.mem_map.mpr ⟨b, hb, he⟩)
    have hsame : ∀ b ∈ d.artifacts, b.id = a.id → b = a := fun b hb he =>
      List.inj_on_of_nodup_map d.valid.artifactIds hb (hmem a (.head _)) he
    cases hname : rightName node (t.load a) with
    | none =>
      -- No name can be built: the loop throws here.
      change Completes Legible 0 (rebuildNames node (t.load a) _ >>= _) _ _ _ ↔ _
      -- The loop reaches this artifact and counts it if it saves it.
      have hreached : (reached node t (a :: as)).map (·.id) = [] := by
        unfold reached
        rw [List.takeWhile_cons, hname]
        rfl
      have hresult : loopResult node t w (a :: as) count = .error (.raised nullError) := by
        unfold loopResult
        rw [List.all_cons, hname]
        rfl
      rw [rebuildNames_of_none node hname, hreached, hresult, syncedOn_nil]
      exact completes_fail
    | some name =>
      have hc : ((providers.find? (·.id = a.storageProviderId)).bind fun p =>
          w.objects p.id a.storageKey) = storedBytes t w a := by
        rw [hproviders a (.head _)]
        rfl
      refine Iff.trans (completes_rebuildNames node (a := t.load a) hname (hmem a (.head _)) hc
        (k := fun saved => rebuildLoop node providers (as.map t.load) (count + saved))) ?_
      have hsynced := synced_of_name node (w := w) hname
      change (if needsSave name (storedBytes t w a) a = true then _ else _) ↔ _
      have hreached : (reached node t (a :: as)).map (·.id) =
          a.id :: (reached node t as).map (·.id) := by
        unfold reached
        rw [List.takeWhile_cons, hname]
        rfl
      have hresult : loopResult node t w (a :: as) count = loopResult node t w as
          (count + if needsSave name (storedBytes t w a) a = true then 1 else 0) := by
        unfold loopResult savedCount
        rw [List.all_cons, List.countP_cons, hname, Option.any_some, Option.isSome_some,
          Bool.true_and]
        congr 2
        omega
      have hnot : a.id ∉ (reached node t as).map (·.id) := fun hin =>
        hids.1 (((List.takeWhile_sublist _).map _).subset hin)
      rw [hreached, hresult]
      -- Saved or not, the others are still as they were loaded.
      by_cases hneeds : needsSave name (storedBytes t w a) a = true
      · rw [if_pos hneeds] at hsynced ⊢
        rw [if_pos hneeds, ← syncedOn_saved node hnot fun b hb => ?_]
        · refine ih hids.2 (fun b hb => ?_) hproviders'
          exact List.mem_map.mpr ⟨b, hmem' b hb, if_neg (hrest b hb)⟩
        · change (if b.id = a.id then b.rebuilt node name (storedBytes t w a) else b) = _
          by_cases he : b.id = a.id
          · obtain rfl := hsame b hb he
            rw [if_pos rfl, if_pos rfl, hsynced]
          · rw [if_neg he, if_neg he]
      · rw [if_neg hneeds] at hsynced ⊢
        rw [if_neg hneeds, ← syncedOn_kept node hnot fun b hb he => ?_]
        · exact ih hids.2 hmem' hproviders'
        · obtain rfl := hsame b hb he
          exact hsynced

/-- The artifacts that are not deleted, in the order of the table. -/
def liveArtifacts (t : Tables) : List Artifact := t.artifacts.filter (·.deletedAt.isNone)

/-- The artifacts that `rebuildAllNames` comes to. -/
def visited (t : Tables) : List Artifact := reached node t (liveArtifacts t)

/-- The database after `rebuildAllNames`. -/
def Db.namesRebuilt (d : Db) (w : CmsWorld) : Db :=
  d.syncedOn node d.toTables w ((visited node d.toTables).map (·.id))

/-- `rebuildAllNames` has one result, and it has changed the artifacts that it came to. -/
theorem completes_rebuildAllNames {d : Db} {r : Except (Failure String) ℕ} :
    Completes Legible 0 (rebuildAllNames node) ⟨Server.idle d, w⟩ r σ ↔
      r = loopResult node d.toTables w (liveArtifacts d.toTables) 0 ∧
        σ = ⟨Server.idle (d.namesRebuilt node w), w⟩ := by
  have hlive : liveArtifacts d.toTables =
      d.artifacts.filter fun a => true && a.deletedAt.isNone := by
    simp only [Bool.true_and]
    rfl
  have hproviders : ∀ a ∈ liveArtifacts d.toTables,
      (d.storageProviders.filter fun p =>
        ((liveArtifacts d.toTables).any (·.storageProviderId = p.id)) && p.deletedAt.isNone).find?
          (·.id = a.storageProviderId) = d.toTables.storageProvider a.storageProviderId :=
    fun a ha => find?_referenced ha
  have hids : ((liveArtifacts d.toTables).map (·.id)).Nodup :=
    d.valid.artifactIds.sublist (List.filter_sublist.map _)
  refine Iff.trans ?_ (completes_rebuildLoop node (liveArtifacts d.toTables) hids
    (fun a ha => (List.mem_filter.mp ha).1) hproviders)
  refine completes_loadArtifacts.trans (completes_select_idle.trans ?_)
  rw [← hlive]
  simp only [List.any_map]
  exact Iff.rfl

end loop

/-! ## What should change -/

/-- An artifact whose name and digest are right already. -/
def Settled (t : Tables) (w : CmsWorld) (a : Artifact) : Prop :=
  rightName node (t.load a) = some a.fileName ∧
    ∃ bytes, storedBytes t w a = some bytes ∧
      a.checksumSha256 = some (ArtifactService.computeChecksums node bytes).sha256

/-- A signature is lost only with the name or the digest. -/
def ClearsOnlyChanged (d d' : Db) : Prop :=
  ∀ a ∈ d.artifacts, ∀ b ∈ d'.artifacts, b.id = a.id →
    ¬(b.signature = a.signature ∧ b.signatureKeyId = a.signatureKeyId ∧
      b.signatureManifest = a.signatureManifest) →
    b.fileName ≠ a.fileName ∨ b.checksumSha256 ≠ a.checksumSha256

/-- A public signed release whose name and bytes are right stays public. -/
def KeepsReleases (w : CmsWorld) (d d' : Db) : Prop :=
  ∀ softwareId, ∀ a ∈ publicQuery d.toTables (some softwareId), a.signature.isSome = true →
    Settled node d.toTables w a → ∃ b ∈ publicQuery d'.toTables (some softwareId), b.id = a.id

section synced

variable {node} {d : Db} {w : CmsWorld}

/-- The artifacts that the loop comes to are in the table, and have a right name. -/
theorem mem_visited {t : Tables} {a : Artifact} (h : a ∈ visited node t) :
    a ∈ t.artifacts ∧ ∃ name, rightName node (t.load a) = some name :=
  ⟨(List.mem_filter.mp ((List.takeWhile_sublist _).subset h)).1,
    Option.isSome_iff_exists.mp
      (List.mem_takeWhile_imp (p := fun a => (rightName node (t.load a)).isSome) h)⟩

/-- The rows after the loop. -/
theorem mem_namesRebuilt {b : Artifact} :
    b ∈ (d.namesRebuilt node w).artifacts ↔
      ∃ a ∈ d.artifacts,
        (a ∈ visited node d.toTables → b = synced node d.toTables w a) ∧
        (a ∉ visited node d.toTables → b = a) := by
  have hids : ∀ a ∈ d.artifacts,
      (a.id ∈ (visited node d.toTables).map (·.id) ↔
        a ∈ visited node d.toTables) := by
    intro a ha
    constructor
    · intro h
      obtain ⟨b, hb, hid⟩ := List.mem_map.mp h
      obtain rfl := List.inj_on_of_nodup_map d.valid.artifactIds (mem_visited hb).1 ha hid
      exact hb
    · exact fun h => List.mem_map.mpr ⟨a, h, rfl⟩
  refine List.mem_map.trans (exists_congr fun a => and_congr_right fun ha => ?_)
  unfold onIds
  by_cases hmem : a ∈ visited node d.toTables
  · rw [if_pos ((hids a ha).mpr hmem)]
    simp only [hmem, forall_const, not_true_eq_false, false_imp_iff, and_true]
    exact eq_comm
  · rw [if_neg ((hids a ha).not.mpr hmem)]
    simp only [hmem, false_imp_iff, not_false_eq_true, forall_const, true_and]
    exact eq_comm

/-- A settled artifact loses its signature, and keeps its name and its digest. -/
theorem synced_settled {a : Artifact} (h : Settled node d.toTables w a) :
    ∃ bytes, synced node d.toTables w a = a.rebuilt node a.fileName (some bytes) ∧
      (synced node d.toTables w a).checksumSha256 = a.checksumSha256 := by
  obtain ⟨hname, bytes, hbytes, hsum⟩ := h
  have hsynced := synced_of_name node (w := w) hname
  rw [hbytes, if_pos (by simp [needsSave])] at hsynced
  refine ⟨bytes, hsynced, ?_⟩
  rw [hsynced, hsum]
  rfl

/-- An artifact whose signature goes while its name and its digest stay was settled. -/
theorem settled_of_kept {a : Artifact} {name : String}
    (hname : rightName node (d.toTables.load a) = some name)
    (hfile : (synced node d.toTables w a).fileName = a.fileName)
    (hsum : (synced node d.toTables w a).checksumSha256 = a.checksumSha256)
    (hne : synced node d.toTables w a ≠ a) : Settled node d.toTables w a := by
  have hsynced := synced_of_name node (w := w) hname
  by_cases hneeds : needsSave name (storedBytes d.toTables w a) a = true
  · rw [if_pos hneeds] at hsynced
    rw [hsynced] at hfile hsum
    cases hbytes : storedBytes d.toTables w a with
    | none =>
      rw [hbytes] at hneeds hfile
      have hnot : a.fileName ≠ name := by simpa [needsSave] using hneeds
      exact absurd hfile.symm hnot
    | some bytes =>
      rw [hbytes] at hfile hsum
      exact ⟨hname.trans (congrArg some hfile), bytes, hbytes, hsum.symm⟩
  · rw [if_neg hneeds] at hsynced
    exact absurd hsynced hne

/-- The loop loses the signatures of what was right only where nothing right had one. -/
theorem clearsOnlyChanged_iff :
    ClearsOnlyChanged d (d.namesRebuilt node w) ↔
      ∀ a ∈ visited node d.toTables, Settled node d.toTables w a →
        a.signature = none ∧ a.signatureKeyId = none ∧ a.signatureManifest = none := by
  constructor
  · intro h a ha hsettled
    obtain ⟨bytes, hsynced, hsum⟩ := synced_settled hsettled
    have hmem : synced node d.toTables w a ∈ (d.namesRebuilt node w).artifacts :=
      mem_namesRebuilt.mpr ⟨a, (mem_visited ha).1, fun _ => rfl, fun hnot => absurd ha hnot⟩
    by_contra hsigned
    have hchanged := h a (mem_visited ha).1 _ hmem (samePlace_synced node d.toTables w a).1 (by
      rw [hsynced]
      exact fun heq => hsigned ⟨heq.1.symm, heq.2.1.symm, heq.2.2.symm⟩)
    rw [hsum, hsynced] at hchanged
    exact hchanged.elim (fun hne => hne rfl) fun hne => hne rfl
  · intro h a ha b hb hid hchanged
    obtain ⟨a', ha', hreached, hkept⟩ := mem_namesRebuilt.mp hb
    by_cases hmem : a' ∈ visited node d.toTables
    · obtain rfl := hreached hmem
      obtain rfl := List.inj_on_of_nodup_map d.valid.artifactIds ha' ha
        ((samePlace_synced node d.toTables w a').1.symm.trans hid)
      by_contra hsame
      rw [not_or, not_not, not_not] at hsame
      obtain ⟨name, hname⟩ := (mem_visited hmem).2
      have hsettled := settled_of_kept hname hsame.1 hsame.2 fun heq => hchanged (by
        rw [heq]
        exact ⟨rfl, rfl, rfl⟩)
      obtain ⟨bytes, hsynced, -⟩ := synced_settled hsettled
      obtain ⟨hs, hi, hm⟩ := h a' hmem hsettled
      rw [hsynced, hs, hi, hm] at hchanged
      exact hchanged ⟨rfl, rfl, rfl⟩
    · obtain rfl := hkept hmem
      obtain rfl := List.inj_on_of_nodup_map d.valid.artifactIds ha' ha hid
      exact absurd ⟨rfl, rfl, rfl⟩ hchanged

/-- The loop keeps public what was right only where no policy asks for its signature. -/
theorem keepsReleases_iff :
    KeepsReleases node w d (d.namesRebuilt node w) ↔
      ∀ softwareId, ∀ a ∈ publicQuery d.toTables (some softwareId),
        a ∈ visited node d.toTables → Settled node d.toTables w a →
          ∀ s ∈ d.software, s.id = softwareId → s.requireSignedUpdates = false := by
  constructor
  · intro h softwareId a hpublic hmem hsettled s hs hsid
    by_contra hrequired
    rw [Bool.not_eq_false] at hrequired
    obtain ⟨ha, hoffered, v, s', hrel, hpolicy⟩ := mem_publicQuery.mp hpublic
    obtain rfl := List.inj_on_of_nodup_map d.valid.softwareIds hs hrel.software
      (hsid.trans hrel.softwareId.symm)
    -- The policy lets only signed artifacts through, so the loop has to keep this one public.
    have hsigned : a.signature.isSome = true := by
      simp only [signaturePolicy, hrequired, Bool.not_true, Bool.false_or, List.any_eq_true,
        Bool.and_eq_true] at hpolicy
      obtain ⟨k, hk, hkey⟩ := hpolicy
      exact hkey.1.2
    obtain ⟨b, hb, hid⟩ := h softwareId a hpublic hsigned hsettled
    obtain ⟨hb', -, v', s', hrel', hpolicy'⟩ := mem_publicQuery.mp hb
    obtain rfl := List.inj_on_of_nodup_map d.valid.softwareIds hs hrel'.software
      (hsid.trans hrel'.softwareId.symm)
    -- The artifact that is public afterwards is this one, and it has lost its signature.
    obtain ⟨a', ha', hreached, hkept⟩ := mem_namesRebuilt.mp hb'
    have hid' : b.id = a'.id := by
      by_cases hmem' : a' ∈ visited node d.toTables
      · rw [hreached hmem']
        exact (samePlace_synced node d.toTables w a').1
      · rw [hkept hmem']
    obtain rfl := List.inj_on_of_nodup_map d.valid.artifactIds ha' ha (hid'.symm.trans hid)
    obtain ⟨bytes, hsynced, -⟩ := synced_settled hsettled
    rw [hreached hmem, hsynced] at hpolicy'
    simp only [signaturePolicy, hrequired, Bool.not_true, Bool.false_or, List.any_eq_true,
      Bool.and_eq_true] at hpolicy'
    obtain ⟨k, hk, hkey⟩ := hpolicy'
    cases hkey.1.2
  · intro h softwareId a hpublic _ hsettled
    obtain ⟨ha, hoffered, v, s, hrel, hpolicy⟩ := mem_publicQuery.mp hpublic
    -- An artifact without the policy stays public unsigned; one that is not visited is not changed.
    by_cases hmem : a ∈ visited node d.toTables
    · have hrequired := h softwareId a hpublic hmem hsettled s hrel.software hrel.softwareId
      obtain ⟨bytes, hsynced, -⟩ := synced_settled hsettled
      refine ⟨_, mem_publicQuery.mpr ⟨mem_namesRebuilt.mpr ⟨a, ha, fun _ => rfl, fun hnot =>
        absurd hmem hnot⟩, ?_, v, s, ?_, ?_⟩, (samePlace_synced node d.toTables w a).1⟩
      · rw [hsynced]
        exact ⟨hoffered.live, hoffered.platform, hoffered.architecture, hoffered.provider,
          hoffered.published, hoffered.unarchived⟩
      · rw [hsynced]
        exact ⟨hrel.version, hrel.versionId, hrel.live, hrel.versionActive, hrel.software,
          hrel.product, hrel.softwareActive, hrel.softwareId⟩
      · simp only [signaturePolicy, hrequired, Bool.not_false, Bool.true_or]
    · refine ⟨a, mem_publicQuery.mpr ⟨mem_namesRebuilt.mpr ⟨a, ha, fun hin => absurd hin hmem,
        fun _ => rfl⟩, ?_, v, s, ?_, hpolicy⟩, rfl⟩
      · exact ⟨hoffered.live, hoffered.platform, hoffered.architecture, hoffered.provider,
          hoffered.published, hoffered.unarchived⟩
      · exact ⟨hrel.version, hrel.versionId, hrel.live, hrel.versionActive, hrel.software,
          hrel.product, hrel.softwareActive, hrel.softwareId⟩

/-- The name that an artifact should have depends on its relations and on its name. -/
theorem rightName_congr {t : Tables} {a b : Artifact} (hfile : b.fileName = a.fileName)
    (hversion : b.versionId = a.versionId) (hplatform : b.platformId = a.platformId)
    (harchitecture : b.architectureId = a.architectureId) :
    rightName node (t.load b) = rightName node (t.load a) := by
  unfold rightName Tables.load
  simp only [hfile, hversion, hplatform, harchitecture]

/-- What the loop keeps of an artifact under its name, besides its place. -/
theorem synced_kept {a : Artifact} {name : String}
    (hname : rightName node (d.toTables.load a) = some name) :
    (synced node d.toTables w a).fileName = name ∧
      (synced node d.toTables w a).storageKey = a.storageKey ∧
      (synced node d.toTables w a).storageProviderId = a.storageProviderId ∧
      (synced node d.toTables w a).deletedAt = a.deletedAt := by
  rw [synced_of_name node hname]
  by_cases hneeds : needsSave name (storedBytes d.toTables w a) a = true
  · rw [if_pos hneeds]
    cases storedBytes d.toTables w a with
    | none => exact ⟨rfl, rfl, rfl, rfl⟩
    | some bytes => exact ⟨rfl, rfl, rfl, rfl⟩
  · rw [if_neg hneeds]
    have hfile : a.fileName = name := by
      by_contra hne
      exact hneeds (by simp [needsSave, hne])
    exact ⟨hfile, rfl, rfl, rfl⟩

/-- The name of an artifact is stable when rebuilding it once more gives the same name. -/
def StableName (node : Node) (t : Tables) (a : Artifact) : Prop :=
  ∀ name, rightName node (t.load a) = some name →
    rightName node (t.load { a with fileName := name }) = some name

/-- A synchronised artifact is left as it is where it cannot be read and its name is stable. -/
theorem needsSave_synced {a : Artifact} {name : String}
    (hname : rightName node (d.toTables.load a) = some name) :
    (∃ name', rightName node (d.toTables.load (synced node d.toTables w a)) = some name' ∧
      (needsSave name' (storedBytes d.toTables w (synced node d.toTables w a))
        (synced node d.toTables w a) = false ↔
        storedBytes d.toTables w a = none ∧ StableName node d.toTables a)) := by
  obtain ⟨hfile, hkey, hprovider, -⟩ := synced_kept (w := w) hname
  have hplace := (samePlace_synced node d.toTables w a).2
  have hbytes : storedBytes d.toTables w (synced node d.toTables w a) =
      storedBytes d.toTables w a := by
    unfold storedBytes
    rw [hkey, hprovider]
  have hright : rightName node (d.toTables.load (synced node d.toTables w a)) =
      rightName node (d.toTables.load { a with fileName := name }) :=
    rightName_congr hfile (Prod.mk.inj hplace).1 (Prod.mk.inj (Prod.mk.inj hplace).2).1
      (Prod.mk.inj (Prod.mk.inj (Prod.mk.inj hplace).2).2).1
  have hsome : ∃ name', rightName node (d.toTables.load { a with fileName := name }) =
      some name' := by
    unfold rightName Tables.load at hname ⊢
    dsimp only at hname ⊢
    split at hname
    · exact ⟨_, rfl⟩
    · cases hname
  obtain ⟨name', hname'⟩ := hsome
  refine ⟨name', hright.trans hname', ?_⟩
  have hstable : StableName node d.toTables a ↔ name' = name := by
    unfold StableName
    rw [hname]
    simp only [Option.some.injEq, forall_eq', hname']
  rw [hstable, hbytes]
  unfold needsSave
  rw [hfile, Bool.or_eq_false_iff, decide_eq_false_iff_not, not_not, Option.isSome_eq_false_iff,
    Option.isNone_iff_eq_none, and_comm, eq_comm (a := name)]

/-- A loop that returns has come to every artifact. -/
theorem visited_of_returns {n : ℕ}
    (h : loopResult node d.toTables w (liveArtifacts d.toTables) 0 = .ok n) :
    visited node d.toTables = liveArtifacts d.toTables := by
  unfold loopResult at h
  split_ifs at h with hall
  exact List.takeWhile_eq_self_iff.mpr fun a ha => List.all_eq_true.mp hall a ha

/-- The artifacts that a second run finds. -/
theorem liveArtifacts_namesRebuilt {n : ℕ}
    (h : loopResult node d.toTables w (liveArtifacts d.toTables) 0 = .ok n) :
    liveArtifacts (d.namesRebuilt node w).toTables =
      (visited node d.toTables).map (synced node d.toTables w) := by
  have hvisited := visited_of_returns h
  have hlive : ∀ a ∈ liveArtifacts d.toTables, onIds ((visited node d.toTables).map (·.id))
      (synced node d.toTables w) a = synced node d.toTables w a := fun a ha =>
    if_pos (List.mem_map.mpr ⟨a, hvisited ▸ ha, rfl⟩)
  have hfilter : ∀ a ∈ d.artifacts, ((fun b : Artifact => b.deletedAt.isNone) ∘
      onIds ((visited node d.toTables).map (·.id)) (synced node d.toTables w)) a =
        a.deletedAt.isNone := by
    intro a ha
    unfold Function.comp onIds
    split_ifs with hin
    · obtain ⟨a', ha', hid⟩ := List.mem_map.mp hin
      obtain rfl := List.inj_on_of_nodup_map d.valid.artifactIds (mem_visited ha').1 ha hid
      obtain ⟨name, hname⟩ := (mem_visited ha').2
      exact congrArg Option.isNone (synced_kept hname).2.2.2
    · rfl
  calc liveArtifacts (d.namesRebuilt node w).toTables
    _ = (liveArtifacts d.toTables).map
        (onIds ((visited node d.toTables).map (·.id)) (synced node d.toTables w)) := by
      refine List.filter_map.trans (congrArg (List.map _) ?_)
      exact List.filter_congr hfilter
    _ = (liveArtifacts d.toTables).map (synced node d.toTables w) := List.map_congr_left hlive
    _ = (visited node d.toTables).map (synced node d.toTables w) := by rw [hvisited]

/-- A run that saves nothing changes nothing. -/
theorem namesRebuilt_of_saves_nothing
    (h : ∀ b ∈ liveArtifacts d.toTables, ∀ name, rightName node (d.toTables.load b) = some name →
      needsSave name (storedBytes d.toTables w b) b = false) : d.namesRebuilt node w = d := by
  refine eq_of_artifacts rfl ?_
  refine (List.map_congr_left fun b hb => ?_).trans (List.map_id' _)
  unfold onIds
  split_ifs with hin
  · obtain ⟨b', hb', hid⟩ := List.mem_map.mp hin
    obtain rfl := List.inj_on_of_nodup_map d.valid.artifactIds (mem_visited hb').1 hb hid
    obtain ⟨name, hname⟩ := (mem_visited hb').2
    rw [synced_of_name node hname, h b' ((List.takeWhile_sublist _).subset hb') name hname]
    rfl
  · rfl

/-- After a run that returned, a second one returns 0 and changes nothing only where it could read
nothing and no name changes. -/
theorem second_run_iff {n : ℕ}
    (h : loopResult node d.toTables w (liveArtifacts d.toTables) 0 = .ok n) :
    Completes Legible 0 (ArtifactService.rebuildAllNames node)
        ⟨Server.idle (d.namesRebuilt node w), w⟩ (.ok 0)
        ⟨Server.idle (d.namesRebuilt node w), w⟩ ↔
      ∀ a ∈ visited node d.toTables,
        storedBytes d.toTables w a = none ∧ StableName node d.toTables a := by
  have hlive := liveArtifacts_namesRebuilt h
  have hresult : loopResult node (d.namesRebuilt node w).toTables w
      (liveArtifacts (d.namesRebuilt node w).toTables) 0 =
        .ok (savedCount node d.toTables w
          ((visited node d.toTables).map (synced node d.toTables w))) := by
    rw [hlive]
    refine (if_pos (List.all_eq_true.mpr fun b hb => ?_)).trans ?_
    · obtain ⟨a, ha, rfl⟩ := List.mem_map.mp hb
      obtain ⟨name, hname⟩ := (mem_visited ha).2
      obtain ⟨name', hname', -⟩ := needsSave_synced (w := w) hname
      exact Option.isSome_iff_exists.mpr ⟨name', hname'⟩
    · rw [Nat.zero_add]
      rfl
  have hcount : savedCount node d.toTables w
      ((visited node d.toTables).map (synced node d.toTables w)) = 0 ↔
        ∀ a ∈ visited node d.toTables,
          storedBytes d.toTables w a = none ∧ StableName node d.toTables a := by
    unfold savedCount
    rw [List.countP_eq_zero, List.forall_mem_map]
    refine forall₂_congr fun a ha => ?_
    obtain ⟨name, hname⟩ := (mem_visited ha).2
    obtain ⟨name', hname', hneeds⟩ := needsSave_synced (w := w) hname
    rw [hname', Option.any_some, Bool.not_eq_true]
    exact hneeds
  refine (completes_rebuildAllNames node).trans ?_
  rw [hresult, ← hcount, Except.ok.injEq, eq_comm (a := 0)]
  refine and_iff_left_of_imp fun hzero => ?_
  refine congrArg (fun d' => (⟨Server.idle d', w⟩ : CmsState))
    (namesRebuilt_of_saves_nothing fun b hb name hname => ?_).symm
  rw [hlive] at hb
  have hnot := List.countP_eq_zero.mp hzero b hb
  change ¬(rightName node (d.toTables.load b)).any _ = true at hnot
  change rightName node (d.toTables.load b) = some name at hname
  rw [hname, Option.any_some, Bool.not_eq_true] at hnot
  exact hnot

end synced

/-- After `rebuildAllNames` has run alone over readable objects: it has cleared the signatures of
changed artifacts only, a second run does nothing, and every public signed release that was right is
public still, exactly where no artifact that was right had a signature, where nothing could be read
and every name is stable, and where no product of such a release requires signed updates. -/
theorem names_synchronised_iff {d : Db} {w : CmsWorld} {r : Except (Failure String) ℕ} {σ : CmsState}
    (h : Completes Legible 0 (ArtifactService.rebuildAllNames node) ⟨Server.idle d, w⟩ r σ) :
    (ClearsOnlyChanged d σ.server.db ↔
      ∀ a ∈ visited node d.toTables, Settled node d.toTables w a →
        a.signature = none ∧ a.signatureKeyId = none ∧ a.signatureManifest = none) ∧
    (∀ n, r = .ok n →
      (Completes Legible 0 (ArtifactService.rebuildAllNames node) σ (.ok 0) σ ↔
        ∀ a ∈ visited node d.toTables,
          storedBytes d.toTables w a = none ∧ StableName node d.toTables a)) ∧
    (KeepsReleases node w d σ.server.db ↔
      ∀ softwareId, ∀ a ∈ publicQuery d.toTables (some softwareId), a ∈ visited node d.toTables →
        Settled node d.toTables w a →
          ∀ s ∈ d.software, s.id = softwareId → s.requireSignedUpdates = false) := by
  obtain ⟨hr, rfl⟩ := (completes_rebuildAllNames node).mp h
  exact ⟨clearsOnlyChanged_iff, fun n hn => second_run_iff (hr.symm.trans hn), keepsReleases_iff⟩

/-! ## A release that was right -/

/-- Node with a digest that every object has. -/
def hashNode : Node := { toyNode with digest := fun _ _ => toyKeyId 'c' }

/-- The signed manifest of a release under its right name. -/
def namedManifest : OtaReleaseManifest :=
  { releaseManifest none with fileName := "P_windows_x64_v1.0.0.zip" }

/-- A signed release with its right name and digest. -/
def namedRelease : Artifact :=
  { unsigned with
    fileName := "P_windows_x64_v1.0.0.zip"
    signature := some (toySignature 'A' namedManifest)
    signatureKeyId := some (toyKeyId 'a')
    signatureManifest := some namedManifest.toJson }

/-- A world in which every object can be read. -/
def readableWorld : CmsWorld := { emptyWorld with objects := fun _ _ => some [0] }

/-- The release is the only artifact, and it is right. -/
theorem visited_namedRelease :
    namedRelease ∈ visited hashNode (oneRelease none namedRelease).toTables ∧
      Settled hashNode (oneRelease none namedRelease).toTables readableWorld namedRelease := by
  refine ⟨by decide +kernel, by decide +kernel, [0], by decide +kernel, by decide +kernel⟩

/-- The release is public. -/
theorem public_namedRelease :
    namedRelease ∈ publicQuery (oneRelease none namedRelease).toTables (some "p") :=
  List.mem_filter.mpr ⟨.head _, by decide +kernel⟩

/-- Synchronising the names of the release. -/
theorem names_synchronised_release :
    ∃ r σ, Completes Legible 0 (ArtifactService.rebuildAllNames hashNode)
        ⟨Server.idle (oneRelease none namedRelease), readableWorld⟩ r σ ∧
      (KeepsReleases hashNode readableWorld (oneRelease none namedRelease) σ.server.db ↔
        ∀ softwareId, ∀ a ∈ publicQuery (oneRelease none namedRelease).toTables (some softwareId),
          a ∈ visited hashNode (oneRelease none namedRelease).toTables →
          Settled hashNode (oneRelease none namedRelease).toTables readableWorld a →
            ∀ s ∈ (oneRelease none namedRelease).software, s.id = softwareId →
              s.requireSignedUpdates = false) := by
  have hrun := (completes_rebuildAllNames hashNode (d := oneRelease none namedRelease)
    (w := readableWorld)).mpr ⟨rfl, rfl⟩
  exact ⟨_, _, hrun, (names_synchronised_iff hashNode hrun).2.2⟩

/-- The release was right, and it is not public any more; the next run saves it once more. -/
theorem synchronising_unpublishes :
    ∃ σ, Completes Legible 0 (ArtifactService.rebuildAllNames hashNode)
        ⟨Server.idle (oneRelease none namedRelease), readableWorld⟩ (.ok 1) σ ∧
      ¬ClearsOnlyChanged (oneRelease none namedRelease) σ.server.db ∧
      ¬Completes Legible 0 (ArtifactService.rebuildAllNames hashNode) σ (.ok 0) σ ∧
      ¬KeepsReleases hashNode readableWorld (oneRelease none namedRelease) σ.server.db := by
  have hresult : loopResult hashNode (oneRelease none namedRelease).toTables readableWorld
      (liveArtifacts (oneRelease none namedRelease).toTables) 0 = .ok 1 := by decide +kernel
  obtain ⟨hmem, hsettled⟩ := visited_namedRelease
  refine ⟨_, (completes_rebuildAllNames hashNode).mpr ⟨hresult.symm, rfl⟩, fun h => ?_, fun h => ?_,
    fun h => ?_⟩
  · have hcleared := (clearsOnlyChanged_iff.mp h _ hmem hsettled).1
    cases hcleared
  · have hunread := ((second_run_iff hresult).mp h _ hmem).1
    obtain ⟨-, bytes, hbytes, -⟩ := hsettled
    rw [hbytes] at hunread
    cases hunread
  · have hpolicy := keepsReleases_iff.mp h "p" _ public_namedRelease hmem hsettled releaseSoftware
      (.head _) rfl
    cases hpolicy

end Reeva
