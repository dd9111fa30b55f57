import Reeva.Cms.AtomicOperations
import Reeva.Cms.FileNames
import Reeva.Cms.SoftDeletion

/-!
# Package types and platforms

An upload checks the extension of the file against the platform, and the architecture against it. An
edit may move the artifact to another platform: it repeats the check of the architecture and keeps the
extension. `package_types` says that uploads, edits and synchronisations of names keep the rule of the
upload for all artifacts, as long as each edit moves to a platform that takes the extension it keeps.
-/

open Interleaving ReadCommitted

namespace Reeva

open ArtifactService

/-- The functions of the language on texts, where they consist of ASCII characters. -/
structure Node.KeepsAscii (node : Node) : Prop where
  nfkd : ∀ s : String, (∀ c ∈ s.toList, c.toNat < 128) → node.normalizeNfkd s = s
  lower : ∀ s : String, (∀ c ∈ s.toList, c.toNat < 128) →
    node.toLowerCase s = String.ofList (s.toList.map Char.toLower)

/-! ## Extensions of packages -/

/-- The extensions that some platform lists. -/
def packageExtensions : List String :=
  ["exe", "zip", "msi", "nupkg", "dmg", "pkg", "app", "apk", "aab", "appimage", "deb", "rpm", "tar",
    "gz"]

/-- A platform takes every extension or those of a list only. -/
theorem isExtValid_cases (node : Node) (p : Target) :
    (∀ ext, isExtValid node p ext = true) ∨
      ∀ ext, isExtValid node p ext = true → ext ∈ packageExtensions := by
  have hlist : ∀ l : List String, (l.all fun s => packageExtensions.contains s) = true →
      ∀ ext, l.contains ext = true → ext ∈ packageExtensions := fun l hl ext h =>
    List.contains_iff_mem.mp (List.all_eq_true.mp hl ext (List.contains_iff_mem.mp h))
  unfold isExtValid
  dsimp only
  split_ifs
  · exact .inr (hlist _ (by decide))
  · exact .inr (hlist _ (by decide))
  · exact .inr (hlist _ (by decide))
  · exact .inr (hlist _ (by decide))
  · exact .inl fun _ => rfl

/-- A character of file names other than the hyphen and the point. -/
def isWordChar (c : Char) : Bool := isFileChar c && c ≠ '-' && c ≠ '.'

/-- An extension of a few such characters, which `safeFilePart` leaves as it is. -/
structure IsWord (s : String) : Prop where
  chars : ∀ c ∈ s.toList, isWordChar c = true
  length : s.toList.length ≤ 100
  ne_empty : s ≠ ""

/-- Every listed extension is one. -/
theorem isWord_of_mem {s : String} (h : s ∈ packageExtensions) : IsWord s := by
  have hall : packageExtensions.all (fun s => s.toList.all isWordChar && s.toList.length ≤ 100 &&
    s ≠ "") = true := by decide +kernel
  have hs := List.all_eq_true.mp hall s h
  simp only [Bool.and_eq_true, decide_eq_true_eq] at hs
  exact ⟨List.all_eq_true.mp hs.1.1, hs.1.2, hs.2⟩

/-- Its letters are lower-case letters. -/
theorem toLower_of_mem {s : String} (h : s ∈ packageExtensions) :
    String.ofList (s.toList.map Char.toLower) = s := by
  have hall : packageExtensions.all (fun s => String.ofList (s.toList.map Char.toLower) = s) = true := by
    decide +kernel
  exact of_decide_eq_true (List.all_eq_true.mp hall s h)

namespace IsWord

variable {s : String}

theorem isFileChar (h : IsWord s) : ∀ c ∈ s.toList, isFileChar c = true := fun c hc => by
  have hword := h.chars c hc
  unfold isWordChar at hword
  simp only [Bool.and_eq_true] at hword
  exact hword.1.1

theorem isAscii (h : IsWord s) : ∀ c ∈ s.toList, c.toNat < 128 :=
  fun c hc => toNat_lt_of_isFileChar (h.isFileChar c hc)

/-- It has no hyphen and no point. -/
theorem ne_mark (h : IsWord s) : ∀ c ∈ s.toList, c ≠ '-' ∧ c ≠ '.' := fun c hc => by
  have hword := h.chars c hc
  unfold isWordChar at hword
  simp only [Bool.and_eq_true, decide_eq_true_eq] at hword
  exact ⟨hword.1.2, hword.2⟩

/-- It is its own last segment. -/
theorem fileExtension_eq (h : IsWord s) : fileExtension s = s := by
  have hall : ∀ c ∈ s.toList.reverse, decide (c ≠ '.') = true := fun c hc =>
    decide_eq_true (h.ne_mark c (List.mem_reverse.mp hc)).2
  unfold fileExtension
  rw [List.takeWhile_eq_self_iff.mpr hall, List.reverse_reverse, String.ofList_toList]

end IsWord

/-- Nothing is replaced where every character is kept. -/
theorem replaceRuns_of_forall {keep : Char → Bool} {cs : List Char} :
    ∀ {inRun : Bool}, (∀ c ∈ cs, keep c = true) → replaceRuns keep inRun cs = cs := by
  induction cs with
  | nil => exact fun _ => rfl
  | cons c cs ih =>
    intro inRun h
    unfold replaceRuns
    rw [if_pos (h c (.head _)), ih fun d hd => h d (.tail _ hd)]

/-- It is its own safe part. -/
theorem IsWord.safeFilePart_eq {node : Node} (hascii : node.KeepsAscii) {s : String} (h : IsWord s) :
    safeFilePart node s = s := by
  have hstrip : ∀ c ∈ s.toList, decide (c = '-') = false := fun c hc =>
    decide_eq_false (h.ne_mark c hc).1
  unfold safeFilePart
  dsimp only
  rw [hascii.nfkd s h.isAscii, replaceRuns_of_forall h.isFileChar, Js.strip_of_forall hstrip,
    List.take_of_length_le h.length, String.ofList_toList]
  exact if_neg h.ne_empty

/-- A text whose lower-case form is listed is a word, where its characters are those of file names. -/
theorem isWord_of_lower {node : Node} (hascii : node.KeepsAscii) {e : String}
    (hchars : ∀ c ∈ e.toList, isFileChar c = true)
    (h : node.toLowerCase e ∈ packageExtensions) : IsWord e := by
  rw [hascii.lower e fun c hc => toNat_lt_of_isFileChar (hchars c hc)] at h
  have hword := isWord_of_mem h
  refine ⟨fun c hc => ?_, ?_, ?_⟩
  · -- The hyphen and the point are their own lower-case forms.
    have hne := hword.ne_mark c.toLower (by
      rw [String.toList_ofList]
      exact List.mem_map_of_mem hc)
    unfold isWordChar
    simp only [hchars c hc, Bool.true_and, Bool.and_eq_true, decide_eq_true_eq]
    constructor
    · rintro rfl
      exact hne.1 (by decide)
    · rintro rfl
      exact hne.2 (by decide)
  · have hlength := hword.length
    rw [String.toList_ofList, List.length_map] at hlength
    exact hlength
  · rintro rfl
    exact hword.ne_empty rfl

/-- The extension that a name keeps which is built anew. -/
def keptExtension (node : Node) (a : Artifact) : String :=
  fileExtension (safeFilePart node (orElse (fileExtension a.fileName) "bin"))

/-- A name that is built anew for the same platform keeps the extension, as the platform sees it. -/
theorem isExtValid_kept {node : Node} (hascii : node.KeepsAscii) {p : Target} {a : Artifact}
    (hchars : ∀ c ∈ (fileExtension a.fileName).toList, isFileChar c = true)
    (h : isExtValid node p (node.toLowerCase (fileExtension a.fileName)) = true) :
    isExtValid node p (node.toLowerCase (keptExtension node a)) = true := by
  obtain hall | hlisted := isExtValid_cases node p
  · exact hall _
  · have hword := isWord_of_lower hascii hchars (hlisted _ h)
    unfold keptExtension orElse
    rw [if_neg hword.ne_empty, hword.safeFilePart_eq hascii, hword.fileExtension_eq]
    exact h

/-- The extension that an upload has checked is the one that its name has. -/
theorem isExtValid_uploaded {node : Node} (hascii : node.KeepsAscii) {p : Target} {ext : String}
    (h : isExtValid node p ext = true) :
    isExtValid node p (node.toLowerCase (fileExtension (safeFilePart node ext))) = true := by
  obtain hall | hlisted := isExtValid_cases node p
  · exact hall _
  · have hword := isWord_of_mem (hlisted _ h)
    rw [hword.safeFilePart_eq hascii, hword.fileExtension_eq, hascii.lower ext hword.isAscii,
      toLower_of_mem (hlisted _ h)]
    exact h

/-! ## The three operations -/

/-- The extension and the architecture of an artifact satisfy the rule of an upload for its platform. -/
structure Packaged (node : Node) (t : Tables) (a : Artifact) : Prop where
  extension : ∀ p, t.platform a.platformId = some p →
    isExtValid node p (node.toLowerCase (fileExtension a.fileName)) = true
  architecture : ∀ p q, t.platform a.platformId = some p → t.architecture a.architectureId = some q →
    isExcluded node p q = false

/-- So do all artifacts, over fixed targets, and the extensions consist of characters of file names. -/
structure AllPackaged (node : Node) (t : Tables) (d : Db) : Prop where
  platforms : d.platforms = t.platforms
  architectures : d.architectures = t.architectures
  packaged : ∀ a ∈ d.artifacts, Packaged node t a
  chars : ∀ a ∈ d.artifacts, ∀ c ∈ (fileExtension a.fileName).toList, isFileChar c = true

/-- The columns that the rule reads. -/
theorem Packaged.congr {node : Node} {t : Tables} {a b : Artifact} (h : Packaged node t a)
    (hp : b.platformId = a.platformId) (hq : b.architectureId = a.architectureId)
    (hf : b.fileName = a.fileName) : Packaged node t b := by
  refine ⟨?_, ?_⟩
  · rw [hp, hf]
    exact h.extension
  · rw [hp, hq]
    exact h.architecture

/-- The extension of a name that was built. -/
theorem isFileChar_of_isBuilt {node : Node} {name : String} (h : IsBuilt node name) :
    ∀ c ∈ (fileExtension name).toList, isFileChar c = true := by
  obtain ⟨software, platform, architecture, version, extension, rfl⟩ := h
  intro c hc
  unfold fileExtension at hc
  rw [String.toList_ofList, List.mem_reverse] at hc
  have hmem := (List.takeWhile_prefix _).subset hc
  exact isFileChar_of_mem_buildFileName (List.mem_reverse.mp hmem)

section packaging

variable {node : Node} {t : Tables}

/-- The save of an artifact that was loaded, under a name that was built. -/
theorem AllPackaged.save {d d' : Db} {l n : Artifact} {m : ℕ} (hd : AllPackaged node t d)
    (hl : l ∈ d.artifacts) (hn : Packaged node t n) (hname : IsBuilt node n.fileName)
    (happ : cmsSchema.apply (.saveArtifact l n) d = some (m, d')) : AllPackaged node t d' := by
  have htables := apply_tables happ
  have hsaved : ∀ a ∈ d'.artifacts, a = l.saveOnto n l ∨ a ∈ d.artifacts := by
    intro a ha
    rw [congrArg Tables.artifacts htables] at ha
    obtain ⟨r, hr, ⟨hid, rfl⟩ | ⟨-, rfl⟩⟩ := mem_updateRows.mp ha
    · obtain rfl := List.inj_on_of_nodup_map d.valid.artifactIds hr hl (by simpa using hid)
      exact .inl rfl
    · exact .inr hr
  refine ⟨(congrArg Tables.platforms htables).trans hd.platforms,
    (congrArg Tables.architectures htables).trans hd.architectures, ?_, ?_⟩
  · intro a ha
    obtain rfl | ha := hsaved a ha
    · exact hn.congr (dirty_loaded _ _) (dirty_loaded _ _) (dirty_loaded _ _)
    · exact hd.packaged a ha
  · intro a ha
    obtain rfl | ha := hsaved a ha
    · have hfile : (l.saveOnto n l).fileName = n.fileName := dirty_loaded _ _
      rw [hfile]
      exact isFileChar_of_isBuilt hname
    · exact hd.chars a ha

/-- The writes of an upload. -/
inductive UploadWrite (node : Node) (t : Tables) : Write → Prop
  | insertArtifact (r : Artifact) (h : Packaged node t r) (hname : IsBuilt node r.fileName) :
    UploadWrite node t (.insertArtifact r)
  | insertReservation (r : Reservation) : UploadWrite node t (.insertReservation r)
  | deleteReservations (p : Reservation → Bool) : UploadWrite node t (.deleteReservations p)

/-- They keep the rule. -/
theorem UploadWrite.keeps (d d' : Db) (w : Write) (m : ℕ) (hd : AllPackaged node t d)
    (hw : UploadWrite node t w) (happ : cmsSchema.apply w d = some (m, d')) :
    AllPackaged node t d' := by
  have htables := apply_tables happ
  have hplatforms : d'.platforms = t.platforms := by
    rw [congrArg Tables.platforms htables, ← hd.platforms]
    cases hw <;> rfl
  have harchitectures : d'.architectures = t.architectures := by
    rw [congrArg Tables.architectures htables, ← hd.architectures]
    cases hw <;> rfl
  have hartifacts := congrArg Tables.artifacts htables
  cases hw with
  | insertArtifact r h hname =>
    have hmem : ∀ a ∈ d'.artifacts, a ∈ d.artifacts ∨ a = r := by
      intro a ha
      rw [hartifacts] at ha
      exact (List.mem_append.mp ha).imp_right List.mem_singleton.mp
    refine ⟨hplatforms, harchitectures, fun a ha => ?_, fun a ha => ?_⟩
    · obtain ha | rfl := hmem a ha
      · exact hd.packaged a ha
      · exact h
    · obtain ha | rfl := hmem a ha
      · exact hd.chars a ha
      · exact isFileChar_of_isBuilt hname
  | insertReservation r =>
    have hmem : d'.artifacts = d.artifacts := hartifacts
    exact ⟨hplatforms, harchitectures, hmem ▸ hd.packaged, hmem ▸ hd.chars⟩
  | deleteReservations p =>
    have hmem : d'.artifacts = d.artifacts := hartifacts
    exact ⟨hplatforms, harchitectures, hmem ▸ hd.packaged, hmem ▸ hd.chars⟩

/-- The targets that the tables of a run have. -/
theorem AllPackaged.platform {d : Db} (hd : AllPackaged node t d) (id : Id) :
    d.toTables.platform id = t.platform id := by
  unfold Tables.platform
  rw [hd.platforms]

theorem AllPackaged.architecture {d : Db} (hd : AllPackaged node t d) (id : Id) :
    d.toTables.architecture id = t.architecture id := by
  unfold Tables.architecture
  rw [hd.architectures]

/-- The key of a platform that was found. -/
theorem platform_id {id : Id} {p : Target} (h : t.platform id = some p) : p.id = id := by
  have hfound := List.find?_some h
  simp only [Bool.and_eq_true, decide_eq_true_eq] at hfound
  exact hfound.1

theorem architecture_id {id : Id} {q : Target} (h : t.architecture id = some q) : q.id = id := by
  have hfound := List.find?_some h
  simp only [Bool.and_eq_true, decide_eq_true_eq] at hfound
  exact hfound.1

/-- The rule of a row whose targets have been looked up. -/
theorem Packaged.of_found {a : Artifact} {p q : Target} (hp : t.platform a.platformId = some p)
    (hq : t.architecture a.architectureId = some q)
    (hext : isExtValid node p (node.toLowerCase (fileExtension a.fileName)) = true)
    (harch : isExcluded node p q = false) : Packaged node t a := by
  refine ⟨fun p' hp' => ?_, fun p' q' hp' hq' => ?_⟩
  · obtain rfl := Option.some.inj (hp.symm.trans hp')
    exact hext
  · obtain rfl := Option.some.inj (hp.symm.trans hp')
    obtain rfl := Option.some.inj (hq.symm.trans hq')
    exact harch

/-- The row that an upload prepares satisfies the rule that the upload has checked. -/
theorem prepareUpload_packaged (hascii : node.KeepsAscii) (file : MultipartFile)
    (data : ArtifactInput) {d : Db} (hd : AllPackaged node t d) :
    Solo (Guard.always cms) (AllPackaged node t) d (prepareUpload node file data)
      (fun prepared _ => Packaged node t prepared.1 ∧ IsBuilt node prepared.1.fileName)
      fun _ _ => True := by
  refine .orThrow (fun _ => trivial) fun ids _ => .refuse trivial fun _ => ?_
  refine .findVersion (fun _ => trivial) fun version _ => ?_
  refine .select (.orFail trivial fun platform hp => ?_) trivial
  refine .select (.orFail trivial fun architecture hq => ?_) trivial
  refine .select (.orFail trivial fun storageProvider _ => .refuse trivial fun _ => ?_) trivial
  refine .refuse trivial fun harch => .refuse trivial fun hext => ?_
  rw [Bool.not_eq_true] at harch
  rw [Bool.not_eq_false] at hext
  rw [hd.platform] at hp
  rw [hd.architecture] at hq
  dsimp only [Tables.loadVersion]
  split
  · exact .raise trivial
  · refine .refuse trivial fun _ => .refuse trivial fun _ => .call fun artifactId => .pure ?_
    refine ⟨.of_found (p := platform) (q := architecture) ?_ ?_ ?_ harch, _, _, _, _, _, rfl⟩
    · change t.platform platform.id = some platform
      rw [platform_id hp]
      exact hp
    · change t.architecture architecture.id = some architecture
      rw [architecture_id hq]
      exact hq
    · dsimp only
      rw [fileExtension_buildFileName]
      exact isExtValid_uploaded hascii hext

/-- The condition on an edit: the platform that it moves the artifact to takes the extension that the
artifact keeps. -/
def KeepsExtension (node : Node) (t : Tables) (id : Id) (data : ArtifactInput) : Prop :=
  ∀ a platformId p, t.artifact id = some a → data.platformId = some (.str platformId) →
    t.platform platformId = some p → isExtValid node p (node.toLowerCase (keptExtension node a)) = true

/-- The identifier that an edit has read. -/
theorem platformId_of_assertUploadMetadata {data : ArtifactInput} {ids : UploadIds}
    (h : assertUploadMetadata data = .ok ids) : data.platformId = some (.str ids.platformId) := by
  have hrequired : ∀ {name input id}, requiredId name input = .ok id → input = some (.str id) := by
    intro name input id h
    unfold requiredId at h
    split at h
    · split_ifs at h
      obtain rfl := Except.ok.inj h
      rfl
    · cases h
  unfold assertUploadMetadata at h
  simp only [Bind.bind, Except.bind] at h
  split at h
  · cases h
  · split at h
    · cases h
    · rename_i platformId hplatform
      split at h
      · cases h
      · split at h
        · cases h
        · split_ifs at h
          obtain rfl := Except.ok.inj h
          exact hrequired hplatform

/-- An upload keeps the rule, wherever it stops. -/
theorem uploadArtifact_packaged (hascii : node.KeepsAscii) (fuel : ℕ) (file : MultipartFile)
    (data : ArtifactInput) {d : Db} {w : CmsWorld} (hd : AllPackaged node t d) :
    wp (Guard.always cms) (keeping (AllPackaged node t)) 0
      (Cms.discard (uploadArtifact node fuel file data)) (fun _ _ => True) (fun _ _ => True)
      ⟨Server.idle d, w⟩ := by
  have hwrites : ∀ prepared : Artifact × String,
      Packaged node t prepared.1 ∧ IsBuilt node prepared.1.fileName →
      Performs True (UploadWrite node t) (do
        Cms.orThrow (← Cms.call (.resolve prepared.1.storageProviderId))
        let now : ℕ ← Cms.call .now
        cleanupExpiredReservations prepared.1.storageProviderId now fuel
        storeArtifact node prepared.1 prepared.2) := by
    intro prepared h
    refine (Performs.call _).bind fun _ => (Performs.orThrow _).bind fun _ => ?_
    refine (Performs.call _).bind fun now => ?_
    refine (cleanupExpiredReservations_performs trivial _ _ _ .deleteReservations).bind fun _ => ?_
    exact storeArtifact_performs node trivial _ _ .insertReservation .deleteReservations
      fun _ _ => .insertArtifact _ (h.1.congr rfl rfl rfl) h.2
  have hprepare := prepareUpload_packaged hascii file data hd ⟨Server.idle d, w⟩ rfl rfl
  have hinv : (keeping (AllPackaged node t)).inv ⟨Server.idle d, w⟩ := ⟨hd, hd⟩
  refine wp_bind (fun _ => rfl) (wp_bind (fun _ => rfl) (wp_mono ?_ (fun _ _ _ => trivial) hprepare)
    hinv) hinv
  intro prepared σ' h
  refine wp_mono (fun _ _ _ => ?_) (fun _ _ _ => trivial)
    (keeps_of_performs UploadWrite.keeps (hwrites prepared h.2))
  exact fun _ _ _ => trivial

/-- An edit that keeps an extension of the new platform keeps the rule. -/
theorem updateArtifact_packaged (id : Id) (data : ArtifactInput) {d : Db}
    (hd : AllPackaged node t d) (hdata : KeepsExtension node d.toTables id data) :
    Solo (Guard.always cms) (AllPackaged node t) d (updateArtifact node id data) (fun _ _ => True)
      fun _ _ => True := by
  refine .orThrow (fun _ => trivial) fun ids hids => .refuse trivial fun _ => ?_
  have hid := platformId_of_assertUploadMetadata hids
  dsimp only at hid
  refine .select (.orFail trivial fun artifact ha => ?_) trivial
  refine .findVersion (fun _ => trivial) fun version _ => ?_
  refine .select (.orFail trivial fun platform hp => ?_) trivial
  refine .select (.orFail trivial fun architecture hq => ?_) trivial
  refine .refuse trivial fun harch => ?_
  rw [Bool.not_eq_true] at harch
  dsimp only [Tables.loadVersion]
  split
  · exact .raise trivial
  · refine .refuse trivial fun _ => .exec trivial trivial fun m d' happ => ?_
    have hext := hdata artifact ids.platformId platform ha hid hp
    rw [hd.platform] at hp
    rw [hd.architecture] at hq
    have hd' : AllPackaged node t d' := by
      refine hd.save (List.mem_of_find?_eq_some ha) (.of_found (by exact hp) (by exact hq) ?_ harch)
        (by exact ⟨_, _, _, _, _, rfl⟩) happ
      dsimp only
      rw [fileExtension_buildFileName]
      exact hext
    exact ⟨hd', .pure trivial, fun _ => trivial⟩

/-- So does a synchronisation of the names. -/
theorem rebuildAllNames_packaged (hascii : node.KeepsAscii) {d : Db} (hd : AllPackaged node t d) :
    Solo (Guard.always cms) (AllPackaged node t) d (rebuildAllNames node) (fun _ _ => True)
      fun _ _ => True := by
  refine rebuildAllNames_solo (fun d d' l n m hd hl hn happ => ?_) hd
  have hrule := hd.packaged l hl
  obtain ⟨software, platform, architecture, version, hname⟩ := hn.fileName
  refine hd.save hl ⟨fun p hp => ?_, fun p q hp hq => ?_⟩ ⟨_, _, _, _, _, hname⟩ happ
  · rw [hn.platformId] at hp
    rw [hname, fileExtension_buildFileName]
    exact isExtValid_kept hascii (hd.chars l hl) (hrule.extension p hp)
  · rw [hn.platformId] at hp
    rw [hn.architectureId] at hq
    exact hrule.architecture p q hp hq

end packaging

/-! ## Runs -/

/-- The calls of the three operations, where each edit keeps an extension of the new platform. -/
inductive PackageStep (node : Node) (t : Tables) : Operation → Prop
  | uploadArtifact (fuel : ℕ) (file : MultipartFile) (data : ArtifactInput) :
    PackageStep node t (.uploadArtifact fuel file data)
  | updateArtifact (id : Id) (data : ArtifactInput) (h : KeepsExtension node t id data) :
    PackageStep node t (.updateArtifact id data)
  | rebuildAllNames : PackageStep node t .rebuildAllNames

/-- The databases that are reached from `d₀` by such calls, each of which may stop anywhere. The
products, the versions, the storage providers and the reservations may change in between. -/
inductive Packages (node : Node) (d₀ : Db) : Db → Prop
  | start : Packages node d₀ d₀
  | operation {d : Db} {op : Operation} {w : CmsWorld} {p : Cms Unit} {σ : CmsState}
    (h : Packages node d₀ d) (hop : PackageStep node d.toTables op)
    (hs : (op.program node).Steps (Guard.always cms) 0 ⟨Server.idle d, w⟩ p σ) :
    Packages node d₀ σ.server.db
  | others {d d' : Db} (h : Packages node d₀ d) (hp : d'.platforms = d.platforms)
    (hq : d'.architectures = d.architectures) (ha : d'.artifacts = d.artifacts) : Packages node d₀ d'

/-- One call keeps the rule. -/
theorem PackageStep.keeps {node : Node} (hascii : node.KeepsAscii) {t : Tables} {d : Db}
    {op : Operation} {w : CmsWorld} {p : Cms Unit} {σ : CmsState} (h : PackageStep node d.toTables op)
    (hd : AllPackaged node t d)
    (hs : (op.program node).Steps (Guard.always cms) 0 ⟨Server.idle d, w⟩ p σ) :
    AllPackaged node t σ.server.db := by
  have hsolo : ∀ {α : Type} {q : Cms α}, Solo (Guard.always cms) (AllPackaged node t) d q
      (fun _ _ => True) (fun _ _ => True) →
      (Cms.discard q).Steps (Guard.always cms) 0 ⟨Server.idle d, w⟩ p σ →
      AllPackaged node t σ.server.db := by
    intro α q hq hs
    have hdiscard : Solo (Guard.always cms) (AllPackaged node t) d (Cms.discard q)
        (fun _ _ => True) fun _ _ => True := .bind hd hq fun _ _ _ => .pure trivial
    exact (wp_steps (R := keeping (AllPackaged node t)) (fun _ => rfl) hs ⟨hd, hd⟩
      (hdiscard _ rfl rfl)).1.1
  cases h with
  | uploadArtifact fuel file data =>
    exact (wp_steps (R := keeping (AllPackaged node t)) (fun _ => rfl) hs ⟨hd, hd⟩
      (uploadArtifact_packaged hascii fuel file data hd)).1.1
  | updateArtifact id data hdata => exact hsolo (updateArtifact_packaged id data hd hdata) hs
  | rebuildAllNames => exact hsolo (rebuildAllNames_packaged hascii hd) hs

/-- Whatever runs of the three operations reach from a database without artifacts satisfies the rule,
if each edit keeps an extension of the platform that it moves the artifact to. -/
theorem package_types {node : Node} (hascii : node.KeepsAscii) {d₀ d : Db}
    (hstart : d₀.artifacts = []) (h : Packages node d₀ d) :
    ∀ a ∈ d.artifacts, a.deletedAt = none → Packaged node d.toTables a := by
  have hall : AllPackaged node d₀.toTables d := by
    induction h with
    | start =>
      refine ⟨rfl, rfl, fun a ha => ?_, fun a ha => ?_⟩
      · rw [hstart] at ha
        cases ha
      · rw [hstart] at ha
        cases ha
    | operation _ hop hs ih => exact hop.keeps hascii ih hs
    | others _ hp hq ha ih =>
      exact ⟨hp.trans ih.platforms, hq.trans ih.architectures, ha ▸ ih.packaged, ha ▸ ih.chars⟩
  intro a ha _
  have hrule := hall.packaged a ha
  refine ⟨fun p hp => ?_, fun p q hp hq => ?_⟩
  · rw [hall.platform] at hp
    exact hrule.extension p hp
  · rw [hall.platform] at hp
    rw [hall.architecture] at hq
    exact hrule.architecture p q hp hq

/-! ## Two edits -/

/-- Node with a function that lower-cases the letters of ASCII. -/
def asciiNode : Node := { toyNode with toLowerCase := fun s => String.ofList (s.toList.map Char.toLower) }

theorem keepsAscii_asciiNode : asciiNode.KeepsAscii := ⟨fun _ _ => rfl, fun _ _ => rfl⟩

/-- The database of an upload, with a second platform. -/
def platformsDb : Db :=
  ⟨{ uploadTables with
      platforms := [⟨toyUuid '3', "linux", "Linux", none⟩,
        ⟨toyUuid '6', "windows", "Windows", none⟩] }, by decide +kernel⟩

/-- The form of an edit that moves the artifact to the second platform. -/
def windowsForm : ArtifactInput := { byteForm with platformId := some (.str (toyUuid '6')) }

/-- The statements of an edit. -/
def editChoices : List cms.Choice := List.replicate 6 (.db .none)

/-- An extension that all platforms take is kept by every edit. -/
theorem keepsExtension_of_all {node : Node} {t : Tables} {id : Id} {data : ArtifactInput}
    (h : ((t.artifact id).all fun a =>
      t.platforms.all fun p => isExtValid node p (node.toLowerCase (keptExtension node a))) = true) :
    KeepsExtension node t id data := by
  intro a platformId p ha _ hp
  rw [ha] at h
  exact List.all_eq_true.mp h p (List.mem_of_find?_eq_some hp)

/-- A zip file is uploaded for Linux and moved to Windows, which takes zip files. -/
theorem package_types_example :
    ∃ d, Packages asciiNode platformsDb d ∧ d.artifacts ≠ [] ∧
      ∀ a ∈ d.artifacts, a.deletedAt = none → Packaged asciiNode d.toTables a := by
  have h : (drive cms (fun _ _ _ _ => true) 0
      ((Operation.uploadArtifact 2 byteFile byteForm).program asciiNode)
      (uploadChoices (toyUuid 'a')) ⟨Server.idle platformsDb, uploadWorld⟩).any (fun p =>
        ((p.2.server.db.toTables.artifact (toyUuid 'a')).all fun a =>
          p.2.server.db.platforms.all fun q =>
            isExtValid asciiNode q (asciiNode.toLowerCase (keptExtension asciiNode a))) &&
        (drive cms (fun _ _ _ _ => true) 0
          ((Operation.updateArtifact (toyUuid 'a') windowsForm).program asciiNode) editChoices
          ⟨Server.idle p.2.server.db, uploadWorld⟩).any fun q =>
            q.1.toOption.isSome && !q.2.server.db.artifacts.isEmpty) = true := by
    decide +kernel
  obtain ⟨⟨r₁, σ₁⟩, hupload, h⟩ := (Option.any_eq_true _ _).mp h
  obtain ⟨hkeeps, h⟩ := Bool.and_eq_true_iff.mp h
  obtain ⟨⟨r₂, σ₂⟩, hedit, h⟩ := (Option.any_eq_true _ _).mp h
  have hreached : Packages asciiNode platformsDb σ₂.server.db :=
    .operation (.operation .start (.uploadArtifact 2 byteFile byteForm)
      (steps_of_drive (fun _ _ _ _ _ => trivial) hupload))
      (.updateArtifact (toyUuid 'a') windowsForm (keepsExtension_of_all hkeeps))
      (steps_of_drive (fun _ _ _ _ _ => trivial) hedit)
  refine ⟨_, hreached, fun he => ?_, package_types keepsAscii_asciiNode rfl hreached⟩
  dsimp only at h
  rw [he] at h
  cases (Bool.and_eq_true_iff.mp h).2

/-- A gz file. -/
def archiveFile : MultipartFile := ⟨some "f", 1, some "gz", "f.gz"⟩

/-- A gz file is uploaded for Linux and moved to Windows, which does not take gz files. -/
theorem edit_breaks_package_type :
    ∃ σ₁ σ₂, platformsDb.artifacts = [] ∧
      Completes (Guard.always cms) 0
        ((Operation.uploadArtifact 2 archiveFile byteForm).program asciiNode)
        ⟨Server.idle platformsDb, uploadWorld⟩ (.ok ()) σ₁ ∧
      Completes (Guard.always cms) 0
        ((Operation.updateArtifact (toyUuid 'a') windowsForm).program asciiNode)
        ⟨Server.idle σ₁.server.db, uploadWorld⟩ (.ok ()) σ₂ ∧
      ∃ a ∈ σ₂.server.db.artifacts, a.deletedAt = none ∧
        ¬Packaged asciiNode σ₂.server.db.toTables a := by
  have h : (drive cms (fun _ _ _ _ => true) 0
      ((Operation.uploadArtifact 2 archiveFile byteForm).program asciiNode)
      (uploadChoices (toyUuid 'a')) ⟨Server.idle platformsDb, uploadWorld⟩).any (fun p =>
        p.1.toOption.isSome && (drive cms (fun _ _ _ _ => true) 0
          ((Operation.updateArtifact (toyUuid 'a') windowsForm).program asciiNode) editChoices
          ⟨Server.idle p.2.server.db, uploadWorld⟩).any fun q =>
            q.1.toOption.isSome && q.2.server.db.artifacts.any fun a => a.deletedAt.isNone &&
              (q.2.server.db.toTables.platform a.platformId).any fun p =>
                !isExtValid asciiNode p (asciiNode.toLowerCase (fileExtension a.fileName))) =
      true := by
    decide +kernel
  obtain ⟨r₁, σ₁, hupload, h⟩ := completes_of_drive (fun _ _ _ _ _ => trivial) h
  obtain ⟨hok₁, h⟩ := Bool.and_eq_true_iff.mp h
  obtain ⟨r₂, σ₂, hedit, h⟩ := completes_of_drive (fun _ _ _ _ _ => trivial) h
  obtain ⟨hok₂, h⟩ := Bool.and_eq_true_iff.mp h
  obtain ⟨⟨⟩, hr₁⟩ := Option.isSome_iff_exists.mp hok₁
  obtain ⟨⟨⟩, hr₂⟩ := Option.isSome_iff_exists.mp hok₂
  obtain rfl := eq_ok_of_toOption hr₁
  obtain rfl := eq_ok_of_toOption hr₂
  obtain ⟨a, ha, h⟩ := List.any_eq_true.mp h
  obtain ⟨hlive, h⟩ := Bool.and_eq_true_iff.mp h
  obtain ⟨p, hp, h⟩ := (Option.any_eq_true _ _).mp h
  refine ⟨σ₁, σ₂, rfl, hupload, hedit, a, ha, Option.isNone_iff_eq_none.mp hlive, fun hrule => ?_⟩
  rw [hrule.extension p hp] at h
  cases h

end Reeva
