import Reeva.Cms.SignedOnly
import Reeva.Cms.SlugAllocation

/-!
# The names of release files

`buildFileName` joins up to six parts, each of them cut to 100 characters. `file_names_fit_iff` adds
them up: it says for which products, targets, versions and extensions the name fits its column and ends
in the extension that was given.
-/

open Interleaving ReadCommitted

namespace Reeva

/-- The greatest length of the column `artifacts.file_name`. -/
def maxFileName : ℕ := 255

/-- `s.length` of a safe part. -/
def safeLength (node : Node) (s : String) : ℕ := (safeFilePart node s).toList.length

/-- The length of a codename with its hyphen. -/
def codenameLength (node : Node) (version : Version) : ℕ :=
  match version.codename with
  | some codename => if codename = "" then 0 else 1 + safeLength node codename
  | none => 0

section parts

variable (node : Node)

/-- Runs are replaced by hyphens. -/
theorem mem_replaceRuns {keep : Char → Bool} {cs : List Char} {c : Char} :
    ∀ {inRun : Bool}, c ∈ replaceRuns keep inRun cs → keep c = true ∨ c = '-' := by
  induction cs with
  | nil => exact fun h => by cases h
  | cons d cs ih =>
    intro inRun h
    unfold replaceRuns at h
    split_ifs at h with hkeep hrun
    · obtain rfl | h := List.mem_cons.mp h
      · exact .inl hkeep
      · exact ih h
    · exact ih h
    · obtain rfl | h := List.mem_cons.mp h
      · exact .inr rfl
      · exact ih h

/-- A character of file names is one of ASCII. -/
theorem toNat_lt_of_isFileChar {c : Char} (h : isFileChar c = true) : c.toNat < 128 := by
  unfold isFileChar at h
  simp only [Bool.or_eq_true, Bool.and_eq_true, decide_eq_true_eq, Char.isDigit] at h
  have hle : ∀ {a b : Char}, a ≤ b → a.toNat ≤ b.toNat := fun h => h
  obtain ((((⟨-, h⟩ | ⟨-, h⟩) | ⟨-, h⟩) | rfl) | rfl) | rfl := h
  · exact lt_of_le_of_lt (hle h) (by decide)
  · exact lt_of_le_of_lt (hle h) (by decide)
  · exact lt_of_le_of_lt (hle h) (by decide)
  · decide
  · decide
  · decide

/-- A safe part has characters of file names only. -/
theorem isFileChar_of_mem_safeFilePart {s : String} {c : Char}
    (h : c ∈ (safeFilePart node s).toList) : isFileChar c = true := by
  unfold safeFilePart orElse at h
  dsimp only at h
  split_ifs at h
  · have hall : "release".toList.all isFileChar = true := by decide
    exact List.all_eq_true.mp hall c h
  · rw [String.toList_ofList] at h
    obtain hkeep | rfl := mem_replaceRuns ((strip_isInfix _).subset (List.mem_of_mem_take h))
    · exact hkeep
    · decide

/-- So has a number. -/
theorem isFileChar_of_mem_number {v : Version} {c : Char} (h : c ∈ v.number.toList) :
    isFileChar c = true := by
  have hdigit : ∀ n : ℕ, c ∈ (toString n).toList → isFileChar c = true := by
    intro n hc
    simp only [isFileChar, isDigit_of_mem_toString hc, Bool.true_or]
  unfold Version.number at h
  simp only [String.toList_append, List.mem_append] at h
  obtain (((h | h) | h) | h) | h := h
  · exact hdigit _ h
  · obtain rfl := List.mem_singleton.mp h
    decide
  · exact hdigit _ h
  · obtain rfl := List.mem_singleton.mp h
    decide
  · exact hdigit _ h

/-- The last segment of a text that ends in a point and another text is that of the other. -/
theorem fileExtension_append (s t : String) : fileExtension (s ++ "." ++ t) = fileExtension t := by
  unfold fileExtension
  refine congrArg (fun cs : List Char => String.ofList cs.reverse) ?_
  have hdot : (".".toList : List Char) = ['.'] := rfl
  rw [String.toList_append, String.toList_append, List.reverse_append, List.reverse_append, hdot,
    List.reverse_singleton, List.takeWhile_append]
  split_ifs with hall
  · rw [List.singleton_append, List.takeWhile_cons_of_neg (by decide), List.append_nil]
    exact ((List.takeWhile_prefix _).eq_of_length hall).symm
  · rfl

end parts

/-- The sum of the lengths of a name's parts, with the characters between them. -/
def builtLength (node : Node) (software platform architecture : String) (version : Version)
    (extension : String) : ℕ :=
  safeLength node software + safeLength node platform + safeLength node architecture +
    version.number.toList.length + codenameLength node version + safeLength node extension + 5

/-- It is the length of the name. -/
theorem length_buildFileName (node : Node) (software platform architecture : String)
    (version : Version) (extension : String) :
    (buildFileName node software platform architecture version extension).toList.length =
      builtLength node software platform architecture version extension := by
  have hline : "_".toList.length = 1 := rfl
  have hversion : "_v".toList.length = 2 := rfl
  have hdot : ".".toList.length = 1 := rfl
  have hhyphen : "-".toList.length = 1 := rfl
  have hempty : "".toList.length = 0 := rfl
  unfold buildFileName builtLength codenameLength safeLength
  cases version.codename with
  | none =>
    simp only [String.toList_append, List.length_append, hline, hversion, hdot, hempty]
    omega
  | some codename =>
    dsimp only
    split_ifs
    · simp only [String.toList_append, List.length_append, hline, hversion, hdot, hempty]
      omega
    · simp only [String.toList_append, List.length_append, hline, hversion, hdot, hhyphen]
      omega

/-- Its characters are those of file names. -/
theorem isFileChar_of_mem_buildFileName {node : Node} {software platform architecture : String}
    {version : Version} {extension : String} {c : Char}
    (h : c ∈ (buildFileName node software platform architecture version extension).toList) :
    isFileChar c = true := by
  have hline : ∀ c ∈ "_".toList, isFileChar c = true := List.all_eq_true.mp (by decide)
  have hversion : ∀ c ∈ "_v".toList, isFileChar c = true := List.all_eq_true.mp (by decide)
  have hdot : ∀ c ∈ ".".toList, isFileChar c = true := List.all_eq_true.mp (by decide)
  have hhyphen : ∀ c ∈ "-".toList, isFileChar c = true := List.all_eq_true.mp (by decide)
  unfold buildFileName at h
  simp only [String.toList_append, List.mem_append] at h
  obtain (((((((((h | h) | h) | h) | h) | h) | h) | h) | h) | h) := h
  · exact isFileChar_of_mem_safeFilePart node h
  · exact hline c h
  · exact isFileChar_of_mem_safeFilePart node h
  · exact hline c h
  · exact isFileChar_of_mem_safeFilePart node h
  · exact hversion c h
  · exact isFileChar_of_mem_number h
  · split at h
    · split_ifs at h
      · cases h
      · obtain h | h := List.mem_append.mp (String.toList_append ▸ h)
        · exact hhyphen c h
        · exact isFileChar_of_mem_safeFilePart node h
    · cases h
  · exact hdot c h
  · exact isFileChar_of_mem_safeFilePart node h

/-- Its last segment is that of the extension's safe part. -/
theorem fileExtension_buildFileName (node : Node) (software platform architecture : String)
    (version : Version) (extension : String) :
    fileExtension (buildFileName node software platform architecture version extension) =
      fileExtension (safeFilePart node extension) :=
  fileExtension_append _ _

/-- Every name that an upload, an edit or the synchronisation of names writes is one that
`buildFileName` has made. Such a name has characters of file names only; it has at most 255 of them
and ends in the extension that was given exactly where its parts sum up to at most 255 characters and
the extension is left as it is by its safe part. -/
theorem file_names_fit_iff (node : Node) :
    (∀ fuel file data, Performs True
      (fun w => ∀ r, w = .insertArtifact r → IsBuilt node r.fileName)
      (ArtifactService.uploadArtifact node fuel file data)) ∧
    (∀ id data, Performs True (fun w => ∀ l n, w = .saveArtifact l n → IsBuilt node n.fileName)
      (ArtifactService.updateArtifact node id data)) ∧
    Performs True (fun w => ∀ l n, w = .saveArtifact l n → IsBuilt node n.fileName)
      (ArtifactService.rebuildAllNames node) ∧
    ∀ software platform architecture version extension,
      let name := buildFileName node software platform architecture version extension
      (name.toList.length ≤ maxFileName ∧ (∀ c ∈ name.toList, isFileChar c = true) ∧
        fileExtension name = extension) ↔
      builtLength node software platform architecture version extension ≤ maxFileName ∧
        fileExtension (safeFilePart node extension) = extension := by
  refine ⟨fun fuel file data => ?_, fun id data => ?_, ?_, ?_⟩
  · refine uploadArtifact_performs node trivial fuel file data (fun r r' h => ?_)
      (fun p r' h => ?_) fun r _ _ _ hname r' h => ?_
    · cases h
    · cases h
    · cases h
      exact hname
  · refine updateArtifact_performs node id data fun l n _ _ _ _ hname l' n' h => ?_
    cases h
    exact hname
  · refine rebuildAllNames_performs node fun l n _ _ _ hname l' n' h => ?_
    cases h
    exact hname
  · intro software platform architecture version extension
    dsimp only
    rw [length_buildFileName, fileExtension_buildFileName]
    constructor
    · exact fun h => ⟨h.1, h.2.2⟩
    · exact fun h => ⟨h.1, fun c => isFileChar_of_mem_buildFileName, h.2⟩

/-- A text of one character. -/
def repeated (n : ℕ) (c : Char) : String := String.ofList (List.replicate n c)

/-- A product, a platform, an architecture and a codename of the greatest lengths give a name of 314
characters. -/
theorem built_name_too_long :
    maxFileName < (buildFileName toyNode (repeated 120 'P') (repeated 50 'p') (repeated 50 'a')
      (releaseVersion (some (repeated 100 'c'))) "zip").toList.length := by
  rw [length_buildFileName]
  decide +kernel

end Reeva
