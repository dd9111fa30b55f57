import Reeva.Storage.Containment

/-!
# Uploads to the local storage

An upload opens its file so that an existing one is refused. The handler of a failed upload removes
what is at the path, whatever failed: where the key has a file already, the refusal destroys it. An
upload leaves all files as they were exactly where the key has none (`upload_never_destroys_iff`).
-/

open Filesystem

namespace Reeva

open LocalProvider

/-- An upload for a key destroys no data, whatever the stream is and whichever calls fail: it succeeds
and the key, which did not exist, holds what the stream carried, or it throws and every file is as it
was; and it leaves the other keys as they are. -/
def NeverDestroys (provider : LocalProvider) (t : Tree) (key : String) : Prop :=
  ∀ file faults r d', provider.upload file key ⟨t, faults⟩ = (r, d') →
    (∀ k, r = .ok k → t.entry (provider.rootPath ++ segments key) = none ∧
      d'.tree.entry (provider.rootPath ++ segments key) = some (.file file.chunks.flatten)) ∧
    (∀ e, r = .error e → ∀ p content, t.entry p = some (.file content) →
      d'.tree.entry p = some (.file content)) ∧
    ∀ p content, p ≠ provider.rootPath ++ segments key →
      (d'.tree.entry p = some (.file content) ↔ t.entry p = some (.file content))

variable {provider : LocalProvider} {t : Tree} {key : String}

/-- A component that a walk looks up. -/
def Plain (n : String) : Prop := n ≠ "" ∧ n ≠ "." ∧ n ≠ ".."

/-- A resolved path has no other components. -/
theorem plain_resolve {base : Path} {texts : List String} (h : ∀ n ∈ base, Plain n) :
    ∀ n ∈ NodePath.resolve base texts, Plain n := by
  have hpush : ∀ (components : List String) (p : Path), (∀ n ∈ p, Plain n) →
      ∀ n ∈ components.foldl NodePath.push p, Plain n := by
    intro components
    induction components with
    | nil => exact fun _ hp => hp
    | cons m components ih =>
      intro p hp
      refine ih _ ?_
      unfold NodePath.push
      split_ifs with hdot hup
      · exact hp
      · exact fun n hn => hp n (List.dropLast_subset _ hn)
      · intro n hn
        obtain hn | hn := List.mem_append.mp hn
        · exact hp n hn
        · rw [List.mem_singleton.mp hn]
          rw [not_or] at hdot
          exact ⟨hdot.1, hdot.2, hup⟩
  unfold NodePath.resolve
  induction texts generalizing base with
  | nil => exact h
  | cons text texts ih =>
    refine ih (hpush _ _ ?_)
    split
    · simp
    · exact h

/-- The configured path has no other components. -/
theorem plain_rootPath (provider : LocalProvider) : ∀ n ∈ provider.rootPath, Plain n := by
  have hcwd : ∀ n ∈ provider.cwd, Plain n := fun n hn =>
    ⟨(provider.names n hn).1, (provider.names n hn).2.1, (provider.names n hn).2.2.1⟩
  unfold rootPath
  split
  · split
    · exact plain_resolve hcwd
    · exact plain_resolve hcwd
  · exact plain_resolve hcwd

/-- Without links, a walk leads where it says. -/
theorem walk_plain (hlinks : ∀ p target, t.entry p ≠ some (.link target))
    {onLink : Path → String → List String → Except Errno Path} {follow : Bool}
    {names : List String} :
    ∀ {here q : Path}, (∀ n ∈ names, Plain n) → t.walk onLink follow here names = .ok q →
      q = here ++ names := by
  induction names with
  | nil =>
    intro here q _ h
    rw [List.append_nil]
    exact (Except.ok.inj h).symm
  | cons n rest ih =>
    intro here q hnames h
    obtain ⟨hempty, hdot, hup⟩ := hnames n (.head _)
    have hsplit : here ++ n :: rest = here ++ [n] ++ rest := by simp
    rw [Tree.walk, if_neg (not_or.mpr ⟨hempty, hdot⟩), if_neg hup] at h
    rw [hsplit]
    split at h
    · cases h
    · split at h
      · rename_i hrest
        rw [hrest, List.append_nil]
        exact (Except.ok.inj h).symm
      · cases h
    · exact ih (fun m hm => hnames m (.tail _ hm)) h
    · rename_i target htarget
      exact absurd htarget (hlinks _ target)

/-- Without links, the canonical root is the configured one. -/
theorem root_of_realpath {t₁ : Tree} {root : Path}
    (hlinks : ∀ p target, t.entry p ≠ some (.link target)) (hmade : RootMade provider t t₁)
    (hroot : t₁.realpath provider.rootPath = .ok root) : root = provider.rootPath := by
  have hlinks₁ : ∀ p target, t₁.entry p ≠ some (.link target) := by
    intro p target
    obtain hp | ⟨-, hdir, -⟩ := hmade p
    · rw [hp]
      exact hlinks p target
    · rw [hdir]
      simp
  unfold Tree.realpath Tree.find at hroot
  split at hroot
  · cases hroot
  · obtain ⟨onLink, hwalk⟩ := Tree.resolve_eq_walk t₁ true 40
    rw [hwalk] at hroot
    simpa using walk_plain hlinks₁ (plain_rootPath provider) hroot

/-- Where the key has no file, an upload destroys nothing. -/
theorem neverDestroys_of_no_file (hlinks : ∀ p target, t.entry p ≠ some (.link target))
    (hnone : ∀ content, t.entry (provider.rootPath ++ segments key) ≠ some (.file content)) :
    NeverDestroys provider t key := by
  intro file faults r d' hrun
  obtain ⟨hok, herror⟩ := upload_spec provider file key ⟨t, faults⟩ rfl
  have absent : ∀ {t₁ t₂ : Tree}, t₁.Below t₂ → ∀ {p}, t₂.entry p = none → t₁.entry p = none := by
    intro t₁ t₂ h p hp
    by_contra hsome
    obtain ⟨e, he⟩ := Option.ne_none_iff_exists'.mp hsome
    cases (h p e he).symm.trans hp
  cases r with
  | ok k =>
    obtain ⟨t₁, t₂, root, hmade, hroot, -, hgrown, hfree, hentry⟩ := hok k d' hrun
    obtain rfl := root_of_realpath hlinks hmade hroot
    refine ⟨fun _ _ => ⟨?_, ?_⟩, fun e he => (by cases he), fun p content hp => ?_⟩
    · exact absent (below_of_added hmade) (absent (below_of_added hgrown) hfree)
    · rw [hentry, Function.update_self]
    · rw [hentry, Function.update_of_ne hp, files_of_added hgrown, files_of_added hmade]
  | error e =>
    obtain ⟨t₁, hmade, ht | ⟨t₂, root, hroot, -, hgrown, hentry⟩⟩ := herror e d' hrun
    · refine ⟨fun k hk => (by cases hk), fun _ _ p content hp => ?_, fun p content _ => ?_⟩
      · rwa [ht, files_of_added hmade]
      · rw [ht, files_of_added hmade]
    · obtain rfl := root_of_realpath hlinks hmade hroot
      refine ⟨fun k hk => (by cases hk), fun _ _ p content hp => ?_, fun p content hp => ?_⟩
      · have hne : p ≠ provider.rootPath ++ segments key := by
          rintro rfl
          exact hnone content hp
        rwa [hentry p hne, files_of_added hgrown, files_of_added hmade]
      · rw [hentry p hp, files_of_added hgrown, files_of_added hmade]

/-! ## Where the key has a file -/

/-- A directory that exists is not made. -/
theorem mkdir_exists {p : Path} {n : String} (h : t.entry (p ++ [n]) = some .directory) :
    change (·.mkdir (p ++ [n])) ⟨t, []⟩ = (.error (.errno .EEXIST), ⟨t, []⟩) := by
  have hne : t.entry (p ++ [n]) ≠ none := by
    rw [h]
    simp
  exact change_calm_error (Tree.add_child_exists (t.parent p n hne) (t.name p n hne) hne)

/-- A directory that exists is not made, nor are its parents. -/
theorem mkdirRecursive_calm {p : Path} (h : t.entry p = some .directory) :
    mkdirRecursive p.reverse ⟨t, []⟩ = (.ok (), ⟨t, []⟩) := by
  induction p using List.reverseRecOn with
  | nil => rfl
  | append_singleton q n _ =>
    rw [List.reverse_append, List.reverse_singleton, List.singleton_append]
    unfold mkdirRecursive
    rw [List.reverse_cons, List.reverse_reverse, tryCatch_of_error (mkdir_exists h)]
    change (look (·.stat (q ++ [n])) >>= fun stat =>
      if stat = .directory then pure () else throw (.errno .EEXIST)) _ = _
    rw [bind_of_ok (look_calm (Tree.stat_self h fun target => by simp)), if_pos rfl]
    rfl

/-- A root that exists is not made. -/
theorem getRealRoot_calm (h : t.entry provider.rootPath = some .directory) :
    provider.getRealRoot true ⟨t, []⟩ = (.ok provider.rootPath, ⟨t, []⟩) := by
  have hnone : ∀ target, Entry.directory ≠ .link target := fun target => by simp
  unfold getRealRoot
  rw [if_pos rfl, bind_of_ok (mkdirRecursive_calm h), bind_of_ok (look_calm
    (Tree.realpath_self h hnone)), bind_of_ok (look_calm (Tree.stat_self h hnone)),
    if_neg (by simp)]
  rfl

/-- A directory below the root that exists is not made. -/
theorem ensureDirectory_calm {root q : Path} {n : String} (hq : ∀ m ∈ q ++ [n], IsName m)
    (h : t.entry (root ++ (q ++ [n])) = some .directory) :
    ensureDirectory root (root ++ (q ++ [n])) ⟨t, []⟩ = (.ok (), ⟨t, []⟩) := by
  have hsplit : root ++ (q ++ [n]) = root ++ q ++ [n] := (List.append_assoc _ _ _).symm
  have hne : t.entry (root ++ q ++ [n]) ≠ none := by
    rw [← hsplit, h]
    simp
  have hmkdir : (tryCatch (change (·.mkdir (root ++ (q ++ [n])))) (passOver .EEXIST)) ⟨t, []⟩ =
      (.ok (), ⟨t, []⟩) := by
    rw [hsplit] at h ⊢
    exact tryCatch_of_error (mkdir_exists h)
  have hlstat : t.lstat (root ++ (q ++ [n])) = .ok .directory := by
    rw [hsplit, Tree.lstat_child (t.parent _ n hne) (t.name _ n hne), ← hsplit, h]
    rfl
  unfold ensureDirectory
  rw [bind_of_ok hmkdir, bind_of_ok (look_calm hlstat), if_neg (by simp),
    bind_of_ok (look_calm (Tree.realpath_self h fun target => by simp)),
    assertContained_append (by simp) hq]
  rfl

/-- Directories that exist are not made. -/
theorem ensureDirectories_calm {root : Path} {names : List String} :
    ∀ {q : Path}, t.entry (root ++ q ++ names) = some .directory →
      ensureDirectories root (root ++ q) names ⟨t, []⟩ = (.ok (), ⟨t, []⟩) := by
  induction names with
  | nil => exact fun _ => rfl
  | cons n rest ih =>
    intro q h
    have hsplit : root ++ q ++ n :: rest = root ++ (q ++ [n]) ++ rest := by simp
    rw [hsplit] at h
    have hfirst : t.entry (root ++ (q ++ [n])) = some .directory := by
      by_cases hrest : rest = []
      · rwa [hrest, List.append_nil] at h
      · exact Tree.entry_of_append h hrest
    have hnames : ∀ m ∈ root ++ (q ++ [n]), IsName m := fun m hm => Tree.isName_of_mem hfirst hm
    unfold ensureDirectories
    rw [NodePath.join_name (hnames n (by simp)), List.append_assoc root q [n], bind_of_ok
      (ensureDirectory_calm (fun m hm => hnames m (List.mem_append_right _ hm)) hfirst)]
    exact ih h

/-- Where the key has a file, an upload destroys it. -/
theorem destroys {content : List UInt8} (hkey : acceptsKey key = true)
    (hfile : t.entry (provider.rootPath ++ segments key) = some (.file content)) :
    ∃ d', provider.upload ⟨[], none⟩ key ⟨t, []⟩ = (.error (.errno .EEXIST), d') ∧
      d'.tree.entry (provider.rootPath ++ segments key) = none := by
  have hroot := Tree.entry_of_append hfile (segments_ne_nil key)
  obtain ⟨q, n, hsegments⟩ := List.eq_nil_or_concat' (segments key) |>.resolve_left
    (segments_ne_nil key)
  have hensure : ensureSafeDirectories provider.rootPath
      (NodePath.dirname (provider.rootPath ++ segments key)) ⟨t, []⟩ = (.ok (), ⟨t, []⟩) := by
    rw [ensureSafeDirectories_key hkey, hsegments, List.dropLast_concat]
    rw [hsegments, ← List.append_assoc] at hfile
    have hdir : t.entry (provider.rootPath ++ [] ++ q) = some .directory := by
      rw [List.append_nil]
      exact t.parent _ n (by rw [hfile]; simp)
    have hcalm : ensureDirectories provider.rootPath (provider.rootPath ++ []) q ⟨t, []⟩ =
        (.ok (), ⟨t, []⟩) := ensureDirectories_calm hdir
    rwa [List.append_nil] at hcalm
  rw [hsegments, ← List.append_assoc] at hfile ⊢
  have hne : t.entry (provider.rootPath ++ q ++ [n]) ≠ none := by
    rw [hfile]
    simp
  have hcreate : t.create (provider.rootPath ++ q ++ [n]) = .error .EEXIST :=
    Tree.add_child_exists (t.parent _ n hne) (t.name _ n hne) hne
  obtain ⟨t', hunlink⟩ := Tree.unlink_file hfile
  have hgone : t'.entry (provider.rootPath ++ q ++ [n]) = none := by
    obtain ⟨dir, m, e, hlocate, -, -, hentry⟩ := Tree.unlink_ok hunlink
    rw [Tree.locate_entry hfile hlocate] at hentry
    rw [hentry, Function.update_self]
  refine ⟨⟨t', []⟩, ?_, hgone⟩
  rw [hsegments, ← List.append_assoc] at hensure
  unfold upload
  rw [bind_of_ok (getRealRoot_calm hroot), resolveKey_accepted _ hkey, pure_bind, hsegments,
    ← List.append_assoc, bind_of_ok hensure]
  refine bind_of_error ?_
  have hpipeline : pipeline ⟨[], none⟩ (provider.rootPath ++ q ++ [n]) ⟨t, []⟩ =
      (.error (.errno .EEXIST), ⟨t, []⟩) := bind_of_error (change_calm_error hcreate)
  rw [tryCatch_of_error hpipeline, bind_of_ok (tryCatch_of_ok (change_calm hunlink))]
  rfl

/-- Over a tree without links, an upload for an accepted key destroys no data, whatever the stream is
and whichever calls fail, exactly where the key has no file. -/
theorem upload_never_destroys_iff (hlinks : ∀ p target, t.entry p ≠ some (.link target))
    (hkey : acceptsKey key = true) :
    NeverDestroys provider t key ↔
      ∀ content, t.entry (provider.rootPath ++ segments key) ≠ some (.file content) := by
  constructor
  · intro h content hfile
    obtain ⟨d', hrun, hgone⟩ := destroys hkey hfile
    have hkept := (h _ _ _ d' hrun).2.1 _ rfl _ content hfile
    cases hkept.symm.trans hgone
  · exact neverDestroys_of_no_file hlinks

/-- A directory that is empty. -/
def servedTree : Tree := emptyTree.put [] "srv" .directory rfl (by decide) (by decide)

/-- An upload of a new key to an empty directory. -/
theorem upload_new_key :
    NeverDestroys ⟨[], by simp, some "/srv"⟩ servedTree "a.txt" ↔
      ∀ content, servedTree.entry ["srv", "a.txt"] ≠ some (.file content) :=
  upload_never_destroys_iff
    (by
      intro p target
      change Function.update (fun p => if p = [] then some Entry.directory else none) ["srv"]
        (some .directory) p ≠ _
      simp only [Function.update_apply]
      split_ifs <;> simp)
    (by decide)

/-- A directory with one file. -/
def storedTree : Tree :=
  servedTree.put ["srv"] "a.txt" (.file [1]) (by decide) (by decide) (by decide)

/-- The second upload for a key destroys what the first one stored. -/
theorem second_upload_destroys :
    ¬∀ (provider : LocalProvider) (t : Tree) (key : String),
      (∀ p target, t.entry p ≠ some (.link target)) → acceptsKey key = true →
        NeverDestroys provider t key := by
  intro h
  have hnever := h ⟨[], by simp, some "/srv"⟩ storedTree "a.txt" ?_ (by decide)
  · have hkept := (hnever ⟨[[2]], none⟩ [] _ _ rfl).2.1 (.errno .EEXIST) rfl ["srv", "a.txt"] [1] rfl
    cases hkept
  · intro p target
    change Function.update (Function.update (fun p => if p = [] then some Entry.directory else none)
      ["srv"] (some .directory)) ["srv", "a.txt"] (some (.file [1])) p ≠ _
    simp only [Function.update_apply]
    split_ifs <;> simp

end Reeva
