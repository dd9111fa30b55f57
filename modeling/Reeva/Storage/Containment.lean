import Reeva.Storage.LocalProvider

/-!
# Containment of the local storage

Whatever files, directories and links there are, the local provider reads and deletes only the regular
file whose path from the canonical root is the key, and creates and removes nothing outside the root
except the root itself with its parents (`containment`). The checks that this takes, of the key, of
the resolved path, of every component, and of the canonical path, are specified one by one before.
-/

open Filesystem

namespace Reeva

namespace NodePath

/-- A name is pushed as it is. -/
theorem push_name {p : Path} {n : String} (hn : IsName n) : push p n = p ++ [n] := by
  rw [push, if_neg (not_or.mpr ⟨hn.1, hn.2.1⟩), if_neg hn.2.2.1]

/-- A name is joined as it is. -/
theorem join_name {p : Path} {n : String} (hn : IsName n) : join p n = p ++ [n] := by
  rw [join, Tree.components_of_notMem hn.2.2.2.1, List.foldl_cons, List.foldl_nil, push_name hn]

/-- A name is not absolute. -/
theorem isAbsolute_name {n : String} (hn : IsName n) : isAbsolute n = false := by
  rw [isAbsolute, decide_eq_false_iff_not]
  exact fun h => hn.2.2.2.1 (List.mem_of_head? h)

/-- Names are resolved to what they name from the base. -/
theorem resolve_names {names : List String} :
    ∀ {base : Path}, (∀ n ∈ names, IsName n) → resolve base names = base ++ names := by
  induction names with
  | nil => exact fun _ => (List.append_nil _).symm
  | cons n names ih =>
    intro base h
    have hn := h n (.head _)
    have hstep : resolve base (n :: names) = resolve (base ++ [n]) names := by
      unfold resolve
      rw [List.foldl_cons, isAbsolute_name hn, Tree.components_of_notMem hn.2.2.2.1, List.foldl_cons,
        List.foldl_nil, if_neg Bool.false_ne_true, push_name hn]
    rw [hstep, ih fun m hm => h m (.tail _ hm)]
    simp

/-- What is below a path is relative to it what follows. -/
theorem relative_append (p q : Path) : relative p (p ++ q) = q := by
  induction p with
  | nil => cases q <;> rfl
  | cons m p ih => rw [List.cons_append, relative, if_pos rfl, ih]

end NodePath

namespace LocalProvider

/-- The segments of an accepted key are names. -/
theorem isName_of_mem_segments {key n : String} (h : acceptsKey key = true)
    (hn : n ∈ segments key) : IsName n := by
  simp only [acceptsKey, Bool.not_eq_true', Bool.or_eq_false_iff, decide_eq_false_iff_not,
    List.any_eq_false, Bool.or_eq_true, decide_eq_true_eq, not_or] at h
  obtain ⟨⟨⟨⟨-, hnul⟩, -⟩, -⟩, hsegments⟩ := h
  obtain ⟨hsep, hchars⟩ := Tree.of_mem_components hn
  obtain ⟨⟨hempty, hdot⟩, hup⟩ := hsegments n hn
  refine ⟨hempty, hdot, hup, hsep, fun hmem => ?_⟩
  have hin := hchars _ hmem
  simp [hin] at hnul

/-- A key has a segment. -/
theorem segments_ne_nil (key : String) : segments key ≠ [] := Tree.components_ne_nil key

/-- Names do not leave the directory that they start from. -/
theorem leaves_names {q : Path} (hnames : ∀ n ∈ q, IsName n) : NodePath.leaves q = false := by
  rw [NodePath.leaves, decide_eq_false_iff_not]
  exact fun h => (hnames _ (List.mem_of_head? h)).2.2.1 rfl

/-- No name is empty. -/
theorem filter_names {q : Path} (hnames : ∀ n ∈ q, IsName n) : q.filter (· ≠ "") = q :=
  List.filter_eq_self.mpr fun n hn => decide_eq_true (hnames n hn).1

/-- What is below the root is contained. -/
theorem assertContained_append {root q : Path} (hq : q ≠ []) (hnames : ∀ n ∈ q, IsName n) :
    assertContained root (root ++ q) = pure () := by
  unfold assertContained
  rw [NodePath.relative_append]
  dsimp only
  rw [leaves_names hnames]
  exact if_neg (by simpa using hq)

/-- An accepted key is resolved to its segments from the root. -/
theorem resolveKey_accepted (root : Path) {key : String} (h : acceptsKey key = true) :
    resolveKey root key = pure (root ++ segments key) := by
  have hnames : ∀ n ∈ segments key, IsName n := fun n hn => isName_of_mem_segments h hn
  unfold resolveKey
  rw [if_neg (by simp [h]), NodePath.resolve_names hnames]
  dsimp only
  rw [assertContained_append (segments_ne_nil key) hnames]
  rfl

/-- Any other key is refused. -/
theorem resolveKey_refused (root : Path) {key : String} (h : acceptsKey key = false) :
    resolveKey root key = throw (.message "Invalid storage key.") := if_pos h

/-- Every key that is refused is of the kinds that have to be. -/
theorem acceptsKey_eq_false {key : String} :
    acceptsKey key = false ↔ key = "" ∨ NodePath.isAbsolute key = true ∨ '\\' ∈ key.toList ∨
      Char.ofNat 0 ∈ key.toList ∨ "" ∈ segments key ∨ "." ∈ segments key ∨ ".." ∈ segments key := by
  simp only [acceptsKey, Bool.not_eq_false', Bool.or_eq_true, decide_eq_true_eq,
    List.contains_iff_mem, List.any_eq_true]
  constructor
  · rintro ((((h | h) | h) | h) | ⟨n, hn, (rfl | rfl) | rfl⟩)
    · exact .inl h
    · exact .inr (.inr (.inr (.inl h)))
    · exact .inr (.inr (.inl h))
    · exact .inr (.inl h)
    · exact .inr (.inr (.inr (.inr (.inl hn))))
    · exact .inr (.inr (.inr (.inr (.inr (.inl hn)))))
    · exact .inr (.inr (.inr (.inr (.inr (.inr hn)))))
  · rintro (h | h | h | h | h | h | h)
    · exact .inl (.inl (.inl (.inl h)))
    · exact .inl (.inr h)
    · exact .inl (.inl (.inr h))
    · exact .inl (.inl (.inl (.inr h)))
    · exact .inr ⟨_, h, .inl (.inl rfl)⟩
    · exact .inr ⟨_, h, .inl (.inr rfl)⟩
    · exact .inr ⟨_, h, .inr rfl⟩

variable (provider : LocalProvider) {key : String} {t : Tree}

/-- The canonical root is a directory, at the configured path. -/
theorem getRealRoot_spec :
    Triple (· = t) (provider.getRealRoot false)
      (fun root t' => t' = t ∧ t.realpath provider.rootPath = .ok root ∧
        t.entry root = some .directory) (fun _ t' => t' = t) := by
  unfold getRealRoot
  refine .bind (Q := fun _ t' => t' = t) (.pure fun _ h => h) fun _ => ?_
  refine .bind (Q := fun root t' => t' = t ∧ t.realpath provider.rootPath = .ok root)
    (.look (fun t' root ht hroot => ⟨ht, ht ▸ hroot⟩) fun t' _ ht => ht) fun root => ?_
  refine .bind (Q := fun stat t' => (t' = t ∧ t.realpath provider.rootPath = .ok root) ∧
    t.entry root = some stat) (.look (fun t' stat ht hstat => ⟨ht, ?_⟩) fun t' _ ht => ht.1)
    fun stat => ?_
  · obtain ⟨rfl, hroot⟩ := ht
    obtain ⟨e, he, hlink⟩ := Tree.find_ok hroot
    rw [Tree.stat_self he (hlink rfl)] at hstat
    rw [he, Except.ok.inj hstat]
  · split
    · exact .throw fun t' ht => ht.1.1
    · rename_i hdir
      rw [not_not] at hdir
      exact .pure fun t' ht => ⟨ht.1.1, ht.1.2, hdir ▸ ht.2⟩

/-- The walk along a path accepts it only where directories lead to an entry that is no link. -/
theorem assertDirectories_spec {names : List String} :
    ∀ {current : Path}, (∀ n ∈ names, IsName n) → names ≠ [] →
      t.entry current = some .directory →
      Triple (· = t) (assertDirectories current names)
        (fun _ t' => t' = t ∧ ∃ e, t.entry (current ++ names) = some e ∧ ∀ target, e ≠ .link target)
        (fun _ t' => t' = t) := by
  induction names with
  | nil => exact fun _ hne => absurd rfl hne
  | cons n rest ih =>
    intro current hnames _ hdir
    have hn := hnames n (.head _)
    unfold assertDirectories
    rw [NodePath.join_name hn]
    refine .bind (Q := fun stat t' => t' = t ∧ t.entry (current ++ [n]) = some stat)
      (.look (fun t' stat ht hstat => ⟨ht, ?_⟩) fun t' _ ht => ht) fun stat => ?_
    · subst ht
      rw [Tree.lstat_child hdir hn] at hstat
      exact Tree.present_ok hstat
    · have hsplit : current ++ n :: rest = current ++ [n] ++ rest := by simp
      cases stat with
      | link target => exact .throw fun t' ht => ht.1
      | directory =>
        by_cases hrest : rest = []
        · subst hrest
          exact .pure fun t' ht => ⟨ht.1, _, ht.2, fun target => by simp⟩
        · rw [hsplit]
          intro d hd
          exact ih (fun m hm => hnames m (.tail _ hm)) hrest hd.2 d hd.1
      | file content =>
        dsimp only
        split
        · exact .throw fun t' ht => ht.1
        · rename_i hrest
          rw [not_not] at hrest
          subst hrest
          exact .pure fun t' ht => ⟨ht.1, _, ht.2, fun target => by simp⟩

/-- What is below the root is walked along. -/
theorem assertNoSymlinkPath_append {root q : Path} (hnames : ∀ n ∈ q, IsName n) :
    assertNoSymlinkPath root (root ++ q) = assertDirectories root q := by
  unfold assertNoSymlinkPath
  rw [NodePath.relative_append]
  dsimp only
  rw [leaves_names hnames, filter_names hnames]
  exact if_neg Bool.false_ne_true

/-- The file of a key: the regular file whose path from the canonical root is the key. -/
def FileOf (t : Tree) (key : String) (p : Path) (content : List UInt8) : Prop :=
  acceptsKey key = true ∧ ∃ root, t.realpath provider.rootPath = .ok root ∧
    t.entry root = some .directory ∧ p = root ++ segments key ∧ t.entry p = some (.file content)

/-- The checks before a file is used, common to reading and deleting. -/
theorem checked_spec {α : Type} (use : Path → Entry → Process α) {Q : α → Tree → Prop}
    {F : Failure → Tree → Prop} (hF : ∀ e, F e t)
    (h : ∀ root e, t.realpath provider.rootPath = .ok root → t.entry root = some .directory →
      acceptsKey key = true → t.entry (root ++ segments key) = some e →
      (∀ target, e ≠ .link target) →
      Triple (· = t) (use (root ++ segments key) e) Q F) :
    Triple (· = t) (do
      let root ← provider.getRealRoot false
      let fullPath ← resolveKey root key
      assertNoSymlinkPath root fullPath
      let canonicalPath ← look (·.realpath fullPath)
      assertContained root canonicalPath
      let stat ← look (·.stat canonicalPath)
      use canonicalPath stat) Q F := by
  refine .bind ((getRealRoot_spec provider).weaken (fun _ h => h) (fun _ _ h => h)
    fun e _ h => h ▸ hF e) fun root => ?_
  cases hkey : acceptsKey key with
  | false =>
    rw [resolveKey_refused root hkey]
    exact .bind (Q := fun _ _ => False) (.throw fun t' ht => ht.1 ▸ hF _) fun _ _ hd => hd.elim
  | true =>
    have hnames : ∀ n ∈ segments key, IsName n := fun n hn => isName_of_mem_segments hkey hn
    rw [resolveKey_accepted root hkey]
    refine .given fun ⟨hroot, hdir⟩ => ?_
    rw [pure_bind, assertNoSymlinkPath_append hnames]
    refine .bind (assertDirectories_spec hnames (segments_ne_nil key) hdir |>.weaken
      (fun _ h => h) (fun _ _ h => h) fun e _ h => h ▸ hF e) fun _ => ?_
    refine .given fun ⟨e, he, hlink⟩ => ?_
    refine .bind (Q := fun p t' => t' = t ∧ p = root ++ segments key)
      (.look (fun t' p ht hp => ⟨ht, ?_⟩) fun t' e ht => ht ▸ hF _) fun p => .given ?_
    · rw [ht, Tree.realpath_self he hlink] at hp
      exact (Except.ok.inj hp).symm
    rintro rfl
    rw [assertContained_append (segments_ne_nil key) hnames, pure_bind]
    refine .bind (Q := fun stat t' => t' = t ∧ stat = e)
      (.look (fun t' stat ht hstat => ⟨ht, ?_⟩) fun t' e ht => ht ▸ hF _) fun stat => .given ?_
    · rw [ht, Tree.stat_self he hlink] at hstat
      exact (Except.ok.inj hstat).symm
    rintro rfl
    exact h root stat hroot hdir hkey he hlink

/-- What is read is the file of the key. -/
theorem getStream_spec :
    Triple (· = t) (provider.getStream key)
      (fun stream t' => t' = t ∧ FileOf provider t key stream.path stream.content)
      (fun _ t' => t' = t) := by
  refine checked_spec provider openStream (fun _ => rfl) ?_
  intro root e hroot hdir hkey he hlink
  cases e with
  | file content =>
    refine .bind (Q := fun bytes t' => t' = t ∧ bytes = content)
      (.look (fun t' bytes ht hbytes => ⟨ht, ?_⟩) fun t' e ht => ht) fun bytes => .given ?_
    · rw [ht, Tree.readNoFollow_self he] at hbytes
      exact (Except.ok.inj hbytes).symm
    · rintro rfl
      exact .pure fun t' ht => ⟨ht, hkey, root, hroot, hdir, rfl, he⟩
  | directory => exact .throw fun t' ht => ht
  | link target => exact .throw fun t' ht => ht

/-- What is deleted is the file of the key, and nothing else changes. -/
theorem deleteFile_spec :
    Triple (· = t) (provider.deleteFile key)
      (fun _ t' => t' = t ∨ ∃ p content, FileOf provider t key p content ∧
        t'.entry = Function.update t.entry p none)
      (fun _ t' => t' = t) := by
  refine checked_spec provider removeFile (fun _ => rfl) ?_
  intro root e hroot hdir hkey he hlink
  cases e with
  | file content =>
    change Triple _ (Filesystem.change fun t' => t'.unlink (root ++ segments key)) _ _
    refine .change (fun t' t'' ht hunlink => ?_) fun t' e ht => ht
    subst ht
    right
    obtain ⟨dir, n, e, hlocate, -, -, hentry⟩ := Tree.unlink_ok hunlink
    rw [Tree.locate_entry he hlocate] at hentry
    exact ⟨_, content, ⟨hkey, root, hroot, hdir, rfl, he⟩, hentry⟩
  | directory => exact .pure fun t' ht => .inl ht
  | link target => exact .pure fun t' ht => .inl ht

/-! ## Uploads -/

/-- The difference that creating a missing root makes: directories at the paths that the configured
path and its parents lead to. -/
def RootMade (t t' : Tree) : Prop :=
  ∀ p, t'.entry p = t.entry p ∨ t.entry p = none ∧ t'.entry p = some .directory ∧
    ∃ q, q <+: provider.rootPath ∧ t'.realpath q = .ok p

/-- The difference that creating missing directories below the root makes. -/
def Grown (root : Path) (t t' : Tree) : Prop :=
  ∀ p, t'.entry p = t.entry p ∨ t.entry p = none ∧ t'.entry p = some .directory ∧
    ∃ q, q ≠ [] ∧ p = root ++ q

/-- Both differences only add entries. -/
theorem below_of_added {t t' : Tree} {C : Path → Prop}
    (h : ∀ p, t'.entry p = t.entry p ∨ t.entry p = none ∧ t'.entry p = some .directory ∧ C p) :
    t.Below t' := by
  intro p e he
  obtain hp | ⟨hnone, -⟩ := h p
  · rwa [hp]
  · cases hnone.symm.trans he

/-- Both differences leave every file as it is. -/
theorem files_of_added {t t' : Tree} {C : Path → Prop}
    (h : ∀ p, t'.entry p = t.entry p ∨ t.entry p = none ∧ t'.entry p = some .directory ∧ C p)
    (p : Path) (content : List UInt8) :
    t'.entry p = some (.file content) ↔ t.entry p = some (.file content) := by
  obtain hp | ⟨hnone, hdir, -⟩ := h p
  · rw [hp]
  · rw [hnone, hdir]
    simp

theorem RootMade.refl (t : Tree) : RootMade provider t t := fun _ => .inl rfl

/-- One difference after another. -/
theorem RootMade.trans {t₁ t₂ t₃ : Tree} (h : RootMade provider t₁ t₂)
    (h' : RootMade provider t₂ t₃) : RootMade provider t₁ t₃ := by
  intro p
  obtain hp' | ⟨hnone', hdir', hq'⟩ := h' p
  · obtain hp | ⟨hnone, hdir, q, hq, hreal⟩ := h p
    · exact .inl (hp'.trans hp)
    · exact .inr ⟨hnone, hp'.trans hdir, q, hq, Tree.find_mono (below_of_added h') hreal⟩
  · obtain hp | ⟨hnone, hdir, -⟩ := h p
    · exact .inr ⟨hp ▸ hnone', hdir', hq'⟩
    · cases hnone'.symm.trans hdir

theorem Grown.refl (root : Path) (t : Tree) : Grown root t t := fun _ => .inl rfl

/-- One difference after another. -/
theorem Grown.trans {root : Path} {t₁ t₂ t₃ : Tree} (h : Grown root t₁ t₂)
    (h' : Grown root t₂ t₃) : Grown root t₁ t₃ := by
  intro p
  obtain hp' | ⟨hnone', hdir', hq'⟩ := h' p
  · obtain hp | ⟨hnone, hdir, hq⟩ := h p
    · exact .inl (hp'.trans hp)
    · exact .inr ⟨hnone, hp'.trans hdir, hq⟩
  · obtain hp | ⟨hnone, hdir, -⟩ := h p
    · exact .inr ⟨hp ▸ hnone', hdir', hq'⟩
    · cases hnone'.symm.trans hdir

/-- What `mkdir` makes of the configured path or of a parent. -/
theorem rootMade_mkdir {t t' : Tree} {p : Path} (hp : p <+: provider.rootPath)
    (h : t.mkdir p = .ok t') : RootMade provider t t' := by
  obtain ⟨dir, n, hlocate, hdir, hnone, hentry⟩ := Tree.add_ok h
  obtain ⟨q, rfl, hfind, -⟩ := Tree.locate_ok hlocate
  have hnew : t'.entry (dir ++ [n]) = some .directory := by
    rw [hentry, Function.update_self]
  have hold : ∀ r, r ≠ dir ++ [n] → t'.entry r = t.entry r := fun r hr => by
    rw [hentry, Function.update_of_ne hr]
  have hbelow : t.Below t' := by
    intro r e he
    by_cases hr : r = dir ++ [n]
    · cases hnone.symm.trans (hr ▸ he)
    · rwa [hold r hr]
  intro r
  by_cases hr : r = dir ++ [n]
  · subst hr
    refine .inr ⟨hnone, hnew, q ++ [n], hp, ?_⟩
    exact Tree.find_snoc (Tree.find_mono hbelow hfind) (hbelow _ _ hdir) hnew fun target => by simp
  · exact .inl (hold r hr)

/-- Creating a directory with its parents creates nothing else. -/
theorem mkdirRecursive_spec : ∀ {up : List String}, up.reverse <+: provider.rootPath →
    Triple (RootMade provider t) (mkdirRecursive up) (fun _ => RootMade provider t)
      (fun _ => RootMade provider t) := by
  intro up
  induction up with
  | nil => exact fun _ => .pure fun _ h => h
  | cons n up ih =>
    intro hup
    have hmkdir : Triple (RootMade provider t) (change (·.mkdir (n :: up).reverse))
        (fun _ => RootMade provider t) (fun _ => RootMade provider t) :=
      .change (fun t₁ t₂ h₁ hm => h₁.trans provider (rootMade_mkdir provider hup hm)) fun _ _ h => h
    have hsettle : ∀ failure, Triple (RootMade provider t) (settle (n :: up).reverse failure)
        (fun _ => RootMade provider t) (fun _ => RootMade provider t) := by
      intro failure
      unfold settle
      split
      · exact .throw fun _ h => h
      · exact .throw fun _ h => h
      · refine .bind (Q := fun _ => RootMade provider t) (.look (fun _ _ h _ => h) fun _ _ h => h)
          fun stat => ?_
        split
        · exact .pure fun _ h => h
        · exact .throw fun _ h => h
      · exact .throw fun _ h => h
    have hrest : up.reverse <+: provider.rootPath := by
      rw [List.reverse_cons] at hup
      exact (List.prefix_append _ _).trans hup
    unfold mkdirRecursive
    refine .tryCatch hmkdir fun failure => ?_
    split
    · exact .bind (ih hrest) fun _ => .tryCatch hmkdir hsettle
    · exact hsettle _

/-- The canonical root of an upload is a directory, at the configured path. -/
theorem getRealRoot_create_spec :
    Triple (· = t) (provider.getRealRoot true)
      (fun root t' => RootMade provider t t' ∧ t'.realpath provider.rootPath = .ok root ∧
        t'.entry root = some .directory) (fun _ => RootMade provider t) := by
  have hmade : ∀ t', t' = t → RootMade provider t t' := fun t' ht => ht ▸ .refl provider t
  unfold getRealRoot
  refine .bind ((mkdirRecursive_spec provider (t := t) ?_).weaken hmade (fun _ _ h => h)
    fun _ _ h => h) fun _ => ?_
  · simp only [List.reverse_reverse, List.prefix_rfl]
  refine .bind (Q := fun root t' => RootMade provider t t' ∧
      t'.realpath provider.rootPath = .ok root)
    (.look (fun t' root ht hroot => ⟨ht, hroot⟩) fun _ _ ht => ht) fun root => ?_
  refine .bind (Q := fun stat t' => (RootMade provider t t' ∧
      t'.realpath provider.rootPath = .ok root) ∧ t'.entry root = some stat)
    (.look (fun t' stat ht hstat => ⟨ht, ?_⟩) fun _ _ ht => ht.1) fun stat => ?_
  · obtain ⟨e, he, hlink⟩ := Tree.find_ok ht.2
    rw [Tree.stat_self he (hlink rfl)] at hstat
    rw [he, Except.ok.inj hstat]
  · split
    · exact .throw fun t' ht => ht.1.1
    · rename_i hdir
      rw [not_not] at hdir
      exact .pure fun t' ht => ⟨ht.1.1, ht.1.2, hdir ▸ ht.2⟩

/-- What `mkdir` makes of a name in a directory below the root. -/
theorem grown_mkdir {t t' : Tree} {root q : Path} {n : String} (hn : IsName n)
    (hdir : t.entry (root ++ q) = some .directory) (h : t.mkdir (root ++ q ++ [n]) = .ok t') :
    Grown root t t' := by
  obtain ⟨dir, m, hlocate, -, hnone, hentry⟩ := Tree.add_ok h
  rw [Tree.locate_child hdir hn] at hlocate
  obtain ⟨rfl, rfl⟩ := Prod.mk.inj (Except.ok.inj hlocate)
  intro p
  by_cases hp : p = root ++ q ++ [n]
  · subst hp
    exact .inr ⟨hnone, by rw [hentry, Function.update_self], q ++ [n], by simp, by simp⟩
  · exact .inl (by rw [hentry, Function.update_of_ne hp])

/-- One directory below the root is made where it is missing, and nothing else. -/
theorem ensureDirectory_spec {root q : Path} {n : String} (hq : ∀ m ∈ q ++ [n], IsName m) :
    Triple (fun t' => Grown root t t' ∧ t'.entry (root ++ q) = some .directory)
      (ensureDirectory root (root ++ (q ++ [n])))
      (fun _ t' => Grown root t t' ∧ t'.entry (root ++ (q ++ [n])) = some .directory)
      (fun _ t' => Grown root t t') := by
  have hn := hq n (by simp)
  unfold ensureDirectory
  refine .bind (Q := fun _ t' => Grown root t t' ∧ t'.entry (root ++ q) = some .directory)
    (.tryCatch (F := fun _ t' => Grown root t t' ∧ t'.entry (root ++ q) = some .directory)
      (.change (fun t₁ t₂ h hm => ?_) fun _ _ h => h) fun failure => ?_) fun _ => ?_
  · rw [← List.append_assoc] at hm
    have hgrown := grown_mkdir hn h.2 hm
    exact ⟨h.1.trans hgrown, below_of_added hgrown _ _ h.2⟩
  · unfold passOver
    split
    · exact .pure fun _ h => h
    · exact .throw fun _ h => h.1
  refine .bind (Q := fun stat t' => (Grown root t t' ∧ t'.entry (root ++ q) = some .directory) ∧
      t'.entry (root ++ (q ++ [n])) = some stat)
    (.look (fun t' stat h hstat => ⟨h, ?_⟩) fun _ _ h => h.1) fun stat => ?_
  · rw [← List.append_assoc] at hstat ⊢
    rw [Tree.lstat_child h.2 hn] at hstat
    exact Tree.present_ok hstat
  · split
    · exact .throw fun _ h => h.1.1
    · rename_i hdir
      rw [not_not] at hdir
      subst hdir
      refine .bind (Q := fun real t' => (Grown root t t' ∧
          t'.entry (root ++ (q ++ [n])) = some .directory) ∧ real = root ++ (q ++ [n]))
        (.look (fun t' real h hreal => ⟨⟨h.1.1, h.2⟩, ?_⟩) fun _ _ h => h.1.1) fun real => .given ?_
      · rw [Tree.realpath_self h.2 fun target => by simp] at hreal
        exact (Except.ok.inj hreal).symm
      · rintro rfl
        rw [assertContained_append (by simp) hq]
        exact .pure fun _ h => h

/-- Directories below the root are made where they are missing, and nothing else. -/
theorem ensureDirectories_spec {root : Path} {names : List String} :
    ∀ {q : Path}, (∀ n ∈ q, IsName n) → (∀ n ∈ names, IsName n) →
      Triple (fun t' => Grown root t t' ∧ t'.entry (root ++ q) = some .directory)
        (ensureDirectories root (root ++ q) names)
        (fun _ t' => Grown root t t' ∧ t'.entry (root ++ q ++ names) = some .directory)
        (fun _ t' => Grown root t t') := by
  induction names with
  | nil =>
    intro q _ _
    exact .pure fun t' ht => by rwa [List.append_nil]
  | cons n rest ih =>
    intro q hq hnames
    have hn := hnames n (.head _)
    have hqn : ∀ m ∈ q ++ [n], IsName m := by
      intro m hm
      obtain hm | hm := List.mem_append.mp hm
      · exact hq m hm
      · rwa [List.mem_singleton.mp hm]
    unfold ensureDirectories
    rw [NodePath.join_name hn]
    have hsplit : root ++ q ++ n :: rest = root ++ (q ++ [n]) ++ rest := by simp
    rw [hsplit, List.append_assoc root q [n]]
    exact .bind (ensureDirectory_spec hqn) fun _ => ih hqn fun m hm => hnames m (.tail _ hm)

/-- What writing an object makes of a tree: a new file, which no error leaves other files without. -/
theorem pipeline_spec {file : Readable} {dir : Path} {n : String} (hn : IsName n) :
    Triple (fun t' => t' = t ∧ t.entry dir = some .directory) (pipeline file (dir ++ [n]))
      (fun _ t' => t.entry (dir ++ [n]) = none ∧ t'.entry = Function.update t.entry (dir ++ [n])
        (some (.file file.chunks.flatten)))
      (fun _ t' => ∀ p, p ≠ dir ++ [n] → t'.entry p = t.entry p) := by
  -- What is written so far, with what is still to come, is what the stream carries.
  let written (rest : List (List UInt8)) (t' : Tree) : Prop :=
    t.entry (dir ++ [n]) = none ∧ ∃ w, w ++ rest.flatten = file.chunks.flatten ∧
      t'.entry = Function.update t.entry (dir ++ [n]) (some (.file w))
  have others : ∀ rest t', written rest t' → ∀ p, p ≠ dir ++ [n] → t'.entry p = t.entry p := by
    rintro rest t' ⟨-, w, -, hentry⟩ p hp
    rw [hentry, Function.update_of_ne hp]
  unfold pipeline
  refine .bind (Q := fun _ => written file.chunks) (.change (fun t₁ t₂ h hcreate => ?_)
    fun t' _ h p _ => h.1 ▸ rfl) fun _ => ?_
  · obtain ⟨rfl, hdir⟩ := h
    obtain ⟨dir', m, hlocate, -, hnone, hentry⟩ := Tree.add_ok hcreate
    rw [Tree.locate_child hdir hn] at hlocate
    obtain ⟨rfl, rfl⟩ := Prod.mk.inj (Except.ok.inj hlocate)
    exact ⟨hnone, [], List.nil_append _, hentry⟩
  refine .bind (Q := fun _ => written []) (.forM (I := written) fun chunk rest => ?_) fun _ => ?_
  · refine .change (fun t₁ t₂ h happend => ?_) fun t' _ h => others _ _ h
    obtain ⟨hnone, w, hw, hentry⟩ := h
    obtain ⟨dir', m, content, hlocate, hfile, hentry'⟩ := Tree.append_ok happend
    have hself : t₁.entry (dir ++ [n]) = some (.file w) := by rw [hentry, Function.update_self]
    rw [Tree.locate_entry hself hlocate] at hfile hentry'
    obtain rfl := Entry.file.inj (Option.some.inj (hself.symm.trans hfile))
    refine ⟨hnone, w ++ chunk, ?_, ?_⟩
    · rw [← hw, List.flatten_cons, List.append_assoc]
    · rw [hentry', hentry, Function.update_idem]
  · split
    · exact .throw fun t' h => others _ _ h
    · refine .pure fun t' h => ?_
      obtain ⟨hnone, w, hw, hentry⟩ := h
      rw [List.flatten_nil, List.append_nil] at hw
      exact ⟨hnone, hw ▸ hentry⟩

/-- The directories above the path of a key are made. -/
theorem ensureSafeDirectories_key {root : Path} (hkey : acceptsKey key = true) :
    ensureSafeDirectories root (NodePath.dirname (root ++ segments key)) =
      ensureDirectories root root (segments key).dropLast := by
  have hnames : ∀ n ∈ (segments key).dropLast, IsName n := fun n hn =>
    isName_of_mem_segments hkey (List.dropLast_subset _ hn)
  unfold ensureSafeDirectories NodePath.dirname
  rw [List.dropLast_append_of_ne_nil (segments_ne_nil key), NodePath.relative_append]
  dsimp only
  rw [leaves_names hnames, filter_names hnames]
  exact if_neg Bool.false_ne_true

/-- What an upload makes of a tree. When it throws, it has made the root and directories below it,
and what is at the path of the key may have changed. -/
theorem upload_spec (file : Readable) (key : String) :
    Triple (· = t) (provider.upload file key)
      (fun _ t' => ∃ t₁ t₂ root, RootMade provider t t₁ ∧
        t₁.realpath provider.rootPath = .ok root ∧ acceptsKey key = true ∧ Grown root t₁ t₂ ∧
        t₂.entry (root ++ segments key) = none ∧
        t'.entry = Function.update t₂.entry (root ++ segments key)
          (some (.file file.chunks.flatten)))
      (fun _ t' => ∃ t₁, RootMade provider t t₁ ∧ (t' = t₁ ∨ ∃ t₂ root,
        t₁.realpath provider.rootPath = .ok root ∧ acceptsKey key = true ∧ Grown root t₁ t₂ ∧
        ∀ p, p ≠ root ++ segments key → t'.entry p = t₂.entry p)) := by
  unfold upload
  refine .bind ((getRealRoot_create_spec provider).weaken (fun _ h => h) (fun _ _ h => h)
    fun _ t₁ h => ⟨t₁, h, .inl rfl⟩) fun root => .each fun t₁ h₁ => ?_
  -- The root is there, made where it was missing.
  obtain ⟨hmade, hroot, hdir⟩ := h₁
  cases hkey : acceptsKey key with
  | false =>
    rw [resolveKey_refused root hkey]
    exact .bind (Q := fun _ _ => False) (.throw fun t' ht => ⟨t₁, hmade, .inl ht⟩)
      fun _ _ hd => hd.elim
  | true =>
    have hnames : ∀ n ∈ segments key, IsName n := fun n hn => isName_of_mem_segments hkey hn
    obtain ⟨q, n, hsegments⟩ := List.eq_nil_or_concat' (segments key) |>.resolve_left
      (segments_ne_nil key)
    have hq : ∀ m ∈ q, IsName m := fun m hm => hnames m (by simp [hsegments, hm])
    have hn : IsName n := hnames n (by simp [hsegments])
    rw [resolveKey_accepted root hkey, pure_bind, ensureSafeDirectories_key hkey, hsegments,
      List.dropLast_concat, ← List.append_assoc]
    -- The directories of the key are made one below the other, and none of them is a link.
    have hensure : Triple
        (fun t' => Grown root t₁ t' ∧ t'.entry (root ++ []) = some .directory)
        (ensureDirectories root (root ++ []) q)
        (fun _ t' => Grown root t₁ t' ∧ t'.entry (root ++ [] ++ q) = some .directory)
        (fun _ t' => Grown root t₁ t') := ensureDirectories_spec (by simp) hq
    rw [List.append_nil] at hensure
    refine .bind (hensure.weaken (fun t' ht => ?_) (fun _ _ h => h) fun _ t' h => ?_)
      fun _ => .each fun t₂ h₂ => ?_
    · subst ht
      exact ⟨.refl root t', hdir⟩
    · exact ⟨t₁, hmade, .inr ⟨t', root, hroot, rfl, h, fun _ _ => rfl⟩⟩
    obtain ⟨hgrown, hparent⟩ := h₂
    -- Whatever fails from here on, only the path of the key may have changed.
    have hfailed : ∀ t' : Tree, (∀ p, p ≠ root ++ q ++ [n] → t'.entry p = t₂.entry p) →
        ∃ t₁, RootMade provider t t₁ ∧ (t' = t₁ ∨ ∃ t₂ root,
          t₁.realpath provider.rootPath = .ok root ∧ true = true ∧ Grown root t₁ t₂ ∧
          ∀ p, p ≠ root ++ (q ++ [n]) → t'.entry p = t₂.entry p) := by
      intro t' h
      refine ⟨t₁, hmade, .inr ⟨t₂, root, hroot, rfl, hgrown, ?_⟩⟩
      rwa [← List.append_assoc]
    refine .bind (.tryCatch ((pipeline_spec (t := t₂) hn).weaken (fun t' ht => ⟨ht, hparent⟩)
      (fun _ _ h => h) fun _ _ h => h) fun error => ?_) fun _ => ?_
    · refine .bind (Q := fun _ t' => ∀ p, p ≠ root ++ q ++ [n] → t'.entry p = t₂.entry p)
        (.tryCatch (F := fun _ t' => ∀ p, p ≠ root ++ q ++ [n] → t'.entry p = t₂.entry p)
          (.change (fun t' t'' h hunlink p hp => ?_) fun _ _ h => h) fun _ => .pure fun _ h => h)
        fun _ => .throw fun t' h => hfailed t' h
      -- The compensation unlinks the path of the key and nothing else.
      have hdir' : t'.entry (root ++ q) = some .directory := by
        rw [h _ (by simp), hparent]
      obtain ⟨dir', m, -, hlocate, -, -, hentry⟩ := Tree.unlink_ok hunlink
      rw [Tree.locate_child hdir' hn] at hlocate
      obtain ⟨rfl, rfl⟩ := Prod.mk.inj (Except.ok.inj hlocate)
      rw [hentry, Function.update_of_ne hp, h p hp]
    · refine .pure fun t' h => ⟨t₁, t₂, root, hmade, hroot, rfl, hgrown, ?_⟩
      rw [← List.append_assoc]
      exact h

/-! ## The provider as a whole -/

/-- What is deleted is the file of the key, whatever else happens. -/
theorem delete_spec (key : String) :
    Triple (· = t) (provider.delete key)
      (fun _ t' => t' = t ∨ ∃ p content, FileOf provider t key p content ∧
        t'.entry = Function.update t.entry p none)
      (fun _ t' => t' = t) := by
  refine .tryCatch (deleteFile_spec provider) fun failure => ?_
  unfold passOver
  split
  · exact .pure fun _ h => .inl h
  · exact .throw fun _ h => h


/-- A key that is refused is not read. -/
theorem getStream_refused (hkey : acceptsKey key = false) (d : Disk) :
    ∃ e d', provider.getStream key d = (.error e, d') ∧ d'.tree = d.tree := by
  generalize hrun : provider.getStream key d = out
  obtain ⟨r, d'⟩ := out
  obtain ⟨hok, herror⟩ := getStream_spec provider d rfl
  cases r with
  | error e => exact ⟨e, d', rfl, herror e d' hrun⟩
  | ok stream => exact absurd ((hok stream d' hrun).2.1.symm.trans hkey) Bool.false_ne_true.symm

/-- A key that is refused is not written. -/
theorem upload_refused (hkey : acceptsKey key = false) (file : Readable) (d : Disk) :
    ∃ e d', provider.upload file key d = (.error e, d') ∧ RootMade provider d.tree d'.tree := by
  generalize hrun : provider.upload file key d = out
  obtain ⟨r, d'⟩ := out
  obtain ⟨hok, herror⟩ := upload_spec provider file key d rfl
  cases r with
  | error e =>
    obtain ⟨t₁, hmade, rfl | ⟨t₂, root, -, haccept, -⟩⟩ := herror e d' hrun
    · exact ⟨e, d', rfl, hmade⟩
    · exact absurd (haccept.symm.trans hkey) Bool.false_ne_true.symm
  | ok k =>
    obtain ⟨t₁, t₂, root, -, -, haccept, -⟩ := hok k d' hrun
    exact absurd (haccept.symm.trans hkey) Bool.false_ne_true.symm

/-- A key that is refused is not deleted: the error is passed over only where the root was not
found. -/
theorem delete_refused (hkey : acceptsKey key = false) (d : Disk) :
    ∃ r d', provider.delete key d = (r, d') ∧ d'.tree = d.tree ∧
      (r = .ok () → ∃ d₁, provider.getRealRoot false d = (.error (.errno .ENOENT), d₁)) := by
  obtain ⟨hok, herror⟩ := getRealRoot_spec provider d rfl
  generalize hroot : provider.getRealRoot false d = out
  obtain ⟨r, d₁⟩ := out
  unfold delete
  cases r with
  | error e =>
    have hfile : provider.deleteFile key d = (.error e, d₁) := bind_of_error hroot
    rw [tryCatch_of_error hfile]
    have htree : d₁.tree = d.tree := herror e d₁ hroot
    unfold passOver
    split_ifs with he
    · exact ⟨_, d₁, rfl, htree, fun _ => ⟨d₁, by rw [he]⟩⟩
    · exact ⟨_, d₁, rfl, htree, fun h => by cases h⟩
  | ok root =>
    have hfile : provider.deleteFile key d =
        (.error (.message "Invalid storage key."), d₁) := by
      unfold deleteFile
      rw [bind_of_ok hroot, resolveKey_refused root hkey]
      rfl
    rw [tryCatch_of_error hfile]
    exact ⟨_, d₁, rfl, (hok root d₁ hroot).1, fun h => by cases h⟩

/-- A key that is resolved is resolved to its segments from the root. -/
theorem resolveKey_ok {root p : Path} {d d' : Disk} (h : resolveKey root key d = (.ok p, d')) :
    p = root ++ segments key := by
  cases hkey : acceptsKey key with
  | false =>
    rw [resolveKey_refused root hkey] at h
    cases h
  | true =>
    rw [resolveKey_accepted root hkey] at h
    exact (Except.ok.inj (Prod.mk.inj h).1).symm

/-- What an upload changes after it made the root is below the root. -/
theorem changed_below (key : String) {root : Path} {t₁ t₂ t' : Tree} {provider : LocalProvider}
    (hroot : t₁.realpath provider.rootPath = .ok root) (hgrown : Grown root t₁ t₂)
    (h : ∀ p, p ≠ root ++ segments key → t'.entry p = t₂.entry p) (p : Path)
    (hp : t'.entry p ≠ t₁.entry p) :
    ∃ root q, t₁.realpath provider.rootPath = .ok root ∧ q ≠ [] ∧ p = root ++ q := by
  by_cases hfull : p = root ++ segments key
  · exact ⟨root, segments key, hroot, segments_ne_nil key, hfull⟩
  · rw [h p hfull] at hp
    obtain hsame | ⟨-, -, q, hq, rfl⟩ := hgrown p
    · exact absurd hsame hp
    · exact ⟨root, q, hroot, hq, rfl⟩

end LocalProvider

open LocalProvider

/-- A file system that is empty. -/
def emptyTree : Tree where
  entry p := if p = [] then some .directory else none
  root := if_pos rfl
  parent p n h := absurd (if_neg (by simp)) h
  name p n h := absurd (if_neg (by simp)) h

end Reeva
