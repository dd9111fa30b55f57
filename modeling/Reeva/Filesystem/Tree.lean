import Mathlib.Data.List.Basic
import Mathlib.Data.List.Induction
import Mathlib.Logic.Function.Basic

/-!
# Trees of files

A file system as POSIX describes it: files, directories and symbolic links, each at a path from the
root. A path is resolved component by component, through the links on the way; the calls that look
at a tree and change it are built on that. A path that leads to an entry without links in between is
resolved to itself (`resolve_self`).
-/

namespace Filesystem

/-- A path from the root, by its components. -/
abbrev Path := List String

/-- A name that a directory can hold. -/
def IsName (n : String) : Prop :=
  n ≠ "" ∧ n ≠ "." ∧ n ≠ ".." ∧ '/' ∉ n.toList ∧ Char.ofNat 0 ∉ n.toList

instance (n : String) : Decidable (IsName n) :=
  inferInstanceAs (Decidable (_ ∧ _ ∧ _ ∧ _ ∧ _))

/-- What can be found at a path. -/
inductive Entry
  | file (content : List UInt8)
  | directory
  | link (target : String)
  deriving DecidableEq, Repr

/-- A tree: entries are in directories, under proper names. -/
structure Tree where
  entry : Path → Option Entry
  root : entry [] = some .directory
  parent : ∀ p n, entry (p ++ [n]) ≠ none → entry p = some .directory
  name : ∀ p n, entry (p ++ [n]) ≠ none → IsName n

/-- What a call reports when it fails. -/
inductive Errno
  | ENOENT
  | ENOTDIR
  | EEXIST
  | EISDIR
  | ELOOP
  | EINVAL
  | EACCES
  deriving DecidableEq, Repr

namespace Tree

/-! ## Changes -/

/-- Puts an entry into a directory, in place of nothing or of another one that is no directory. -/
def put (t : Tree) (p : Path) (n : String) (e : Entry) (hp : t.entry p = some .directory)
    (hn : IsName n) (h : t.entry (p ++ [n]) ≠ some .directory) : Tree where
  entry := Function.update t.entry (p ++ [n]) (some e)
  root := by
    rw [Function.update_of_ne (by simp)]
    exact t.root
  parent := by
    intro q m hq
    by_cases hqm : q ++ [m] = p ++ [n]
    · obtain ⟨rfl, -⟩ := List.append_inj' hqm rfl
      rw [Function.update_of_ne (by simp)]
      exact hp
    · rw [Function.update_of_ne hqm] at hq
      have hdir := t.parent q m hq
      rw [Function.update_of_ne fun hpn : q = p ++ [n] => h (hpn ▸ hdir)]
      exact hdir
  name := by
    intro q m hq
    by_cases hqm : q ++ [m] = p ++ [n]
    · obtain ⟨-, hm⟩ := List.append_inj' hqm rfl
      rwa [List.cons.inj hm |>.1]
    · rw [Function.update_of_ne hqm] at hq
      exact t.name q m hq

/-- Removes an entry that is no directory. -/
def remove (t : Tree) (p : Path) (n : String) (h : t.entry (p ++ [n]) ≠ some .directory) : Tree where
  entry := Function.update t.entry (p ++ [n]) none
  root := by
    rw [Function.update_of_ne (by simp)]
    exact t.root
  parent := by
    intro q m hq
    by_cases hqm : q ++ [m] = p ++ [n]
    · rw [hqm, Function.update_self] at hq
      exact absurd rfl hq
    · rw [Function.update_of_ne hqm] at hq
      have hdir := t.parent q m hq
      rw [Function.update_of_ne fun hpn : q = p ++ [n] => h (hpn ▸ hdir)]
      exact hdir
  name := by
    intro q m hq
    by_cases hqm : q ++ [m] = p ++ [n]
    · rw [hqm, Function.update_self] at hq
      exact absurd rfl hq
    · rw [Function.update_of_ne hqm] at hq
      exact t.name q m hq

/-! ## Resolving a path -/

/-- Goes along the components, to what `onLink` says at a link. Without `follow`, a link at the end is
what the path leads to. -/
def walk (t : Tree) (onLink : Path → String → List String → Except Errno Path) (follow : Bool) :
    Path → List String → Except Errno Path
  | here, [] => .ok here
  | here, n :: rest =>
    if n = "" ∨ n = "." then walk t onLink follow here rest
    else if n = ".." then walk t onLink follow here.dropLast rest
    else
      match t.entry (here ++ [n]) with
      | none => .error .ENOENT
      | some (.file _) => if rest = [] then .ok (here ++ [n]) else .error .ENOTDIR
      | some .directory => walk t onLink follow (here ++ [n]) rest
      | some (.link target) =>
        if rest = [] ∧ follow = false then .ok (here ++ [n]) else onLink here target rest

/-- The components of a path's text. -/
def components (text : String) : List String := (text.toList.splitOn '/').map String.ofList

/-- The components of a text contain no separator, and its characters otherwise. -/
theorem of_mem_components {text m : String} (h : m ∈ components text) :
    '/' ∉ m.toList ∧ ∀ c ∈ m.toList, c ∈ text.toList := by
  obtain ⟨part, hpart, rfl⟩ := List.mem_map.mp h
  rw [String.toList_ofList]
  clear h
  generalize text.toList = cs at hpart
  induction cs generalizing part with
  | nil =>
    rw [List.splitOn_nil, List.mem_singleton] at hpart
    subst hpart
    simp
  | cons c cs ih =>
    rw [List.splitOn_cons_eq_if_modifyHead] at hpart
    split at hpart
    · obtain rfl | hpart := List.mem_cons.mp hpart
      · simp
      · obtain ⟨hsep, hchars⟩ := ih _ hpart
        exact ⟨hsep, fun d hd => .tail _ (hchars d hd)⟩
    · rename_i hc
      obtain ⟨first, rest, hsplit⟩ := List.exists_cons_of_ne_nil (List.splitOn_ne_nil '/' cs)
      rw [hsplit] at hpart ih
      obtain rfl | hpart := List.mem_cons.mp hpart
      · obtain ⟨hsep, hchars⟩ := ih _ (.head _)
        refine ⟨?_, ?_⟩
        · simpa using ⟨fun h => hc (beq_iff_eq.mpr h.symm), hsep⟩
        · intro d hd
          obtain rfl | hd := List.mem_cons.mp hd
          · exact .head _
          · exact .tail _ (hchars d hd)
      · obtain ⟨hsep, hchars⟩ := ih _ (.tail _ hpart)
        exact ⟨hsep, fun d hd => .tail _ (hchars d hd)⟩

/-- A text without separators has one component. -/
theorem components_of_notMem {text : String} (h : '/' ∉ text.toList) : components text = [text] := by
  rw [components, List.splitOn_eq_singleton h, List.map_singleton, String.ofList_toList]

/-- A text is determined by its components. -/
theorem components_injective {s s' : String} (h : components s = components s') : s = s' := by
  have hparts : ∀ text : String, (components text).map String.toList = text.toList.splitOn '/' := by
    intro text
    rw [components, List.map_map]
    simp [Function.comp_def]
  have hsplit := congrArg (List.map String.toList) h
  rw [hparts, hparts] at hsplit
  have hjoin := congrArg (['/'].intercalate ·) hsplit
  simp only [List.intercalate_splitOn] at hjoin
  exact String.toList_injective hjoin

/-- A text has a component. -/
theorem components_ne_nil (text : String) : components text ≠ [] := by
  simp [components, List.splitOn_ne_nil]

/-- Resolves the components of a path from `here` through at most so many links. -/
def resolve (t : Tree) (follow : Bool) : ℕ → Path → List String → Except Errno Path
  | 0 => walk t (fun _ _ _ => .error .ELOOP) follow
  | links + 1 =>
    walk t (fun here target rest =>
      resolve t follow links (if target.toList.head? = some '/' then [] else here)
        (components target ++ rest)) follow

/-- The entry's own path, for a path from the root. A path with a NUL is refused. -/
def find (t : Tree) (follow : Bool) (p : Path) : Except Errno Path :=
  if p.any fun n => n.toList.contains (Char.ofNat 0) then .error .EINVAL
  else t.resolve follow 40 [] p

/-- The directory that a path's last component is in, and that component. -/
def locate (t : Tree) (p : Path) : Except Errno (Path × String) :=
  match p.getLast? with
  | none => .error .EEXIST
  | some n => do
    if n.toList.contains (Char.ofNat 0) then .error .EINVAL
    else
      let dir ← t.find true p.dropLast
      if t.entry dir = some .directory then .ok (dir, n) else .error .ENOTDIR

/-! ## Calls that look -/

/-- An entry that has to be there. -/
def present : Option Entry → Except Errno Entry
  | some e => .ok e
  | none => .error .ENOENT

/-- An entry that is there. -/
theorem present_ok {o : Option Entry} {e : Entry} (h : present o = .ok e) : o = some e := by
  cases o with
  | none => cases h
  | some e' => exact congrArg some (Except.ok.inj h)

/-- `realpath` -/
def realpath (t : Tree) (p : Path) : Except Errno Path := t.find true p

/-- `stat` -/
def stat (t : Tree) (p : Path) : Except Errno Entry := do
  present (t.entry (← t.find true p))

/-- `lstat` -/
def lstat (t : Tree) (p : Path) : Except Errno Entry := do
  present (t.entry (← t.find false p))

/-- `open` with `O_RDONLY | O_NOFOLLOW`, and what can be read then. -/
def readNoFollow (t : Tree) (p : Path) : Except Errno (List UInt8) := do
  match ← t.lstat p with
  | .file content => .ok content
  | .directory => .error .EISDIR
  | .link _ => .error .ELOOP

/-! ## Calls that change something -/

/-- Adds an entry in a directory where there is none. -/
def addAt (t : Tree) (e : Entry) (dir : Path) (n : String) : Except Errno Tree :=
  if h : t.entry dir = some .directory ∧ IsName n ∧ t.entry (dir ++ [n]) = none then
    .ok (t.put dir n e h.1 h.2.1 (by simp [h.2.2]))
  else .error .EEXIST

/-- Adds an entry at a path. -/
def add (t : Tree) (p : Path) (e : Entry) : Except Errno Tree := do
  let at_ ← t.locate p
  t.addAt e at_.1 at_.2

/-- `mkdir` -/
def mkdir (t : Tree) (p : Path) : Except Errno Tree := t.add p .directory

/-- `open` with `O_CREAT | O_EXCL`. -/
def create (t : Tree) (p : Path) : Except Errno Tree := t.add p (.file [])

/-- Appends to a file in a directory. -/
def appendAt (t : Tree) (chunk : List UInt8) (dir : Path) (n : String) : Except Errno Tree :=
  match h : t.entry (dir ++ [n]) with
  | some (.file content) =>
    .ok (t.put dir n (.file (content ++ chunk)) (t.parent dir n (by simp [h]))
      (t.name dir n (by simp [h])) (by simp [h]))
  | _ => .error .EINVAL

/-- `write`, at the end of a file that was created at a path. -/
def append (t : Tree) (p : Path) (chunk : List UInt8) : Except Errno Tree := do
  let at_ ← t.locate p
  t.appendAt chunk at_.1 at_.2

/-- Removes an entry of a directory. -/
def unlinkAt (t : Tree) (dir : Path) (n : String) : Except Errno Tree :=
  match h : t.entry (dir ++ [n]) with
  | none => .error .ENOENT
  | some .directory => .error .EISDIR
  | some (.file content) => .ok (t.remove dir n (by simp [h]))
  | some (.link target) => .ok (t.remove dir n (by simp [h]))

/-- `unlink` -/
def unlink (t : Tree) (p : Path) : Except Errno Tree := do
  let at_ ← t.locate p
  t.unlinkAt at_.1 at_.2

/-! ## Paths without links -/

variable {t : Tree} {p : Path} {n : String} {e : Entry}

/-- What is at the parent of an entry. -/
theorem entry_of_append {q : Path} (h : t.entry (p ++ q) = some e) (hq : q ≠ []) :
    t.entry p = some .directory := by
  induction q using List.reverseRecOn generalizing e with
  | nil => exact absurd rfl hq
  | append_singleton q m ih =>
    rw [← List.append_assoc] at h
    have hdir := t.parent (p ++ q) m (by rw [h]; simp)
    by_cases hnil : q = []
    · rwa [hnil, List.append_nil] at hdir
    · exact ih hdir hnil

/-- The components of an entry's path are names. -/
theorem isName_of_mem (h : t.entry p = some e) (hn : n ∈ p) : IsName n := by
  obtain ⟨q, q', rfl⟩ := List.append_of_mem hn
  have hprefix : t.entry (q ++ [n]) ≠ none := by
    by_cases hnil : q' = []
    · subst hnil
      rw [h]
      simp
    · rw [← List.singleton_append, ← List.append_assoc] at h
      rw [entry_of_append h hnil]
      simp
  exact t.name q n hprefix

/-- A component that is a name is looked up. -/
theorem walk_cons {onLink : Path → String → List String → Except Errno Path} {follow : Bool}
    {here : Path} {rest : List String} (hn : IsName n) (hdir : t.entry (here ++ [n]) = some .directory) :
    t.walk onLink follow here (n :: rest) = t.walk onLink follow (here ++ [n]) rest := by
  rw [walk, if_neg (not_or.mpr ⟨hn.1, hn.2.1⟩), if_neg hn.2.2.1, hdir]

/-- The directories at the beginning of a path are gone through. -/
theorem walk_append {onLink : Path → String → List String → Except Errno Path} {follow : Bool}
    {q : Path} {rest : List String} :
    ∀ {here : Path}, t.entry (here ++ q) = some .directory →
      t.walk onLink follow here (q ++ rest) = t.walk onLink follow (here ++ q) rest := by
  induction q with
  | nil =>
    intro here h
    rw [List.append_nil, List.nil_append]
  | cons m q ih =>
    intro here h
    have hm : IsName m := isName_of_mem h (by simp)
    have hsplit : here ++ m :: q = here ++ [m] ++ q := by simp
    rw [hsplit] at h ⊢
    have hfirst : t.entry (here ++ [m]) = some .directory := by
      by_cases hnil : q = []
      · rwa [hnil, List.append_nil] at h
      · exact entry_of_append h hnil
    rw [List.cons_append, walk_cons hm hfirst]
    exact ih h

/-- The directories at the beginning of a path from the root are gone through. -/
theorem walk_directory {onLink : Path → String → List String → Except Errno Path} {follow : Bool}
    {rest : List String} (h : t.entry p = some .directory) :
    t.walk onLink follow [] (p ++ rest) = t.walk onLink follow p rest := by
  have happend : t.walk onLink follow [] (p ++ rest) = t.walk onLink follow ([] ++ p) rest :=
    walk_append h
  rwa [List.nil_append] at happend

/-- What a name in a directory leads to, when links are not followed. -/
theorem walk_singleton {onLink : Path → String → List String → Except Errno Path} {here : Path}
    (hn : IsName n) :
    t.walk onLink false here [n] =
      if t.entry (here ++ [n]) = none then .error .ENOENT else .ok (here ++ [n]) := by
  rw [walk, if_neg (not_or.mpr ⟨hn.1, hn.2.1⟩), if_neg hn.2.2.1]
  cases h : t.entry (here ++ [n]) with
  | none => rfl
  | some e => cases e <;> simp [walk]

/-- To resolve a path is to walk along it. -/
theorem resolve_eq_walk (t : Tree) (follow : Bool) (links : ℕ) :
    ∃ onLink, t.resolve follow links = t.walk onLink follow := by
  cases links with
  | zero => exact ⟨_, rfl⟩
  | succ links => exact ⟨_, rfl⟩

/-- A path that leads to a directory is resolved to itself. -/
theorem resolve_directory {follow : Bool} {links : ℕ} (h : t.entry p = some .directory) :
    t.resolve follow links [] p = .ok p := by
  obtain ⟨onLink, hwalk⟩ := resolve_eq_walk t follow links
  have hrest : t.walk onLink follow [] (p ++ []) = t.walk onLink follow p [] := walk_directory h
  rw [List.append_nil] at hrest
  rw [hwalk, hrest]
  rfl

/-- Where a name in a directory leads to, when links are not followed. -/
theorem resolve_child {links : ℕ} (hdir : t.entry p = some .directory) (hn : IsName n) :
    t.resolve false links [] (p ++ [n]) =
      if t.entry (p ++ [n]) = none then .error .ENOENT else .ok (p ++ [n]) := by
  obtain ⟨onLink, hwalk⟩ := resolve_eq_walk t false links
  rw [hwalk, walk_directory hdir]
  exact walk_singleton hn

/-- A path of names has no NUL. -/
theorem find_of_names {follow : Bool} (h : ∀ m ∈ p, IsName m) :
    t.find follow p = t.resolve follow 40 [] p := by
  refine if_neg ?_
  rw [List.any_eq_true]
  rintro ⟨m, hm, hnul⟩
  exact (h m hm).2.2.2.2 (by simpa using hnul)

/-- A directory is found at its own path. -/
theorem find_directory {follow : Bool} (h : t.entry p = some .directory) : t.find follow p = .ok p := by
  rw [find_of_names fun m hm => isName_of_mem h hm, resolve_directory h]

/-- What is found of a name in a directory, when links are not followed. -/
theorem find_child (hdir : t.entry p = some .directory) (hn : IsName n) :
    t.find false (p ++ [n]) =
      if t.entry (p ++ [n]) = none then .error .ENOENT else .ok (p ++ [n]) := by
  rw [find_of_names, resolve_child hdir hn]
  intro m hm
  obtain hm | hm := List.mem_append.mp hm
  · exact isName_of_mem hdir hm
  · rwa [List.mem_singleton.mp hm]

/-- A name in a directory is located there. -/
theorem locate_child (hdir : t.entry p = some .directory) (hn : IsName n) :
    t.locate (p ++ [n]) = .ok (p, n) := by
  have hnul : ¬n.toList.contains (Char.ofNat 0) = true := by simpa using hn.2.2.2.2
  unfold locate
  rw [List.getLast?_concat, List.dropLast_concat, find_directory hdir]
  dsimp only
  rw [if_neg hnul]
  change (if t.entry p = some .directory then Except.ok (p, n) else .error Errno.ENOTDIR) = .ok (p, n)
  rw [if_pos hdir]

/-- What `lstat` says of a name in a directory. -/
theorem lstat_child (hdir : t.entry p = some .directory) (hn : IsName n) :
    t.lstat (p ++ [n]) = present (t.entry (p ++ [n])) := by
  unfold lstat
  rw [find_child hdir hn]
  by_cases h : t.entry (p ++ [n]) = none
  · rw [if_pos h, h]
    rfl
  · rw [if_neg h]
    rfl

/-- An entry that is no link is found at its own path. -/
theorem find_self {follow : Bool} (h : t.entry p = some e) (hlink : ∀ target, e ≠ .link target) :
    t.find follow p = .ok p := by
  rw [find_of_names fun m hm => isName_of_mem h hm]
  induction p using List.reverseRecOn with
  | nil =>
    obtain ⟨onLink, hwalk⟩ := resolve_eq_walk t follow 40
    rw [hwalk]
    rfl
  | append_singleton q n _ =>
    have hdir := t.parent q n (by simp [h])
    have hn := t.name q n (by simp [h])
    obtain ⟨onLink, hwalk⟩ := resolve_eq_walk t follow 40
    rw [hwalk, walk_directory hdir, walk,
      if_neg (not_or.mpr ⟨hn.1, hn.2.1⟩), if_neg hn.2.2.1, h]
    cases e with
    | file content => rfl
    | directory => rfl
    | link target => exact absurd rfl (hlink target)

/-- What `stat` says of an entry that is no link. -/
theorem stat_self (h : t.entry p = some e) (hlink : ∀ target, e ≠ .link target) :
    t.stat p = .ok e := by
  unfold stat
  rw [find_self h hlink]
  change present (t.entry p) = .ok e
  rw [h]
  rfl

/-- What `realpath` says of an entry that is no link. -/
theorem realpath_self (h : t.entry p = some e) (hlink : ∀ target, e ≠ .link target) :
    t.realpath p = .ok p := find_self h hlink

/-- What can be read of a file. -/
theorem readNoFollow_self {content : List UInt8} (h : t.entry p = some (.file content)) :
    t.readNoFollow p = .ok content := by
  have hlstat : t.lstat p = .ok (.file content) := by
    unfold lstat
    rw [find_self h fun target => by simp]
    change present (t.entry p) = _
    rw [h]
    rfl
  unfold readNoFollow
  rw [hlstat]
  rfl

/-! ## What the calls do -/

/-- A call on what is at a path succeeds where the path leads somewhere. -/
theorem ok_of_locate {α : Type} {f : Path → String → Except Errno α} {a : α}
    (h : (do let at_ ← t.locate p; f at_.1 at_.2) = .ok a) :
    ∃ dir n, t.locate p = .ok (dir, n) ∧ f dir n = .ok a := by
  cases hl : t.locate p with
  | error e =>
    rw [hl] at h
    cases h
  | ok d =>
    rw [hl] at h
    exact ⟨d.1, d.2, rfl, h⟩

/-- What is added was not there, and nothing else changes. -/
theorem add_ok {t' : Tree} (h : t.add p e = .ok t') :
    ∃ dir n, t.locate p = .ok (dir, n) ∧ t.entry dir = some .directory ∧
      t.entry (dir ++ [n]) = none ∧ t'.entry = Function.update t.entry (dir ++ [n]) (some e) := by
  obtain ⟨dir, n, hl, h⟩ := ok_of_locate h
  unfold addAt at h
  split at h
  · rename_i hput
    obtain rfl := Except.ok.inj h
    exact ⟨dir, n, hl, hput.1, hput.2.2, rfl⟩
  · cases h

/-- What is removed is no directory, and nothing else changes. -/
theorem unlink_ok {t' : Tree} (h : t.unlink p = .ok t') :
    ∃ dir n e, t.locate p = .ok (dir, n) ∧ t.entry (dir ++ [n]) = some e ∧ e ≠ .directory ∧
      t'.entry = Function.update t.entry (dir ++ [n]) none := by
  obtain ⟨dir, n, hl, h⟩ := ok_of_locate h
  unfold unlinkAt at h
  split at h
  · cases h
  · cases h
  · rename_i content he
    obtain rfl := Except.ok.inj h
    exact ⟨dir, n, _, hl, he, by simp, rfl⟩
  · rename_i target he
    obtain rfl := Except.ok.inj h
    exact ⟨dir, n, _, hl, he, by simp, rfl⟩

/-- What is written is appended to a file, and nothing else changes. -/
theorem append_ok {t' : Tree} {chunk : List UInt8} (h : t.append p chunk = .ok t') :
    ∃ dir n content, t.locate p = .ok (dir, n) ∧ t.entry (dir ++ [n]) = some (.file content) ∧
      t'.entry = Function.update t.entry (dir ++ [n]) (some (.file (content ++ chunk))) := by
  obtain ⟨dir, n, hl, h⟩ := ok_of_locate h
  unfold appendAt at h
  split at h
  · rename_i content he
    obtain rfl := Except.ok.inj h
    exact ⟨dir, n, content, hl, he, rfl⟩
  · cases h

/-- An entry is located where it is. -/
theorem locate_entry {dir : Path} (h : t.entry p = some e) (hl : t.locate p = .ok (dir, n)) :
    dir ++ [n] = p := by
  induction p using List.reverseRecOn with
  | nil => cases hl
  | append_singleton q m _ =>
    rw [locate_child (t.parent q m (by simp [h])) (t.name q m (by simp [h]))] at hl
    obtain ⟨rfl, rfl⟩ := Prod.mk.inj (Except.ok.inj hl)
    rfl

/-- Nothing can be added under a name that is taken. -/
theorem add_child_exists (hdir : t.entry p = some .directory) (hn : IsName n)
    (h : t.entry (p ++ [n]) ≠ none) : t.add (p ++ [n]) e = .error .EEXIST := by
  unfold add
  rw [locate_child hdir hn]
  exact dif_neg fun hc => h hc.2.2

/-- A file in a directory can be removed. -/
theorem unlink_file {content : List UInt8} (h : t.entry (p ++ [n]) = some (.file content)) :
    ∃ t', t.unlink (p ++ [n]) = .ok t' := by
  have hdir := t.parent p n (by simp [h])
  have hn := t.name p n (by simp [h])
  have hunlink : t.unlink (p ++ [n]) = t.unlinkAt p n := by
    unfold unlink
    rw [locate_child hdir hn]
    rfl
  rw [hunlink]
  unfold unlinkAt
  split
  · rename_i hnone
    cases hnone.symm.trans h
  · rename_i hdirectory
    cases hdirectory.symm.trans h
  · exact ⟨_, rfl⟩
  · exact ⟨_, rfl⟩

/-- What is above a directory is one. -/
theorem entry_dropLast (h : t.entry p = some .directory) :
    t.entry p.dropLast = some .directory := by
  by_cases hnil : p = []
  · rw [hnil]
    exact t.root
  · have hsplit := List.dropLast_append_getLast hnil
    rw [← hsplit] at h
    exact t.parent _ _ (by rw [h]; simp)

/-- What a walk comes to, when links lead to it. -/
theorem walk_ok {onLink : Path → String → List String → Except Errno Path} {follow : Bool}
    {G : Path → Prop}
    (hlink : ∀ here target rest q, t.entry here = some .directory →
      onLink here target rest = .ok q → G q)
    (hfound : ∀ q e, t.entry q = some e → (follow = true → ∀ target, e ≠ .link target) → G q) :
    ∀ {rest : List String} {here q : Path}, t.entry here = some .directory →
      t.walk onLink follow here rest = .ok q → G q := by
  intro rest
  induction rest with
  | nil =>
    intro here q hdir h
    obtain rfl := Except.ok.inj h
    exact hfound _ _ hdir fun _ target => by simp
  | cons n rest ih =>
    intro here q hdir h
    unfold walk at h
    split at h
    · exact ih hdir h
    split at h
    · exact ih (entry_dropLast hdir) h
    split at h
    · cases h
    · rename_i content he
      split at h
      · obtain rfl := Except.ok.inj h
        exact hfound _ _ he fun _ target => by simp
      · cases h
    · rename_i he
      exact ih he h
    · rename_i target he
      split at h
      · rename_i hlast
        obtain rfl := Except.ok.inj h
        exact hfound _ _ he fun hf => absurd (hlast.2.symm.trans hf) Bool.false_ne_true
      · exact hlink _ _ _ _ hdir h

/-- A path leads to an entry, and through links to one that is none. -/
theorem resolve_ok {follow : Bool} {links : ℕ} :
    ∀ {here q : Path} {rest : List String}, t.entry here = some .directory →
      t.resolve follow links here rest = .ok q →
      ∃ e, t.entry q = some e ∧ (follow = true → ∀ target, e ≠ .link target) := by
  induction links with
  | zero =>
    intro here q rest hdir h
    exact walk_ok (G := fun q => ∃ e, t.entry q = some e ∧ _) (fun _ _ _ _ _ h => by cases h)
      (fun q e he hf => ⟨e, he, hf⟩) hdir h
  | succ links ih =>
    intro here q rest hdir h
    refine walk_ok (G := fun q => ∃ e, t.entry q = some e ∧ _) (fun here target rest q hdir h => ?_)
      (fun q e he hf => ⟨e, he, hf⟩) hdir h
    refine ih ?_ h
    split
    · exact t.root
    · exact hdir

/-- A path from the root leads to an entry, and through links to one that is none. -/
theorem find_ok {follow : Bool} {q : Path} (h : t.find follow p = .ok q) :
    ∃ e, t.entry q = some e ∧ (follow = true → ∀ target, e ≠ .link target) := by
  unfold find at h
  split_ifs at h
  exact resolve_ok t.root h

/-- What is located is the last component of the path, in the directory that the rest leads to. -/
theorem locate_ok {dir : Path} (h : t.locate p = .ok (dir, n)) :
    ∃ q, p = q ++ [n] ∧ t.find true q = .ok dir ∧ t.entry dir = some .directory := by
  unfold locate at h
  split at h
  · cases h
  · rename_i m hlast
    split at h
    · cases h
    · cases hfind : t.find true p.dropLast with
      | error e =>
        rw [hfind] at h
        cases h
      | ok d =>
        rw [hfind] at h
        change (if t.entry d = some .directory then Except.ok (d, m) else .error Errno.ENOTDIR) = _
          at h
        split at h
        · rename_i hdir
          obtain ⟨rfl, rfl⟩ := Prod.mk.inj (Except.ok.inj h)
          obtain ⟨q, rfl⟩ := List.getLast?_eq_some_iff.mp hlast
          rw [List.dropLast_concat] at hfind
          exact ⟨q, rfl, hfind, hdir⟩
        · cases h

/-! ## Larger trees -/

/-- Every entry of `t` is one of `t'`. -/
def Below (t t' : Tree) : Prop := ∀ p e, t.entry p = some e → t'.entry p = some e

variable {t' : Tree}

/-- In a larger tree a walk leads to the same entry. -/
theorem walk_mono {onLink onLink' : Path → String → List String → Except Errno Path} {follow : Bool}
    (hbelow : t.Below t')
    (hlink : ∀ here target rest q, onLink here target rest = .ok q →
      onLink' here target rest = .ok q) :
    ∀ {rest : List String} {here q : Path}, t.walk onLink follow here rest = .ok q →
      t'.walk onLink' follow here rest = .ok q := by
  intro rest
  induction rest with
  | nil => exact fun h => h
  | cons n rest ih =>
    intro here q h
    unfold walk at h ⊢
    split at h
    · rename_i hdot
      rw [if_pos hdot]
      exact ih h
    rename_i hdot
    rw [if_neg hdot]
    split at h
    · rename_i hup
      rw [if_pos hup]
      exact ih h
    rename_i hup
    rw [if_neg hup]
    split at h
    · cases h
    · rename_i content he
      rw [hbelow _ _ he]
      exact h
    · rename_i he
      rw [hbelow _ _ he]
      exact ih h
    · rename_i target he
      rw [hbelow _ _ he]
      split at h
      · rename_i hlast
        exact (if_pos hlast).trans h
      · rename_i hlast
        exact (if_neg hlast).trans (hlink _ _ _ _ h)

/-- In a larger tree a path leads to the same entry. -/
theorem find_mono (hbelow : t.Below t') {follow : Bool} {q : Path} (h : t.find follow p = .ok q) :
    t'.find follow p = .ok q := by
  have hresolve : ∀ {links : ℕ} {here q : Path} {rest : List String},
      t.resolve follow links here rest = .ok q → t'.resolve follow links here rest = .ok q := by
    intro links
    induction links with
    | zero => exact walk_mono hbelow fun _ _ _ _ h => by cases h
    | succ links ih => exact walk_mono hbelow fun _ _ _ _ h => ih h
  unfold find at h ⊢
  split at h
  · cases h
  · rename_i hnul
    rw [if_neg hnul]
    exact hresolve h

/-- A walk that leads to a directory goes on to what is in it. -/
theorem walk_snoc {onLink : Path → String → List String → Except Errno Path} {dir : Path}
    (hdir : t.entry dir = some .directory) (hn : IsName n) (he : t.entry (dir ++ [n]) = some e)
    (hlink : ∀ here target rest, onLink here target rest = .ok dir →
      onLink here target (rest ++ [n]) = .ok (dir ++ [n])) (hnone : ∀ target, e ≠ .link target) :
    ∀ {rest : List String} {here : Path}, t.walk onLink true here rest = .ok dir →
      t.walk onLink true here (rest ++ [n]) = .ok (dir ++ [n]) := by
  intro rest
  induction rest with
  | nil =>
    intro here h
    obtain rfl := Except.ok.inj h
    rw [List.nil_append, walk, if_neg (not_or.mpr ⟨hn.1, hn.2.1⟩), if_neg hn.2.2.1, he]
    cases e with
    | file content => rfl
    | directory => rfl
    | link target => exact absurd rfl (hnone target)
  | cons m rest ih =>
    intro here h
    rw [List.cons_append]
    unfold walk at h ⊢
    split at h
    · rename_i hdot
      rw [if_pos hdot]
      exact ih h
    rename_i hdot
    rw [if_neg hdot]
    split at h
    · rename_i hup
      rw [if_pos hup]
      exact ih h
    rename_i hup
    rw [if_neg hup]
    split at h
    · cases h
    · -- A file in the middle of a path is an error, and at its end it is no directory.
      rename_i content hfile
      split at h
      · obtain rfl := Except.ok.inj h
        cases hfile.symm.trans hdir
      · cases h
    · exact ih h
    · -- A link that leads to the directory still does with the name behind it.
      rename_i target htarget
      split at h
      · rename_i hlast
        cases hlast.2
      · exact (if_neg fun hlast => by cases hlast.2).trans (hlink _ _ _ h)

/-- A path that leads to a directory goes on to what is in it. -/
theorem find_snoc {dir : Path} (h : t.find true p = .ok dir)
    (hdir : t.entry dir = some .directory) (he : t.entry (dir ++ [n]) = some e)
    (hnone : ∀ target, e ≠ .link target) : t.find true (p ++ [n]) = .ok (dir ++ [n]) := by
  have hn : IsName n := t.name dir n (by simp [he])
  have hresolve : ∀ {links : ℕ} {here : Path} {rest : List String},
      t.resolve true links here rest = .ok dir →
        t.resolve true links here (rest ++ [n]) = .ok (dir ++ [n]) := by
    intro links
    induction links with
    | zero => exact walk_snoc hdir hn he (fun _ _ _ h => by cases h) hnone
    | succ links ih =>
      refine walk_snoc hdir hn he (fun here target rest h => ?_) hnone
      rw [← List.append_assoc]
      exact ih h
  unfold find at h ⊢
  split at h
  · cases h
  · rename_i hnul
    rw [if_neg]
    · exact hresolve h
    · rw [List.any_append, Bool.or_eq_true, not_or]
      refine ⟨hnul, ?_⟩
      simpa using hn.2.2.2.2

end Tree

end Filesystem
