import Reeva.Filesystem.Process

/-!
# The local storage provider

`LocalProvider`, which keeps objects as files below a configured directory, over a file system that
follows POSIX. Paths that `path.resolve` returned are lists of components; the functions of `node:path`
are given on them.
-/

open Filesystem

namespace Reeva

/-! ## `node:path` -/

namespace NodePath

/-- One more component, normalised. -/
def push (p : Path) (component : String) : Path :=
  if component = "" ∨ component = "." then p
  else if component = ".." then p.dropLast
  else p ++ [component]

/-- `path.isAbsolute` -/
def isAbsolute (text : String) : Bool := text.toList.head? = some '/'

/-- `path.resolve(base, ...texts)` -/
def resolve (base : Path) (texts : List String) : Path :=
  texts.foldl (fun p text =>
    (Tree.components text).foldl push (if isAbsolute text then [] else p)) base

/-- `path.join(base, text)` -/
def join (base : Path) (text : String) : Path := (Tree.components text).foldl push base

/-- `path.dirname` -/
def dirname (p : Path) : Path := p.dropLast

/-- `path.relative(source, target)`, by its components. -/
def relative : Path → Path → List String
  | m :: source, n :: target =>
    if m = n then relative source target
    else List.replicate (source.length + 1) ".." ++ n :: target
  | source, target => List.replicate source.length ".." ++ target

/-- `relative === '..' || relative.startsWith('../')`. A path that is relative is not absolute. -/
def leaves (relative : List String) : Bool := relative.head? = some ".."

end NodePath

/-- `LocalProvider`, with the working directory of the process. -/
structure LocalProvider where
  cwd : Path
  /-- The working directory is a path of names. -/
  names : ∀ n ∈ cwd, IsName n
  /-- `config.root` -/
  root : Option String

/-- What is uploaded: its chunks, and the error that it may end in. -/
structure Readable where
  chunks : List (List UInt8)
  failure : Option String

/-- A stream of a file's content, from the path at which it was opened. -/
structure FileStream where
  path : Path
  content : List UInt8
  deriving DecidableEq, Repr

namespace LocalProvider

/-- `this.rootPath`, resolved. -/
def rootPath (provider : LocalProvider) : Path :=
  match provider.root with
  | some root =>
    if root = "" then NodePath.resolve provider.cwd ["storage", "uploads"]
    else NodePath.resolve provider.cwd [root]
  | none => NodePath.resolve provider.cwd ["storage", "uploads"]

/-- A handler that passes over one error of the file system. -/
def passOver (code : Errno) (failure : Failure) : Process Unit :=
  if failure = .errno code then pure () else throw failure

/-- What `mkdir` with `recursive` does when it could not create a directory. -/
def settle (p : Path) : Failure → Process Unit
  | .errno .ENOTDIR => throw (.errno .ENOTDIR)
  | .errno .EACCES => throw (.errno .EACCES)
  | .errno _ => do
    let stat ← look (·.stat p)
    if stat = .directory then pure () else throw (.errno .EEXIST)
  | failure => throw failure

/-- `fs.mkdir(path, { recursive: true })`, for the components of a path in reverse. -/
def mkdirRecursive : List String → Process Unit
  | [] => pure ()
  | n :: up =>
    tryCatch (change (·.mkdir (n :: up).reverse)) fun
      | .errno .ENOENT => do
        mkdirRecursive up
        tryCatch (change (·.mkdir (n :: up).reverse)) (settle (n :: up).reverse)
      | failure => settle (n :: up).reverse failure

/-- `getRealRoot` -/
def getRealRoot (provider : LocalProvider) (create : Bool) : Process Path := do
  let root := provider.rootPath
  (if create then mkdirRecursive root.reverse else pure ())
  let canonicalRoot ← look (·.realpath root)
  let rootStats ← look (·.stat canonicalRoot)
  if rootStats ≠ .directory then throw (.message "Local storage root is not a directory.")
  else return canonicalRoot

/-- `assertContained` -/
def assertContained (root candidate : Path) : Process Unit :=
  let relative := NodePath.relative root candidate
  if relative = [] ∨ NodePath.leaves relative then
    throw (.message "Storage key escapes the configured root.")
  else pure ()

/-- `key.split('/')` -/
def segments (key : String) : List String := Tree.components key

/-- The keys that `resolveKey` accepts. -/
def acceptsKey (key : String) : Bool :=
  !(key = "" || key.toList.contains (Char.ofNat 0) || key.toList.contains '\\' ||
    NodePath.isAbsolute key || (segments key).any fun segment =>
      segment = "" || segment = "." || segment = "..")

/-- `resolveKey` -/
def resolveKey (root : Path) (key : String) : Process Path :=
  if acceptsKey key = false then throw (.message "Invalid storage key.")
  else do
    let fullPath := NodePath.resolve root (segments key)
    assertContained root fullPath
    return fullPath

/-- One round of the loop of `ensureSafeDirectories`. -/
def ensureDirectory (root current : Path) : Process Unit := do
  tryCatch (change (·.mkdir current)) (passOver .EEXIST)
  let stat ← look (·.lstat current)
  if stat ≠ .directory then
    throw (.message "Storage path contains a symlink or non-directory component.")
  else do
    let real ← look (·.realpath current)
    assertContained root real

/-- The loop of `ensureSafeDirectories`. -/
def ensureDirectories (root : Path) : Path → List String → Process Unit
  | _, [] => pure ()
  | current, segment :: rest => do
    let current := NodePath.join current segment
    ensureDirectory root current
    ensureDirectories root current rest

/-- `ensureSafeDirectories` -/
def ensureSafeDirectories (root target : Path) : Process Unit :=
  let relative := NodePath.relative root target
  if NodePath.leaves relative then throw (.message "Storage key escapes the configured root.")
  else ensureDirectories root root (relative.filter (· ≠ ""))

/-- The loop of `assertNoSymlinkPath`. -/
def assertDirectories : Path → List String → Process Unit
  | _, [] => pure ()
  | current, segment :: rest => do
    let current := NodePath.join current segment
    let stat ← look (·.lstat current)
    match stat with
    | .link _ => throw (.message "Storage path contains a symlink.")
    | .directory => assertDirectories current rest
    | .file _ =>
      if rest ≠ [] then throw (.message "Storage path contains a non-directory component.")
      else assertDirectories current rest

/-- `assertNoSymlinkPath` -/
def assertNoSymlinkPath (root target : Path) : Process Unit :=
  let relative := NodePath.relative root target
  if NodePath.leaves relative then throw (.message "Storage key escapes the configured root.")
  else assertDirectories root (relative.filter (· ≠ ""))

/-- `pipeline(file, createWriteStream(fullPath, { flags: 'wx' }))` -/
def pipeline (file : Readable) (fullPath : Path) : Process Unit := do
  change (·.create fullPath)
  file.chunks.forM fun chunk => change (·.append fullPath chunk)
  match file.failure with
  | some text => throw (.message text)
  | none => pure ()

/-- `upload` -/
def upload (provider : LocalProvider) (file : Readable) (key : String) : Process String := do
  let root ← provider.getRealRoot true
  let fullPath ← resolveKey root key
  ensureSafeDirectories root (NodePath.dirname fullPath)
  tryCatch (pipeline file fullPath) fun error => do
    tryCatch (change (·.unlink fullPath)) fun _ => pure ()
    throw error
  return key

/-- The end of `getStream`: opens what is at a path, if it is a file. -/
def openStream (canonicalPath : Path) : Entry → Process FileStream
  | .file _ => do
    let content ← look (·.readNoFollow canonicalPath)
    return { path := canonicalPath, content }
  | _ => throw (.message "Storage key is not a regular file.")

/-- `getStream` -/
def getStream (provider : LocalProvider) (key : String) : Process FileStream := do
  let root ← provider.getRealRoot false
  let fullPath ← resolveKey root key
  assertNoSymlinkPath root fullPath
  let canonicalPath ← look (·.realpath fullPath)
  assertContained root canonicalPath
  let stat ← look (·.stat canonicalPath)
  openStream canonicalPath stat

/-- The end of `delete`: removes what is at a path, if it is a file. -/
def removeFile (canonicalPath : Path) : Entry → Process Unit
  | .file _ => change (·.unlink canonicalPath)
  | _ => pure ()

/-- The part of `delete` that may throw. -/
def deleteFile (provider : LocalProvider) (key : String) : Process Unit := do
  let root ← provider.getRealRoot false
  let fullPath ← resolveKey root key
  assertNoSymlinkPath root fullPath
  let canonicalPath ← look (·.realpath fullPath)
  assertContained root canonicalPath
  let stat ← look (·.stat canonicalPath)
  removeFile canonicalPath stat

/-- `delete` -/
def delete (provider : LocalProvider) (key : String) : Process Unit :=
  tryCatch (provider.deleteFile key) (passOver .ENOENT)

end LocalProvider

end Reeva
