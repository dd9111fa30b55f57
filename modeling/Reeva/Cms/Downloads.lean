import Reeva.Cms.SignedOnly
import Reeva.Cms.UpdaterService
import Reeva.Interleaving.Inclusions
import Reeva.Release.DownloadHeaders

/-!
# Downloads

The table `download_histories` beside the tables of the CMS, and `UpdaterController.download` with
`UpdaterService.recordAndStream`, statement by statement: the queries that look the artifact up, the
call of its storage, and the transaction that counts the download. That transaction is an attempt
whose failure is only logged. A stream is what the storage held when it was opened; that a client
reads it to its end is left out. The requests that change the catalogue run beside the downloads, on
the same database (`Request.program`).
-/

open Interleaving ReadCommitted

namespace Reeva.Downloads

/-- A row of `download_histories`. -/
structure DownloadHistory where
  id : Id
  artifactId : Id
  ipAddress : Option String
  userAgent : Option String
  lat : Option Rat
  lng : Option Rat
  countryCode : Option String
  deriving DecidableEq, Repr

/-- What the database requires of the histories and of the counts. -/
structure Recorded (t : Tables) (histories : List DownloadHistory) : Prop where
  ids : (histories.map (·.id)).Nodup
  /-- The foreign key `artifact_id`. -/
  artifacts : ∀ h ∈ histories, ∃ a ∈ t.artifacts, a.id = h.artifactId
  /-- `download_count` is an `integer`. -/
  counts : ∀ a ∈ t.artifacts, a.downloadCount ≤ maxInteger

instance (t : Tables) (histories : List DownloadHistory) : Decidable (Recorded t histories) :=
  decidable_of_iff
    ((histories.map (·.id)).Nodup ∧ (∀ h ∈ histories, ∃ a ∈ t.artifacts, a.id = h.artifactId) ∧
      ∀ a ∈ t.artifacts, a.downloadCount ≤ maxInteger)
    ⟨fun ⟨h₁, h₂, h₃⟩ => ⟨h₁, h₂, h₃⟩, fun ⟨h₁, h₂, h₃⟩ => ⟨h₁, h₂, h₃⟩⟩

/-- The database of the CMS with its download histories. -/
structure Catalogue extends Db where
  histories : List DownloadHistory
  recorded : Recorded toTables histories

/-- The statements that change it. -/
inductive Write
  | cms (w : Reeva.Write)
  | insertHistory (r : DownloadHistory)

/-- The database with its download histories. A history shares the key of its artifact. -/
abbrev schema : Schema where
  Db := Catalogue
  Write := Write
  Row := Row
  decRow := inferInstance
  apply
    | .cms w, d =>
      match cmsSchema.apply w d.toDb with
      | none => none
      | some (n, db) =>
        if h : Recorded db.toTables d.histories then some (n, ⟨db, d.histories, h⟩) else none
    | .insertHistory r, d =>
      if h : Recorded d.toTables (d.histories ++ [r]) then some (1, ⟨d.toDb, d.histories ++ [r], h⟩)
      else none
  locks
    | .cms w, d => w.locks d.toTables
    | .insertHistory r, _ => [Row.references .artifacts r.artifactId]

/-- A write of the CMS that runs beside the histories leaves them. -/
theorem apply_cms {w : Reeva.Write} {d d' : Catalogue} {n : ℕ}
    (h : schema.apply (.cms w) d = some (n, d')) :
    cmsSchema.apply w d.toDb = some (n, d'.toDb) ∧ d'.histories = d.histories := by
  simp only [schema] at h
  split at h
  · cases h
  · rename_i m db happ
    split at h
    · obtain ⟨rfl, rfl⟩ := Prod.mk.inj (Option.some.inj h)
      exact ⟨happ, rfl⟩
    · cases h

/-- A history that is inserted is the last one. -/
theorem apply_insertHistory {r : DownloadHistory} {d d' : Catalogue} {n : ℕ}
    (h : schema.apply (.insertHistory r) d = some (n, d')) :
    d'.toDb = d.toDb ∧ d'.histories = d.histories ++ [r] := by
  simp only [schema] at h
  split at h
  · obtain ⟨-, rfl⟩ := Prod.mk.inj (Option.some.inj h)
    exact ⟨rfl, rfl⟩
  · cases h

/-- The tables of the CMS are among those of the catalogue. -/
def cmsTables : Schema.Inclusion cmsSchema schema where
  db := Catalogue.toDb
  write := .cms
  row := id
  apply _ _ _ _ h := (apply_cms h).1
  locks w d := by simp

/-- A program over the catalogue. -/
abbrev Program := Prog (signature schema cmsCalls) (Failure UpdaterError)

/-- A query of the tables. -/
def select {α : Type} (f : Tables → α) : Program α :=
  query (D := schema) fun d => f (Db.toTables (Catalogue.toDb d))

/-- A write. -/
def exec (w : Write) : Program ℕ := write (D := schema) w

/-- A call that does not throw. -/
def call (c : CmsCall) : Program c.Res := ext (E := cmsCalls) c

/-! ## The service -/

/-- `resolveSoftware` -/
def resolveSoftware (slug : Option String) : Program Software := do
  let found ← select fun t => UpdaterService.resolveSoftware t slug
  match found with
  | .ok software => return software
  | .error e => throw (.raised e)

/-- A public artifact with its preloaded relations. -/
structure PublicArtifact where
  artifact : Artifact
  version : Option Version
  platform : Option Target
  architecture : Option Target
  storageProvider : Option StorageProvider
  deriving DecidableEq, Repr

/-- `findPublicById`: the artifact, and its relations by a query each. -/
def findPublicById (id softwareId : Id) : Program (Option PublicArtifact) := do
  let found ← select fun t => (publicQuery t (some softwareId)).find? (·.id = id)
  match found with
  | none => return none
  | some artifact => do
    let version ← select (·.version artifact.versionId)
    let platform ← select (·.platform artifact.platformId)
    let architecture ← select (·.architecture artifact.architectureId)
    let storageProvider ← select (·.storageProvider artifact.storageProviderId)
    return some { artifact, version, platform, architecture, storageProvider }

/-- The call of the storage, whose errors are all reported alike. -/
def openStream (storageProvider : StorageProvider) (storageKey : String) : Program (List UInt8) := do
  let unavailable := UpdaterError.artifactStorage "Artifact storage is temporarily unavailable."
  let resolved ← call (.resolve storageProvider.id)
  match resolved with
  | .error _ => throw (.raised unavailable)
  | .ok _ => do
    let stream ← call (.getStream storageProvider.id storageKey)
    match stream with
    | .error _ => throw (.raised unavailable)
    | .ok content => return content

/-- `increment('download_count', 1)` -/
def increment (id : Id) : Write :=
  .cms (.updateArtifacts (fun _ a => a.id = id) fun a =>
    { a with downloadCount := a.downloadCount + 1 })

/-- `s.slice(0, n)` of an address or a header, whose characters are one code unit each. -/
def slice (n : ℕ) (s : String) : String := String.ofList (s.toList.take n)

/-- What a client tells about itself: its address, and its header `user-agent`. -/
structure Client where
  ipAddress : String
  userAgent : Option String
  deriving DecidableEq, Repr

/-- The history of a download, as it is inserted under an identifier. -/
def history (isIP : String → Bool) (artifactId : Id) (client : Client) (id : Id) :
    DownloadHistory where
  id := id
  artifactId := artifactId
  ipAddress := if isIP client.ipAddress then some (slice 50 client.ipAddress) else none
  userAgent := (client.userAgent.map (slice 2048)).filter (· ≠ "")
  lat := none
  lng := none
  countryCode := none

/-- The transaction that counts a download. -/
def recordMetrics (isIP : String → Bool) (artifactId : Id) (client : Client) : Program Unit :=
  transaction do
    let _ ← exec (increment artifactId)
    let id : Id ← call .randomUuid
    let _ ← exec (.insertHistory (history isIP artifactId client id))
    return ()

/-- `recordAndStream` -/
def recordAndStream (isIP : String → Bool) (artifactId : Id) (client : Client)
    (softwareSlug : Option String) : Program (PublicArtifact × List UInt8) := do
  let software ← resolveSoftware softwareSlug
  let found ← findPublicById artifactId software.id
  match found with
  | none => throw (.raised (.publicArtifactNotFound "Public artifact not found."))
  | some artifact => do
    match artifact.storageProvider with
    | none => throw (.raised (.artifactStorage "Artifact storage provider is unavailable."))
    | some storageProvider => do
      let stream ← openStream storageProvider artifact.artifact.storageKey
      let _ ← (recordMetrics isIP artifact.artifact.id client).attempt
      return (artifact, stream)

/-! ## The controller -/

/-- An answer: an error with its status code, or a stream with its headers. -/
inductive Answer
  | error (status : ℕ) (error : String)
  | stream (headers : List (String × String)) (content : List UInt8)
  deriving DecidableEq, Repr

/-- The headers of a download. -/
def headers (artifact : Artifact) : List (String × String) :=
  [("Content-Type", "application/octet-stream"), ("X-Content-Type-Options", "nosniff"),
    ("Content-Disposition", DownloadHeaders.attachmentDisposition artifact.fileName)] ++
  artifact.sizeBytes.toList.map fun size => ("Content-Length", toString size)

/-- The answer to an error of the service; any other is passed on. -/
def answerError : Failure UpdaterError → Program Answer
  | .raised (.publicArtifactNotFound _) => return .error 404 "Artifact not found."
  | .raised (.publicSoftwareNotFound _) => return .error 404 "Software not found."
  | .raised (.artifactStorage _) => return .error 503 "Artifact storage is temporarily unavailable."
  | e => throw e

/-- A request for a download: `params.id`, `params.slug` and the client. -/
structure DownloadRequest where
  id : String
  slug : Option String
  client : Client
  deriving DecidableEq, Repr

/-- `download` -/
def download (isIP : String → Bool) (r : DownloadRequest) : Program Answer :=
  if isUuid r.id = false then return .error 404 "Artifact not found."
  else
    tryCatch
      (do
        let (artifact, stream) ← recordAndStream isIP r.id r.client r.slug
        return .stream (headers artifact.artifact) stream)
      answerError

/-! ## Requests -/

/-- A request: an operation of the CMS, or a download. -/
inductive Request
  | operation (op : Operation)
  | download (r : DownloadRequest)

/-- What a request ends in. -/
inductive Reply
  | done
  | answer (a : Answer)
  deriving DecidableEq, Repr

/-- The program of a request. -/
def Request.program (node : Node) (isIP : String → Bool) : Request → Program Reply
  | operation op => along cmsTables UpdaterError.error (op.program node) >>= fun _ => pure .done
  | download r => Downloads.download isIP r >>= fun a => pure (.answer a)

/-- The machine of the catalogue. -/
abbrev machine : Machine (signature schema cmsCalls) := Service schema cmsWorld

/-- Requests that have just arrived. -/
def requests (node : Node) (isIP : String → Bool) (rs : List Request) (d : Catalogue)
    (w : CmsWorld) : Config machine (Failure UpdaterError) Reply :=
  ⟨⟨Server.idle d, w⟩, rs.map (Request.program node isIP)⟩

end Reeva.Downloads
