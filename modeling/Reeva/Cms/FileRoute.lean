import Reeva.Cms.DownloadCounts

/-!
# The route of the stored files

`/storage/files/*` streams an object of a local storage by its key. Beside any other programs it
changes nothing, and it streams what the storage held for an artifact that was public when the route
looked for it (`files_are_public`).
-/

open Interleaving ReadCommitted

namespace Reeva.FileRoute

/-! ## The route -/

/-- What the route answers. -/
inductive Response
  | text (status : ℕ) (body : String)
  | stream (headers : List (String × String)) (content : List UInt8)
  deriving DecidableEq, Repr

/-- `preload('storageProvider')`: a query of its own. -/
def preloadStorageProvider : Option Artifact → Cms (Option (Artifact × Option StorageProvider))
  | none => return none
  | some artifact => do
    let storageProvider ← Cms.select (·.storageProvider artifact.storageProviderId)
    return some (artifact, storageProvider)

/-- `findPublicByStorageKey` -/
def findPublicByStorageKey (key : String) : Cms (Option (Artifact × Option StorageProvider)) := do
  let found ← Cms.select fun t => (publicQuery t none).find? (·.storageKey = key)
  preloadStorageProvider found

/-- The answer when nothing is served under the key. -/
def notFound : Response := .text 404 "Not Found"

/-- The answer to every error of the storage. -/
def unavailable : Response := .text 503 "Storage is temporarily unavailable."

/-- The `try` block with its handler. -/
def stream (artifact : Artifact) (provider : StorageProvider) : Cms Response := do
  let resolved ← Cms.call (.resolve provider.id)
  match resolved with
  | .error _ => return unavailable
  | .ok _ => do
    let content ← Cms.call (.getStream provider.id artifact.storageKey)
    match content with
    | .error _ => return unavailable
    | .ok content => return .stream (Downloads.headers artifact) content

/-- What is answered when an artifact is found, or not. -/
def answer : Option (Artifact × Option StorageProvider) → Cms Response
  | some (artifact, some provider) =>
    if provider.type ≠ "local" then return notFound else stream artifact provider
  | _ => return notFound

/-- `/storage/files/*`, for the segments of the path. -/
def storageFiles (segments : List String) : Cms Response := do
  let key := "/".intercalate segments
  let found ← findPublicByStorageKey key
  answer found

/-! ## Its contract -/

/-- The stages: it has not looked yet, it has found an artifact, and its storage, it has been given
a stream; or there was no artifact, its storage is not local, or the storage has failed. -/
inductive Stage
  | start
  | found (artifact : Artifact)
  | located (artifact : Artifact) (provider : StorageProvider)
  | streaming (artifact : Artifact) (provider : StorageProvider) (content : List UInt8)
  | absent
  | unserved (artifact : Artifact)
  | failed

/-- What a look at the tables finds. -/
inductive Looks (key : String) (t : Tables) : Stage → Stage → Prop
  | find {artifact : Artifact} (h : artifact ∈ publicQuery t none)
    (hkey : artifact.storageKey = key) : Looks key t .start (.found artifact)
  | miss (h : ∀ artifact ∈ publicQuery t none, artifact.storageKey ≠ key) :
    Looks key t .start .absent
  | locate {artifact : Artifact} {provider : StorageProvider}
    (h : t.storageProvider artifact.storageProviderId = some provider)
    (hlocal : provider.type = "local") : Looks key t (.found artifact) (.located artifact provider)
  | refuse {artifact : Artifact}
    (h : ∀ provider, t.storageProvider artifact.storageProviderId = some provider →
      provider.type ≠ "local") : Looks key t (.found artifact) (.unserved artifact)

/-- The calls of the storage, and what it answers. -/
inductive Calls : Stage → (e : CmsCall) → e.Res → Stage → Prop
  | resolved {artifact : Artifact} {provider : StorageProvider} :
    Calls (.located artifact provider) (.resolve provider.id) (.ok ()) (.located artifact provider)
  | unresolved {artifact : Artifact} {provider : StorageProvider} {message : String} :
    Calls (.located artifact provider) (.resolve provider.id) (.error message) .failed
  | opened {artifact : Artifact} {provider : StorageProvider} {content : List UInt8} :
    Calls (.located artifact provider) (.getStream provider.id artifact.storageKey) (.ok content)
      (.streaming artifact provider content)
  | refused {artifact : Artifact} {provider : StorageProvider} {message : String} :
    Calls (.located artifact provider) (.getStream provider.id artifact.storageKey) (.error message)
      .failed

/-- The contract of the route: it publishes nothing. -/
def contract (key : String) : Contract cmsSchema cmsCalls Stage where
  reads s ws d s' := ws = [] ∧ Looks key (Db.toTables d) s s'
  calls := Calls
  publishes _ _ _ := False
  halts _ := False

/-- The stages at which it answers. -/
def Answers (response : Response) : Stage → Prop
  | .streaming artifact _ content => response = .stream (Downloads.headers artifact) content
  | .absent | .unserved _ => response = notFound
  | .failed => response = unavailable
  | _ => False

/-- The stages after a look for the artifact. -/
def FoundAt : Option (Artifact × Option StorageProvider) → Stage → Prop
  | none, s => s = .absent
  | some (artifact, none), s => s = .unserved artifact
  | some (artifact, some provider), s =>
    s = if provider.type = "local" then .located artifact provider else .unserved artifact

section keeps

variable {key : String}

/-- The storage of an artifact is looked up. -/
theorem preloadStorageProvider_keeps (artifact : Artifact) :
    (contract key).Keeps (preloadStorageProvider (some artifact))
      (fun found s tx => FoundAt found s ∧ tx = none) (fun _ _ _ => True) (.found artifact)
      none := by
  refine Contract.keeps_query trivial trivial fun d => ?_
  change ∃ s', _ ∧ FoundAt (some (artifact, (Db.toTables d).storageProvider _)) s' ∧ none = none
  cases hprovider : (Db.toTables d).storageProvider artifact.storageProviderId with
  | none =>
    refine ⟨.unserved artifact, ⟨rfl, .refuse fun provider h => ?_⟩, rfl, rfl⟩
    cases hprovider.symm.trans h
  | some provider =>
    by_cases hlocal : provider.type = "local"
    · exact ⟨.located artifact provider, ⟨rfl, .locate hprovider hlocal⟩, (if_pos hlocal).symm, rfl⟩
    · refine ⟨.unserved artifact, ⟨rfl, .refuse fun provider' h => ?_⟩, (if_neg hlocal).symm, rfl⟩
      obtain rfl := Option.some.inj (hprovider.symm.trans h)
      exact hlocal

/-- The artifact is looked up. -/
theorem findPublicByStorageKey_keeps :
    (contract key).Keeps (findPublicByStorageKey key)
      (fun found s tx => FoundAt found s ∧ tx = none) (fun _ _ _ => True) .start none := by
  refine Contract.keeps_query trivial trivial fun d => ?_
  change ∃ s', _ ∧ Contract.Keeps _ (preloadStorageProvider
    ((publicQuery (Db.toTables d) none).find? fun a => a.storageKey = key)) _ _ s' none
  cases hfound : (publicQuery (Db.toTables d) none).find? fun a => a.storageKey = key with
  | none =>
    refine ⟨.absent, ⟨rfl, .miss fun artifact h => ?_⟩, rfl, rfl⟩
    exact fun hkey => List.find?_eq_none.mp hfound artifact h (decide_eq_true hkey)
  | some artifact =>
    have hkey := List.find?_some hfound
    exact ⟨.found artifact,
      ⟨rfl, .find (List.mem_of_find?_eq_some hfound) (of_decide_eq_true hkey)⟩,
      preloadStorageProvider_keeps artifact⟩

/-- The stream is opened, or an error is answered. -/
theorem stream_keeps (artifact : Artifact) (provider : StorageProvider) :
    (contract key).Keeps (stream artifact provider) (fun response s _ => Answers response s)
      (fun _ _ _ => True) (.located artifact provider) none := by
  refine Contract.keeps_ext fun resolved => ?_
  cases resolved with
  | error message => exact ⟨_, .unresolved, rfl⟩
  | ok _ =>
    refine ⟨_, .resolved, Contract.keeps_ext fun content => ?_⟩
    cases content with
    | error message => exact ⟨_, .refused, rfl⟩
    | ok content => exact ⟨_, .opened, rfl⟩

/-- The route keeps its contract, and answers at the stages where it should. -/
theorem storageFiles_keeps (segments : List String) :
    (contract ("/".intercalate segments)).Keeps (storageFiles segments)
      (fun response s _ => Answers response s) (fun _ _ _ => True) .start none := by
  refine Contract.keeps_bind (findPublicByStorageKey_keeps.mono ?_ fun _ _ _ h => h)
  rintro found s tx ⟨hfound, rfl⟩
  -- The stage says what was found; only an artifact of a local storage is streamed.
  cases found with
  | none =>
    obtain rfl : s = .absent := hfound
    exact rfl
  | some x =>
    obtain ⟨artifact, provider⟩ := x
    cases provider with
    | none =>
      obtain rfl : s = .unserved artifact := hfound
      exact rfl
    | some provider =>
      unfold answer
      dsimp only
      by_cases hlocal : provider.type = "local"
      · rw [if_neg (not_not.mpr hlocal)]
        obtain rfl : s = .located artifact provider := hfound.trans (if_pos hlocal)
        exact stream_keeps artifact provider
      · rw [if_pos hlocal]
        obtain rfl : s = .unserved artifact := hfound.trans (if_neg hlocal)
        exact rfl

end keeps

/-! ## The programs and their automata -/

/-- The route keeps its contract; the other programs may do anything. -/
def contracts (key : String) (j i : ℕ) : Contract cmsSchema cmsCalls Stage :=
  if i = j then contract key else Contract.anything cmsSchema cmsCalls Stage

/-- Where the programs are when they return. -/
def EndsAt (j i : ℕ) (response : Response) (s : Stage) : Prop := i = j → Answers response s

/-- The programs and the automata of their contracts. -/
abbrev Follows (key : String) (j : ℕ) (c : Config cms (Failure String) Response)
    (A : Contract.State cmsSchema cmsWorld Stage) : Prop :=
  Contract.Related (contracts key j) (EndsAt j) (fun _ _ _ => True) c A

/-- Programs that have just arrived. -/
def beside (pool : List (Cms Response)) (d : Db) (w : CmsWorld) :
    Config cms (Failure String) Response := ⟨⟨Server.idle (D := cmsSchema) d, w⟩, pool⟩

/-- Where what the route has come to know comes from, in a run from `c₀` to `c`. -/
def Origin (ok : Guard cms) (key : String) (c₀ c : Config cms (Failure String) Response) :
    Stage → Prop
  | .start | .failed => True
  | .found artifact => ∃ c₁, c₀.Run ok c₁ ∧ c₁.Run ok c ∧
    artifact ∈ publicQuery c₁.state.server.db.toTables none ∧ artifact.storageKey = key
  | .located artifact provider => ∃ c₁ c₂, c₀.Run ok c₁ ∧ c₁.Run ok c₂ ∧ c₂.Run ok c ∧
    artifact ∈ publicQuery c₁.state.server.db.toTables none ∧ artifact.storageKey = key ∧
    c₂.state.server.db.toTables.storageProvider artifact.storageProviderId = some provider ∧
    provider.type = "local"
  | .streaming artifact provider content => ∃ c₁ c₂ c₃, c₀.Run ok c₁ ∧ c₁.Run ok c₂ ∧
    c₂.Run ok c₃ ∧ c₃.Run ok c ∧
    artifact ∈ publicQuery c₁.state.server.db.toTables none ∧ artifact.storageKey = key ∧
    c₂.state.server.db.toTables.storageProvider artifact.storageProviderId = some provider ∧
    provider.type = "local" ∧ c₃.state.world.objects provider.id key = some content
  | .absent => ∃ c₁, c₀.Run ok c₁ ∧ c₁.Run ok c ∧
    ∀ artifact ∈ publicQuery c₁.state.server.db.toTables none, artifact.storageKey ≠ key
  | .unserved artifact => ∃ c₁ c₂, c₀.Run ok c₁ ∧ c₁.Run ok c₂ ∧ c₂.Run ok c ∧
    artifact ∈ publicQuery c₁.state.server.db.toTables none ∧ artifact.storageKey = key ∧
    ∀ provider, c₂.state.server.db.toTables.storageProvider artifact.storageProviderId =
      some provider → provider.type ≠ "local"

section runs

variable {segments : List String} {key : String} {j : ℕ} {pool : List (Cms Response)} {d : Db}
  {w : CmsWorld} {ok : Guard cms} {c₀ c c' : Config cms (Failure String) Response}

theorem contracts_self : contracts key j j = contract key := if_pos rfl

/-- A route that has just been asked stands at the start of its contract. -/
theorem follows_beside (hj : pool[j]? = some (storageFiles segments)) :
    Follows ("/".intercalate segments) j (beside pool d w) ⟨fun _ => .start, d, w⟩ :=
  Contract.related_beside (D := cmsSchema) (X := cmsWorld)
    (K := contract ("/".intercalate segments)) (Q := Answers) d w hj (storageFiles_keeps segments)

/-- What happened before a step happened before it. -/
theorem Origin.later {s : Stage} (h : Origin ok key c₀ c s) (hs : c.Step ok c') :
    Origin ok key c₀ c' s := by
  cases s with
  | start => trivial
  | failed => trivial
  | found artifact =>
    obtain ⟨c₁, h₁, h₂, h⟩ := h
    exact ⟨c₁, h₁, h₂.tail hs, h⟩
  | located artifact provider =>
    obtain ⟨c₁, c₂, h₁, h₂, h₃, h⟩ := h
    exact ⟨c₁, c₂, h₁, h₂, h₃.tail hs, h⟩
  | streaming artifact provider content =>
    obtain ⟨c₁, c₂, c₃, h₁, h₂, h₃, h₄, h⟩ := h
    exact ⟨c₁, c₂, c₃, h₁, h₂, h₃, h₄.tail hs, h⟩
  | absent =>
    obtain ⟨c₁, h₁, h₂, h⟩ := h
    exact ⟨c₁, h₁, h₂.tail hs, h⟩
  | unserved artifact =>
    obtain ⟨c₁, c₂, h₁, h₂, h₃, h⟩ := h
    exact ⟨c₁, c₂, h₁, h₂, h₃.tail hs, h⟩

/-- A read leads to what is committed then. -/
theorem Origin.looks {s s' : Stage} (h : Origin ok key c₀ c s) (hr : c₀.Run ok c)
    (hl : Looks key c.state.server.db.toTables s s') : Origin ok key c₀ c s' := by
  cases hl with
  | find hfound hkey => exact ⟨c, hr, .refl, hfound, hkey⟩
  | miss hnone => exact ⟨c, hr, .refl, hnone⟩
  | locate hprovider hlocal =>
    obtain ⟨c₁, h₁, h₂, hpublic, hkey⟩ := h
    exact ⟨c₁, c, h₁, h₂, .refl, hpublic, hkey, hprovider, hlocal⟩
  | refuse hnone =>
    obtain ⟨c₁, h₁, h₂, hpublic, hkey⟩ := h
    exact ⟨c₁, c, h₁, h₂, .refl, hpublic, hkey, hnone⟩

/-- A stream is what the storage holds then. -/
theorem Origin.calls {s s' : Stage} (h : Origin ok key c₀ c s) {e : CmsCall} {o : Outcome}
    {x : e.Res} {v : CmsWorld} (hrun : e.run j o c.state.world = some (x, v))
    (hc : Calls s e x s') : Origin ok key c₀ c s' := by
  cases hc with
  | resolved => exact h
  | unresolved => trivial
  | refused => trivial
  | opened =>
    obtain ⟨c₁, c₂, h₁, h₂, h₃, hpublic, hkey, hprovider, hlocal⟩ := h
    refine ⟨c₁, c₂, c, h₁, h₂, h₃, .refl, hpublic, hkey, hprovider, hlocal, ?_⟩
    rw [← hkey]
    simp only [CmsCall.run] at hrun
    split at hrun
    · rename_i hobject
      cases hrun
      exact hobject
    · cases hrun
    · cases hrun

/-- The calls of the route leave the world as it is. -/
theorem Calls.world {s s' : Stage} {e : CmsCall} {x : e.Res} (hc : Calls s e x s') {i : ℕ}
    {o : Outcome} {v v' : CmsWorld} (hrun : e.run i o v = some (x, v')) : v' = v := by
  cases hc with
  | resolved => cases o <;> cases hrun; rfl
  | unresolved => cases o <;> cases hrun; rfl
  | opened =>
    simp only [CmsCall.run] at hrun
    split at hrun <;> cases hrun
    rfl
  | refused =>
    simp only [CmsCall.run] at hrun
    split at hrun <;> cases hrun
    rfl

/-- In every run the programs follow their contracts, and the route knows what was there. -/
theorem origin_run (hj : pool[j]? = some (storageFiles segments))
    (hr : (beside pool d w).Run ok c) :
    ∃ A, Follows ("/".intercalate segments) j c A ∧
      Origin ok ("/".intercalate segments) (beside pool d w) c (A.stage j) := by
  refine (follows_beside hj).invariant (I := fun c A =>
    Origin ok ("/".intercalate segments) (beside pool d w) c (A.stage j)) trivial ?_ hr
  intro c₁ c₂ A₁ A₂ m hrun hs hrel _ hmove _ h
  refine Origin.later ?_ hs
  cases hmove with
  | refl => exact h
  | single hm =>
    by_cases hm' : m = some j
    swap
    · exact (hm.stage_of_ne hm').symm ▸ h
    subst hm'
    have hself := hm.stage_self
    rw [contracts_self] at hself
    rcases hself with ⟨ws, ⟨-, hread⟩, -⟩ | ⟨e, o, x, v, hcall, hc, -⟩ | ⟨ws, hpub, -⟩
    · exact h.looks hrun (hrel.db ▸ hread)
    · exact h.calls (hrel.world ▸ hcall) hc
    · exact hpub.elim

/-- In every run of the route beside any other programs, whatever the interleaving and the faults:
its steps leave the database and the world outside as they are. A stream that it answers with is the
object that the local storage of an artifact held under the requested key; the artifact was public
before that, and its storage there. It answers that there is nothing only where no public artifact
had the key, or the storage of one that had it was not a local one. -/
theorem files_are_public (hj : pool[j]? = some (storageFiles segments))
    (hr : (beside pool d w).Run ok c) :
    (∀ c', c.StepBy ok j c' →
      c'.state.server.db = c.state.server.db ∧ c'.state.world = c.state.world) ∧
    ∀ response, c.pool[j]? = some (.ret response) →
      (∃ artifact provider content, response = .stream (Downloads.headers artifact) content ∧
        Origin ok ("/".intercalate segments) (beside pool d w) c
          (.streaming artifact provider content)) ∨
      (response = .text 404 "Not Found" ∧
        (Origin ok ("/".intercalate segments) (beside pool d w) c .absent ∨
          ∃ artifact, Origin ok ("/".intercalate segments) (beside pool d w) c
            (.unserved artifact))) ∨
      response = .text 503 "Storage is temporarily unavailable." := by
  obtain ⟨A, hrel, h⟩ := origin_run hj hr
  refine ⟨fun c' hs => ?_, fun response hp => ?_⟩
  · obtain ⟨A', hmove, hrel'⟩ := hrel.stepBy hs
    rw [← hrel.db, ← hrel'.db, ← hrel.world, ← hrel'.world]
    -- It reads and calls; it publishes nothing.
    cases hmove with
    | refl => exact ⟨rfl, rfl⟩
    | single hm =>
      cases hm with
      | reads => exact ⟨rfl, rfl⟩
      | publishes hd hpub =>
        rw [contracts_self] at hpub
        exact hpub.elim
      | calls hcall hc =>
        rw [contracts_self] at hc
        exact ⟨rfl, Calls.world hc hcall⟩
  · have hanswers : Answers response (A.stage j) := hrel.returned hp rfl
    generalize A.stage j = s at h hanswers
    cases s with
    | streaming artifact provider content => exact .inl ⟨artifact, provider, content, hanswers, h⟩
    | absent => exact .inr (.inl ⟨hanswers, .inl h⟩)
    | unserved artifact => exact .inr (.inl ⟨hanswers, .inr ⟨artifact, h⟩⟩)
    | failed => exact .inr (.inr hanswers)
    | _ => exact hanswers.elim

end runs

/-! ## A file -/

/-- The file of the release that is published, and one that there is not. -/
def twoFiles : List (Cms Response) :=
  [storageFiles ["artifacts", Downloads.releaseId, "payload"],
    storageFiles ["artifacts", "missing"]]

/-- The first request looks for the artifact and its storage, and opens the stream. -/
def streamsFile : List (Config.Event cms) :=
  [.thread 0 (.db .none), .thread 1 (.db .none), .thread 0 (.db .none), .thread 0 (.ext .done),
    .thread 0 (.ext .done)]

/-- The first request has been answered with a stream. -/
def hasStreamed (c : Config cms (Failure String) Response) : Bool :=
  match (c.pool[0]? : Option (Cms Response)) with
  | some (.ret (.stream _ _)) => true
  | _ => false

theorem ret_of_hasStreamed {c : Config cms (Failure String) Response} (h : hasStreamed c = true) :
    ∃ fields content, c.pool[0]? = some (.ret (.stream fields content)) := by
  simp only [hasStreamed] at h
  split at h
  · exact ⟨_, _, by assumption⟩
  · cases h

/-- The file is streamed. -/
theorem files_are_public_example :
    ∃ (c : Config cms (Failure String) Response) (artifact : Artifact) (provider : StorageProvider)
      (content : List UInt8),
      (beside twoFiles Downloads.oneDownload.toDb Downloads.oneByte).Run (Guard.always cms) c ∧
      c.pool[0]? = some (.ret (.stream (Downloads.headers artifact) content)) ∧
      Origin (Guard.always cms) ("/".intercalate ["artifacts", Downloads.releaseId, "payload"])
        (beside twoFiles Downloads.oneDownload.toDb Downloads.oneByte) c
        (.streaming artifact provider content) := by
  have h : ((beside twoFiles Downloads.oneDownload.toDb Downloads.oneByte).follow
      (fun _ _ _ _ => true) streamsFile).any hasStreamed = true := by
    decide +kernel
  obtain ⟨c, hr, hc⟩ := Config.reached_of_follow (G := Guard.always cms)
    (fun _ _ _ _ _ => trivial) h
  obtain ⟨fields, content, hp⟩ := ret_of_hasStreamed hc
  rcases (files_are_public rfl hr).2 _ hp with
    ⟨artifact, provider, content', hresponse, horigin⟩ | ⟨hresponse, -⟩ | hresponse
  · exact ⟨c, artifact, provider, content', hr, hresponse ▸ hp, horigin⟩
  · cases hresponse
  · cases hresponse

end Reeva.FileRoute
