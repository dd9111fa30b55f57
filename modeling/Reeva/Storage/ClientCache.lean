import Reeva.Codec.JsonSize
import Reeva.Collections.InsertionOrder
import Reeva.Release.Manifest
import Reeva.Storage.EditForm

/-!
# The clients of S3-compatible storages

`getS3Client` keeps the clients that it builds in a `Map` under the fingerprints of their
configurations, 32 of them at most: a client that is asked for moves to the end, and the first one
goes when a new one makes 33. The order of the map is therefore the order of the last requests.

A client is an object: two of them are the same only if they were built in the same call, which the
number of the call among all constructions stands for. The constructor of the SDK may throw; then
nothing changes. What the clients were built from and which of them were destroyed is kept beside
the map.
-/

namespace Reeva

/-! ## The source -/

/-- The credentials of a client. -/
structure S3Credentials where
  accessKeyId : String
  secretAccessKey : Option String
  sessionToken : Option String
  deriving DecidableEq

/-- What `new S3Client` is given. -/
structure S3ClientConfig where
  region : String
  endpoint : Option String
  forcePathStyle : Bool
  credentials : Option S3Credentials
  maxAttempts : ℤ
  connectionTimeout : ℤ
  socketTimeout : ℤ
  requestChecksumCalculation : String
  responseChecksumValidation : String
  deriving DecidableEq

/-- A string that is not empty. -/
def nonempty (value : Option String) : Option String := value.filter (· ≠ "")

/-- What `getS3Client` gives to the constructor for a configuration. -/
def Settings.clientConfig (config : Settings) : S3ClientConfig where
  region := config.region
  endpoint := config.endpoint
  forcePathStyle := config.forcePathStyle
  credentials := (nonempty config.accessKeyId).map fun accessKeyId => {
    accessKeyId
    secretAccessKey := config.secretAccessKey
    sessionToken := nonempty config.sessionToken }
  maxAttempts := config.maxAttempts
  connectionTimeout := config.connectionTimeoutMs
  socketTimeout := config.socketTimeoutMs
  requestChecksumCalculation := "WHEN_REQUIRED"
  responseChecksumValidation := "WHEN_REQUIRED"

/-- A client: the number of its construction, the configuration that it was built for and what the
constructor was given. -/
structure S3Client where
  id : ℕ
  config : Settings
  given : S3ClientConfig
  built : given = config.clientConfig
  deriving DecidableEq

namespace S3CompatibleProvider

/-- `MAX_CACHED_CLIENTS` -/
def maxCachedClients : ℕ := 32

/-- The clients of the process. -/
structure Clients where
  /-- `s3Clients` -/
  s3Clients : InsertionMap String S3Client
  /-- The clients that were built, in order. -/
  constructed : List S3Client
  /-- The clients that were destroyed, in order. -/
  destroyed : List S3Client

/-- The clients when the process starts. -/
def Clients.start : Clients := ⟨InsertionMap.empty, [], []⟩

section source

variable (node : Node)

/-- `JSON.stringify(config)` as the hash reads it. -/
def configBytes (config : Settings) : List UInt8 := Js.utf8 (Json.obj config.fields).stringify

/-- `createHash('sha256').update(JSON.stringify(config)).digest('hex')` -/
def fingerprint (config : Settings) : String := node.digest "sha256" (configBytes config)

/-- `new S3Client(…)` -/
def Clients.construct (s : Clients) (config : Settings) : S3Client :=
  ⟨s.constructed.length, config, config.clientConfig, rfl⟩

/-- `getS3Client`, with whether the constructor returns if it is called; no client is returned when
it throws. -/
def getS3Client (config : Settings) (constructs : Bool) (s : Clients) :
    Option S3Client × Clients :=
  let fingerprint := fingerprint node config
  match s.s3Clients.get? fingerprint with
  | some cached =>
    (some cached,
      { s with s3Clients := (s.s3Clients.delete fingerprint).set fingerprint cached })
  | none =>
    if constructs then
      let client := s.construct config
      let s := { s with constructed := s.constructed ++ [client] }
      let s := { s with s3Clients := s.s3Clients.set fingerprint client }
      if maxCachedClients < s.s3Clients.size then
        match s.s3Clients.keys.head? with
        | some oldest =>
          if oldest ≠ "" then
            let s := { s with destroyed := s.destroyed ++ (s.s3Clients.get? oldest).toList }
            (some client, { s with s3Clients := s.s3Clients.delete oldest })
          else (some client, s)
        | none => (some client, s)
      else (some client, s)
    else (none, s)

/-- `shutdownS3CompatibleClients` -/
def shutdownS3CompatibleClients (s : Clients) : Clients :=
  { s with
    destroyed := s.destroyed ++ s.s3Clients.values
    s3Clients := InsertionMap.empty }

/-! ## Runs -/

/-- A call of the module. -/
inductive CacheCall
  | getS3Client (config : Settings) (constructs : Bool)
  | shutdown
  deriving DecidableEq

/-- The client that a call returns, and the clients after it. -/
def call (s : Clients) : CacheCall → Option S3Client × Clients
  | .getS3Client config constructs => getS3Client node config constructs s
  | .shutdown => (none, shutdownS3CompatibleClients s)

/-- The configurations whose requests were served since the last shutdown, after a call. -/
def CacheCall.served (returned : Option S3Client) (history : List Settings) :
    CacheCall → List Settings
  | .getS3Client config _ => if returned.isSome then history ++ [config] else history
  | .shutdown => []

/-- One call of a run: the clients, and the configurations that were served. -/
def runStep (r : Clients × List Settings) (c : CacheCall) : Clients × List Settings :=
  ((call node r.1 c).2, c.served (call node r.1 c).1 r.2)

/-- The clients after the calls of a run, and the configurations whose requests were served since
the last shutdown. -/
def run (calls : List CacheCall) : Clients × List Settings :=
  calls.foldl (runStep node) (Clients.start, [])

/-- The configuration of a request. -/
def CacheCall.config? : CacheCall → Option Settings
  | .getS3Client config _ => some config
  | .shutdown => none

/-- The configurations that a run asks for. -/
def requested (calls : List CacheCall) : List Settings := calls.filterMap CacheCall.config?

/-- The run ends with its last call. -/
theorem run_concat (calls : List CacheCall) (c : CacheCall) :
    run node (calls ++ [c]) = runStep node (run node calls) c := by
  rw [run, List.foldl_append]
  rfl

end source

/-! ## One request -/

/-- The hash of Node has 64 hexadecimal digits. -/
def HexDigests (node : Node) : Prop :=
  ∀ bytes, Js.isSha256Hex (node.digest "sha256" bytes) = true

/-- A fingerprint is not empty. -/
theorem fingerprint_ne_empty {node : Node} (hhex : HexDigests node) (config : Settings) :
    fingerprint node config ≠ "" := by
  intro hempty
  have hdigits := hhex (configBytes config)
  rw [fingerprint] at hempty
  rw [hempty] at hdigits
  exact absurd hdigits (by decide)

section requests

variable {node : Node} {s : Clients} {config : Settings} {constructs : Bool}

/-- What a request does. -/
inductive Requested (node : Node) (s : Clients) (config : Settings) :
    Option S3Client → Clients → Prop
  /-- The client is there, and moves to the end. -/
  | hit {cached : S3Client} :
      (fingerprint node config, cached) ∈ s.s3Clients.entries →
      Requested node s config (some cached)
        { s with s3Clients := (s.s3Clients.delete (fingerprint node config)).set
                  (fingerprint node config) cached }
  /-- The constructor throws. -/
  | thrown : fingerprint node config ∉ s.s3Clients.keys → Requested node s config none s
  /-- There is room for a new client. -/
  | added : fingerprint node config ∉ s.s3Clients.keys → s.s3Clients.size < maxCachedClients →
      Requested node s config (some (s.construct config))
        { s with
          s3Clients := s.s3Clients.set (fingerprint node config) (s.construct config)
          constructed := s.constructed ++ [s.construct config] }
  /-- The new client takes the place of the first one. -/
  | replaced {oldest : String × S3Client} {rest : List (String × S3Client)} :
      fingerprint node config ∉ s.s3Clients.keys → maxCachedClients ≤ s.s3Clients.size →
      s.s3Clients.entries = oldest :: rest →
      Requested node s config (some (s.construct config))
        { s with
          s3Clients :=
            (s.s3Clients.set (fingerprint node config) (s.construct config)).delete oldest.1
          constructed := s.constructed ++ [s.construct config]
          destroyed := s.destroyed ++ [oldest.2] }

/-- A request does this, when no key is empty. -/
theorem requested_getS3Client (hkeys : ∀ key ∈ s.s3Clients.keys, key ≠ "") :
    Requested node s config (getS3Client node config constructs s).1
      (getS3Client node config constructs s).2 := by
  unfold getS3Client
  dsimp only
  split
  · rename_i cached hcached
    exact .hit (InsertionMap.get?_eq_some_iff.mp hcached)
  · rename_i hnone
    have hnot := InsertionMap.get?_eq_none_iff.mp hnone
    cases constructs with
    | false => exact .thrown hnot
    | true =>
      have hset := InsertionMap.entries_set hnot (s.construct config)
      rw [if_pos rfl]
      by_cases hsize : maxCachedClients <
          (s.s3Clients.set (fingerprint node config) (s.construct config)).size
      · -- The first entry was there before, so it is not the new one.
        have hfull : maxCachedClients ≤ s.s3Clients.size := by
          rw [InsertionMap.size, hset, List.length_append] at hsize
          exact Nat.lt_succ_iff.mp hsize
        obtain ⟨oldest, rest, hentries⟩ :=
          List.exists_cons_of_length_pos (Nat.lt_of_lt_of_le (by decide) hfull)
        have hhead : (s.s3Clients.set (fingerprint node config) (s.construct config)).keys.head? =
            some oldest.1 := by
          rw [InsertionMap.keys, hset, hentries]
          rfl
        have hget : (s.s3Clients.set (fingerprint node config) (s.construct config)).get? oldest.1 =
            some oldest.2 := by
          rw [InsertionMap.get?_eq_some_iff, hset, hentries]
          exact .head _
        have hne : oldest.1 ≠ "" := hkeys _ (by
          rw [InsertionMap.keys, hentries]
          exact .head _)
        rw [if_pos hsize, hhead]
        dsimp only
        rw [if_pos hne, hget]
        exact .replaced hnot hfull hentries
      · have hroom : s.s3Clients.size < maxCachedClients := by
          rw [InsertionMap.size, hset, List.length_append] at hsize
          exact Nat.lt_of_succ_le (Nat.le_of_not_lt hsize)
        rw [if_neg hsize]
        exact .added hnot hroom

/-- The map that a request leaves is that of a request to a map of 32 entries. -/
theorem Requested.s3Clients_eq {returned : S3Client} {s' : Clients}
    (h : Requested node s config (some returned) s') :
    s'.s3Clients = InsertionMap.request maxCachedClients s.s3Clients (fingerprint node config)
      (s.construct config) := by
  unfold InsertionMap.request
  cases h with
  | hit hmem => rw [InsertionMap.get?_eq_some_iff.mpr hmem, Option.elim_some]
  | added hnot hroom =>
    have hsize : ¬maxCachedClients <
        (s.s3Clients.set (fingerprint node config) (s.construct config)).size := by
      rw [InsertionMap.size, InsertionMap.entries_set hnot, List.length_append]
      exact Nat.not_lt.mpr hroom
    rw [InsertionMap.get?_eq_none_iff.mpr hnot, Option.elim_none, InsertionMap.evict, if_neg hsize]
  | replaced hnot hfull hentries =>
    have hsize : maxCachedClients <
        (s.s3Clients.set (fingerprint node config) (s.construct config)).size := by
      rw [InsertionMap.size, InsertionMap.entries_set hnot, List.length_append]
      exact Nat.lt_succ_of_le hfull
    rw [InsertionMap.get?_eq_none_iff.mpr hnot, Option.elim_none, InsertionMap.evict, if_pos hsize,
      InsertionMap.keys, InsertionMap.entries_set hnot, hentries]
    rfl

end requests

/-! ## The cache over a run -/

/-- What holds of the clients after the requests for the configurations of a history. -/
structure Cached (node : Node) (history : List Settings) (s : Clients) : Prop where
  /-- The keys are the fingerprints that were asked for last. -/
  keys : s.s3Clients.keys =
    InsertionMap.recent maxCachedClients (history.map (fingerprint node))
  /-- A client is stored under the fingerprint of its configuration, which was asked for. -/
  stored : ∀ e ∈ s.s3Clients.entries, e.1 = fingerprint node e.2.config ∧ e.2.config ∈ history
  /-- It was built and is not destroyed. -/
  alive : ∀ e ∈ s.s3Clients.entries, e.2 ∈ s.constructed ∧ e.2 ∉ s.destroyed
  /-- Only clients that were built are destroyed. -/
  destroyed : ∀ client ∈ s.destroyed, client ∈ s.constructed
  /-- No client is lost without being destroyed. -/
  kept : ∀ client ∈ s.constructed, client ∈ s.s3Clients.values ∨ client ∈ s.destroyed
  /-- The constructions are numbered. -/
  numbered : ∀ client ∈ s.constructed, client.id < s.constructed.length

section runs

variable {node : Node} {s : Clients} {history : List Settings}

/-- No client is there at the start. -/
theorem cached_start : Cached node [] Clients.start where
  keys := rfl
  stored := fun _ he => absurd he List.not_mem_nil
  alive := fun _ he => absurd he List.not_mem_nil
  destroyed := fun _ h => absurd h List.not_mem_nil
  kept := fun _ h => absurd h List.not_mem_nil
  numbered := fun _ h => absurd h List.not_mem_nil

/-- A new client is none of the old ones. -/
theorem Cached.construct_notMem (h : Cached node history s) (config : Settings) :
    s.construct config ∉ s.constructed := fun hmem =>
  Nat.lt_irrefl _ (h.numbered _ hmem)

/-- No key is empty. -/
theorem Cached.key_ne_empty (h : Cached node history s) (hhex : HexDigests node) :
    ∀ key ∈ s.s3Clients.keys, key ≠ "" := by
  intro key hkey
  obtain ⟨e, he, rfl⟩ := List.mem_map.mp hkey
  rw [(h.stored e he).1]
  exact fingerprint_ne_empty hhex _

/-- The entries after a request for a key that is not there. -/
theorem mem_replaced {config : Settings} {oldest : String × S3Client}
    {rest : List (String × S3Client)} {client : S3Client}
    (hnot : fingerprint node config ∉ s.s3Clients.keys)
    (hentries : s.s3Clients.entries = oldest :: rest) :
    ((s.s3Clients.set (fingerprint node config) client).delete oldest.1).entries =
      rest ++ [(fingerprint node config, client)] := by
  refine InsertionMap.entries_delete_head ?_
  rw [InsertionMap.entries_set hnot, hentries, List.cons_append]

/-- A request keeps this, and is the last one afterwards if it was served. -/
theorem Cached.request {config : Settings} {s' : Clients} {returned : S3Client}
    (h : Cached node history s) (hr : Requested node s config (some returned) s') :
    Cached node (history ++ [config]) s' := by
  have hkeys : s'.s3Clients.keys = InsertionMap.recent maxCachedClients
      ((history ++ [config]).map (fingerprint node)) := by
    rw [hr.s3Clients_eq, List.map_append]
    exact InsertionMap.keys_request h.keys _ _
  -- What was there before stays so, and the new client has its place.
  have hold : ∀ e ∈ s.s3Clients.entries,
      e.1 = fingerprint node e.2.config ∧ e.2.config ∈ history ++ [config] := fun e he =>
    ⟨(h.stored e he).1, List.mem_append_left _ (h.stored e he).2⟩
  have hnew : ∀ e ∈ [(fingerprint node config, s.construct config)],
      e.1 = fingerprint node e.2.config ∧ e.2.config ∈ history ++ [config] := by
    intro e he
    rw [List.mem_singleton.mp he]
    exact ⟨rfl, List.mem_append_right _ (.head _)⟩
  have hfresh := h.construct_notMem config
  have hnumbered : ∀ client ∈ s.constructed ++ [s.construct config],
      client.id < (s.constructed ++ [s.construct config]).length := by
    intro client hclient
    rw [List.length_append, List.length_singleton]
    rcases List.mem_append.mp hclient with hmem | hmem
    · exact Nat.lt_succ_of_lt (h.numbered client hmem)
    · rw [List.mem_singleton.mp hmem]
      exact Nat.lt_succ_self _
  cases hr with
  | hit hmem =>
    -- The entries are the same, in another order.
    have hiff : ∀ e, e ∈ ((s.s3Clients.delete (fingerprint node config)).set
        (fingerprint node config) returned).entries ↔ e ∈ s.s3Clients.entries := by
      intro e
      rw [InsertionMap.entries_set_delete, List.mem_append, List.mem_singleton]
      constructor
      · rintro (he | rfl)
        · exact (List.mem_filter.mp he).1
        · exact hmem
      · intro he
        by_cases hkey : e.1 = fingerprint node config
        · exact .inr (List.inj_on_of_nodup_map s.s3Clients.nodup he hmem hkey)
        · exact .inl (List.mem_filter.mpr ⟨he, decide_eq_true hkey⟩)
    refine ⟨hkeys, fun e he => hold e ((hiff e).mp he), fun e he => h.alive e ((hiff e).mp he),
      h.destroyed, fun client hclient => (h.kept client hclient).imp_left fun hvalue => ?_,
      h.numbered⟩
    obtain ⟨e, he, rfl⟩ := List.mem_map.mp hvalue
    exact List.mem_map_of_mem ((hiff e).mpr he)
  | added hnot hroom =>
    have hentries := InsertionMap.entries_set hnot (s.construct config)
    refine ⟨hkeys, fun e he => ?_, fun e he => ?_, fun client hclient => ?_,
      fun client hclient => ?_, hnumbered⟩
    · rw [hentries] at he
      exact (List.mem_append.mp he).elim (hold e) (hnew e)
    · rw [hentries] at he
      rcases List.mem_append.mp he with he | he
      · exact ⟨List.mem_append_left _ (h.alive e he).1, (h.alive e he).2⟩
      · rw [List.mem_singleton.mp he]
        exact ⟨List.mem_append_right _ (.head _), fun hd => hfresh (h.destroyed _ hd)⟩
    · exact List.mem_append_left _ (h.destroyed client hclient)
    · rw [InsertionMap.values, hentries, List.map_append]
      rcases List.mem_append.mp hclient with hmem | hmem
      · exact (h.kept client hmem).imp_left (List.mem_append_left _)
      · exact .inl (List.mem_append_right _ hmem)
  | replaced hnot hfull hentries =>
    rename_i oldest rest
    have hafter : ((s.s3Clients.set (fingerprint node config) (s.construct config)).delete
        oldest.1).entries = rest ++ [(fingerprint node config, s.construct config)] :=
      mem_replaced hnot hentries
    have hrest : ∀ e ∈ rest, e ∈ s.s3Clients.entries := fun e he => by
      rw [hentries]
      exact .tail _ he
    have holdest : oldest ∈ s.s3Clients.entries := by
      rw [hentries]
      exact .head _
    -- The client that goes is stored once.
    have hother : ∀ e ∈ rest, e.2 ≠ oldest.2 := by
      intro e he heq
      have hkey : e.1 = oldest.1 := by
        rw [(h.stored e (hrest e he)).1, (h.stored oldest holdest).1, heq]
      have hnodup := s.s3Clients.nodup
      rw [hentries, List.map_cons, List.nodup_cons] at hnodup
      exact hnodup.1 (hkey ▸ List.mem_map_of_mem he)
    refine ⟨hkeys, fun e he => ?_, fun e he => ?_, fun client hclient => ?_,
      fun client hclient => ?_, hnumbered⟩
    · rw [hafter] at he
      exact (List.mem_append.mp he).elim (fun he => hold e (hrest e he)) (hnew e)
    · rw [hafter] at he
      rcases List.mem_append.mp he with he | he
      · have halive := h.alive e (hrest e he)
        refine ⟨List.mem_append_left _ halive.1, fun hd => ?_⟩
        rcases List.mem_append.mp hd with hd | hd
        · exact halive.2 hd
        · exact hother e he (List.mem_singleton.mp hd)
      · rw [List.mem_singleton.mp he]
        refine ⟨List.mem_append_right _ (.head _), fun hd => ?_⟩
        rcases List.mem_append.mp hd with hd | hd
        · exact hfresh (h.destroyed _ hd)
        · have heq : s.construct config = oldest.2 := List.mem_singleton.mp hd
          exact hfresh (heq ▸ (h.alive oldest holdest).1)
    · rcases List.mem_append.mp hclient with hd | hd
      · exact List.mem_append_left _ (h.destroyed client hd)
      · rw [List.mem_singleton.mp hd]
        exact List.mem_append_left _ (h.alive oldest holdest).1
    · rw [InsertionMap.values, hafter, List.map_append]
      rcases List.mem_append.mp hclient with hmem | hmem
      · rcases h.kept client hmem with hvalue | hd
        · rw [InsertionMap.values, hentries, List.map_cons, List.mem_cons] at hvalue
          rcases hvalue with rfl | hvalue
          · exact .inr (List.mem_append_right _ (.head _))
          · exact .inl (List.mem_append_left _ hvalue)
        · exact .inr (List.mem_append_left _ hd)
      · exact .inl (List.mem_append_right _ hmem)

/-- A constructor that throws changes nothing. -/
theorem Cached.requested {config : Settings} {s' : Clients} {returned : Option S3Client}
    (h : Cached node history s) (hr : Requested node s config returned s') :
    Cached node (if returned.isSome then history ++ [config] else history) s' := by
  cases returned with
  | none =>
    cases hr
    exact h
  | some client => exact h.request hr

/-- A shutdown destroys every client, and leaves none. -/
theorem Cached.shutdown (h : Cached node history s) :
    Cached node [] (shutdownS3CompatibleClients s) where
  keys := rfl
  stored := fun _ he => absurd he List.not_mem_nil
  alive := fun _ he => absurd he List.not_mem_nil
  destroyed := by
    intro client hclient
    rcases List.mem_append.mp hclient with hd | hvalue
    · exact h.destroyed client hd
    · obtain ⟨e, he, rfl⟩ := List.mem_map.mp hvalue
      exact (h.alive e he).1
  kept := fun client hclient => .inr (List.mem_append.mpr (h.kept client hclient).symm)
  numbered := h.numbered

/-- A call keeps this. -/
theorem Cached.step (hhex : HexDigests node) {r : Clients × List Settings}
    (h : Cached node r.2 r.1) (c : CacheCall) :
    Cached node (runStep node r c).2 (runStep node r c).1 := by
  cases c with
  | shutdown => exact h.shutdown
  | getS3Client config constructs =>
    have hr : Requested node r.1 config (getS3Client node config constructs r.1).1
        (getS3Client node config constructs r.1).2 :=
      requested_getS3Client (h.key_ne_empty hhex)
    exact h.requested hr

/-- It holds after every run. -/
theorem cached_run (hhex : HexDigests node) (calls : List CacheCall) :
    Cached node (run node calls).2 (run node calls).1 := by
  induction calls using List.reverseRecOn with
  | nil => exact cached_start
  | append_singleton calls c ih =>
    rw [run_concat]
    exact ih.step hhex c

/-- A request is served when the constructor does not throw. -/
theorem isSome_getS3Client (config : Settings) :
    (getS3Client node config true s).1.isSome = true := by
  unfold getS3Client
  dsimp only
  split
  · rfl
  · rw [if_pos rfl]
    split
    · split
      · split <;> rfl
      · rfl
    · rfl

/-- So all requests since the start are served when no constructor throws and nothing is shut
down. -/
theorem run_of_constructs (configs : List Settings) :
    (run node (configs.map fun config => .getS3Client config true)).2 = configs := by
  induction configs using List.reverseRecOn with
  | nil => rfl
  | append_singleton configs config ih =>
    rw [List.map_append, List.map_singleton, run_concat, runStep]
    have hserved : (call node (run node (configs.map fun config => .getS3Client config true)).1
        (.getS3Client config true)).1.isSome = true := isSome_getS3Client config
    rw [CacheCall.served, if_pos hserved, ih]

/-- They are what the run asks for. -/
theorem requested_map (configs : List Settings) :
    requested (configs.map fun config => .getS3Client config true) = configs := by
  rw [requested, List.filterMap_map]
  exact List.filterMap_some

/-- Only what a run asks for is served. -/
theorem run_subset (calls : List CacheCall) : (run node calls).2 ⊆ requested calls := by
  induction calls using List.reverseRecOn with
  | nil => exact List.nil_subset _
  | append_singleton calls c ih =>
    have hleft : requested calls ⊆ requested (calls ++ [c]) := by
      rw [requested, requested, List.filterMap_append]
      exact List.subset_append_left _ _
    rw [run_concat]
    intro config hconfig
    cases c with
    | shutdown => exact absurd hconfig List.not_mem_nil
    | getS3Client config' constructs =>
      change config ∈ if _ then (run node calls).2 ++ [config'] else (run node calls).2 at hconfig
      split at hconfig
      · rcases List.mem_append.mp hconfig with hold | hnew
        · exact hleft (ih hold)
        · rw [List.mem_singleton.mp hnew, requested, List.filterMap_append]
          exact List.mem_append_right _ (.head _)
      · exact hleft (ih hconfig)

end runs

/-! ## Configurations instead of fingerprints -/

/-- The configurations of the clients in the cache, in its order. -/
def Clients.configs (s : Clients) : List Settings := s.s3Clients.values.map (·.config)

/-- The hash has no collision between the texts of these configurations. -/
def NoCollision (node : Node) (configs : List Settings) : Prop :=
  ∀ c ∈ configs, ∀ c' ∈ configs, node.digest "sha256" (configBytes c) =
    node.digest "sha256" (configBytes c') → configBytes c = configBytes c'

/-- A configuration is determined by the text that is hashed. -/
theorem configBytes_injective {c c' : Settings} (h : configBytes c = configBytes c') : c = c' := by
  have htext : (Json.obj c.fields).stringify = (Json.obj c'.fields).stringify := by
    have hread := congrArg Js.fromUtf8 h
    rw [configBytes, configBytes, Js.fromUtf8_utf8, Js.fromUtf8_utf8] at hread
    exact Option.some.inj hread
  exact Settings.fields_injective (Json.obj.inj (Json.stringify_injective htext))

section configs

variable {node : Node} {s : Clients} {history configs : List Settings}

/-- So it is by its fingerprint. -/
theorem NoCollision.fingerprint_injective (hsha : NoCollision node configs) {c c' : Settings}
    (hc : c ∈ configs) (hc' : c' ∈ configs) (h : fingerprint node c = fingerprint node c') :
    c = c' :=
  configBytes_injective (hsha c hc c' hc' h)

/-- There are fewer collisions among fewer configurations. -/
theorem NoCollision.mono {configs' : List Settings} (hsha : NoCollision node configs)
    (h : configs' ⊆ configs) : NoCollision node configs' := fun c hc c' hc' =>
  hsha c (h hc) c' (h hc')

/-- Two configurations with different digests do not collide. -/
theorem noCollision_of_two {c₁ c₂ : Settings} (h : ∀ c ∈ configs, c = c₁ ∨ c = c₂)
    (hne : node.digest "sha256" (configBytes c₁) ≠ node.digest "sha256" (configBytes c₂)) :
    NoCollision node configs := by
  intro c hc c' hc' hdigest
  rcases h c hc with rfl | rfl
  · rcases h c' hc' with rfl | rfl
    · rfl
    · exact absurd hdigest hne
  · rcases h c' hc' with rfl | rfl
    · exact absurd hdigest.symm hne
    · rfl

/-- The keys are the fingerprints of the configurations. -/
theorem Cached.keys_eq (h : Cached node history s) :
    s.s3Clients.keys = s.configs.map (fingerprint node) := by
  rw [Clients.configs, InsertionMap.values, List.map_map, List.map_map]
  exact List.map_congr_left fun e he => (h.stored e he).1

/-- The configurations were asked for. -/
theorem Cached.configs_subset (h : Cached node history s) : s.configs ⊆ history := by
  intro c hc
  obtain ⟨client, hclient, rfl⟩ := List.mem_map.mp hc
  obtain ⟨e, he, rfl⟩ := List.mem_map.mp hclient
  exact (h.stored e he).2

/-- The configurations are those that were asked for last. -/
theorem Cached.configs_eq (h : Cached node history s) (hsha : NoCollision node history) :
    s.configs = InsertionMap.recent maxCachedClients history := by
  have hmap : s.configs.map (fingerprint node) =
      (InsertionMap.recent maxCachedClients history).map (fingerprint node) := by
    rw [← h.keys_eq, h.keys]
    exact InsertionMap.recent_map _ fun c hc c' hc' => hsha.fingerprint_injective hc hc'
  refine InsertionMap.eq_of_map_eq hmap fun c hc c' hc' => ?_
  exact hsha.fingerprint_injective (h.configs_subset hc) (InsertionMap.recent_subset hc')

/-- A configuration that is not among them has no key. -/
theorem Cached.config_notMem (h : Cached node history s) {config : Settings}
    (hnot : fingerprint node config ∉ s.s3Clients.keys) : config ∉ s.configs := fun hmem => by
  rw [h.keys_eq] at hnot
  exact hnot (List.mem_map_of_mem hmem)

/-- The cache is within its bound. -/
theorem Cached.size_le (h : Cached node history s) : s.s3Clients.size ≤ maxCachedClients := by
  have hlength := InsertionMap.length_recent_le maxCachedClients (history.map (fingerprint node))
  rw [← h.keys] at hlength
  exact (List.length_map _).symm.trans_le hlength

/-- The client that a request returns comes last. -/
theorem Requested.getLast? {config : Settings} {s' : Clients} {client : S3Client}
    (hr : Requested node s config (some client) s') :
    s'.s3Clients.entries.getLast? = some (fingerprint node config, client) := by
  cases hr with
  | hit hmem => rw [InsertionMap.entries_set_delete, List.getLast?_concat]
  | added hnot hroom => rw [InsertionMap.entries_set hnot, List.getLast?_concat]
  | replaced hnot hfull hentries => rw [mem_replaced hnot hentries, List.getLast?_concat]

/-- After every run the cache has at most 32 clients, each under the fingerprint of its
configuration and not destroyed, in the order of the last requests since a shutdown. A request that returns a
client returns one for its configuration, which is not destroyed and comes last; it destroys a
client only when 32 other configurations are there, and then the one that was asked for least
recently. The hash has no collision between the texts of the configurations of the run. -/
theorem client_cache (hhex : HexDigests node) (calls : List CacheCall)
    (hsha : NoCollision node (requested calls)) (hrun : run node calls = (s, history)) :
    s.s3Clients.size ≤ 32 ∧
    (∀ e ∈ s.s3Clients.entries, e.1 = fingerprint node e.2.config ∧ e.2 ∈ s.constructed ∧
      e.2 ∉ s.destroyed) ∧
    s.configs = InsertionMap.recent 32 history ∧
    s.configs.Pairwise (fun c c' =>
      InsertionMap.age history c' < InsertionMap.age history c) ∧
    (∀ config constructs client s', NoCollision node (config :: requested calls) →
      getS3Client node config constructs s = (some client, s') →
      client.config = config ∧ client ∉ s'.destroyed ∧
      s'.s3Clients.entries.getLast? = some (fingerprint node config, client) ∧
      (s'.destroyed = s.destroyed ∨
        ∃ oldest rest, s.s3Clients.entries = oldest :: rest ∧ s.configs.length = 32 ∧
          config ∉ s.configs ∧ s'.destroyed = s.destroyed ++ [oldest.2])) ∧
    (∀ config constructs s', getS3Client node config constructs s = (none, s') → s' = s) ∧
    (∀ config config', NoCollision node [config, config'] →
      fingerprint node config = fingerprint node config' → config = config') := by
  have hcached := cached_run hhex calls
  have hsubset : (run node calls).2 ⊆ requested calls := run_subset calls
  rw [hrun] at hcached hsubset
  have horder := hcached.configs_eq (hsha.mono hsubset)
  refine ⟨hcached.size_le, fun e he => ⟨(hcached.stored e he).1, hcached.alive e he⟩, horder, ?_,
    ?_, ?_, ?_⟩
  · rw [horder]
    exact InsertionMap.pairwise_recent _ _
  · intro config constructs client s' hsha' hget
    have hr : Requested node s config (getS3Client node config constructs s).1
        (getS3Client node config constructs s).2 :=
      requested_getS3Client (hcached.key_ne_empty hhex)
    rw [hget] at hr
    have hcached' := hcached.request hr
    -- The client is stored under the fingerprint that was asked for.
    have hmem := List.mem_of_getLast? hr.getLast?
    have hstored := hcached'.stored _ hmem
    have hsubset' : history ++ [config] ⊆ config :: requested calls := by
      intro c hc
      rcases List.mem_append.mp hc with hc | hc
      · exact .tail _ (hsubset hc)
      · exact List.mem_singleton.mp hc ▸ .head _
    refine ⟨?_, (hcached'.alive _ hmem).2, hr.getLast?, ?_⟩
    · exact (hsha'.fingerprint_injective (.head _) (hsubset' hstored.2) hstored.1).symm
    · cases hr with
      | hit hmem => exact .inl rfl
      | added hnot hroom => exact .inl rfl
      | replaced hnot hfull hentries =>
        refine .inr ⟨_, _, hentries, ?_, hcached.config_notMem hnot, rfl⟩
        have hlength : s.configs.length = s.s3Clients.size := by
          rw [Clients.configs, InsertionMap.values, List.length_map, List.length_map]
          rfl
        exact hlength.trans (Nat.le_antisymm hcached.size_le hfull)
  · intro config constructs s' hget
    have hr : Requested node s config (getS3Client node config constructs s).1
        (getS3Client node config constructs s).2 :=
      requested_getS3Client (hcached.key_ne_empty hhex)
    rw [hget] at hr
    cases hr
    rfl
  · intro config config' hsha' h
    exact hsha'.fingerprint_injective (.head _) (.tail _ (.head _)) h

end configs

/-- The settings of a bucket that need no more than its name. -/
def bucketSettings (bucket : String) : Settings where
  bucket
  region := "us-east-1"
  endpoint := none
  accessKeyId := none
  secretAccessKey := none
  sessionToken := none
  forcePathStyle := false
  maxAttempts := 3
  connectionTimeoutMs := 10000
  socketTimeoutMs := 120000
  downloadUrlTtlSeconds := 3600

/-- The SHA-256 of the texts of two configurations, which their lengths tell apart. -/
def bucketDigest (bytes : List UInt8) : String :=
  if bytes.length = 163 then "92879f57d819c0c4cfc6fd797726e4c4ade341953e046b90cf58bf25f096af54"
  else "5ce494af1098c621bb98635f7584d8ec8f4f101b097c3ce09cd32b3de6da6517"

/-- Node with this hash. -/
def twoBucketsNode : Node := { toyNode with digest := fun _ bytes => bucketDigest bytes }

/-- It has 64 hexadecimal digits. -/
theorem hexDigits_twoBucketsNode : HexDigests twoBucketsNode := by
  intro bytes
  have hdigest : Js.isSha256Hex (bucketDigest bytes) = true := by
    unfold bucketDigest
    split
    · decide +kernel
    · decide +kernel
  exact hdigest

/-- Two buckets, and the first one again. -/
def twoBuckets : List Settings :=
  [bucketSettings "releases", bucketSettings "archive", bucketSettings "releases"]

/-- The requests for them. -/
def twoBucketsCalls : List CacheCall := twoBuckets.map fun config => .getS3Client config true

/-- The two texts have different digests. -/
theorem digest_buckets_ne :
    twoBucketsNode.digest "sha256" (configBytes (bucketSettings "releases")) ≠
      twoBucketsNode.digest "sha256" (configBytes (bucketSettings "archive")) := by
  have hdigest : ∀ bytes, twoBucketsNode.digest "sha256" bytes = bucketDigest bytes := fun _ => rfl
  have hreleases : (configBytes (bucketSettings "releases")).length = 163 := by
    rw [configBytes, Json.stringify, Js.length_utf8_ofList]
    decide +kernel
  have harchive : (configBytes (bucketSettings "archive")).length ≠ 163 := by
    rw [configBytes, Json.stringify, Js.length_utf8_ofList]
    decide +kernel
  rw [hdigest, hdigest, bucketDigest, bucketDigest, if_pos hreleases, if_neg harchive]
  decide +kernel

/-- The hash has no collision in the run. -/
theorem noCollision_twoBuckets : NoCollision twoBucketsNode (requested twoBucketsCalls) := by
  refine noCollision_of_two (fun c hc => ?_) digest_buckets_ne
  rw [twoBucketsCalls, requested_map] at hc
  rcases List.mem_cons.mp hc with hc | hc
  · exact .inl hc
  · rcases List.mem_cons.mp hc with hc | hc
    · exact .inr hc
    · exact .inl (List.mem_singleton.mp hc)

/-- The bucket that is asked for again comes last. -/
theorem client_cache_two_buckets :
    (run twoBucketsNode twoBucketsCalls).1.configs =
      [bucketSettings "archive", bucketSettings "releases"] := by
  have horder : (run twoBucketsNode twoBucketsCalls).1.configs =
      InsertionMap.recent 32 (run twoBucketsNode twoBucketsCalls).2 :=
    (client_cache hexDigits_twoBucketsNode twoBucketsCalls noCollision_twoBuckets
      Prod.mk.eta.symm).2.2.1
  rw [horder, twoBucketsCalls, run_of_constructs]
  decide +kernel

end S3CompatibleProvider

end Reeva
