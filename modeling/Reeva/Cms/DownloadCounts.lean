import Reeva.Cms.CountedWrites
import Reeva.Interleaving.Contracts

/-!
# Download counts are never lost

The contract of a download: it resolves the product, finds a public artifact of it and the artifact's
storage, is given a stream, and publishes at most once, the count of the artifact together with a
history of its own. The contract of an operation: it publishes what keeps the counts. Programs that
keep these contracts keep the counts and the histories in step, in every interleaving and with every
fault, and whoever has been given a stream answers with it.
-/

open Interleaving ReadCommitted

namespace Reeva.Downloads

/-! ## The contracts -/

/-- What a download is about to hand out: content of an artifact's storage. -/
structure Delivery where
  software : Software
  artifact : Artifact
  storageProvider : StorageProvider
  content : List UInt8

/-- How far a download has come. -/
inductive Stage
  | start
  | resolved (software : Software)
  | found (software : Software) (artifact : Artifact)
  | located (software : Software) (artifact : Artifact) (storageProvider : StorageProvider)
  | streaming (delivery : Delivery)
  | counted (delivery : Delivery) (history : DownloadHistory)

/-- What the download hands out, once it has been given it. -/
def Stage.delivery : Stage → Option Delivery
  | streaming delivery => some delivery
  | counted delivery _ => some delivery
  | _ => none

/-- A read that a download goes on from. -/
inductive Looks (r : DownloadRequest) (t : Tables) : Stage → Stage → Prop
  | resolve {software : Software} (h : UpdaterService.resolveSoftware t r.slug = .ok software) :
    Looks r t .start (.resolved software)
  | find {software : Software} {artifact : Artifact}
    (h : artifact ∈ publicQuery t (some software.id)) (hid : artifact.id = r.id) :
    Looks r t (.resolved software) (.found software artifact)
  | locate {software : Software} {artifact : Artifact} {storageProvider : StorageProvider}
    (h : t.storageProvider artifact.storageProviderId = some storageProvider) :
    Looks r t (.found software artifact) (.located software artifact storageProvider)

/-- The calls of a download: it goes on from a stream that the artifact's storage opens. -/
inductive Calls : Stage → (c : CmsCall) → c.Res → Stage → Prop
  | opened {software : Software} {artifact : Artifact} {storageProvider : StorageProvider}
    {content : List UInt8} :
    Calls (.located software artifact storageProvider)
      (.getStream storageProvider.id artifact.storageKey) (.ok content)
      (.streaming ⟨software, artifact, storageProvider, content⟩)
  | refused {s : Stage} {provider : Id} {key message : String} :
    Calls s (.getStream provider key) (.error message) s
  | resolve {s : Stage} {provider : Id} {r : Except String Unit} : Calls s (.resolve provider) r s
  | randomUuid {s : Stage} {id : Id} : Calls s .randomUuid id s

/-- What a download publishes: the count of its artifact and the history, together. -/
inductive Counts (isIP : String → Bool) (r : DownloadRequest) : Stage → List Write → Stage → Prop
  | count {delivery : Delivery} {id : Id} :
    Counts isIP r (.streaming delivery)
      [increment r.id, .insertHistory (history isIP r.id r.client id)]
      (.counted delivery (history isIP r.id r.client id))

/-- A read is before the stream. -/
theorem Looks.delivery {r : DownloadRequest} {t : Tables} {s s' : Stage} (h : Looks r t s s') :
    s.delivery = none := by
  cases h <;> rfl

/-- So is a call that leads on. -/
theorem Calls.delivery {s s' : Stage} {c : CmsCall} {r : c.Res} (h : Calls s c r s') :
    s' = s ∨ s.delivery = none := by
  cases h with
  | opened => exact .inr rfl
  | _ => exact .inl rfl

/-- What is published is published after it, and it stays. -/
theorem Counts.delivery {isIP : String → Bool} {r : DownloadRequest} {s s' : Stage}
    {ws : List Write} (h : Counts isIP r s ws s') : s'.delivery = s.delivery := by
  cases h
  rfl

/-- The contract of a download. Its reads are of what is committed. -/
def downloadContract (isIP : String → Bool) (r : DownloadRequest) :
    Contract schema cmsCalls Stage where
  reads s ws d s' := s' = s ∨ ws = [] ∧ Looks r d.toTables s s'
  calls := Calls
  publishes := Counts isIP r
  halts _ := False

/-- The contract of an operation: it publishes what keeps the counts. -/
def operationContract : Contract schema cmsCalls Stage where
  reads s _ _ s' := s' = s
  calls s _ _ s' := s' = s
  publishes s ws s' := s' = s ∧ ∀ w ∈ ws, ∃ w', KeepsCounts w' ∧ w = .cms w'
  halts _ := True

/-- The contract of a request. -/
def Request.contract (isIP : String → Bool) : Request → Contract schema cmsCalls Stage
  | .operation _ => operationContract
  | .download r => downloadContract isIP r

/-- A download that has been given a stream answers with it, and an error is the answer only where it
has not. -/
def Request.Ends : Request → Reply → Stage → Prop
  | .operation _, reply, s => reply = .done ∧ s = .start
  | .download _, reply, s => match s.delivery with
    | none => ∃ status error, reply = .answer (.error status error)
    | some delivery => reply = .answer (.stream (headers delivery.artifact) delivery.content)

/-- A request that fails has not been given a stream. -/
def FailsAt (_ : Failure UpdaterError) (s : Stage) : Prop := s.delivery = none

/-! ## The requests keep their contracts -/

/-- An operation keeps its contract. -/
theorem operation_keeps (node : Node) (isIP : String → Bool) (op : Operation) :
    operationContract.Keeps ((Request.operation op).program node isIP)
      (fun reply s _ => (Request.operation op).Ends reply s) (fun e s _ => FailsAt e s) .start
      none := by
  refine Contract.keeps_bind ((Contract.keeps_of_only (K := operationContract) (fun _ _ => rfl)
    (fun _ _ => rfl) (fun ws hws => ⟨rfl, hws⟩) trivial
    (only_along cmsTables _ (operation_keepsCounts node op)) ?_).mono ?_ ?_)
  · exact fun w hw => by cases hw
  · exact fun _ s _ hs => ⟨rfl, hs⟩
  · exact fun _ s _ hs => hs ▸ rfl

section download

variable {isIP : String → Bool} {r : DownloadRequest} {α β : Type} {s : Stage}
  {tx : Option (List Write)} {Q : α → Stage → Option (List Write) → Prop}
  {F : Failure UpdaterError → Stage → Option (List Write) → Prop}

/-- A query after which the download may go on. -/
theorem keeps_select {f : Tables → β} {k : β → Program α}
    (hF : ∀ e, F (.database e) s none)
    (h : ∀ t, ∃ s', (s' = s ∨ Looks r t s s') ∧ (downloadContract isIP r).Keeps (k (f t)) Q F s' none) :
    (downloadContract isIP r).Keeps (select f >>= k) Q F s none := by
  refine Contract.keeps_query (hF _) (hF _) fun d => ?_
  obtain ⟨s', hs, hk⟩ := h d.toTables
  exact ⟨s', hs.imp_right fun hl => ⟨rfl, hl⟩, hk⟩

/-- A query that tells the download nothing. -/
theorem keeps_preload {f : Tables → β} {k : β → Program α} (hF : ∀ e, F (.database e) s none)
    (h : ∀ b, (downloadContract isIP r).Keeps (k b) Q F s none) :
    (downloadContract isIP r).Keeps (select f >>= k) Q F s none :=
  keeps_select hF fun _ => ⟨s, .inl rfl, h _⟩

/-- The transaction publishes its two writes together, or fails: the stream stays. -/
theorem recordMetrics_keeps (delivery : Delivery) :
    (downloadContract isIP r).Keeps (recordMetrics isIP r.id r.client)
      (fun _ s _ => s.delivery = some delivery) (fun _ s _ => s.delivery = some delivery)
      (.streaming delivery) none := by
  refine Contract.keeps_transaction ?_ fun _ => rfl
  refine Contract.keeps_write (fun _ _ => rfl) fun _ => ?_
  refine Contract.keeps_ext fun id => ⟨_, .randomUuid, ?_⟩
  refine Contract.keeps_write (fun _ _ => rfl) fun _ => ?_
  exact ⟨⟨_, .count, rfl, fun _ => rfl⟩, fun _ => rfl⟩

/-- The storage opens a stream, or the download fails without one. -/
theorem openStream_keeps {software : Software} {artifact : Artifact}
    {storageProvider : StorageProvider} :
    (downloadContract isIP r).Keeps (openStream storageProvider artifact.storageKey)
      (fun content s tx => s = .streaming ⟨software, artifact, storageProvider, content⟩ ∧ tx = none)
      (fun _ s _ => s.delivery = none) (.located software artifact storageProvider) none := by
  refine Contract.keeps_ext fun resolved => ⟨_, .resolve, ?_⟩
  cases resolved with
  | error message => exact rfl
  | ok _ =>
    refine Contract.keeps_ext fun stream => ?_
    cases stream with
    | error message => exact ⟨_, .refused, rfl⟩
    | ok content => exact ⟨_, .opened, rfl, rfl⟩

/-- The product is resolved, or the download fails. -/
theorem resolveSoftware_keeps :
    (downloadContract isIP r).Keeps (resolveSoftware r.slug)
      (fun software s tx => s = .resolved software ∧ tx = none) (fun _ s _ => s.delivery = none)
      .start none := by
  refine keeps_select (fun _ => rfl) fun t => ?_
  cases hs : UpdaterService.resolveSoftware t r.slug with
  | error e => exact ⟨.start, .inl rfl, rfl⟩
  | ok software => exact ⟨.resolved software, .inr (.resolve hs), rfl, rfl⟩

/-- Where the lookup of an artifact ends. -/
def Located (r : DownloadRequest) (software : Software) : Option PublicArtifact → Stage → Prop
  | none, s => s.delivery = none
  | some x, s => x.artifact.id = r.id ∧ ∀ storageProvider,
      x.storageProvider = some storageProvider → s = .located software x.artifact storageProvider

/-- The artifact is looked up among the public ones, and its storage provider after that. -/
theorem findPublicById_keeps {software : Software} :
    (downloadContract isIP r).Keeps (findPublicById r.id software.id)
      (fun found s tx => Located r software found s ∧ s.delivery = none ∧ tx = none)
      (fun _ s _ => s.delivery = none) (.resolved software) none := by
  refine keeps_select (fun _ => rfl) fun t => ?_
  cases hfound : (publicQuery t (some software.id)).find? (·.id = r.id) with
  | none => exact ⟨.resolved software, .inl rfl, rfl, rfl, rfl⟩
  | some artifact =>
    have hid : artifact.id = r.id := by simpa using List.find?_some hfound
    refine ⟨_, .inr (.find (List.mem_of_find?_eq_some hfound) hid), ?_⟩
    refine keeps_preload (fun _ => rfl) fun version => keeps_preload (fun _ => rfl) fun platform => ?_
    refine keeps_preload (fun _ => rfl) fun architecture => keeps_select (fun _ => rfl) fun t' => ?_
    cases hp : t'.storageProvider artifact.storageProviderId with
    | none =>
      exact ⟨.found software artifact, .inl rfl, ⟨hid, fun _ h => nomatch h⟩, rfl, rfl⟩
    | some storageProvider =>
      refine ⟨.located software artifact storageProvider, .inr (.locate hp), ⟨hid, ?_⟩, rfl, rfl⟩
      intro _ h
      rw [Option.some.inj h]

/-- `recordAndStream` returns the stream that it was given, and fails only where it was given none. -/
theorem recordAndStream_keeps :
    (downloadContract isIP r).Keeps (recordAndStream isIP r.id r.client r.slug)
      (fun x s _ => ∃ delivery, s.delivery = some delivery ∧ x.1.artifact = delivery.artifact ∧
        x.2 = delivery.content)
      (fun _ s _ => s.delivery = none) .start none := by
  refine Contract.keeps_bind (resolveSoftware_keeps.mono ?_ fun _ _ _ h => h)
  rintro software s tx ⟨rfl, rfl⟩
  refine Contract.keeps_bind (findPublicById_keeps.mono ?_ fun _ _ _ h => h)
  rintro found s tx ⟨hlocated, hnone, rfl⟩
  cases found with
  | none => exact hnone
  | some x =>
    cases hx : x.storageProvider with
    | none =>
      dsimp only
      rw [hx]
      exact hnone
    | some storageProvider =>
      obtain ⟨hid, hlocated⟩ := hlocated
      obtain rfl := hlocated storageProvider hx
      dsimp only
      rw [hx, hid]
      refine Contract.keeps_bind (openStream_keeps.mono ?_ fun _ _ _ h => h)
      rintro content s tx ⟨rfl, rfl⟩
      -- Whatever becomes of the metrics, the stream is returned.
      have hrecord : (downloadContract isIP r).Keeps (recordMetrics isIP r.id r.client) _ _ _ _ :=
        recordMetrics_keeps ⟨software, x.artifact, storageProvider, content⟩
      refine Contract.keeps_bind (Contract.keeps_attempt (hrecord.mono ?_ ?_)) <;>
        exact fun _ s _ h => ⟨_, h, rfl, rfl⟩

/-- A download keeps its contract. -/
theorem download_keeps (node : Node) :
    (downloadContract isIP r).Keeps ((Request.download r).program node isIP)
      (fun reply s _ => (Request.download r).Ends reply s) (fun e s _ => FailsAt e s) .start
      none := by
  refine Contract.keeps_bind ?_
  unfold download
  split
  · exact ⟨404, _, rfl⟩
  · refine Contract.keeps_tryCatch (Contract.keeps_bind (recordAndStream_keeps.mono ?_ ?_))
    · rintro ⟨x, stream⟩ s tx ⟨delivery, hs, hartifact, hcontent⟩
      change (Request.download r).Ends (.answer (.stream (headers x.artifact) stream)) s
      obtain rfl : stream = delivery.content := hcontent
      simp only [Request.Ends, hs, show x.artifact = delivery.artifact from hartifact]
    · intro e s tx hs
      have error : ∀ status message, (Request.download r).Ends (.answer (.error status message)) s :=
        fun status message => by simp [Request.Ends, hs]
      unfold answerError
      split
      · exact error _ _
      · exact error _ _
      · exact error _ _
      · exact hs

end download

/-- Every request keeps its contract. -/
theorem request_keeps (node : Node) (isIP : String → Bool) (r : Request) :
    (r.contract isIP).Keeps (r.program node isIP) (fun reply s _ => r.Ends reply s)
      (fun e s _ => FailsAt e s) .start none := by
  cases r with
  | operation op => exact operation_keeps node isIP op
  | download r => exact download_keeps node

/-! ## Publications -/

/-- What operations publish leaves the counts and the histories. -/
theorem publish_operation {ws : List Write} (hws : ∀ w ∈ ws, ∃ w', KeepsCounts w' ∧ w = .cms w')
    {d d' : Catalogue} (h : Server.publish (D := schema) ws d = some d') :
    d'.histories = d.histories ∧ ∀ id, downloadCount d'.toTables id = downloadCount d.toTables id := by
  induction ws generalizing d with
  | nil => exact Option.some.inj h ▸ ⟨rfl, fun _ => rfl⟩
  | cons w ws ih =>
    obtain ⟨d₁, h₁, h₂⟩ := Option.bind_eq_some_iff.mp h
    obtain ⟨⟨n, d₁⟩, happ, rfl⟩ := Option.map_eq_some_iff.mp h₁
    obtain ⟨w', hw, rfl⟩ := hws w (List.mem_cons_self ..)
    obtain ⟨hcms, hhistories⟩ := apply_cms happ
    obtain ⟨hrest, hcounts⟩ := ih (fun w hw => hws w (List.mem_cons_of_mem _ hw)) h₂
    refine ⟨hrest.trans hhistories, fun id => (hcounts id).trans ?_⟩
    rw [apply_tables hcms, downloadCount_run hw]

/-- What a download publishes counts its artifact and records one history of it. -/
theorem publish_download {artifactId : Id} {r : DownloadHistory} (hr : r.artifactId = artifactId)
    {d d' : Catalogue}
    (h : Server.publish (D := schema) [increment artifactId, .insertHistory r] d = some d') :
    d'.histories = d.histories ++ [r] ∧
      ∀ id, downloadCount d'.toTables id =
        downloadCount d.toTables id + if artifactId = id then 1 else 0 := by
  obtain ⟨d₁, h₁, h₂⟩ := Option.bind_eq_some_iff.mp h
  obtain ⟨⟨n, d₁⟩, happ, rfl⟩ := Option.map_eq_some_iff.mp h₁
  obtain ⟨d₂, h₃, h₄⟩ := Option.bind_eq_some_iff.mp h₂
  obtain ⟨⟨m, d₂⟩, happ₂, rfl⟩ := Option.map_eq_some_iff.mp h₃
  obtain rfl : d₂ = d' := Option.some.inj h₄
  obtain ⟨hcms, hhistories⟩ := apply_cms happ
  obtain ⟨hdb, hinserted⟩ := apply_insertHistory happ₂
  let counted (a : Artifact) : Artifact :=
    if a.id = artifactId then { a with downloadCount := a.downloadCount + 1 } else a
  have hrows : d₂.artifacts = d.artifacts.map counted := by
    rw [congrArg (fun db : Db => db.artifacts) hdb]
    have ht := congrArg Tables.artifacts (apply_tables hcms)
    simpa [Write.run, updateRows] using ht
  have hids : ∀ a, (counted a).id = a.id := fun a => by
    dsimp only [counted]
    split <;> rfl
  refine ⟨hhistories ▸ hinserted, fun id => ?_⟩
  rw [downloadCount, hrows, find?_map_of_id hids, downloadCount]
  cases hfind : d.artifacts.find? fun a => a.id = id with
  | some a =>
    have hid : a.id = id := by simpa using List.find?_some hfind
    by_cases heq : artifactId = id
    · simp [counted, hid, heq]
    · simp [counted, hid, heq, Ne.symm heq]
  | none =>
    -- The foreign key of the history: the artifact that is counted is there.
    have hne : artifactId ≠ id := by
      rintro rfl
      obtain ⟨a, ha, hid⟩ := d₂.recorded.artifacts r (by simp [hinserted])
      rw [hrows] at ha
      obtain ⟨a, ha₀, rfl⟩ := List.mem_map.mp ha
      have := List.find?_eq_none.mp hfind a ha₀
      simp [(hids a).symm.trans (hid.trans hr)] at this
    simp [hne]

/-! ## The ledger -/

/-- The contracts of requests. -/
def contracts (isIP : String → Bool) (rs : List Request) (i : ℕ) :
    Contract schema cmsCalls Stage :=
  (rs[i]?.map (·.contract isIP)).getD operationContract

/-- The histories of an artifact. -/
def historyCount (d : Catalogue) (id : Id) : ℕ := d.histories.countP (·.artifactId = id)

/-- The downloads that have counted, in their order and each with the history that it has recorded,
and the counts beside the histories. -/
structure Ledger (isIP : String → Bool) (rs : List Request) (d₀ d : Catalogue) (stage : ℕ → Stage)
    (entries : List (ℕ × DownloadHistory)) : Prop where
  histories : d.histories = d₀.histories ++ entries.map (·.2)
  once : (entries.map (·.1)).Nodup
  own : ∀ e ∈ entries, ∃ r id delivery, rs[e.1]? = some (.download r) ∧
    e.2 = history isIP r.id r.client id ∧ stage e.1 = .counted delivery e.2
  counts : ∀ id, downloadCount d.toTables id + historyCount d₀ id =
    downloadCount d₀.toTables id + historyCount d id

variable {isIP : String → Bool} {rs : List Request} {d₀ : Catalogue}
  {entries : List (ℕ × DownloadHistory)}

/-- A download has the contract of a download. -/
theorem contracts_of_download (isIP : String → Bool) {rs : List Request} {i : ℕ}
    {r : DownloadRequest} (hr : rs[i]? = some (.download r)) :
    contracts isIP rs i = downloadContract isIP r := by
  rw [contracts, hr]
  rfl

/-- A program has the contract of an operation or of a download. -/
theorem contracts_cases (isIP : String → Bool) (rs : List Request) (i : ℕ) :
    contracts isIP rs i = operationContract ∨
      ∃ r, rs[i]? = some (.download r) ∧ contracts isIP rs i = downloadContract isIP r := by
  cases hr : rs[i]? with
  | none => exact .inl (by rw [contracts, hr]; rfl)
  | some r =>
    cases r with
    | operation op => exact .inl (by rw [contracts, hr]; rfl)
    | download r => exact .inr ⟨r, rfl, contracts_of_download isIP hr⟩

/-- A stage at which a download has counted. -/
def Stage.Counted (s : Stage) : Prop := ∃ delivery h, s = .counted delivery h

/-- Where a program that has not counted comes to another stage, the ledger stays. -/
theorem Ledger.update {d : Catalogue} {stage : ℕ → Stage} (h : Ledger isIP rs d₀ d stage entries)
    {i : ℕ} {s : Stage} (hs : s = stage i ∨ ¬(stage i).Counted) :
    Ledger isIP rs d₀ d (Function.update stage i s) entries := by
  rcases hs with rfl | hs
  · rwa [Function.update_eq_self]
  · refine ⟨h.histories, h.once, fun e he => ?_, h.counts⟩
    obtain ⟨r, id, delivery, hr, hrow, hstage⟩ := h.own e he
    have hne : e.1 ≠ i := by
      rintro rfl
      exact hs ⟨_, _, hstage⟩
    exact ⟨r, id, delivery, hr, hrow, (Function.update_of_ne hne _ _).trans hstage⟩

/-- What a download publishes is entered in the ledger. -/
theorem Ledger.enter {d d' : Catalogue} {stage : ℕ → Stage}
    (h : Ledger isIP rs d₀ d stage entries) {i : ℕ} {r : DownloadRequest}
    (hr : rs[i]? = some (.download r)) {delivery : Delivery} {id : Id}
    (hs : stage i = .streaming delivery)
    (hd : Server.publish (D := schema)
      [increment r.id, .insertHistory (history isIP r.id r.client id)] d = some d') :
    Ledger isIP rs d₀ d'
      (Function.update stage i (.counted delivery (history isIP r.id r.client id)))
      (entries ++ [(i, history isIP r.id r.client id)]) := by
  obtain ⟨hhistories, hcounts⟩ : d'.histories = d.histories ++ [history isIP r.id r.client id] ∧
      ∀ id, downloadCount d'.toTables id =
        downloadCount d.toTables id + if r.id = id then 1 else 0 := publish_download rfl hd
  have hstreaming : ¬(stage i).Counted := by
    rintro ⟨delivery', row, hi⟩
    cases hs.symm.trans hi
  have hstay := h.update (s := .counted delivery (history isIP r.id r.client id)) (.inr hstreaming)
  -- Whoever has counted is another program.
  have hnew : i ∉ entries.map (·.1) := by
    intro hi
    obtain ⟨e, he, rfl⟩ := List.mem_map.mp hi
    obtain ⟨r', id', delivery', -, -, hstage⟩ := h.own e he
    exact hstreaming ⟨_, _, hstage⟩
  refine ⟨?_, ?_, fun e he => ?_, fun id' => ?_⟩
  · rw [hhistories, h.histories, List.map_append, List.append_assoc]
    rfl
  · rw [List.map_append, List.map_singleton]
    refine List.nodup_append.mpr ⟨h.once, List.nodup_singleton i, fun j hj k hk heq => ?_⟩
    rw [heq, List.mem_singleton.mp hk] at hj
    exact hnew hj
  · rcases List.mem_append.mp he with he | he
    · exact hstay.own e he
    · obtain rfl := List.mem_singleton.mp he
      exact ⟨r, id, delivery, hr, rfl, Function.update_self ..⟩
  · have hcount : historyCount d' id' = historyCount d id' + if r.id = id' then 1 else 0 := by
      rw [historyCount, hhistories, List.countP_append, List.countP_singleton, historyCount]
      simp [history]
    have := h.counts id'
    rw [hcounts, hcount]
    omega

/-- Every step of the contracts keeps the ledger. -/
theorem Ledger.move {A A' : Contract.State schema cmsWorld Stage}
    (h : Ledger isIP rs d₀ A.db A.stage entries) {m : Option ℕ}
    (hm : Contract.Move (contracts isIP rs) m A A') :
    ∃ entries, Ledger isIP rs d₀ A'.db A'.stage entries := by
  have uncounted : ∀ {s : Stage}, s.delivery = none → ¬s.Counted := by
    rintro s hs ⟨delivery, row, rfl⟩
    cases hs
  cases hm with
  | @reads _ i ws s hread =>
    refine ⟨_, h.update ?_⟩
    rcases contracts_cases isIP rs i with hc | ⟨r, -, hc⟩ <;> rw [hc] at hread
    · exact .inl hread
    · rcases hread with heq | ⟨-, hlooks⟩
      · exact .inl heq
      · exact .inr (uncounted hlooks.delivery)
  | @calls _ i e c r w s hrun hcall =>
    refine ⟨_, h.update ?_⟩
    rcases contracts_cases isIP rs i with hc | ⟨r, -, hc⟩ <;> rw [hc] at hcall
    · exact .inl hcall
    · exact hcall.delivery.imp_right uncounted
  | @publishes _ i ws d s hd hpub =>
    rcases contracts_cases isIP rs i with hc | ⟨r, hr, hc⟩ <;> rw [hc] at hpub
    · obtain ⟨rfl, hws⟩ := hpub
      obtain ⟨hhistories, hcounts⟩ := publish_operation hws hd
      refine ⟨entries, ?_⟩
      rw [Function.update_eq_self]
      refine ⟨hhistories.trans h.histories, h.once, h.own, fun id => ?_⟩
      rw [hcounts, historyCount, historyCount, hhistories]
      exact h.counts id
    · generalize hold : A.stage i = old at hpub
      cases hpub with
      | count => exact ⟨_, h.enter hr hold hd⟩
  | env hw => exact ⟨_, h⟩

/-! ## Runs -/

/-- What a request ends in, if there is such a request. -/
def EndsAt (rs : List Request) (i : ℕ) (reply : Reply) (s : Stage) : Prop :=
  ∀ r, rs[i]? = some r → r.Ends reply s

/-- The requests and the automata of their contracts. -/
abbrev Follows (isIP : String → Bool) (rs : List Request)
    (c : Config machine (Failure UpdaterError) Reply)
    (A : Contract.State schema cmsWorld Stage) : Prop :=
  Contract.Related (contracts isIP rs) (EndsAt rs) (fun _ => FailsAt) c A

/-- Requests that have just arrived stand at the start of their contracts. -/
theorem follows_requests (node : Node) (isIP : String → Bool) (rs : List Request) (d : Catalogue)
    (w : CmsWorld) :
    Follows isIP rs (requests node isIP rs d w) ⟨fun _ => .start, d, w⟩ := by
  refine Contract.related_idle (D := schema) (X := cmsWorld) d w fun i p hp => ?_
  rw [List.getElem?_map] at hp
  obtain ⟨r, hr, rfl⟩ := Option.map_eq_some_iff.mp hp
  have hcontract : contracts isIP rs i = r.contract isIP := by rw [contracts, hr]; rfl
  rw [hcontract]
  refine (request_keeps node isIP r).mono (fun reply s _ h r' hr' => ?_) fun _ _ _ h => h
  rw [← Option.some.inj (hr.symm.trans hr')]
  exact h

/-- The ledger is kept in every run of the contracts. -/
theorem Ledger.moves {A A' : Contract.State schema cmsWorld Stage}
    (hm : Contract.Moves (contracts isIP rs) A A')
    (h : Ledger isIP rs d₀ A.db A.stage entries) :
    ∃ entries, Ledger isIP rs d₀ A'.db A'.stage entries := by
  induction hm with
  | refl => exact ⟨_, h⟩
  | tail _ hmove ih =>
    obtain ⟨_, h₁⟩ := ih
    obtain ⟨_, hmove⟩ := hmove
    exact h₁.move hmove

/-- In every run of downloads and operations of the CMS, whatever the interleaving and the faults:
the histories that have been added are those of downloads, at most one of each, and each is that of
its own request, which does not fail and answers nothing but a stream; and the count of every artifact
has grown by the number of histories of it that have been added. -/
theorem download_counts (node : Node) (isIP : String → Bool) {ok : Guard machine}
    {rs : List Request} {d : Catalogue} {w : CmsWorld}
    {c : Config machine (Failure UpdaterError) Reply}
    (hr : (requests node isIP rs d w).Run ok c) :
    (∃ entries : List (ℕ × DownloadHistory),
      c.state.server.db.histories = d.histories ++ entries.map (·.2) ∧
      (entries.map (·.1)).Nodup ∧ ∀ e ∈ entries, ∃ r id, rs[e.1]? = some (.download r) ∧
        e.2 = history isIP r.id r.client id ∧ (∀ error, c.pool[e.1]? ≠ some (.fail error)) ∧
        ∀ reply, c.pool[e.1]? = some (.ret reply) →
          ∃ headers content, reply = .answer (.stream headers content)) ∧
    ∀ id, downloadCount c.state.server.db.toTables id + historyCount d id =
      downloadCount d.toTables id + historyCount c.state.server.db id := by
  obtain ⟨A, hmoves, hrel⟩ := (follows_requests node isIP rs d w).run hr
  have start : Ledger isIP rs d d (fun _ => .start) [] :=
    ⟨(List.append_nil _).symm, List.nodup_nil, fun e he => (by cases he), fun _ => rfl⟩
  obtain ⟨entries, hledger⟩ := start.moves hmoves
  rw [← hrel.db]
  refine ⟨⟨entries, hledger.histories, hledger.once, fun e he => ?_⟩, hledger.counts⟩
  obtain ⟨r, id, delivery, hreq, hrow, hstage⟩ := hledger.own e he
  refine ⟨r, id, hreq, hrow, fun error hfail => ?_, fun reply hret => ?_⟩
  · have hnone : FailsAt error (A.stage e.1) := hrel.failed hfail
    rw [hstage] at hnone
    cases hnone
  · have hends : (Request.download r).Ends reply (A.stage e.1) := hrel.returned hret _ hreq
    rw [hstage] at hends
    exact ⟨_, _, hends⟩

/-! ## A download -/

/-- The key of the artifact that is downloaded. -/
def releaseId : Id := "aaaaaaaa-aaaa-4aaa-8aaa-aaaaaaaaaaaa"

/-- The artifact that is downloaded. -/
def publicRelease : Artifact :=
  { unsigned with id := releaseId, storageKey := ArtifactService.storageKey releaseId }

/-- The tables of one release of a product that requires no signatures. -/
def publicTables : Tables :=
  { releaseTables none publicRelease with
    software := [{ releaseSoftware with requireSignedUpdates := false }] }

theorem publicTables_valid : publicTables.Valid := by
  have hkeys : toyKeyId 'a' ≠ toyKeyId 'b' := by decide
  constructor <;> simp [publicTables, releaseTables, releaseSoftware, hkeys]

/-- A catalogue with one release that nobody has downloaded. -/
def oneDownload : Catalogue where
  toDb := ⟨publicTables, publicTables_valid⟩
  histories := []
  recorded := ⟨List.nodup_nil, fun h hh => (by cases hh), by decide⟩

/-- The storage holds a byte of the release. -/
def oneByte : CmsWorld :=
  { emptyWorld with
    objects := fun p k => if p = "s" ∧ k = publicRelease.storageKey then some [1] else none }

/-- A request for the release by its product's name. -/
def downloadRelease : DownloadRequest := ⟨releaseId, some "p", ⟨"127.0.0.1", some "client"⟩⟩

/-- The download, and a deletion of the release. -/
def twoRequests : List Request := [.download downloadRelease, .operation (.deleteArtifact releaseId)]

/-- The download up to the stream that it is given, the deletion, and the metrics after it. -/
def deletedMeanwhile : List (Config.Event machine) :=
  List.replicate 6 (.thread 0 (.db .none)) ++ [.thread 0 (.ext .done), .thread 0 (.ext .done),
    .thread 1 (.db .none), .thread 1 (.ext .done), .thread 1 (.db .none), .thread 0 (.db .none),
    .thread 0 (.db .none), .thread 0 (.ext (.id "h")), .thread 0 (.db .none), .thread 0 (.db .none)]

/-- The first program has answered with the byte. -/
def hasAnswered (c : Config machine (Failure UpdaterError) Reply) : Bool :=
  match (c.pool[0]? : Option (Program Reply)) with
  | some (.ret (.answer (.stream _ content))) => content == [1]
  | _ => false

theorem answer_of_hasAnswered {c : Config machine (Failure UpdaterError) Reply}
    (h : hasAnswered c = true) : ∃ fields, c.pool[0]? = some (.ret (.answer (.stream fields [1]))) := by
  simp only [hasAnswered] at h
  split at h
  · rename_i fields content hp
    exact ⟨fields, beq_iff_eq.mp h ▸ hp⟩
  · cases h

/-- The two requests reach a state in which the download has answered and is recorded. -/
theorem deletedMeanwhile_reached :
    ∃ c : Config machine (Failure UpdaterError) Reply,
      (requests toyNode (fun _ => true) twoRequests oneDownload oneByte).Run (Guard.always machine) c ∧
      hasAnswered c = true ∧ c.state.server.db.histories.length = 1 := by
  have h : ((requests toyNode (fun _ => true) twoRequests oneDownload oneByte).follow
      (fun _ _ _ _ => true) deletedMeanwhile).any
      (fun c => hasAnswered c && c.state.server.db.histories.length == 1) = true := by
    decide +kernel
  obtain ⟨c, hr, hc⟩ := Config.reached_of_follow (G := Guard.always machine)
    (fun _ _ _ _ _ => trivial) h
  rw [Bool.and_eq_true, beq_iff_eq] at hc
  exact ⟨c, hr, hc.1, hc.2⟩

/-- A download of a release that is deleted while it runs answers and is counted. -/
theorem download_counts_example :
    ∃ c : Config machine (Failure UpdaterError) Reply,
      (requests toyNode (fun _ => true) twoRequests oneDownload oneByte).Run (Guard.always machine) c ∧
      hasAnswered c = true ∧ c.state.server.db.histories.length = 1 ∧
      ∀ id, downloadCount c.state.server.db.toTables id + historyCount oneDownload id =
        downloadCount oneDownload.toTables id + historyCount c.state.server.db id := by
  obtain ⟨c, hr, hanswered, hlength⟩ := deletedMeanwhile_reached
  exact ⟨c, hr, hanswered, hlength, (download_counts toyNode _ hr).2⟩

end Reeva.Downloads
