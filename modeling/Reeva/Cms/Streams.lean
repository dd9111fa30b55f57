import Reeva.Cms.DownloadCounts

/-!
# What is streamed is public

Every stream that a download answers with was held by the storage of a public artifact: at some
moment of the run the request's product was active, at another the artifact with the requested
identifier was public for that product, at a third the artifact's storage held the content. The other
way round, a download that a storage has given a stream answers with it, unless it vanishes: neither
the database nor the metrics stand in its way.
-/

open Interleaving ReadCommitted

namespace Reeva.Downloads

/-! ## Stages -/

/-- The product of a download. -/
def Stage.software : Stage → Option Software
  | start => none
  | resolved software | found software _ | located software _ _ => some software
  | streaming delivery | counted delivery _ => some delivery.software

/-- Its artifact. -/
def Stage.artifact : Stage → Option Artifact
  | start | resolved _ => none
  | found _ artifact | located _ artifact _ => some artifact
  | streaming delivery | counted delivery _ => some delivery.artifact

/-- The storage of the artifact. -/
def Stage.storageProvider : Stage → Option StorageProvider
  | start | resolved _ | found _ _ => none
  | located _ _ storageProvider => some storageProvider
  | streaming delivery | counted delivery _ => some delivery.storageProvider

/-- What is handed out is content of the artifact's storage. -/
theorem Stage.of_delivery {s : Stage} {delivery : Delivery} (h : s.delivery = some delivery) :
    s.software = some delivery.software ∧ s.artifact = some delivery.artifact ∧
      s.storageProvider = some delivery.storageProvider := by
  cases s with
  | streaming => cases h; exact ⟨rfl, rfl, rfl⟩
  | counted => cases h; exact ⟨rfl, rfl, rfl⟩
  | _ => cases h

/-- A state of the catalogue and of the world outside. -/
abbrev State := System schema CmsWorld

/-- Something held at some moment of the run from `c₀` to `c`. -/
def Seen (ok : Guard machine) (c₀ c : Config machine (Failure UpdaterError) Reply)
    (φ : State → Prop) : Prop := ∃ c₁, c₀.Run ok c₁ ∧ c₁.Run ok c ∧ φ c₁.state

/-- Where what a download knows comes from. -/
structure Origin (seen : (State → Prop) → Prop) (r : DownloadRequest) (s : Stage) : Prop where
  software : ∀ software, s.software = some software →
    seen fun σ => UpdaterService.resolveSoftware σ.server.db.toTables r.slug = .ok software
  artifact : ∀ software artifact, s.software = some software → s.artifact = some artifact →
    artifact.id = r.id ∧
      seen fun σ => artifact ∈ publicQuery σ.server.db.toTables (some software.id)
  storageProvider : ∀ artifact storageProvider, s.artifact = some artifact →
    s.storageProvider = some storageProvider →
    seen fun σ =>
      σ.server.db.toTables.storageProvider artifact.storageProviderId = some storageProvider
  content : ∀ delivery, s.delivery = some delivery →
    seen fun σ => σ.world.objects delivery.storageProvider.id delivery.artifact.storageKey =
      some delivery.content

variable {isIP : String → Bool} {rs : List Request} {ok : Guard machine}
  {c₀ c c' : Config machine (Failure UpdaterError) Reply} {j : ℕ} {r : DownloadRequest}

/-- What has been seen stays seen. -/
theorem Seen.step {φ : State → Prop} (h : Seen ok c₀ c φ) (hs : c.Run ok c') : Seen ok c₀ c' φ := by
  obtain ⟨c₁, h₁, h₂, hφ⟩ := h
  exact ⟨c₁, h₁, h₂.trans hs, hφ⟩

theorem Origin.step {s : Stage} (h : Origin (Seen ok c₀ c) r s) (hs : c.Run ok c') :
    Origin (Seen ok c₀ c') r s where
  software x hx := (h.software x hx).step hs
  artifact x y hx hy := ⟨(h.artifact x y hx hy).1, (h.artifact x y hx hy).2.step hs⟩
  storageProvider x y hx hy := (h.storageProvider x y hx hy).step hs
  content x hx := (h.content x hx).step hs

/-- A read leads to what is committed then. -/
theorem Origin.looks {s s' : Stage} (h : Origin (Seen ok c₀ c) r s) (hr : c₀.Run ok c)
    (hl : Looks r c.state.server.db.toTables s s') : Origin (Seen ok c₀ c) r s' := by
  have now : ∀ {φ : State → Prop}, φ c.state → Seen ok c₀ c φ := fun hφ => ⟨c, hr, .refl, hφ⟩
  cases hl with
  | resolve hresolve =>
    refine ⟨fun x hx => ?_, fun x y _ hy => ?_, fun x y hx => ?_, fun x hx => ?_⟩
    · cases hx
      exact now hresolve
    · cases hy
    · cases hx
    · cases hx
  | find hfound hid =>
    refine ⟨h.software, fun x y hx hy => ?_, fun x y _ hy => ?_, fun x hx => ?_⟩
    · cases hx
      cases hy
      exact ⟨hid, now hfound⟩
    · cases hy
    · cases hx
  | locate hlocated =>
    refine ⟨h.software, h.artifact, fun x y hx hy => ?_, fun x hx => ?_⟩
    · cases hx
      cases hy
      exact now hlocated
    · cases hx

/-- A stream is what the storage holds then. -/
theorem Origin.calls {s s' : Stage} (h : Origin (Seen ok c₀ c) r s) (hr : c₀.Run ok c)
    {e : CmsCall} {o : Outcome} {x : e.Res} {w : CmsWorld}
    (hrun : e.run j o c.state.world = some (x, w)) (hc : Calls s e x s') :
    Origin (Seen ok c₀ c) r s' := by
  cases hc with
  | opened =>
    refine ⟨h.software, h.artifact, h.storageProvider, fun delivery hd => ?_⟩
    cases hd
    refine ⟨c, hr, .refl, ?_⟩
    simp only [CmsCall.run] at hrun
    split at hrun
    · rename_i hobject
      cases hrun
      exact hobject
    · cases hrun
    · cases hrun
  | _ => exact h

/-- Every step of the run keeps it so. -/
theorem Origin.move {A A' : Contract.State schema cmsWorld Stage} (hrel : Follows isIP rs c A)
    (hreq : rs[j]? = some (.download r)) (hr : c₀.Run ok c)
    (h : Origin (Seen ok c₀ c) r (A.stage j)) {m : Option ℕ}
    (hm : Contract.Move (contracts isIP rs) m A A') : Origin (Seen ok c₀ c) r (A'.stage j) := by
  have hcontract := contracts_of_download isIP hreq
  by_cases hj : m = some j
  swap
  · exact (hm.stage_of_ne hj).symm ▸ h
  subst hj
  rcases hm.stage_self with ⟨ws, hread, -⟩ | ⟨e, o, x, w, hrun, hcall, -⟩ | ⟨ws, hpub, -⟩
  · rw [hcontract] at hread
    rcases hread with hs | ⟨-, hlooks⟩
    · exact hs.symm ▸ h
    · exact h.looks hr (hrel.db ▸ hlooks)
  · rw [hcontract] at hcall
    exact h.calls hr (hrel.world ▸ hrun) hcall
  · rw [hcontract] at hpub
    generalize A.stage j = s, A'.stage j = s' at h hpub
    cases hpub
    exact ⟨h.software, h.artifact, h.storageProvider, h.content⟩

/-- In every run the programs follow their contracts, and a download knows what it has seen. -/
theorem origin_run {node : Node} {d : Catalogue} {w : CmsWorld}
    (hr : (requests node isIP rs d w).Run ok c) (hreq : rs[j]? = some (.download r)) :
    ∃ A, Follows isIP rs c A ∧ Origin (Seen ok (requests node isIP rs d w) c) r (A.stage j) := by
  refine (follows_requests node isIP rs d w).invariant
    (I := fun c A => Origin (Seen ok (requests node isIP rs d w) c) r (A.stage j)) ?_ ?_ hr
  · exact ⟨fun _ h => (by cases h), fun _ _ h => (by cases h), fun _ _ h => (by cases h),
      fun _ h => (by cases h)⟩
  · intro c₁ c₂ A₁ A₂ m hrun hs hrel _ hmove _ horigin
    refine Origin.step ?_ (.single hs)
    cases hmove with
    | refl => exact horigin
    | single hm => exact horigin.move hrel hreq hrun hm

/-! ## Streams -/

/-- What has been given to a download stays with it. -/
theorem delivery_moves {A A' : Contract.State schema cmsWorld Stage}
    (hreq : rs[j]? = some (.download r))
    (hm : Contract.Moves (contracts isIP rs) A A') {delivery : Delivery}
    (h : (A.stage j).delivery = some delivery) : (A'.stage j).delivery = some delivery := by
  have hcontract := contracts_of_download isIP hreq
  induction hm with
  | refl => exact h
  | tail _ hmove ih =>
    obtain ⟨m, hmove⟩ := hmove
    by_cases hj : m = some j
    swap
    · exact (hmove.stage_of_ne hj).symm ▸ ih
    subst hj
    rcases hmove.stage_self with ⟨ws, hread, -⟩ | ⟨e, o, x, w, hrun, hcall, -⟩ | ⟨ws, hpub, -⟩
    · rw [hcontract] at hread
      rcases hread with hs | ⟨-, hlooks⟩
      · exact hs.symm ▸ ih
      · cases hlooks.delivery.symm.trans ih
    · rw [hcontract] at hcall
      rcases hcall.delivery with hs | hnone
      · exact hs.symm ▸ ih
      · cases hnone.symm.trans ih
    · rw [hcontract] at hpub
      exact hpub.delivery.trans ih

/-- A storage gives program `j` a stream. -/
def IsGiven (ok : Guard machine) (j : ℕ) (provider : Id) (key : String) (content : List UInt8)
    (c c' : Config machine (Failure UpdaterError) Reply) : Prop :=
  ∃ (k : Except String (List UInt8) → Program Reply) (o : Outcome) (σ : State),
    c.pool[j]? = some (.step (.ext (.getStream provider key)) k) ∧
    ok j (.ext (.getStream provider key)) (.ext o) c.state ∧
    machine.run j (.ext (.getStream provider key)) (.ext o) c.state = some (.ok content, σ) ∧
    c' = ⟨σ, c.pool.set j (k (.ok content))⟩

/-- In every run of downloads and operations of the CMS: a download that has answered with a stream
has answered with what the storage of an artifact held, where the artifact has the identifier that was
asked for and was public for the product that the request resolved to; and a download that has been
given a stream never fails, and answers with nothing else. -/
theorem streams_are_public (node : Node) (isIP : String → Bool) {ok : Guard machine}
    {rs : List Request} {d : Catalogue} {w : CmsWorld}
    {c : Config machine (Failure UpdaterError) Reply} {j : ℕ} {r : DownloadRequest}
    (hr : (requests node isIP rs d w).Run ok c) (hreq : rs[j]? = some (.download r)) :
    (∀ fields content, c.pool[j]? = some (.ret (.answer (.stream fields content))) →
      ∃ software artifact storageProvider, fields = headers artifact ∧ artifact.id = r.id ∧
        Seen ok (requests node isIP rs d w) c (fun σ =>
          UpdaterService.resolveSoftware σ.server.db.toTables r.slug = .ok software) ∧
        Seen ok (requests node isIP rs d w) c (fun σ =>
          artifact ∈ publicQuery σ.server.db.toTables (some software.id)) ∧
        Seen ok (requests node isIP rs d w) c (fun σ =>
          σ.server.db.toTables.storageProvider artifact.storageProviderId = some storageProvider) ∧
        Seen ok (requests node isIP rs d w) c fun σ =>
          σ.world.objects storageProvider.id artifact.storageKey = some content) ∧
    ∀ c₁ c₂ provider key content, (requests node isIP rs d w).Run ok c₁ →
      IsGiven ok j provider key content c₁ c₂ → c₂.Run ok c →
        (∀ error, c.pool[j]? ≠ some (.fail error)) ∧ ∀ reply, c.pool[j]? = some (.ret reply) →
          ∃ artifact : Artifact, artifact.id = r.id ∧ artifact.storageKey = key ∧
            reply = .answer (.stream (headers artifact) content) := by
  have hcontract := contracts_of_download isIP hreq
  refine ⟨fun fields content hp => ?_, fun c₁ c₂ provider key content h₁ hgiven h₂ => ?_⟩
  · obtain ⟨A, hrel, horigin⟩ := origin_run hr hreq
    have hends : (Request.download r).Ends _ (A.stage j) := hrel.returned hp _ hreq
    cases hdelivery : (A.stage j).delivery with
    | none =>
      simp only [Request.Ends, hdelivery] at hends
      obtain ⟨status, error, heq⟩ := hends
      cases heq
    | some delivery =>
      simp only [Request.Ends, hdelivery] at hends
      cases hends
      obtain ⟨hs, ha, hp⟩ := Stage.of_delivery hdelivery
      obtain ⟨hid, hpublic⟩ := horigin.artifact _ _ hs ha
      exact ⟨_, _, _, rfl, hid, horigin.software _ hs, hpublic, horigin.storageProvider _ _ ha hp,
        horigin.content _ hdelivery⟩
  · obtain ⟨A₁, hrel₁, horigin⟩ := origin_run h₁ hreq
    obtain ⟨k, o, σ, hp, -, hrun, rfl⟩ := hgiven
    obtain ⟨s, hcall, -, hrel₂⟩ := hrel₁.call hp hrun
    -- The automaton is given the same stream, and comes to a stage with a delivery.
    obtain ⟨delivery, hdelivery, hid, hkey, hcontent⟩ : ∃ delivery, s.delivery = some delivery ∧
        delivery.artifact.id = r.id ∧ delivery.artifact.storageKey = key ∧
        delivery.content = content := by
      rw [hcontract] at hcall
      generalize A₁.stage j = s₁ at hcall horigin
      cases hcall with
      | opened => exact ⟨_, rfl, (horigin.artifact _ _ rfl rfl).1, rfl, rfl⟩
    obtain ⟨A, hmoves, hrel⟩ := hrel₂.run h₂
    have hend : (A.stage j).delivery = some delivery :=
      delivery_moves hreq hmoves (by rw [← hdelivery]; exact congrArg _ (Function.update_self ..))
    refine ⟨fun error hfail => ?_, fun reply hret => ?_⟩
    · have hnone : FailsAt error (A.stage j) := hrel.failed hfail
      cases hnone.symm.trans hend
    · have hends : (Request.download r).Ends reply (A.stage j) := hrel.returned hret _ hreq
      simp only [Request.Ends, hend] at hends
      exact ⟨delivery.artifact, hid, hkey, hcontent ▸ hends⟩

/-- The artifact that the example's download hands out was public, though it is deleted in the end. -/
theorem streams_are_public_example :
    ∃ c : Config machine (Failure UpdaterError) Reply,
      (requests toyNode (fun _ => true) twoRequests oneDownload oneByte).Run (Guard.always machine) c ∧
      ∃ software artifact, artifact.id = releaseId ∧
        Seen (Guard.always machine)
          (requests toyNode (fun _ => true) twoRequests oneDownload oneByte) c fun σ =>
            artifact ∈ publicQuery σ.server.db.toTables (some software) := by
  obtain ⟨c, hr, hanswered, -⟩ := deletedMeanwhile_reached
  obtain ⟨fields, hp⟩ := answer_of_hasAnswered hanswered
  obtain ⟨software, artifact, _, -, hid, -, hpublic, -⟩ :=
    (streams_are_public toyNode _ (r := downloadRelease) hr rfl).1 fields [1] hp
  exact ⟨c, hr, software.id, artifact, hid, hpublic⟩

end Reeva.Downloads
