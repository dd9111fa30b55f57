import Reeva.Cms.Coherence

/-!
# What a signature submission saves

The rules of `wp` for the vocabulary of the CMS programs, and with them the one request whose save
depends on what it read before: whatever the other requests do in between, as long as registered keys
stay registered, `setArtifactSignature` saves nothing but a `Submission`, which is vouched for by the
tables of that moment. `importManagedSignature` ends in it.
-/

open Interleaving ReadCommitted

namespace Reeva

section rules

variable {ok : Guard cms} {R : Discipline cms} {i : ℕ} {α β : Type} {Q : α → CmsState → Prop}
  {F : Failure String → CmsState → Prop} {σ : CmsState}

/-- The rule for a query. -/
theorem wp_select (hF : ∀ e σ, F e σ) (hg : ∀ s r σ, R.guar i s r σ σ) {f : Tables → β}
    {k : β → Cms α} (h : ∀ σ₁, R.rely i σ σ₁ → R.inv σ₁ → wp ok R i (k (f (tables σ₁ i))) Q F σ₁) :
    wp ok R i (Cms.select f >>= k) Q F σ :=
  wp_query fun σ₁ hr hi _ => ⟨fun r => hg _ r σ₁, h σ₁ hr hi, fun _ _ _ => hF _ _⟩

/-- The rule for a call. -/
theorem wp_call {c : CmsCall} {k : c.Res → Cms α}
    (h : ∀ σ₁ : CmsState, R.rely i σ σ₁ → R.inv σ₁ → ∀ o r w, ok i (.ext c) (.ext o) σ₁ →
      CmsCall.run i c o σ₁.world = some (r, w) →
      R.inv ⟨σ₁.server, w⟩ ∧ R.guar i (.ext c) r σ₁ ⟨σ₁.server, w⟩ ∧
        wp ok R i (k r) Q F ⟨σ₁.server, w⟩) : wp ok R i (Cms.call c >>= k) Q F σ :=
  wp_ext (E := cmsCalls) (X := cmsWorld) (e := c) fun σ₁ hr hi _ => h σ₁ hr hi

/-- The rule for a write. -/
theorem wp_exec (hF : ∀ e σ, F e σ) {w : Write} {k : ℕ → Cms α}
    (h : ∀ σ₁ : CmsState, R.rely i σ σ₁ → R.inv σ₁ → ∀ φ r srv,
      ok i (.db (.write w)) (.db φ) σ₁ →
      Server.exec (D := cmsSchema) i (.write w) φ σ₁.server = some (r, srv) →
      R.inv ⟨srv, σ₁.world⟩ ∧ R.guar i (.db (.write w)) r σ₁ ⟨srv, σ₁.world⟩ ∧
        ∀ n, r = .ok n → wp ok R i (k n) Q F ⟨srv, σ₁.world⟩) :
    wp ok R i (Cms.exec w >>= k) Q F σ := by
  refine wp_db (D := cmsSchema) (s := .write w) fun σ₁ hr hi _ φ r srv hok he => ?_
  obtain ⟨hi₂, hg, hk⟩ := h σ₁ hr hi φ r srv hok he
  exact ⟨hi₂, hg, hk, fun e _ _ _ _ => hF _ _⟩

/-- The rule for a check. -/
theorem wp_refuse (hF : ∀ e σ, F e σ) {c : Prop} [Decidable c] {message : String}
    {k : Unit → Cms α} (h : ¬c → wp ok R i (k ()) Q F σ) :
    wp ok R i (Cms.refuse c message >>= k) Q F σ := by
  by_cases hc : c
  · simp only [Cms.refuse, if_pos hc]
    exact fun _ _ _ => hF _ _
  · simp only [Cms.refuse, if_neg hc]
    exact h hc

/-- The rule for a computation that may throw. -/
theorem wp_orThrow (hF : ∀ e σ, F e σ) {e : Except String β} {k : β → Cms α}
    (h : ∀ b, e = .ok b → wp ok R i (k b) Q F σ) : wp ok R i (Cms.orThrow e >>= k) Q F σ := by
  cases e with
  | ok b => exact h b rfl
  | error m => exact fun _ _ _ => hF _ _

/-- The rule for a row that has to be there. -/
theorem wp_orFail (hF : ∀ e σ, F e σ) {o : Option β} {k : β → Cms α}
    (h : ∀ b, o = some b → wp ok R i (k b) Q F σ) : wp ok R i (Cms.orFail o >>= k) Q F σ := by
  cases o with
  | some b => exact h b rfl
  | none => exact fun _ _ _ => hF _ _

end rules

/-- What a discipline must offer to a signature submission of program `i`: reading is free, keys stay
registered, a loaded artifact keeps a property `K` that the others respect, and the save of a
`Submission` of such an artifact keeps the terms. -/
structure AllowsSubmission (node : Node) (ok : Guard cms) (R : Discipline cms) (i : ℕ)
    (K : Artifact → CmsState → Prop) : Prop where
  refl : ∀ σ, R.rely i σ σ
  read : ∀ s r (σ : CmsState) w, R.guar i s r σ ⟨σ.server, w⟩
  world : ∀ (σ : CmsState) w, R.inv σ → R.inv ⟨σ.server, w⟩
  keys : ∀ σ σ', R.inv σ → R.inv σ' → R.rely i σ σ' → KeysGrow (tables σ i) (tables σ' i)
  load : ∀ σ, ∀ a ∈ (tables σ i).artifacts, K a σ
  keep : ∀ a σ σ', K a σ → R.rely i σ σ' → K a σ'
  save : ∀ (σ : CmsState) l n φ r srv, R.inv σ → K l σ → Submission node (tables σ i) l n →
    ok i (.db (.write (.saveArtifact l n))) (.db φ) σ →
    Server.exec (D := cmsSchema) i (.write (.saveArtifact l n)) φ σ.server = some (r, srv) →
    R.inv ⟨srv, σ.world⟩ ∧ R.guar i (.db (.write (.saveArtifact l n))) r σ ⟨srv, σ.world⟩

namespace AllowsSubmission

variable {node : Node} {ok : Guard cms} {R : Discipline cms} {i : ℕ}
  {K : Artifact → CmsState → Prop} {σ : CmsState}

/-- A query changes nothing. -/
theorem reads (hA : AllowsSubmission node ok R i K) (s : Action cmsSchema cmsCalls)
    (r : (signature cmsSchema cmsCalls).Res s) (σ : CmsState) : R.guar i s r σ σ :=
  hA.read s r σ σ.world

/-- An artifact that was loaded is one that the tables had. -/
theorem loadArtifact (hA : AllowsSubmission node ok R i K) (id : Id) :
    wp ok R i (Cms.loadArtifact id) (fun a σ => K a.artifact σ ∧ R.inv σ) (fun _ _ => True) σ := by
  have hF : ∀ (e : Failure String) (σ : CmsState), True := fun _ _ => trivial
  refine wp_select hF hA.reads fun σ₁ _ _ => wp_orFail hF fun artifact ha => ?_
  have hK : K artifact σ₁ := hA.load σ₁ _ (List.mem_of_find?_eq_some ha)
  refine wp_select hF hA.reads fun σ₂ h₂ _ => wp_select hF hA.reads fun σ₃ h₃ _ => ?_
  refine wp_select hF hA.reads fun σ₄ h₄ _ => wp_select hF hA.reads fun σ₅ h₅ _ => ?_
  exact fun σ₆ h₆ hi => ⟨hA.keep _ _ _ (hA.keep _ _ _ (hA.keep _ _ _ (hA.keep _ _ _
    (hA.keep _ _ _ hK h₂) h₃) h₄) h₅) h₆, hi⟩

/-- `setArtifactSignature` keeps the terms. -/
theorem setArtifactSignature (hA : AllowsSubmission node ok R i K) (id : Id)
    (keyIdInput signatureInput : Input) (hi : R.inv σ) :
    wp ok R i (ArtifactService.setArtifactSignature node id keyIdInput signatureInput)
      (fun _ _ => True) (fun _ _ => True) σ := by
  have hF : ∀ (e : Failure String) (σ : CmsState), True := fun _ _ => trivial
  refine wp_bind hA.refl (wp_mono ?_ (fun _ _ _ => trivial) (hA.loadArtifact id)) hi
  rintro a σ ⟨hK, -⟩
  refine wp_refuse hF fun hhex => ?_
  split
  · exact fun _ _ _ => trivial
  · refine wp_select hF hA.reads fun σ₁ h₁ hi₁ => ?_
    split
    · exact fun _ _ _ => trivial
    · rename_i signingKey hkey
      refine wp_orThrow hF fun payload hp => wp_refuse hF fun hv => ?_
      split
      · exact fun _ _ _ => trivial
      · rename_i manifest hparse
        obtain ⟨m, hm, rfl⟩ := build_of_payload hp
        obtain rfl := Option.some.inj ((parse_payload m).symm.trans hparse)
        have hfound := List.find?_some hkey
        simp only [Bool.and_eq_true, decide_eq_true_eq] at hfound
        refine wp_exec hF fun σ₂ h₂ hi₂ φ r srv hok he => ?_
        have hs : Submission node (tables σ₁ i) a.artifact { a.artifact with
            signature := some (trimmedText signatureInput)
            signatureKeyId := some (trimmedText keyIdInput)
            signatureManifest := some m.toJson } :=
          ⟨rfl, _, _, _, rfl, rfl, rfl, by simpa using hhex, m, signable_of_build hm, rfl, signingKey,
            List.mem_of_find?_eq_some hkey, hfound.1.2, by simpa using hv⟩
        obtain ⟨hi₃, hg⟩ := hA.save σ₂ _ _ φ r srv hi₂ (hA.keep _ _ _ (hA.keep _ _ _ hK h₁) h₂)
          (hs.mono node (hA.keys _ _ hi₁ hi₂ h₂)) hok he
        exact ⟨hi₃, hg, fun _ _ _ _ _ => trivial⟩

/-- What is asked of the signer changes nothing. -/
theorem call (hA : AllowsSubmission node ok R i K) {α : Type} {Q : α → CmsState → Prop}
    {F : Failure String → CmsState → Prop} {c : CmsCall} {k : c.Res → Cms α}
    (h : ∀ σ₁, R.inv σ₁ → ∀ r, wp ok R i (k r) Q F σ₁) : wp ok R i (Cms.call c >>= k) Q F σ :=
  wp_call fun σ₁ _ hi _ r w _ _ =>
    ⟨hA.world σ₁ w hi, hA.read (.ext c) r σ₁ w, h _ (hA.world σ₁ w hi) r⟩

/-- `getKey` changes nothing. -/
theorem getKey (hA : AllowsSubmission node ok R i K) (product : String) :
    wp ok R i (ManagedSignerService.getKey node product) (fun _ => R.inv) (fun _ _ => True) σ := by
  have hF : ∀ (e : Failure String) (σ : CmsState), True := fun _ _ => trivial
  refine hA.call fun σ₁ _ value => wp_orThrow hF fun value _ => ?_
  cases ManagedSignerService.key node value product with
  | ok managedKey => exact fun _ _ hi => hi
  | error message => exact fun _ _ _ => trivial

/-- `getRequest` changes nothing. -/
theorem getRequest (hA : AllowsSubmission node ok R i K) (managedKey : ManagedSigningKey)
    (payload : String) :
    wp ok R i (ManagedSignerService.getRequest node managedKey payload) (fun _ => R.inv)
      (fun _ _ => True) σ := by
  have hF : ∀ (e : Failure String) (σ : CmsState), True := fun _ _ => trivial
  refine hA.call fun σ₁ _ value => wp_orThrow hF fun value _ => ?_
  cases ManagedSignerService.signingRequest node value managedKey payload with
  | ok request => exact fun _ _ hi => hi
  | error message => exact fun _ _ _ => trivial

/-- `importManagedSignature` keeps the terms: whatever the signer answers, it ends in
`setArtifactSignature`. -/
theorem importManagedSignature (hA : AllowsSubmission node ok R i K) (id : Id) (hi : R.inv σ) :
    wp ok R i (ArtifactService.importManagedSignature node id) (fun _ _ => True)
      (fun _ _ => True) σ := by
  have hF : ∀ (e : Failure String) (σ : CmsState), True := fun _ _ => trivial
  refine wp_bind hA.refl (wp_mono ?_ (fun _ _ _ => trivial) (hA.loadArtifact id)) hi
  rintro a σ ⟨-, hi⟩
  split
  · refine wp_bind hA.refl (wp_mono ?_ (fun _ _ _ => trivial) (hA.getKey _)) hi
    intro managedKey σ hi
    refine wp_orThrow hF fun payload _ => ?_
    refine wp_bind hA.refl (wp_mono ?_ (fun _ _ _ => trivial) (hA.getRequest managedKey payload)) hi
    intro request σ hi
    cases request with
    | none => exact fun _ _ _ => trivial
    | some request => exact wp_refuse hF fun _ => hA.setArtifactSignature id _ _ hi
  · exact fun _ _ _ => trivial

end AllowsSubmission

end Reeva
