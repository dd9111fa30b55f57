import Mathlib.Data.List.Nodup
import Reeva.Cms.ArtifactRepository
import Reeva.Cms.Rules
import Reeva.Interleaving.AdvisoryLocks
import Reeva.Interleaving.Atomicity
import Reeva.Storage.ResolvedSettings

/-!
# The default storage provider

`activateProvider` clears the flag of every provider and saves the one that it loaded before, with
its flag set. The save writes only what differs from what was loaded. An advisory lock keeps two
activations apart, and no other request touches the flags, so the flag that was loaded is the one
that is committed: `storage_default` says that an activation leaves its provider as the only live
default exactly where it was not the default before, and none at all otherwise.
-/

open Interleaving ReadCommitted

namespace Reeva

/-- `activateProvider` -/
def StorageProviderService.activateProvider (platform : StoragePlatform) (id : Id) : Cms Unit :=
  transaction do
    let _ ← db (D := cmsSchema) (.advisory 2)
    let provider ← Cms.orFail (← Cms.select (·.storageProvider id))
    let _ ← Cms.orThrow (checkActivation platform provider)
    let _ ← Cms.exec
      (.updateStorageProviders (fun _ => true) fun p => { p with isDefault := false })
    let _ ← Cms.exec
      (.saveStorageProvider provider { provider with isActive := true, isDefault := true })
    return ()

/-- A request that changes storage providers. -/
inductive ProviderRequest
  | createProvider (input : Json)
  | updateProvider (id : Id) (input : Json)
  | activateProvider (id : Id)

/-- The program of a request. A row gets its identifier when it is created. -/
def ProviderRequest.program (platform : StoragePlatform) : ProviderRequest → Cms Unit
  | createProvider input => do
    let row ← Cms.orThrow (StorageProviderService.createProvider platform "" input)
    let id : Id ← Cms.call .randomUuid
    let _ ← Cms.exec (.insertStorageProvider { row with id })
    return ()
  | updateProvider id input => do
    let provider ← Cms.orFail (← Cms.select (·.storageProvider id))
    let saved ← Cms.orThrow (StorageProviderService.updateProvider platform provider input)
    let _ ← Cms.exec (.saveStorageProvider provider saved)
    return ()
  | activateProvider id => StorageProviderService.activateProvider platform id

/-- The requests on a database. -/
def providerRequests (platform : StoragePlatform) (rs : List ProviderRequest) (d : Db)
    (w : CmsWorld) : Config cms (Failure String) Unit :=
  ⟨⟨Server.idle d, w⟩, rs.map (·.program platform)⟩

/-! ## The flags -/

/-- The live default providers. -/
def liveDefaults (d : Db) : List StorageProvider :=
  d.storageProviders.filter fun p => p.isDefault && p.deletedAt.isNone

/-- The provider is the only live default, and active. -/
def Selected (id : Id) (d : Db) : Prop :=
  ∃ p, liveDefaults d = [p] ∧ p.id = id ∧ p.isActive = true

/-- The provider has the flag of the default. -/
def IsDefault (id : Id) (d : Db) : Prop := ∃ p ∈ d.storageProviders, p.id = id ∧ p.isDefault = true

/-- The providers that have the flag. -/
def defaults (d : Db) : List Id := (d.storageProviders.filter (·.isDefault)).map (·.id)

theorem mem_defaults {id : Id} {d : Db} : id ∈ defaults d ↔ IsDefault id d := by
  unfold defaults IsDefault
  simp only [List.mem_map, List.mem_filter]
  constructor
  · rintro ⟨p, ⟨hp, hdefault⟩, hid⟩
    exact ⟨p, hp, hid, hdefault⟩
  · rintro ⟨p, hp, hid, hdefault⟩
    exact ⟨p, ⟨hp, hdefault⟩, hid⟩

/-- Providers stay, deleted or not, and none is switched off. -/
def ProvidersStay (d d' : Db) : Prop :=
  ∀ p ∈ d.storageProviders, ∃ p' ∈ d'.storageProviders, p'.id = p.id ∧
    p'.deletedAt = p.deletedAt ∧ (p.isActive = true → p'.isActive = true)

theorem ProvidersStay.refl (d : Db) : ProvidersStay d d := fun p hp => ⟨p, hp, rfl, rfl, id⟩

theorem ProvidersStay.trans (d₁ d₂ d₃ : Db) (h₁ : ProvidersStay d₁ d₂) (h₂ : ProvidersStay d₂ d₃) :
    ProvidersStay d₁ d₃ := by
  intro p hp
  obtain ⟨p₂, hp₂, hid₂, hlive₂, hactive₂⟩ := h₁ p hp
  obtain ⟨p₃, hp₃, hid₃, hlive₃, hactive₃⟩ := h₂ p₂ hp₂
  exact ⟨p₃, hp₃, hid₃.trans hid₂, hlive₃.trans hlive₂, fun h => hactive₃ (hactive₂ h)⟩

/-- The terms of the requests: the advisory lock protects the flags. -/
def flagTerms : CmsTerms :=
  lockTerms (D := cmsSchema) cmsWorld 2 defaults (fun _ => True) ProvidersStay .refl .trans

/-! ## What the requests publish -/

/-- A provider after an activation: the one that is activated has the flag if it had not. -/
def StorageProvider.activated (id : Id) (p : StorageProvider) : StorageProvider :=
  if p.id = id then { p with isDefault := !p.isDefault, isActive := true }
  else { p with isDefault := false }

/-- What a request makes of the providers. -/
inductive ProviderEffect (d d' : Db) : ProviderRequest → Prop
  | createProvider {input : Json} {r : StorageProvider} (hdefault : r.isDefault = false)
      (h : d'.storageProviders = d.storageProviders ++ [r]) : ProviderEffect d d' (.createProvider input)
  | updateProvider {id : Id} {input : Json} {f : StorageProvider → StorageProvider}
      (hid : ∀ p, (f p).id = p.id) (hdefault : ∀ p, (f p).isDefault = p.isDefault)
      (hactive : ∀ p, (f p).isActive = p.isActive) (hlive : ∀ p, (f p).deletedAt = p.deletedAt)
      (h : d'.storageProviders = d.storageProviders.map f) :
      ProviderEffect d d' (.updateProvider id input)
  | activateProvider {id : Id} {p : StorageProvider} (hp : p ∈ d.storageProviders) (hid : p.id = id)
      (hlive : p.deletedAt = none)
      (h : d'.storageProviders = d.storageProviders.map (·.activated id)) :
      ProviderEffect d d' (.activateProvider id)

/-- What is published of the requests. -/
def Publishable (rs : List ProviderRequest) (i : ℕ) (σ σ' : CmsState) : Prop :=
  ∃ q, rs[i]? = some q ∧ ProviderEffect σ.server.db σ'.server.db q

section effects

variable {d d' : Db} {q : ProviderRequest} {id : Id}

/-- Every effect keeps the providers. -/
theorem ProviderEffect.stay (h : ProviderEffect d d' q) : ProvidersStay d d' := by
  intro p hp
  cases h with
  | createProvider _ h => exact ⟨p, h ▸ List.mem_append_left _ hp, rfl, rfl, fun ha => ha⟩
  | updateProvider hid _ hactive hlive h =>
    exact ⟨_, h ▸ List.mem_map_of_mem hp, hid p, hlive p, fun ha => (hactive p).trans ha⟩
  | @activateProvider id _ _ _ _ h =>
    refine ⟨_, h ▸ List.mem_map_of_mem hp, ?_, ?_, ?_⟩
    all_goals
      unfold StorageProvider.activated
      split
    · rfl
    · rfl
    · rfl
    · rfl
    · exact fun _ => rfl
    · exact fun ha => ha

/-- Only an activation changes the flags. -/
theorem ProviderEffect.same_defaults (h : ProviderEffect d d' q)
    (hq : ∀ id, q ≠ .activateProvider id) : defaults d' = defaults d := by
  unfold defaults
  cases h with
  | createProvider hdefault h =>
    rw [h, List.filter_append, List.filter_cons_of_neg (by simp [hdefault]), List.filter_nil,
      List.append_nil]
  | @updateProvider _ _ f hid hdefault _ _ h =>
    have hsame : (fun p : StorageProvider => p.isDefault) ∘ f = fun p => p.isDefault :=
      funext hdefault
    rw [h, List.filter_map, hsame, List.map_map]
    exact List.map_congr_left fun p _ => hid p
  | activateProvider _ _ _ _ => exact absurd rfl (hq _)

/-- The constraints leave no more than one live default. -/
theorem liveDefaults_eq_singleton {p : StorageProvider} (h : p ∈ liveDefaults d) :
    liveDefaults d = [p] := by
  obtain ⟨p', hp'⟩ := List.length_eq_one_iff.mp
    (Nat.le_antisymm d.valid.storageDefault (List.length_pos_of_mem h))
  have hmem : p ∈ [p'] := hp' ▸ h
  rw [List.mem_singleton.mp hmem]
  exact hp'

/-- An activation selects its provider where that was not the default. -/
theorem selected_iff (h : ProviderEffect d d' (.activateProvider id)) :
    Selected id d' ↔ ¬IsDefault id d := by
  cases h with
  | @activateProvider _ p hp hid hlive h =>
    constructor
    · rintro ⟨p', hp', hid', -⟩ ⟨q, hq, hqid, hdefault⟩
      have hmem : p' ∈ liveDefaults d' := by simp [hp']
      obtain ⟨hp', hflag⟩ := List.mem_filter.mp hmem
      rw [h] at hp'
      obtain ⟨r, hr, rfl⟩ := List.mem_map.mp hp'
      -- The row of the provider had the flag, so that it was cleared and not written again.
      have hrid : r.id = id := by
        unfold StorageProvider.activated at hid'
        split at hid' <;> exact hid'
      obtain rfl := List.inj_on_of_nodup_map d.valid.providerIds hr hq (hrid.trans hqid.symm)
      simp [StorageProvider.activated, hrid, hdefault] at hflag
    · intro hnot
      have hdefault : p.isDefault = false :=
        Bool.eq_false_iff.mpr fun hdefault => hnot ⟨p, hp, hid, hdefault⟩
      have hactivated : p.activated id = { p with isDefault := true, isActive := true } := by
        unfold StorageProvider.activated
        rw [if_pos hid, hdefault]
        rfl
      refine ⟨p.activated id, liveDefaults_eq_singleton (List.mem_filter.mpr ⟨?_, ?_⟩), ?_, ?_⟩
      · rw [h]
        exact List.mem_map_of_mem hp
      · rw [hactivated, hlive]
        rfl
      · rw [hactivated]
        exact hid
      · rw [hactivated]

/-- The other requests leave the one default that there is. -/
theorem ProviderEffect.one_default (h : ProviderEffect d d' q)
    (hq : ∀ id, q ≠ .activateProvider id) (hone : ∃ p, liveDefaults d = [p]) :
    ∃ p, liveDefaults d' = [p] := by
  obtain ⟨p, hp⟩ := hone
  have hmem : p ∈ liveDefaults d := by simp [hp]
  obtain ⟨hp, hflag⟩ := List.mem_filter.mp hmem
  cases h with
  | createProvider _ h =>
    exact ⟨p, liveDefaults_eq_singleton
      (List.mem_filter.mpr ⟨h ▸ List.mem_append_left _ hp, hflag⟩)⟩
  | @updateProvider _ _ f _ hdefault _ hlive h =>
    refine ⟨f p, liveDefaults_eq_singleton (List.mem_filter.mpr ⟨h ▸ List.mem_map_of_mem hp, ?_⟩)⟩
    rw [hdefault, hlive]
    exact hflag
  | activateProvider _ _ _ _ => exact absurd rfl (hq _)

end effects

/-! ## The requests keep the terms -/

/-- A new provider does not have the flag. -/
theorem isDefault_of_createProvider {platform : StoragePlatform} {id : Id} {input : Json}
    {p : StorageProvider} (h : StorageProviderService.createProvider platform id input = .ok p) :
    p.isDefault = false := by
  unfold StorageProviderService.createProvider at h
  obtain ⟨name, -, h⟩ := Legacy.bind_eq_ok.mp h
  obtain ⟨driver, -, h⟩ := Legacy.bind_eq_ok.mp h
  dsimp only at h
  split_ifs at h
  all_goals
    obtain ⟨config, -, h⟩ := Legacy.bind_eq_ok.mp h
    obtain ⟨quotaBytes, -, h⟩ := Legacy.bind_eq_ok.mp h
    obtain rfl := Except.ok.inj h
    rfl

section requests

variable {ok : Guard cms} {i : ℕ} {G : ℕ → CmsState → CmsState → Prop}

/-- What a request has to know: nothing when it starts and when it ends. It publishes `G`. -/
def KeepsFlags (ok : Guard cms) (G : ℕ → CmsState → CmsState → Prop) (i : ℕ) (p : Cms Unit) : Prop :=
  Triple ok (flagTerms.committing G) i (Holds i none [] fun _ _ => True) p
    (fun _ => Holds i none [] fun _ _ => True) fun _ => Holds i none [] fun _ _ => True

/-- A move that leaves what is committed. -/
theorem flagTerms_silent {σ : CmsState} {w : CmsWorld} :
    flagTerms.inv ⟨σ.server, w⟩ ∧ flagTerms.guar i σ ⟨σ.server, w⟩ :=
  lockTerms_ext (X := cmsWorld) trivial

theorem keepsFlags_ret :
    Triple ok (flagTerms.committing G) i (Holds i none [] fun _ _ => True) (.ret () : Cms Unit)
      (fun _ => Holds i none [] fun _ _ => True) fun _ => Holds i none [] fun _ _ => True :=
  .ret (Terms.Fact.stable_committing (T := flagTerms) G (.const True)) fun _ h => h

theorem keepsFlags_fail {A : Db → CmsWorld → Prop} (hA : flagTerms.Fact i [] A)
    {e : Failure String} :
    Triple ok (flagTerms.committing G) i (Holds i none [] A) (.fail e : Cms Unit)
      (fun _ => Holds i none [] fun _ _ => True) fun _ => Holds i none [] fun _ _ => True :=
  .fail (Terms.Fact.stable_committing (T := flagTerms) G hA) fun _ h => h.mono fun _ _ _ => trivial

/-- A write of its own that leaves the flags. -/
theorem keepsFlags_write {w : Write} {q : ProviderRequest} (hq : ∀ id, q ≠ .activateProvider id)
    (heffect : ∀ d n d', cmsSchema.apply w d = some (n, d') → ProviderEffect d d' q)
    (hG : ∀ σ σ' : CmsState, ProviderEffect σ.server.db σ'.server.db q → G i σ σ') :
    KeepsFlags ok G i (Cms.exec w >>= fun _ => .ret ()) := by
  refine committing_autocommit (D := cmsSchema) (X := cmsWorld) (w := w) (B := fun _ _ => True)
    (.const True) (.const True) ?_ ?_ fun _ => keepsFlags_ret
  · intro σ n d _ _ _ happ
    have he := heffect _ _ _ happ
    refine ⟨trivial, ⟨he.stay, fun j hij => ?_⟩, hG _ _ he, trivial⟩
    exact .of_keeps ⟨id, fun _ => rfl, fun _ _ => id, fun _ _ => id⟩ fun _ => he.same_defaults hq
  · rintro e σ (h | h)
    · exact h
    · exact h

/-- A computation that may throw, before anything is written. -/
theorem keepsFlags_orThrow {β : Type} {e : Except String β} {k : β → Cms Unit}
    (hk : ∀ b, e = .ok b → KeepsFlags ok G i (k b)) : KeepsFlags ok G i (Cms.orThrow e >>= k) := by
  cases e with
  | ok b => exact hk b rfl
  | error m => exact keepsFlags_fail (.const True)

/-- `createProvider` adds a provider without the flag. -/
theorem keepsFlags_createProvider (platform : StoragePlatform) (input : Json)
    (hG : ∀ σ σ' : CmsState, ProviderEffect σ.server.db σ'.server.db (.createProvider input) →
      G i σ σ') :
    KeepsFlags ok G i (ProviderRequest.program platform (.createProvider input)) := by
  refine keepsFlags_orThrow fun row hrow => ?_
  refine committing_ext (E := cmsCalls) (X := cmsWorld) (e := .randomUuid)
    (B := fun _ _ _ => True) (.const True) (fun σ c r w _ _ _ _ => ?_) fun id => ?_
  · obtain ⟨hi, hg⟩ := flagTerms_silent (i := i) (σ := σ) (w := w)
    exact ⟨hi, hg, trivial⟩
  · refine keepsFlags_write (q := .createProvider input) (fun _ h => by cases h) ?_ hG
    intro d n d' happ
    have hdefault := isDefault_of_createProvider hrow
    exact .createProvider (r := { row with id }) hdefault
      (congrArg Tables.storageProviders (apply_tables happ))

/-- `updateProvider` saves a provider with its flags as they were loaded. -/
theorem keepsFlags_updateProvider (platform : StoragePlatform) (id : Id) (input : Json)
    (hG : ∀ σ σ' : CmsState, ProviderEffect σ.server.db σ'.server.db (.updateProvider id input) →
      G i σ σ') :
    KeepsFlags ok G i (ProviderRequest.program platform (.updateProvider id input)) := by
  refine committing_query (D := cmsSchema) (X := cmsWorld)
    (f := fun d : cmsSchema.Db => (Db.toTables d).storageProvider id) (B := fun _ _ _ => True)
    (.const True) (fun _ _ h => h) (fun _ _ h => h) fun found => ?_
  cases found with
  | none => exact keepsFlags_fail (.const True)
  | some l =>
    refine keepsFlags_orThrow fun n hn => ?_
    refine keepsFlags_write (q := .updateProvider id input) (fun _ h => by cases h) ?_ hG
    intro d m d' happ
    obtain ⟨name, config, quotaBytes, -, -, -, rfl⟩ := updateProvider_eq_ok_iff.mp hn
    refine .updateProvider (f := fun p => if decide (p.id = l.id) = true then
      l.saveOnto { l with name, config, quotaBytes := some quotaBytes } p else p) ?_ ?_ ?_ ?_
      (congrArg Tables.storageProviders (apply_tables happ))
    all_goals
      intro p
      split
    · rfl
    · rfl
    · exact dirty_self _ _
    · rfl
    · exact dirty_self _ _
    · rfl
    · exact dirty_self _ _
    · rfl

/-- What an activation knows of the provider that it loaded: its flag is the one that is stored, it
is there, and it is on if it was. -/
def LoadedProvider (id : Id) (l : StorageProvider) (d : Db) : Prop :=
  l.id = id ∧ l.deletedAt = none ∧ (l.isDefault = true ↔ id ∈ defaults d) ∧
    ∃ p ∈ d.storageProviders, p.id = id ∧ p.deletedAt = none ∧
      (l.isActive = true → p.isActive = true)

/-- It knows so while it holds the lock. -/
theorem loadedProvider_fact (id : Id) (l : StorageProvider) :
    (Possession.lock i 2).Fact flagTerms fun d _ => LoadedProvider id l d := by
  rintro σ σ' hr hg hl ⟨hid, hlive, hflag, p, hp, hpid, hplive, hactive⟩
  refine ⟨hid, hlive, ?_, ?_⟩
  · exact lockTerms_held (fun ids => l.isDefault = true ↔ id ∈ ids) σ σ' hr hg hl hflag
  · obtain ⟨p', hp', hid', hlive', hactive'⟩ := hr.1 p hp
    exact ⟨p', hp', hid'.trans hpid, hlive'.trans hplive, fun h => hactive' (hactive h)⟩

/-- The provider that the query finds. -/
theorem loadedProvider_of_found {id : Id} {l : StorageProvider} {d : Db}
    (h : d.toTables.storageProvider id = some l) : LoadedProvider id l d := by
  have hmem : l ∈ d.storageProviders := List.mem_of_find?_eq_some h
  have hfound := List.find?_some h
  rw [Bool.and_eq_true, decide_eq_true_eq, Option.isNone_iff_eq_none] at hfound
  refine ⟨hfound.1, hfound.2, ?_, l, hmem, hfound.1, hfound.2, fun ha => ha⟩
  rw [mem_defaults]
  constructor
  · exact fun hdefault => ⟨l, hmem, hfound.1, hdefault⟩
  · rintro ⟨p, hp, hpid, hdefault⟩
    rwa [List.inj_on_of_nodup_map d.valid.providerIds hmem hp (hfound.1.trans hpid.symm)]

/-- The writes of an activation. -/
def activation (l : StorageProvider) : List Write :=
  [.updateStorageProviders (fun _ => true) fun p => { p with isDefault := false },
    .saveStorageProvider l { l with isActive := true, isDefault := true }]

/-- The save of an activation, on the row whose flag was cleared. -/
theorem saveOnto_activated {l r : StorageProvider} (hdefault : l.isDefault = r.isDefault)
    (hactive : l.isActive = true → r.isActive = true) :
    l.saveOnto { l with isActive := true, isDefault := true } { r with isDefault := false } =
      { r with isDefault := !r.isDefault, isActive := true } := by
  have hflag : dirty l.isDefault true false = !r.isDefault := by
    rw [hdefault]
    cases r.isDefault <;> rfl
  have hon : dirty l.isActive true r.isActive = true := by
    unfold dirty
    split
    · exact hactive (Eq.symm ‹_›)
    · rfl
  unfold StorageProvider.saveOnto
  simp only [dirty_self, hflag, hon]

/-- What they make of the providers. -/
theorem publish_activation {id : Id} {l : StorageProvider} {d d' : Db}
    (h : LoadedProvider id l d)
    (hd : Server.publish (D := cmsSchema) (activation l) d = some d') :
    ProviderEffect d d' (.activateProvider id) := by
  obtain ⟨hid, hlive, hflag, p, hp, hpid, hplive, hactive⟩ := h
  refine .activateProvider hp hpid hplive ?_
  have hrows := congrArg Tables.storageProviders (publish_two hd)
  rw [hrows]
  change List.map _ (List.map _ d.storageProviders) = _
  rw [List.map_map]
  refine List.map_congr_left fun r hr => ?_
  rw [Function.comp_apply, if_pos rfl]
  unfold StorageProvider.activated
  by_cases hrid : r.id = id
  · -- The save writes the flag where the loaded one was not set.
    obtain rfl := List.inj_on_of_nodup_map d.valid.providerIds hr hp (hrid.trans hpid.symm)
    have hsame : l.isDefault = r.isDefault := by
      rw [Bool.eq_iff_iff, hflag, mem_defaults]
      constructor
      · rintro ⟨q, hq, hqid, hdefault⟩
        rwa [List.inj_on_of_nodup_map d.valid.providerIds hr hq (hrid.trans hqid.symm)]
      · exact fun hdefault => ⟨r, hr, hrid, hdefault⟩
    rw [if_pos (by simp [hrid, hid]), if_pos hrid]
    exact saveOnto_activated hsame hactive
  · rw [if_neg (by simp [hrid, hid]), if_neg hrid]

/-- `activateProvider` publishes its two writes together, under the lock. -/
theorem keepsFlags_activateProvider (platform : StoragePlatform) (id : Id)
    (hG : ∀ σ σ' : CmsState, ProviderEffect σ.server.db σ'.server.db (.activateProvider id) →
      G i σ σ') :
    KeepsFlags ok G i (ProviderRequest.program platform (.activateProvider id)) := by
  have failed : ∀ σ : CmsState,
      (Possession.nothing i).Known (fun (_ : Db) (_ : CmsWorld) => True) σ :=
    fun σ _ => ⟨Possession.nothing_has i _, trivial⟩
  have hloaded := fun l => loadedProvider_fact (i := i) id l
  refine Possession.transaction_rule (D := cmsSchema) (X := cmsWorld)
    (fun _ : Unit => Possession.lock i 2) (R := fun _ _ => True)
    (B := fun _ ws _ d _ => ∃ l, ws = activation l ∧ LoadedProvider id l d)
    (C := fun _ _ _ => True) (.const True) (.const True) ?_ (fun _ => .const True)
    (fun _ _ _ => trivial) (fun _ _ _ _ _ _ => trivial) ?_ ?_
  · rintro - ws - σ σ' hr hg hl ⟨l, hws, hb⟩
    exact ⟨l, hws, hloaded l σ σ' hr hg hl hb⟩
  · refine Possession.advisory_rule (n := 2) (M := .lock i 2) (.const True)
      (fun srv _ => (Function.update_self .. : Function.update srv.advisory 2 (some i) 2 = some i))
      (fun _ _ _ => failed _) ?_
    -- What the query finds stays as it is while the lock is held.
    refine Possession.query_rule (f := fun d : cmsSchema.Db => (Db.toTables d).storageProvider id)
      (B := fun found d _ => ∀ l, found = some l → LoadedProvider id l d) (.const True)
      (fun σ _ _ l hl => loadedProvider_of_found hl) (fun _ _ _ => failed _) fun found => ?_
    cases found with
    | none => exact fun _ _ _ σ _ _ => failed σ
    | some l =>
      refine Triple.mono (A := (Possession.lock i 2).Holds (some []) fun d _ =>
        LoadedProvider id l d) ?_ (fun σ h => h.mono (fun _ h => h) fun d _ h => h l rfl)
        (fun _ _ h => h) fun _ _ h => h
      change Triple ok _ i _ (Cms.orThrow (StorageProviderService.checkActivation platform l) >>=
        fun _ => _) _ _
      cases StorageProviderService.checkActivation platform l with
      | error m => exact fun _ _ _ σ _ _ => failed σ
      | ok _ =>
        refine Possession.write_rule (hloaded l) (fun _ hi htx _ _ hfree =>
          lockTerms_write hi htx hfree) (fun _ _ _ => failed _) fun _ => ?_
        refine Possession.write_rule (hloaded l) (fun _ hi htx _ _ hfree =>
          lockTerms_write hi htx hfree) (fun _ _ _ => failed _) fun _ => ?_
        intro σ _ h σ₁ hr _
        have h₁ := (hloaded l).stable σ σ₁ hr h
        exact ⟨activation l, (), h₁.mono (fun _ h => h) fun d _ h => ⟨l, rfl, h⟩⟩
  · rintro - ws - σ φ d hi - hl ⟨l, rfl, hb⟩ - hd
    have he := publish_activation hb hd
    have hmove : flagTerms.inv ⟨{ σ.server.release i with db := d }, σ.world⟩ ∧
        flagTerms.guar i σ ⟨{ σ.server.release i with db := d }, σ.world⟩ :=
      lockTerms_commit trivial he.stay (.inl hl)
    exact ⟨hmove.1, hmove.2, hG _ _ he, trivial, fun _ => trivial⟩

end requests

/-! ## Runs -/

/-- A computation that may throw performs nothing. -/
theorem only_orThrow {P : Action cmsSchema cmsCalls → Prop} {α : Type} (e : Except String α) :
    (Cms.orThrow e).Only P := by
  cases e <;> trivial

/-- A row that has to be there is looked up by nothing more. -/
theorem only_orFail {P : Action cmsSchema cmsCalls → Prop} {α : Type} (o : Option α) :
    (Cms.orFail o).Only P := by
  cases o <;> trivial

/-- Every request publishes once, and returns then. -/
theorem once_providerRequest (platform : StoragePlatform) (q : ProviderRequest) :
    Once false (q.program platform) := by
  cases q with
  | createProvider input =>
    exact once_bind (only_orThrow _) fun row => once_bind (only_ext trivial) fun id => once_write
  | updateProvider id input =>
    exact once_bind (only_db (D := cmsSchema) trivial) fun found =>
      once_bind (only_orFail found) fun provider => once_bind (only_orThrow _) fun saved =>
        once_write
  | activateProvider id =>
    refine once_transaction (Prog.only_bind (only_db (D := cmsSchema) trivial) fun _ => ?_)
    refine Prog.only_bind (only_db (D := cmsSchema) trivial) fun found => ?_
    refine Prog.only_bind (only_orFail found) fun provider => ?_
    exact Prog.only_bind (only_orThrow _) fun _ =>
      Prog.only_bind (only_db (D := cmsSchema) rfl) fun _ =>
        Prog.only_bind (only_db (D := cmsSchema) rfl) fun _ => trivial

/-- Requests start in order. -/
theorem providerRequests_orderly (platform : StoragePlatform) (ok : Guard cms)
    (rs : List ProviderRequest) (d : Db) (w : CmsWorld) :
    ReadCommitted.Orderly ok flagTerms (Publishable rs) (fun _ _ _ => True) (fun _ _ _ => True)
      (providerRequests platform rs d w) := by
  refine ⟨⟨trivial, fun i p hp => ?_⟩, fun i p hp _ => .inr ?_⟩
  · obtain ⟨q, hq, rfl⟩ := Option.map_eq_some_iff.mp (List.getElem?_map ▸ hp)
    have hkeeps : KeepsFlags ok (Publishable rs) i (q.program platform) := by
      cases q with
      | createProvider input =>
        exact keepsFlags_createProvider platform input fun _ _ h => ⟨_, hq, h⟩
      | updateProvider id input =>
        exact keepsFlags_updateProvider platform id input fun _ _ h => ⟨_, hq, h⟩
      | activateProvider id =>
        exact keepsFlags_activateProvider platform id fun _ _ h => ⟨_, hq, h⟩
    exact wp_mono (fun _ _ _ => trivial) (fun _ _ _ => trivial)
      (hkeeps _ trivial (holds_idle i trivial))
  · obtain ⟨q, -, rfl⟩ := Option.map_eq_some_iff.mp (List.getElem?_map ▸ hp)
    exact once_providerRequest platform q

/-- What a request publishes is its effect. -/
theorem Publishable.effect {rs : List ProviderRequest} {i : ℕ} {σ σ' : CmsState}
    {q : ProviderRequest} (h : Publishable rs i σ σ') (hq : rs[i]? = some q) :
    ProviderEffect σ.server.db σ'.server.db q := by
  obtain ⟨q', hq', he⟩ := h
  rw [hq] at hq'
  rwa [Option.some.inj hq']

/-- The condition that a provider that is activated is not the default. -/
def Switches (rs : List ProviderRequest) : Guard cms := fun i s _ σ =>
  MayPublish (E := cmsCalls) (X := cmsWorld) σ i s →
    ∀ id, rs[i]? = some (.activateProvider id) → ¬IsDefault id σ.server.db

/-- In every run of the requests, an activation leaves its provider active and as the only live default
exactly where it did not have the flag before; and where no provider that has it is activated, there
is always one live default after the first activation. -/
theorem storage_default (platform : StoragePlatform) (rs : List ProviderRequest) (d : Db)
    (w : CmsWorld) :
    (∀ c i c' id, Config.Run (Guard.always cms) (providerRequests platform rs d w) c →
      c.StepBy (Guard.always cms) i c' → TakesEffect i c c' →
        rs[i]? = some (.activateProvider id) →
          (Selected id c'.state.server.db ↔ ¬IsDefault id c.state.server.db)) ∧
    ∀ log c, History (Switches rs) (providerRequests platform rs d w) log c →
      (∀ i c' id, c.StepBy (Switches rs) i c' → TakesEffect i c c' →
        rs[i]? = some (.activateProvider id) → Selected id c'.state.server.db) ∧
      ((∃ i ∈ log, ∃ id, rs[i]? = some (.activateProvider id)) →
        ∃ p, liveDefaults c.state.server.db = [p]) := by
  have hselects : ∀ log c, History (Switches rs) (providerRequests platform rs d w) log c →
      ∀ i c' id, c.StepBy (Switches rs) i c' → TakesEffect i c c' →
        rs[i]? = some (.activateProvider id) → Selected id c'.state.server.db := by
    intro log c hlog i c' id hs he hq
    have horderly := (providerRequests_orderly platform (Switches rs) rs d w).run hlog.run
    obtain ⟨hG, s, ch, hmay, hok⟩ := horderly.publishes hs he
    exact (selected_iff (hG.effect hq)).mpr (hok hmay id hq)
  refine ⟨fun c i c' id hrun hs he hq => ?_, fun log c hlog => ⟨hselects log c hlog, ?_⟩⟩
  · have horderly := (providerRequests_orderly platform (Guard.always cms) rs d w).run hrun
    exact selected_iff ((horderly.effect hs he).effect hq)
  · induction hlog with
    | start =>
      rintro ⟨i, hi, -⟩
      cases hi
    | @effect log c₁ c₂ i hlog hs he ih =>
      rintro ⟨j, hj, id, hid⟩
      have horderly := (providerRequests_orderly platform (Switches rs) rs d w).run hlog.run
      obtain ⟨q, hq, heffect⟩ := horderly.effect hs he
      by_cases hact : ∃ id, q = .activateProvider id
      · obtain ⟨id', rfl⟩ := hact
        obtain ⟨p, hp, -⟩ := hselects log c₁ hlog i c₂ id' hs he hq
        exact ⟨p, hp⟩
      · -- Another request: the activation is one of those before.
        have hother : ∀ id, q ≠ .activateProvider id := fun id h => hact ⟨id, h⟩
        refine heffect.one_default hother (ih ⟨j, ?_, id, hid⟩)
        rcases List.mem_append.mp hj with hj | hj
        · exact hj
        · rw [List.mem_singleton.mp hj, hq] at hid
          exact absurd (Option.some.inj hid) (hother id)
    | other hlog hs hno ih =>
      rw [step_db hs hno]
      exact ih

/-- The test of `Switches`. -/
def testSwitches (rs : List ProviderRequest) (i : ℕ) (s : Action cmsSchema cmsCalls)
    (_ : Decision Outcome) (σ : CmsState) : Bool :=
  match s, rs[i]? with
  | .db .commit, some (.activateProvider id) | .db (.write _), some (.activateProvider id) =>
    !(defaults σ.server.db).contains id
  | _, _ => true

theorem switches_of_test (rs : List ProviderRequest) (i : ℕ) (s : Action cmsSchema cmsCalls)
    (ch : Decision Outcome) (σ : CmsState) (h : testSwitches rs i s ch σ = true) :
    Switches rs i s ch σ := by
  intro hmay id hq
  rw [← mem_defaults, ← List.contains_iff_mem]
  cases s with
  | db s =>
    cases s with
    | commit => simpa [testSwitches, hq] using h
    | write w => simpa [testSwitches, hq] using h
    | _ => exact hmay.elim
  | _ => exact hmay.elim

/-- A program that has returned. -/
def returned (c : Config cms (Failure String) Unit) (i : ℕ) : Bool :=
  match c.pool[i]? with
  | some (.ret _) => true
  | _ => false

/-- Two providers of local files, the first of which is the default. -/
def twoProviders : Tables where
  software := []
  signingKeys := []
  versions := []
  platforms := []
  architectures := []
  storageProviders :=
    [⟨"p", "P", "local", .obj [("root", .str "/srv/p")], true, true, some 0, none⟩,
      ⟨"q", "Q", "local", .obj [("root", .str "/srv/q")], false, true, some 0, none⟩]
  artifacts := []
  reservations := []

/-- A platform without a parser of URLs. -/
def plainPlatform : StoragePlatform := ⟨fun _ => none, fun s => s⟩

/-- The activation of the second provider while the first is the default. -/
theorem storage_default_example :
    ∃ (log : List ℕ) (c c' : Config cms (Failure String) Unit),
      History (Switches [.activateProvider "q"]) (providerRequests plainPlatform
        [.activateProvider "q"] ⟨twoProviders, by decide +kernel⟩ emptyWorld) (log ++ [0]) c' ∧
      c.StepBy (Guard.always cms) 0 c' ∧ returned c' 0 = true ∧
      Selected "q" c'.state.server.db ∧ ∃ p, liveDefaults c'.state.server.db = [p] := by
  have h : ((providerRequests plainPlatform [.activateProvider "q"]
      ⟨twoProviders, by decide +kernel⟩ emptyWorld).follow
        (testSwitches [.activateProvider "q"]) (List.replicate 5 (.thread 0 (.db .none)))).any
      (fun c => (c.advance (testSwitches [.activateProvider "q"]) (.thread 0 (.db .none))).any
        fun c' => returned c' 0 && !(defaults c.state.server.db).contains "q") = true := by
    decide +kernel
  have htest := switches_of_test [.activateProvider "q"]
  obtain ⟨c, hc, hnext⟩ := Config.reached_of_follow htest h
  obtain ⟨c', hadvance, hs⟩ := (Option.any_eq_true _ _).mp hnext
  rw [Bool.and_eq_true, Bool.not_eq_true'] at hs
  obtain ⟨hret, hnot⟩ := hs
  have hstep := Config.stepBy_of_advance htest hadvance
  have heffect : TakesEffect 0 c c' := by
    unfold returned at hret
    split at hret
    · exact .inl ⟨_, ‹_›⟩
    · cases hret
  obtain ⟨log, hlog⟩ := History.of_run hc
  have halways : c.StepBy (Guard.always cms) 0 c' :=
    Config.stepBy_of_advance (fun _ _ _ _ _ => trivial) hadvance
  obtain ⟨hiff, hruns⟩ := storage_default plainPlatform [.activateProvider "q"]
    ⟨twoProviders, by decide +kernel⟩ emptyWorld
  refine ⟨log, c, c', .effect hlog hstep heffect, halways, hret, ?_, ?_⟩
  · refine (hiff c 0 c' "q" (hc.mono fun _ _ _ _ _ => trivial) halways heffect rfl).mpr ?_
    rw [← mem_defaults, ← List.contains_iff_mem, hnot]
    exact Bool.false_ne_true
  · exact (hruns _ c' (.effect hlog hstep heffect)).2 ⟨0, by simp, "q", rfl⟩

/-- Two activations of one provider, one after the other, leave no default. -/
theorem activated_twice :
    ∃ c, Config.Run (Guard.always cms) (providerRequests plainPlatform
        [.activateProvider "q", .activateProvider "q"]
        ⟨twoProviders, by decide +kernel⟩ emptyWorld) c ∧
      returned c 0 = true ∧ returned c 1 = true ∧ liveDefaults c.state.server.db = [] := by
  have h : ((providerRequests plainPlatform [.activateProvider "q", .activateProvider "q"]
      ⟨twoProviders, by decide +kernel⟩ emptyWorld).follow (fun _ _ _ _ => true)
        (List.replicate 6 (.thread 0 (.db .none)) ++
          List.replicate 6 (.thread 1 (.db .none)))).any
      (fun c => returned c 0 && returned c 1 && (liveDefaults c.state.server.db).isEmpty) =
        true := by
    decide +kernel
  obtain ⟨c, hc, hs⟩ := Config.reached_of_follow (G := Guard.always cms)
    (fun _ _ _ _ _ => trivial) h
  rw [Bool.and_eq_true, Bool.and_eq_true, List.isEmpty_iff] at hs
  exact ⟨c, hc, hs.1.1, hs.1.2, hs.2⟩

end Reeva
