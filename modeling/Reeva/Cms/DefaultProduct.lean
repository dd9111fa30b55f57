import Reeva.Interleaving.Committed
import Reeva.Cms.Admission
import Reeva.Cms.Rules
import Reeva.Cms.UpdaterService

/-!
# The default product

The database allows at most one default product, and only an active one. That there always is one
rests on the requests: whoever clears the flag of every product sets it again in the same transaction,
on a product that it has found and that nobody can remove (`default_product`).
-/

open Interleaving ReadCommitted

namespace Reeva

/-- There is a default product. -/
def HasDefault (d : Db) : Prop := ∃ s ∈ d.software, s.isDefault = true

/-- Products stay. -/
def SoftwareStays (d d' : Db) : Prop := ∀ s ∈ d.software, ∃ s' ∈ d'.software, s'.id = s.id

theorem SoftwareStays.refl (d : Db) : SoftwareStays d d := fun s hs => ⟨s, hs, rfl⟩

theorem SoftwareStays.trans (d₁ d₂ d₃ : Db) (h₁ : SoftwareStays d₁ d₂) (h₂ : SoftwareStays d₂ d₃) :
    SoftwareStays d₁ d₃ := fun s hs => by
  obtain ⟨s₂, hs₂, hid₂⟩ := h₁ s hs
  obtain ⟨s₃, hs₃, hid₃⟩ := h₂ s₂ hs₂
  exact ⟨s₃, hs₃, hid₃.trans hid₂⟩

/-- The terms of the product requests. -/
def defaultTerms : CmsTerms :=
  committedTerms (D := cmsSchema) cmsWorld HasDefault SoftwareStays .refl .trans

/-- The constraints leave at most one default product, which is active. -/
theorem HasDefault.unique {d : Db} (h : HasDefault d) :
    ∃ s, d.software.filter (·.isDefault) = [s] ∧ s.isActive = true := by
  obtain ⟨s, hs, hdefault⟩ := h
  have hmem : s ∈ d.software.filter (·.isDefault) := List.mem_filter.mpr ⟨hs, hdefault⟩
  obtain ⟨s', hs'⟩ := List.length_eq_one_iff.mp
    (Nat.le_antisymm d.valid.softwareDefault (List.length_pos_of_mem hmem))
  rw [hs', List.mem_singleton] at hmem
  subst hmem
  exact ⟨s, hs', d.valid.defaultActive s hs hdefault⟩

/-- Without a slug the updater finds the default product. -/
theorem HasDefault.resolve {d : Db} (h : HasDefault d) {slug : Option String}
    (hslug : slug.filter (· ≠ "") = none) : ∃ s, UpdaterService.resolveSoftware d.toTables slug = .ok s := by
  obtain ⟨s, hs, hactive⟩ := h.unique
  have hmem : s ∈ d.software ∧ s.isDefault = true :=
    List.mem_filter.mp (hs ▸ List.mem_singleton_self s)
  simp only [UpdaterService.resolveSoftware, hslug]
  cases hfind : d.toTables.findActiveDefault with
  | some s' => exact ⟨s', rfl⟩
  | none => exact absurd (List.find?_eq_none.mp hfind s hmem.1) (by simp [hmem.2, hactive])

/-! ## What the requests commit -/

/-- A new product, which is not the default. -/
theorem commit_insertSoftware {d d' : Db} {r : Software} (h : HasDefault d)
    (hd : Server.publish (D := cmsSchema) [.insertSoftware r] d = some d') :
    HasDefault d' ∧ SoftwareStays d d' := by
  have hrows : d'.software = d.software ++ [r] := congrArg _ (publish_one hd)
  refine ⟨?_, fun s hs => ⟨s, hrows ▸ List.mem_append_left _ hs, rfl⟩⟩
  obtain ⟨s, hs, hdefault⟩ := h
  exact ⟨s, hrows ▸ List.mem_append_left _ hs, hdefault⟩

/-- An update that leaves the keys of the products. -/
theorem stays_updateSoftware {d d' : Db} {p : Software → Bool} {f : Software → Software}
    (hf : ∀ s, (f s).id = s.id) (hrows : d'.software = (updateRows p f d.software).2) :
    SoftwareStays d d' := fun s hs => by
  refine ⟨if p s then f s else s, hrows ▸ List.mem_map_of_mem hs, ?_⟩
  split
  · exact hf s
  · rfl

/-- An update that leaves the flags of the products. -/
theorem commit_updateSoftware {d d' : Db} {p : Software → Bool} {f : Software → Software}
    (hid : ∀ s, (f s).id = s.id) (hflag : ∀ s, (f s).isDefault = s.isDefault) (h : HasDefault d)
    (hd : Server.publish (D := cmsSchema) [.updateSoftware p f] d = some d') :
    HasDefault d' ∧ SoftwareStays d d' := by
  have hrows : d'.software = (updateRows p f d.software).2 := congrArg _ (publish_one hd)
  refine ⟨?_, stays_updateSoftware hid hrows⟩
  obtain ⟨s, hs, hdefault⟩ := h
  refine ⟨if p s then f s else s, hrows ▸ List.mem_map_of_mem hs, ?_⟩
  split
  · rw [hflag, hdefault]
  · exact hdefault

/-- The flags after `setDefault`. -/
theorem commit_setDefault {d d' : Db} {id : Id} (h : ∃ s ∈ d.software, s.id = id)
    (hd : Server.publish (D := cmsSchema)
      [.updateSoftware (fun _ => true) fun s => { s with isDefault := false },
        .updateSoftware (·.id = id) fun s => { s with isDefault := true }] d = some d') :
    HasDefault d' ∧ SoftwareStays d d' := by
  have hrows : d'.software = (updateRows (fun s => decide (s.id = id))
      (fun s => { s with isDefault := true })
      (updateRows (fun _ => true) (fun s => { s with isDefault := false }) d.software).2).2 :=
    congrArg _ (publish_two hd)
  simp only [updateRows, List.map_map] at hrows
  refine ⟨?_, fun s hs => ?_⟩
  · obtain ⟨s, hs, rfl⟩ := h
    exact ⟨{ s with isDefault := true }, hrows ▸ List.mem_map.mpr ⟨s, hs, by simp⟩, rfl⟩
  · refine ⟨_, hrows ▸ List.mem_map_of_mem hs, ?_⟩
    simp only [Function.comp_apply, if_true]
    split <;> rfl

/-! ## The requests keep the terms -/

section requests

variable {ok : Guard cms} {i : ℕ}

/-- What a product request has to know: nothing when it starts and when it ends. -/
def KeepsDefault {α : Type} (ok : Guard cms) (i : ℕ) (p : Cms α) : Prop :=
  Triple ok defaultTerms.discipline i (Holds i none [] fun _ _ => True) p
    (fun _ => Holds i none [] fun _ _ => True) fun _ => Holds i none [] fun _ _ => True

/-- A transaction keeps the terms when what it has written, wherever it has found what it has, is a
proper change. -/
theorem keepsDefault_transaction {α : Type} {p : Cms α} {B : List Write → Db → Prop}
    (hB : ∀ ws d d', SoftwareStays d d' → B ws d → B ws d')
    (hp : Triple ok defaultTerms.discipline i (Holds i (some []) [] fun _ _ => True) p
      (fun _ σ => ∃ ws ls, Holds i (some ws) ls (fun d _ => B ws d) σ)
      fun _ => Known i [] fun _ _ => True)
    (hs : ∀ ws d d', HasDefault d → B ws d → Server.publish (D := cmsSchema) ws d = some d' →
      HasDefault d' ∧ SoftwareStays d d') :
    KeepsDefault ok i (transaction p) := by
  refine triple_transaction (D := cmsSchema) (R := fun _ _ => True) (B := fun _ ws _ d _ => B ws d)
    (C := fun _ _ _ => True) (.const _) (.const _) (fun _ ws _ _ _ hr _ _ h => hB ws _ _ hr h)
    (fun _ => .const _) (fun _ _ _ => trivial) (fun _ _ _ _ _ _ => trivial) hp ?_
  intro a ws ls σ φ d hi htx _ hb _ hd
  obtain ⟨hdefault, hstays⟩ := hs ws _ d hi hb hd
  exact ⟨hdefault, hstays, trivial, fun _ => trivial⟩

/-- A move that publishes nothing. -/
theorem defaultTerms_silent {σ : CmsState} {srv : Server cmsSchema} {w : CmsWorld}
    (hi : defaultTerms.inv σ) (hdb : srv.db = σ.server.db) :
    defaultTerms.inv ⟨srv, w⟩ ∧ defaultTerms.guar i σ ⟨srv, w⟩ :=
  committed_silent (X := cmsWorld) hi hdb

/-- Nothing has to be known. -/
theorem known_nothing {σ : CmsState} : Known i [] (fun (_ : Db) (_ : CmsWorld) => True) σ :=
  fun _ => ⟨by simp, trivial⟩

/-- A write within a transaction. -/
theorem keepsDefault_write {α : Type} {ws : List Write} {w : Write} {rows : List cmsSchema.Row}
    {A : Db → CmsWorld → Prop} {k : ℕ → Cms α} {Q : α → CmsState → Prop}
    (hA : defaultTerms.Fact i rows A)
    (hk : ∀ n, Triple ok defaultTerms.discipline i (Holds i (some (ws ++ [w])) rows A) (k n) Q
      fun _ => Known i [] fun _ _ => True) :
    Triple ok defaultTerms.discipline i (Holds i (some ws) rows A) (Cms.exec w >>= k) Q
      fun _ => Known i [] fun _ _ => True :=
  triple_write (D := cmsSchema) hA
    (fun _ hi htx _ _ _ => defaultTerms_silent hi (Server.record_db_of_some htx))
    (fun _ _ _ => known_nothing) hk

/-- The end of a transaction that reads a row again. -/
theorem keepsDefault_reload {ws : List Write} {rows : List cmsSchema.Row} {A : Db → CmsWorld → Prop}
    {B : List Write → Db → Prop} {f : Tables → Option Software} (hA : defaultTerms.Fact i rows A)
    (hB : ∀ d w, A d w → B ws d) :
    Triple ok defaultTerms.discipline i (Holds i (some ws) rows A) (Cms.select f >>= Cms.orFail)
      (fun _ σ => ∃ ws ls, Holds i (some ws) ls (fun d _ => B ws d) σ)
      fun _ => Known i [] fun _ _ => True := by
  refine triple_select_any hA (fun _ _ _ => known_nothing) fun found => ?_
  cases found with
  | none => exact .fail hA.stable fun _ _ => known_nothing
  | some s => exact .ret hA.stable fun _ h => ⟨ws, rows, h.mono hB⟩

theorem keepsDefault_freeSlug (baseSlug : String) (fuel : ℕ) (slug : String) (suffix : ℕ) :
    Triple ok defaultTerms.discipline i (Holds i (some []) [] fun _ _ => True)
      (SoftwareService.freeSlug baseSlug fuel slug suffix)
      (fun _ => Holds i (some []) [] fun _ _ => True) fun _ => Known i [] fun _ _ => True := by
  induction fuel generalizing slug suffix with
  | zero => exact triple_halt
  | succ fuel ih =>
    refine triple_select_any (.const _) (fun _ _ h => h.2) fun taken => ?_
    split
    · exact ih _ _
    · exact .ret (Terms.Fact.stable (.const _)) fun _ h => h

/-- `create` adds a product. -/
theorem keepsDefault_create (node : Node) (fuel : ℕ) (input : Input) :
    KeepsDefault ok i (SoftwareService.create node fuel input) := by
  refine triple_refuse (.const _) (fun _ _ h => h) fun _ => ?_
  refine keepsDefault_transaction (B := fun ws _ => ∃ r, ws = [Write.insertSoftware r])
    (fun _ _ _ _ h => h) ?_ ?_
  · refine triple_advisory (D := cmsSchema) (.const _) (fun _ _ _ => known_nothing) ?_
    refine .bind (defaultTerms.discipline_refl i) (keepsDefault_freeSlug _ fuel _ 1) fun slug => ?_
    refine triple_call (B := fun _ _ _ => True) (.const _) (fun σ o r w hi _ _ _ => ?_) fun id => ?_
    · have hsame : σ.server.db = σ.server.db := rfl
      obtain ⟨hi₂, hg⟩ := defaultTerms_silent (w := w) hi hsame
      exact ⟨hi₂, hg, trivial⟩
    · refine keepsDefault_write (.const _) fun _ => ?_
      exact .ret (Terms.Fact.stable (.const _)) fun σ h => ⟨_, [], h.mono fun _ _ _ => ⟨_, rfl⟩⟩
  · rintro ws d d' h ⟨r, rfl⟩ hd
    exact commit_insertSoftware h hd

/-- `toggleActive` leaves the flags as they are. -/
theorem keepsDefault_toggleActive (id : Id) :
    KeepsDefault ok i (SoftwareService.toggleActive id) := by
  refine keepsDefault_transaction
    (B := fun ws _ => ∃ b, ws = [Write.updateSoftware (·.id = id) fun s => { s with isActive := b }])
    (fun _ _ _ _ h => h) ?_ ?_
  · refine triple_selectForUpdate (B := fun _ _ _ _ => True) (.const _) (fun _ _ _ h => h)
      (fun _ _ _ => known_nothing) fun found software => ?_
    cases software with
    | none => exact .fail (Terms.Fact.stable (.const _)) fun _ _ => known_nothing
    | some software =>
      refine triple_refuse (.const _) (fun _ _ _ => known_nothing) fun _ => ?_
      exact keepsDefault_write (.const _) fun _ =>
        keepsDefault_reload (.const _) fun _ _ _ => ⟨!software.isActive, rfl⟩
  · rintro ws d d' h ⟨b, rfl⟩ hd
    exact commit_updateSoftware (f := fun s => { s with isActive := b }) (fun _ => rfl)
      (fun _ => rfl) h hd

/-- `setDefault` clears every flag and sets the one of a product that it has found. -/
theorem keepsDefault_setDefault (id : Id) :
    KeepsDefault ok i (SoftwareService.setDefault id) := by
  refine keepsDefault_transaction
    (B := fun ws d => (∃ s ∈ d.software, s.id = id) ∧
      ws = [Write.updateSoftware (fun _ => true) fun s => { s with isDefault := false },
        .updateSoftware (·.id = id) fun s => { s with isDefault := true }])
    ?_ ?_ ?_
  · rintro ws d d' hstays ⟨⟨s, hs, rfl⟩, hws⟩
    exact ⟨hstays s hs, hws⟩
  · refine triple_advisory (D := cmsSchema) (.const _) (fun _ _ _ => known_nothing) ?_
    refine triple_selectForUpdate (B := fun _ activeRows d _ =>
        activeRows.any (fun row => row.id = id) = true → ∃ s ∈ d.software, s.id = id) (.const _) ?_
      (fun _ _ _ => known_nothing) fun found activeRows => ?_
    · intro found σ _ _ hany
      obtain ⟨s, hs, hid⟩ := List.any_eq_true.mp hany
      exact ⟨s, (List.mem_filter.mp hs).1, of_decide_eq_true hid⟩
    · have hfact : ∀ ls, defaultTerms.Fact i ls fun d _ =>
          activeRows.any (fun row => row.id = id) = true → ∃ s ∈ d.software, s.id = id :=
        fun ls _ _ hr _ _ h hany => by
          obtain ⟨s, hs, hid⟩ := h hany
          obtain ⟨s', hs', hid'⟩ := hr s hs
          exact ⟨s', hs', hid'.trans hid⟩
      refine triple_refuse (hfact _) (fun _ _ _ => known_nothing) fun htarget => ?_
      refine keepsDefault_write (hfact _) fun _ => keepsDefault_write (hfact _) fun _ => ?_
      exact keepsDefault_reload (hfact _) fun d _ h => ⟨h (not_not.mp htarget), rfl⟩
  · rintro ws d d' h ⟨hid, rfl⟩ hd
    exact commit_setDefault hid hd

end requests

/-! ## Runs -/

/-- A request that selects or switches products. -/
inductive ProductRequest
  | create (fuel : ℕ) (name : Input)
  | toggleActive (id : Id)
  | setDefault (id : Id)

/-- The program of a request. -/
def ProductRequest.program (node : Node) : ProductRequest → Cms Software
  | create fuel name => SoftwareService.create node fuel name
  | toggleActive id => SoftwareService.toggleActive id
  | setDefault id => SoftwareService.setDefault id

/-- The requests on a database. -/
def productRequests (node : Node) (rs : List ProductRequest) (d : Db) (w : CmsWorld) :
    Config cms (Failure String) Software :=
  ⟨⟨Server.idle d, w⟩, rs.map (·.program node)⟩

/-- From a database with a default product on, every run of `create`, `toggleActive` and `setDefault`
leaves exactly one default product, which is active, and the updater finds a product without a
slug. -/
theorem default_product (node : Node) {rs : List ProductRequest} {d : Db} {w : CmsWorld}
    (h : ∃ s, d.software.filter (·.isDefault) = [s]) {c : Config cms (Failure String) Software}
    (hr : Config.Run (Guard.always cms) (productRequests node rs d w) c) :
    (∃ s, c.state.server.db.software.filter (·.isDefault) = [s] ∧ s.isActive = true) ∧
      ∀ slug : Option String, slug.filter (· ≠ "") = none →
        ∃ s, UpdaterService.resolveSoftware c.state.server.db.toTables slug = .ok s := by
  have hstart : HasDefault d := by
    obtain ⟨s, hs⟩ := h
    exact ⟨s, List.mem_filter.mp (hs ▸ List.mem_singleton_self s)⟩
  have hinv : HasDefault c.state.server.db := by
    refine Terms.run_inv (T := defaultTerms) hstart (fun i p hp => ?_) hr
    obtain ⟨r, -, rfl⟩ := List.mem_map.mp hp
    have hkeeps : KeepsDefault (Guard.always cms) i (r.program node) := by
      cases r with
      | create fuel name => exact keepsDefault_create node fuel name
      | toggleActive id => exact keepsDefault_toggleActive id
      | setDefault id => exact keepsDefault_setDefault id
    exact hkeeps.mono (fun _ h => h) (fun _ _ _ => trivial) fun _ _ _ => trivial
  exact ⟨hinv.unique, fun _ => hinv.resolve⟩

/-- The tables of two products. -/
def productPair : Tables where
  software := [⟨"p", "P", "p", true, true, false⟩, ⟨"q", "Q", "q", true, false, false⟩]
  signingKeys := []
  versions := []
  platforms := []
  architectures := []
  storageProviders := []
  artifacts := []
  reservations := []

/-- The second product becomes the default while the first one is about to. -/
theorem default_product_example :
    ∃ c, Config.Run (Guard.always cms) (productRequests toyNode [.setDefault "p", .setDefault "q"]
        ⟨productPair, by decide +kernel⟩ emptyWorld) c ∧
      (c.state.server.db.software.map fun s => (s.id, s.isDefault)) = [("p", false), ("q", true)] ∧
      (∃ s, c.state.server.db.software.filter (·.isDefault) = [s] ∧ s.isActive = true) := by
  have h : ((productRequests toyNode [.setDefault "p", .setDefault "q"]
      ⟨productPair, by decide +kernel⟩ emptyWorld).follow (fun _ _ _ _ => true)
        (.thread 0 (.db .none) :: List.replicate 9 (.thread 1 (.db .none)))).any
      (fun c => decide ((c.state.server.db.software.map fun s => (s.id, s.isDefault)) =
        [("p", false), ("q", true)])) = true := by
    decide +kernel
  obtain ⟨c, hc, hs⟩ := Config.reached_of_follow (G := Guard.always cms)
    (fun _ _ _ _ _ => trivial) h
  exact ⟨c, hc, of_decide_eq_true hs, (default_product toyNode ⟨_, rfl⟩ hc).1⟩

end Reeva
