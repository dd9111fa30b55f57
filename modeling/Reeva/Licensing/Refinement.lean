import Reeva.Licensing.Accounts

/-!
# The licence service keeps accounts

In every run of requests, whoever publishes something has the effect of its request on one account
(`orderly`). What a request learned about a licence is still so when it commits, because it holds the
licence's row; so the writes of its transaction come to a change of that account (`Plan.moves`).
-/

open Interleaving ReadCommitted

namespace Reeva.Licensing

open LicenseService

/-! ## Writes -/

/-- A write that concerns settings only. -/
def OnSettings : Write → Prop
  | .insertSetting _ => True
  | .saveSetting _ _ => True
  | _ => False

/-- The write that changes the activations of a licence, if there is one. -/
inductive ActivationWrite (l : License) (acts : List LicenseActivation) :
    List Write → List LicenseActivation → Prop
  | none : ActivationWrite l acts [] acts
  | insert {a : LicenseActivation} (h : a.licenseId = some l.id) :
    ActivationWrite l acts [.insertActivation a] (acts ++ [a])
  | delete {a : LicenseActivation} (h : a ∈ acts) :
    ActivationWrite l acts [.deleteActivation a.id] (acts.filter (·.id ≠ a.id))

/-- The writes of a request that changes the account of `l`. -/
def Plan (rt : Runtime) (q : Request) (l : License) (acts : List LicenseActivation)
    (ws : List Write) : Prop :=
  ∃ (ss ms : List Write) (n : License) (acts' : List LicenseActivation),
    ws = ss ++ (ms ++ [.saveLicense l n]) ∧ (∀ w ∈ ss, OnSettings w) ∧
      ActivationWrite l acts ms acts' ∧ Change rt l acts q n acts'

/-- What stands behind the row of a licence: the licence and its activations. -/
def part : Row → Db → List License × List LicenseActivation
  | .columns .licenses id, d => (d.licenses.filter (·.id = id), d.activationsOf id)
  | _, _ => ([], [])

section writes

variable {rt : Runtime} {q : Request} {l n : License} {acts acts' : List LicenseActivation}
  {d d' : Db} {ws : List Write}

/-- Writes to settings leave the accounts. -/
theorem publish_settings (hws : ∀ w ∈ ws, OnSettings w)
    (h : Server.publish (D := schema) ws d = some d') :
    d'.licenses = d.licenses ∧ d'.activations = d.activations := by
  induction ws generalizing d with
  | nil =>
    cases h
    exact ⟨rfl, rfl⟩
  | cons w ws ih =>
    obtain ⟨d₁, hrun, h₂⟩ := publish_cons h
    obtain ⟨hl, ha⟩ := ih (fun w hw => hws w (List.mem_cons_of_mem _ hw)) h₂
    have hw := hws w (List.mem_cons_self ..)
    have hstep : d₁.licenses = d.licenses ∧ d₁.activations = d.activations := by
      cases w with
      | insertSetting r => exact ⟨by rw [hrun]; rfl, by rw [hrun]; rfl⟩
      | saveSetting l n => exact ⟨by rw [hrun]; rfl, by rw [hrun]; rfl⟩
      | _ => exact hw.elim
    exact ⟨hl.trans hstep.1, ha.trans hstep.2⟩

/-- The write to the activations concerns those of the licence only. -/
theorem publish_activations (h : ActivationWrite l acts ws acts')
    (hacts : d.activationsOf l.id = acts)
    (hp : Server.publish (D := schema) ws d = some d') :
    d'.licenses = d.licenses ∧ d'.activationsOf l.id = acts' ∧
      d'.activations.filter (fun a => !(a.licenseId = some l.id : Bool)) =
        d.activations.filter fun a => !(a.licenseId = some l.id : Bool) := by
  cases h with
  | none =>
    cases hp
    exact ⟨rfl, hacts, rfl⟩
  | @insert a hid =>
    obtain ⟨d₁, hrun, h₂⟩ := publish_cons hp
    cases h₂
    have ha : d'.activations = d.activations ++ [a] := by rw [hrun]; rfl
    refine ⟨by rw [hrun]; rfl, ?_, ?_⟩
    · rw [Tables.activationsOf, ha, List.filter_append, ← Tables.activationsOf, hacts]
      simp [hid]
    · rw [ha, List.filter_append]
      simp [hid]
  | @delete a hmem =>
    obtain ⟨d₁, hrun, h₂⟩ := publish_cons hp
    cases h₂
    have ha : d'.activations = d.activations.filter fun b => !(b.id = a.id : Bool) := by
      rw [hrun]; rfl
    refine ⟨by rw [hrun]; rfl, ?_, ?_⟩
    · rw [Tables.activationsOf, ha, List.filter_filter, ← hacts, Tables.activationsOf,
        List.filter_filter]
      exact List.filter_congr fun b _ => by simp [Bool.and_comm]
    · rw [ha, List.filter_filter]
      refine List.filter_congr fun b hb => ?_
      -- The row that goes is one of the licence, and no other has its key.
      by_cases hba : b.id = a.id
      · rw [← hacts, Tables.activationsOf, List.mem_filter] at hmem
        obtain rfl := List.inj_on_of_nodup_map d.valid.activationIds hb hmem.1 hba
        simp [hmem.2]
      · simp [hba]

/-- A transaction that goes by the plan, with the account as it was read, has the effect of its
request. -/
theorem Plan.moves (h : Plan rt q l acts ws)
    (hpart : part (.columns .licenses l.id) d = ([l], acts))
    (hp : Server.publish (D := schema) ws d = some d') :
    l ∈ d.licenses ∧ ∃ n acts', Change rt l (d.activationsOf l.id) q n acts' ∧
      Moves l n acts' d d' := by
  obtain ⟨ss, ms, n, acts', rfl, hss, hms, hc⟩ := h
  obtain ⟨hl, ha⟩ := Prod.mk.inj hpart
  obtain ⟨d₁, h₁, hp⟩ := publish_append hp
  obtain ⟨hl₁, ha₁⟩ := publish_settings hss h₁
  obtain ⟨d₂, h₂, hp⟩ := publish_append hp
  have hof : d₁.activationsOf l.id = acts := by
    rw [Tables.activationsOf, ha₁]
    exact ha
  obtain ⟨hl₂, hacts₂, hothers₂⟩ := publish_activations hms hof h₂
  obtain ⟨d₃, hrun, h₃⟩ := publish_cons hp
  cases h₃
  have ha₃ : d'.activations = d₂.activations := by rw [hrun]; rfl
  have hmem : ∀ r ∈ d.licenses, r.id = l.id → r = l := fun r hr hid => by
    have : r ∈ d.licenses.filter (·.id = l.id) := List.mem_filter.mpr ⟨hr, by simpa using hid⟩
    rw [hl] at this
    exact List.mem_singleton.mp this
  have hin : l ∈ d.licenses := by
    have : l ∈ d.licenses.filter (·.id = l.id) := by
      rw [hl]
      exact List.mem_singleton_self l
    exact (List.mem_filter.mp this).1
  refine ⟨hin, n, acts', ha.symm ▸ hc, ?_, ?_, ?_⟩
  · have hl₃ : d'.licenses = d₂.licenses.map
        fun r => if (r.id = l.id : Bool) then l.saveOnto n r else r := by rw [hrun]; rfl
    rw [hl₃, hl₂, hl₁]
    refine List.map_congr_left fun r hr => ?_
    by_cases hid : r.id = l.id
    · rw [hmem r hr hid]
      simp [License.saveOnto_self l n hc.id_eq]
    · simp [hid]
  · rw [Tables.activationsOf, ha₃]
    exact hacts₂
  · rw [ha₃, hothers₂, ha₁]

/-- To replace a row is to leave the rows with another identifier. -/
theorem filter_replace (hid : n.id = l.id) {id : Id} (hne : id ≠ l.id) (rows : List License) :
    (rows.map fun r => if r.id = l.id then n else r).filter (·.id = id) =
      rows.filter (·.id = id) := by
  induction rows with
  | nil => rfl
  | cons r rows ih =>
    rw [List.map_cons, List.filter_cons, List.filter_cons, ih]
    by_cases h : r.id = l.id
    · simp [h, hid, Ne.symm hne]
    · simp [h]

/-- Whoever changes the account of one licence leaves what stands behind the others' rows. -/
theorem Moves.part_eq (h : Moves l n acts d d') (hid : n.id = l.id) {r : Row}
    (hr : r ≠ .columns .licenses l.id) : part r d' = part r d := by
  cases r with
  | columns table id =>
    cases table with
    | licenses =>
      have hne : id ≠ l.id := fun he => hr (by rw [he])
      refine Prod.ext ?_ (h.activationsOf_ne hne)
      simp only [part, h.licenses]
      exact filter_replace hid hne _
    | _ => rfl
  | _ => rfl

end writes

/-! ## Rules -/

/-- The terms of the service: a licence's row protects its account. -/
abbrev terms : Terms schema world := rowTerms world part

/-- What request `i` of a list may publish. -/
def Publishable (rt : Runtime) (requests : List Request) (i : ℕ) (σ σ' : State) : Prop :=
  ∃ q, requests[i]? = some q ∧ Effect rt q σ.server.db σ'.server.db

section rules

variable {ok : Guard machine} {G : ℕ → State → State → Prop} {i : ℕ} {α β : Type}
  {rows : List Row} {A : Db → ℕ → Prop} {tx : Option (List Write)} {ws : List Write}
  {Q : α → State → Prop}

/-- Nothing is said about a request that fails within its transaction. -/
abbrev Failed (i : ℕ) : Failure String → State → Prop := fun _ => Known (D := schema) i [] fun _ _ => True

theorem failed (e : Failure String) (σ : State) : Failed i e σ := fun _ => ⟨by simp, trivial⟩

theorem triple_raise {message : String} (hA : terms.Fact i rows A) :
    Triple ok (terms.committing G) i (Holds i tx rows A) (raise message : Program α) Q (Failed i) :=
  .fail (hA.stable_committing _) fun _ _ => failed _ _

theorem triple_ret {a : α} (hA : terms.Fact i rows A)
    (h : ∀ σ, Holds (D := schema) i tx rows A σ → Q a σ) :
    Triple ok (terms.committing G) i (Holds i tx rows A) (.ret a : Program α) Q (Failed i) := by
  apply Triple.ret
  · exact hA.stable_committing G
  · exact h

theorem triple_refuse {c : Prop} [Decidable c] {message : String} {k : Unit → Program α}
    (hA : terms.Fact i rows A)
    (hk : ¬c → Triple ok (terms.committing G) i (Holds i tx rows A) (k ()) Q (Failed i)) :
    Triple ok (terms.committing G) i (Holds i tx rows A) ((refuse c message).bind k) Q
      (Failed i) := by
  unfold refuse
  split
  · exact triple_raise hA
  · exact hk ‹¬c›

theorem triple_orThrow {e : Except String β} {k : β → Program α} (hA : terms.Fact i rows A)
    (hk : ∀ b, e = .ok b →
      Triple ok (terms.committing G) i (Holds i tx rows A) (k b) Q (Failed i)) :
    Triple ok (terms.committing G) i (Holds i tx rows A) ((orThrow e).bind k) Q (Failed i) := by
  cases e with
  | ok b => exact hk b rfl
  | error m => exact triple_raise hA

theorem triple_call {c : Call} {k : c.Res → Program α} (hA : terms.Fact i rows A)
    (hworld : ∀ d w w', A d w → A d w')
    (hk : ∀ r, Triple ok (terms.committing G) i (Holds i tx rows A) (k r) Q (Failed i)) :
    Triple ok (terms.committing G) i (Holds i tx rows A) ((call c).bind k) Q (Failed i) := by
  refine committing_ext (D := schema) (X := world) (B := fun _ => A) hA ?_ hk
  exact fun σ o r w _ ha _ _ => ⟨trivial, fun _ _ => ⟨id, fun _ _ h => ⟨h, rfl⟩⟩, hworld _ _ _ ha⟩

theorem triple_select {f : Tables → β} {k : β → Program α} {B : β → Db → ℕ → Prop}
    (hA : terms.Fact i rows A)
    (hB : ∀ σ : State, A σ.server.db σ.world →
      B (f (Db.toTables (Server.applyAll (D := schema) (tx.getD []) σ.server.db)))
        σ.server.db σ.world)
    (hk : ∀ b, Triple ok (terms.committing G) i (Holds i tx rows (B b)) (k b) Q (Failed i)) :
    Triple ok (terms.committing G) i (Holds i tx rows A) ((select f).bind k) Q (Failed i) :=
  committing_query (D := schema) (X := world) hA (fun σ _ ha => hB σ ha) (fun _ _ _ => failed _ _) hk

/-- A query about which nothing is remembered. -/
theorem triple_select_any {f : Tables → β} {k : β → Program α} (hA : terms.Fact i rows A)
    (hk : ∀ b, Triple ok (terms.committing G) i (Holds i tx rows A) (k b) Q (Failed i)) :
    Triple ok (terms.committing G) i (Holds i tx rows A) ((select f).bind k) Q (Failed i) :=
  triple_select (B := fun _ => A) hA (fun _ h => h) hk

theorem triple_exec {w : Write} {k : ℕ → Program α} (hA : terms.Fact i rows A)
    (hk : ∀ n, Triple ok (terms.committing G) i (Holds i (some (ws ++ [w])) rows A) (k n) Q
      (Failed i)) :
    Triple ok (terms.committing G) i (Holds i (some ws) rows A) ((exec w).bind k) Q (Failed i) :=
  committing_write (D := schema) (X := world) hA
    (fun _ _ htx _ _ hfree => ⟨trivial, rowTerms_write htx hfree⟩) (fun _ _ _ => failed _ _) hk

/-- A lock, of which the program keeps the rows that it needs. -/
theorem triple_lock_any {ls : List (Row × Mode)} {k : Unit → Program α} (hA : terms.Fact i rows A)
    (hk : Triple ok (terms.committing G) i (Holds i tx rows A) (k ()) Q (Failed i)) :
    Triple ok (terms.committing G) i (Holds i tx rows A) ((db (D := schema) (.lock ls)).bind k) Q
      (Failed i) := by
  refine committing_lock (D := schema) (X := world) hA (fun _ _ _ => failed _ _)
    (hk.mono (fun σ h => ⟨h.1, h.2.mono (fun r hr => List.mem_append_right _ hr) fun _ _ => id⟩)
      (fun _ _ h => h) fun _ _ h => h)

end rules

/-! ## Requests -/

section requests

variable {rt : Runtime} {ok : Guard machine} {G : ℕ → State → State → Prop} {i : ℕ} {α : Type}

/-- The account of a licence that a request named, as the request read it. -/
def Account (rt : Runtime) (id : String) (l : License) (acts : List LicenseActivation) (d : Db) :
    Prop :=
  rt.parseUuid id = some l.id ∧ l.deletedAt = none ∧ part (.columns .licenses l.id) d = ([l], acts)

theorem account_fact (rt : Runtime) (id : String) (l : License) (acts : List LicenseActivation) :
    terms.Fact i [.columns .licenses l.id] fun d _ => Account rt id l acts d :=
  (Terms.Fact.const _).and ((Terms.Fact.const _).and
    (rowTerms_fact (D := schema) (.columns .licenses l.id) (· = ([l], acts))))

theorem someAccount_fact (rt : Runtime) (id : String) (l : License) :
    terms.Fact i [.columns .licenses l.id] fun d _ => ∃ acts, Account rt id l acts d := by
  rintro σ σ' hr hg hrows ⟨acts, h⟩
  exact ⟨acts, account_fact rt id l acts σ σ' hr hg hrows h⟩

/-- A licence that is read while its row is held stays so. -/
theorem lockLicense_spec (id : String) :
    Triple ok (terms.committing G) i (Holds i (some []) [] fun _ _ => True) (lockLicense rt id)
      (fun l => Holds i (some []) [.columns .licenses l.id] fun d _ => ∃ acts, Account rt id l acts d)
      (Failed i) := by
  unfold lockLicense
  have htrue : ∀ {rows : List Row}, terms.Fact i rows fun _ _ => True := fun {_} => .const _
  cases hid : rt.parseUuid id with
  | none => exact triple_raise htrue
  | some uuid =>
    refine triple_select_any htrue fun found => ?_
    refine committing_lock (D := schema) (X := world) htrue (fun _ _ _ => failed _ _) ?_
    refine triple_select (B := fun o d _ => ∀ l, o = some l →
      l.id ∈ found ∧ ∃ acts, Account rt id l acts d) htrue ?_ fun o => ?_
    · rintro σ - l hl
      obtain ⟨hf, hc⟩ := Option.filter_eq_some_iff.mp hl
      have hmem := List.mem_of_find?_eq_some hf
      have hp := List.find?_some hf
      simp only [Bool.and_eq_true, decide_eq_true_eq, Option.isNone_iff_eq_none] at hp
      refine ⟨by simpa using hc, _, hid.trans (congrArg some hp.1.symm), hp.2, Prod.ext ?_ rfl⟩
      exact Db.filter_id hmem
    · cases o with
      | none =>
        refine .fail (Terms.Fact.stable_committing G ?_) fun _ _ => failed _ _
        exact fun _ _ _ _ _ _ l hl => by cases hl
      | some l =>
        -- The row that was locked is the one that is read, so the fact may be kept with that row.
        have hret : Triple ok (terms.committing G) i
            (Holds i (some []) [.columns .licenses l.id] fun d _ => ∃ acts, Account rt id l acts d)
            (.ret l : Program License)
            (fun l => Holds i (some []) [.columns .licenses l.id]
              fun d _ => ∃ acts, Account rt id l acts d) (Failed i) :=
          triple_ret (someAccount_fact rt id l) fun _ h => h
        refine hret.mono (fun σ h => ⟨h.1, fun hg => ?_⟩) (fun _ _ h => h) fun _ _ h => h
        obtain ⟨hrows, hread⟩ := h.2 hg
        obtain ⟨hfound, hacc⟩ := hread l rfl
        refine ⟨fun r hr => hrows r ?_, hacc⟩
        rw [List.mem_singleton.mp hr, List.append_nil, mem_alone]
        simp [Row.forUpdate, hfound]

/-- Settings are written to the end of a transaction. -/
def ThenSettings (i : ℕ) (ws : List Write) (rows : List Row) (A : Db → ℕ → Prop) (σ : State) :
    Prop :=
  ∃ ss, (∀ w ∈ ss, OnSettings w) ∧ Holds (D := schema) i (some (ws ++ ss)) rows A σ

theorem updateOrCreateSetting_spec {rows : List Row} {A : Db → ℕ → Prop} {ws : List Write}
    (key value : String) (hA : terms.Fact i rows A) (hworld : ∀ d w w', A d w → A d w') :
    Triple ok (terms.committing G) i (Holds i (some ws) rows A) (updateOrCreateSetting key value)
      (fun _ => ThenSettings i ws rows A) (Failed i) := by
  unfold updateOrCreateSetting
  refine triple_select_any hA fun found => triple_lock_any hA ?_
  refine triple_select_any hA fun setting => ?_
  cases setting with
  | some setting =>
    refine triple_exec hA fun _ => triple_ret hA fun σ h => ⟨_, ?_, h⟩
    simp [OnSettings]
  | none =>
    refine triple_call hA hworld fun id => triple_exec hA fun _ =>
      triple_ret hA fun σ h => ⟨_, ?_, h⟩
    simp [OnSettings]

/-- The signing key costs settings only. -/
theorem getPrivateKey_spec {rows : List Row} {A : Db → ℕ → Prop} (hA : terms.Fact i rows A)
    (hworld : ∀ d w w', A d w → A d w') :
    Triple ok (terms.committing G) i (Holds i (some []) rows A) getPrivateKey
      (fun _ => ThenSettings i [] rows A) (Failed i) := by
  have nothing : ∀ σ, Holds i (some []) rows A σ → ThenSettings i [] rows A σ :=
    fun σ h => ⟨[], by simp, h⟩
  unfold getPrivateKey
  refine committing_advisory (D := schema) (X := world) hA (fun _ _ _ => failed _ _) ?_
  refine triple_select_any hA fun setting => ?_
  cases setting with
  | some setting =>
    dsimp only
    cases setting.value with
    | some value => exact triple_ret hA fun σ h => nothing σ h
    | none => exact triple_raise hA
  | none =>
    refine triple_call hA hworld fun keys => triple_call hA hworld fun id => ?_
    refine triple_exec hA fun _ => ?_
    refine .bind (terms.discipline_refl i) (updateOrCreateSetting_spec _ _ hA hworld) fun _ => ?_
    rintro σ hi ⟨ss, hss, h⟩
    refine triple_ret hA (fun σ h => ⟨_, ?_, h⟩) σ hi h
    rintro w hw
    rcases List.mem_cons.mp hw with rfl | hw
    · trivial
    · exact hss w hw

/-- Where the transaction of a request stands when it commits. -/
def Prepared (rt : Runtime) (q : Request) (id : String) (ws : List Write) (rows : List Row)
    (d : Db) : Prop :=
  ∃ l acts, rows = [.columns .licenses l.id] ∧ Account rt id l acts d ∧ Plan rt q l acts ws

theorem prepared_fact (q : Request) (id : String) (ws : List Write) (rows : List Row) :
    terms.Fact i rows fun d _ => Prepared rt q id ws rows d := by
  rintro σ σ' hr hg hrows ⟨l, acts, rfl, hacc, hplan⟩
  exact ⟨l, acts, rfl, account_fact rt id l acts σ σ' hr hg hrows hacc, hplan⟩

/-- A transaction whose writes go by the plan has the effect of its request. -/
theorem transaction_spec {q : Request} (id : String) {p : Program α}
    (hq : q.target rt = rt.parseUuid id) (hcreate : ∀ data, q ≠ .createLicense data)
    (hG : ∀ σ σ' : State, Effect rt q σ.server.db σ'.server.db → G i σ σ')
    (hp : Triple ok (terms.committing G) i (Holds i (some []) [] fun _ _ => True) p
      (fun _ σ => ∃ ws rows, Holds i (some ws) rows (fun d _ => Prepared rt q id ws rows d) σ)
      (Failed i)) :
    Triple ok (terms.committing G) i (Holds i none [] fun _ _ => True) (transaction p)
      (fun _ => Holds i none [] fun _ _ => True) (Failed i) := by
  refine (committing_transaction (D := schema) (X := world) (R := fun _ _ => True)
    (B := fun _ ws rows d _ => Prepared rt q id ws rows d) (C := fun _ _ _ => True) (.const _)
    (.const _) (fun _ ws rows => prepared_fact q id ws rows) (fun _ => .const _)
    (fun _ _ _ => trivial) (fun _ _ _ _ _ _ => trivial) hp ?_).mono (fun _ h => h)
    (fun _ _ h => h) fun _ _ _ => failed _ _
  rintro - ws - σ φ d - - hrows ⟨l, acts, rfl, ⟨hid, hlive, hpart⟩, hplan⟩ - hd
  obtain ⟨hmem, n, acts', hc, hm⟩ := hplan.moves hpart hd
  refine ⟨trivial, rowTerms_commit fun r hr => ?_, hG _ _ ?_, trivial, fun _ => trivial⟩
  · exact hm.part_eq hc.id_eq fun he => hr (he ▸ hrows _ (List.mem_singleton_self _))
  · cases q with
    | createLicense data => exact absurd rfl (hcreate data)
    | _ => exact ⟨l, hmem, hq.trans hid, hlive, n, acts', hc, hm⟩

/-- A request that only saves the licence. -/
theorem saved {q : Request} {id : String} {l n : License} {σ : State}
    (hc : ∀ acts, Change rt l acts q n acts)
    (h : Holds (D := schema) i (some [.saveLicense l n]) [.columns .licenses l.id]
      (fun d _ => ∃ acts, Account rt id l acts d) σ) :
    ∃ ws rows, Holds (D := schema) i (some ws) rows (fun d _ => Prepared rt q id ws rows d) σ :=
  ⟨_, _, h.mono fun _ _ ⟨acts, hacc⟩ =>
    ⟨l, acts, rfl, hacc, [], [], n, acts, rfl, by simp, .none, hc acts⟩⟩

theorem triple_refuseExpired {l : License} {rows : List Row} {A : Db → ℕ → Prop}
    {tx : Option (List Write)} {k : Unit → Program α} {Q : α → State → Prop}
    (hA : terms.Fact i rows A) (hworld : ∀ d w w', A d w → A d w')
    (hk : Triple ok (terms.committing G) i (Holds i tx rows A) (k ()) Q (Failed i)) :
    Triple ok (terms.committing G) i (Holds i tx rows A) ((refuseExpired l).bind k) Q (Failed i) := by
  unfold refuseExpired
  split
  · exact triple_call hA hworld fun now : ℤ => triple_refuse hA fun _ => hk
  · exact hk

section transactions

variable {q : Request} {id : String}

/-- What the specification of a request says of its transaction. -/
abbrev Spec (rt : Runtime) (ok : Guard machine) (G : ℕ → State → State → Prop) (i : ℕ) (q : Request)
    (p : Program α) : Prop :=
  (∀ σ σ' : State, Effect rt q σ.server.db σ'.server.db → G i σ σ') →
    Triple ok (terms.committing G) i (Holds i none [] fun _ _ => True) p
      (fun _ => Holds i none [] fun _ _ => True) (Failed i)

theorem updateLicense_spec (data : LicenseInput) :
    Spec rt ok G i (.updateLicense id data) (updateLicense rt id data) := by
  intro hG
  refine transaction_spec id rfl (fun _ => by simp) hG ?_
  refine .bind (terms.discipline_refl i) (lockLicense_spec id) fun l => ?_
  have hfact := fun {i : ℕ} => someAccount_fact (i := i) rt id l
  have hend : ∀ revokedAt : Option ℤ, (isRevoked data.status = true → revokedAt.isSome = true) →
      Triple ok (terms.committing G) i
        (Holds i (some []) [.columns .licenses l.id] fun d _ => ∃ acts, Account rt id l acts d)
        ((orThrow (merged rt data revokedAt l)).bind fun updated =>
          (exec (.saveLicense l updated)).bind fun _ => .ret updated)
        (fun _ σ => ∃ ws rows, Holds i (some ws) rows
          (fun d _ => Prepared rt (.updateLicense id data) id ws rows d) σ) (Failed i) :=
    fun revokedAt hr => triple_orThrow hfact fun n hn => triple_exec hfact fun _ =>
      triple_ret hfact fun σ h => saved (fun acts => .updateLicense hr hn) h
  split
  · exact triple_call hfact (fun _ _ _ h => h) fun now => hend (some now) fun _ => rfl
  · rename_i hcond
    refine hend l.revokedAt fun hr => ?_
    by_contra hnone
    exact hcond ⟨hr, by simpa using hnone⟩

theorem toggleLicense_spec : Spec rt ok G i (.toggleLicense id) (toggleLicense rt id) := by
  intro hG
  refine transaction_spec id rfl (fun _ => by simp) hG ?_
  refine .bind (terms.discipline_refl i) (lockLicense_spec id) fun l => ?_
  have hfact := fun {i : ℕ} => someAccount_fact (i := i) rt id l
  exact triple_exec hfact fun _ => triple_ret hfact fun σ h => saved (fun _ => .toggleLicense) h

theorem deleteLicense_spec : Spec rt ok G i (.deleteLicense id) (deleteLicense rt id) := by
  intro hG
  refine transaction_spec id rfl (fun _ => by simp) hG ?_
  refine .bind (terms.discipline_refl i) (lockLicense_spec id) fun l => ?_
  have hfact := fun {i : ℕ} => someAccount_fact (i := i) rt id l
  exact triple_call hfact (fun _ _ _ h => h) fun now => triple_exec hfact fun _ =>
    triple_ret hfact fun σ h => saved (fun _ => .deleteLicense) h

/-- The activations of a licence that are read while its row is held stay so. -/
theorem triple_activations {l : License} {k : List LicenseActivation → Program α}
    {Q : α → State → Prop}
    (hk : ∀ acts, Triple ok (terms.committing G) i
      (Holds i (some []) [.columns .licenses l.id] fun d _ => Account rt id l acts d) (k acts) Q
      (Failed i)) :
    Triple ok (terms.committing G) i
      (Holds i (some []) [.columns .licenses l.id] fun d _ => ∃ acts, Account rt id l acts d)
      ((select fun t => t.activationsOf l.id).bind k) Q (Failed i) := by
  refine triple_select (B := fun acts d _ => Account rt id l acts d) (someAccount_fact rt id l) ?_ hk
  rintro σ ⟨acts, hid, hlive, hpart⟩
  refine ⟨hid, hlive, Prod.ext (Prod.mk.inj hpart).1 rfl⟩

theorem issueActivationToken_spec (machineId : Input) :
    Spec rt ok G i (.issueActivationToken id machineId) (issueActivationToken rt id machineId) := by
  intro hG
  unfold issueActivationToken
  have htrue : terms.Fact i [] fun _ _ => True := .const _
  cases hm : checkMachineId machineId with
  | none =>
    apply Triple.fail
    · exact htrue.stable_committing G
    · exact fun _ _ => failed _ _
  | some m =>
    refine transaction_spec id rfl (fun _ => by simp) hG ?_
    refine .bind (terms.discipline_refl i) (lockLicense_spec id) fun l => ?_
    have hfact := fun {i : ℕ} => someAccount_fact (i := i) rt id l
    refine triple_refuse hfact fun hactive => ?_
    refine triple_refuseExpired hfact (fun _ _ _ h => h) ?_
    refine triple_activations fun acts => ?_
    have hacts := fun {i : ℕ} => account_fact (i := i) rt id l acts
    refine triple_refuse hacts fun hnew => triple_refuse hacts fun hlimit => ?_
    refine triple_call hacts (fun _ _ _ h => h) fun iat => ?_
    refine .bind (terms.discipline_refl i) (getPrivateKey_spec hacts fun _ _ _ h => h)
      fun privateKey => ?_
    rintro σ hi ⟨ss, hss, h⟩
    refine (triple_orThrow hacts fun signature _ => triple_call hacts (fun _ _ _ h => h) fun a =>
      triple_exec hacts fun _ => triple_exec hacts fun _ => triple_ret hacts fun σ h => ?_) σ hi h
    refine ⟨_, _, h.mono fun _ _ hacc => ⟨l, acts, rfl, hacc, ss,
      [.insertActivation ⟨a, some l.id, m⟩], _, _, ?_, hss, .insert rfl,
      .issueActivationToken hm (not_not.mp hactive) ?_ (not_le.mp hlimit)⟩⟩
    · simp
    · simpa using hnew

/-- What is left of the activations when one is deleted. -/
theorem count_deleted {l : License} {acts : List LicenseActivation} {d : Db} (a : Id)
    (h : Account rt id l acts d) :
    (Tables.activationsOf (Db.toTables (Server.applyAll (D := schema) [.deleteActivation a] d))
      l.id).length = (acts.filter (·.id ≠ a)).length := by
  have hvalid : (Write.run d.toTables (.deleteActivation a)).2.Valid :=
    { d.valid with
      activationIds := d.valid.activationIds.sublist (List.filter_sublist.map _)
      machineIds := fun b hb => d.valid.machineIds b (List.mem_filter.mp hb).1
      owned := fun b hb => d.valid.owned b (List.mem_filter.mp hb).1 }
  have happ : Db.toTables (Server.applyAll (D := schema) [.deleteActivation a] d) =
      (Write.run d.toTables (.deleteActivation a)).2 := by
    simp only [Server.applyAll, List.foldl_cons, List.foldl_nil, Server.applyOne, schema,
      dif_pos hvalid]
    rfl
  obtain ⟨-, -, hpart⟩ := h
  rw [happ, ← (Prod.mk.inj hpart).2]
  simp only [Tables.activationsOf, Write.run, List.filter_filter]
  refine congrArg List.length (List.filter_congr fun b _ => ?_)
  simp [Bool.and_comm]

theorem removeActivation_spec (activationId : String) :
    Spec rt ok G i (.removeActivation id activationId) (removeActivation rt id activationId) := by
  intro hG
  refine transaction_spec id rfl (fun _ => by simp) hG ?_
  refine .bind (terms.discipline_refl i) (lockLicense_spec id) fun l => ?_
  have hfact := fun {i : ℕ} => someAccount_fact (i := i) rt id l
  cases hid : rt.parseUuid activationId with
  | none => exact triple_raise hfact
  | some uuid =>
    refine triple_select (B := fun o d _ => ∃ acts, Account rt id l acts d ∧
      ∀ a, o = some a → a ∈ acts ∧ a.id = uuid) hfact ?_ fun o => ?_
    · rintro σ ⟨acts, hacc⟩
      refine ⟨acts, hacc, fun a ha => ?_⟩
      have hmem := List.mem_of_find?_eq_some ha
      rw [← (Prod.mk.inj hacc.2.2).2]
      exact ⟨hmem, by simpa using List.find?_some ha⟩
    · have hbound : ∀ {i : ℕ}, terms.Fact i [.columns .licenses l.id] fun d _ => ∃ acts,
          Account rt id l acts d ∧ ∀ a, o = some a → a ∈ acts ∧ a.id = uuid := by
        rintro i σ σ' hr hg hrows ⟨acts, hacc, ho⟩
        exact ⟨acts, account_fact rt id l acts σ σ' hr hg hrows hacc, ho⟩
      cases o with
      | none => exact triple_raise hbound
      | some a =>
        refine triple_exec hbound fun _ => ?_
        refine triple_select (B := fun (count : ℕ) d _ => ∃ acts, Account rt id l acts d ∧
          a ∈ acts ∧ a.id = uuid ∧ count = (acts.filter (·.id ≠ a.id)).length) hbound ?_
          fun count => ?_
        · rintro σ ⟨acts, hacc, ho⟩
          exact ⟨acts, hacc, (ho a rfl).1, (ho a rfl).2, count_deleted a.id hacc⟩
        · have hcount : terms.Fact i [.columns .licenses l.id] fun d _ => ∃ acts,
              Account rt id l acts d ∧ a ∈ acts ∧ a.id = uuid ∧
                count = (acts.filter (·.id ≠ a.id)).length := by
            rintro σ σ' hr hg hrows ⟨acts, hacc, ho⟩
            exact ⟨acts, account_fact rt id l acts σ σ' hr hg hrows hacc, ho⟩
          refine triple_exec hcount fun _ => triple_ret hcount fun σ h => ⟨_, _, h.mono ?_⟩
          rintro d - ⟨acts, hacc, hmem, hauuid, rfl⟩
          exact ⟨l, acts, rfl, hacc, [], [.deleteActivation a.id], _, _, rfl, by simp,
            .delete hmem, .removeActivation hmem (hid.trans (congrArg some hauuid.symm))⟩

end transactions

/-- A licence that is inserted. -/
theorem apply_insertLicense {d d' : Db} {l : License} {n : ℕ}
    (h : schema.apply (.insertLicense l) d = some (n, d')) :
    d'.licenses = d.licenses ++ [l] ∧ d'.activations = d.activations := by
  have htables := apply_tables h
  exact ⟨by rw [htables]; rfl, by rw [htables]; rfl⟩

/-- The commit of a licence that nobody else can see yet. -/
theorem opened_guar {σ : State} {d : Db} {l : License}
    (hfree : ∀ r ∈ (Write.insertLicense l).locks, σ.server.free i r = true)
    (hl : d.licenses = σ.server.db.licenses ++ [l]) (ha : d.activations = σ.server.db.activations) :
    terms.guar i σ ⟨{ σ.server with db := d }, σ.world⟩ := by
  refine rowTerms_autocommit fun j r hij ho => ?_
  cases r with
  | columns table id =>
    cases table with
    | licenses =>
      have hne : l.id ≠ id := by
        rintro rfl
        have hf := hfree (.columns .licenses l.id, .exclusive) (by simp [Write.locks])
        simp only [Server.free, ho, Bool.and_eq_true, Bool.or_eq_true, beq_iff_eq] at hf
        rcases hf.1 with h | h
        · cases h
        · exact hij (Option.some.inj h).symm
      refine Prod.ext ?_ ?_
      · simp only [part, hl, List.filter_append]
        simp [hne]
      · simp only [part, Tables.activationsOf, ha]
    | _ => rfl
  | _ => rfl

theorem createLicense_spec (data : LicenseInput) :
    Spec rt ok G i (.createLicense data) (createLicense rt data) := by
  intro hG
  have htrue : ∀ {i : ℕ}, terms.Fact i [] fun _ _ => True := .const _
  have hkey : Triple ok (terms.committing G) i (Holds i none [] fun _ _ => True)
      (generateLicenseKey rt data.licenseKey) (fun _ => Holds i none [] fun _ _ => True)
      (Failed i) := by
    unfold generateLicenseKey
    split
    · exact triple_ret htrue fun _ h => h
    · exact triple_call htrue (fun _ _ _ h => h) fun _ => triple_call htrue (fun _ _ _ h => h)
        fun _ => triple_call htrue (fun _ _ _ h => h) fun _ => triple_ret htrue fun _ h => h
  refine triple_call htrue (fun _ _ _ h => h) fun id : Id => ?_
  refine .bind (terms.discipline_refl i) hkey fun licenseKey => ?_
  refine triple_orThrow htrue fun productName _ => triple_orThrow htrue fun expiresAt _ => ?_
  refine committing_autocommit (D := schema) (X := world) htrue htrue ?_ (fun _ _ _ => failed _ _)
    fun _ => triple_ret htrue fun _ h => h
  rintro σ n d - - hfree happ
  obtain ⟨hl, ha⟩ := apply_insertLicense happ
  refine ⟨trivial, opened_guar hfree hl ha, hG _ _ ⟨_, ?_, hl, ha⟩, trivial⟩
  exact ⟨rfl, rfl, rfl, rfl, rfl⟩

end requests

/-! ## Runs -/

section runs

variable {rt : Runtime} {o : Bool} {α β : Type}

/-- A program of plain statements. -/
abbrev IsPlain (o : Bool) (p : Program α) : Prop := p.Only (Plain o)

theorem plain_call {c : Call} {k : c.Res → Program α} (hk : ∀ r, IsPlain o (k r)) :
    IsPlain o ((call c).bind k) := Prog.only_bind (only_ext trivial) hk

theorem plain_select {f : Tables → β} {k : β → Program α} (hk : ∀ b, IsPlain o (k b)) :
    IsPlain o ((select f).bind k) := Prog.only_bind (only_db trivial) hk

theorem plain_lock {ls : List (Row × Mode)} {k : Unit → Program α} (hk : IsPlain o (k ())) :
    IsPlain o ((db (D := schema) (.lock ls)).bind k) :=
  Prog.only_bind (only_db trivial) fun _ => hk

theorem plain_exec {w : Write} {k : ℕ → Program α} (hk : ∀ n, IsPlain true (k n)) :
    IsPlain true ((exec w).bind k) := Prog.only_bind (only_db rfl) hk

theorem plain_refuse {c : Prop} [Decidable c] {m : String} : IsPlain o (refuse c m) := by
  unfold refuse
  split <;> trivial

theorem plain_orThrow {e : Except String β} : IsPlain o (orThrow e) := by
  cases e <;> trivial

theorem plain_generateLicenseKey (licenseKey : Input) :
    IsPlain o (generateLicenseKey rt licenseKey) := by
  unfold generateLicenseKey
  split
  · trivial
  · exact plain_call fun _ => plain_call fun _ => plain_call fun _ => trivial

theorem plain_lockLicense (id : String) : IsPlain o (lockLicense rt id) := by
  unfold lockLicense
  split
  · trivial
  · refine plain_select fun found => plain_lock (plain_select fun l => ?_)
    cases l <;> trivial

theorem plain_refuseExpired {l : License} : IsPlain o (refuseExpired l) := by
  unfold refuseExpired
  split
  · exact plain_call fun now : ℤ => plain_refuse
  · trivial

theorem plain_updateOrCreateSetting (key value : String) :
    IsPlain true (updateOrCreateSetting key value) := by
  unfold updateOrCreateSetting
  refine plain_select fun found => plain_lock (plain_select fun setting => ?_)
  cases setting with
  | some setting => exact plain_exec fun _ => trivial
  | none => exact plain_call fun _ => plain_exec fun _ => trivial

theorem plain_getPrivateKey : IsPlain true getPrivateKey := by
  refine Prog.only_bind (only_db trivial) fun _ => plain_select fun setting => ?_
  cases setting with
  | some setting =>
    dsimp only
    cases setting.value <;> trivial
  | none =>
    exact plain_call fun keys => plain_call fun id => plain_exec fun _ =>
      Prog.only_bind (plain_updateOrCreateSetting _ _) fun _ => trivial

/-- Every request publishes once, and returns then. -/
theorem once_program (q : Request) : Once false (q.program rt) := by
  cases q with
  | createLicense data =>
    refine once_map ?_
    exact once_bind (only_ext trivial) fun id => once_bind (plain_generateLicenseKey _) fun _ =>
      once_bind plain_orThrow fun _ => once_bind plain_orThrow fun _ => once_write
  | updateLicense id data =>
    refine once_map (once_transaction ?_)
    refine Prog.only_bind (plain_lockLicense id) fun l => ?_
    have hend : ∀ revokedAt, IsPlain true ((orThrow (merged rt data revokedAt l)).bind
        fun updated => (exec (.saveLicense l updated)).bind fun _ => .ret updated) := fun _ =>
      Prog.only_bind plain_orThrow fun _ => plain_exec fun _ => trivial
    split
    · exact plain_call fun _ => hend _
    · exact hend _
  | toggleLicense id =>
    refine once_map (once_transaction ?_)
    exact Prog.only_bind (plain_lockLicense id) fun l => plain_exec fun _ => trivial
  | deleteLicense id =>
    refine once_map (once_transaction ?_)
    exact Prog.only_bind (plain_lockLicense id) fun l => plain_call fun _ => plain_exec fun _ => trivial
  | issueActivationToken id machineId =>
    refine once_map ?_
    unfold issueActivationToken
    split
    · trivial
    · refine once_transaction (Prog.only_bind (plain_lockLicense id) fun l => ?_)
      refine Prog.only_bind plain_refuse fun _ => Prog.only_bind plain_refuseExpired fun _ => ?_
      refine plain_select fun acts => Prog.only_bind plain_refuse fun _ => ?_
      refine Prog.only_bind plain_refuse fun _ => plain_call fun iat => ?_
      refine Prog.only_bind plain_getPrivateKey fun _ => Prog.only_bind plain_orThrow fun _ => ?_
      exact plain_call fun _ => plain_exec fun _ => plain_exec fun _ => trivial
  | removeActivation id activationId =>
    refine once_map (once_transaction (Prog.only_bind (plain_lockLicense id) fun l => ?_))
    split
    · trivial
    · refine plain_select fun a => ?_
      cases a with
      | none => trivial
      | some a => exact plain_exec fun _ => plain_select fun _ => plain_exec fun _ => trivial

/-- Every request keeps the terms, and publishes its effect. -/
theorem program_spec {ok : Guard machine} {G : ℕ → State → State → Prop} {i : ℕ} (q : Request) :
    Spec rt ok G i q (q.program rt) := by
  have htrue : ∀ {i : ℕ}, terms.Fact i [] fun _ _ => True := .const _
  have hmap : ∀ {γ : Type} {p : Program γ} (f : γ → Reply), Spec rt ok G i q p →
      Spec rt ok G i q (p.bind fun a => .ret (f a)) := fun f h hG =>
    .bind (terms.discipline_refl i) (h hG) fun a => triple_ret htrue fun _ h => h
  cases q with
  | createLicense data => exact hmap _ (createLicense_spec data)
  | updateLicense id data => exact hmap _ (updateLicense_spec data)
  | toggleLicense id => exact hmap _ toggleLicense_spec
  | deleteLicense id => exact hmap _ deleteLicense_spec
  | issueActivationToken id machineId => exact hmap _ (issueActivationToken_spec machineId)
  | removeActivation id activationId => exact hmap _ (removeActivation_spec activationId)

/-- The start of a run: requests over a database that nobody works on. -/
def start (rt : Runtime) (requests : List Request) (d : Db) (clock : ℕ) :
    Config machine (Failure String) Reply :=
  ⟨⟨Server.idle d, clock⟩, requests.map (Request.program rt)⟩

/-- Requests start in order. -/
theorem orderly (rt : Runtime) (ok : Guard machine) (requests : List Request) (d : Db)
    (clock : ℕ) :
    Orderly ok terms (Publishable rt requests) (fun _ _ _ => True) (fun _ _ _ => True)
      (start rt requests d clock) := by
  refine ⟨⟨trivial, fun i p hp => ?_⟩, fun i p hp _ => .inr ?_⟩
  · obtain ⟨q, hq, rfl⟩ := Option.map_eq_some_iff.mp (List.getElem?_map ▸ hp)
    refine wp_mono (fun _ _ _ => trivial) (fun _ _ _ => trivial)
      (program_spec q (fun _ _ h => ⟨q, hq, h⟩) _ trivial (holds_idle i trivial))
  · obtain ⟨q, -, rfl⟩ := Option.map_eq_some_iff.mp (List.getElem?_map ▸ hp)
    exact once_program q

/-- What a request publishes is its effect. -/
theorem Publishable.effect {requests : List Request} {i : ℕ} {σ σ' : State} {q : Request}
    (h : Publishable rt requests i σ σ') (hq : requests[i]? = some q) :
    Effect rt q σ.server.db σ'.server.db := by
  obtain ⟨q', hq', he⟩ := h
  rw [hq] at hq'
  rwa [Option.some.inj hq']

end runs

end Reeva.Licensing
