import Reeva.Interleaving.ReadCommitted

/-!
# What runs publish

A run publishes writes one after another: a write outside of a transaction when it is performed, and
the writes of a transaction when it commits. `Guard.onPublications` is a condition on each of them and
the database that it takes effect on. Programs whose writes keep a property under such a condition keep
it in every run that meets the condition (`publications_run`), and programs whose writes keep it
anyway keep it in every run (`keeping_run`).
-/

open Interleaving

namespace ReadCommitted

variable {D : Schema} {E : Signature.{0}} {X : Machine E} {ε α : Type} {P : D.Db → Prop}
  {W : D.Write → Prop} {C : D.Write → D.Db → Prop}

namespace Server

/-- What is committed has `P`, and open transactions have written nothing but what satisfies `W`. -/
def Keeping (P : D.Db → Prop) (W : D.Write → Prop) (σ : Server D) : Prop :=
  P σ.db ∧ ∀ i ws, σ.tx i = some ws → ∀ w ∈ ws, W w

/-- Each of the writes meets a condition where it takes effect. -/
def Meets (C : D.Write → D.Db → Prop) : List D.Write → D.Db → Prop
  | [], _ => True
  | w :: ws, d => C w d ∧ Meets C ws (applyOne d w)

/-- The test of a condition. -/
def meets (C : D.Write → D.Db → Prop) [∀ w d, Decidable (C w d)] : List D.Write → D.Db → Bool
  | [], _ => true
  | w :: ws, d => decide (C w d) && meets C ws (applyOne d w)

theorem meets_iff [∀ w d, Decidable (C w d)] {ws : List D.Write} {d : D.Db} :
    meets C ws d = true ↔ Meets C ws d := by
  induction ws generalizing d with
  | nil => exact iff_of_true rfl trivial
  | cons w ws ih => simp [meets, Meets, ih]

/-- Writes that keep a property one by one keep it together. -/
theorem publish_keeps
    (keep : ∀ w d n d', W w → C w d → P d → D.apply w d = some (n, d') → P d') {ws : List D.Write}
    (hw : ∀ w ∈ ws, W w) {d d' : D.Db} (hC : Meets C ws d) (hd : P d)
    (h : publish ws d = some d') : P d' := by
  induction ws generalizing d with
  | nil => exact Option.some.inj h ▸ hd
  | cons w ws ih =>
    simp only [publish, List.foldlM_cons, Option.bind_eq_bind] at h
    obtain ⟨d₁, h₁, h₂⟩ := Option.bind_eq_some_iff.mp h
    obtain ⟨⟨n, d₁'⟩, ha, rfl⟩ := Option.map_eq_some_iff.mp h₁
    have happlied : applyOne d w = d₁' := by simp [applyOne, ha]
    refine ih (fun w hm => hw w (List.mem_cons_of_mem _ hm)) (happlied ▸ hC.2) ?_ h₂
    exact keep w d n d₁' (hw w (List.mem_cons_self ..)) hC.1 hd ha

/-- Ending a transaction leaves the others theirs. -/
theorem Keeping.release {σ : Server D} (h : σ.Keeping P W) (i : ℕ) : (σ.release i).Keeping P W := by
  refine ⟨h.1, fun j ws hj => ?_⟩
  by_cases hij : j = i
  · subst hij
    simp [Server.release] at hj
  · exact h.2 j ws ((Function.update_of_ne hij _ _).symm.trans hj)

/-- A statement that writes what satisfies `W` keeps the property when what it publishes has it. -/
theorem Keeping.exec {σ σ' : Server D} (h : σ.Keeping P W) {i : ℕ} {s : Stmt D}
    (hs : ∀ w, s = .write w → W w)
    (hwrite : ∀ w n d, s = .write w → σ.tx i = none → D.apply w σ.db = some (n, d) → P d)
    (hcommit : ∀ ws d, s = .commit → σ.tx i = some ws → publish ws σ.db = some d → P d) {φ : Fault}
    {r : s.Res} (he : Server.exec i s φ σ = some (r, σ')) : σ'.Keeping P W := by
  cases s with
  | query f =>
    rw [(exec_query he).1]
    exact h
  | write w =>
    rcases exec_write he with ⟨rfl, -⟩ | ⟨rfl, -, n, d, ha, -⟩
    · exact h
    · have hw := hs w rfl
      cases htx : σ.tx i with
      | none =>
        rw [record_of_none htx]
        rw [view_of_none htx] at ha
        refine ⟨?_, h.2⟩
        simp only [applyOne, ha, Option.map_some, Option.getD_some]
        exact hwrite w n d rfl htx ha
      | some ws =>
        rw [record_of_some htx]
        -- Only the writes of the transaction itself have grown, by one that satisfies `W`.
        refine ⟨h.1, fun j ws' hj w' hw' => ?_⟩
        by_cases hij : j = i
        · subst hij
          simp only [Function.update_self, Option.some.injEq] at hj
          subst hj
          rcases List.mem_append.mp hw' with hw' | hw'
          · exact h.2 j ws htx w' hw'
          · rw [List.mem_singleton.mp hw']
            exact hw
        · exact h.2 j ws' ((Function.update_of_ne hij _ _).symm.trans hj) w' hw'
  | lock rows =>
    obtain ⟨hdb, htx, -⟩ := exec_lock he
    exact ⟨hdb ▸ h.1, htx ▸ h.2⟩
  | advisory n =>
    simp only [Server.exec] at he
    split at he
    · obtain ⟨-, rfl⟩ := Prod.mk.inj (Option.some.inj he)
      split <;> exact h
    · cases he
  | begin =>
    rcases exec_begin he with ⟨rfl, -⟩ | ⟨rfl, -⟩
    · refine ⟨h.1, fun j ws hj w hw => ?_⟩
      by_cases hij : j = i
      · subst hij
        simp only [Function.update_self, Option.some.injEq] at hj
        subst hj
        cases hw
      · exact h.2 j ws ((Function.update_of_ne hij _ _).symm.trans hj) w hw
    · exact h
  | commit =>
    rcases exec_commit he with ⟨d, hd, rfl⟩ | ⟨rfl, -⟩
    · refine ⟨?_, (h.release i).2⟩
      cases htx : σ.tx i with
      | none =>
        rw [htx] at hd
        exact Option.some.inj hd ▸ h.1
      | some ws =>
        rw [htx] at hd
        exact hcommit ws d rfl htx hd
    · exact h.release i
  | rollback =>
    obtain ⟨-, rfl⟩ := Prod.mk.inj (Option.some.inj he)
    exact h.release i

end Server

/-- The terms of programs that publish nothing but what keeps a property. -/
def Discipline.keeping (X : Machine E) (P : D.Db → Prop) (W : D.Write → Prop) :
    Discipline (Service D X) where
  inv σ := σ.server.Keeping P W
  rely _ _ _ := True
  guar _ _ _ _ _ := True

theorem Discipline.keeping_compatible : (Discipline.keeping X P W).Compatible where
  refl _ _ := trivial
  trans _ _ _ _ _ _ := trivial
  covers _ _ _ _ _ _ _ _ _ _ := trivial
  env_rely _ _ _ _ _ _ := trivial
  env_inv ch σ σ' he hi := by
    cases ch with
    | db φ => cases he
    | ext c =>
      obtain ⟨w, -, rfl⟩ := Option.map_eq_some_iff.mp he
      exact hi
    | abort j =>
      cases he
      exact hi.release j

/-- A condition on what a run publishes, given the database that it takes effect on. -/
def Guard.onPublications (X : Machine E) (C : D.Write → D.Db → Prop) : Guard (Service D X)
  | i, .db (.write w), _, σ => σ.server.tx i = none → C w σ.server.db
  | i, .db .commit, _, σ => Server.Meets C ((σ.server.tx i).getD []) σ.server.db
  | _, _, _, _ => True

/-- The test of such a condition. -/
def testPublications (X : Machine E) (C : D.Write → D.Db → Prop) [∀ w d, Decidable (C w d)] :
    ℕ → Action D E → Decision X.Choice → System D X.State → Bool
  | i, .db (.write w), _, σ => (σ.server.tx i).isSome || decide (C w σ.server.db)
  | i, .db .commit, _, σ => Server.meets C ((σ.server.tx i).getD []) σ.server.db
  | _, _, _, _ => true

/-- What passes the test meets the condition. -/
theorem Guard.onPublications_of_test [∀ w d, Decidable (C w d)] (i : ℕ) (s : Action D E)
    (ch : Decision X.Choice) (σ : System D X.State) (h : testPublications X C i s ch σ = true) :
    Guard.onPublications X C i s ch σ := by
  cases s with
  | db s =>
    cases s with
    | write w =>
      intro htx
      simp only [testPublications, htx, Option.isSome_none, Bool.false_or] at h
      exact of_decide_eq_true (p := C w σ.server.db) h
    | commit => exact Server.meets_iff.mp h
    | _ => trivial
  | _ => trivial

/-- In every run of programs whose writes keep a property where they meet a condition, and do meet it,
every committed database has the property. -/
theorem publications_run
    (keep : ∀ w d n d', W w → C w d → P d → D.apply w d = some (n, d') → P d')
    {pool : List (Prog (signature D E) (Failure ε) α)} (hp : ∀ p ∈ pool, p.Only (Writes True W))
    {d : D.Db} (hd : P d) {w : X.State} {c : Config (Service D X) (Failure ε) α}
    (hr : Config.Run (Guard.onPublications X C) ⟨⟨Server.idle d, w⟩, pool⟩ c) :
    P c.state.server.db := by
  have sound : Sound (Guard.onPublications X C) (Discipline.keeping X P W) (fun _ _ _ => True)
      (fun _ _ _ => True) ⟨⟨Server.idle d, w⟩, pool⟩ := by
    -- The invariant needs no fact about the programs but that their writes satisfy `W`.
    refine ⟨⟨hd, fun _ _ h => by cases h⟩, fun i p hi => wp_mono (fun _ _ _ => trivial)
      (fun _ _ _ => trivial) (wp_of_only ?_ (hp p (List.mem_of_getElem? hi)))⟩
    intro s hs ch σ r σ' hinv hok hrun
    refine ⟨?_, trivial⟩
    cases s with
    | halt => cases ch <;> cases hrun
    | ext e =>
      cases ch with
      | db φ => cases hrun
      | abort j => cases hrun
      | ext c =>
        simp only [Service] at hrun
        split at hrun
        · cases hrun
        · obtain ⟨⟨r', w'⟩, -, hw⟩ := Option.map_eq_some_iff.mp hrun
          cases hw
          exact hinv
    | db s =>
      cases ch with
      | ext c => cases hrun
      | abort j => cases hrun
      | db φ =>
        simp only [Service] at hrun
        split at hrun
        · cases hrun
        · obtain ⟨⟨r', srv⟩, he, hw⟩ := Option.map_eq_some_iff.mp hrun
          cases hw
          -- A statement publishes by a write outside of a transaction or by a commit.
          refine Server.Keeping.exec hinv ?_ ?_ ?_ he
          · rintro w rfl
            exact hs
          · rintro w n d rfl htx ha
            exact keep w _ n d hs (hok htx) hinv.1 ha
          · rintro ws d rfl htx hd
            have hmeets : Server.Meets C ((σ.server.tx i).getD []) σ.server.db := hok
            rw [htx] at hmeets
            exact Server.publish_keeps keep (hinv.2 i ws htx) hmeets hinv.1 hd
  exact (sound.run Discipline.keeping_compatible hr).1.1

/-- In every run of programs whose writes keep a property, every committed database has it. -/
theorem keeping_run (keep : ∀ w d, W w → P d → P (Server.applyOne d w))
    {pool : List (Prog (signature D E) (Failure ε) α)} (hp : ∀ p ∈ pool, p.Only (Writes True W))
    {d : D.Db} (hd : P d) {w : X.State} {ok : Guard (Service D X)}
    {c : Config (Service D X) (Failure ε) α}
    (hr : Config.Run ok ⟨⟨Server.idle d, w⟩, pool⟩ c) : P c.state.server.db := by
  have anything : ∀ (ws : List D.Write) (d : D.Db), Server.Meets (fun _ _ => True) ws d := by
    intro ws
    induction ws with
    | nil => exact fun _ => trivial
    | cons w ws ih => exact fun d => ⟨trivial, ih _⟩
  refine publications_run (C := fun _ _ => True) (W := W) ?_ hp hd
    (hr.mono fun i s ch σ _ => ?_)
  · intro w d n d' hw _ hd ha
    have h := keep w d hw hd
    simpa only [Server.applyOne, ha, Option.map_some, Option.getD_some] using h
  · cases s with
    | db s =>
      cases s with
      | write w => exact fun _ => trivial
      | commit => exact anything _ _
      | _ => trivial
    | _ => trivial

end ReadCommitted
