import Reeva.Interleaving.Locking

/-!
# Terms of programs over a database

The terms on which programs share a database: an invariant, what each program may count on and what
each of its moves promises, given that quiet moves of the server keep them (`Terms`). Besides, the
terms may say what a program publishes (`committing`).
-/

open Interleaving

namespace ReadCommitted

variable {D : Schema} {E : Signature.{0}} {X : Machine E}

/-- The terms of programs over a database and an outside world. -/
structure Terms (D : Schema) {E : Signature.{0}} (X : Machine E) where
  /-- What holds of every state. -/
  inv : System D X.State → Prop
  /-- What program `i` may count on, besides its transaction and its locks. -/
  rely : ℕ → System D X.State → System D X.State → Prop
  /-- What every move of program `i` promises. -/
  guar : ℕ → System D X.State → System D X.State → Prop
  rely_refl : ∀ i σ, rely i σ σ
  rely_trans : ∀ i σ₁ σ₂ σ₃, rely i σ₁ σ₂ → rely i σ₂ σ₃ → rely i σ₁ σ₃
  /-- What another program promises is within the rely. -/
  covers : ∀ i j σ σ', i ≠ j → inv σ → inv σ' → guar i σ σ' → rely j σ σ'
  /-- Quiet moves keep the terms. -/
  quiet : ∀ i (σ : System D X.State) srv, inv σ → σ.server.Quiet i srv →
    inv ⟨srv, σ.world⟩ ∧ guar i σ ⟨srv, σ.world⟩
  /-- The outside world moves within the terms. -/
  world : ∀ ch (σ : System D X.State) w, X.env ch σ.world = some w → inv σ →
    inv ⟨σ.server, w⟩ ∧ ∀ j, rely j σ ⟨σ.server, w⟩
  /-- Programs vanish within the terms. -/
  abort : ∀ i (σ : System D X.State), inv σ →
    inv ⟨σ.server.abort i, σ.world⟩ ∧ ∀ j, rely j σ ⟨σ.server.abort i, σ.world⟩

namespace Terms

variable (T : Terms D X)

/-- The terms as a discipline: besides, everyone keeps their transactions and their locks. -/
def discipline : Discipline (Service D X) where
  inv := T.inv
  rely i σ σ' := σ.server.Keeps i σ'.server ∧ T.rely i σ σ'
  guar i _ _ σ σ' := (∀ j, i ≠ j → σ.server.Keeps j σ'.server) ∧ T.guar i σ σ'

theorem discipline_refl (i : ℕ) (σ : System D X.State) : T.discipline.rely i σ σ :=
  ⟨.refl i _, T.rely_refl i σ⟩

theorem compatible : T.discipline.Compatible where
  refl := T.discipline_refl
  trans i _ _ _ h₁ h₂ := ⟨h₁.1.trans h₂.1, T.rely_trans i _ _ _ h₁.2 h₂.2⟩
  covers i j _ _ _ _ hij hi hi' h := ⟨h.1 j hij, T.covers i j _ _ hij hi hi' h.2⟩
  env_inv ch σ σ' he hi := by
    cases ch with
    | db φ => cases he
    | abort j =>
      cases he
      exact (T.abort j σ hi).1
    | ext c =>
      obtain ⟨w, hw, rfl⟩ := Option.map_eq_some_iff.mp he
      exact (T.world c σ w hw hi).1
  env_rely j ch σ σ' he hi := by
    cases ch with
    | db φ => cases he
    | abort k =>
      cases he
      exact ⟨Server.keeps_abort k j _, (T.abort k σ hi).2 j⟩
    | ext c =>
      obtain ⟨w, hw, rfl⟩ := Option.map_eq_some_iff.mp he
      exact ⟨.refl j _, (T.world c σ w hw hi).2 j⟩

end Terms

/-! ## Publication -/

/-- A commit, or a write outside of a transaction, that succeeds. -/
def Succeeds {W : Type} (i : ℕ) : (s : Action D E) → (signature D E).Res s → System D W → Prop
  | .db .commit, r, _ => r = Except.ok ()
  | .db (.write _), r, σ => σ.server.tx i = none ∧ ∃ n : ℕ, r = Except.ok n
  | _, _, _ => False

/-- A statement of program `i` publishes something: it succeeds, or what is committed changes. -/
def Publishes {W : Type} (i : ℕ) (s : Action D E) (r : (signature D E).Res s)
    (σ σ' : System D W) : Prop :=
  Succeeds i s r σ ∨ σ'.server.db ≠ σ.server.db

/-- What fails does not succeed. -/
theorem not_succeeds_error {W : Type} {i : ℕ} {s : Stmt D} {e : DbError} {σ : System D W} :
    ¬Succeeds (E := E) i (.db s) (.error e) σ := by
  cases s with
  | commit => exact fun h => by cases h
  | write w => exact fun h => by cases h.2.choose_spec
  | _ => exact id

/-- What a statement promises when it publishes nothing. -/
theorem silent {W : Type} {i : ℕ} {s : Action D E} {r : (signature D E).Res s}
    {σ σ' : System D W} {P : Prop} (hdb : σ'.server.db = σ.server.db)
    (hs : ¬Succeeds i s r σ) : Publishes i s r σ σ' → P := fun h =>
  (h.elim hs fun hne => hne hdb).elim

namespace Terms

variable (T : Terms D X) (G : ℕ → System D X.State → System D X.State → Prop)

/-- The discipline of the terms under which, besides, whatever program `i` publishes is `G i`. -/
def committing : Discipline (Service D X) where
  inv := T.inv
  rely := T.discipline.rely
  guar i s r σ σ' := T.discipline.guar i s r σ σ' ∧ (Publishes i s r σ σ' → G i σ σ')

theorem committing_compatible : (T.committing G).Compatible where
  refl := T.compatible.refl
  trans := T.compatible.trans
  covers i j s r σ σ' hij hi hi' h := T.compatible.covers i j s r σ σ' hij hi hi' h.1
  env_inv := T.compatible.env_inv
  env_rely := T.compatible.env_rely

variable {T G} {ok : Guard (Service D X)} {ε α : Type} {i : ℕ}
  {Q : ℕ → α → System D X.State → Prop} {F : ℕ → ε → System D X.State → Prop}
  {c c' : Config (Service D X) ε α}

/-- A statement that changes what is committed publishes what it may. -/
theorem published_of_stepBy (h : Sound ok (T.committing G) Q F c) (hs : c.StepBy ok i c')
    (hdb : c'.state.server.db ≠ c.state.server.db) : G i c.state c'.state := by
  obtain ⟨s, k, ch, r, σ, hp, hok, hr, rfl⟩ := hs
  exact (h.step_guar (T.committing_compatible G) hp hok hr).2 (.inr hdb)

/-- So does every step, as the environment changes nothing of it. -/
theorem published_of_step (h : Sound ok (T.committing G) Q F c) (hs : c.Step ok c') :
    c'.state.server.db = c.state.server.db ∨ ∃ i, c.StepBy ok i c' ∧ G i c.state c'.state := by
  by_cases hdb : c'.state.server.db = c.state.server.db
  · exact .inl hdb
  rcases hs.cases_by with ⟨i, hi⟩ | ⟨ch, σ, he, rfl⟩
  · exact .inr ⟨i, hi, published_of_stepBy h hi hdb⟩
  · refine absurd ?_ hdb
    cases ch with
    | db φ => cases he
    | abort j =>
      cases he
      rfl
    | ext e =>
      obtain ⟨w, -, rfl⟩ := Option.map_eq_some_iff.mp he
      rfl

end Terms

section conversion

variable {T : Terms D X} {ok : Guard (Service D X)} {i : ℕ} {ε α : Type}
  {A : System D X.State → Prop} {p : Prog (signature D E) (Failure ε) α}
  {Q : α → System D X.State → Prop} {F : Failure ε → System D X.State → Prop}

/-- Whoever keeps the terms publishes something. -/
theorem triple_committing (h : Triple ok T.discipline i A p Q F) :
    Triple ok (T.committing fun _ _ _ => True) i A p Q F := by
  intro σ hi ha
  refine wp_guar (D := T.discipline) (T.committing _) rfl rfl ?_ (h σ hi ha)
  exact fun _ _ _ _ hg => ⟨hg, fun _ => trivial⟩

/-- Whoever keeps the terms and publishes what it should keeps the terms. -/
theorem triple_of_committing {G : ℕ → System D X.State → System D X.State → Prop}
    (h : Triple ok (T.committing G) i A p Q F) : Triple ok T.discipline i A p Q F := by
  intro σ hi ha
  refine wp_guar (D := T.committing G) T.discipline rfl rfl ?_ (h σ hi ha)
  exact fun _ _ _ _ hg => hg.1

end conversion

end ReadCommitted
