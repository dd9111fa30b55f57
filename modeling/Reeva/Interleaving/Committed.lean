import Reeva.Interleaving.Transactions

/-!
# Terms about what is committed

Programs that agree on an invariant of what is committed, and on a preorder in which it moves
(`committedTerms`). What such a program has seen stays true as far as the preorder keeps it, whether
the program holds locks or not.
-/

open Interleaving

namespace ReadCommitted

variable {D : Schema} {E : Signature.{0}} {X : Machine E}

/-- A run of programs that keep the terms from an idle server on keeps the invariant. -/
theorem Terms.run_inv {T : Terms D X} {ok : Guard (Service D X)} {ε α : Type} {d : D.Db}
    {w : X.State} {pool : List (Prog (signature D E) (Failure ε) α)} (hinv : T.inv ⟨Server.idle d, w⟩)
    (h : ∀ i, ∀ p ∈ pool, Triple ok T.discipline i (Holds i none [] fun _ _ => True) p
      (fun _ _ => True) fun _ _ => True)
    {c : Config (Service D X) (Failure ε) α} (hr : Config.Run ok ⟨⟨Server.idle d, w⟩, pool⟩ c) :
    T.inv c.state := by
  have sound : Sound ok T.discipline (fun _ _ _ => True) (fun _ _ _ => True)
      ⟨⟨Server.idle d, w⟩, pool⟩ :=
    ⟨hinv, fun i p hp => h i p (List.mem_of_getElem? hp) _ hinv (holds_idle i trivial)⟩
  exact (sound.run T.compatible hr).1

/-- The terms of an invariant of what is committed, which moves within a preorder. -/
def committedTerms (X : Machine E) (I : D.Db → Prop) (R : D.Db → D.Db → Prop) (refl : ∀ d, R d d)
    (trans : ∀ d₁ d₂ d₃, R d₁ d₂ → R d₂ d₃ → R d₁ d₃) : Terms D X where
  inv σ := I σ.server.db
  rely _ σ σ' := R σ.server.db σ'.server.db
  guar _ σ σ' := R σ.server.db σ'.server.db
  rely_refl _ _ := refl _
  rely_trans _ _ _ _ := trans _ _ _
  covers _ _ _ _ _ _ _ h := h
  quiet _ σ _ hi hq := by
    rw [hq.db]
    exact ⟨hi, refl _⟩
  world _ _ _ _ hi := ⟨hi, fun _ => refl _⟩
  abort _ _ hi := ⟨hi, fun _ => refl _⟩

section rules

variable {I : D.Db → Prop} {R : D.Db → D.Db → Prop} {refl : ∀ d, R d d}
  {trans : ∀ d₁ d₂ d₃, R d₁ d₂ → R d₂ d₃ → R d₁ d₃} {i : ℕ}

/-- A fact that the preorder keeps. -/
theorem committed_fact {A : D.Db → X.State → Prop} (h : ∀ d d' w w', R d d' → A d w → A d' w') :
    (committedTerms X I R refl trans).Fact i [] A := fun _ _ hr _ _ => h _ _ _ _ hr

/-- A move that publishes nothing. -/
theorem committed_silent {σ : System D X.State} {srv : Server D} {w : X.State}
    (hi : I σ.server.db) (hdb : srv.db = σ.server.db) :
    (committedTerms X I R refl trans).inv ⟨srv, w⟩ ∧
      (committedTerms X I R refl trans).guar i σ ⟨srv, w⟩ := by
  simp only [committedTerms, hdb]
  exact ⟨hi, refl _⟩

end rules

end ReadCommitted
