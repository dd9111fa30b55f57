import Reeva.Interleaving.Atomicity

/-!
# What a row's lock protects

Where every program changes only those parts of the database whose row it holds alone, or whose row
nobody holds, a program that holds a row finds the part of the database behind it as it was.
`rowTerms part` are these terms, for a function `part` that says what stands behind a row.
-/

open Interleaving

namespace ReadCommitted

variable {D : Schema} {E : Signature.{0}} {X : Machine E} {β : Type}

/-- What stands behind the rows that program `i` holds alone is as it was. -/
structure RowRely (part : D.Row → D.Db → β) (i : ℕ) (σ σ' : System D X.State) : Prop where
  gone : σ.server.gone i = true → σ'.server.gone i = true
  held : σ'.server.gone i = false → ∀ r, σ.server.owner r = some i →
    σ'.server.owner r = some i ∧ part r σ'.server.db = part r σ.server.db

namespace RowRely

variable {part : D.Row → D.Db → β} {i : ℕ} {σ σ₁ σ₂ σ₃ : System D X.State}

theorem refl : RowRely part i σ σ := ⟨id, fun _ _ h => ⟨h, rfl⟩⟩

theorem trans (h₁ : RowRely part i σ₁ σ₂) (h₂ : RowRely part i σ₂ σ₃) : RowRely part i σ₁ σ₃ where
  gone h := h₂.gone (h₁.gone h)
  held hg r ho := by
    have hg₂ : σ₂.server.gone i = false := by
      by_contra hne
      rw [h₂.gone (by simpa using hne)] at hg
      cases hg
    obtain ⟨ho₂, hp₂⟩ := h₁.held hg₂ r ho
    obtain ⟨ho₃, hp₃⟩ := h₂.held hg r ho₂
    exact ⟨ho₃, hp₃.trans hp₂⟩

/-- Whoever leaves a program its locks and what stands behind them is within that program's rely. -/
theorem of_keeps {srv : Server D} {w : X.State} (hk : σ.server.Keeps i srv)
    (hp : ∀ r, σ.server.owner r = some i → part r srv.db = part r σ.server.db) :
    RowRely part i σ ⟨srv, w⟩ :=
  ⟨hk.gone, fun hg r ho => ⟨hk.owner hg r ho, hp r ho⟩⟩

end RowRely

/-- The terms on which a row's lock protects what stands behind the row. -/
def rowTerms (X : Machine E) (part : D.Row → D.Db → β) : Terms D X where
  inv _ := True
  rely := RowRely part
  guar i σ σ' := ∀ j, i ≠ j → RowRely part j σ σ'
  rely_refl _ _ := .refl
  rely_trans _ _ _ _ := .trans
  covers _ j _ _ hij _ _ h := h j hij
  quiet _ _ _ _ hq := ⟨trivial, fun _ hij => .of_keeps (hq.keeps hij) fun _ _ => by rw [hq.db]⟩
  world _ _ _ _ _ := ⟨trivial, fun _ => ⟨id, fun _ _ h => ⟨h, rfl⟩⟩⟩
  abort i _ _ := ⟨trivial, fun j => .of_keeps (Server.keeps_abort i j _) fun _ _ => rfl⟩

section rules

variable {part : D.Row → D.Db → β} {i : ℕ}

/-- What stands behind a row that the program holds alone. -/
theorem rowTerms_fact (r : D.Row) (P : β → Prop) :
    (rowTerms X part).Fact i [r] fun d _ => P (part r d) := fun _ _ hr hg hrows h => by
  dsimp only
  rw [(hr.held hg r (hrows r (by simp))).2]
  exact h

/-- A commit that changes only what stands behind rows that the program holds alone. -/
theorem rowTerms_commit {σ : System D X.State} {d : D.Db}
    (h : ∀ r, σ.server.owner r ≠ some i → part r d = part r σ.server.db) :
    (rowTerms X part).guar i σ ⟨{ σ.server.release i with db := d }, σ.world⟩ := fun j hij =>
  .of_keeps (Server.keeps_publish hij _ _) fun r ho => h r (by
    rw [ho]
    exact fun hji => hij (Option.some.inj hji).symm)

/-- A write within a transaction. -/
theorem rowTerms_write {σ : System D X.State} {ws : List D.Write} {w : D.Write}
    (htx : σ.server.tx i = some ws)
    (hfree : ∀ l ∈ D.locks w (σ.server.view i), σ.server.free i l = true) :
    (rowTerms X part).guar i σ ⟨σ.server.record i w, σ.world⟩ := fun j hij =>
  .of_keeps (Server.keeps_record hij hfree) fun r _ => by rw [Server.record_db_of_some htx]

/-- A write of its own that changes only what stands behind rows that nobody holds. -/
theorem rowTerms_autocommit {σ : System D X.State} {d : D.Db}
    (h : ∀ j r, i ≠ j → σ.server.owner r = some j → part r d = part r σ.server.db) :
    (rowTerms X part).guar i σ ⟨{ σ.server with db := d }, σ.world⟩ := fun j hij =>
  ⟨id, fun _ r ho => ⟨ho, h j r hij ho⟩⟩

end rules

end ReadCommitted
