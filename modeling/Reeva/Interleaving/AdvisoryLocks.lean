import Reeva.Interleaving.Transactions

/-!
# What an advisory lock protects

Where only the holder of an advisory lock changes some part of what is committed, a program that holds
the lock finds that part as it was. `lockTerms` are these terms, together with an invariant of what is
committed and a preorder in which it moves; what the preorder keeps needs no lock.
-/

open Interleaving

namespace ReadCommitted

variable {D : Schema} {E : Signature.{0}} {X : Machine E} {β : Type}

/-- Program `i` keeps lock `n` if it has it, and what the lock protects is as it was. -/
structure LockRely (n : ℕ) (part : D.Db → β) (i : ℕ) (σ σ' : System D X.State) : Prop where
  gone : σ.server.gone i = true → σ'.server.gone i = true
  held : σ'.server.gone i = false → σ.server.advisory n = some i →
    σ'.server.advisory n = some i ∧ part σ'.server.db = part σ.server.db

namespace LockRely

variable {n : ℕ} {part : D.Db → β} {i : ℕ} {σ σ₁ σ₂ σ₃ : System D X.State}

theorem refl : LockRely n part i σ σ := ⟨id, fun _ h => ⟨h, rfl⟩⟩

theorem trans (h₁ : LockRely n part i σ₁ σ₂) (h₂ : LockRely n part i σ₂ σ₃) :
    LockRely n part i σ₁ σ₃ where
  gone h := h₂.gone (h₁.gone h)
  held hg hl := by
    have hg₂ : σ₂.server.gone i = false := by
      by_contra hne
      rw [h₂.gone (by simpa using hne)] at hg
      cases hg
    obtain ⟨hl₂, hp₂⟩ := h₁.held hg₂ hl
    obtain ⟨hl₃, hp₃⟩ := h₂.held hg hl₂
    exact ⟨hl₃, hp₃.trans hp₂⟩

/-- Whoever leaves a program its lock and what it protects is within that program's rely. -/
theorem of_keeps {srv : Server D} {w : X.State} (hk : σ.server.Keeps i srv)
    (hp : σ.server.advisory n = some i → part srv.db = part σ.server.db) :
    LockRely n part i σ ⟨srv, w⟩ :=
  ⟨hk.gone, fun hg hl => ⟨hk.advisory hg n hl, hp hl⟩⟩

end LockRely

/-- The terms on which lock `n` protects a part of what is committed. -/
def lockTerms (X : Machine E) (n : ℕ) (part : D.Db → β) (I : D.Db → Prop) (R : D.Db → D.Db → Prop)
    (refl : ∀ d, R d d) (trans : ∀ d₁ d₂ d₃, R d₁ d₂ → R d₂ d₃ → R d₁ d₃) : Terms D X where
  inv σ := I σ.server.db
  rely i σ σ' := R σ.server.db σ'.server.db ∧ LockRely n part i σ σ'
  guar i σ σ' := R σ.server.db σ'.server.db ∧ ∀ j, i ≠ j → LockRely n part j σ σ'
  rely_refl _ _ := ⟨refl _, .refl⟩
  rely_trans _ _ _ _ h₁ h₂ := ⟨trans _ _ _ h₁.1 h₂.1, h₁.2.trans h₂.2⟩
  covers _ j _ _ hij _ _ h := ⟨h.1, h.2 j hij⟩
  quiet _ σ _ hi hq := by
    refine ⟨by rwa [hq.db], ?_, fun j hij => .of_keeps (hq.keeps hij) fun _ => by rw [hq.db]⟩
    rw [hq.db]
    exact refl _
  world _ _ _ _ hi := ⟨hi, fun _ => ⟨refl _, id, fun _ h => ⟨h, rfl⟩⟩⟩
  abort i σ hi := ⟨hi, fun j => ⟨refl _, .of_keeps (Server.keeps_abort i j _) fun _ => rfl⟩⟩

section rules

variable {n : ℕ} {part : D.Db → β} {I : D.Db → Prop} {R : D.Db → D.Db → Prop} {refl : ∀ d, R d d}
  {trans : ∀ d₁ d₂ d₃, R d₁ d₂ → R d₂ d₃ → R d₁ d₃} {i : ℕ}

/-- What the lock protects, for who holds it. -/
theorem lockTerms_held (P : β → Prop) :
    (Possession.lock i n).Fact (lockTerms X n part I R refl trans) fun d _ => P (part d) :=
  fun _ _ hr hg hl h => by
    dsimp only
    rw [(hr.2.held hg hl).2]
    exact h

/-- What the preorder keeps. -/
theorem lockTerms_fact {L : Possession D i} {A : D.Db → X.State → Prop}
    (h : ∀ d d' w w', R d d' → A d w → A d' w') :
    L.Fact (lockTerms X n part I R refl trans) A := fun _ _ hr _ _ => h _ _ _ _ hr.1

/-- A move of the outside world. -/
theorem lockTerms_ext {σ : System D X.State} {w : X.State} (hi : I σ.server.db) :
    (lockTerms X n part I R refl trans).inv ⟨σ.server, w⟩ ∧
      (lockTerms X n part I R refl trans).guar i σ ⟨σ.server, w⟩ :=
  ⟨hi, refl _, fun _ _ => ⟨id, fun _ h => ⟨h, rfl⟩⟩⟩

/-- A write within a transaction. -/
theorem lockTerms_write {σ : System D X.State} {ws : List D.Write} {w : D.Write}
    (hi : I σ.server.db) (htx : σ.server.tx i = some ws)
    (hfree : ∀ l ∈ D.locks w (σ.server.view i), σ.server.free i l = true) :
    (lockTerms X n part I R refl trans).inv ⟨σ.server.record i w, σ.world⟩ ∧
      (lockTerms X n part I R refl trans).guar i σ ⟨σ.server.record i w, σ.world⟩ := by
  have hdb : (σ.server.record i w).db = σ.server.db := Server.record_db_of_some htx
  refine ⟨?_, ?_, fun j hij => .of_keeps (Server.keeps_record hij hfree) fun _ => by rw [hdb]⟩
  · simpa only [lockTerms, hdb] using hi
  · simpa only [hdb] using refl σ.server.db

/-- A commit of who holds the lock, or one that leaves what it protects. -/
theorem lockTerms_commit {σ : System D X.State} {d : D.Db} (hi : I d) (hR : R σ.server.db d)
    (h : σ.server.advisory n = some i ∨ part d = part σ.server.db) :
    (lockTerms X n part I R refl trans).inv ⟨{ σ.server.release i with db := d }, σ.world⟩ ∧
      (lockTerms X n part I R refl trans).guar i σ ⟨{ σ.server.release i with db := d }, σ.world⟩ := by
  refine ⟨hi, hR, fun j hij => .of_keeps (Server.keeps_publish hij _ _) fun hj => ?_⟩
  rcases h with h | h
  · exact absurd (Option.some.inj (h.symm.trans hj)) hij
  · exact h

end rules

end ReadCommitted
