import Mathlib.Order.WellFounded
import Reeva.Interleaving.Atomicity

/-!
# The course of a program

Where a run has brought one of its programs. A program that is left as it was has not moved
(`Sound.waits`), as whatever is left of a program after a statement is smaller than it. A program
that publishes once, beside others that need not, has published something when it returns
(`PublishesOnce`).
-/

open Interleaving

namespace Interleaving

universe u

variable {S : Signature.{u}} {ε α : Type}

/-! ## What is left of a program -/

namespace Prog

/-- What is left of a program after one statement. -/
def Child (p' p : Prog S ε α) : Prop := ∃ s k r, p = .step s k ∧ p' = k r

/-- What is left of a program after some statements is not the program. -/
theorem not_transGen_child (p : Prog S ε α) : ¬Relation.TransGen Child p p := by
  have hwf : WellFounded (Child (S := S) (ε := ε) (α := α)) := ⟨fun p => by
    induction p with
    | ret a => exact .intro _ fun _ ⟨_, _, _, h, _⟩ => by cases h
    | fail e => exact .intro _ fun _ ⟨_, _, _, h, _⟩ => by cases h
    | step s k ih =>
      refine .intro _ fun p' ⟨s', k', r, h, hp'⟩ => ?_
      cases h
      exact hp' ▸ ih r⟩
  exact fun h => hwf.transGen.asymmetric p p h h

end Prog

/-! ## Programs that wait -/

variable {M : Machine S} {ok : Guard M} {D : Discipline M} {Q : ℕ → α → M.State → Prop}
  {E : ℕ → ε → M.State → Prop} {c c' : Config M ε α}

/-- A program that is left as it was has not moved: the run keeps within its rely. -/
theorem Sound.waits (hD : D.Compatible) (h : Sound ok D Q E c) (hr : c.Run ok c') {j : ℕ}
    {p : Prog S ε α} (hp : c.pool[j]? = some p) (hp' : c'.pool[j]? = some p) :
    D.rely j c.state c'.state := by
  -- Either it has not moved so far, or less of it is left.
  have hcourse : (c'.pool[j]? = some p ∧ D.rely j c.state c'.state) ∨
      ∃ p', c'.pool[j]? = some p' ∧ Relation.TransGen Prog.Child p' p := by
    clear hp'
    induction hr with
    | refl => exact .inl ⟨hp, hD.refl j _⟩
    | @tail c₁ c₂ hrun hs ih =>
      have h₁ := h.run hD hrun
      have h₂ := h₁.step hD hs
      cases hs with
      | @thread i s k ch r σ hi hok hr =>
        have hlen : i < c₁.pool.length := (List.getElem?_eq_some_iff.mp hi).1
        by_cases hij : i = j
        · subst hij
          refine .inr ⟨k r, by simp [hlen], ?_⟩
          have hchild : Prog.Child (k r) (.step s k) := ⟨s, k, r, rfl, rfl⟩
          rcases ih with ⟨hsame, -⟩ | ⟨p', hp', hbelow⟩
          · cases hi.symm.trans hsame
            exact .single hchild
          · cases hi.symm.trans hp'
            exact .head hchild hbelow
        · obtain ⟨-, hg, -⟩ := h₁.2 i _ hi _ (hD.refl i _) h₁.1 ch r σ hok hr
          have hstep := hD.covers i j s r _ _ hij h₁.1 h₂.1 hg
          rw [List.getElem?_set_ne hij]
          exact ih.imp (fun h => ⟨h.1, hD.trans j _ _ _ h.2 hstep⟩) fun h => h
      | env he =>
        exact ih.imp (fun h => ⟨h.1, hD.trans j _ _ _ h.2 (hD.env_rely j _ _ _ he h₁.1)⟩)
          fun h => h
  rcases hcourse with ⟨-, hrely⟩ | ⟨p', h', hbelow⟩
  · exact hrely
  · cases hp'.symm.trans h'
    exact absurd hbelow (Prog.not_transGen_child p)

/-- What holds throughout a run holds wherever one of its statements is performed. -/
theorem Config.Run.throughout {P : M.State → Prop} (hr : c.Run ok c')
    (hP : ∀ c₁, c.Run ok c₁ → c₁.Run ok c' → P c₁.state) :
    c.Run (fun i s ch σ => ok i s ch σ ∧ P σ) c' := by
  refine hr.recorded.mono fun i s ch σ h => ?_
  obtain ⟨hok, c₁, c₂, h₁, rfl, hs, h₂⟩ := h
  exact ⟨hok, hP c₁ h₁ (.head hs.step h₂)⟩

/-- What a program ends in, it ends in under a stronger condition. -/
theorem wp_of_guard {ok' : Guard M} (hok : ∀ i s ch σ, ok' i s ch σ → ok i s ch σ) {i : ℕ}
    {p : Prog S ε α} {Q : α → M.State → Prop} {E : ε → M.State → Prop} {σ : M.State}
    (h : wp ok D i p Q E σ) : wp ok' D i p Q E σ := by
  induction p generalizing σ with
  | ret a => exact h
  | fail e => exact h
  | step s k ih =>
    intro σ₁ hr hi ch r σ₂ hok' hrun
    obtain ⟨hi₂, hg, hk⟩ := h σ₁ hr hi ch r σ₂ (hok i s ch σ₁ hok') hrun
    exact ⟨hi₂, hg, ih r hk⟩

/-- Programs are sound under a stronger condition, and one of them may have a precondition of its
own there. -/
theorem Sound.refocus {ok' : Guard M} (hok : ∀ i s ch σ, ok' i s ch σ → ok i s ch σ)
    (h : Sound ok D Q E c) {j : ℕ} {p : Prog S ε α} (hp : c.pool[j]? = some p)
    {R : α → M.State → Prop} {F : ε → M.State → Prop} (hw : wp ok' D j p R F c.state) :
    Sound ok' D (Function.update Q j R) (Function.update E j F) c := by
  refine ⟨h.1, fun i p' hp' => ?_⟩
  by_cases hij : i = j
  · subst hij
    cases hp.symm.trans hp'
    rw [Function.update_self, Function.update_self]
    exact hw
  · rw [Function.update_of_ne hij, Function.update_of_ne hij]
    exact wp_of_guard hok (h.2 i p' hp')

end Interleaving

namespace ReadCommitted

/-! ## Programs that publish once -/

variable {D : Schema} {E : Signature.{0}} {X : Machine E} {ε α : Type} {ok : Guard (Service D X)}
  {c c' : Config (Service D X) (Failure ε) α} {j : ℕ}

/-- Program `j` returns when it has published something, or has returned. -/
def PublishesOnce (j : ℕ) (c : Config (Service D X) (Failure ε) α) : Prop :=
  ∀ p, c.pool[j]? = some p → c.state.server.gone j = false →
    (∃ a, p = .ret a) ∨ Once (c.state.server.tx j).isSome p

/-- It stays so, whatever the others are. -/
theorem PublishesOnce.step (h : PublishesOnce j c) (hs : c.Step ok c') : PublishesOnce j c' := by
  intro p hp hg
  cases hs with
  | @thread i s k ch r σ hi hok hr =>
    obtain ⟨hgone, htx, hopen⟩ := run_opens hr
    have hg' : c.state.server.gone j = false := congrFun hgone j ▸ hg
    by_cases hij : i = j
    · subst hij
      have hlen : i < c.pool.length := (List.getElem?_eq_some_iff.mp hi).1
      rw [List.getElem?_set_self hlen] at hp
      cases hp
      rcases h _ hi hg' with ⟨a, ha⟩ | honce
      · cases ha
      have hnext := honce r
      split at hnext
      · exact .inl hnext
      · exact .inr (hopen ▸ hnext)
    · rw [List.getElem?_set_ne hij] at hp
      change (∃ a, p = .ret a) ∨ Once (System.server σ |>.tx j).isSome p
      rw [htx j (Ne.symm hij)]
      exact h p hp hg'
  | @env ch σ he =>
    cases ch with
    | db φ => cases he
    | ext x =>
      obtain ⟨w, -, rfl⟩ := Option.map_eq_some_iff.mp he
      exact h p hp hg
    | abort k =>
      cases he
      have hjk : j ≠ k := by
        rintro rfl
        simp [Server.abort] at hg
      have htx : (c.state.server.abort k).tx j = c.state.server.tx j :=
        Function.update_of_ne hjk _ _
      have hgone : (c.state.server.abort k).gone j = c.state.server.gone j :=
        Function.update_of_ne hjk _ _
      change (∃ a, p = .ret a) ∨ Once ((c.state.server.abort k).tx j).isSome p
      rw [htx]
      exact h p hp (hgone ▸ hg)

theorem PublishesOnce.run (h : PublishesOnce j c) (hr : c.Run ok c') : PublishesOnce j c' := by
  induction hr with
  | refl => exact h
  | tail _ hs ih => exact ih.step hs

/-- When it returns, it has just published what it may publish. -/
theorem PublishesOnce.publishes {T : Terms D X} {G : ℕ → System D X.State → System D X.State → Prop}
    {Q : ℕ → α → System D X.State → Prop} {F : ℕ → Failure ε → System D X.State → Prop}
    (h : PublishesOnce j c) (hsound : Sound ok (T.committing G) Q F c) (hs : c.Step ok c')
    (hnot : ∀ a, c.pool[j]? ≠ some (.ret a)) {a : α} (ha : c'.pool[j]? = some (.ret a)) :
    c.StepBy ok j c' ∧ G j c.state c'.state := by
  rcases hs.cases_by with ⟨i, hi⟩ | ⟨ch, σ, -, rfl⟩
  · have hij : i = j := by
      obtain ⟨s, k, ch, r, σ, -, -, -, rfl⟩ := hi
      by_contra hij
      rw [List.getElem?_set_ne hij] at ha
      exact hnot a ha
    subst hij
    refine ⟨hi, ?_⟩
    obtain ⟨s, k, ch, r, σ, hp, hok, hr, rfl⟩ := hi
    have hlen : i < c.pool.length := (List.getElem?_eq_some_iff.mp hp).1
    rw [List.getElem?_set_self hlen, Option.some.injEq] at ha
    have hsucceeds : Succeeds i s r c.state := by
      rcases h _ hp (run_cases hr).1 with ⟨b, hb⟩ | honce
      · cases hb
      have hnext := honce r
      split at hnext
      · exact succeeds_of_publishes ‹_›
      · rw [ha] at hnext
        exact hnext.elim
    exact (hsound.step_guar (T.committing_compatible G) hp hok hr).2 (.inl hsucceeds)
  · exact absurd ha (hnot a)

end ReadCommitted
