import Reeva.Interleaving.Program

/-!
# Rely–guarantee reasoning

A `Discipline` says what every state of a run satisfies (`inv`), what program `i` may count on while
the others move (`rely i`), and what each of its own statements promises (`guar i`). `wp` is the
precondition under which a program keeps the discipline and ends in its postconditions when the
others may move before each of its statements. It is computed along the program's text, one rule for
each constructor, and `wp_bind` composes it. `Sound.run` is the theorem that the rules serve: if every
program of a configuration satisfies its `wp`, then every run from it stays within the invariant, and
`Sound.step_guar` that every statement performed on the way meets its guarantee.
-/

namespace Interleaving

universe u

variable {S : Signature.{u}} {ε α β : Type}

/-- The terms on which programs share a machine. -/
structure Discipline (M : Machine S) where
  /-- What holds of every state. -/
  inv : M.State → Prop
  /-- What program `i` may count on between two of its statements. -/
  rely : ℕ → M.State → M.State → Prop
  /-- What a statement of program `i` promises, given its result and the states before and after. -/
  guar : ℕ → (s : S.Stmt) → S.Res s → M.State → M.State → Prop

/-- The terms fit together: a program's rely may be iterated, it covers the guarantees of the other
programs, and the environment keeps the invariant within everyone's rely. -/
structure Discipline.Compatible {M : Machine S} (D : Discipline M) : Prop where
  /-- Nothing need happen between two statements. -/
  refl : ∀ i σ, D.rely i σ σ
  /-- Moves within the rely compose. -/
  trans : ∀ i σ₁ σ₂ σ₃, D.rely i σ₁ σ₂ → D.rely i σ₂ σ₃ → D.rely i σ₁ σ₃
  /-- What another program promises is within the rely. -/
  covers : ∀ i j s r σ σ', i ≠ j → D.inv σ → D.inv σ' → D.guar i s r σ σ' → D.rely j σ σ'
  /-- The environment keeps the invariant. -/
  env_inv : ∀ ch σ σ', M.env ch σ = some σ' → D.inv σ → D.inv σ'
  /-- The environment stays within everyone's rely. -/
  env_rely : ∀ j ch σ σ', M.env ch σ = some σ' → D.inv σ → D.rely j σ σ'

section wp

variable {M : Machine S} (ok : Guard M) (D : Discipline M) (i : ℕ)

/-- From `σ` the program keeps the discipline through every statement that meets `ok`, whatever the
others do within the rely, and ends in `Q` or fails in `E`. -/
def wp : Prog S ε α → (α → M.State → Prop) → (ε → M.State → Prop) → M.State → Prop
  | .ret a, Q, _, σ => ∀ σ₁, D.rely i σ σ₁ → D.inv σ₁ → Q a σ₁
  | .fail e, _, E, σ => ∀ σ₁, D.rely i σ σ₁ → D.inv σ₁ → E e σ₁
  | .step s k, Q, E, σ => ∀ σ₁, D.rely i σ σ₁ → D.inv σ₁ → ∀ ch r σ₂, ok i s ch σ₁ →
      M.run i s ch σ₁ = some (r, σ₂) → D.inv σ₂ ∧ D.guar i s r σ₁ σ₂ ∧ wp (k r) Q E σ₂

variable {ok D i} {Q Q' : α → M.State → Prop} {E E' : ε → M.State → Prop} {σ σ' : M.State}

/-- Weaker postconditions have a weaker precondition. -/
theorem wp_mono {p : Prog S ε α} (hQ : ∀ a σ, Q a σ → Q' a σ) (hE : ∀ e σ, E e σ → E' e σ)
    (h : wp ok D i p Q E σ) : wp ok D i p Q' E' σ := by
  induction p generalizing σ with
  | ret a => exact fun σ₁ hr hi => hQ _ _ (h σ₁ hr hi)
  | fail e => exact fun σ₁ hr hi => hE _ _ (h σ₁ hr hi)
  | step s k ih =>
    intro σ₁ hr hi ch r σ₂ hok hrun
    obtain ⟨hi₂, hg, hk⟩ := h σ₁ hr hi ch r σ₂ hok hrun
    exact ⟨hi₂, hg, ih r hk⟩

/-- The precondition survives whatever the others do. -/
theorem wp_stable (hD : D.Compatible) {p : Prog S ε α} (hr : D.rely i σ σ')
    (h : wp ok D i p Q E σ) : wp ok D i p Q E σ' := by
  cases p <;> exact fun σ₁ hr₁ => h σ₁ (hD.trans i σ σ' σ₁ hr hr₁)

/-- The rule of sequential composition: the second program's precondition is the first one's
postcondition. -/
theorem wp_bind (hrefl : ∀ σ, D.rely i σ σ) {p : Prog S ε α} {f : α → Prog S ε β}
    {Q : β → M.State → Prop}
    (h : wp ok D i p (fun a => wp ok D i (f a) Q E) E σ) (hi : D.inv σ) :
    wp ok D i (p.bind f) Q E σ := by
  induction p generalizing σ with
  | ret a => exact h σ (hrefl σ) hi
  | fail e => exact h
  | step s k ih =>
    intro σ₁ hr hi₁ ch r σ₂ hok hrun
    obtain ⟨hi₂, hg, hk⟩ := h σ₁ hr hi₁ ch r σ₂ hok hrun
    exact ⟨hi₂, hg, ih r hk hi₂⟩

/-- The rule for a handler: it starts where the program fails. -/
theorem wp_tryCatch (hrefl : ∀ σ, D.rely i σ σ) {p : Prog S ε α} {h : ε → Prog S ε α}
    (hp : wp ok D i p Q (fun e => wp ok D i (h e) Q E) σ) (hi : D.inv σ) :
    wp ok D i (p.tryCatch h) Q E σ := by
  induction p generalizing σ with
  | ret a => exact hp
  | fail e => exact hp σ (hrefl σ) hi
  | step s k ih =>
    intro σ₁ hr hi₁ ch r σ₂ hok hrun
    obtain ⟨hi₂, hg, hk⟩ := hp σ₁ hr hi₁ ch r σ₂ hok hrun
    exact ⟨hi₂, hg, ih r hk hi₂⟩

/-- The same precondition serves terms that differ only in weaker guarantees. -/
theorem wp_guar (D' : Discipline M) (hinv : D'.inv = D.inv) (hrely : D'.rely = D.rely)
    (hg : ∀ s r σ σ', D.guar i s r σ σ' → D'.guar i s r σ σ') {p : Prog S ε α}
    (h : wp ok D i p Q E σ) : wp ok D' i p Q E σ := by
  induction p generalizing σ with
  | ret a =>
    intro σ₁ hr hi
    rw [hrely] at hr
    rw [hinv] at hi
    exact h σ₁ hr hi
  | fail e =>
    intro σ₁ hr hi
    rw [hrely] at hr
    rw [hinv] at hi
    exact h σ₁ hr hi
  | step s k ih =>
    intro σ₁ hr hi ch r σ₂ hok hrun
    rw [hrely] at hr
    rw [hinv] at hi
    obtain ⟨hi₂, hg₂, hk⟩ := h σ₁ hr hi ch r σ₂ hok hrun
    exact ⟨hinv ▸ hi₂, hg _ _ _ _ hg₂, ih r hk⟩

/-- A program all of whose statements keep the discipline needs no precondition. -/
theorem wp_of_only {P : S.Stmt → Prop}
    (hP : ∀ s, P s → ∀ ch σ r σ', D.inv σ → ok i s ch σ → M.run i s ch σ = some (r, σ') →
      D.inv σ' ∧ D.guar i s r σ σ')
    {p : Prog S ε α} (hp : p.Only P) : wp ok D i p (fun _ => D.inv) (fun _ => D.inv) σ := by
  induction p generalizing σ with
  | ret a => exact fun _ _ hi => hi
  | fail e => exact fun _ _ hi => hi
  | step s k ih =>
    intro σ₁ _ hi ch r σ₂ hok hrun
    obtain ⟨hi₂, hg⟩ := hP s hp.1 ch σ₁ r σ₂ hi hok hrun
    exact ⟨hi₂, hg, ih r (hp.2 r)⟩

/-- A program that runs alone from its precondition keeps the invariant and ends in its
postconditions. -/
theorem wp_eval (hrefl : ∀ σ, D.rely i σ σ) {p : Prog S ε α} {chs : List M.Choice}
    {out : Except ε α} (h : wp (Guard.always M) D i p Q E σ) (hi : D.inv σ)
    (he : p.eval M i chs σ = some (out, σ')) :
    D.inv σ' ∧ (∀ a, out = .ok a → Q a σ') ∧ ∀ e, out = .error e → E e σ' := by
  induction p generalizing σ chs with
  | ret a =>
    cases chs with
    | nil =>
      cases he
      refine ⟨hi, fun a ha => ?_, fun e he => by cases he⟩
      cases ha
      exact h _ (hrefl _) hi
    | cons ch chs => cases he
  | fail e =>
    cases chs with
    | nil =>
      cases he
      refine ⟨hi, fun a ha => (by cases ha), fun e he => ?_⟩
      cases he
      exact h _ (hrefl _) hi
    | cons ch chs => cases he
  | step s k ih =>
    cases chs with
    | nil => cases he
    | cons ch chs =>
      obtain ⟨⟨r, σ₂⟩, hrun, hk⟩ := Option.bind_eq_some_iff.mp he
      obtain ⟨hi₂, -, hw⟩ := h σ (hrefl σ) hi ch r σ₂ trivial hrun
      exact ih r hw hi₂ hk

end wp

section triple

variable {M : Machine S} (ok : Guard M) (D : Discipline M) (i : ℕ)

/-- What holds between two statements of program `i` however the others move. -/
def Stable (A : M.State → Prop) : Prop := ∀ σ σ', D.rely i σ σ' → A σ → A σ'

/-- From every state with `A` the program keeps the discipline and ends in its postconditions. -/
def Triple (A : M.State → Prop) (p : Prog S ε α) (Q : α → M.State → Prop)
    (E : ε → M.State → Prop) : Prop := ∀ σ, D.inv σ → A σ → wp ok D i p Q E σ

variable {ok D i} {A A' : M.State → Prop} {Q Q' : α → M.State → Prop} {E E' : ε → M.State → Prop}

/-- A program ends in a state of the invariant. -/
theorem wp_inv {p : Prog S ε α} {σ : M.State} (h : wp ok D i p Q E σ) :
    wp ok D i p (fun a σ => D.inv σ ∧ Q a σ) (fun e σ => D.inv σ ∧ E e σ) σ := by
  induction p generalizing σ with
  | ret a => exact fun σ₁ hr hi => ⟨hi, h σ₁ hr hi⟩
  | fail e => exact fun σ₁ hr hi => ⟨hi, h σ₁ hr hi⟩
  | step s k ih =>
    intro σ₁ hr hi ch r σ₂ hok hrun
    obtain ⟨hi₂, hg, hk⟩ := h σ₁ hr hi ch r σ₂ hok hrun
    exact ⟨hi₂, hg, ih r hk⟩

namespace Triple

theorem ret (hA : Stable D i A) {a : α} (h : ∀ σ, A σ → Q a σ) : Triple ok D i A (.ret a) Q E :=
  fun σ _ ha σ₁ hr _ => h σ₁ (hA σ σ₁ hr ha)

theorem fail (hA : Stable D i A) {e : ε} (h : ∀ σ, A σ → E e σ) : Triple ok D i A (.fail e) Q E :=
  fun σ _ ha σ₁ hr _ => h σ₁ (hA σ σ₁ hr ha)

theorem mono {p : Prog S ε α} (h : Triple ok D i A p Q E) (hA : ∀ σ, A' σ → A σ)
    (hQ : ∀ a σ, Q a σ → Q' a σ) (hE : ∀ e σ, E e σ → E' e σ) : Triple ok D i A' p Q' E' :=
  fun σ hi ha => wp_mono hQ hE (h σ hi (hA σ ha))

/-- Sequential composition. -/
theorem bind (hrefl : ∀ σ, D.rely i σ σ) {p : Prog S ε α} {f : α → Prog S ε β}
    {B : α → M.State → Prop} {Q : β → M.State → Prop} (hp : Triple ok D i A p B E)
    (hf : ∀ a, Triple ok D i (B a) (f a) Q E) : Triple ok D i A (p.bind f) Q E := fun σ hi ha =>
  wp_bind hrefl (wp_mono (fun a σ h => hf a σ h.1 h.2) (fun _ _ h => h.2)
    (wp_inv (hp σ hi ha))) hi

/-- A handler. -/
theorem tryCatch (hrefl : ∀ σ, D.rely i σ σ) {p : Prog S ε α} {h : ε → Prog S ε α}
    {B : ε → M.State → Prop} (hp : Triple ok D i A p Q B)
    (hh : ∀ e, Triple ok D i (B e) (h e) Q E) : Triple ok D i A (p.tryCatch h) Q E := fun σ hi ha =>
  wp_tryCatch hrefl (wp_mono (fun _ _ h => h.2) (fun e σ h => hh e σ h.1 h.2)
    (wp_inv (hp σ hi ha))) hi

/-- An attempt ends in either postcondition. -/
theorem attempt (hrefl : ∀ σ, D.rely i σ σ) {p : Prog S ε α} (hQ : ∀ a, Stable D i (Q a))
    (hE : ∀ e, Stable D i (E e)) {F : ε → M.State → Prop} (hp : Triple ok D i A p Q E) :
    Triple ok D i A p.attempt
      (fun r σ => match r with
        | .ok a => Q a σ
        | .error e => E e σ) F :=
  .tryCatch hrefl (.bind hrefl hp fun a => .ret (hQ a) fun _ h => h) fun e =>
    .ret (hE e) fun _ h => h

end Triple

end triple

/-- The terms of a program that runs alone: it keeps an invariant, and nothing moves between its
statements. -/
def Discipline.alone (M : Machine S) (inv : M.State → Prop) : Discipline M where
  inv := inv
  rely _ σ σ' := σ = σ'
  guar _ _ _ _ _ := True

/-- Every program of the configuration keeps the discipline from its state on, with postconditions
that may depend on which program it is. -/
def Sound {M : Machine S} (ok : Guard M) (D : Discipline M) (Q : ℕ → α → M.State → Prop)
    (E : ℕ → ε → M.State → Prop) (c : Config M ε α) : Prop :=
  D.inv c.state ∧ ∀ i p, c.pool[i]? = some p → wp ok D i p (Q i) (E i) c.state

namespace Sound

variable {M : Machine S} {ok : Guard M} {D : Discipline M} {Q : ℕ → α → M.State → Prop}
  {E : ℕ → ε → M.State → Prop} {c c' : Config M ε α}

/-- The program that moves keeps its precondition by its own rule, the others by `wp_stable`. -/
theorem step (hD : D.Compatible) (h : Sound ok D Q E c) (hs : c.Step ok c') :
    Sound ok D Q E c' := by
  obtain ⟨hi, hw⟩ := h
  cases hs with
  | @thread i s k ch r σ hp hok hr =>
    obtain ⟨hi₂, hg, hk⟩ := hw i _ hp c.state (hD.refl i _) hi ch r σ hok hr
    refine ⟨hi₂, fun j p hj => ?_⟩
    simp only [List.getElem?_set] at hj
    split at hj
    · rename_i hij
      subst hij
      split at hj
      · cases hj
        exact hk
      · cases hj
    · rename_i hij
      exact wp_stable hD (hD.covers i j _ _ _ _ hij hi hi₂ hg) (hw j p hj)
  | env he =>
    exact ⟨hD.env_inv _ _ _ he hi, fun j p hj => wp_stable hD (hD.env_rely j _ _ _ he hi) (hw j p hj)⟩

/-- Every run from programs that satisfy their preconditions keeps the discipline. -/
theorem run (hD : D.Compatible) (h : Sound ok D Q E c) (hr : c.Run ok c') : Sound ok D Q E c' := by
  induction hr with
  | refl => exact h
  | tail _ hs ih => exact ih.step hD hs

/-- A program that does not take part may count on the run to move within its rely. -/
theorem onlooker (hD : D.Compatible) (h : Sound ok D Q E c) (hr : c.Run ok c') {j : ℕ}
    (hj : c.pool.length ≤ j) : D.rely j c.state c'.state := by
  have hmoves : D.rely j c.state c'.state ∧ c'.pool.length ≤ j := by
    induction hr with
    | refl => exact ⟨hD.refl j _, hj⟩
    | @tail c₁ c₂ hrun hs ih =>
      obtain ⟨hrely, hlen⟩ := ih
      have h₁ := h.run hD hrun
      have h₂ := h₁.step hD hs
      cases hs with
      | @thread i s k ch r σ hp hok hr =>
        have hi : i < c₁.pool.length := (List.getElem?_eq_some_iff.mp hp).1
        obtain ⟨-, hg, -⟩ := h₁.2 i _ hp _ (hD.refl i _) h₁.1 ch r σ hok hr
        have hstep := hD.covers i j s r _ _ (by omega) h₁.1 h₂.1 hg
        exact ⟨hD.trans j _ _ _ hrely hstep, by simpa using hlen⟩
      | env he => exact ⟨hD.trans j _ _ _ hrely (hD.env_rely j _ _ _ he h₁.1), hlen⟩
  exact hmoves.1

/-- A statement of program `i` meets that program's guarantee. -/
theorem step_guar (hD : D.Compatible) (h : Sound ok D Q E c) {i : ℕ} {s : S.Stmt}
    {k : S.Res s → Prog S ε α} {ch : M.Choice} {r : S.Res s} {σ : M.State}
    (hp : c.pool[i]? = some (.step s k)) (hok : ok i s ch c.state)
    (hr : M.run i s ch c.state = some (r, σ)) : D.guar i s r c.state σ :=
  (h.2 i _ hp c.state (hD.refl i _) h.1 ch r σ hok hr).2.1

/-- A program that has returned is in its postcondition. -/
theorem returned (hD : D.Compatible) (h : Sound ok D Q E c) {i : ℕ} {a : α}
    (hp : c.pool[i]? = some (.ret a)) : Q i a c.state :=
  h.2 i _ hp c.state (hD.refl i _) h.1

/-- A program that has failed is in its failure's postcondition. -/
theorem failed (hD : D.Compatible) (h : Sound ok D Q E c) {i : ℕ} {e : ε}
    (hp : c.pool[i]? = some (.fail e)) : E i e c.state :=
  h.2 i _ hp c.state (hD.refl i _) h.1

end Sound

end Interleaving
