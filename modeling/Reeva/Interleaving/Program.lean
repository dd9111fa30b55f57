import Mathlib.Data.Nat.Notation
import Mathlib.Logic.Relation

/-!
# Programs over shared state and their interleavings

A request handler is a `Prog`: a tree of statements, each of which is one atomic step against shared
state, with the handler's own computation in between. A `Machine` gives the statements their meaning
as an executable function `run`, which may block (`none`) and whose outcome may depend on a choice
that the environment makes. Several programs over one machine form a `Config`, and `Config.Step` lets
any one of them perform its next statement, so a run of the system is any interleaving of the
programs' statements. `Prog.eval` is the other reading of the same text: the program runs to its end
with nothing in between.
-/

namespace Interleaving

universe u

/-- The statements that a program may perform, with the type of each one's result. -/
structure Signature where
  /-- The statements. -/
  Stmt : Type u
  /-- The type of a statement's result. -/
  Res : Stmt → Type

/-- A program: it returns, fails with an error, or performs a statement and goes on with its
result. -/
inductive Prog (S : Signature.{u}) (ε α : Type) : Type u
  | ret (a : α)
  | fail (e : ε)
  | step (s : S.Stmt) (k : S.Res s → Prog S ε α)

namespace Prog

variable {S : Signature.{u}} {ε α β : Type}

/-- Sequential composition. -/
def bind : Prog S ε α → (α → Prog S ε β) → Prog S ε β
  | ret a, f => f a
  | fail e, _ => fail e
  | step s k, f => step s fun r => (k r).bind f

/-- Runs the handler `h` on a failure of the program. -/
def tryCatch : Prog S ε α → (ε → Prog S ε α) → Prog S ε α
  | ret a, _ => ret a
  | fail e, h => h e
  | step s k, h => step s fun r => (k r).tryCatch h

/-- Runs the program and returns how it ended. -/
def attempt (p : Prog S ε α) : Prog S ε (Except ε α) :=
  (p.bind fun a => ret (.ok a)).tryCatch fun e => ret (.error e)

/-- The program of one statement. -/
def perform (s : S.Stmt) : Prog S ε (S.Res s) := step s ret

instance : Monad (Prog S ε) where
  pure := ret
  bind := bind

instance : MonadExceptOf ε (Prog S ε) where
  throw := fail
  tryCatch := tryCatch

/-- A pure computation that may fail, as a program without statements. -/
def ofExcept : Except ε α → Prog S ε α
  | .ok a => ret a
  | .error e => fail e

@[simp] theorem pure_eq (a : α) : (pure a : Prog S ε α) = ret a := rfl

@[simp] theorem throw_eq (e : ε) : (throw e : Prog S ε α) = fail e := rfl

@[simp] theorem bind_eq (p : Prog S ε α) (f : α → Prog S ε β) : p >>= f = p.bind f := rfl

@[simp] theorem ret_bind (a : α) (f : α → Prog S ε β) : (ret a).bind f = f a := rfl

@[simp] theorem fail_bind (e : ε) (f : α → Prog S ε β) : (fail e : Prog S ε α).bind f = fail e := rfl

@[simp] theorem step_bind (s : S.Stmt) (k : S.Res s → Prog S ε α) (f : α → Prog S ε β) :
    (step s k).bind f = step s fun r => (k r).bind f := rfl

/-- To return what was returned is to do nothing more. -/
theorem bind_ret (p : Prog S ε α) : p.bind ret = p := by
  induction p with
  | ret a => rfl
  | fail e => rfl
  | step s k ih => exact congrArg (step s) (funext ih)

/-- Sequential composition is associative. -/
theorem bind_assoc {γ : Type} (p : Prog S ε α) (f : α → Prog S ε β) (g : β → Prog S ε γ) :
    (p.bind f).bind g = p.bind fun a => (f a).bind g := by
  induction p with
  | ret a => rfl
  | fail e => rfl
  | step s k ih =>
    simp only [step_bind]
    congr 1
    funext r
    exact ih r

/-- Every statement that the program may perform, whatever the earlier ones return, satisfies `P`. -/
def Only (P : S.Stmt → Prop) : Prog S ε α → Prop
  | ret _ => True
  | fail _ => True
  | step s k => P s ∧ ∀ r, (k r).Only P

@[simp] theorem only_ret (P : S.Stmt → Prop) (a : α) : (ret a : Prog S ε α).Only P := trivial

@[simp] theorem only_fail (P : S.Stmt → Prop) (e : ε) : (fail e : Prog S ε α).Only P := trivial

/-- A weaker condition on the statements holds too. -/
theorem Only.mono {P P' : S.Stmt → Prop} (h : ∀ s, P s → P' s) {p : Prog S ε α} (hp : p.Only P) :
    p.Only P' := by
  induction p with
  | ret a => trivial
  | fail e => trivial
  | step s k ih => exact ⟨h s hp.1, fun r => ih r (hp.2 r)⟩

/-- A sequential composition of such programs is one. -/
theorem only_bind {P : S.Stmt → Prop} {p : Prog S ε α} {f : α → Prog S ε β} (hp : p.Only P)
    (hf : ∀ a, (f a).Only P) : (p.bind f).Only P := by
  induction p with
  | ret a => exact hf a
  | fail e => trivial
  | step s k ih => exact ⟨hp.1, fun r => ih r (hp.2 r)⟩

/-- Whatever the statements return, the program returns only what satisfies `Q`. -/
def Returns (Q : α → Prop) : Prog S ε α → Prop
  | ret a => Q a
  | fail _ => True
  | step _ k => ∀ r, (k r).Returns Q

/-- A sequential composition returns what its second program does. -/
theorem returns_bind {Q : β → Prop} {p : Prog S ε α} {f : α → Prog S ε β}
    (hf : ∀ a, (f a).Returns Q) : (p.bind f).Returns Q := by
  induction p with
  | ret a => exact hf a
  | fail e => trivial
  | step s k ih => exact ih

/-- The second program of a sequential composition need only be one for what the first returns. -/
theorem only_bind_of_returns {P : S.Stmt → Prop} {Q : α → Prop} {p : Prog S ε α}
    {f : α → Prog S ε β} (hp : p.Only P) (hq : p.Returns Q) (hf : ∀ a, Q a → (f a).Only P) :
    (p.bind f).Only P := by
  induction p with
  | ret a => exact hf a hq
  | fail e => trivial
  | step s k ih => exact ⟨hp.1, fun r => ih r (hp.2 r) (hq r)⟩

/-- A program with a handler is one when both are. -/
theorem only_tryCatch {P : S.Stmt → Prop} {p : Prog S ε α} {h : ε → Prog S ε α} (hp : p.Only P)
    (hh : ∀ e, (h e).Only P) : (p.tryCatch h).Only P := by
  induction p with
  | ret a => trivial
  | fail e => exact hh e
  | step s k ih => exact ⟨hp.1, fun r => ih r (hp.2 r)⟩

/-- An attempt of such a program is one. -/
theorem only_attempt {P : S.Stmt → Prop} {p : Prog S ε α} (hp : p.Only P) : p.attempt.Only P :=
  only_tryCatch (only_bind hp fun _ => trivial) fun _ => trivial

end Prog

/-- The meaning of a signature's statements. `run i s ch σ` performs `s` on behalf of program `i` in
the state `σ`; it is `none` when the statement cannot proceed there, and `ch` resolves what the
program does not control. `env` is a step of the environment itself, such as a clock. -/
structure Machine (S : Signature.{u}) where
  /-- The shared state. -/
  State : Type
  /-- What the environment decides in one statement. -/
  Choice : Type
  /-- One statement of program `i`. -/
  run : ℕ → (s : S.Stmt) → Choice → State → Option (S.Res s × State)
  /-- A step of the environment. -/
  env : Choice → State → Option State

variable {S : Signature.{u}} {ε α : Type}

/-- The shared state with the programs that still run over it. -/
structure Config (M : Machine S) (ε α : Type) where
  /-- The shared state. -/
  state : M.State
  /-- What is left of each program. -/
  pool : List (Prog S ε α)

/-- A condition on the statements that a run performs: who performs which one, with which choice, in
which state. -/
abbrev Guard (M : Machine S) := ℕ → S.Stmt → M.Choice → M.State → Prop

/-- The condition that every step meets. -/
def Guard.always (M : Machine S) : Guard M := fun _ _ _ _ => True

namespace Config

variable {M : Machine S}

/-- One step of an interleaving whose statements all meet `ok`: some program performs its next
statement, or the environment moves. -/
inductive Step (ok : Guard M) : Config M ε α → Config M ε α → Prop
  | thread {c : Config M ε α} {i : ℕ} {s : S.Stmt} {k : S.Res s → Prog S ε α} {ch : M.Choice}
      {r : S.Res s} {σ : M.State} (hp : c.pool[i]? = some (.step s k)) (hok : ok i s ch c.state)
      (hr : M.run i s ch c.state = some (r, σ)) : Step ok c ⟨σ, c.pool.set i (k r)⟩
  | env {c : Config M ε α} {ch : M.Choice} {σ : M.State} (he : M.env ch c.state = some σ) :
      Step ok c ⟨σ, c.pool⟩

/-- A run of any length whose statements all meet `ok`. -/
def Run (ok : Guard M) : Config M ε α → Config M ε α → Prop :=
  Relation.ReflTransGen (Step ok)

/-- A step under a condition is a step under a weaker one. -/
theorem Step.mono {ok ok' : Guard M} (h : ∀ i s ch σ, ok i s ch σ → ok' i s ch σ)
    {c c' : Config M ε α} (hs : Step ok c c') : Step ok' c c' := by
  cases hs with
  | thread hp hok hr => exact .thread hp (h _ _ _ _ hok) hr
  | env he => exact .env he

/-- A run under a condition is a run under a weaker one. -/
theorem Run.mono {ok ok' : Guard M} (h : ∀ i s ch σ, ok i s ch σ → ok' i s ch σ)
    {c c' : Config M ε α} (hr : Run ok c c') : Run ok' c c' :=
  Relation.ReflTransGen.mono (fun _ _ (hs : Step ok _ _) => hs.mono h) _ _ hr

/-- Program `i` performs its next statement. -/
def StepBy (ok : Guard M) (i : ℕ) (c c' : Config M ε α) : Prop :=
  ∃ (s : S.Stmt) (k : S.Res s → Prog S ε α) (ch : M.Choice) (r : S.Res s) (σ : M.State),
    c.pool[i]? = some (.step s k) ∧ ok i s ch c.state ∧ M.run i s ch c.state = some (r, σ) ∧
      c' = ⟨σ, c.pool.set i (k r)⟩

/-- What a program performs is a step. -/
theorem StepBy.step {ok : Guard M} {i : ℕ} {c c' : Config M ε α} (h : c.StepBy ok i c') :
    c.Step ok c' := by
  obtain ⟨s, k, ch, r, σ, hp, hok, hr, rfl⟩ := h
  exact .thread hp hok hr

/-- The statements of a run are performed at some point of it. -/
theorem Run.recorded {ok : Guard M} {c c' : Config M ε α} (hr : c.Run ok c') :
    c.Run (fun i s ch σ => ok i s ch σ ∧
      ∃ c₁ c₂, c.Run ok c₁ ∧ c₁.state = σ ∧ c₁.StepBy ok i c₂ ∧ c₂.Run ok c') c' := by
  -- The induction is on the part of the run that is recorded; the rest leads on to its end.
  suffices h : ∀ c₁, c.Run ok c₁ → c₁.Run ok c' → c.Run (fun i s ch σ => ok i s ch σ ∧
      ∃ c₁ c₂, c.Run ok c₁ ∧ c₁.state = σ ∧ c₁.StepBy ok i c₂ ∧ c₂.Run ok c') c₁ from
    h c' hr .refl
  intro c₁ h₁
  induction h₁ with
  | refl => exact fun _ => .refl
  | @tail c₁ c₂ hrun hs ih =>
    intro hrest
    refine .tail (ih (.head hs hrest)) ?_
    cases hs with
    | thread hp hok hr =>
      exact .thread hp ⟨hok, _, _, hrun, rfl, ⟨_, _, _, _, _, hp, hok, hr, rfl⟩, hrest⟩ hr
    | env he => exact .env he

/-- A step is one of a program or one of the environment. -/
theorem Step.cases_by {ok : Guard M} {c c' : Config M ε α} (h : c.Step ok c') :
    (∃ i, c.StepBy ok i c') ∨ ∃ ch σ, M.env ch c.state = some σ ∧ c' = ⟨σ, c.pool⟩ := by
  cases h with
  | thread hp hok hr => exact .inl ⟨_, _, _, _, _, _, hp, hok, hr, rfl⟩
  | env he => exact .inr ⟨_, _, he, rfl⟩

/-- A program that has returned stays as it is. -/
theorem ret_of_run {ok : Guard M} {c c' : Config M ε α} {i : ℕ} {a : α}
    (h : c.pool[i]? = some (.ret a)) (hr : c.Run ok c') : c'.pool[i]? = some (.ret a) := by
  induction hr with
  | refl => exact h
  | tail _ hs ih =>
    cases hs with
    | @thread j s k ch r σ hp _ _ =>
      have hij : j ≠ i := by
        rintro rfl
        rw [ih] at hp
        cases hp
      rw [List.getElem?_set_ne hij]
      exact ih
    | env _ => exact ih

/-- Who moves next, with the environment's choice: program `i`, or the environment. -/
inductive Event (M : Machine S)
  | thread (i : ℕ) (ch : M.Choice)
  | env (ch : M.Choice)

/-- The configuration after one event; `none` when the program cannot move or its statement fails the
test `ok`. -/
def advance (ok : ℕ → S.Stmt → M.Choice → M.State → Bool) (c : Config M ε α) :
    Event M → Option (Config M ε α)
  | .thread i ch =>
    match c.pool[i]? with
    | some (.step s k) =>
      if ok i s ch c.state then (M.run i s ch c.state).map fun p => ⟨p.2, c.pool.set i (k p.1)⟩
      else none
    | _ => none
  | .env ch => (M.env ch c.state).map fun σ => ⟨σ, c.pool⟩

/-- The configuration that a schedule leads to. -/
def follow (ok : ℕ → S.Stmt → M.Choice → M.State → Bool) (c : Config M ε α) :
    List (Event M) → Option (Config M ε α)
  | [] => some c
  | e :: es => (c.advance ok e).bind fun c' => c'.follow ok es

section follow

variable {ok : ℕ → S.Stmt → M.Choice → M.State → Bool} {G : Guard M}

/-- A configuration that `advance` returns is one step away. -/
theorem step_of_advance (hG : ∀ i s ch σ, ok i s ch σ = true → G i s ch σ)
    {c c' : Config M ε α} {e : Event M} (h : c.advance ok e = some c') : Step G c c' := by
  cases e with
  | thread i ch =>
    simp only [advance] at h
    split at h
    · rename_i s k hp
      split at h
      · rename_i hok
        obtain ⟨⟨r, σ⟩, hr, rfl⟩ := Option.map_eq_some_iff.mp h
        exact .thread hp (hG _ _ _ _ hok) hr
      · cases h
    · cases h
  | env ch =>
    obtain ⟨σ, he, rfl⟩ := Option.map_eq_some_iff.mp h
    exact .env he

/-- Where `advance` moves a program, that program has performed its next statement. -/
theorem stepBy_of_advance (hG : ∀ i s ch σ, ok i s ch σ = true → G i s ch σ)
    {c c' : Config M ε α} {i : ℕ} {ch : M.Choice} (h : c.advance ok (.thread i ch) = some c') :
    c.StepBy G i c' := by
  simp only [advance] at h
  split at h
  · rename_i s k hp
    split at h
    · rename_i hok
      obtain ⟨⟨r, σ⟩, hr, rfl⟩ := Option.map_eq_some_iff.mp h
      exact ⟨s, k, ch, r, σ, hp, hG _ _ _ _ hok, hr, rfl⟩
    · cases h
  · cases h

/-- A configuration that a schedule leads to is reached by a run. -/
theorem run_of_follow (hG : ∀ i s ch σ, ok i s ch σ = true → G i s ch σ) {es : List (Event M)}
    {c c' : Config M ε α} (h : c.follow ok es = some c') : Run G c c' := by
  induction es generalizing c with
  | nil =>
    cases h
    exact .refl
  | cons e es ih =>
    obtain ⟨c₁, h₁, h₂⟩ := Option.bind_eq_some_iff.mp h
    exact .head (step_of_advance hG h₁) (ih h₂)

/-- A schedule that leads to a configuration with a property shows that one is reached. -/
theorem reached_of_follow (hG : ∀ i s ch σ, ok i s ch σ = true → G i s ch σ)
    {es : List (Event M)} {c : Config M ε α} {p : Config M ε α → Bool}
    (h : (c.follow ok es).any p = true) : ∃ c', Run G c c' ∧ p c' = true := by
  cases hf : c.follow ok es with
  | none =>
    rw [hf] at h
    cases h
  | some c' =>
    rw [hf] at h
    exact ⟨c', run_of_follow hG hf, h⟩

end follow

end Config

namespace Prog

variable (M : Machine S) (i : ℕ)

/-- The program alone on the machine, with the environment's choices for its statements in order. -/
def eval : Prog S ε α → List M.Choice → M.State → Option (Except ε α × M.State)
  | ret a, [], σ => some (.ok a, σ)
  | fail e, [], σ => some (.error e, σ)
  | step s k, ch :: chs, σ => (M.run i s ch σ).bind fun p => (k p.1).eval chs p.2
  | _, _, _ => none

/-- The program performs some of its statements with nothing in between, and `p'` is left of it. -/
inductive Steps {M : Machine S} (ok : Guard M) (i : ℕ) :
    Prog S ε α → M.State → Prog S ε α → M.State → Prop
  | refl {p : Prog S ε α} {σ : M.State} : Steps ok i p σ p σ
  | step {s : S.Stmt} {k : S.Res s → Prog S ε α} {ch : M.Choice} {r : S.Res s}
      {σ σ₁ σ₂ : M.State} {p' : Prog S ε α} (hok : ok i s ch σ)
      (hr : M.run i s ch σ = some (r, σ₁)) (h : Steps ok i (k r) σ₁ p' σ₂) :
      Steps ok i (.step s k) σ p' σ₂

namespace Steps

variable {M : Machine S} {ok : Guard M} {i : ℕ} {σ σ₁ σ₂ : M.State} {p p₁ p₂ : Prog S ε α}

/-- One stretch after another. -/
theorem trans (h₁ : Steps ok i p σ p₁ σ₁) (h₂ : Steps ok i p₁ σ₁ p₂ σ₂) :
    Steps ok i p σ p₂ σ₂ := by
  induction h₁ with
  | refl => exact h₂
  | step hok hr _ ih => exact .step hok hr (ih h₂)

/-- A program that returns performs nothing. -/
theorem ret {a : α} (h : Steps ok i (.ret a) σ p₁ σ₁) : p₁ = .ret a ∧ σ₁ = σ := by
  cases h with
  | refl => exact ⟨rfl, rfl⟩

/-- A program that has failed performs nothing. -/
theorem fail {e : ε} (h : Steps ok i (.fail e) σ p₁ σ₁) : p₁ = .fail e ∧ σ₁ = σ := by
  cases h with
  | refl => exact ⟨rfl, rfl⟩

/-- What a program performs begins with its first statement, or is nothing. -/
theorem cons {s : S.Stmt} {k : S.Res s → Prog S ε α} (h : Steps ok i (.step s k) σ p₁ σ₁) :
    (p₁ = .step s k ∧ σ₁ = σ) ∨
      ∃ ch r σ₂, ok i s ch σ ∧ M.run i s ch σ = some (r, σ₂) ∧ Steps ok i (k r) σ₂ p₁ σ₁ := by
  cases h with
  | refl => exact .inl ⟨rfl, rfl⟩
  | step hok hr hrest => exact .inr ⟨_, _, _, hok, hr, hrest⟩

/-- What the first part of a sequential composition performs. -/
theorem bind {f : α → Prog S ε β} (h : Steps ok i p σ p₁ σ₁) :
    Steps ok i (p.bind f) σ (p₁.bind f) σ₁ := by
  induction h with
  | refl => exact .refl
  | step hok hr _ ih => exact .step hok hr ih

/-- What a program with a handler performs until it fails. -/
theorem tryCatch {h' : ε → Prog S ε α} (h : Steps ok i p σ p₁ σ₁) :
    Steps ok i (p.tryCatch h') σ (p₁.tryCatch h') σ₁ := by
  induction h with
  | refl => exact .refl
  | step hok hr _ ih => exact .step hok hr ih

/-- Performed to its end, the program evaluates to what it returns. -/
theorem eval {a : α} (h : Steps ok i p σ p₁ σ₁) (ha : p₁ = .ret a) :
    ∃ chs, p.eval M i chs σ = some (.ok a, σ₁) := by
  induction h with
  | @refl p σ => exact ⟨[], by rw [ha]; rfl⟩
  | @step s k ch r σ σ₁ σ₂ p' _ hr _ ih =>
    obtain ⟨chs, he⟩ := ih ha
    exact ⟨ch :: chs, by simp [Prog.eval, hr, he]⟩

/-- A program of a configuration may perform its statements with nothing in between. -/
theorem run {c : Config M ε α} (h : Steps ok i p σ p₁ σ₁) (hσ : c.state = σ)
    (hp : c.pool[i]? = some p) : c.Run ok ⟨σ₁, c.pool.set i p₁⟩ := by
  induction h generalizing c with
  | refl =>
    obtain ⟨hlen, rfl⟩ := List.getElem?_eq_some_iff.mp hp
    rw [List.set_getElem_self, ← hσ]
    exact .refl
  | @step s k ch r σ σ₁ σ₂ p' hok hr _ ih =>
    subst hσ
    have hlen : i < c.pool.length := (List.getElem?_eq_some_iff.mp hp).1
    have hrest := ih (c := ⟨σ₁, c.pool.set i (k r)⟩) rfl (by simp [hlen])
    rw [List.set_set] at hrest
    exact .head (.thread hp hok hr) hrest

end Steps

end Prog

end Interleaving
