import Mathlib.Data.Nat.Notation

/-!
# A client's session with a database

A client sends statements over one connection. What a statement writes inside a transaction is in
effect when the transaction is committed; outside one it is in effect at once. Any statement may fail.
`Triple` is the calculus of assertions about sessions: a postcondition for programs that return, and
one for programs that throw.
-/

namespace Sessions

/-- A session: the committed contents, those that the open transaction sees, and the number of
statements sent. -/
structure Session (D : Type) where
  committed : D
  transaction : Option D := none
  sent : ℕ := 0

/-- A program with a connection. -/
abbrev Client (D : Type) := ExceptT String (StateM (Session D))

variable {D α β : Type}

/-- What the session's statements see. -/
def Session.contents (s : Session D) : D := s.transaction.getD s.committed

/-- A change of the contents. -/
def Session.write (s : Session D) (d : D) : Session D :=
  match s.transaction with
  | some _ => { s with transaction := some d }
  | none => { s with committed := d }

/-- The outcome of a program, and the session after it. -/
def Client.exec (m : Client D α) (s : Session D) : Except String α × Session D := m.run s

/-- One program after another. -/
theorem exec_bind (m : Client D α) (f : α → Client D β) (s : Session D) :
    Client.exec (m >>= f) s = match m.exec s with
      | (.ok a, s') => (f a).exec s'
      | (.error e, s') => (.error e, s') := by
  unfold Client.exec
  rcases h : ExceptT.run m s with ⟨r, s'⟩
  change (match ExceptT.run m s with | (r, s') => (ExceptT.bindCont f r) s') = _
  rw [h]
  cases r <;> rfl

/-- An error that is handled. -/
theorem exec_tryCatch (m : Client D α) (handle : String → Client D α) (s : Session D) :
    Client.exec (tryCatch m handle) s = match m.exec s with
      | (.ok a, s') => (.ok a, s')
      | (.error e, s') => (handle e).exec s' := by
  unfold Client.exec
  rcases h : ExceptT.run m s with ⟨r, s'⟩
  have hm : m s = (r, s') := h
  simp only [tryCatch, tryCatchThe, MonadExceptOf.tryCatch, ExceptT.tryCatch, ExceptT.run_mk, bind,
    StateT.bind, hm]
  cases r <;> rfl

/-! ## Statements -/

variable (refuses : ℕ → Bool)

/-- Sends a statement. `refuses` has the statements that fail whatever they say. -/
def query (run : Session D → Option (α × Session D)) : Client D α := fun s =>
  let s := { s with sent := s.sent + 1 }
  if refuses s.sent then (.error "Connection terminated", s)
  else
    match run s with
    | some (a, s') => (.ok a, s')
    | none => (.error "rejected by the database", s)

/-- `BEGIN`. -/
def begin : Client D Unit :=
  query refuses fun s => some ((), { s with transaction := some s.contents })

/-- `COMMIT`. -/
def commit : Client D Unit :=
  query refuses fun s => some ((), { s with committed := s.contents, transaction := none })

/-- `ROLLBACK`. -/
def rollback : Client D Unit :=
  query refuses fun s => some ((), { s with transaction := none })

/-- A statement that reads. -/
def select (read : D → α) : Client D α := query refuses fun s => some (read s.contents, s)

/-- A statement that writes, unless the database rejects it. -/
def update (write : D → Option D) : Client D Unit :=
  query refuses fun s => (write s.contents).map fun d => ((), s.write d)

/-! ## Assertions -/

/-- From every session that satisfies `P`, a program that returns `a` ends in a session that satisfies
`Q a`, and one that throws in a session that satisfies `R`. -/
def Triple (P : Session D → Prop) (m : Client D α) (Q : α → Session D → Prop)
    (R : Session D → Prop) : Prop :=
  ∀ s, P s → (∀ a s', m.exec s = (.ok a, s') → Q a s') ∧
    ∀ e s', m.exec s = (.error e, s') → R s'

namespace Triple

variable {P A : Session D → Prop} {Q B : α → Session D → Prop} {R S : Session D → Prop}

/-- A stronger precondition, and weaker postconditions. -/
theorem weaken {m : Client D α} (h : Triple A m B S) (hP : ∀ s, P s → A s)
    (hQ : ∀ a s, B a s → Q a s) (hR : ∀ s, S s → R s) : Triple P m Q R := by
  intro s hs
  obtain ⟨hok, herror⟩ := h s (hP s hs)
  exact ⟨fun a s' ha => hQ a s' (hok a s' ha), fun e s' he => hR s' (herror e s' he)⟩

/-- A returned value. -/
theorem pure (a : α) (h : ∀ s, P s → Q a s) : Triple P (pure a) Q R := by
  intro s hs
  refine ⟨fun b s' hb => ?_, fun e s' he => ?_⟩
  · cases hb
    exact h s hs
  · cases he

/-- A thrown error. -/
theorem throw (e : String) (h : ∀ s, P s → R s) : Triple P (throw e : Client D α) Q R := by
  intro s hs
  refine ⟨fun b s' hb => ?_, fun e' s' he => ?_⟩
  · cases hb
  · cases he
    exact h s hs

/-- A computation without statements. -/
theorem lift {x : Except String α} (hQ : ∀ a, x = .ok a → ∀ s, P s → Q a s)
    (hR : ∀ s, P s → R s) : Triple P (liftM x : Client D α) Q R := by
  cases x with
  | ok a => exact pure a (hQ a rfl)
  | error e => exact throw e hR

/-- The session itself. -/
theorem get {Q : Session D → Session D → Prop} (h : ∀ s, P s → Q s s) :
    Triple P (get : Client D (Session D)) Q R := by
  intro s hs
  refine ⟨fun b s' hb => ?_, fun e s' he => ?_⟩
  · cases hb
    exact h s hs
  · cases he

/-- One program after another. -/
theorem bind {m : Client D α} {f : α → Client D β} {Q' : β → Session D → Prop}
    (hm : Triple P m Q R) (hf : ∀ a, Triple (Q a) (f a) Q' R) : Triple P (m >>= f) Q' R := by
  intro s hs
  obtain ⟨hok, herror⟩ := hm s hs
  have hexec := exec_bind m f s
  rcases hr : m.exec s with ⟨r, s'⟩
  rw [hr] at hexec
  cases r with
  | ok a =>
    rw [hexec]
    exact hf a s' (hok a s' hr)
  | error e =>
    rw [hexec]
    refine ⟨fun b t hb => ?_, fun e' t he => ?_⟩
    · cases hb
    · cases he
      exact herror e s' hr

/-- An error that is handled. -/
theorem tryCatch {m : Client D α} {handle : String → Client D α} (hm : Triple P m Q S)
    (hh : ∀ e, Triple S (handle e) Q R) : Triple P (tryCatch m handle) Q R := by
  intro s hs
  obtain ⟨hok, herror⟩ := hm s hs
  have hexec := exec_tryCatch m handle s
  rcases hr : m.exec s with ⟨r, s'⟩
  rw [hr] at hexec
  cases r with
  | ok a =>
    rw [hexec]
    refine ⟨fun b t hb => ?_, fun e' t he => ?_⟩
    · cases hb
      exact hok a s' hr
    · cases he
  | error e =>
    rw [hexec]
    exact hh e s' (herror e s' hr)

/-- A loop; the invariant speaks of the elements that are done. -/
theorem forM {xs : List β} {f : β → Client D Unit} {I : List β → Session D → Prop}
    (h : ∀ done x rest, xs = done ++ x :: rest →
      Triple (I done) (f x) (fun _ => I (done ++ [x])) R) :
    Triple (I []) (xs.forM f) (fun _ => I xs) R := by
  have key : ∀ rest done, xs = done ++ rest →
      Triple (I done) (rest.forM f) (fun _ => I xs) R := by
    intro rest
    induction rest with
    | nil =>
      intro done hxs
      rw [List.append_nil] at hxs
      subst hxs
      exact pure () fun s hs => hs
    | cons x rest ih =>
      intro done hxs
      exact (h done x rest hxs).bind fun _ => ih (done ++ [x]) (by simp [hxs])
  exact key xs [] rfl

/-- A loop that collects what its iterations return. -/
theorem mapM {γ : Type} {xs : List β} {f : β → Client D γ}
    {I : List β → List γ → Session D → Prop}
    (h : ∀ done x rest ys, xs = done ++ x :: rest →
      Triple (I done ys) (f x) (fun y => I (done ++ [x]) (ys ++ [y])) R) :
    Triple (I [] []) (xs.mapM f) (fun ys => I xs ys) R := by
  have key : ∀ rest done ys, xs = done ++ rest →
      Triple (I done ys) (rest.mapM f) (fun zs => I xs (ys ++ zs)) R := by
    intro rest
    induction rest with
    | nil =>
      intro done ys hxs
      rw [List.append_nil] at hxs
      subst hxs
      exact pure [] fun s hs => by rwa [List.append_nil]
    | cons x rest ih =>
      intro done ys hxs
      rw [List.mapM_cons]
      refine (h done x rest ys hxs).bind fun y => ?_
      refine (ih (done ++ [x]) (ys ++ [y]) (by simp [hxs])).bind fun zs => ?_
      exact pure (y :: zs) fun s hs => by rwa [List.append_assoc] at hs
  exact (key xs [] [] rfl).weaken (fun _ h => h) (fun _ _ h => h) fun _ h => h

end Triple

/-! ## Transactions -/

/-- Inside a transaction that sees contents which satisfy `φ`; `c` is what is committed. -/
def Within (c : D) (φ : D → Prop) (s : Session D) : Prop :=
  s.committed = c ∧ ∃ d, s.transaction = some d ∧ φ d

/-- No transaction is open, and `c` is committed. -/
def Outside (c : D) (s : Session D) : Prop := s.committed = c ∧ s.transaction = none

/-- A weaker assertion about the contents. -/
theorem Within.imp {c : D} {φ ψ : D → Prop} (h : ∀ d, φ d → ψ d) {s : Session D}
    (hs : Within c φ s) : Within c ψ s := by
  obtain ⟨hc, d, hd, hφ⟩ := hs
  exact ⟨hc, d, hd, h d hφ⟩

variable {refuses} {c : D} {φ : D → Prop}

/-- A fact that does not depend on the contents. -/
theorem Triple.given {p : Prop} {m : Client D α} {Q : α → Session D → Prop}
    {R : Session D → Prop} (h : p → Triple (Within c φ) m Q R) :
    Triple (Within c fun d => φ d ∧ p) m Q R := by
  intro s hs
  obtain ⟨hc, d, hd, hφ, hp⟩ := hs
  exact h hp s ⟨hc, d, hd, hφ⟩

/-- What a statement establishes when it goes through, and that it leaves the session alone when it
does not, apart from the count. -/
theorem spec_query {run : Session D → Option (α × Session D)} {P : Session D → Prop}
    {Q : α → Session D → Prop} {R : Session D → Prop}
    (hP : ∀ s, P s → P { s with sent := s.sent + 1 })
    (hQ : ∀ s a s', P s → run s = some (a, s') → Q a s') (hR : ∀ s, P s → R s) :
    Triple P (query refuses run) Q R := by
  intro s hs
  have hexec : Client.exec (query refuses run) s =
      if refuses (s.sent + 1) then (.error "Connection terminated", { s with sent := s.sent + 1 })
      else match run { s with sent := s.sent + 1 } with
        | some (a, s') => (.ok a, s')
        | none => (.error "rejected by the database", { s with sent := s.sent + 1 }) := rfl
  have hsent := hP s hs
  rw [hexec]
  split
  · refine ⟨fun a s' ha => ?_, fun e s' he => ?_⟩
    · cases ha
    · cases he
      exact hR _ hsent
  · split
    · rename_i a t hrun
      refine ⟨fun a' s' ha => ?_, fun e s' he => ?_⟩
      · cases ha
        exact hQ _ a t hsent hrun
      · cases he
    · refine ⟨fun a s' ha => ?_, fun e s' he => ?_⟩
      · cases ha
      · cases he
        exact hR _ hsent

/-- The first statement of a transaction. -/
theorem spec_begin : Triple (Outside c) (begin refuses) (fun _ => Within c (· = c)) (Outside c) := by
  refine spec_query (fun s hs => hs) ?_ fun s hs => hs
  intro s a s' hs hrun
  cases hrun
  exact ⟨hs.1, _, rfl, by rw [Session.contents, hs.2, Option.getD_none, hs.1]⟩

/-- A transaction reads what it sees. -/
theorem spec_select (read : D → α) :
    Triple (Within c φ) (select refuses read) (fun a => Within c fun d => φ d ∧ a = read d)
      (Within c fun _ => True) := by
  refine spec_query (fun s hs => hs) ?_ fun s hs => hs.imp fun _ _ => trivial
  intro s a s' hs hrun
  obtain ⟨hc, d, hd, hφ⟩ := hs
  cases hrun
  exact ⟨hc, d, hd, hφ, by rw [Session.contents, hd, Option.getD_some]⟩

/-- A transaction writes what only it sees. -/
theorem spec_update {write : D → Option D} {ψ : D → Prop}
    (h : ∀ d d', φ d → write d = some d' → ψ d') :
    Triple (Within c φ) (update refuses write) (fun _ => Within c ψ) (Within c fun _ => True) := by
  refine spec_query (fun s hs => hs) ?_ fun s hs => hs.imp fun _ _ => trivial
  intro s a s' hs hrun
  obtain ⟨hc, d, hd, hφ⟩ := hs
  rw [Session.contents, hd, Option.getD_some] at hrun
  obtain ⟨d', hd', heq⟩ := Option.map_eq_some_iff.mp hrun
  cases heq
  rw [Session.write, hd]
  exact ⟨hc, d', rfl, h d d' hφ hd'⟩

/-- A commit puts in effect what the transaction sees. -/
theorem spec_commit :
    Triple (Within c φ) (commit refuses) (fun _ s => φ s.committed ∧ s.transaction = none)
      (Within c fun _ => True) := by
  refine spec_query (fun s hs => hs) ?_ fun s hs => hs.imp fun _ _ => trivial
  intro s a s' hs hrun
  obtain ⟨hc, d, hd, hφ⟩ := hs
  cases hrun
  exact ⟨by rwa [Session.contents, hd, Option.getD_some], rfl⟩

/-- A rollback leaves what was committed. -/
theorem spec_rollback :
    Triple (fun s => s.committed = c) (rollback refuses) (fun _ => Outside c)
      (fun s => s.committed = c) := by
  refine spec_query (fun s hs => hs) ?_ fun s hs => hs
  intro s a s' hs hrun
  cases hrun
  exact ⟨hs, rfl⟩

end Sessions
