import Reeva.Interleaving.Atomicity

/-!
# Contracts

A `Contract` is an automaton for one program: at each of its stages it says what the program may read,
what it may call and which writes it may publish together, and the stage after that. A program keeps
its contract when its text does so, statement by statement (`Contract.Keeps`); nothing need be known
of the other programs. Programs that keep their contracts refine the system of their automata, in
which every publication is one step and where transactions, locks and faults are gone
(`Related.run`): what holds throughout the runs of that system holds throughout theirs.
-/

open Interleaving

namespace ReadCommitted

variable {D : Schema} {E : Signature.{0}} {X : Machine E} {S ε α β : Type}

/-- The stages of a program, and what it may do at each of them. -/
structure Contract (D : Schema) (E : Signature.{0}) (S : Type) where
  /-- It reads what is committed, after what it has written in its open transaction. -/
  reads : S → List D.Write → D.Db → S → Prop
  /-- It calls the outside world, which returns a result. -/
  calls : S → (e : E.Stmt) → E.Res e → S → Prop
  /-- It publishes writes together. -/
  publishes : S → List D.Write → S → Prop
  /-- It may use up the bound of a loop. -/
  halts : S → Prop

namespace Contract

variable {K : Contract D E S}

/-- Whatever becomes of a statement, the contract allows it, and `C` holds of its result, the stage
after it and what the open transaction has written. -/
def Allows (K : Contract D E S) :
    (a : Action D E) → ((signature D E).Res a → S → Option (List D.Write) → Prop) →
      S → Option (List D.Write) → Prop
  | .ext e, C, s, tx => ∀ r, ∃ s', K.calls s e r s' ∧ C r s' tx
  | .halt, _, s, _ => K.halts s
  | .db (.query f), C, s, tx =>
    (∀ d, ∃ s', K.reads s (tx.getD []) d s' ∧
      C (.ok (f (Server.applyAll (tx.getD []) d))) s' tx) ∧ ∀ e, C (.error e) s tx
  | .db (.write w), C, s, none =>
    (∀ r, ∃ s', K.publishes s [w] s' ∧ C r s' none) ∧ ∀ e, C (.error e) s none
  | .db (.write w), C, s, some ws =>
    (∀ r, C r s (some (ws ++ [w]))) ∧ ∀ e, C (.error e) s (some ws)
  | .db (.lock _), C, s, tx => ∀ r, C r s tx
  | .db (.advisory _), C, s, tx => ∀ r, C r s tx
  | .db .begin, C, s, tx => C (.ok ()) s (some []) ∧ ∀ e, C (.error e) s tx
  | .db .commit, C, s, tx =>
    (∀ r, ∃ s', K.publishes s (tx.getD []) s' ∧ C r s' none) ∧ ∀ e, C (.error e) s none
  | .db .rollback, C, s, _ => ∀ r, C r s none

/-- What is weaker holds as well. -/
theorem Allows.mono {a : Action D E} {C C' : (signature D E).Res a → S → Option (List D.Write) → Prop}
    {s : S} {tx : Option (List D.Write)} (h : K.Allows a C s tx)
    (hC : ∀ r s tx, C r s tx → C' r s tx) : K.Allows a C' s tx := by
  have some_stage : ∀ {P : S → Prop} {r tx}, (∃ s', P s' ∧ C r s' tx) → ∃ s', P s' ∧ C' r s' tx :=
    fun ⟨s', hs, h⟩ => ⟨s', hs, hC _ _ _ h⟩
  cases a with
  | ext e => exact fun r => some_stage (h r)
  | halt => exact h
  | db st =>
    cases st with
    | query f => exact ⟨fun d => some_stage (h.1 d), fun e => hC _ _ _ (h.2 e)⟩
    | write w =>
      cases tx with
      | none => exact ⟨fun r => some_stage (h.1 r), fun e => hC _ _ _ (h.2 e)⟩
      | some ws => exact ⟨fun r => hC _ _ _ (h.1 r), fun e => hC _ _ _ (h.2 e)⟩
    | lock rows => exact fun r => hC _ _ _ (h r)
    | advisory n => exact fun r => hC _ _ _ (h r)
    | begin => exact ⟨hC _ _ _ h.1, fun e => hC _ _ _ (h.2 e)⟩
    | commit => exact ⟨fun r => some_stage (h.1 r), fun e => hC _ _ _ (h.2 e)⟩
    | rollback => exact fun r => hC _ _ _ (h r)

/-- The program keeps the contract, and ends in `Q` or fails in `F`: at that stage, and with that
transaction open. -/
def Keeps (K : Contract D E S) : Prog (signature D E) ε α →
    (α → S → Option (List D.Write) → Prop) → (ε → S → Option (List D.Write) → Prop) →
      S → Option (List D.Write) → Prop
  | .ret a, Q, _ => Q a
  | .fail e, _, F => F e
  | .step a k, Q, F => K.Allows a fun r => Keeps K (k r) Q F

/-! ## Rules -/

section rules

variable {Q Q' : α → S → Option (List D.Write) → Prop} {F F' : ε → S → Option (List D.Write) → Prop}
  {s : S} {tx : Option (List D.Write)}

/-- Weaker postconditions. -/
theorem Keeps.mono {p : Prog (signature D E) ε α} (h : K.Keeps p Q F s tx)
    (hQ : ∀ a s tx, Q a s tx → Q' a s tx) (hF : ∀ e s tx, F e s tx → F' e s tx) :
    K.Keeps p Q' F' s tx := by
  induction p generalizing s tx with
  | ret a => exact hQ a s tx h
  | fail e => exact hF e s tx h
  | step a k ih => exact Allows.mono h fun r _ _ => ih r

/-- Sequential composition: the second program starts where the first one ends. -/
theorem keeps_bind {p : Prog (signature D E) ε α} {f : α → Prog (signature D E) ε β}
    {Q : β → S → Option (List D.Write) → Prop} (h : K.Keeps p (fun a => K.Keeps (f a) Q F) F s tx) :
    K.Keeps (p.bind f) Q F s tx := by
  induction p generalizing s tx with
  | ret a => exact h
  | fail e => exact h
  | step a k ih => exact Allows.mono h fun r _ _ => ih r

/-- A handler: it starts where the program fails. -/
theorem keeps_tryCatch {p : Prog (signature D E) ε α} {h : ε → Prog (signature D E) ε α}
    (hp : K.Keeps p Q (fun e => K.Keeps (h e) Q F) s tx) : K.Keeps (p.tryCatch h) Q F s tx := by
  induction p generalizing s tx with
  | ret a => exact hp
  | fail e => exact hp
  | step a k ih => exact Allows.mono hp fun r _ _ => ih r

/-- An attempt never fails. -/
theorem keeps_attempt {p : Prog (signature D E) ε α}
    {Q : Except ε α → S → Option (List D.Write) → Prop}
    (h : K.Keeps p (fun a => Q (.ok a)) (fun e => Q (.error e)) s tx) :
    K.Keeps p.attempt Q F s tx := keeps_tryCatch (keeps_bind h)

end rules

section statements

variable {Q : α → S → Option (List D.Write) → Prop}
  {F : Failure ε → S → Option (List D.Write) → Prop} {s : S} {tx : Option (List D.Write)}

/-- A query. -/
theorem keeps_query {f : D.Db → β} {k : β → Prog (signature D E) (Failure ε) α}
    (hF : F (.database .connection) s tx) (hF' : F (.database .constraint) s tx)
    (h : ∀ d, ∃ s', K.reads s (tx.getD []) d s' ∧
      K.Keeps (k (f (Server.applyAll (tx.getD []) d))) Q F s' tx) :
    K.Keeps ((query f).bind k) Q F s tx := by
  refine ⟨h, fun e => ?_⟩
  cases e with
  | connection => exact hF
  | constraint => exact hF'

/-- A call of the outside world. -/
theorem keeps_ext {e : E.Stmt} {k : E.Res e → Prog (signature D E) (Failure ε) α}
    (h : ∀ r, ∃ s', K.calls s e r s' ∧ K.Keeps (k r) Q F s' tx) :
    K.Keeps ((ext e).bind k) Q F s tx := h

/-- A write within a transaction. -/
theorem keeps_write {w : D.Write} {ws : List D.Write} {k : ℕ → Prog (signature D E) (Failure ε) α}
    (hF : ∀ e ws, F (.database e) s (some ws))
    (h : ∀ n, K.Keeps (k n) Q F s (some (ws ++ [w]))) :
    K.Keeps ((write w).bind k) Q F s (some ws) := by
  refine ⟨fun r => ?_, fun e => hF e ws⟩
  cases r with
  | ok n => exact h n
  | error e => exact hF e _

/-- A transaction: it publishes what it has written when its program ends, unless it is rolled
back. -/
theorem keeps_transaction {p : Prog (signature D E) (Failure ε) α}
    (hp : K.Keeps p
      (fun a s' tx => (∃ s'', K.publishes s' (tx.getD []) s'' ∧ Q a s'' none ∧
        ∀ e, F (.database e) s'' none) ∧ ∀ e, F (.database e) s' none)
      (fun e s' _ => F e s' none) s (some []))
    (hF : ∀ e, F (.database e) s tx) : K.Keeps (transaction p) Q F s tx := by
  -- The transaction begins, or fails to.
  refine ⟨?_, hF⟩
  change K.Keeps ((p.tryCatch fun e => .step (.db .rollback) fun _ => .fail e).bind fun a =>
    (db .commit).bind fun _ => .ret a) Q F s (some [])
  refine keeps_bind (keeps_tryCatch (hp.mono ?_ fun e s' _ h _ => h))
  rintro a s' tx ⟨⟨s'', hpub, hQ, hlost⟩, hfail⟩
  refine ⟨fun r => ⟨s'', hpub, ?_⟩, hfail⟩
  cases r with
  | ok _ => exact hQ
  | error e => exact hlost e

/-- The writes that a transaction has written. -/
def Wrote (W : D.Write → Prop) (tx : Option (List D.Write)) : Prop := ∀ w ∈ tx.getD [], W w

/-- A program whose writes may be published in any number and order. -/
theorem keeps_of_only {W : D.Write → Prop} (hreads : ∀ ws d, K.reads s ws d s)
    (hcalls : ∀ e r, K.calls s e r s)
    (hpub : ∀ ws : List D.Write, (∀ w ∈ ws, W w) → K.publishes s ws s) (hhalts : K.halts s)
    {p : Prog (signature D E) (Failure ε) α} (hp : p.Only (Writes True W)) (htx : Wrote W tx) :
    K.Keeps p (fun _ s' _ => s' = s) (fun _ s' _ => s' = s) s tx := by
  have hnone : Wrote W (none : Option (List D.Write)) := fun w hw => by cases hw
  induction p generalizing tx with
  | ret a => rfl
  | fail e => rfl
  | step a k ih =>
    obtain ⟨ha, hk⟩ := hp
    cases a with
    | ext e => exact fun r => ⟨s, hcalls e r, ih r (hk r) htx⟩
    | halt => exact hhalts
    | db st =>
      cases st with
      | query f => exact ⟨fun d => ⟨s, hreads _ d, ih _ (hk _) htx⟩, fun e => ih _ (hk _) htx⟩
      | write w =>
        cases tx with
        | none =>
          have hone : ∀ v ∈ [w], W v := fun v hv => List.mem_singleton.mp hv ▸ ha
          exact ⟨fun r => ⟨s, hpub [w] hone, ih r (hk r) hnone⟩, fun e => ih _ (hk _) hnone⟩
        | some ws =>
          have hmore : Wrote W (some (ws ++ [w])) := fun v hv =>
            (List.mem_append.mp hv).elim (htx v) fun hv => List.mem_singleton.mp hv ▸ ha
          exact ⟨fun r => ih r (hk r) hmore, fun e => ih _ (hk _) htx⟩
      | lock rows => exact fun r => ih r (hk r) htx
      | advisory n => exact fun r => ih r (hk r) htx
      | begin => exact ⟨ih _ (hk _) (fun w hw => by cases hw), fun e => ih _ (hk _) htx⟩
      | commit => exact ⟨fun r => ⟨s, hpub _ htx, ih r (hk r) hnone⟩, fun e => ih _ (hk _) hnone⟩
      | rollback => exact fun r => ih r (hk r) hnone

/-- The contract that allows everything, at one stage. -/
def anything (D : Schema) (E : Signature.{0}) (S : Type) : Contract D E S where
  reads s _ _ s' := s' = s
  calls s _ _ s' := s' = s
  publishes s _ s' := s' = s
  halts _ := True

/-- Every program keeps it. -/
theorem keeps_anything (p : Prog (signature D E) (Failure ε) α) :
    (anything D E S).Keeps p (fun _ _ _ => True) (fun _ _ _ => True) s tx := by
  have hp : p.Only (Writes True fun _ => True) := by
    induction p with
    | ret a => trivial
    | fail e => trivial
    | step a k ih =>
      refine ⟨?_, ih⟩
      cases a with
      | db st => cases st <;> trivial
      | _ => trivial
  have htx : Wrote (fun _ => True) tx := fun _ _ => trivial
  have h := keeps_of_only (K := anything D E S) (s := s) (fun _ _ => rfl) (fun _ _ => rfl)
    (fun _ _ => rfl) trivial hp htx
  exact h.mono (fun _ _ _ _ => trivial) fun _ _ _ _ => trivial

end statements

/-! ## Statements of the server -/

/-- A statement publishes something, reads something, or does neither; in each case it goes on as the
contract allows. -/
theorem Allows.exec {st : Stmt D} {C : st.Res → S → Option (List D.Write) → Prop} {s : S}
    {i : ℕ} {φ : Fault} {srv srv' : Server D} {r : st.Res}
    (h : K.Allows (.db st) C s (srv.tx i)) (he : Server.exec i st φ srv = some (r, srv')) :
    srv'.db = srv.db ∧ (C r s (srv'.tx i) ∨
      ∃ s', K.reads s ((srv.tx i).getD []) srv.db s' ∧ C r s' (srv'.tx i)) ∨
    ∃ ws s', Server.publish ws srv.db = some srv'.db ∧ K.publishes s ws s' ∧ C r s' (srv'.tx i) := by
  have released : (srv.release i).tx i = none := Function.update_self ..
  cases st with
  | query f =>
    obtain ⟨rfl, rfl | rfl⟩ := Server.exec_query he
    · obtain ⟨s', hread, hC⟩ := h.1 srv'.db
      exact .inl ⟨rfl, .inr ⟨s', hread, hC⟩⟩
    · exact .inl ⟨rfl, .inl (h.2 _)⟩
  | write w =>
    cases htx : srv.tx i with
    | none =>
      rw [htx] at h
      rcases Server.exec_write he with ⟨rfl, e, rfl⟩ | ⟨rfl, -, n, d, happ, -⟩
      · exact .inl ⟨rfl, .inl (htx ▸ h.2 e)⟩
      · -- Outside of a transaction the write is published at once.
        obtain ⟨s', hpub, hC⟩ := h.1 r
        rw [Server.view_of_none htx] at happ
        rw [Server.record_of_none htx]
        refine .inr ⟨[w], s', ?_, hpub, htx ▸ hC⟩
        simp [Server.publish, Server.applyOne, happ]
    | some ws =>
      rw [htx] at h
      rcases Server.exec_write he with ⟨rfl, e, rfl⟩ | ⟨rfl, -, -⟩
      · exact .inl ⟨rfl, .inl (htx ▸ h.2 e)⟩
      · rw [Server.record_of_some htx]
        refine .inl ⟨rfl, .inl ?_⟩
        change C r s (Function.update srv.tx i (some (ws ++ [w])) i)
        rw [Function.update_self]
        exact h.1 r
  | lock rows =>
    obtain ⟨hdb, htx, -⟩ := Server.exec_lock he
    exact .inl ⟨hdb, .inl (htx ▸ h r)⟩
  | advisory n =>
    rcases Server.exec_advisory_cases he with ⟨rfl, -⟩ | ⟨rfl, -⟩ <;> exact .inl ⟨rfl, .inl (h r)⟩
  | begin =>
    rcases Server.exec_begin he with ⟨rfl, rfl⟩ | ⟨rfl, e, rfl⟩
    · refine .inl ⟨rfl, .inl ?_⟩
      change C (.ok ()) s (Function.update srv.tx i (some []) i)
      rw [Function.update_self]
      exact h.1
    · exact .inl ⟨rfl, .inl (h.2 e)⟩
  | commit =>
    rcases Server.exec_commit he with ⟨d, hd, rfl⟩ | ⟨rfl, e, rfl⟩
    · obtain ⟨s', hpub, hC⟩ := h.1 r
      exact .inr ⟨_, s', hd, hpub, released.symm ▸ hC⟩
    · exact .inl ⟨rfl, .inl (released.symm ▸ h.2 e)⟩
  | rollback =>
    obtain ⟨-, rfl⟩ := Prod.mk.inj (Option.some.inj he)
    exact .inl ⟨rfl, .inl (released.symm ▸ h r)⟩

/-- A statement of the server leaves the outside world as it is. -/
theorem run_db_world {i : ℕ} {st : Stmt D} {φ : Fault} {r : st.Res} {σ σ' : System D X.State}
    (hr : (Service D X).run i (.db st) (.db φ) σ = some (r, σ')) : σ'.world = σ.world := by
  simp only [Service] at hr
  split at hr
  · cases hr
  · obtain ⟨p, -, hp⟩ := Option.map_eq_some_iff.mp hr
    cases hp
    rfl

/-! ## The system of the contracts -/

/-- Every program's stage, what is committed, and the outside world. -/
structure State (D : Schema) (X : Machine E) (S : Type) where
  /-- The stage of each program. -/
  stage : ℕ → S
  /-- What is committed. -/
  db : D.Db
  /-- The outside world. -/
  world : X.State

/-- One step of a program, as its contract allows it, or of the outside world. -/
inductive Move (K : ℕ → Contract D E S) : Option ℕ → State D X S → State D X S → Prop
  | reads {a : State D X S} {i : ℕ} {ws : List D.Write} {s : S}
    (h : (K i).reads (a.stage i) ws a.db s) :
    Move K (some i) a { a with stage := Function.update a.stage i s }
  | calls {a : State D X S} {i : ℕ} {e : E.Stmt} {c : X.Choice} {r : E.Res e} {w : X.State} {s : S}
    (hr : X.run i e c a.world = some (r, w)) (h : (K i).calls (a.stage i) e r s) :
    Move K (some i) a { a with stage := Function.update a.stage i s, world := w }
  | publishes {a : State D X S} {i : ℕ} {ws : List D.Write} {d : D.Db} {s : S}
    (hd : Server.publish ws a.db = some d) (h : (K i).publishes (a.stage i) ws s) :
    Move K (some i) a { a with stage := Function.update a.stage i s, db := d }
  | env {a : State D X S} {c : X.Choice} {w : X.State} (hw : X.env c a.world = some w) :
    Move K none a { a with world := w }

/-- A step leaves the stages of the other programs. -/
theorem Move.stage_of_ne {K : ℕ → Contract D E S} {m : Option ℕ} {A A' : State D X S}
    (h : Move K m A A') {i : ℕ} (hi : m ≠ some i) : A'.stage i = A.stage i := by
  have others : ∀ {j : ℕ} {s : S}, some j ≠ some i → Function.update A.stage j s i = A.stage i :=
    fun hij => Function.update_of_ne (fun heq => hij (congrArg some heq.symm)) _ _
  cases h with
  | env hw => rfl
  | _ => exact others hi

/-- What a step of a program is for itself. -/
theorem Move.stage_self {K : ℕ → Contract D E S} {i : ℕ} {A A' : State D X S}
    (h : Move K (some i) A A') :
    (∃ ws, (K i).reads (A.stage i) ws A.db (A'.stage i) ∧ A'.db = A.db) ∨
    (∃ e c r w, X.run i e c A.world = some (r, w) ∧ (K i).calls (A.stage i) e r (A'.stage i) ∧
      A'.db = A.db ∧ A'.world = w) ∨
    ∃ ws, (K i).publishes (A.stage i) ws (A'.stage i) ∧ Server.publish ws A.db = some A'.db := by
  have hself : ∀ s, Function.update A.stage i s i = s := fun s => Function.update_self ..
  cases h with
  | @reads _ _ ws s hk =>
    refine .inl ⟨ws, ?_, rfl⟩
    exact (congrArg ((K i).reads (A.stage i) ws A.db) (hself s)).mpr hk
  | @calls _ _ e c r w s hr hk =>
    refine .inr (.inl ⟨e, c, r, w, hr, ?_, rfl, rfl⟩)
    exact (congrArg ((K i).calls (A.stage i) e r) (hself s)).mpr hk
  | @publishes _ _ ws d s hd hk =>
    refine .inr (.inr ⟨ws, ?_, hd⟩)
    exact (congrArg ((K i).publishes (A.stage i) ws) (hself s)).mpr hk

/-- Runs of the contracts. -/
def Moves (K : ℕ → Contract D E S) : State D X S → State D X S → Prop :=
  Relation.ReflTransGen fun A A' => ∃ m, Move K m A A'

/-- The programs stand where the automata do: each program keeps its contract from its stage on, with
the transaction that it has open or had when it vanished. -/
structure Related (K : ℕ → Contract D E S) (Q : ℕ → α → S → Prop) (F : ℕ → ε → S → Prop)
    (c : Config (Service D X) ε α) (a : State D X S) : Prop where
  db : a.db = c.state.server.db
  world : a.world = c.state.world
  keeps : ∀ i p, c.pool[i]? = some p → ∃ tx,
    (c.state.server.gone i = false → c.state.server.tx i = tx) ∧
      (K i).Keeps p (fun x s _ => Q i x s) (fun e s _ => F i e s) (a.stage i) tx

/-- Programs that keep their contracts from their first stages on stand there. -/
theorem related_idle {K : ℕ → Contract D E S} {Q : ℕ → α → S → Prop} {F : ℕ → ε → S → Prop}
    {pool : List (Prog (signature D E) ε α)} {s : S} (d : D.Db) (w : X.State)
    (h : ∀ i p, pool[i]? = some p →
      (K i).Keeps p (fun x s _ => Q i x s) (fun e s _ => F i e s) s none) :
    Related K Q F ⟨⟨Server.idle d, w⟩, pool⟩ ⟨fun _ => s, d, w⟩ where
  db := rfl
  world := rfl
  keeps i p hp := ⟨none, fun _ => rfl, h i p hp⟩

/-- A program that keeps its contract from its first stage on, beside programs of which nothing is
known. -/
theorem related_beside {K : Contract D E S} {Q : α → S → Prop} {j : ℕ}
    {pool : List (Prog (signature D E) (Failure ε) α)} {p : Prog (signature D E) (Failure ε) α}
    {s : S} (d : D.Db) (w : X.State) (hj : pool[j]? = some p)
    (h : K.Keeps p (fun x s _ => Q x s) (fun _ _ _ => True) s none) :
    Related (fun i => if i = j then K else anything D E S) (fun i x s => i = j → Q x s)
      (fun _ _ _ => True) ⟨⟨Server.idle d, w⟩, pool⟩ ⟨fun _ => s, d, w⟩ := by
  refine related_idle d w fun i p' hp => ?_
  by_cases hij : i = j
  · subst hij
    obtain rfl := Option.some.inj (hj.symm.trans hp)
    rw [if_pos rfl]
    exact h.mono (fun _ _ _ hQ _ => hQ) fun _ _ _ h => h
  · rw [if_neg hij]
    exact (keeps_anything p').mono (fun _ _ _ _ heq => absurd heq hij) fun _ _ _ h => h

namespace Related

variable {K : ℕ → Contract D E S} {Q : ℕ → α → S → Prop} {F : ℕ → ε → S → Prop}
  {ok : Guard (Service D X)} {c c' : Config (Service D X) ε α} {A : State D X S} {i : ℕ}

/-- A program that has returned is in its postcondition. -/
theorem returned (h : Related K Q F c A) {x : α} (hp : c.pool[i]? = some (.ret x)) :
    Q i x (A.stage i) := by
  obtain ⟨tx, -, hk⟩ := h.keeps i _ hp
  exact hk

/-- A program that has failed is in its failure's postcondition. -/
theorem failed (h : Related K Q F c A) {e : ε} (hp : c.pool[i]? = some (.fail e)) :
    F i e (A.stage i) := by
  obtain ⟨tx, -, hk⟩ := h.keeps i _ hp
  exact hk

/-- A program that is still there keeps its contract with the transaction that it has open. -/
theorem here (h : Related K Q F c A) {p : Prog (signature D E) ε α} (hp : c.pool[i]? = some p)
    (hg : c.state.server.gone i = false) :
    (K i).Keeps p (fun x s _ => Q i x s) (fun e s _ => F i e s) (A.stage i)
      (c.state.server.tx i) := by
  obtain ⟨tx, htx, hk⟩ := h.keeps i _ hp
  exact htx hg ▸ hk

/-- The step of program `i` leads to a stage from which it keeps its contract, and leaves the
others. -/
theorem after (h : Related K Q F c A) {a : Action D E}
    {k : (signature D E).Res a → Prog (signature D E) ε α} {r : (signature D E).Res a}
    {ch : Decision X.Choice} {σ : System D X.State}
    (hr : (Service D X).run i a ch c.state = some (r, σ)) {s : S}
    (hk : (K i).Keeps (k r) (fun x s _ => Q i x s) (fun e s _ => F i e s) s (σ.server.tx i)) :
    Related K Q F ⟨σ, c.pool.set i (k r)⟩
      ⟨Function.update A.stage i s, σ.server.db, σ.world⟩ := by
  obtain ⟨hgone, htx, -⟩ := run_opens hr
  refine ⟨rfl, rfl, fun j p hp => ?_⟩
  change ∃ tx, (σ.server.gone j = false → σ.server.tx j = tx) ∧
    (K j).Keeps p _ _ (Function.update A.stage i s j) tx
  simp only [List.getElem?_set] at hp
  by_cases hij : i = j
  · subst hij
    rw [if_pos rfl] at hp
    split at hp
    · obtain rfl := Option.some.inj hp
      rw [Function.update_self]
      exact ⟨_, fun _ => rfl, hk⟩
    · cases hp
  · rw [if_neg hij] at hp
    rw [Function.update_of_ne (Ne.symm hij), htx j (Ne.symm hij), hgone]
    exact h.keeps j p hp

/-- A call of the outside world is a call of the automaton. -/
theorem call (h : Related K Q F c A) {e : E.Stmt} {k : E.Res e → Prog (signature D E) ε α}
    (hp : c.pool[i]? = some (.step (.ext e) k)) {x : X.Choice} {r : E.Res e} {σ : System D X.State}
    (hr : (Service D X).run i (.ext e) (.ext x) c.state = some (r, σ)) :
    ∃ s, (K i).calls (A.stage i) e r s ∧ X.run i e x A.world = some (r, σ.world) ∧
      Related K Q F ⟨σ, c.pool.set i (k r)⟩
        { A with stage := Function.update A.stage i s, world := σ.world } := by
  have hgone := (run_cases hr).1
  obtain ⟨s, hcalls, hk⟩ := h.here hp hgone r
  have hrun := hr
  simp only [Service, hgone, Bool.false_eq_true, if_false] at hrun
  obtain ⟨⟨r', w⟩, hx, hw⟩ := Option.map_eq_some_iff.mp hrun
  cases hw
  refine ⟨s, hcalls, h.world ▸ hx, ?_⟩
  have hafter := h.after (a := .ext e) (k := k) hr (s := s) hk
  simpa only [h.db] using hafter

/-- A statement of a program is a step of its automaton, or none. -/
theorem stepBy (h : Related K Q F c A) (hs : c.StepBy ok i c') :
    ∃ A', Relation.ReflGen (Move K (some i)) A A' ∧ Related K Q F c' A' := by
  obtain ⟨a, k, ch, r, σ, hp, hok, hr, rfl⟩ := hs
  have hkeeps := h.here hp (run_cases hr).1
  cases a with
  | halt => exact r.elim
  | ext e =>
    cases ch with
    | ext x =>
      obtain ⟨s, hcalls, hx, hrel⟩ := h.call hp hr
      exact ⟨_, .single (.calls hx hcalls), hrel⟩
    | _ => cases hr
  | db st =>
    obtain ⟨-, ⟨e, _, he, -⟩ | ⟨st', φ, r', hst, rfl, hres, he⟩⟩ := run_cases hr
    · cases he
    cases hst
    cases hres
    have hworld : σ.world = A.world := (run_db_world hr).trans h.world.symm
    rcases Allows.exec hkeeps he with ⟨hdb, hC | ⟨s', hread, hC⟩⟩ | ⟨ws, s', hpub, hK, hC⟩
    · have hafter := h.after hr hC
      rw [Function.update_eq_self, hdb, hworld, ← h.db] at hafter
      exact ⟨A, .refl, hafter⟩
    · have hafter := h.after hr hC
      rw [hdb, hworld, ← h.db] at hafter
      rw [← h.db] at hread
      exact ⟨_, .single (.reads hread), hafter⟩
    · have hafter := h.after hr hC
      rw [hworld] at hafter
      rw [← h.db] at hpub
      exact ⟨_, .single (.publishes hpub hK), hafter⟩

/-- The environment moves the outside world, or ends a program. -/
theorem env (h : Related K Q F c A) {ch : (Service D X).Choice} {σ : System D X.State}
    (he : (Service D X).env ch c.state = some σ) :
    ∃ A', Relation.ReflGen (Move K none) A A' ∧ Related K Q F ⟨σ, c.pool⟩ A' := by
  cases ch with
  | db φ => cases he
  | ext x =>
    obtain ⟨w, hw, rfl⟩ := Option.map_eq_some_iff.mp he
    exact ⟨{ A with world := w }, .single (.env (h.world ▸ hw)), h.db, rfl, h.keeps⟩
  | abort j =>
    cases he
    -- The program that vanishes keeps its stage, and the server ends its transaction.
    refine ⟨A, .refl, h.db, h.world, fun i p hp => ?_⟩
    obtain ⟨tx, htx, hk⟩ := h.keeps i p hp
    refine ⟨tx, fun hg => ?_, hk⟩
    have hij : i ≠ j := by
      rintro rfl
      simp [Server.abort] at hg
    change Function.update c.state.server.tx j none i = tx
    rw [Function.update_of_ne hij]
    exact htx ((Function.update_of_ne hij _ _).symm.trans hg)

/-- A step of the programs is a step of the automata, or none. -/
theorem step (h : Related K Q F c A) (hs : c.Step ok c') :
    ∃ m A', Relation.ReflGen (Move K m) A A' ∧ Related K Q F c' A' ∧
      ∀ i, m = some i → c.StepBy ok i c' := by
  rcases hs.cases_by with ⟨i, hi⟩ | ⟨ch, σ, he, rfl⟩
  · obtain ⟨A', hmove, hrel⟩ := h.stepBy hi
    exact ⟨some i, A', hmove, hrel, fun j hj => Option.some.inj hj ▸ hi⟩
  · obtain ⟨A', hmove, hrel⟩ := h.env he
    exact ⟨none, A', hmove, hrel, fun j hj => by cases hj⟩

/-- An invariant of the programs and their automata holds throughout a run when every step keeps
it. -/
theorem invariant {I : Config (Service D X) ε α → State D X S → Prop} (h : Related K Q F c A)
    (hI : I c A)
    (hstep : ∀ {c₁ c₂ A₁ A₂ m}, c.Run ok c₁ → c₁.Step ok c₂ → Related K Q F c₁ A₁ →
      Related K Q F c₂ A₂ → Relation.ReflGen (Move K m) A₁ A₂ →
      (∀ i, m = some i → c₁.StepBy ok i c₂) → I c₁ A₁ → I c₂ A₂)
    (hr : c.Run ok c') : ∃ A', Related K Q F c' A' ∧ I c' A' := by
  induction hr with
  | refl => exact ⟨A, h, hI⟩
  | tail hrun hs ih =>
    obtain ⟨A₁, h₁, hI₁⟩ := ih
    obtain ⟨m, A₂, hmove, h₂, hby⟩ := h₁.step hs
    exact ⟨A₂, h₂, hstep hrun hs h₁ h₂ hmove hby hI₁⟩

/-- A run of the programs is a run of the automata. -/
theorem run (h : Related K Q F c A) (hr : c.Run ok c') :
    ∃ A', Moves K A A' ∧ Related K Q F c' A' := by
  have hmoves : ∃ A', Related K Q F c' A' ∧ Moves K A A' := by
    refine h.invariant (I := fun _ A' => Moves K A A') .refl ?_ hr
    intro c₁ c₂ A₁ A₂ m _ _ _ _ hmove _ hmoves
    cases hmove with
    | refl => exact hmoves
    | single hm => exact hmoves.tail ⟨m, hm⟩
  obtain ⟨A', h', hmoves⟩ := hmoves
  exact ⟨A', hmoves, h'⟩

end Related

end Contract

end ReadCommitted
