import Mathlib.Logic.Function.Basic
import Reeva.Interleaving.RelyGuarantee

/-!
# A database at READ COMMITTED

A `Schema` says what a database holds, what one write does to it, and which rows a write locks. A
`Server` is the committed database together with the open transactions, at most one for each program:
a transaction's writes stay its own until it commits, the locks that it took stay with it until it
ends, and a statement that needs a lock of somebody else's blocks. Every statement sees what is
committed when it starts and what its own transaction has written. A statement may fail before or
after it took effect, and a program may vanish at any time, which ends its transaction without a
trace.

`Service` joins a server with the outside world of the programs into one `Machine`.
-/

open Interleaving

namespace ReadCommitted

/-- How a lock is held: together with others, or alone. -/
inductive Mode
  | share
  | exclusive
  deriving DecidableEq, Repr

/-- What a database is made of. -/
structure Schema where
  /-- The contents of a database. -/
  Db : Type
  /-- The statements that change it. -/
  Write : Type
  /-- What a lock protects, such as a row or an entry of a unique index. -/
  Row : Type
  /-- Rows are told apart. -/
  decRow : DecidableEq Row
  /-- The number of rows that a write affects, and the database after it; `none` when it violates a
  constraint. -/
  apply : Write → Db → Option (ℕ × Db)
  /-- The locks that a write takes. -/
  locks : Write → Db → List (Row × Mode)

attribute [instance] Schema.decRow

/-- What the database reports of a statement that failed. -/
inductive DbError
  | constraint
  | connection
  deriving DecidableEq, Repr

/-- A program's failure: an error of its own, or one of the database. -/
inductive Failure (ε : Type)
  | raised (e : ε)
  | database (e : DbError)
  deriving DecidableEq, Repr

/-- Whether a statement fails, and if so, whether before or after it took effect. -/
inductive Fault
  | none
  | lost
  | late
  deriving DecidableEq, Repr

/-- The statements of a transaction. Outside of one, every statement is a transaction of its own. -/
inductive Stmt (D : Schema) : Type 1
  | query {β : Type} (f : D.Db → β)
  | write (w : D.Write)
  | lock (rows : List (D.Row × Mode))
  | advisory (n : ℕ)
  | begin
  | commit
  | rollback

/-- What a statement returns when it succeeds. -/
def Stmt.Val {D : Schema} : Stmt D → Type
  | @query _ β _ => β
  | write _ => ℕ
  | _ => Unit

/-- What a statement returns. -/
abbrev Stmt.Res {D : Schema} (s : Stmt D) : Type := Except DbError s.Val

/-- The committed database and the open transactions. -/
structure Server (D : Schema) where
  /-- What is committed. -/
  db : D.Db
  /-- The writes of each program's open transaction, the oldest first. -/
  tx : ℕ → Option (List D.Write)
  /-- The transaction that holds a row alone. -/
  owner : D.Row → Option ℕ
  /-- The transactions that hold a row together. -/
  sharers : D.Row → List ℕ
  /-- The transaction that holds an advisory lock. -/
  advisory : ℕ → Option ℕ
  /-- The programs that have vanished. -/
  gone : ℕ → Bool

namespace Server

variable {D : Schema}

/-- A database that nobody works on. -/
def idle (d : D.Db) : Server D := 
  ⟨d, fun _ => none, fun _ => none, fun _ => [], fun _ => none, fun _ => false⟩

/-- The database after one write; a write that fails leaves it as it is. -/
def applyOne (d : D.Db) (w : D.Write) : D.Db := ((D.apply w d).map Prod.snd).getD d

/-- The database after several writes. -/
def applyAll (ws : List D.Write) (d : D.Db) : D.Db := ws.foldl applyOne d

/-- The database after several writes, all of which the constraints have to allow. -/
def publish (ws : List D.Write) (d : D.Db) : Option D.Db :=
  ws.foldlM (fun d w => (D.apply w d).map Prod.snd) d

/-- The database as program `i` sees it. -/
def view (σ : Server D) (i : ℕ) : D.Db := applyAll ((σ.tx i).getD []) σ.db

/-- Program `i` can take a lock: nobody else holds the row alone, nor, where `i` is to hold it alone,
together with others. -/
def free (σ : Server D) (i : ℕ) (l : D.Row × Mode) : Bool :=
  (σ.owner l.1 == none || σ.owner l.1 == some i) &&
    (l.2 == .share || (σ.sharers l.1).all (· == i))

/-- Program `i` takes locks. -/
def take (σ : Server D) (i : ℕ) (ls : List (D.Row × Mode)) : Server D :=
  { σ with
    owner := fun r => if (r, .exclusive) ∈ ls then some i else σ.owner r
    sharers := fun r => if (r, .share) ∈ ls then i :: σ.sharers r else σ.sharers r }

/-- Program `i` ends its transaction and leaves its locks. -/
def release (σ : Server D) (i : ℕ) : Server D :=
  { σ with
    tx := Function.update σ.tx i none
    owner := fun r => if σ.owner r = some i then none else σ.owner r
    sharers := fun r => (σ.sharers r).filter (· ≠ i)
    advisory := fun n => if σ.advisory n = some i then none else σ.advisory n }

/-- Program `i` performs a write that the constraints allow: at once, or as part of its
transaction. -/
def record (σ : Server D) (i : ℕ) (w : D.Write) : Server D :=
  match σ.tx i with
  | some ws =>
    { σ.take i (D.locks w (σ.view i)) with tx := Function.update σ.tx i (some (ws ++ [w])) }
  | none => { σ with db := applyOne σ.db w }

/-- Program `i` vanishes, and the server ends its transaction. -/
def abort (σ : Server D) (i : ℕ) : Server D :=
  { σ.release i with gone := Function.update σ.gone i true }

/-- What a statement reports: its value, unless there was a fault. -/
def report {α : Type} (φ : Fault) (a : α) : Except DbError α :=
  if φ = .none then .ok a else .error .connection

/-- One statement of program `i`; `none` while it has to wait. -/
def exec (i : ℕ) : (s : Stmt D) → Fault → Server D → Option (s.Res × Server D)
  | .query f, φ, σ => some (report φ (f (σ.view i)), σ)
  | .write w, φ, σ =>
    if (D.locks w (σ.view i)).all (σ.free i) then
      match D.apply w (σ.view i) with
      | none => some (.error .constraint, σ)
      | some (n, _) => some (report φ n, if φ = .lost then σ else σ.record i w)
    else none
  | .lock rows, φ, σ =>
    if rows.all (σ.free i) then some (report φ (), if φ = .lost then σ else σ.take i rows) else none
  | .advisory n, φ, σ =>
    if σ.advisory n = none ∨ σ.advisory n = some i then
      some (report φ (), if φ = .lost then σ else
        { σ with advisory := Function.update σ.advisory n (some i) })
    else none
  | .begin, φ, σ =>
    some (report φ (), if φ = .none then { σ with tx := Function.update σ.tx i (some []) } else σ)
  | .commit, φ, σ =>
    match publish ((σ.tx i).getD []) σ.db with
    | none => some (.error .constraint, σ.release i)
    | some d => some (report φ (), if φ = .lost then σ.release i else { σ.release i with db := d })
  | .rollback, φ, σ => some (report φ (), σ.release i)

/-- A write of a program is seen by that program, within a transaction and without one. -/
theorem view_record (σ : Server D) (i : ℕ) (w : D.Write) :
    (σ.record i w).view i = applyOne (σ.view i) w := by
  cases h : σ.tx i with
  | none => simp [record, view, h, applyAll]
  | some ws => simp [record, view, h, applyAll, take]

/-- A write publishes nothing within a transaction, and what the program sees without one. -/
theorem record_db (σ : Server D) (i : ℕ) (w : D.Write) :
    (σ.record i w).db = σ.db ∨ (σ.record i w).db = applyOne (σ.view i) w := by
  cases h : σ.tx i with
  | none => exact .inr (by simp [record, view, h, applyAll])
  | some ws => exact .inl (by simp [record, h, take])

/-- After the end of its transaction a program sees what is committed. -/
theorem view_release (σ : Server D) (i : ℕ) : (σ.release i).view i = σ.db := by
  simp [release, view, applyAll]

/-- Without a transaction a program sees what is committed. -/
theorem view_of_none {σ : Server D} {i : ℕ} (h : σ.tx i = none) : σ.view i = σ.db := by
  simp [view, h, applyAll]

/-- A query leaves the server as it is, and what it returns is what the program sees. -/
theorem exec_query {i : ℕ} {β : Type} {f : D.Db → β} {φ : Fault} {σ σ' : Server D}
    {r : Except DbError β} (h : exec i (.query f) φ σ = some (r, σ')) :
    σ' = σ ∧ (r = .ok (f (σ.view i)) ∨ r = .error .connection) := by
  obtain ⟨rfl, rfl⟩ := Prod.mk.inj (Option.some.inj h)
  refine ⟨rfl, ?_⟩
  cases φ with
  | none => exact .inl rfl
  | lost => exact .inr rfl
  | late => exact .inr rfl

/-- A write that succeeds, or fails after it took effect, finds its locks free and is recorded; any
other leaves the server as it is and fails. -/
theorem exec_write {i : ℕ} {w : D.Write} {φ : Fault} {σ σ' : Server D} {r : Except DbError ℕ}
    (h : exec i (.write w) φ σ = some (r, σ')) :
    (σ' = σ ∧ ∃ e, r = .error e) ∨
    (σ' = σ.record i w ∧ (∀ l ∈ D.locks w (σ.view i), σ.free i l = true) ∧
      ∃ n d, D.apply w (σ.view i) = some (n, d) ∧ (r = .ok n ∨ r = .error .connection)) := by
  simp only [exec] at h
  split at h
  · rename_i hfree
    split at h
    · cases h
      exact .inl ⟨rfl, _, rfl⟩
    · rename_i n d ha
      obtain ⟨rfl, rfl⟩ := Prod.mk.inj (Option.some.inj h)
      cases φ with
      | none => exact .inr ⟨rfl, List.all_eq_true.mp hfree, n, d, ha, .inl rfl⟩
      | lost => exact .inl ⟨rfl, _, rfl⟩
      | late => exact .inr ⟨rfl, List.all_eq_true.mp hfree, n, d, ha, .inr rfl⟩
  · cases h

/-- Outside of a transaction a recorded write takes effect at once. -/
theorem record_of_none {σ : Server D} {i : ℕ} {w : D.Write} (h : σ.tx i = none) :
    σ.record i w = { σ with db := applyOne σ.db w } := by
  simp [record, h]

/-- Within a transaction a recorded write waits for the commit. -/
theorem record_of_some {σ : Server D} {i : ℕ} {w : D.Write} {ws : List D.Write}
    (h : σ.tx i = some ws) :
    σ.record i w = { σ.take i (D.locks w (σ.view i)) with
      tx := Function.update σ.tx i (some (ws ++ [w])) } := by
  simp [record, h]

/-- Where nobody else works, a write that the constraints allow succeeds. -/
theorem exec_write_idle {i : ℕ} {w : D.Write} {d d' : D.Db} {n : ℕ}
    (h : D.apply w d = some (n, d')) :
    exec i (.write w) .none (idle d) = some (.ok n, idle d') := by
  have hfree : ((D.locks w d).all ((idle (D := D) d).free i)) = true :=
    List.all_eq_true.mpr fun l _ => by simp [free, idle]
  have hview : (idle (D := D) d).view i = d := rfl
  have hrecord : (idle (D := D) d).record i w = idle d' := by
    rw [record_of_none rfl]
    simp [idle, applyOne, h]
  simp [exec, hview, hfree, h, hrecord, report]

/-- What is published is what the transaction saw. -/
theorem applyAll_of_publish {ws : List D.Write} {d d' : D.Db} (h : publish ws d = some d') :
    applyAll ws d = d' := by
  induction ws generalizing d with
  | nil => exact Option.some.inj h
  | cons w ws ih =>
    simp only [publish, List.foldlM_cons, Option.bind_eq_bind] at h
    obtain ⟨d₁, h₁, h₂⟩ := Option.bind_eq_some_iff.mp h
    simp only [applyAll, List.foldl_cons, applyOne, h₁, Option.getD_some]
    exact ih h₂

/-- A commit that takes effect publishes the transaction's writes; any other drops them and fails. -/
theorem exec_commit {i : ℕ} {φ : Fault} {σ σ' : Server D} {r : Except DbError Unit}
    (h : exec i .commit φ σ = some (r, σ')) :
    (∃ d, publish ((σ.tx i).getD []) σ.db = some d ∧ σ' = { σ.release i with db := d }) ∨
      (σ' = σ.release i ∧ ∃ e, r = .error e) := by
  simp only [exec] at h
  split at h
  · obtain ⟨rfl, rfl⟩ := Prod.mk.inj (Option.some.inj h)
    exact .inr ⟨rfl, _, rfl⟩
  · rename_i d hd
    obtain ⟨rfl, rfl⟩ := Prod.mk.inj (Option.some.inj h)
    cases φ with
    | none => exact .inl ⟨d, hd, rfl⟩
    | lost => exact .inr ⟨rfl, _, rfl⟩
    | late => exact .inl ⟨d, hd, rfl⟩

/-- Locks change neither what is committed nor what is written. -/
theorem exec_lock {i : ℕ} {rows : List (D.Row × Mode)} {φ : Fault} {σ σ' : Server D}
    {r : Except DbError Unit} (h : exec i (.lock rows) φ σ = some (r, σ')) :
    σ'.db = σ.db ∧ σ'.tx = σ.tx ∧ σ'.gone = σ.gone := by
  simp only [exec] at h
  split at h
  · obtain ⟨-, rfl⟩ := Prod.mk.inj (Option.some.inj h)
    split <;> exact ⟨rfl, rfl, rfl⟩
  · cases h

/-- A transaction that begins has written nothing. -/
theorem exec_begin {i : ℕ} {φ : Fault} {σ σ' : Server D} {r : Except DbError Unit}
    (h : exec i .begin φ σ = some (r, σ')) :
    (σ' = { σ with tx := Function.update σ.tx i (some []) } ∧ r = .ok ()) ∨
      (σ' = σ ∧ ∃ e, r = .error e) := by
  obtain ⟨rfl, rfl⟩ := Prod.mk.inj (Option.some.inj h)
  cases φ with
  | none => exact .inl ⟨rfl, rfl⟩
  | lost => exact .inr ⟨rfl, _, rfl⟩
  | late => exact .inr ⟨rfl, _, rfl⟩

/-- A statement that neither writes nor commits leaves the committed database as it is. -/
theorem exec_db {i : ℕ} {s : Stmt D} {φ : Fault} {σ σ' : Server D} {r : s.Res}
    (h : exec i s φ σ = some (r, σ')) (hw : ∀ w, s ≠ .write w) (hc : s ≠ .commit) :
    σ'.db = σ.db := by
  cases s with
  | query f => rw [(exec_query h).1]
  | write w => exact absurd rfl (hw w)
  | lock rows =>
    simp only [exec] at h
    split at h
    · obtain ⟨-, rfl⟩ := Prod.mk.inj (Option.some.inj h)
      split <;> rfl
    · cases h
  | advisory n =>
    simp only [exec] at h
    split at h
    · obtain ⟨-, rfl⟩ := Prod.mk.inj (Option.some.inj h)
      split <;> rfl
    · cases h
  | begin =>
    obtain ⟨-, rfl⟩ := Prod.mk.inj (Option.some.inj h)
    split <;> rfl
  | commit => exact absurd rfl hc
  | rollback =>
    obtain ⟨-, rfl⟩ := Prod.mk.inj (Option.some.inj h)
    rfl

/-- A property of what is committed and of what the program sees survives a statement when what the
program sees keeps it through every write. -/
theorem seen_exec {P : D.Db → Prop} {i : ℕ} {s : Stmt D} {φ : Fault} {σ σ' : Server D} {r : s.Res}
    (he : exec i s φ σ = some (r, σ')) (hw : ∀ w, s = .write w → P (applyOne (σ.view i) w))
    (h : P σ.db ∧ P (σ.view i)) : P σ'.db ∧ P (σ'.view i) := by
  cases s with
  | query f =>
    rw [(exec_query he).1]
    exact h
  | write w =>
    rcases exec_write he with ⟨rfl, -⟩ | ⟨rfl, -, -⟩
    · exact h
    · rw [view_record]
      refine ⟨?_, hw w rfl⟩
      rcases record_db σ i w with hd | hd <;> rw [hd]
      · exact h.1
      · exact hw w rfl
  | lock rows =>
    simp only [exec] at he
    split at he
    · obtain ⟨-, rfl⟩ := Prod.mk.inj (Option.some.inj he)
      split <;> exact h
    · cases he
  | advisory n =>
    simp only [exec] at he
    split at he
    · obtain ⟨-, rfl⟩ := Prod.mk.inj (Option.some.inj he)
      split <;> exact h
    · cases he
  | begin =>
    obtain ⟨-, rfl⟩ := Prod.mk.inj (Option.some.inj he)
    split
    · exact ⟨h.1, by simpa [view, applyAll] using h.1⟩
    · exact h
  | commit =>
    rcases exec_commit he with ⟨d, hd, rfl⟩ | ⟨rfl, -⟩
    · obtain rfl : σ.view i = d := applyAll_of_publish hd
      exact ⟨h.2, by simpa [view, release, applyAll] using h.2⟩
    · exact ⟨h.1, by rw [view_release]; exact h.1⟩
  | rollback =>
    obtain ⟨-, rfl⟩ := Prod.mk.inj (Option.some.inj he)
    exact ⟨h.1, by rw [view_release]; exact h.1⟩

end Server

/-! ## Programs of database statements and statements of the outside world -/

/-- A statement of the database or of the outside world. `halt` never completes: it stands where the
bound of a loop without one is used up, so that a statement about every bound is one about the loop. -/
inductive Action (D : Schema) (E : Signature.{0}) : Type 1
  | db (s : Stmt D)
  | ext (e : E.Stmt)
  | halt

/-- The statements of a service with database `D` and outside world `E`. -/
def signature (D : Schema) (E : Signature.{0}) : Signature.{1} where
  Stmt := Action D E
  Res
    | .db s => s.Res
    | .ext e => E.Res e
    | .halt => Empty

/-- The server and the outside world. -/
structure System (D : Schema) (W : Type) where
  /-- The database server. -/
  server : Server D
  /-- The outside world. -/
  world : W

/-- What the environment decides. -/
inductive Decision (C : Type)
  | db (φ : Fault)
  | ext (c : C)
  | abort (i : ℕ)

/-- A service: programs over a database server and an outside world. The environment moves the
outside world and makes programs vanish. -/
def Service (D : Schema) {E : Signature.{0}} (X : Machine E) : Machine (signature D E) where
  State := System D X.State
  Choice := Decision X.Choice
  run i
    | .db s, .db φ, σ =>
      if σ.server.gone i then none
      else (Server.exec i s φ σ.server).map fun p => (p.1, { σ with server := p.2 })
    | .ext e, .ext c, σ =>
      if σ.server.gone i then none
      else (X.run i e c σ.world).map fun p => (p.1, { σ with world := p.2 })
    | _, _, _ => none
  env
    | .ext c, σ => (X.env c σ.world).map fun w => { σ with world := w }
    | .abort i, σ => some { σ with server := σ.server.abort i }
    | .db _, _ => none

section programs

variable {D : Schema} {E : Signature.{0}} {ε α β : Type}

/-- A database statement; the program fails when it fails. -/
def db (s : Stmt D) : Prog (signature D E) (Failure ε) s.Val :=
  .step (.db s) fun
    | .ok v => .ret v
    | .error e => .fail (.database e)

/-- A query. -/
def query (f : D.Db → β) : Prog (signature D E) (Failure ε) β := db (.query f)

/-- A write; it returns the number of rows that it affected. -/
def write (w : D.Write) : Prog (signature D E) (Failure ε) ℕ := db (.write w)

/-- A statement of the outside world. -/
def ext (e : E.Stmt) : Prog (signature D E) (Failure ε) (E.Res e) := .step (.ext e) .ret

/-- The program that never completes. -/
def halt : Prog (signature D E) ε α := .step .halt fun r : Empty => nomatch r

/-- A database statement performs that statement only. -/
theorem only_db {P : Action D E → Prop} {s : Stmt D} (h : P (.db s)) :
    (db s : Prog (signature D E) (Failure ε) s.Val).Only P := by
  refine ⟨h, fun r => ?_⟩
  cases r <;> trivial

/-- A statement of the outside world performs that statement only. -/
theorem only_ext {P : Action D E → Prop} {e : E.Stmt} (h : P (.ext e)) :
    (ext e : Prog (signature D E) (Failure ε) (E.Res e)).Only P := ⟨h, fun _ => trivial⟩

/-- Runs a program as one transaction, which is rolled back when the program fails. -/
def transaction (p : Prog (signature D E) (Failure ε) α) : Prog (signature D E) (Failure ε) α :=
  (db .begin).bind fun _ =>
    (p.tryCatch fun e => .step (.db .rollback) fun _ => .fail e).bind fun a =>
      (db .commit).bind fun _ => .ret a

/-- A transaction performs what its program performs, and its own bracket. -/
theorem only_transaction {P : Action D E → Prop} (hb : P (.db .begin)) (hc : P (.db .commit))
    (hr : P (.db .rollback)) {p : Prog (signature D E) (Failure ε) α} (hp : p.Only P) :
    (transaction p).Only P := by
  refine Prog.only_bind (only_db hb) fun _ => Prog.only_bind (Prog.only_tryCatch hp fun e => ?_)
    fun a => Prog.only_bind (only_db hc) fun _ => trivial
  exact ⟨hr, fun _ => trivial⟩

/-- A statement of a program that writes nothing but what satisfies `W`, and that uses transactions
and locks only where `T` holds. -/
def Writes (T : Prop) (W : D.Write → Prop) : Action D E → Prop
  | .db (.query _) => True
  | .db (.write w) => W w
  | .db _ => T
  | .ext _ => True
  | .halt => True

end programs

section rules

variable {D : Schema} {E : Signature.{0}} {X : Machine E} {ε α β : Type}
  {ok : Guard (Service D X)} {R : Discipline (Service D X)} {i : ℕ}
  {Q : α → System D X.State → Prop} {F : Failure ε → System D X.State → Prop}
  {σ : System D X.State}

/-- The rule for a database statement whose result the program looks at itself. -/
theorem wp_step_db {s : Stmt D} {k : s.Res → Prog (signature D E) (Failure ε) α}
    (h : ∀ σ₁ : System D X.State, R.rely i σ σ₁ → R.inv σ₁ → σ₁.server.gone i = false → ∀ φ r srv,
      ok i (.db s) (.db φ) σ₁ → Server.exec i s φ σ₁.server = some (r, srv) →
      R.inv ⟨srv, σ₁.world⟩ ∧ R.guar i (.db s) r σ₁ ⟨srv, σ₁.world⟩ ∧
        wp ok R i (k r) Q F ⟨srv, σ₁.world⟩) : wp ok R i (.step (.db s) k) Q F σ := by
  intro σ₁ hr hi ch r σ₂ hok hrun
  cases ch with
  | ext c => cases hrun
  | abort j => cases hrun
  | db φ =>
    simp only [Service] at hrun
    split at hrun
    · cases hrun
    · rename_i hgone
      obtain ⟨⟨r', srv⟩, he, hp⟩ := Option.map_eq_some_iff.mp hrun
      obtain ⟨rfl, rfl⟩ := Prod.mk.inj hp
      exact h σ₁ hr hi (by simpa using hgone) φ r' srv hok he

/-- The rule for a database statement in front of a program. -/
theorem wp_db {s : Stmt D} {k : s.Val → Prog (signature D E) (Failure ε) α}
    (h : ∀ σ₁ : System D X.State, R.rely i σ σ₁ → R.inv σ₁ → σ₁.server.gone i = false → ∀ φ r srv,
      ok i (.db s) (.db φ) σ₁ → Server.exec i s φ σ₁.server = some (r, srv) →
      R.inv ⟨srv, σ₁.world⟩ ∧ R.guar i (.db s) r σ₁ ⟨srv, σ₁.world⟩ ∧
        (∀ v, r = .ok v → wp ok R i (k v) Q F ⟨srv, σ₁.world⟩) ∧
        ∀ e, r = .error e → wp ok R i (.fail (.database e)) Q F ⟨srv, σ₁.world⟩) :
    wp ok R i ((db s).bind k) Q F σ := by
  refine wp_step_db fun σ₁ hr hi hgone φ r srv hok he => ?_
  obtain ⟨hi₂, hg, hv, hf⟩ := h σ₁ hr hi hgone φ r srv hok he
  refine ⟨hi₂, hg, ?_⟩
  cases r with
  | ok v => exact hv v rfl
  | error e => exact hf e rfl

/-- The rule for a query in front of a program. -/
theorem wp_query {f : D.Db → β} {k : β → Prog (signature D E) (Failure ε) α}
    (h : ∀ σ₁ : System D X.State, R.rely i σ σ₁ → R.inv σ₁ → σ₁.server.gone i = false →
      (∀ r, R.guar i (.db (.query f)) r σ₁ σ₁) ∧ wp ok R i (k (f (σ₁.server.view i))) Q F σ₁ ∧
        wp ok R i (.fail (.database .connection)) Q F σ₁) :
    wp ok R i ((query f).bind k) Q F σ := by
  refine wp_db (s := .query f) fun σ₁ hr hi hgone φ r srv _ he => ?_
  obtain ⟨hg, hk, hf⟩ := h σ₁ hr hi hgone
  obtain ⟨rfl, hres⟩ := Server.exec_query he
  refine ⟨hi, hg r, ?_, ?_⟩
  · rintro v rfl
    rcases hres with hv | hv
    · cases hv
      exact hk
    · cases hv
  · rintro e rfl
    rcases hres with hv | hv
    · cases hv
    · cases hv
      exact hf

/-- The rule for a statement of the outside world in front of a program. -/
theorem wp_ext {e : E.Stmt} {k : E.Res e → Prog (signature D E) (Failure ε) α}
    (h : ∀ σ₁ : System D X.State, R.rely i σ σ₁ → R.inv σ₁ → σ₁.server.gone i = false → ∀ c r w,
      ok i (.ext e) (.ext c) σ₁ → X.run i e c σ₁.world = some (r, w) →
      R.inv ⟨σ₁.server, w⟩ ∧ R.guar i (.ext e) r σ₁ ⟨σ₁.server, w⟩ ∧
        wp ok R i (k r) Q F ⟨σ₁.server, w⟩) :
    wp ok R i ((ext e).bind k) Q F σ := by
  intro σ₁ hr hi ch r σ₂ hok hrun
  cases ch with
  | db φ => cases hrun
  | abort j => cases hrun
  | ext c =>
    simp only [Service] at hrun
    split at hrun
    · cases hrun
    · rename_i hgone
      obtain ⟨⟨r', w⟩, he, hp⟩ := Option.map_eq_some_iff.mp hrun
      obtain ⟨rfl, rfl⟩ := Prod.mk.inj hp
      exact h σ₁ hr hi (by simpa using hgone) c r' w hok he

end rules

/-! ## Programs without transactions -/

section autocommit

variable {D : Schema} {E : Signature.{0}} {X : Machine E} {ε α : Type}

/-- The terms of programs without transactions: every committed database satisfies `P`, and everyone
moves it along `G` only. -/
def Discipline.autocommit (X : Machine E) (P : D.Db → Prop) (G : D.Db → D.Db → Prop) :
    Discipline (Service D X) where
  inv σ := (∀ i, σ.server.tx i = none) ∧ P σ.server.db
  rely _ σ σ' := G σ.server.db σ'.server.db
  guar _ _ _ σ σ' := G σ.server.db σ'.server.db

/-- The environment writes nothing. -/
theorem Discipline.autocommit_compatible {P : D.Db → Prop} {G : D.Db → D.Db → Prop}
    (hrefl : ∀ d, G d d) (htrans : ∀ d₁ d₂ d₃, G d₁ d₂ → G d₂ d₃ → G d₁ d₃) :
    (Discipline.autocommit X P G).Compatible where
  refl _ _ := hrefl _
  trans _ _ _ _ h₁ h₂ := htrans _ _ _ h₁ h₂
  covers _ _ _ _ _ _ _ _ _ h := h
  env_rely _ ch _ _ he _ := by
    cases ch with
    | db φ => cases he
    | ext c =>
      obtain ⟨w, -, rfl⟩ := Option.map_eq_some_iff.mp he
      exact hrefl _
    | abort j =>
      cases he
      exact hrefl _
  env_inv ch σ σ' he hi := by
    cases ch with
    | db φ => cases he
    | ext c =>
      obtain ⟨w, -, rfl⟩ := Option.map_eq_some_iff.mp he
      exact hi
    | abort j =>
      cases he
      refine ⟨fun i => ?_, hi.2⟩
      simp only [Server.abort, Server.release, Function.update_apply, hi.1 i, ite_self]

/-- A condition on the writes of a run, given the database that they are applied to. -/
def Guard.onWrites (X : Machine E) (C : D.Write → D.Db → Prop) : Guard (Service D X)
  | _, .db (.write w), _, σ => C w σ.server.db
  | _, _, _, _ => True

/-- The test of such a condition. -/
def testWrites (X : Machine E) (C : D.Write → D.Db → Prop) [∀ w d, Decidable (C w d)] :
    ℕ → Action D E → Decision X.Choice → System D X.State → Bool
  | _, .db (.write w), _, σ => decide (C w σ.server.db)
  | _, _, _, _ => true

/-- What passes the test meets the condition. -/
theorem Guard.onWrites_of_test {C : D.Write → D.Db → Prop} [∀ w d, Decidable (C w d)] (i : ℕ)
    (s : Action D E) (ch : Decision X.Choice) (σ : System D X.State)
    (h : testWrites X C i s ch σ = true) : Guard.onWrites X C i s ch σ := by
  cases s with
  | db s =>
    cases s with
    | write w => exact of_decide_eq_true (p := C w σ.server.db) h
    | _ => trivial
  | _ => trivial

section steps

variable {P : D.Db → Prop} {G : D.Db → D.Db → Prop} {i : ℕ} {σ : System D X.State}

/-- A write keeps the terms when its effect does. -/
theorem autocommit_write (hrefl : ∀ d, G d d) {w : D.Write}
    (keep : ∀ n d', D.apply w σ.server.db = some (n, d') → P d' ∧ G σ.server.db d')
    (hi : (Discipline.autocommit X P G).inv σ) {φ : Fault} {r : Except DbError ℕ} {srv : Server D}
    (he : Server.exec i (.write w) φ σ.server = some (r, srv)) :
    (Discipline.autocommit X P G).inv ⟨srv, σ.world⟩ ∧ G σ.server.db srv.db := by
  obtain ⟨htx, hP⟩ := hi
  rcases Server.exec_write he with ⟨rfl, -⟩ | ⟨rfl, -, n, d', ha, -⟩
  · exact ⟨⟨htx, hP⟩, hrefl _⟩
  · rw [Server.view_of_none (htx i)] at ha
    rw [Server.record_of_none (htx i)]
    obtain ⟨hP', hG⟩ := keep n d' ha
    have hd : Server.applyOne σ.server.db w = d' := by
      simp only [Server.applyOne, ha, Option.map_some, Option.getD_some]
    exact ⟨⟨htx, hd ▸ hP'⟩, hd ▸ hG⟩

/-- A statement of a program without transactions keeps the terms when its writes do. -/
theorem autocommit_step (hrefl : ∀ d, G d d) {W : D.Write → Prop} {C : D.Write → D.Db → Prop}
    (keep : ∀ w d n d', W w → C w d → P d → D.apply w d = some (n, d') → P d' ∧ G d d')
    {s : Action D E} (hs : Writes False W s) {ch : Decision X.Choice}
    {r : (signature D E).Res s} {σ' : System D X.State}
    (hi : (Discipline.autocommit X P G).inv σ) (hok : Guard.onWrites X C i s ch σ)
    (hrun : (Service D X).run i s ch σ = some (r, σ')) :
    (Discipline.autocommit X P G).inv σ' ∧ G σ.server.db σ'.server.db := by
  cases s with
  | halt => cases ch <;> cases hrun
  | ext e =>
    cases ch with
    | db φ => cases hrun
    | abort j => cases hrun
    | ext c =>
      simp only [Service] at hrun
      split at hrun
      · cases hrun
      · obtain ⟨⟨r', w'⟩, -, hw⟩ := Option.map_eq_some_iff.mp hrun
        cases hw
        exact ⟨hi, hrefl _⟩
  | db s =>
    cases ch with
    | ext c => cases hrun
    | abort j => cases hrun
    | db φ =>
      simp only [Service] at hrun
      split at hrun
      · cases hrun
      · obtain ⟨⟨r', srv⟩, he, hw⟩ := Option.map_eq_some_iff.mp hrun
        cases hw
        cases s with
        | query f =>
          rw [(Server.exec_query he).1]
          exact ⟨hi, hrefl _⟩
        | write w => exact autocommit_write hrefl (fun n d' => keep w _ n d' hs hok hi.2) hi he
        | _ => exact hs.elim

end steps

/-- In every run of programs without transactions whose writes meet a condition under which they keep
`P`, every committed database satisfies `P`. -/
theorem autocommit_run {P : D.Db → Prop} {W : D.Write → Prop} {C : D.Write → D.Db → Prop}
    (keep : ∀ w d n d', W w → C w d → P d → D.apply w d = some (n, d') → P d')
    {pool : List (Prog (signature D E) (Failure ε) α)} (hp : ∀ p ∈ pool, p.Only (Writes False W))
    {d : D.Db} (hd : P d) {w : X.State} {c : Config (Service D X) (Failure ε) α}
    (hr : Config.Run (Guard.onWrites X C) ⟨⟨Server.idle d, w⟩, pool⟩ c) : P c.state.server.db := by
  have sound : Sound (Guard.onWrites X C) (Discipline.autocommit X P fun _ _ => True)
      (fun _ _ _ => True) (fun _ _ _ => True) ⟨⟨Server.idle d, w⟩, pool⟩ := by
    refine ⟨⟨fun _ => rfl, hd⟩, fun i p hi => wp_mono (fun _ _ _ => trivial) (fun _ _ _ => trivial)
      (wp_of_only ?_ (hp p (List.mem_of_getElem? hi)))⟩
    exact fun s hs ch σ r σ' hinv hok hrun => autocommit_step (fun _ => trivial)
      (fun w d n d' hw hC hP ha => ⟨keep w d n d' hw hC hP ha, trivial⟩) hs hinv hok hrun
  exact (sound.run (Discipline.autocommit_compatible (fun _ => trivial)
    fun _ _ _ _ _ => trivial) hr).1.2

end autocommit

end ReadCommitted
