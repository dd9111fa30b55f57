import Reeva.Interleaving.ReadCommitted

/-!
# Databases within larger ones

A schema may have the tables of another one among its own. `Schema.Inclusion` says how the smaller
database is read off the larger one and that its writes do the same there, and `along` is a program of
the smaller one as it runs on the larger.
-/

open Interleaving

namespace ReadCommitted

/-- The tables of `D` are among those of `D'`. -/
structure Schema.Inclusion (D D' : Schema) where
  /-- The smaller database. -/
  db : D'.Db → D.Db
  /-- A write of the smaller one. -/
  write : D.Write → D'.Write
  /-- A row of the smaller one. -/
  row : D.Row → D'.Row
  /-- A write does to the smaller database what it does there, where it runs at all. -/
  apply : ∀ w d n d', D'.apply (write w) d = some (n, d') → D.apply w (db d) = some (n, db d')
  /-- It takes its locks. -/
  locks : ∀ w d, (D.locks w (db d)).map (fun l => (row l.1, l.2)) ⊆ D'.locks (write w) d

variable {D D' : Schema} {E : Signature.{0}} {ε ε' α : Type}

/-- The error of a program whose own errors are turned into others. -/
def Failure.map (g : ε → ε') : Failure ε → Failure ε'
  | .raised e => .raised (g e)
  | .database e => .database e

/-- A program of the smaller database on the larger one. -/
def along (ι : Schema.Inclusion D D') (g : ε → ε') :
    Prog (signature D E) (Failure ε) α → Prog (signature D' E) (Failure ε') α
  | .ret a => .ret a
  | .fail e => .fail (e.map g)
  | .step .halt _ => halt
  | .step (.ext e) k => .step (.ext e) fun r => along ι g (k r)
  | .step (.db (.query f)) k => .step (.db (.query fun d => f (ι.db d))) fun r => along ι g (k r)
  | .step (.db (.write w)) k => .step (.db (.write (ι.write w))) fun r => along ι g (k r)
  | .step (.db (.lock ls)) k =>
    .step (.db (.lock (ls.map fun l => (ι.row l.1, l.2)))) fun r => along ι g (k r)
  | .step (.db (.advisory n)) k => .step (.db (.advisory n)) fun r => along ι g (k r)
  | .step (.db .begin) k => .step (.db .begin) fun r => along ι g (k r)
  | .step (.db .commit) k => .step (.db .commit) fun r => along ι g (k r)
  | .step (.db .rollback) k => .step (.db .rollback) fun r => along ι g (k r)

/-- On the larger database the program writes what it writes on the smaller one. -/
theorem only_along (ι : Schema.Inclusion D D') (g : ε → ε') {W : D.Write → Prop}
    {p : Prog (signature D E) (Failure ε) α} (hp : p.Only (Writes True W)) :
    (along ι g p).Only (Writes True fun w' => ∃ w, W w ∧ w' = ι.write w) := by
  induction p with
  | ret a => trivial
  | fail e => trivial
  | step a k ih =>
    cases a with
    | ext e => exact ⟨trivial, fun r => ih r (hp.2 r)⟩
    | halt => exact ⟨trivial, fun r => nomatch r⟩
    | db st =>
      cases st with
      | write w => exact ⟨⟨w, hp.1, rfl⟩, fun r => ih r (hp.2 r)⟩
      | _ => exact ⟨trivial, fun r => ih r (hp.2 r)⟩

end ReadCommitted
