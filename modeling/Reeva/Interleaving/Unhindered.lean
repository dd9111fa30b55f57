import Reeva.Interleaving.Alone
import Reeva.Interleaving.Locking

/-!
# What a program can do

`Completes` says how a program ends when nobody else moves, and the rules of `Alone` what every end
of it satisfies. Here is the other side: that there is one. A program that nobody keeps waiting
(`Clear`) can perform its next statement without a fault, and `Attains` is computed along its text:
some completion returns a value in the postcondition.
-/

open Interleaving

namespace ReadCommitted

variable {D : Schema} {E : Signature.{0}} {X : Machine E} {ε α β : Type} {ok : Guard (Service D X)}
  {i : ℕ}

/-- Nobody keeps program `i` waiting: whatever is locked is locked by it. It has written `tx`, and
`d` is committed. -/
structure Clear (i : ℕ) (tx : Option (List D.Write)) (d : D.Db) (σ : Server D) : Prop where
  here : σ.gone i = false
  tx : σ.tx i = tx
  db : σ.db = d
  owner : ∀ r, σ.owner r = none ∨ σ.owner r = some i
  sharers : ∀ r, ∀ j ∈ σ.sharers r, j = i
  advisory : ∀ n, σ.advisory n = none ∨ σ.advisory n = some i

namespace Clear

variable {tx : Option (List D.Write)} {d : D.Db} {σ : Server D}

/-- Every lock is free. -/
theorem free (h : Clear i tx d σ) (l : D.Row × Mode) : σ.free i l = true := by
  rw [Server.free, Bool.and_eq_true, Bool.or_eq_true, Bool.or_eq_true, beq_iff_eq, beq_iff_eq]
  exact ⟨h.owner l.1, .inr (List.all_eq_true.mpr fun j hj => beq_iff_eq.mpr (h.sharers l.1 j hj))⟩

/-- It sees what is committed and what it has written. -/
theorem view (h : Clear i tx d σ) : σ.view i = Server.applyAll (tx.getD []) d := by
  rw [Server.view, h.tx, h.db]

/-- It stays so where the program takes locks. -/
theorem take (h : Clear i tx d σ) (ls : List (D.Row × Mode)) : Clear i tx d (σ.take i ls) where
  here := h.here
  tx := h.tx
  db := h.db
  owner r := by
    change (if (r, Mode.exclusive) ∈ ls then some i else σ.owner r) = none ∨
      (if (r, Mode.exclusive) ∈ ls then some i else σ.owner r) = some i
    split
    · exact .inr rfl
    · exact h.owner r
  sharers r j hj := by
    change j ∈ (if (r, Mode.share) ∈ ls then i :: σ.sharers r else σ.sharers r) at hj
    split at hj
    · exact (List.mem_cons.mp hj).elim id (h.sharers r j)
    · exact h.sharers r j hj
  advisory := h.advisory

/-- Its transaction may be a different one. -/
theorem withTx (h : Clear i tx d σ) (tx' : Option (List D.Write)) :
    Clear i tx' d { σ with tx := Function.update σ.tx i tx' } where
  here := h.here
  tx := Function.update_self ..
  db := h.db
  owner := h.owner
  sharers := h.sharers
  advisory := h.advisory

/-- It may take an advisory lock. -/
theorem withAdvisory (h : Clear i tx d σ) (n : ℕ) :
    Clear i tx d { σ with advisory := Function.update σ.advisory n (some i) } where
  here := h.here
  tx := h.tx
  db := h.db
  owner := h.owner
  sharers := h.sharers
  advisory m := by
    change Function.update σ.advisory n (some i) m = none ∨
      Function.update σ.advisory n (some i) m = some i
    by_cases hm : m = n
    · subst hm
      exact .inr (Function.update_self ..)
    · rw [Function.update_of_ne hm]
      exact h.advisory m

end Clear

/-- Program `i` is there and has no transaction, and nothing is locked. -/
structure Rests (i : ℕ) (d : D.Db) (σ : Server D) : Prop where
  here : σ.gone i = false
  tx : σ.tx i = none
  db : σ.db = d
  owner : ∀ r, σ.owner r = none
  sharers : ∀ r, σ.sharers r = []
  advisory : ∀ n, σ.advisory n = none

namespace Rests

variable {tx : Option (List D.Write)} {d : D.Db} {σ : Server D}

/-- A database that nobody works on. -/
theorem idle (i : ℕ) (d : D.Db) : Rests i d (Server.idle d) where
  here := rfl
  tx := rfl
  db := rfl
  owner _ := rfl
  sharers _ := rfl
  advisory _ := rfl

/-- Nobody keeps such a program waiting. -/
theorem clear (h : Rests i d σ) : Clear i none d σ where
  here := h.here
  tx := h.tx
  db := h.db
  owner r := .inl (h.owner r)
  sharers r j hj := by
    rw [h.sharers r] at hj
    cases hj
  advisory n := .inl (h.advisory n)

/-- A transaction ends so, and something else may be committed. -/
theorem release (h : Clear i tx d σ) (d' : D.Db) : Rests i d' { σ.release i with db := d' } where
  here := h.here
  tx := Function.update_self ..
  db := rfl
  owner r := by
    change (if σ.owner r = some i then none else σ.owner r) = none
    rcases h.owner r with hr | hr <;> simp [hr]
  sharers r := List.filter_eq_nil_iff.mpr fun j hj => by simpa using h.sharers r j hj
  advisory n := by
    change (if σ.advisory n = some i then none else σ.advisory n) = none
    rcases h.advisory n with hn | hn <;> simp [hn]

end Rests

/-- From `σ` the program can return a value in `Q` when nobody else moves. -/
def Attains (ok : Guard (Service D X)) (i : ℕ) (p : Prog (signature D E) (Failure ε) α)
    (σ : System D X.State) (Q : α → System D X.State → Prop) : Prop :=
  ∃ a σ', Completes ok i p σ (.ok a) σ' ∧ Q a σ'

namespace Attains

variable {tx : Option (List D.Write)} {d : D.Db} {σ : System D X.State}
  {p : Prog (signature D E) (Failure ε) α} {Q : α → System D X.State → Prop}

theorem ret {a : α} (h : Q a σ) :
    Attains ok i (.ret a : Prog (signature D E) (Failure ε) α) σ Q := ⟨a, σ, .refl, h⟩

theorem mono {Q' : α → System D X.State → Prop} (h : Attains ok i p σ Q)
    (hQ : ∀ a σ, Q a σ → Q' a σ) : Attains ok i p σ Q' := by
  obtain ⟨a, σ', hc, hq⟩ := h
  exact ⟨a, σ', hc, hQ a σ' hq⟩

/-- One statement. -/
theorem step {s : Action D E} {k : (signature D E).Res s → Prog (signature D E) (Failure ε) α}
    {c : (Service D X).Choice} {r : (signature D E).Res s} {t : System D X.State}
    (hok : ok i s c σ) (hr : (Service D X).run i s c σ = some (r, t))
    (h : Attains ok i (k r) t Q) : Attains ok i (.step s k) σ Q := by
  obtain ⟨a, σ'', hc, hq⟩ := h
  exact ⟨a, σ'', .step hok hr hc, hq⟩

/-- One program after another. -/
theorem bind {f : α → Prog (signature D E) (Failure ε) β} {R : β → System D X.State → Prop}
    (h : Attains ok i p σ fun a σ' => Attains ok i (f a) σ' R) : Attains ok i (p.bind f) σ R := by
  obtain ⟨a, σ', hp, b, σ'', hf, hb⟩ := h
  exact ⟨b, σ'', (Prog.Steps.bind hp).trans hf, hb⟩

/-- A statement of the database that is performed without a fault. -/
theorem exec {s : Stmt D} {v : s.Val} {t : Server D}
    {k : s.Val → Prog (signature D E) (Failure ε) α} (hc : Clear i tx d σ.server)
    (hok : ok i (.db s) (.db .none) σ) (hs : Server.exec i s .none σ.server = some (.ok v, t))
    (h : Attains ok i (k v) ⟨t, σ.world⟩ Q) : Attains ok i ((db s).bind k) σ Q := by
  refine step (s := .db s) (c := .db .none) (r := .ok v) (t := ⟨t, σ.world⟩) hok ?_ h
  change (if σ.server.gone i then none
    else (Server.exec i s .none σ.server).map fun p => (p.1, (⟨p.2, σ.world⟩ : System D X.State))) = _
  rw [hc.here, hs]
  rfl

/-- A query. -/
theorem query {f : D.Db → β} {v : β} {k : β → Prog (signature D E) (Failure ε) α}
    (hc : Clear i tx d σ.server) (hok : ok i (.db (.query f)) (.db .none) σ)
    (hv : f (Server.applyAll (tx.getD []) d) = v) (h : Attains ok i (k v) σ Q) :
    Attains ok i ((ReadCommitted.query f).bind k) σ Q := by
  refine exec (s := .query f) (t := σ.server) hc hok ?_ h
  rw [Server.exec, hc.view, hv]
  rfl

/-- A call of the outside world. -/
theorem ext {e : E.Stmt} {k : E.Res e → Prog (signature D E) (Failure ε) α} {c : X.Choice}
    {r : E.Res e} {w : X.State} (hc : Clear i tx d σ.server)
    (hok : ok i (.ext e) (.ext c) σ) (hr : X.run i e c σ.world = some (r, w))
    (h : Attains ok i (k r) ⟨σ.server, w⟩ Q) : Attains ok i ((ReadCommitted.ext e).bind k) σ Q := by
  refine step (s := .ext e) (c := .ext c) (r := r) (t := ⟨σ.server, w⟩) hok ?_ h
  change (if σ.server.gone i then none
    else (X.run i e c σ.world).map fun p => (p.1, (⟨σ.server, p.2⟩ : System D X.State))) = _
  rw [hc.here, hr]
  rfl

/-- A lock of rows. -/
theorem lock {ls : List (D.Row × Mode)} {k : Unit → Prog (signature D E) (Failure ε) α}
    (hc : Clear i tx d σ.server) (hok : ok i (.db (.lock ls)) (.db .none) σ)
    (h : ∀ srv, Clear i tx d srv → Attains ok i (k ()) ⟨srv, σ.world⟩ Q) :
    Attains ok i ((db (.lock ls)).bind k) σ Q := by
  refine exec (s := .lock ls) (v := ()) hc hok ?_ (h _ (hc.take ls))
  rw [Server.exec, if_pos (List.all_eq_true.mpr fun l _ => hc.free l)]
  rfl

/-- An advisory lock. -/
theorem advisory {n : ℕ} {k : Unit → Prog (signature D E) (Failure ε) α}
    (hc : Clear i tx d σ.server) (hok : ok i (.db (.advisory n)) (.db .none) σ)
    (h : ∀ srv, Clear i tx d srv → Attains ok i (k ()) ⟨srv, σ.world⟩ Q) :
    Attains ok i ((db (.advisory n)).bind k) σ Q := by
  refine exec (s := .advisory n) (v := ()) hc hok ?_ (h _ (hc.withAdvisory n))
  rw [Server.exec, if_pos (hc.advisory n)]
  rfl

/-- A write within a transaction that the constraints allow. -/
theorem write {ws : List D.Write} {w : D.Write} {n : ℕ} {v v' : D.Db}
    {k : ℕ → Prog (signature D E) (Failure ε) α} (hc : Clear i (some ws) d σ.server)
    (hok : ok i (.db (.write w)) (.db .none) σ) (hv : Server.publish ws d = some v)
    (ha : D.apply w v = some (n, v'))
    (h : ∀ srv, Clear i (some (ws ++ [w])) d srv → Server.publish (ws ++ [w]) d = some v' →
      Attains ok i (k n) ⟨srv, σ.world⟩ Q) :
    Attains ok i ((ReadCommitted.write w).bind k) σ Q := by
  have hview : σ.server.view i = v := hc.view.trans (Server.applyAll_of_publish hv)
  have hpublish : Server.publish (ws ++ [w]) d = some v' := by
    rw [Server.publish, List.foldlM_append, ← Server.publish, hv]
    simp [ha]
  refine exec (s := .write w) (t := σ.server.record i w) hc hok ?_ (h _ ?_ hpublish)
  · rw [Server.exec, hview, if_pos (List.all_eq_true.mpr fun l _ => hc.free l), ha]
    rfl
  · rw [Server.record_of_some hc.tx]
    exact (hc.take _).withTx _

/-- A transaction whose writes the constraints allow. -/
theorem transaction (hc : Clear i none d σ.server)
    (hbegin : ∀ σ', ok i (.db .begin) (.db .none) σ')
    (hcommit : ∀ σ', ok i (.db .commit) (.db .none) σ')
    (h : ∀ srv, Clear i (some []) d srv → Attains ok i p ⟨srv, σ.world⟩ fun a σ' =>
      ∃ ws d', Clear i (some ws) d σ'.server ∧ Server.publish ws d = some d' ∧
        ∀ srv', Rests i d' srv' → Q a ⟨srv', σ'.world⟩) :
    Attains ok i (ReadCommitted.transaction p) σ Q := by
  refine exec (s := .begin) (v := ()) hc (hbegin _) rfl (bind ?_)
  obtain ⟨a, σ', hp, ws, d', hc', hpublish, hq⟩ := h _ (hc.withTx (some []))
  refine ⟨a, σ', Prog.Steps.tryCatch hp, ?_⟩
  refine exec (s := .commit) (v := ()) (t := { σ'.server.release i with db := d' }) hc' (hcommit _)
    ?_ (ret (hq _ (.release hc' d')))
  rw [Server.exec, hc'.tx, Option.getD_some, hc'.db, hpublish]
  rfl

end Attains

/-! ## One program after another -/

/-- A statement leaves the other programs their transactions, and none of them vanishes. -/
theorem Server.exec_others {j : ℕ} {s : Stmt D} {φ : Fault} {σ σ' : Server D} {r : s.Res}
    (h : Server.exec i s φ σ = some (r, σ')) (hij : i ≠ j) :
    σ'.tx j = σ.tx j ∧ σ'.gone j = σ.gone j := by
  have hupdate : ∀ tx, Function.update σ.tx i tx j = σ.tx j := fun tx =>
    Function.update_of_ne hij.symm ..
  cases s with
  | query f => rw [(Server.exec_query h).1]; exact ⟨rfl, rfl⟩
  | write w =>
    rcases Server.exec_write h with ⟨rfl, -⟩ | ⟨rfl, -, -⟩
    · exact ⟨rfl, rfl⟩
    · cases htx : σ.tx i with
      | none => rw [Server.record_of_none htx]; exact ⟨rfl, rfl⟩
      | some ws => rw [Server.record_of_some htx]; exact ⟨hupdate _, rfl⟩
  | lock rows =>
    obtain ⟨-, htx, hgone⟩ := Server.exec_lock h
    rw [htx, hgone]
    exact ⟨rfl, rfl⟩
  | advisory n =>
    rcases Server.exec_advisory_cases h with ⟨rfl, -⟩ | ⟨rfl, -⟩
    · exact ⟨rfl, rfl⟩
    · exact ⟨rfl, rfl⟩
  | begin =>
    rcases Server.exec_begin h with ⟨rfl, -⟩ | ⟨rfl, -⟩
    · exact ⟨hupdate _, rfl⟩
    · exact ⟨rfl, rfl⟩
  | commit =>
    rcases Server.exec_commit h with ⟨d, -, rfl⟩ | ⟨rfl, -⟩
    · exact ⟨hupdate _, rfl⟩
    · exact ⟨hupdate _, rfl⟩
  | rollback =>
    obtain ⟨-, rfl⟩ := Prod.mk.inj (Option.some.inj h)
    exact ⟨hupdate _, rfl⟩

/-- So does everything that a program performs. -/
theorem others_of_steps {j : ℕ} {p p' : Prog (signature D E) (Failure ε) α}
    {σ σ' : (Service D X).State} (h : p.Steps ok i σ p' σ') (hij : i ≠ j) :
    (System.server σ').tx j = (System.server σ).tx j ∧
      (System.server σ').gone j = (System.server σ).gone j := by
  induction h with
  | refl => exact ⟨rfl, rfl⟩
  | @step s k ch r₁ σ σ₁ σ₂ p' hok hrun _ ih =>
    have hfirst : (System.server σ₁).tx j = (System.server σ).tx j ∧
        (System.server σ₁).gone j = (System.server σ).gone j := by
      cases s with
      | halt => cases ch <;> cases hrun
      | ext e =>
        cases ch with
        | db φ => cases hrun
        | abort j => cases hrun
        | ext c =>
          simp only [Service] at hrun
          split at hrun
          · cases hrun
          · obtain ⟨⟨r', w'⟩, -, hw⟩ := Option.map_eq_some_iff.mp hrun
            cases hw
            exact ⟨rfl, rfl⟩
      | db s =>
        cases ch with
        | ext c => cases hrun
        | abort j => cases hrun
        | db φ =>
          simp only [Service] at hrun
          split at hrun
          · cases hrun
          · obtain ⟨⟨r', srv⟩, he, hw⟩ := Option.map_eq_some_iff.mp hrun
            cases hw
            exact Server.exec_others he hij
    exact ⟨ih.1.trans hfirst.1, ih.2.trans hfirst.2⟩

/-- Where a program leaves nothing locked, the next one finds it so. -/
theorem Completes.rests {j : ℕ} {p : Prog (signature D E) (Failure ε) α} {d d' : D.Db}
    {σ σ' : System D X.State} {r : Except (Failure ε) α} (h : Completes ok i p σ r σ')
    (hij : i ≠ j) (hbefore : Rests j d σ.server) (hafter : Rests i d' σ'.server) :
    Rests j d' σ'.server where
  here := (others_of_steps h hij).2.trans hbefore.here
  tx := (others_of_steps h hij).1.trans hbefore.tx
  db := hafter.db
  owner := hafter.owner
  sharers := hafter.sharers
  advisory := hafter.advisory

end ReadCommitted
