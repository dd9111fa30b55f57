import Reeva.Interleaving.ReadCommitted

/-!
# One operation at a time

What a program does when nobody else moves (`Completes`), and what it can end in then. A statement may
still fail. `Alone` says what holds of the transaction and of the committed database when the program
returns, and what is to blame when a constraint stopped it. Its rules follow the program's text.
-/

open Interleaving

namespace ReadCommitted

variable {D : Schema} {E : Signature.{0}} {X : Machine E} {ε α β : Type} {ok : Guard (Service D X)}
  {i : ℕ}

/-- From `σ` the program ends in `σ'` with a result when nobody else moves. -/
def Completes (ok : Guard (Service D X)) (i : ℕ) (p : Prog (signature D E) (Failure ε) α)
    (σ : System D X.State) (r : Except (Failure ε) α) (σ' : System D X.State) : Prop :=
  p.Steps ok i σ (.ofExcept r) σ'

/-- A program that completes performs its first statement, and completes from there. -/
theorem Completes.cons {s : (signature D E).Stmt}
    {k : (signature D E).Res s → Prog (signature D E) (Failure ε) α} {σ σ' : System D X.State}
    {r : Except (Failure ε) α} (h : Completes ok i (.step s k) σ r σ') :
    ∃ ch r₁ σ₁, ok i s ch σ ∧ (Service D X).run i s ch σ = some (r₁, σ₁) ∧
      Completes ok i (k r₁) σ₁ r σ' := by
  obtain ⟨hr, -⟩ | hrest := Prog.Steps.cons h
  · cases r <;> cases hr
  · exact hrest

/-- A program that returns completes at once. -/
theorem completes_ret {a : α} {σ σ' : System D X.State} {r : Except (Failure ε) α} :
    Completes (X := X) ok i (.ret a) σ r σ' ↔ r = .ok a ∧ σ' = σ := by
  constructor
  · intro h
    obtain ⟨hr, rfl⟩ := Prog.Steps.ret h
    cases r with
    | ok b => exact ⟨congrArg _ (Prog.ret.inj hr), rfl⟩
    | error e => cases hr
  · rintro ⟨rfl, rfl⟩
    exact .refl

/-- A program that fails completes at once. -/
theorem completes_fail {e : Failure ε} {σ σ' : System D X.State} {r : Except (Failure ε) α} :
    Completes (X := X) ok i (.fail e) σ r σ' ↔ r = .error e ∧ σ' = σ := by
  constructor
  · intro h
    obtain ⟨hr, rfl⟩ := Prog.Steps.fail h
    cases r with
    | ok a => cases hr
    | error e' => exact ⟨congrArg _ (Prog.fail.inj hr), rfl⟩
  · rintro ⟨rfl, rfl⟩
    exact .refl

/-- The program alone, with the environment's choices for its statements in order; `none` where one of
them fails the test. -/
def drive (M : Machine (signature D E)) (test : ℕ → Action D E → M.Choice → M.State → Bool) (i : ℕ) :
    Prog (signature D E) ε α → List M.Choice → M.State → Option (Except ε α × M.State)
  | .ret a, [], σ => some (.ok a, σ)
  | .fail e, [], σ => some (.error e, σ)
  | .step s k, ch :: chs, σ =>
    if test i s ch σ then (M.run i s ch σ).bind fun p => drive M test i (k p.1) chs p.2 else none
  | _, _, _ => none

/-- A program that is driven to its end performs its statements. -/
theorem steps_of_drive {M : Machine (signature D E)} {ok : Guard M}
    {test : ℕ → Action D E → M.Choice → M.State → Bool}
    (htest : ∀ i s ch σ, test i s ch σ = true → ok i s ch σ) {p : Prog (signature D E) ε α}
    {chs : List M.Choice} {σ σ' : M.State} {r : Except ε α}
    (h : drive M test i p chs σ = some (r, σ')) : p.Steps ok i σ (.ofExcept r) σ' := by
  induction p generalizing chs σ with
  | ret a =>
    cases chs with
    | nil =>
      cases h
      exact .refl
    | cons ch chs => cases h
  | fail e =>
    cases chs with
    | nil =>
      cases h
      exact .refl
    | cons ch chs => cases h
  | step s k ih =>
    cases chs with
    | nil => cases h
    | cons ch chs =>
      simp only [drive] at h
      split at h
      · rename_i hok
        obtain ⟨⟨r, σ₁⟩, hr, hrest⟩ := Option.bind_eq_some_iff.mp h
        exact .step (htest _ _ _ _ hok) hr (ih r hrest)
      · cases h

/-- A program that is driven to an end with a property completes so. -/
theorem completes_of_drive {test : ℕ → Action D E → (Service D X).Choice → System D X.State → Bool}
    (htest : ∀ i s ch σ, test i s ch σ = true → ok i s ch σ)
    {p : Prog (signature D E) (Failure ε) α} {chs : List (Service D X).Choice}
    {σ : System D X.State} {q : Except (Failure ε) α × System D X.State → Bool}
    (h : (drive (Service D X) test i p chs σ).any q = true) :
    ∃ r σ', Completes ok i p σ r σ' ∧ q (r, σ') = true := by
  obtain ⟨⟨r, σ'⟩, hr, hq⟩ := (Option.any_eq_true _ _).mp h
  exact ⟨r, σ', steps_of_drive htest hr, hq⟩

/-- The terms of a program that moves alone. -/
abbrev solo (D : Schema) {E : Signature.{0}} (X : Machine E) : Discipline (Service D X) :=
  Discipline.alone (Service D X) fun _ => True

/-- From a server on which the program has written `tx` in its open transaction and `d` is committed,
it ends in `Q`, and when a constraint stops it, `P` is to blame. -/
def Alone (ok : Guard (Service D X)) (i : ℕ) (tx : Option (List D.Write)) (d : D.Db)
    (p : Prog (signature D E) (Failure ε) α) (Q : α → Option (List D.Write) → D.Db → Prop)
    (P : Prop) : Prop :=
  ∀ σ : System D X.State, σ.server.tx i = tx → σ.server.db = d →
    wp ok (solo D X) i p (fun a σ' => Q a (σ'.server.tx i) σ'.server.db)
      (fun e _ => e = .database .constraint → P) σ

/-- What is left of a program that has performed some of its statements keeps its precondition. -/
theorem wp_steps {M : Machine (signature D E)} {ok : Guard M} {R : Discipline M}
    (hrefl : ∀ σ, R.rely i σ σ) {p p' : Prog (signature D E) ε α} {Q : α → M.State → Prop}
    {F : ε → M.State → Prop} {σ σ' : M.State} (hs : p.Steps ok i σ p' σ') (hi : R.inv σ)
    (h : wp ok R i p Q F σ) : R.inv σ' ∧ wp ok R i p' Q F σ' := by
  induction hs with
  | refl => exact ⟨hi, h⟩
  | step hok hr _ ih =>
    obtain ⟨hi₂, -, hk⟩ := h _ (hrefl _) hi _ _ _ hok hr
    exact ih hi₂ hk

/-- What a program that runs alone ends in. -/
theorem Alone.completes {d : D.Db} {w : X.State} {p : Prog (signature D E) (Failure ε) α}
    {Q : α → Option (List D.Write) → D.Db → Prop} {P : Prop} (h : Alone (X := X) ok i none d p Q P)
    {r : Except (Failure ε) α} {σ' : System D X.State}
    (hc : Completes ok i p ⟨Server.idle d, w⟩ r σ') :
    (∀ a, r = .ok a → Q a (σ'.server.tx i) σ'.server.db) ∧
      (r = .error (.database .constraint) → P) := by
  have hend := (wp_steps (R := solo D X) (fun _ => rfl) hc trivial
    (h ⟨Server.idle d, w⟩ rfl rfl)).2
  cases r with
  | ok a => exact ⟨fun b hb => Except.ok.inj hb ▸ hend σ' rfl trivial, fun he => (by cases he)⟩
  | error e => exact ⟨fun b hb => (by cases hb), fun he => hend σ' rfl trivial (Except.error.inj he)⟩

/-- What a statement reports when it is allowed is no violation of a constraint. -/
theorem report_ne_constraint {φ : Fault} {a : α} {e : DbError}
    (h : Server.report φ a = .error e) : (Failure.database e : Failure ε) ≠ .database .constraint := by
  cases φ <;> cases h
  · exact fun hc => by cases hc
  · exact fun hc => by cases hc

namespace Alone

variable {tx : Option (List D.Write)} {d : D.Db} {p : Prog (signature D E) (Failure ε) α}
  {Q : α → Option (List D.Write) → D.Db → Prop} {P : Prop}

theorem ret {a : α} (h : Q a tx d) :
    Alone (X := X) ok i tx d (.ret a : Prog (signature D E) (Failure ε) α) Q P := by
  rintro σ rfl rfl σ₁ rfl -
  exact h

/-- A failure that no constraint causes. -/
theorem raise {e : ε} : Alone (X := X) ok i tx d (.fail (.raised e)) Q P :=
  fun _ _ _ _ _ _ he => by cases he

theorem fail {e : Failure ε} (h : e = .database .constraint → P) :
    Alone (X := X) ok i tx d (.fail e) Q P := fun _ _ _ _ _ _ => h

/-- A program that ran out of fuel ends in nothing. -/
theorem halt :
    Alone (X := X) ok i tx d (ReadCommitted.halt : Prog (signature D E) (Failure ε) α) Q P :=
  fun _ _ _ _ _ _ _ (r : Empty) => nomatch r

theorem mono {Q' : α → Option (List D.Write) → D.Db → Prop} {P' : Prop}
    (h : Alone (X := X) ok i tx d p Q P) (hQ : ∀ a tx d, Q a tx d → Q' a tx d) (hP : P → P') :
    Alone (X := X) ok i tx d p Q' P' := fun σ htx hd =>
  wp_mono (fun a _ => hQ a _ _) (fun _ _ he hc => hP (he hc)) (h σ htx hd)

/-- One program after another. -/
theorem bind {f : α → Prog (signature D E) (Failure ε) β}
    {R : β → Option (List D.Write) → D.Db → Prop} (h : Alone (X := X) ok i tx d p Q P)
    (hf : ∀ a tx d, Q a tx d → Alone (X := X) ok i tx d (f a) R P) :
    Alone (X := X) ok i tx d (p.bind f) R P := fun σ htx hd =>
  wp_bind (fun _ => rfl) (wp_mono (fun a σ' hq => hf a _ _ hq σ' rfl rfl) (fun _ _ he => he)
    (h σ htx hd)) trivial

/-- A program whose failures are looked at: what comes afterwards starts anywhere, and takes the blame
over. -/
theorem attempt {f : Except (Failure ε) α → Prog (signature D E) (Failure ε) β}
    {R : β → Option (List D.Write) → D.Db → Prop} {B : Prop} (h : Alone (X := X) ok i tx d p Q B)
    (hok : ∀ a tx d, Q a tx d → Alone (X := X) ok i tx d (f (.ok a)) R P)
    (herror : ∀ e tx d, (e = .database .constraint → B) →
      Alone (X := X) ok i tx d (f (.error e)) R P) :
    Alone (X := X) ok i tx d (p.attempt.bind f) R P := by
  intro σ htx hd
  refine wp_bind (fun _ => rfl) (wp_tryCatch (fun _ => rfl) ?_ trivial) trivial
  refine wp_bind (fun _ => rfl) (wp_mono ?_ ?_ (h σ htx hd)) trivial
  · rintro a σ' hq σ₁ rfl -
    exact hok a _ _ hq σ' rfl rfl
  · rintro e σ' he σ₁ rfl -
    exact herror e _ _ he σ' rfl rfl

/-- A query. -/
theorem query {f : D.Db → β} {k : β → Prog (signature D E) (Failure ε) α}
    (h : Alone (X := X) ok i tx d (k (f (Server.applyAll (tx.getD []) d))) Q P) :
    Alone (X := X) ok i tx d ((ReadCommitted.query f).bind k) Q P := by
  rintro σ rfl rfl
  refine wp_query fun σ₁ hr _ _ => ?_
  obtain rfl : σ = σ₁ := hr
  exact ⟨fun _ => trivial, h σ rfl rfl, fun _ _ _ he => by cases he⟩

/-- A lock. -/
theorem lock {ls : List (D.Row × Mode)} {k : Unit → Prog (signature D E) (Failure ε) α}
    (h : Alone (X := X) ok i tx d (k ()) Q P) :
    Alone (X := X) ok i tx d ((db (.lock ls)).bind k) Q P := by
  rintro σ rfl rfl
  refine wp_db (s := .lock ls) fun σ₁ hr _ _ φ r srv _ he => ?_
  obtain rfl : σ = σ₁ := hr
  obtain ⟨hdb, htx, -⟩ := Server.exec_lock he
  refine ⟨trivial, trivial, fun _ _ => h ⟨srv, σ.world⟩ (congrFun htx i) hdb,
    fun e hr σ₁ _ _ hc => ?_⟩
  simp only [Server.exec] at he
  split at he
  · obtain ⟨hrep, -⟩ := Prod.mk.inj (Option.some.inj he)
    exact absurd hc (report_ne_constraint (hrep.trans hr))
  · cases he

/-- A call of the outside world. -/
theorem ext {e : E.Stmt} {k : E.Res e → Prog (signature D E) (Failure ε) α}
    (h : ∀ r, (∃ (σ : System D X.State) (c : X.Choice) (w : X.State), σ.server.db = d ∧
        ok i (.ext e) (.ext c) σ ∧ X.run i e c σ.world = some (r, w)) →
      Alone (X := X) ok i tx d (k r) Q P) :
    Alone (X := X) ok i tx d ((ReadCommitted.ext e).bind k) Q P := by
  rintro σ rfl rfl
  refine wp_ext fun σ₁ hr _ _ c r w hok hrun => ?_
  obtain rfl : σ = σ₁ := hr
  exact ⟨trivial, trivial, h r ⟨σ, c, w, rfl, hok, hrun⟩ ⟨σ.server, w⟩ rfl rfl⟩

/-- A write, of its own or within a transaction. -/
theorem write {w : D.Write} {k : ℕ → Prog (signature D E) (Failure ε) α}
    (hnone : D.apply w (Server.applyAll (tx.getD []) d) = none → P)
    (h : ∀ n d', D.apply w (Server.applyAll (tx.getD []) d) = some (n, d') →
      Alone (X := X) ok i (tx.map (· ++ [w])) (if tx.isSome then d else d') (k n) Q P) :
    Alone (X := X) ok i tx d ((ReadCommitted.write w).bind k) Q P := by
  rintro σ rfl rfl
  refine wp_db (s := .write w) fun σ₁ hr _ _ φ r srv _ he => ?_
  obtain rfl : σ = σ₁ := hr
  refine ⟨trivial, trivial, ?_⟩
  simp only [Server.exec] at he
  split at he
  · split at he
    · rename_i hnot
      obtain ⟨rfl, rfl⟩ := Prod.mk.inj (Option.some.inj he)
      exact ⟨fun v hv => (by cases hv), fun e hr σ₁ _ _ hc => hnone hnot⟩
    · rename_i n d' happ
      obtain ⟨rfl, rfl⟩ := Prod.mk.inj (Option.some.inj he)
      have hafter := h n d' happ
      cases φ with
      | none =>
        refine ⟨fun v hv => ?_, fun e hr => by cases hr⟩
        obtain rfl := Except.ok.inj hv
        refine hafter ⟨σ.server.record i w, σ.world⟩ ?_ ?_
        · cases htx : σ.server.tx i with
          | none => simp [Server.record_of_none htx, htx]
          | some ws => simp [Server.record_of_some htx]
        · cases htx : σ.server.tx i with
          | none =>
            rw [Server.view_of_none htx] at happ
            simp [Server.record_of_none htx, Server.applyOne, happ]
          | some ws => simp [Server.record_of_some htx, Server.take]
      | lost =>
        exact ⟨fun v hv => (by cases hv), fun e hr σ₁ _ _ hc => absurd hc (report_ne_constraint hr)⟩
      | late =>
        exact ⟨fun v hv => (by cases hv), fun e hr σ₁ _ _ hc => absurd hc (report_ne_constraint hr)⟩
  · cases he

/-- A write of its own. -/
theorem autocommit {w : D.Write} {k : ℕ → Prog (signature D E) (Failure ε) α}
    (hnone : D.apply w d = none → P)
    (h : ∀ n d', D.apply w d = some (n, d') → Alone (X := X) ok i none d' (k n) Q P) :
    Alone (X := X) ok i none d ((ReadCommitted.write w).bind k) Q P := write hnone h

/-- A write within a transaction whose writes the constraints have allowed so far. -/
theorem append {ws : List D.Write} {v : D.Db} {w : D.Write}
    {k : ℕ → Prog (signature D E) (Failure ε) α} (hv : Server.publish ws d = some v)
    (hnone : D.apply w v = none → P)
    (h : ∀ n v', D.apply w v = some (n, v') → Server.publish (ws ++ [w]) d = some v' →
      Alone (X := X) ok i (some (ws ++ [w])) d (k n) Q P) :
    Alone (X := X) ok i (some ws) d ((ReadCommitted.write w).bind k) Q P := by
  have hview : Server.applyAll ws d = v := Server.applyAll_of_publish hv
  refine write ?_ fun n v' happ => ?_
  · rw [Option.getD_some, hview]
    exact hnone
  · rw [Option.getD_some, hview] at happ
    refine h n v' happ ?_
    rw [Server.publish, List.foldlM_append, ← Server.publish, hv]
    simp [happ]

/-- A transaction whose writes the constraints allow one by one. -/
theorem transaction {R : α → D.Db → Prop}
    (hp : Alone (X := X) ok i (some []) d p (fun a tx d' => ∃ ws d'', tx = some ws ∧ d' = d ∧
      Server.publish ws d = some d'' ∧ R a d'') P) :
    Alone (X := X) ok i none d (ReadCommitted.transaction p) (fun a tx d' => tx = none ∧ R a d') P := by
  rintro σ htx rfl
  refine wp_db (s := .begin) fun σ₁ hr _ _ φ r srv _ he => ?_
  obtain rfl : σ = σ₁ := hr
  obtain ⟨hrep, rfl⟩ := Prod.mk.inj (Option.some.inj he)
  refine ⟨trivial, trivial, fun v hv => ?_, fun e hr σ₁ _ _ hc =>
    absurd hc (report_ne_constraint (hrep.trans hr))⟩
  obtain rfl : φ = .none := by cases φ <;> first | rfl | cases hrep.trans hv
  refine wp_bind (fun _ => rfl) (wp_tryCatch (fun _ => rfl) (wp_mono (fun a σ₂ hq => ?_)
    (fun e σ₂ he => ?_) (hp _ (Function.update_self ..) rfl)) trivial) trivial
  · obtain ⟨ws, d'', htx', hdb, hpub, hR⟩ := hq
    refine wp_db (s := .commit) fun σ₃ hr _ _ φ r srv _ he => ?_
    obtain rfl : σ₂ = σ₃ := hr
    simp only [Server.exec, htx', Option.getD_some, hdb, hpub] at he
    obtain ⟨hrep, rfl⟩ := Prod.mk.inj (Option.some.inj he)
    refine ⟨trivial, trivial, fun v hv => ?_, fun e hr σ₁ _ _ hc =>
      absurd hc (report_ne_constraint (hrep.trans hr))⟩
    obtain rfl : φ = .none := by cases φ <;> first | rfl | cases hrep.trans hv
    rintro σ₄ rfl -
    exact ⟨Function.update_self .., hR⟩
  · refine wp_step_db fun σ₃ hr _ _ φ r srv _ _ => ?_
    exact ⟨trivial, trivial, fun σ₄ _ _ => he⟩

end Alone

end ReadCommitted
