import Reeva.Interleaving.Transactions

/-!
# Programs that publish once

A program is `Once` when whatever its statements return, it returns a value exactly after its first
statement that publishes: after the successful commit of its transaction, or after a successful write
of its own. Such a program publishes at most once, and where no failed statement took effect a program
that fails has published nothing (`Orderly.failed`).
-/

open Interleaving

namespace ReadCommitted

variable {D : Schema} {E : Signature.{0}} {X : Machine E} {ε α β : Type}

/-- The condition that a statement that fails has published nothing. -/
def Guard.atomicFailures : Guard (Service D X)
  | _, .db .commit, ch, _ => ch ≠ .db .late
  | i, .db (.write _), ch, σ => σ.server.tx i = none → ch ≠ .db .late
  | _, _, _, _ => True

/-- Whether a transaction is open after a statement, given whether one was before. -/
def opens (o : Bool) : (s : Action D E) → (signature D E).Res s → Bool
  | .db .begin, .ok _ => true
  | .db .commit, _ => false
  | .db .rollback, _ => false
  | _, _ => o

/-- Whether a statement publishes something, given whether a transaction is open. -/
def publishes (o : Bool) : (s : Action D E) → (signature D E).Res s → Bool
  | .db .commit, .ok _ => true
  | .db (.write _), .ok _ => !o
  | _, _ => false

/-- The program returns exactly when it has published something; `o` says whether its transaction is
open. -/
def Once (o : Bool) : Prog (signature D E) (Failure ε) α → Prop
  | .ret _ => False
  | .fail _ => True
  | .step s k => ∀ r, if publishes o s r then ∃ a, k r = .ret a else Once (opens o s r) (k r)

/-- A statement that neither begins nor ends a transaction, and that writes only where one is
open. -/
def Plain (o : Bool) : Action D E → Prop
  | .db .begin => False
  | .db .commit => False
  | .db .rollback => False
  | .db (.write _) => o = true
  | _ => True

section programs

variable {o : Bool}

/-- A plain statement publishes nothing and leaves the transaction as it is. -/
theorem Plain.quiet {s : Action D E} (h : Plain o s) (r : (signature D E).Res s) :
    publishes o s r = false ∧ opens o s r = o := by
  cases s with
  | ext e => exact ⟨rfl, rfl⟩
  | halt => exact ⟨rfl, rfl⟩
  | db s =>
    cases s with
    | begin => exact h.elim
    | commit => exact h.elim
    | rollback => exact h.elim
    | write w =>
      cases r with
      | ok n => exact ⟨by rw [show o = true from h]; rfl, rfl⟩
      | error e => exact ⟨rfl, rfl⟩
    | _ => exact ⟨rfl, rfl⟩

/-- After plain statements it depends on what follows. -/
theorem once_bind {p : Prog (signature D E) (Failure ε) α}
    {f : α → Prog (signature D E) (Failure ε) β} (hp : p.Only (Plain o)) (hf : ∀ a, Once o (f a)) :
    Once o (p.bind f) := by
  induction p with
  | ret a => exact hf a
  | fail e => trivial
  | step s k ih =>
    intro r
    obtain ⟨hpub, hopen⟩ := hp.1.quiet r
    rw [if_neg (by simp [hpub]), hopen]
    exact ih r (hp.2 r)

/-- A handler of plain statements, which fails again after whatever it does. -/
theorem once_bind_tryCatch {p : Prog (signature D E) (Failure ε) α}
    {h : Failure ε → Prog (signature D E) (Failure ε) α}
    {f : α → Prog (signature D E) (Failure ε) β} (hp : p.Only (Plain o))
    (hh : ∀ e, Once o ((h e).bind f)) (hf : ∀ a, Once o (f a)) :
    Once o ((p.tryCatch h).bind f) := by
  induction p with
  | ret a => exact hf a
  | fail e => exact hh e
  | step s k ih =>
    intro r
    obtain ⟨hpub, hopen⟩ := hp.1.quiet r
    rw [if_neg (by simp [hpub]), hopen]
    exact ih r (hp.2 r)

/-- A transaction of plain statements publishes at its commit. -/
theorem once_transaction {p : Prog (signature D E) (Failure ε) α} (hp : p.Only (Plain true)) :
    Once o (transaction p) := by
  intro r
  cases r with
  | error e => exact trivial
  | ok _ =>
    refine once_bind_tryCatch hp (fun e r => ?_) fun a r => ?_
    · exact trivial
    · cases r with
      | ok _ => exact ⟨a, rfl⟩
      | error e => exact trivial

/-- A program whose result is turned into another. -/
theorem once_map {p : Prog (signature D E) (Failure ε) α} {f : α → β} (h : Once o p) :
    Once o (p.bind fun a => .ret (f a)) := by
  induction p generalizing o with
  | ret a => exact h
  | fail e => trivial
  | step s k ih =>
    intro r
    have hr := h r
    by_cases hp : publishes o s r = true
    · rw [if_pos hp] at hr ⊢
      obtain ⟨a, ha⟩ := hr
      exact ⟨f a, congrArg (fun p => p.bind fun a => .ret (f a)) ha⟩
    · rw [if_neg hp] at hr ⊢
      exact ih r hr

/-- A write of its own, after which the program returns. -/
theorem once_write {w : D.Write} {f : ℕ → α} :
    Once false ((write w : Prog (signature D E) (Failure ε) ℕ).bind fun n => .ret (f n)) := by
  intro r
  cases r with
  | ok n => exact ⟨f n, rfl⟩
  | error e => exact trivial

end programs

/-! ## Steps -/

section steps

/-- A write that takes effect fails only where its report is lost. -/
theorem exec_write_late {i : ℕ} {w : D.Write} {φ : Fault} {σ σ' : Server D} {r : Except DbError ℕ}
    (h : Server.exec i (.write w) φ σ = some (r, σ')) :
    (σ' = σ ∧ ∃ e, r = .error e) ∨ (σ' = σ.record i w ∧ ∀ e, r = .error e → φ = .late) := by
  simp only [Server.exec] at h
  split at h
  · split at h
    · cases h
      exact .inl ⟨rfl, _, rfl⟩
    · obtain ⟨rfl, rfl⟩ := Prod.mk.inj (Option.some.inj h)
      cases φ with
      | none => exact .inr ⟨rfl, fun e he => by cases he⟩
      | lost => exact .inl ⟨rfl, _, rfl⟩
      | late => exact .inr ⟨rfl, fun _ _ => rfl⟩
  · cases h

/-- What a statement does to the open transactions, and what it publishes where failures are
atomic. -/
theorem exec_opens {i : ℕ} {s : Stmt D} {φ : Fault} {r : s.Res} {σ σ' : Server D}
    (he : Server.exec i s φ σ = some (r, σ')) :
    (σ'.gone = σ.gone ∧ (∀ j, j ≠ i → σ'.tx j = σ.tx j) ∧
      (σ'.tx i).isSome = opens (E := E) (σ.tx i).isSome (.db s) r) ∧
    (publishes (E := E) (σ.tx i).isSome (.db s) r = false → σ'.db = σ.db ∨
      φ = .late ∧ (s = .commit ∨ σ.tx i = none ∧ ∃ w, s = .write w)) := by
  cases s with
  | query f =>
    obtain rfl := (Server.exec_query he).1
    exact ⟨⟨rfl, fun _ _ => rfl, rfl⟩, fun _ => .inl rfl⟩
  | write w =>
    rcases exec_write_late he with ⟨rfl, e, rfl⟩ | ⟨rfl, hφ⟩
    · exact ⟨⟨rfl, fun _ _ => rfl, rfl⟩, fun _ => .inl rfl⟩
    · -- Outside of a transaction a write is published at once, inside it is noted.
      cases htx : σ.tx i with
      | none =>
        rw [Server.record_of_none htx]
        refine ⟨⟨rfl, fun _ _ => rfl, by simp [htx, opens]⟩, fun hp => ?_⟩
        cases r with
        | ok n => cases hp
        | error e => exact .inr ⟨hφ e rfl, .inr ⟨rfl, w, rfl⟩⟩
      | some ws =>
        rw [Server.record_of_some htx]
        exact ⟨⟨rfl, fun j hj => Function.update_of_ne hj _ _, by simp [opens]⟩, fun _ => .inl rfl⟩
  | lock rows =>
    obtain ⟨hdb, htx, hgone⟩ := Server.exec_lock he
    exact ⟨⟨hgone, fun j _ => by rw [htx], by rw [htx]; rfl⟩, fun _ => .inl hdb⟩
  | advisory n =>
    rcases Server.exec_advisory_cases he with ⟨rfl, -⟩ | ⟨rfl, -⟩
    · exact ⟨⟨rfl, fun _ _ => rfl, rfl⟩, fun _ => .inl rfl⟩
    · exact ⟨⟨rfl, fun _ _ => rfl, rfl⟩, fun _ => .inl rfl⟩
  | begin =>
    rcases Server.exec_begin he with ⟨rfl, rfl⟩ | ⟨rfl, e, rfl⟩
    · exact ⟨⟨rfl, fun j hj => Function.update_of_ne hj _ _, by simp [opens]⟩, fun _ => .inl rfl⟩
    · exact ⟨⟨rfl, fun _ _ => rfl, rfl⟩, fun _ => .inl rfl⟩
  | rollback =>
    obtain ⟨-, rfl⟩ := Prod.mk.inj (Option.some.inj he)
    exact ⟨⟨rfl, fun j hj => Function.update_of_ne hj _ _, by simp [Server.release, opens]⟩,
      fun _ => .inl rfl⟩
  | commit =>
    rcases Server.exec_commit_cases he with ⟨d, hd, rfl, hφ⟩ | ⟨rfl, e, rfl⟩
    · -- The commit publishes, with or without its answer.
      refine ⟨⟨rfl, fun j hj => Function.update_of_ne hj _ _, by simp [Server.release, opens]⟩,
        fun hp => ?_⟩
      cases r with
      | ok _ => cases hp
      | error e => exact .inr ⟨hφ e rfl, .inl rfl⟩
    · exact ⟨⟨rfl, fun j hj => Function.update_of_ne hj _ _, by simp [Server.release, opens]⟩,
        fun _ => .inl rfl⟩

/-- A statement of a program that is still there, on the server or outside of it. -/
theorem run_cases {i : ℕ} {s : Action D E} {ch : Decision X.Choice} {r : (signature D E).Res s}
    {σ σ' : System D X.State} (hr : (Service D X).run i s ch σ = some (r, σ')) :
    σ.server.gone i = false ∧
      ((∃ e c, s = .ext e ∧ ch = .ext c ∧ σ'.server = σ.server) ∨
        ∃ (t : Stmt D) (φ : Fault) (r' : t.Res), s = .db t ∧ ch = .db φ ∧ HEq r r' ∧
          Server.exec i t φ σ.server = some (r', σ'.server)) := by
  cases s with
  | halt => cases ch <;> cases hr
  | ext e =>
    cases ch with
    | ext c =>
      simp only [Service] at hr
      split at hr
      · cases hr
      · rename_i hgone
        obtain ⟨⟨r', w⟩, -, hw⟩ := Option.map_eq_some_iff.mp hr
        cases hw
        exact ⟨by simpa using hgone, .inl ⟨e, c, rfl, rfl, rfl⟩⟩
    | _ => cases hr
  | db s =>
    cases ch with
    | db φ =>
      simp only [Service] at hr
      split at hr
      · cases hr
      · rename_i hgone
        obtain ⟨⟨r', srv⟩, he, hw⟩ := Option.map_eq_some_iff.mp hr
        cases hw
        exact ⟨by simpa using hgone, .inr ⟨s, φ, r', rfl, rfl, .rfl, he⟩⟩
    | _ => cases hr

/-- What a statement does to the open transactions. -/
theorem run_opens {i : ℕ} {s : Action D E} {ch : Decision X.Choice} {r : (signature D E).Res s}
    {σ σ' : System D X.State} (hr : (Service D X).run i s ch σ = some (r, σ')) :
    σ'.server.gone = σ.server.gone ∧ (∀ j, j ≠ i → σ'.server.tx j = σ.server.tx j) ∧
      (σ'.server.tx i).isSome = opens (σ.server.tx i).isSome s r := by
  obtain ⟨-, ⟨e, c, rfl, rfl, hs⟩ | ⟨t, φ, r', rfl, rfl, hrr, he⟩⟩ := run_cases hr
  · rw [hs]
    exact ⟨rfl, fun _ _ => rfl, rfl⟩
  · obtain rfl := eq_of_heq hrr
    exact (exec_opens he).1

/-- A program that has just performed a statement is still there. -/
theorem gone_of_stepBy {ok : Guard (Service D X)} {α : Type} {c c' : Config (Service D X) ε α} {i : ℕ}
    (h : c.StepBy ok i c') : c'.state.server.gone i = false := by
  obtain ⟨s, k, ch, r, σ, -, -, hr, rfl⟩ := h
  exact (congrFun (run_opens hr).1 i).trans (run_cases hr).1

/-- Where failures are atomic, what publishes nothing leaves what is committed. -/
theorem run_db {i : ℕ} {s : Action D E} {ch : Decision X.Choice} {r : (signature D E).Res s}
    {σ σ' : System D X.State} (hok : Guard.atomicFailures (X := X) i s ch σ)
    (hr : (Service D X).run i s ch σ = some (r, σ'))
    (hp : publishes (σ.server.tx i).isSome s r = false) : σ'.server.db = σ.server.db := by
  obtain ⟨-, ⟨e, c, rfl, rfl, hs⟩ | ⟨t, φ, r', rfl, rfl, hrr, he⟩⟩ := run_cases hr
  · rw [hs]
  · obtain rfl := eq_of_heq hrr
    rcases (exec_opens (E := E) he).2 hp with hdb | ⟨rfl, rfl | ⟨htx, w, rfl⟩⟩
    · exact hdb
    · exact absurd rfl hok
    · exact absurd rfl (hok htx)

/-- A statement with which program `i` may publish something: a commit, or a write outside of a
transaction. -/
def MayPublish (σ : System D X.State) (i : ℕ) : Action D E → Prop
  | .db .commit => True
  | .db (.write _) => σ.server.tx i = none
  | _ => False

/-- Nothing else publishes anything. -/
theorem mayPublish_of_publishes {i : ℕ} {s : Action D E} {ch : Decision X.Choice}
    {r : (signature D E).Res s} {σ σ' : System D X.State}
    (hr : (Service D X).run i s ch σ = some (r, σ')) (hp : Publishes i s r σ σ') :
    MayPublish (E := E) (X := X) σ i s := by
  obtain ⟨-, ⟨e, c, rfl, rfl, hs⟩ | ⟨t, φ, r', rfl, rfl, hrr, he⟩⟩ := run_cases hr
  · rcases hp with h | h
    · exact h
    · exact absurd (by rw [hs]) h
  · by_cases hc : t = .commit
    · subst hc
      trivial
    · by_cases hw : ∃ w, t = .write w
      · obtain ⟨w, rfl⟩ := hw
        cases htx : σ.server.tx i with
        | none => exact htx
        | some ws =>
          rcases hp with h | h
          · exact h.1
          · refine absurd ?_ h
            rcases Server.exec_write he with ⟨hs, -⟩ | ⟨hs, -⟩
            · rw [hs]
            · rw [hs, Server.record_db_of_some htx]
      · have hdb := Server.exec_db he (fun w h => hw ⟨w, h⟩) hc
        rcases hp with h | h
        · cases t with
          | commit => exact absurd rfl hc
          | write w => exact absurd ⟨w, rfl⟩ hw
          | _ => exact h
        · exact absurd hdb h

/-- What publishes something succeeds. -/
theorem succeeds_of_publishes {i : ℕ} {s : Action D E} {r : (signature D E).Res s}
    {σ : System D X.State} (h : publishes (σ.server.tx i).isSome s r = true) : Succeeds i s r σ := by
  cases s with
  | ext e => cases h
  | halt => cases h
  | db s =>
    cases s with
    | commit =>
      cases r with
      | ok _ => exact rfl
      | error e => cases h
    | write w =>
      cases r with
      | ok n => exact ⟨by simpa [publishes] using h, n, rfl⟩
      | error e => cases h
    | _ => cases h

end steps

/-! ## Runs -/

section runs

variable {T : Terms D X} {G : ℕ → System D X.State → System D X.State → Prop}
  {Q : ℕ → α → System D X.State → Prop} {F : ℕ → Failure ε → System D X.State → Prop}
  {ok : Guard (Service D X)} {c c' c'' : Config (Service D X) (Failure ε) α} {i : ℕ}

/-- Every program keeps the terms, publishes `G` only, and returns when it has published. -/
structure Orderly (ok : Guard (Service D X)) (T : Terms D X)
    (G : ℕ → System D X.State → System D X.State → Prop) (Q : ℕ → α → System D X.State → Prop)
    (F : ℕ → Failure ε → System D X.State → Prop) (c : Config (Service D X) (Failure ε) α) :
    Prop where
  sound : Sound ok (T.committing G) Q F c
  once : ∀ i p, c.pool[i]? = some p → c.state.server.gone i = false →
    (∃ a, p = .ret a) ∨ Once (c.state.server.tx i).isSome p

/-- A step of program `i` takes effect: the program returns, or what is committed changes. -/
def TakesEffect (i : ℕ) (c c' : Config (Service D X) (Failure ε) α) : Prop :=
  (∃ a, c'.pool[i]? = some (.ret a)) ∨ c'.state.server.db ≠ c.state.server.db

/-- What is left of a program that performs its next statement. -/
theorem Orderly.next (h : Orderly ok T G Q F c) {s : Action D E}
    {k : (signature D E).Res s → Prog (signature D E) (Failure ε) α}
    (hp : c.pool[i]? = some (.step s k)) (hg : c.state.server.gone i = false)
    (r : (signature D E).Res s) :
    if publishes (c.state.server.tx i).isSome s r then ∃ a, k r = .ret a
    else Once (opens (c.state.server.tx i).isSome s r) (k r) := by
  rcases h.once i _ hp hg with ⟨a, ha⟩ | ho
  · cases ha
  · exact ho r

/-- The statement after which a program returns succeeds. -/
theorem Orderly.succeeds (h : Orderly ok T G Q F c) {s : Action D E}
    {k : (signature D E).Res s → Prog (signature D E) (Failure ε) α} {ch : Decision X.Choice}
    {r : (signature D E).Res s} {σ : System D X.State} {a : α}
    (hp : c.pool[i]? = some (.step s k)) (hr : (Service D X).run i s ch c.state = some (r, σ))
    (ha : (c.pool.set i (k r))[i]? = some (.ret a)) : Succeeds i s r c.state := by
  have hlen : i < c.pool.length := (List.getElem?_eq_some_iff.mp hp).1
  simp only [List.getElem?_set_self hlen, Option.some.injEq] at ha
  have hnext := h.next hp (run_cases hr).1 r
  split at hnext
  · exact succeeds_of_publishes ‹_›
  · rw [ha] at hnext
    exact hnext.elim

/-- A step that takes effect publishes what the program may publish. -/
theorem Orderly.publishes (h : Orderly ok T G Q F c) (hs : c.StepBy ok i c')
    (he : TakesEffect i c c') : G i c.state c'.state ∧
      ∃ s ch, MayPublish (X := X) c.state i s ∧ ok i s ch c.state := by
  obtain ⟨s, k, ch, r, σ, hp, hok, hr, rfl⟩ := hs
  have hpub : Publishes i s r c.state σ := by
    refine he.imp ?_ id
    rintro ⟨a, ha⟩
    exact h.succeeds hp hr ha
  exact ⟨(h.sound.step_guar (T.committing_compatible G) hp hok hr).2 hpub, s, ch,
    mayPublish_of_publishes hr hpub, hok⟩

theorem Orderly.effect (h : Orderly ok T G Q F c) (hs : c.StepBy ok i c')
    (he : TakesEffect i c c') : G i c.state c'.state := (h.publishes hs he).1

/-- Where failures are atomic, a program returns when what is committed changes. -/
theorem Orderly.returns (h : Orderly ok T G Q F c)
    (hok : ∀ i s ch σ, ok i s ch σ → Guard.atomicFailures i s ch σ) (hs : c.StepBy ok i c')
    (hdb : c'.state.server.db ≠ c.state.server.db) : ∃ a, c'.pool[i]? = some (.ret a) := by
  obtain ⟨s, k, ch, r, σ, hp, hg, hr, rfl⟩ := hs
  have hlen : i < c.pool.length := (List.getElem?_eq_some_iff.mp hp).1
  have hnext := h.next hp (run_cases hr).1 r
  split at hnext
  · obtain ⟨a, ha⟩ := hnext
    exact ⟨a, by simp [hlen, ha]⟩
  · rename_i hpub
    exact absurd (run_db (hok i s ch _ hg) hr (Bool.eq_false_iff.mpr hpub)) hdb

/-- Orderly programs stay so. -/
theorem Orderly.step (h : Orderly ok T G Q F c) (hs : c.Step ok c') : Orderly ok T G Q F c' := by
  refine ⟨h.sound.step (T.committing_compatible G) hs, ?_⟩
  cases hs with
  | @thread i s k ch r σ hp hg hr =>
    obtain ⟨hgone, htx, hopen⟩ := run_opens hr
    intro j p hj hgj
    simp only [hgone] at hgj
    simp only [List.getElem?_set] at hj
    split at hj
    · rename_i hij
      subst hij
      split at hj
      · cases hj
        have hnext := h.next hp hgj r
        split at hnext
        · exact .inl hnext
        · exact .inr (hopen ▸ hnext)
      · cases hj
    · rename_i hij
      simp only [htx j (Ne.symm hij)]
      exact h.once j p hj hgj
  | @env ch σ he =>
    intro j p hj hgj
    cases ch with
    | db φ => cases he
    | ext x =>
      obtain ⟨w, -, rfl⟩ := Option.map_eq_some_iff.mp he
      exact h.once j p hj hgj
    | abort k =>
      cases he
      have hjk : j ≠ k := by
        rintro rfl
        simp [Server.abort] at hgj
      have htx : (c.state.server.abort k).tx j = c.state.server.tx j := Function.update_of_ne hjk _ _
      have hg : (c.state.server.abort k).gone j = c.state.server.gone j :=
        Function.update_of_ne hjk _ _
      simp only [htx]
      exact h.once j p hj (hg ▸ hgj)

theorem Orderly.run (h : Orderly ok T G Q F c) (hr : c.Run ok c') : Orderly ok T G Q F c' := by
  induction hr with
  | refl => exact h
  | tail _ hs ih => exact ih.step hs

/-- Where failures are atomic, a program that fails in the end has changed nothing. -/
theorem Orderly.failed (h : Orderly ok T G Q F c)
    (hok : ∀ i s ch σ, ok i s ch σ → Guard.atomicFailures i s ch σ) (hs : c.StepBy ok i c')
    (hr : c'.Run ok c'') {e : Failure ε} (he : c''.pool[i]? = some (.fail e)) :
    c'.state.server.db = c.state.server.db := by
  by_contra hdb
  obtain ⟨a, ha⟩ := h.returns hok hs hdb
  rw [Config.ret_of_run ha hr] at he
  cases he

/-- The environment publishes nothing. -/
theorem env_db {ch : Decision X.Choice} {σ σ' : System D X.State}
    (he : (Service D X).env ch σ = some σ') : σ'.server.db = σ.server.db := by
  cases ch with
  | db φ => cases he
  | ext x =>
    obtain ⟨w, -, rfl⟩ := Option.map_eq_some_iff.mp he
    rfl
  | abort k =>
    cases he
    rfl

/-- In every run of orderly programs what is committed keeps what their publications keep. -/
theorem Orderly.keeps {P : D.Db → Prop} (h : Orderly ok T G Q F c)
    (hG : ∀ i s ch (σ σ' : System D X.State), MayPublish (E := E) (X := X) σ i s → ok i s ch σ →
      G i σ σ' → P σ.server.db → P σ'.server.db) (hP : P c.state.server.db)
    (hr : c.Run ok c') : P c'.state.server.db := by
  induction hr with
  | refl => exact hP
  | @tail c₁ c₂ hrun hs ih =>
    rcases hs.cases_by with ⟨i, hi⟩ | ⟨ch, σ, he, rfl⟩
    · by_cases hdb : c₂.state.server.db = c₁.state.server.db
      · rw [hdb]
        exact ih
      · obtain ⟨hg, s, ch, hmay, hok⟩ := (h.run hrun).publishes hi (.inr hdb)
        exact hG i s ch _ _ hmay hok hg ih
    · rw [env_db he]
      exact ih

/-- A run with the programs whose steps took effect, in their order. -/
inductive History (ok : Guard (Service D X)) (c : Config (Service D X) (Failure ε) α) :
    List ℕ → Config (Service D X) (Failure ε) α → Prop
  | start : History ok c [] c
  | effect {log : List ℕ} {c₁ c₂ : Config (Service D X) (Failure ε) α} {i : ℕ}
    (h : History ok c log c₁) (hs : c₁.StepBy ok i c₂) (he : TakesEffect i c₁ c₂) :
    History ok c (log ++ [i]) c₂
  | other {log : List ℕ} {c₁ c₂ : Config (Service D X) (Failure ε) α} (h : History ok c log c₁)
    (hs : c₁.Step ok c₂) (hno : ∀ i, c₁.StepBy ok i c₂ → ¬TakesEffect i c₁ c₂) :
    History ok c log c₂

/-- A history is one of a run. -/
theorem History.run {log : List ℕ} (h : History ok c log c') : c.Run ok c' := by
  induction h with
  | start => exact .refl
  | effect _ hs _ ih => exact ih.tail hs.step
  | other _ hs _ ih => exact ih.tail hs

/-- What takes no effect publishes nothing. -/
theorem step_db (hs : c.Step ok c') (hno : ∀ i, c.StepBy ok i c' → ¬TakesEffect i c c') :
    c'.state.server.db = c.state.server.db := by
  rcases hs.cases_by with ⟨i, hi⟩ | ⟨ch, σ, he, rfl⟩
  · by_contra hdb
    exact hno i hi (.inr hdb)
  · exact env_db he

/-- Every run has a history. -/
theorem History.of_run (hr : c.Run ok c') : ∃ log, History ok c log c' := by
  induction hr with
  | refl => exact ⟨[], .start⟩
  | @tail c₁ c₂ _ hs ih =>
    obtain ⟨log, hlog⟩ := ih
    by_cases h : ∃ i, c₁.StepBy ok i c₂ ∧ TakesEffect i c₁ c₂
    · obtain ⟨i, hi, he⟩ := h
      exact ⟨log ++ [i], .effect hlog hi he⟩
    · exact ⟨log, .other hlog hs fun i hi he => h ⟨i, hi, he⟩⟩

end runs

end ReadCommitted
