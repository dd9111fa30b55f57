import Reeva.Interleaving.AdvisoryLocks
import Reeva.Interleaving.RowLocks

/-!
# Locks of two kinds

A program may hold an advisory lock and rows at once, and count on something in the outside world.
`Terms.both` and `Possession.both` put what is said of each kind together, and in `write_taking_rule`
the rows that a write locks become part of what the program has.
-/

open Interleaving

namespace ReadCommitted

variable {D : Schema} {E : Signature.{0}} {X : Machine E}

namespace Terms

/-- Two terms at once. -/
def both (T U : Terms D X) : Terms D X where
  inv σ := T.inv σ ∧ U.inv σ
  rely i σ σ' := T.rely i σ σ' ∧ U.rely i σ σ'
  guar i σ σ' := T.guar i σ σ' ∧ U.guar i σ σ'
  rely_refl i σ := ⟨T.rely_refl i σ, U.rely_refl i σ⟩
  rely_trans i _ _ _ h₁ h₂ := ⟨T.rely_trans i _ _ _ h₁.1 h₂.1, U.rely_trans i _ _ _ h₁.2 h₂.2⟩
  covers i j _ _ hij hi hi' h :=
    ⟨T.covers i j _ _ hij hi.1 hi'.1 h.1, U.covers i j _ _ hij hi.2 hi'.2 h.2⟩
  quiet i σ srv hi hq :=
    have hT := T.quiet i σ srv hi.1 hq
    have hU := U.quiet i σ srv hi.2 hq
    ⟨⟨hT.1, hU.1⟩, hT.2, hU.2⟩
  world ch σ w hw hi :=
    have hT := T.world ch σ w hw hi.1
    have hU := U.world ch σ w hw hi.2
    ⟨⟨hT.1, hU.1⟩, fun j => ⟨hT.2 j, hU.2 j⟩⟩
  abort i σ hi :=
    have hT := T.abort i σ hi.1
    have hU := U.abort i σ hi.2
    ⟨⟨hT.1, hU.1⟩, fun j => ⟨hT.2 j, hU.2 j⟩⟩

variable {T U : Terms D X} {i : ℕ}

/-- A move within each is a move within both. -/
theorem both_move {σ σ' : System D X.State} (hT : T.inv σ' ∧ T.guar i σ σ')
    (hU : U.inv σ' ∧ U.guar i σ σ') : (T.both U).inv σ' ∧ (T.both U).guar i σ σ' :=
  ⟨⟨hT.1, hU.1⟩, hT.2, hU.2⟩

end Terms

namespace Possession

variable {T U : Terms D X} {i : ℕ} {L M : Possession D i} {A : D.Db → X.State → Prop}

/-- Two things at once. -/
def both (L M : Possession D i) : Possession D i where
  has σ := L.has σ ∧ M.has σ
  keeps hk hg h := ⟨L.keeps hk hg h.1, M.keeps hk hg h.2⟩
  take ls h := ⟨L.take ls h.1, M.take ls h.2⟩
  advisory n h := ⟨L.advisory n h.1, M.advisory n h.2⟩
  writes tx h := ⟨L.writes tx h.1, M.writes tx h.2⟩

/-- What one of the terms keeps is kept by both. -/
theorem Fact.left (h : L.Fact T A) : L.Fact (T.both U) A := fun σ σ' hr => h σ σ' hr.1

theorem Fact.right (h : L.Fact U A) : L.Fact (T.both U) A := fun σ σ' hr => h σ σ' hr.2

section rules

variable {ok : Guard (Service D X)} {ε α β : Type} {tx : Option (List D.Write)}
  {Q : α → System D X.State → Prop} {F : Failure ε → System D X.State → Prop}
  {G : ℕ → System D X.State → System D X.State → Prop}

/-- A write within a transaction, after which the program has the rows that it locks. -/
theorem write_taking_rule {ws : List D.Write} {w : D.Write}
    {k : ℕ → Prog (signature D E) (Failure ε) α} {B : ℕ → List D.Row → D.Db → X.State → Prop}
    (hA : L.Fact T A)
    (hs : ∀ σ : System D X.State, T.inv σ → σ.server.tx i = some ws → L.has σ.server →
      A σ.server.db σ.world → (∀ l ∈ D.locks w (σ.server.view i), σ.server.free i l = true) →
      T.inv ⟨σ.server.record i w, σ.world⟩ ∧ T.guar i σ ⟨σ.server.record i w, σ.world⟩)
    (htake : ∀ (σ : System D X.State) φ n d, T.inv σ → A σ.server.db σ.world →
      ok i (.db (.write w)) (.db φ) σ →
      D.apply w (Server.applyAll ws σ.server.db) = some (n, d) →
      ∃ rs, (∀ r ∈ rs, (r, .exclusive) ∈ D.locks w (Server.applyAll ws σ.server.db)) ∧
        B n rs σ.server.db σ.world)
    (hF : ∀ (e : DbError) σ, L.Known A σ → F (.database e) σ)
    (hk : ∀ n rs, Triple ok (T.committing G) i
      ((L.both (rows i rs)).Holds (some (ws ++ [w])) (B n rs)) (k n) Q F) :
    Triple ok (T.committing G) i (L.Holds (some ws) A) ((write w).bind k) Q F := by
  intro σ _ ha
  refine wp_db (s := .write w) fun σ₁ hr hi hgone φ r srv hok he => ?_
  have ha₁ := hA.stable σ σ₁ hr ha
  have htx := ha₁.1 hgone
  rcases Server.exec_write he with ⟨rfl, e, rfl⟩ | ⟨rfl, hfree, n, d, happly, hres⟩
  · obtain ⟨hi₂, hg⟩ := T.quiet i σ₁ _ hi .same
    exact ⟨hi₂, ⟨⟨fun j _ => .refl j _, hg⟩, silent rfl not_succeeds_error⟩,
      fun v hv => (by cases hv),
      fun _ _ σ₂ hr₂ _ => hF _ _ (hA.stable _ _ hr₂ ha₁).2⟩
  · obtain ⟨hL, hA₁⟩ := ha₁.2 hgone
    obtain ⟨hi₂, hg⟩ := hs σ₁ hi htx hL hA₁ hfree
    have hview : σ₁.server.view i = Server.applyAll ws σ₁.server.db := by
      rw [Server.view, htx, Option.getD_some]
    have hdb : (σ₁.server.record i w).db = σ₁.server.db := Server.record_db_of_some htx
    have htx₂ : (σ₁.server.record i w).tx i = some (ws ++ [w]) := by
      rw [Server.record_of_some htx]
      exact Function.update_self ..
    have hafter : L.Holds (some (ws ++ [w])) A ⟨σ₁.server.record i w, σ₁.world⟩ :=
      ⟨fun _ => htx₂, fun _ => ⟨L.record htx hL, by rw [hdb]; exact hA₁⟩⟩
    refine ⟨hi₂, ⟨⟨fun j hij => Server.keeps_record hij hfree, hg⟩, silent hdb
      fun hs => by cases hs.1.symm.trans htx⟩, fun v hv => ?_,
      fun _ _ σ₂ hr₂ _ => hF _ _ (hA.stable _ _ hr₂ hafter).2⟩
    -- The write has run, so its result is that of the write.
    obtain rfl : n = v := by
      rcases hres with h | h
      · exact (Except.ok.inj (h.symm.trans hv))
      · cases h.symm.trans hv
    rw [hview] at happly
    obtain ⟨rs, hlocks, hb⟩ := htake σ₁ φ n d hi hA₁ hok happly
    refine hk n rs _ hi₂ ⟨fun _ => htx₂, fun _ => ⟨⟨L.record htx hL, fun r hr => ?_⟩, ?_⟩⟩
    · -- The locks of the write are those of the rows that it changes.
      rw [Server.record_of_some htx, hview]
      exact if_pos (hlocks r hr)
    · rw [hdb]
      exact hb

end rules

end Possession

/-- A write within a transaction, after which the program holds a row that the write locks. -/
theorem committing_write_taking {T : Terms D X} {ok : Guard (Service D X)} {i : ℕ} {ε α : Type}
    {rows : List D.Row} {A : D.Db → X.State → Prop} {Q : α → System D X.State → Prop}
    {F : Failure ε → System D X.State → Prop}
    {G : ℕ → System D X.State → System D X.State → Prop} {ws : List D.Write} {w : D.Write}
    {r : D.Row} {k : ℕ → Prog (signature D E) (Failure ε) α} {B : ℕ → D.Db → X.State → Prop}
    (hA : T.Fact i rows A)
    (hs : ∀ σ : System D X.State, T.inv σ → σ.server.tx i = some ws →
      (∀ l ∈ D.locks w (σ.server.view i), σ.server.free i l = true) →
      T.inv ⟨σ.server.record i w, σ.world⟩ ∧ T.guar i σ ⟨σ.server.record i w, σ.world⟩)
    (hlock : ∀ d, (r, .exclusive) ∈ D.locks w d)
    (hB : ∀ (σ : System D X.State) φ n d, T.inv σ → A σ.server.db σ.world →
      ok i (.db (.write w)) (.db φ) σ →
      D.apply w (Server.applyAll ws σ.server.db) = some (n, d) → B n σ.server.db σ.world)
    (hF : ∀ e σ, Known i rows A σ → F e σ)
    (hk : ∀ n, Triple ok (T.committing G) i (Holds i (some (ws ++ [w])) (r :: rows) (B n)) (k n)
      Q F) :
    Triple ok (T.committing G) i (Holds i (some ws) rows A) ((write w).bind k) Q F := by
  refine Possession.write_taking_rule (L := .rows i rows)
    (B := fun n rs d w => rs = [r] ∧ B n d w) hA (fun σ hi htx _ _ => hs σ hi htx) ?_
    (fun _ => hF _) fun n rs σ hi h => ?_
  · intro σ φ n d hi ha hok happly
    exact ⟨[r], fun _ hr => List.mem_singleton.mp hr ▸ hlock _, rfl, hB σ φ n d hi ha hok happly⟩
  · refine hk n σ hi ⟨h.1, fun hg => ?_⟩
    obtain ⟨⟨hrows, htaken⟩, rfl, hb⟩ := h.2 hg
    exact ⟨List.forall_mem_cons.mpr ⟨htaken r (List.mem_singleton_self r), hrows⟩, hb⟩

/-- Where a program that is still there would know what is false, it does nothing more. -/
theorem committing_absurd {T : Terms D X} {ok : Guard (Service D X)} {i : ℕ} {ε α : Type}
    {rows : List D.Row} {tx : Option (List D.Write)} {p : Prog (signature D E) (Failure ε) α}
    {Q : α → System D X.State → Prop} {F : Failure ε → System D X.State → Prop}
    {G : ℕ → System D X.State → System D X.State → Prop}
    (hQ : ∀ a σ, σ.server.gone i = true → Q a σ) (hF : ∀ e σ, σ.server.gone i = true → F e σ) :
    Triple ok (T.committing G) i (Holds i tx rows fun _ _ => False) p Q F := by
  intro σ _ ha
  have hgone : σ.server.gone i = true := by
    by_contra hne
    exact (ha.2 (by simpa using hne)).2
  cases p with
  | ret a => exact fun σ₁ hr _ => hQ a σ₁ (hr.1.gone hgone)
  | fail e => exact fun σ₁ hr _ => hF e σ₁ (hr.1.gone hgone)
  | step s k =>
    intro σ₁ hr _ ch r σ₂ _ hrun
    cases (run_cases hrun).1.symm.trans (hr.1.gone hgone)

/-! ## The outside world -/

/-- What each program may count on in the outside world. -/
structure OutsideWorld (X : Machine E) where
  /-- What program `i` may count on. -/
  rely : ℕ → X.State → X.State → Prop
  refl : ∀ i w, rely i w w
  trans : ∀ i w₁ w₂ w₃, rely i w₁ w₂ → rely i w₂ w₃ → rely i w₁ w₃
  /-- The outside world moves within it. -/
  env : ∀ i ch w w', X.env ch w = some w' → rely i w w'
  /-- So do the calls of the other programs. -/
  run : ∀ i j e ch w r w', i ≠ j → X.run i e ch w = some (r, w') → rely j w w'

/-- The terms on which a program may count on something in the outside world. -/
def worldTerms (D : Schema) (O : OutsideWorld X) : Terms D X where
  inv _ := True
  rely i σ σ' := O.rely i σ.world σ'.world
  guar i σ σ' := ∀ j, i ≠ j → O.rely j σ.world σ'.world
  rely_refl i σ := O.refl i σ.world
  rely_trans i _ _ _ h₁ h₂ := O.trans i _ _ _ h₁ h₂
  covers _ j _ _ hij _ _ h := h j hij
  quiet _ σ _ _ _ := ⟨trivial, fun j _ => O.refl j σ.world⟩
  world ch σ w hw _ := ⟨trivial, fun j => O.env j ch σ.world w hw⟩
  abort _ σ _ := ⟨trivial, fun j => O.refl j σ.world⟩

end ReadCommitted
