import Reeva.Interleaving.Possessions

/-!
# Programs with transactions

What a program knows while it holds rows alone, and the rules of `Triple` for its statements and its
transactions: `Holds` says what it has written in its open transaction, which rows it holds alone, and
a fact about what is committed and the outside world. The rules are those of a possession of rows; the
first of each kind also says what the statement publishes.
-/

open Interleaving

namespace ReadCommitted

variable {D : Schema} {E : Signature.{0}} {X : Machine E}

/-- A fact that program `i` may count on while it holds some rows alone. -/
def Terms.Fact (T : Terms D X) (i : ℕ) (rows : List D.Row) (A : D.Db → X.State → Prop) : Prop :=
  ∀ σ σ', T.rely i σ σ' → σ'.server.gone i = false →
    (∀ r ∈ rows, σ.server.owner r = some i) →
    A σ.server.db σ.world → A σ'.server.db σ'.world

/-- The rows that locks are to hold alone. -/
def alone (ls : List (D.Row × Mode)) : List D.Row :=
  ls.filterMap fun l => if l.2 = .exclusive then some l.1 else none

theorem mem_alone {ls : List (D.Row × Mode)} {r : D.Row} : r ∈ alone ls ↔ (r, .exclusive) ∈ ls := by
  simp only [alone, List.mem_filterMap, Option.ite_none_right_eq_some, Option.some.injEq]
  constructor
  · rintro ⟨⟨r', m⟩, hm, rfl, rfl⟩
    exact hm
  · exact fun h => ⟨_, h, rfl, rfl⟩

/-- Rows that are locked are held alone. -/
theorem owner_take {i : ℕ} {rows : List D.Row} {srv : Server D} {ls : List (D.Row × Mode)}
    (h : ∀ r ∈ rows, srv.owner r = some i) :
    ∀ r ∈ alone ls ++ rows, (srv.take i ls).owner r = some i := by
  intro r hr
  simp only [Server.take]
  rcases List.mem_append.mp hr with hr | hr
  · exact if_pos (mem_alone.mp hr)
  · split
    · rfl
    · exact h r hr

/-- A program that is still there holds some rows alone, and a fact holds. -/
def Known {W : Type} (i : ℕ) (rows : List D.Row) (A : D.Db → W → Prop) (σ : System D W) : Prop :=
  σ.server.gone i = false →
    (∀ r ∈ rows, σ.server.owner r = some i) ∧ A σ.server.db σ.world

/-- Besides, the program has written `tx` in its open transaction. -/
def Holds {W : Type} (i : ℕ) (tx : Option (List D.Write)) (rows : List D.Row)
    (A : D.Db → W → Prop) (σ : System D W) : Prop :=
  (σ.server.gone i = false → σ.server.tx i = tx) ∧ Known i rows A σ

/-- What is known with some rows is known with fewer, and a weaker fact is known. -/
theorem Known.mono {W : Type} {i : ℕ} {rows rows' : List D.Row} {A A' : D.Db → W → Prop}
    {σ : System D W} (h : Known i rows A σ) (hrows : ∀ r ∈ rows', r ∈ rows)
    (hA : ∀ d w, A d w → A' d w) : Known i rows' A' σ :=
  fun hg => ⟨fun r hr => (h hg).1 r (hrows r hr), hA _ _ (h hg).2⟩

theorem Holds.mono {W : Type} {i : ℕ} {tx : Option (List D.Write)} {rows : List D.Row}
    {A A' : D.Db → W → Prop} {σ : System D W} (h : Holds i tx rows A σ)
    (hA : ∀ d w, A d w → A' d w) : Holds i tx rows A' σ :=
  ⟨h.1, h.2.mono (fun _ => id) hA⟩

/-- An idle program knows every fact that holds. -/
theorem holds_idle {W : Type} (i : ℕ) {A : D.Db → W → Prop} {d : D.Db} {w : W} (h : A d w) :
    Holds i none [] A ⟨Server.idle d, w⟩ := ⟨fun _ => rfl, fun _ => ⟨by simp, h⟩⟩

namespace Terms

variable {T : Terms D X} {i : ℕ} {rows : List D.Row} {A B : D.Db → X.State → Prop}
  {tx : Option (List D.Write)}

theorem Fact.stable_known (hA : T.Fact i rows A) : Stable T.discipline i (Known i rows A) :=
  Possession.Fact.stable_known (L := .rows i rows) hA

theorem Fact.stable (hA : T.Fact i rows A) : Stable T.discipline i (Holds i tx rows A) :=
  Possession.Fact.stable (L := .rows i rows) hA

/-- A fact that needs fewer rows. -/
theorem Fact.more {L : List D.Row} (hA : T.Fact i rows A) (h : ∀ r ∈ rows, r ∈ L) :
    T.Fact i L A := fun σ σ' hr hg hrows => hA σ σ' hr hg fun r hm => hrows r (h r hm)

theorem Fact.and (hA : T.Fact i rows A) (hB : T.Fact i rows B) :
    T.Fact i rows fun d w => A d w ∧ B d w :=
  fun σ σ' hr hg hrows h => ⟨hA σ σ' hr hg hrows h.1, hB σ σ' hr hg hrows h.2⟩

theorem Fact.const (p : Prop) : T.Fact i rows fun _ _ => p := fun _ _ _ _ _ h => h

theorem Fact.stable_committing (G : ℕ → System D X.State → System D X.State → Prop)
    (hA : T.Fact i rows A) : Stable (T.committing G) i (Holds i tx rows A) := hA.stable

end Terms

/-! ## Rules -/

section rules

variable {T : Terms D X} {ok : Guard (Service D X)} {i : ℕ} {ε α β : Type} {rows : List D.Row}
  {A : D.Db → X.State → Prop} {tx : Option (List D.Write)}
  {Q : α → System D X.State → Prop} {F : Failure ε → System D X.State → Prop}
  {G : ℕ → System D X.State → System D X.State → Prop}

/-- A query. -/
theorem committing_query {f : D.Db → β} {k : β → Prog (signature D E) (Failure ε) α}
    {B : β → D.Db → X.State → Prop} (hA : T.Fact i rows A)
    (hB : ∀ σ : System D X.State, T.inv σ → A σ.server.db σ.world →
      B (f (Server.applyAll (tx.getD []) σ.server.db)) σ.server.db σ.world)
    (hF : ∀ e σ, Holds i tx rows A σ → F e σ)
    (hk : ∀ v, Triple ok (T.committing G) i (Holds i tx rows (B v)) (k v) Q F) :
    Triple ok (T.committing G) i (Holds i tx rows A) ((query f).bind k) Q F :=
  Possession.query_rule (L := .rows i rows) hA hB (fun _ => hF _) hk

/-- A lock of rows that a program is to hold alone. -/
theorem committing_lock {ls : List (D.Row × Mode)} {k : Unit → Prog (signature D E) (Failure ε) α}
    (hA : T.Fact i rows A) (hF : ∀ e σ, Known i rows A σ → F e σ)
    (hk : Triple ok (T.committing G) i (Holds i tx (alone ls ++ rows) A) (k ()) Q F) :
    Triple ok (T.committing G) i (Holds i tx rows A) ((db (.lock ls)).bind k) Q F :=
  Possession.lock_rule (L := .rows i rows) (M := .rows i (alone ls ++ rows)) hA
    (fun _ => owner_take) (fun _ h r hr => h r (List.mem_append_right _ hr)) (fun _ => hF _) hk

/-- An advisory lock. -/
theorem committing_advisory {n : ℕ} {k : Unit → Prog (signature D E) (Failure ε) α}
    (hA : T.Fact i rows A) (hF : ∀ e σ, Holds i tx rows A σ → F e σ)
    (hk : Triple ok (T.committing G) i (Holds i tx rows A) (k ()) Q F) :
    Triple ok (T.committing G) i (Holds i tx rows A) ((db (.advisory n)).bind k) Q F :=
  Possession.advisory_rule (L := .rows i rows) (M := .rows i rows) hA (fun _ h => h) (fun _ => hF _) hk

/-- A call of the outside world. -/
theorem committing_ext {e : E.Stmt} {k : E.Res e → Prog (signature D E) (Failure ε) α}
    {B : E.Res e → D.Db → X.State → Prop} (hA : T.Fact i rows A)
    (hs : ∀ (σ : System D X.State) c r w, T.inv σ → A σ.server.db σ.world →
      ok i (.ext e) (.ext c) σ → X.run i e c σ.world = some (r, w) →
      T.inv ⟨σ.server, w⟩ ∧ T.guar i σ ⟨σ.server, w⟩ ∧ B r σ.server.db w)
    (hk : ∀ r, Triple ok (T.committing G) i (Holds i tx rows (B r)) (k r) Q F) :
    Triple ok (T.committing G) i (Holds i tx rows A) ((ext e).bind k) Q F :=
  Possession.ext_rule (L := .rows i rows) hA hs hk

/-- A write within a transaction. -/
theorem committing_write {ws : List D.Write} {w : D.Write}
    {k : ℕ → Prog (signature D E) (Failure ε) α} (hA : T.Fact i rows A)
    (hs : ∀ σ : System D X.State, T.inv σ → σ.server.tx i = some ws →
      (∀ r ∈ rows, σ.server.owner r = some i) → A σ.server.db σ.world →
      (∀ l ∈ D.locks w (σ.server.view i), σ.server.free i l = true) →
      T.inv ⟨σ.server.record i w, σ.world⟩ ∧ T.guar i σ ⟨σ.server.record i w, σ.world⟩)
    (hF : ∀ e σ, Known i rows A σ → F e σ)
    (hk : ∀ n, Triple ok (T.committing G) i (Holds i (some (ws ++ [w])) rows A) (k n) Q F) :
    Triple ok (T.committing G) i (Holds i (some ws) rows A) ((write w).bind k) Q F :=
  Possession.write_rule (L := .rows i rows) hA hs (fun _ => hF _) hk

/-- A write of its own, outside of a transaction, of which the program may also use that the run
performs it. -/
theorem committing_autocommit_run {w : D.Write} {k : ℕ → Prog (signature D E) (Failure ε) α}
    {B : D.Db → X.State → Prop} (hA : T.Fact i [] A) (hB : T.Fact i [] B)
    (hs : ∀ (σ : System D X.State) φ n d, T.inv σ → A σ.server.db σ.world →
      ok i (.db (.write w)) (.db φ) σ → (∀ l ∈ D.locks w σ.server.db, σ.server.free i l = true) →
      D.apply w σ.server.db = some (n, d) →
      T.inv ⟨{ σ.server with db := d }, σ.world⟩ ∧ T.guar i σ ⟨{ σ.server with db := d }, σ.world⟩ ∧
        G i σ ⟨{ σ.server with db := d }, σ.world⟩ ∧ B d σ.world)
    (hF : ∀ e σ, Holds i none [] A σ ∨ Holds i none [] B σ → F e σ)
    (hk : ∀ n, Triple ok (T.committing G) i (Holds i none [] B) (k n) Q F) :
    Triple ok (T.committing G) i (Holds i none [] A) ((write w).bind k) Q F := by
  intro σ _ ha
  refine wp_db (s := .write w) fun σ₁ hr hi hgone φ r srv hok he => ?_
  have ha₁ := hA.stable σ σ₁ hr ha
  have htx := ha₁.1 hgone
  rcases Server.exec_write he with ⟨rfl, e, rfl⟩ | ⟨rfl, hfree, n, d, happ, -⟩
  · obtain ⟨hi₂, hg⟩ := T.quiet i σ₁ _ hi .same
    exact ⟨hi₂, ⟨⟨fun j _ => .refl j _, hg⟩, silent rfl not_succeeds_error⟩,
      fun v hv => (by cases hv),
      fun _ _ σ₂ hr₂ _ => hF _ _ (.inl (hA.stable _ _ hr₂ ha₁))⟩
  · rw [Server.view_of_none htx] at happ hfree
    have hrec : σ₁.server.record i w = { σ₁.server with db := d } := by
      rw [Server.record_of_none htx, Server.applyOne, happ]
      rfl
    obtain ⟨hi₂, hg, hG, hb⟩ := hs σ₁ φ n d hi (ha₁.2 hgone).2 hok hfree happ
    rw [hrec]
    have hafter : Holds i none [] B ⟨{ σ₁.server with db := d }, σ₁.world⟩ :=
      ⟨ha₁.1, fun _ => ⟨by simp, hb⟩⟩
    exact ⟨hi₂, ⟨⟨fun j _ => ⟨id, fun _ => rfl, fun _ _ => id, fun _ _ => id⟩, hg⟩, fun _ => hG⟩,
      fun v _ => hk v _ hi₂ hafter, fun _ _ σ₂ hr₂ _ => hF _ _ (.inr (hB.stable _ _ hr₂ hafter))⟩

/-- A write of its own, outside of a transaction. -/
theorem committing_autocommit {w : D.Write} {k : ℕ → Prog (signature D E) (Failure ε) α}
    {B : D.Db → X.State → Prop} (hA : T.Fact i [] A) (hB : T.Fact i [] B)
    (hs : ∀ (σ : System D X.State) n d, T.inv σ → A σ.server.db σ.world →
      (∀ l ∈ D.locks w σ.server.db, σ.server.free i l = true) →
      D.apply w σ.server.db = some (n, d) →
      T.inv ⟨{ σ.server with db := d }, σ.world⟩ ∧ T.guar i σ ⟨{ σ.server with db := d }, σ.world⟩ ∧
        G i σ ⟨{ σ.server with db := d }, σ.world⟩ ∧ B d σ.world)
    (hF : ∀ e σ, Holds i none [] A σ ∨ Holds i none [] B σ → F e σ)
    (hk : ∀ n, Triple ok (T.committing G) i (Holds i none [] B) (k n) Q F) :
    Triple ok (T.committing G) i (Holds i none [] A) ((write w).bind k) Q F :=
  committing_autocommit_run hA hB (fun σ _ n d hi ha _ => hs σ n d hi ha) hF hk

/-- A transaction: from `A` it ends in `C`, or fails in `R`, or in `C` when only the report of its
commit was lost. -/
theorem committing_transaction {p : Prog (signature D E) (Failure ε) α} {R : D.Db → X.State → Prop}
    {B : α → List D.Write → List D.Row → D.Db → X.State → Prop} {C : α → D.Db → X.State → Prop}
    (hA : T.Fact i [] A) (hR : T.Fact i [] R) (hB : ∀ a ws ls, T.Fact i ls (B a ws ls))
    (hC : ∀ a, T.Fact i [] (C a)) (hAR : ∀ d w, A d w → R d w)
    (hBR : ∀ a ws ls d w, B a ws ls d w → R d w)
    (hp : Triple ok (T.committing G) i (Holds i (some []) [] A) p
      (fun a σ => ∃ ws ls, Holds i (some ws) ls (B a ws ls) σ) fun _ => Known i [] R)
    (hs : ∀ a ws ls (σ : System D X.State) φ d, T.inv σ → σ.server.tx i = some ws →
      (∀ r ∈ ls, σ.server.owner r = some i) → B a ws ls σ.server.db σ.world →
      ok i (.db .commit) (.db φ) σ → Server.publish ws σ.server.db = some d →
      T.inv ⟨{ σ.server.release i with db := d }, σ.world⟩ ∧
        T.guar i σ ⟨{ σ.server.release i with db := d }, σ.world⟩ ∧
        G i σ ⟨{ σ.server.release i with db := d }, σ.world⟩ ∧ C a d σ.world ∧
        (φ = .late → R d σ.world)) :
    Triple ok (T.committing G) i (Holds i none [] A) (transaction p)
      (fun a => Holds i none [] (C a)) fun _ => Holds i none [] R :=
  Possession.transaction_rule (Possession.rows i) hA hR hB hC hAR hBR hp hs

end rules

/-! ## Rules without a condition on what is published -/

section rules

variable {T : Terms D X} {ok : Guard (Service D X)} {i : ℕ} {ε α β : Type} {rows : List D.Row}
  {A : D.Db → X.State → Prop} {tx : Option (List D.Write)}
  {Q : α → System D X.State → Prop} {F : Failure ε → System D X.State → Prop}

/-- A query. -/
theorem triple_query {f : D.Db → β} {k : β → Prog (signature D E) (Failure ε) α}
    {B : β → D.Db → X.State → Prop} (hA : T.Fact i rows A)
    (hB : ∀ σ : System D X.State, T.inv σ → A σ.server.db σ.world →
      B (f (Server.applyAll (tx.getD []) σ.server.db)) σ.server.db σ.world)
    (hF : ∀ e σ, Holds i tx rows A σ → F e σ)
    (hk : ∀ v, Triple ok T.discipline i (Holds i tx rows (B v)) (k v) Q F) :
    Triple ok T.discipline i (Holds i tx rows A) ((query f).bind k) Q F :=
  triple_of_committing (committing_query hA hB hF fun v => triple_committing (hk v))

/-- A lock of rows that a program is to hold alone. -/
theorem triple_lock {ls : List (D.Row × Mode)} {k : Unit → Prog (signature D E) (Failure ε) α}
    (hA : T.Fact i rows A) (hF : ∀ e σ, Known i rows A σ → F e σ)
    (hk : Triple ok T.discipline i (Holds i tx (alone ls ++ rows) A) (k ()) Q F) :
    Triple ok T.discipline i (Holds i tx rows A) ((db (.lock ls)).bind k) Q F :=
  triple_of_committing (committing_lock hA hF (triple_committing hk))

/-- An advisory lock. -/
theorem triple_advisory {n : ℕ} {k : Unit → Prog (signature D E) (Failure ε) α}
    (hA : T.Fact i rows A) (hF : ∀ e σ, Holds i tx rows A σ → F e σ)
    (hk : Triple ok T.discipline i (Holds i tx rows A) (k ()) Q F) :
    Triple ok T.discipline i (Holds i tx rows A) ((db (.advisory n)).bind k) Q F :=
  triple_of_committing (committing_advisory hA hF (triple_committing hk))

/-- A call of the outside world. -/
theorem triple_ext {e : E.Stmt} {k : E.Res e → Prog (signature D E) (Failure ε) α}
    {B : E.Res e → D.Db → X.State → Prop} (hA : T.Fact i rows A)
    (hs : ∀ (σ : System D X.State) c r w, T.inv σ → A σ.server.db σ.world →
      ok i (.ext e) (.ext c) σ → X.run i e c σ.world = some (r, w) →
      T.inv ⟨σ.server, w⟩ ∧ T.guar i σ ⟨σ.server, w⟩ ∧ B r σ.server.db w)
    (hk : ∀ r, Triple ok T.discipline i (Holds i tx rows (B r)) (k r) Q F) :
    Triple ok T.discipline i (Holds i tx rows A) ((ext e).bind k) Q F :=
  triple_of_committing (committing_ext hA hs fun r => triple_committing (hk r))

/-- A write within a transaction. -/
theorem triple_write {ws : List D.Write} {w : D.Write}
    {k : ℕ → Prog (signature D E) (Failure ε) α} (hA : T.Fact i rows A)
    (hs : ∀ σ : System D X.State, T.inv σ → σ.server.tx i = some ws →
      (∀ r ∈ rows, σ.server.owner r = some i) → A σ.server.db σ.world →
      (∀ l ∈ D.locks w (σ.server.view i), σ.server.free i l = true) →
      T.inv ⟨σ.server.record i w, σ.world⟩ ∧ T.guar i σ ⟨σ.server.record i w, σ.world⟩)
    (hF : ∀ e σ, Known i rows A σ → F e σ)
    (hk : ∀ n, Triple ok T.discipline i (Holds i (some (ws ++ [w])) rows A) (k n) Q F) :
    Triple ok T.discipline i (Holds i (some ws) rows A) ((write w).bind k) Q F :=
  triple_of_committing (committing_write hA hs hF fun n => triple_committing (hk n))

/-- A write of its own, outside of a transaction. -/
theorem triple_autocommit {w : D.Write} {k : ℕ → Prog (signature D E) (Failure ε) α}
    {B : D.Db → X.State → Prop} (hA : T.Fact i [] A) (hB : T.Fact i [] B)
    (hs : ∀ (σ : System D X.State) n d, T.inv σ → A σ.server.db σ.world →
      (∀ l ∈ D.locks w σ.server.db, σ.server.free i l = true) →
      D.apply w σ.server.db = some (n, d) →
      T.inv ⟨{ σ.server with db := d }, σ.world⟩ ∧ T.guar i σ ⟨{ σ.server with db := d }, σ.world⟩ ∧
        B d σ.world)
    (hF : ∀ e σ, Holds i none [] A σ ∨ Holds i none [] B σ → F e σ)
    (hk : ∀ n, Triple ok T.discipline i (Holds i none [] B) (k n) Q F) :
    Triple ok T.discipline i (Holds i none [] A) ((write w).bind k) Q F := by
  refine triple_of_committing (committing_autocommit hA hB (fun σ n d hi ha hl happ => ?_) hF
    fun n => triple_committing (hk n))
  obtain ⟨hi', hg, hb⟩ := hs σ n d hi ha hl happ
  exact ⟨hi', hg, trivial, hb⟩

/-- A transaction: from `A` it ends in `C`, or fails in `R`, or in `C` when only the report of its
commit was lost. -/
theorem triple_transaction {p : Prog (signature D E) (Failure ε) α} {R : D.Db → X.State → Prop}
    {B : α → List D.Write → List D.Row → D.Db → X.State → Prop} {C : α → D.Db → X.State → Prop}
    (hA : T.Fact i [] A) (hR : T.Fact i [] R) (hB : ∀ a ws ls, T.Fact i ls (B a ws ls))
    (hC : ∀ a, T.Fact i [] (C a)) (hAR : ∀ d w, A d w → R d w)
    (hBR : ∀ a ws ls d w, B a ws ls d w → R d w)
    (hp : Triple ok T.discipline i (Holds i (some []) [] A) p
      (fun a σ => ∃ ws ls, Holds i (some ws) ls (B a ws ls) σ) fun _ => Known i [] R)
    (hs : ∀ a ws ls (σ : System D X.State) φ d, T.inv σ → σ.server.tx i = some ws →
      (∀ r ∈ ls, σ.server.owner r = some i) → B a ws ls σ.server.db σ.world →
      ok i (.db .commit) (.db φ) σ → Server.publish ws σ.server.db = some d →
      T.inv ⟨{ σ.server.release i with db := d }, σ.world⟩ ∧
        T.guar i σ ⟨{ σ.server.release i with db := d }, σ.world⟩ ∧ C a d σ.world ∧
        (φ = .late → R d σ.world)) :
    Triple ok T.discipline i (Holds i none [] A) (transaction p) (fun a => Holds i none [] (C a))
      fun _ => Holds i none [] R := by
  refine triple_of_committing (committing_transaction hA hR hB hC hAR hBR (triple_committing hp) ?_)
  intro a ws ls σ φ d hi htx hrows hb hok hd
  obtain ⟨hi', hg, hc, hlate⟩ := hs a ws ls σ φ d hi htx hrows hb hok hd
  exact ⟨hi', hg, trivial, hc, hlate⟩

/-- The program that never completes. -/
theorem triple_halt {A : System D X.State → Prop} :
    Triple ok T.discipline i A (halt : Prog (signature D E) (Failure ε) α) Q F := by
  intro σ _ _ σ₁ _ _ ch r
  cases r

end rules

end ReadCommitted
