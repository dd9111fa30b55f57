import Reeva.Interleaving.Terms

/-!
# What a program has to itself

A `Possession` is something on the server that belongs to one program, such as a row that it holds
alone or an advisory lock: the others leave it, and so do the program's own statements until its
transaction ends. `Possession.Holds` says where a program stands: what it has written in its open
transaction, what it possesses, and a fact about what is committed and the outside world. The rules
below are those for statements and transactions under `Terms`; each also says what the statement
publishes.
-/

open Interleaving

namespace ReadCommitted

variable {D : Schema} {E : Signature.{0}} {X : Machine E}

/-- Something that belongs to program `i` until its transaction ends. -/
structure Possession (D : Schema) (i : ℕ) where
  /-- The program has it. -/
  has : Server D → Prop
  /-- The others leave it. -/
  keeps : ∀ {σ σ' : Server D}, σ.Keeps i σ' → σ'.gone i = false → has σ → has σ'
  /-- It stays where the program takes more locks. -/
  take : ∀ {σ : Server D} (ls : List (D.Row × Mode)), has σ → has (σ.take i ls)
  /-- It stays where the program takes an advisory lock. -/
  advisory : ∀ {σ : Server D} (n : ℕ), has σ →
    has { σ with advisory := Function.update σ.advisory n (some i) }
  /-- It does not depend on what is written. -/
  writes : ∀ {σ : Server D} (tx : ℕ → Option (List D.Write)), has σ → has { σ with tx := tx }

namespace Possession

variable {i : ℕ}

/-- The rows that a program holds alone. -/
def rows (i : ℕ) (rs : List D.Row) : Possession D i where
  has σ := ∀ r ∈ rs, σ.owner r = some i
  keeps hk hg h r hr := hk.owner hg r (h r hr)
  take ls h r hr := by
    simp only [Server.take]
    split
    · rfl
    · exact h r hr
  advisory _ h := h
  writes _ h := h

/-- An advisory lock. -/
def lock (i n : ℕ) : Possession D i where
  has σ := σ.advisory n = some i
  keeps hk hg h := hk.advisory hg n h
  take _ h := h
  advisory m h := by
    by_cases hm : n = m
    · subst hm
      exact Function.update_self ..
    · exact (Function.update_of_ne hm _ _).trans h
  writes _ h := h

/-- Where a write takes its locks, what a program has stays. -/
theorem record (L : Possession D i) {σ : Server D} {w : D.Write} {ws : List D.Write}
    (htx : σ.tx i = some ws) (h : L.has σ) : L.has (σ.record i w) := by
  rw [Server.record_of_some htx]
  exact L.writes _ (L.take _ h)

/-- A program that is still there has something, and a fact holds. -/
def Known {W : Type} (L : Possession D i) (A : D.Db → W → Prop) (σ : System D W) : Prop :=
  σ.server.gone i = false → L.has σ.server ∧ A σ.server.db σ.world

/-- Besides, the program has written `tx` in its open transaction. -/
def Holds {W : Type} (L : Possession D i) (tx : Option (List D.Write)) (A : D.Db → W → Prop)
    (σ : System D W) : Prop :=
  (σ.server.gone i = false → σ.server.tx i = tx) ∧ L.Known A σ

/-- What is known with something is known with less, and a weaker fact is known. -/
theorem Known.mono {W : Type} {L L' : Possession D i} {A A' : D.Db → W → Prop} {σ : System D W}
    (h : L.Known A σ) (hL : ∀ srv, L.has srv → L'.has srv) (hA : ∀ d w, A d w → A' d w) :
    L'.Known A' σ := fun hg => ⟨hL _ (h hg).1, hA _ _ (h hg).2⟩

theorem Holds.mono {W : Type} {L L' : Possession D i} {tx : Option (List D.Write)}
    {A A' : D.Db → W → Prop} {σ : System D W} (h : L.Holds tx A σ)
    (hL : ∀ srv, L.has srv → L'.has srv) (hA : ∀ d w, A d w → A' d w) : L'.Holds tx A' σ :=
  ⟨h.1, h.2.mono hL hA⟩

/-- A fact that a program may count on while it has something. -/
def Fact (T : Terms D X) (L : Possession D i) (A : D.Db → X.State → Prop) : Prop :=
  ∀ σ σ', T.rely i σ σ' → σ'.server.gone i = false → L.has σ.server →
    A σ.server.db σ.world → A σ'.server.db σ'.world

section facts

variable {T : Terms D X} {L : Possession D i} {A : D.Db → X.State → Prop}
  {tx : Option (List D.Write)}

theorem Fact.stable_known (hA : L.Fact T A) : Stable T.discipline i (L.Known A) := by
  rintro σ σ' ⟨hk, hr⟩ h hg
  obtain ⟨hL, ha⟩ := h (hk.gone_eq_false hg)
  exact ⟨L.keeps hk hg hL, hA σ σ' hr hg hL ha⟩

theorem Fact.stable (hA : L.Fact T A) : Stable T.discipline i (L.Holds tx A) := by
  rintro σ σ' hr ⟨htx, ha⟩
  exact ⟨fun hg => (hr.1.tx hg).trans (htx (hr.1.gone_eq_false hg)), hA.stable_known σ σ' hr ha⟩

/-- A fact that needs less. -/
theorem Fact.more {L' : Possession D i} (hA : L.Fact T A)
    (h : ∀ srv, L'.has srv → L.has srv) : L'.Fact T A := fun σ σ' hr hg hL =>
  hA σ σ' hr hg (h _ hL)

/-- Two facts at once. -/
theorem Fact.and {B : D.Db → X.State → Prop} (hA : L.Fact T A) (hB : L.Fact T B) :
    L.Fact T fun d w => A d w ∧ B d w := fun σ σ' hr hg hL h =>
  ⟨hA σ σ' hr hg hL h.1, hB σ σ' hr hg hL h.2⟩

theorem Fact.const (p : Prop) : L.Fact T fun _ _ => p := fun _ _ _ _ _ h => h

end facts

/-! ## Statements -/

section rules

variable {T : Terms D X} {ok : Guard (Service D X)} {ε α β : Type} {L M : Possession D i}
  {A : D.Db → X.State → Prop} {tx : Option (List D.Write)}
  {Q : α → System D X.State → Prop} {F : Failure ε → System D X.State → Prop}
  {G : ℕ → System D X.State → System D X.State → Prop}

/-- What is returned. -/
theorem ret_rule {a : α} (hA : L.Fact T A) (h : ∀ σ, L.Holds tx A σ → Q a σ) :
    Triple ok (T.committing G) i (L.Holds tx A) (.ret a) Q F :=
  fun σ _ ha σ₁ hr _ => h σ₁ (hA.stable σ σ₁ hr ha)

/-- A query, of which the program may also use that the run performs it. -/
theorem query_run_rule {f : D.Db → β} {k : β → Prog (signature D E) (Failure ε) α}
    {B : β → D.Db → X.State → Prop} (hA : L.Fact T A)
    (hB : ∀ (σ : System D X.State) φ, T.inv σ → L.has σ.server → A σ.server.db σ.world →
      ok i (.db (.query f)) (.db φ) σ →
      B (f (Server.applyAll (tx.getD []) σ.server.db)) σ.server.db σ.world)
    (hF : ∀ (e : DbError) σ, L.Holds tx A σ → F (.database e) σ)
    (hk : ∀ v, Triple ok (T.committing G) i (L.Holds tx (B v)) (k v) Q F) :
    Triple ok (T.committing G) i (L.Holds tx A) ((query f).bind k) Q F := by
  intro σ _ ha
  refine wp_db (s := .query f) fun σ₁ hr hi hgone φ r srv hok he => ?_
  have ha₁ := hA.stable σ σ₁ hr ha
  have hview : σ₁.server.view i = Server.applyAll (tx.getD []) σ₁.server.db := by
    rw [Server.view, ha₁.1 hgone]
  obtain ⟨rfl, hres⟩ := Server.exec_query he
  refine ⟨hi, ⟨⟨fun j _ => .refl j _, (T.quiet i σ₁ _ hi .same).2⟩, silent rfl id⟩, ?_, ?_⟩
  · rintro v rfl
    rcases hres with hv | hv
    · obtain rfl := Except.ok.inj hv
      obtain ⟨hL, hA₁⟩ := ha₁.2 hgone
      exact hk _ _ hi ⟨ha₁.1, fun _ => ⟨hL, hview ▸ hB σ₁ φ hi hL hA₁ hok⟩⟩
    · cases hv
  · rintro e - σ₂ hr₂ -
    exact hF _ _ (hA.stable _ _ hr₂ ha₁)

/-- A query. -/
theorem query_rule {f : D.Db → β} {k : β → Prog (signature D E) (Failure ε) α}
    {B : β → D.Db → X.State → Prop} (hA : L.Fact T A)
    (hB : ∀ σ : System D X.State, T.inv σ → A σ.server.db σ.world →
      B (f (Server.applyAll (tx.getD []) σ.server.db)) σ.server.db σ.world)
    (hF : ∀ (e : DbError) σ, L.Holds tx A σ → F (.database e) σ)
    (hk : ∀ v, Triple ok (T.committing G) i (L.Holds tx (B v)) (k v) Q F) :
    Triple ok (T.committing G) i (L.Holds tx A) ((query f).bind k) Q F :=
  query_run_rule hA (fun σ _ hi _ ha _ => hB σ hi ha) hF hk

/-- A lock of rows. -/
theorem lock_rule {ls : List (D.Row × Mode)} {k : Unit → Prog (signature D E) (Failure ε) α}
    (hA : L.Fact T A) (htake : ∀ srv, L.has srv → M.has (srv.take i ls))
    (hless : ∀ srv, M.has srv → L.has srv) (hF : ∀ (e : DbError) σ, L.Known A σ → F (.database e) σ)
    (hk : Triple ok (T.committing G) i (M.Holds tx A) (k ()) Q F) :
    Triple ok (T.committing G) i (L.Holds tx A) ((db (.lock ls)).bind k) Q F := by
  intro σ _ ha
  refine wp_db (s := .lock ls) fun σ₁ hr hi _ φ r srv _ he => ?_
  have ha₁ := hA.stable σ σ₁ hr ha
  have failed : ∀ srv, L.Holds tx A ⟨srv, σ₁.world⟩ → ∀ e : DbError,
      wp ok (T.committing G) i (.fail (.database e)) Q F ⟨srv, σ₁.world⟩ := fun srv h e σ₂ hr₂ _ =>
    hF _ _ (hA.stable _ _ hr₂ h).2
  rcases Server.exec_lock_cases he with ⟨rfl, e, rfl⟩ | ⟨rfl, hfree⟩
  · obtain ⟨hi₂, hg⟩ := T.quiet i σ₁ _ hi .same
    exact ⟨hi₂, ⟨⟨fun j _ => .refl j _, hg⟩, silent rfl id⟩, fun v hv => (by cases hv),
      fun e _ => failed _ ha₁ e⟩
  · obtain ⟨hi₂, hg⟩ := T.quiet i σ₁ _ hi (.take ls hfree)
    have ha₂ : M.Holds tx A ⟨σ₁.server.take i ls, σ₁.world⟩ :=
      ⟨ha₁.1, fun hg => ⟨htake _ (ha₁.2 hg).1, (ha₁.2 hg).2⟩⟩
    exact ⟨hi₂, ⟨⟨fun j hij => Server.keeps_take hij hfree, hg⟩, silent rfl id⟩,
      fun v _ => hk _ hi₂ ha₂, fun e _ => failed _ (ha₂.mono hless fun _ _ => id) e⟩

/-- An advisory lock. -/
theorem advisory_rule {n : ℕ} {k : Unit → Prog (signature D E) (Failure ε) α} (hA : L.Fact T A)
    (htake : ∀ srv : Server D, L.has srv →
      M.has { srv with advisory := Function.update srv.advisory n (some i) })
    (hF : ∀ (e : DbError) σ, L.Holds tx A σ → F (.database e) σ)
    (hk : Triple ok (T.committing G) i (M.Holds tx A) (k ()) Q F) :
    Triple ok (T.committing G) i (L.Holds tx A) ((db (.advisory n)).bind k) Q F := by
  intro σ _ ha
  refine wp_db (s := .advisory n) fun σ₁ hr hi _ φ r srv _ he => ?_
  have ha₁ := hA.stable σ σ₁ hr ha
  rcases Server.exec_advisory_cases he with ⟨rfl, e, rfl⟩ | ⟨rfl, hfree⟩
  · obtain ⟨hi₂, hg⟩ := T.quiet i σ₁ _ hi .same
    exact ⟨hi₂, ⟨⟨fun j _ => .refl j _, hg⟩, silent rfl id⟩, fun v hv => (by cases hv),
      fun _ _ σ₂ hr₂ _ => hF _ _ (hA.stable _ _ hr₂ ha₁)⟩
  · have hquiet := Server.Quiet.advisory (σ := σ₁.server) n hfree
    obtain ⟨hi₂, hg⟩ := T.quiet i σ₁ _ hi hquiet
    exact ⟨hi₂, ⟨⟨fun j hij => hquiet.keeps hij, hg⟩, silent rfl id⟩,
      fun v _ => hk _ hi₂ ⟨ha₁.1, fun hg => ⟨htake _ (ha₁.2 hg).1, (ha₁.2 hg).2⟩⟩,
      fun e _ σ₂ hr₂ _ => hF _ _ (hA.stable _ _ hr₂
        ⟨ha₁.1, fun hg => ⟨L.advisory n (ha₁.2 hg).1, (ha₁.2 hg).2⟩⟩)⟩

/-- A call of the outside world. -/
theorem ext_rule {e : E.Stmt} {k : E.Res e → Prog (signature D E) (Failure ε) α}
    {B : E.Res e → D.Db → X.State → Prop} (hA : L.Fact T A)
    (hs : ∀ (σ : System D X.State) c r w, T.inv σ → A σ.server.db σ.world →
      ok i (.ext e) (.ext c) σ → X.run i e c σ.world = some (r, w) →
      T.inv ⟨σ.server, w⟩ ∧ T.guar i σ ⟨σ.server, w⟩ ∧ B r σ.server.db w)
    (hk : ∀ r, Triple ok (T.committing G) i (L.Holds tx (B r)) (k r) Q F) :
    Triple ok (T.committing G) i (L.Holds tx A) ((ext e).bind k) Q F := by
  intro σ _ ha
  refine wp_ext fun σ₁ hr hi hgone c r w hok hrun => ?_
  have ha₁ := hA.stable σ σ₁ hr ha
  obtain ⟨hi₂, hg, hB⟩ := hs σ₁ c r w hi (ha₁.2 hgone).2 hok hrun
  exact ⟨hi₂, ⟨⟨fun j _ => .refl j _, hg⟩, silent rfl id⟩,
    hk r _ hi₂ ⟨ha₁.1, fun hg => ⟨(ha₁.2 hg).1, hB⟩⟩⟩

/-- A write within a transaction. -/
theorem write_rule {ws : List D.Write} {w : D.Write}
    {k : ℕ → Prog (signature D E) (Failure ε) α} (hA : L.Fact T A)
    (hs : ∀ σ : System D X.State, T.inv σ → σ.server.tx i = some ws → L.has σ.server →
      A σ.server.db σ.world → (∀ l ∈ D.locks w (σ.server.view i), σ.server.free i l = true) →
      T.inv ⟨σ.server.record i w, σ.world⟩ ∧ T.guar i σ ⟨σ.server.record i w, σ.world⟩)
    (hF : ∀ (e : DbError) σ, L.Known A σ → F (.database e) σ)
    (hk : ∀ n, Triple ok (T.committing G) i (L.Holds (some (ws ++ [w])) A) (k n) Q F) :
    Triple ok (T.committing G) i (L.Holds (some ws) A) ((write w).bind k) Q F := by
  intro σ _ ha
  refine wp_db (s := .write w) fun σ₁ hr hi hgone φ r srv _ he => ?_
  have ha₁ := hA.stable σ σ₁ hr ha
  have htx := ha₁.1 hgone
  rcases Server.exec_write he with ⟨rfl, e, rfl⟩ | ⟨rfl, hfree, -⟩
  · obtain ⟨hi₂, hg⟩ := T.quiet i σ₁ _ hi .same
    exact ⟨hi₂, ⟨⟨fun j _ => .refl j _, hg⟩, silent rfl not_succeeds_error⟩,
      fun v hv => (by cases hv),
      fun _ _ σ₂ hr₂ _ => hF _ _ (hA.stable _ _ hr₂ ha₁).2⟩
  · obtain ⟨hL, hA₁⟩ := ha₁.2 hgone
    obtain ⟨hi₂, hg⟩ := hs σ₁ hi htx hL hA₁ hfree
    have hafter : L.Holds (some (ws ++ [w])) A ⟨σ₁.server.record i w, σ₁.world⟩ := by
      refine ⟨fun _ => ?_, fun _ => ⟨L.record htx hL, ?_⟩⟩
      · rw [Server.record_of_some htx]
        exact Function.update_self ..
      · rw [Server.record_db_of_some htx]
        exact hA₁
    exact ⟨hi₂, ⟨⟨fun j hij => Server.keeps_record hij hfree, hg⟩,
      silent (Server.record_db_of_some htx)
        fun hs => by cases hs.1.symm.trans htx⟩, fun v _ => hk v _ hi₂ hafter,
      fun _ _ σ₂ hr₂ _ => hF _ _ (hA.stable _ _ hr₂ hafter).2⟩

end rules

/-! ## Transactions -/

section transactions

variable {T : Terms D X} {ok : Guard (Service D X)} {ε α : Type} {A : D.Db → X.State → Prop}
  {G : ℕ → System D X.State → System D X.State → Prop}

/-- A program has nothing to itself. -/
def nothing (i : ℕ) : Possession D i := rows i []

theorem nothing_has (i : ℕ) (srv : Server D) : (nothing i).has srv := fun _ h => by cases h

/-- After its commit a program knows what holds then. -/
theorem holds_committed {W : Type} {A : D.Db → W → Prop} {d : D.Db} (σ : System D W)
    (h : A d σ.world) :
    (nothing i).Holds none A ⟨{ σ.server.release i with db := d }, σ.world⟩ :=
  ⟨fun _ => Function.update_self .., fun _ => ⟨nothing_has i _, h⟩⟩

/-- A transaction: from `A` it returns in `Q`, or fails with `e` in `R e`. What it possesses at its end
is one of the possessions `L`. -/
theorem transaction_ends {ι : Type} (L : ι → Possession D i)
    {p : Prog (signature D E) (Failure ε) α} {R : Failure ε → D.Db → X.State → Prop}
    {B : α → List D.Write → ι → D.Db → X.State → Prop} {Q : α → System D X.State → Prop}
    (hA : (nothing i).Fact T A) (hR : ∀ e, (nothing i).Fact T (R e))
    (hB : ∀ a ws l, (L l).Fact T (B a ws l)) (hQ : ∀ a, Stable T.discipline i (Q a))
    (hAR : ∀ (e : DbError) d w, A d w → R (.database e) d w)
    (hBR : ∀ (e : DbError) a ws l d w, B a ws l d w → R (.database e) d w)
    (hp : Triple ok (T.committing G) i ((nothing i).Holds (some []) A) p
      (fun a σ => ∃ ws l, (L l).Holds (some ws) (B a ws l) σ) fun e => (nothing i).Known (R e))
    (hs : ∀ a ws l (σ : System D X.State) φ d, T.inv σ → σ.server.tx i = some ws →
      (L l).has σ.server → B a ws l σ.server.db σ.world →
      ok i (.db .commit) (.db φ) σ → Server.publish ws σ.server.db = some d →
      T.inv ⟨{ σ.server.release i with db := d }, σ.world⟩ ∧
        T.guar i σ ⟨{ σ.server.release i with db := d }, σ.world⟩ ∧
        G i σ ⟨{ σ.server.release i with db := d }, σ.world⟩ ∧
        Q a ⟨{ σ.server.release i with db := d }, σ.world⟩ ∧ (φ = .late → ∀ e : DbError, R (.database e) d σ.world)) :
    Triple ok (T.committing G) i ((nothing i).Holds none A) (transaction p) Q
      fun e => (nothing i).Holds none (R e) := by
  have hrefl : ∀ σ, (T.committing G).rely i σ σ := T.discipline_refl i
  intro σ hi ha
  refine wp_db (s := .begin) fun σ₁ hr hi₁ _ φ r srv _ he => ?_
  have ha₁ := hA.stable σ σ₁ hr ha
  rcases Server.exec_begin he with ⟨rfl, rfl⟩ | ⟨rfl, e, rfl⟩
  · -- The transaction has begun: it has written nothing and possesses nothing.
    obtain ⟨hi₂, hg⟩ := T.quiet i σ₁ _ hi₁ .begin
    refine ⟨hi₂, ⟨⟨fun j hij => Server.Quiet.begin.keeps hij, hg⟩, silent rfl id⟩, fun v _ => ?_,
      fun e he => (by cases he)⟩
    have hstart : (nothing i).Holds (some []) A
        ⟨{ σ₁.server with tx := Function.update σ₁.server.tx i (some []) }, σ₁.world⟩ :=
      ⟨fun _ => Function.update_self .., fun hg => ⟨nothing_has i _, (ha₁.2 hg).2⟩⟩
    -- Where the body throws, it is rolled back and the program fails in `R`.
    refine Triple.bind hrefl (.tryCatch hrefl hp fun e σ _ ha => ?_) ?_ _ hi₂ hstart
    · refine wp_step_db fun σ₁ hr hi _ φ r srv _ he => ?_
      obtain ⟨-, rfl⟩ := Prod.mk.inj (Option.some.inj he)
      obtain ⟨hi₂, hg⟩ := T.quiet i σ₁ _ hi .release
      have hafter : (nothing i).Holds none (R e) ⟨σ₁.server.release i, σ₁.world⟩ :=
        ⟨fun _ => Function.update_self ..,
          fun hg => ⟨nothing_has i _, ((hR e).stable_known σ σ₁ hr ha hg).2⟩⟩
      exact ⟨hi₂, ⟨⟨fun j hij => Server.keeps_release hij _, hg⟩, silent rfl id⟩,
        fun σ₂ hr₂ _ => (hR e).stable _ σ₂ hr₂ hafter⟩
    · rintro a σ hi ⟨ws, l, hb⟩
      refine wp_db (s := .commit) fun σ₁ hr hi₁ hgone φ r srv hok he => ?_
      have hb₁ := (hB a ws l).stable σ σ₁ hr hb
      have htx := hb₁.1 hgone
      obtain ⟨hL, hB₁⟩ := hb₁.2 hgone
      -- A commit that is refused or lost ends as the rollback does.
      have rolledBack : T.inv ⟨σ₁.server.release i, σ₁.world⟩ ∧
          T.discipline.guar i (.db .commit) r σ₁ ⟨σ₁.server.release i, σ₁.world⟩ ∧
          ∀ e : DbError, (nothing i).Holds none (R (.database e))
            ⟨σ₁.server.release i, σ₁.world⟩ := by
        obtain ⟨hi₂, hg⟩ := T.quiet i σ₁ _ hi₁ .release
        exact ⟨hi₂, ⟨fun j hij => Server.keeps_release hij _, hg⟩, fun e =>
          ⟨fun _ => Function.update_self .., fun _ => ⟨nothing_has i _, hBR e a ws l _ _ hB₁⟩⟩⟩
      rcases Server.exec_commit_cases he with ⟨d, hd, rfl, hφ⟩ | ⟨rfl, e, rfl⟩
      · rw [htx] at hd
        obtain ⟨hi₂, hg, hG, hq, hlate⟩ := hs a ws l σ₁ φ d hi₁ htx hL hB₁ hok hd
        refine ⟨hi₂, ⟨⟨fun j hij => Server.keeps_publish hij _ _, hg⟩, fun _ => hG⟩,
          fun _ _ σ₂ hr₂ _ => hQ a _ _ hr₂ hq, fun e he σ₂ hr₂ _ => ?_⟩
        exact (hR _).stable _ _ hr₂ (holds_committed σ₁ (hlate (hφ e he) e))
      · exact ⟨rolledBack.1, ⟨rolledBack.2.1, silent rfl not_succeeds_error⟩,
          fun v hv => (by cases hv),
          fun e _ σ₂ hr₂ _ => (hR _).stable _ _ hr₂ (rolledBack.2.2 e)⟩
  · obtain ⟨hi₂, hg⟩ := T.quiet i σ₁ _ hi₁ .same
    exact ⟨hi₂, ⟨⟨fun j _ => .refl j _, hg⟩, silent rfl id⟩, fun v hv => (by cases hv),
      fun e _ σ₂ hr₂ _ => (hR _).stable _ _ hr₂ (ha₁.mono (fun _ => id) (hAR e))⟩

/-- A transaction: from `A` it returns in `Q`, or fails in `R`. -/
theorem transaction_returns {ι : Type} (L : ι → Possession D i)
    {p : Prog (signature D E) (Failure ε) α} {R : D.Db → X.State → Prop}
    {B : α → List D.Write → ι → D.Db → X.State → Prop} {Q : α → System D X.State → Prop}
    (hA : (nothing i).Fact T A) (hR : (nothing i).Fact T R)
    (hB : ∀ a ws l, (L l).Fact T (B a ws l)) (hQ : ∀ a, Stable T.discipline i (Q a))
    (hAR : ∀ d w, A d w → R d w) (hBR : ∀ a ws l d w, B a ws l d w → R d w)
    (hp : Triple ok (T.committing G) i ((nothing i).Holds (some []) A) p
      (fun a σ => ∃ ws l, (L l).Holds (some ws) (B a ws l) σ) fun _ => (nothing i).Known R)
    (hs : ∀ a ws l (σ : System D X.State) φ d, T.inv σ → σ.server.tx i = some ws →
      (L l).has σ.server → B a ws l σ.server.db σ.world →
      ok i (.db .commit) (.db φ) σ → Server.publish ws σ.server.db = some d →
      T.inv ⟨{ σ.server.release i with db := d }, σ.world⟩ ∧
        T.guar i σ ⟨{ σ.server.release i with db := d }, σ.world⟩ ∧
        G i σ ⟨{ σ.server.release i with db := d }, σ.world⟩ ∧
        Q a ⟨{ σ.server.release i with db := d }, σ.world⟩ ∧ (φ = .late → R d σ.world)) :
    Triple ok (T.committing G) i ((nothing i).Holds none A) (transaction p) Q
      fun _ => (nothing i).Holds none R := by
  refine transaction_ends L hA (fun _ => hR) hB hQ (fun _ => hAR) (fun _ => hBR) hp ?_
  intro a ws l σ φ d hi htx hL hb hok hd
  obtain ⟨hi', hg, hG, hq, hlate⟩ := hs a ws l σ φ d hi htx hL hb hok hd
  exact ⟨hi', hg, hG, hq, fun hφ _ => hlate hφ⟩

/-- A transaction: from `A` it ends in `C`, or fails in `R`, or in `C` when only the report of its
commit was lost. -/
theorem transaction_rule {ι : Type} (L : ι → Possession D i)
    {p : Prog (signature D E) (Failure ε) α} {R : D.Db → X.State → Prop}
    {B : α → List D.Write → ι → D.Db → X.State → Prop} {C : α → D.Db → X.State → Prop}
    (hA : (nothing i).Fact T A) (hR : (nothing i).Fact T R)
    (hB : ∀ a ws l, (L l).Fact T (B a ws l)) (hC : ∀ a, (nothing i).Fact T (C a))
    (hAR : ∀ d w, A d w → R d w) (hBR : ∀ a ws l d w, B a ws l d w → R d w)
    (hp : Triple ok (T.committing G) i ((nothing i).Holds (some []) A) p
      (fun a σ => ∃ ws l, (L l).Holds (some ws) (B a ws l) σ) fun _ => (nothing i).Known R)
    (hs : ∀ a ws l (σ : System D X.State) φ d, T.inv σ → σ.server.tx i = some ws →
      (L l).has σ.server → B a ws l σ.server.db σ.world →
      ok i (.db .commit) (.db φ) σ → Server.publish ws σ.server.db = some d →
      T.inv ⟨{ σ.server.release i with db := d }, σ.world⟩ ∧
        T.guar i σ ⟨{ σ.server.release i with db := d }, σ.world⟩ ∧
        G i σ ⟨{ σ.server.release i with db := d }, σ.world⟩ ∧ C a d σ.world ∧
        (φ = .late → R d σ.world)) :
    Triple ok (T.committing G) i ((nothing i).Holds none A) (transaction p)
      (fun a => (nothing i).Holds none (C a)) fun _ => (nothing i).Holds none R := by
  refine transaction_returns L hA hR hB (fun a => (hC a).stable) hAR hBR hp ?_
  intro a ws l σ φ d hi htx hL hb hok hd
  obtain ⟨hi', hg, hG, hc, hlate⟩ := hs a ws l σ φ d hi htx hL hb hok hd
  exact ⟨hi', hg, hG, holds_committed σ hc, hlate⟩

end transactions

end Possession

end ReadCommitted
