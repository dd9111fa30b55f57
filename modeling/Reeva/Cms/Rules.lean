import Reeva.Interleaving.Transactions
import Reeva.Cms.World

/-!
# Rules for the programs of the CMS

The rules of `Triple` for the vocabulary of `Cms`: queries, calls, checks and locking reads.
-/

open Interleaving ReadCommitted

namespace Reeva

/-- The terms on which the requests of the CMS share its database and the outside world. -/
abbrev CmsTerms := Terms cmsSchema cmsWorld

variable {T : CmsTerms} {ok : Guard cms} {i : ℕ} {α β : Type} {rows : List cmsSchema.Row}
  {A : Db → CmsWorld → Prop} {tx : Option (List Write)} {Q : α → CmsState → Prop}
  {F : Failure String → CmsState → Prop}

/-- A query. -/
theorem triple_select {f : Tables → β} {k : β → Cms α} {B : β → Db → CmsWorld → Prop}
    (hA : T.Fact i rows A)
    (hB : ∀ σ : CmsState, T.inv σ → A σ.server.db σ.world →
      B (f (Db.toTables (Server.applyAll (D := cmsSchema) (tx.getD []) σ.server.db))) σ.server.db
        σ.world)
    (hF : ∀ e σ, Holds i tx rows A σ → F e σ)
    (hk : ∀ v, Triple ok T.discipline i (Holds i tx rows (B v)) (k v) Q F) :
    Triple ok T.discipline i (Holds i tx rows A) (Cms.select f >>= k) Q F :=
  triple_query (f := fun d : cmsSchema.Db => f (Db.toTables d)) hA hB hF hk

/-- A query whose result nothing depends on. -/
theorem triple_select_any {f : Tables → β} {k : β → Cms α} (hA : T.Fact i rows A)
    (hF : ∀ e σ, Holds i tx rows A σ → F e σ)
    (hk : ∀ v, Triple ok T.discipline i (Holds i tx rows A) (k v) Q F) :
    Triple ok T.discipline i (Holds i tx rows A) (Cms.select f >>= k) Q F :=
  triple_select (B := fun _ => A) hA (fun _ _ h => h) hF hk

/-- A call. -/
theorem triple_call {c : CmsCall} {k : c.Res → Cms α} {B : c.Res → Db → CmsWorld → Prop}
    (hA : T.Fact i rows A)
    (hs : ∀ (σ : CmsState) o r w, T.inv σ → A σ.server.db σ.world →
      ok i (.ext c) (.ext o) σ → CmsCall.run i c o σ.world = some (r, w) →
      T.inv ⟨σ.server, w⟩ ∧ T.guar i σ ⟨σ.server, w⟩ ∧ B r σ.server.db w)
    (hk : ∀ r, Triple ok T.discipline i (Holds i tx rows (B r)) (k r) Q F) :
    Triple ok T.discipline i (Holds i tx rows A) (Cms.call c >>= k) Q F :=
  triple_ext (E := cmsCalls) (X := cmsWorld) (e := c) hA hs hk

/-- A call that leaves the outside world as it is. -/
theorem triple_call_idle {c : CmsCall} {k : c.Res → Cms α} (hA : T.Fact i rows A)
    (hc : ∀ o r w w', CmsCall.run i c o w = some (r, w') → w' = w)
    (hk : ∀ r, Triple ok T.discipline i (Holds i tx rows A) (k r) Q F) :
    Triple ok T.discipline i (Holds i tx rows A) (Cms.call c >>= k) Q F := by
  refine triple_call (B := fun _ => A) hA (fun σ o r w hi ha _ hrun => ?_) hk
  obtain rfl := hc o r _ _ hrun
  exact ⟨hi, (T.quiet i σ _ hi .same).2, ha⟩

/-- A check. -/
theorem triple_refuse {c : Prop} [Decidable c] {message : String} {k : Unit → Cms α}
    (hA : T.Fact i rows A) (hF : ∀ e σ, Holds i tx rows A σ → F e σ)
    (hk : ¬c → Triple ok T.discipline i (Holds i tx rows A) (k ()) Q F) :
    Triple ok T.discipline i (Holds i tx rows A) (Cms.refuse c message >>= k) Q F := by
  by_cases hc : c
  · simp only [Cms.refuse, if_pos hc]
    exact .fail hA.stable (hF _)
  · simp only [Cms.refuse, if_neg hc]
    exact hk hc

/-- A computation that may throw. -/
theorem triple_orThrow {e : Except String β} {k : β → Cms α} (hA : T.Fact i rows A)
    (hF : ∀ e σ, Holds i tx rows A σ → F e σ)
    (hk : ∀ b, e = .ok b → Triple ok T.discipline i (Holds i tx rows A) (k b) Q F) :
    Triple ok T.discipline i (Holds i tx rows A) (Cms.orThrow e >>= k) Q F := by
  cases e with
  | ok b => exact hk b rfl
  | error m => exact .fail hA.stable (hF _)

/-- A row that has to be there. -/
theorem triple_orFail {o : Option β} {k : β → Cms α} (hA : T.Fact i rows A)
    (hF : ∀ e σ, Holds i tx rows A σ → F e σ)
    (hk : ∀ b, o = some b → Triple ok T.discipline i (Holds i tx rows A) (k b) Q F) :
    Triple ok T.discipline i (Holds i tx rows A) (Cms.orFail o >>= k) Q F := by
  cases o with
  | some b => exact hk b rfl
  | none => exact .fail hA.stable (hF _)

/-- `FOR UPDATE` holds the keys of the rows alone. -/
theorem mem_alone_forUpdate {table : TableName} {ids : List Id} {id : Id} (h : id ∈ ids) :
    .key table id ∈ alone (D := cmsSchema) (Row.forUpdate table ids) :=
  mem_alone.mpr (List.mem_flatMap.mpr ⟨id, h, List.mem_cons_of_mem _ (List.mem_singleton.mpr rfl)⟩)

/-- A locking read: the rows that were found are held alone from then on. -/
theorem triple_selectForUpdate {table : TableName} {ids : Tables → List Id}
    {read : List Id → Tables → β} {k : β → Cms α} {B : List Id → β → Db → CmsWorld → Prop}
    (hA : T.Fact i rows A)
    (hB : ∀ found (σ : CmsState), T.inv σ → A σ.server.db σ.world →
      B found (read found (Db.toTables
        (Server.applyAll (D := cmsSchema) (tx.getD []) σ.server.db))) σ.server.db σ.world)
    (hF : ∀ e σ, Known i rows A σ → F e σ)
    (hk : ∀ found v, Triple ok T.discipline i
      (Holds i tx (alone (D := cmsSchema) (Row.forUpdate table found) ++ rows) (B found v)) (k v)
        Q F) :
    Triple ok T.discipline i (Holds i tx rows A) (Cms.selectForUpdate table ids read >>= k) Q F := by
  simp only [Cms.selectForUpdate, Prog.bind_eq, Prog.bind_assoc]
  refine triple_select_any hA (fun e σ h => hF e σ h.2) fun found => ?_
  refine triple_lock (D := cmsSchema) hA hF ?_
  have hmore := hA.more fun r hr =>
    List.mem_append_right (alone (D := cmsSchema) (Row.forUpdate table found)) hr
  exact triple_select hmore (hB found)
    (fun e σ h => hF e σ (h.2.mono (fun _ hr => List.mem_append_right _ hr) fun _ _ => id))
    (hk found)

end Reeva
