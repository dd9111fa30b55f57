import Reeva.Interleaving.ReadCommitted

/-!
# What statements leave to other programs

A statement of one program leaves the others their open transactions and the locks that they hold
alone (`Keeps`). `Quiet` lists the moves of the server that publish and write nothing. Two facts about
locks survive every move: nobody shares a row that somebody else holds alone (`Exclusive`), and whoever
has written holds the locks that the write is known to need (`Covered`).
-/

open Interleaving

namespace ReadCommitted

namespace Server

variable {D : Schema} {i j : ℕ} {σ σ' : Server D}

/-! ## Moves of the server -/

/-- A move of program `i` that neither writes nor publishes. -/
inductive Quiet (i : ℕ) (σ : Server D) : Server D → Prop
  | same : Quiet i σ σ
  | take (rows : List (D.Row × Mode)) (h : ∀ l ∈ rows, σ.free i l = true) :
    Quiet i σ (σ.take i rows)
  | advisory (n : ℕ) (h : σ.advisory n = none ∨ σ.advisory n = some i) :
    Quiet i σ { σ with advisory := Function.update σ.advisory n (some i) }
  | begin : Quiet i σ { σ with tx := Function.update σ.tx i (some []) }
  | release : Quiet i σ (σ.release i)

/-- A quiet move publishes nothing. -/
theorem Quiet.db (h : Quiet i σ σ') : σ'.db = σ.db := by
  cases h <;> rfl

/-- A quiet move makes nobody vanish. -/
theorem Quiet.gone (h : Quiet i σ σ') : σ'.gone = σ.gone := by
  cases h <;> rfl

/-- Within a transaction a write publishes nothing. -/
theorem record_db_of_some {w : D.Write} {ws : List D.Write} (h : σ.tx i = some ws) :
    (σ.record i w).db = σ.db := by
  rw [record_of_some h]
  rfl

/-- A lock that is refused, or granted. -/
theorem exec_lock_cases {rows : List (D.Row × Mode)} {φ : Fault} {r : Except DbError Unit}
    (h : exec i (.lock rows) φ σ = some (r, σ')) :
    (σ' = σ ∧ ∃ e, r = .error e) ∨
      (σ' = σ.take i rows ∧ ∀ l ∈ rows, σ.free i l = true) := by
  simp only [exec] at h
  split at h
  · rename_i hfree
    obtain ⟨rfl, rfl⟩ := Prod.mk.inj (Option.some.inj h)
    cases φ with
    | none => exact .inr ⟨rfl, List.all_eq_true.mp hfree⟩
    | lost => exact .inl ⟨rfl, _, rfl⟩
    | late => exact .inr ⟨rfl, List.all_eq_true.mp hfree⟩
  · cases h

/-- An advisory lock that is refused, or granted. -/
theorem exec_advisory_cases {n : ℕ} {φ : Fault} {r : Except DbError Unit}
    (h : exec i (.advisory n) φ σ = some (r, σ')) :
    (σ' = σ ∧ ∃ e, r = .error e) ∨
      (σ' = { σ with advisory := Function.update σ.advisory n (some i) } ∧
        (σ.advisory n = none ∨ σ.advisory n = some i)) := by
  simp only [exec] at h
  split at h
  · rename_i hfree
    obtain ⟨rfl, rfl⟩ := Prod.mk.inj (Option.some.inj h)
    cases φ with
    | none => exact .inr ⟨rfl, hfree⟩
    | lost => exact .inl ⟨rfl, _, rfl⟩
    | late => exact .inr ⟨rfl, hfree⟩
  · cases h

/-- A commit that takes effect publishes the transaction's writes, and fails only where its report is
lost; any other drops them and fails. -/
theorem exec_commit_cases {φ : Fault} {r : Except DbError Unit}
    (h : exec i .commit φ σ = some (r, σ')) :
    (∃ d, publish ((σ.tx i).getD []) σ.db = some d ∧ σ' = { σ.release i with db := d } ∧
      ∀ e, r = .error e → φ = .late) ∨ (σ' = σ.release i ∧ ∃ e, r = .error e) := by
  simp only [exec] at h
  split at h
  · obtain ⟨rfl, rfl⟩ := Prod.mk.inj (Option.some.inj h)
    exact .inr ⟨rfl, _, rfl⟩
  · rename_i d hd
    obtain ⟨rfl, rfl⟩ := Prod.mk.inj (Option.some.inj h)
    cases φ with
    | none => exact .inl ⟨d, hd, rfl, fun e he => by cases he⟩
    | lost => exact .inr ⟨rfl, _, rfl⟩
    | late => exact .inl ⟨d, hd, rfl, fun _ _ => rfl⟩

/-! ## What the others keep -/

/-- What a program that is still there finds as it left it: its transaction, and what it holds alone. -/
structure Keeps (i : ℕ) (σ σ' : Server D) : Prop where
  gone : σ.gone i = true → σ'.gone i = true
  tx : σ'.gone i = false → σ'.tx i = σ.tx i
  owner : σ'.gone i = false → ∀ r, σ.owner r = some i → σ'.owner r = some i
  advisory : σ'.gone i = false → ∀ n, σ.advisory n = some i → σ'.advisory n = some i

theorem Keeps.refl (i : ℕ) (σ : Server D) : Keeps i σ σ :=
  ⟨id, fun _ => rfl, fun _ _ => id, fun _ _ => id⟩

/-- Who is there now was there before. -/
theorem Keeps.gone_eq_false (h : Keeps i σ σ') (hg : σ'.gone i = false) : σ.gone i = false := by
  by_contra hne
  rw [h.gone (by simpa using hne)] at hg
  cases hg

theorem Keeps.trans {σ₁ σ₂ σ₃ : Server D} (h₁ : Keeps i σ₁ σ₂) (h₂ : Keeps i σ₂ σ₃) :
    Keeps i σ₁ σ₃ where
  gone h := h₂.gone (h₁.gone h)
  tx h := (h₂.tx h).trans (h₁.tx (h₂.gone_eq_false h))
  owner h r hr := h₂.owner h r (h₁.owner (h₂.gone_eq_false h) r hr)
  advisory h n hn := h₂.advisory h n (h₁.advisory (h₂.gone_eq_false h) n hn)

/-- What is held alone by another is not free. -/
theorem not_free_of_owner {l : D.Row × Mode} (hij : i ≠ j) (h : σ.owner l.1 = some j) :
    σ.free i l = false := by
  simp [free, h, Ne.symm hij]

theorem keeps_take {rows : List (D.Row × Mode)} (hij : i ≠ j)
    (h : ∀ l ∈ rows, σ.free i l = true) : Keeps j σ (σ.take i rows) where
  gone := id
  tx _ := rfl
  owner _ r hr := by
    simp only [take]
    split
    · rename_i hmem
      have hfree := h _ hmem
      rw [not_free_of_owner hij hr] at hfree
      cases hfree
    · exact hr
  advisory _ _ := id

theorem keeps_release (hij : i ≠ j) (σ : Server D) : Keeps j σ (σ.release i) where
  gone := id
  tx _ := Function.update_of_ne hij.symm _ _
  owner _ r hr := by simp [release, hr, Ne.symm hij]
  advisory _ n hn := by simp [release, hn, Ne.symm hij]

/-- A quiet move keeps what the others have. -/
theorem Quiet.keeps (h : Quiet i σ σ') (hij : i ≠ j) : Keeps j σ σ' := by
  cases h with
  | same => exact .refl j σ
  | take rows h => exact keeps_take hij h
  | advisory n h =>
    refine ⟨id, fun _ => rfl, fun _ _ => id, fun _ m hm => ?_⟩
    simp only [Function.update_apply]
    split
    · rename_i heq
      subst heq
      rcases h with h | h <;> rw [hm] at h
      · cases h
      · exact absurd (Option.some.inj h).symm hij
    · exact hm
  | begin => exact ⟨id, fun _ => Function.update_of_ne hij.symm _ _, fun _ _ => id, fun _ _ => id⟩
  | release => exact keeps_release hij σ

/-- A write keeps what the others have. -/
theorem keeps_record {w : D.Write} (hij : i ≠ j)
    (h : ∀ l ∈ D.locks w (σ.view i), σ.free i l = true) : Keeps j σ (σ.record i w) := by
  cases htx : σ.tx i with
  | none =>
    rw [record_of_none htx]
    exact ⟨id, fun _ => rfl, fun _ _ => id, fun _ _ => id⟩
  | some ws =>
    rw [record_of_some htx]
    have hk := keeps_take hij h
    exact ⟨hk.gone, fun _ => Function.update_of_ne hij.symm _ _, hk.owner, hk.advisory⟩

/-- A commit keeps what the others have. -/
theorem keeps_publish (hij : i ≠ j) (σ : Server D) (d : D.Db) :
    Keeps j σ { σ.release i with db := d } :=
  let h := keeps_release hij σ
  ⟨h.gone, h.tx, h.owner, h.advisory⟩

/-- The end of a program that vanishes keeps what the others have. -/
theorem keeps_abort (i j : ℕ) (σ : Server D) : Keeps j σ (σ.abort i) := by
  by_cases hij : i = j
  · subst hij
    refine ⟨fun _ => Function.update_self .., fun h => ?_, fun h => ?_, fun h => ?_⟩ <;>
      simp [abort] at h
  · have h := keeps_release hij σ
    have hgone : (σ.abort i).gone j = σ.gone j := Function.update_of_ne (Ne.symm hij) _ _
    exact ⟨fun hg => hgone.trans hg, fun hg => h.tx (hgone ▸ hg), fun hg => h.owner (hgone ▸ hg),
      fun hg => h.advisory (hgone ▸ hg)⟩

/-! ## Locks that exclude each other -/

/-- Nobody shares a row that somebody else holds alone. -/
def Exclusive (σ : Server D) : Prop :=
  ∀ r i j, σ.owner r = some i → j ∈ σ.sharers r → j = i

theorem exclusive_idle (d : D.Db) : (idle d).Exclusive := fun _ _ _ h => by cases h

theorem Exclusive.take (h : σ.Exclusive) {rows : List (D.Row × Mode)}
    (hfree : ∀ l ∈ rows, σ.free i l = true) : (σ.take i rows).Exclusive := by
  intro r a b ha hb
  simp only [Server.take] at ha hb
  split at ha
  · rename_i hmem
    cases ha
    have hall := hfree _ hmem
    simp only [free, Bool.and_eq_true, Bool.or_eq_true, beq_iff_eq, reduceCtorEq, false_or,
      List.all_eq_true] at hall
    split at hb
    · rcases List.mem_cons.mp hb with hb | hb
      · exact hb
      · exact hall.2 b hb
    · exact hall.2 b hb
  · split at hb
    · rename_i hmem
      rcases List.mem_cons.mp hb with rfl | hb
      · have hown := hfree _ hmem
        simp only [free, ha, Bool.and_eq_true, Bool.or_eq_true, beq_iff_eq, reduceCtorEq, false_or,
          Option.some.injEq] at hown
        exact hown.1.symm
      · exact h r a b ha hb
    · exact h r a b ha hb

theorem Exclusive.release (h : σ.Exclusive) (i : ℕ) : (σ.release i).Exclusive := by
  intro r a b ha hb
  simp only [Server.release] at ha hb
  split at ha
  · cases ha
  · exact h r a b ha (List.mem_filter.mp hb |>.1)

theorem Quiet.exclusive (h : Quiet i σ σ') (hσ : σ.Exclusive) : σ'.Exclusive := by
  cases h with
  | take rows h => exact hσ.take h
  | release => exact hσ.release i
  | _ => exact hσ

theorem Exclusive.record (h : σ.Exclusive) {w : D.Write}
    (hfree : ∀ l ∈ D.locks w (σ.view i), σ.free i l = true) : (σ.record i w).Exclusive := by
  cases htx : σ.tx i with
  | none =>
    rw [record_of_none htx]
    exact h
  | some ws =>
    rw [record_of_some htx]
    exact h.take hfree

/-! ## Locks that written rows need -/

/-- Program `i` holds a lock. -/
def Held (σ : Server D) (i : ℕ) : D.Row × Mode → Prop
  | (r, .exclusive) => σ.owner r = some i
  | (r, .share) => i ∈ σ.sharers r

/-- Whoever has written something holds the locks that it needs. -/
def Covered (needs : D.Write → D.Row × Mode → Prop) (σ : Server D) : Prop :=
  ∀ i ws w l, σ.tx i = some ws → w ∈ ws → needs w l → σ.Held i l

variable {needs : D.Write → D.Row × Mode → Prop}

theorem covered_idle (d : D.Db) : (idle d).Covered needs := fun _ _ _ _ h => by cases h

/-- Who holds which locks depends on them alone. -/
theorem Held.congr {l : D.Row × Mode} (h : σ.Held i l) (howner : σ'.owner = σ.owner)
    (hsharers : σ'.sharers = σ.sharers) : σ'.Held i l := by
  obtain ⟨r, m⟩ := l
  cases m with
  | exclusive => exact (congrFun howner r).trans h
  | share =>
    rw [Held, hsharers]
    exact h

theorem Covered.congr (h : σ.Covered needs) (htx : σ'.tx = σ.tx) (howner : σ'.owner = σ.owner)
    (hsharers : σ'.sharers = σ.sharers) : σ'.Covered needs := fun j ws w l hj hw hl =>
  (h j ws w l (htx ▸ hj) hw hl).congr howner hsharers

/-- Locks that are taken are held. -/
theorem held_take {rows : List (D.Row × Mode)} {l : D.Row × Mode} (h : l ∈ rows) :
    (σ.take i rows).Held i l := by
  obtain ⟨r, m⟩ := l
  cases m with
  | exclusive => simp [Held, Server.take, h]
  | share => simp [Held, Server.take, h]

/-- Locks that somebody takes leave the others theirs. -/
theorem Held.take {l : D.Row × Mode} (h : σ.Held j l) {rows : List (D.Row × Mode)}
    (hfree : ∀ l ∈ rows, σ.free i l = true) : (σ.take i rows).Held j l := by
  obtain ⟨r, m⟩ := l
  cases m with
  | exclusive =>
    by_cases hij : i = j
    · subst hij
      simp only [Held, Server.take]
      split
      · rfl
      · exact h
    · exact (keeps_take (σ := { σ with gone := fun _ => false }) hij hfree).owner rfl r h
  | share =>
    simp only [Held, Server.take]
    split
    · exact List.mem_cons_of_mem _ h
    · exact h

/-- Who ends a transaction leaves the others their locks. -/
theorem Held.release {l : D.Row × Mode} (h : σ.Held j l) (hij : j ≠ i) : (σ.release i).Held j l := by
  obtain ⟨r, m⟩ := l
  cases m with
  | exclusive =>
    have hr : σ.owner r = some j := h
    simp [Held, Server.release, hr, hij]
  | share => exact List.mem_filter.mpr ⟨h, by simpa using hij⟩

theorem Covered.release (h : σ.Covered needs) (i : ℕ) : (σ.release i).Covered needs := by
  intro j ws w l htx hw hl
  by_cases hij : j = i
  · subst hij
    simp [Server.release] at htx
  · exact (h j ws w l ((Function.update_of_ne hij _ _).symm.trans htx) hw hl).release hij

theorem Quiet.covered (h : Quiet i σ σ') (hσ : σ.Covered needs) : σ'.Covered needs := by
  cases h with
  | same => exact hσ
  | take rows h => exact fun j ws w l htx hw hl => (hσ j ws w l htx hw hl).take h
  | advisory n h => exact hσ.congr rfl rfl rfl
  | begin =>
    intro j ws w l htx hw hl
    by_cases hij : j = i
    · subst hij
      simp only [Function.update_self, Option.some.injEq] at htx
      subst htx
      cases hw
    · exact (hσ j ws w l ((Function.update_of_ne hij _ _).symm.trans htx) hw hl).congr rfl rfl
  | release => exact hσ.release i

/-- A write whose needs are among the locks that it takes, or held already, stays covered. -/
theorem Covered.record (h : σ.Covered needs) {w : D.Write}
    (hfree : ∀ l ∈ D.locks w (σ.view i), σ.free i l = true)
    (hw : ∀ l, needs w l → l ∈ D.locks w (σ.view i) ∨ σ.Held i l) :
    (σ.record i w).Covered needs := by
  cases htx : σ.tx i with
  | none =>
    rw [record_of_none htx]
    exact h.congr rfl rfl rfl
  | some ws =>
    rw [record_of_some htx]
    intro j ws' w' l htx' hw' hl
    suffices hheld : (σ.take i (D.locks w (σ.view i))).Held j l from hheld.congr rfl rfl
    by_cases hij : j = i
    · subst hij
      simp only [Function.update_self, Option.some.injEq] at htx'
      subst htx'
      rcases List.mem_append.mp hw' with hw' | hw'
      · exact (h j ws w' l htx hw' hl).take hfree
      · obtain rfl := List.mem_singleton.mp hw'
        rcases hw l hl with hmem | hheld
        · exact held_take hmem
        · exact hheld.take hfree
    · exact (h j ws' w' l ((Function.update_of_ne hij _ _).symm.trans htx') hw' hl).take hfree

end Server

end ReadCommitted
