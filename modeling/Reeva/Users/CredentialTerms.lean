import Reeva.Interleaving.Joint
import Reeva.Users.Credentials

/-!
# What requests about credentials may count on

Whoever writes a row holds it (`needs`), so that what stands behind a row is left to the request
that holds it. Where, besides, no password is set on what is out of date, the versions of a user grow
with every password, a token that was given to a request belongs to the password that it was issued
for, and nobody gets one while the password of the user is being replaced (`Counts`).
-/

open Interleaving ReadCommitted

namespace Reeva.Users.Credentials

/-! ## Rows -/

/-- The lock that a write needs. -/
def needs (w : Write) (l : Row × Mode) : Prop := l = (w.row, .exclusive)

/-- What stands behind a row. -/
def part : Row → Db → List User × List PasswordResetToken × List RememberMeToken
  | .user id, d => (d.users.filter (·.id = id), [], [])
  | .resetToken id, d => ([], d.resetTokens.filter (·.id = id), [])
  | .rememberMeToken id, d => ([], [], d.rememberMeTokens.filter (·.id = id))
  | _, _ => ([], [], [])

section rows

variable {d d' : Db} {w : Write} {ws : List Write} {x : Row}

/-- A write that the constraints allow runs. -/
theorem apply_eq {n : ℕ} (h : schema.apply w d = some (n, d')) :
    n = (w.run d.toTables).1 ∧ d'.toTables = (w.run d.toTables).2 := by
  simp only [schema] at h
  split at h
  · obtain ⟨rfl, rfl⟩ := Prod.mk.inj (Option.some.inj h)
    exact ⟨rfl, rfl⟩
  · cases h

/-- What a filter leaves of the rows with another identifier. -/
theorem filter_filter_id {α : Type} (key : α → ℕ) {rows : List α} {q : α → Bool} {id id' : ℕ}
    (hne : id' ≠ id) (hq : ∀ r, q r = true → key r = id) :
    (rows.filter fun r => !q r).filter (fun r => decide (key r = id')) =
      rows.filter fun r => decide (key r = id') := by
  rw [List.filter_filter]
  refine List.filter_congr fun r _ => ?_
  by_cases hr : key r = id'
  · have hnot : q r = false := by
      rw [← Bool.not_eq_true]
      exact fun h => hne (hr.symm.trans (hq r h))
    rw [hnot]
    simp
  · simp [hr]

/-- What is added to the rows with another identifier. -/
theorem filter_append_id {α : Type} (key : α → ℕ) {rows : List α} {r : α} {id' : ℕ}
    (hne : id' ≠ key r) :
    (rows ++ [r]).filter (fun r => decide (key r = id')) =
      rows.filter fun r => decide (key r = id') := by
  rw [List.filter_append, List.filter_singleton, decide_eq_false (Ne.symm hne)]
  exact List.append_nil _

/-- A write leaves what stands behind the other rows. -/
theorem part_run (h : d'.toTables = (w.run d.toTables).2) (hx : x ≠ w.row) :
    part x d' = part x d := by
  have husers : d'.users = (w.run d.toTables).2.users := by rw [h]
  have hreset : d'.resetTokens = (w.run d.toTables).2.resetTokens := by rw [h]
  have hremember : d'.rememberMeTokens = (w.run d.toTables).2.rememberMeTokens := by rw [h]
  cases x with
  | user id =>
    refine Prod.ext ?_ rfl
    change d'.users.filter (·.id = id) = d.users.filter (·.id = id)
    rw [husers]
    cases w with
    | saveUser l n =>
      -- The user who is saved has another identifier.
      have hne : id ≠ l.id := fun h => hx (h ▸ rfl)
      change (d.users.map fun r => if (r.id = l.id : Bool) then l.saveOnto n r else r).filter _ = _
      rw [List.filter_map]
      have hsame : ((fun u : User => decide (u.id = id)) ∘
          fun r => if (r.id = l.id : Bool) then l.saveOnto n r else r) =
          fun u => decide (u.id = id) := by
        funext u
        by_cases hu : u.id = l.id
        · simp [hu, User.saveOnto]
        · simp [hu]
      rw [hsame]
      refine (List.map_congr_left fun u hu => ?_).trans (List.map_id _)
      have hid := of_decide_eq_true (List.mem_filter.mp hu).2
      have hother : ¬u.id = l.id := fun h => hne (hid.symm.trans h)
      simp [hother]
    | _ => rfl
  | resetToken id =>
    refine Prod.ext rfl (Prod.ext ?_ rfl)
    change d'.resetTokens.filter (·.id = id) = d.resetTokens.filter (·.id = id)
    rw [hreset]
    cases w with
    | insertResetToken r => exact filter_append_id PasswordResetToken.id fun h => hx (h ▸ rfl)
    | deleteResetToken id' =>
      exact filter_filter_id PasswordResetToken.id (fun h => hx (h ▸ rfl))
        fun r h => of_decide_eq_true h
    | deleteResetTokenOf email id' =>
      exact filter_filter_id PasswordResetToken.id (fun h => hx (h ▸ rfl))
        fun r h => of_decide_eq_true (Bool.and_eq_true_iff.mp h).2
    | _ => rfl
  | rememberMeToken id =>
    refine Prod.ext rfl (Prod.ext rfl ?_)
    change d'.rememberMeTokens.filter (·.id = id) = d.rememberMeTokens.filter (·.id = id)
    rw [hremember]
    cases w with
    | insertRememberMeToken user r => exact filter_append_id RememberMeToken.id fun h => hx (h ▸ rfl)
    | deleteRememberMeTokenOf user id' =>
      exact filter_filter_id RememberMeToken.id (fun h => hx (h ▸ rfl))
        fun r h => of_decide_eq_true (Bool.and_eq_true_iff.mp h).2
    | _ => rfl
  | _ => rfl

/-- Writes that are published one after another. -/
theorem publish_cons (h : Server.publish (D := schema) (w :: ws) d = some d') :
    ∃ d₁ : Db, d₁.toTables = (w.run d.toTables).2 ∧
      Server.publish (D := schema) ws d₁ = some d' := by
  obtain ⟨d₁, h₁, h₂⟩ := Option.bind_eq_some_iff.mp h
  obtain ⟨⟨n, d₂⟩, happ, rfl⟩ := Option.map_eq_some_iff.mp h₁
  exact ⟨d₂, (apply_eq happ).2, h₂⟩

/-- So do writes that are published. -/
theorem part_publish (h : Server.publish (D := schema) ws d = some d')
    (hx : ∀ w ∈ ws, x ≠ w.row) : part x d' = part x d := by
  induction ws generalizing d with
  | nil => rw [Option.some.inj h]
  | cons w ws ih =>
    obtain ⟨d₁, h₁, h₂⟩ := publish_cons h
    rw [ih h₂ fun w' hw' => hx w' (List.mem_cons_of_mem _ hw'),
      part_run h₁ (hx w (List.mem_cons_self ..))]

/-- The tables after some writes are published. -/
theorem toTables_publish (h : Server.publish (D := schema) ws d = some d') :
    d'.toTables = ws.foldl (fun t w => (w.run t).2) d.toTables := by
  induction ws generalizing d with
  | nil => exact congrArg Db.toTables (Option.some.inj h).symm
  | cons w ws ih =>
    obtain ⟨d₁, h₁, h₂⟩ := publish_cons h
    rw [ih h₂, h₁, List.foldl_cons]

end rows

/-! ## Versions -/

/-- A user has a later version than before, or the same one with the same password. -/
def Ahead (u u' : User) : Prop :=
  u'.id = u.id ∧ (u.authVersion < u'.authVersion ∨
    u'.authVersion = u.authVersion ∧ u'.passwordHash = u.passwordHash)

/-- A user is now as it was, or ahead of that. -/
def Behind (u : User) (d : Db) : Prop := ∃ u' ∈ d.users, Ahead u u'

/-- A user has a password, by its hash. -/
def HasHash (id : Id) (hash : String) (d : Db) : Prop :=
  ∃ u ∈ d.users, u.id = id ∧ u.passwordHash = hash

/-- A user has the version and the password that were read. -/
def Unchanged (user : User) (d : Db) : Prop :=
  ∃ u ∈ d.users, u.id = user.id ∧ u.authVersion = user.authVersion ∧
    u.passwordHash = user.passwordHash

theorem Ahead.trans {u₁ u₂ u₃ : User} (h₁ : Ahead u₁ u₂) (h₂ : Ahead u₂ u₃) : Ahead u₁ u₃ := by
  refine ⟨h₂.1.trans h₁.1, ?_⟩
  rcases h₁.2 with hlt | ⟨hv, hp⟩
  · rcases h₂.2 with hlt' | ⟨hv', -⟩
    · exact .inl (hlt.trans hlt')
    · exact .inl (hlt.trans_eq hv'.symm)
  · rcases h₂.2 with hlt' | ⟨hv', hp'⟩
    · exact .inl (hv.symm.trans_lt hlt')
    · exact .inr ⟨hv'.trans hv, hp'.trans hp⟩

/-- A user who is there is not ahead of that. -/
theorem behind_of_mem {u : User} {d : Db} (h : u ∈ d.users) : Behind u d :=
  ⟨u, h, rfl, .inr ⟨rfl, rfl⟩⟩

/-- One user has an identifier. -/
theorem user_eq_of_id {d : Db} {u u' : User} (h : u ∈ d.users) (h' : u' ∈ d.users)
    (hid : u.id = u'.id) : u = u' := List.inj_on_of_nodup_map d.valid.userIds h h' hid

/-! ## The terms -/

/-- What request `i` may count on: the rows that it holds, what it was told, and, where everyone is
careful, what is known of passwords. -/
structure Counts (rt : Runtime) (careful : Prop) (i : ℕ) (σ σ' : State) : Prop where
  rows : RowRely (X := world rt) part i σ σ'
  asked : σ'.world.asked i = σ.world.asked i
  given : ∀ n, σ.world.given n = some i → σ'.world.given n = some i
  /-- Versions grow with passwords. -/
  ahead : careful → ∀ u ∈ σ.server.db.users, Behind u σ'.server.db
  /-- A token that the request was given is there only while its user has the same password. -/
  mine : careful → ∀ r ∈ σ'.server.db.rememberMeTokens, σ.world.given r.id = some i →
    r ∈ σ.server.db.rememberMeTokens ∧
      ∀ h, HasHash r.tokenableId h σ.server.db → HasHash r.tokenableId h σ'.server.db
  /-- A user whose row the request holds gets no token. -/
  held : careful → σ'.server.gone i = false → ∀ id, σ.server.owner (.user id) = some i →
    ∀ r ∈ σ'.server.db.rememberMeTokens, r.tokenableId = id →
      r ∈ σ.server.db.rememberMeTokens

namespace Counts

variable {rt : Runtime} {careful : Prop} {i : ℕ} {σ σ' σ₁ σ₂ σ₃ : State}

/-- Where the database is the same, little is to be said. -/
theorem of_same (rows : RowRely (X := world rt) part i σ σ') (hdb : σ'.server.db = σ.server.db)
    (asked : σ'.world.asked i = σ.world.asked i)
    (given : ∀ n, σ.world.given n = some i → σ'.world.given n = some i) : Counts rt careful i σ σ' where
  rows := rows
  asked := asked
  given := given
  ahead _ u hu := by
    rw [hdb]
    exact behind_of_mem hu
  mine _ r hr _ := by
    rw [hdb] at hr ⊢
    exact ⟨hr, fun _ h => h⟩
  held _ _ id _ r hr _ := by
    rw [hdb] at hr
    exact hr

theorem refl : Counts rt careful i σ σ := of_same .refl rfl rfl fun _ h => h

theorem trans (h₁ : Counts rt careful i σ₁ σ₂) (h₂ : Counts rt careful i σ₂ σ₃) :
    Counts rt careful i σ₁ σ₃ where
  rows := h₁.rows.trans h₂.rows
  asked := h₂.asked.trans h₁.asked
  given n hn := h₂.given n (h₁.given n hn)
  ahead hc u hu := by
    obtain ⟨u₂, hu₂, h⟩ := h₁.ahead hc u hu
    obtain ⟨u₃, hu₃, h'⟩ := h₂.ahead hc u₂ hu₂
    exact ⟨u₃, hu₃, h.trans h'⟩
  mine hc r hr hgiven := by
    obtain ⟨hr₂, hhash₂⟩ := h₂.mine hc r hr (h₁.given _ hgiven)
    obtain ⟨hr₁, hhash₁⟩ := h₁.mine hc r hr₂ hgiven
    exact ⟨hr₁, fun h hh => hhash₂ h (hhash₁ h hh)⟩
  held hc hg id howner r hr hid := by
    have hg₂ : σ₂.server.gone i = false := by
      by_contra hne
      rw [h₂.rows.gone (by simpa using hne)] at hg
      cases hg
    exact h₁.held hc hg₂ id howner r
      (h₂.held hc hg id (h₁.rows.held hg₂ _ howner).1 r hr hid) hid

end Counts

variable {rt : Runtime} {careful : Prop} {i : ℕ}

/-- The terms of the requests. -/
def terms (rt : Runtime) (careful : Prop) : Terms schema (world rt) where
  inv σ := Server.Covered (D := schema) needs σ.server
  rely := Counts rt careful
  guar i σ σ' := ∀ j, i ≠ j → Counts rt careful j σ σ'
  rely_refl _ _ := .refl
  rely_trans _ _ _ _ := .trans
  covers _ j _ _ hij _ _ h := h j hij
  quiet _ _ _ hi hq := ⟨hq.covered hi, fun _ hij =>
    .of_same (.of_keeps (hq.keeps hij) fun _ _ => by rw [hq.db]) hq.db rfl fun _ h => h⟩
  world ch _ w hw hi := by
    refine ⟨hi, fun j => .of_same ⟨id, fun _ _ h => ⟨h, rfl⟩⟩ rfl ?_ ?_⟩
    · cases ch with
      | tick n =>
        cases hw
        rfl
      | _ => cases hw
    · cases ch with
      | tick n =>
        cases hw
        exact fun _ h => h
      | _ => cases hw
  abort i _ hi := ⟨(hi.release i).congr rfl rfl rfl, fun j =>
    .of_same (.of_keeps (Server.keeps_abort i j _) fun _ _ => rfl) rfl rfl fun _ h => h⟩

section moves

variable {σ : State} {d : Db} {w : Write} {ws : List Write}

/-- What a publication of request `i` owes the others, where everyone is careful. -/
structure Fair (i : ℕ) (σ : State) (d : Db) : Prop where
  ahead : ∀ u ∈ σ.server.db.users, Behind u d
  mine : ∀ j, i ≠ j → ∀ r ∈ d.rememberMeTokens, σ.world.given r.id = some j →
    r ∈ σ.server.db.rememberMeTokens ∧
      ∀ h, HasHash r.tokenableId h σ.server.db → HasHash r.tokenableId h d
  held : ∀ j, i ≠ j → ∀ id, σ.server.owner (.user id) = some j → ∀ r ∈ d.rememberMeTokens,
    r.tokenableId = id → r ∈ σ.server.db.rememberMeTokens

/-- A call. -/
theorem credential_ext {c : Call} {ch : Outcome} {r : c.Res} {w : Outside}
    (hi : (terms rt careful).inv σ) (h : (world rt).run i c ch σ.world = some (r, w)) :
    (terms rt careful).inv ⟨σ.server, w⟩ ∧ (terms rt careful).guar i σ ⟨σ.server, w⟩ := by
  refine ⟨hi, fun j hij => ?_⟩
  have hrows : RowRely (X := world rt) part j σ ⟨σ.server, w⟩ := ⟨id, fun _ _ h => ⟨h, rfl⟩⟩
  -- Only the request that is told changes what it was told.
  suffices hworld : w.asked j = σ.world.asked j ∧
      ∀ n, σ.world.given n = some j → w.given n = some j from
    .of_same hrows rfl hworld.1 hworld.2
  change Call.run rt i c ch σ.world = some (r, w) at h
  have hsame : w = σ.world → w.asked j = σ.world.asked j ∧
      ∀ n, σ.world.given n = some j → w.given n = some j := fun h => by
    rw [h]
    exact ⟨rfl, fun _ h => h⟩
  cases c with
  | now =>
    cases ch with
    | done =>
      cases h
      exact ⟨Function.update_of_ne hij.symm _ _, fun _ h => h⟩
    | _ => cases h
  | nextRememberMeTokenId =>
    cases ch with
    | number n =>
      simp only [Call.run] at h
      split at h
      · rename_i hnone
        rw [← (Prod.mk.inj (Option.some.inj h)).2]
        refine ⟨rfl, fun m hm => ?_⟩
        have hne : m ≠ n := fun hmn => by
          rw [hmn, hnone] at hm
          cases hm
        exact (Function.update_of_ne hne _ _).trans hm
      · cases h
    | _ => cases h
  | randomBytes size =>
    cases ch with
    | text digits =>
      cases h
      exact hsame rfl
    | _ => cases h
  | nextResetTokenId =>
    cases ch with
    | number n =>
      cases h
      exact hsame rfl
    | _ => cases h
  | hash password =>
    cases ch with
    | text hashed =>
      simp only [Call.run] at h
      split at h
      · cases h
        exact hsame rfl
      · cases h
    | thrown message =>
      cases h
      exact hsame rfl
    | _ => cases h
  | sendMail email token =>
    cases ch with
    | done =>
      cases h
      exact hsame rfl
    | thrown message =>
      cases h
      exact hsame rfl
    | _ => cases h

/-- A write within a transaction. -/
theorem credential_write (hi : (terms rt careful).inv σ) (htx : σ.server.tx i = some ws)
    (hfree : ∀ l ∈ schema.locks w (σ.server.view i), σ.server.free i l = true) :
    (terms rt careful).inv ⟨σ.server.record i w, σ.world⟩ ∧
      (terms rt careful).guar i σ ⟨σ.server.record i w, σ.world⟩ := by
  have hdb : (σ.server.record i w).db = σ.server.db := Server.record_db_of_some htx
  have hcovered : Server.Covered (D := schema) needs σ.server := hi
  refine ⟨hcovered.record hfree fun l hl => .inl ?_, fun j hij => ?_⟩
  · rw [show l = _ from hl]
    exact List.mem_cons_self ..
  · exact .of_same (.of_keeps (Server.keeps_record hij hfree) fun r _ => by rw [hdb]) hdb rfl
      fun _ h => h

/-- What is published is fair where it keeps to the rows that it may change. -/
theorem counts_of_publish {srv : Server schema} {j : ℕ} (hij : i ≠ j)
    (hkeeps : σ.server.Keeps j srv) (hdb : srv.db = d)
    (hrows : ∀ r, σ.server.owner r = some j → part r d = part r σ.server.db)
    (hfair : careful → Fair i σ d) : Counts rt careful j σ ⟨srv, σ.world⟩ where
  rows := .of_keeps hkeeps fun r hr => hdb ▸ hrows r hr
  asked := rfl
  given _ h := h
  ahead hc u hu := hdb ▸ (hfair hc).ahead u hu
  mine hc r hr hgiven := by
    have hr' : r ∈ d.rememberMeTokens := hdb ▸ hr
    obtain ⟨hmem, hhash⟩ := (hfair hc).mine j hij r hr' hgiven
    exact ⟨hmem, fun h hh => hdb ▸ hhash h hh⟩
  held hc _ id howner r hr hid := by
    have hr' : r ∈ d.rememberMeTokens := hdb ▸ hr
    exact (hfair hc).held j hij id howner r hr' hid

/-- A commit. -/
theorem credential_commit (hi : (terms rt careful).inv σ) (htx : σ.server.tx i = some ws)
    (hd : Server.publish (D := schema) ws σ.server.db = some d) (hfair : careful → Fair i σ d) :
    (terms rt careful).inv ⟨{ σ.server.release i with db := d }, σ.world⟩ ∧
      (terms rt careful).guar i σ ⟨{ σ.server.release i with db := d }, σ.world⟩ := by
  have hcovered : Server.Covered (D := schema) needs σ.server := hi
  refine ⟨(hcovered.release i).congr rfl rfl rfl, fun j hij => ?_⟩
  refine counts_of_publish hij (Server.keeps_publish hij _ _) rfl (fun r hr => ?_) hfair
  -- The request holds every row that it has written.
  refine part_publish hd fun w hw hrow => hij ?_
  have hheld : σ.server.owner w.row = some i := hi i ws w _ htx hw rfl
  rw [hrow] at hr
  exact Option.some.inj (hheld.symm.trans hr)

/-- A write of its own. -/
theorem credential_autocommit {n : ℕ} (hi : (terms rt careful).inv σ)
    (hfree : ∀ l ∈ schema.locks w σ.server.db, σ.server.free i l = true)
    (happly : schema.apply w σ.server.db = some (n, d)) (hfair : careful → Fair i σ d) :
    (terms rt careful).inv ⟨{ σ.server with db := d }, σ.world⟩ ∧
      (terms rt careful).guar i σ ⟨{ σ.server with db := d }, σ.world⟩ := by
  have hcovered : Server.Covered (D := schema) needs σ.server := hi
  refine ⟨hcovered.congr rfl rfl rfl, fun j hij => ?_⟩
  have hkeeps : σ.server.Keeps j { σ.server with db := d } :=
    ⟨id, fun _ => rfl, fun _ _ => id, fun _ _ => id⟩
  refine counts_of_publish hij hkeeps rfl (fun r hr => ?_) hfair
  refine part_run (apply_eq happly).2 fun hrow => ?_
  have hfree' := hfree (w.row, .exclusive) (List.mem_cons_self ..)
  rw [Server.not_free_of_owner hij (hrow ▸ hr)] at hfree'
  cases hfree'

end moves

end Reeva.Users.Credentials
