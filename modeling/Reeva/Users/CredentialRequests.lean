import Reeva.Users.CredentialTerms

/-!
# What requests about credentials publish

Every request publishes what it says (`Request.Publishes`), whatever the others do. A replacement of
a password is of the user as it was read, and takes with it the links and the remember-me tokens that
its statements saw; where everyone is careful, these are all.
-/

open Interleaving ReadCommitted

namespace Reeva.Users.Credentials

/-! ## What is published -/

/-- A user with another password and the next version. -/
def passwordSet (user : User) (hash : String) : User :=
  { user with passwordHash := hash, authVersion := user.authVersion + 1 }

/-- The users after one is saved. -/
def savedUsers (l n : User) (d : Db) : List User :=
  d.users.map fun u => if u.id = l.id then l.saveOnto n u else u

/-- The tables after a user's password was replaced. Where everyone is careful, the user was as it
had been read, and no remember-me token of it is left. -/
structure Replaced (rt : Runtime) (careful : Prop) (password : String) (l : User)
    (consumed ids ids' : List ℕ) (d d' : Db) : Prop where
  users : ∃ hash, rt.verify hash password = true ∧ d'.users = savedUsers l (passwordSet l hash) d
  resetTokens : d'.resetTokens = d.resetTokens.filter fun r =>
    !(consumed.contains r.id || r.email = l.email && ids.contains r.id)
  rememberMeTokens : d'.rememberMeTokens = d.rememberMeTokens.filter fun r =>
    !(r.tokenableId = l.id && ids'.contains r.id)
  unchanged : careful → Unchanged l d
  purged : careful → ∀ r ∈ d.rememberMeTokens, r.tokenableId = l.id → r.id ∈ ids'

/-- A save that leaves the password. -/
structure Saved (l n : User) (d d' : Db) : Prop where
  password : n.passwordHash = l.passwordHash
  users : d'.users = savedUsers l n d
  resetTokens : d'.resetTokens = d.resetTokens
  rememberMeTokens : d'.rememberMeTokens = d.rememberMeTokens

/-- A link is issued for an address. -/
def Issued (rt : Runtime) (email : String) (now : ℤ) (d d' : Db) : Prop :=
  ∃ (user : User) (token : String) (id : ℕ) (ids : List ℕ), user.email = Js.trim email ∧
    user.isActive = true ∧ d'.users = d.users ∧ d'.rememberMeTokens = d.rememberMeTokens ∧
    d'.resetTokens = (d.resetTokens.filter fun r =>
      !(r.email = user.email && ids.contains r.id : Bool)) ++
        [⟨id, user.email, rt.sha256 token, now + hour⟩]

/-- A link is redeemed: its row is there and has not expired, and the password of its user is
replaced. -/
def Redeemed (rt : Runtime) (careful : Prop) (token password : String) (now : ℤ)
    (r : PasswordResetToken) (d d' : Db) : Prop :=
  r ∈ d.resetTokens ∧ (r.token = rt.sha256 token ∨ r.token = token) ∧ now < r.expiresAt ∧
    ∃ (user : User) (ids ids' : List ℕ), user.email = r.email ∧ user.isActive = true ∧
      user.deletedAt = none ∧ Replaced rt careful password user [r.id] ids ids' d d'

/-- What a request publishes that asked for the time at `now`. -/
def Request.Publishes (rt : Runtime) (careful : Prop) (now : ℤ) (d d' : Db) : Request → Prop
  | .sendPasswordResetLink _ email => Issued rt email now d d'
  | .updatePasswordByToken token password =>
    ∃ r, Redeemed rt careful token password now r d d'
  | .resetPassword id _ => ∃ (user : User) (password : String) (ids ids' : List ℕ),
    user.id = id ∧ Replaced rt careful password user [] ids ids' d d'
  | .changePassword id _ newPassword => ∃ (user : User) (ids ids' : List ℕ), user.id = id ∧
    Replaced rt careful newPassword user [] ids ids' d d'
  | .toggleActiveUser id _ | .updateUser id _ | .updateAppearance id _ _ =>
    ∃ l n : User, l.id = id ∧ Saved l n d d'
  | .store _ _ _ | .authenticate _ _ =>
    d'.users = d.users ∧ d'.resetTokens = d.resetTokens
  | .verifyResetToken _ => False

/-! ## The writes of a transaction -/

section writes

variable {d d' : Db} {ws : List Write} {t : Tables}

/-- Links that are deleted by their identifiers. -/
theorem foldl_deleteResetTokensOf (email : String) (ids : List ℕ) (t : Tables) :
    (ids.map (Write.deleteResetTokenOf email)).foldl (fun t w => (w.run t).2) t =
      { t with resetTokens := t.resetTokens.filter fun r =>
          !(r.email = email && ids.contains r.id : Bool) } := by
  induction ids generalizing t with
  | nil => simp
  | cons id ids ih =>
    rw [List.map_cons, List.foldl_cons, ih]
    change Tables.mk t.users ((t.resetTokens.filter _).filter _) t.rememberMeTokens = _
    rw [List.filter_filter]
    congr 1
    refine List.filter_congr fun r _ => ?_
    by_cases he : r.email = email
    · by_cases hid : r.id = id <;> simp [he, hid]
    · simp [he]

/-- Remember-me tokens that are deleted by their identifiers. -/
theorem foldl_deleteRememberMeTokensOf (user : Id) (ids : List ℕ) (t : Tables) :
    (ids.map (Write.deleteRememberMeTokenOf user)).foldl (fun t w => (w.run t).2) t =
      { t with rememberMeTokens := t.rememberMeTokens.filter fun r =>
          !(r.tokenableId = user && ids.contains r.id : Bool) } := by
  induction ids generalizing t with
  | nil => simp
  | cons id ids ih =>
    rw [List.map_cons, List.foldl_cons, ih]
    change Tables.mk t.users t.resetTokens ((t.rememberMeTokens.filter _).filter _) = _
    rw [List.filter_filter]
    congr 1
    refine List.filter_congr fun r _ => ?_
    by_cases he : r.tokenableId = user
    · by_cases hid : r.id = id <;> simp [he, hid]
    · simp [he]

/-- A user that is saved. -/
theorem run_saveUser (l n : User) (t : Tables) :
    ((Write.saveUser l n).run t).2 =
      { t with users := t.users.map fun u => if u.id = l.id then l.saveOnto n u else u } := by
  change Tables.mk (t.users.map fun r => if (decide (r.id = l.id)) = true then l.saveOnto n r else r)
    t.resetTokens t.rememberMeTokens = _
  simp only [decide_eq_true_eq]

/-- A write that leaves the remember-me tokens. -/
def Write.LeavesTokens : Write → Prop
  | .insertRememberMeToken _ _ => False
  | .deleteRememberMeTokenOf _ _ => False
  | _ => True

/-- After such writes, a transaction sees the tokens that are committed. -/
theorem rememberMeTokens_applyAll (hws : ∀ w ∈ ws, w.LeavesTokens) (d : Db) :
    (Db.toTables (Server.applyAll (D := schema) ws d)).rememberMeTokens = d.rememberMeTokens := by
  induction ws generalizing d with
  | nil => rfl
  | cons w ws ih =>
    have hone : (Db.toTables (Server.applyOne (D := schema) d w)).rememberMeTokens =
        d.rememberMeTokens := by
      have hw := hws w (List.mem_cons_self ..)
      cases happly : schema.apply w d with
      | none => rw [Server.applyOne, happly]; rfl
      | some p =>
        obtain ⟨n, d₁⟩ := p
        have htables := (apply_eq happly).2
        rw [Server.applyOne, happly]
        change d₁.rememberMeTokens = _
        rw [htables]
        cases w with
        | insertRememberMeToken user r => exact hw.elim
        | deleteRememberMeTokenOf user id => exact hw.elim
        | _ => rfl
    change (Db.toTables (Server.applyAll (D := schema) ws
      (Server.applyOne (D := schema) d w))).rememberMeTokens = _
    rw [ih fun w' hw' => hws w' (List.mem_cons_of_mem _ hw'), hone]

end writes

/-! ## Fairness -/

/-- Nobody acts on what is out of date: a user who gets another version has the version and the
password that were read, and so does a user who gets a remember-me token; nobody holds its row. -/
def Settled (rt : Runtime) : Guard (machine rt)
  | _, .db (.write (.saveUser l n)), _, σ =>
    n.authVersion = l.authVersion ∨ Unchanged l σ.server.db
  | _, .db (.write (.insertRememberMeToken user _)), _, σ =>
    Unchanged user σ.server.db ∧ σ.server.owner (.user user.id) = none
  | _, _, _, _ => True

section fairness

variable {i : ℕ} {σ : State} {d : Db} {l n : User}

/-- Where users are the same and there are no other remember-me tokens, nothing is owed. -/
theorem Fair.of_fewer (husers : d.users = σ.server.db.users)
    (htokens : ∀ r ∈ d.rememberMeTokens, r ∈ σ.server.db.rememberMeTokens) : Fair i σ d where
  ahead u hu := behind_of_mem (husers ▸ hu)
  mine j _ r hr _ := by
    refine ⟨htokens r hr, fun h hh => ?_⟩
    unfold HasHash
    rw [husers]
    exact hh
  held j _ id _ r hr _ := htokens r hr

theorem Fair.of_same (husers : d.users = σ.server.db.users)
    (htokens : d.rememberMeTokens = σ.server.db.rememberMeTokens) : Fair i σ d :=
  .of_fewer husers fun _ hr => htokens ▸ hr

/-- A column that was not changed is left. -/
theorem dirty_same {α : Type} [DecidableEq α] {l n r : α} (h : n = l) : dirty l n r = r := if_pos h

/-- A user who is saved with the next version was unchanged, or keeps the version and the
password. -/
def Advances (l n : User) (d : Db) : Prop :=
  n.authVersion = l.authVersion + 1 ∧ Unchanged l d ∨
    n.authVersion = l.authVersion ∧ n.passwordHash = l.passwordHash

/-- A user who is saved is ahead. -/
theorem Advances.ahead (h : Advances l n σ.server.db) (husers : d.users = savedUsers l n σ.server.db)
    {u : User} (hu : u ∈ σ.server.db.users) : Behind u d := by
  by_cases hid : u.id = l.id
  · refine ⟨l.saveOnto n u, ?_, rfl, ?_⟩
    · rw [husers]
      exact List.mem_map.mpr ⟨u, hu, if_pos hid⟩
    rcases h with ⟨hnext, u', hu', hid', hversion, -⟩ | ⟨hversion, hhash⟩
    · obtain rfl := user_eq_of_id hu hu' (hid.trans hid'.symm)
      have hne : n.authVersion ≠ l.authVersion := by omega
      refine .inl ?_
      change u.authVersion < dirty l.authVersion n.authVersion u.authVersion
      rw [dirty, if_neg hne]
      omega
    · exact .inr ⟨dirty_same hversion, dirty_same hhash⟩
  · refine ⟨u, ?_, rfl, .inr ⟨rfl, rfl⟩⟩
    rw [husers]
    exact List.mem_map.mpr ⟨u, hu, if_neg hid⟩

/-- A save, with or without a purge of the user's remember-me tokens, is fair. -/
theorem Fair.of_saved (h : Advances l n σ.server.db)
    (husers : d.users = savedUsers l n σ.server.db)
    (htokens : ∀ r ∈ d.rememberMeTokens, r ∈ σ.server.db.rememberMeTokens ∧
      (n.passwordHash = l.passwordHash ∨ r.tokenableId ≠ l.id)) : Fair i σ d where
  ahead _ hu := h.ahead husers hu
  mine j _ r hr _ := by
    obtain ⟨hmem, hkept⟩ := htokens r hr
    refine ⟨hmem, fun hash ⟨u, hu, hid, hhash⟩ => ?_⟩
    by_cases hsaved : u.id = l.id
    · have hsame : n.passwordHash = l.passwordHash :=
        hkept.resolve_right fun hne => hne (hid.symm.trans hsaved)
      refine ⟨l.saveOnto n u, ?_, hid, (dirty_same hsame).trans hhash⟩
      rw [husers]
      exact List.mem_map.mpr ⟨u, hu, if_pos hsaved⟩
    · refine ⟨u, ?_, hid, hhash⟩
      rw [husers]
      exact List.mem_map.mpr ⟨u, hu, if_neg hsaved⟩
  held j _ id _ r hr _ := (htokens r hr).1

/-- A replacement is fair where everyone is careful. -/
theorem Replaced.fair {rt : Runtime} {careful : Prop} {password : String}
    {consumed ids ids' : List ℕ}
    (h : Replaced rt careful password l consumed ids ids' σ.server.db d) (hc : careful) :
    Fair i σ d := by
  obtain ⟨hash, -, husers⟩ := h.users
  refine Fair.of_saved (.inl ⟨rfl, h.unchanged hc⟩) husers fun r hr => ?_
  rw [h.rememberMeTokens] at hr
  obtain ⟨hmem, hkept⟩ := List.mem_filter.mp hr
  refine ⟨hmem, .inr fun hid => ?_⟩
  have hcontains : ids'.contains r.id = true := by simpa using h.purged hc r hmem hid
  rw [decide_eq_true hid, hcontains] at hkept
  cases hkept

end fairness

end Reeva.Users.Credentials
