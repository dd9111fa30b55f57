import Reeva.Users.CredentialRequests

/-!
# The rules for requests about credentials

The rules of the terms for the statements of these requests, and for the four things that several of
them do: they lock the row of a link, set a password, and delete the links or the remember-me tokens
of a user. Nothing is said of failures.
-/

open Interleaving ReadCommitted

namespace Reeva.Users.Credentials

variable {rt : Runtime} {careful : Prop} {ok : Guard (machine rt)} {i : ℕ} {α β : Type}
  {G : ℕ → State → State → Prop} {rows : List Row} {tx : Option (List Write)} {ws : List Write}
  {A : Db → Outside → Prop} {Q : α → State → Prop}

/-- A program ends in `Q` where it ends, and publishes `G`. -/
abbrev Ends (rt : Runtime) (careful : Prop) (ok : Guard (machine rt)) (G : ℕ → State → State → Prop)
    (i : ℕ) (A : State → Prop) (p : Program α) (Q : α → State → Prop) : Prop :=
  Triple ok ((terms rt careful).committing G) i A p Q fun _ _ => True

/-- What a request may count on while it holds some rows. -/
abbrev Knows (rt : Runtime) (careful : Prop) (i : ℕ) (rows : List Row) (A : Db → Outside → Prop) :
    Prop := (terms rt careful).Fact i rows A

/-! ## Facts -/

section facts

/-- What a request was told. -/
theorem knows_asked (now : ℤ) : Knows rt careful i rows fun _ w => w.asked i = now :=
  fun _ _ hr _ _ h => hr.asked.trans h

/-- What stands behind a row that the request holds. -/
theorem knows_part (r : Row) (P : List User × List PasswordResetToken × List RememberMeToken → Prop)
    (hr : r ∈ rows) : Knows rt careful i rows fun d _ => P (part r d) := fun σ σ' h hg hrows hP => by
  dsimp only
  rw [(h.rows.held hg r (hrows r hr)).2]
  exact hP

/-- A user whose row the request holds is as it was read. -/
theorem knows_unchanged {user : User} (hr : .user user.id ∈ rows) :
    Knows rt careful i rows fun d _ => Unchanged user d := by
  have hpart : ∀ d : Db, Unchanged user d ↔ ∃ u ∈ (part (.user user.id) d).1,
      u.authVersion = user.authVersion ∧ u.passwordHash = user.passwordHash := by
    intro d
    refine exists_congr fun u => ?_
    change u ∈ d.users ∧ u.id = user.id ∧ _ ↔ u ∈ d.users.filter (·.id = user.id) ∧ _
    rw [List.mem_filter, decide_eq_true_eq, and_assoc]
  simp only [hpart]
  exact knows_part (.user user.id) (fun p => ∃ u ∈ p.1,
    u.authVersion = user.authVersion ∧ u.passwordHash = user.passwordHash) hr

/-- A link whose row the request holds is there. -/
theorem knows_link {r : PasswordResetToken} (hr : .resetToken r.id ∈ rows) :
    Knows rt careful i rows fun d _ => r ∈ d.resetTokens := by
  have hpart : ∀ d : Db, r ∈ d.resetTokens ↔ r ∈ (part (.resetToken r.id) d).2.1 := by
    intro d
    change _ ↔ r ∈ d.resetTokens.filter (·.id = r.id)
    rw [List.mem_filter, decide_eq_true_eq, and_iff_left rfl]
  simp only [hpart]
  exact knows_part (.resetToken r.id) (fun p => r ∈ p.2.1) hr

/-- The remember-me tokens of a user are among these. -/
def Purged (user : Id) (ids : List ℕ) (d : Db) : Prop :=
  ∀ r ∈ d.rememberMeTokens, r.tokenableId = user → r.id ∈ ids

/-- A user whose row the request holds gets no other tokens. -/
theorem knows_purged {user : Id} {ids : List ℕ} (hr : .user user ∈ rows) :
    Knows rt careful i rows fun d _ => careful → Purged user ids d :=
  fun _ _ h hg hrows hpurged hc r hmem hid =>
    hpurged hc r (h.held hc hg user (hrows _ hr) r hmem hid) hid

/-- What holds where everyone is careful. -/
theorem knows_careful (hA : Knows rt careful i rows A) :
    Knows rt careful i rows fun d w => careful → A d w :=
  fun σ σ' hr hg hrows h hc => hA σ σ' hr hg hrows (h hc)

end facts

/-! ## Statements -/

section statements

/-- Nothing is left to do. -/
theorem ends_ret {a : α} (hA : Knows rt careful i rows A) (h : ∀ σ, Holds i tx rows A σ → Q a σ) :
    Ends rt careful ok G i (Holds i tx rows A) (pure a) Q :=
  .ret (Terms.Fact.stable_committing (T := terms rt careful) G hA) h

/-- A failure. -/
theorem ends_raise {message : String} (hA : Knows rt careful i rows A) :
    Ends rt careful ok G i (Holds i tx rows A) (raise message : Program α) Q :=
  .fail (Terms.Fact.stable_committing (T := terms rt careful) G hA) fun _ _ => trivial

/-- A query, of which the request may also use that the run performs it. -/
theorem ends_select_run {f : Tables → β} {k : β → Program α} {B : β → Db → Outside → Prop}
    (hA : Knows rt careful i rows A)
    (hB : ∀ (σ : State) t φ, A σ.server.db σ.world → ok i t (.db φ) σ →
      B (f (Db.toTables (Server.applyAll (D := schema) (tx.getD []) σ.server.db))) σ.server.db
        σ.world)
    (hk : ∀ v, Ends rt careful ok G i (Holds i tx rows (B v)) (k v) Q) :
    Ends rt careful ok G i (Holds i tx rows A) (select f >>= k) Q :=
  Possession.query_run_rule (D := schema) (X := world rt) (L := .rows i rows)
    (f := fun d : schema.Db => f (Db.toTables d)) hA (fun σ φ _ _ ha h => hB σ _ φ ha h)
    (fun _ _ _ => trivial) hk

/-- A query. -/
theorem ends_select {f : Tables → β} {k : β → Program α} {B : β → Db → Outside → Prop}
    (hA : Knows rt careful i rows A)
    (hB : ∀ d w, A d w → B (f (Db.toTables (Server.applyAll (D := schema) (tx.getD []) d))) d w)
    (hk : ∀ v, Ends rt careful ok G i (Holds i tx rows (B v)) (k v) Q) :
    Ends rt careful ok G i (Holds i tx rows A) (select f >>= k) Q :=
  ends_select_run hA (fun _ _ _ ha _ => hB _ _ ha) hk

/-- A call. -/
theorem ends_call {c : Call} {k : c.Res → Program α} {B : c.Res → Db → Outside → Prop}
    (hA : Knows rt careful i rows A)
    (hB : ∀ d w ch r w', A d w → Call.run rt i c ch w = some (r, w') → B r d w')
    (hk : ∀ r, Ends rt careful ok G i (Holds i tx rows (B r)) (k r) Q) :
    Ends rt careful ok G i (Holds i tx rows A) (call c >>= k) Q := by
  refine committing_ext (E := calls) (X := world rt) (e := c) hA (fun σ ch r w hi ha _ hrun => ?_) hk
  obtain ⟨hi', hg⟩ := credential_ext hi hrun
  exact ⟨hi', hg, hB _ _ ch r w ha hrun⟩

/-- A call that says nothing of what is known. -/
theorem ends_call_same {c : Call} {k : c.Res → Program α} (hA : Knows rt careful i rows A)
    (hB : ∀ d w ch r w', A d w → Call.run rt i c ch w = some (r, w') → A d w')
    (hk : ∀ r, Ends rt careful ok G i (Holds i tx rows A) (k r) Q) :
    Ends rt careful ok G i (Holds i tx rows A) (call c >>= k) Q := ends_call hA hB hk

/-- A computation that may throw. -/
theorem ends_orThrow {e : Except String β} {k : β → Program α} (hA : Knows rt careful i rows A)
    (hk : ∀ b, e = .ok b → Ends rt careful ok G i (Holds i tx rows A) (k b) Q) :
    Ends rt careful ok G i (Holds i tx rows A) (orThrow e >>= k) Q := by
  cases e with
  | ok b => exact hk b rfl
  | error message => exact ends_raise hA

/-- A row that has to be found. -/
theorem ends_orFail {o : Option β} {k : β → Program α} (hA : Knows rt careful i rows A)
    (hk : ∀ b, o = some b → Ends rt careful ok G i (Holds i tx rows A) (k b) Q) :
    Ends rt careful ok G i (Holds i tx rows A) (orFail o >>= k) Q := by
  cases o with
  | some b => exact hk b rfl
  | none => exact ends_raise hA

/-- A check. -/
theorem ends_refuse {c : Prop} [Decidable c] {message : String} {k : Unit → Program α}
    (hA : Knows rt careful i rows A)
    (hk : ¬c → Ends rt careful ok G i (Holds i tx rows A) (k ()) Q) :
    Ends rt careful ok G i (Holds i tx rows A) (refuse c message >>= k) Q := by
  unfold refuse
  split
  · exact ends_raise hA
  · exact hk ‹_›

/-- A write within a transaction. -/
theorem ends_exec {w : Write} {k : ℕ → Program α} (hA : Knows rt careful i rows A)
    (hk : ∀ n, Ends rt careful ok G i (Holds i (some (ws ++ [w])) rows A) (k n) Q) :
    Ends rt careful ok G i (Holds i (some ws) rows A) (exec w >>= k) Q :=
  committing_write (D := schema) (X := world rt) hA
    (fun _ hi htx _ _ hfree => credential_write hi htx hfree) (fun _ _ _ => trivial) hk

/-- A write within a transaction, after which the request holds the row that it changes. -/
theorem ends_exec_holding {w : Write} {k : ℕ → Program α} {B : Db → Outside → Prop}
    (hA : Knows rt careful i rows A)
    (hB : ∀ σ φ, A σ.server.db σ.world → ok i (.db (.write w)) (.db φ) σ → B σ.server.db σ.world)
    (hk : ∀ n, Ends rt careful ok G i (Holds (D := schema) i (some (ws ++ [w])) (w.row :: rows) B)
      (k n) Q) :
    Ends rt careful ok G i (Holds i (some ws) rows A) (exec w >>= k) Q :=
  committing_write_taking (D := schema) (X := world rt) hA
    (fun _ hi htx hfree => credential_write hi htx hfree) (fun _ => List.mem_cons_self ..)
    (fun σ φ _ _ _ ha hok _ => hB σ φ ha hok) (fun _ _ _ => trivial) hk

/-- A lock of one row. -/
theorem ends_lock {r : Row} {k : Unit → Program α} (hA : Knows rt careful i rows A)
    (hk : Ends rt careful ok G i (Holds (D := schema) i tx (r :: rows) A) (k ()) Q) :
    Ends rt careful ok G i (Holds i tx rows A)
      (db (D := schema) (.lock [(r, .exclusive)]) >>= k) Q :=
  committing_lock (D := schema) (X := world rt) hA (fun _ _ _ => trivial) hk

/-- One after another. -/
theorem ends_bind {p : Program β} {f : β → Program α} {B : β → State → Prop} {A : State → Prop}
    (hp : Ends rt careful ok G i A p B) (hf : ∀ b, Ends rt careful ok G i (B b) (f b) Q) :
    Ends rt careful ok G i A (p >>= f) Q :=
  .bind ((terms rt careful).discipline_refl i) hp hf

/-- A write of its own, which is fair where everyone is careful. -/
theorem ends_autocommit {w : Write} {k : ℕ → Program α} {C : Db → Outside → Prop}
    (hA : Knows rt careful i [] A) (hC : Knows rt careful i [] C)
    (hs : ∀ (σ : State) φ d, A σ.server.db σ.world → ok i (.db (.write w)) (.db φ) σ →
      d.toTables = (w.run σ.server.db.toTables).2 →
      (careful → Fair i σ d) ∧ G i σ ⟨{ σ.server with db := d }, σ.world⟩ ∧ C d σ.world)
    (hk : ∀ n, Ends rt careful ok G i (Holds i none [] C) (k n) Q) :
    Ends rt careful ok G i (Holds i none [] A) (exec w >>= k) Q := by
  refine committing_autocommit_run (D := schema) (X := world rt) hA hC ?_ (fun _ _ _ => trivial) hk
  intro σ φ n d hi ha hok hfree happly
  obtain ⟨hfair, hG, hc⟩ := hs σ φ d ha hok (apply_eq happly).2
  obtain ⟨hi', hg⟩ := credential_autocommit hi hfree happly hfair
  exact ⟨hi', hg, hG, hc⟩

/-- A transaction, which is fair where everyone is careful. Its writes, and the rows that it holds at
its end, depend on something that it has seen. -/
theorem ends_transaction {ι : Type} (written : α → ι → List Write) (locked : ι → List Row)
    {p : Program α} {B : α → ι → Db → Outside → Prop} {C : α → Db → Outside → Prop}
    (hA : Knows rt careful i [] A) (hB : ∀ a x, Knows rt careful i (locked x) (B a x))
    (hC : ∀ a, Knows rt careful i [] (C a))
    (hp : Ends rt careful ok G i (Holds i (some []) [] A) p fun a σ =>
      ∃ x, Holds (D := schema) i (some (written a x)) (locked x) (B a x) σ)
    (hs : ∀ a x (σ : State) d, B a x σ.server.db σ.world →
      d.toTables = (written a x).foldl (fun t w => (w.run t).2) σ.server.db.toTables →
      (careful → Fair i σ d) ∧ G i σ ⟨{ σ.server.release i with db := d }, σ.world⟩ ∧
        C a d σ.world) :
    Ends rt careful ok G i (Holds i none [] A) (transaction p) fun a => Holds i none [] (C a) := by
  refine (Possession.transaction_rule (D := schema) (X := world rt) (R := fun _ _ => True)
    (B := fun a ws x d w => ws = written a x ∧ B a x d w)
    (fun x => Possession.rows i (locked x)) hA (.const True) ?_ hC (fun _ _ _ => trivial)
    (fun _ _ _ _ _ _ => trivial) (hp.mono (fun _ h => h) ?_ ?_) ?_).mono (fun _ h => h)
    (fun _ _ h => h) fun _ _ _ => trivial
  · exact fun a ws x => (Terms.Fact.const _).and (hB a x)
  · exact fun a σ ⟨x, h⟩ => ⟨_, x, h.1, fun hg => ⟨(h.2 hg).1, rfl, (h.2 hg).2⟩⟩
  · exact fun _ _ _ _ => ⟨fun _ h => (by cases h), trivial⟩
  · rintro a ws x σ φ d hi htx - ⟨rfl, hb⟩ - hd
    obtain ⟨hfair, hG, hc⟩ := hs a x σ d hb (toTables_publish hd)
    obtain ⟨hi', hg⟩ := credential_commit hi htx hd hfair
    exact ⟨hi', hg, hG, hc, fun _ => trivial⟩

end statements

/-! ## What several requests do -/

section parts

variable {text token password : String} {now : ℤ} {user : User} {email : String} {id : Id}

/-- An unexpired link with a text is there. -/
def Found (text : String) (now : ℤ) (r : PasswordResetToken) (d : Db) : Prop :=
  r ∈ d.resetTokens ∧ r.token = text ∧ now < r.expiresAt

theorem found_of_find {r : PasswordResetToken} {d : Db}
    (h : findResetToken text now d.toTables = some r) : Found text now r d := by
  have htest := List.find?_some h
  simp only [Bool.and_eq_true, decide_eq_true_eq] at htest
  exact ⟨List.mem_of_find?_eq_some h, htest⟩

/-- The rows that a request holds of a link that it locked. -/
def linkRows (found : Option PasswordResetToken) : List Row :=
  (found.map fun r => Row.resetToken r.id).toList

theorem knows_found (found : Option PasswordResetToken) :
    Knows rt careful i (linkRows found) fun d _ => ∀ r, found = some r → Found text now r d := by
  cases found with
  | none => exact fun _ _ _ _ _ _ _ h => by cases h
  | some r =>
    intro σ σ' hrely hg hrows h r' hr'
    cases hr'
    exact ⟨knows_link (List.mem_singleton_self _) σ σ' hrely hg hrows (h r rfl).1, (h r rfl).2⟩

/-- `lockResetToken` leaves the row of what it found locked. -/
theorem ends_lockResetToken (hA : Knows rt careful i [] A) :
    Ends rt careful ok G i (Holds i (some []) [] A) (lockResetToken text now)
      fun found => Holds i (some []) (linkRows found) fun d w =>
        A d w ∧ ∀ r, found = some r → Found text now r d := by
  unfold lockResetToken
  refine ends_select (B := fun _ => A) hA (fun _ _ h => h) fun found => ?_
  cases found with
  | none =>
    exact ends_ret hA fun σ h => h.mono fun d w ha => ⟨ha, fun _ h => by cases h⟩
  | some r =>
    refine ends_lock hA ?_
    have hA' : ∀ rows, Knows rt careful i rows A := fun _ => hA.more fun _ h => by cases h
    rw [← Prog.bind_ret (select _)]
    -- The row is looked at again now that it is locked.
    refine ends_select (B := fun again d w => A d w ∧ ∀ r', again = some r' →
      Found text now r' d ∧ r'.id = r.id) (hA' _) (fun d w ha => ⟨ha, fun r' h => ?_⟩) fun again => ?_
    · obtain ⟨hfind, hid⟩ := Option.filter_eq_some_iff.mp h
      exact ⟨found_of_find hfind, of_decide_eq_true hid⟩
    · refine Triple.mono (A := Holds i (some []) (linkRows again) fun d w =>
        A d w ∧ ∀ r, again = some r → Found text now r d) ?_ ?_ (fun _ _ h => h) fun _ _ h => h
      · exact ends_ret ((hA' _).and (knows_found again)) fun _ h => h
      · refine fun σ h => ⟨h.1, fun hg => ?_⟩
        obtain ⟨hrows, ha, hfound⟩ := h.2 hg
        refine ⟨fun row hrow => ?_, ha, fun r' hr' => (hfound r' hr').1⟩
        obtain ⟨r', hr', rfl⟩ := Option.map_eq_some_iff.mp (Option.mem_toList.mp hrow)
        rw [(hfound r' hr').2]
        exact hrows _ (List.mem_cons_self ..)

/-- A request is told the time. -/
theorem run_now {ch : Outcome} {w w' : Outside} {r : ℤ}
    (h : Call.run rt i .now ch w = some (r, w')) : w'.asked i = r := by
  cases ch with
  | done =>
    cases h
    exact Function.update_self ..
  | _ => cases h

/-- A hash that is made of a password is one that verifies it. -/
theorem run_hash {ch : Outcome} {w w' : Outside} {r : Except String String}
    (h : Call.run rt i (.hash password) ch w = some (r, w')) :
    w' = w ∧ ∀ hashed, r = .ok hashed → rt.verify hashed password = true := by
  cases ch with
  | text hashed =>
    simp only [Call.run] at h
    split at h
    · cases h
      exact ⟨rfl, fun _ h => Except.ok.inj h ▸ ‹_›⟩
    · cases h
  | thrown message =>
    cases h
    exact ⟨rfl, fun _ h => by cases h⟩
  | _ => cases h

/-- `savePassword` sets a password, and where everyone is careful, of the user as it was read. -/
theorem ends_savePassword (hok : careful → ∀ i s ch σ, ok i s ch σ → Settled rt i s ch σ)
    (hA : Knows rt careful i rows A) :
    Ends rt careful ok G i (Holds i (some ws) rows A) (savePassword user password)
      fun saved => Holds i (some (ws ++ [.saveUser user saved])) (.user user.id :: rows) fun d w =>
        A d w ∧ saved = passwordSet user saved.passwordHash ∧
          rt.verify saved.passwordHash password = true ∧ (careful → Unchanged user d) := by
  refine ends_call (c := .hash password) (B := fun hashed d w => A d w ∧
    ∀ hash, hashed = .ok hash → rt.verify hash password = true) hA ?_ fun hashed => ?_
  · intro d w ch r w' ha hrun
    obtain ⟨rfl, hverify⟩ := run_hash hrun
    exact ⟨ha, hverify⟩
  have hA' : Knows rt careful i rows fun d w => A d w ∧
      ∀ hash, hashed = .ok hash → rt.verify hash password = true := hA.and (.const _)
  refine ends_orThrow hA' fun hash hhash => ?_
  have hmore : Knows rt careful i (.user user.id :: rows) A :=
    hA.more fun _ h => List.mem_cons_of_mem _ h
  refine ends_exec_holding (B := fun d w => A d w ∧ rt.verify hash password = true ∧
    (careful → Unchanged user d)) hA' (fun σ φ ha h => ⟨ha.1, ha.2 hash hhash, fun hc => ?_⟩)
    fun n => ?_
  · refine (hok hc _ _ _ _ h).resolve_left fun hsame => ?_
    have hne : user.authVersion + 1 ≠ user.authVersion := by omega
    exact hne hsame
  · refine ends_ret (hmore.and ((Terms.Fact.const _).and
      (knows_careful (knows_unchanged (List.mem_cons_self ..))))) fun σ h => ?_
    exact h.mono fun d w h => ⟨h.1, rfl, h.2⟩

/-- Rows that are deleted one after another. -/
theorem ends_deleteEach {w : ℕ → Write} {ids : List ℕ} (hA : Knows rt careful i rows A) :
    Ends rt careful ok G i (Holds i (some ws) rows A) (deleteEach w ids)
      fun _ => Holds i (some (ws ++ ids.map w)) rows A := by
  induction ids generalizing ws with
  | nil =>
    rw [List.map_nil, List.append_nil]
    exact ends_ret hA fun _ h => h
  | cons id ids ih =>
    refine ends_exec hA fun _ => ?_
    rw [List.map_cons, List.append_cons ws (w id) (ids.map w)]
    exact ih

/-- The links of an address are deleted. -/
theorem ends_deleteResetTokensOf (hA : Knows rt careful i rows A) :
    Ends rt careful ok G i (Holds i (some ws) rows A) (deleteResetTokensOf email)
      fun _ σ => ∃ ids : List ℕ,
        Holds (D := schema) i (some (ws ++ ids.map (.deleteResetTokenOf email))) rows A σ :=
  ends_select hA (fun _ _ h => h) fun ids =>
    (ends_deleteEach hA).mono (fun _ h => h) (fun _ _ h => ⟨ids, h⟩) fun _ _ h => h

/-- The remember-me tokens of a user whose row the request holds are deleted, and where everyone is
careful, these are all. -/
theorem ends_deleteRememberMeTokensOf (hA : Knows rt careful i rows A) (hrow : .user id ∈ rows)
    (hws : ∀ w ∈ ws, w.LeavesTokens) :
    Ends rt careful ok G i (Holds i (some ws) rows A) (deleteRememberMeTokensOf id)
      fun _ σ => ∃ ids : List ℕ,
        Holds (D := schema) i (some (ws ++ ids.map (.deleteRememberMeTokenOf id))) rows
          (fun d w => A d w ∧ (careful → Purged id ids d)) σ := by
  refine ends_select (B := fun ids d w => A d w ∧ (careful → Purged id ids d)) hA
    (fun d w ha => ⟨ha, fun _ r hr hid => ?_⟩) fun ids => ?_
  · rw [Option.getD_some, rememberMeTokens_applyAll hws]
    exact List.mem_map_of_mem (List.mem_filter.mpr ⟨hr, decide_eq_true hid⟩)
  · exact (ends_deleteEach (hA.and (knows_purged hrow))).mono (fun _ h => h)
      (fun _ _ h => ⟨ids, h⟩) fun _ _ h => h

end parts

end Reeva.Users.Credentials
