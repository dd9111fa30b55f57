import Reeva.Users.CredentialRules

/-!
# What requests about credentials publish, and what they grant

Every request publishes what it says, whatever the others do (`credential_sound`). Where everyone is
careful, a session that it opens is of a version of its user with the password that was given, and so
is a remember-me token (`Request.Grants`).
-/

open Interleaving ReadCommitted

namespace Reeva.Users.Credentials

/-! ## What is granted -/

/-- A session is of a version of its user with a password. -/
def Current (rt : Runtime) (password : String) (s : Session) (d : Db) : Prop :=
  ∃ u : User, s = ⟨u.id, u.authVersion⟩ ∧ rt.verify u.passwordHash password = true ∧ Behind u d

/-- A remember-me token was given to request `i`, and is there only while its user has a password, by
its hash. -/
def Backed (i : ℕ) (hash : String) (r : RememberMeToken) (d : Db) (w : Outside) : Prop :=
  w.given r.id = some i ∧
    ∀ r' ∈ d.rememberMeTokens, r'.id = r.id → r' = r ∧ HasHash r.tokenableId hash d

/-- A login is of a version of its user with a password, and so is its remember-me token. -/
def LoggedIn (rt : Runtime) (i : ℕ) (password : String) (s : Session)
    (token : Option RememberMeToken) (d : Db) (w : Outside) : Prop :=
  ∃ u : User, s = ⟨u.id, u.authVersion⟩ ∧ rt.verify u.passwordHash password = true ∧ Behind u d ∧
    ∀ r, token = some r → r.tokenableId = u.id ∧ Backed i u.passwordHash r d w

/-- What the reply to request `i` grants. -/
def Request.Grants (rt : Runtime) (i : ℕ) (d : Db) (w : Outside) : Request → Reply → Prop
  | .store _ password _, .login s token => LoggedIn rt i password s token d w
  | .changePassword _ _ password, .user u => Current rt password ⟨u.id, u.authVersion⟩ d
  | _, _ => True

section grants

variable {rt : Runtime} {careful : Prop} {i : ℕ} {σ σ' : State} {password : String}

theorem Behind.stable {u : User} (hr : Counts rt careful i σ σ') (hc : careful)
    (h : Behind u σ.server.db) : Behind u σ'.server.db := by
  obtain ⟨u₁, hu₁, hahead⟩ := h
  obtain ⟨u₂, hu₂, hahead₂⟩ := hr.ahead hc u₁ hu₁
  exact ⟨u₂, hu₂, hahead.trans hahead₂⟩

theorem Current.stable {s : Session} (hr : Counts rt careful i σ σ') (hc : careful)
    (h : Current rt password s σ.server.db) : Current rt password s σ'.server.db := by
  obtain ⟨u, hs, hverify, hbehind⟩ := h
  exact ⟨u, hs, hverify, hbehind.stable hr hc⟩

theorem Backed.stable {hash : String} {r : RememberMeToken} (hr : Counts rt careful i σ σ')
    (hc : careful) (h : Backed i hash r σ.server.db σ.world) :
    Backed i hash r σ'.server.db σ'.world := by
  refine ⟨hr.given _ h.1, fun r' hr' hid => ?_⟩
  obtain ⟨hmem, hhash⟩ := hr.mine hc r' hr' (hid ▸ h.1)
  obtain ⟨rfl, hhas⟩ := h.2 r' hmem hid
  exact ⟨rfl, hhash hash hhas⟩

theorem LoggedIn.stable {s : Session} {token : Option RememberMeToken}
    (hr : Counts rt careful i σ σ') (hc : careful)
    (h : LoggedIn rt i password s token σ.server.db σ.world) :
    LoggedIn rt i password s token σ'.server.db σ'.world := by
  obtain ⟨u, hs, hverify, hbehind, htoken⟩ := h
  exact ⟨u, hs, hverify, hbehind.stable hr hc,
    fun r hr' => ⟨(htoken r hr').1, (htoken r hr').2.stable hr hc⟩⟩

/-- Where everyone is careful, what is granted lasts. -/
theorem Request.Grants.stable {request : Request} {reply : Reply} (hr : Counts rt careful i σ σ')
    (hc : careful) (h : request.Grants rt i σ.server.db σ.world reply) :
    request.Grants rt i σ'.server.db σ'.world reply := by
  cases request with
  | store email password rememberMe =>
    cases reply with
    | login s token => exact LoggedIn.stable hr hc h
    | _ => trivial
  | changePassword id currentPassword newPassword =>
    cases reply with
    | user u => exact Current.stable hr hc h
    | _ => trivial
  | _ => trivial

end grants

/-! ## Replacements -/

/-- The user whose password a transaction replaces, and the links and remember-me tokens that it
deletes. -/
structure Replacement where
  user : User
  links : List ℕ
  tokens : List ℕ

/-- The writes of `replacePassword`. -/
def Replacement.writes (x : Replacement) (saved : User) : List Write :=
  [.saveUser x.user saved] ++ x.tokens.map (.deleteRememberMeTokenOf x.user.id) ++
    x.links.map (.deleteResetTokenOf x.user.email)

/-- The writes of `updatePasswordByToken`, which consumes a link. -/
def Replacement.writesOf (id : ℕ) (x : Replacement) (saved : User) : List Write :=
  [.deleteResetToken id] ++ [.saveUser x.user saved] ++
    x.links.map (.deleteResetTokenOf x.user.email) ++
    x.tokens.map (.deleteRememberMeTokenOf x.user.id)

/-- What the transaction knows at its end. -/
structure Replacing (rt : Runtime) (careful : Prop) (password : String) (x : Replacement)
    (saved : User) (d : Db) : Prop where
  next : saved = passwordSet x.user saved.passwordHash
  verifies : rt.verify saved.passwordHash password = true
  unchanged : careful → Unchanged x.user d
  purged : careful → Purged x.user.id x.tokens d

section replacements

variable {rt : Runtime} {careful : Prop} {password : String} {x : Replacement} {saved : User}
  {consumed : List ℕ} {d d' : Db}

/-- It publishes the replacement. -/
theorem Replacing.replaced (h : Replacing rt careful password x saved d)
    (husers : d'.users = savedUsers x.user saved d)
    (hreset : d'.resetTokens = d.resetTokens.filter fun r =>
      !(consumed.contains r.id || r.email = x.user.email && x.links.contains r.id))
    (htokens : d'.rememberMeTokens = d.rememberMeTokens.filter fun r =>
      !(r.tokenableId = x.user.id && x.tokens.contains r.id)) :
    Replaced rt careful password x.user consumed x.links x.tokens d d' where
  users := ⟨_, h.verifies, h.next ▸ husers⟩
  resetTokens := hreset
  rememberMeTokens := htokens
  unchanged := h.unchanged
  purged := h.purged

/-- The user who is saved is there, if it was as it had been read. -/
theorem Replacing.current (h : Replacing rt careful password x saved d) (hc : careful)
    (husers : d'.users = savedUsers x.user saved d) :
    Current rt password ⟨saved.id, saved.authVersion⟩ d' := by
  refine ⟨saved, rfl, h.verifies, ?_⟩
  obtain ⟨u, hu, hid, hversion, hhash⟩ := h.unchanged hc
  have hversion' : saved.authVersion = x.user.authVersion + 1 := by rw [h.next]; rfl
  have hne : saved.authVersion ≠ x.user.authVersion := by omega
  refine ⟨x.user.saveOnto saved u, ?_, ?_, .inr ⟨if_neg hne, ?_⟩⟩
  · rw [husers]
    exact List.mem_map.mpr ⟨u, hu, if_pos hid⟩
  · rw [h.next]
    exact hid
  · change dirty x.user.passwordHash saved.passwordHash u.passwordHash = _
    by_cases hsame : saved.passwordHash = x.user.passwordHash
    · rw [dirty, if_pos hsame, hhash, hsame]
    · rw [dirty, if_neg hsame]

/-- The tables after `replacePassword`. -/
theorem foldl_writes (x : Replacement) (saved : User) (t : Tables) :
    (x.writes saved).foldl (fun t w => (Write.run t w).2) t =
      { users := t.users.map fun u => if u.id = x.user.id then x.user.saveOnto saved u else u
        resetTokens := t.resetTokens.filter fun r =>
          !(r.email = x.user.email && x.links.contains r.id : Bool)
        rememberMeTokens := t.rememberMeTokens.filter fun r =>
          !(r.tokenableId = x.user.id && x.tokens.contains r.id : Bool) } := by
  rw [Replacement.writes, List.foldl_append, List.foldl_append, List.foldl_cons, List.foldl_nil,
    run_saveUser, foldl_deleteRememberMeTokensOf, foldl_deleteResetTokensOf]

/-- The tables after `updatePasswordByToken`. -/
theorem foldl_writesOf (id : ℕ) (x : Replacement) (saved : User) (t : Tables) :
    (x.writesOf id saved).foldl (fun t w => (Write.run t w).2) t =
      { users := t.users.map fun u => if u.id = x.user.id then x.user.saveOnto saved u else u
        resetTokens := t.resetTokens.filter fun r =>
          !([id].contains r.id || r.email = x.user.email && x.links.contains r.id : Bool)
        rememberMeTokens := t.rememberMeTokens.filter fun r =>
          !(r.tokenableId = x.user.id && x.tokens.contains r.id : Bool) } := by
  rw [Replacement.writesOf, List.foldl_append, List.foldl_append, List.foldl_append,
    List.foldl_cons, List.foldl_nil, List.foldl_cons, List.foldl_nil, run_saveUser,
    foldl_deleteResetTokensOf, foldl_deleteRememberMeTokensOf]
  congr 1
  change (t.resetTokens.filter fun r => !(decide (r.id = id))).filter _ = _
  rw [List.filter_filter]
  refine List.filter_congr fun r _ => ?_
  by_cases hid : r.id = id <;> simp [hid]

end replacements

/-! ## The requests that write -/

section requests

variable {rt : Runtime} {careful : Prop} {ok : Guard (machine rt)} {i : ℕ}
  {G : ℕ → State → State → Prop}

/-- What a transaction knows that is about to publish a replacement. -/
theorem knows_replacing {rows : List Row} {password : String} {x : Replacement} {saved : User}
    (hrow : .user x.user.id ∈ rows) :
    Knows rt careful i rows fun d _ => Replacing rt careful password x saved d :=
  fun σ σ' hr hg hrows h =>
    ⟨h.next, h.verifies, knows_careful (knows_unchanged hrow) σ σ' hr hg hrows h.unchanged,
      knows_purged hrow σ σ' hr hg hrows h.purged⟩

/-- `replacePassword`, of a user of whom something is known. -/
theorem ends_replacePassword (hok : careful → ∀ i s ch σ, ok i s ch σ → Settled rt i s ch σ)
    {user : User} {password : String} {p : Prop}
    (hG : p → ∀ (σ σ' : State) ids ids', Replaced rt careful password user [] ids ids' σ.server.db
      σ'.server.db → G i σ σ') :
    Ends rt careful ok G i (Holds i none [] fun _ _ => p) (replacePassword user password)
      fun saved => Holds i none [] fun d _ =>
        careful → Current rt password ⟨saved.id, saved.authVersion⟩ d := by
  refine ends_transaction (fun saved (x : Replacement) => x.writes saved)
    (fun x : Replacement => [Row.user x.user.id])
    (B := fun saved x d _ => (p ∧ x.user = user) ∧ Replacing rt careful password x saved d)
    (.const p)
    (fun saved x => (Terms.Fact.const _).and (knows_replacing (List.mem_singleton_self _)))
    (fun saved σ σ' hr _ _ h hc => (h hc).stable hr hc) ?_ ?_
  · refine ends_bind (ends_savePassword hok (.const p)) fun saved => ?_
    have hsaved : Knows rt careful i [.user user.id] fun d _ => p ∧
        saved = passwordSet user saved.passwordHash ∧
          rt.verify saved.passwordHash password = true ∧ (careful → Unchanged user d) :=
      (Terms.Fact.const _).and ((Terms.Fact.const _).and ((Terms.Fact.const _).and
        (knows_careful (knows_unchanged (List.mem_singleton_self _)))))
    have hleaves : ∀ w ∈ [Write.saveUser user saved], w.LeavesTokens := fun w hw => by
      rw [List.mem_singleton.mp hw]
      trivial
    refine ends_bind (ends_deleteRememberMeTokensOf hsaved (List.mem_singleton_self _) hleaves)
      fun _ σ hi ⟨tokens, h⟩ => ?_
    have hpurged : Knows rt careful i [.user user.id] fun d _ =>
        careful → Purged user.id tokens d := knows_purged (List.mem_singleton_self _)
    have hboth := hsaved.and hpurged
    refine ends_bind (ends_deleteResetTokensOf hboth) (fun _ σ hi ⟨links, h⟩ => ?_) σ hi h
    refine ends_ret hboth (fun σ h => ⟨⟨user, links, tokens⟩, h.mono fun d w h => ?_⟩) σ hi h
    obtain ⟨⟨hp, hnext, hverifies, hunchanged⟩, hpurged⟩ := h
    exact ⟨⟨hp, rfl⟩, hnext, hverifies, hunchanged, hpurged⟩
  · rintro saved x σ d ⟨⟨hp, rfl⟩, h⟩ htables
    rw [foldl_writes] at htables
    have husers : d.users = savedUsers x.user saved σ.server.db := congrArg Tables.users htables
    have hreplaced : Replaced rt careful password x.user [] x.links x.tokens σ.server.db d := by
      refine h.replaced husers ((congrArg Tables.resetTokens htables).trans ?_)
        (congrArg Tables.rememberMeTokens htables)
      exact List.filter_congr fun r _ => by simp
    exact ⟨fun hc => hreplaced.fair hc, hG hp _ _ _ _ hreplaced, fun hc => h.current hc husers⟩

/-- A link that a token redeems is there. -/
def Redeemable (rt : Runtime) (token : String) (now : ℤ) (r : PasswordResetToken) (d : Db) : Prop :=
  r ∈ d.resetTokens ∧ (r.token = rt.sha256 token ∨ r.token = token) ∧ now < r.expiresAt

theorem knows_redeemable {rows : List Row} {token : String} {now : ℤ} {r : PasswordResetToken}
    (hrow : .resetToken r.id ∈ rows) :
    Knows rt careful i rows fun d _ => Redeemable rt token now r d :=
  (knows_link hrow).and (.const _)

/-- `updatePasswordByToken` -/
theorem ends_updatePasswordByToken
    (hok : careful → ∀ i s ch σ, ok i s ch σ → Settled rt i s ch σ) {token password : String}
    (hG : ∀ (σ σ' : State) r, Redeemed rt careful token password (σ.world.asked i) r σ.server.db
      σ'.server.db → G i σ σ') :
    Ends rt careful ok G i (Holds i none [] fun _ _ => True)
      (updatePasswordByToken rt token password) fun _ => Holds i none [] fun _ _ => True := by
  refine ends_call (c := .now) (B := fun (now : ℤ) _ w => w.asked i = now) (.const True) ?_
    fun (now : ℤ) => ?_
  · exact fun d w ch now w' _ hrun => run_now hrun
  have hasked : ∀ rows, Knows rt careful i rows fun _ w => w.asked i = now :=
    fun _ => knows_asked now
  refine ends_transaction
    (fun saved (x : PasswordResetToken × Replacement) => x.2.writesOf x.1.id saved)
    (fun x => [Row.user x.2.user.id, Row.resetToken x.1.id])
    (B := fun saved x d w => (w.asked i = now ∧ Redeemable rt token now x.1 d) ∧
      (x.2.user.email = x.1.email ∧ x.2.user.isActive = true ∧ x.2.user.deletedAt = none) ∧
        Replacing rt careful password x.2 saved d) (hasked []) ?_ (fun _ => .const True) ?_ ?_
  · refine fun saved x => ((hasked _).and (knows_redeemable ?_)).and
      ((Terms.Fact.const _).and (knows_replacing (List.mem_cons_self ..)))
    exact List.mem_cons_of_mem _ (List.mem_singleton_self _)
  · -- The link is looked for by the hash of the token, and then by the token itself.
    refine ends_bind (ends_lockResetToken (hasked [])) fun hashed => ?_
    refine ends_bind (B := fun found => Holds i (some []) (linkRows found) fun d w =>
      w.asked i = now ∧ ∀ r, found = some r → Redeemable rt token now r d) ?_ fun found => ?_
    · cases hashed with
      | some r =>
        refine ends_ret ((hasked _).and (knows_found (some r))) fun σ h => h.mono fun d w h => ?_
        refine ⟨h.1, fun r' hr' => ?_⟩
        obtain ⟨hmem, htoken, hexpires⟩ := h.2 r' hr'
        exact ⟨hmem, .inl htoken, hexpires⟩
      | none =>
        refine (ends_lockResetToken (hasked [])).mono (fun σ h => h.mono fun d w h => h.1)
          (fun found σ h => h.mono fun d w h => ⟨h.1, fun r hr => ?_⟩) fun _ _ h => h
        obtain ⟨hmem, htoken, hexpires⟩ := h.2 r hr
        exact ⟨hmem, .inr htoken, hexpires⟩
    cases found with
    | none => exact ends_raise fun _ _ hr _ _ h => ⟨hr.asked.trans h.1, fun _ h => by cases h⟩
    | some r =>
      refine Triple.mono (A := Holds i (some []) [Row.resetToken r.id] fun d w =>
        w.asked i = now ∧ Redeemable rt token now r d) ?_
        (fun σ h => h.mono fun d w h => ⟨h.1, h.2 r rfl⟩) (fun _ _ h => h) fun _ _ h => h
      have hknown : Knows rt careful i [Row.resetToken r.id] fun d w =>
          w.asked i = now ∧ Redeemable rt token now r d :=
        (hasked _).and (knows_redeemable (List.mem_singleton_self _))
      refine ends_exec hknown fun consumed => ends_refuse hknown fun _ => ?_
      refine ends_select (B := fun user d w => (w.asked i = now ∧ Redeemable rt token now r d) ∧
        ∀ u, user = some u → u.email = r.email ∧ u.deletedAt = none) hknown ?_ fun found => ?_
      · refine fun d w h => ⟨h, fun u hu => ?_⟩
        have htest := List.find?_some hu
        simpa [Option.isNone_iff_eq_none] using htest
      have hfound : Knows rt careful i [Row.resetToken r.id] fun d w =>
          (w.asked i = now ∧ Redeemable rt token now r d) ∧
            ∀ u : User, found = some u → u.email = r.email ∧ u.deletedAt = none :=
        hknown.and (.const _)
      refine ends_orFail hfound fun user huser => ends_refuse hfound fun hactive => ?_
      refine ends_bind (ends_savePassword hok hfound) fun saved => ?_
      have hsaved : Knows rt careful i [.user user.id, .resetToken r.id] fun d w =>
          ((w.asked i = now ∧ Redeemable rt token now r d) ∧
            ∀ u, found = some u → u.email = r.email ∧ u.deletedAt = none) ∧
          saved = passwordSet user saved.passwordHash ∧
            rt.verify saved.passwordHash password = true ∧ (careful → Unchanged user d) :=
        (hfound.more fun _ h => List.mem_cons_of_mem _ h).and ((Terms.Fact.const _).and
          ((Terms.Fact.const _).and (knows_careful (knows_unchanged (List.mem_cons_self ..)))))
      refine ends_bind (ends_deleteResetTokensOf hsaved) fun _ σ hi ⟨links, h⟩ => ?_
      have hleaves : ∀ w ∈ [Write.deleteResetToken r.id] ++ [.saveUser user saved] ++
          links.map (.deleteResetTokenOf user.email), w.LeavesTokens := by
        intro w hw
        rcases List.mem_append.mp hw with hw | hw
        · simp only [List.cons_append, List.nil_append, List.mem_cons, List.not_mem_nil,
            or_false] at hw
          rcases hw with rfl | rfl <;> trivial
        · obtain ⟨id, -, rfl⟩ := List.mem_map.mp hw
          trivial
      refine ends_bind (ends_deleteRememberMeTokensOf hsaved (List.mem_cons_self ..) hleaves)
        (fun _ σ hi ⟨tokens, h⟩ => ?_) σ hi h
      have hpurged : Knows rt careful i [.user user.id, .resetToken r.id] fun d _ =>
          careful → Purged user.id tokens d := knows_purged (List.mem_cons_self ..)
      have hboth := hsaved.and hpurged
      refine ends_ret hboth (fun σ h => ⟨⟨r, user, links, tokens⟩, h.mono fun d w h => ?_⟩) σ hi h
      obtain ⟨⟨⟨hknown, huser'⟩, hnext, hverifies, hunchanged⟩, hpurged⟩ := h
      obtain ⟨hemail, hdeleted⟩ := huser' user huser
      exact ⟨hknown, ⟨hemail, by simpa using hactive, hdeleted⟩, hnext, hverifies, hunchanged,
        hpurged⟩
  · rintro saved ⟨r, x⟩ σ d ⟨⟨hnow, hmem, htoken, hexpires⟩, ⟨hemail, hactive, hdeleted⟩, h⟩ htables
    rw [foldl_writesOf] at htables
    have hreplaced : Replaced rt careful password x.user [r.id] x.links x.tokens σ.server.db d :=
      h.replaced (congrArg Tables.users htables) (congrArg Tables.resetTokens htables)
        (congrArg Tables.rememberMeTokens htables)
    refine ⟨fun hc => hreplaced.fair hc, hG _ _ r ?_, trivial⟩
    rw [hnow]
    exact ⟨hmem, htoken, hexpires, x.user, x.links, x.tokens, hemail, hactive, hdeleted, hreplaced⟩

/-- `sendPasswordResetLink` -/
theorem ends_sendPasswordResetLink {mailEnabled : Bool} {email : String}
    (hG : ∀ σ σ' : State, Issued rt email (σ.world.asked i) σ.server.db σ'.server.db → G i σ σ') :
    Ends rt careful ok G i (Holds i none [] fun _ _ => True)
      (sendPasswordResetLink rt mailEnabled email) fun _ => Holds i none [] fun _ _ => True := by
  refine ends_bind (B := fun user => Holds i none [] fun _ _ =>
    ∀ u : User, user = some u → u.email = Js.trim email) ?_ fun found => ?_
  · split
    · rw [← Prog.bind_ret (select _)]
      refine ends_select (B := fun user _ _ => ∀ u : User, user = some u → u.email = Js.trim email)
        (.const True) (fun d w _ u hu => ?_) fun user => ends_ret (.const _) fun _ h => h
      have htest := List.find?_some hu
      simp only [Bool.and_eq_true, decide_eq_true_eq] at htest
      exact htest.1
    · exact ends_ret (.const True) fun σ h => h.mono fun _ _ _ _ h => by cases h
  cases huser : found.filter (·.isActive) with
  | none => exact ends_ret (.const _) fun σ h => h.mono fun _ _ _ => trivial
  | some user =>
    obtain ⟨rfl, hactive⟩ := Option.filter_eq_some_iff.mp huser
    refine ends_call_same (c := .randomBytes 32) (.const _) (fun _ _ _ _ _ h _ => h)
      fun token : String => ?_
    refine ends_call (c := .now) (B := fun (now : ℤ) _ w => (∀ u : User, some user = some u →
      u.email = Js.trim email) ∧ w.asked i = now) (.const _) (fun d w ch now w' h hrun => ?_)
      fun now : ℤ => ?_
    · exact ⟨h, run_now hrun⟩
    have hasked : ∀ rows, Knows rt careful i rows fun _ w =>
        (∀ u : User, some user = some u → u.email = Js.trim email) ∧ w.asked i = now :=
      fun _ => (Terms.Fact.const _).and (knows_asked now)
    refine ends_bind (B := fun _ => Holds i none [] fun _ _ => True) ?_ fun _ => ?_
    · refine ends_transaction (fun _ (x : List ℕ × ℕ) => x.1.map (.deleteResetTokenOf user.email) ++
          [.insertResetToken ⟨x.2, user.email, rt.sha256 token, now + hour⟩]) (fun _ => [])
        (B := fun _ _ _ w => (∀ u : User, some user = some u → u.email = Js.trim email) ∧
          w.asked i = now) (hasked []) (fun _ _ => hasked []) (fun _ => .const True) ?_ ?_
      · refine ends_bind (ends_deleteResetTokensOf (hasked [])) fun _ σ hi ⟨ids, h⟩ => ?_
        refine ends_call_same (c := .nextResetTokenId) (hasked []) (fun d w ch r w' h hrun => ?_)
          (fun id : ℕ => ?_) σ hi h
        · cases ch with
          | number n =>
            cases hrun
            exact h
          | _ => cases hrun
        · exact ends_exec (hasked []) fun _ => ends_ret (hasked []) fun σ h => ⟨⟨ids, id⟩, h⟩
      · rintro _ ⟨ids, id⟩ σ d ⟨hemail, hnow⟩ htables
        rw [List.foldl_append, foldl_deleteResetTokensOf] at htables
        have husers : d.users = σ.server.db.users := (congrArg Tables.users htables).trans rfl
        have htokens : d.rememberMeTokens = σ.server.db.rememberMeTokens :=
          (congrArg Tables.rememberMeTokens htables).trans rfl
        refine ⟨fun _ => .of_same husers htokens, hG _ _ ?_, trivial⟩
        rw [hnow]
        exact ⟨user, token, id, ids, hemail user rfl, hactive, husers, htokens,
          (congrArg Tables.resetTokens htables).trans rfl⟩
    · refine ends_call_same (c := .sendMail user.email token) (.const True) (fun _ _ _ _ _ h _ => h)
        fun sent : Except String Unit => ?_
      rw [← Prog.bind_ret (orThrow sent)]
      exact ends_orThrow (.const _) fun _ _ => ends_ret (.const _) fun _ h => h

/-- A save of its own that leaves the password. -/
theorem ends_saveUser (hok : careful → ∀ i s ch σ, ok i s ch σ → Settled rt i s ch σ) {α : Type}
    {l n : User} {p : Prop} {k : ℕ → Program α} {Q : α → State → Prop}
    (hpassword : n.passwordHash = l.passwordHash)
    (hversion : n.authVersion = l.authVersion ∨ n.authVersion = l.authVersion + 1)
    (hG : p → ∀ σ σ' : State, Saved l n σ.server.db σ'.server.db → G i σ σ')
    (hk : ∀ n, Ends rt careful ok G i (Holds i none [] fun _ _ => True) (k n) Q) :
    Ends rt careful ok G i (Holds i none [] fun _ _ => p) (exec (.saveUser l n) >>= k) Q := by
  refine ends_autocommit (.const p) (.const True) (fun σ φ d hp h htables => ?_) hk
  rw [run_saveUser] at htables
  have husers : d.users = savedUsers l n σ.server.db := congrArg Tables.users htables
  have htokens : d.rememberMeTokens = σ.server.db.rememberMeTokens :=
    (congrArg Tables.rememberMeTokens htables).trans rfl
  have hreset : d.resetTokens = σ.server.db.resetTokens :=
    (congrArg Tables.resetTokens htables).trans rfl
  refine ⟨fun hc => ?_, hG hp _ _ ⟨hpassword, husers, hreset, htokens⟩, trivial⟩
  refine Fair.of_saved ?_ husers fun r hr => ⟨htokens ▸ hr, .inl hpassword⟩
  rcases hversion with hsame | hnext
  · exact .inr ⟨hsame, hpassword⟩
  · refine .inl ⟨hnext, (hok hc _ _ _ _ h).resolve_left fun hsame => ?_⟩
    have hne : l.authVersion + 1 ≠ l.authVersion := by omega
    exact hne (hnext.symm.trans hsame)

/-- `findById` -/
theorem ends_findById {id : Id} :
    Ends rt careful ok G i (Holds i none [] fun _ _ => True) (findById id)
      fun user => Holds i none [] fun _ _ => user.id = id := by
  refine ends_select (B := fun user _ _ => ∀ u : User, user = some u → u.id = id) (.const True)
    (fun d w _ u hu => ?_) fun found => ?_
  · have htest := List.find?_some hu
    simp only [Bool.and_eq_true, decide_eq_true_eq] at htest
    exact htest.1
  · rw [← Prog.bind_ret (orFail found)]
    exact ends_orFail (.const _) fun user huser => ends_ret (.const _) fun σ h =>
      h.mono fun _ _ h => h user huser

/-- `toggleActiveUser` -/
theorem ends_toggleActiveUser (hok : careful → ∀ i s ch σ, ok i s ch σ → Settled rt i s ch σ)
    {id currentUserId : Id}
    (hG : ∀ (σ σ' : State) (l n : User), l.id = id → Saved l n σ.server.db σ'.server.db →
      G i σ σ') :
    Ends rt careful ok G i (Holds i none [] fun _ _ => True) (toggleActiveUser id currentUserId)
      fun _ => Holds i none [] fun _ _ => True := by
  refine ends_bind ends_findById fun user => ends_refuse (.const _) fun _ =>
    ends_refuse (.const _) fun _ => ?_
  exact ends_saveUser hok rfl (.inr rfl) (fun hid σ σ' h => hG σ σ' _ _ hid h) fun _ =>
    ends_ret (.const _) fun _ h => h

/-- `updateUser` -/
theorem ends_updateUser (hok : careful → ∀ i s ch σ, ok i s ch σ → Settled rt i s ch σ)
    {id : Id} {fullName : Input}
    (hG : ∀ (σ σ' : State) (l n : User), l.id = id → Saved l n σ.server.db σ'.server.db →
      G i σ σ') :
    Ends rt careful ok G i (Holds i none [] fun _ _ => True) (updateUser id fullName)
      fun _ => Holds i none [] fun _ _ => True := by
  refine ends_orThrow (.const _) fun name _ => ends_bind ends_findById fun user => ?_
  exact ends_saveUser hok rfl (.inl rfl) (fun hid σ σ' h => hG σ σ' _ _ hid h) fun _ =>
    ends_ret (.const _) fun _ h => h

/-- `updateAppearance` -/
theorem ends_updateAppearance (hok : careful → ∀ i s ch σ, ok i s ch σ → Settled rt i s ch σ)
    {id : Id} {theme : String} {accentColor : ℚ}
    (hG : ∀ (σ σ' : State) (l n : User), l.id = id → Saved l n σ.server.db σ'.server.db →
      G i σ σ') :
    Ends rt careful ok G i (Holds i none [] fun _ _ => True) (updateAppearance id theme accentColor)
      fun _ => Holds i none [] fun _ _ => True := by
  refine ends_bind ends_findById fun user => ends_refuse (.const _) fun _ =>
    ends_refuse (.const _) fun _ => ?_
  exact ends_saveUser hok rfl (.inl rfl) (fun hid σ σ' h => hG σ σ' _ _ hid h) fun _ =>
    ends_ret (.const _) fun _ h => h

/-- The facts of a login. -/
theorem knows_loggedIn {rows : List Row} {password : String} {s : Session}
    {token : Option RememberMeToken} :
    Knows rt careful i rows fun d w => careful → LoggedIn rt i password s token d w :=
  fun _ _ hr _ _ h hc => (h hc).stable hr hc

/-- An identifier of a remember-me token was given to the request. -/
theorem run_nextRememberMeTokenId {ch : Outcome} {w w' : Outside} {n : ℕ}
    (h : Call.run rt i .nextRememberMeTokenId ch w = some (n, w')) : w'.given n = some i := by
  cases ch with
  | number m =>
    simp only [Call.run] at h
    split at h
    · obtain ⟨rfl, rfl⟩ := Prod.mk.inj (Option.some.inj h)
      exact Function.update_self ..
    · cases h
  | _ => cases h

/-- `createRememberMeToken` for a user who was read. -/
theorem ends_createRememberMeToken
    (hok : careful → ∀ i s ch σ, ok i s ch σ → Settled rt i s ch σ) {user : User}
    (hG : ∀ σ σ' : State, σ'.server.db.users = σ.server.db.users →
      σ'.server.db.resetTokens = σ.server.db.resetTokens → G i σ σ') :
    Ends rt careful ok G i (Holds i none [] fun d _ => careful → Behind user d)
      (createRememberMeToken rt user) fun r => Holds i none [] fun d w => careful →
        Behind user d ∧ r.tokenableId = user.id ∧ Backed i user.passwordHash r d w := by
  have hbehind : ∀ rows, Knows rt careful i rows fun d _ => careful → Behind user d :=
    fun _ _ _ hr _ _ h hc => (h hc).stable hr hc
  refine ends_call_same (c := .randomBytes 40) (hbehind []) (fun _ _ _ _ _ h _ => h)
    fun secret : String => ?_
  refine ends_call_same (c := .now) (hbehind []) (fun _ _ _ _ _ h _ => h) fun now : ℤ => ?_
  refine ends_call (c := .nextRememberMeTokenId) (B := fun (id : ℕ) d w =>
    (careful → Behind user d) ∧ w.given id = some i) (hbehind []) (fun d w ch n w' h hrun =>
      ⟨h, run_nextRememberMeTokenId hrun⟩) fun id : ℕ => ?_
  dsimp only
  have hgiven : Knows rt careful i [] fun d w =>
      (careful → Behind user d) ∧ w.given id = some i :=
    fun σ σ' hr hg hrows h => ⟨hbehind [] σ σ' hr hg hrows h.1, hr.given id h.2⟩
  refine ends_autocommit hgiven (C := fun d w => careful → Behind user d ∧
    RememberMeToken.tokenableId ⟨id, user.id, rt.sha256 secret, now + rememberMeTokensAge⟩ =
      user.id ∧ Backed i user.passwordHash
        ⟨id, user.id, rt.sha256 secret, now + rememberMeTokensAge⟩ d w)
    (fun _ _ hr _ _ h hc => ⟨(h hc).1.stable hr hc, rfl, (h hc).2.2.stable hr hc⟩) ?_
    fun _ => ends_ret (fun _ _ hr _ _ h hc => ⟨(h hc).1.stable hr hc, rfl, (h hc).2.2.stable hr hc⟩)
      fun _ h => h
  rintro σ φ d ⟨hahead, hgiven⟩ h htables
  have husers : d.users = σ.server.db.users := (congrArg Tables.users htables).trans rfl
  have hreset : d.resetTokens = σ.server.db.resetTokens :=
    (congrArg Tables.resetTokens htables).trans rfl
  have htokens : d.rememberMeTokens = σ.server.db.rememberMeTokens ++
      [⟨id, user.id, rt.sha256 secret, now + rememberMeTokensAge⟩] :=
    (congrArg Tables.rememberMeTokens htables).trans rfl
  have hold : ∀ r ∈ d.rememberMeTokens, r ∈ σ.server.db.rememberMeTokens ∨
      r = ⟨id, user.id, rt.sha256 secret, now + rememberMeTokensAge⟩ := by
    intro r hr
    rw [htokens] at hr
    exact (List.mem_append.mp hr).imp (fun h => h) List.mem_singleton.mp
  have hsame : ∀ id hash, HasHash id hash σ.server.db → HasHash id hash d := by
    intro id hash h
    unfold HasHash
    rw [husers]
    exact h
  refine ⟨fun hc => ⟨fun u hu => behind_of_mem (husers ▸ hu), ?_, ?_⟩, hG _ _ husers hreset,
    fun hc => ⟨?_, rfl, hgiven, fun r hr hid => ?_⟩⟩
  · -- The identifier was given to this request.
    intro j hij r hr hj
    rcases hold r hr with hmem | rfl
    · exact ⟨hmem, hsame _⟩
    · exact absurd (Option.some.inj (hgiven.symm.trans hj)) hij
  · -- Nobody holds the row of the user.
    intro j hij uid howner r hr hid
    rcases hold r hr with hmem | rfl
    · exact hmem
    · have hnobody := (hok hc _ _ _ _ h).2
      rw [show user.id = uid from hid, howner] at hnobody
      cases hnobody
  · obtain ⟨u, hu, hahead⟩ := hahead hc
    exact ⟨u, husers ▸ hu, hahead⟩
  · -- One row has an identifier.
    have hmem : (⟨id, user.id, rt.sha256 secret, now + rememberMeTokensAge⟩ : RememberMeToken) ∈
        d.rememberMeTokens := by
      rw [htokens]
      exact List.mem_append_right _ (List.mem_singleton_self _)
    obtain ⟨u, hu, hid', -, hhash⟩ := (hok hc _ _ _ _ h).1
    exact ⟨List.inj_on_of_nodup_map d.valid.rememberMeTokenIds hr hmem hid,
      hsame _ _ ⟨u, hu, hid', hhash⟩⟩

/-- What `verifyCredentials` and the checks after it let through. -/
theorem ends_store (hok : careful → ∀ i s ch σ, ok i s ch σ → Settled rt i s ch σ)
    {email password : String} {rememberMe : Bool}
    (hG : ∀ σ σ' : State, σ'.server.db.users = σ.server.db.users →
      σ'.server.db.resetTokens = σ.server.db.resetTokens → G i σ σ') :
    Ends rt careful ok G i (Holds i none [] fun _ _ => True) (store rt email password rememberMe)
      fun p => Holds i none [] fun d w => careful → LoggedIn rt i password p.1 p.2 d w := by
  have hbehind : ∀ user, Knows rt careful i [] fun d _ => careful → Behind user d :=
    fun _ _ _ hr _ _ h hc => (h hc).stable hr hc
  refine ends_select (B := fun found d _ => ∀ u : User, found = some u → careful → Behind u d)
    (.const True) (fun d w _ u hu _ => behind_of_mem (List.mem_of_find?_eq_some hu)) fun found => ?_
  cases found with
  | none =>
    have hnone : Knows rt careful i [] fun d _ =>
        ∀ u : User, none = some u → careful → Behind u d := fun _ _ _ _ _ _ _ h => by cases h
    exact ends_call_same (c := .hash password) hnone (fun _ _ _ _ _ h _ => h) fun _ =>
      ends_raise hnone
  | some user =>
    refine Triple.mono (A := Holds i none [] fun d _ => careful → Behind user d) ?_
      (fun σ h => h.mono fun d w h => h user rfl) (fun _ _ h => h) fun _ _ h => h
    refine ends_refuse (hbehind user) fun hverify => ends_refuse (hbehind user) fun _ => ?_
    have hverify : rt.verify user.passwordHash password = true := by simpa using hverify
    refine ends_bind (B := fun token => Holds i none [] fun d w => careful →
      LoggedIn rt i password ⟨user.id, user.authVersion⟩ token d w) ?_ fun token =>
        ends_ret knows_loggedIn fun _ h => h
    split
    · refine ends_bind (ends_createRememberMeToken hok hG) fun r => ends_ret ?_ fun σ h =>
        h.mono fun d w h hc => ?_
      · exact fun _ _ hr _ _ h hc => ⟨(h hc).1.stable hr hc, (h hc).2.1, (h hc).2.2.stable hr hc⟩
      · obtain ⟨hbehind, hid, hbacked⟩ := h hc
        refine ⟨user, rfl, hverify, hbehind, fun r' hr' => ?_⟩
        cases hr'
        exact ⟨hid, hbacked⟩
    · exact ends_ret (hbehind user) fun σ h => h.mono fun d w h hc =>
        ⟨user, rfl, hverify, h hc, fun _ h => by cases h⟩

/-- `authenticate` -/
theorem ends_authenticate (hok : careful → ∀ i s ch σ, ok i s ch σ → Settled rt i s ch σ)
    {session : Option Session} {cookie : Option (ℕ × String)}
    (hG : ∀ σ σ' : State, σ'.server.db.users = σ.server.db.users →
      σ'.server.db.resetTokens = σ.server.db.resetTokens → G i σ σ') :
    Ends rt careful ok G i (Holds i none [] fun _ _ => True) (authenticate rt session cookie)
      fun _ => Holds i none [] fun _ _ => True := by
  cases session with
  | some s =>
    exact ends_select (.const True) (fun _ _ h => h) fun _ => ends_ret (.const True) fun _ h => h
  | none =>
    cases cookie with
    | none => exact ends_ret (.const True) fun _ h => h
    | some cookie =>
      refine ends_call_same (c := .now) (.const True) (fun _ _ _ _ _ h _ => h) fun now : ℤ => ?_
      refine ends_select (B := fun _ _ _ => True) (.const True) (fun _ _ h => h) fun token => ?_
      cases token with
      | none => exact ends_ret (.const True) fun _ h => h
      | some token =>
        refine ends_select (B := fun found d _ => ∀ u : User, found = some u → careful → Behind u d)
          (.const True) (fun d w _ u hu _ => behind_of_mem (List.mem_of_find?_eq_some hu))
          fun found => ?_
        cases found with
        | none =>
          exact ends_ret (fun _ _ _ _ _ _ _ h => by cases h) fun σ h => h.mono fun _ _ _ => trivial
        | some user =>
          have hbehind : Knows rt careful i [] fun d _ => careful → Behind user d :=
            fun _ _ hr _ _ h hc => (h hc).stable hr hc
          refine Triple.mono (A := Holds i none [] fun d _ => careful → Behind user d) ?_
            (fun σ h => h.mono fun d w h => h user rfl) (fun _ _ h => h) fun _ _ h => h
          refine ends_autocommit hbehind hbehind (fun σ φ d hahead _ htables => ?_) fun _ => ?_
          · have husers : d.users = σ.server.db.users := (congrArg Tables.users htables).trans rfl
            have hreset : d.resetTokens = σ.server.db.resetTokens :=
              (congrArg Tables.resetTokens htables).trans rfl
            have hless : ∀ r ∈ d.rememberMeTokens, r ∈ σ.server.db.rememberMeTokens := by
              intro r hr
              rw [show d.rememberMeTokens = _ from congrArg Tables.rememberMeTokens htables] at hr
              exact (List.mem_filter.mp hr).1
            refine ⟨fun _ => .of_fewer husers hless, hG _ _ husers hreset, fun hc => ?_⟩
            obtain ⟨u, hu, hahead⟩ := hahead hc
            exact ⟨u, husers ▸ hu, hahead⟩
          · refine ends_bind (ends_createRememberMeToken hok hG) fun r => ends_ret ?_ fun σ h =>
              h.mono fun _ _ _ => trivial
            exact fun _ _ hr _ _ h hc =>
              ⟨(h hc).1.stable hr hc, (h hc).2.1, (h hc).2.2.stable hr hc⟩

/-- `verifyResetToken` -/
theorem ends_verifyResetToken {token : String} :
    Ends rt careful ok G i (Holds i none [] fun _ _ => True) (verifyResetToken rt token)
      fun _ => Holds i none [] fun _ _ => True := by
  refine ends_call_same (c := .now) (.const True) (fun _ _ _ _ _ h _ => h) fun now : ℤ => ?_
  refine ends_select (B := fun _ _ _ => True) (.const True) (fun _ _ h => h) fun hashed => ?_
  cases hashed with
  | some r => exact ends_ret (.const True) fun _ h => h
  | none =>
    dsimp only
    rw [← Prog.bind_ret (select _)]
    exact ends_select (B := fun _ _ _ => True) (.const True) (fun _ _ h => h) fun _ =>
      ends_ret (.const True) fun _ h => h

/-- `resetPassword` -/
theorem ends_resetPassword (hok : careful → ∀ i s ch σ, ok i s ch σ → Settled rt i s ch σ)
    {id currentUserId : Id}
    (hG : ∀ (σ σ' : State) (user : User) password ids ids', user.id = id →
      Replaced rt careful password user [] ids ids' σ.server.db σ'.server.db → G i σ σ') :
    Ends rt careful ok G i (Holds i none [] fun _ _ => True) (resetPassword id currentUserId)
      fun _ => Holds i none [] fun _ _ => True := by
  refine ends_bind ends_findById fun user => ends_refuse (.const _) fun _ =>
    ends_refuse (.const _) fun _ => ?_
  refine ends_call_same (c := .randomBytes 8) (.const _) (fun _ _ _ _ _ h _ => h)
    fun password : String => ?_
  refine ends_bind (ends_replacePassword hok fun hid σ σ' ids ids' h => hG σ σ' _ _ _ _ hid h)
    fun _ => ends_ret (fun _ _ hr _ _ h hc => (h hc).stable hr hc) fun σ h =>
      h.mono fun _ _ _ => trivial

/-- `changePassword` -/
theorem ends_changePassword (hok : careful → ∀ i s ch σ, ok i s ch σ → Settled rt i s ch σ)
    {id : Id} {currentPassword newPassword : String}
    (hG : ∀ (σ σ' : State) (user : User) ids ids', user.id = id →
      Replaced rt careful newPassword user [] ids ids' σ.server.db σ'.server.db → G i σ σ') :
    Ends rt careful ok G i (Holds i none [] fun _ _ => True)
      (changePassword rt id currentPassword newPassword) fun saved => Holds i none [] fun d _ =>
        careful → Current rt newPassword ⟨saved.id, saved.authVersion⟩ d := by
  refine ends_refuse (.const _) fun _ => ends_bind ends_findById fun user =>
    ends_refuse (.const _) fun _ => ?_
  exact ends_replacePassword hok fun hid σ σ' ids ids' h => hG σ σ' _ _ _ hid h

end requests

/-! ## Runs -/

section runs

variable {rt : Runtime} {careful : Prop} {ok : Guard (machine rt)} {requests : List Request}

/-- What request `i` publishes. -/
def Published (rt : Runtime) (careful : Prop) (requests : List Request) (i : ℕ) (σ σ' : State) :
    Prop :=
  ∃ request, requests[i]? = some request ∧
    request.Publishes rt careful (σ.world.asked i) σ.server.db σ'.server.db

/-- What request `i` has when it returns. -/
def Granted (rt : Runtime) (careful : Prop) (requests : List Request) (i : ℕ) (reply : Reply)
    (σ : State) : Prop :=
  σ.server.gone i = false → careful → ∀ request, requests[i]? = some request →
    request.Grants rt i σ.server.db σ.world reply

/-- A program of the configuration is that of a request. -/
theorem program_of_pool {d : Db} {w : Outside} {i : ℕ} {p : Program Reply}
    (h : (start rt requests d w).pool[i]? = some p) :
    ∃ request, requests[i]? = some request ∧ request.program rt = p := by
  rw [start, List.getElem?_map] at h
  exact Option.map_eq_some_iff.mp h

/-- Every request publishes what it says, and ends with what it grants. -/
theorem ends_request (hok : careful → ∀ i s ch σ, ok i s ch σ → Settled rt i s ch σ) {i : ℕ}
    {request : Request} (hi : requests[i]? = some request) :
    Ends rt careful ok (Published rt careful requests) i (Holds i none [] fun _ _ => True)
      (request.program rt) (Granted rt careful requests i) := by
  have hG : ∀ σ σ' : State,
      request.Publishes rt careful (σ.world.asked i) σ.server.db σ'.server.db →
      Published rt careful requests i σ σ' := fun σ σ' h => ⟨request, hi, h⟩
  have hfact : ∀ reply, Knows rt careful i [] fun d w => careful → request.Grants rt i d w reply :=
    fun _ _ _ hr _ _ h hc => (h hc).stable hr hc
  -- It suffices to say what the reply grants of this request.
  suffices h : Ends rt careful ok (Published rt careful requests) i
      (Holds i none [] fun _ _ => True) (request.program rt) fun reply => Holds i none [] fun d w =>
        careful → request.Grants rt i d w reply by
    refine h.mono (fun _ h => h) (fun reply σ h hg hc request' hrequest' => ?_) fun _ _ h => h
    cases hi.symm.trans hrequest'
    exact (h.2 hg).2 hc
  cases request with
  | sendPasswordResetLink mailEnabled email =>
    exact ends_bind (ends_sendPasswordResetLink hG) fun _ =>
      ends_ret (.const True) fun σ h => h.mono fun _ _ _ _ => trivial
  | verifyResetToken token =>
    exact ends_bind ends_verifyResetToken fun _ =>
      ends_ret (.const True) fun σ h => h.mono fun _ _ _ _ => trivial
  | updatePasswordByToken token password =>
    exact ends_bind (ends_updatePasswordByToken hok fun σ σ' r h => hG σ σ' ⟨r, h⟩) fun _ =>
      ends_ret (.const True) fun σ h => h.mono fun _ _ _ _ => trivial
  | resetPassword id currentUserId =>
    exact ends_bind (ends_resetPassword hok fun σ σ' user password ids ids' hid h =>
      hG σ σ' ⟨user, password, ids, ids', hid, h⟩) fun _ =>
        ends_ret (.const True) fun σ h => h.mono fun _ _ _ _ => trivial
  | toggleActiveUser id currentUserId =>
    exact ends_bind (ends_toggleActiveUser hok fun σ σ' l n hid h => hG σ σ' ⟨l, n, hid, h⟩)
      fun _ => ends_ret (.const True) fun σ h => h.mono fun _ _ _ _ => trivial
  | updateUser id fullName =>
    exact ends_bind (ends_updateUser hok fun σ σ' l n hid h => hG σ σ' ⟨l, n, hid, h⟩)
      fun _ => ends_ret (.const True) fun σ h => h.mono fun _ _ _ _ => trivial
  | changePassword id currentPassword newPassword =>
    exact ends_bind (ends_changePassword hok fun σ σ' user ids ids' hid h =>
      hG σ σ' ⟨user, ids, ids', hid, h⟩) fun user => ends_ret (hfact (.user user)) fun σ h => h
  | updateAppearance id theme accentColor =>
    exact ends_bind (ends_updateAppearance hok fun σ σ' l n hid h => hG σ σ' ⟨l, n, hid, h⟩)
      fun _ => ends_ret (.const True) fun σ h => h.mono fun _ _ _ _ => trivial
  | store email password rememberMe =>
    exact ends_bind (ends_store hok fun σ σ' hu hr => hG σ σ' ⟨hu, hr⟩) fun p =>
      ends_ret knows_loggedIn fun σ h => h
  | authenticate session cookie =>
    exact ends_bind (ends_authenticate hok fun σ σ' hu hr => hG σ σ' ⟨hu, hr⟩) fun _ =>
      ends_ret (.const True) fun σ h => h.mono fun _ _ _ _ => trivial

/-- The requests keep to what they should publish. -/
theorem credential_sound (hok : careful → ∀ i s ch σ, ok i s ch σ → Settled rt i s ch σ) (d : Db)
    (w : Outside) {c : Config (machine rt) (Failure String) Reply}
    (hr : Config.Run ok (start rt requests d w) c) :
    Sound ok ((terms rt careful).committing (Published rt careful requests))
      (Granted rt careful requests) (fun _ _ _ => True) c := by
  have hstart : Sound ok ((terms rt careful).committing (Published rt careful requests))
      (Granted rt careful requests) (fun _ _ _ => True) (start rt requests d w) := by
    refine ⟨Server.covered_idle (D := schema) d, fun i p hp => ?_⟩
    obtain ⟨request, hi, rfl⟩ := program_of_pool hp
    exact ends_request hok hi _ (Server.covered_idle (D := schema) d) (holds_idle i trivial)
  exact hstart.run (Terms.committing_compatible _ _) hr

end runs

end Reeva.Users.Credentials
