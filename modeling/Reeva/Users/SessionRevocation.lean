import Reeva.Users.CredentialSoundness

/-!
# A new password ends the sessions that there are

A session has the version that its user had when the password was checked, and `AuthMiddleware`
lets it through only while the user has that version. Whoever sets a password raises the version and
deletes the remember-me tokens. Nothing of this is locked before it is read, so that two requests may
act on the same version. In every run in which nobody acts on what is out of date, a session and a
remember-me token are accepted only while their user has the password that they were obtained with
(`password_revokes`).
-/

open Interleaving ReadCommitted

namespace Reeva.Users.Credentials

/-! ## What is opened -/

/-- A request opens a session for a password. -/
def Request.Opens : Request → Reply → Session → String → Prop
  | .store _ password _, .login s _, s', p => s = s' ∧ password = p
  | .changePassword _ _ password, .user u, s', p => ⟨u.id, u.authVersion⟩ = s' ∧ password = p
  | _, _, _, _ => False

/-- A request returns a remember-me token for a password. -/
def Request.Remembers : Request → Reply → RememberMeToken → String → Prop
  | .store _ password _, .login _ token, r, p => token = some r ∧ password = p
  | _, _, _, _ => False

section granted

variable {rt : Runtime} {i : ℕ} {request : Request} {reply : Reply} {password : String} {d : Db}
  {w : Outside}

/-- A session that is opened is of a version of its user with the password. -/
theorem Request.Grants.current {s : Session} (h : request.Grants rt i d w reply)
    (ho : request.Opens reply s password) : Current rt password s d := by
  cases request with
  | store email password rememberMe =>
    cases reply with
    | login s token =>
      obtain ⟨rfl, rfl⟩ := ho
      obtain ⟨u, hs, hverify, hbehind, -⟩ := h
      exact ⟨u, hs, hverify, hbehind⟩
    | _ => exact ho.elim
  | changePassword id currentPassword newPassword =>
    cases reply with
    | user u =>
      obtain ⟨rfl, rfl⟩ := ho
      exact h
    | _ => exact ho.elim
  | _ => exact ho.elim

/-- A remember-me token is there only while its user has the password. -/
theorem Request.Grants.token {r r' : RememberMeToken} (h : request.Grants rt i d w reply)
    (ho : request.Remembers reply r password) (hr : r' ∈ d.rememberMeTokens) (hid : r'.id = r.id) :
    r' = r ∧ ∃ u ∈ d.users, u.id = r.tokenableId ∧ rt.verify u.passwordHash password = true := by
  cases request with
  | store email password rememberMe =>
    cases reply with
    | login s token =>
      obtain ⟨rfl, rfl⟩ := ho
      obtain ⟨user, -, hverify, -, htoken⟩ := h
      obtain ⟨-, -, hbacked⟩ := htoken r rfl
      obtain ⟨hsame, u, hu, huid, hhash⟩ := hbacked r' hr hid
      exact ⟨hsame, u, hu, huid, hhash ▸ hverify⟩
    | _ => exact ho.elim
  | _ => exact ho.elim

/-- Where a session is valid, its user has the password. -/
theorem Current.verifies {s : Session} (h : Current rt password s d) {u : User} (hu : u ∈ d.users)
    (hvalid : s.valid u = true) : rt.verify u.passwordHash password = true := by
  obtain ⟨v, rfl, hverify, v', hv', hid, hahead⟩ := h
  simp only [Session.valid, Bool.and_eq_true, decide_eq_true_eq] at hvalid
  obtain ⟨⟨huid, hversion⟩, -⟩ := hvalid
  obtain rfl := user_eq_of_id hu hv' (huid.symm.trans hid.symm)
  rcases hahead with hlater | ⟨-, hhash⟩
  · omega
  · rw [hhash]
    exact hverify

end granted

/-! ## New passwords -/

section replaced

variable {rt : Runtime} {careful : Prop} {password : String} {l n u u' : User} {d d' : Db}

/-- What a save makes of a user. -/
theorem saved_user (husers : d'.users = savedUsers l n d) (hu : u ∈ d.users) (hu' : u' ∈ d'.users)
    (hid : u'.id = u.id) : u' = if u.id = l.id then l.saveOnto n u else u := by
  rw [husers] at hu'
  obtain ⟨v, hv, rfl⟩ := List.mem_map.mp hu'
  have hvid : v.id = u.id := by
    split at hid
    · exact hid
    · exact hid
  rw [user_eq_of_id hv hu hvid]

/-- Where everyone is careful, a user who gets another password gets a later version, and loses the
remember-me tokens. -/
theorem Replaced.raises {consumed ids ids' : List ℕ}
    (h : Replaced rt careful password l consumed ids ids' d d') (hc : careful) (hu : u ∈ d.users)
    (hu' : u' ∈ d'.users) (hid : u'.id = u.id) (hne : u'.passwordHash ≠ u.passwordHash) :
    u.authVersion < u'.authVersion ∧ ∀ r ∈ d'.rememberMeTokens, r.tokenableId ≠ u.id := by
  obtain ⟨hash, -, husers⟩ := h.users
  obtain rfl := saved_user husers hu hu' hid
  by_cases hl : u.id = l.id
  · obtain ⟨v, hv, hvid, hversion, -⟩ := h.unchanged hc
    obtain rfl := user_eq_of_id hu hv (hl.trans hvid.symm)
    refine ⟨?_, fun r hr hrid => ?_⟩
    · rw [if_pos hl]
      change u.authVersion < dirty l.authVersion (l.authVersion + 1) u.authVersion
      rw [dirty, if_neg (by omega)]
      omega
    · rw [h.rememberMeTokens] at hr
      obtain ⟨hmem, hkept⟩ := List.mem_filter.mp hr
      have hcontains : ids'.contains r.id = true := by
        simpa using h.purged hc r hmem (hrid.trans hl)
      rw [decide_eq_true (hrid.trans hl), hcontains] at hkept
      cases hkept
  · rw [if_neg hl] at hne
    exact absurd rfl hne

/-- A save that leaves the password leaves every password. -/
theorem Saved.passwords (h : Saved l n d d') (hu : u ∈ d.users) (hu' : u' ∈ d'.users)
    (hid : u'.id = u.id) : u'.passwordHash = u.passwordHash := by
  obtain rfl := saved_user h.users hu hu' hid
  split
  · exact dirty_same h.password
  · rfl

/-- So does whatever is published. -/
theorem Request.Publishes.raises {request : Request} {now : ℤ}
    (h : request.Publishes rt careful now d d') (hc : careful) (hu : u ∈ d.users)
    (hu' : u' ∈ d'.users) (hid : u'.id = u.id) (hne : u'.passwordHash ≠ u.passwordHash) :
    u.authVersion < u'.authVersion ∧ ∀ r ∈ d'.rememberMeTokens, r.tokenableId ≠ u.id := by
  have hsame : d'.users ≠ d.users := fun husers =>
    hne (congrArg User.passwordHash (user_eq_of_id (husers ▸ hu') hu hid))
  cases request with
  | sendPasswordResetLink mailEnabled email =>
    obtain ⟨_, _, _, _, _, _, husers, _⟩ := h
    exact absurd husers hsame
  | verifyResetToken token => exact h.elim
  | updatePasswordByToken token password =>
    obtain ⟨_, _, _, _, user, ids, ids', _, _, _, h⟩ := h
    exact h.raises hc hu hu' hid hne
  | resetPassword id currentUserId =>
    obtain ⟨user, password, ids, ids', _, h⟩ := h
    exact h.raises hc hu hu' hid hne
  | changePassword id currentPassword newPassword =>
    obtain ⟨user, ids, ids', _, h⟩ := h
    exact h.raises hc hu hu' hid hne
  | toggleActiveUser id currentUserId =>
    obtain ⟨l, n, _, h⟩ := h
    exact absurd (h.passwords hu hu' hid) hne
  | updateUser id fullName =>
    obtain ⟨l, n, _, h⟩ := h
    exact absurd (h.passwords hu hu' hid) hne
  | updateAppearance id theme accentColor =>
    obtain ⟨l, n, _, h⟩ := h
    exact absurd (h.passwords hu hu' hid) hne
  | store email password rememberMe => exact absurd h.1 hsame
  | authenticate session cookie => exact absurd h.1 hsame

end replaced

/-! ## The middleware -/

section middleware

variable {rt : Runtime} {careful : Prop} {ok : Guard (machine rt)} {j : ℕ}
  {G : ℕ → State → State → Prop}

/-- A session that is never valid is not let through. -/
theorem ends_authenticate_session {s : Session} {cookie : Option (ℕ × String)}
    (hok : ∀ (i : ℕ) t ch (σ : State), ok i t ch σ → ∀ u ∈ σ.server.db.users, s.valid u = false) :
    Ends rt careful ok G j (Holds j none [] fun _ _ => True)
      (Request.program rt (.authenticate (some s) cookie)) fun reply => Holds j none [] fun _ _ =>
        reply = .admitted none := by
  refine ends_bind (B := fun admitted => Holds j none [] fun _ _ => admitted = none) ?_
    fun admitted => ends_ret (.const _) fun σ h => h.mono fun d w h => by rw [h]
  refine ends_select_run (B := fun user _ _ => user.any s.valid = false) (.const True) ?_
    fun user => ends_ret (.const _) fun σ h => h.mono fun d w h => by rw [h]; rfl
  intro σ t φ _ h
  rw [Option.any_eq_false]
  exact fun u hu => hok _ _ _ _ h u (List.mem_of_find?_eq_some hu)

/-- A remember-me token that is never there is not let through. -/
theorem ends_authenticate_cookie {id : ℕ} {secret : String}
    (hok : ∀ (i : ℕ) t ch (σ : State), ok i t ch σ →
      ∀ r ∈ σ.server.db.rememberMeTokens, r.id ≠ id) :
    Ends rt careful ok G j (Holds j none [] fun _ _ => True)
      (Request.program rt (.authenticate none (some (id, secret)))) fun reply =>
        Holds j none [] fun _ _ => reply = .admitted none := by
  refine ends_bind (B := fun admitted => Holds j none [] fun _ _ => admitted = none) ?_
    fun admitted => ends_ret (.const _) fun σ h => h.mono fun d w h => by rw [h]
  refine ends_call_same (c := .now) (.const True) (fun _ _ _ _ _ h _ => h) fun now : ℤ => ?_
  refine ends_select_run (B := fun token _ _ => token = none) (.const True) ?_ fun token => ?_
  · intro σ t φ _ h
    rw [List.find?_eq_none]
    intro r hr htest
    simp only [Bool.and_eq_true, decide_eq_true_eq] at htest
    exact hok _ _ _ _ h r hr htest.1.1
  · cases token with
    | none => exact ends_ret (.const _) fun σ h => h.mono fun _ _ _ => rfl
    | some token =>
      refine Triple.mono (A := Holds j none [] fun _ _ => False) ?_ (fun σ h => h.mono fun d w h =>
        by cases h) (fun _ _ h => h) fun _ _ h => h
      exact committing_absurd (fun _ _ hgone => ⟨fun h => (by cases hgone.symm.trans h),
        fun h => by cases hgone.symm.trans h⟩) fun _ _ _ => trivial

end middleware

/-! ## Runs -/

section runs

variable {rt : Runtime} {requests : List Request} {d : Db} {w : Outside} {i j : ℕ}
  {c c' c'' : Config (machine rt) (Failure String) Reply} {request : Request} {reply : Reply}

/-- The requests keep to what they should publish, in a run where nobody acts on what is out of
date. -/
theorem settled_sound (hr : Config.Run (Settled rt) (start rt requests d w) c) :
    Sound (Settled rt) ((terms rt True).committing (Published rt True requests))
      (Granted rt True requests) (fun _ _ _ => True) c :=
  credential_sound (fun _ _ _ _ _ h => h) d w hr

/-- What was granted to a client lasts. -/
theorem granted_lasts (hr : Config.Run (Settled rt) (start rt requests d w) c)
    (hi : requests[i]? = some request) (hreply : c.pool[i]? = some (.ret reply))
    (hgone : c.state.server.gone i = false) (hrest : c.Run (Settled rt) c') :
    request.Grants rt i c'.state.server.db c'.state.world reply := by
  have hsound := settled_sound hr
  have hcompatible := Terms.committing_compatible (terms rt True) (Published rt True requests)
  have hgrants := hsound.returned hcompatible hreply hgone trivial request hi
  have hreply' := Config.ret_of_run hreply hrest
  exact hgrants.stable (hsound.waits hcompatible hrest hreply hreply').2 trivial

/-- A request that has not started is in no transaction. -/
theorem holds_waiting (hr : Config.Run (Settled rt) (start rt requests d w) c)
    (hj : requests[j]? = some request) (hwaits : c.pool[j]? = some (request.program rt)) :
    Holds j none [] (fun _ _ => True) c.state := by
  have hcompatible := Terms.committing_compatible (terms rt True) (Published rt True requests)
  have hstart : (start rt requests d w).pool[j]? = some (request.program rt) := by
    rw [start, List.getElem?_map, hj]
    rfl
  have hrely := (settled_sound .refl).waits hcompatible hr hstart hwaits
  exact Terms.Fact.stable (T := terms rt True) (.const True) _ _ hrely (holds_idle j trivial)

/-- What a request that starts later ends in, given what holds throughout. -/
theorem later_request {P : State → Prop} (hr : Config.Run (Settled rt) (start rt requests d w) c)
    (hj : requests[j]? = some request) (hwaits : c.pool[j]? = some (request.program rt))
    (hrest : c.Run (fun i s ch σ => Settled rt i s ch σ ∧ P σ) c') {R : Reply → Prop}
    (hends : Ends rt True (fun i s ch σ => Settled rt i s ch σ ∧ P σ) (Published rt True requests) j
      (Holds j none [] fun _ _ => True) (request.program rt)
      fun reply => Holds j none [] fun _ _ => R reply)
    (hreply : c'.pool[j]? = some (.ret reply)) (hgone : c'.state.server.gone j = false) :
    R reply := by
  have hcompatible := Terms.committing_compatible (terms rt True) (Published rt True requests)
  have hsound := settled_sound hr
  have hstart := hends _ hsound.1 (holds_waiting hr hj hwaits)
  have hend := (hsound.refocus (fun _ _ _ _ h => h.1) hwaits hstart).run hcompatible hrest
  have hself := congrFun (congrFun (Function.update_self j
    (fun reply => Holds (D := schema) j none [] fun _ (_ : Outside) => R reply)
    (Granted rt True requests)) reply) c'.state
  exact ((hself.mp (hend.returned hcompatible hreply)).2 hgone).2

/-- A request that is let through with a session has met the session while it was valid. -/
theorem session_met (hr : Config.Run (Settled rt) (start rt requests d w) c) {s s' : Session}
    {cookie : Option (ℕ × String)} (hj : requests[j]? = some (.authenticate (some s) cookie))
    (hwaits : c.pool[j]? = some (Request.program rt (.authenticate (some s) cookie)))
    (hrest : c.Run (Settled rt) c') (hreply : c'.pool[j]? = some (.ret (.admitted (some s'))))
    (hgone : c'.state.server.gone j = false) :
    ∃ c₁, c.Run (Settled rt) c₁ ∧ c₁.Run (Settled rt) c' ∧
      ∃ u ∈ c₁.state.server.db.users, s.valid u = true := by
  by_contra hnone
  have hnever : ∀ c₁, c.Run (Settled rt) c₁ → c₁.Run (Settled rt) c' →
      ∀ u ∈ c₁.state.server.db.users, s.valid u = false := by
    intro c₁ h₁ h₂ u hu
    rw [← Bool.not_eq_true]
    exact fun hvalid => hnone ⟨c₁, h₁, h₂, u, hu, hvalid⟩
  have hrefused := later_request hr hj hwaits
    (hrest.throughout (P := fun σ : State => ∀ u ∈ σ.server.db.users, s.valid u = false) hnever)
    (ends_authenticate_session fun _ _ _ _ h => h.2) hreply hgone
  cases hrefused

/-- A request that is let through with a remember-me token has met a token with its identifier. -/
theorem cookie_met (hr : Config.Run (Settled rt) (start rt requests d w) c) {id : ℕ}
    {secret : String} {s' : Session}
    (hj : requests[j]? = some (.authenticate none (some (id, secret))))
    (hwaits : c.pool[j]? = some (Request.program rt (.authenticate none (some (id, secret)))))
    (hrest : c.Run (Settled rt) c') (hreply : c'.pool[j]? = some (.ret (.admitted (some s'))))
    (hgone : c'.state.server.gone j = false) :
    ∃ c₁, c.Run (Settled rt) c₁ ∧ c₁.Run (Settled rt) c' ∧
      ∃ r ∈ c₁.state.server.db.rememberMeTokens, r.id = id := by
  by_contra hnone
  have hnever : ∀ c₁, c.Run (Settled rt) c₁ → c₁.Run (Settled rt) c' →
      ∀ r ∈ c₁.state.server.db.rememberMeTokens, r.id ≠ id :=
    fun c₁ h₁ h₂ r hr hid => hnone ⟨c₁, h₁, h₂, r, hr, hid⟩
  have hrefused := later_request hr hj hwaits
    (hrest.throughout (P := fun σ : State => ∀ r ∈ σ.server.db.rememberMeTokens, r.id ≠ id) hnever)
    (ends_authenticate_cookie fun _ _ _ _ h => h.2) hreply hgone
  cases hrefused

end runs

/-- Whether a run may perform a statement. -/
def testSettled (rt : Runtime) :
    ℕ → Action schema calls → (machine rt).Choice → (machine rt).State → Bool
  | _, .db (.write (.saveUser l n)), _, σ =>
    n.authVersion = l.authVersion || σ.server.db.users.any fun u =>
      u.id = l.id && u.authVersion = l.authVersion && u.passwordHash = l.passwordHash
  | _, .db (.write (.insertRememberMeToken user _)), _, σ =>
    (σ.server.db.users.any fun u =>
      u.id = user.id && u.authVersion = user.authVersion && u.passwordHash = user.passwordHash) &&
      (σ.server.owner (.user user.id)).isNone
  | _, _, _, _ => true

/-- The test of a user is that the user is as it was read. -/
theorem unchanged_of_any {user : User} {d : Db}
    (h : (d.users.any fun u => u.id = user.id && u.authVersion = user.authVersion &&
      u.passwordHash = user.passwordHash) = true) : Unchanged user d := by
  obtain ⟨u, hu, htest⟩ := List.any_eq_true.mp h
  simp only [Bool.and_eq_true, decide_eq_true_eq] at htest
  exact ⟨u, hu, htest.1.1, htest.1.2, htest.2⟩

/-- What passes the test is not out of date. -/
theorem settled_of_test {rt : Runtime} (i : ℕ) (s : Action schema calls) (ch : (machine rt).Choice)
    (σ : (machine rt).State) (h : testSettled rt i s ch σ = true) : Settled rt i s ch σ := by
  cases s with
  | db s =>
    cases s with
    | write w =>
      cases w with
      | saveUser l n =>
        rcases Bool.or_eq_true_iff.mp h with hsame | hany
        · exact .inl (of_decide_eq_true hsame)
        · exact .inr (unchanged_of_any hany)
      | insertRememberMeToken user r =>
        obtain ⟨hany, hnobody⟩ := Bool.and_eq_true_iff.mp h
        exact ⟨unchanged_of_any hany, Option.isNone_iff_eq_none.mp hnobody⟩
      | _ => trivial
    | _ => trivial
  | _ => trivial

/-- A user signs in and changes the password. -/
def changeRequests : List Request :=
  [.store "a@b.c" "old password" true, .changePassword "u" "old password" "a new password"]

/-- The moves of the login. -/
def loginEvents : List (Config.Event (machine plainRuntime)) :=
  [.thread 0 (.db .none), .thread 0 (.ext (.text "s")), .thread 0 (.ext .done),
    .thread 0 (.ext (.number 1)), .thread 0 (.db .none)]

/-- The moves of the change. -/
def changeEvents : List (Config.Event (machine plainRuntime)) :=
  [.thread 1 (.db .none), .thread 1 (.db .none), .thread 1 (.ext (.text "hash a new password")),
    .thread 1 (.db .none), .thread 1 (.db .none), .thread 1 (.db .none), .thread 1 (.db .none),
    .thread 1 (.db .none)]

/-- What the login returned. -/
def loginReply : Option Reply → Option (Session × RememberMeToken)
  | some (.login s (some r)) => some (s, r)
  | _ => none

end Reeva.Users.Credentials
