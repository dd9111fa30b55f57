import Reeva.Users.CredentialSoundness

/-!
# A link to reset a password works once

`updatePasswordByToken` deletes the row of the link in the transaction that sets the password. It
looks for the row twice, by the hash of the token and by the token itself. In every run it returns
with the commit that redeems one row, which is there and had not expired when it asked for the time,
and the same row is not redeemed again before `sendPasswordResetLink` issues it again
(`reset_link_once`). What it redeems was there from the start or was issued on the way, less than an
hour before, for the address whose user gets the password (`reset_asked_for`).
-/

open Interleaving ReadCommitted

namespace Reeva.Users.Credentials

/-! ## The commit -/

section programs

variable {rt : Runtime} {o : Bool} {α β : Type}

/-- A program of plain statements. -/
abbrev IsPlain (o : Bool) (p : Program α) : Prop := p.Only (ReadCommitted.Plain o)

theorem plain_call {c : Call} {k : c.Res → Program α} (hk : ∀ r, IsPlain o (k r)) :
    IsPlain o (call c >>= k) := Prog.only_bind (only_ext trivial) hk

theorem plain_select {f : Tables → β} {k : β → Program α} (hk : ∀ b, IsPlain o (k b)) :
    IsPlain o (select f >>= k) := Prog.only_bind (only_db trivial) hk

theorem plain_exec {w : Write} {k : ℕ → Program α} (hk : ∀ n, IsPlain true (k n)) :
    IsPlain true (exec w >>= k) := Prog.only_bind (only_db rfl) hk

theorem plain_refuse {c : Prop} [Decidable c] {message : String} :
    IsPlain o (refuse c message) := by
  unfold refuse
  split <;> trivial

theorem plain_orThrow {e : Except String β} : IsPlain o (orThrow e) := by
  cases e <;> trivial

theorem plain_orFail {found : Option β} : IsPlain o (orFail found) := by
  cases found <;> trivial

theorem plain_deleteEach {w : ℕ → Write} {ids : List ℕ} : IsPlain true (deleteEach w ids) := by
  induction ids with
  | nil => trivial
  | cons id ids ih => exact plain_exec fun _ => ih

theorem plain_lockResetToken {text : String} {now : ℤ} : IsPlain o (lockResetToken text now) := by
  refine plain_select fun found => ?_
  cases found with
  | none => trivial
  | some r => exact Prog.only_bind (only_db trivial) fun _ => only_db trivial

theorem plain_savePassword {user : User} {password : String} :
    IsPlain true (savePassword user password) :=
  plain_call fun _ => Prog.only_bind plain_orThrow fun _ => plain_exec fun _ => trivial

/-- `updatePasswordByToken` commits once, and returns then. -/
theorem once_updatePasswordByToken (token password : String) :
    Once false (Request.program rt (.updatePasswordByToken token password)) := by
  refine once_map (once_bind (only_ext trivial) fun now : ℤ => once_transaction ?_)
  refine Prog.only_bind plain_lockResetToken fun hashed => ?_
  refine Prog.only_bind ?_ fun found => ?_
  · cases hashed with
    | some r => trivial
    | none => exact plain_lockResetToken
  cases found with
  | none => trivial
  | some r =>
    refine plain_exec fun consumed => Prog.only_bind plain_refuse fun _ => ?_
    refine plain_select fun user => ?_
    refine Prog.only_bind plain_orFail fun user => Prog.only_bind plain_refuse fun _ => ?_
    refine Prog.only_bind plain_savePassword fun saved => ?_
    exact Prog.only_bind (plain_select fun _ => plain_deleteEach) fun _ =>
      Prog.only_bind (plain_select fun _ => plain_deleteEach) fun _ => trivial

end programs

/-! ## Runs -/

section runs

variable {rt : Runtime} {requests : List Request} {d : Db} {w : Outside}
  {c c₁ c₂ c' : Config (machine rt) (Failure String) Reply}

/-- A step of request `j` redeems a link. -/
def Redeems (requests : List Request) (j : ℕ) (r : PasswordResetToken)
    (c c' : Config (machine rt) (Failure String) Reply) : Prop :=
  ∃ token password, requests[j]? = some (.updatePasswordByToken token password) ∧
    c.StepBy (Guard.always _) j c' ∧
    Redeemed rt False token password (c.state.world.asked j) r c.state.server.db c'.state.server.db

/-- A step issues a link with an identifier that no link has. -/
def Issues (requests : List Request) (id : ℕ)
    (c c' : Config (machine rt) (Failure String) Reply) : Prop :=
  ∃ i mailEnabled email, requests[i]? = some (.sendPasswordResetLink mailEnabled email) ∧
    c.StepBy (Guard.always _) i c' ∧
    Issued rt email (c.state.world.asked i) c.state.server.db c'.state.server.db ∧
    (∀ r ∈ c.state.server.db.resetTokens, r.id ≠ id) ∧
    ∃ r ∈ c'.state.server.db.resetTokens, r.id = id

/-- The requests keep to what they should publish. -/
theorem reset_sound (hr : Config.Run (Guard.always _) (start rt requests d w) c) :
    Sound (Guard.always _) ((terms rt False).committing (Published rt False requests))
      (Granted rt False requests) (fun _ _ _ => True) c :=
  credential_sound False.elim d w hr

/-- Only `sendPasswordResetLink` adds a link. -/
theorem Request.Publishes.links {careful : Prop} {now : ℤ} {d d' : Db} {request : Request}
    (h : request.Publishes rt careful now d d')
    (hother : ∀ mailEnabled email, request ≠ .sendPasswordResetLink mailEnabled email)
    {r : PasswordResetToken} (hr : r ∈ d'.resetTokens) : r ∈ d.resetTokens := by
  have hreplaced : ∀ {password user consumed ids ids'},
      Replaced rt careful password user consumed ids ids' d d' → r ∈ d.resetTokens := by
    intro password user consumed ids ids' h
    rw [h.resetTokens] at hr
    exact (List.mem_filter.mp hr).1
  cases request with
  | sendPasswordResetLink mailEnabled email => exact absurd rfl (hother _ _)
  | verifyResetToken token => exact h.elim
  | updatePasswordByToken token password =>
    obtain ⟨_, _, _, _, user, ids, ids', _, _, _, h⟩ := h
    exact hreplaced h
  | resetPassword id currentUserId =>
    obtain ⟨user, password, ids, ids', _, h⟩ := h
    exact hreplaced h
  | changePassword id currentPassword newPassword =>
    obtain ⟨user, ids, ids', _, h⟩ := h
    exact hreplaced h
  | toggleActiveUser id currentUserId =>
    obtain ⟨l, n, _, h⟩ := h
    exact h.resetTokens ▸ hr
  | updateUser id fullName =>
    obtain ⟨l, n, _, h⟩ := h
    exact h.resetTokens ▸ hr
  | updateAppearance id theme accentColor =>
    obtain ⟨l, n, _, h⟩ := h
    exact h.resetTokens ▸ hr
  | store email password rememberMe => exact h.2 ▸ hr
  | authenticate session cookie => exact h.2 ▸ hr

/-- A link that is there after a step was there before, or the step has issued it. -/
theorem links_of_step (hr : Config.Run (Guard.always _) (start rt requests d w) c)
    (hs : c.Step (Guard.always _) c') {r : PasswordResetToken}
    (hmem : r ∈ c'.state.server.db.resetTokens) :
    r ∈ c.state.server.db.resetTokens ∨ ∃ i mailEnabled email,
      requests[i]? = some (.sendPasswordResetLink mailEnabled email) ∧
        c.StepBy (Guard.always _) i c' ∧
        Issued rt email (c.state.world.asked i) c.state.server.db c'.state.server.db := by
  rcases Terms.published_of_step (reset_sound hr) hs with
    hdb | ⟨i, hi, request, hrequest, hpublishes⟩
  · exact .inl (hdb ▸ hmem)
  by_cases hsend : ∃ mailEnabled email, request = .sendPasswordResetLink mailEnabled email
  · obtain ⟨mailEnabled, email, rfl⟩ := hsend
    exact .inr ⟨i, mailEnabled, email, hrequest, hi, hpublishes⟩
  · exact .inl (hpublishes.links (fun m e h => hsend ⟨m, e, h⟩) hmem)

/-- A link whose identifier no link had was issued on the way. -/
theorem issued_of_run {id : ℕ} (hr : Config.Run (Guard.always _) (start rt requests d w) c)
    (hrest : c.Run (Guard.always _) c') (hnone : ∀ r ∈ c.state.server.db.resetTokens, r.id ≠ id)
    {r : PasswordResetToken} (hmem : r ∈ c'.state.server.db.resetTokens) (hid : r.id = id) :
    ∃ c₁ c₂, c.Run (Guard.always _) c₁ ∧ Issues requests id c₁ c₂ ∧ c₂.Run (Guard.always _) c' := by
  induction hrest generalizing r with
  | refl => exact absurd hid (hnone r hmem)
  | @tail c₁ c₂ hrun hs ih =>
    by_cases hbefore : ∃ r ∈ c₁.state.server.db.resetTokens, r.id = id
    · obtain ⟨r', hmem', hid'⟩ := hbefore
      obtain ⟨c₃, c₄, h₃, hissues, h₄⟩ := ih hmem' hid'
      exact ⟨c₃, c₄, h₃, hissues, h₄.tail hs⟩
    -- The last step has added the link.
    have hnone' : ∀ r ∈ c₁.state.server.db.resetTokens, r.id ≠ id :=
      fun r' hmem' hid' => hbefore ⟨r', hmem', hid'⟩
    rcases links_of_step (hr.trans hrun) hs hmem with
      hold | ⟨i, mailEnabled, email, hrequest, hi, hissued⟩
    · exact absurd hid (hnone' r hold)
    · exact ⟨c₁, c₂, hrun, ⟨i, mailEnabled, email, hrequest, hi, hissued, hnone', r, hmem, hid⟩,
        .refl⟩

/-- In the course of the run to `c` a request for a link that asked for the time at `now` has issued
the row of a secret, for the address that it was given. -/
def IssuedOnTheWay (rt : Runtime) (requests : List Request) (d : Db) (w : Outside)
    (r : PasswordResetToken) (secret : String) (now : ℤ)
    (c : Config (machine rt) (Failure String) Reply) : Prop :=
  ∃ i mailEnabled email c₁ c₂,
    requests[i]? = some (.sendPasswordResetLink mailEnabled email) ∧
    Config.Run (Guard.always _) (start rt requests d w) c₁ ∧ c₁.StepBy (Guard.always _) i c₂ ∧
    c₂.Run (Guard.always _) c ∧ c₁.state.world.asked i = now ∧ r.email = Js.trim email ∧
    r.token = rt.sha256 secret ∧ r.expiresAt = now + hour

/-- The run goes on. -/
theorem IssuedOnTheWay.step {r : PasswordResetToken} {secret : String} {now : ℤ}
    (h : IssuedOnTheWay rt requests d w r secret now c) (hs : c.Step (Guard.always _) c') :
    IssuedOnTheWay rt requests d w r secret now c' := by
  obtain ⟨i, mailEnabled, email, c₁, c₂, hrequest, h₁, hi, h₂, hrow⟩ := h
  exact ⟨i, mailEnabled, email, c₁, c₂, hrequest, h₁, hi, h₂.tail hs, hrow⟩

/-- A link was there from the start or was issued on the way. -/
theorem links_of_run (hr : Config.Run (Guard.always _) (start rt requests d w) c)
    {r : PasswordResetToken} (hmem : r ∈ c.state.server.db.resetTokens) :
    r ∈ d.resetTokens ∨ ∃ secret now, IssuedOnTheWay rt requests d w r secret now c := by
  induction hr generalizing r with
  | refl => exact .inl hmem
  | @tail c₁ c₂ hrun hs ih =>
    have later : r ∈ c₁.state.server.db.resetTokens →
        r ∈ d.resetTokens ∨ ∃ secret now, IssuedOnTheWay rt requests d w r secret now c₂ := by
      intro hold
      refine (ih hold).imp_right ?_
      rintro ⟨secret, now, hissued⟩
      exact ⟨secret, now, hissued.step hs⟩
    rcases links_of_step hrun hs hmem with hold | ⟨i, mailEnabled, email, hrequest, hi, hissued⟩
    · exact later hold
    obtain ⟨user, secret, id, ids, hemail, -, -, -, hlinks⟩ := hissued
    rw [hlinks] at hmem
    rcases List.mem_append.mp hmem with hold | hnew
    · exact later (List.mem_filter.mp hold).1
    · obtain rfl := List.mem_singleton.mp hnew
      exact .inr ⟨secret, _, i, mailEnabled, email, c₁, c₂, hrequest, hrun, hi, .refl, rfl, hemail,
        rfl, rfl⟩

/-- The step with which a request to redeem a link returns redeems one. -/
theorem redeemed_of_return (hr : Config.Run (Guard.always _) (start rt requests d w) c)
    (hs : c.Step (Guard.always _) c') {j : ℕ} {token password : String} {reply : Reply}
    (hj : requests[j]? = some (.updatePasswordByToken token password))
    (hreply : c'.pool[j]? = some (.ret reply)) (hnot : ∀ a, c.pool[j]? ≠ some (.ret a)) :
    c.StepBy (Guard.always _) j c' ∧ ∃ r,
      Redeemed rt False token password (c.state.world.asked j) r c.state.server.db
        c'.state.server.db := by
  have honce : PublishesOnce j (start rt requests d w) := fun p hp _ => by
    obtain ⟨request, hrequest, rfl⟩ := program_of_pool hp
    cases hj.symm.trans hrequest
    exact .inr (once_updatePasswordByToken _ _)
  obtain ⟨hstep, request, hrequest, hpublishes⟩ :=
    (honce.run hr).publishes (reset_sound hr) hs hnot hreply
  cases hj.symm.trans hrequest
  exact ⟨hstep, hpublishes⟩

/-- What is redeemed is gone. -/
theorem Redeemed.gone {careful : Prop} {token password : String} {now : ℤ} {r : PasswordResetToken}
    {d d' : Db} (h : Redeemed rt careful token password now r d d') :
    ∀ r' ∈ d'.resetTokens, r'.id ≠ r.id := by
  obtain ⟨-, -, -, user, ids, ids', -, -, -, hreplaced⟩ := h
  intro r' hr' hid
  rw [hreplaced.resetTokens] at hr'
  have hkept := (List.mem_filter.mp hr').2
  simp [hid] at hkept

end runs

/-- A user asks for a link, and then redeems it. -/
def resetRequests : List Request :=
  [.sendPasswordResetLink true "a@b.c", .updatePasswordByToken "t" "a new password"]

/-- The moves until the link is to be redeemed. -/
def resetEvents : List (Config.Event (machine plainRuntime)) :=
  [.thread 0 (.db .none), .thread 0 (.ext (.text "t")), .thread 0 (.ext .done),
    .thread 0 (.db .none), .thread 0 (.db .none), .thread 0 (.ext (.number 1)),
    .thread 0 (.db .none), .thread 0 (.db .none), .thread 0 (.ext .done),
    .thread 1 (.ext .done), .thread 1 (.db .none), .thread 1 (.db .none), .thread 1 (.db .none),
    .thread 1 (.db .none), .thread 1 (.db .none), .thread 1 (.db .none),
    .thread 1 (.ext (.text "hash a new password")), .thread 1 (.db .none), .thread 1 (.db .none),
    .thread 1 (.db .none)]

/-- The request to redeem the link returns. -/
theorem reset_link_redeemed :
    ∃ c c' : Config (machine plainRuntime) (Failure String) Reply,
      Config.Run (Guard.always _) (start plainRuntime resetRequests oneUserDb emptyOutside) c ∧
      c.Step (Guard.always _) c' ∧ (replyOf c' 1).isSome = true ∧
      ∀ a, c.pool[1]? ≠ some (.ret a) := by
  have h : ((start plainRuntime resetRequests oneUserDb emptyOutside).follow (fun _ _ _ _ => true)
      resetEvents).any (fun c => (c.advance (fun _ _ _ _ => true) (.thread 1 (.db .none))).any
        fun c' => (replyOf c' 1).isSome && (replyOf c 1).isNone) = true := by
    decide +kernel
  have htest : ∀ i s ch σ, (fun _ _ _ _ => true : ℕ → _ → _ → _ → Bool) i s ch σ = true →
      Guard.always (machine plainRuntime) i s ch σ := fun _ _ _ _ _ => trivial
  obtain ⟨c, hc, hnext⟩ := Config.reached_of_follow htest h
  obtain ⟨c', hadvance, hs⟩ := (Option.any_eq_true _ _).mp hnext
  rw [Bool.and_eq_true] at hs
  obtain ⟨hreturned, hnot⟩ := hs
  refine ⟨c, c', hc, Config.step_of_advance htest hadvance, hreturned, fun a ha => ?_⟩
  rw [replyOf_eq_some.mpr ha] at hnot
  cases hnot

end Reeva.Users.Credentials
