import Reeva.Interleaving.Alone
import Reeva.Users.UserService

/-!
# Finding a user by the address

`createUser` stores an address in lower case, and the CMS then shows the address as it was typed.
The login and the reset of a password look for the typed text, trimmed: they find the new user
exactly when `toLowerCase` leaves the address as it is.
-/

open Interleaving ReadCommitted

namespace Reeva.Users

/-! ## Requests that run alone -/

section rules

variable {ok : Guard machine} {i : ℕ} {α β : Type} {tx : Option (List Write)} {d : Db}
  {Q : α → Option (List Write) → Db → Prop} {P : Prop}

/-- A request that ends as `Q` and `P` say when nobody else moves. -/
abbrev UsersAlone (ok : Guard machine) (i : ℕ) (tx : Option (List Write)) (d : Db) (p : Program α)
    (Q : α → Option (List Write) → Db → Prop) (P : Prop) : Prop :=
  Alone (D := schema) (X := world) ok i tx d p Q P

/-- A query outside of a transaction. -/
theorem alone_select {f : Tables → β} {k : β → Program α}
    (h : UsersAlone ok i none d (k (f d.toTables)) Q P) :
    UsersAlone ok i none d (select f >>= k) Q P :=
  Alone.query (f := fun d : schema.Db => f (Db.toTables d)) h

/-- A check. -/
theorem alone_refuse {c : Prop} [Decidable c] {message : String} {k : Unit → Program α}
    (h : ¬c → UsersAlone ok i tx d (k ()) Q P) :
    UsersAlone ok i tx d (refuse c message >>= k) Q P := by
  unfold refuse
  split
  · exact Alone.raise
  · exact h ‹_›

/-- A computation that may throw. -/
theorem alone_orThrow {e : Except String β} {k : β → Program α}
    (h : ∀ b, e = .ok b → UsersAlone ok i tx d (k b) Q P) :
    UsersAlone ok i tx d (orThrow e >>= k) Q P := by
  cases e with
  | ok b => exact h b rfl
  | error message => exact Alone.raise

/-- A call, whatever it returns. -/
theorem alone_call {c : Call} {k : c.Res → Program α}
    (h : ∀ r : c.Res, UsersAlone ok i tx d (k r) Q P) :
    UsersAlone ok i tx d (call c >>= k) Q P :=
  Alone.ext (E := calls) (X := world) (e := c) fun r _ => h r

end rules

/-! ## What a new user is stored as -/

/-- An address has no white space, so there is nothing to trim. -/
theorem trim_of_isEmail {email : String} (h : isEmail email = true) : Js.trim email = email := by
  have hspace : ∀ c ∈ email.toList, Js.isSpace c = false := by
    intro c hc
    have hall := List.all_eq_true.mp (Bool.and_eq_true_iff.mp h).1 c hc
    simpa using hall
  rw [Js.trim, Js.strip_of_forall hspace, String.ofList_toList]

/-- The address that `createUser` lets through is one. -/
theorem UserService.isEmail_of_validateEmail {typed email : String}
    (h : UserService.validateEmail (some (.str typed)) = .ok email) :
    email = typed ∧ isEmail typed = true := by
  change (if isEmail typed = false ∨ 255 < Js.length typed then
    Except.error "Please enter a valid email address." else .ok typed) = .ok email at h
  by_cases hbad : isEmail typed = false ∨ 255 < Js.length typed
  · rw [if_pos hbad] at h
    cases h
  · rw [if_neg hbad] at h
    rw [not_or, Bool.not_eq_false] at hbad
    exact ⟨(Except.ok.inj h).symm, hbad.1⟩

section created

variable {node : Node} {ok : Guard machine} {i : ℕ} {d : Db} {typed : String} {fullName : Input}

/-- A user who was created is stored under the address in lower case. -/
theorem createUser_stores {w : ℕ} {result : String × String} {σ' : State}
    (h : Completes (X := world) ok i (UserService.createUser node (some (.str typed)) fullName)
      ⟨Server.idle d, w⟩ (.ok result) σ') :
    isEmail typed = true ∧ ∃ user, σ'.server.db.users = d.users ++ [user] ∧
      user.email = node.toLowerCase typed ∧ user.email = result.1 ∧ user.deletedAt = none := by
  have halone : UsersAlone ok i none d
      (UserService.createUser node (some (.str typed)) fullName)
      (fun result _ d' => isEmail typed = true ∧ ∃ user, d'.users = d.users ++ [user] ∧
        user.email = node.toLowerCase typed ∧ user.email = result.1 ∧ user.deletedAt = none)
      True := by
    refine alone_orThrow fun email hemail => ?_
    obtain ⟨rfl, hvalid⟩ := UserService.isEmail_of_validateEmail hemail
    refine alone_orThrow fun fullName _ => ?_
    dsimp only
    rw [trim_of_isEmail hvalid]
    -- The remaining statements read, ask the outside world, and insert the user.
    refine alone_select (alone_refuse fun _ => alone_call fun password => alone_call fun hashed =>
      alone_orThrow fun passwordHash _ => alone_call fun id => ?_)
    refine Alone.autocommit (fun _ => trivial) fun n d' happ => Alone.ret ?_
    have htables := (apply_tables happ).2
    exact ⟨hvalid, _, congrArg Tables.users htables, rfl, rfl, rfl⟩
  exact (halone.completes h).1 result rfl

/-- The login and the reset of a password find the user who was created, by the address that was
typed, exactly when `toLowerCase` does not change it. -/
theorem created_user_found_iff {w : ℕ} {result : String × String} {σ' : State}
    (h : Completes (X := world) ok i (UserService.createUser node (some (.str typed)) fullName)
      ⟨Server.idle d, w⟩ (.ok result) σ') :
    ∃ user, σ'.server.db.users = d.users ++ [user] ∧ user.email = result.1 ∧
      ((loginUser σ'.server.db.toTables typed = some user ∧
        resetUser σ'.server.db.toTables typed = some user) ↔ node.toLowerCase typed = typed) := by
  obtain ⟨hvalid, user, husers, hemail, hresult, hdeleted⟩ := createUser_stores h
  refine ⟨user, husers, hresult, ?_⟩
  have hmem : user ∈ σ'.server.db.users := by
    rw [husers]
    exact List.mem_append_right _ (.head _)
  -- Both lookups are for the typed address.
  have hlogin : loginUser σ'.server.db.toTables typed =
      σ'.server.db.toTables.findByEmail typed := by
    rw [loginUser, trim_of_isEmail hvalid]
    rfl
  have hreset : resetUser σ'.server.db.toTables typed =
      σ'.server.db.toTables.findByEmail typed := by
    rw [resetUser, trim_of_isEmail hvalid]
  rw [hlogin, hreset, and_self, σ'.server.db.valid.findByEmail_eq_some_iff, ← hemail]
  constructor
  · exact fun hfound => hfound.2.1
  · exact fun hsame => ⟨hmem, hsame, hdeleted⟩

end created

/-! ## Two addresses -/

/-- Node with a function that lower-cases the letters of ASCII. -/
def lowerNode : Node :=
  { toyNode with toLowerCase := fun s => String.ofList (s.toList.map Char.toLower) }

/-- The answers of the outside world to the creation of a user. -/
def creationChoices : List machine.Choice :=
  [.db .none, .ext (.text "password"), .ext (.text "hash"), .ext (.id "user"), .db .none]

/-- A user who is created with an address in lower case is found by it. -/
theorem created_user_found_example :
    ∃ σ' user, Completes (Guard.always machine) 0
        (UserService.createUser lowerNode (some (.str "alice@example.com")) (some .null))
        ⟨Server.idle emptyDb, (0 : ℕ)⟩ (.ok ("alice@example.com", "password")) σ' ∧
      loginUser σ'.server.db.toTables "alice@example.com" = some user ∧
      resetUser σ'.server.db.toTables "alice@example.com" = some user := by
  have hrun : (drive machine (fun _ _ _ _ => true) 0
      (UserService.createUser lowerNode (some (.str "alice@example.com")) (some .null))
      creationChoices ⟨Server.idle emptyDb, (0 : ℕ)⟩).any (fun p =>
        p.1.toOption = some ("alice@example.com", "password")) = true := by
    decide +kernel
  have halways : ∀ i s ch σ, (fun _ _ _ _ => true : ℕ → _ → _ → _ → Bool) i s ch σ = true →
      Guard.always machine i s ch σ := fun _ _ _ _ _ => trivial
  obtain ⟨r, σ', hc, hr⟩ := completes_of_drive halways hrun
  have hresult : r.toOption = some ("alice@example.com", "password") := of_decide_eq_true hr
  cases r with
  | ok a =>
    obtain rfl := Option.some.inj hresult
    obtain ⟨user, -, -, hfound⟩ := created_user_found_iff hc
    exact ⟨σ', user, hc, hfound.mpr (by decide +kernel)⟩
  | error e => cases hresult

/-- A user who is created with a capital letter in the address is found by nobody who types it. -/
theorem created_user_not_found :
    ∃ σ', Completes (Guard.always machine) 0
        (UserService.createUser lowerNode (some (.str "Alice@Example.com")) (some .null))
        ⟨Server.idle emptyDb, (0 : ℕ)⟩ (.ok ("alice@example.com", "password")) σ' ∧
      loginUser σ'.server.db.toTables "Alice@Example.com" = none ∧
      resetUser σ'.server.db.toTables "Alice@Example.com" = none := by
  have hrun : (drive machine (fun _ _ _ _ => true) 0
      (UserService.createUser lowerNode (some (.str "Alice@Example.com")) (some .null))
      creationChoices ⟨Server.idle emptyDb, (0 : ℕ)⟩).any (fun p =>
        p.1.toOption = some ("alice@example.com", "password") &&
        loginUser p.2.server.db.toTables "Alice@Example.com" = none &&
        resetUser p.2.server.db.toTables "Alice@Example.com" = none) = true := by
    decide +kernel
  have halways : ∀ i s ch σ, (fun _ _ _ _ => true : ℕ → _ → _ → _ → Bool) i s ch σ = true →
      Guard.always machine i s ch σ := fun _ _ _ _ _ => trivial
  obtain ⟨r, σ', hc, hr⟩ := completes_of_drive halways hrun
  simp only [Bool.and_eq_true, decide_eq_true_eq] at hr
  obtain ⟨⟨hresult, hlogin⟩, hreset⟩ := hr
  cases r with
  | ok a =>
    obtain rfl := Option.some.inj hresult
    exact ⟨σ', hc, hlogin, hreset⟩
  | error e => cases hresult

end Reeva.Users
