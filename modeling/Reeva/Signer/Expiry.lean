import Reeva.Interleaving.Course
import Reeva.Signer.Authorisation

/-!
# Approvals that are out of date

A request may be renewed, or pruned and asked for again; each time it gets another expiry, and an
approval names the expiry that it is for. Here the outside world remembers when each transaction
started, and no transaction commits after the deadline of its handler. Then the expiries of an
identifier only grow, whatever the interleaving, and an approval for an earlier one is refused for
ever (`stale_approvals`).
-/

open Interleaving ReadCommitted

namespace Reeva.Signer

/-! ## Transactions in time -/

/-- The clock, in milliseconds, and the times at which the transactions started. -/
structure Clocks where
  clock : ℕ
  started : ℕ → ℕ

/-- The outside world, which remembers when a transaction asked for its time. -/
def timedWorld : Machine calls where
  State := Clocks
  Choice := Outcome
  run i
    | .now, .done, w =>
      some (epoch w.clock, { w with started := Function.update w.started i w.clock })
    | .acquire, .acquired b, w => some (b, w)
    | .bao _ _ _, .answer value, w => some (.ok value, w)
    | .bao _ _ _, .failed, w => some (.error unavailable, w)
    | _, _, _ => none
  env
    | .tick n, w => some { w with clock := w.clock + n }
    | _, _ => none

/-- The machine of the signer with this world. -/
abbrev timedMachine : Machine (signature schema calls) := Service schema timedWorld

/-- A state of it. -/
abbrev TimedState := System schema Clocks

/-- Time only passes, and nobody but its program starts a transaction anew. -/
def timedSurroundings : Surroundings timedWorld where
  rely i w w' := Clocks.clock w ≤ Clocks.clock w' ∧ Clocks.started w' i = Clocks.started w i
  refl _ _ := ⟨le_rfl, rfl⟩
  trans _ _ _ _ h₁ h₂ := ⟨h₁.1.trans h₂.1, h₂.2.trans h₁.2⟩
  env i ch w w' h := by
    cases ch with
    | tick n =>
      cases h
      exact ⟨Nat.le_add_right _ _, rfl⟩
    | _ => cases h
  run i j e ch w r w' hij h := by
    cases e with
    | now =>
      cases ch with
      | done =>
        cases h
        exact ⟨le_rfl, Function.update_of_ne hij.symm _ _⟩
      | _ => cases h
    | acquire =>
      cases ch with
      | acquired b =>
        cases h
        exact ⟨le_rfl, rfl⟩
      | _ => cases h
    | bao method path body =>
      cases ch with
      | answer value =>
        cases h
        exact ⟨le_rfl, rfl⟩
      | failed =>
        cases h
        exact ⟨le_rfl, rfl⟩
      | _ => cases h
  time i now w := now = epoch (Clocks.started w i) ∧ Clocks.started w i ≤ Clocks.clock w
  time_stays i now w w' h htime := by
    rw [h.2]
    exact ⟨htime.1, htime.2.trans h.1⟩
  time_now i ch w now w' h := by
    cases ch with
    | done =>
      cases h
      change epoch w.clock = epoch (Function.update w.started i w.clock i) ∧
        Function.update w.started i w.clock i ≤ w.clock
      rw [Function.update_self]
      exact ⟨rfl, le_rfl⟩
    | _ => cases h
  time_bao i method path body ch w r w' now h htime := by
    cases ch with
    | answer value =>
      cases h
      exact htime
    | failed =>
      cases h
      exact htime
    | _ => cases h
  unavailable i method path body ch w error w' h := by
    cases ch with
    | failed => exact (Except.error.inj (Prod.mk.inj (Option.some.inj h)).1).symm
    | answer value => cases (Prod.mk.inj (Option.some.inj h)).1
    | _ => cases h

/-- Replicas that answer requests over one database. -/
def startTimed (crates : Crates) (requests : List Request) (d : Db) (w : Clocks) :
    Config timedMachine (Failure ApiError) SigningRequest :=
  ⟨⟨Server.idle d, w⟩, requests.map (·.program crates)⟩

/-- `Duration::from_secs(30)` -/
def handlerDeadline : ℕ := 30000

/-- No transaction commits after the deadline of its handler. -/
def InTime : Guard timedMachine := fun i s _ σ =>
  s = .db .commit → Clocks.clock σ.world ≤ Clocks.started σ.world i + handlerDeadline

/-! ## Expiries -/

/-- At a time, a request has an expiry no earlier than `e`, or it is not there and `e` was at least
`k` seconds ago. -/
def Later (k e : ℤ) (id : String) (d : Db) (time : ℤ) : Prop :=
  (∃ r ∈ d.requests, r.id = id ∧ e ≤ r.expiresAt) ∨ (id ∉ requestIds d ∧ e + k < time)

section expiries

variable {k e now time time' : ℤ} {id : String} {d d' : Db} {row : SigningRequest}
  {p : Option String → Prop} {crates : Crates} {input : Approval}

/-- It stays so while time passes. -/
theorem Later.mono (h : Later k e id d time) (htime : time ≤ time') : Later k e id d time' :=
  h.imp (fun h => h) fun h => ⟨h.1, h.2.trans_le htime⟩

/-- A pruned request expired more than a day ago. -/
theorem Later.pruned (h : Later k e id d time) (hk : k ≤ day) (hnow : now ≤ time) :
    (∃ r ∈ pruned now d, r.id = id ∧ e ≤ r.expiresAt) ∨
      ((∀ r ∈ pruned now d, r.id ≠ id) ∧ e + k < time) := by
  rcases h with ⟨r, hr, hid, he⟩ | ⟨habsent, he⟩
  · by_cases hprunable : r.prunable now = true
    · refine .inr ⟨fun r' hr' hid' => ?_, ?_⟩
      · -- It is the only request with its identifier.
        obtain ⟨hmem, hkept⟩ := mem_pruned.mp hr'
        rw [eq_of_id hr hmem (hid.trans hid'.symm), hkept] at hprunable
        cases hprunable
      · unfold SigningRequest.prunable at hprunable
        have hexpired := of_decide_eq_true (Bool.and_eq_true_iff.mp hprunable).2
        omega
    · exact .inl ⟨r, mem_pruned.mpr ⟨hr, by simpa using hprunable⟩, hid, he⟩
  · refine .inr ⟨fun r hr hid => habsent ?_, he⟩
    exact List.mem_map.mpr ⟨r, (mem_pruned.mp hr).1, hid⟩

/-- `create_request` keeps it, when it commits soon after its transaction started. -/
theorem Enqueued.later (h : Enqueued p row now d d') (hk : 0 ≤ k) (hday : k ≤ day)
    (hnow : now ≤ time) (hsoon : time ≤ now + day) (hlater : Later k e id d time) :
    Later k e id d' time := by
  have hpruned := hlater.pruned hday hnow
  cases h with
  | kept hrequests haudit =>
    refine hpruned.imp (fun ⟨r, hr, h⟩ => ⟨r, hrequests ▸ hr, h⟩) fun ⟨habsent, he⟩ => ⟨?_, he⟩
    rintro hmem
    obtain ⟨r, hr, hid⟩ := List.mem_map.mp hmem
    exact habsent r (hrequests ▸ hr) hid
  | renewed audit hp hevents hrequests haudit =>
    refine hpruned.imp (fun ⟨r, hr, hid, he⟩ => ?_) fun ⟨habsent, he⟩ => ⟨fun hmem => ?_, he⟩
    · refine ⟨renewal row.id now r, ?_, (renewal_keeps row.id now r).1.trans hid, ?_⟩
      · rw [hrequests]
        exact List.mem_map_of_mem hr
      · unfold renewal
        split
        · -- What is renewed has expired.
          rename_i hrenewable
          unfold SigningRequest.renewable at hrenewable
          have hexpired := of_decide_eq_true (Bool.and_eq_true_iff.mp hrenewable).2
          change e ≤ now + day
          unfold day
          omega
        · exact he
    · obtain ⟨r', hr', hid⟩ := List.mem_map.mp hmem
      rw [hrequests] at hr'
      obtain ⟨r, hr, rfl⟩ := List.mem_map.mp hr'
      exact habsent r hr ((renewal_keeps row.id now r).1.symm.trans hid)
  | inserted hgone hroom hrequests haudit =>
    rcases hpruned with ⟨r, hr, hid, he⟩ | ⟨habsent, he⟩
    · refine .inl ⟨r, ?_, hid, he⟩
      rw [hrequests]
      exact List.mem_append_left _ hr
    · by_cases hid : row.id = id
      · refine .inl ⟨{ row with expiresAt := now + day }, ?_, hid, ?_⟩
        · rw [hrequests]
          exact List.mem_append_right _ (List.mem_singleton_self _)
        · change e ≤ now + day
          omega
      · refine .inr ⟨fun hmem => ?_, he⟩
        obtain ⟨r, hr, hrid⟩ := List.mem_map.mp hmem
        rw [hrequests] at hr
        rcases List.mem_append.mp hr with hr | hr
        · exact habsent r hr hrid
        · rw [List.mem_singleton.mp hr] at hrid
          exact hid hrid

/-- So does `approve`. -/
theorem Approved.later {x : String} (h : Approved crates x input now d d')
    (hlater : Later k e id d time) : Later k e id d' time := by
  have hexpiries := h.expiries_eq
  refine hlater.imp (fun ⟨r, hr, hid, he⟩ => ?_) fun ⟨habsent, he⟩ => ⟨?_, he⟩
  · obtain ⟨r', hr', hid', he'⟩ := exists_of_expiries hexpiries.symm hr
    exact ⟨r', hr', hid'.trans hid, he'.symm ▸ he⟩
  · rw [requestIds_eq, hexpiries, ← requestIds_eq]
    exact habsent

end expiries

/-! ## The program of an approval -/

section programs

variable {α β : Type} {o : Bool} {crates : Crates}

/-- A program of plain statements. -/
abbrev IsPlain (o : Bool) (p : Handler α) : Prop := p.Only (ReadCommitted.Plain o)

theorem plain_refuse {c : Prop} [Decidable c] {e : ApiError} : IsPlain o (refuse c e) := by
  unfold refuse
  split <;> trivial

theorem plain_orThrow {e : Except ApiError β} : IsPlain o (orThrow e) := by
  cases e <;> trivial

theorem plain_call {c : Call} {k : c.Res → Handler α} (hk : ∀ r, IsPlain o (k r)) :
    IsPlain o ((call c).bind k) := Prog.only_bind (only_ext trivial) hk

theorem plain_select {f : Tables → β} {k : β → Handler α} (hk : ∀ b, IsPlain o (k b)) :
    IsPlain o ((select f).bind k) := Prog.only_bind (only_db trivial) hk

theorem plain_exec {w : Write} {k : ℕ → Handler α} (hk : ∀ n, IsPlain true (k n)) :
    IsPlain true ((exec w).bind k) := Prog.only_bind (only_db rfl) hk

theorem plain_lockRequest (id : String) : IsPlain o (lockRequest id) := by
  refine Prog.only_bind (only_db trivial) fun found => ?_
  split
  · refine Prog.only_bind (only_db trivial) fun _ => plain_select fun row => ?_
    cases row <;> trivial
  · trivial

theorem plain_key (product : String) (version : Option ℕ) :
    IsPlain o (Bao.key crates product version) :=
  Prog.only_bind plain_refuse fun _ => plain_call fun _ =>
    Prog.only_bind plain_orThrow fun _ => plain_orThrow

theorem plain_sign (key : PublicKey) (bytes : List UInt8) : IsPlain o (Bao.sign crates key bytes) :=
  plain_call fun _ => Prog.only_bind plain_orThrow fun _ => plain_orThrow

/-- An approval commits once, and returns then. -/
theorem once_approve (app : App) (authorization : Option String) (id : String) (input : Approval) :
    Once false (approve crates app authorization id input) := by
  refine once_bind plain_orThrow fun _ => once_bind plain_refuse fun _ => ?_
  refine once_bind (only_ext trivial) fun permit : Bool => once_bind plain_refuse fun _ => ?_
  refine once_transaction (plain_call fun now : ℤ => ?_)
  refine Prog.only_bind (plain_lockRequest id) fun request => ?_
  refine Prog.only_bind plain_orThrow fun read => Prog.only_bind plain_refuse fun _ => ?_
  refine Prog.only_bind (plain_key _ _) fun key => Prog.only_bind plain_refuse fun _ => ?_
  split
  · trivial
  · refine Prog.only_bind plain_refuse fun _ => Prog.only_bind (plain_sign _ _) fun signature => ?_
    refine Prog.only_bind (plain_key _ _) fun again => Prog.only_bind plain_refuse fun _ => ?_
    exact plain_exec fun _ => plain_exec fun _ => trivial

end programs

/-! ## Runs -/

section runs

variable {crates : Crates} {requests : List Request} {d : Db} {w : Clocks}
  {c c' c'' : Config timedMachine (Failure ApiError) SigningRequest} {k e : ℤ} {id : String}

/-- The handlers keep to what they should publish, in a run where they are in time. -/
theorem timed_sound (hd : d.requests.length ≤ 10000)
    (hr : Config.Run InTime (startTimed crates requests d w) c) :
    Sound InTime ((signerTerms timedSurroundings).committing
        (Published crates timedSurroundings (fun _ => True) InTime requests))
      (fun _ response σ => Committed response σ.server.db)
      (fun i e σ => σ.server.gone i = false → e = .raised retentionLimit →
        ∀ app authorization input,
          requests[i]? = some (.createRequest app authorization input) → True) c :=
  Sound.run (c := startTimed crates requests d w) (Terms.committing_compatible _ _)
    (signer_sound (S := timedSurroundings) (P := fun _ => True) w hd
      (fun _ _ _ _ _ _ _ _ _ => trivial) fun _ _ _ _ _ _ _ _ _ _ _ _ _ => trivial) hr

/-- Time only passes. -/
theorem clock_of_run (hd : d.requests.length ≤ 10000)
    (hr : Config.Run InTime (startTimed crates requests d w) c) (hrest : c.Run InTime c') :
    Clocks.clock c.state.world ≤ Clocks.clock c'.state.world := by
  -- Whoever looks on sees that.
  have hrely := (timed_sound hd hr).onlooker (Terms.committing_compatible _ _) hrest
    (j := c.pool.length) le_rfl
  exact hrely.2.2.1

/-- What is published is published soon after its transaction started. -/
theorem soon_of_published {i : ℕ} {now : ℤ} {σ : TimedState} {φ : Fault}
    (htime : timedSurroundings.time i now σ.world)
    (hok : InTime i (.db .commit) (.db φ) σ) :
    now = epoch (Clocks.started σ.world i) ∧ now ≤ epoch (Clocks.clock σ.world) ∧
      epoch (Clocks.clock σ.world) ≤ now + 30 := by
  obtain ⟨hnow, hstarted⟩ := htime
  have hdeadline := hok rfl
  refine ⟨hnow, ?_⟩
  rw [hnow]
  unfold epoch
  unfold handlerDeadline at hdeadline
  omega

/-- Expiries only grow. -/
theorem later_run (hd : d.requests.length ≤ 10000)
    (hr : Config.Run InTime (startTimed crates requests d w) c) (hk : 0 ≤ k) (hday : k ≤ day)
    (hlater : Later k e id c.state.server.db (epoch (Clocks.clock c.state.world)))
    (hrest : c.Run InTime c') :
    Later k e id c'.state.server.db (epoch (Clocks.clock c'.state.world)) := by
  induction hrest with
  | refl => exact hlater
  | @tail c₁ c₂ hrun hs ih =>
    have hclock : epoch (Clocks.clock c₁.state.world) ≤ epoch (Clocks.clock c₂.state.world) := by
      have := clock_of_run hd (hr.trans hrun) (.single hs)
      unfold epoch
      omega
    refine Later.mono ?_ hclock
    rcases Terms.published_of_step (timed_sound hd (hr.trans hrun)) hs with
      hdb | ⟨i, hi, request, hrequest, hpublishes, φ, hok⟩
    · rw [hdb]
      exact ih
    cases request with
    | createRequest app authorization input =>
      obtain ⟨row, now, -, -, htime, henqueued⟩ := hpublishes
      obtain ⟨-, hnow, hsoon⟩ := soon_of_published htime hok
      have hthirty : (30 : ℤ) ≤ day := by decide
      exact henqueued.later hk hday hnow (by omega) ih
    | getRequest app authorization id => exact hpublishes.elim
    | approve app authorization id' input =>
      obtain ⟨-, -, now, -, happroved⟩ := hpublishes
      exact happroved.later ih

/-- No request with an identifier has an expiry up to `e`. -/
def Outdated (id : String) (e : ℤ) (d : Db) : Prop :=
  ∀ r ∈ d.requests, r.id = id → e < r.expiresAt

/-- A request with an identifier has a later expiry afterwards, or no earlier one. -/
theorem expiry_run {r r' : SigningRequest} (hd : d.requests.length ≤ 10000)
    (hr : Config.Run InTime (startTimed crates requests d w) c)
    (hmem : r ∈ c.state.server.db.requests)
    (hrest : c.Run InTime c') (hmem' : r' ∈ c'.state.server.db.requests) (hid : r'.id = r.id) :
    r.expiresAt ≤ r'.expiresAt := by
  have hlater := later_run (k := 0) hd hr le_rfl (by decide)
    (.inl ⟨r, hmem, rfl, le_rfl⟩) hrest
  rcases hlater with ⟨r'', hmem'', hid'', he⟩ | ⟨habsent, -⟩
  · rwa [eq_of_id hmem' hmem'' (hid.trans hid''.symm)]
  · exact absurd (List.mem_map.mpr ⟨r', hmem', hid⟩) habsent

/-- What is outdated stays so. -/
theorem outdated_run {r : SigningRequest} (hd : d.requests.length ≤ 10000)
    (hr : Config.Run InTime (startTimed crates requests d w) c)
    (hmem : r ∈ c.state.server.db.requests)
    (hrest : c.Run InTime c') (hout : Outdated r.id r.expiresAt c'.state.server.db)
    (hrest' : c'.Run InTime c'') : Outdated r.id r.expiresAt c''.state.server.db := by
  -- At `c'` there is a later expiry, or the request was pruned a day after the earlier one.
  have hbefore := later_run (k := day) hd hr (by decide) le_rfl
    (.inl ⟨r, hmem, rfl, le_rfl⟩) hrest
  have hafter : Later 0 (r.expiresAt + 1) r.id c'.state.server.db
      (epoch (Clocks.clock c'.state.world)) := by
    rcases hbefore with ⟨r', hmem', hid, -⟩ | ⟨habsent, he⟩
    · exact .inl ⟨r', hmem', hid, hout r' hmem' hid⟩
    · refine .inr ⟨habsent, ?_⟩
      unfold day at he
      omega
  intro r'' hmem'' hid''
  rcases later_run hd (hr.trans hrest) le_rfl (by decide) hafter hrest' with
    ⟨r', hmem', hid, he⟩ | ⟨habsent, -⟩
  · rw [eq_of_id hmem'' hmem' (hid''.trans hid.symm)]
    omega
  · exact absurd (List.mem_map.mpr ⟨r'', hmem'', hid''⟩) habsent

/-- An approval for an expiry that is outdated does not return any more. -/
theorem never_approved {r : SigningRequest} (hd : d.requests.length ≤ 10000)
    (hr : Config.Run InTime (startTimed crates requests d w) c)
    (hmem : r ∈ c.state.server.db.requests)
    (hrest : c.Run InTime c') (hout : Outdated r.id r.expiresAt c'.state.server.db) {j : ℕ}
    {app : App} {authorization : Option String} {input : Approval}
    (hj : requests[j]? = some (.approve app authorization r.id input))
    (hinput : input.expiresAt ≤ r.expiresAt) (hnot : ∀ a, c'.pool[j]? ≠ some (.ret a))
    (hrest' : c'.Run InTime c'') : ∀ a, c''.pool[j]? ≠ some (.ret a) := by
  induction hrest' with
  | refl => exact hnot
  | @tail c₁ c₂ hrun hs ih =>
    intro a ha
    have hprogram : (startTimed crates requests d w).pool[j]? =
        some (approve crates app authorization r.id input) := by
      change (requests.map (·.program crates))[j]? = _
      exact program_of_request hj
    have honce : PublishesOnce j (startTimed crates requests d w) := fun p hp _ =>
      .inr (by rw [Option.some.inj (hp.symm.trans hprogram)]; exact once_approve _ _ _ _)
    -- It would commit an approval of the expiry that it was prepared for.
    have hrun₁ := (hr.trans hrest).trans hrun
    obtain ⟨-, request, hrequest, hpublishes, -⟩ :=
      (honce.run hrun₁).publishes (timed_sound hd hrun₁) hs ih ha
    cases hrequest.symm.trans hj
    obtain ⟨-, ⟨found, hfound, hexpires⟩, -⟩ := hpublishes
    obtain ⟨hfoundMem, hfoundId⟩ := mem_of_requestAt hfound
    have hlater := outdated_run hd hr hmem hrest hout hrun found hfoundMem hfoundId
    omega

/-- A program approves a request as it is: it presents the token of the approver, its approval is
for the expiry of the request, which its transaction started no later than, and it is in time. -/
def Approves (crates : Crates) (requests : List Request) (j : ℕ) (r : SigningRequest)
    (w : Clocks) : Prop :=
  ∃ app authorization input, requests[j]? = some (.approve app authorization r.id input) ∧
    checkAuth crates authorization app.approverHash = .ok () ∧ input.expiresAt = r.expiresAt ∧
    epoch (w.started j) ≤ r.expiresAt ∧ w.clock ≤ w.started j + handlerDeadline

/-- What a step signs, its program approves. -/
theorem approves_of_step {r r' : SigningRequest} (hd : d.requests.length ≤ 10000)
    (hr : Config.Run InTime (startTimed crates requests d w) c)
    (hmem : r ∈ c.state.server.db.requests)
    (hpending : r.status ≠ .signed) (hs : c.Step InTime c')
    (hmem' : r' ∈ c'.state.server.db.requests) (hid : r'.id = r.id)
    (hsigned : r'.status = .signed) :
    ∃ j, c.StepBy InTime j c' ∧ r'.expiresAt = r.expiresAt ∧
      Approves crates requests j r c.state.world := by
  rcases Terms.published_of_step (timed_sound hd hr) hs with
    hdb | ⟨j, hj, request, hrequest, hpublishes, φ, hok⟩
  · rw [hdb] at hmem'
    rw [eq_of_id hmem' hmem hid] at hsigned
    exact absurd hsigned hpending
  have hbefore : signatureAt r.id c.state.server.db = none := by
    rw [signatureAt_of_mem hmem]
    rw [Ne, status_signed_iff hmem, Option.isSome_iff_ne_none, not_not] at hpending
    exact hpending
  have hafter : signatureAt r.id c'.state.server.db ≠ none := by
    rw [← hid, signatureAt_of_mem hmem', ← Option.isSome_iff_ne_none]
    exact (status_signed_iff hmem').mp hsigned
  cases request with
  | createRequest app authorization input =>
    obtain ⟨row, now, hprepared, -, -, henqueued⟩ := hpublishes
    rw [henqueued.signatureAt_eq hprepared.hasKey.2, hbefore] at hafter
    exact absurd rfl hafter
  | getRequest app authorization id => exact hpublishes.elim
  | approve app authorization id input =>
    obtain ⟨hauth, ⟨found, hfound, hexpires⟩, now, htime, happroved⟩ := hpublishes
    obtain ⟨hnow, -, -⟩ := soon_of_published htime hok
    have hsame : signatureAt r.id c'.state.server.db = signatureAt r.id c.state.server.db ∨
        id = r.id := by
      by_cases h : id = r.id
      · exact .inr h
      · exact .inl (congrArg (·.bind (·.signature))
          (happroved.requestAt_eq fun h' => h (Row.request.inj h').symm))
    rcases hsame with hsame | rfl
    · rw [hsame] at hafter
      exact absurd hbefore hafter
    rw [requestAt_of_mem hmem] at hfound
    obtain rfl := Option.some.inj hfound
    cases happroved with
    | unchanged h =>
      have hrows : c'.state.server.db.requests = c.state.server.db.requests := by rw [h]
      rw [hrows] at hmem'
      rw [eq_of_id hmem' hmem hid] at hsigned
      exact absurd hsigned hpending
    | signed before signature hbefore' hchecked hrequests haudit =>
      rw [requestAt_of_mem hmem] at hbefore'
      obtain rfl := Option.some.inj hbefore'
      refine ⟨j, hj, ?_, app, authorization, input, hrequest, hauth, hexpires, ?_, hok rfl⟩
      · rw [hrequests] at hmem'
        obtain ⟨r₀, hmem₀, rfl⟩ := List.mem_map.mp hmem'
        obtain ⟨hid₀, hexpires₀⟩ := signing_keeps r.id signature r₀
        rw [hexpires₀, eq_of_id hmem₀ hmem (hid₀.symm.trans hid)]
      · rw [← hnow]
        exact hchecked.unexpired

end runs

/-- In every run in which no transaction commits after its deadline, the expiry of an identifier
only grows, also when the request is pruned and asked for again. What is outdated once stays so, and
an approval for it that has not returned never does. What a step signs, its program approves as it
is. -/
theorem stale_approvals (crates : Crates) (requests : List Request) (d : Db) (w : Clocks)
    (hd : d.requests.length ≤ 10000)
    {c c' : Config timedMachine (Failure ApiError) SigningRequest} {r : SigningRequest}
    (hr : Config.Run InTime (startTimed crates requests d w) c)
    (hmem : r ∈ c.state.server.db.requests) (hrest : c.Run InTime c') :
    (∀ r' ∈ c'.state.server.db.requests, r'.id = r.id → r.expiresAt ≤ r'.expiresAt) ∧
    (Outdated r.id r.expiresAt c'.state.server.db → ∀ c'', c'.Run InTime c'' →
      Outdated r.id r.expiresAt c''.state.server.db ∧
      ∀ (j : ℕ) app authorization input,
        requests[j]? = some (.approve app authorization r.id input) →
        input.expiresAt ≤ r.expiresAt → (∀ a, c'.pool[j]? ≠ some (.ret a)) →
        ∀ a, c''.pool[j]? ≠ some (.ret a)) ∧
    ∀ c'', c'.Step InTime c'' → ∀ r' ∈ c'.state.server.db.requests, r'.status ≠ .signed →
      ∀ r'' ∈ c''.state.server.db.requests, r''.id = r'.id → r''.status = .signed →
      ∃ j, c'.StepBy InTime j c'' ∧ r''.expiresAt = r'.expiresAt ∧
        Approves crates requests j r' c'.state.world :=
  ⟨fun _ hmem' hid => expiry_run hd hr hmem hrest hmem' hid,
    fun hout _ hrest' => ⟨outdated_run hd hr hmem hrest hout hrest',
      fun _ _ _ _ hj hinput hnot => never_approved hd hr hmem hrest hout hj hinput hnot hrest'⟩,
    fun _ hs _ hmem' hpending _ hmem'' hid hsigned =>
      approves_of_step hd (hr.trans hrest) hmem' hpending hs hmem'' hid hsigned⟩

/-- A call takes no time. -/
theorem timedWorld_run {i : ℕ} {e : Call} {ch : Outcome} {u u' : Clocks} {r : e.Res}
    (h : timedWorld.run i e ch u = some (r, u')) (hnow : u.started i = u.clock) :
    u'.started i = u'.clock := by
  cases e with
  | now =>
    cases ch with
    | done =>
      cases h
      exact Function.update_self _ _ _
    | _ => cases h
  | acquire =>
    cases ch with
    | acquired b =>
      cases h
      exact hnow
    | _ => cases h
  | bao method path body =>
    cases ch with
    | answer value =>
      cases h
      exact hnow
    | failed =>
      cases h
      exact hnow
    | _ => cases h

/-- Nor does any other statement. -/
theorem timedMachine_run {i : ℕ} {s : (signature schema calls).Stmt}
    {ch : Decision Outcome} {r : (signature schema calls).Res s} {σ σ' : TimedState}
    (h : (Service schema timedWorld).run i s ch σ = some (r, σ'))
    (hnow : Clocks.started σ.world i = Clocks.clock σ.world) :
    Clocks.started σ'.world i = Clocks.clock σ'.world := by
  cases s with
  | halt => cases ch <;> cases h
  | ext e =>
    cases ch with
    | ext x =>
      simp only [Service] at h
      split at h
      · cases h
      · obtain ⟨⟨r', u⟩, hu, hw⟩ := Option.map_eq_some_iff.mp h
        cases hw
        exact timedWorld_run hu hnow
    | _ => cases h
  | db s =>
    cases ch with
    | db φ =>
      simp only [Service] at h
      split at h
      · cases h
      · obtain ⟨⟨r', srv⟩, -, hw⟩ := Option.map_eq_some_iff.mp h
        cases hw
        exact hnow
    | _ => cases h

/-- What a program performs while no time passes, it performs in time. -/
theorem steps_inTime {i : ℕ} {p p' : Handler SigningRequest} {σ σ' : timedMachine.State}
    (h : p.Steps (Guard.always timedMachine) i σ p' σ')
    (hnow : Clocks.started (System.world σ) i = Clocks.clock (System.world σ)) :
    p.Steps InTime i σ p' σ' := by
  induction h with
  | refl => exact .refl
  | @step s k ch r σ σ₁ σ₂ p' hok hrun _ ih =>
    refine .step (fun _ => ?_) hrun (ih (timedMachine_run hrun hnow))
    rw [hnow]
    exact Nat.le_add_right _ _

section exchanges

variable {crates : Crates} {requests : List Request}

/-- The transactions are noted to start at once, but for one. -/
def starts (later i : ℕ) : ℕ := if i = 1 then later else 0

/-- The row that is asked for is created, where no other is. -/
theorem created_inTime (hcrates : crates.Fitting) (x : Exchange crates) {i : ℕ} {d : Db}
    {σ : TimedState} (hc : Rests (D := schema) i d σ.server)
    (hnow : Clocks.started σ.world i = Clocks.clock σ.world)
    (hnone : pruned (epoch (Clocks.clock σ.world)) d = []) :
    ∃ σ', (x.request.program crates).Steps InTime i σ
        (.ret (x.created (epoch (Clocks.clock σ.world)))) σ' ∧
      σ'.world = ⟨Clocks.clock σ.world,
        Function.update (Clocks.started σ.world) i (Clocks.clock σ.world)⟩ ∧
      (∃ d' : Db, Rests (D := schema) i d' σ'.server ∧
        d'.requests = [x.created (epoch (Clocks.clock σ.world))]) ∧
      ∀ j d₀, i ≠ j → Rests (D := schema) j d₀ σ.server →
        Rests (D := schema) j σ'.server.db σ'.server := by
  have hok : AllowsOthers (X := timedWorld) (Guard.always timedMachine) i := fun _ _ _ _ => trivial
  obtain ⟨created, σ', hsteps, hcreated, hworld, d', hrests, hrows, -⟩ :=
    createRequest_attains (X := timedWorld) (σ := σ) (b := Outcome.done)
      (a := Outcome.answer x.found) hcrates x.requestable hc hok rfl rfl
      (by rw [hnone]; exact fun _ h => by cases h) (by rw [hnone]; exact Nat.zero_lt_succ _)
  replace hcreated : created = x.created (epoch (Clocks.clock σ.world)) := hcreated
  subst hcreated
  refine ⟨σ', steps_inTime hsteps hnow, hworld, ⟨d', hrests, ?_⟩, fun j d₀ hij hj => ?_⟩
  · rw [hrows, hnone, List.nil_append]
  · rw [hrests.db]
    exact hsteps.rests hij hj hrests

/-- The approval commits once. -/
theorem Exchange.once_approve (x : Exchange crates) (now : ℤ) :
    Once false ((x.approve now).program crates) := Signer.once_approve _ _ _ _

/-- Where more than two days pass after the first request, it is pruned before the second. -/
theorem recreated_run (hcrates : crates.Fitting) (x : Exchange crates) (later : ℕ)
    (h₀ : requests[0]? = some x.request) (h₁ : requests[1]? = some x.request)
    (hlater : epoch 0 + day < epoch later - day) :
    ∃ (w : Clocks) (c c' : Config timedMachine (Failure ApiError) SigningRequest),
      Config.Run InTime (startTimed crates requests emptyDb w) c ∧
      x.created (epoch 0) ∈ c.state.server.db.requests ∧ c.Run InTime c' ∧
      c'.state.server.db.requests = [x.created (epoch later)] ∧
      c'.pool = ((requests.map (·.program crates)).set 0 (.ret (x.created (epoch 0)))).set 1
        (.ret (x.created (epoch later))) := by
  obtain ⟨⟨srv₁, u₁⟩, hsteps₁, hworld₁, ⟨d₁, hrests₁, hrows₁⟩, hothers₁⟩ :=
    created_inTime hcrates x (i := 0)
      (σ := ⟨Server.idle emptyDb, ⟨0, starts later⟩⟩)
      (Rests.idle (D := schema) 0 emptyDb) rfl rfl
  have hrun₁ := hsteps₁.run
    (c := startTimed crates requests emptyDb ⟨0, starts later⟩) rfl
    (program_of_request h₀)
  change u₁ = ⟨0, Function.update (starts later) 0 0⟩ at hworld₁
  subst hworld₁
  have hpruned : pruned (epoch later) srv₁.db = [] := by
    have hprunable : (x.created (epoch 0)).prunable (epoch later) = true := decide_eq_true hlater
    rw [hrests₁.db, pruned, hrows₁]
    exact List.filter_cons_of_neg (by rw [hprunable]; decide)
  obtain ⟨⟨srv₂, u₂⟩, hsteps₂, -, ⟨d₂, hrests₂, hrows₂⟩, -⟩ :=
    created_inTime hcrates x (i := 1) (d := srv₁.db)
      (σ := ⟨srv₁, ⟨later, Function.update (starts later) 0 0⟩⟩)
      (hothers₁ 1 emptyDb (by decide) (Rests.idle (D := schema) 1 emptyDb)) rfl hpruned
  -- Two days and more pass in between.
  have henv : timedMachine.env (.ext (.tick later))
      (⟨srv₁, ⟨0, Function.update (starts later) 0 0⟩⟩ : TimedState) =
      some ⟨srv₁, ⟨0 + later, Function.update (starts later) 0 0⟩⟩ := rfl
  rw [Nat.zero_add] at henv
  have htick : Config.Step InTime
      (⟨⟨srv₁, ⟨0, Function.update (starts later) 0 0⟩⟩,
        (requests.map (·.program crates)).set 0 (.ret (x.created (epoch 0)))⟩ :
        Config timedMachine (Failure ApiError) SigningRequest)
      ⟨_, (requests.map (·.program crates)).set 0 (.ret (x.created (epoch 0)))⟩ := .env henv
  have hrun₂ := hsteps₂.run (c := (⟨⟨srv₁, ⟨later,
    Function.update (starts later) 0 0⟩⟩,
    (requests.map (·.program crates)).set 0 (.ret (x.created (epoch 0)))⟩ :
    Config timedMachine (Failure ApiError) SigningRequest)) rfl
    (by rw [List.getElem?_set_ne (by decide)]; exact program_of_request h₁)
  refine ⟨_, _, _, hrun₁, ?_, .head htick hrun₂, ?_, rfl⟩
  · change x.created (epoch 0) ∈ srv₁.db.requests
    rw [hrests₁.db]
    exact hrows₁ ▸ List.mem_singleton_self _
  · change srv₂.db.requests = _
    rw [hrests₂.db]
    exact hrows₂

end exchanges

/-- A request is pruned and asked for again, and an approval of what was pruned does not return. -/
theorem stale_approvals_toy :
    ∃ w c c', Config.Run InTime (startTimed toyCrates
        [toyExchange.request, toyExchange.request, toyExchange.approve (epoch 0)] emptyDb w) c ∧
      toyExchange.created (epoch 0) ∈ c.state.server.db.requests ∧ c.Run InTime c' ∧
      toyExchange.created (epoch 200000000) ∈ c'.state.server.db.requests ∧
      ∀ c'', c'.Run InTime c'' → ∀ a, c''.pool[2]? ≠ some (.ret a) := by
  have hfirst : [toyExchange.request, toyExchange.request, toyExchange.approve (epoch 0)][0]? =
      some toyExchange.request := rfl
  obtain ⟨w, c, c', hr, hmem, hrest, hrows, hpool⟩ :=
    recreated_run toyCrates_fitting toyExchange 200000000 hfirst rfl (by decide)
  obtain ⟨-, hstale, -⟩ := stale_approvals toyCrates _ emptyDb w (Nat.zero_le _) hr hmem hrest
  refine ⟨w, c, c', hr, hmem, hrest, by rw [hrows]; exact List.mem_singleton_self _,
    fun c'' hrest' => ?_⟩
  have hout : Outdated (toyExchange.created (epoch 0)).id (toyExchange.created (epoch 0)).expiresAt
      c'.state.server.db := by
    intro r' hmem' _
    rw [hrows, List.mem_singleton] at hmem'
    rw [hmem']
    change epoch 0 + day < epoch 200000000 + day
    decide
  refine (hstale hout c'' hrest').2 2 toyExchange.approverApp toyExchange.approverAuthorization
    (toyExchange.approval (epoch 0)) ?_ le_rfl fun a ha => ?_
  · rw [toyExchange.created_id]
    rfl
  · -- The approval has not begun.
    rw [hpool] at ha
    have hprogram : (toyExchange.approve (epoch 0)).program toyCrates = .ret a :=
      Option.some.inj ha
    have honce := toyExchange.once_approve (epoch 0)
    rw [hprogram] at honce
    exact honce

end Reeva.Signer
