import Reeva.Codec.JsonRoundTrip
import Reeva.Licensing.Accounting

/-!
# Revocation

`updateLicense` sets the time of a revocation with the status and clears it with the status. The other
requests write the status alone: `toggleLicense` makes a revoked licence active again and leaves its
time of revocation, and activations go on; `createLicense` opens a licence as revoked without a time;
and an update without a status clears the time of a licence that stays revoked. Where none of these
happens, status and time stay together, and nothing is activated after a revocation.
-/

open Interleaving ReadCommitted

namespace Reeva.Licensing

/-- The update of a licence that a request is, if it is one. -/
def updateOf (rt : Runtime) (id : Id) : Request → Option LicenseInput
  | .updateLicense uid data => if rt.parseUuid uid = some id then some data else none
  | _ => none

/-- The most recent update of a licence among the requests that took effect. -/
def lastUpdate (rt : Runtime) (requests : List Request) (id : Id) (log : List ℕ) :
    Option LicenseInput :=
  (log.filterMap fun i => requests[i]?.bind (updateOf rt id)).getLast?

/-- The condition that whatever is published treats status and time of revocation together. -/
def Together (rt : Runtime) (requests : List Request) : Guard machine
  | i, s, _, σ => MayPublish (X := world) σ i s → ∀ q, requests[i]? = some q →
      TreatsTogether rt σ.server.db q

section history

variable {rt : Runtime} {requests : List Request} {id : Id} {log : List ℕ} {i : ℕ} {q : Request}

/-- A request that is no update of the licence leaves the most recent one. -/
theorem lastUpdate_other (hq : requests[i]? = some q) (hu : updateOf rt id q = none) :
    lastUpdate rt requests id (log ++ [i]) = lastUpdate rt requests id log := by
  simp [lastUpdate, hq, hu]

/-- An update of the licence is the most recent one. -/
theorem lastUpdate_update {data : LicenseInput} (hq : requests[i]? = some q)
    (hu : updateOf rt id q = some data) :
    lastUpdate rt requests id (log ++ [i]) = some data := by
  simp [lastUpdate, hq, hu]

/-- What holds after the requests of a history: status and time of revocation are together, and the
licence is revoked if its most recent update revoked it. -/
structure Sticks (rt : Runtime) (requests : List Request) (id : Id) (log : List ℕ) (d : Db) :
    Prop where
  dated : RevocationDated id d
  revoked : ∀ data, lastUpdate rt requests id log = some data → isRevoked data.status = true →
    Revoked id d

/-- Every request that treats them together keeps this. -/
theorem Sticks.step (hdriver : ∀ value, rt.driverText value ≠ "revoked") {d d' : Db}
    (h : Sticks rt requests id log d) (hq : requests[i]? = some q) (he : Effect rt q d d')
    (ht : TreatsTogether rt d q) : Sticks rt requests id (log ++ [i]) d' := by
  refine ⟨he.dated hdriver ht h.dated, fun data hlast hdata => ?_⟩
  cases hu : updateOf rt id q with
  | none =>
    rw [lastUpdate_other hq hu] at hlast
    refine he.stays_revoked ht (fun uid data' hq' hid => ?_) (h.revoked data hlast hdata)
    rw [hq', updateOf, if_pos hid] at hu
    cases hu
  | some data' =>
    obtain rfl := Option.some.inj ((lastUpdate_update hq hu).symm.trans hlast)
    cases q with
    | updateLicense uid data =>
      simp only [updateOf, Option.ite_none_right_eq_some, Option.some.injEq] at hu
      obtain ⟨hid, rfl⟩ := hu
      exact he.revokes hdriver hdata hid
    | _ => cases hu

end history

/-- In every run of requests that opens no licence as revoked, toggles no revoked licence and updates
none without a status, from a database in which the licence's revocation is dated or which does not
have it: a licence is marked as revoked when the time of its revocation is set and only then, and
after its most recent update revoked it no activation takes effect. -/
theorem revocation_sticks (rt : Runtime) (hdriver : ∀ value, rt.driverText value ≠ "revoked")
    (requests : List Request) {d : Db} (clock : ℕ) {id : Id} (hd : RevocationDated id d)
    {log : List ℕ} {c : Config machine (Failure String) Reply}
    (hr : History (Together rt requests) (start rt requests d clock) log c) :
    RevocationDated id c.state.server.db ∧
    ∀ data, lastUpdate rt requests id log = some data → isRevoked data.status = true →
      ∀ i c' licenseId machineId, c.StepBy (Together rt requests) i c' →
        requests[i]? = some (.issueActivationToken licenseId machineId) →
        rt.parseUuid licenseId = some id → ¬TakesEffect i c c' := by
  have hstart := orderly rt (Together rt requests) requests d clock
  have hsticks : Sticks rt requests id log c.state.server.db := by
    induction hr with
    | start => exact ⟨hd, fun data hlast => by cases hlast⟩
    | @effect log c₁ c₂ i h hs he ih =>
      obtain ⟨⟨q, hq, heff⟩, s, ch, hmay, hok⟩ := (hstart.run h.run).publishes hs he
      exact ih.step hdriver hq heff (hok hmay q hq)
    | other h hs hno ih =>
      rw [step_db hs hno]
      exact ih
  refine ⟨hsticks.dated, fun data hlast hdata i c' licenseId machineId hs hq hid he => ?_⟩
  obtain ⟨q, hq', heff⟩ := (hstart.run hr.run).effect hs he
  rw [hq] at hq'
  obtain rfl := Option.some.inj hq'
  exact heff.not_issued hid (hsticks.revoked data hlast hdata)

/-! ## Runs -/

/-- A form that sets a status. -/
def statusForm (status : String) : LicenseInput where
  licenseKey := none
  productName := none
  customerName := none
  customerEmail := none
  status := some (.str status)
  maxActivations := none
  expiresAt := none

/-- A program that has returned. -/
def hasReturned (c : Config machine (Failure String) Reply) (i : ℕ) : Bool :=
  match c.pool[i]? with
  | some (.ret _) => true
  | _ => false

/-- A licence that is opened, revoked by an update, toggled and activated. -/
def toggledRequests : List Request :=
  [.createLicense toyForm, .updateLicense "L" (statusForm "revoked"), .toggleLicense "L",
    .issueActivationToken "L" (some (.str "m"))]

/-- The opening and the revocation. -/
def openAndRevoke : List (Config.Event machine) :=
  [.thread 0 (.ext (.id "L"))] ++ succeed 0 1 ++ succeed 1 4 ++ [.thread 1 (.ext .done)] ++
    succeed 1 2

/-- The toggling and the activation. -/
def toggleAndActivate : List (Config.Event machine) :=
  succeed 2 6 ++ succeed 3 5 ++ [.thread 3 (.ext .done)] ++ succeed 3 2 ++
    [.thread 3 (.ext (.keys "private" "public")), .thread 3 (.ext (.id "S"))] ++ succeed 3 4 ++
    [.thread 3 (.ext (.id "P"))] ++ succeed 3 1 ++ [.thread 3 (.ext (.id "A"))] ++ succeed 3 3

/-- The test that passes every statement. -/
def testAlways (_ : ℕ) (_ : Action schema calls) (_ : Decision Outcome) (_ : State) : Bool := true

/-- A toggle makes a revoked licence active, keeps the time of its revocation, and a token is issued
for it, though its only update revoked it. -/
theorem toggled_revocation :
    ∃ c c', (start toyRuntime toggledRequests emptyDb 0).Run (Guard.always machine) c ∧
      hasReturned c 1 = true ∧ hasReturned c 3 = false ∧ c.Run (Guard.always machine) c' ∧
      hasReturned c' 3 = true ∧ ¬RevocationDated "L" c'.state.server.db := by
  have h : ((start toyRuntime toggledRequests emptyDb 0).follow testAlways openAndRevoke).any
      (fun c => hasReturned c 1 && !hasReturned c 3 &&
        (c.follow testAlways toggleAndActivate).any fun c' => hasReturned c' 3 &&
          c'.state.server.db.licenses.any fun l =>
            l.id = "L" && l.status = "active" && l.revokedAt.isSome) = true := by
    decide +kernel
  have hall : ∀ i s ch σ, testAlways i s ch σ = true → Guard.always machine i s ch σ :=
    fun _ _ _ _ _ => trivial
  obtain ⟨c, hc, hs⟩ := Config.reached_of_follow hall h
  simp only [Bool.and_eq_true, Bool.not_eq_true'] at hs
  obtain ⟨⟨h₁, h₃⟩, hnext⟩ := hs
  obtain ⟨c', hc', hs'⟩ := Config.reached_of_follow hall hnext
  rw [Bool.and_eq_true, List.any_eq_true] at hs'
  obtain ⟨hret, l, hl, hlicense⟩ := hs'
  simp only [Bool.and_eq_true, decide_eq_true_eq] at hlicense
  refine ⟨c, c', hc, h₁, h₃, hc', hret, fun hdated => ?_⟩
  have hstatus := (hdated l hl hlicense.1.1).mpr hlicense.2
  rw [hlicense.1.2] at hstatus
  exact absurd hstatus (by decide)

/-- The test of `Together`. -/
def testTogether (rt : Runtime) (requests : List Request) (i : ℕ) (s : Action schema calls)
    (_ : Decision Outcome) (σ : State) : Bool :=
  match s with
  | .db .commit | .db (.write _) =>
    (requests[i]?).all fun q => decide (TreatsTogether rt σ.server.db q)
  | _ => true

theorem together_of_test (rt : Runtime) (requests : List Request) (i : ℕ)
    (s : Action schema calls) (ch : Decision Outcome) (σ : State)
    (h : testTogether rt requests i s ch σ = true) : Together rt requests i s ch σ := by
  intro hmay q hq
  cases s with
  | db s =>
    cases s with
    | commit => simpa [testTogether, hq] using h
    | write w => simpa [testTogether, hq] using h
    | _ => exact hmay.elim
  | _ => exact hmay.elim

/-- The driver sends no other value as the text `revoked`. -/
theorem toyRuntime_driver : ∀ value, toyRuntime.driverText value ≠ "revoked" := by
  intro value h
  have hparse := congrArg Json.parse h
  rw [show toyRuntime.driverText value = value.stringify from rfl, Json.parse_stringify] at hparse
  rw [show Json.parse "revoked" = none by decide +kernel] at hparse
  cases hparse

/-- A licence that is opened and revoked stays so. -/
theorem revocation_sticks_example :
    ∃ log c, History (Together toyRuntime toggledRequests)
        (start toyRuntime toggledRequests emptyDb 0) log c ∧
      hasReturned c 1 = true ∧ RevocationDated "L" c.state.server.db := by
  have h : ((start toyRuntime toggledRequests emptyDb 0).follow
      (testTogether toyRuntime toggledRequests) openAndRevoke).any (hasReturned · 1) = true := by
    decide +kernel
  obtain ⟨c, hc, hs⟩ := Config.reached_of_follow (together_of_test toyRuntime toggledRequests) h
  obtain ⟨log, hlog⟩ := History.of_run hc
  refine ⟨log, c, hlog, hs, (revocation_sticks toyRuntime toyRuntime_driver _ 0 ?_ hlog).1⟩
  exact fun l hl => by cases hl

end Reeva.Licensing
