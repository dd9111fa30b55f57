import Reeva.Licensing.Refinement

/-!
# Activations are counted

The law of the counter over all runs of the licence service: a licence's counter is the number of its
activations, which are on different machines; an activation stays within the licence's limit; what
throws has changed nothing.
-/

open Interleaving ReadCommitted

namespace Reeva.Licensing

/-- In every run of requests whose failures are atomic, from a database in which the licence is
accounted for or does not exist: the licence is accounted for in what is committed, an activation
leaves no more rows than the licence allows, a request that fails in the end has changed nothing, and
a removal takes only rows of the licence that it names. -/
theorem activation_accounting (rt : Runtime) (requests : List Request) {d : Db} (clock : ℕ) {id : Id}
    (hd : Accounted id d) {c : Config machine (Failure String) Reply}
    (hr : (start rt requests d clock).Run Guard.atomicFailures c) :
    Accounted id c.state.server.db ∧
    (∀ i c' licenseId machineId, c.StepBy Guard.atomicFailures i c' → TakesEffect i c c' →
      requests[i]? = some (.issueActivationToken licenseId machineId) →
      ∃ l ∈ c'.state.server.db.licenses, rt.parseUuid licenseId = some l.id ∧
        ((Tables.activationsOf (Db.toTables c'.state.server.db) l.id).length : ℤ) ≤
          l.maxActivations) ∧
    (∀ i c' c'' e, c.StepBy Guard.atomicFailures i c' → c'.Run Guard.atomicFailures c'' →
      c''.pool[i]? = some (.fail e) → c'.state.server.db = c.state.server.db) ∧
    ∀ i c' licenseId activationId, c.StepBy Guard.atomicFailures i c' →
      requests[i]? = some (.removeActivation licenseId activationId) →
      ∀ a ∈ c.state.server.db.activations, a ∉ c'.state.server.db.activations →
        ∃ id, rt.parseUuid licenseId = some id ∧ a.licenseId = some id := by
  have hstart := orderly rt Guard.atomicFailures requests d clock
  have ho := hstart.run hr
  refine ⟨?_, ?_, ?_, ?_⟩
  · refine hstart.keeps (P := Accounted id) ?_ hd hr
    rintro i s ch σ σ' - - ⟨q, -, he⟩
    exact he.accounted
  · intro i c' licenseId machineId hs he hq
    exact ((ho.effect hs he).effect hq).limit
  · exact fun i c' c'' e hs hrun he => ho.failed (fun _ _ _ _ h => h) hs hrun he
  · intro i c' licenseId activationId hs hq a ha hgone
    have hdb : c'.state.server.db ≠ c.state.server.db := fun h => hgone (h ▸ ha)
    exact ((ho.effect hs (.inr hdb)).effect hq).removed ha hgone

/-! ## A run -/

/-- Libraries that take identifiers as they come and sign nothing. -/
def toyRuntime : Runtime where
  parseUuid := some
  driverText := Json.stringify
  fromISO _ := none
  sign _ _ := .ok []
  base64 _ := ""

/-- A form with a key and a product. -/
def toyForm : LicenseInput where
  licenseKey := some (.str "K")
  productName := some (.str "Orbit")
  customerName := none
  customerEmail := none
  status := none
  maxActivations := none
  expiresAt := none

/-- The test of atomic failures. -/
def testAtomic (_ : ℕ) (_ : Action schema calls) (ch : Decision Outcome) (_ : State) : Bool :=
  match ch with
  | .db .late => false
  | _ => true

theorem atomicFailures_of_test (i : ℕ) (s : Action schema calls) (ch : Decision Outcome) (σ : State)
    (h : testAtomic i s ch σ = true) : Guard.atomicFailures (X := world) i s ch σ := by
  have hne : ch ≠ .db .late := by
    rintro rfl
    cases h
  cases s with
  | db s =>
    cases s with
    | commit => exact hne
    | write w => exact fun _ => hne
    | _ => trivial
  | _ => trivial

/-- Statements of a program that succeed. -/
def succeed (i n : ℕ) : List (Config.Event machine) := List.replicate n (.thread i (.db .none))

/-- The opening of a licence, and one activation. -/
def openAndActivate : List (Config.Event machine) :=
  [.thread 0 (.ext (.id "L"))] ++ succeed 0 1 ++ succeed 1 5 ++ [.thread 1 (.ext .done)] ++
    succeed 1 2 ++ [.thread 1 (.ext (.keys "private" "public")), .thread 1 (.ext (.id "S"))] ++
    succeed 1 4 ++ [.thread 1 (.ext (.id "P"))] ++ succeed 1 1 ++ [.thread 1 (.ext (.id "A"))] ++
    succeed 1 3

/-- A licence that is opened and activated once. -/
theorem activation_accounting_example :
    ∃ c, (start toyRuntime [.createLicense toyForm, .issueActivationToken "L" (some (.str " m "))]
        emptyDb 0).Run Guard.atomicFailures c ∧
      Tables.activationsOf (Db.toTables c.state.server.db) "L" = [⟨"A", some "L", "m"⟩] ∧
      Accounted "L" c.state.server.db := by
  have h : ((start toyRuntime [.createLicense toyForm,
      .issueActivationToken "L" (some (.str " m "))] emptyDb 0).follow testAtomic
        openAndActivate).any (fun c => decide
          (Tables.activationsOf (Db.toTables c.state.server.db) "L" = [⟨"A", some "L", "m"⟩])) =
      true := by
    decide +kernel
  obtain ⟨c, hc, hs⟩ := Config.reached_of_follow atomicFailures_of_test h
  refine ⟨c, hc, of_decide_eq_true hs, (activation_accounting toyRuntime _ 0 ?_ hc).1⟩
  exact fun l hl => by cases hl

end Reeva.Licensing
