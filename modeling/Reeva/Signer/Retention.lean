import Reeva.Signer.Exchange

/-!
# How many requests the signer keeps

`create_request` counts the requests in one statement and inserts in another. It holds the advisory
lock throughout, and only who holds it changes which requests there are; but approvals do not take
the lock, and may sign a request that is about to be pruned. They wait for the rows that the pruning
has locked, so that what is counted is what is left at the commit (`retention_bound`).
-/

open Interleaving ReadCommitted

namespace Reeva.Signer

/-- The identifier of what `create_request` is asked for. -/
def CreateRequest.requestId (crates : Crates) (input : CreateRequest) : Option String :=
  match parsePayload input.payload input.product with
  | .ok (bytes, _) => some (Signer.requestId crates input.product input.keyId bytes)
  | .error _ => none

/-- The row that it asks for has this identifier. -/
theorem Prepared.requestId_eq {crates : Crates} {app : App} {authorization : Option String}
    {input : CreateRequest} {row : SigningRequest}
    (h : Prepared crates app authorization input row) : input.requestId crates = some row.id := by
  obtain ⟨bytes, manifest, key, answer, hread, hkey, hid, rfl⟩ := h.read
  unfold CreateRequest.requestId
  rw [hread]
  change some (Signer.requestId crates input.product input.keyId bytes) =
    some (Signer.requestId crates input.product key.keyId bytes)
  rw [hid]

section runs

variable {crates : Crates} {requests : List Request} {d : Db} {clock : ℕ}
  {c c' c'' : Config machine (Failure ApiError) SigningRequest} {i : ℕ}

/-- The handlers keep to what they should publish in every run. -/
theorem run_sound {ok : Guard machine} {P : ℕ → Prop} (hd : d.requests.length ≤ 10000)
    (hP : ∀ i app authorization input row,
      requests[i]? = some (.createRequest app authorization input) →
      Prepared crates app authorization input row → ∀ s ch (σ : State),
      ok i s ch σ → σ.server.advisory 1 = some i → row.id ∉ requestIds σ.server.db → P i)
    (hr : Config.Run ok (start crates requests d clock) c) :
    Sound ok ((signerTerms surroundings).committing
        (Published crates surroundings (fun _ => True) ok requests))
      (fun _ response σ => Committed response σ.server.db)
      (fun i e σ => σ.server.gone i = false → e = .raised retentionLimit →
        ∀ app authorization input,
          requests[i]? = some (.createRequest app authorization input) → P i) c :=
  Sound.run (c := start crates requests d clock) (Terms.committing_compatible _ _)
    (signer_sound (X := world) clock hd (fun _ _ _ _ _ _ _ _ _ => trivial) hP) hr

/-- At some point of a run program `i` holds the lock, and the request that it is asked for is not
there. -/
def FindsNone (crates : Crates) (requests : List Request) (i : ℕ)
    (c c' : Config machine (Failure ApiError) SigningRequest) : Prop :=
  ∃ c₁ c₂, c.Run (.always machine) c₁ ∧ c₁.StepBy (.always machine) i c₂ ∧
    c₂.Run (.always machine) c' ∧ c₁.state.server.advisory 1 = some i ∧
    ∀ app authorization input id, requests[i]? = some (.createRequest app authorization input) →
      input.requestId crates = some id → id ∉ requestIds c₁.state.server.db

/-- `create_request` fails with the error of a full table only where its request is not there. -/
theorem findsNone_of_limit (hd : d.requests.length ≤ 10000)
    (hr : Config.Run (.always machine) (start crates requests d clock) c)
    (hs : c.StepBy (.always machine) i c')
    (hfail : c'.pool[i]? = some (.fail (.raised retentionLimit))) {app : App}
    {authorization : Option String} {input : CreateRequest}
    (hrequest : requests[i]? = some (.createRequest app authorization input)) :
    FindsNone crates requests i (start crates requests d clock) c' := by
  -- The run is one that records where its statements are performed.
  have hrecorded := Config.Run.recorded (Relation.ReflTransGen.tail hr hs.step)
  have hsound := run_sound (P := fun i => FindsNone crates requests i
    (start crates requests d clock) c') hd ?_ hrecorded
  · exact hsound.failed (Terms.committing_compatible _ _) hfail (gone_of_stepBy hs) rfl app
      authorization input hrequest
  rintro i app authorization input row hrequest hprepared s ch σ ⟨-, c₁, c₂, h₁, rfl, hi, h₂⟩ hlock
    hid
  refine ⟨c₁, c₂, h₁, hi, h₂, hlock, fun app' authorization' input' id hrequest' hsame => ?_⟩
  cases hrequest.symm.trans hrequest'
  rw [hprepared.requestId_eq] at hsame
  exact Option.some.inj hsame ▸ hid

/-- The table has never more than 10000 rows, whatever the interleaving. `create_request` for an
identifier that is there adds no row, and it fails with the error of a full table only where it
holds the lock and the identifier is not there, while no other handler changes which identifiers
there are. No step takes a signed row from the table. -/
theorem retention_bound (crates : Crates) (requests : List Request) (d : Db) (clock : ℕ)
    (hd : d.requests.length ≤ 10000) {c : Config machine (Failure ApiError) SigningRequest}
    (hr : Config.Run (.always machine) (start crates requests d clock) c) :
    c.state.server.db.requests.length ≤ 10000 ∧
    (∀ i c' app authorization input id, c.StepBy (.always machine) i c' →
      requests[i]? = some (.createRequest app authorization input) →
      input.requestId crates = some id → id ∈ requestIds c.state.server.db →
      c'.state.server.db.requests.length ≤ c.state.server.db.requests.length) ∧
    (∀ i c' app authorization input, c.StepBy (.always machine) i c' →
      requests[i]? = some (.createRequest app authorization input) →
      c'.pool[i]? = some (.fail (.raised retentionLimit)) →
      FindsNone crates requests i (start crates requests d clock) c') ∧
    (∀ i j c', c.state.server.advisory 1 = some i → i ≠ j → c.StepBy (.always machine) j c' →
      requestIds c'.state.server.db = requestIds c.state.server.db) ∧
    ∀ c', c.Step (.always machine) c' →
      ∀ r ∈ c.state.server.db.requests, r.signature.isSome = true →
      ∃ r' ∈ c'.state.server.db.requests, r'.id = r.id ∧ r'.signature = r.signature := by
  have hsound := run_sound (P := fun _ => True) hd (fun _ _ _ _ _ _ _ _ _ _ _ _ _ => trivial) hr
  refine ⟨hsound.1.1.1, fun i c' app authorization input id hi hrequest hid hmem => ?_,
    fun i c' app authorization input hi hrequest hfail =>
      findsNone_of_limit hd hr hi hfail hrequest,
    fun i j c' hlock hij hj => ?_, fun c' hs r hmem hsigned => ?_⟩
  · by_cases hdb : c'.state.server.db = c.state.server.db
    · rw [hdb]
    obtain ⟨request, hrequest', hpublishes, -⟩ := Terms.published_of_stepBy hsound hi hdb
    cases hrequest.symm.trans hrequest'
    obtain ⟨row, now, hprepared, -, -, henqueued⟩ := hpublishes
    rw [hprepared.requestId_eq] at hid
    exact henqueued.not_grown (Option.some.inj hid ▸ hmem)
  · by_cases hdb : c'.state.server.db = c.state.server.db
    · rw [hdb]
    refine (Terms.published_of_stepBy hsound hj hdb).requestIds_eq fun hj' => hij ?_
    exact Option.some.inj (hlock.symm.trans hj')
  · have hkeeps : KeepsSignatures c.state.server.db c'.state.server.db := by
      rcases Terms.published_of_step hsound hs with hdb | ⟨j, -, hpublished⟩
      · rw [hdb]
        exact .refl _
      · exact hpublished.keepsSignatures
    obtain ⟨s, hs⟩ := Option.isSome_iff_exists.mp hsigned
    obtain ⟨r', hr', hid, hs'⟩ :=
      exists_of_signatureAt (hkeeps r.id s ((signatureAt_of_mem hmem).trans hs))
    exact ⟨r', hr', hid, hs'.trans hs.symm⟩

end runs

/-- After the exchange, a request is signed, and stays so when time passes. -/
theorem retention_bound_toy :
    ∃ c c', Config.Run (.always machine) (start toyCrates toyRequests emptyDb 0) c ∧
      c.Step (.always machine) c' ∧ c.state.server.db.requests.length ≤ 10000 ∧
      ∃ r ∈ c'.state.server.db.requests, r.signature.isSome = true := by
  obtain ⟨c, hr, hsigned⟩ := toy_exchange
  obtain ⟨r, hmem, hr'⟩ := List.any_eq_true.mp hsigned
  have hnow : machine.env (.ext (.tick 1)) c.state =
      some ⟨c.state.server, (show ℕ from c.state.world) + 1⟩ := rfl
  have htick : Config.Step (.always machine) c ⟨_, c.pool⟩ := .env hnow
  obtain ⟨hbound, -, -, -, hkept⟩ :=
    retention_bound toyCrates toyRequests emptyDb 0 (Nat.zero_le _) hr
  obtain ⟨r', hmem', -, hsignature⟩ := hkept _ htick r hmem hr'
  exact ⟨c, _, hr, htick, hbound, r', hmem', hsignature ▸ hr'⟩

end Reeva.Signer
