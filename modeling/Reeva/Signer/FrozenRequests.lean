import Reeva.Interleaving.Course
import Reeva.Signer.Retention

/-!
# What is signed stays as it is

`create_request` reads the status of a request without a lock, and renews it in a statement that
asks for its expiry only. An approval that began before the request expired may sign it in between;
the renewal then waits for the row, finds it expired still, and changes what is signed. In every run
without such a renewal a signed row stays as it is, and a later approval like the one that signed it
responds with it (`signed_frozen`).
-/

open Interleaving ReadCommitted

namespace Reeva.Signer

/-! ## Renewals -/

/-- How many renewals of a request the audit has. -/
def renewals (id : String) (d : Db) : ℕ :=
  d.audit.countP fun a => a.requestId = id && a.event = "renewed"

/-- A write renews no request that is signed. -/
def SparesSigned : Write → Db → Prop
  | .renew id now, d => ∀ r ∈ d.requests, r.renewable id now = true → r.signature = none
  | _, _ => True

instance (w : Write) (d : Db) : Decidable (SparesSigned w d) := by
  cases w <;> unfold SparesSigned <;> infer_instance

/-- A run renews no request that is signed. -/
abbrev sparing : Guard machine := Guard.onWrites world SparesSigned

section steps

variable {d d' : Db} {now : ℤ} {row r : SigningRequest} {crates : Crates} {id : String}
  {input : Approval}

/-- Events of other kinds, or of other requests, are no renewals. -/
theorem renewals_append {events : List SigningAudit} (haudit : d'.audit = d.audit ++ events)
    (hnone : ∀ a ∈ events, a.requestId = id → a.event ≠ "renewed") :
    renewals id d' = renewals id d := by
  have hzero : (events.countP fun a => a.requestId = id && a.event = "renewed") = 0 := by
    refine List.countP_eq_zero.mpr fun a ha => ?_
    rw [Bool.and_eq_true, decide_eq_true_eq, decide_eq_true_eq]
    exact fun h => hnone a ha h.1 h.2
  rw [renewals, haudit, List.countP_append, hzero, Nat.add_zero, renewals]

/-- `create_request` leaves a signed row, where it renews none. -/
theorem Enqueued.frozen (h : Enqueued (· = none) row now d d') (hr : r ∈ d.requests)
    (hsigned : r.signature ≠ none) :
    r ∈ d'.requests ∧ renewals r.id d' = renewals r.id d := by
  have hleft : r ∈ pruned now d := mem_pruned_of_signed hr hsigned
  cases h with
  | kept hrequests haudit =>
    refine ⟨hrequests ▸ hleft, ?_⟩
    rw [renewals, haudit, renewals]
  | renewed audit hp hevents hrequests haudit =>
    refine ⟨?_, renewals_append haudit fun a ha hid => ?_⟩
    · have hsame : renewal row.id now r = r := if_neg fun h => hsigned (hp r hleft h)
      rw [hrequests, ← hsame]
      exact List.mem_map_of_mem hleft
    · -- What is renewed is another request.
      obtain ⟨rfl, s, hs, hrenewable⟩ := hevents a ha
      have hsid : s.id = row.id := by
        unfold SigningRequest.renewable at hrenewable
        exact of_decide_eq_true (Bool.and_eq_true_iff.mp hrenewable).1
      obtain rfl := eq_of_id (mem_pruned.mp hs).1 hr (hsid.trans hid)
      exact absurd (hp s hs hrenewable) hsigned
  | inserted hgone hroom hrequests haudit =>
    refine ⟨?_, renewals_append haudit fun a ha _ => ?_⟩
    · rw [hrequests]
      exact List.mem_append_left _ hleft
    · rw [List.mem_singleton.mp ha]
      exact (by decide : ("requested" : String) ≠ "renewed")

/-- `approve` leaves it too. -/
theorem Approved.frozen (h : Approved crates id input now d d') (hr : r ∈ d.requests)
    (hsigned : r.signature ≠ none) :
    r ∈ d'.requests ∧ renewals r.id d' = renewals r.id d := by
  cases h with
  | unchanged h =>
    refine ⟨by rw [h]; exact hr, ?_⟩
    rw [renewals, h, renewals]
  | signed before signature hbefore hchecked hrequests haudit =>
    refine ⟨?_, renewals_append haudit fun a ha _ => ?_⟩
    · have hne : r.id ≠ id := fun hid => by
        obtain ⟨hmem, hbid⟩ := mem_of_requestAt hbefore
        obtain rfl := eq_of_id hr hmem (hid.trans hbid.symm)
        exact hchecked.pending ((status_signed_iff hr).mpr (Option.isSome_iff_ne_none.mpr hsigned))
      have hsame : signing id signature r = r := if_neg hne
      rw [hrequests, ← hsame]
      exact List.mem_map_of_mem hr
    · rw [List.mem_singleton.mp ha]
      exact (by decide : ("approved-and-signed" : String) ≠ "renewed")

end steps

/-! ## Runs -/

section runs

variable {crates : Crates} {requests : List Request} {d : Db} {clock : ℕ}
  {c c' : Config machine (Failure ApiError) SigningRequest} {r : SigningRequest}

/-- The handlers keep to what they should publish, in a run that renews nothing signed. -/
theorem sparing_sound (hd : d.requests.length ≤ 10000)
    (hr : Config.Run sparing (start crates requests d clock) c) :
    Sound sparing ((signerTerms surroundings).committing
        (Published crates surroundings (· = none) sparing requests))
      (fun _ response σ => Committed response σ.server.db) (fun _ _ _ => True) c := by
  have hsound : Sound sparing ((signerTerms surroundings).committing
      (Published crates surroundings (· = none) sparing requests)) _ _
      (start crates requests d clock) :=
    signer_sound (S := surroundings) (P := fun _ => True) clock hd (fun _ _ _ _ _ hok => hok)
      fun _ _ _ _ _ _ _ _ _ _ _ _ _ => trivial
  have hrun := Sound.run (Terms.committing_compatible _ _) hsound hr
  exact ⟨hrun.1, fun i program hprogram =>
    wp_mono (fun _ _ h => h) (fun _ _ _ => trivial) (hrun.2 i program hprogram)⟩

/-- A signed row stays as it is, and is not noted to be renewed. -/
theorem frozen_run (hd : d.requests.length ≤ 10000)
    (hr : Config.Run sparing (start crates requests d clock) c)
    (hmem : r ∈ c.state.server.db.requests) (hsigned : r.signature ≠ none)
    (hrest : c.Run sparing c') :
    r ∈ c'.state.server.db.requests ∧
      renewals r.id c'.state.server.db = renewals r.id c.state.server.db := by
  induction hrest with
  | refl => exact ⟨hmem, rfl⟩
  | @tail c₁ c₂ hrun hs ih =>
    have hsound := sparing_sound hd (hr.trans hrun)
    have hstep : r ∈ c₂.state.server.db.requests ∧
        renewals r.id c₂.state.server.db = renewals r.id c₁.state.server.db := by
      rcases Terms.published_of_step hsound hs with hdb | ⟨i, hi, request, hrequest, hpublishes, -⟩
      · rw [hdb]
        exact ⟨ih.1, rfl⟩
      cases request with
      | createRequest app authorization input =>
        obtain ⟨row, now, -, -, -, henqueued⟩ := hpublishes
        exact henqueued.frozen ih.1 hsigned
      | getRequest app authorization id => exact hpublishes.elim
      | approve app authorization id input =>
        obtain ⟨-, -, now, -, happroved⟩ := hpublishes
        exact happroved.frozen ih.1 hsigned
    exact ⟨hstep.1, hstep.2.trans ih.2⟩

/-! ## Later approvals -/

/-- An approval is like one that signs a request. -/
structure SigningRequest.ApprovedBy (crates : Crates) (r : SigningRequest) (input : Approval) :
    Prop where
  identifier : validHex r.id = true
  read : ∃ bytes manifest, parsePayload r.payload r.product = .ok (bytes, manifest) ∧
    input.Matches r manifest

/-- An answer of the key store shows the key of a request. -/
def ShowsKey (crates : Crates) (r : SigningRequest) (value : Json) : Prop :=
  ∃ key, readKey crates r.product (some r.keyVersion) value = .ok key ∧ key.keyId = r.keyId

/-- Whenever the key store answers with the key of a request, it is the same key. -/
def KeepsKey (crates : Crates) (r : SigningRequest) : Guard machine := fun _ s ch _ =>
  ∀ value, s = .ext (Call.bao "GET" ("transit/keys/reeva-" ++ r.product) none) →
    ch = .ext (.answer value) → ShowsKey crates r value

/-- A failure that says nothing about the request. -/
def Transient (e : Failure ApiError) : Prop :=
  (∃ e', e = .database e') ∨ e = .raised unavailable ∨
    e = .raised ⟨.tooManyRequests, "Signer concurrency limit reached."⟩

/-- What was heard of the key of a request. -/
def Heard (crates : Crates) (r : SigningRequest) (product : String)
    (result : Except ApiError Json) : Prop :=
  product = r.product → result = .error unavailable ∨
    ∃ value, result = .ok value ∧ ShowsKey crates r value

/-- An approval of a signed request is rejected for a transient reason only. -/
theorem Rejected.transient {app : App} {authorization : Option String} {input : Approval}
    {e : Failure ApiError} (h : Rejected crates app authorization r.id input (· = some r)
      (Heard crates r) e) (hsigned : r.status = .signed) (hinput : r.ApprovedBy crates input)
    (hauth : checkAuth crates authorization app.approverHash = .ok ()) : Transient e := by
  obtain ⟨hidentifier, bytes, manifest, hread, hmatches⟩ := hinput
  cases h with
  | database e => exact .inl ⟨e, rfl⟩
  | identity e h => cases hauth.symm.trans h
  | identifier h => cases hidentifier.symm.trans h
  | busy => exact .inr (.inr rfl)
  | missing hseen => cases hseen
  | payload r' e hseen h =>
    rw [Option.some.inj hseen] at h
    cases hread.symm.trans h
  | mismatch r' bytes' manifest' hseen hread' h =>
    rw [Option.some.inj hseen] at hread' h
    obtain ⟨-, rfl⟩ := Prod.mk.inj (Except.ok.inj (hread.symm.trans hread'))
    exact absurd hmatches h
  | key r' e hseen h =>
    rw [Option.some.inj hseen] at h
    cases h with
    | product h => cases (parsePayload_slug hread).symm.trans h
    | failed htold => exact .inr (.inl rfl)
    | read answer e htold h =>
      rcases htold rfl with hfailed | ⟨value, hvalue, key, hkey, -⟩
      · cases hfailed
      · rw [Except.ok.inj hvalue] at h
        cases hkey.symm.trans h
  | changed r' answer key hseen htold hread' h =>
    rw [Option.some.inj hseen] at htold hread' h
    rcases htold rfl with hfailed | ⟨value, hvalue, key', hkey', hid⟩
    · cases hfailed
    · rw [Except.ok.inj hvalue] at hread'
      rw [Except.ok.inj (hread'.symm.trans hkey')] at h
      exact absurd hid h
  | unsigned r' e hseen h =>
    rw [Option.some.inj hseen] at h
    exact absurd hsigned h

/-- An approval that comes later finds the request, and responds with it. -/
theorem later_approval (hd : d.requests.length ≤ 10000)
    (hr : Config.Run sparing (start crates requests d clock) c)
    (hmem : r ∈ c.state.server.db.requests) (hsigned : r.status = .signed)
    (hrest : c.Run (fun i s ch σ => sparing i s ch σ ∧ KeepsKey crates r i s ch σ) c') {j : ℕ}
    {app : App} {authorization : Option String} {input : Approval}
    (hj : requests[j]? = some (.approve app authorization r.id input))
    (hinput : r.ApprovedBy crates input)
    (hauth : checkAuth crates authorization app.approverHash = .ok ())
    (hwaits : c.pool[j]? = some (approve crates app authorization r.id input)) :
    (∀ response, c'.pool[j]? = some (.ret response) → response = r) ∧
      ∀ e, c'.pool[j]? = some (.fail e) → c'.state.server.gone j = false → Transient e := by
  have hsignature : r.signature ≠ none :=
    Option.isSome_iff_ne_none.mp ((status_signed_iff hmem).mp hsigned)
  have hcompatible := Terms.committing_compatible (signerTerms surroundings)
    (Published crates surroundings (· = none) sparing requests)
  -- The approval has not started, so that it has no transaction and holds nothing.
  have hstart := sparing_sound hd (.refl : Config.Run sparing (start crates requests d clock) _)
  have hidle : (Possession.nothing j).Holds none (fun _ _ => True)
      (⟨Server.idle d, clock⟩ : State) :=
    ⟨fun _ => rfl, fun _ => ⟨Possession.nothing_has j _, trivial⟩⟩
  have hrely := hstart.waits hcompatible hr (program_of_request hj) hwaits
  have hholds := (Possession.Fact.const (T := signerTerms surroundings) True).stable _ _ hrely hidle
  -- The request is there all the time.
  have hthere := hrest.throughout (P := fun σ : State => r ∈ σ.server.db.requests)
    fun c₁ h₁ _ => (frozen_run hd hr hmem hsignature (h₁.mono fun _ _ _ _ h => h.1)).1
  have hheard : ∀ product ch result (σ : State) w,
      KeepsKey crates r j (.ext (Call.bao "GET" ("transit/keys/reeva-" ++ product) none))
        (.ext ch) σ →
      world.run j (Call.bao "GET" ("transit/keys/reeva-" ++ product) none) ch σ.world =
        some (result, w) → Heard crates r product result := by
    intro product ch result σ w hkeepsKey hrun hproduct
    subst hproduct
    cases ch with
    | answer value =>
      exact .inr ⟨value, (Prod.mk.inj (Option.some.inj hrun)).1.symm, hkeepsKey value rfl rfl⟩
    | failed => exact .inl (Prod.mk.inj (Option.some.inj hrun)).1.symm
    | _ => cases hrun
  have hkeeps : Triple (fun i s ch σ => (sparing i s ch σ ∧ KeepsKey crates r i s ch σ) ∧
      r ∈ σ.server.db.requests) ((signerTerms surroundings).committing
      (Published crates surroundings (· = none) sparing requests)) j _
      (approve crates app authorization r.id input) _ _ := approve_keeps (S := surroundings) crates
    app authorization r.id input (· = some r) (Heard crates r)
    (fun s ch σ h => requestAt_of_mem h.2)
    (fun product ch result σ w h => hheard product ch result σ w h.1.2)
    (fun now φ σ σ' r' hauth hok htime hr' hexpires h =>
      ⟨_, hj, ⟨hauth, ⟨r', hr', hexpires⟩, now, htime, h⟩, φ, hok.1.1⟩)
  have hsound := sparing_sound hd hr
  have hend := (hsound.refocus (fun _ _ _ _ h => h.1.1) hwaits
    (hkeeps _ hsound.1 hholds)).run hcompatible hthere
  refine ⟨fun response hresponse => ?_, fun e hfail hgone => ?_⟩
  · have hreturned := hend.returned hcompatible hresponse
    rw [Function.update_self] at hreturned
    obtain ⟨-, r', hseen, hsame⟩ := hreturned
    rw [Option.some.inj hseen] at hsame
    exact hsame hsigned
  · have hfailed := hend.failed hcompatible hfail
    rw [Function.update_self] at hfailed
    exact (hfailed hgone).transient hsigned hinput hauth

/-- It responds where nobody keeps it waiting and the key store shows the key. -/
theorem later_approval_completes {ok : Guard machine} (hok : ∀ i, AllowsOthers (X := world) ok i)
    {j : ℕ} {app : App} {authorization : Option String}
    {input : Approval} {found : Json} (hmem : r ∈ c.state.server.db.requests)
    (hsigned : r.status = .signed) (hinput : r.ApprovedBy crates input)
    (hauth : checkAuth crates authorization app.approverHash = .ok ())
    (hfound : ShowsKey crates r found)
    (hwaits : c.pool[j]? = some (approve crates app authorization r.id input))
    (hrests : Rests (D := schema) j c.state.server.db c.state.server) :
    ∃ c', c.Run ok c' ∧ c'.pool[j]? = some (.ret r) ∧
      c'.state.server.db = c.state.server.db := by
  obtain ⟨key, hkey, hid⟩ := hfound
  obtain ⟨hidentifier, bytes, manifest, hread, hmatches⟩ := hinput
  have happrovable : Approvable crates app authorization r.id input c.state.server.db r bytes key
      found :=
    ⟨hauth, hidentifier, requestAt_of_mem hmem, ⟨manifest, hread, hmatches⟩, hkey, hid⟩
  obtain ⟨_, σ, happrove, rfl, -, hrests'⟩ :=
    approve_attains_signed (X := world) (i := j) (σ := c.state) happrovable
      (answering_world j r.product found c.state.world) hrests (hok j) hsigned
  refine ⟨_, happrove.run rfl hwaits, ?_, hrests'.db⟩
  exact List.getElem?_set_self (List.getElem?_eq_some_iff.mp hwaits).1

end runs

/-- A run that renews nothing signed allows all but renewals. -/
theorem allowsOthers_sparing (i : ℕ) : AllowsOthers (X := world) sparing i := by
  intro s ch σ hs
  cases s with
  | db s =>
    cases s with
    | write w =>
      cases w with
      | renew id now => exact absurd rfl (hs id now)
      | _ => exact trivial
    | _ => exact trivial
  | _ => exact trivial

/-- In every run that renews nothing signed, a signed row stays as it is, and nothing notes that it
was renewed. An approval that comes later and is like the one that signed it, of an approver,
responds with it or fails for a transient reason, as long as the key store shows the same key; and
it does respond where nobody keeps it waiting and the key store answers. -/
theorem signed_frozen (crates : Crates) (requests : List Request) (d : Db) (clock : ℕ)
    (hd : d.requests.length ≤ 10000) {c c' : Config machine (Failure ApiError) SigningRequest}
    {r : SigningRequest} (hr : Config.Run sparing (start crates requests d clock) c)
    (hmem : r ∈ c.state.server.db.requests) (hsigned : r.status = .signed)
    (hrest : c.Run sparing c') :
    r ∈ c'.state.server.db.requests ∧
    renewals r.id c'.state.server.db = renewals r.id c.state.server.db ∧
    ∀ j app authorization input, requests[j]? = some (.approve app authorization r.id input) →
      r.ApprovedBy crates input → checkAuth crates authorization app.approverHash = .ok () →
      c.pool[j]? = some (approve crates app authorization r.id input) →
      (c.Run (fun i s ch σ => sparing i s ch σ ∧ KeepsKey crates r i s ch σ) c' →
        (∀ response, c'.pool[j]? = some (.ret response) → response = r) ∧
        ∀ e, c'.pool[j]? = some (.fail e) → c'.state.server.gone j = false → Transient e) ∧
      ∀ found, ShowsKey crates r found →
        Rests (D := schema) j c.state.server.db c.state.server →
        ∃ c'', c.Run sparing c'' ∧ c''.pool[j]? = some (.ret r) ∧
          c''.state.server.db = c.state.server.db := by
  have hsignature : r.signature ≠ none :=
    Option.isSome_iff_ne_none.mp ((status_signed_iff hmem).mp hsigned)
  obtain ⟨hthere, hrenewals⟩ := frozen_run hd hr hmem hsignature hrest
  refine ⟨hthere, hrenewals, fun j app authorization input hj hinput hauth hwaits =>
    ⟨fun hkeeps => ?_, fun found hfound hrests => ?_⟩⟩
  · exact later_approval hd hr hmem hsigned hkeeps hj hinput hauth hwaits
  · exact later_approval_completes allowsOthers_sparing hmem hsigned hinput hauth hfound hwaits
      hrests

/-- After the exchange, the approval is repeated, and the row that is signed is still there. -/
theorem signed_frozen_toy :
    ∃ c c', Config.Run sparing
        (start toyCrates (toyRequests ++ [toyExchange.approve (epoch 0)]) emptyDb 0) c ∧
      c.Run sparing c' ∧ c'.pool[2]? = some (.ret (toyExchange.response (epoch 0))) ∧
      toyExchange.response (epoch 0) ∈ c'.state.server.db.requests ∧
      renewals toyExchange.id c'.state.server.db = renewals toyExchange.id c.state.server.db := by
  have hcreate : (toyRequests ++ [toyExchange.approve (epoch 0)])[0]? =
      some toyExchange.request := rfl
  have happrove : (toyRequests ++ [toyExchange.approve (epoch 0)])[1]? =
      some (toyExchange.approve (epoch 0)) := by
    rw [toyExchange_approve]
    rfl
  have hagain : (toyRequests ++ [toyExchange.approve (epoch 0)])[2]? =
      some (toyExchange.approve (epoch 0)) := rfl
  obtain ⟨c, h⟩ := exchange_run (d := emptyDb) allowsOthers_sparing toyCrates_fitting toyExchange 0
    (by decide) hcreate happrove (fun _ h => by cases h) (by decide) (by decide)
  have hmem : toyExchange.response (epoch 0) ∈ c.state.server.db.requests := by
    rw [h.requests]
    exact List.mem_append_right _ (List.mem_singleton_self _)
  have hwaits : c.pool[2]? = some ((toyExchange.approve (epoch 0)).program toyCrates) := by
    rw [h.pool, List.getElem?_set_ne (by decide), List.getElem?_set_ne (by decide)]
    exact program_of_request hagain
  -- What is asked for again is like what was approved.
  have happrovable := toyExchange.approvable toyCrates_fitting (epoch 0) (.inr rfl) hmem
  obtain ⟨c', hrun, hresponse, -⟩ := later_approval_completes allowsOthers_sparing (j := 2) hmem rfl
    ⟨happrovable.identifier, _, happrovable.read⟩ happrovable.approver
    ⟨_, happrovable.readKey, happrovable.keyId⟩ hwaits (h.rests 2 (by decide) (by decide))
  obtain ⟨hthere, hrenewals, -⟩ := signed_frozen toyCrates
    (toyRequests ++ [toyExchange.approve (epoch 0)]) emptyDb 0 (Nat.zero_le _) h.run hmem rfl hrun
  exact ⟨c, c', h.run, hrun, hresponse, hthere, hrenewals⟩

end Reeva.Signer
