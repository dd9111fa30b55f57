import Reeva.Interleaving.Joint
import Reeva.Signer.Publications

/-!
# The handlers of the signer

Each handler, on terms that say what its locks protect, publishes what it should
(`Request.Publishes`) and responds with what is committed. The outside world is a parameter: of the
clock it matters only that a transaction keeps its time, and of the key store with which error it
fails (`Surroundings`). Every run of the handlers keeps to that (`signer_sound`).
-/

open Interleaving ReadCommitted

namespace Reeva.Signer

/-! ## The terms of the handlers -/

/-- What the handlers count on in the outside world: that a transaction keeps its time, and that a
call of the key store fails with the one error. -/
structure Surroundings (X : Machine calls) extends OutsideWorld X where
  /-- The transaction of program `i` has this time. -/
  time : ℕ → ℤ → X.State → Prop
  time_stays : ∀ i now w w', rely i w w' → time i now w → time i now w'
  time_now : ∀ i ch w (now : ℤ) w', X.run i Call.now ch w = some (now, w') → time i now w'
  time_bao : ∀ i method path body ch w r w' now,
    X.run i (.bao method path body) ch w = some (r, w') → time i now w → time i now w'
  unavailable : ∀ i method path body ch w error w',
    X.run i (.bao method path body) ch w = some (.error error, w') → error = unavailable

/-- The surroundings of which nothing is known. -/
def surroundings : Surroundings world where
  rely _ _ _ := True
  refl _ _ := trivial
  trans _ _ _ _ _ _ := trivial
  env _ _ _ _ _ := trivial
  run _ _ _ _ _ _ _ _ _ := trivial
  time _ _ _ := True
  time_stays _ _ _ _ _ _ := trivial
  time_now _ _ _ _ _ _ := trivial
  time_bao _ _ _ _ _ _ _ _ _ _ _ := trivial
  unavailable i method path body ch w error w' h := by
    cases ch with
    | failed => exact (Except.error.inj (Prod.mk.inj (Option.some.inj h)).1).symm
    | answer value => cases (Prod.mk.inj (Option.some.inj h)).1
    | _ => cases h

section terms

variable {X : Machine calls} (S : Surroundings X)

/-- The terms of the handlers. -/
def signerTerms : Terms schema X :=
  ((lockTerms X 1 expiries (fun d : Db => d.requests.length ≤ 10000) KeepsSignatures
    KeepsSignatures.refl KeepsSignatures.trans).both (rowTerms X requestAt)).both
    (worldTerms schema S.toOutsideWorld)

variable {S} {i : ℕ} {rows rows' : List Row}

/-- What `create_request` has: the advisory lock, the rows that it prunes, and others. -/
def writer (i : ℕ) (rows rows' : List Row) : Possession schema i :=
  ((Possession.lock i 1).both (.rows i rows)).both (.rows i rows')

/-- It finds what its locks protect as it was. -/
theorem lock_rely {σ σ' : System schema X.State} (hr : (signerTerms S).rely i σ σ')
    (hg : σ'.server.gone i = false)
    (h : ((Possession.lock i 1).both (.rows i rows)).has σ.server) :
    expiries σ'.server.db = expiries σ.server.db ∧ KeepsSignatures σ.server.db σ'.server.db ∧
      ∀ r ∈ rows, requestAt r σ'.server.db = requestAt r σ.server.db := by
  obtain ⟨⟨⟨hkeeps, hlock⟩, hrow⟩, -⟩ := hr
  exact ⟨(hlock.held hg h.1).2, hkeeps, fun r hmem => (hrow.held hg r (h.2 r hmem)).2⟩

theorem writer_rely {σ σ' : System schema X.State} (hr : (signerTerms S).rely i σ σ')
    (hg : σ'.server.gone i = false) (h : (writer i rows rows').has σ.server) :
    expiries σ'.server.db = expiries σ.server.db ∧ KeepsSignatures σ.server.db σ'.server.db ∧
      (∀ r ∈ rows, requestAt r σ'.server.db = requestAt r σ.server.db) ∧
      ∀ r ∈ rows', requestAt r σ'.server.db = requestAt r σ.server.db := by
  obtain ⟨hexpiries, hkeeps, hrows⟩ := lock_rely hr hg h.1
  exact ⟨hexpiries, hkeeps, hrows, fun r hmem => (hr.1.2.held hg r (h.2 r hmem)).2⟩

/-- The time of a transaction. -/
theorem time_fact (L : Possession schema i) (now : ℤ) :
    L.Fact (signerTerms S) fun _ w => S.time i now w := fun _ _ hr _ _ =>
  S.time_stays i now _ _ hr.2

/-- What is pruned. -/
theorem pruned_fact (now : ℤ) (rows : List Row) :
    ((Possession.lock i 1).both (.rows i rows)).Fact (signerTerms S) fun d _ =>
      Pruned now rows d := by
  intro σ σ' hr hg hl h
  obtain ⟨hexpiries, hkeeps, hrows⟩ := lock_rely hr hg hl
  exact h.stays hexpiries hkeeps hrows

/-- What is not there, and how many requests there are. -/
theorem absent_fact (id : String) (now : ℤ) (rows : List Row) (q : ℕ → Prop) :
    ((Possession.lock i 1).both (.rows i rows)).Fact (signerTerms S) fun d _ =>
      Absent id now rows d ∧ q (pruned now d).length := by
  rintro σ σ' hr hg hl ⟨h, hq⟩
  obtain ⟨hexpiries, hkeeps, hrows⟩ := lock_rely hr hg hl
  obtain ⟨h', hlength⟩ := h.stays hexpiries hkeeps hrows
  exact ⟨h', by rwa [hlength]⟩

/-- What is renewed. -/
theorem renewing_fact (p : Option String → Prop) (id : String) (now : ℤ) (n : ℕ)
    (rows rows' : List Row) :
    (writer i rows rows').Fact (signerTerms S) fun d _ => Renewing p id now n rows rows' d := by
  intro σ σ' hr hg hl h
  obtain ⟨hexpiries, hkeeps, hrows, hrows'⟩ := writer_rely hr hg hl
  exact h.stays hexpiries hkeeps hrows hrows'

/-- What is known at the commit. -/
theorem enqueuing_fact (p : Option String → Prop) (row : SigningRequest) (now : ℤ)
    (rows rows' : List Row) (ws : List Write) :
    (writer i rows rows').Fact (signerTerms S) fun d _ => Enqueuing p row now rows rows' ws d := by
  intro σ σ' hr hg hl h
  obtain ⟨hexpiries, hkeeps, hrows, hrows'⟩ := writer_rely hr hg hl
  exact h.stays hexpiries hkeeps hrows hrows'

/-- A response that is committed. -/
theorem committed_response (L : Possession schema i) (response : SigningRequest) :
    L.Fact (signerTerms S) fun d _ => Committed response d := fun _ _ hr _ _ h => h.stays hr.1.1.1

/-- What `approve` has: the row of its request. -/
theorem approving_fact (crates : Crates) (id : String) (input : Approval) (now : ℤ)
    (response : SigningRequest) (ws : List Write) :
    (Possession.rows i [Row.request id]).Fact (signerTerms S) fun d _ =>
      Approving crates id input now response ws d := by
  intro σ σ' hr hg hl h
  have hrow := (hr.1.2.held hg (.request id) (hl _ (List.mem_singleton.mpr rfl))).2
  cases h with
  | unchanged hr hexpires hws => exact .unchanged (hrow.trans hr) hexpires hws
  | signed r signature hr hchecked hresponse hws =>
    exact .signed r signature (hrow.trans hr) hchecked hresponse hws

/-- It finds its request as it was. -/
theorem request_fact (id : String) (q : Option SigningRequest → Prop) :
    (Possession.rows i [Row.request id]).Fact (signerTerms S) fun d _ =>
      q (requestAt (.request id) d) := by
  intro σ σ' hr hg hl h
  have hrow := (hr.1.2.held hg (.request id) (hl _ (List.mem_singleton.mpr rfl))).2
  change q (requestAt (.request id) σ'.server.db)
  rw [hrow]
  exact h

/-- A call that the surroundings allow. -/
theorem signer_ext {σ : System schema X.State} {c : calls.Stmt} {ch : X.Choice} {r : calls.Res c}
    {w : X.State} (hi : (signerTerms S).inv σ) (h : X.run i c ch σ.world = some (r, w)) :
    (signerTerms S).inv ⟨σ.server, w⟩ ∧ (signerTerms S).guar i σ ⟨σ.server, w⟩ :=
  Terms.both_move (Terms.both_move (lockTerms_ext hi.1.1)
    ⟨trivial, fun _ _ => ⟨id, fun _ _ h => ⟨h, rfl⟩⟩⟩)
    ⟨trivial, fun j hij => S.run i j c ch _ r w hij h⟩

/-- A write within a transaction. -/
theorem signer_write {σ : System schema X.State} {ws : List Write} {w : Write}
    (hi : (signerTerms S).inv σ) (htx : σ.server.tx i = some ws)
    (hfree : ∀ l ∈ schema.locks w (σ.server.view i), σ.server.free i l = true) :
    (signerTerms S).inv ⟨σ.server.record i w, σ.world⟩ ∧
      (signerTerms S).guar i σ ⟨σ.server.record i w, σ.world⟩ :=
  Terms.both_move (Terms.both_move (lockTerms_write hi.1.1 htx hfree)
    ⟨trivial, rowTerms_write htx hfree⟩) ⟨trivial, fun j _ => S.refl j _⟩

/-- A commit that keeps the bound and the signatures, and otherwise what the locks of others
protect. -/
theorem signer_commit {σ : System schema X.State} {d : Db} (hbound : d.requests.length ≤ 10000)
    (hkeeps : KeepsSignatures σ.server.db d)
    (hlock : σ.server.advisory 1 = some i ∨ expiries d = expiries σ.server.db)
    (hrows : ∀ r, σ.server.owner r ≠ some i → requestAt r d = requestAt r σ.server.db) :
    (signerTerms S).inv ⟨{ σ.server.release i with db := d }, σ.world⟩ ∧
      (signerTerms S).guar i σ ⟨{ σ.server.release i with db := d }, σ.world⟩ :=
  Terms.both_move (Terms.both_move (lockTerms_commit hbound hkeeps hlock)
    ⟨trivial, rowTerms_commit hrows⟩) ⟨trivial, fun j _ => S.refl j _⟩

end terms

/-! ## The handlers -/

section handlers

variable {X : Machine calls} {S : Surroundings X} {ok : Guard (Service schema X)} {i : ℕ}
  {G : ℕ → System schema X.State → System schema X.State → Prop} {p : Option String → Prop}
  {P : Prop}

/-- What is known of a failure with the error of a full table. -/
def Limited (P : Prop) (e : Failure ApiError) : Db → X.State → Prop := fun _ _ =>
  e = .raised retentionLimit → P

/-- The transaction of `create_request` publishes what it should, and responds with what is
committed. It fails with the error of a full table only where it holds the lock and the request is
not there. -/
theorem enqueue_keeps {row : SigningRequest} (hpending : row.signature = none)
    (hp : ∀ now φ (σ : System schema X.State),
      ok i (.db (.write (Write.renew row.id now))) (.db φ) σ →
      ∀ r ∈ σ.server.db.requests, r.renewable row.id now = true → p r.signature)
    (hG : ∀ now φ (σ σ' : System schema X.State), ok i (.db .commit) (.db φ) σ →
      σ.server.advisory 1 = some i → S.time i now σ.world →
      Enqueued p row now σ.server.db σ'.server.db → G i σ σ')
    (hP : ∀ s ch (σ : System schema X.State), ok i s ch σ → σ.server.advisory 1 = some i →
      row.id ∉ requestIds σ.server.db → P) :
    Triple ok ((signerTerms S).committing G) i ((Possession.nothing i).Holds none fun _ _ => True)
      (enqueue row) (fun response σ => Committed response σ.server.db)
      fun e => (Possession.nothing i).Holds none (Limited P e) := by
  have hdatabase : ∀ (e : DbError) d w, Limited (X := X) P (.database e) d w := fun e _ _ h => by
    cases h
  have failed : ∀ (e : DbError) (σ : System schema X.State),
      (Possession.nothing i).Known (Limited P (.database e)) σ :=
    fun e σ _ => ⟨Possession.nothing_has i _, hdatabase e _ _⟩
  refine Possession.transaction_ends (D := schema) (X := X) (ι := ℤ × List Row × List Row)
    (fun l => writer i l.2.1 l.2.2) (R := Limited P)
    (B := fun response ws l d w => Committed response d ∧
      Enqueuing p row l.1 l.2.1 l.2.2 ws d ∧ S.time i l.1 w)
    (Q := fun response σ => Committed response σ.server.db) (.const True) (fun e => .const _)
    (fun response ws l => (committed_response _ response).and
      ((enqueuing_fact p row l.1 l.2.1 l.2.2 ws).and (time_fact _ l.1)))
    (fun response _ _ hr h => h.stays hr.2.1.1.1)
    (fun e _ _ _ => hdatabase e _ _) (fun e _ _ _ _ _ _ => hdatabase e _ _) ?_ ?_
  · refine Possession.ext_rule (E := calls) (e := Call.now) (B := fun now _ w => S.time i now w)
      (.const True) (fun σ c r w hi _ _ h => ?_) fun now => ?_
    · exact ⟨(signer_ext hi h).1, (signer_ext hi h).2, S.time_now i c _ r w h⟩
    refine Possession.advisory_rule (n := 1) (M := .lock i 1) (time_fact _ now)
      (fun srv _ => (Function.update_self .. : Function.update srv.advisory 1 (some i) 1 = some i))
      (fun e σ _ => failed e σ) ?_
    refine Possession.write_taking_rule (D := schema) (X := X) (w := Write.prune now)
      (A := fun _ w => S.time i now w) (B := fun _ rows d w => Pruned now rows d ∧ S.time i now w)
      (time_fact _ now)
      (fun σ hi htx _ _ hfree => signer_write hi htx hfree)
      (fun σ φ n d _ h _ _ => ⟨prunedRows now σ.server.db,
        fun r hr => prunedRows_locked hr, pruned_prunedRows now _, h⟩)
      (fun e σ _ => failed e σ) fun _ rows => ?_
    -- The rows that are pruned are locked; the request is looked up among what is left.
    have hpruned := (pruned_fact (S := S) (i := i) now rows).and (time_fact _ now)
    refine Possession.query_rule (L := (Possession.lock i 1).both (.rows i rows))
      (f := fun d : schema.Db => (Db.toTables d).request row.id)
      (B := fun found d w => (Pruned now rows d ∧ S.time i now w) ∧
        (found = none → Absent row.id now rows d) ∧ ∀ r, found = some r → Committed r d)
      hpruned (fun σ _ h => ⟨h, absent_of_none h.1, fun r hr => ?_⟩) (fun e σ _ => failed e σ)
      fun existing => ?_
    · obtain ⟨hmem, -⟩ := mem_of_found hr
      exact committed_of_mem (mem_pruned.mp hmem).1
    have hrefl : ∀ srv : Server schema, ((Possession.lock i 1).both (.rows i rows)).has srv →
        (writer i rows []).has srv := fun srv h => ⟨h, fun _ h => by cases h⟩
    cases existing with
    | some found =>
      have hfound := hpruned.and (committed_response (S := S) _ found)
      refine Triple.mono (A := ((Possession.lock i 1).both (.rows i rows)).Holds
        (some [.prune now]) fun d w => (Pruned now rows d ∧ S.time i now w) ∧ Committed found d) ?_
        (fun σ h => h.mono (fun _ h => h) fun _ _ h => ⟨h.1, h.2.2 found rfl⟩) (fun _ _ h => h)
        fun _ _ h => h
      dsimp only
      by_cases hstatus : found.status = .pending
      · rw [if_pos hstatus]
        refine Possession.write_taking_rule (w := Write.renew row.id now)
          (F := fun e => (Possession.nothing i).Known (Limited P e))
          (B := fun n rows' d w => Committed found d ∧ Renewing p row.id now n rows rows' d ∧
            S.time i now w) hfound
          (fun σ hi htx _ _ hfree => signer_write hi htx hfree)
          (fun σ φ n d _ h hok happly => ⟨renewedRows row.id now σ.server.db,
            fun r hr => renewedRows_locked hr, h.2,
            renewing_of_apply h.1.1 (hp now φ σ hok) happly, h.1.2⟩)
          (fun e σ _ => failed e σ) fun n rows' => ?_
        have hrenewing := (renewing_fact (S := S) (i := i) p row.id now n rows rows').and
          (time_fact _ now)
        refine Possession.query_rule (L := writer i rows rows')
          (f := fun d : schema.Db => if n = 0 then none else (Db.toTables d).request row.id)
          (B := fun renewed d w => Committed found d ∧
            (Renewing p row.id now n rows rows' d ∧ S.time i now w) ∧
            ∀ r, renewed = some r → n ≠ 0 ∧ Committed r d)
          ((committed_response _ found).and hrenewing) (fun σ _ h => ⟨h.1, h.2, fun r hr => ?_⟩)
          (fun e σ _ => failed e σ) fun renewed => ?_
        · by_cases hn : n = 0
          · rw [if_pos hn] at hr
            cases hr
          · rw [if_neg hn] at hr
            obtain ⟨r', hr', hid, hsignature⟩ := exists_of_found hr
            refine ⟨hn, fun s hs => ?_⟩
            rw [← hid, signatureAt_of_mem hr', hsignature, hs]
        cases renewed with
        | none =>
          refine Triple.mono (A := (writer i rows rows').Holds _ fun d w => Committed found d ∧
            Renewing p row.id now n rows rows' d ∧ S.time i now w) ?_
            (fun σ h => h.mono (fun _ h => h) fun _ _ h => ⟨h.1, h.2.1⟩) (fun _ _ h => h)
            fun _ _ h => h
          refine Possession.ret_rule (a := found) ((committed_response _ found).and hrenewing)
            fun σ h => ⟨_, (now, rows, rows'), h.mono (fun _ h => h) fun _ _ h => ?_⟩
          exact ⟨h.1, .renewed n [] h.2.1 (fun _ ha => by cases ha) rfl, h.2.2⟩
        | some value =>
          refine Triple.mono (A := (writer i rows rows').Holds _ fun d w => Committed value d ∧
            (Renewing p row.id now n rows rows' d ∧ S.time i now w) ∧ n ≠ 0) ?_
            (fun σ h => h.mono (fun _ h => h) fun _ _ h => ⟨(h.2.2 value rfl).2, h.2.1,
              (h.2.2 value rfl).1⟩) (fun _ _ h => h) fun _ _ h => h
          have hvalue := (committed_response _ value).and (hrenewing.and (.const (n ≠ 0)))
          refine Possession.write_rule (w := Write.insertAudit ⟨row.id, "renewed", "requester"⟩)
            (F := fun e => (Possession.nothing i).Known (Limited P e)) hvalue
            (fun σ hi htx _ _ hfree => signer_write hi htx hfree) (fun e σ _ => failed e σ)
            fun _ => ?_
          refine Possession.ret_rule (a := value) hvalue
            fun σ h => ⟨_, (now, rows, rows'), h.mono (fun _ h => h) fun _ _ h => ?_⟩
          refine ⟨h.1, .renewed n [⟨row.id, "renewed", "requester"⟩] h.2.1.1 (fun a ha => ?_) rfl,
            h.2.1.2⟩
          exact ⟨List.mem_singleton.mp ha, h.2.2⟩
      · rw [if_neg hstatus]
        refine Possession.ret_rule (a := found) hfound
          fun σ h => ⟨_, (now, rows, []), h.mono hrefl fun _ _ h => ?_⟩
        exact ⟨h.2, .kept h.1.1 rfl, h.1.2⟩
    | none =>
      have habsent := fun q : ℕ → Prop =>
        (absent_fact (S := S) (i := i) row.id now rows q).and (time_fact _ now)
      refine Triple.mono (A := ((Possession.lock i 1).both (.rows i rows)).Holds
        (some [.prune now]) fun d w => (Absent row.id now rows d ∧ True) ∧ S.time i now w) ?_
        (fun σ h => h.mono (fun _ h => h) fun _ _ h => ⟨⟨h.2.1 rfl, trivial⟩, h.1.2⟩)
        (fun _ _ h => h) fun _ _ h => h
      dsimp only
      refine Possession.query_run_rule (L := (Possession.lock i 1).both (.rows i rows))
        (f := fun d : schema.Db => (Db.toTables d).requests.length)
        (B := fun n d w => (Absent row.id now rows d ∧
          ((pruned now d).length = n ∧ (10000 ≤ n → P))) ∧ S.time i now w)
        (habsent fun _ => True) (fun σ φ hi hl h hok => ?_) (fun e σ _ => failed e σ)
        fun count => ?_
      · have hcount := congrArg List.length (requests_applyAll_prune now σ.server.db)
        refine ⟨⟨h.1.1, hcount.symm, fun hfull => hP _ _ σ hok hl.1
          (notMem_of_full h.1.1 hi.1.1 ?_)⟩, h.2⟩
        rwa [← hcount]
      by_cases hfull : 10000 ≤ count
      · have hrefuse : refuse (10000 ≤ count) retentionLimit = raise retentionLimit := if_pos hfull
        rw [hrefuse]
        intro σ _ h σ₁ hr _ hg
        exact ⟨Possession.nothing_has i _, fun _ => (h.2 (hr.1.gone_eq_false hg)).2.1.2.2 hfull⟩
      have hroom : refuse (10000 ≤ count) retentionLimit = pure () := if_neg hfull
      rw [hroom]
      refine Triple.mono (A := ((Possession.lock i 1).both (.rows i rows)).Holds
        (some [.prune now]) fun d w => (Absent row.id now rows d ∧ (pruned now d).length < 10000) ∧
          S.time i now w) ?_
        (fun σ h => h.mono (fun _ h => h) fun _ _ h => ⟨⟨h.1.1, by omega⟩, h.2⟩) (fun _ _ h => h)
        fun _ _ h => h
      refine Possession.write_taking_rule (w := Write.insertRequest _)
        (F := fun e => (Possession.nothing i).Known (Limited P e))
        (B := fun _ (rows' : List Row) d w => ((Absent row.id now rows d ∧
          (pruned now d).length < 10000) ∧ S.time i now w) ∧ Row.request row.id ∈ rows')
        (habsent (· < 10000)) (fun σ hi htx _ _ hfree => signer_write hi htx hfree)
        (fun σ φ n d _ h _ _ => ⟨[.request row.id], fun r hr => ?_, h, List.mem_singleton.mpr rfl⟩)
        (fun e σ _ => failed e σ) fun _ rows' => ?_
      · rw [List.mem_singleton.mp hr]
        exact List.mem_cons_of_mem _ (List.mem_singleton.mpr rfl)
      have hinserted : (writer i rows rows').Fact (signerTerms S) fun d w =>
          ((Absent row.id now rows d ∧ (pruned now d).length < 10000) ∧ S.time i now w) ∧
            Row.request row.id ∈ rows' :=
        ((habsent (· < 10000)).more fun srv (h : (writer i rows rows').has srv) => h.1).and
          (.const _)
      refine Possession.write_rule (w := Write.insertAudit ⟨row.id, "requested", "requester"⟩)
        (F := fun e => (Possession.nothing i).Known (Limited P e)) hinserted
        (fun σ hi htx _ _ hfree => signer_write hi htx hfree) (fun e σ _ => failed e σ)
        fun _ => ?_
      refine Possession.ret_rule hinserted
        fun σ h => ⟨_, (now, rows, rows'), h.mono (fun _ h => h) fun _ _ h => ?_⟩
      refine ⟨fun s hs => ?_, .inserted h.1.1.1 h.1.1.2 h.2 rfl, h.1.2⟩
      rw [hpending] at hs
      cases hs
  · rintro response ws ⟨now, rows, rows'⟩ σ φ d hi htx hl ⟨hresponse, hb, htime⟩ hok hd
    have henqueued := hb.enqueued hd
    obtain ⟨hi', hg⟩ := signer_commit (S := S) (i := i) (henqueued.bound hi.1.1)
      henqueued.keepsSignatures (.inl hl.1.1) fun x hx => hb.requestAt_eq hd
        (fun hmem => hx (hl.1.2 x hmem)) fun hmem => hx (hl.2 x hmem)
    exact ⟨hi', hg, hG now φ _ _ hok hl.1.1 htime henqueued,
      hresponse.stays henqueued.keepsSignatures, fun _ e => hdatabase e _ _⟩

section rules

variable {T : Terms schema X} {L : Possession schema i} {tx : Option (List Write)}
  {A : Db → X.State → Prop} {α β : Type} {Q : α → System schema X.State → Prop}
  {F : Failure ApiError → System schema X.State → Prop}

/-- A check. -/
theorem refuse_rule {c : Prop} [Decidable c] {e : ApiError} {k : Unit → Handler α}
    (hA : L.Fact T A) (hF : c → ∀ σ, L.Holds tx A σ → F (.raised e) σ)
    (hk : ¬c → Triple ok (T.committing G) i (L.Holds tx A) (k ()) Q F) :
    Triple ok (T.committing G) i (L.Holds tx A) ((refuse c e).bind k) Q F := by
  by_cases hc : c
  · rw [refuse, if_pos hc]
    exact fun σ _ h σ₁ hr _ => hF hc σ₁ (hA.stable σ σ₁ hr h)
  · rw [refuse, if_neg hc]
    exact hk hc

/-- A computation that may fail. -/
theorem orThrow_rule {x : Except ApiError β} {k : β → Handler α} (hA : L.Fact T A)
    (hF : ∀ e, x = .error e → ∀ σ, L.Holds tx A σ → F (.raised e) σ)
    (hk : ∀ b, x = .ok b → Triple ok (T.committing G) i (L.Holds tx A) (k b) Q F) :
    Triple ok (T.committing G) i (L.Holds tx A) ((orThrow x).bind k) Q F := by
  cases x with
  | ok b => exact hk b rfl
  | error e => exact fun σ _ h σ₁ hr _ => hF e rfl σ₁ (hA.stable σ σ₁ hr h)

end rules

/-! ## Failures -/

/-- Why a key is not read, when the key store was heard to say `told`. -/
inductive KeyError (crates : Crates) (product : String) (version : Option ℕ)
    (told : String → Except ApiError Json → Prop) : ApiError → Prop
  | product (h : validSlug product = false) : KeyError crates product version told
      (invalid "Invalid product slug.")
  | failed (htold : told product (.error unavailable)) :
      KeyError crates product version told unavailable
  | read (answer : Json) (e : ApiError) (htold : told product (.ok answer))
      (h : readKey crates product version answer = .error e) :
      KeyError crates product version told e

/-- Why an approval fails, when its request was seen to be `seen` and the key store heard to say
`told`. -/
inductive Rejected (crates : Crates) (app : App) (authorization : Option String) (id : String)
    (input : Approval) (seen : Option SigningRequest → Prop)
    (told : String → Except ApiError Json → Prop) : Failure ApiError → Prop
  | database (e : DbError) : Rejected crates app authorization id input seen told (.database e)
  | identity (e : ApiError) (h : checkAuth crates authorization app.approverHash = .error e) :
      Rejected crates app authorization id input seen told (.raised e)
  | identifier (h : validHex id = false) :
      Rejected crates app authorization id input seen told
        (.raised (invalid "Invalid request identifier."))
  | busy : Rejected crates app authorization id input seen told
      (.raised ⟨.tooManyRequests, "Signer concurrency limit reached."⟩)
  | missing (hseen : seen none) :
      Rejected crates app authorization id input seen told (.raised notFound)
  | payload (r : SigningRequest) (e : ApiError) (hseen : seen (some r))
      (h : parsePayload r.payload r.product = .error e) :
      Rejected crates app authorization id input seen told (.raised e)
  | mismatch (r : SigningRequest) (bytes : List UInt8) (manifest : Manifest) (hseen : seen (some r))
      (hread : parsePayload r.payload r.product = .ok (bytes, manifest))
      (h : ¬input.Matches r manifest) :
      Rejected crates app authorization id input seen told
        (.raised ⟨.conflict, "Approval does not match the exact manifest and artifact."⟩)
  | key (r : SigningRequest) (e : ApiError) (hseen : seen (some r))
      (h : KeyError crates r.product (some r.keyVersion) told e) :
      Rejected crates app authorization id input seen told (.raised e)
  | changed (r : SigningRequest) (answer : Json) (key : PublicKey) (hseen : seen (some r))
      (htold : told r.product (.ok answer))
      (hread : readKey crates r.product (some r.keyVersion) answer = .ok key)
      (h : key.keyId ≠ r.keyId) :
      Rejected crates app authorization id input seen told
        (.raised ⟨.conflict, "Signing key changed."⟩)
  | unsigned (r : SigningRequest) (e : ApiError) (hseen : seen (some r))
      (h : r.status ≠ .signed) : Rejected crates app authorization id input seen told (.raised e)

section keyStore

variable {L : Possession schema i} {tx : Option (List Write)} {A : Db → X.State → Prop} {α : Type}
  {Q : α → System schema X.State → Prop} {F : Failure ApiError → System schema X.State → Prop}
  (crates : Crates)

/-- A key is not read with the error of a full table. -/
theorem KeyError.ne_limit {product : String} {version : Option ℕ}
    {told : String → Except ApiError Json → Prop} {e : ApiError}
    (h : KeyError crates product version told e) : e ≠ retentionLimit := by
  have hconflict : ∀ message : String, (⟨.conflict, message⟩ : ApiError) ≠ retentionLimit :=
    fun _ h => by cases congrArg ApiError.status h
  cases h with
  | product h => exact fun h => by cases congrArg ApiError.status h
  | failed htold => decide
  | read answer e htold h =>
    unfold readKey at h
    dsimp only at h
    split at h
    · rw [← Except.error.inj h]
      exact hconflict _
    · split at h
      · rw [← Except.error.inj h]
        decide
      · split at h
        · rw [← Except.error.inj h]
          exact hconflict _
        · split at h
          · rw [← Except.error.inj h]
            decide
          · cases h

/-- A manifest is not refused with it. -/
theorem parsePayload_error {payload product : String} {e : ApiError}
    (h : parsePayload payload product = .error e) : e ≠ retentionLimit := by
  have hinvalid : ∀ message, invalid message ≠ retentionLimit := fun _ h => by
    cases congrArg ApiError.status h
  unfold parsePayload at h
  split at h
  · rw [← Except.error.inj h]
    exact hinvalid _
  · split at h
    · rw [← Except.error.inj h]
      exact hinvalid _
    · split at h
      · rw [← Except.error.inj h]
        exact hinvalid _
      · split at h
        · rw [← Except.error.inj h]
          exact hinvalid _
        · split at h
          · cases h
          · rw [← Except.error.inj h]
            exact hinvalid _

/-- Nor an identity. -/
theorem checkAuth_error {authorization : Option String} {expected : List UInt8} {e : ApiError}
    (h : checkAuth crates authorization expected = .error e) : e ≠ retentionLimit := by
  unfold checkAuth at h
  dsimp only at h
  split at h
  · rw [← Except.error.inj h]
    decide
  · cases h

/-- A call of the key store, whose answer is read next. -/
theorem bao_rule {method path : String} {body : Option Json} {k : Json → Handler α}
    (told : Except ApiError Json → Prop) (hA : L.Fact (signerTerms S) A)
    (hcall : ∀ d w w' ch r,
      X.run i (Call.bao method path body) ch w = some (r, w') → A d w → A d w')
    (htold : ∀ ch r (σ : System schema X.State) w,
      ok i (.ext (Call.bao method path body)) (.ext ch) σ →
      X.run i (Call.bao method path body) ch σ.world = some (r, w) → told r)
    (hF : ∀ e σ, (σ.server.gone i = false → e = unavailable ∧ told (.error e)) → L.Holds tx A σ →
      F (.raised e) σ)
    (hk : ∀ answer, Triple ok ((signerTerms S).committing G) i
      (L.Holds tx fun d w => A d w ∧ told (.ok answer)) (k answer) Q F) :
    Triple ok ((signerTerms S).committing G) i (L.Holds tx A)
      ((call (.bao method path body)).bind fun result : Except ApiError Json =>
        (orThrow result).bind k) Q F := by
  refine Possession.ext_rule (E := calls) (e := Call.bao method path body)
    (B := fun (r : Except ApiError Json) d w =>
      A d w ∧ told r ∧ ∀ e, r = .error e → e = unavailable) hA
    (fun σ c r w hi h hok hrun => ?_) fun result => ?_
  · exact ⟨(signer_ext hi hrun).1, (signer_ext hi hrun).2, hcall _ _ _ c r hrun h,
      htold c r σ w hok hrun, fun e he => S.unavailable i method path body c _ e w (he ▸ hrun)⟩
  · refine orThrow_rule (hA.and (.const _)) (fun e he σ h => ?_) fun answer ha => ?_
    · exact hF e σ (fun hg => ⟨(h.2 hg).2.2.2 e he, he ▸ (h.2 hg).2.2.1⟩)
        (h.mono (fun _ h => h) fun _ _ h => h.1)
    · exact Triple.mono (hk answer)
        (fun σ h => h.mono (fun _ h => h) fun _ _ h => ⟨h.1, ha ▸ h.2.1⟩) (fun _ _ h => h)
        fun _ _ h => h

/-- A key that is read from an answer of the key store. -/
theorem key_rule {product : String} {version : Option ℕ} {k : PublicKey → Handler α}
    (told : String → Except ApiError Json → Prop) (hA : L.Fact (signerTerms S) A)
    (hcall : ∀ d w w' method path body ch r,
      X.run i (Call.bao method path body) ch w = some (r, w') → A d w → A d w')
    (htold : ∀ product ch r (σ : System schema X.State) w,
      ok i (.ext (Call.bao "GET" ("transit/keys/reeva-" ++ product) none)) (.ext ch) σ →
      X.run i (Call.bao "GET" ("transit/keys/reeva-" ++ product) none) ch σ.world = some (r, w) →
      told product r)
    (hF : ∀ e σ, (σ.server.gone i = false → KeyError crates product version told e) →
      L.Holds tx A σ → F (.raised e) σ)
    (hk : ∀ key answer, readKey crates product version answer = .ok key →
      Triple ok ((signerTerms S).committing G) i
        (L.Holds tx fun d w => A d w ∧ told product (.ok answer)) (k key) Q F) :
    Triple ok ((signerTerms S).committing G) i (L.Holds tx A)
      ((Bao.key crates product version).bind k) Q F := by
  have hkey : Triple ok ((signerTerms S).committing G) i (L.Holds tx A)
      (Bao.key crates product version) (fun key σ => ∃ answer,
        readKey crates product version answer = .ok key ∧
          L.Holds tx (fun d w => A d w ∧ told product (.ok answer)) σ) F := by
    refine refuse_rule hA (fun h σ => hF _ σ fun _ => .product h) fun _ => ?_
    refine bao_rule (told product) hA (fun d w w' => hcall d w w' _ _ _) (htold product)
      (fun e σ he => hF e σ fun hg => ?_) fun answer => ?_
    · rw [(he hg).1]
      exact .failed ((he hg).1 ▸ (he hg).2)
    rw [← Prog.bind_ret (orThrow (readKey crates product version answer))]
    have hheard := hA.and (.const (told product (.ok answer)))
    refine orThrow_rule hheard (fun e he σ h => ?_) fun key hread => ?_
    · exact hF e σ (fun hg => .read answer e (h.2 hg).2.2 he)
        (h.mono (fun _ h => h) fun _ _ h => h.1)
    · exact Possession.ret_rule hheard fun σ h => ⟨answer, hread, h⟩
  exact .bind (Terms.discipline_refl _ i) hkey fun key σ hi h =>
    hk key h.choose h.choose_spec.1 σ hi h.choose_spec.2

/-- A signature that is read from one. -/
theorem sign_rule {key : PublicKey} {bytes : List UInt8} {k : String → Handler α}
    (hA : L.Fact (signerTerms S) A)
    (hcall : ∀ d w w' method path body ch r,
      X.run i (Call.bao method path body) ch w = some (r, w') → A d w → A d w')
    (hF : ∀ e σ, L.Holds tx A σ → F (.raised e) σ)
    (hk : ∀ signature answer, readSignature crates key bytes answer = .ok signature →
      Triple ok ((signerTerms S).committing G) i (L.Holds tx A) (k signature) Q F) :
    Triple ok ((signerTerms S).committing G) i (L.Holds tx A)
      ((Bao.sign crates key bytes).bind k) Q F := by
  have hsign : Triple ok ((signerTerms S).committing G) i (L.Holds tx A)
      (Bao.sign crates key bytes) (fun signature σ => L.Holds tx A σ ∧
        ∃ answer, readSignature crates key bytes answer = .ok signature) F := by
    refine bao_rule (fun _ => True) hA (fun d w w' => hcall d w w' _ _ _)
      (fun _ _ _ _ _ _ => trivial) (fun e σ _ => hF e σ) fun answer => ?_
    rw [← Prog.bind_ret (orThrow (readSignature crates key bytes answer))]
    have hheard : L.Fact (signerTerms S) fun d w => A d w ∧ True := hA.and (.const True)
    refine orThrow_rule hheard (fun e _ σ h => ?_) fun signature hread => ?_
    · exact hF e σ (h.mono (fun _ h => h) fun _ _ h => h.1)
    · exact Possession.ret_rule hheard fun σ h =>
        ⟨h.mono (fun _ h => h) fun _ _ h => h.1, answer, hread⟩
  exact .bind (Terms.discipline_refl _ i) hsign fun signature σ hi h =>
    hk signature h.2.choose h.2.choose_spec σ hi h.1

end keyStore

/-- The row that `create_request` asks for, but for its expiry. -/
def createdRow (crates : Crates) (input : CreateRequest) (bytes : List UInt8) (key : PublicKey) :
    SigningRequest :=
  { id := requestId crates input.product key.keyId bytes
    product := input.product
    payload := input.payload
    payloadDigest := digest crates bytes
    keyId := key.keyId
    keyVersion := key.keyVersion
    publicKey := key.publicKey
    status := .pending
    signature := none
    expiresAt := 0 }

/-- What `create_request` has checked when it asks for a row. -/
structure Prepared (crates : Crates) (app : App) (authorization : Option String)
    (input : CreateRequest) (row : SigningRequest) : Prop where
  requester : checkAuth crates authorization app.requesterHash = .ok ()
  read : ∃ bytes manifest key answer,
    parsePayload input.payload input.product = .ok (bytes, manifest) ∧
    readKey crates input.product (some input.keyVersion) answer = .ok key ∧
    key.keyId = input.keyId ∧ row = createdRow crates input bytes key

section requests

variable (crates : Crates) (app : App) (authorization : Option String)

/-- `create_request` publishes what it should. -/
theorem createRequest_keeps (input : CreateRequest)
    (hp : ∀ id now φ (σ : System schema X.State),
      ok i (.db (.write (Write.renew id now))) (.db φ) σ →
      ∀ r ∈ σ.server.db.requests, r.renewable id now = true → p r.signature)
    (hG : ∀ row now φ (σ σ' : System schema X.State),
      Prepared crates app authorization input row → ok i (.db .commit) (.db φ) σ →
      σ.server.advisory 1 = some i → S.time i now σ.world →
      Enqueued p row now σ.server.db σ'.server.db → G i σ σ')
    (hP : ∀ row s ch (σ : System schema X.State), Prepared crates app authorization input row →
      ok i s ch σ → σ.server.advisory 1 = some i → row.id ∉ requestIds σ.server.db → P) :
    Triple ok ((signerTerms S).committing G) i ((Possession.nothing i).Holds none fun _ _ => True)
      (createRequest crates app authorization input)
      (fun response σ => Committed response σ.server.db)
      fun e => (Possession.nothing i).Holds none (Limited P e) := by
  have hinvalid : ∀ message, invalid message ≠ retentionLimit := fun _ h => by
    cases congrArg ApiError.status h
  -- A failure with another error says nothing.
  have other : ∀ (e : ApiError) (σ : System schema X.State),
      (σ.server.gone i = false → e ≠ retentionLimit) →
      (Possession.nothing i).Holds none (fun _ _ => True) σ →
      (Possession.nothing i).Holds none (Limited P (.raised e)) σ := fun e σ he h =>
    ⟨h.1, fun hg => ⟨(h.2 hg).1, fun heq => absurd (Failure.raised.inj heq) (he hg)⟩⟩
  refine orThrow_rule (.const True) (fun e he σ => other e σ fun _ => checkAuth_error crates he)
    fun _ hauth => ?_
  refine refuse_rule (.const True) (fun _ σ => other _ σ fun _ => hinvalid _) fun _ => ?_
  refine orThrow_rule (.const True) (fun e he σ => other e σ fun _ => parsePayload_error he)
    fun read hread => ?_
  obtain ⟨bytes, manifest⟩ := read
  refine key_rule crates (fun _ _ => True) (.const True) (fun _ _ _ _ _ _ _ _ _ h => h)
    (fun _ _ _ _ _ _ _ => trivial) (fun e σ he => other e σ fun hg => (he hg).ne_limit)
    fun key answer hkey => ?_
  have hheard : (Possession.nothing i).Fact (signerTerms S) fun _ _ => True ∧ True := .const _
  refine refuse_rule hheard (fun _ σ h => other _ σ (fun _ h => ?_)
    (h.mono (fun _ h => h) fun _ _ _ => trivial)) fun hid => ?_
  · cases congrArg ApiError.status h
  have hprepared : Prepared crates app authorization input (createdRow crates input bytes key) :=
    ⟨hauth, bytes, manifest, key, answer, hread, hkey, not_ne_iff.mp hid, rfl⟩
  exact Triple.mono (enqueue_keeps rfl (fun now φ σ => hp _ now φ σ)
    (fun now φ σ σ' => hG _ now φ σ σ' hprepared) fun s ch σ => hP _ s ch σ hprepared)
    (fun _ h => h.mono (fun _ h => h) fun _ _ _ => trivial) (fun _ _ h => h) fun _ _ h => h

/-- `get_request` publishes nothing. -/
theorem getRequest_keeps (id : String) :
    Triple ok ((signerTerms S).committing G) i ((Possession.nothing i).Holds none fun _ _ => True)
      (getRequest crates app authorization id) (fun response σ => Committed response σ.server.db)
      fun _ _ => True := by
  refine orThrow_rule (.const True) (fun _ _ _ _ => trivial) fun _ _ => ?_
  refine refuse_rule (.const True) (fun _ _ _ => trivial) fun _ => ?_
  -- What it has found is committed, and stays so whether the program goes on or not.
  intro σ _ ha
  refine wp_db (s := .query fun d : schema.Db => (Db.toTables d).request id)
    fun σ₁ hr hi hgone φ r srv _ he => ?_
  obtain ⟨rfl, hres⟩ := Server.exec_query he
  have htx := ((Possession.Fact.const (T := signerTerms S) True).stable σ σ₁ hr ha).1 hgone
  have hquiet := ((signerTerms S).quiet i σ₁ _ hi .same).2
  refine ⟨hi, ⟨⟨fun j _ => .refl j _, hquiet⟩, silent rfl fun h => h⟩, fun found hfound => ?_,
    fun _ _ _ _ _ => trivial⟩
  cases found with
  | none => exact fun _ _ _ => trivial
  | some response =>
    have hcommitted : Committed response σ₁.server.db := by
      rcases hres with h | h
      · have hview := Except.ok.inj (hfound.symm.trans h)
        rw [Server.view_of_none htx] at hview
        exact committed_of_mem (mem_of_requestAt hview.symm).1
      · cases hfound.symm.trans h
    exact fun σ₂ hr₂ _ => hcommitted.stays hr₂.2.1.1.1

/-- `SELECT … FOR UPDATE` finds the request, and nobody changes it from there on. -/
theorem lockRequest_keeps {A : Db → X.State → Prop} {α : Type} {k : SigningRequest → Handler α}
    {Q : α → System schema X.State → Prop} {F : Failure ApiError → System schema X.State → Prop}
    {tx : Option (List Write)} (htx : tx.getD [] = []) {id : String}
    {seen : Option SigningRequest → Prop}
    (hA : ∀ L : Possession schema i, L.Fact (signerTerms S) A)
    (hseen : ∀ s ch (σ : System schema X.State), ok i s ch σ →
      seen (requestAt (.request id) σ.server.db))
    (hdatabase : ∀ (e : DbError) σ, F (.database e) σ)
    (hmissing : ∀ σ : System schema X.State, (σ.server.gone i = false → seen none) →
      F (.raised notFound) σ)
    (hk : ∀ r, Triple ok ((signerTerms S).committing G) i
      ((Possession.rows i [Row.request id]).Holds tx fun d w =>
        requestAt (.request id) d = some r ∧ seen (some r) ∧ A d w) (k r) Q F) :
    Triple ok ((signerTerms S).committing G) i ((Possession.nothing i).Holds tx A)
      ((lockRequest id).bind k) Q F := by
  have hview : ∀ d : Db, (Db.toTables (Server.applyAll (D := schema) (tx.getD []) d)).request id =
      requestAt (.request id) d := fun d => by rw [htx]; rfl
  -- Where nothing is found, nothing was there to be seen.
  have missing : ∀ {L : Possession schema i} {B : Db → X.State → Prop}, L.Fact (signerTerms S) B →
      (∀ d w, B d w → seen none) → Triple ok ((signerTerms S).committing G) i (L.Holds tx B)
        (raise notFound) (fun (r : SigningRequest) σ =>
          (Possession.rows i [Row.request id]).Holds tx
            (fun d w => requestAt (.request id) d = some r ∧ seen (some r) ∧ A d w) σ) F :=
    fun hB hnone σ _ h σ₁ hr _ => hmissing σ₁ fun hg => hnone _ _ ((hB.stable σ σ₁ hr h).2 hg).2
  have hlock : Triple ok ((signerTerms S).committing G) i ((Possession.nothing i).Holds tx A)
      (lockRequest id) (fun r σ => (Possession.rows i [Row.request id]).Holds tx (fun d w =>
        requestAt (.request id) d = some r ∧ seen (some r) ∧ A d w) σ) F := by
    refine Possession.query_run_rule (L := .nothing i)
      (f := fun d : schema.Db => ((Db.toTables d).request id).isSome)
      (B := fun found d w => (found = false → seen none) ∧ A d w) (hA _)
      (fun σ φ _ _ h hok => ⟨fun hfound => ?_, h⟩) (fun _ _ _ => hdatabase _ _) fun found => ?_
    · rw [hview] at hfound
      have hnone := hseen _ _ σ hok
      rwa [Option.isSome_eq_false_iff.mp hfound |> Option.isNone_iff_eq_none.mp] at hnone
    cases found with
    | false => exact missing ((Possession.Fact.const _).and (hA _)) fun _ _ h => h.1 rfl
    | true =>
      refine Possession.lock_rule (M := .rows i [Row.request id]) ((Possession.Fact.const _).and
        (hA _)) (fun srv _ r hr => ?_)
        (fun srv _ => Possession.nothing_has i srv) (fun _ _ _ => hdatabase _ _) ?_
      · rw [List.mem_singleton.mp hr]
        exact if_pos (List.mem_singleton.mpr rfl)
      refine Possession.query_run_rule (L := .rows i [Row.request id])
        (f := fun d : schema.Db => (Db.toTables d).request id)
        (B := fun row d w => requestAt (.request id) d = row ∧ seen row ∧ A d w)
        ((Possession.Fact.const _).and (hA _)) (fun σ φ _ _ h hok => ?_)
        (fun _ _ _ => hdatabase _ _) fun row => ?_
      · rw [hview]
        exact ⟨rfl, hseen _ _ σ hok, h.2⟩
      cases row with
      | none =>
        exact missing ((request_fact id (· = none)).and ((Possession.Fact.const _).and (hA _)))
          fun _ _ h => h.2.1
      | some r =>
        exact Possession.ret_rule ((request_fact id (· = some r)).and
          ((Possession.Fact.const _).and (hA _))) fun σ h => h
  exact .bind (Terms.discipline_refl _ i) hlock hk

/-- `approve` publishes what it should. It responds with what was seen at its commit, where that was
signed, and what it has seen and heard tells why it fails. -/
theorem approve_keeps (id : String) (input : Approval) (seen : Option SigningRequest → Prop)
    (told : String → Except ApiError Json → Prop)
    (hseen : ∀ s ch (σ : System schema X.State), ok i s ch σ →
      seen (requestAt (.request id) σ.server.db))
    (htold : ∀ product ch r (σ : System schema X.State) w,
      ok i (.ext (Call.bao "GET" ("transit/keys/reeva-" ++ product) none)) (.ext ch) σ →
      X.run i (Call.bao "GET" ("transit/keys/reeva-" ++ product) none) ch σ.world = some (r, w) →
      told product r)
    (hG : ∀ now φ (σ σ' : System schema X.State) r,
      checkAuth crates authorization app.approverHash = .ok () → ok i (.db .commit) (.db φ) σ →
      S.time i now σ.world → requestAt (.request id) σ.server.db = some r →
      input.expiresAt = r.expiresAt →
      Approved crates id input now σ.server.db σ'.server.db → G i σ σ') :
    Triple ok ((signerTerms S).committing G) i ((Possession.nothing i).Holds none fun _ _ => True)
      (approve crates app authorization id input)
      (fun response σ => Committed response σ.server.db ∧
        ∃ r, seen (some r) ∧ (r.status = .signed → response = r))
      fun e σ => σ.server.gone i = false →
        Rejected crates app authorization id input seen told e := by
  have rejected : ∀ {e : Failure ApiError} (σ : System schema X.State),
      (σ.server.gone i = false → Rejected crates app authorization id input seen told e) →
      (Possession.nothing i).Known
        (fun _ _ => Rejected crates app authorization id input seen told e) σ :=
    fun σ he hg => ⟨Possession.nothing_has i _, he hg⟩
  refine orThrow_rule (.const True) (fun e he _ _ _ => .identity e he) fun _ hauth => ?_
  refine refuse_rule (.const True) (fun h _ _ _ => .identifier h) fun _ => ?_
  refine Possession.ext_rule (E := calls) (e := Call.acquire) (B := fun _ _ _ => True) (.const True)
    (fun σ c r w hi _ _ h => ⟨(signer_ext hi h).1, (signer_ext hi h).2, trivial⟩)
    fun (permit : Bool) => ?_
  refine refuse_rule (.const True) (fun _ _ _ _ => .busy) fun _ => ?_
  refine Triple.mono (Possession.transaction_ends (D := schema) (X := X) (ι := ℤ)
    (fun _ => Possession.rows i [Row.request id])
    (R := fun e _ _ => Rejected crates app authorization id input seen told e)
    (A := fun _ _ => True)
    (B := fun response ws now d w => Approving crates id input now response ws d ∧ S.time i now w)
    (Q := fun response σ => Committed response σ.server.db ∧
      ∃ r, seen (some r) ∧ (r.status = .signed → response = r)) (.const True) (fun e => .const _)
    (fun response ws now => (approving_fact crates id input now response ws).and (time_fact _ now))
    (fun response _ _ hr h => ⟨h.1.stays hr.2.1.1.1, h.2⟩)
    (fun e _ _ _ => .database e) (fun e _ _ _ _ _ _ => .database e) ?_ ?_) (fun _ h => h)
    (fun _ _ h => h) fun _ _ h hg => (h.2 hg).2
  · refine Possession.ext_rule (E := calls) (e := Call.now) (B := fun now _ w => S.time i now w)
      (.const True) (fun σ c r w hi _ _ h => ?_) fun (now : ℤ) => ?_
    · exact ⟨(signer_ext hi h).1, (signer_ext hi h).2, S.time_now i c _ r w h⟩
    refine lockRequest_keeps rfl (fun L => time_fact L now) hseen
      (fun e σ => rejected σ fun _ => .database e) (fun σ h => rejected σ fun hg => .missing (h hg))
      fun request => ?_
    have hrow := (request_fact (S := S) (i := i) id (· = some request)).and
      ((Possession.Fact.const (seen (some request))).and (time_fact _ now))
    have hcall : ∀ (d : Db) w w' method path body ch r,
        X.run i (Call.bao method path body) ch w = some (r, w') →
        requestAt (.request id) d = some request ∧ seen (some request) ∧ S.time i now w →
        requestAt (.request id) d = some request ∧ seen (some request) ∧ S.time i now w' :=
      fun d w w' method path body ch r hrun h =>
        ⟨h.1, h.2.1, S.time_bao i method path body ch w r w' now hrun h.2.2⟩
    refine orThrow_rule hrow (fun e he σ h => rejected σ fun hg =>
      .payload request e (h.2 hg).2.2.1 he) fun read hread => ?_
    obtain ⟨bytes, manifest⟩ := read
    refine refuse_rule hrow (fun hdiffers σ h => rejected σ fun hg =>
      .mismatch request bytes manifest (h.2 hg).2.2.1 hread fun hm => ?_) fun hmatches => ?_
    · rcases hdiffers with hne | hne | hne | hne
      · exact hne hm.payloadDigest
      · exact hne hm.artifactSha256
      · exact hne hm.artifactSizeBytes
      · exact hne hm.expiresAt
    simp only [not_or, not_not] at hmatches
    refine key_rule crates told hrow hcall htold (fun e σ he h => rejected σ fun hg =>
      .key request e (h.2 hg).2.2.1 (he hg)) fun key answer hkey => ?_
    -- What was heard of the key stays so.
    have hheard := hrow.and (.const (told request.product (.ok answer)))
    refine refuse_rule hheard (fun hid σ h => rejected σ fun hg =>
      .changed request answer key (h.2 hg).2.1.2.1 (h.2 hg).2.2 hkey hid) fun hid => ?_
    dsimp only
    by_cases hstatus : request.status = .signed
    · rw [if_pos hstatus]
      exact Possession.ret_rule (a := request) hheard fun σ h =>
        ⟨[], now, h.mono (fun _ h => h) fun _ _ h =>
          ⟨.unchanged h.1.1 hmatches.2.2.2 rfl, h.1.2.2⟩⟩
    rw [if_neg hstatus]
    refine refuse_rule hheard (fun _ σ h => rejected σ fun hg =>
      .unsigned request _ (h.2 hg).2.1.2.1 hstatus) fun hexpired => ?_
    refine sign_rule crates hheard (fun d w w' method path body ch r hrun h =>
      ⟨hcall d w w' method path body ch r hrun h.1, h.2⟩) (fun e σ h => rejected σ fun hg =>
      .unsigned request e (h.2 hg).2.1.2.1 hstatus) fun signature found hsignature => ?_
    refine key_rule crates told hheard (fun d w w' method path body ch r hrun h =>
      ⟨hcall d w w' method path body ch r hrun h.1, h.2⟩) htold (fun e σ _ h => rejected σ fun hg =>
      .unsigned request e (h.2 hg).2.1.2.1 hstatus) fun again answer' _ => ?_
    have hagain := hheard.and (.const (told request.product (.ok answer')))
    refine refuse_rule hagain (fun _ σ h => rejected σ fun hg =>
      .unsigned request _ (h.2 hg).2.1.1.2.1 hstatus) fun _ => ?_
    have hchecked : Checked crates input request now signature :=
      ⟨hstatus, not_lt.mp hexpired, bytes, manifest, key, answer, found, hread,
        ⟨hmatches.1, hmatches.2.1, hmatches.2.2.1, hmatches.2.2.2⟩, hkey, not_ne_iff.mp hid,
        hsignature⟩
    have written : ∀ (e : DbError) (σ : System schema X.State), (Possession.nothing i).Known
        (fun _ _ => Rejected crates app authorization id input seen told (.database e)) σ :=
      fun e σ => rejected σ fun _ => .database e
    refine Possession.write_rule (w := Write.sign id signature)
      (F := fun e => (Possession.nothing i).Known fun _ _ =>
        Rejected crates app authorization id input seen told e) hagain
      (fun σ hi htx _ _ hfree => signer_write hi htx hfree) (fun e σ _ => written e σ) fun _ => ?_
    refine Possession.write_rule (w := Write.insertAudit ⟨id, "approved-and-signed", "approver"⟩)
      (F := fun e => (Possession.nothing i).Known fun _ _ =>
        Rejected crates app authorization id input seen told e) hagain
      (fun σ hi htx _ _ hfree => signer_write hi htx hfree) (fun e σ _ => written e σ) fun _ => ?_
    refine Possession.ret_rule hagain fun σ h =>
      ⟨_, now, h.mono (fun _ h => h) fun _ _ h => ⟨?_, h.1.1.2.2⟩⟩
    exact .signed request signature h.1.1.1 hchecked rfl rfl
  · rintro response ws now σ φ d hi htx hl ⟨hb, htime⟩ hok hd
    have happroved := hb.approved hd
    obtain ⟨r, hr, hexpires, hresponse⟩ := hb.found
    have hbound : d.requests.length ≤ 10000 := by
      have hlength := congrArg List.length happroved.expiries_eq
      rw [expiries, expiries, List.length_map, List.length_map] at hlength
      rw [hlength]
      exact hi.1.1
    obtain ⟨hi', hg⟩ := signer_commit (S := S) (i := i) (d := d) hbound
      happroved.keepsSignatures (.inr happroved.expiries_eq) fun x hx => happroved.requestAt_eq
        fun heq => hx (heq ▸ hl _ (List.mem_singleton.mpr rfl))
    have hnow : seen (some r) := hr ▸ hseen _ _ σ hok
    exact ⟨hi', hg, hG now φ _ _ r hauth hok htime hr hexpires happroved,
      ⟨hb.committed hd, r, hnow, hresponse⟩, fun _ e => .database e⟩

end requests

end handlers

/-! ## Runs -/

section runs

variable {X : Machine calls} (crates : Crates) (S : Surroundings X) (p : Option String → Prop)
  (ok : Guard (Service schema X)) (requests : List Request)

/-- What a request publishes. -/
def Request.Publishes (i : ℕ) (σ σ' : System schema X.State) : Request → Prop
  | createRequest app authorization input => ∃ row now,
      Prepared crates app authorization input row ∧ σ.server.advisory 1 = some i ∧
        S.time i now σ.world ∧ Enqueued p row now σ.server.db σ'.server.db
  | getRequest _ _ _ => False
  | approve app authorization id input =>
      checkAuth crates authorization app.approverHash = .ok () ∧
        (∃ r, requestAt (.request id) σ.server.db = some r ∧ input.expiresAt = r.expiresAt) ∧
        ∃ now, S.time i now σ.world ∧ Approved crates id input now σ.server.db σ'.server.db

/-- What the requests publish, with a commit that meets `ok`. -/
def Published (i : ℕ) (σ σ' : System schema X.State) : Prop :=
  ∃ request, requests[i]? = some request ∧ request.Publishes crates S p i σ σ' ∧
    ∃ φ, ok i (.db .commit) (.db φ) σ

variable {crates S p ok requests} {P : ℕ → Prop}

section published

variable {i : ℕ} {σ σ' : System schema X.State}

/-- What is published changes the identifiers only where the lock is held. -/
theorem Published.requestIds_eq (h : Published crates S p ok requests i σ σ')
    (hlock : σ.server.advisory 1 ≠ some i) :
    requestIds σ'.server.db = requestIds σ.server.db := by
  obtain ⟨request, -, h, -⟩ := h
  cases request with
  | createRequest app authorization input =>
    obtain ⟨row, now, -, hheld, -⟩ := h
    exact absurd hheld hlock
  | getRequest app authorization id => exact h.elim
  | approve app authorization id input =>
    obtain ⟨-, -, now, -, happroved⟩ := h
    rw [Signer.requestIds_eq σ.server.db, Signer.requestIds_eq σ'.server.db, happroved.expiries_eq]

/-- It keeps signatures. -/
theorem Published.keepsSignatures (h : Published crates S p ok requests i σ σ') :
    KeepsSignatures σ.server.db σ'.server.db := by
  obtain ⟨request, -, h, -⟩ := h
  cases request with
  | createRequest app authorization input =>
    obtain ⟨row, now, -, -, -, henqueued⟩ := h
    exact henqueued.keepsSignatures
  | getRequest app authorization id => exact h.elim
  | approve app authorization id input =>
    obtain ⟨-, -, now, -, happroved⟩ := h
    exact happroved.keepsSignatures

end published

/-- Every run of the handlers publishes what they should, and responds with what is committed. With
the error of a full table only a request fails that is not there while it holds the lock. -/
theorem signer_sound {d : Db} (w : X.State) (hd : d.requests.length ≤ 10000)
    (hp : ∀ i id now φ (σ : System schema X.State),
      ok i (.db (.write (Write.renew id now))) (.db φ) σ →
      ∀ r ∈ σ.server.db.requests, r.renewable id now = true → p r.signature)
    (hP : ∀ i app authorization input row,
      requests[i]? = some (.createRequest app authorization input) →
      Prepared crates app authorization input row → ∀ s ch (σ : System schema X.State),
      ok i s ch σ → σ.server.advisory 1 = some i → row.id ∉ requestIds σ.server.db → P i) :
    Sound ok ((signerTerms S).committing (Published crates S p ok requests))
      (fun _ response σ => Committed response σ.server.db)
      (fun i e σ => σ.server.gone i = false → e = .raised retentionLimit →
        ∀ app authorization input,
          requests[i]? = some (.createRequest app authorization input) → P i)
      ⟨⟨Server.idle d, w⟩, requests.map (·.program crates)⟩ := by
  refine ⟨⟨⟨hd, trivial⟩, trivial⟩, fun i program hprogram => ?_⟩
  rw [List.getElem?_map, Option.map_eq_some_iff] at hprogram
  obtain ⟨request, hrequest, rfl⟩ := hprogram
  -- Each handler begins without a transaction, and with nothing to itself.
  have hidle : (Possession.nothing i).Holds none (fun _ _ => True)
      (⟨Server.idle d, w⟩ : System schema X.State) :=
    ⟨fun _ => rfl, fun _ => ⟨Possession.nothing_has i _, trivial⟩⟩
  cases request with
  | createRequest app authorization input =>
    have hkeeps := createRequest_keeps (S := S) (G := Published crates S p ok requests) crates app
      authorization input (hp i)
      (fun row now φ σ σ' hprepared hok hlock htime h =>
        ⟨_, hrequest, ⟨row, now, hprepared, hlock, htime, h⟩, φ, hok⟩)
      fun row s ch σ hprepared => hP i app authorization input row hrequest hprepared s ch σ
    exact wp_mono (fun _ _ h => h) (fun e σ h hg he _ _ _ _ => (h.2 hg).2 he)
      (hkeeps _ ⟨⟨hd, trivial⟩, trivial⟩ hidle)
  | getRequest app authorization id =>
    refine wp_mono (fun _ _ h => h) (fun e σ _ _ _ _ _ _ h => ?_)
      (getRequest_keeps (S := S) crates app authorization id _ ⟨⟨hd, trivial⟩, trivial⟩ hidle)
    cases hrequest.symm.trans h
  | approve app authorization id input =>
    have hkeeps := approve_keeps (S := S) (G := Published crates S p ok requests) crates app
      authorization id input (fun _ => True) (fun _ _ => True) (fun _ _ _ _ => trivial)
      (fun _ _ _ _ _ _ _ => trivial)
      fun now φ σ σ' r hauth hok htime hr hexpires h =>
        ⟨_, hrequest, ⟨hauth, ⟨r, hr, hexpires⟩, now, htime, h⟩, φ, hok⟩
    refine wp_mono (fun _ _ h => h.1) (fun e σ _ _ _ _ _ _ h => ?_)
      (hkeeps _ ⟨⟨hd, trivial⟩, trivial⟩ hidle)
    cases hrequest.symm.trans h

end runs

end Reeva.Signer
