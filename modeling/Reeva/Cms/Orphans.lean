import Reeva.Cms.Books

/-!
# No orphans

An upload's object is reserved before it is stored, its artifact takes the reservation's place in one
transaction, and a reservation is dropped only when nothing is stored under it. So every stored object
has an artifact or a reservation, in runs where no upload stores its bytes and reports a failure all
the same, and none stores them after its reservation has expired. With such a failure the compensation
drops the reservation of a stored object.
-/

open Interleaving ReadCommitted Ledger

namespace Reeva

open ArtifactService

/-! ## The terms -/

/-- Every object is kept or reserved. -/
structure OrphanInv (σ : CmsState) : Prop where
  noOrphans : σ.ledger.NoOrphans
  consistent : σ.world.Consistent

/-- What program `i` may count on. -/
structure OrphanRely (i : ℕ) (σ σ' : CmsState) : Prop where
  clock : σ.world.clock ≤ σ'.world.clock
  mine : σ.world.mine i ⊆ σ'.world.mine i
  readings : σ'.world.readings i = σ.world.readings i
  droppable : ∀ n ≤ σ.world.clock, ∀ id place, σ.ledger.Droppable n id place →
    σ'.ledger.Droppable n id place
  settled : ∀ id ∈ σ.world.mine i, ∀ place, σ.ledger.Settled id place → σ'.ledger.Settled id place
  reserved : ∀ id ∈ σ.world.mine i, ∀ place e, σ'.world.clock < e →
    (id, place, e) ∈ σ.ledger.reserved → (id, place, e) ∈ σ'.ledger.reserved

theorem OrphanRely.refl (i : ℕ) (σ : CmsState) : OrphanRely i σ σ :=
  ⟨le_rfl, subset_rfl, rfl, fun _ _ _ _ h => h, fun _ _ _ h => h, fun _ _ _ _ _ h => h⟩

theorem OrphanRely.trans {i : ℕ} {σ₁ σ₂ σ₃ : CmsState} (h₁ : OrphanRely i σ₁ σ₂)
    (h₂ : OrphanRely i σ₂ σ₃) : OrphanRely i σ₁ σ₃ where
  clock := h₁.clock.trans h₂.clock
  mine := h₁.mine.trans h₂.mine
  readings := h₂.readings.trans h₁.readings
  droppable n hn id place h := h₂.droppable n (hn.trans h₁.clock) id place
    (h₁.droppable n hn id place h)
  settled id hid place h := h₂.settled id (h₁.mine hid) place (h₁.settled id hid place h)
  reserved id hid place e he h := h₂.reserved id (h₁.mine hid) place e he
    (h₁.reserved id hid place e (h₂.clock.trans_lt he) h)

/-- A step of program `i`: it moves the ledger by its own identifiers. -/
structure OrphanGuar (i : ℕ) (σ σ' : CmsState) : Prop where
  clock : σ'.world.clock = σ.world.clock
  mine : ∀ j, σ.world.mine j ⊆ σ'.world.mine j
  readings : ∀ j ≠ i, σ'.world.readings j = σ.world.readings j
  move : Books.Move σ.world.clock (σ.world.mine i) σ.ledger σ'.ledger

/-- A step of one program is within the rely of another. -/
theorem OrphanGuar.rely {i j : ℕ} {σ σ' : CmsState} (hi : OrphanInv σ) (hij : i ≠ j)
    (h : OrphanGuar i σ σ') : OrphanRely j σ σ' where
  clock := h.clock.ge
  mine := h.mine j
  readings := h.readings j hij.symm
  droppable _ hn _ _ hd := h.move.droppable (ledger_functional _ _) hi.noOrphans hn hd
  settled id hid _ hs := h.move.settled (fun hm => hij (hi.consistent.owners i j id hm hid)) hs
  reserved id hid _ _ he hr :=
    h.move.reserved (fun hm => hij (hi.consistent.owners i j id hm hid)) (h.clock ▸ he) hr

/-- A change of one object keeps the terms. -/
theorem OrphanInv.store {i : ℕ} {σ : CmsState} (hi : OrphanInv σ) (id p : Id)
    (content : Option (List UInt8))
    (h : Books.Move σ.world.clock (σ.world.mine i) σ.ledger
      (ledger σ.server.db (σ.world.setObject p (storageKey id) content))) :
    OrphanInv ⟨σ.server, σ.world.setObject p (storageKey id) content⟩ ∧
      OrphanGuar i σ ⟨σ.server, σ.world.setObject p (storageKey id) content⟩ :=
  ⟨⟨h.noOrphans hi.noOrphans, ⟨hi.consistent.owners, hi.consistent.read⟩⟩, rfl,
    fun _ => subset_rfl, fun _ _ => rfl, h⟩

/-- What is published keeps the terms when it moves the ledger. -/
theorem OrphanInv.publish {i : ℕ} {σ : CmsState} (hi : OrphanInv σ) {S : Server cmsSchema} {d : Db}
    (h : Books.Move σ.world.clock (σ.world.mine i) σ.ledger (ledger d σ.world))
    (hdb : S.db = d) : OrphanInv ⟨S, σ.world⟩ ∧ OrphanGuar i σ ⟨S, σ.world⟩ := by
  subst hdb
  exact ⟨⟨h.noOrphans hi.noOrphans, hi.consistent⟩, rfl, fun _ => subset_rfl, fun _ _ => rfl, h⟩

/-- What publishes nothing keeps the terms. -/
theorem OrphanInv.idle {σ : CmsState} (hi : OrphanInv σ) (i : ℕ) {srv : Server cmsSchema}
    (hdb : srv.db = σ.server.db) : OrphanInv ⟨srv, σ.world⟩ ∧ OrphanGuar i σ ⟨srv, σ.world⟩ :=
  hi.publish (.idle _) hdb

/-- The terms of uploads. -/
def orphanTerms : CmsTerms where
  inv := OrphanInv
  rely := OrphanRely
  guar := OrphanGuar
  rely_refl := OrphanRely.refl
  rely_trans _ _ _ _ := OrphanRely.trans
  covers _ _ _ _ hij hi _ h := h.rely hi hij
  quiet i _ _ hi hq := hi.idle i hq.db
  world ch σ w he hi := by
    cases ch with
    | tick n =>
      cases he
      exact ⟨⟨hi.noOrphans, hi.consistent.tick n⟩,
        fun j => ⟨Nat.le_add_right _ _, subset_rfl, rfl, fun _ _ _ _ h => h, fun _ _ _ h => h,
          fun _ _ _ _ _ h => h⟩⟩
    | _ => cases he
  abort i σ hi := ⟨⟨hi.noOrphans, hi.consistent⟩, fun j => ⟨le_rfl, subset_rfl, rfl,
    fun _ _ _ _ h => h, fun _ _ _ h => h, fun _ _ _ _ _ h => h⟩⟩

/-- The condition under which objects stay accounted for: an upload that stores its bytes reports so,
and stores them before its reservation expires. -/
def StoresInTime : Guard cms
  | _, .ext (.upload _ _ _), .ext (.failedLate _), _ => False
  | i, .ext (.upload _ _ _), .ext (.key _), σ => σ.world.InTime i
  | _, _, _, _ => True

/-! ## What an upload knows -/

section facts

variable {i : ℕ}

/-- Program `i` owns an identifier, if there is one. -/
def OwnsOption (i : ℕ) (o : Option Id) (w : CmsWorld) : Prop := ∀ id ∈ o, id ∈ w.mine i

/-- Program `i` owns an identifier that is settled in some places. -/
def OwnsSettled (i : ℕ) (id : Id) (places : Set Id) (d : Db) (w : CmsWorld) : Prop :=
  id ∈ w.mine i ∧ ∀ place ∈ places, (ledger d w).Settled id place

/-- Program `i` has a reservation, as long as it has not expired. -/
def OwnsReservation (i : ℕ) (id place : Id) (d : Db) (w : CmsWorld) : Prop :=
  ∃ n, w.reservedAt i = some n ∧
    (w.clock < n + reservationLifetime → (id, place, n + reservationLifetime) ∈ (ledger d w).reserved)

theorem readings_fact (o : Option Id) (ns : List ℕ) :
    orphanTerms.Fact i [] fun _ w => w.readings i = ns ∧ OwnsOption i o w :=
  fun _ _ hr _ _ h => ⟨hr.readings.trans h.1, fun id hid => hr.mine (h.2 id hid)⟩

theorem ownsSettled_fact (id : Id) (places : Set Id) :
    orphanTerms.Fact i [] (OwnsSettled i id places) :=
  fun _ _ hr _ _ h => ⟨hr.mine h.1, fun place hp => hr.settled id h.1 place (h.2 place hp)⟩

theorem ownsReservation_fact (id place : Id) (places : Set Id) :
    orphanTerms.Fact i [] fun d w => OwnsSettled i id places d w ∧ OwnsReservation i id place d w := by
  rintro σ σ' hr hg - ⟨hs, n, hn, h⟩
  exact ⟨ownsSettled_fact id places σ σ' hr hg (by simp) hs, n,
    (congrArg (fun ns => ns[1]?) hr.readings).trans hn,
    fun hc => hr.reserved id hs.1 place _ hc (h (hr.clock.trans_lt hc))⟩

theorem droppable_fact (n : ℕ) (p : Id) (all todo : List Reservation) :
    orphanTerms.Fact i [] fun d w => n ≤ w.clock ∧
      ∀ r ∈ all, r ∈ todo ∨ (ledger d w).Droppable n r.id p := by
  rintro σ σ' hr - - ⟨hn, h⟩
  exact ⟨hn.trans hr.clock, fun r hm => (h r hm).imp_right (hr.droppable n hn r.id p)⟩

end facts

/-! ## What an upload does -/

section effects

variable {i : ℕ} {σ : CmsState}

/-- The next reading of the clock. -/
theorem OrphanInv.readClock (hi : OrphanInv σ) (i : ℕ) :
    OrphanInv ⟨σ.server, σ.world.readClock i⟩ ∧ OrphanGuar i σ ⟨σ.server, σ.world.readClock i⟩ :=
  ⟨⟨hi.noOrphans, hi.consistent.readClock i⟩, rfl, fun _ => subset_rfl,
    fun _ hj => readings_readClock_of_ne hj, .idle _⟩

/-- A new identifier. -/
theorem OrphanInv.issue (hi : OrphanInv σ) {id : Id} (h : id ∉ σ.world.issued.map (·.2)) :
    OrphanInv ⟨σ.server, σ.world.issue i id⟩ ∧ OrphanGuar i σ ⟨σ.server, σ.world.issue i id⟩ :=
  ⟨⟨hi.noOrphans, hi.consistent.issue i h⟩, rfl, fun _ _ h => List.mem_cons_of_mem _ h,
    fun _ _ => rfl, .idle _⟩

/-- A removed object. -/
theorem OrphanInv.remove (hi : OrphanInv σ) (i : ℕ) (id p : Id) :
    OrphanInv ⟨σ.server, σ.world.setObject p (storageKey id) none⟩ ∧
      OrphanGuar i σ ⟨σ.server, σ.world.setObject p (storageKey id) none⟩ := by
  refine hi.store id p none ?_
  rw [ledger_remove]
  exact .remove _ id p

/-- After an object was removed, it is settled. -/
theorem settled_remove (d : Db) (w : CmsWorld) (id p : Id) :
    (ledger d (w.setObject p (storageKey id) none)).Settled id p := by
  rw [ledger_remove]
  exact fun hs => absurd rfl hs.2

/-- What was settled stays so when an object is removed. -/
theorem Settled.remove {d : Db} {w : CmsWorld} {id place id' p : Id}
    (h : (ledger d w).Settled id place) :
    (ledger d (w.setObject p (storageKey id') none)).Settled id place := by
  rw [ledger_remove]
  exact fun hs => h hs.1

end effects

/-! ## The outline -/

section outline

variable (i : ℕ)

/-- The outline of an upload under these terms. -/
def orphanOutline : UploadOutline orphanTerms StoresInTime i where
  issued o _ w := w.readings i = [] ∧ OwnsOption i o w
  ready o n _ w := w.readings i = [n] ∧ OwnsOption i o w
  listed p n all todo d w := n ≤ w.clock ∧ ∀ r ∈ all, r ∈ todo ∨ (ledger d w).Droppable n r.id p
  reserved row d w :=
    OwnsSettled i row.id Set.univ d w ∧ OwnsReservation i row.id row.storageProviderId d w
  stored row := OwnsSettled i row.id {place | place ≠ row.storageProviderId}
  failed row := OwnsSettled i row.id {place | place ≠ row.storageProviderId}
  cleared row := OwnsSettled i row.id Set.univ
  issued_fact o := readings_fact o []
  ready_fact o n := readings_fact o [n]
  listed_fact p n all todo := droppable_fact n p all todo
  reserved_fact row := ownsReservation_fact _ _ _
  stored_fact row := ownsSettled_fact _ _
  failed_fact row := ownsSettled_fact _ _
  cleared_fact row := ownsSettled_fact _ _
  record σ ws w hi htx _ := hi.idle i (Server.record_db_of_some htx)
  issue σ id hi h hfresh := by
    obtain ⟨hi₂, hg⟩ := hi.issue (i := i) hfresh
    refine ⟨hi₂, hg, h.1, fun id' hid' => ?_⟩
    obtain rfl := Option.some.inj hid'
    exact List.mem_cons_self ..
  readClock σ o hi h := by
    obtain ⟨hi₂, hg⟩ := hi.readClock i
    exact ⟨hi₂, hg, readings_readClock h.1, h.2⟩
  list σ o p n all hi h _ := ⟨hi.consistent.read i n (by rw [h.1]; simp), fun r hr => .inl hr⟩
  sweep σ o p n all r todo hi h hl _ := by
    obtain ⟨hi₂, hg⟩ := hi.remove i r.id p
    refine ⟨hi₂, hg, h, hl.1, fun r' hr' => ?_⟩
    rcases hl.2 r' hr' with hm | hd
    · rcases List.mem_cons.mp hm with rfl | hm
      · exact .inr fun _ _ _ => settled_remove _ _ _ _
      · exact .inl hm
    · refine .inr fun e he hres => Settled.remove (hd e he ?_)
      rwa [ledger_remove] at hres
  drop σ o p n all d hi h hl hd := by
    have hbooks := ledger_delete (w := σ.world) hd
    obtain ⟨hi₂, hg⟩ := hi.publish (i := i) (S := { σ.server.release i with db := d }) (by
      rw [hbooks]
      refine .drop _ _ n hl.1 ?_
      rintro - ⟨r, hr, hs, rfl⟩
      simp only [swept, Bool.and_eq_true, decide_eq_true_eq, List.contains_iff_mem,
        List.mem_map] at hs
      obtain ⟨⟨hp, r', hr', hid⟩, he⟩ := hs
      refine ⟨he, ?_⟩
      have hd := (hl.2 r' hr').resolve_left (by simp)
      rwa [hid, ← hp] at hd) rfl
    exact ⟨hi₂, hg, h⟩
  reserve row n _ := by
    refine triple_reserveQuota (B := fun now _ w => w.readings i = [n, now] ∧
      OwnsOption i (some row.id) w) _ _ _ (readings_fact _ [n]) (fun now => readings_fact _ [n, now])
      (ownsReservation_fact _ _ _) (fun σ hi h => ?_)
      (fun σ _ _ hi htx _ => hi.idle i (Server.record_db_of_some htx)) fun σ now d hi h hd => ?_
    · obtain ⟨hi₂, hg⟩ := hi.readClock i
      exact ⟨hi₂, hg, readings_readClock h.1, h.2⟩
    · obtain ⟨hfresh, hbooks⟩ := ledger_reserve (w := σ.world) hd
      have hid := h.2 row.id rfl
      obtain ⟨hi₂, hg⟩ := hi.publish (i := i) (S := { σ.server.release i with db := d }) (by
        rw [hbooks]
        exact .reserve _ row.id row.storageProviderId _ hid hfresh) rfl
      refine ⟨hi₂, hg, ⟨hid, fun place _ => ?_⟩, now, ?_, fun _ => ?_⟩
      · rw [hbooks]
        exact hi.noOrphans.settled fun e he => hfresh place e he
      · simp [CmsWorld.reservedAt, h.1]
      · rw [hbooks]
        exact .inl rfl
  upload σ row tmpPath o r w hi h hok hrun := by
    obtain ⟨⟨hid, hsettled⟩, n, hn, hres⟩ := h
    simp only [CmsCall.run] at hrun
    split at hrun
    · -- The storage takes the bytes.
      rename_i content _
      cases hrun
      have hin := hok n hn
      have hbooks := ledger_store σ.server.db σ.world row.id row.storageProviderId
      obtain ⟨hi₂, hg⟩ := hi.store (i := i) row.id row.storageProviderId (some content) (by
        rw [hbooks]
        exact .store _ row.id row.storageProviderId _ hid hin (hres hin))
      refine ⟨hi₂, hg, hid, fun place hp => ?_⟩
      rw [hbooks]
      rintro (hs | hs)
      · exact absurd (Prod.mk.inj hs).2 hp
      · exact hsettled place trivial hs
    · exact hok.elim
    · cases hrun
      exact ⟨hi, (orphanTerms.quiet i σ _ hi .same).2, hid, hsettled⟩
    · cases hrun
  reserved_cleared row d w h := h.1
  stored_failed row d w h := h
  readAgain σ row hi h := by
    obtain ⟨hi₂, hg⟩ := hi.readClock i
    exact ⟨hi₂, hg, h⟩
  finalise σ row row' φ d hi h hid hp _ _ _ hd := by
    have hbooks := ledger_keep (w := σ.world) hd
    rw [Artifact.entry, hid, hp] at hbooks
    obtain ⟨hi₂, hg⟩ := hi.publish (i := i) (S := { σ.server.release i with db := d }) (by
      rw [hbooks]
      exact .keep _ row.id row.storageProviderId h.1 fun place hp => h.2 place hp) rfl
    refine ⟨hi₂, hg, fun _ => ⟨h.1, fun place hp => ?_⟩⟩
    rw [hbooks]
    exact fun hs => .inr (h.2 place hp hs)
  delete σ row hi h := by
    obtain ⟨hi₂, hg⟩ := hi.remove i row.id row.storageProviderId
    refine ⟨hi₂, hg, h.1, fun place _ => ?_⟩
    by_cases hp : place = row.storageProviderId
    · exact hp ▸ settled_remove _ _ _ _
    · exact Settled.remove (h.2 place hp)
  release σ row d hi h hd := by
    refine hi.publish ?_ rfl
    rw [ledger_release hd]
    exact .release _ row.id h.1 fun place => h.2 place trivial

end outline

/-! ## Runs -/

/-- Every stored object has an artifact or a reservation with its identifier. -/
def Recorded (σ : CmsState) : Prop :=
  ∀ id p, σ.world.objects p (storageKey id) ≠ none →
    (∃ a ∈ σ.server.db.artifacts, a.id = id ∧ a.storageProviderId = p) ∨
      ∃ r ∈ σ.server.db.reservations, r.id = id ∧ r.storageProviderId = p

theorem recorded_iff (σ : CmsState) : Recorded σ ↔ σ.ledger.NoOrphans := by
  constructor
  · intro h id p hs
    rcases h id p hs with ⟨a, ha, rfl, rfl⟩ | ⟨r, hr, rfl, rfl⟩
    · exact .inl ⟨a, ha, rfl⟩
    · exact .inr ⟨r.expiresAt, r, hr, rfl⟩
  · intro h id p hs
    rcases h id p hs with ⟨a, ha, he⟩ | ⟨e, r, hr, he⟩
    · exact .inl ⟨a, ha, (Prod.mk.inj he).1, (Prod.mk.inj he).2⟩
    · exact .inr ⟨r, hr, (Prod.mk.inj he).1, (Prod.mk.inj (Prod.mk.inj he).2).1⟩

/-- In every run of uploads and cleanups in which an upload that stores its bytes reports so, and
stores them before its reservation expires, every stored object stays recorded. -/
theorem stored_objects_recorded (node : Node) {rs : List UploadRequest} {d : Db} {w : CmsWorld}
    (hw : Starting rs w) (hd : Recorded ⟨Server.idle d, w⟩)
    {c : Config cms (Failure String) Unit} (hr : Config.Run StoresInTime (uploads node rs d w) c) :
    Recorded c.state := by
  have hinv : orphanTerms.inv ⟨Server.idle d, w⟩ := ⟨(recorded_iff _).mp hd, hw.consistent⟩
  refine (recorded_iff _).mpr (uploads_run orphanOutline node hinv (fun i hi => ?_) hr).noOrphans
  exact ⟨hw.unread i hi, fun _ h => by cases h⟩

/-! ## A failure that comes late -/

/-- The test of `StoresInTime`. -/
def testStoresInTime (i : ℕ) (s : Action cmsSchema cmsCalls) (ch : Decision Outcome)
    (σ : CmsState) : Bool :=
  match s, ch with
  | .ext (.upload _ _ _), .ext (.failedLate _) => false
  | .ext (.upload _ _ _), .ext (.key _) =>
    decide (σ.world.InTime i)
  | _, _ => true

theorem storesInTime_of_test (i : ℕ) (s : Action cmsSchema cmsCalls) (ch : Decision Outcome)
    (σ : CmsState) (h : testStoresInTime i s ch σ = true) : StoresInTime i s ch σ := by
  cases s with
  | ext c =>
    cases c with
    | upload p key tmp =>
      cases ch with
      | ext o =>
        cases o with
        | failedLate m => cases h
        | key k =>
          exact of_decide_eq_true (p := σ.world.InTime i) h
        | _ => trivial
      | _ => trivial
    | _ => trivial
  | _ => trivial

/-- One upload that stores its byte and goes on to its end. -/
theorem stored_objects_recorded_example :
    ∃ c, Config.Run StoresInTime (uploads toyNode [uploadByte "dev"] uploadDb uploadWorld) c ∧
      c.state.world.objects (toyUuid '5') (storageKey (toyUuid 'a')) ≠ none ∧ Recorded c.state := by
  have h : ((uploads toyNode [uploadByte "dev"] uploadDb uploadWorld).follow testStoresInTime
      (startUpload 0 (toyUuid 'a') ++ reserveUpload 0 ++
        [.thread 0 (.ext (.key (storageKey (toyUuid 'a'))))] ++ finaliseUpload 0)).any
      (fun c => (c.state.world.objects (toyUuid '5') (storageKey (toyUuid 'a'))).isSome) = true := by
    decide +kernel
  obtain ⟨c, hc, hs⟩ := Config.reached_of_follow storesInTime_of_test h
  refine ⟨c, hc, ?_, stored_objects_recorded toyNode (starting_uploadWorld _) ?_ hc⟩
  · exact Option.isSome_iff_ne_none.mp hs
  · exact fun _ _ hs => absurd rfl hs

/-- An upload whose failure is reported after its byte was stored leaves an object that nothing
records: the compensation drops the reservation and does not delete the object. -/
theorem stored_object_unrecorded :
    ∃ c, Config.Run (Guard.always cms)
        (uploads toyNode [uploadByte "dev"] uploadDb uploadWorld) c ∧
      Starting [uploadByte "dev"] uploadWorld ∧ Recorded ⟨Server.idle uploadDb, uploadWorld⟩ ∧
      ¬Recorded c.state := by
  have h : ((uploads toyNode [uploadByte "dev"] uploadDb uploadWorld).follow (fun _ _ _ _ => true)
      (startUpload 0 (toyUuid 'a') ++ reserveUpload 0 ++
        [.thread 0 (.ext (.failedLate "timeout")), .thread 0 (.db .none)])).any
      (fun c => (c.state.world.objects (toyUuid '5') (storageKey (toyUuid 'a'))).isSome &&
        c.state.server.db.artifacts.isEmpty && c.state.server.db.reservations.isEmpty) = true := by
    decide +kernel
  obtain ⟨c, hc, hs⟩ := Config.reached_of_follow (fun _ _ _ _ _ => trivial) h
  simp only [Bool.and_eq_true, List.isEmpty_iff] at hs
  refine ⟨c, hc, starting_uploadWorld _, fun _ _ hs => absurd rfl hs, fun hrec => ?_⟩
  rcases hrec _ _ (Option.isSome_iff_ne_none.mp hs.1.1) with ⟨a, ha, -⟩ | ⟨r, hr, -⟩
  · rw [hs.1.2] at ha
    cases ha
  · rw [hs.2] at hr
    cases hr

end Reeva
