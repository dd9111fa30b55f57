import Reeva.Cms.Books

/-!
# Artifacts keep their objects

A compensation deletes the object of an upload that has not committed, a cleanup deletes those of
expired reservations. Neither meets the object of an artifact in runs where every finalising
transaction commits before the reservation of its upload expires and its success is reported. An upload
that outlives its reservation loses its object to a cleanup that has listed it.
-/

open Interleaving ReadCommitted Ledger

namespace Reeva

open ArtifactService

/-! ## The terms -/

/-- The identifiers whose uploads, among the first `N` programs, have outlived their reservations. -/
def CmsWorld.ended (N : ℕ) (w : CmsWorld) : Set Id :=
  {id | id ∈ w.issued.map (·.2) ∧
    ∀ j < N, id ∈ w.mine j → ∃ n, w.reservedAt j = some n ∧ n + reservationLifetime ≤ w.clock}

/-- Artifacts keep their objects and have no reservations, every row's identifier has been given out,
to one program, and a program's reservation is dated by its reading of the clock. -/
structure KeptInv (N : ℕ) (σ : CmsState) : Prop where
  backed : σ.ledger.Backed
  apart : σ.ledger.Apart
  artifacts : ∀ a ∈ σ.server.db.artifacts, a.id ∈ σ.world.issued.map (·.2)
  reservations : ∀ r ∈ σ.server.db.reservations, r.id ∈ σ.world.issued.map (·.2)
  dated : ∀ r ∈ σ.server.db.reservations, ∀ j < N, r.id ∈ σ.world.mine j →
    ∃ n, σ.world.reservedAt j = some n ∧ r.expiresAt = n + reservationLifetime
  consistent : σ.world.Consistent

/-- What program `i` may count on. -/
structure KeptRely (N i : ℕ) (σ σ' : CmsState) : Prop where
  clock : σ.world.clock ≤ σ'.world.clock
  mine : σ.world.mine i ⊆ σ'.world.mine i
  readings : σ'.world.readings i = σ.world.readings i
  ended : σ.world.ended N ⊆ σ'.world.ended N
  swept : ∀ id ∈ σ.world.ended N, σ.ledger.Unkept id → σ'.ledger.Unkept id
  unkept : ∀ id ∈ σ.world.mine i, σ.ledger.Unkept id → σ'.ledger.Unkept id
  stored : ∀ id ∈ σ.world.mine i, id ∉ σ'.world.ended N → ∀ place,
    (id, place) ∈ σ.ledger.stored → (id, place) ∈ σ'.ledger.stored

theorem KeptRely.refl (N i : ℕ) (σ : CmsState) : KeptRely N i σ σ :=
  ⟨le_rfl, subset_rfl, rfl, subset_rfl, fun _ _ h => h, fun _ _ h => h, fun _ _ _ _ h => h⟩

theorem KeptRely.trans {N i : ℕ} {σ₁ σ₂ σ₃ : CmsState} (h₁ : KeptRely N i σ₁ σ₂)
    (h₂ : KeptRely N i σ₂ σ₃) : KeptRely N i σ₁ σ₃ where
  clock := h₁.clock.trans h₂.clock
  mine := h₁.mine.trans h₂.mine
  readings := h₂.readings.trans h₁.readings
  ended := h₁.ended.trans h₂.ended
  swept id hid h := h₂.swept id (h₁.ended hid) (h₁.swept id hid h)
  unkept id hid h := h₂.unkept id (h₁.mine hid) (h₁.unkept id hid h)
  stored id hid hin place h := h₂.stored id (h₁.mine hid) hin place
    (h₁.stored id hid (fun he => hin (h₂.ended he)) place h)

/-- A step of program `i`. -/
structure KeptGuar (N i : ℕ) (σ σ' : CmsState) : Prop where
  clock : σ'.world.clock = σ.world.clock
  mine : ∀ j, σ.world.mine j ⊆ σ'.world.mine j
  readings : ∀ j ≠ i, σ'.world.readings j = σ.world.readings j
  ended : σ.world.ended N ⊆ σ'.world.ended N
  change : Books.Change (σ.world.ended N) (σ.world.mine i) σ.ledger σ'.ledger

/-- A step of one program is within the rely of another. -/
theorem KeptGuar.rely {N i j : ℕ} {σ σ' : CmsState} (hi : KeptInv N σ) (hij : i ≠ j)
    (h : KeptGuar N i σ σ') : KeptRely N j σ σ' where
  clock := h.clock.ge
  mine := h.mine j
  readings := h.readings j hij.symm
  ended := h.ended
  swept _ hid := h.change.unkept (.inr hid)
  unkept id hid := h.change.unkept (.inl fun hm => hij (hi.consistent.owners i j id hm hid))
  stored id hid hin _ hs :=
    h.change.stored (fun hm => hij (hi.consistent.owners i j id hm hid)) (fun he => hin (h.ended he)) hs

/-- A change of the objects keeps the terms. -/
theorem KeptInv.store {N i : ℕ} {σ : CmsState} (hi : KeptInv N σ) (id p : Id)
    (content : Option (List UInt8))
    (h : Books.Change (σ.world.ended N) (σ.world.mine i) σ.ledger
      (ledger σ.server.db (σ.world.setObject p (storageKey id) content))) :
    KeptInv N ⟨σ.server, σ.world.setObject p (storageKey id) content⟩ ∧
      KeptGuar N i σ ⟨σ.server, σ.world.setObject p (storageKey id) content⟩ :=
  ⟨⟨h.backed hi.backed, h.apart hi.apart, hi.artifacts, hi.reservations, hi.dated,
    ⟨hi.consistent.owners, hi.consistent.read⟩⟩, rfl, fun _ => subset_rfl, fun _ _ => rfl,
    subset_rfl, h⟩

/-- What publishes nothing keeps the terms. -/
theorem KeptInv.idle {N : ℕ} {σ : CmsState} (hi : KeptInv N σ) (i : ℕ) {srv : Server cmsSchema}
    (hdb : srv.db = σ.server.db) : KeptInv N ⟨srv, σ.world⟩ ∧ KeptGuar N i σ ⟨srv, σ.world⟩ := by
  obtain ⟨db, tx, owner, sharers, advisory, gone⟩ := srv
  simp only at hdb
  subst hdb
  exact ⟨⟨hi.backed, hi.apart, hi.artifacts, hi.reservations, hi.dated, hi.consistent⟩, rfl,
    fun _ => subset_rfl, fun _ _ => rfl, subset_rfl, .idle _⟩

/-- What is published keeps the terms when its rows are old, or the program's own. -/
theorem KeptInv.publish {N i : ℕ} {σ : CmsState} (hi : KeptInv N σ) {S : Server cmsSchema}
    {d : Db} (hdb : S.db = d)
    (h : Books.Change (σ.world.ended N) (σ.world.mine i) σ.ledger (ledger d σ.world))
    (ha : ∀ a ∈ d.artifacts, a ∈ σ.server.db.artifacts ∨ a.id ∈ σ.world.mine i)
    (hr : ∀ r ∈ d.reservations, r ∈ σ.server.db.reservations ∨ r.id ∈ σ.world.mine i ∧
      ∃ n, σ.world.reservedAt i = some n ∧ r.expiresAt = n + reservationLifetime) :
    KeptInv N ⟨S, σ.world⟩ ∧ KeptGuar N i σ ⟨S, σ.world⟩ := by
  obtain ⟨db, tx, owner, sharers, advisory, gone⟩ := S
  simp only at hdb
  subst hdb
  have given : ∀ id ∈ σ.world.mine i, id ∈ σ.world.issued.map (·.2) := fun id hid =>
    List.mem_map.mpr ⟨(i, id), hid, rfl⟩
  refine ⟨⟨h.backed hi.backed, h.apart hi.apart, fun a hm => ?_, fun r hm => ?_,
    fun r hm j hj hown => ?_, hi.consistent⟩, rfl, fun _ => subset_rfl, fun _ _ => rfl,
    subset_rfl, h⟩
  · exact (ha a hm).elim (hi.artifacts a) (given a.id)
  · exact (hr r hm).elim (hi.reservations r) fun h => given r.id h.1
  · rcases hr r hm with hm | ⟨hid, hn⟩
    · exact hi.dated r hm j hj hown
    · obtain rfl := hi.consistent.owners i j r.id hid hown
      exact hn

/-- The terms of uploads, the first `N` programs. -/
def keptTerms (N : ℕ) : CmsTerms where
  inv := KeptInv N
  rely := KeptRely N
  guar := KeptGuar N
  rely_refl := KeptRely.refl N
  rely_trans _ _ _ _ := KeptRely.trans
  covers _ _ _ _ hij hi _ h := h.rely hi hij
  quiet i _ _ hi hq := hi.idle i hq.db
  world ch σ w he hi := by
    cases ch with
    | tick n =>
      cases he
      have hended : σ.world.ended N ⊆ CmsWorld.ended N { σ.world with clock := σ.world.clock + n } := by
        refine fun id hid => ⟨hid.1, fun j hj hm => ?_⟩
        obtain ⟨m, hm, hle⟩ := hid.2 j hj hm
        exact ⟨m, hm, hle.trans (Nat.le_add_right _ _)⟩
      exact ⟨⟨hi.backed, hi.apart, hi.artifacts, hi.reservations, hi.dated,
        hi.consistent.tick n⟩,
        fun j => ⟨Nat.le_add_right _ _, subset_rfl, rfl, hended, fun _ _ h => h, fun _ _ h => h,
          fun _ _ _ _ h => h⟩⟩
    | _ => cases he
  abort i σ hi := ⟨⟨hi.backed, hi.apart, hi.artifacts, hi.reservations, hi.dated, hi.consistent⟩,
    fun j => ⟨le_rfl, subset_rfl, rfl, subset_rfl, fun _ _ h => h, fun _ _ h => h,
      fun _ _ _ _ h => h⟩⟩

/-- The condition under which artifacts keep their objects: a finalising transaction commits before
the reservation of its upload expires, and its success is reported. -/
def FinalisesInTime : Guard cms
  | i, .db .commit, .db φ, σ => finalises σ.server i = true → σ.world.InTime i ∧ φ ≠ .late
  | _, _, _, _ => True

/-! ## What an upload does -/

section effects

variable {N i : ℕ} {σ : CmsState}

/-- The time of an identifier that is over stays over when somebody reads the clock. -/
theorem ended_readClock (N i : ℕ) (w : CmsWorld) : w.ended N ⊆ (w.readClock i).ended N := by
  refine fun id hid => ⟨hid.1, fun j hj hm => ?_⟩
  obtain ⟨n, hn, hle⟩ := hid.2 j hj hm
  exact ⟨n, reservedAt_readClock hn i, hle⟩

/-- The next reading of the clock. -/
theorem KeptInv.readClock (hi : KeptInv N σ) (i : ℕ) :
    KeptInv N ⟨σ.server, σ.world.readClock i⟩ ∧
      KeptGuar N i σ ⟨σ.server, σ.world.readClock i⟩ := by
  refine ⟨⟨hi.backed, hi.apart, hi.artifacts, hi.reservations, fun r hr j hj hm => ?_,
    hi.consistent.readClock i⟩, rfl, fun _ => subset_rfl, fun _ hj => readings_readClock_of_ne hj,
    ended_readClock N i _, .idle _⟩
  obtain ⟨n, hn, he⟩ := hi.dated r hr j hj hm
  exact ⟨n, reservedAt_readClock hn i, he⟩

/-- A new identifier: nothing is known under it. -/
theorem KeptInv.issue (hi : KeptInv N σ) {id : Id} (h : id ∉ σ.world.issued.map (·.2)) :
    KeptInv N ⟨σ.server, σ.world.issue i id⟩ ∧ KeptGuar N i σ ⟨σ.server, σ.world.issue i id⟩ ∧
      (ledger σ.server.db (σ.world.issue i id)).Unkept id := by
  have grow : ∀ {id'}, id' ∈ σ.world.issued.map (·.2) →
      id' ∈ (σ.world.issue i id).issued.map (·.2) := fun h => List.mem_cons_of_mem _ h
  have old : ∀ {id' j}, id' ∈ σ.world.issued.map (·.2) → id' ∈ (σ.world.issue i id).mine j →
      id' ∈ σ.world.mine j := by
    intro id' j hid' hm
    rcases List.mem_cons.mp hm with hm | hm
    · exact absurd ((Prod.mk.inj hm).2 ▸ hid') h
    · exact hm
  have hinv : KeptInv N ⟨σ.server, σ.world.issue i id⟩ :=
    ⟨hi.backed, hi.apart, fun a ha => grow (hi.artifacts a ha),
      fun r hr => grow (hi.reservations r hr),
      fun r hr j hj hm => hi.dated r hr j hj (old (hi.reservations r hr) hm),
      hi.consistent.issue i h⟩
  refine ⟨hinv, ⟨rfl, fun _ _ h => List.mem_cons_of_mem _ h, fun _ _ => rfl,
    fun id' hid' => ⟨grow hid'.1, fun j hj hm => hid'.2 j hj (old hid'.1 hm)⟩, .idle _⟩, ?_⟩
  rintro place ⟨a, ha, he⟩
  exact h ((Prod.mk.inj he).1 ▸ hi.artifacts a ha)

end effects

/-! ## The outline -/

section outline

variable {N : ℕ} (i : ℕ)

/-- Program `i`, one of the first `N`, has read the clock at certain times and owns an identifier, if
there is one, under which nothing is kept. -/
def OwnsUnkept (N i : ℕ) (o : Option Id) (ns : List ℕ) (d : Db) (w : CmsWorld) : Prop :=
  i < N ∧ w.readings i = ns ∧ ∀ id ∈ o, id ∈ w.mine i ∧ (ledger d w).Unkept id

/-- Program `i` has a reservation. -/
def Reserved (N i : ℕ) (id : Id) (d : Db) (w : CmsWorld) : Prop :=
  i < N ∧ id ∈ w.mine i ∧ (ledger d w).Unkept id ∧ ∃ n, w.reservedAt i = some n

/-- Program `i` has stored its object; it is there as long as the reservation has not expired. -/
def Stored (N i : ℕ) (id place : Id) (d : Db) (w : CmsWorld) : Prop :=
  Reserved N i id d w ∧ (id ∉ w.ended N → (id, place) ∈ (ledger d w).stored)

theorem ownsUnkept_fact (o : Option Id) (ns : List ℕ) :
    (keptTerms N).Fact i [] (OwnsUnkept N i o ns) :=
  fun _ _ hr _ _ h => ⟨h.1, hr.readings.trans h.2.1,
    fun id hid => ⟨hr.mine (h.2.2 id hid).1, hr.unkept id (h.2.2 id hid).1 (h.2.2 id hid).2⟩⟩

theorem reserved_fact (id : Id) : (keptTerms N).Fact i [] (Reserved N i id) := by
  rintro σ σ' hr - - ⟨hi, hid, hu, n, hn⟩
  exact ⟨hi, hr.mine hid, hr.unkept id hid hu, n,
    (congrArg (fun ns => ns[1]?) hr.readings).trans hn⟩

theorem stored_fact (id place : Id) : (keptTerms N).Fact i [] (Stored N i id place) :=
  fun σ σ' hr hg _ h => ⟨reserved_fact i id σ σ' hr hg (by simp) h.1, fun hin =>
    hr.stored id h.1.2.1 hin place (h.2 fun he => hin (hr.ended he))⟩

theorem swept_fact (all : List Reservation) :
    (keptTerms N).Fact i [] fun d w =>
      ∀ r ∈ all, r.id ∈ w.ended N ∧ (ledger d w).Unkept r.id :=
  fun _ _ hr _ _ h r hm => ⟨hr.ended (h r hm).1, hr.swept r.id (h r hm).1 (h r hm).2⟩

/-- An upload in time has not ended. -/
theorem not_ended {id : Id} {w : CmsWorld} (hi : i < N) (hid : id ∈ w.mine i)
    (hin : w.InTime i) : id ∉ w.ended N := by
  intro he
  obtain ⟨n, hn, hle⟩ := he.2 i hi hid
  exact absurd (hin n hn) (not_lt.mpr hle)

/-- The outline of an upload under these terms. -/
def keptOutline (N i : ℕ) : UploadOutline (keptTerms N) FinalisesInTime i where
  issued o := OwnsUnkept N i o []
  ready o n := OwnsUnkept N i o [n]
  listed p n all todo d w := ∀ r ∈ all, r.id ∈ w.ended N ∧ (ledger d w).Unkept r.id
  reserved row := Reserved N i row.id
  stored row := Stored N i row.id row.storageProviderId
  failed row := Reserved N i row.id
  cleared _ _ _ := True
  issued_fact o := ownsUnkept_fact i o []
  ready_fact o n := ownsUnkept_fact i o [n]
  listed_fact _ _ all _ := swept_fact i all
  reserved_fact row := reserved_fact i _
  stored_fact row := stored_fact i _ _
  failed_fact row := reserved_fact i _
  cleared_fact _ := .const _
  record σ ws w hi htx _ := hi.idle i (Server.record_db_of_some htx)
  issue σ id hi h hfresh := by
    obtain ⟨hi₂, hg, hu⟩ := hi.issue (i := i) hfresh
    refine ⟨hi₂, hg, h.1, h.2.1, fun id' hid' => ?_⟩
    obtain rfl := Option.some.inj hid'
    exact ⟨List.mem_cons_self .., hu⟩
  readClock σ o hi h := by
    obtain ⟨hi₂, hg⟩ := hi.readClock i
    exact ⟨hi₂, hg, h.1, readings_readClock h.2.1, h.2.2⟩
  list σ o p n all hi h hall r hr := by
    obtain ⟨hmem, -, hle⟩ := hall r hr
    refine ⟨⟨hi.reservations r hmem, fun j hj hm => ?_⟩, hi.apart _ _ _ ⟨r, hmem, rfl⟩⟩
    obtain ⟨m, hm, he⟩ := hi.dated r hmem j hj hm
    exact ⟨m, hm, he ▸ hle.trans (hi.consistent.read i n (by rw [h.2.1]; simp))⟩
  sweep σ o p n all r todo hi h hl hr := by
    obtain ⟨hend, hu⟩ := hl r hr
    obtain ⟨hi₂, hg⟩ := hi.store (i := i) r.id p none (by
      rw [ledger_remove]
      exact .remove _ r.id p (.inr hend) hu)
    exact ⟨hi₂, hg, h, hl⟩
  drop σ o p n all d hi h hl hd := by
    obtain ⟨ha, hr⟩ := rows_delete hd
    obtain ⟨hi₂, hg⟩ := hi.publish (i := i) (S := { σ.server.release i with db := d }) rfl (by
      rw [ledger_delete hd]
      exact .drop _ _) (fun a hm => .inl (ha ▸ hm)) fun r hm => .inl (hr hm)
    refine ⟨hi₂, hg, h.1, h.2.1, fun id hid => ⟨(h.2.2 id hid).1, ?_⟩⟩
    rw [ledger_delete hd]
    exact (h.2.2 id hid).2
  reserve row n _ := by
    refine triple_reserveQuota (B := fun now => OwnsUnkept N i (some row.id) [n, now]) _ _ _
      (ownsUnkept_fact i _ [n]) (fun now => ownsUnkept_fact i _ [n, now]) (reserved_fact i _)
      (fun σ hi h => ?_) (fun σ _ _ hi htx _ => hi.idle i (Server.record_db_of_some htx))
      fun σ now d hi h hd => ?_
    · obtain ⟨hi₂, hg⟩ := hi.readClock i
      exact ⟨hi₂, hg, h.1, readings_readClock h.2.1, h.2.2⟩
    · obtain ⟨hlt, hread, hown⟩ := h
      obtain ⟨hid, hu⟩ := hown row.id rfl
      have hat : σ.world.reservedAt i = some now := by simp [CmsWorld.reservedAt, hread]
      obtain ⟨-, hbooks⟩ := ledger_reserve (w := σ.world) hd
      obtain ⟨ha, hr⟩ := rows_reserve hd
      obtain ⟨hi₂, hg⟩ := hi.publish (i := i) (S := { σ.server.release i with db := d }) rfl (by
        rw [hbooks]
        exact .reserve _ row.id row.storageProviderId _ hu) (fun a hm => .inl (ha ▸ hm)) (by
        intro r hm
        rcases List.mem_append.mp (hr ▸ hm) with hm | hm
        · exact .inl hm
        · rw [List.mem_singleton.mp hm]
          exact .inr ⟨hid, now, hat, rfl⟩)
      refine ⟨hi₂, hg, hlt, hid, ?_, now, hat⟩
      rw [hbooks]
      exact hu
  upload σ row tmpPath o r w hi h hok hrun := by
    have store := fun content => hi.store (i := i) row.id row.storageProviderId (some content) (by
      rw [ledger_store]
      exact .store _ row.id _)
    have hafter : ∀ content, Reserved N i row.id σ.server.db
        (σ.world.setObject row.storageProviderId (storageKey row.id) (some content)) := by
      intro content
      refine ⟨h.1, h.2.1, ?_, h.2.2.2⟩
      rw [ledger_store]
      exact h.2.2.1
    simp only [CmsCall.run] at hrun
    split at hrun
    · rename_i content _
      cases hrun
      refine ⟨(store content).1, (store content).2, hafter content, fun _ => ?_⟩
      rw [ledger_store]
      exact .inl rfl
    · rename_i content _
      cases hrun
      exact ⟨(store content).1, (store content).2, trivial⟩
    · cases hrun
      exact ⟨hi, ((keptTerms N).quiet i σ _ hi .same).2, trivial⟩
    · cases hrun
  reserved_cleared _ _ _ _ := trivial
  stored_failed row d w h := h.1
  readAgain σ row hi h := by
    obtain ⟨hi₂, hg⟩ := hi.readClock i
    obtain ⟨⟨hlt, hid, hu, n, hn⟩, hs⟩ := h
    exact ⟨hi₂, hg, ⟨hlt, hid, hu, n, reservedAt_readClock hn i⟩,
      fun hin => hs fun he => hin (ended_readClock N i _ he)⟩
  finalise σ row row' φ d hi h hid hp _ htx hok hd := by
    obtain ⟨⟨hlt, hown, hu, -⟩, hs⟩ := h
    obtain ⟨hin, hφ⟩ := hok (by simp [finalises, htx])
    have hend := not_ended i hlt hown hin
    have hbooks := ledger_keep (w := σ.world) hd
    obtain ⟨ha, hr⟩ := rows_keep hd
    obtain ⟨hi₂, hg⟩ := hi.publish (i := i) (S := { σ.server.release i with db := d }) rfl (by
      rw [hbooks, Artifact.entry, hid, hp]
      exact .keep _ row.id row.storageProviderId hown hend (hs hend)) (by
      intro a hm
      rcases List.mem_append.mp (ha ▸ hm) with hm | hm
      · exact .inl hm
      · rw [List.mem_singleton.mp hm, hid]
        exact .inr hown) fun r hm => .inl (List.mem_filter.mp (hr ▸ hm)).1
    exact ⟨hi₂, hg, fun h => absurd h hφ⟩
  delete σ row hi h := by
    obtain ⟨hi₂, hg⟩ := hi.store (i := i) row.id row.storageProviderId none (by
      rw [ledger_remove]
      exact .remove _ row.id _ (.inl h.2.1) h.2.2.1)
    exact ⟨hi₂, hg, trivial⟩
  release σ row d hi _ hd := by
    obtain ⟨ha, hr⟩ := rows_delete hd
    refine hi.publish rfl ?_ (fun a hm => .inl (ha ▸ hm)) fun r hm => .inl (hr hm)
    rw [ledger_delete hd]
    exact .drop _ _

end outline

/-! ## Runs -/

/-- Every artifact's object is there. -/
def ObjectsKept (σ : CmsState) : Prop :=
  ∀ a ∈ σ.server.db.artifacts, σ.world.objects a.storageProviderId (storageKey a.id) ≠ none

/-- The identifiers of artifacts and reservations were given out, and none is that of both. -/
structure Accounted (d : Db) (w : CmsWorld) : Prop where
  artifacts : ∀ a ∈ d.artifacts, a.id ∈ w.issued.map (·.2)
  reservations : ∀ r ∈ d.reservations, r.id ∈ w.issued.map (·.2)
  apart : ∀ r ∈ d.reservations, ∀ a ∈ d.artifacts, a.id ≠ r.id

/-- In every run of uploads and cleanups in which a finalising transaction commits before the
reservation of its upload expires and its success is reported, every artifact keeps its object. -/
theorem artifacts_keep_objects (node : Node) {rs : List UploadRequest} {d : Db} {w : CmsWorld}
    (hw : Starting rs w) (hd : Accounted d w) (hk : ObjectsKept ⟨Server.idle d, w⟩)
    {c : Config cms (Failure String) Unit}
    (hr : Config.Run FinalisesInTime (uploads node rs d w) c) : ObjectsKept c.state := by
  have hinv : (keptTerms rs.length).inv ⟨Server.idle d, w⟩ := by
    refine ⟨?_, ?_, hd.artifacts, hd.reservations, fun r _ j hj hm => ?_, hw.consistent⟩
    · rintro - ⟨a, ha, rfl⟩
      exact hk a ha
    · rintro id place e ⟨r, hr, he⟩ place' ⟨a, ha, he'⟩
      exact hd.apart r hr a ha ((Prod.mk.inj he').1.trans (Prod.mk.inj he).1.symm)
    · exact absurd hm (hw.unissued j hj r.id)
  have hfinal := (uploads_run (keptOutline rs.length) node hinv
    (fun i hi => ⟨hi, hw.unread i hi, fun _ h => by cases h⟩) hr).backed
  exact fun a ha => hfinal ⟨a, ha, rfl⟩

/-! ## An upload that outlives its reservation -/

/-- The test of `FinalisesInTime`. -/
def testFinalisesInTime (i : ℕ) (s : Action cmsSchema cmsCalls) (ch : Decision Outcome)
    (σ : CmsState) : Bool :=
  match s, ch with
  | .db .commit, .db φ => !(finalises σ.server i) || decide (σ.world.InTime i ∧ φ ≠ .late)
  | _, _ => true

theorem finalisesInTime_of_test (i : ℕ) (s : Action cmsSchema cmsCalls) (ch : Decision Outcome)
    (σ : CmsState) (h : testFinalisesInTime i s ch σ = true) : FinalisesInTime i s ch σ := by
  cases s with
  | db s =>
    cases s with
    | commit =>
      cases ch with
      | db φ =>
        intro hf
        rcases Bool.or_eq_true_iff.mp h with h | h
        · rw [hf] at h
          cases h
        · exact of_decide_eq_true (p := σ.world.InTime i ∧ φ ≠ .late) h
      | _ => exact True.intro
    | _ => exact True.intro
  | _ => exact True.intro

/-- Nothing is stored before the upload, and nothing is promised. -/
theorem accounted_uploadDb : Accounted uploadDb uploadWorld where
  artifacts _ h := by cases h
  reservations _ h := by cases h
  apart _ h := by cases h

/-- One upload, in time. -/
theorem artifacts_keep_objects_example :
    ∃ c, Config.Run FinalisesInTime (uploads toyNode [uploadByte "dev"] uploadDb uploadWorld) c ∧
      c.state.server.db.artifacts ≠ [] ∧ ObjectsKept c.state := by
  have h : ((uploads toyNode [uploadByte "dev"] uploadDb uploadWorld).follow testFinalisesInTime
      (startUpload 0 (toyUuid 'a') ++ reserveUpload 0 ++
        [.thread 0 (.ext (.key (storageKey (toyUuid 'a'))))] ++ finaliseUpload 0)).any
      (fun c => !c.state.server.db.artifacts.isEmpty) = true := by
    decide +kernel
  obtain ⟨c, hc, hs⟩ := Config.reached_of_follow finalisesInTime_of_test h
  refine ⟨c, hc, fun he => by simp [he] at hs, ?_⟩
  exact artifacts_keep_objects toyNode (starting_uploadWorld _) accounted_uploadDb
    (fun _ h => by cases h) hc

/-- An upload stores its byte and outlives its reservation, a cleanup lists the reservation, the upload
commits, and the cleanup deletes the object of the artifact. -/
theorem artifact_loses_object :
    ∃ c, Config.Run (Guard.always cms) (uploads toyNode
        [uploadByte "dev", .cleanup (toyUuid '5') 2] uploadDb uploadWorld) c ∧
      Starting [uploadByte "dev", .cleanup (toyUuid '5') 2] uploadWorld ∧
      Accounted uploadDb uploadWorld ∧ ObjectsKept ⟨Server.idle uploadDb, uploadWorld⟩ ∧
      ¬ObjectsKept c.state := by
  have h : ((uploads toyNode [uploadByte "dev", .cleanup (toyUuid '5') 2] uploadDb
      uploadWorld).follow (fun _ _ _ _ => true)
      (startUpload 0 (toyUuid 'a') ++ reserveUpload 0 ++
        [.thread 0 (.ext (.key (storageKey (toyUuid 'a')))), .env (.ext (.tick reservationLifetime)),
          .thread 1 (.ext .done), .thread 1 (.ext .done), .thread 1 (.db .none)] ++
        finaliseUpload 0 ++ [.thread 1 (.ext .done)])).any
      (fun c => c.state.server.db.artifacts.any fun a =>
        (c.state.world.objects a.storageProviderId (storageKey a.id)).isNone) = true := by
    decide +kernel
  obtain ⟨c, hc, hs⟩ := Config.reached_of_follow (fun _ _ _ _ _ => trivial) h
  obtain ⟨a, ha, hnone⟩ := List.any_eq_true.mp hs
  exact ⟨c, hc, starting_uploadWorld _, accounted_uploadDb, fun _ h => (by cases h),
    fun hk => hk a ha (Option.isNone_iff_eq_none.mp hnone)⟩

end Reeva
