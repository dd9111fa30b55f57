import Reeva.Cms.Rules
import Reeva.Cms.ArtifactService

/-!
# Outlines of uploads

The requests of this module are `uploadArtifact` and `cleanupExpiredReservations` on its own. An
`UploadOutline` says, under some terms, what an upload knows at each of its stages, and that each of
its effects leads from one stage to the next: the identifier, the reading of the clock, the deletions
of a cleanup, the reservation, the call of the storage, the finalising transaction and the
compensation. From it `UploadOutline.request` derives that the whole request keeps the terms.
-/

open Interleaving ReadCommitted

namespace Reeva

open ArtifactService

/-! ## Outlines -/

/-- Whether a cleanup drops a reservation. -/
def swept (provider : Id) (expired : List Reservation) (now : ℕ) (r : Reservation) : Bool :=
  r.storageProviderId = provider && (expired.map (·.id)).contains r.id && r.expiresAt ≤ now

/-- The identifiers that program `i` was given. -/
def CmsWorld.mine (w : CmsWorld) (i : ℕ) : Set Id := {id | (i, id) ∈ w.issued}

/-- When an upload made its reservation: at its second reading of the clock. -/
def CmsWorld.reservedAt (w : CmsWorld) (i : ℕ) : Option ℕ := (w.readings i)[1]?

/-- The reservation of upload `i`, if it has made one, has not expired. -/
def CmsWorld.InTime (w : CmsWorld) (i : ℕ) : Prop :=
  ∀ n, w.reservedAt i = some n → w.clock < n + reservationLifetime

instance (w : CmsWorld) (i : ℕ) : Decidable (w.InTime i) :=
  match h : w.reservedAt i with
  | none => .isTrue fun n hn => by
    rw [h] at hn
    cases hn
  | some n => decidable_of_iff (w.clock < n + reservationLifetime)
    ⟨fun hc m hm => by
      rw [h] at hm
      cases hm
      exact hc, fun hc => hc n h⟩

/-- No identifier went to two programs, and nobody has read the clock ahead of time. -/
structure CmsWorld.Consistent (w : CmsWorld) : Prop where
  owners : ∀ i j id, id ∈ w.mine i → id ∈ w.mine j → i = j
  read : ∀ i, ∀ n ∈ w.readings i, n ≤ w.clock

/-- The world after program `i` has read the clock. -/
def CmsWorld.readClock (w : CmsWorld) (i : ℕ) : CmsWorld :=
  { w with readings := Function.update w.readings i (w.readings i ++ [w.clock]) }

/-- The world after an identifier went to program `i`. -/
def CmsWorld.issue (w : CmsWorld) (i : ℕ) (id : Id) : CmsWorld :=
  { w with issued := (i, id) :: w.issued }

/-- What program `i` has read after it read the clock. -/
theorem readings_readClock {w : CmsWorld} {i : ℕ} {ns : List ℕ} (h : w.readings i = ns) :
    (w.readClock i).readings i = ns ++ [w.clock] :=
  (Function.update_self ..).trans (by rw [h])

/-- What others have read after program `i` read the clock. -/
theorem readings_readClock_of_ne {w : CmsWorld} {i j : ℕ} (h : j ≠ i) :
    (w.readClock i).readings j = w.readings j := Function.update_of_ne h _ _

/-- Reservations keep their dates. -/
theorem reservedAt_readClock {w : CmsWorld} {j n : ℕ} (h : w.reservedAt j = some n) (i : ℕ) :
    (w.readClock i).reservedAt j = some n := by
  by_cases hji : j = i
  · subst hji
    obtain ⟨hlen, -⟩ := List.getElem?_eq_some_iff.mp h
    rw [CmsWorld.reservedAt, readings_readClock rfl, List.getElem?_append_left hlen]
    exact h
  · rw [CmsWorld.reservedAt, readings_readClock_of_ne hji]
    exact h

namespace CmsWorld.Consistent

variable {w : CmsWorld}

/-- A reading of the clock. -/
theorem readClock (h : w.Consistent) (i : ℕ) : (w.readClock i).Consistent := by
  refine ⟨h.owners, fun j n hn => ?_⟩
  by_cases hji : j = i
  · subst hji
    rw [readings_readClock rfl] at hn
    rcases List.mem_append.mp hn with hn | hn
    · exact h.read j n hn
    · exact (List.mem_singleton.mp hn).le
  · rw [readings_readClock_of_ne hji] at hn
    exact h.read j n hn

/-- A new identifier. -/
theorem issue (h : w.Consistent) (i : ℕ) {id : Id} (hnew : id ∉ w.issued.map (·.2)) :
    (w.issue i id).Consistent := by
  have new : ∀ j, id ∉ w.mine j := fun j hj => hnew (List.mem_map.mpr ⟨(j, id), hj, rfl⟩)
  refine ⟨fun j k id' hj hk => ?_, h.read⟩
  rcases List.mem_cons.mp hj with hj | hj <;> rcases List.mem_cons.mp hk with hk | hk
  · exact (Prod.mk.inj hj).1.trans (Prod.mk.inj hk).1.symm
  · exact absurd ((Prod.mk.inj hj).2 ▸ hk) (new k)
  · exact absurd ((Prod.mk.inj hk).2 ▸ hj) (new j)
  · exact h.owners j k id' hj hk

/-- Time passes. -/
theorem tick (h : w.Consistent) (n : ℕ) : Consistent { w with clock := w.clock + n } :=
  ⟨h.owners, fun i m hm => (h.read i m hm).trans (Nat.le_add_right _ _)⟩

end CmsWorld.Consistent

/-- What every artifact that is uploaded has: its own storage key, and a positive size. -/
structure Uploaded (a : Artifact) : Prop where
  key : a.storageKey = storageKey a.id
  size : ∃ n, a.sizeBytes = some n ∧ 0 < n ∧ Js.isSafeInteger n = true

/-- Program `i` has inserted an artifact in its open transaction. -/
def finalises (srv : Server cmsSchema) (i : ℕ) : Bool :=
  ((srv.tx i).getD []).any fun w => match w with
    | .insertArtifact _ => true
    | _ => false

/-- A cleanup on its own, as an upload performs it before its reservation. -/
def cleanupRequest (provider : Id) (fuel : ℕ) : Cms Unit := do
  Cms.orThrow (← Cms.call (.resolve provider))
  let now : ℕ ← Cms.call .now
  cleanupExpiredReservations provider now fuel

/-- The requests that reserve, store and clean up. -/
inductive UploadRequest
  | upload (fuel : ℕ) (file : MultipartFile) (data : ArtifactInput)
  | cleanup (provider : Id) (fuel : ℕ)

/-- The program of a request. -/
def UploadRequest.program (node : Node) : UploadRequest → Cms Unit
  | upload fuel file data => Cms.discard (uploadArtifact node fuel file data)
  | cleanup provider fuel => cleanupRequest provider fuel

/-- What an upload or a cleanup knows at each stage, and what its effects do. -/
structure UploadOutline (T : CmsTerms) (ok : Guard cms) (i : ℕ) where
  /-- Before the first reading of the clock, without an identifier or with one. -/
  issued : Option Id → Db → CmsWorld → Prop
  /-- After the first reading of the clock. -/
  ready : Option Id → ℕ → Db → CmsWorld → Prop
  /-- During a batch of the cleanup: the expired reservations, and those whose objects are still to be
  deleted. -/
  listed : Id → ℕ → List Reservation → List Reservation → Db → CmsWorld → Prop
  /-- With a reservation. -/
  reserved : Artifact → Db → CmsWorld → Prop
  /-- After the storage has taken the bytes. -/
  stored : Artifact → Db → CmsWorld → Prop
  /-- After the storage has taken the bytes and the upload has failed. -/
  failed : Artifact → Db → CmsWorld → Prop
  /-- When the reservation may go. -/
  cleared : Artifact → Db → CmsWorld → Prop
  issued_fact : ∀ o, T.Fact i [] (issued o)
  ready_fact : ∀ o n, T.Fact i [] (ready o n)
  listed_fact : ∀ p n all todo, T.Fact i [] (listed p n all todo)
  reserved_fact : ∀ row, T.Fact i [] (reserved row)
  stored_fact : ∀ row, T.Fact i [] (stored row)
  failed_fact : ∀ row, T.Fact i [] (failed row)
  cleared_fact : ∀ row, T.Fact i [] (cleared row)
  /-- Within a transaction a write is only recorded. -/
  record : ∀ (σ : CmsState) ws w, T.inv σ → σ.server.tx i = some ws →
    (∀ l ∈ cmsSchema.locks w (σ.server.view i), σ.server.free i l = true) →
    T.inv ⟨σ.server.record i w, σ.world⟩ ∧ T.guar i σ ⟨σ.server.record i w, σ.world⟩
  /-- `randomUUID()` -/
  issue : ∀ (σ : CmsState) id, T.inv σ → issued none σ.server.db σ.world →
    id ∉ σ.world.issued.map (·.2) →
    T.inv ⟨σ.server, σ.world.issue i id⟩ ∧ T.guar i σ ⟨σ.server, σ.world.issue i id⟩ ∧
      issued (some id) σ.server.db (σ.world.issue i id)
  /-- The first reading of the clock. -/
  readClock : ∀ (σ : CmsState) o, T.inv σ → issued o σ.server.db σ.world →
    T.inv ⟨σ.server, σ.world.readClock i⟩ ∧ T.guar i σ ⟨σ.server, σ.world.readClock i⟩ ∧
      ready o σ.world.clock σ.server.db (σ.world.readClock i)
  /-- The query of the cleanup. -/
  list : ∀ (σ : CmsState) o p n all, T.inv σ → ready o n σ.server.db σ.world →
    (∀ r ∈ all, r ∈ σ.server.db.reservations ∧ r.storageProviderId = p ∧ r.expiresAt ≤ n) →
    listed p n all all σ.server.db σ.world
  /-- A deletion of the cleanup. -/
  sweep : ∀ (σ : CmsState) o p n all r todo, T.inv σ → ready o n σ.server.db σ.world →
    listed p n all (r :: todo) σ.server.db σ.world → r ∈ all →
    T.inv ⟨σ.server, σ.world.setObject p (storageKey r.id) none⟩ ∧
      T.guar i σ ⟨σ.server, σ.world.setObject p (storageKey r.id) none⟩ ∧
      ready o n σ.server.db (σ.world.setObject p (storageKey r.id) none) ∧
      listed p n all todo σ.server.db (σ.world.setObject p (storageKey r.id) none)
  /-- The transaction of the cleanup. -/
  drop : ∀ (σ : CmsState) o p n all d, T.inv σ → ready o n σ.server.db σ.world →
    listed p n all [] σ.server.db σ.world →
    d.toTables = (Write.run σ.server.db.toTables (.deleteReservations (swept p all n))).2 →
    T.inv ⟨{ σ.server.release i with db := d }, σ.world⟩ ∧
      T.guar i σ ⟨{ σ.server.release i with db := d }, σ.world⟩ ∧ ready o n d σ.world
  /-- The reservation. -/
  reserve : ∀ row n, Uploaded row → Triple ok T.discipline i (Holds i none [] (ready (some row.id) n))
    (reserveQuota row.id row.storageProviderId (row.sizeBytes.getD 0))
    (fun _ => Holds i none [] (reserved row)) fun _ _ => True
  /-- The call of the storage. -/
  upload : ∀ (σ : CmsState) row tmpPath o r w, T.inv σ → reserved row σ.server.db σ.world →
    ok i (.ext (.upload row.storageProviderId (storageKey row.id) tmpPath)) (.ext o) σ →
    CmsCall.run i (.upload row.storageProviderId (storageKey row.id) tmpPath) o σ.world =
      some (r, w) →
    T.inv ⟨σ.server, w⟩ ∧ T.guar i σ ⟨σ.server, w⟩ ∧
      match (r : Except String String) with
      | .ok _ => stored row σ.server.db w
      | .error _ => cleared row σ.server.db w
  reserved_cleared : ∀ row d w, reserved row d w → cleared row d w
  stored_failed : ∀ row d w, stored row d w → failed row d w
  /-- A further reading of the clock. -/
  readAgain : ∀ (σ : CmsState) row, T.inv σ → stored row σ.server.db σ.world →
    T.inv ⟨σ.server, σ.world.readClock i⟩ ∧ T.guar i σ ⟨σ.server, σ.world.readClock i⟩ ∧
      stored row σ.server.db (σ.world.readClock i)
  /-- The finalising transaction. -/
  finalise : ∀ (σ : CmsState) row (row' : Artifact) φ d, T.inv σ →
    stored row σ.server.db σ.world → row'.id = row.id →
    row'.storageProviderId = row.storageProviderId → row'.sizeBytes = row.sizeBytes →
    σ.server.tx i = some [.insertArtifact row', .deleteReservations (·.id = row'.id)] →
    ok i (.db .commit) (.db φ) σ →
    d.toTables = (Write.run (Write.run σ.server.db.toTables (.insertArtifact row')).2
      (.deleteReservations (·.id = row'.id))).2 →
    T.inv ⟨{ σ.server.release i with db := d }, σ.world⟩ ∧
      T.guar i σ ⟨{ σ.server.release i with db := d }, σ.world⟩ ∧
      (φ = .late → failed row d σ.world)
  /-- The deletion of the compensation. -/
  delete : ∀ (σ : CmsState) row, T.inv σ → failed row σ.server.db σ.world →
    T.inv ⟨σ.server, σ.world.setObject row.storageProviderId (storageKey row.id) none⟩ ∧
      T.guar i σ ⟨σ.server, σ.world.setObject row.storageProviderId (storageKey row.id) none⟩ ∧
      cleared row σ.server.db (σ.world.setObject row.storageProviderId (storageKey row.id) none)
  /-- The end of the reservation. -/
  release : ∀ (σ : CmsState) row d, T.inv σ → cleared row σ.server.db σ.world →
    d.toTables = (Write.run σ.server.db.toTables (.deleteReservations (·.id = row.id))).2 →
    T.inv ⟨{ σ.server with db := d }, σ.world⟩ ∧ T.guar i σ ⟨{ σ.server with db := d }, σ.world⟩

/-- A failure about which nothing is said. -/
abbrev anyFailure : Failure String → CmsState → Prop := fun _ _ => True

/-- The reservation, for terms that take no interest in its checks. -/
theorem triple_reserveQuota {T : CmsTerms} {ok : Guard cms} {i : ℕ} {A C : Db → CmsWorld → Prop}
    {B : ℕ → Db → CmsWorld → Prop} (id p : Id) (size : ℤ) (hA : T.Fact i [] A)
    (hB : ∀ now, T.Fact i [] (B now)) (hC : T.Fact i [] C)
    (hread : ∀ σ : CmsState, T.inv σ → A σ.server.db σ.world →
      T.inv ⟨σ.server, σ.world.readClock i⟩ ∧ T.guar i σ ⟨σ.server, σ.world.readClock i⟩ ∧
        B σ.world.clock σ.server.db (σ.world.readClock i))
    (hrecord : ∀ (σ : CmsState) ws w, T.inv σ → σ.server.tx i = some ws →
      (∀ l ∈ cmsSchema.locks w (σ.server.view i), σ.server.free i l = true) →
      T.inv ⟨σ.server.record i w, σ.world⟩ ∧ T.guar i σ ⟨σ.server.record i w, σ.world⟩)
    (hcommit : ∀ (σ : CmsState) now d, T.inv σ → B now σ.server.db σ.world →
      d.toTables = (Write.run σ.server.db.toTables (.insertReservation
        ⟨id, p, size, now + reservationLifetime⟩)).2 →
      T.inv ⟨{ σ.server.release i with db := d }, σ.world⟩ ∧
        T.guar i σ ⟨{ σ.server.release i with db := d }, σ.world⟩ ∧ C d σ.world) :
    Triple ok T.discipline i (Holds i none [] A) (reserveQuota id p size)
      (fun _ => Holds i none [] C) fun _ _ => True := by
  have any : ∀ {A : Db → CmsWorld → Prop} {tx : Option (List Write)} {rows : List cmsSchema.Row}
      (e : Failure String) (σ : CmsState), Holds i tx rows A σ →
      Known i [] (fun (_ : Db) (_ : CmsWorld) => True) σ := fun _ _ _ _ => ⟨by simp, trivial⟩
  refine (triple_transaction (D := cmsSchema) (X := cmsWorld) (R := fun _ _ => True)
    (B := fun _ ws _ d w => ∃ now, ws = [Write.insertReservation
      ⟨id, p, size, now + reservationLifetime⟩] ∧ B now d w) (C := fun _ => C)
    hA (.const _) ?_ (fun _ => hC) (fun _ _ _ => trivial) (fun _ _ _ _ _ _ => trivial) ?_ ?_).mono
    (fun _ h => h) (fun _ _ h => h) fun _ _ _ => trivial
  · rintro - ws ls σ σ' hr hg - ⟨now, hws, h⟩
    exact ⟨now, hws, hB now σ σ' hr hg (by simp) h⟩
  · -- The body: the provider's row, the clock, the two sums, the check and the insert.
    refine triple_selectForUpdate (B := fun _ _ => A) hA (fun _ _ _ h => h)
      (fun e σ h => h.mono (by simp) fun _ _ _ => trivial) fun found provider => ?_
    have hA' := hA.more (L := alone (D := cmsSchema) (Row.forUpdate .storageProviders found) ++ [])
      (by simp)
    refine triple_orFail hA' any fun provider _ => triple_refuse hA' any fun _ => ?_
    refine triple_call (B := B) hA' ?_ fun now : ℕ => ?_
    · rintro σ o r w hi ha - hrun
      cases hrun
      exact hread σ hi ha
    · have hB' := (hB now).more
        (L := alone (D := cmsSchema) (Row.forUpdate .storageProviders found) ++ []) (by simp)
      refine triple_select_any hB' any fun used => triple_select_any hB' any fun pending => ?_
      dsimp only
      split
      · exact .fail hB'.stable fun σ _ _ => ⟨by simp, trivial⟩
      · refine triple_write (D := cmsSchema) hB' (fun σ hi htx _ _ hf => hrecord σ _ _ hi htx hf)
          (fun _ _ _ _ => ⟨by simp, trivial⟩) fun _ => ?_
        exact .ret hB'.stable fun σ h => ⟨_, _, h.mono fun _ _ h => ⟨now, rfl, h⟩⟩
  · rintro - ws ls σ φ d hi - - ⟨now, rfl, hb⟩ - hd
    -- The commit publishes the one row.
    obtain ⟨hi₂, hg, hc⟩ := hcommit σ now d hi hb (publish_one hd)
    exact ⟨hi₂, hg, hc, fun _ => trivial⟩

namespace UploadOutline

variable {T : CmsTerms} {ok : Guard cms} {i : ℕ} (O : UploadOutline T ok i) (node : Node)

theorem hrefl (i : ℕ) (σ : CmsState) : T.discipline.rely i σ σ := T.discipline_refl i σ

/-! ## The cleanup -/

/-- A batch of deletions. -/
theorem deleteObjects (o : Option Id) (p : Id) (n : ℕ) (all todo : List Reservation)
    (h : ∀ r ∈ todo, r ∈ all) :
    Triple ok T.discipline i
      (Holds i none [] fun d w => O.ready o n d w ∧ O.listed p n all todo d w)
      (deleteObjects p todo)
      (fun _ => Holds i none [] fun d w => O.ready o n d w ∧ O.listed p n all [] d w)
      anyFailure := by
  induction todo with
  | nil => exact .ret ((O.ready_fact o n).and (O.listed_fact p n all [])).stable fun _ h => h
  | cons r todo ih =>
    have hfact := (O.ready_fact o n).and (O.listed_fact p n all (r :: todo))
    refine triple_call (B := fun res d w => O.ready o n d w ∧
      ((res : Except String Unit) = .ok () → O.listed p n all todo d w)) hfact ?_ fun res => ?_
    · rintro σ outcome res w hi ⟨hready, hlisted⟩ - hrun
      obtain ⟨hi₂, hg, hready₂, hlisted₂⟩ :=
        O.sweep σ o p n all r todo hi hready hlisted (h r (List.mem_cons_self ..))
      cases outcome with
      | done =>
        cases hrun
        exact ⟨hi₂, hg, hready₂, fun _ => hlisted₂⟩
      | failedLate m =>
        cases hrun
        exact ⟨hi₂, hg, hready₂, fun he => by cases he⟩
      | failed m =>
        cases hrun
        exact ⟨hi, (T.quiet i σ _ hi .same).2, hready, fun he => by cases he⟩
      | _ => cases hrun
    · cases res with
      | error m => exact fun _ _ _ _ _ _ => trivial
      | ok u =>
        exact (ih fun r hr => h r (List.mem_cons_of_mem _ hr)).mono
          (fun σ hσ => hσ.mono fun d w hd => ⟨hd.1, hd.2 rfl⟩) (fun _ _ h => h) fun _ _ h => h

/-- The cleanup. -/
theorem cleanup (o : Option Id) (p : Id) (n fuel : ℕ) :
    Triple ok T.discipline i (Holds i none [] (O.ready o n)) (cleanupExpiredReservations p n fuel)
      (fun _ => Holds i none [] (O.ready o n)) anyFailure := by
  have hready := O.ready_fact o n
  induction fuel with
  | zero => exact triple_halt
  | succ fuel ih =>
    refine triple_select (B := fun expired d w => O.ready o n d w ∧ O.listed p n expired expired d w)
      hready ?_ (fun _ _ _ => trivial) fun expired => ?_
    · intro σ hi hr
      refine ⟨hr, O.list σ o p n _ hi hr fun r hmem => ?_⟩
      have hmem := List.mem_filter.mp (List.mem_mergeSort.mp (List.mem_of_mem_take hmem))
      simp only [Bool.and_eq_true, decide_eq_true_eq] at hmem
      exact hmem
    · have hlist := fun todo => hready.and (O.listed_fact p n expired todo)
      split
      · exact .ret (hlist expired).stable fun _ hσ => hσ.mono fun _ _ h => h.1
      · refine .bind (hrefl i) (O.deleteObjects o p n expired expired fun _ => id) fun _ => ?_
        refine .bind (hrefl i) (B := fun _ => Holds i none [] (O.ready o n)) ?_ fun _ => ih
        refine (triple_transaction (D := cmsSchema) (X := cmsWorld) (R := fun _ _ => True)
          (B := fun _ ws _ d w => (O.ready o n d w ∧ O.listed p n expired [] d w) ∧
            ws = [Write.deleteReservations (swept p expired n)])
          (C := fun _ => O.ready o n) (hlist []) (.const _) (fun _ _ _ => ((hlist []).and
            (.const _)).more fun _ h => by cases h) (fun _ => hready) (fun _ _ _ => trivial)
          (fun _ _ _ _ _ _ => trivial) ?_ ?_).mono (fun _ h => h) (fun _ _ h => h)
          fun _ _ _ => trivial
        · refine triple_write (D := cmsSchema) (hlist []) (fun σ hi htx _ _ hfree =>
            O.record σ _ _ hi htx hfree) (fun _ _ h => h.mono (fun _ h => h) fun _ _ _ => trivial)
            fun _ => ?_
          refine .ret (hlist []).stable fun σ hσ => ⟨_, [], hσ.1, fun hg => ⟨by simp, (hσ.2 hg).2, ?_⟩⟩
          rfl
        · rintro - ws ls σ φ d hi - - ⟨⟨hr, hl⟩, rfl⟩ - hd
          obtain ⟨hi₂, hg, hr₂⟩ := O.drop σ o p n expired d hi hr hl (publish_one hd)
          exact ⟨hi₂, hg, hr₂, fun _ => trivial⟩

/-! ## The upload -/

/-- The stage before the reservation. -/
theorem prepareUpload (file : MultipartFile) (data : ArtifactInput) :
    Triple ok T.discipline i (Holds i none [] (O.issued none)) (prepareUpload node file data)
      (fun r σ => Holds i none [] (O.issued (some r.1.id)) σ ∧ Uploaded r.1) anyFailure := by
  have hissued := O.issued_fact none
  have any : ∀ e (σ : CmsState), Holds i none [] (O.issued none) σ → anyFailure e σ :=
    fun _ _ _ => trivial
  refine triple_orThrow hissued any fun ids _ => ?_
  refine triple_refuse hissued any fun hfile => ?_
  simp only [not_or, not_le, Bool.not_eq_false] at hfile
  simp only [Cms.findVersion, Prog.bind_eq, Prog.bind_assoc]
  refine triple_select_any hissued any fun version => triple_orFail hissued any fun version _ => ?_
  refine triple_select_any hissued any fun software => ?_
  simp only [Prog.pure_eq, Prog.ret_bind]
  refine triple_select_any hissued any fun platform => triple_orFail hissued any fun platform _ => ?_
  refine triple_select_any hissued any fun architecture =>
    triple_orFail hissued any fun architecture _ => ?_
  refine triple_select_any hissued any fun provider => triple_orFail hissued any fun provider _ => ?_
  refine triple_refuse hissued any fun _ => triple_refuse hissued any fun _ => ?_
  refine triple_refuse hissued any fun _ => ?_
  cases software with
  | none => exact .fail hissued.stable fun _ _ => trivial
  | some software =>
    refine triple_refuse hissued any fun _ => triple_refuse hissued any fun _ => ?_
    refine triple_call (B := fun id : Id => O.issued (some id)) hissued ?_ fun id => ?_
    · rintro σ outcome r w hi ha - hrun
      cases outcome with
      | id newId =>
        simp only [CmsCall.run] at hrun
        split at hrun
        · cases hrun
        · rename_i hfresh
          cases hrun
          exact O.issue σ _ hi ha hfresh
      | _ => cases hrun
    · exact .ret (fun σ σ' hr h => (O.issued_fact (some id)).stable σ σ' hr h) fun _ h =>
        ⟨h, rfl, _, rfl, hfile.2.2, hfile.2.1⟩

/-- The end of a compensation. -/
theorem releaseReservation (row : Artifact) :
    Triple ok T.discipline i (Holds i none [] (O.cleared row))
      ((Cms.exec (.deleteReservations (·.id = row.id))).attempt >>= fun _ => pure () : Cms Unit)
      (fun _ _ => True) anyFailure := by
  have any : ∀ {γ : Type} (q : γ), Stable T.discipline i ((fun _ _ => True) q) :=
    fun _ _ _ _ h => h
  refine .bind (hrefl i) (B := fun _ _ => True) ?_ fun _ => .ret (any ()) fun _ h => h
  refine (Triple.attempt (hrefl i) (Q := fun _ _ => True) (E := fun _ _ => True) any any
    (F := anyFailure) ?_).mono (fun _ h => h) (fun _ _ _ => trivial) fun _ _ h => h
  rw [← Prog.bind_ret (Cms.exec _)]
  refine triple_autocommit (D := cmsSchema) (B := fun _ _ => True) (O.cleared_fact row)
    (.const _) ?_ (fun _ _ _ => trivial) fun _ =>
      .ret (Terms.Fact.const True).stable fun _ _ => trivial
  intro σ n d hi hc _ happ
  obtain ⟨hi₂, hg⟩ := O.release σ row d hi hc (apply_tables happ)
  exact ⟨hi₂, hg, trivial⟩

/-- The compensation before the storage has taken the bytes. -/
theorem compensate_false (row : Artifact) :
    Triple ok T.discipline i (Holds i none [] (O.cleared row))
      (compensate false row.storageProviderId row.id) (fun _ _ => True) anyFailure :=
  O.releaseReservation row

/-- The compensation after the storage has taken the bytes. -/
theorem compensate_true (row : Artifact) :
    Triple ok T.discipline i (Holds i none [] (O.failed row))
      (compensate true row.storageProviderId row.id) (fun _ _ => True) anyFailure := by
  refine triple_call (B := fun res d w => (res : Except String Unit) = .ok () → O.cleared row d w)
    (O.failed_fact row) ?_ fun res => ?_
  · rintro σ outcome res w hi hfailed - hrun
    obtain ⟨hi₂, hg, hcleared⟩ := O.delete σ row hi hfailed
    cases outcome with
    | done =>
      cases hrun
      exact ⟨hi₂, hg, fun _ => hcleared⟩
    | failedLate m =>
      cases hrun
      exact ⟨hi₂, hg, fun he => by cases he⟩
    | failed m =>
      cases hrun
      exact ⟨hi, (T.quiet i σ _ hi .same).2, fun he => by cases he⟩
    | _ => cases hrun
  · cases res with
    | error m => exact fun _ _ _ _ _ _ => trivial
    | ok u =>
      exact (O.releaseReservation row).mono (fun σ hσ => hσ.mono fun d w hd => hd rfl)
        (fun _ _ h => h) fun _ _ h => h

/-- The call of the storage: it leaves the bytes stored, or the reservation may go. -/
theorem storeObject (row : Artifact) (tmpPath : String) :
    Triple ok T.discipline i (Holds i none [] (O.reserved row))
      (storeObject node row.storageProviderId (storageKey row.id) tmpPath)
      (fun _ => Holds i none [] (O.stored row)) fun _ => Holds i none [] (O.cleared row) := by
  have hreserved := O.reserved_fact row
  have early : ∀ (e : Failure String) (σ : CmsState), Holds i none [] (O.reserved row) σ →
      Holds i none [] (O.cleared row) σ := fun _ _ h => h.mono (O.reserved_cleared row)
  refine triple_call_idle hreserved ?_ fun content => triple_orThrow hreserved early fun content _ => ?_
  · intro o r w w' hrun
    simp only [CmsCall.run] at hrun
    split at hrun <;> cases hrun <;> rfl
  · refine triple_call (B := fun res d w => match (res : Except String String) with
        | .ok _ => O.stored row d w
        | .error _ => O.cleared row d w) hreserved
      (fun σ o r w hi ha hok hrun => O.upload σ row tmpPath o r w hi ha hok hrun) fun res => ?_
    cases res with
    | ok key => exact .ret (O.stored_fact row).stable fun _ h => h
    | error m => exact .fail (O.cleared_fact row).stable fun _ h => h

/-- The finalising transaction. -/
theorem finaliseArtifact (row row' : Artifact) (hid : row'.id = row.id)
    (hp : row'.storageProviderId = row.storageProviderId) (hsize : row'.sizeBytes = row.sizeBytes) :
    Triple ok T.discipline i (Holds i none [] (O.stored row)) (ArtifactService.finalise row')
      (fun _ _ => True) fun _ => Holds i none [] (O.failed row) := by
  have hA := O.stored_fact row
  have any : ∀ {tx : Option (List Write)} (e : Failure String) (σ : CmsState),
      Holds i tx [] (O.stored row) σ → Known i [] (O.failed row) σ :=
    fun _ σ h => h.2.mono (fun _ h => h) (O.stored_failed row)
  refine (triple_transaction (D := cmsSchema) (X := cmsWorld)
    (B := fun _ ws _ d w => (∃ publishedAt, ws = [Write.insertArtifact { row' with publishedAt },
      .deleteReservations (·.id = row'.id)]) ∧ O.stored row d w)
    (C := fun _ _ _ => True) hA (O.failed_fact row)
    (fun _ _ _ => ((Terms.Fact.const _).and hA).more (by simp)) (fun _ => .const _)
    (O.stored_failed row) (fun _ _ _ _ _ h => O.stored_failed row _ _ h.2) ?_ ?_).mono
    (fun _ h => h) (fun _ _ _ => trivial) fun _ _ h => h
  · have writes : ∀ publishedAt, Triple ok T.discipline i (Holds i (some []) [] (O.stored row))
        (do
          let row : Artifact := { row' with publishedAt }
          let _ ← Cms.exec (.insertArtifact row)
          let _ ← Cms.exec (.deleteReservations (·.id = row'.id))
          return row : Cms Artifact)
        (fun _ σ => ∃ ws ls, Holds i (some ws) ls (fun d w => (∃ publishedAt,
          ws = [Write.insertArtifact { row' with publishedAt },
            .deleteReservations (·.id = row'.id)]) ∧ O.stored row d w) σ)
        fun _ => Known i [] (O.failed row) := by
      intro publishedAt
      refine triple_write (D := cmsSchema) hA (fun σ hi htx _ _ hf => O.record σ _ _ hi htx hf)
        (fun e σ h => h.mono (fun _ h => h) (O.stored_failed row)) fun _ => ?_
      refine triple_write (D := cmsSchema) hA (fun σ hi htx _ _ hf => O.record σ _ _ hi htx hf)
        (fun e σ h => h.mono (fun _ h => h) (O.stored_failed row)) fun _ => ?_
      exact .ret hA.stable fun σ h => ⟨_, [], h.mono fun _ _ h => ⟨⟨publishedAt, rfl⟩, h⟩⟩
    split
    · refine .bind (hrefl i) (B := fun _ => Holds i (some []) [] (O.stored row)) ?_
        fun publishedAt => writes publishedAt
      refine triple_call (B := fun _ => O.stored row) hA ?_ fun now => .ret hA.stable fun _ h => h
      rintro σ o r w hi ha - hrun
      cases hrun
      exact O.readAgain σ row hi ha
    · exact writes none
  · rintro - ws ls σ φ d hi htx - ⟨⟨publishedAt, rfl⟩, hstored⟩ hok hd
    obtain ⟨hi₂, hg, hlate⟩ := O.finalise σ row { row' with publishedAt } φ d hi hstored hid hp hsize
      htx hok (publish_two hd)
    exact ⟨hi₂, hg, trivial, hlate⟩

/-- The upload proper. -/
theorem storeArtifact (row : Artifact) (hrow : Uploaded row) (n : ℕ)
    (tmpPath : String) :
    Triple ok T.discipline i (Holds i none [] (O.ready (some row.id) n))
      (storeArtifact node row tmpPath) (fun _ _ => True) anyFailure := by
  have any : ∀ {γ : Type} (q : γ), Stable T.discipline i ((fun _ _ => True) q) :=
    fun _ _ _ _ h => h
  refine .bind (hrefl i) (O.reserve row n hrow) fun _ => ?_
  rw [hrow.key]
  refine .bind (hrefl i) (.attempt (hrefl i) (fun _ => (O.stored_fact row).stable)
    (fun _ => (O.cleared_fact row).stable) (O.storeObject node row tmpPath)) fun stored => ?_
  cases stored with
  | error e =>
    exact .bind (hrefl i) (O.compensate_false row) fun _ => .fail (any ()) fun _ h => h
  | ok result =>
    refine .bind (hrefl i) (.attempt (hrefl i) (Q := fun _ _ => True)
      (E := fun _ => Holds i none [] (O.failed row)) any
      (fun _ => (O.failed_fact row).stable) ?_) fun finalised => ?_
    · exact triple_refuse (O.stored_fact row) (fun _ _ h => h.mono (O.stored_failed row))
        fun _ => O.finaliseArtifact row _ rfl rfl rfl
    · cases finalised with
      | ok a => exact .ret (any ()) fun _ h => h
      | error e =>
        exact .bind (hrefl i) (O.compensate_true row) fun _ => .fail (any ()) fun _ h => h

/-- An upload keeps the terms. -/
theorem uploadArtifact (fuel : ℕ) (file : MultipartFile) (data : ArtifactInput) :
    Triple ok T.discipline i (Holds i none [] (O.issued none)) (uploadArtifact node fuel file data)
      (fun _ _ => True) anyFailure := by
  refine .bind (hrefl i) (O.prepareUpload node file data) ?_
  rintro ⟨row, tmpPath⟩ σ hi ⟨hissued, hrow⟩
  have hfact := O.issued_fact (some row.id)
  refine (show Triple ok T.discipline i (Holds i none [] (O.issued (some row.id))) _ _ _ from ?_)
    σ hi hissued
  refine triple_call_idle hfact (fun o r w w' hrun => ?_) fun res =>
    triple_orThrow hfact (fun _ _ _ => trivial) fun _ _ => ?_
  · cases o <;> cases hrun <;> rfl
  · refine triple_call (B := fun now : ℕ => O.ready (some row.id) now) hfact ?_ fun now => ?_
    · rintro σ o r w hi ha - hrun
      cases hrun
      exact O.readClock σ _ hi ha
    · exact .bind (hrefl i) (O.cleanup (some row.id) row.storageProviderId now fuel) fun _ =>
        O.storeArtifact node row hrow now tmpPath

/-- A cleanup on its own keeps the terms. -/
theorem cleanupRequest (p : Id) (fuel : ℕ) :
    Triple ok T.discipline i (Holds i none [] (O.issued none)) (cleanupRequest p fuel)
      (fun _ _ => True) anyFailure := by
  have hfact := O.issued_fact none
  refine triple_call_idle hfact (fun o r w w' hrun => ?_) fun res =>
    triple_orThrow hfact (fun _ _ _ => trivial) fun _ _ => ?_
  · cases o <;> cases hrun <;> rfl
  · refine triple_call (B := fun now : ℕ => O.ready none now) hfact ?_ fun now => ?_
    · rintro σ o r w hi ha - hrun
      cases hrun
      exact O.readClock σ _ hi ha
    · exact (O.cleanup none p now fuel).mono (fun _ h => h) (fun _ _ _ => trivial) fun _ _ h => h

/-- A request keeps the terms. -/
theorem request (r : UploadRequest) :
    Triple ok T.discipline i (Holds i none [] (O.issued none)) (r.program node)
      (fun _ _ => True) anyFailure := by
  have any : ∀ {γ : Type} (q : γ), Stable T.discipline i ((fun _ _ => True) q) :=
    fun _ _ _ _ h => h
  cases r with
  | upload fuel file data =>
    exact .bind (hrefl i) (O.uploadArtifact node fuel file data) fun _ => .ret (any ()) fun _ h => h
  | cleanup p fuel => exact O.cleanupRequest p fuel

end UploadOutline

/-- Requests that have yet to start: no identifier has gone to them, they have not read the clock, and
whatever was given out or read before is accounted for. -/
structure Starting (rs : List UploadRequest) (w : CmsWorld) : Prop where
  unissued : ∀ i < rs.length, ∀ id, (i, id) ∉ w.issued
  unread : ∀ i < rs.length, w.readings i = []
  consistent : w.Consistent

/-- The requests as the programs of a configuration. -/
def uploads (node : Node) (rs : List UploadRequest) (d : Db) (w : CmsWorld) :
    Config cms (Failure String) Unit :=
  ⟨⟨Server.idle d, w⟩, rs.map (·.program node)⟩

/-- Every run of requests with outlines keeps the invariant of their terms. -/
theorem uploads_run {T : CmsTerms} {ok : Guard cms} (O : ∀ i, UploadOutline T ok i) (node : Node)
    {rs : List UploadRequest} {d : Db} {w : CmsWorld} (hinv : T.inv ⟨Server.idle d, w⟩)
    (hissued : ∀ i < rs.length, (O i).issued none d w) {c : Config cms (Failure String) Unit}
    (hr : Config.Run ok (uploads node rs d w) c) : T.inv c.state := by
  have sound : Sound ok T.discipline (fun _ _ _ => True) (fun _ _ _ => True)
      (uploads node rs d w) := by
    refine ⟨hinv, fun i p hp => ?_⟩
    simp only [uploads, List.getElem?_map] at hp
    obtain ⟨r, hr, rfl⟩ := Option.map_eq_some_iff.mp hp
    have hi : i < rs.length := (List.getElem?_eq_some_iff.mp hr).1
    exact (O i).request node r _ hinv (holds_idle i (hissued i hi))
  exact (sound.run T.compatible hr).1

/-! ## One upload -/

/-- An identifier that begins with a given digit. -/
def toyUuid (digit : Char) : Id := String.ofList [digit] ++ "0000000-0000-4000-8000-000000000000"

/-- The tables of a product without artifacts, and one storage provider with a quota. -/
def uploadTables : Tables where
  software := [⟨toyUuid '1', "P", "p", true, true, false⟩]
  signingKeys := []
  versions := [⟨toyUuid '2', toyUuid '1', 1, 0, 0, none, none, true, none, none⟩]
  platforms := [⟨toyUuid '3', "linux", "Linux", none⟩]
  architectures := [⟨toyUuid '4', "x64", "x64", none⟩]
  storageProviders := [⟨toyUuid '5', "S", "local", .null, true, true, some 10, none⟩]
  artifacts := []
  reservations := []

/-- The database of these tables. -/
def uploadDb : Db := ⟨uploadTables, by decide +kernel⟩

/-- A request that uploads one byte. -/
def uploadByte (channel : String) : UploadRequest :=
  .upload 2 ⟨some "f", 1, some "zip", "f.zip"⟩
    ⟨some (.str (toyUuid '2')), some (.str (toyUuid '3')), some (.str (toyUuid '4')),
      some (.str (toyUuid '5')), some channel, none, none⟩

/-- A world with the byte. -/
def uploadWorld : CmsWorld := { emptyWorld with files := fun _ => some [0] }

/-- The requests have yet to start. -/
theorem starting_uploadWorld (rs : List UploadRequest) : Starting rs uploadWorld where
  unissued _ _ _ h := by cases h
  unread _ _ := rfl
  consistent := ⟨fun _ _ _ h => (by cases h), fun _ _ h => (by cases h)⟩

/-- Request `i` does what comes before the reservation and finds nothing to clean up. -/
def startUpload (i : ℕ) (id : Id) : List (Config.Event cms) :=
  List.replicate 5 (.thread i (.db .none)) ++
    [.thread i (.ext (.id id)), .thread i (.ext .done), .thread i (.ext .done),
      .thread i (.db .none)]

/-- Request `i` makes its reservation and reads its file. -/
def reserveUpload (i : ℕ) : List (Config.Event cms) :=
  List.replicate 4 (.thread i (.db .none)) ++ [.thread i (.ext .done)] ++
    List.replicate 4 (.thread i (.db .none)) ++ [.thread i (.ext .done)]

/-- Request `i` finalises its upload. -/
def finaliseUpload (i : ℕ) : List (Config.Event cms) :=
  List.replicate 4 (.thread i (.db .none))

end Reeva
