import Mathlib.Data.List.Nodup
import Mathlib.Data.List.Perm.Subperm
import Reeva.Cms.Uploads
import Reeva.Interleaving.Contracts

/-!
# The cleanup of expired reservations

`cleanupExpiredReservations` takes batches of a provider's expired reservations until it finds none,
beside any other programs. `cleanup_removes` says what one of its steps may change: it removes the
reservations of one batch, together, after the storage has dropped the objects of all of them.
`cleanup_terminates` says how many batches it needs: as many as the reservations that had expired when
it started fill, whatever else is deleted meanwhile; and it returns only when none of them is left.
-/

open Interleaving ReadCommitted

namespace Reeva.ReservationCleanup

/-! ## Expired reservations -/

/-- Whether a reservation of the provider has expired. -/
def isExpired (provider : Id) (now : ℕ) (r : Reservation) : Bool :=
  r.storageProviderId = provider && r.expiresAt ≤ now

/-- The expired reservations of the provider. -/
def expired (provider : Id) (now : ℕ) (t : Tables) : List Reservation :=
  t.reservations.filter (isExpired provider now)

/-- Those that the cleanup takes next. -/
def nextBatch (provider : Id) (now : ℕ) (t : Tables) : List Reservation :=
  ((expired provider now t).mergeSort fun r s => r.expiresAt ≤ s.expiresAt).take 100

/-- Those outside of a batch. -/
def left (provider : Id) (now : ℕ) (batch : List Reservation) (t : Tables) : List Reservation :=
  (expired provider now t).filter fun r => !(batch.map (·.id)).contains r.id

/-- The tables without the reservations of a batch. -/
def without (provider : Id) (now : ℕ) (batch : List Reservation) (t : Tables) : Tables :=
  { t with reservations := t.reservations.filter fun r => !swept provider batch now r }

section expired

variable {provider : Id} {now : ℕ} {batch : List Reservation}

/-- A reservation is listed once. -/
theorem expired_nodup (d : Db) : (expired provider now d.toTables).Nodup :=
  (List.Nodup.of_map _ d.valid.reservationIds).filter _

theorem nextBatch_subset (t : Tables) : nextBatch provider now t ⊆ expired provider now t :=
  fun _ h => List.mem_mergeSort.mp (List.mem_of_mem_take h)

theorem nextBatch_nodup (d : Db) : (nextBatch provider now d.toTables).Nodup :=
  List.Nodup.sublist (List.take_sublist ..)
    ((List.mergeSort_perm _ _).nodup_iff.mpr (expired_nodup d))

theorem length_nextBatch (provider : Id) (now : ℕ) (t : Tables) :
    (nextBatch provider now t).length = min 100 (expired provider now t).length := by
  rw [nextBatch, List.length_take, List.length_mergeSort]

/-- A batch is empty only where nothing has expired. -/
theorem expired_of_nextBatch {t : Tables} (h : nextBatch provider now t = []) :
    expired provider now t = [] := by
  have hlength := length_nextBatch provider now t
  rw [h, List.length_nil] at hlength
  exact List.length_eq_zero_iff.mp (by omega)

/-- What is left of a batch that has just been taken. -/
theorem length_left_nextBatch (provider : Id) (now : ℕ) (d : Db) :
    (left provider now (nextBatch provider now d.toTables) d.toTables).length +
      min 100 (expired provider now d.toTables).length ≤
    (expired provider now d.toTables).length := by
  generalize hbatch : nextBatch provider now d.toTables = batch
  have hlength := length_nextBatch provider now d.toTables
  have hsplit := (expired provider now d.toTables).length_eq_length_filter_add
    fun r => (batch.map (·.id)).contains r.id
  -- The batch is among those that it contains, each of them once.
  have hbatch_le : batch.length ≤ ((expired provider now d.toTables).filter fun r =>
      (batch.map (·.id)).contains r.id).length := by
    refine (List.Nodup.subperm (hbatch ▸ nextBatch_nodup d) fun r hr => ?_).length_le
    refine List.mem_filter.mpr ⟨nextBatch_subset _ (hbatch.symm ▸ hr), ?_⟩
    exact List.contains_iff_mem.mpr (List.mem_map_of_mem hr)
  rw [hbatch] at hlength
  rw [left]
  omega

/-- Where fewer have expired, fewer are left. -/
theorem length_left_le {d d' : Db}
    (h : expired provider now d'.toTables ⊆ expired provider now d.toTables) :
    (left provider now batch d'.toTables).length ≤ (left provider now batch d.toTables).length := by
  refine (List.Nodup.subperm ((expired_nodup d').filter _) fun r hr => ?_).length_le
  obtain ⟨hr, hbatch⟩ := List.mem_filter.mp hr
  exact List.mem_filter.mpr ⟨h hr, hbatch⟩

/-- What has expired is what was left of the batch. -/
theorem expired_without (t : Tables) :
    expired provider now (without provider now batch t) = left provider now batch t := by
  rw [expired, without, List.filter_filter, left, expired, List.filter_filter]
  refine List.filter_congr fun r _ => ?_
  simp only [swept, isExpired]
  cases decide (r.storageProviderId = provider) <;> cases decide (r.expiresAt ≤ now) <;> simp

end expired

/-! ## The contract of the cleanup -/

/-- The stages: it looks for batch number `n`, it has deleted some objects of that batch and not yet
the others, it has found nothing, or it has stopped because a deletion failed. -/
inductive Stage
  | looking (n : ℕ)
  | deleting (n : ℕ) (done todo : List Reservation)
  | ended
  | stopped

/-- What a look at the tables finds. -/
inductive Selects (provider : Id) (now : ℕ) (t : Tables) : Stage → Stage → Prop
  | nothing {n : ℕ} (h : nextBatch provider now t = []) : Selects provider now t (.looking n) .ended
  | batch {n : ℕ} (h : nextBatch provider now t ≠ []) :
    Selects provider now t (.looking n) (.deleting n [] (nextBatch provider now t))

/-- The deletion of an object, and what the storage answers. -/
inductive Deletes (provider : Id) : Stage → (e : CmsCall) → e.Res → Stage → Prop
  | deleted {n : ℕ} {done todo : List Reservation} {r : Reservation} :
    Deletes provider (.deleting n done (r :: todo))
      (.delete provider (ArtifactService.storageKey r.id)) (.ok ()) (.deleting n (done ++ [r]) todo)
  | failed {n : ℕ} {done todo : List Reservation} {r : Reservation} {message : String} :
    Deletes provider (.deleting n done (r :: todo))
      (.delete provider (ArtifactService.storageKey r.id)) (.error message) .stopped

/-- The removal of a batch all of whose objects have been deleted. -/
inductive Removes (provider : Id) (now : ℕ) : Stage → List Write → Stage → Prop
  | removed {n : ℕ} {batch : List Reservation} :
    Removes provider now (.deleting n batch [])
      [.deleteReservations (swept provider batch now)] (.looking (n + 1))

/-- The contract of a cleanup that is bounded to `fuel` looks. -/
def contract (provider : Id) (now fuel : ℕ) : Contract cmsSchema cmsCalls Stage where
  reads s ws d s' := ws = [] ∧ Selects provider now (Db.toTables d) s s'
  calls := Deletes provider
  publishes := Removes provider now
  halts s := ∃ n, s = .looking n ∧ fuel ≤ n

section keeps

variable {provider : Id} {now fuel : ℕ}

/-- The objects of a batch are deleted one after another. -/
theorem deleteObjects_keeps (n : ℕ) (done todo : List Reservation) :
    (contract provider now fuel).Keeps (ArtifactService.deleteObjects provider todo)
      (fun _ s tx => s = .deleting n (done ++ todo) [] ∧ tx = none) (fun _ _ _ => True)
      (.deleting n done todo) none := by
  induction todo generalizing done with
  | nil => exact ⟨by rw [List.append_nil], rfl⟩
  | cons r todo ih =>
    refine Contract.keeps_ext fun answer => ?_
    cases answer with
    | error message => exact ⟨_, .failed, trivial⟩
    | ok _ =>
      refine ⟨_, .deleted, (ih (done ++ [r])).mono (fun _ _ _ h => ?_) fun _ _ _ h => h⟩
      rwa [List.append_assoc, List.singleton_append] at h

/-- The cleanup keeps its contract, and ends only when it has found nothing. -/
theorem cleanup_keeps (f n : ℕ) (h : fuel ≤ n + f) :
    (contract provider now fuel).Keeps
      (ArtifactService.cleanupExpiredReservations provider now f) (fun _ s _ => s = .ended)
      (fun _ _ _ => True) (.looking n) none := by
  induction f generalizing n with
  | zero => exact ⟨n, rfl, h⟩
  | succ f ih =>
    refine Contract.keeps_query trivial trivial fun d => ?_
    change ∃ s', _ ∧ Contract.Keeps _ (if nextBatch provider now (Db.toTables d) = [] then _ else _)
      _ _ s' none
    split
    · rename_i hbatch
      exact ⟨_, ⟨rfl, .nothing hbatch⟩, rfl⟩
    · rename_i hbatch
      refine ⟨_, ⟨rfl, .batch hbatch⟩, ?_⟩
      refine Contract.keeps_bind ((deleteObjects_keeps n [] _).mono ?_ fun _ _ _ _ => trivial)
      rintro _ s tx ⟨rfl, rfl⟩
      -- The transaction publishes the removal of the whole batch, or nothing.
      refine Contract.keeps_bind (Contract.keeps_transaction ?_ fun _ => trivial)
      refine Contract.keeps_write (fun _ _ => trivial) fun _ => ?_
      refine ⟨⟨_, .removed, ?_, fun _ => trivial⟩, fun _ => trivial⟩
      exact ih (n + 1) (by omega)

end keeps

/-! ## The programs and their automata -/

/-- The cleanup keeps its contract; the other programs may do anything. -/
def contracts (provider : Id) (now fuel j i : ℕ) : Contract cmsSchema cmsCalls Stage :=
  if i = j then contract provider now fuel else Contract.anything cmsSchema cmsCalls Stage

/-- Where the programs are when they return. -/
def EndsAt (j i : ℕ) (_ : Unit) (s : Stage) : Prop := i = j → s = .ended

/-- The programs and the automata of their contracts. -/
abbrev Follows (provider : Id) (now fuel j : ℕ) (c : Config cms (Failure String) Unit)
    (A : Contract.State cmsSchema cmsWorld Stage) : Prop :=
  Contract.Related (contracts provider now fuel j) (EndsAt j) (fun _ _ _ => True) c A

/-- Programs that have just arrived. -/
def beside (pool : List (Cms Unit)) (d : Db) (w : CmsWorld) : Config cms (Failure String) Unit :=
  ⟨⟨Server.idle (D := cmsSchema) d, w⟩, pool⟩

section runs

variable {provider : Id} {now fuel j : ℕ} {pool : List (Cms Unit)} {d : Db} {w : CmsWorld}
  {ok : Guard cms} {c c' : Config cms (Failure String) Unit}

theorem contracts_self : contracts provider now fuel j j = contract provider now fuel := if_pos rfl

/-- A cleanup that has just arrived stands at the start of its contract. -/
theorem follows_beside
    (hj : pool[j]? = some (ArtifactService.cleanupExpiredReservations provider now fuel)) :
    Follows provider now fuel j (beside pool d w) ⟨fun _ => .looking 0, d, w⟩ := by
  refine Contract.related_beside (D := cmsSchema) (X := cmsWorld) (K := contract provider now fuel)
    (Q := fun _ s => s = .ended) d w hj ?_
  exact cleanup_keeps fuel 0 (by omega)

/-! ## What is removed -/

/-- The batch was selected at some moment, and since then the storage has been without each of the
objects that have been deleted. -/
def Emptied (ok : Guard cms) (provider : Id) (now : ℕ) (c₀ c : Config cms (Failure String) Unit) :
    Stage → Prop
  | .deleting _ done todo => ∃ c₁, c₀.Run ok c₁ ∧ c₁.Run ok c ∧
    nextBatch provider now c₁.state.server.db.toTables = done ++ todo ∧
    ∀ r ∈ done, ∃ c₂, c₁.Run ok c₂ ∧ c₂.Run ok c ∧
      c₂.state.world.objects provider (ArtifactService.storageKey r.id) = none
  | _ => True

/-- What happened before a step happened before it. -/
theorem Emptied.later {c₀ : Config cms (Failure String) Unit} {s : Stage}
    (h : Emptied ok provider now c₀ c s) (hs : c.Step ok c') :
    Emptied ok provider now c₀ c' s := by
  cases s with
  | deleting n done todo =>
    obtain ⟨c₁, h₁, h₂, hbatch, hdone⟩ := h
    refine ⟨c₁, h₁, h₂.tail hs, hbatch, fun r hr => ?_⟩
    obtain ⟨c₂, h₃, h₄, hobject⟩ := hdone r hr
    exact ⟨c₂, h₃, h₄.tail hs, hobject⟩
  | _ => trivial

/-- A deletion that succeeds leaves the storage without the object. -/
theorem objects_of_delete {i : ℕ} {key : String} {o : Outcome} {v v' : CmsWorld}
    (h : CmsCall.run i (.delete provider key) o v = some (.ok (), v')) :
    v'.objects provider key = none := by
  cases o with
  | done =>
    cases h
    exact if_pos ⟨rfl, rfl⟩
  | _ => cases h

/-- Every step of the cleanup keeps it so. -/
theorem Emptied.move {c₀ : Config cms (Failure String) Unit}
    {A A' : Contract.State cmsSchema cmsWorld Stage} (hr : c₀.Run ok c) (hs : c.Step ok c')
    (hrel : Follows provider now fuel j c A) (hrel' : Follows provider now fuel j c' A')
    (h : Emptied ok provider now c₀ c (A.stage j)) {m : Option ℕ}
    (hm : Contract.Move (contracts provider now fuel j) m A A') :
    Emptied ok provider now c₀ c' (A'.stage j) := by
  by_cases hj : m = some j
  swap
  · exact (hm.stage_of_ne hj).symm ▸ h.later hs
  subst hj
  have hself := hm.stage_self
  rw [contracts_self] at hself
  have hdb := hrel.db
  have hworld := hrel'.world
  generalize A.stage j = s, A'.stage j = s' at h hself
  rcases hself with ⟨ws, ⟨-, hread⟩, -⟩ | ⟨e, o, x, v, hrun, hcall, -, hv⟩ | ⟨ws, hpub, -⟩
  · cases hread with
    | nothing => trivial
    | batch => exact ⟨c, hr, .single hs, hdb ▸ rfl, fun r hr => by cases hr⟩
  · cases hcall with
    | failed => trivial
    | @deleted n done todo r =>
      obtain ⟨c₁, h₁, h₂, hbatch, hdone⟩ := h.later hs
      refine ⟨c₁, h₁, h₂, by rw [hbatch, List.append_assoc, List.singleton_append], fun r' hr' => ?_⟩
      rcases List.mem_append.mp hr' with hr' | hr'
      · exact hdone r' hr'
      · obtain rfl := List.mem_singleton.mp hr'
        exact ⟨c', h₂, .refl, hworld ▸ hv ▸ objects_of_delete hrun⟩
  · cases hpub
    trivial

/-- In every run the cleanup follows its contract, and has deleted what it has come past. -/
theorem emptied_run
    (hj : pool[j]? = some (ArtifactService.cleanupExpiredReservations provider now fuel))
    (hr : (beside pool d w).Run ok c) :
    ∃ A, Follows provider now fuel j c A ∧
      Emptied ok provider now (beside pool d w) c (A.stage j) := by
  refine (follows_beside hj).invariant
    (I := fun c A => Emptied ok provider now (beside pool d w) c (A.stage j)) trivial ?_ hr
  intro c₁ c₂ A₁ A₂ m hrun hs hrel hrel' hmove _ h
  cases hmove with
  | refl => exact h.later hs
  | single hm => exact h.move hrun hs hrel hrel' hm

/-- A condition on what the programs do: none of them adds an expired reservation. -/
def AddsNoneExpired (provider : Id) (now : ℕ) : Guard cms := fun i a ch σ => ∀ r σ',
  cms.run i a ch σ = some (r, σ') →
    expired provider now σ'.server.db.toTables ⊆ expired provider now σ.server.db.toTables

/-- How many expired reservations there may still be, of the `total` at the start. -/
def Progress (provider : Id) (now total : ℕ) (t : Tables) : Stage → Prop
  | .looking n => (expired provider now t).length ≤ total - 100 * n ∧
    (0 < n → 100 * (n - 1) < total)
  | .deleting n done todo =>
    (left provider now (done ++ todo) t).length ≤ total - 100 * (n + 1) ∧ 100 * n < total
  | .ended => expired provider now t = []
  | .stopped => True

/-- It stays so where no expired reservation is added. -/
theorem Progress.fewer {total : ℕ} {d d' : Db} {s : Stage}
    (h : Progress provider now total d.toTables s)
    (hle : expired provider now d'.toTables ⊆ expired provider now d.toTables) :
    Progress provider now total d'.toTables s := by
  have hlength := ((expired_nodup d').subperm hle).length_le
  cases s with
  | looking n => exact ⟨hlength.trans h.1, h.2⟩
  | deleting n done todo => exact ⟨(length_left_le hle).trans h.1, h.2⟩
  | ended => exact List.eq_nil_of_subset_nil (h ▸ hle)
  | stopped => trivial

/-- Every batch takes a hundred of them, or all that there are. -/
theorem Progress.move {total : ℕ} {s s' : Stage} {d d' : Db} (fuel : ℕ)
    (h : Progress provider now total d.toTables s)
    (hself : (∃ ws, (contract provider now fuel).reads s ws d s' ∧ d' = d) ∨
      (∃ e r, (contract provider now fuel).calls s e r s' ∧ d' = d) ∨
      ∃ ws, (contract provider now fuel).publishes s ws s' ∧
        Server.publish (D := cmsSchema) ws d = some d') :
    Progress provider now total d'.toTables s' := by
  rcases hself with ⟨ws, ⟨-, hread⟩, rfl⟩ | ⟨e, r, hcall, rfl⟩ | ⟨ws, hpub, hd⟩
  · cases hread with
    | nothing hbatch => exact expired_of_nextBatch hbatch
    | @batch n hbatch =>
      obtain ⟨hlooking, -⟩ := h
      have hleft := length_left_nextBatch provider now d'
      have hpos : 0 < (expired provider now d'.toTables).length := by
        have hlength := length_nextBatch provider now d'.toTables
        have := List.length_pos_of_ne_nil hbatch
        omega
      change (left provider now (nextBatch provider now d'.toTables) d'.toTables).length ≤ _ ∧ _
      omega
  · cases hcall with
    | failed => trivial
    | deleted =>
      refine ⟨?_, h.2⟩
      rw [List.append_assoc, List.singleton_append]
      exact h.1
  · cases hpub with
    | @removed n batch =>
      obtain ⟨hleft, hn⟩ := h
      rw [List.append_nil] at hleft
      have htables : d'.toTables = without provider now batch d.toTables := publish_one hd
      rw [htables]
      refine ⟨?_, fun _ => hn⟩
      rw [expired_without]
      exact hleft

/-- In every run that adds no expired reservation, the number of those that are left goes down with
every batch. -/
theorem progress_run
    (hj : pool[j]? = some (ArtifactService.cleanupExpiredReservations provider now fuel))
    (hr : (beside pool d w).Run (AddsNoneExpired provider now) c) :
    ∃ A, Follows provider now fuel j c A ∧
      Progress provider now (expired provider now d.toTables).length A.db.toTables (A.stage j) := by
  let total := (expired provider now d.toTables).length
  have hstart : Progress provider now total d.toTables (.looking 0) :=
    ⟨le_refl _, fun h => absurd h (Nat.lt_irrefl 0)⟩
  refine (follows_beside hj).invariant
    (I := fun _ (A : Contract.State cmsSchema cmsWorld Stage) =>
      Progress provider now total (Db.toTables A.db) (A.stage j)) hstart ?_ hr
  intro c₁ c₂ A₁ A₂ m _ _ hrel hrel' hmove hby h
  cases hmove with
  | refl => exact h
  | single hm =>
    by_cases hj : m = some j
    · -- A step of the cleanup is one of its contract.
      subst hj
      have hself := hm.stage_self
      rw [contracts_self] at hself
      refine h.move fuel ?_
      rcases hself with hread | ⟨e, -, r, -, -, hcall, hdb, -⟩ | hpub
      · exact .inl hread
      · exact .inr (.inl ⟨e, r, hcall, hdb⟩)
      · exact .inr (.inr hpub)
    · -- Another step adds no expired reservation.
      rw [hm.stage_of_ne hj]
      refine h.fewer ?_
      cases m with
      | none =>
        cases hm
        exact fun _ h => h
      | some i =>
        obtain ⟨a, k, ch, r, σ, -, hok, hrun, hc⟩ := hby i rfl
        have hle := hok r σ hrun
        rw [hrel.db, hrel'.db, hc]
        exact hle

/-- In every run of a cleanup beside any other programs that add no expired reservation: `fuel + 1`
looks at the tables are enough where at most `100 * fuel` reservations have expired at the start, and
when the cleanup has returned, no expired reservation of the provider is left. -/
theorem cleanup_terminates
    (hj : pool[j]? = some (ArtifactService.cleanupExpiredReservations provider now (fuel + 1)))
    (htotal : (expired provider now d.toTables).length ≤ 100 * fuel)
    (hr : (beside pool d w).Run (AddsNoneExpired provider now) c) :
    (∀ k, c.pool[j]? ≠ some (.step .halt k)) ∧
      (c.pool[j]? = some (.ret ()) → expired provider now c.state.server.db.toTables = []) := by
  obtain ⟨A, hrel, h⟩ := progress_run hj hr
  refine ⟨fun k hk => ?_, fun hret => ?_⟩
  · obtain ⟨tx, -, hkeeps⟩ := hrel.keeps j _ hk
    rw [contracts_self] at hkeeps
    obtain ⟨n, hn, hfuel⟩ := hkeeps
    rw [hn] at h
    have := h.2 (by omega)
    omega
  · have hended : A.stage j = .ended := hrel.returned hret rfl
    rw [hended] at h
    exact hrel.db ▸ h

end runs

/-! ## Two cleanups -/

/-- One reservation that has expired. -/
def staleTables : Tables := { uploadTables with reservations := [⟨"a", "s", 1, 0⟩] }

/-- The database of these tables. -/
def staleDb : Db := ⟨staleTables, by decide +kernel⟩

/-- The storage has an object of the reservation. -/
def staleWorld : CmsWorld := emptyWorld.setObject "s" (ArtifactService.storageKey "a") (some [1])

/-- Two cleanups of the provider. -/
def twoCleanups : List (Cms Unit) :=
  List.replicate 2 (ArtifactService.cleanupExpiredReservations "s" 5 2)

/-- Both select the reservation and delete its object, and the first one writes its removal. -/
def bothDelete : List (Config.Event cms) :=
  [.thread 0 (.db .none), .thread 1 (.db .none), .thread 0 (.ext .done), .thread 1 (.ext .done),
    .thread 0 (.db .none), .thread 0 (.db .none)]

/-- The first one commits, and looks again. -/
def firstReturns : List (Config.Event cms) :=
  bothDelete ++ [.thread 0 (.db .none), .thread 0 (.db .none)]

/-- The test of `AddsNoneExpired`. -/
def testAddsNoneExpired (provider : Id) (now : ℕ) (i : ℕ) (a : Action cmsSchema cmsCalls)
    (ch : Decision Outcome) (σ : CmsState) : Bool :=
  (cms.run i a ch σ).all fun p =>
    (expired provider now p.2.server.db.toTables).all fun r =>
      (expired provider now σ.server.db.toTables).contains r

theorem addsNoneExpired_of_test {provider : Id} {now : ℕ} (i : ℕ) (a : Action cmsSchema cmsCalls)
    (ch : Decision Outcome) (σ : CmsState) (h : testAddsNoneExpired provider now i a ch σ = true) :
    AddsNoneExpired provider now i a ch σ := by
  intro r σ' hrun x hx
  rw [testAddsNoneExpired, hrun] at h
  exact List.contains_iff_mem.mp (List.all_eq_true.mp h x hx)

/-- The first program has returned. -/
def hasReturned (c : Config cms (Failure String) Unit) : Bool :=
  match (c.pool[0]? : Option (Cms Unit)) with
  | some (.ret _) => true
  | _ => false

theorem ret_of_hasReturned {c : Config cms (Failure String) Unit} (h : hasReturned c = true) :
    c.pool[0]? = some (.ret ()) := by
  simp only [hasReturned] at h
  split at h
  · assumption
  · cases h

/-- The first of two cleanups returns when nothing is left to clean up. -/
theorem cleanup_terminates_example :
    ∃ c : Config cms (Failure String) Unit,
      (beside twoCleanups staleDb staleWorld).Run (AddsNoneExpired "s" 5) c ∧
      c.pool[0]? = some (.ret ()) ∧ expired "s" 5 c.state.server.db.toTables = [] := by
  have h : ((beside twoCleanups staleDb staleWorld).follow (testAddsNoneExpired "s" 5)
      firstReturns).any hasReturned = true := by
    decide +kernel
  obtain ⟨c, hr, hc⟩ := Config.reached_of_follow addsNoneExpired_of_test h
  have hret := ret_of_hasReturned hc
  have hj : twoCleanups[0]? = some (ArtifactService.cleanupExpiredReservations "s" 5 (1 + 1)) := rfl
  have htotal : (expired "s" 5 staleDb.toTables).length ≤ 100 * 1 := by decide
  exact ⟨c, hr, hret, (cleanup_terminates hj htotal hr).2 hret⟩

end Reeva.ReservationCleanup
