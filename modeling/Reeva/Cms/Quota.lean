import Reeva.Cms.Uploads
import Mathlib.Algebra.Order.BigOperators.Group.List

/-!
# Quotas hold

The bytes of a storage provider are those of its artifacts and those of its unexpired reservations.
`reserveQuota` sums both in two statements while it holds the provider's row alone, and whoever adds an
artifact or a reservation shares that row until the commit: so no sum grows between the two statements
and the reservation's commit. A finalising transaction moves bytes from one sum to the other as long as
its reservation has not expired.
-/

open Interleaving ReadCommitted

namespace Reeva

open ArtifactService

/-! ## Sums -/

/-- The bytes of a provider's artifacts, whether they were deleted or not. -/
def usedBytes (d : Db) (p : Id) : ℤ :=
  ((d.artifacts.filter (·.storageProviderId = p)).filterMap (·.sizeBytes)).sum

/-- The bytes of a provider's reservations that have not expired. -/
def pendingBytes (d : Db) (p : Id) (now : ℕ) : ℤ :=
  ((d.reservations.filter fun r => r.storageProviderId = p && now < r.expiresAt).map
    (·.sizeBytes)).sum

/-- The reservations of a provider are not negative. -/
def NonnegReservations (d : Db) (p : Id) : Prop :=
  ∀ r ∈ d.reservations, r.storageProviderId = p → 0 ≤ r.sizeBytes

section sums

variable {d d' : Db} {p : Id}

/-- Fewer reservations have a smaller sum. -/
theorem sum_le_of_sublist {rs rs' : List Reservation} (h : rs'.Sublist rs)
    (hpos : ∀ r ∈ rs, 0 ≤ r.sizeBytes) : (rs'.map (·.sizeBytes)).sum ≤ (rs.map (·.sizeBytes)).sum :=
  (h.map _).sum_le_sum fun n hn => by
    obtain ⟨r, hr, rfl⟩ := List.mem_map.mp hn
    exact hpos r hr

/-- The unexpired reservations of a provider are not negative. -/
theorem NonnegReservations.filter (h : NonnegReservations d p) (n : ℕ) :
    ∀ r ∈ d.reservations.filter fun r => r.storageProviderId = p && n < r.expiresAt,
      0 ≤ r.sizeBytes := fun r hr => by
  simp only [List.mem_filter, Bool.and_eq_true, decide_eq_true_eq] at hr
  exact h r hr.1 hr.2.1

/-- Reservations expire. -/
theorem pendingBytes_anti (h : NonnegReservations d p) {m n : ℕ} (hmn : m ≤ n) :
    pendingBytes d p n ≤ pendingBytes d p m := by
  refine sum_le_of_sublist (List.monotone_filter_right _ fun r hr => ?_) (h.filter m)
  simp only [Bool.and_eq_true, decide_eq_true_eq] at hr ⊢
  exact ⟨hr.1, hmn.trans_lt hr.2⟩

theorem pendingBytes_nonneg (h : NonnegReservations d p) (n : ℕ) : 0 ≤ pendingBytes d p n :=
  List.sum_nonneg fun m hm => by
    obtain ⟨r, hr, rfl⟩ := List.mem_map.mp hm
    exact h.filter n r hr

/-- A reservation adds its size until it expires. -/
theorem pendingBytes_append {r : Reservation} (h : d'.reservations = d.reservations ++ [r]) (n : ℕ) :
    pendingBytes d' p n = pendingBytes d p n +
      if r.storageProviderId = p ∧ n < r.expiresAt then r.sizeBytes else 0 := by
  simp only [pendingBytes, h, List.filter_append, List.map_append, List.sum_append, List.filter_cons,
    List.filter_nil, Bool.and_eq_true, decide_eq_true_eq]
  split <;> simp

/-- Reservations that are deleted leave no more than there was. -/
theorem pendingBytes_filter (h : NonnegReservations d p) {q : Reservation → Bool}
    (hd : d'.reservations = d.reservations.filter q) (n : ℕ) :
    pendingBytes d' p n ≤ pendingBytes d p n := by
  rw [pendingBytes, hd]
  exact sum_le_of_sublist (List.filter_sublist.filter _) (h.filter n)

/-- A sum over a list is one over the two parts of a split. -/
theorem sum_split (q : Reservation → Bool) (rs : List Reservation) :
    (rs.map (·.sizeBytes)).sum = ((rs.filter q).map (·.sizeBytes)).sum +
      ((rs.filter fun r => !q r).map (·.sizeBytes)).sum := by
  induction rs with
  | nil => rfl
  | cons r rs ih =>
    cases hq : q r <;> simp [hq, ih] <;> omega

/-- Reservations that are deleted leave at least the size of one of them less. -/
theorem pendingBytes_release (h : NonnegReservations d p) {q : Reservation → Bool}
    (hd : d'.reservations = d.reservations.filter q) {r : Reservation} (hr : r ∈ d.reservations)
    (hp : r.storageProviderId = p) (hq : q r = false) {n : ℕ} (hn : n < r.expiresAt) :
    pendingBytes d' p n + r.sizeBytes ≤ pendingBytes d p n := by
  rw [pendingBytes, pendingBytes, hd, sum_split q (d.reservations.filter _), List.filter_filter,
    List.filter_filter, List.filter_filter]
  simp only [Bool.and_comm (q _)]
  refine add_le_add_right (List.single_le_sum (fun m hm => ?_) _ (List.mem_map.mpr ⟨r, ?_, rfl⟩)) _
  · obtain ⟨r', hr', rfl⟩ := List.mem_map.mp hm
    simp only [List.mem_filter, Bool.and_eq_true, decide_eq_true_eq] at hr'
    exact h r' hr'.1 hr'.2.2.1
  · simp [hr, hp, hq, hn]

/-- An artifact adds its size. -/
theorem usedBytes_append {a : Artifact} (h : d'.artifacts = d.artifacts ++ [a]) :
    usedBytes d' p = usedBytes d p +
      if a.storageProviderId = p then a.sizeBytes.getD 0 else 0 := by
  simp only [usedBytes, h, List.filter_append, List.filterMap_append, List.sum_append,
    List.filter_cons, List.filter_nil, decide_eq_true_eq]
  split
  · cases hsize : a.sizeBytes <;> simp [hsize]
  · simp

theorem usedBytes_congr (h : d'.artifacts = d.artifacts) : usedBytes d' p = usedBytes d p := by
  rw [usedBytes, h, usedBytes]

end sums

/-- The checks of `reserveQuota` compare what they are meant to compare: the sums of a provider that is
within its quota are doubles, and a sum that is not is no smaller than any quota. -/
theorem add_le_of_quotaError {used pending quota size : ℤ} (hquota : 0 < quota)
    (hsafe : Js.isSafeInteger quota = true) (hused : 0 ≤ used) (hpending : 0 ≤ pending)
    (hsum : used + pending ≤ quota) (hsize : 0 < size) (hsafe' : Js.isSafeInteger size = true)
    (h : quotaError (toNumber quota)
      ((Js.toDouble (toNumber used + toNumber pending)).getD 0) size = none) :
    used + pending + size ≤ quota := by
  have number : ∀ {n : ℤ}, Js.isSafeInteger n = true → toNumber n = n := fun hn => by
    rw [toNumber, Js.toDouble_intCast hn, Option.getD_some]
  simp only [Js.isSafeInteger, Bool.and_eq_true, decide_eq_true_eq] at hsafe hsafe' number
  have hcurrent : (Js.toDouble (toNumber used + toNumber pending)).getD 0 =
      ((used + pending : ℤ) : ℚ) := by
    rw [number (n := used) (by omega), number (n := pending) (by omega), ← Int.cast_add,
      Js.toDouble_intCast (by simp [Js.isSafeInteger]; omega), Option.getD_some]
  rw [number (n := quota) (by omega), hcurrent, quotaError,
    if_pos (by exact_mod_cast hquota : (0 : ℚ) < quota)] at h
  dsimp only at h
  split at h
  · cases h
  · split at h
    · cases h
    · rename_i hle
      rw [← Int.cast_add, not_lt] at hle
      by_cases hsmall : used + pending + size < 2 ^ 53
      · rw [Js.toDouble_intCast (by simp [Js.isSafeInteger]; omega), Option.getD_some] at hle
        exact_mod_cast hle
      · obtain ⟨x, hx, hxle⟩ := Js.le_toDouble (q := ((used + pending + size : ℤ) : ℚ))
          (by exact_mod_cast not_lt.mp hsmall)
          (by exact_mod_cast (by omega : used + pending + size < 2 ^ 55))
        rw [hx, Option.getD_some] at hle
        have : (2 : ℚ) ^ 53 ≤ quota := hxle.trans hle
        have : (2 : ℤ) ^ 53 ≤ quota := by exact_mod_cast this
        omega

/-! ## The terms -/

/-- The lock of a provider's row that artifacts and reservations share. -/
def needsProvider : Write → Row × Mode → Prop
  | .insertArtifact r, l => l = Row.references .storageProviders r.storageProviderId
  | .insertReservation r, l => l = Row.references .storageProviders r.storageProviderId
  | _, _ => False

/-- A provider among those of the CMS with a quota. -/
structure HasQuota (ps : List StorageProvider) (p : Id) (quota : ℤ) : Prop where
  provider : ∀ r ∈ ps, r.id = p → r.quotaBytes = some quota
  positive : 0 < quota
  safe : Js.isSafeInteger quota = true

section terms

variable (ps : List StorageProvider) (p : Id) (quota : ℤ)

/-- The provider is within its quota, and whoever adds to it shares its row. -/
structure QuotaInv (σ : CmsState) : Prop where
  exclusive : σ.server.Exclusive
  covered : σ.server.Covered needsProvider
  providers : σ.server.db.storageProviders = ps
  nonneg : NonnegReservations σ.server.db p
  used : 0 ≤ usedBytes σ.server.db p
  within : usedBytes σ.server.db p + pendingBytes σ.server.db p σ.world.clock ≤ quota
  consistent : σ.world.Consistent

/-- The provider's sums do not grow. -/
def NoGrowth (d d' : Db) : Prop :=
  usedBytes d' p = usedBytes d p ∧ ∀ n, pendingBytes d' p n ≤ pendingBytes d p n

/-- What program `i` may count on: its reservation stays until it expires, and while it holds the
provider's row the sums do not grow. -/
structure QuotaRely (i : ℕ) (σ σ' : CmsState) : Prop where
  clock : σ.world.clock ≤ σ'.world.clock
  mine : σ.world.mine i ⊆ σ'.world.mine i
  readings : σ'.world.readings i = σ.world.readings i
  gone : σ.server.gone i = true → σ'.server.gone i = true
  reserved : ∀ r ∈ σ.server.db.reservations, r.id ∈ σ.world.mine i →
    σ'.world.clock < r.expiresAt → r ∈ σ'.server.db.reservations
  frozen : σ'.server.gone i = false → σ.server.owner (.key .storageProviders p) = some i →
    σ'.server.owner (.key .storageProviders p) = some i ∧ NoGrowth p σ.server.db σ'.server.db

variable {ps p quota}

theorem QuotaRely.refl (i : ℕ) (σ : CmsState) : QuotaRely p i σ σ :=
  ⟨le_rfl, subset_rfl, rfl, id, fun _ h _ _ => h, fun _ h => ⟨h, rfl, fun _ => le_rfl⟩⟩

theorem QuotaRely.trans {i : ℕ} {σ₁ σ₂ σ₃ : CmsState} (h₁ : QuotaRely p i σ₁ σ₂)
    (h₂ : QuotaRely p i σ₂ σ₃) : QuotaRely p i σ₁ σ₃ where
  clock := h₁.clock.trans h₂.clock
  mine := h₁.mine.trans h₂.mine
  readings := h₂.readings.trans h₁.readings
  gone h := h₂.gone (h₁.gone h)
  reserved r hr hid hc := h₂.reserved r (h₁.reserved r hr hid (h₂.clock.trans_lt hc)) (h₁.mine hid) hc
  frozen hg ho := by
    have hg₂ : σ₂.server.gone i = false := by
      by_contra hne
      rw [h₂.gone (by simpa using hne)] at hg
      cases hg
    obtain ⟨ho₂, hu₂, hp₂⟩ := h₁.frozen hg₂ ho
    obtain ⟨ho₃, hu₃, hp₃⟩ := h₂.frozen hg ho₂
    exact ⟨ho₃, hu₃.trans hu₂, fun n => (hp₃ n).trans (hp₂ n)⟩

/-- A step of program `i` is within everybody else's rely. -/
def QuotaGuar (p : Id) (i : ℕ) (σ σ' : CmsState) : Prop := ∀ j, i ≠ j → QuotaRely p j σ σ'

/-- A step of program `i` that lets the sums grow is taken with a share of the provider's row. -/
theorem QuotaInv.guar {i : ℕ} {σ : CmsState} (hi : QuotaInv ps p quota σ) {srv : Server cmsSchema}
    {w : CmsWorld} (hkeeps : ∀ j, i ≠ j → σ.server.Keeps j srv) (hclock : w.clock = σ.world.clock)
    (hmine : ∀ j, σ.world.mine j ⊆ w.mine j)
    (hreadings : ∀ j, i ≠ j → w.readings j = σ.world.readings j)
    (hreserved : ∀ r ∈ σ.server.db.reservations, r.id ∉ σ.world.mine i →
      σ.world.clock < r.expiresAt → r ∈ srv.db.reservations)
    (hsum : NoGrowth p σ.server.db srv.db ∨
      i ∈ σ.server.sharers (.key .storageProviders p)) : QuotaGuar p i σ ⟨srv, w⟩ := by
  intro j hij
  refine ⟨hclock.ge, hmine j, hreadings j hij, (hkeeps j hij).gone, fun r hr hid hc => ?_,
    fun hg ho => ⟨(hkeeps j hij).owner hg _ ho, ?_⟩⟩
  · exact hreserved r hr (fun hm => hij (hi.consistent.owners i j _ hm hid)) (hclock ▸ hc)
  · exact hsum.resolve_right fun hs => hij (hi.exclusive _ j i ho hs)

/-- What publishes nothing keeps the terms. -/
theorem QuotaInv.idle {i : ℕ} {σ : CmsState} (hi : QuotaInv ps p quota σ) {srv : Server cmsSchema}
    (hdb : srv.db = σ.server.db) (hexclusive : srv.Exclusive) (hcovered : srv.Covered needsProvider)
    (hkeeps : ∀ j, i ≠ j → σ.server.Keeps j srv) :
    QuotaInv ps p quota ⟨srv, σ.world⟩ ∧ QuotaGuar p i σ ⟨srv, σ.world⟩ := by
  refine ⟨⟨hexclusive, hcovered, ?_, ?_, ?_, ?_, hi.consistent⟩,
    hi.guar hkeeps rfl (fun _ => subset_rfl) (fun _ _ => rfl) ?_ (.inl ?_)⟩
  all_goals rw [hdb]
  · exact hi.providers
  · exact hi.nonneg
  · exact hi.used
  · exact hi.within
  · exact fun _ hr _ _ => hr
  · exact ⟨rfl, fun _ => le_rfl⟩

/-- What touches neither rows nor locks keeps the terms. -/
theorem QuotaInv.world {i : ℕ} {σ : CmsState} (hi : QuotaInv ps p quota σ) {w : CmsWorld}
    (hclock : w.clock = σ.world.clock) (hmine : ∀ j, σ.world.mine j ⊆ w.mine j)
    (hreadings : ∀ j, i ≠ j → w.readings j = σ.world.readings j) (hw : w.Consistent) :
    QuotaInv ps p quota ⟨σ.server, w⟩ ∧ QuotaGuar p i σ ⟨σ.server, w⟩ := by
  refine ⟨⟨hi.exclusive, hi.covered, hi.providers, hi.nonneg, hi.used, ?_, hw⟩,
    hi.guar (fun j _ => .refl j _) hclock hmine hreadings (fun _ hr _ _ => hr)
      (.inl ⟨rfl, fun _ => le_rfl⟩)⟩
  rw [hclock]
  exact hi.within

/-- What is published keeps the terms when it stays within the quota. -/
theorem QuotaInv.publish {i : ℕ} {σ : CmsState} (hi : QuotaInv ps p quota σ)
    {srv : Server cmsSchema} (hexclusive : srv.Exclusive) (hcovered : srv.Covered needsProvider)
    (hkeeps : ∀ j, i ≠ j → σ.server.Keeps j srv)
    (hproviders : srv.db.storageProviders = σ.server.db.storageProviders)
    (hnonneg : NonnegReservations srv.db p)
    (hreserved : ∀ r ∈ σ.server.db.reservations, r.id ∉ σ.world.mine i →
      σ.world.clock < r.expiresAt → r ∈ srv.db.reservations)
    (hsum : NoGrowth p σ.server.db srv.db ∨ i ∈ σ.server.sharers (.key .storageProviders p) ∧
      0 ≤ usedBytes srv.db p ∧
        usedBytes srv.db p + pendingBytes srv.db p σ.world.clock ≤ quota) :
    QuotaInv ps p quota ⟨srv, σ.world⟩ ∧ QuotaGuar p i σ ⟨srv, σ.world⟩ := by
  refine ⟨⟨hexclusive, hcovered, hproviders.trans hi.providers, hnonneg, ?_, ?_, hi.consistent⟩,
    hi.guar hkeeps rfl (fun _ => subset_rfl) (fun _ _ => rfl) hreserved (hsum.imp_right (·.1))⟩
  · rcases hsum with h | h
    · exact h.1 ▸ hi.used
    · exact h.2.1
  · rcases hsum with h | h
    · exact (add_le_add h.1.le (h.2 _)).trans hi.within
    · exact h.2.2

/-- The terms of uploads. -/
def quotaTerms (ps : List StorageProvider) (p : Id) (quota : ℤ) : CmsTerms where
  inv := QuotaInv ps p quota
  rely := QuotaRely p
  guar := QuotaGuar p
  rely_refl := QuotaRely.refl
  rely_trans _ _ _ _ := QuotaRely.trans
  covers _ j _ _ hij _ _ h := h j hij
  quiet _ _ _ hi hq := hi.idle hq.db (hq.exclusive hi.exclusive) (hq.covered hi.covered)
    fun _ hij => hq.keeps hij
  world ch σ w he hi := by
    cases ch with
    | tick n =>
      cases he
      exact ⟨⟨hi.exclusive, hi.covered, hi.providers, hi.nonneg, hi.used,
        (Int.add_le_add_left (pendingBytes_anti hi.nonneg (Nat.le_add_right _ n)) _).trans hi.within,
        hi.consistent.tick n⟩,
        fun j => ⟨Nat.le_add_right _ _, subset_rfl, rfl, id, fun _ hr _ _ => hr,
          fun _ ho => ⟨ho, rfl, fun _ => le_rfl⟩⟩⟩
    | _ => cases he
  abort i σ hi := by
    refine ⟨⟨hi.exclusive.release i, (hi.covered.release i).congr rfl rfl rfl, hi.providers,
      hi.nonneg, hi.used, hi.within, hi.consistent⟩, fun j => ?_⟩
    have hkeeps := Server.keeps_abort i j σ.server
    exact ⟨le_rfl, subset_rfl, rfl, hkeeps.gone, fun _ hr _ _ => hr,
      fun hg ho => ⟨hkeeps.owner hg _ ho, rfl, fun _ => le_rfl⟩⟩

/-- The condition that each upload finishes before its own reservation expires: its finalising
transaction commits by then. -/
def FinishesInTime : Guard cms
  | i, .db .commit, _, σ => finalises σ.server i = true → σ.world.InTime i
  | _, _, _, _ => True

end terms

/-! ## The outline -/

section outline

variable {ps : List StorageProvider} {p : Id} {quota : ℤ} {i : ℕ}

/-- Program `i` has read the clock at certain times and owns an identifier, if there is one. -/
def OwnsAt (i : ℕ) (o : Option Id) (ns : List ℕ) (w : CmsWorld) : Prop :=
  w.readings i = ns ∧ ∀ id ∈ o, id ∈ w.mine i

/-- The reservation of an artifact to be, made at the time `n`. -/
def Artifact.reservation (row : Artifact) (n : ℕ) : Reservation :=
  ⟨row.id, row.storageProviderId, row.sizeBytes.getD 0, n + reservationLifetime⟩

/-- Program `i` has the reservation of its artifact, as long as it has not expired. -/
def HoldsReservation (i : ℕ) (row : Artifact) (d : Db) (w : CmsWorld) : Prop :=
  row.id ∈ w.mine i ∧ ∃ n, w.reservedAt i = some n ∧
    (w.clock < n + reservationLifetime → row.reservation n ∈ d.reservations)

theorem ownsAt_fact (o : Option Id) (ns : List ℕ) :
    (quotaTerms ps p quota).Fact i [] fun _ => OwnsAt i o ns :=
  fun _ _ hr _ _ h => ⟨hr.readings.trans h.1, fun id hid => hr.mine (h.2 id hid)⟩

theorem owns_fact (id : Id) : (quotaTerms ps p quota).Fact i [] fun _ w => id ∈ w.mine i :=
  fun _ _ hr _ _ h => hr.mine h

theorem holdsReservation_fact (row : Artifact) :
    (quotaTerms ps p quota).Fact i [] (HoldsReservation i row) := by
  rintro σ σ' hr - - ⟨hid, n, hn, h⟩
  exact ⟨hr.mine hid, n, (congrArg (fun ns => ns[1]?) hr.readings).trans hn,
    fun hc => hr.reserved _ (h (hr.clock.trans_lt hc)) hid hc⟩

/-- A provider whose row is held is within its quota as of a reading of the clock. -/
def WithinSince (p : Id) (quota : ℤ) (held : Prop) (now : ℕ) (d : Db) (w : CmsWorld) : Prop :=
  now ≤ w.clock ∧ (held → usedBytes d p + pendingBytes d p now ≤ quota)

/-- The bytes of its artifacts were counted. -/
def CountedUsed (p : Id) (held : Prop) (used : ℤ) (d : Db) : Prop :=
  held → usedBytes d p = used ∧ 0 ≤ used

/-- Those of its reservations were counted, and none have come since. -/
def CountedPending (p : Id) (held : Prop) (now : ℕ) (pending : ℤ) (d : Db) : Prop :=
  held → pendingBytes d p now ≤ pending ∧ 0 ≤ pending

/-- Who holds the provider's row may count on what it counted. -/
theorem frozen_fact {rows : List Row} {held : Prop} {A : Db → Prop}
    (hrows : held → .key .storageProviders p ∈ rows)
    (hA : ∀ d d', NoGrowth p d d' → A d → A d') :
    (quotaTerms ps p quota).Fact i rows fun d _ => held → A d :=
  fun _ _ hr hg ho h hh => hA _ _ (hr.frozen hg (ho _ (hrows hh))).2 (h hh)

section counting

variable {rows : List Row} {held : Prop} (hrows : held → .key .storageProviders p ∈ rows)
include hrows

theorem withinSince_fact (now : ℕ) :
    (quotaTerms ps p quota).Fact i rows (WithinSince p quota held now) :=
  fun σ σ' hr hg ho h => ⟨h.1.trans hr.clock, frozen_fact hrows
    (fun _ _ hd hle => (add_le_add hd.1.le (hd.2 now)).trans hle) σ σ' hr hg ho h.2⟩

theorem countedUsed_fact (used : ℤ) :
    (quotaTerms ps p quota).Fact i rows fun d _ => CountedUsed p held used d :=
  frozen_fact hrows fun _ _ hd h => ⟨hd.1.trans h.1, h.2⟩

theorem countedPending_fact (now : ℕ) (pending : ℤ) :
    (quotaTerms ps p quota).Fact i rows fun d _ => CountedPending p held now pending d :=
  frozen_fact hrows fun _ _ hd h => ⟨(hd.2 now).trans h.1, h.2⟩

end counting

variable {σ : CmsState}

/-- A change of an object. -/
theorem QuotaInv.setObject (hi : QuotaInv ps p quota σ) (i : ℕ) (place : Id) (key : String)
    (content : Option (List UInt8)) :
    QuotaInv ps p quota ⟨σ.server, σ.world.setObject place key content⟩ ∧
      QuotaGuar p i σ ⟨σ.server, σ.world.setObject place key content⟩ :=
  hi.world rfl (fun _ => subset_rfl) (fun _ _ => rfl) ⟨hi.consistent.owners, hi.consistent.read⟩

/-- A reading of the clock. -/
theorem QuotaInv.readClock (hi : QuotaInv ps p quota σ) (i : ℕ) :
    QuotaInv ps p quota ⟨σ.server, σ.world.readClock i⟩ ∧
      QuotaGuar p i σ ⟨σ.server, σ.world.readClock i⟩ :=
  hi.world rfl (fun _ => subset_rfl) (fun _ hij => readings_readClock_of_ne hij.symm)
    (hi.consistent.readClock i)

/-- A write of a transaction. -/
theorem QuotaInv.record (hi : QuotaInv ps p quota σ) {ws : List Write} {w : Write}
    (htx : σ.server.tx i = some ws)
    (hfree : ∀ l ∈ cmsSchema.locks w (σ.server.view i), σ.server.free i l = true) :
    QuotaInv ps p quota ⟨σ.server.record i w, σ.world⟩ ∧
      QuotaGuar p i σ ⟨σ.server.record i w, σ.world⟩ := by
  refine hi.idle (Server.record_db_of_some htx) (hi.exclusive.record hfree)
    (hi.covered.record hfree fun l hl => .inl ?_) fun _ hij => Server.keeps_record hij hfree
  cases w with
  | insertArtifact a =>
    obtain rfl := hl
    simp [cmsSchema, Write.locks]
  | insertReservation r =>
    obtain rfl := hl
    simp [cmsSchema, Write.locks]
  | _ => cases hl

/-- A commit of deletions. -/
theorem QuotaInv.delete (hi : QuotaInv ps p quota σ) {q : Reservation → Bool} {d : Db}
    {S : Server cmsSchema} (hdb : S.db = d) (hexclusive : S.Exclusive)
    (hcovered : S.Covered needsProvider) (hkeeps : ∀ j, i ≠ j → σ.server.Keeps j S)
    (hd : d.toTables = (Write.run σ.server.db.toTables (.deleteReservations q)).2)
    (hq : ∀ r ∈ σ.server.db.reservations, q r = true →
      r.id ∈ σ.world.mine i ∨ r.expiresAt ≤ σ.world.clock) :
    QuotaInv ps p quota ⟨S, σ.world⟩ ∧ QuotaGuar p i σ ⟨S, σ.world⟩ := by
  subst hdb
  have hr : S.db.reservations = σ.server.db.reservations.filter fun r => !q r := by rw [hd]; rfl
  have ha : S.db.artifacts = σ.server.db.artifacts := by rw [hd]; rfl
  refine hi.publish hexclusive hcovered hkeeps (by rw [hd]; rfl) (fun r hm hp => ?_)
    (fun r hm hid hc => ?_) (.inl ⟨usedBytes_congr ha, pendingBytes_filter hi.nonneg hr⟩)
  · rw [hr] at hm
    exact hi.nonneg r (List.mem_filter.mp hm).1 hp
  · rw [hr]
    refine List.mem_filter.mpr ⟨hm, ?_⟩
    by_contra hne
    rcases hq r hm (by simpa using hne) with h | h
    · exact hid h
    · exact absurd hc (not_lt.mpr h)

/-- The commit of a reservation. -/
theorem QuotaInv.reserve (hi : QuotaInv ps p quota σ) {r : Reservation} {now : ℕ} {d : Db}
    (htx : σ.server.tx i = some [.insertReservation r]) (hsize : 0 < r.sizeBytes)
    (hwithin : now ≤ σ.world.clock ∧ (r.storageProviderId = p →
      usedBytes σ.server.db p + pendingBytes σ.server.db p now + r.sizeBytes ≤ quota))
    (hd : d.toTables = (Write.run σ.server.db.toTables (.insertReservation r)).2) :
    QuotaInv ps p quota ⟨{ σ.server.release i with db := d }, σ.world⟩ ∧
      QuotaGuar p i σ ⟨{ σ.server.release i with db := d }, σ.world⟩ := by
  have hr : d.reservations = σ.server.db.reservations ++ [r] := by rw [hd]; rfl
  have ha : d.artifacts = σ.server.db.artifacts := by rw [hd]; rfl
  refine hi.publish (hi.exclusive.release i) ((hi.covered.release i).congr rfl rfl rfl)
    (fun _ hij => Server.keeps_publish hij _ _) (by rw [hd]; rfl) (fun r' hm hp => ?_)
    (fun r' hm _ _ => by rw [hr]; exact List.mem_append_left _ hm) ?_
  · rcases List.mem_append.mp (hr ▸ hm) with hm | hm
    · exact hi.nonneg r' hm hp
    · rw [List.mem_singleton.mp hm]
      exact hsize.le
  · by_cases hp : r.storageProviderId = p
    · right
      refine ⟨hi.covered i _ _ (.key .storageProviders p, .share) htx (List.mem_singleton_self _)
        (by rw [needsProvider, hp]; rfl), ?_, ?_⟩
      · rw [usedBytes_congr ha]
        exact hi.used
      · have hold := pendingBytes_anti hi.nonneg hwithin.1
        have hnew := hwithin.2 hp
        rw [usedBytes_congr ha, pendingBytes_append hr]
        split <;> omega
    · left
      refine ⟨usedBytes_congr ha, fun n => ?_⟩
      rw [pendingBytes_append hr, if_neg fun h => hp h.1, add_zero]

/-- The commit of an artifact in the place of its unexpired reservation. -/
theorem QuotaInv.finalise (hi : QuotaInv ps p quota σ) {row row' : Artifact} {n : ℕ} {d : Db}
    (hid : row.id ∈ σ.world.mine i) (hrow : row'.id = row.id)
    (hplace : row'.storageProviderId = row.storageProviderId)
    (hsize : row'.sizeBytes = row.sizeBytes)
    (htx : σ.server.tx i = some [.insertArtifact row', .deleteReservations (·.id = row'.id)])
    (hin : σ.world.clock < n + reservationLifetime)
    (hres : row.reservation n ∈ σ.server.db.reservations)
    (hd : d.toTables = (Write.run (Write.run σ.server.db.toTables (.insertArtifact row')).2
      (.deleteReservations (·.id = row'.id))).2) :
    QuotaInv ps p quota ⟨{ σ.server.release i with db := d }, σ.world⟩ ∧
      QuotaGuar p i σ ⟨{ σ.server.release i with db := d }, σ.world⟩ := by
  have ha : d.artifacts = σ.server.db.artifacts ++ [row'] := by rw [hd]; rfl
  have hr : d.reservations =
      σ.server.db.reservations.filter fun r => !decide (r.id = row'.id) := by rw [hd]; rfl
  refine hi.publish (hi.exclusive.release i) ((hi.covered.release i).congr rfl rfl rfl)
    (fun _ hij => Server.keeps_publish hij _ _) (by rw [hd]; rfl) (fun r hm hp => ?_)
    (fun r hm hne _ => ?_) ?_
  · exact hi.nonneg r (List.mem_filter.mp (hr ▸ hm)).1 hp
  · rw [hr]
    refine List.mem_filter.mpr ⟨hm, ?_⟩
    have : r.id ≠ row'.id := fun he => hne (by rw [he, hrow]; exact hid)
    simpa using this
  · by_cases hp : row'.storageProviderId = p
    · right
      have hplace' : row.storageProviderId = p := hplace ▸ hp
      have hmoved := pendingBytes_release hi.nonneg hr hres hplace'
        (by simp [Artifact.reservation, hrow]) hin
      have hnonneg : 0 ≤ row.sizeBytes.getD 0 := hi.nonneg _ hres hplace'
      have hused := usedBytes_append (p := p) ha
      rw [if_pos hp, hsize] at hused
      have hbefore := hi.within
      have hbefore' := hi.used
      simp only [Artifact.reservation] at hmoved
      exact ⟨hi.covered i _ _ (.key .storageProviders p, .share) htx (List.mem_cons_self ..)
        (by rw [needsProvider, hp]; rfl), (show 0 ≤ usedBytes d p by omega),
        (show usedBytes d p + pendingBytes d p σ.world.clock ≤ quota by omega)⟩
    · left
      refine ⟨?_, pendingBytes_filter hi.nonneg hr⟩
      rw [usedBytes_append ha, if_neg hp, add_zero]

/-- The reservation: what it counts under the lock is what there is when it commits. -/
theorem quota_reserveQuota {ok : Guard cms} (hquota : HasQuota ps p quota) {row : Artifact}
    (hrow : Uploaded row) (n : ℕ) :
    Triple ok (quotaTerms ps p quota).discipline i
      (Holds i none [] fun _ => OwnsAt i (some row.id) [n])
      (reserveQuota row.id row.storageProviderId (row.sizeBytes.getD 0))
      (fun _ => Holds i none [] (HoldsReservation i row)) fun _ _ => True := by
  obtain ⟨size, hsize, hpos, hsafe⟩ := hrow.size
  -- Nothing is claimed of the failures.
  have any : ∀ {A : Db → CmsWorld → Prop} {tx : Option (List Write)} {rows : List cmsSchema.Row}
      (e : Failure String) (σ : CmsState), Holds i tx rows A σ →
      Known i [] (fun (_ : Db) (_ : CmsWorld) => True) σ := fun _ _ _ _ => ⟨by simp, trivial⟩
  have hA : (quotaTerms ps p quota).Fact i [] _ := ownsAt_fact (some row.id) [n]
  refine (triple_transaction (D := cmsSchema) (X := cmsWorld) (R := fun _ _ => True)
    (B := fun _ ws ls d w => ∃ now, ws = [Write.insertReservation (row.reservation now)] ∧
      OwnsAt i (some row.id) [n, now] w ∧ now ≤ w.clock ∧ (row.storageProviderId = p →
        .key .storageProviders p ∈ ls ∧
          usedBytes d p + pendingBytes d p now + row.sizeBytes.getD 0 ≤ quota))
    (C := fun _ => HoldsReservation i row) hA (.const _) ?_ (fun _ => holdsReservation_fact row)
    (fun _ _ _ => trivial) (fun _ _ _ _ _ _ => trivial) ?_ ?_).mono
    (fun _ h => h) (fun _ _ h => h) fun _ _ _ => trivial
  · rintro - ws ls σ σ' hr hg ho ⟨now, hws, hown, hle, hsum⟩
    refine ⟨now, hws, ownsAt_fact _ _ σ σ' hr hg (by simp) hown, hle.trans hr.clock,
      fun hp => ⟨(hsum hp).1, ?_⟩⟩
    -- The lock on the provider keeps its sums from growing until the commit.
    have hfrozen := (hr.frozen hg (ho _ (hsum hp).1)).2
    exact (add_le_add_left (add_le_add hfrozen.1.le (hfrozen.2 now)) _).trans (hsum hp).2
  · -- The body: the row of the provider is locked first.
    refine triple_selectForUpdate (B := fun found v _ w => OwnsAt i (some row.id) [n] w ∧
      ∀ provider ∈ v, row.storageProviderId ∈ found ∧
        (row.storageProviderId = p → provider.quotaBytes = some quota)) hA
      (fun found σ hi h => ⟨h, fun provider hm => ?_⟩)
      (fun e σ h => h.mono (by simp) fun _ _ _ => trivial) fun found provider => ?_
    · obtain ⟨hfind, hfound⟩ := Option.filter_eq_some_iff.mp hm
      have hid := List.find?_some hfind
      simp only [Bool.and_eq_true, decide_eq_true_eq] at hid
      have hmem : provider ∈ ps := (QuotaInv.providers hi) ▸ List.mem_of_find?_eq_some hfind
      refine ⟨hid.1 ▸ List.contains_iff_mem.mp hfound, fun hp => ?_⟩
      exact hquota.provider provider hmem (hid.1.trans hp)
    · -- From here on the provider is locked, if it is the one of the quota.
      set rows := alone (D := cmsSchema) (Row.forUpdate .storageProviders found) ++ [] with hrows
      set held : Prop := row.storageProviderId = p ∧ row.storageProviderId ∈ found
      have hkey : held → .key .storageProviders p ∈ rows := fun h =>
        List.mem_append_left _ (mem_alone_forUpdate (h.1 ▸ h.2))
      have hown : ∀ ns, (quotaTerms ps p quota).Fact i rows _ := fun ns =>
        (ownsAt_fact (some row.id) ns).more (by simp)
      refine triple_orFail ((hown [n]).and (.const _)) any fun provider hprovider => ?_
      subst hprovider
      set found' : Prop := row.storageProviderId ∈ found ∧
        (row.storageProviderId = p → provider.quotaBytes = some quota)
      refine triple_refuse ((hown [n]).and (.const _)) any fun _ => ?_
      have h₁ : ∀ now, (quotaTerms ps p quota).Fact i rows _ := fun now =>
        ((hown [n, now]).and (.const found')).and (withinSince_fact hkey now)
      -- The clock is read under the lock, and then what is used and what is reserved.
      refine triple_call (B := fun now d w => (OwnsAt i (some row.id) [n, now] w ∧ found') ∧
        WithinSince p quota held now d w) ((hown [n]).and (.const _)) ?_ fun now : ℕ => ?_
      · rintro σ o r w hi ⟨hown, hfound⟩ - hrun
        cases hrun
        obtain ⟨hi₂, hg⟩ := QuotaInv.readClock hi i
        exact ⟨hi₂, hg, ⟨⟨readings_readClock hown.1, hown.2⟩, hfound provider rfl⟩, le_rfl,
          fun _ => QuotaInv.within hi⟩
      have h₂ : ∀ used, (quotaTerms ps p quota).Fact i rows _ := fun used =>
        (h₁ now).and (countedUsed_fact hkey used)
      refine triple_select (B := fun used d w => ((OwnsAt i (some row.id) [n, now] w ∧ found') ∧
        WithinSince p quota held now d w) ∧ CountedUsed p held used d) (h₁ now)
        (fun σ hi h => ⟨h, fun hh => ?_⟩) any fun used => ?_
      · change usedBytes σ.server.db p = usedBytes σ.server.db row.storageProviderId ∧
          0 ≤ usedBytes σ.server.db row.storageProviderId
        rw [hh.1]
        exact ⟨rfl, QuotaInv.used hi⟩
      refine triple_select (B := fun pending d w => (((OwnsAt i (some row.id) [n, now] w ∧ found') ∧
        WithinSince p quota held now d w) ∧ CountedUsed p held used d) ∧
        CountedPending p held now pending d ∧ (held → used + pending ≤ quota)) (h₂ used)
        (fun σ hi h => ⟨h, fun hh => ?_, fun hh => ?_⟩) any fun pending => ?_
      · change pendingBytes σ.server.db p now ≤ pendingBytes σ.server.db row.storageProviderId now ∧
          0 ≤ pendingBytes σ.server.db row.storageProviderId now
        rw [hh.1]
        exact ⟨le_rfl, pendingBytes_nonneg (QuotaInv.nonneg hi) now⟩
      · change used + pendingBytes σ.server.db row.storageProviderId now ≤ quota
        rw [← (h.2 hh).1, hh.1]
        exact h.1.2.2 hh
      -- The check leaves room for the row that the transaction inserts.
      have h₃ : (quotaTerms ps p quota).Fact i rows _ := (h₂ used).and
        ((countedPending_fact hkey now pending).and (.const (held → used + pending ≤ quota)))
      dsimp only
      split
      · exact .fail h₃.stable fun σ _ _ => ⟨by simp, trivial⟩
      · rename_i hchecks
        refine triple_write (D := cmsSchema) h₃ (fun σ hi htx _ _ hf => QuotaInv.record hi htx hf)
          (fun _ _ _ _ => ⟨by simp, trivial⟩) fun _ => ?_
        refine .ret h₃.stable fun σ h => ⟨_, rows, h.mono ?_⟩
        rintro d w ⟨⟨⟨⟨hown, hfound, hsome⟩, hle, -⟩, hused⟩, hpending, hsum⟩
        refine ⟨now, rfl, hown, hle, fun hp => ?_⟩
        have hheld : held := ⟨hp, hfound⟩
        obtain ⟨hused, hused0⟩ := hused hheld
        obtain ⟨hpending, hpending0⟩ := hpending hheld
        rw [hsome hp, hsize, Option.getD_some, Option.getD_some] at hchecks
        have hwithin := add_le_of_quotaError hquota.positive hquota.safe hused0 hpending0
          (hsum hheld) hpos hsafe hchecks
        rw [hsize, Option.getD_some]
        exact ⟨hkey hheld, by omega⟩
  · rintro - ws ls σ φ d hi htx - ⟨now, rfl, hown, hle, hsum⟩ - hd
    -- The commit adds the reservation that was checked.
    have hd := publish_one hd
    obtain ⟨hi₂, hg⟩ := QuotaInv.reserve hi htx (r := row.reservation now)
      (by rw [Artifact.reservation, hsize]; exact hpos) ⟨hle, fun hp => (hsum hp).2⟩ hd
    refine ⟨hi₂, hg, ⟨hown.2 _ rfl, now, by simp [CmsWorld.reservedAt, hown.1], fun _ => ?_⟩,
      fun _ => trivial⟩
    rw [hd]
    exact List.mem_append_right _ (List.mem_singleton_self _)

variable (i) in
/-- The outline of an upload under these terms. -/
def quotaOutline (hquota : HasQuota ps p quota) :
    UploadOutline (quotaTerms ps p quota) FinishesInTime i where
  issued o _ := OwnsAt i o []
  ready o n _ := OwnsAt i o [n]
  listed _ n all _ _ w := n ≤ w.clock
  reserved := HoldsReservation i
  stored := HoldsReservation i
  failed row _ w := row.id ∈ w.mine i
  cleared row _ w := row.id ∈ w.mine i
  issued_fact o := ownsAt_fact o []
  ready_fact o n := ownsAt_fact o [n]
  listed_fact _ n _ _ := fun _ _ hr _ _ h => h.trans hr.clock
  reserved_fact := holdsReservation_fact
  stored_fact := holdsReservation_fact
  failed_fact row := owns_fact row.id
  cleared_fact row := owns_fact row.id
  record σ ws w hi htx hf := QuotaInv.record hi htx hf
  issue σ id hi h hfresh := by
    obtain ⟨hi₂, hg⟩ := QuotaInv.world (i := i) hi (w := σ.world.issue i id) rfl
      (fun _ _ h => List.mem_cons_of_mem _ h) (fun _ _ => rfl) (hi.consistent.issue i hfresh)
    refine ⟨hi₂, hg, h.1, fun id' hid' => ?_⟩
    obtain rfl := Option.some.inj hid'
    exact List.mem_cons_self ..
  readClock σ o hi h := by
    obtain ⟨hi₂, hg⟩ := QuotaInv.readClock hi i
    exact ⟨hi₂, hg, readings_readClock h.1, h.2⟩
  list σ o p n all hi h _ := hi.consistent.read i n (by rw [h.1]; simp)
  sweep σ o place n all r todo hi h hl _ := by
    obtain ⟨hi₂, hg⟩ := QuotaInv.setObject hi i place (storageKey r.id) none
    exact ⟨hi₂, hg, h, hl⟩
  drop σ o place n all d hi h hl hd := by
    obtain ⟨hi₂, hg⟩ := QuotaInv.delete (i := i) (S := { σ.server.release i with db := d }) hi rfl
      (hi.exclusive.release i) ((hi.covered.release i).congr rfl rfl rfl)
      (fun _ hij => Server.keeps_publish hij _ _) hd fun r _ hq => by
        simp only [swept, Bool.and_eq_true, decide_eq_true_eq] at hq
        exact .inr (hq.2.trans hl)
    exact ⟨hi₂, hg, h⟩
  reserve row n hrow := quota_reserveQuota hquota hrow n
  upload σ row tmpPath o r w hi h _ hrun := by
    have hstore := fun content => QuotaInv.setObject hi i row.storageProviderId (storageKey row.id)
      content
    simp only [CmsCall.run] at hrun
    split at hrun
    · cases hrun
      exact ⟨(hstore _).1, (hstore _).2, h⟩
    · cases hrun
      exact ⟨(hstore _).1, (hstore _).2, h.1⟩
    · cases hrun
      exact ⟨hi, ((quotaTerms ps p quota).quiet i σ _ hi .same).2, h.1⟩
    · cases hrun
  reserved_cleared _ _ _ h := h.1
  stored_failed _ _ _ h := h.1
  readAgain σ row hi h := by
    obtain ⟨hi₂, hg⟩ := QuotaInv.readClock hi i
    obtain ⟨hid, n, hn, hres⟩ := h
    exact ⟨hi₂, hg, hid, n, reservedAt_readClock hn i, hres⟩
  finalise σ row row' φ d hi h hid hp hsize htx hok hd := by
    obtain ⟨hmine, n, hn, hres⟩ := h
    have hin : σ.world.clock < n + reservationLifetime :=
      hok (by simp [finalises, htx]) n hn
    obtain ⟨hi₂, hg⟩ := QuotaInv.finalise hi hmine hid hp hsize htx hin (hres hin) hd
    exact ⟨hi₂, hg, fun _ => hmine⟩
  delete σ row hi h := by
    obtain ⟨hi₂, hg⟩ := QuotaInv.setObject hi i row.storageProviderId (storageKey row.id) none
    exact ⟨hi₂, hg, h⟩
  release σ row d hi h hd := by
    refine QuotaInv.delete (S := { σ.server with db := d }) hi rfl hi.exclusive
      (hi.covered.congr rfl rfl rfl) (fun j _ => ⟨id, fun _ => rfl, fun _ _ => id, fun _ _ => id⟩)
      hd fun r _ hq => .inl ?_
    rw [of_decide_eq_true hq]
    exact h

end outline

/-! ## Runs -/

/-- In every run of uploads and cleanups in which each upload finishes before its own reservation
expires, a provider that is within its quota stays within it: the bytes of its artifacts and of its
unexpired reservations are no more than the quota. -/
theorem quota_never_exceeded (node : Node) {rs : List UploadRequest} {d : Db} {w : CmsWorld} {p : Id}
    {quota : ℤ} (hw : Starting rs w) (hquota : HasQuota d.storageProviders p quota)
    (hartifacts : ∀ a ∈ d.artifacts, a.storageProviderId = p → 0 ≤ a.sizeBytes.getD 0)
    (hreservations : NonnegReservations d p)
    (hwithin : usedBytes d p + pendingBytes d p w.clock ≤ quota)
    {c : Config cms (Failure String) Unit} (hr : Config.Run FinishesInTime (uploads node rs d w) c) :
    usedBytes c.state.server.db p + pendingBytes c.state.server.db p c.state.world.clock ≤ quota := by
  have hused : 0 ≤ usedBytes d p := List.sum_nonneg fun n hn => by
    obtain ⟨a, ha, hn⟩ := List.mem_filterMap.mp hn
    have hmem := List.mem_filter.mp ha
    have hsize := hartifacts a hmem.1 (of_decide_eq_true hmem.2)
    rwa [hn, Option.getD_some] at hsize
  have hinv : (quotaTerms d.storageProviders p quota).inv ⟨Server.idle d, w⟩ :=
    ⟨Server.exclusive_idle d, Server.covered_idle d, rfl, hreservations, hused, hwithin,
      hw.consistent⟩
  exact (uploads_run (fun i => quotaOutline i hquota) node hinv
    (fun i hi => ⟨hw.unread i hi, fun _ h => by cases h⟩) hr).within

/-- The test of `FinishesInTime`. -/
def testFinishesInTime (i : ℕ) (s : Action cmsSchema cmsCalls) (_ : Decision Outcome)
    (σ : CmsState) : Bool :=
  match s with
  | .db .commit => !finalises σ.server i || decide (σ.world.InTime i)
  | _ => true

theorem finishesInTime_of_test (i : ℕ) (s : Action cmsSchema cmsCalls) (ch : Decision Outcome)
    (σ : CmsState) (h : testFinishesInTime i s ch σ = true) : FinishesInTime i s ch σ := by
  cases s with
  | db s =>
    cases s with
    | commit =>
      intro hf
      simp only [testFinishesInTime, hf, Bool.not_true, Bool.false_or] at h
      exact of_decide_eq_true (p := σ.world.InTime i) h
    | _ => trivial
  | _ => trivial

/-- Two uploads of one byte, one that has finished and one that has its reservation. -/
theorem quota_never_exceeded_example :
    ∃ c, Config.Run FinishesInTime
        (uploads toyNode [uploadByte "dev", uploadByte "beta"] uploadDb uploadWorld) c ∧
      usedBytes c.state.server.db (toyUuid '5') = 1 ∧
      pendingBytes c.state.server.db (toyUuid '5') c.state.world.clock = 1 ∧
      usedBytes c.state.server.db (toyUuid '5') +
        pendingBytes c.state.server.db (toyUuid '5') c.state.world.clock ≤ 10 := by
  have h : ((uploads toyNode [uploadByte "dev", uploadByte "beta"] uploadDb uploadWorld).follow
      testFinishesInTime (startUpload 0 (toyUuid 'a') ++ startUpload 1 (toyUuid 'b') ++
        reserveUpload 0 ++ reserveUpload 1 ++
        [.thread 0 (.ext (.key (storageKey (toyUuid 'a'))))] ++ finaliseUpload 0)).any
      (fun c => decide (usedBytes c.state.server.db (toyUuid '5') = 1) &&
        decide (pendingBytes c.state.server.db (toyUuid '5') c.state.world.clock = 1)) = true := by
    decide +kernel
  obtain ⟨c, hc, hs⟩ := Config.reached_of_follow finishesInTime_of_test h
  simp only [Bool.and_eq_true, decide_eq_true_eq] at hs
  refine ⟨c, hc, hs.1, hs.2, quota_never_exceeded toyNode (starting_uploadWorld _) ?_ ?_ ?_ ?_ hc⟩
  · refine ⟨fun r hr _ => ?_, by decide, by decide⟩
    rw [List.mem_singleton.mp hr]
  · exact fun _ h => by cases h
  · exact fun _ h => by cases h
  · decide

end Reeva
