import Reeva.Storage.Ledger
import Reeva.Cms.Uploads
import Mathlib.Data.List.Nodup

/-!
# The books of uploads

The database and the storages of the CMS as a ledger: artifacts keep an object for good, reservations
keep it until they expire. The lemmas say what the effects of uploads and cleanups are on the books.
-/

open Interleaving ReadCommitted Ledger

namespace Reeva

open ArtifactService

/-- A reservation's entry in the books. -/
def Reservation.entry (r : Reservation) : Id × Id × ℕ := (r.id, r.storageProviderId, r.expiresAt)

/-- An artifact's entry in the books. -/
def Artifact.entry (a : Artifact) : Id × Id := (a.id, a.storageProviderId)

/-- The books of the CMS. An object is named by its artifact's identifier and its storage provider. -/
def ledger (d : Db) (w : CmsWorld) : Books Id Id where
  kept := {x | ∃ a ∈ d.artifacts, a.entry = x}
  reserved := {x | ∃ r ∈ d.reservations, r.entry = x}
  stored := {x | w.objects x.2 (ArtifactService.storageKey x.1) ≠ none}

/-- The books of a state. -/
def CmsState.ledger (σ : CmsState) : Books Id Id := Reeva.ledger σ.server.db σ.world

/-- The primary key of the reservations. -/
theorem ledger_functional (d : Db) (w : CmsWorld) : (ledger d w).Functional := by
  rintro id place e place' e' ⟨r, hr, he⟩ ⟨r', hr', he'⟩
  have hid : r.id = r'.id := (Prod.mk.inj he).1.trans (Prod.mk.inj he').1.symm
  obtain rfl := List.inj_on_of_nodup_map d.valid.reservationIds hr hr' hid
  exact Prod.mk.inj (Prod.mk.inj (he.symm.trans he')).2

/-! ## The ledger's moves -/

/-- Keys tell artifacts apart. -/
theorem storageKey_injective {id id' : Id} (h : storageKey id = storageKey id') : id = id' := by
  have hl := congrArg String.toList h
  simp only [storageKey, String.toList_append, List.append_assoc] at hl
  exact String.toList_inj.mp (List.append_cancel_right (List.append_cancel_left hl))

/-- The object of an artifact after a change of one. -/
theorem setObject_objects (w : CmsWorld) (id provider id' provider' : Id)
    (content : Option (List UInt8)) :
    (w.setObject provider (storageKey id) content).objects provider' (storageKey id') =
      if (id', provider') = (id, provider) then content
      else w.objects provider' (storageKey id') := by
  by_cases hp : provider' = provider
  · subst hp
    by_cases hid : id' = id
    · simp [CmsWorld.setObject, hid]
    · have hne : storageKey id' ≠ storageKey id := fun h => hid (storageKey_injective h)
      simp [CmsWorld.setObject, hid, hne]
  · simp [CmsWorld.setObject, hp]

/-- A stored object. -/
theorem ledger_store (d : Db) (w : CmsWorld) (id provider : Id) (content : List UInt8) :
    ledger d (w.setObject provider (storageKey id) (some content)) =
      { ledger d w with stored := insert (id, provider) (ledger d w).stored } := by
  simp only [ledger, Books.mk.injEq, true_and]
  ext ⟨id', provider'⟩
  simp only [Set.mem_ofPred_eq, setObject_objects, Set.mem_insert_iff]
  split <;> simp_all

/-- A removed object. -/
theorem ledger_remove (d : Db) (w : CmsWorld) (id provider : Id) :
    ledger d (w.setObject provider (storageKey id) none) =
      { ledger d w with stored := (ledger d w).stored \ {(id, provider)} } := by
  simp only [ledger, Books.mk.injEq, true_and]
  ext ⟨id', provider'⟩
  simp only [Set.mem_ofPred_eq, setObject_objects, Set.mem_sdiff, Set.mem_singleton_iff]
  split <;> simp_all

/-- The rows after a reservation is made. -/
theorem rows_reserve {d d' : Db} {r : Reservation}
    (h : d'.toTables = (Write.run d.toTables (.insertReservation r)).2) :
    d'.artifacts = d.artifacts ∧ d'.reservations = d.reservations ++ [r] := by
  rw [h]
  exact ⟨rfl, rfl⟩

/-- A reservation is made. -/
theorem ledger_reserve {d d' : Db} {w : CmsWorld} {r : Reservation}
    (h : d'.toTables = (Write.run d.toTables (.insertReservation r)).2) :
    (∀ place e, (r.id, place, e) ∉ (ledger d w).reserved) ∧
      ledger d' w = { ledger d w with reserved := insert r.entry (ledger d w).reserved } := by
  obtain ⟨ha, hr⟩ := rows_reserve h
  have hvalid := d'.valid.reservationIds
  rw [hr, List.map_append, List.nodup_append] at hvalid
  constructor
  · rintro place e ⟨r', hr', he⟩
    exact hvalid.2.2 r'.id (List.mem_map_of_mem hr') r.id (by simp) (Prod.mk.inj he).1
  · simp only [ledger, hr, ha, Books.mk.injEq, and_true, true_and]
    ext x
    simp [or_and_right, exists_or, or_comm, eq_comm]

/-- What is left of the rows when reservations are deleted. -/
theorem rows_delete {d d' : Db} {p : Reservation → Bool}
    (h : d'.toTables = (Write.run d.toTables (.deleteReservations p)).2) :
    d'.artifacts = d.artifacts ∧ d'.reservations ⊆ d.reservations := by
  rw [h]
  exact ⟨rfl, fun r hr => (List.mem_filter.mp hr).1⟩

/-- Reservations are deleted. -/
theorem ledger_delete {d d' : Db} {w : CmsWorld} {p : Reservation → Bool}
    (h : d'.toTables = (Write.run d.toTables (.deleteReservations p)).2) :
    ledger d' w = { ledger d w with
      reserved := (ledger d w).reserved \ {x | ∃ r ∈ d.reservations, p r = true ∧ r.entry = x} } := by
  have hr : d'.reservations = d.reservations.filter fun r => !p r := by rw [h]; rfl
  have ha : d'.artifacts = d.artifacts := by rw [h]; rfl
  simp only [ledger, hr, ha, Books.mk.injEq, and_true, true_and]
  ext x
  simp only [Set.mem_ofPred_eq, List.mem_filter, Set.mem_sdiff, not_exists, not_and]
  constructor
  · rintro ⟨r, ⟨hr, hp⟩, rfl⟩
    refine ⟨⟨r, hr, rfl⟩, fun r' hr' hp' he => ?_⟩
    obtain rfl := List.inj_on_of_nodup_map d.valid.reservationIds hr' hr (Prod.mk.inj he).1
    simp [hp'] at hp
  · rintro ⟨⟨r, hr, rfl⟩, hne⟩
    exact ⟨r, ⟨hr, by simpa using fun hp => hne r hr hp rfl⟩, rfl⟩

/-- The reservation of one identifier is dropped. -/
theorem ledger_release {d d' : Db} {w : CmsWorld} {id : Id}
    (h : d'.toTables = (Write.run d.toTables (.deleteReservations (·.id = id))).2) :
    ledger d' w = { ledger d w with reserved := {x ∈ (ledger d w).reserved | x.1 ≠ id} } := by
  rw [ledger_delete h, Books.mk.injEq]
  refine ⟨rfl, Set.ext fun x => ?_, rfl⟩
  simp only [Set.mem_sdiff, Set.mem_ofPred_eq, not_exists, not_and]
  refine and_congr_right fun hx => ?_
  obtain ⟨r, hr, rfl⟩ := hx
  constructor
  · exact fun hne hid => hne r hr (decide_eq_true hid) rfl
  · exact fun hid r' hr' hp he => hid ((Prod.mk.inj he).1.symm.trans (of_decide_eq_true hp))

/-- The rows after an artifact took the place of a reservation. -/
theorem rows_keep {d d' : Db} {a : Artifact} {p : Reservation → Bool}
    (h : d'.toTables = (Write.run (Write.run d.toTables (.insertArtifact a)).2
      (.deleteReservations p)).2) :
    d'.artifacts = d.artifacts ++ [a] ∧ d'.reservations = d.reservations.filter fun r => !p r := by
  rw [h]
  exact ⟨rfl, rfl⟩

/-- An artifact takes the place of the reservation of its identifier. -/
theorem ledger_keep {d d' : Db} {w : CmsWorld} {a : Artifact} {id : Id}
    (h : d'.toTables = (Write.run (Write.run d.toTables (.insertArtifact a)).2
      (.deleteReservations (·.id = id))).2) :
    ledger d' w = { ledger d w with
      kept := insert a.entry (ledger d w).kept
      reserved := {x ∈ (ledger d w).reserved | x.1 ≠ id} } := by
  obtain ⟨ha, hr⟩ := rows_keep h
  simp only [ledger, hr, ha, Books.mk.injEq, and_true]
  refine ⟨Set.ext fun x => ?_, Set.ext fun x => ?_⟩
  · simp [or_and_right, exists_or, or_comm, eq_comm]
  · simp only [Set.mem_ofPred_eq, List.mem_filter]
    constructor
    · rintro ⟨r, ⟨hr, hp⟩, rfl⟩
      exact ⟨⟨r, hr, rfl⟩, by simpa [Reservation.entry] using hp⟩
    · rintro ⟨⟨r, hr, rfl⟩, hid⟩
      exact ⟨r, ⟨hr, by simpa [Reservation.entry] using hid⟩, rfl⟩

end Reeva
