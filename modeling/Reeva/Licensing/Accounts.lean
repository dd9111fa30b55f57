import Mathlib.Data.List.Nodup
import Reeva.Licensing.LicenseService

/-!
# Accounts of licences

What the licence service is for, without programs and locks: an account is a licence with its
activations, and a request changes one account (`Change`) or opens one. `Effect` says the same of whole
databases. Two laws of accounts follow from it: the counter of an account is the number of its
activations, and a licence is revoked as long as nobody says otherwise.
-/

open ReadCommitted

namespace Reeva.Licensing

/-- The licence that a request names, if it names one. -/
def Request.target (rt : Runtime) : Request → Option Id
  | createLicense _ => none
  | updateLicense id _ | toggleLicense id | deleteLicense id => rt.parseUuid id
  | issueActivationToken licenseId _ | removeActivation licenseId _ => rt.parseUuid licenseId

/-- A licence as `createLicense` opens it. -/
structure Opened (rt : Runtime) (data : LicenseInput) (l : License) : Prop where
  status : l.status = ((truthy data.status).map (columnText rt)).getD "active"
  maxActivations : l.maxActivations = parseCount 1 data.maxActivations
  activationCount : l.activationCount = 0
  revokedAt : l.revokedAt = none
  deletedAt : l.deletedAt = none

/-- What a request makes of a licence `l` with the activations `acts`. -/
inductive Change (rt : Runtime) (l : License) (acts : List LicenseActivation) :
    Request → License → List LicenseActivation → Prop
  | updateLicense {id : String} {data : LicenseInput} {revokedAt : Option ℤ} {n : License}
    (hrevoked : isRevoked data.status = true → revokedAt.isSome = true)
    (hmerged : LicenseService.merged rt data revokedAt l = .ok n) :
    Change rt l acts (.updateLicense id data) n acts
  | toggleLicense {id : String} : Change rt l acts (.toggleLicense id)
    { l with status := if l.status = "active" then "inactive" else "active" } acts
  | deleteLicense {id : String} {now : ℤ} :
    Change rt l acts (.deleteLicense id) { l with deletedAt := some now } acts
  | issueActivationToken {id : String} {input : Input} {machineId : String} {a : Id}
    (hmachine : LicenseService.checkMachineId input = some machineId) (hactive : l.status = "active")
    (hnew : ∀ b ∈ acts, b.machineId ≠ machineId) (hlimit : (acts.length : ℤ) < l.maxActivations) :
    Change rt l acts (.issueActivationToken id input)
      { l with activationCount := acts.length + 1 } (acts ++ [⟨a, some l.id, machineId⟩])
  | removeActivation {id activationId : String} {a : LicenseActivation} (ha : a ∈ acts)
    (hid : rt.parseUuid activationId = some a.id) :
    Change rt l acts (.removeActivation id activationId)
      { l with activationCount := ((acts.filter (·.id ≠ a.id)).length : ℕ) }
      (acts.filter (·.id ≠ a.id))

/-- The account of `l` becomes that of `n` with `acts`, and the others stay as they are. -/
structure Moves (l n : License) (acts : List LicenseActivation) (d d' : Db) : Prop where
  licenses : d'.licenses = d.licenses.map fun r => if r.id = l.id then n else r
  account : d'.activationsOf l.id = acts
  others : d'.activations.filter (fun a => !(a.licenseId = some l.id : Bool)) =
    d.activations.filter fun a => !(a.licenseId = some l.id : Bool)

/-- What a request does to the database. -/
def Effect (rt : Runtime) (q : Request) (d d' : Db) : Prop :=
  match q with
  | .createLicense data => ∃ l, Opened rt data l ∧ d'.licenses = d.licenses ++ [l] ∧
      d'.activations = d.activations
  | q => ∃ l ∈ d.licenses, q.target rt = some l.id ∧ l.deletedAt = none ∧ ∃ n acts,
      Change rt l (d.activationsOf l.id) q n acts ∧ Moves l n acts d d'

section accounts

variable {rt : Runtime} {q : Request} {l n : License} {acts acts' : List LicenseActivation} {d d' : Db}
  {id : Id}

/-- A request is one that opens an account or one that changes one. -/
theorem Effect.cases (h : Effect rt q d d') :
    (∃ data l, q = .createLicense data ∧ Opened rt data l ∧ d'.licenses = d.licenses ++ [l] ∧
      d'.activations = d.activations) ∨
    ∃ l ∈ d.licenses, q.target rt = some l.id ∧ l.deletedAt = none ∧ ∃ n acts,
      Change rt l (d.activationsOf l.id) q n acts ∧ Moves l n acts d d' := by
  cases q with
  | createLicense data =>
    obtain ⟨l, ho, hl, ha⟩ := h
    exact .inl ⟨data, l, rfl, ho, hl, ha⟩
  | _ => exact .inr h

/-- A merge keeps what it does not assign. -/
theorem merged_eq {data : LicenseInput} {revokedAt : Option ℤ}
    (h : LicenseService.merged rt data revokedAt l = .ok n) :
    n.id = l.id ∧ n.activationCount = l.activationCount ∧
      n.revokedAt = (if isRevoked data.status then revokedAt else none) ∧
      required "status" (assigned rt (some l.status) data.status) = .ok n.status := by
  simp only [LicenseService.merged] at h
  cases h₁ : required "license_key" (assigned rt (some l.licenseKey) data.licenseKey) with
  | error e => simp [h₁, bind, Except.bind] at h
  | ok licenseKey =>
    cases h₂ : required "product_name" (assigned rt (some l.productName) data.productName) with
    | error e => simp [h₁, h₂, bind, Except.bind] at h
    | ok productName =>
      cases h₃ : required "status" (assigned rt (some l.status) data.status) with
      | error e => simp [h₁, h₂, h₃, bind, Except.bind] at h
      | ok status =>
        cases h₄ : parseExpiry rt data.expiresAt with
        | error e => simp [h₁, h₂, h₃, h₄, bind, Except.bind] at h
        | ok expiresAt =>
          simp only [h₁, h₂, h₃, h₄, bind, Except.bind, pure, Except.pure, Except.ok.injEq] at h
          subst h
          exact ⟨rfl, rfl, rfl, rfl⟩

/-- A licence keeps its identifier. -/
theorem Change.id_eq (h : Change rt l acts q n acts') : n.id = l.id := by
  cases h with
  | updateLicense _ hm => exact (merged_eq hm).1
  | _ => rfl

/-- The activations of other licences stay. -/
theorem Moves.activationsOf_ne (h : Moves l n acts d d') (hid : id ≠ l.id) :
    d'.activationsOf id = d.activationsOf id := by
  have part : ∀ t : Tables, t.activationsOf id =
      (t.activations.filter fun a => !(a.licenseId = some l.id : Bool)).filter
        (·.licenseId = some id) := fun t => by
    rw [Tables.activationsOf, List.filter_filter]
    refine List.filter_congr fun a _ => ?_
    by_cases ha : a.licenseId = some id <;> simp [ha, hid]
  rw [part, part, h.others]

/-- The licences of the new database. -/
theorem Moves.mem_licenses (h : Moves l n acts d d') {r : License} :
    r ∈ d'.licenses ↔ ∃ r₀ ∈ d.licenses, (if r₀.id = l.id then n else r₀) = r := by
  rw [h.licenses, List.mem_map]

/-- A licence is told by its identifier. -/
theorem Db.eq_of_id {l l' : License} (hl : l ∈ d.licenses) (hl' : l' ∈ d.licenses)
    (h : l.id = l'.id) : l = l' := List.inj_on_of_nodup_map d.valid.licenseIds hl hl' h

/-- No other licence has the identifier. -/
theorem Db.filter_id (hl : l ∈ d.licenses) : d.licenses.filter (·.id = l.id) = [l] := by
  have hnodup := d.valid.licenseIds
  obtain ⟨rows, rows', hd⟩ := List.append_of_mem hl
  rw [hd, List.map_append, List.map_cons, List.nodup_append, List.nodup_cons] at hnodup
  obtain ⟨-, ⟨hafter, -⟩, hbefore⟩ := hnodup
  rw [hd, List.filter_append, List.filter_cons_of_pos (by simp), List.filter_eq_nil_iff.mpr,
    List.filter_eq_nil_iff.mpr, List.nil_append]
  · rintro r hr hid
    exact hafter (List.mem_map.mpr ⟨r, hr, by simpa using hid⟩)
  · rintro r hr hid
    exact hbefore r.id (List.mem_map_of_mem hr) l.id (by simp) (by simpa using hid)

/-- A licence that was there, or the new one. -/
theorem mem_opened {r : License} (hl : d'.licenses = d.licenses ++ [l]) (hr : r ∈ d'.licenses) :
    r ∈ d.licenses ∨ r = l := by
  rw [hl, List.mem_append, List.mem_singleton] at hr
  exact hr

/-- A licence that was just opened has no activations. -/
theorem activationsOf_opened (hl : d'.licenses = d.licenses ++ [l])
    (ha : d'.activations = d.activations) : d'.activationsOf l.id = [] := by
  rw [Tables.activationsOf, List.filter_eq_nil_iff]
  intro a hm
  rw [ha] at hm
  intro hid
  have hmem := d.valid.owned a hm l.id (by simpa using hid)
  have hnodup := d'.valid.licenseIds
  rw [hl, List.map_append, List.nodup_append] at hnodup
  exact hnodup.2.2 l.id hmem l.id (by simp) rfl

end accounts

/-! ## The counter -/

/-- The counter of a licence is the number of its activations, which are on different machines. -/
def Accounted (id : Id) (d : Db) : Prop :=
  ∀ l ∈ d.licenses, l.id = id → l.activationCount = (d.activationsOf id).length ∧
    ((d.activationsOf id).map (·.machineId)).Nodup

section counter

variable {rt : Runtime} {q : Request} {l n : License} {acts acts' : List LicenseActivation} {d d' : Db}
  {id : Id}

/-- A change of an account keeps its counter. -/
theorem Change.accounted (h : Change rt l acts q n acts')
    (hl : l.activationCount = acts.length ∧ (acts.map (·.machineId)).Nodup) :
    n.activationCount = acts'.length ∧ (acts'.map (·.machineId)).Nodup := by
  cases h with
  | updateLicense _ hm => exact ⟨(merged_eq hm).2.1.trans hl.1, hl.2⟩
  | toggleLicense => exact hl
  | deleteLicense => exact hl
  | issueActivationToken _ _ hnew _ =>
    refine ⟨by simp, ?_⟩
    rw [List.map_append, List.nodup_append]
    refine ⟨hl.2, by simp, ?_⟩
    rintro m hm _ hm' rfl
    obtain ⟨b, hb, rfl⟩ := List.mem_map.mp hm
    exact hnew b hb (by simpa using hm')
  | removeActivation _ _ => exact ⟨rfl, hl.2.sublist (List.filter_sublist.map _)⟩

/-- Every request keeps the counters. -/
theorem Effect.accounted (h : Effect rt q d d') (hd : Accounted id d) : Accounted id d' := by
  rcases h.cases with ⟨data, l, rfl, ho, hl, ha⟩ | ⟨l, hmem, -, -, n, acts, hc, hm⟩
  · rintro r hr rfl
    rcases mem_opened hl hr with hr | rfl
    · have hof : d'.activationsOf r.id = d.activationsOf r.id := by
        rw [Tables.activationsOf, ha, Tables.activationsOf]
      rw [hof]
      exact hd r hr rfl
    · rw [activationsOf_opened hl ha, ho.activationCount]
      exact ⟨rfl, List.nodup_nil⟩
  · rintro r hr rfl
    obtain ⟨r₀, hr₀, heq⟩ := hm.mem_licenses.mp hr
    split at heq
    · subst heq
      rw [hc.id_eq, hm.account]
      rw [hc.id_eq] at hd
      exact hc.accounted (hd l hmem rfl)
    · rename_i hne
      subst heq
      rw [hm.activationsOf_ne hne]
      exact hd r₀ hr₀ rfl

/-- An activation leaves no more activations than the licence allows. -/
theorem Effect.limit {licenseId : String} {machineId : Input}
    (h : Effect rt (.issueActivationToken licenseId machineId) d d') :
    ∃ l ∈ d'.licenses, rt.parseUuid licenseId = some l.id ∧
      ((d'.activationsOf l.id).length : ℤ) ≤ l.maxActivations := by
  obtain ⟨l, hmem, ht, -, n, acts, hc, hm⟩ := h
  refine ⟨n, hm.mem_licenses.mpr ⟨l, hmem, by simp⟩, by rw [hc.id_eq]; exact ht, ?_⟩
  rw [hc.id_eq, hm.account]
  cases hc with
  | issueActivationToken _ _ _ hlimit =>
    simp only [List.length_append, List.length_singleton, Nat.cast_add, Nat.cast_one]
    omega

/-- Only activations of the licence that a request names may go. -/
theorem Effect.removed (h : Effect rt q d d') {a : LicenseActivation} (ha : a ∈ d.activations)
    (hgone : a ∉ d'.activations) : ∃ id, q.target rt = some id ∧ a.licenseId = some id := by
  rcases h.cases with ⟨data, l, rfl, -, -, hacts⟩ | ⟨l, -, ht, -, n, acts, -, hm⟩
  · rw [hacts] at hgone
    exact absurd ha hgone
  · refine ⟨l.id, ht, ?_⟩
    by_contra hid
    have hmem : a ∈ d.activations.filter fun a => !(a.licenseId = some l.id : Bool) :=
      List.mem_filter.mpr ⟨ha, by simpa using hid⟩
    rw [← hm.others] at hmem
    exact hgone (List.mem_filter.mp hmem).1

end counter

/-! ## Revocation -/

/-- A licence is marked as revoked when the time of its revocation is set, and only then. -/
def RevocationDated (id : Id) (d : Db) : Prop :=
  ∀ l ∈ d.licenses, l.id = id → (l.status = "revoked" ↔ l.revokedAt.isSome = true)

/-- A request that treats status and time of revocation together: it opens no licence as revoked, and
it neither toggles a revoked licence nor updates one without a status. -/
def TreatsTogether (rt : Runtime) (d : Db) : Request → Prop
  | .createLicense data => isRevoked data.status = false
  | .updateLicense id data => data.status = none →
      ∀ l ∈ d.licenses, rt.parseUuid id = some l.id → l.status ≠ "revoked"
  | .toggleLicense id => ∀ l ∈ d.licenses, rt.parseUuid id = some l.id → l.status ≠ "revoked"
  | _ => True

instance (rt : Runtime) (d : Db) (q : Request) : Decidable (TreatsTogether rt d q) := by
  cases q <;> unfold TreatsTogether <;> infer_instance

section revocation

variable {rt : Runtime} {q : Request} {l n : License} {acts acts' : List LicenseActivation} {d d' : Db}
  {id : Id}

/-- The status column takes the text `revoked` from that text only. -/
theorem columnText_revoked (hdriver : ∀ value, rt.driverText value ≠ "revoked") {value : Json} :
    columnText rt value = "revoked" ↔ isRevoked (some value) = true := by
  cases value with
  | str s => simp [columnText, isRevoked]
  | _ => simp [columnText, isRevoked, hdriver]

/-- The status after an assignment. -/
theorem assigned_revoked (hdriver : ∀ value, rt.driverText value ≠ "revoked") {status : Input}
    {loaded s : String} (h : required "status" (assigned rt (some loaded) status) = .ok s) :
    s = "revoked" ↔ isRevoked status = true ∨ status = none ∧ loaded = "revoked" := by
  cases status with
  | none =>
    obtain rfl := Except.ok.inj h
    simp [isRevoked]
  | some value =>
    cases value with
    | null => cases h
    | _ =>
      obtain rfl := Except.ok.inj h
      rw [columnText_revoked hdriver]
      simp

/-- The status that a licence is opened with. -/
theorem opened_revoked (hdriver : ∀ value, rt.driverText value ≠ "revoked") {data : LicenseInput}
    (h : Opened rt data l) : l.status = "revoked" ↔ isRevoked data.status = true := by
  rw [h.status]
  cases hs : truthy data.status with
  | none =>
    have hne : isRevoked data.status = false := by
      by_contra hr
      simp only [isRevoked, decide_eq_true_eq, Bool.not_eq_false] at hr
      rw [hr] at hs
      cases hs
    simp [hne]
  | some value =>
    obtain ⟨hv, -⟩ := Option.filter_eq_some_iff.mp hs
    rw [Option.map_some, Option.getD_some, columnText_revoked hdriver, hv]

/-- A change of an account keeps status and time of revocation together exactly when it treats them
together. -/
theorem Change.dated_iff (hdriver : ∀ value, rt.driverText value ≠ "revoked")
    (h : Change rt l acts q n acts') (ht : q.target rt = some l.id) (hl : l ∈ d.licenses)
    (hdated : l.status = "revoked" ↔ l.revokedAt.isSome = true) :
    (n.status = "revoked" ↔ n.revokedAt.isSome = true) ↔ TreatsTogether rt d q := by
  have named : ∀ {uid : String}, rt.parseUuid uid = some l.id →
      ((∀ r ∈ d.licenses, rt.parseUuid uid = some r.id → r.status ≠ "revoked") ↔
        l.status ≠ "revoked") := fun {uid} hu => by
    refine ⟨fun h => h l hl hu, fun h r hr hid => ?_⟩
    rw [hu] at hid
    rwa [← Db.eq_of_id hl hr (Option.some.inj hid)]
  cases h with
  | @updateLicense id data revokedAt n hrevoked hm =>
    obtain ⟨-, -, hat, hstatus⟩ := merged_eq hm
    rw [assigned_revoked hdriver hstatus, hat, TreatsTogether, named ht]
    cases hr : isRevoked data.status with
    | true =>
      have hsome : data.status ≠ none := by
        intro hnone
        rw [hnone] at hr
        cases hr
      simp [hrevoked hr, hsome]
    | false => simp
  | toggleLicense =>
    rw [TreatsTogether, named ht]
    by_cases hr : l.status = "revoked"
    · simp [hr, hdated.mp hr]
    · have hat : l.revokedAt.isSome = false := by
        simpa using mt hdated.mpr hr
      simp only [hat, hr, ne_eq, not_false_iff, iff_true]
      split <;> simp
  | _ => exact iff_of_true hdated trivial

/-- Every request that treats status and time of revocation together keeps them together. -/
theorem Effect.dated (hdriver : ∀ value, rt.driverText value ≠ "revoked") (h : Effect rt q d d')
    (ht : TreatsTogether rt d q) (hd : RevocationDated id d) : RevocationDated id d' := by
  rcases h.cases with ⟨data, l, rfl, ho, hl, ha⟩ | ⟨l, hmem, htarget, -, n, acts, hc, hm⟩
  · rintro r hr rfl
    rcases mem_opened hl hr with hr | rfl
    · exact hd r hr rfl
    · rw [opened_revoked hdriver ho, ho.revokedAt, show isRevoked data.status = false from ht]
      simp
  · rintro r hr rfl
    obtain ⟨r₀, hr₀, heq⟩ := hm.mem_licenses.mp hr
    split at heq
    · subst heq
      rw [hc.id_eq] at hd
      exact (hc.dated_iff hdriver htarget hmem (hd l hmem rfl)).mpr ht
    · subst heq
      exact hd r₀ hr₀ rfl

/-- A request that does not treat them together separates them. -/
theorem Effect.undated (hdriver : ∀ value, rt.driverText value ≠ "revoked") (h : Effect rt q d d')
    (ht : ¬TreatsTogether rt d q) (hd : ∀ id, RevocationDated id d) :
    ∃ id, ¬RevocationDated id d' := by
  rcases h.cases with ⟨data, l, rfl, ho, hl, ha⟩ | ⟨l, hmem, htarget, -, n, acts, hc, hm⟩
  · refine ⟨l.id, fun hdated => ?_⟩
    have hiff := hdated l (by simp [hl]) rfl
    rw [opened_revoked hdriver ho, ho.revokedAt] at hiff
    exact ht (by simpa [TreatsTogether] using hiff)
  · refine ⟨l.id, fun hdated => ht ?_⟩
    refine (hc.dated_iff hdriver htarget hmem (hd l.id l hmem rfl)).mp (hdated n ?_ hc.id_eq)
    exact hm.mem_licenses.mpr ⟨l, hmem, by simp⟩

/-- The licence is there, and marked as revoked. -/
def Revoked (id : Id) (d : Db) : Prop := ∃ l ∈ d.licenses, l.id = id ∧ l.status = "revoked"

/-- A licence stays revoked until it is toggled or updated. -/
theorem Effect.stays_revoked (h : Effect rt q d d') (ht : TreatsTogether rt d q)
    (hq : ∀ uid data, q = .updateLicense uid data → rt.parseUuid uid ≠ some id)
    (hr : Revoked id d) : Revoked id d' := by
  obtain ⟨l, hl, rfl, hstatus⟩ := hr
  rcases h.cases with ⟨data, r, rfl, -, hopen, -⟩ | ⟨r, hmem, htarget, -, n, acts, hc, hm⟩
  · exact ⟨l, by simp [hopen, hl], rfl, hstatus⟩
  · by_cases hid : l.id = r.id
    · obtain rfl := Db.eq_of_id hl hmem hid
      refine ⟨n, hm.mem_licenses.mpr ⟨l, hl, by simp⟩, hc.id_eq, ?_⟩
      cases hc with
      | updateLicense _ _ => exact absurd htarget (hq _ _ rfl)
      | toggleLicense => exact absurd hstatus (ht l hl htarget)
      | _ => exact hstatus
    · exact ⟨l, hm.mem_licenses.mpr ⟨l, hl, by simp [hid]⟩, rfl, hstatus⟩

/-- An update with the status `revoked` revokes. -/
theorem Effect.revokes {uid : String} {data : LicenseInput}
    (hdriver : ∀ value, rt.driverText value ≠ "revoked")
    (h : Effect rt (.updateLicense uid data) d d') (hdata : isRevoked data.status = true)
    (hid : rt.parseUuid uid = some id) : Revoked id d' := by
  obtain ⟨l, hmem, htarget, -, n, acts, hc, hm⟩ := h
  obtain rfl : id = l.id := Option.some.inj (hid.symm.trans htarget)
  refine ⟨n, hm.mem_licenses.mpr ⟨l, hmem, by simp⟩, hc.id_eq, ?_⟩
  cases hc with
  | updateLicense _ hmerged =>
    exact (assigned_revoked hdriver (merged_eq hmerged).2.2.2).mpr (.inl hdata)

/-- Nothing is activated for a revoked licence. -/
theorem Effect.not_issued {licenseId : String} {machineId : Input}
    (h : Effect rt (.issueActivationToken licenseId machineId) d d')
    (hid : rt.parseUuid licenseId = some id) : ¬Revoked id d := by
  rintro ⟨l', hl', rfl, hstatus⟩
  obtain ⟨l, hmem, htarget, -, n, acts, hc, -⟩ := h
  obtain rfl := Db.eq_of_id hl' hmem (Option.some.inj (hid.symm.trans htarget))
  cases hc with
  | issueActivationToken _ hactive _ _ =>
    rw [hstatus] at hactive
    exact absurd hactive (by decide)

end revocation

end Reeva.Licensing
