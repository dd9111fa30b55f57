import Mathlib.Data.List.Forall2
import Reeva.Legacy.DataImport

/-!
# What a run of the import does

`import_run` says what is committed after every run of `importLegacyData`: what was there before when
it throws or only tries, and otherwise, table by table, one row for each row of the document.
-/

namespace Reeva.Legacy

open Sessions

variable (pg : Postgres) (options : Options)

/-- A stored row comes from a row of the document: what the row was converted to was inserted. -/
def ImportedRow (table : String) (given : Json) (stored : Row) : Prop :=
  ∃ iv converted tables, convertRow options iv table (pg.columns table) given = .ok converted ∧
    (converted.map Prod.fst).Nodup ∧ pg.newRow tables table converted = some stored

/-- The tables in the course of an import of `data`, when those in `done` are imported. -/
structure Underway (before : Tables) (data : List (String × Json)) (done : List String)
    (now : Tables) : Prop where
  rows : ∀ table ∈ done,
    List.Forall₂ (ImportedRow pg options table) (rowsOf data table) (now table)
  rest : ∀ table ∈ importTables, table ∉ done → now table = []
  others : ∀ table, table ∉ importTables → table ≠ "software_signing_keys" →
    now table = before table

variable {pg options} {c : Tables}

/-- Inside the transaction of an import. -/
abbrev Open (c : Tables) : Session Tables → Prop := Within c fun _ => True

/-- Nothing is known when a statement fails. -/
theorem Open.of_within {φ : Tables → Prop} {s : Session Tables} (h : Within c φ s) : Open c s :=
  h.imp fun _ _ => trivial

/-- A check that is passed. -/
theorem triple_throwIf {φ : Tables → Prop} {p : Prop} [Decidable p] {message : String} :
    Triple (Within c φ) (liftM (throwIf p message) : Client Unit)
      (fun _ => Within c fun d => φ d ∧ ¬p) (Open c) := by
  refine .lift (fun _ hok s hs => hs.imp fun d hd => ⟨hd, fun hp => ?_⟩) fun _ => .of_within
  rw [throwIf, if_pos hp] at hok
  cases hok

/-- The target's tables other than that of the products are empty. -/
theorem triple_checkEmpty {φ : Tables → Prop} (table : String) :
    Triple (Within c φ) (checkEmpty pg table)
      (fun _ => Within c fun d => φ d ∧ (table ≠ "software" → d table = [])) (Open c) := by
  unfold checkEmpty
  refine (spec_select _).bind fun count => ?_
  split
  · rename_i htable
    split
    · refine (spec_select _).bind fun found => triple_throwIf.weaken (fun _ h => h) ?_ fun _ h => h
      exact fun _ s hs => hs.imp fun d hd => ⟨hd.1.1.1, fun hne => absurd htable hne⟩
    · refine triple_throwIf.weaken (fun _ h => h) ?_ fun _ h => h
      exact fun _ s hs => hs.imp fun d hd => ⟨hd.1.1, fun hne => absurd htable hne⟩
  · refine triple_throwIf.weaken (fun _ h => h) ?_ fun _ h => h
    intro _ s hs
    refine hs.imp fun d hd => ⟨hd.1.1, fun _ => ?_⟩
    have hcount : (d table).length = 0 := hd.1.2 ▸ not_not.mp hd.2
    exact List.eq_nil_of_length_eq_zero hcount

/-- An `INSERT` adds the row to its table. -/
theorem afterInsert_eq {table : String} {row : List (String × Json)} {tables after : Tables}
    (h : pg.afterInsert table row tables = some after) :
    (row.map Prod.fst).Nodup ∧ ∃ new, pg.newRow tables table row = some new ∧
      after = Function.update tables table (tables table ++ [new]) := by
  unfold Postgres.afterInsert at h
  split at h
  · rename_i hnames
    obtain ⟨new, hnew, h⟩ := Option.bind_eq_some_iff.mp h
    split at h
    · exact ⟨hnames.1, new, hnew, (Option.some.inj h).symm⟩
    · cases h
  · cases h

/-- The rows of one table, those in `done` being inserted. -/
def Inserted (pg : Postgres) (options : Options) (table : String) (φ : Tables → Prop)
    (done : List Json) (now : Tables) : Prop :=
  ∃ before, φ before ∧ ∃ rows, List.Forall₂ (ImportedRow pg options table) done rows ∧
    now = Function.update before table (before table ++ rows)

/-- The iteration for one row. -/
theorem triple_importRow {φ : Tables → Prop} (table : String) (done : List Json) (row : Json) :
    Triple (Within c (Inserted pg options table φ done))
      (importRow pg options table (pg.columns table) row)
      (fun _ => Within c (Inserted pg options table φ (done ++ [row]))) (Open c) := by
  unfold importRow
  refine Triple.bind (Q := fun _ => Within c (Inserted pg options table φ done))
    (.get fun s hs => hs) fun s => ?_
  refine Triple.bind (Q := fun converted => Within c fun d =>
    Inserted pg options table φ done d ∧
      convertRow options s.sent table (pg.columns table) row = .ok converted)
    (.lift (fun converted hok s' hs => hs.imp fun d hd => ⟨hd, hok⟩) fun _ => .of_within)
    fun converted => spec_update ?_
  rintro d d' ⟨⟨before, hφ, rows, hrows, rfl⟩, hconverted⟩ hd'
  obtain ⟨hnames, new, hnew, rfl⟩ := afterInsert_eq hd'
  refine ⟨before, hφ, rows ++ [new], List.rel_append hrows (.cons ?_ .nil), ?_⟩
  · exact ⟨s.sent, converted, _, hconverted, hnames, hnew⟩
  · rw [Function.update_self, Function.update_idem, List.append_assoc]

/-- The iteration for one table. -/
theorem triple_importTable {before : Tables} {data : List (String × Json)} {done : List String}
    {table : String} (htable : table ∈ importTables) (hdone : table ∉ done) :
    Triple (Within c (Underway pg options before data done)) (importTable pg options data table)
      (fun _ => Within c (Underway pg options before data (done ++ [table]))) (Open c) := by
  unfold importTable
  refine (spec_select _).bind fun columns => ?_
  by_cases hcolumns : columns = pg.columns table
  · subst hcolumns
    refine Triple.bind (Q := fun _ => Within c (Inserted pg options table
      (Underway pg options before data done) (rowsOf data table))) ?_ fun _ => ?_
    · refine (Triple.forM (I := fun xs => Within c (Inserted pg options table
        (Underway pg options before data done) xs)) ?_).weaken ?_ (fun _ _ h => h) fun _ h => h
      · exact fun xs row rest _ => triple_importRow table xs row
      · refine fun s hs => hs.imp fun d hd => ⟨d, hd.1, [], .nil, ?_⟩
        rw [List.append_nil, Function.update_eq_self]
    · refine .pure _ fun s hs => hs.imp ?_
      rintro d ⟨start, hstart, rows, hrows, rfl⟩
      rw [hstart.rest table htable hdone, List.nil_append]
      refine ⟨fun other hother => ?_, fun other hother hne => ?_, fun other hother hne => ?_⟩
      · rcases List.mem_append.mp hother with hold | hnew
        · have hnot : other ≠ table := by
            rintro rfl
            exact hdone hold
          rw [Function.update_of_ne hnot]
          exact hstart.rows other hold
        · rw [List.mem_singleton.mp hnew, Function.update_self]
          exact hrows
      · have hnot : other ≠ table := fun heq => hne (by simp [heq])
        rw [Function.update_of_ne hnot]
        exact hstart.rest other hother fun hold => hne (by simp [hold])
      · have hnot : other ≠ table := by
          rintro rfl
          exact hother htable
        rw [Function.update_of_ne hnot]
        exact hstart.others other hother hne
  · intro s hs
    exact absurd hs.2.choose_spec.2.2 hcolumns

/-- Every importable table has to be empty. -/
theorem importTables_subset : importTables ⊆ emptyTables := List.subset_append_left _ _

/-- No table is imported twice. -/
theorem importTables_nodup : importTables.Nodup := by decide

variable (pg options) in
/-- The tables after an import of `data`. -/
structure Imported (before : Tables) (data : List (String × Json)) (after : Tables) : Prop where
  empty : ∀ table ∈ emptyTables, table ≠ "software" → before table = []
  rows : ∀ table ∈ importTables,
    List.Forall₂ (ImportedRow pg options table) (rowsOf data table) (after table)
  others : ∀ table, table ∉ importTables → table ≠ "software_signing_keys" →
    after table = before table
  active : ((after "software").filter isActiveDefault).length = 1

/-- The checks of the target. -/
theorem triple_checkTarget :
    Triple (Within c (· = c)) (emptyTables.forM (checkEmpty pg))
      (fun _ => Within c fun d => d = c ∧ ∀ table ∈ emptyTables, table ≠ "software" → c table = [])
      (Open c) := by
  refine (Triple.forM (I := fun done => Within c fun d => d = c ∧
    ∀ table ∈ done, table ≠ "software" → c table = []) ?_).weaken ?_ (fun _ _ h => h) fun _ h => h
  · intro done table rest _
    refine (triple_checkEmpty table).weaken (fun _ h => h) ?_ fun _ h => h
    intro _ s hs
    refine hs.imp fun d hd => ⟨hd.1.1, fun other hother hne => ?_⟩
    rcases List.mem_append.mp hother with hold | hnew
    · exact hd.1.2 other hold hne
    · obtain rfl := List.mem_singleton.mp hnew
      have hempty := hd.2 hne
      rwa [hd.1.1] at hempty
  · intro s hs
    exact hs.imp fun d hd => ⟨hd, by simp⟩

/-- The deletion of the products leaves every importable table empty. -/
theorem triple_deleteSoftware {data : List (String × Json)}
    (hempty : ∀ table ∈ emptyTables, table ≠ "software" → c table = []) :
    Triple (Within c (· = c)) (pg.deleteSoftware)
      (fun _ => Within c (Underway pg options c data [])) (Open c) := by
  refine spec_update ?_
  rintro d d' rfl hd'
  unfold Postgres.afterDelete at hd'
  split at hd'
  · obtain rfl := Option.some.inj hd'
    constructor
    · simp
    · intro table htable _
      by_cases hsoftware : table = "software"
      · rw [if_pos (.inl hsoftware)]
      · split
        · rfl
        · exact hempty table (importTables_subset htable) hsoftware
    · intro table htable hne
      have hsoftware : table ≠ "software" := by
        rintro rfl
        exact htable (by decide)
      rw [if_neg (by simp [hsoftware, hne])]
  · cases hd'

/-- The loop over the tables. -/
theorem triple_importTables {data : List (String × Json)} :
    Triple (Within c (Underway pg options c data []))
      (importTables.mapM (importTable pg options data))
      (fun _ => Within c (Underway pg options c data importTables)) (Open c) := by
  refine Triple.mapM (I := fun done _ => Within c (Underway pg options c data done)) ?_
  intro done table rest _ hsplit
  refine triple_importTable (by simp [hsplit]) fun hdone => ?_
  have hnodup := importTables_nodup
  rw [hsplit] at hnodup
  exact (List.nodup_append.mp hnodup).2.2 table hdone table (by simp) rfl

/-- The body of the `try` block. -/
theorem triple_importBody {softwareId : String} {tables : List (String × Json)} :
    Triple (Within c (· = c)) (importBody pg options softwareId tables)
      (fun report s => s.transaction = none ∧ report.dryRun = options.dryRun ∧
        if options.dryRun then s.committed = c
        else ∃ data, withSoftware softwareId tables = .ok data ∧
          Imported pg options c data s.committed) (fun s => s.committed = c) := by
  have keeps : ∀ s, Open c s → s.committed = c := fun s hs => hs.1
  unfold importBody
  refine Triple.bind (Q := fun _ => Within c (· = c)) ?_ fun _ => ?_
  · unfold Postgres.lock
    exact (spec_select _).weaken (fun _ h => h) (fun _ s hs => hs.imp fun d hd => hd.1) keeps
  -- The target is empty, or the import has thrown.
  refine (triple_checkTarget.weaken (fun _ h => h) (fun _ _ h => h) keeps).bind fun _ =>
    .given fun hempty => ?_
  refine Triple.bind (Q := fun data => Within c fun d => d = c ∧
    withSoftware softwareId tables = .ok data) ?_ fun data => .given fun hdata => ?_
  · exact .lift (fun data hok s hs => hs.imp fun d hd => ⟨hd, hok⟩) fun _ hs => hs.1
  -- The default product of the migrations goes, and the tables are imported one by one.
  refine Triple.bind (Q := fun _ => Within c (Underway pg options c data []))
    ((triple_deleteSoftware hempty).weaken (fun _ h => h) (fun _ _ h => h) keeps) fun _ => ?_
  refine (triple_importTables.weaken (fun _ h => h) (fun _ _ h => h) keeps).bind fun counts => ?_
  refine ((spec_select _).weaken (fun _ h => h) (fun _ _ h => h) keeps).bind fun active => ?_
  refine (triple_throwIf.weaken (fun _ h => h) (fun _ _ h => h) keeps).bind fun _ => ?_
  -- After the last table what was imported is complete; the counts are only read.
  have himported : ∀ d, ((Underway pg options c data importTables d ∧
      active = ((d "software").filter isActiveDefault).length) ∧ ¬active ≠ 1) →
        Imported pg options c data d := fun d hd =>
    ⟨hempty, hd.1.1.rows, hd.1.1.others, by rw [← hd.1.2]; exact not_not.mp hd.2⟩
  refine Triple.bind (Q := fun _ => Within c (Imported pg options c data)) ?_ fun _ => ?_
  · refine (Triple.forM (I := fun _ => Within c (Imported pg options c data)) ?_).weaken
      (fun s hs => hs.imp himported) (fun _ _ h => h) keeps
    intro done count rest _
    unfold checkCount
    refine (spec_select _).bind fun stored => triple_throwIf.weaken (fun _ h => h) ?_ fun _ h => h
    exact fun _ s hs => hs.imp fun d hd => hd.1.1
  -- A dry run rolls all of it back.
  refine Triple.bind (Q := fun _ s => s.transaction = none ∧
    if options.dryRun then s.committed = c else Imported pg options c data s.committed) ?_
    fun _ => .pure _ fun s hs => ⟨hs.1, rfl, ?_⟩
  · split
    · refine spec_rollback.weaken (fun s hs => hs.1) ?_ fun _ h => h
      exact fun _ s hs => ⟨hs.2, hs.1⟩
    · refine spec_commit.weaken (fun _ h => h) ?_ keeps
      exact fun _ s hs => ⟨hs.2, hs.1⟩
  · have h := hs.2
    split at h <;> rename_i hdry
    · rwa [if_pos hdry]
    · rw [if_neg hdry]
      exact ⟨data, hdata, h⟩

/-- What is committed after a run of the import. -/
theorem import_run {softwareId : String} {document : Json} {s : Session Tables}
    (hs : s.transaction = none) :
    (∀ e s', (importLegacyData pg options softwareId document).exec s = (.error e, s') →
      s'.committed = s.committed) ∧
    ∀ report s', (importLegacyData pg options softwareId document).exec s = (.ok report, s') →
      s'.transaction = none ∧ report.dryRun = options.dryRun ∧
      if options.dryRun then s'.committed = s.committed
      else ∃ tables data, checkDocument document = .ok tables ∧
        withSoftware softwareId tables = .ok data ∧
          Imported pg options s.committed data s'.committed := by
  have h : Triple (Outside s.committed) (importLegacyData pg options softwareId document)
      (fun report s' => s'.transaction = none ∧ report.dryRun = options.dryRun ∧
        if options.dryRun then s'.committed = s.committed
        else ∃ tables data, checkDocument document = .ok tables ∧
          withSoftware softwareId tables = .ok data ∧
            Imported pg options s.committed data s'.committed)
      (fun s' => s'.committed = s.committed) := by
    unfold importLegacyData
    refine Triple.bind (Q := fun tables s' => Outside s.committed s' ∧
      checkDocument document = .ok tables) ?_ fun tables => ?_
    · exact .lift (fun tables hok s' hs' => ⟨hs', hok⟩) fun s' hs' => hs'.1
    intro s₁ hs₁
    obtain ⟨hs₁, hdocument⟩ := hs₁
    revert s₁
    refine Triple.bind (spec_begin.weaken (fun _ h => h) (fun _ _ h => h) fun _ h => h.1)
      fun _ => ?_
    refine Triple.tryCatch (S := fun s' => s'.committed = s.committed)
      (triple_importBody.weaken (fun _ h => h) ?_ fun _ h => h) fun e => ?_
    · rintro report s' ⟨htransaction, hdry, hcommitted⟩
      refine ⟨htransaction, hdry, ?_⟩
      split at hcommitted <;> rename_i hdry'
      · rwa [if_pos hdry']
      · rw [if_neg hdry']
        exact ⟨tables, hcommitted.choose, hdocument, hcommitted.choose_spec⟩
    · exact (spec_rollback.weaken (fun _ h => h) (fun _ _ h => h.1) fun _ h => h).bind
        fun _ => .throw e fun _ h => h
  obtain ⟨hok, herror⟩ := h s ⟨rfl, hs⟩
  exact ⟨herror, hok⟩

/-! ## The rows to import -/

/-- A sequence of two computations returns when both do. -/
theorem bind_eq_ok {ε α β : Type} {x : Except ε α} {f : α → Except ε β} {b : β} :
    x >>= f = .ok b ↔ ∃ a, x = .ok a ∧ f a = .ok b := by
  cases x <;> simp [bind, Except.bind]

/-- A function is applied to what is returned. -/
theorem map_eq_ok {ε α β : Type} {x : Except ε α} {f : α → β} {b : β} :
    x.map f = .ok b ↔ ∃ a, x = .ok a ∧ f a = b := by
  cases x <;> simp [Except.map]

/-- A check is passed when its condition fails. -/
theorem throwIf_eq_ok {p : Prop} [Decidable p] {message : String} {u : Unit} :
    throwIf p message = .ok u ↔ ¬p := by
  unfold throwIf
  split <;> simp_all

/-- A property that is set does not change the others. -/
theorem get?_setField {fields : List (String × Json)} {k column : String} (value : Json)
    (h : k ≠ column) : (Json.obj (setField fields column value)).get? k = (Json.obj fields).get? k := by
  have hne : (k == column) = false := by simpa using h
  have hlookup : ∀ fields : List (String × Json),
      (fields.map fun f => if f.1 = column then (column, value) else f).lookup k =
        fields.lookup k := by
    intro fields
    induction fields with
    | nil => rfl
    | cons f fields ih =>
      rw [List.map_cons]
      split
      · rename_i hf
        rw [List.lookup_cons, hne, List.lookup_cons, hf, hne, ih]
      · rw [List.lookup_cons, List.lookup_cons, ih]
  show (setField fields column value).reverse.lookup k = fields.reverse.lookup k
  unfold setField
  split
  · rw [← List.map_reverse, hlookup]
  · rw [List.reverse_append, List.reverse_singleton, List.singleton_append, List.lookup_cons, hne]

/-- The property that is set. -/
theorem get?_setField_self {fields : List (String × Json)} {column : String} (value : Json) :
    (Json.obj (setField fields column value)).get? column = some value := by
  have hlookup : ∀ fields : List (String × Json), column ∈ fields.map Prod.fst →
      (fields.map fun f => if f.1 = column then (column, value) else f).lookup column =
        some value := by
    intro fields hmem
    induction fields with
    | nil => cases hmem
    | cons f fields ih =>
      rw [List.map_cons]
      split
      · exact List.lookup_cons_self
      · rename_i hf
        have hne : (column == f.1) = false := by simpa using Ne.symm hf
        rw [List.lookup_cons, hne]
        refine ih ?_
        rw [List.map_cons] at hmem
        exact (List.mem_cons.mp hmem).resolve_left (Ne.symm hf)
  show (setField fields column value).reverse.lookup column = some value
  unfold setField
  split
  · rename_i hcontains
    rw [← List.map_reverse]
    refine hlookup _ ?_
    simpa using hcontains
  · rw [List.reverse_append, List.reverse_singleton, List.singleton_append, List.lookup_cons_self]

/-- The rows of a table that is not set. -/
theorem rowsOf_setField {data : List (String × Json)} {table column : String} (value : Json)
    (h : table ≠ column) : rowsOf (setField data column value) table = rowsOf data table := by
  unfold rowsOf
  rw [get?_setField value h]

/-- The rows of a table that is set. -/
theorem rowsOf_setField_self {data : List (String × Json)} {table : String} (rows : List Json) :
    rowsOf (setField data table (.arr rows)) table = rows := by
  unfold rowsOf
  rw [get?_setField_self]

/-- Only the products and the versions are rewritten. -/
theorem rowsOf_withSoftware {softwareId table : String} {tables data : List (String × Json)}
    (h : withSoftware softwareId tables = .ok data) (hsoftware : table ≠ "software")
    (hversions : table ≠ "versions") : rowsOf data table = rowsOf tables table := by
  unfold withSoftware at h
  split at h
  · obtain ⟨setting, -, h⟩ := bind_eq_ok.mp h
    obtain ⟨versions, -, h⟩ := bind_eq_ok.mp h
    obtain rfl := Except.ok.inj h
    by_cases hnone : versions = []
    · rw [if_pos hnone, rowsOf_setField _ hsoftware]
    · rw [if_neg hnone, rowsOf_setField _ hversions, rowsOf_setField _ hsoftware]
  · cases h
    rfl

/-! ## One row -/

/-- What a loop over a list returns, element by element. -/
theorem mapM_except {α β : Type} {f : α → Except String β} {xs : List α} {ys : List β}
    (h : xs.mapM f = .ok ys) : List.Forall₂ (fun x y => f x = .ok y) xs ys := by
  induction xs generalizing ys with
  | nil =>
    cases h
    exact .nil
  | cons x xs ih =>
    rw [List.mapM_cons] at h
    obtain ⟨y, hy, h⟩ := bind_eq_ok.mp h
    obtain ⟨zs, hzs, h⟩ := bind_eq_ok.mp h
    cases h
    exact .cons hy (ih hzs)

/-- Related lists relate each element of the first to one of the second. -/
theorem forall₂_mem {α β : Type} {R : α → β → Prop} {xs : List α} {ys : List β} {x : α}
    (h : List.Forall₂ R xs ys) (hx : x ∈ xs) : ∃ y ∈ ys, R x y := by
  induction h with
  | nil => cases hx
  | cons hr _ ih =>
    rcases List.mem_cons.mp hx with rfl | hx
    · exact ⟨_, by simp, hr⟩
    · obtain ⟨y, hy, hr⟩ := ih hx
      exact ⟨y, by simp [hy], hr⟩

/-- Related lists are related position by position. -/
theorem forall₂_getElem? {α β : Type} {R : α → β → Prop} {xs : List α} {ys : List β}
    (h : List.Forall₂ R xs ys) {k : ℕ} {x : α} {y : β} (hx : xs[k]? = some x)
    (hy : ys[k]? = some y) : R x y := by
  induction h generalizing k with
  | nil => cases hx
  | cons hr _ ih =>
    cases k with
    | zero =>
      cases hx
      cases hy
      exact hr
    | succ k => exact ih hx hy

/-- The value of a column in the row that an `INSERT` puts into a table. -/
theorem newRow_lookup {table column type : String} {tables : Tables} {row : List (String × Json)}
    {new : Row} {value : Json} (h : pg.newRow tables table row = some new)
    (hcolumn : (pg.columns table).lookup column = some type)
    (hvalue : row.lookup column = some value) :
    ∃ v, pg.input type (prepareValue value) = some v ∧ new.lookup column = some v := by
  unfold Postgres.newRow at h
  generalize pg.columns table = columns at h hcolumn
  induction columns generalizing new with
  | nil => cases hcolumn
  | cons entry columns ih =>
    obtain ⟨name, ty⟩ := entry
    rw [List.mapM_cons] at h
    obtain ⟨f, hf, h⟩ := Option.bind_eq_some_iff.mp h
    obtain ⟨new', hnew', h⟩ := Option.bind_eq_some_iff.mp h
    cases h
    by_cases hname : column = name
    · subst hname
      rw [List.lookup_cons_self] at hcolumn
      obtain rfl := Option.some.inj hcolumn
      simp only [hvalue] at hf
      obtain ⟨v, hv, rfl⟩ := Option.map_eq_some_iff.mp hf
      exact ⟨v, hv, List.lookup_cons_self⟩
    · have hbeq : (column == name) = false := by simpa using hname
      rw [List.lookup_cons, hbeq] at hcolumn
      obtain ⟨v, hv, hlookup⟩ := ih hnew' hcolumn
      refine ⟨v, hv, ?_⟩
      have hfst : f.1 = name := by
        dsimp only at hf
        split at hf
        · obtain ⟨w, -, rfl⟩ := Option.map_eq_some_iff.mp hf
          rfl
        · exact congrArg Prod.fst (Option.some.inj hf).symm
      rw [List.lookup_cons, hfst, hbeq]
      exact hlookup

/-- In a list with distinct keys a member is found under its key. -/
theorem lookup_of_mem {β : Type} {fields : List (String × β)} {column : String} {value : β}
    (hnodup : (fields.map Prod.fst).Nodup) (h : (column, value) ∈ fields) :
    fields.lookup column = some value := by
  induction fields with
  | nil => cases h
  | cons f fields ih =>
    rw [List.map_cons, List.nodup_cons] at hnodup
    rcases List.mem_cons.mp h with rfl | h
    · exact List.lookup_cons_self
    · have hbeq : (column == f.1) = false := by
        refine beq_false_of_ne ?_
        rintro rfl
        exact hnodup.1 (List.mem_map.mpr ⟨_, h, rfl⟩)
      rw [List.lookup_cons, hbeq]
      exact ih hnodup.2 h

/-- What an imported row holds in a column that the document's row gives. -/
theorem ImportedRow.column {table column : String} {fields : List (String × Json)} {value : Json}
    {stored : Row} (h : ImportedRow pg options table (.obj fields) stored)
    (hfield : (column, value) ∈ prepareRow table fields) :
    ∃ iv type converted v, (pg.columns table).lookup column = some type ∧
      convert options iv table column type value = .ok converted ∧
        pg.input type (prepareValue converted) = some v ∧ stored.lookup column = some v := by
  obtain ⟨iv, row, tables, hrow, hnodup, hnew⟩ := h
  unfold convertRow at hrow
  obtain ⟨converted, hfields, hrow⟩ := bind_eq_ok.mp hrow
  obtain ⟨-, -, hrow⟩ := bind_eq_ok.mp hrow
  cases hrow
  obtain ⟨f, hf, hconvert⟩ := forall₂_mem (mapM_except hfields) hfield
  unfold convertField at hconvert
  dsimp only at hconvert
  split at hconvert
  · rename_i type htype
    obtain ⟨v, hv, rfl⟩ := map_eq_ok.mp hconvert
    obtain ⟨w, hw, hlookup⟩ := newRow_lookup hnew htype (lookup_of_mem hnodup hf)
    exact ⟨iv, type, v, w, htype, hv, hw, hlookup⟩
  · cases hconvert

end Reeva.Legacy
