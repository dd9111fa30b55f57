import Reeva.Legacy.EncryptedOnce

/-!
# What the import makes of a document

`import_run` says that the rows are imported one for one; here is what each of them holds
(`import_faithful`). A column holds the value that the export means. There are two exceptions, in
columns of JSON: a JSON text of a string is read as JSON once more, and the empty array, which the
driver sends as the literal of a PostgreSQL array, becomes the empty object. No other array gets in.
-/

namespace Reeva.Legacy

variable {pg : Postgres} {options : Options}

/-! ## Array literals -/

/-- The characters of an element of an array literal between its quotation marks. -/
def escaped (cs : List Char) : List Char :=
  cs.flatMap fun c => if c = '\\' ∨ c = '"' then ['\\', c] else [c]

/-- An element in quotation marks is read as a JSON string, if at all, up to its closing mark. -/
theorem parseUnits_escaped (cs rest : List Char) :
    Json.parseUnits (escaped cs ++ '"' :: rest) = none ∨
      ∃ us, Json.parseUnits (escaped cs ++ '"' :: rest) = some (us, rest) := by
  induction cs with
  | nil => exact .inr ⟨[], by simp [escaped, Json.parseUnits]⟩
  | cons c cs ih =>
    have hcons : escaped (c :: cs) ++ '"' :: rest =
        (if c = '\\' ∨ c = '"' then ['\\', c] else [c]) ++ (escaped cs ++ '"' :: rest) := by
      rw [escaped, List.flatMap_cons, List.append_assoc]
      rfl
    rw [hcons]
    -- What is escaped is a short escape of JSON as well; any other character is read as it is, or
    -- refused as a control character.
    split
    · rename_i hc
      have hshort : (c, c) ∈ Json.shortEscapes := by
        rcases hc with rfl | rfl <;> simp [Json.shortEscapes]
      rw [List.cons_append, List.cons_append, List.nil_append, Json.parseUnits_short hshort]
      rcases ih with h | ⟨us, h⟩
      · exact .inl (by rw [h]; rfl)
      · exact .inr ⟨_, by rw [h]; rfl⟩
    · rename_i hc
      obtain ⟨hb, hq⟩ := not_or.mp hc
      rw [List.cons_append, List.nil_append, Json.parseUnits.eq_def]
      split
      · simp_all
      · rename_i he
        exact absurd (List.cons.inj he).1 hq
      · rename_i he
        exact absurd (List.cons.inj he).1 hb
      · rename_i he
        exact absurd (List.cons.inj he).1 hb
      · rename_i he
        obtain ⟨rfl, rfl⟩ := List.cons.inj he
        split
        · exact .inl rfl
        · rcases ih with h | ⟨us, h⟩
          · exact .inl (by rw [h]; rfl)
          · exact .inr ⟨_, by rw [h]; rfl⟩

/-- An element is `NULL`, an array literal, or stands in quotation marks. -/
theorem elementString_cases (x : Json) :
    (elementString x).toList = 'N' :: "ULL".toList ∨
      (∃ t, (elementString x).toList = '\x7b' :: t) ∨
      ∃ cs, (elementString x).toList = '"' :: (escaped cs ++ ['"']) := by
  have hquoted : ∀ s, (escapeElement s).toList = '"' :: (escaped s.toList ++ ['"']) := by
    intro s
    rw [escapeElement, String.toList_ofList]
    rfl
  cases x with
  | null => exact .inl rfl
  | arr xs =>
    refine .inr (.inl ⟨(elementStrings xs).toList ++ "\x7d".toList, ?_⟩)
    rw [elementString, String.toList_append, String.toList_append]
    rfl
  | bool b => exact .inr (.inr ⟨_, hquoted _⟩)
  | int n => exact .inr (.inr ⟨_, hquoted _⟩)
  | float m e => exact .inr (.inr ⟨_, hquoted _⟩)
  | str s => exact .inr (.inr ⟨_, hquoted _⟩)
  | obj fields => exact .inr (.inr ⟨_, hquoted _⟩)

/-- The members of a JSON object do not start with an element of an array literal. -/
theorem parseFields_element (x : Json) {c : Char} (hc : c = ',' ∨ c = '\x7d') (rest : List Char)
    (n : ℕ) : Json.parseFields n ((elementString x).toList ++ c :: rest) = none := by
  cases n with
  | zero => rfl
  | succ n =>
    rcases elementString_cases x with h | ⟨t, h⟩ | ⟨cs, h⟩
    · rw [h]
      rfl
    · rw [h, List.cons_append, Json.parseFields, Json.skipSpace_cons _ (by decide)]
      rfl
    · rw [h, List.cons_append, List.append_assoc, List.singleton_append, Json.parseFields,
        Json.skipSpace_cons _ (by decide)]
      rcases parseUnits_escaped cs (c :: rest) with h | ⟨us, h⟩
      · simp [Json.parseStr, h]
      · -- Behind the closing mark there is no colon.
        have hspace : Json.skipSpace (c :: rest) = c :: rest := by
          refine Json.skipSpace_cons _ ?_
          rcases hc with rfl | rfl <;> decide
        cases ha : Json.assemble us with
        | none => simp [Json.parseStr, h, ha]
        | some chars => rcases hc with rfl | rfl <;> simp [Json.parseStr, h, ha, hspace]

/-- The literal of an array with elements is no JSON text. -/
theorem parse_elementString_cons (x : Json) (xs : List Json) :
    Json.parse (elementString (.arr (x :: xs))) = none := by
  -- The literal opens like a JSON object; behind its first element stands a comma or the end.
  have hlist : ∃ c rest, (c = ',' ∨ c = '\x7d') ∧ (elementString (.arr (x :: xs))).toList =
      '\x7b' :: ((elementString x).toList ++ c :: rest) := by
    cases xs with
    | nil => exact ⟨'\x7d', [], .inr rfl, by
        simp [elementString, elementStrings, String.toList_append]⟩
    | cons y ys => exact ⟨',', (elementStrings (y :: ys)).toList ++ ['\x7d'], .inl rfl, by
        simp [elementString, elementStrings, String.toList_append]⟩
  obtain ⟨c, rest, hc, hlist⟩ := hlist
  have hfields := parseFields_element x hc rest
  have hhead : ∃ d t, (elementString x).toList ++ c :: rest = d :: t ∧ d ≠ '\x7d' ∧
      ¬(d = ' ' ∨ d = '\n' ∨ d = '\r' ∨ d = '\t') := by
    rcases elementString_cases x with h | ⟨t, h⟩ | ⟨cs, h⟩ <;>
      exact ⟨_, _, by rw [h, List.cons_append], by decide, by decide⟩
  obtain ⟨d, t, hd, hne, hspace⟩ := hhead
  rw [hd] at hlist hfields
  have hvalue : ∀ n, Json.parseValue (n + 1) ('\x7b' :: d :: t) = none := by
    intro n
    simp only [Json.parseValue, Json.skipSpace_cons (c := '\x7b') _ (by decide),
      Json.skipSpace_cons t hspace]
    split
    · rename_i he
      exact absurd (List.cons.inj he).1 hne
    · rw [hfields]
      rfl
  unfold Json.parse
  rw [hlist, hvalue]
  rfl

/-! ## Columns -/

/-- The value that a JSON column of the export means. -/
def jsonMeant : Json → Option Json
  | .str s => Json.parse s
  | j => some j

/-- The value that a column of the export means: a boolean for each of its spellings, JSON for its
text. -/
def meant (type : String) (value : Json) : Option Json :=
  if type = "boolean" then if value = .null then some .null else (booleanOf value).map .bool
  else if type = "jsonb" then jsonMeant value
  else some value

/-- What a column of a type holds for a value. -/
inductive Holds (pg : Postgres) (type : String) : Json → Value → Prop
  | null : Holds pg type .null .null
  | bool {j : Json} (b : Bool) : type = "boolean" →
      prepareValue j = some (if b then "true" else "false") → Holds pg type j (.bool b)
  | json {j : Json} : type = "jsonb" → j ≠ .null → (∀ s, j ≠ .str s) → (∀ xs, j ≠ .arr xs) →
      Holds pg type j (.json j.jsonb)
  | text {s : String} {j : Json} : type = "jsonb" → Json.parse s = some j →
      Holds pg type (.str s) (.json j.jsonb)
  | emptyArray : type = "jsonb" → Holds pg type (.arr []) (.json (.obj []))
  | other {j : Json} {text v : String} : type ≠ "boolean" → type ≠ "jsonb" →
      prepareValue j = some text → pg.read type text = some v → Holds pg type j (.other v)

/-- A JSON column holds what PostgreSQL takes for it. -/
theorem holds_jsonb {j : Json} {text : String} {read : Json} (htext : prepareValue j = some text)
    (hread : Json.parse text = some read) : Holds pg "jsonb" j (.json read.jsonb) := by
  -- What is sent as its JSON text is read back from it.
  have hprinted : prepareValue j = some j.stringify → j ≠ .null → (∀ s, j ≠ .str s) →
      (∀ xs, j ≠ .arr xs) → Holds pg "jsonb" j (.json read.jsonb) := by
    intro hj hnull hstr harr
    obtain rfl := Option.some.inj (hj.symm.trans htext)
    obtain rfl := Option.some.inj ((Json.parse_stringify j).symm.trans hread)
    exact .json rfl hnull hstr harr
  cases j with
  | null => cases htext
  | str s =>
    obtain rfl := Option.some.inj htext
    exact .text rfl hread
  | arr xs =>
    obtain rfl := Option.some.inj htext
    cases xs with
    | nil =>
      have hempty : Json.parse (elementString (.arr [])) = some (.obj []) := by decide +kernel
      obtain rfl := Option.some.inj (hempty.symm.trans hread)
      exact .emptyArray rfl
    | cons x xs => exact absurd (hread.symm.trans (parse_elementString_cons x xs)) nofun
  | bool b => exact hprinted rfl nofun nofun nofun
  | int n => exact hprinted rfl nofun nofun nofun
  | float m e => exact hprinted rfl nofun nofun nofun
  | obj fields => exact hprinted rfl nofun nofun nofun

/-- A column holds what PostgreSQL takes for it. -/
theorem holds_of_input {type : String} {j : Json} {v : Value}
    (h : pg.input type (prepareValue j) = some v) : Holds pg type j v := by
  cases htext : prepareValue j with
  | none =>
    rw [htext] at h
    obtain rfl := Option.some.inj h
    cases j with
    | null => exact .null
    | _ => cases htext
  | some text =>
    rw [htext] at h
    unfold Postgres.input at h
    dsimp only at h
    split at h
    · rename_i htype
      split at h
      · rename_i htrue
        obtain rfl := Option.some.inj h
        exact .bool true htype (by rw [htext, htrue]; rfl)
      · split at h
        · rename_i hfalse
          obtain rfl := Option.some.inj h
          exact .bool false htype (by rw [htext, hfalse]; rfl)
        · cases h
    · rename_i hboolean
      split at h
      · rename_i htype
        subst htype
        obtain ⟨read, hread, rfl⟩ := Option.map_eq_some_iff.mp h
        exact holds_jsonb htext hread
      · rename_i hjson
        obtain ⟨read, hread, rfl⟩ := Option.map_eq_some_iff.mp h
        exact .other hboolean hjson htext hread

/-- The conversions before a configuration is wrapped give what the export means. -/
theorem meant_of_convert {table column type : String} {value converted final : Json}
    (hboolean : convertBoolean table column type value = .ok converted)
    (hjson : convertJson type value converted = .ok final) : meant type value = some final := by
  unfold convertBoolean at hboolean
  unfold convertJson at hjson
  unfold meant
  -- No column is of both types: a boolean is not parsed, and JSON is no boolean.
  by_cases htype : type = "boolean"
  · have hnot : ¬type = "jsonb" := fun h => absurd (htype.symm.trans h) (by decide)
    rw [if_neg hnot] at hjson
    obtain rfl := Except.ok.inj hjson
    rw [if_pos htype]
    by_cases hnull : value = .null
    · rw [if_neg fun h => h.2 hnull] at hboolean
      obtain rfl := Except.ok.inj hboolean
      rw [if_pos hnull, hnull]
    · rw [if_pos ⟨htype, hnull⟩] at hboolean
      rw [if_neg hnull]
      split at hboolean
      · rename_i b hb
        obtain rfl := Except.ok.inj hboolean
        rw [hb]
        rfl
      · cases hboolean
  · rw [if_neg fun h => htype h.1] at hboolean
    obtain rfl := Except.ok.inj hboolean
    rw [if_neg htype]
    split at hjson
    · rename_i hjsonb
      rw [if_pos hjsonb]
      split at hjson
      · split at hjson
        · rename_i j hj
          obtain rfl := Except.ok.inj hjson
          exact hj
        · cases hjson
      · rename_i hstr
        obtain rfl := Except.ok.inj hjson
        unfold jsonMeant
        split
        · rename_i s
          exact absurd rfl (hstr s)
        · rfl
    · rename_i hjsonb
      rw [if_neg hjsonb]
      exact congrArg some (Except.ok.inj hjson)

/-- A column's iteration returns what the export means, and its envelope for a configuration. -/
theorem convert_cases {iv : ℕ} {table column type : String} {value final : Json}
    (h : convert options iv table column type value = .ok final) :
    ∃ j, meant type value = some j ∧
      if table = "storage_providers" ∧ column = "config" then
        ∃ encrypt, options.encryptStorageConfig = some encrypt ∧ encrypt iv j = .ok final
      else final = j := by
  obtain ⟨converted, hboolean, h⟩ := bind_eq_ok.mp h
  obtain ⟨j, hjson, h⟩ := bind_eq_ok.mp h
  obtain ⟨wrapped, hconfig, h⟩ := bind_eq_ok.mp h
  obtain ⟨-, -, h⟩ := bind_eq_ok.mp h
  obtain rfl := Except.ok.inj h
  refine ⟨j, meant_of_convert hboolean hjson, ?_⟩
  unfold convertConfig at hconfig
  split at hconfig <;> rename_i hcolumn
  · rw [if_pos hcolumn]
    split at hconfig
    · rename_i encrypt hencrypt
      exact ⟨encrypt, hencrypt, hconfig⟩
    · cases hconfig
  · rw [if_neg hcolumn]
    exact (Except.ok.inj hconfig).symm

/-! ## Rows -/

/-- A column of a stored row holds what a value means. -/
def HoldsMeant (pg : Postgres) (table : String) (stored : Row) (column : String)
    (value : Json) : Prop :=
  ∃ type j v, (pg.columns table).lookup column = some type ∧ meant type value = some j ∧
    Holds pg type j v ∧ stored.lookup column = some v

/-- A column of a stored row holds the envelope of what a value means. -/
def HoldsEncrypted (pg : Postgres) (options : Options) (table : String) (stored : Row)
    (column : String) (value : Json) : Prop :=
  ∃ encrypt iv type j envelope v, options.encryptStorageConfig = some encrypt ∧
    (pg.columns table).lookup column = some type ∧ meant type value = some j ∧
    encrypt iv j = .ok envelope ∧ Holds pg type envelope v ∧ stored.lookup column = some v

/-- The columns that are not taken from the document as they are. -/
def rewrittenColumns : List (String × String) :=
  [("versions", "version_number"), ("users", "auth_version"), ("storage_providers", "config")]

variable (pg options) in
/-- A stored row is a copy of a row of the document. What the document does not give is left to the
database, and so is the number of a version; the version of a user's authentication advances. -/
structure Copied (table : String) (fields : List (String × Json)) (stored : Row) : Prop where
  columns : stored.map Prod.fst = (pg.columns table).map Prod.fst
  given : ∀ f ∈ fields, (table, f.1) ∉ rewrittenColumns → HoldsMeant pg table stored f.1 f.2
  authVersion : table = "users" → HoldsMeant pg table stored "auth_version"
    (nextAuthVersion ((Json.obj fields).get? "auth_version"))
  config : table = "storage_providers" → ∀ value, ("config", value) ∈ fields →
    HoldsEncrypted pg options table stored "config" value
  default : ∀ column ∈ (pg.columns table).map Prod.fst,
    (∀ f ∈ fields, f.1 = column → (table, column) = ("versions", "version_number")) →
    (table, column) ≠ ("users", "auth_version") →
    ∃ tables, stored.lookup column = some (pg.default tables table column)

/-- A member that is not set stays. -/
theorem mem_setField {fields : List (String × Json)} {f : String × Json} {column : String}
    (value : Json) (hf : f ∈ fields) (hne : f.1 ≠ column) : f ∈ setField fields column value := by
  unfold setField
  split
  · exact List.mem_map.mpr ⟨f, hf, if_neg hne⟩
  · exact List.mem_append_left _ hf

/-- The member that is set is there. -/
theorem mem_setField_self (fields : List (String × Json)) (column : String) (value : Json) :
    (column, value) ∈ setField fields column value := by
  unfold setField
  split
  · rename_i hcontains
    obtain ⟨f, hf, hcolumn⟩ := List.mem_map.mp (List.contains_iff_mem.mp hcontains)
    exact List.mem_map.mpr ⟨f, hf, if_pos hcolumn⟩
  · exact List.mem_append_right _ (List.mem_singleton_self _)

/-- Only the name of the member that is set is new. -/
theorem names_setField {fields : List (String × Json)} {f : String × Json} {column : String}
    {value : Json} (h : f ∈ setField fields column value) : f.1 = column ∨ f ∈ fields := by
  unfold setField at h
  split at h
  · obtain ⟨g, hg, rfl⟩ := List.mem_map.mp h
    split
    · exact .inl rfl
    · exact .inr hg
  · rcases List.mem_append.mp h with h | h
    · exact .inr h
    · exact .inl (congrArg Prod.fst (List.mem_singleton.mp h))

/-- A column is converted as it is given, if it is not one of the two that are rewritten first. -/
theorem mem_prepareRow {table : String} {fields : List (String × Json)} {f : String × Json}
    (hf : f ∈ fields) (hversion : (table, f.1) ≠ ("versions", "version_number"))
    (hauth : (table, f.1) ≠ ("users", "auth_version")) : f ∈ prepareRow table fields := by
  have hkept : f ∈ if table = "versions" then fields.filter (·.1 ≠ "version_number")
      else fields := by
    split
    · rename_i htable
      refine List.mem_filter.mpr ⟨hf, decide_eq_true fun hname => hversion ?_⟩
      rw [htable, hname]
    · exact hf
  unfold prepareRow
  dsimp only
  split
  · rename_i htable
    exact mem_setField _ hkept fun hname => hauth (by rw [htable, hname])
  · exact hkept

/-- What is converted is given, but for the version of a user's authentication. -/
theorem given_of_mem_prepareRow {table : String} {fields : List (String × Json)}
    {f : String × Json} (h : f ∈ prepareRow table fields) :
    (table, f.1) = ("users", "auth_version") ∨
      f ∈ fields ∧ (table, f.1) ≠ ("versions", "version_number") := by
  have hgiven : (f ∈ if table = "versions" then fields.filter (·.1 ≠ "version_number")
      else fields) → f ∈ fields ∧ (table, f.1) ≠ ("versions", "version_number") := by
    intro hf
    split at hf
    · obtain ⟨hf, hname⟩ := List.mem_filter.mp hf
      exact ⟨hf, fun heq => of_decide_eq_true hname (Prod.mk.inj heq).2⟩
    · rename_i htable
      exact ⟨hf, fun heq => htable (Prod.mk.inj heq).1⟩
  unfold prepareRow at h
  dsimp only at h
  split at h
  · rename_i htable
    rcases names_setField h with hname | hf
    · exact .inl (by rw [htable, hname])
    · exact .inr (hgiven hf)
  · exact .inr (hgiven h)

/-- The columns of a row keep their names. -/
theorem names_converted {iv : ℕ} {table : String} {columns : List (String × String)}
    {xs ys : List (String × Json)}
    (h : List.Forall₂ (fun x y => convertField options iv table columns x = .ok y) xs ys) :
    ys.map Prod.fst = xs.map Prod.fst := by
  induction h with
  | nil => rfl
  | cons hconvert _ ih =>
    rw [List.map_cons, List.map_cons, ih]
    unfold convertField at hconvert
    dsimp only at hconvert
    split at hconvert
    · obtain ⟨v, -, rfl⟩ := map_eq_ok.mp hconvert
      rfl
    · cases hconvert

/-- A stored row has the columns of its table, and what is not inserted has its default. -/
theorem newRow_default {table : String} {tables : Tables} {row : List (String × Json)} {new : Row}
    (h : pg.newRow tables table row = some new) :
    new.map Prod.fst = (pg.columns table).map Prod.fst ∧
      ∀ column ∈ (pg.columns table).map Prod.fst, row.lookup column = none →
        new.lookup column = some (pg.default tables table column) := by
  unfold Postgres.newRow at h
  generalize pg.columns table = columns at h
  induction columns generalizing new with
  | nil =>
    cases h
    exact ⟨rfl, fun column hcolumn => by cases hcolumn⟩
  | cons entry columns ih =>
    rw [List.mapM_cons] at h
    obtain ⟨f, hf, h⟩ := Option.bind_eq_some_iff.mp h
    obtain ⟨new', hnew', h⟩ := Option.bind_eq_some_iff.mp h
    cases h
    obtain ⟨hnames, hdefault⟩ := ih hnew'
    have hfst : f.1 = entry.1 := by
      split at hf
      · obtain ⟨w, -, rfl⟩ := Option.map_eq_some_iff.mp hf
        rfl
      · exact congrArg Prod.fst (Option.some.inj hf).symm
    refine ⟨by rw [List.map_cons, List.map_cons, hfst, hnames], fun column hcolumn hnone => ?_⟩
    by_cases hname : column = entry.1
    · subst hname
      rw [hnone] at hf
      obtain rfl := Option.some.inj hf
      exact List.lookup_cons_self
    · have hbeq : (column == f.1) = false := by simpa [hfst] using hname
      rw [List.lookup_cons, hbeq]
      exact hdefault column ((List.mem_cons.mp hcolumn).resolve_left hname) hnone

/-- A column that is converted holds what it means, or its envelope. -/
theorem ImportedRow.holds {table : String} {fields : List (String × Json)} {stored : Row}
    (h : ImportedRow pg options table (.obj fields) stored) {f : String × Json}
    (hf : f ∈ prepareRow table fields) :
    if table = "storage_providers" ∧ f.1 = "config" then
      HoldsEncrypted pg options table stored f.1 f.2
    else HoldsMeant pg table stored f.1 f.2 := by
  obtain ⟨iv, type, final, v, htype, hconvert, hinput, hlookup⟩ := h.column hf
  obtain ⟨j, hmeant, hfinal⟩ := convert_cases hconvert
  split at hfinal <;> rename_i hconfig
  · obtain ⟨encrypt, hencrypt, hwrapped⟩ := hfinal
    rw [if_pos hconfig]
    exact ⟨encrypt, iv, type, j, final, v, hencrypt, htype, hmeant, hwrapped,
      holds_of_input hinput, hlookup⟩
  · subst hfinal
    rw [if_neg hconfig]
    exact ⟨type, final, v, htype, hmeant, holds_of_input hinput, hlookup⟩

/-- An imported row is a copy. -/
theorem ImportedRow.copied {table : String} {given : Json} {stored : Row}
    (h : ImportedRow pg options table given stored) :
    ∃ fields, given = .obj fields ∧ Copied pg options table fields stored := by
  obtain ⟨iv, converted, tables, hrow, hnodup, hnew⟩ := id h
  cases given with
  | obj fields =>
    obtain ⟨ys, hfields, hrow⟩ := bind_eq_ok.mp hrow
    obtain ⟨-, -, hrow⟩ := bind_eq_ok.mp hrow
    obtain rfl := Except.ok.inj hrow
    have hnames := names_converted (mapM_except hfields)
    obtain ⟨hcolumns, hdefault⟩ := newRow_default hnew
    refine ⟨fields, rfl, hcolumns, fun f hf hnot => ?_, fun htable => ?_, fun htable value hf => ?_,
      fun column hcolumn hgiven hauth => ⟨tables, hdefault column hcolumn ?_⟩⟩
    · -- A column that is copied.
      have hmem : f ∈ prepareRow table fields :=
        mem_prepareRow hf (fun heq => hnot (by simp [heq, rewrittenColumns]))
          fun heq => hnot (by simp [heq, rewrittenColumns])
      have hholds := h.holds hmem
      rwa [if_neg fun hc => hnot (by simp [hc.1, hc.2, rewrittenColumns])] at hholds
    · -- The version of a user's authentication.
      subst htable
      exact h.holds (f := ("auth_version", nextAuthVersion ((Json.obj fields).get? "auth_version")))
        (mem_setField_self fields "auth_version" _)
    · -- The configuration of a provider.
      subst htable
      exact h.holds (f := ("config", value)) hf
    · -- A column that is not inserted.
      refine List.lookup_eq_none_iff.mpr fun f hf => bne_iff_ne.mpr ?_
      rintro rfl
      have hmem : f.1 ∈ (prepareRow table fields).map Prod.fst :=
        hnames ▸ List.mem_map_of_mem hf
      obtain ⟨g, hg, hname⟩ := List.mem_map.mp hmem
      rcases given_of_mem_prepareRow hg with heq | ⟨hfield, hne⟩
      · exact hauth (hname ▸ heq)
      · exact hne (hname ▸ hgiven g hfield hname)
  | _ => cases hrow

/-! ## Tables -/

variable (pg options) in
/-- A stored row is a copy of a row of the document. -/
def CopyOf (table : String) (given : Json) (stored : Row) : Prop :=
  ∃ fields, given = .obj fields ∧ Copied pg options table fields stored

variable (pg options) in
/-- A stored version is a copy of a version of the document, moved to a product. -/
def MovedCopyOf (softwareId : String) (given : Json) (stored : Row) : Prop :=
  ∃ fields, given = .obj fields ∧
    Copied pg options "versions" (setField fields "software_id" (.str softwareId)) stored

variable (pg options) in
/-- The tables after an import of a document. One that lists no product has its versions moved to a
product that is generated. -/
structure Image (softwareId : String) (before : Tables) (document : List (String × Json))
    (after : Tables) : Prop where
  copied : ∀ table ∈ importTables,
    (rowsOf document "software" = [] → table ≠ "software" ∧ table ≠ "versions") →
    List.Forall₂ (CopyOf pg options table) (rowsOf document table) (after table)
  generated : rowsOf document "software" = [] → ∃ setting row,
    findAppName (rowsOf document "settings") = .ok setting ∧ after "software" = [row] ∧
    Copied pg options "software" (defaultSoftware softwareId setting) row ∧
    List.Forall₂ (MovedCopyOf pg options softwareId) (rowsOf document "versions")
      (after "versions")
  empty : ∀ table ∈ emptyTables, table ∉ importTables → after table = []
  others : ∀ table, table ∉ importTables → table ≠ "software_signing_keys" →
    after table = before table
  active : ((after "software").filter isActiveDefault).length = 1

/-- A document without products gets one, and its versions are moved to it. -/
theorem withSoftware_generates {softwareId : String} {tables data : List (String × Json)}
    (h : withSoftware softwareId tables = .ok data) (hnone : rowsOf tables "software" = []) :
    ∃ setting, findAppName (rowsOf tables "settings") = .ok setting ∧
      rowsOf data "software" = [.obj (defaultSoftware softwareId setting)] ∧
      List.Forall₂ (fun x y => assignSoftware softwareId x = .ok y) (rowsOf tables "versions")
        (rowsOf data "versions") := by
  unfold withSoftware at h
  rw [if_pos hnone] at h
  obtain ⟨setting, hsetting, h⟩ := bind_eq_ok.mp h
  obtain ⟨versions, hversions, h⟩ := bind_eq_ok.mp h
  obtain rfl := Except.ok.inj h
  have hassigned := mapM_except hversions
  -- Without versions their table is not set; then the document has none.
  by_cases hempty : versions = []
  · subst hempty
    rw [if_pos rfl, rowsOf_setField_self, rowsOf_setField _ (by decide)]
    cases hforall : rowsOf tables "versions" with
    | nil => exact ⟨setting, hsetting, rfl, .nil⟩
    | cons x xs =>
      rw [hforall] at hassigned
      cases hassigned
  · rw [if_neg hempty, rowsOf_setField_self, rowsOf_setField _ (by decide), rowsOf_setField_self]
    exact ⟨setting, hsetting, rfl, hassigned⟩

/-- A document with products is imported as it is. -/
theorem withSoftware_given {softwareId : String} {tables data : List (String × Json)}
    (h : withSoftware softwareId tables = .ok data) (hsome : rowsOf tables "software" ≠ []) :
    data = tables := by
  unfold withSoftware at h
  rw [if_neg hsome] at h
  exact (Except.ok.inj h).symm

/-- A version that is imported after it is moved is a moved copy. -/
theorem movedCopyOf {softwareId : String} {xs ys : List Json} {stored : List Row}
    (hassigned : List.Forall₂ (fun x y => assignSoftware softwareId x = .ok y) xs ys)
    (himported : List.Forall₂ (ImportedRow pg options "versions") ys stored) :
    List.Forall₂ (MovedCopyOf pg options softwareId) xs stored := by
  induction hassigned generalizing stored with
  | nil =>
    cases himported
    exact .nil
  | @cons x y xs ys hassign _ ih =>
    cases himported with
    | cons hrow hrows =>
      refine .cons ?_ (ih hrows)
      obtain ⟨fields', rfl, hcopied⟩ := hrow.copied
      cases x with
      | obj fields =>
        obtain rfl := Json.obj.inj (Except.ok.inj hassign)
        exact ⟨fields, rfl, hcopied⟩
      | arr xs => cases hassign
      | _ => cases hassign

/-- What is imported is an image of the document. -/
theorem Imported.image {softwareId : String} {before after : Tables}
    {tables data : List (String × Json)} (h : Imported pg options before data after)
    (hdata : withSoftware softwareId tables = .ok data) :
    Image pg options softwareId before tables after where
  copied table htable hkept := by
    have hsame : rowsOf data table = rowsOf tables table := by
      by_cases hnone : rowsOf tables "software" = []
      · exact rowsOf_withSoftware hdata (hkept hnone).1 (hkept hnone).2
      · rw [withSoftware_given hdata hnone]
    exact hsame ▸ (h.rows table htable).imp fun _ _ hrow => hrow.copied
  generated hnone := by
    obtain ⟨setting, hsetting, hsoftware, hversions⟩ := withSoftware_generates hdata hnone
    have hproduct := h.rows "software" (by decide)
    rw [hsoftware] at hproduct
    obtain ⟨row, rest, hrow, hrest, hafter⟩ := List.forall₂_cons_left_iff.mp hproduct
    obtain rfl := List.forall₂_nil_left_iff.mp hrest
    obtain ⟨fields, hfields, hcopied⟩ := hrow.copied
    obtain rfl := Json.obj.inj hfields
    exact ⟨setting, row, hsetting, hafter, hcopied,
      movedCopyOf hversions (h.rows "versions" (by decide))⟩
  empty table htable hnot := by
    have hsoftware : table ≠ "software" := fun heq => hnot (heq ▸ by decide)
    have hkeys : table ≠ "software_signing_keys" := by
      rintro rfl
      exact absurd htable (by decide +kernel)
    rw [h.others table hnot hkeys]
    exact h.empty table htable hsoftware
  others := h.others
  active := h.active

/-- For every document, every database and every encryptor: an import that throws, or that only
tries, leaves the database as it was; and one that goes through leaves an image of the document. -/
theorem import_faithful {softwareId : String} {document : Json} {s : Sessions.Session Tables}
    (hs : s.transaction = none) :
    (∀ e s', (importLegacyData pg options softwareId document).exec s = (.error e, s') →
      s'.committed = s.committed) ∧
    ∀ report s', (importLegacyData pg options softwareId document).exec s = (.ok report, s') →
      report.dryRun = options.dryRun ∧
      if options.dryRun then s'.committed = s.committed
      else ∃ tables, checkDocument document = .ok tables ∧
        Image pg options softwareId s.committed tables s'.committed := by
  refine ⟨fun e s' hexec => (import_run hs).1 e s' hexec, fun report s' hexec => ?_⟩
  obtain ⟨-, hdry, hcommitted⟩ := (import_run hs).2 report s' hexec
  refine ⟨hdry, ?_⟩
  split at hcommitted <;> rename_i htries
  · rwa [if_pos htries]
  · rw [if_neg htries]
    obtain ⟨tables, data, hdocument, hdata, himported⟩ := hcommitted
    exact ⟨tables, hdocument, himported.image hdata⟩

/-- An export with one provider goes through, with a product that is generated. -/
theorem import_faithful_example :
    ∃ tables, checkDocument (providerExport localEnvelope) = .ok tables ∧
      rowsOf tables "software" = [] ∧
      Image toyPostgres (scriptOptions toyEncryption false) "s" (fun _ => []) tables
        (providerImport localEnvelope).2.committed := by
  have hexec : (importLegacyData toyPostgres (scriptOptions toyEncryption false) "s"
      (providerExport localEnvelope)).exec { committed := fun _ => [] } =
      (.ok oneProvider, (providerImport localEnvelope).2) :=
    eq_mk_of_fst providerImport_envelope.1
  obtain ⟨-, tables, hdocument, himage⟩ :=
    (import_faithful (s := { committed := fun _ => [] }) rfl).2 _ _ hexec
  have hnone : (checkDocument (providerExport localEnvelope)).map
      (fun tables => rowsOf tables "software") = .ok [] := by decide +kernel
  rw [hdocument] at hnone
  exact ⟨tables, hdocument, Except.ok.inj hnone, himage⟩

end Reeva.Legacy
