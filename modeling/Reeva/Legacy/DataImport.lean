import Mathlib.Logic.Function.Basic
import Reeva.Legacy.ProviderConfig
import Reeva.Sessions.Client

/-!
# Import of a legacy export

`importLegacyData` copies the tables of an exported JSON document into an empty, migrated database.
Types, keys, foreign keys and defaults are PostgreSQL's, and a statement may also fail for reasons of
its own. The numbers of the document are those that JavaScript has read.
-/

namespace Reeva

/-- A value of a column: of a `boolean`, of a `jsonb`, or of another type in its output form. -/
inductive Value
  | null
  | bool (b : Bool)
  | json (j : Json)
  | other (text : String)
  deriving DecidableEq, Repr

namespace Legacy

/-- A stored row. -/
abbrev Row := List (String × Value)

/-- The rows of every table. -/
abbrev Tables := String → List Row

/-! ## The database -/

/-- What the migrated PostgreSQL database decides by itself. -/
structure Postgres where
  /-- `information_schema.columns`: the names and types of a table's columns. -/
  columns : String → List (String × String)
  /-- The input function of a type other than `boolean` and `jsonb`. -/
  read : String → String → Option String
  /-- The value of a column that an `INSERT` does not name. -/
  default : Tables → String → String → Value
  /-- The table's constraints let the row in. -/
  allows : Tables → String → Row → Bool
  /-- The foreign keys let the products go. -/
  allowsDelete : Tables → Bool
  /-- The statements that fail whatever they say. -/
  refuses : ℕ → Bool

/-! ### Parameters -/

/-- `escapeElement`. -/
def escapeElement (s : String) : String :=
  String.ofList ('"' :: (s.toList.flatMap fun c =>
    if c = '\\' ∨ c = '"' then ['\\', c] else [c]) ++ ['"'])

mutual

/-- An element of the driver's array literal. -/
def elementString : Json → String
  | .null => "NULL"
  | .arr xs => "\x7b" ++ elementStrings xs ++ "\x7d"
  | .str s => escapeElement s
  | j => escapeElement j.stringify

/-- The elements of the driver's array literal. -/
def elementStrings : List Json → String
  | [] => ""
  | [x] => elementString x
  | x :: xs => elementString x ++ "," ++ elementStrings xs

end

/-- `prepareValue`: the text that the driver sends for a parameter; `none` is `NULL`. An array is
sent as the literal of a PostgreSQL array. -/
def prepareValue : Json → Option String
  | .null => none
  | .str s => some s
  | .arr xs => some (elementString (.arr xs))
  | j => some j.stringify

/-- The value of a column of a type for a parameter. Of the spellings of a boolean, the driver sends
these two only. -/
def Postgres.input (pg : Postgres) (type : String) : Option String → Option Value
  | none => some .null
  | some text =>
    if type = "boolean" then
      if text = "true" then some (.bool true)
      else if text = "false" then some (.bool false)
      else none
    else if type = "jsonb" then (Json.parse text).map fun j => .json j.jsonb
    else (pg.read type text).map .other

/-- The row that an `INSERT` puts into a table. -/
def Postgres.newRow (pg : Postgres) (tables : Tables) (table : String)
    (row : List (String × Json)) : Option Row :=
  (pg.columns table).mapM fun column =>
    match row.lookup column.1 with
    | some value => (pg.input column.2 (prepareValue value)).map fun v => (column.1, v)
    | none => some (column.1, pg.default tables table column.1)

/-! ### Statements -/

/-- A program with a connection to the database. -/
abbrev Client := Sessions.Client Tables

/-- A `SELECT`. -/
def Postgres.select {α : Type} (pg : Postgres) (read : Tables → α) : Client α :=
  Sessions.select pg.refuses read

/-- `LOCK TABLE … IN ACCESS EXCLUSIVE MODE`. -/
def Postgres.lock (pg : Postgres) : Client Unit := pg.select fun _ => ()

/-- The tables without the products, whose signing keys go with them. -/
def Postgres.afterDelete (pg : Postgres) (tables : Tables) : Option Tables :=
  if pg.allowsDelete tables then
    some fun table =>
      if table = "software" ∨ table = "software_signing_keys" then [] else tables table
  else none

/-- `DELETE FROM software`. -/
def Postgres.deleteSoftware (pg : Postgres) : Client Unit :=
  Sessions.update pg.refuses pg.afterDelete

/-- The tables with one more row. No column may be named twice. -/
def Postgres.afterInsert (pg : Postgres) (table : String) (row : List (String × Json))
    (tables : Tables) : Option Tables :=
  if (row.map Prod.fst).Nodup ∧
      (row.all fun f => ((pg.columns table).lookup f.1).isSome) then
    (pg.newRow tables table row).bind fun new =>
      if pg.allows tables table new then
        some (Function.update tables table (tables table ++ [new]))
      else none
  else none

/-- `INSERT INTO table (…) VALUES (…)`. -/
def Postgres.insert (pg : Postgres) (table : String) (row : List (String × Json)) : Client Unit :=
  Sessions.update pg.refuses (pg.afterInsert table row)

/-! ## The script -/

/-- `tables`. -/
def importTables : List String :=
  ["users", "settings", "platforms", "architectures", "storage_providers", "software", "versions",
    "artifacts", "download_histories", "licenses", "license_activations",
    "storage_upload_reservations"]

/-- `skipped`. -/
def skippedTables : List String :=
  ["sessions", "password_reset_tokens", "remember_me_tokens", "auth_rate_limits", "adonis_schema",
    "adonis_schema_versions"]

/-- The tables that have to be empty: the trackers of the migrations are not among them. -/
def emptyTables : List String :=
  importTables ++ skippedTables.filter fun table => !"adonis_".isPrefixOf table

/-- The options of the import. The encryptor gets the number of statements sent so far as its random
bytes. -/
structure Options where
  dryRun : Bool := false
  encryptStorageConfig : Option (ℕ → Json → Except String Json) := none

/-- The import's report. -/
structure Report where
  dryRun : Bool
  counts : List (String × ℕ)
  authenticationTokensImported : Bool
  userAuthVersionsAdvanced : Bool
  deriving DecidableEq, Repr

/-- The elements of the array under a key; none when there is no such array. -/
def rowsOf (data : List (String × Json)) (table : String) : List Json :=
  match (Json.obj data).get? table with
  | some (.arr rows) => rows
  | _ => []

/-- `row[column] = value`. -/
def setField (fields : List (String × Json)) (column : String) (value : Json) :
    List (String × Json) :=
  if (fields.map Prod.fst).contains column then
    fields.map fun f => if f.1 = column then (column, value) else f
  else fields ++ [(column, value)]

/-- `if (p) throw new Error(message)`. -/
def throwIf (p : Prop) [Decidable p] (message : String) : Except String Unit :=
  if p then .error message else .ok ()

/-- `Array.isArray(value)`. -/
def isArray : Json → Bool
  | .arr _ => true
  | _ => false

/-- The checks of the document; its tables. -/
def checkDocument (document : Json) : Except String (List (String × Json)) := do
  throwIf (document = .null) "TypeError"
  throwIf ((document.get? "formatVersion").bind Js.number? ≠ some 1) expected
  match document.get? "tables" with
  | some (.obj fields) =>
    fields.forM fun f =>
      throwIf (f.1 ∉ importTables ++ skippedTables ∨ ¬isArray f.2) (unsupported f.1)
    return fields
  | _ => .error expected
where
  /-- The message for a document that is no export. -/
  expected := "Expected formatVersion=1 and a tables object containing arrays of exported rows."
  /-- The message for a table that is not imported. -/
  unsupported (name : String) := s!"Unsupported table or row list: {name}."

/-- `SELECT id FROM software WHERE slug='reeva' AND is_default=true` finds a row. -/
def isBaseline (row : Row) : Bool :=
  row.lookup "slug" = some (.other "reeva") && row.lookup "is_default" = some (.bool true)

/-- The check of one table of the target. -/
def checkEmpty (pg : Postgres) (table : String) : Client Unit := do
  let count ← pg.select fun tables => (tables table).length
  if table = "software" then
    if count = 1 then
      let found ← pg.select fun tables => (tables "software").any isBaseline
      throwIf (¬found) noBaseline
    else throwIf (1 < count) noBaseline
  else throwIf (count ≠ 0) s!"Target table {table} is not empty; refusing to replace data."
where
  /-- The message for a target with products of its own. -/
  noBaseline := "Target software table is not the migration-created baseline."

/-- `data.settings?.find((row) => row.key === 'appName')`. -/
def findAppName : List Json → Except String (Option Json)
  | [] => .ok none
  | .null :: _ => .error "TypeError"
  | row :: rows =>
    if row.get? "key" = some (.str "appName") then .ok (some row) else findAppName rows

/-- `s.slice(0, n)`, as the database's driver writes it: half a surrogate pair is written as the
replacement character. -/
def sliceTo : ℕ → List Char → List Char
  | 0, _ | _, [] => []
  | n + 1, c :: cs =>
    if c.toNat < 0x10000 then c :: sliceTo n cs
    else match n with
      | 0 => [Char.ofNat 0xFFFD]
      | n + 1 => c :: sliceTo n cs

/-- The product for a document without products. -/
def defaultSoftware (softwareId : String) (setting : Option Json) : List (String × Json) :=
  let value := (setting.bind (·.get? "value")).filter Js.truthy
  let name := match value with
    | some v => Js.text v
    | none => "Reeva"
  [("id", .str softwareId), ("name", .str (String.ofList (sliceTo 120 name.toList))),
    ("slug", .str "reeva"), ("is_active", .bool true), ("is_default", .bool true)]

/-- `row.software_id = data.software[0].id`. An array takes the property and is refused later. -/
def assignSoftware (softwareId : String) : Json → Except String Json
  | .obj fields => .ok (.obj (setField fields "software_id" (.str softwareId)))
  | .arr xs => .ok (.arr xs)
  | _ => .error "TypeError"

/-- The rows to import: the document's, with a default product when it has none. -/
def withSoftware (softwareId : String) (data : List (String × Json)) :
    Except String (List (String × Json)) :=
  if rowsOf data "software" = [] then do
    let setting ← findAppName (rowsOf data "settings")
    let versions ← (rowsOf data "versions").mapM (assignSoftware softwareId)
    let data := setField data "software" (.arr [.obj (defaultSoftware softwareId setting)])
    return if versions = [] then data else setField data "versions" (.arr versions)
  else .ok data

/-- A JavaScript number as a JSON value; `NaN` by its text. -/
def ofNumber : Option ℚ → Json
  | none => .str "NaN"
  | some q => if q.den = 1 then .int q.num else .float (q.num * 5 ^ q.den.log2) (-q.den.log2)

/-- `Number(row.auth_version || 0) + 1`. -/
def nextAuthVersion (value : Option Json) : Json :=
  let current := ((value.filter Js.truthy).map Js.toNumber).getD (some 0)
  ofNumber (current.bind fun q => Js.toDouble (q + 1))

/-- `[true, false, 0, 1, '0', '1'].includes(value)`: the boolean that is meant. -/
def booleanOf (value : Json) : Option Bool :=
  if value = .bool true ∨ Js.number? value = some 1 ∨ value = .str "1" then some true
  else if value = .bool false ∨ Js.number? value = some 0 ∨ value = .str "0" then some false
  else none

/-- A number that `Number.isSafeInteger` refuses. -/
def unsafeNumber (value : Json) : Bool :=
  match value with
  | .int _ | .float _ _ => !(Js.integer? value).any Js.isSafeInteger
  | _ => false

/-- The boolean that is inserted for a value. -/
def convertBoolean (table column type : String) (value : Json) : Except String Json :=
  if type = "boolean" ∧ value ≠ .null then
    match booleanOf value with
    | some b => .ok (.bool b)
    | none => .error s!"Invalid boolean in {table}.{column}."
  else .ok value

/-- The JSON value that is inserted for a value, when it is a text. -/
def convertJson (type : String) (value converted : Json) : Except String Json :=
  if type = "jsonb" then
    match value with
    | .str s => match Json.parse s with
      | some j => .ok j
      | none => .error "Unexpected token in JSON"
    | _ => .ok converted
  else .ok converted

/-- The envelope that is inserted for a provider's configuration. -/
def convertConfig (options : Options) (iv : ℕ) (table column : String) (converted : Json) :
    Except String Json :=
  if table = "storage_providers" ∧ column = "config" then
    match options.encryptStorageConfig with
    | some encrypt => encrypt iv converted
    | none => .error "An APP_KEY-backed storage config encryptor is required for import."
  else .ok converted

/-- The iteration for one column of a row: the value that is inserted. -/
def convert (options : Options) (iv : ℕ) (table column type : String) (value : Json) :
    Except String Json := do
  let converted ← convertBoolean table column type value
  let converted ← convertJson type value converted
  let converted ← convertConfig options iv table column converted
  throwIf (type = "bigint" ∧ unsafeNumber value)
    s!"Unsafe numeric value in {table}.{column}; export bigint values as decimal strings."
  return converted

/-- The columns of a row before their values are converted. -/
def prepareRow (table : String) (fields : List (String × Json)) : List (String × Json) :=
  let fields := if table = "versions" then fields.filter (·.1 ≠ "version_number") else fields
  if table = "users" then
    setField fields "auth_version" (nextAuthVersion ((Json.obj fields).get? "auth_version"))
  else fields

/-- The iteration for one column of a row: the column, and the value that is inserted. -/
def convertField (options : Options) (iv : ℕ) (table : String) (columns : List (String × String))
    (field : String × Json) : Except String (String × Json) :=
  let column := field.1
  match columns.lookup column with
  | some type => (convert options iv table column type field.2).map fun v => (column, v)
  | none => .error s!"Unknown column {table}.{column}."

/-- The columns of a row with the values that are inserted. -/
def convertRow (options : Options) (iv : ℕ) (table : String) (columns : List (String × String)) :
    Json → Except String (List (String × Json))
  | .obj fields => do
    let converted ← (prepareRow table fields).mapM (convertField options iv table columns)
    throwIf (converted = []) s!"Empty row in {table}."
    return converted
  | _ => .error s!"Invalid row in {table}."

/-- The iteration for one row. -/
def importRow (pg : Postgres) (options : Options) (table : String)
    (columns : List (String × String)) (row : Json) : Client Unit := do
  let iv := (← get).sent
  let converted ← convertRow options iv table columns row
  pg.insert table converted

/-- The iteration for one table; its number of rows. -/
def importTable (pg : Postgres) (options : Options) (data : List (String × Json))
    (table : String) : Client (String × ℕ) := do
  let columns ← pg.select fun _ => pg.columns table
  (rowsOf data table).forM (importRow pg options table columns)
  return (table, (rowsOf data table).length)

/-- `SELECT id FROM software WHERE is_default=true AND is_active=true` finds the row. -/
def isActiveDefault (row : Row) : Bool :=
  row.lookup "is_default" = some (.bool true) && row.lookup "is_active" = some (.bool true)

/-- The check of one table's count. -/
def checkCount (pg : Postgres) (count : String × ℕ) : Client Unit := do
  let stored ← pg.select fun tables => (tables count.1).length
  let table := count.1
  throwIf (stored ≠ count.2) s!"Imported count mismatch for {table}."

/-- The body of the `try` block. -/
def importBody (pg : Postgres) (options : Options) (softwareId : String)
    (tables : List (String × Json)) : Client Report := do
  pg.lock
  emptyTables.forM (checkEmpty pg)
  let data ← withSoftware softwareId tables
  pg.deleteSoftware
  let counts ← importTables.mapM (importTable pg options data)
  let active ← pg.select fun tables => ((tables "software").filter isActiveDefault).length
  throwIf (active ≠ 1) "Exactly one active default software must be supplied."
  counts.forM (checkCount pg)
  (if options.dryRun then Sessions.rollback pg.refuses else Sessions.commit pg.refuses : Client Unit)
  return ⟨options.dryRun, counts, false, true⟩

/-- `importLegacyData`; `softwareId` is the identifier that is drawn for a generated product. -/
def importLegacyData (pg : Postgres) (options : Options) (softwareId : String) (document : Json) :
    Client Report := do
  let tables ← checkDocument document
  Sessions.begin pg.refuses
  tryCatch (importBody pg options softwareId tables) fun error => do
    Sessions.rollback pg.refuses
    throw error

end Legacy

end Reeva
