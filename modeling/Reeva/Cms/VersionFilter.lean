import Mathlib.Data.List.TakeWhile
import Reeva.Cms.ReadEndpoints
import Reeva.Cms.VersionService
import Reeva.Queries.Conditions

/-!
# The version filter

The filters of the list of versions, with the grammar of the version number filter: an operator, up to
three numbers and a star. `matchFilter_iff` says that the regular expression accepts exactly the texts
of that grammar, so that what a filter selects is said of every text.
-/

namespace Reeva

open Queries

/-- The filters of the list of versions. -/
structure VersionFilters where
  softwareId : Input
  versionNumber : Input
  codename : Input
  isActive : Input
  dateFrom : Input
  dateTo : Input

/-- What the filters take from luxon and from PostgreSQL. -/
structure VersionQueryPackage where
  /-- `DateTime.fromISO(s).isValid` -/
  isValidDate : String → Bool
  /-- `DateTime.fromISO(s).startOf('day').toSQLDate()` -/
  startOfDay : String → Option String
  /-- `DateTime.fromISO(s).endOf('day').toSQLDate()` -/
  endOfDay : String → Option String
  /-- `a <= b` of two dates. -/
  notAfter : String → String → Bool
  /-- `LOWER(s)` -/
  lower : String → String

namespace VersionService

/-! ## The regular expression -/

/-- The groups of a match. -/
structure FilterMatch where
  operator : Option Comparison
  spaces : List Char
  major : List Char
  minor : Option (List Char)
  patch : Option (List Char)
  wildcard : Bool
  deriving DecidableEq, Repr

/-- `([<>]=?|==)?` -/
def takeOperator : List Char → Option Comparison × List Char
  | '<' :: '=' :: cs => (some .le, cs)
  | '<' :: cs => (some .lt, cs)
  | '>' :: '=' :: cs => (some .ge, cs)
  | '>' :: cs => (some .gt, cs)
  | '=' :: '=' :: cs => (some .eq, cs)
  | cs => (none, cs)

/-- `(?:\.(\d+))?` -/
def takePart : List Char → Option (List Char) × List Char
  | '.' :: cs =>
    if (Json.digits cs).1 = [] then (none, '.' :: cs)
    else (some (Json.digits cs).1, (Json.digits cs).2)
  | cs => (none, cs)

/-- `(\*)?$` -/
def takeWildcard : List Char → Option Bool
  | [] => some false
  | ['*'] => some true
  | _ => none

/-- `/^([<>]=?|==)?\s*(\d+)(?:\.(\d+))?(?:\.(\d+))?(\*)?$/` -/
def matchFilter (input : List Char) : Option FilterMatch :=
  let (operator, cs) := takeOperator input
  let spaces := cs.takeWhile Js.isSpace
  let (major, cs) := Json.digits (cs.dropWhile Js.isSpace)
  let (minor, cs) := takePart cs
  let (patch, cs) := takePart cs
  if major = [] then none
  else (takeWildcard cs).map fun wildcard => ⟨operator, spaces, major, minor, patch, wildcard⟩

/-! ## The query -/

/-- `Number.parseInt` of digits. -/
def parseDigits (digits : List Char) : ℕ := Nat.ofDigitChars 10 digits 0

/-- The versions whose numbers come on one side of three numbers, or are these if `last` says so. -/
def ordered (strict last : Comparison) (maj min pat : ℕ) : Condition Version :=
  let same (column : Version → ℕ) (value : ℕ) : Condition Version := .compare column .eq value
  .group <|
    ((Conditions.andWhere [] (.compare Version.major strict maj)).orWhere
      (.group ((Conditions.andWhere [] (same Version.major maj)).andWhere
        (.compare Version.minor strict min)))).orWhere
      (.group (((Conditions.andWhere [] (same Version.major maj)).andWhere
        (same Version.minor min)).andWhere (.compare Version.patch last pat)))

namespace FilterMatch

variable (m : FilterMatch)

/-- The operator of a filter, which is `==` if none is written. -/
def comparison : Comparison := m.operator.getD .eq

/-- `Number.parseInt(major)` -/
def maj : ℕ := parseDigits m.major

/-- `Number.parseInt(minor)`; a number that is not written is 0. -/
def min : ℕ := parseDigits (m.minor.getD ['0'])

/-- `Number.parseInt(patch)` -/
def pat : ℕ := parseDigits (m.patch.getD ['0'])

/-- Whether a filter is refused: a number has more than nine digits or is not a safe integer, or a
star comes with another operator than `==`. -/
def refused : Bool :=
  ([some m.major, m.minor, m.patch].any fun part => part.any fun digits => 9 < digits.length) ||
    !([m.maj, m.min, m.pat].all fun n => n ≤ 2 ^ 53 - 1) || (m.wildcard && m.comparison ≠ .eq)

/-- The query with the condition of a filter. -/
def restrict (query : Conditions Version) : Conditions Version :=
  if m.wildcard then
    let query := query.andWhere (.compare Version.major .eq m.maj)
    if m.minor.isSome then query.andWhere (.compare Version.minor .eq m.min) else query
  else
    match m.comparison with
    | .ge => query.andWhere (ordered .gt .ge m.maj m.min m.pat)
    | .gt => query.andWhere (ordered .gt .gt m.maj m.min m.pat)
    | .le => query.andWhere (ordered .lt .le m.maj m.min m.pat)
    | .lt => query.andWhere (ordered .lt .lt m.maj m.min m.pat)
    | .eq =>
      ((query.andWhere (.compare Version.major .eq m.maj)).andWhere
        (.compare Version.minor .eq m.min)).andWhere (.compare Version.patch .eq m.pat)

end FilterMatch

/-- `parseSemverFilter` -/
def parseSemverFilter (query : Conditions Version) (input : String) :
    Except String (Conditions Version) :=
  match matchFilter (Js.trim input).toList with
  | none => .error "Invalid semantic version filter."
  | some m => if m.refused then .error "Invalid semantic version filter." else .ok (m.restrict query)

/-- `text LIKE pattern` -/
def like : (pattern text : List Char) → Bool
  | [], [] => true
  | [], _ :: _ => false
  | '%' :: ps, [] => like ps []
  | '%' :: ps, c :: cs => like ps (c :: cs) || like ('%' :: ps) cs
  | '_' :: ps, _ :: cs => like ps cs
  | '\\' :: p :: ps, c :: cs => p = c && like ps cs
  | p :: ps, c :: cs => p = c && like ps cs
  | _ :: _, [] => false
termination_by ps cs => ps.length + cs.length

/-- The filter by codename. -/
def codenameFilter (node : Node) (package : VersionQueryPackage) (query : Conditions Version) :
    Input → Except String (Conditions Version)
  | some (.str codename) =>
    if codename = "" then .ok query
    else if 100 < Js.length codename then
      .error "Codename filter must be 100 characters or fewer."
    else
      .ok (query.andWhere (.satisfies fun v => v.codename.any fun s =>
        like ('%' :: ((node.toLowerCase codename).toList ++ ['%'])) (package.lower s).toList))
  | codename =>
    if codename.any Js.truthy then .error "Codename filter must be 100 characters or fewer."
    else .ok query

/-- A filter by release date. -/
def dateFilter (package : VersionQueryPackage) (message : String)
    (sqlDate : String → Option String) (condition : String → String → Bool)
    (query : Conditions Version) : Input → Except String (Conditions Version)
  | some (.str date) =>
    if date = "" then .ok query
    else if package.isValidDate date = false then .error message
    else
      .ok ((sqlDate date).elim query fun sqlDate =>
        query.andWhere (.satisfies fun v => v.releaseDate.any (condition sqlDate)))
  | date => if date.any Js.truthy then .error message else .ok query

/-- The filter by version number. -/
def versionNumberFilter (query : Conditions Version) : Input → Except String (Conditions Version)
  | some (.str versionNumber) =>
    if versionNumber = "" then .ok query
    else if 50 < Js.length versionNumber then .error "Invalid semantic version filter."
    else parseSemverFilter query versionNumber
  | versionNumber =>
    if versionNumber.any Js.truthy then .error "Invalid semantic version filter." else .ok query

/-- The filter by activity. -/
def activeFilter (query : Conditions Version) (isActive : Input) : Conditions Version :=
  if isActive = none ∨ isActive = some (.str "") then query
  else query.andWhere (.satisfies fun v =>
    v.isActive = (isActive = some (.str "1") || isActive = some (.bool true)))

/-- The condition of the chosen product. -/
def productConditions (softwareId : Id) : Conditions Version :=
  Conditions.andWhere [] (.satisfies fun v => v.softwareId = softwareId)

/-- The condition of `getFilteredVersions`, before the hook of the model adds that versions must not be
deleted. -/
def filterConditions (node : Node) (package : VersionQueryPackage) (filters : VersionFilters) :
    Except String (Conditions Version) :=
  match filters.softwareId with
  | some (.str softwareId) => do
    let query ← versionNumberFilter (productConditions softwareId) filters.versionNumber
    let query ← codenameFilter node package query filters.codename
    let query := activeFilter query filters.isActive
    let query ← dateFilter package "Invalid start date." package.startOfDay package.notAfter query
      filters.dateFrom
    dateFilter package "Invalid end date." package.endOfDay (fun sqlDate d =>
      package.notAfter d sqlDate) query filters.dateTo
  | _ => .error "A software product is required."

/-- The versions that a query selects, once the hook has hidden what is deleted. -/
def selectedVersions (t : Tables) (query : Conditions Version) : List Version :=
  t.versions.filter (query.andWhere (.satisfies fun v => v.deletedAt.isNone)).selects

/-- The rows that `getFilteredVersions` orders and divides into pages. -/
def getFilteredVersions (node : Node) (package : VersionQueryPackage) (t : Tables)
    (filters : VersionFilters) : Except String (List Version) :=
  (filterConditions node package filters).map (selectedVersions t)

/-! ## The grammar -/

/-- The text of an operator. -/
def operatorText : Comparison → List Char
  | .eq => ['=', '=']
  | .lt => ['<']
  | .le => ['<', '=']
  | .gt => ['>']
  | .ge => ['>', '=']

/-- The text of a part. -/
def partText (part : Option (List Char)) : List Char := part.elim [] ('.' :: ·)

/-- The text of a star, when there is one. -/
def wildcardText (wildcard : Bool) : List Char := if wildcard then ['*'] else []

/-- The text that a match is about. -/
def FilterMatch.text (m : FilterMatch) : List Char :=
  m.operator.elim [] operatorText ++ (m.spaces ++ (m.major ++
    (partText m.minor ++ (partText m.patch ++ wildcardText m.wildcard))))

/-- The digits of a number. -/
def IsNumber (digits : List Char) : Prop := digits ≠ [] ∧ ∀ c ∈ digits, c.isDigit = true

/-- What the regular expression asks of its groups. -/
structure FilterMatch.WellFormed (m : FilterMatch) : Prop where
  spaces : ∀ c ∈ m.spaces, Js.isSpace c = true
  major : IsNumber m.major
  minor : ∀ digits, m.minor = some digits → IsNumber digits
  patch : ∀ digits, m.patch = some digits → IsNumber digits
  nested : m.minor = none → m.patch = none

/-- Digits and what comes after them. -/
theorem digits_spec (cs : List Char) :
    cs = (Json.digits cs).1 ++ (Json.digits cs).2 ∧ ∀ c ∈ (Json.digits cs).1, c.isDigit = true := by
  induction cs with
  | nil => exact ⟨rfl, fun c hc => by cases hc⟩
  | cons c cs ih =>
    by_cases hc : c.isDigit = true
    · simp only [Json.digits, hc, if_true, List.cons_append, List.forall_mem_cons, true_and]
      exact ⟨congrArg _ ih.1, ih.2⟩
    · simp only [Json.digits, hc]
      exact ⟨rfl, fun c hc => by cases hc⟩

/-- An operator and what comes after it. -/
theorem takeOperator_spec (cs : List Char) :
    cs = (takeOperator cs).1.elim [] operatorText ++ (takeOperator cs).2 := by
  unfold takeOperator
  split <;> rfl

/-- A part and what comes after it. -/
theorem takePart_spec (cs : List Char) :
    cs = partText (takePart cs).1 ++ (takePart cs).2 ∧
      ∀ digits, (takePart cs).1 = some digits → IsNumber digits := by
  unfold takePart
  split
  · rename_i cs
    split_ifs with h
    · exact ⟨rfl, fun digits hd => by cases hd⟩
    · obtain ⟨happend, hdigits⟩ := digits_spec cs
      refine ⟨congrArg ('.' :: ·) happend, fun digits hd => ?_⟩
      obtain rfl := Option.some.inj hd
      exact ⟨h, hdigits⟩
  · exact ⟨rfl, fun digits hd => by cases hd⟩

/-- Where there is no part, nothing is taken. -/
theorem takePart_of_none {cs : List Char} (h : (takePart cs).1 = none) : (takePart cs).2 = cs := by
  have hspec := (takePart_spec cs).1
  rw [h] at hspec
  exact hspec.symm

/-- A star, when there is one, is the rest. -/
theorem takeWildcard_eq_some {cs : List Char} {wildcard : Bool} :
    takeWildcard cs = some wildcard ↔ cs = wildcardText wildcard := by
  unfold takeWildcard
  split
  · cases wildcard <;> simp [wildcardText]
  · cases wildcard <;> simp [wildcardText]
  · rename_i hnil hstar
    cases wildcard with
    | true => simpa [wildcardText] using hstar
    | false => simpa [wildcardText] using hnil

/-- Neither digits nor white space belong to an operator. -/
theorem ne_operator {c : Char} (h : c.isDigit = true ∨ Js.isSpace c = true) :
    c ≠ '<' ∧ c ≠ '>' ∧ c ≠ '=' := by
  refine ⟨?_, ?_, ?_⟩ <;> rintro rfl <;> revert h <;> decide

/-- What comes behind a number starts with a point or a star. -/
theorem head_rest {minor patch : Option (List Char)} {wildcard : Bool} {c : Char}
    (h : (partText minor ++ (partText patch ++ wildcardText wildcard)).head? = some c) :
    c = '.' ∨ c = '*' := by
  cases minor with
  | some digits => exact .inl (Option.some.inj h).symm
  | none =>
    cases patch with
    | some digits => exact .inl (Option.some.inj h).symm
    | none =>
      cases wildcard with
      | true => exact .inr (Option.some.inj h).symm
      | false => cases h

/-- A part is read back. -/
theorem takePart_partText {part : Option (List Char)} {cs : List Char}
    (h : ∀ digits, part = some digits → IsNumber digits)
    (hcs : ∀ c, cs.head? = some c → c.isDigit = false)
    (hnone : part = none → (takePart cs).1 = none) :
    takePart (partText part ++ cs) = (part, cs) := by
  cases part with
  | none => exact Prod.ext (hnone rfl) (takePart_of_none (hnone rfl))
  | some digits =>
    obtain ⟨hne, hdigits⟩ := h digits rfl
    have hread := Json.digits_append hdigits hcs
    simp only [partText, Option.elim_some, List.cons_append, takePart, hread, if_neg hne]

/-- An operator is read back. -/
theorem takeOperator_operatorText {operator : Option Comparison} {cs : List Char}
    (h : ∀ c, cs.head? = some c → c ≠ '<' ∧ c ≠ '>' ∧ c ≠ '=') :
    takeOperator (operator.elim [] operatorText ++ cs) = (operator, cs) := by
  cases cs with
  | nil =>
    cases operator with
    | none => rfl
    | some op => cases op <;> rfl
  | cons c cs =>
    obtain ⟨hlt, hgt, heq⟩ := h c rfl
    cases operator with
    | none => simp [takeOperator, hlt, hgt, heq]
    | some op => cases op <;> simp [operatorText, takeOperator, heq]

/-- The regular expression accepts exactly the texts of the grammar. -/
theorem matchFilter_iff {cs : List Char} {m : FilterMatch} :
    matchFilter cs = some m ↔ m.WellFormed ∧ cs = m.text := by
  constructor
  · intro h
    -- So the steps of the match take exactly the parts that the text was made of.
    unfold matchFilter at h
    dsimp only at h
    split_ifs at h with hmajor
    obtain ⟨wildcard, hwildcard, rfl⟩ := Option.map_eq_some_iff.mp h
    -- Each step of the match takes a part of the text and leaves the rest to the next.
    rw [takeWildcard_eq_some] at hwildcard
    obtain ⟨hdigits, hnumber⟩ := digits_spec ((takeOperator cs).2.dropWhile Js.isSpace)
    obtain ⟨hminor, hminor'⟩ := takePart_spec
      (Json.digits ((takeOperator cs).2.dropWhile Js.isSpace)).2
    obtain ⟨hpatch, hpatch'⟩ := takePart_spec
      (takePart (Json.digits ((takeOperator cs).2.dropWhile Js.isSpace)).2).2
    refine ⟨⟨fun c hc => List.mem_takeWhile_imp hc, ⟨hmajor, hnumber⟩, hminor', hpatch',
      fun hnone => ?_⟩, ?_⟩
    · dsimp only at hnone ⊢
      rw [takePart_of_none hnone]
      exact hnone
    · unfold FilterMatch.text
      dsimp only
      rw [← hwildcard, ← hpatch, ← hminor, ← hdigits, List.takeWhile_append_dropWhile]
      exact takeOperator_spec cs
  · rintro ⟨⟨hspaces, ⟨hne, hmajor⟩, hminor, hpatch, hnested⟩, rfl⟩
    obtain ⟨operator, spaces, major, minor, patch, wildcard⟩ := m
    dsimp only at *
    -- The first digit of the major part ends the operator and the white space.
    have hhead : ∀ {c : Char} {cs : List Char}, (major ++ cs).head? = some c →
        c.isDigit = true := by
      intro c cs hc
      obtain ⟨d, ds, rfl⟩ := List.exists_cons_of_ne_nil hne
      obtain rfl := Option.some.inj hc
      exact hmajor d (.head _)
    have hspace : ∀ {cs : List Char}, ((major ++ cs).takeWhile Js.isSpace) = [] ∧
        (major ++ cs).dropWhile Js.isSpace = major ++ cs := by
      intro cs
      obtain ⟨d, ds, rfl⟩ := List.exists_cons_of_ne_nil hne
      have hd := Js.isSpace_of_isDigit (hmajor d (.head _))
      exact ⟨List.takeWhile_cons_of_neg (by simp [hd]), List.dropWhile_cons_of_neg (by simp [hd])⟩
    have hoperator : takeOperator (FilterMatch.text ⟨operator, spaces, major, minor, patch,
        wildcard⟩) = (operator, spaces ++ (major ++ (partText minor ++ (partText patch ++
          wildcardText wildcard)))) := by
      refine takeOperator_operatorText fun c hc => ?_
      cases spaces with
      | nil =>
        exact ne_operator (.inl (hhead hc))
      | cons d ds =>
        obtain rfl := Option.some.inj hc
        exact ne_operator (.inr (hspaces d (.head _)))
    -- What follows the major part is no digit.
    have hrest : ∀ (minor patch : Option (List Char)) (c : Char),
        (partText minor ++ (partText patch ++ wildcardText wildcard)).head? = some c →
          c.isDigit = false := by
      intro minor patch c hc
      obtain rfl | rfl := head_rest hc <;> rfl
    have hread : takePart (partText patch ++ wildcardText wildcard) =
        (patch, wildcardText wildcard) := by
      refine takePart_partText hpatch (hrest none none) fun _ => ?_
      cases wildcard <;> rfl
    have hread' : takePart (partText minor ++ (partText patch ++ wildcardText wildcard)) =
        (minor, partText patch ++ wildcardText wildcard) := by
      refine takePart_partText hminor (hrest none _) fun hnone => ?_
      rw [hread, hnested hnone]
    unfold matchFilter
    dsimp only
    rw [hoperator]
    dsimp only
    rw [List.takeWhile_append_of_pos hspaces, List.dropWhile_append_of_pos hspaces, hspace.1,
      hspace.2, Json.digits_append hmajor (hrest _ _)]
    dsimp only
    rw [hread', List.append_nil]
    dsimp only
    rw [hread, if_neg hne, Option.map_eq_some_iff]
    exact ⟨wildcard, takeWildcard_eq_some.mpr rfl, rfl⟩

/-! ## What a filter selects -/

/-- The numbers of a filter. -/
def FilterMatch.core (m : FilterMatch) : Core := toLex (m.maj, toLex (m.min, m.pat))

/-- No number of a filter has more than nine digits. -/
structure FilterMatch.Short (m : FilterMatch) : Prop where
  major : m.major.length ≤ 9
  minor : ∀ digits, m.minor = some digits → digits.length ≤ 9
  patch : ∀ digits, m.patch = some digits → digits.length ≤ 9

/-- Digits are a number below the power of ten of their length. -/
theorem parseDigits_lt {digits : List Char} (h : ∀ c ∈ digits, c.isDigit = true) :
    parseDigits digits < 10 ^ digits.length := by
  induction digits with
  | nil => decide
  | cons c cs ih =>
    have hcs := ih fun d hd => h d (.tail _ hd)
    have hc := h c (.head _)
    simp only [Char.isDigit, Bool.and_eq_true, decide_eq_true_eq] at hc
    have hhigh : c.toNat ≤ 57 := UInt32.le_iff_toNat_le.mp hc.2
    have hzero : '0'.toNat = 48 := rfl
    unfold parseDigits at hcs ⊢
    rw [Nat.ofDigitChars_cons, Nat.ofDigitChars_eq_ofDigitChars_zero, List.length_cons, Nat.pow_succ,
      hzero]
    have hdigit : 10 * 0 + (c.toNat - 48) ≤ 9 := by omega
    calc 10 ^ cs.length * (10 * 0 + (c.toNat - 48)) + Nat.ofDigitChars 10 cs 0
      _ ≤ 10 ^ cs.length * 9 + Nat.ofDigitChars 10 cs 0 :=
        Nat.add_le_add_right (Nat.mul_le_mul_left _ hdigit) _
      _ < 10 ^ cs.length * 10 := by omega

/-- So is a part, which is 0 if it is not written. -/
theorem parseDigits_getD_le {part : Option (List Char)}
    (hnumber : ∀ ds, part = some ds → IsNumber ds) (hshort : ∀ ds, part = some ds → ds.length ≤ 9) :
    parseDigits (part.getD ['0']) ≤ 2 ^ 53 - 1 := by
  cases part with
  | none => decide
  | some ds =>
    have hlt := parseDigits_lt (hnumber ds rfl).2
    have hpow : 10 ^ ds.length ≤ 10 ^ 9 := Nat.pow_le_pow_right (by decide) (hshort ds rfl)
    rw [Option.getD_some]
    omega

/-- A filter of the grammar is refused when a number is too long or a star comes with another operator
than `==`. -/
theorem FilterMatch.WellFormed.refused_eq_false_iff {m : FilterMatch} (hm : m.WellFormed) :
    m.refused = false ↔ m.Short ∧ (m.wildcard = true → m.comparison = .eq) := by
  have hpart : ∀ part : Option (List Char), (part.any fun digits => 9 < digits.length) = false ↔
      ∀ digits, part = some digits → digits.length ≤ 9 := by
    intro part
    cases part <;> simp
  have hshort : ([some m.major, m.minor, m.patch].any fun part =>
      part.any fun digits => 9 < digits.length) = false ↔ m.Short := by
    simp only [List.any_cons, List.any_nil, Bool.or_false, Bool.or_eq_false_iff, hpart]
    constructor
    · exact fun h => ⟨h.1 _ rfl, h.2.1, h.2.2⟩
    · exact fun h => ⟨fun digits hd => Option.some.inj hd ▸ h.major, h.minor, h.patch⟩
  have hsafe : m.Short → ([m.maj, m.min, m.pat].all fun n => n ≤ 2 ^ 53 - 1) = true := by
    intro h
    have hmaj : m.maj ≤ 2 ^ 53 - 1 := @parseDigits_getD_le (some m.major)
      (fun ds hds => Option.some.inj hds ▸ hm.major) fun ds hds => Option.some.inj hds ▸ h.major
    have hmin : m.min ≤ 2 ^ 53 - 1 := parseDigits_getD_le hm.minor h.minor
    have hpat : m.pat ≤ 2 ^ 53 - 1 := parseDigits_getD_le hm.patch h.patch
    simp only [List.all_cons, List.all_nil, decide_eq_true hmaj, decide_eq_true hmin,
      decide_eq_true hpat, Bool.and_self]
  unfold FilterMatch.refused
  rw [Bool.or_eq_false_iff, Bool.or_eq_false_iff, hshort]
  constructor
  · rintro ⟨⟨h, -⟩, hstar⟩
    refine ⟨h, fun hwildcard => ?_⟩
    simpa [hwildcard] using hstar
  · rintro ⟨h, hstar⟩
    refine ⟨⟨h, by rw [hsafe h]; rfl⟩, ?_⟩
    cases hwildcard : m.wildcard with
    | true => simp [hstar hwildcard]
    | false => rfl

/-- A filter is accepted when it is of the grammar and not refused. -/
theorem parseSemverFilter_eq_ok {query query' : Conditions Version} {input : String} :
    parseSemverFilter query input = .ok query' ↔ ∃ m : FilterMatch, m.WellFormed ∧
      (Js.trim input).toList = m.text ∧ m.refused = false ∧ query' = m.restrict query := by
  unfold parseSemverFilter
  constructor
  · intro h
    split at h
    · cases h
    · rename_i m hm
      obtain ⟨hwf, htext⟩ := matchFilter_iff.mp hm
      split_ifs at h with hrefused
      exact ⟨m, hwf, htext, by simpa using hrefused, (Except.ok.inj h).symm⟩
  · rintro ⟨m, hwf, htext, hrefused, rfl⟩
    rw [matchFilter_iff.mpr ⟨hwf, htext⟩]
    simp only [hrefused, Bool.false_eq_true, if_false]

/-- The texts of the grammar determine their groups. -/
theorem FilterMatch.WellFormed.eq_of_text {m m' : FilterMatch} (hm : m.WellFormed)
    (hm' : m'.WellFormed) (h : m.text = m'.text) : m = m' :=
  Option.some.inj ((matchFilter_iff.mpr ⟨hm, rfl⟩).symm.trans (matchFilter_iff.mpr ⟨hm', h⟩))

/-- What a group of comparisons says. -/
theorem holds_ordered {strict last : Comparison} {maj min pat : ℕ} {v : Version} :
    (ordered strict last maj min pat).holds v = true ↔
      strict.Holds v.major maj ∨ v.major = maj ∧ strict.Holds v.minor min ∨
        v.major = maj ∧ v.minor = min ∧ last.Holds v.patch pat := by
  simp [ordered, Conditions.andWhere, Conditions.orWhere, Condition.holds, holdsAll, holdsAny]

/-- The groups of the source are the lexicographic order. -/
theorem holds_ordered_iff {op strict last : Comparison} {maj min pat : ℕ} {v : Version}
    (h : (op = .lt ∧ strict = .lt ∧ last = .lt) ∨ (op = .le ∧ strict = .lt ∧ last = .le) ∨
      (op = .gt ∧ strict = .gt ∧ last = .gt) ∨ (op = .ge ∧ strict = .gt ∧ last = .ge)) :
    (ordered strict last maj min pat).holds v = true ↔
      op.Holds v.core (toLex (maj, toLex (min, pat))) := by
  rw [holds_ordered]
  obtain ⟨rfl, rfl, rfl⟩ | ⟨rfl, rfl, rfl⟩ | ⟨rfl, rfl, rfl⟩ | ⟨rfl, rfl, rfl⟩ := h
  · simp only [Comparison.lt_holds, Version.core, core_lt_iff]
    omega
  · simp only [Comparison.lt_holds, Comparison.le_holds, Version.core, le_iff_lt_or_eq, core_lt_iff,
      core_eq_iff]
    omega
  · simp only [Comparison.gt_holds, Version.core, core_lt_iff]
    omega
  · simp only [Comparison.gt_holds, Comparison.ge_holds, Version.core, le_iff_lt_or_eq, core_lt_iff,
      core_eq_iff]
    omega

variable {query : Conditions Version} {m : FilterMatch} {v : Version}

/-- A filter without a star compares the three numbers. -/
theorem selects_restrict (hq : query.Single) (hw : m.wildcard = false) :
    (m.restrict query).selects v = true ↔
      query.selects v = true ∧ m.comparison.Holds v.core m.core := by
  unfold FilterMatch.restrict FilterMatch.core
  rw [hw, if_neg Bool.false_ne_true]
  cases hop : m.comparison with
  | eq =>
    rw [((hq.andWhere _).andWhere _).selects_andWhere, (hq.andWhere _).selects_andWhere,
      hq.selects_andWhere]
    simp only [Condition.holds, Comparison.eq_holds, Bool.and_eq_true, decide_eq_true_eq, and_assoc,
      Version.core, core_eq_iff]
  | lt =>
    rw [hq.selects_andWhere, Bool.and_eq_true, holds_ordered_iff (.inl ⟨rfl, rfl, rfl⟩)]
  | le =>
    rw [hq.selects_andWhere, Bool.and_eq_true, holds_ordered_iff (.inr (.inl ⟨rfl, rfl, rfl⟩))]
  | gt =>
    rw [hq.selects_andWhere, Bool.and_eq_true,
      holds_ordered_iff (.inr (.inr (.inl ⟨rfl, rfl, rfl⟩)))]
  | ge =>
    rw [hq.selects_andWhere, Bool.and_eq_true,
      holds_ordered_iff (.inr (.inr (.inr ⟨rfl, rfl, rfl⟩)))]

/-- A filter with a star compares the first number, and the second one if it is written. -/
theorem selects_restrict_wildcard (hq : query.Single) (hw : m.wildcard = true) :
    (m.restrict query).selects v = true ↔
      query.selects v = true ∧ v.major = m.maj ∧ (m.minor.isSome = true → v.minor = m.min) := by
  unfold FilterMatch.restrict
  rw [hw, if_pos rfl]
  cases hminor : m.minor.isSome with
  | true =>
    simp only [if_true, (hq.andWhere _).selects_andWhere, hq.selects_andWhere, Condition.holds,
      Comparison.eq_holds, Bool.and_eq_true, decide_eq_true_eq, and_assoc, forall_const]
  | false =>
    simp only [Bool.false_eq_true, if_false, hq.selects_andWhere, Condition.holds,
      Comparison.eq_holds, Bool.and_eq_true, decide_eq_true_eq, false_imp_iff, and_true]

/-- The condition of a query keeps to one alternative. -/
theorem single_restrict (hq : query.Single) : (m.restrict query).Single := by
  unfold FilterMatch.restrict
  split_ifs
  · exact (hq.andWhere _).andWhere _
  · exact hq.andWhere _
  · cases m.comparison with
    | eq => exact ((hq.andWhere _).andWhere _).andWhere _
    | _ => exact hq.andWhere _

/-! ## The versions of a product -/

/-- A version of a product that is not deleted. -/
def VersionOf (t : Tables) (softwareId : Id) (v : Version) : Prop :=
  v ∈ t.versions ∧ v.deletedAt = none ∧ v.softwareId = softwareId

variable {t : Tables} {softwareId : Id}

/-- What restricts the query of a product. -/
theorem mem_selectedVersions (hq : (m.restrict (productConditions softwareId)).Single) :
    v ∈ selectedVersions t (m.restrict (productConditions softwareId)) ↔
      v ∈ t.versions ∧ v.deletedAt = none ∧
        (m.restrict (productConditions softwareId)).selects v = true := by
  unfold selectedVersions
  rw [List.mem_filter, hq.selects_andWhere, Bool.and_eq_true, and_comm (b := Condition.holds _ _ = _)]
  simp only [Condition.holds, Option.isNone_iff_eq_none]

/-- The condition of a product has no alternatives. -/
theorem single_productConditions (softwareId : Id) : (productConditions softwareId).Single := le_rfl

/-- It selects the versions of the product. -/
theorem selects_productConditions :
    (productConditions softwareId).selects v = true ↔ v.softwareId = softwareId := by
  simp [productConditions, Conditions.andWhere, Conditions.selects, Condition.holds, holdsAll,
    holdsAny]

/-- The versions that a filter without a star selects. -/
theorem mem_selectedVersions_comparison (hw : m.wildcard = false) :
    v ∈ selectedVersions t (m.restrict (productConditions softwareId)) ↔
      VersionOf t softwareId v ∧ m.comparison.Holds v.core m.core := by
  have hq := single_productConditions softwareId
  rw [mem_selectedVersions (single_restrict hq), selects_restrict hq hw, selects_productConditions]
  unfold VersionOf
  simp only [and_assoc]

/-- The versions that a filter with a star selects. -/
theorem mem_selectedVersions_wildcard (hw : m.wildcard = true) :
    v ∈ selectedVersions t (m.restrict (productConditions softwareId)) ↔
      VersionOf t softwareId v ∧ v.major = m.maj ∧ (m.minor.isSome = true → v.minor = m.min) := by
  have hq := single_productConditions softwareId
  rw [mem_selectedVersions (single_restrict hq), selects_restrict_wildcard hq hw,
    selects_productConditions]
  unfold VersionOf
  simp only [and_assoc]

/-- A text of at most 50 characters that is not empty is a filter of its own. -/
theorem getFilteredVersions_versionNumber (node : Node) (package : VersionQueryPackage)
    {input : String} (hne : input ≠ "") (hlen : Js.length input ≤ 50) :
    getFilteredVersions node package t
        ⟨some (.str softwareId), some (.str input), none, none, none, none⟩ =
      (parseSemverFilter (productConditions softwareId) input).map (selectedVersions t) := by
  have hnumber : versionNumberFilter (productConditions softwareId) (some (.str input)) =
      parseSemverFilter (productConditions softwareId) input := by
    simp only [versionNumberFilter, hne, if_false, Nat.not_lt.mpr hlen]
  unfold getFilteredVersions filterConditions
  simp only [hnumber]
  cases parseSemverFilter (productConditions softwareId) input with
  | error e => rfl
  | ok query => rfl

/-! ## Comparators -/

/-- A wildcard text as the filter's field advertises it. -/
def advertised (equals : Bool) (spaces major : List Char) (minor : Option (List Char)) :
    List Char :=
  (if equals then ['=', '='] else []) ++ (spaces ++ (major ++ (partText minor ++ ['.', '*'])))

/-- A version has the numbers that a filter has. -/
def FilterMatch.Agrees (m : FilterMatch) (v : Version) : Prop :=
  v.major = parseDigits m.major ∧
    (∀ digits, m.minor = some digits → v.minor = parseDigits digits) ∧
    ∀ digits, m.patch = some digits → v.patch = parseDigits digits

/-- A text that ends in a digit. -/
def EndsInDigit (cs : List Char) : Prop := ∃ ds d, cs = ds ++ [d] ∧ d.isDigit = true

/-- A number does. -/
theorem IsNumber.endsInDigit {digits : List Char} (h : IsNumber digits) : EndsInDigit digits := by
  obtain rfl | ⟨ds, d, rfl⟩ := List.eq_nil_or_concat digits
  · exact absurd rfl h.1
  · rw [List.concat_eq_append] at h ⊢
    exact ⟨ds, d, rfl, h.2 d (by simp)⟩

/-- So does a text with a number at its end. -/
theorem EndsInDigit.append {cs : List Char} (h : EndsInDigit cs) (cs' : List Char) :
    EndsInDigit (cs' ++ cs) := by
  obtain ⟨ds, d, rfl, hd⟩ := h
  exact ⟨cs' ++ ds, d, (List.append_assoc _ _ _).symm, hd⟩

/-- In front of a star there is a digit. -/
theorem FilterMatch.WellFormed.endsInDigit {m : FilterMatch} (hm : m.WellFormed) :
    ∃ cs, EndsInDigit cs ∧ m.text = cs ++ wildcardText m.wildcard := by
  refine ⟨m.operator.elim [] operatorText ++ (m.spaces ++ (m.major ++
    (partText m.minor ++ partText m.patch))), .append (.append ?_ _) _, ?_⟩
  · cases hpatch : m.patch with
    | some digits =>
      exact .append (.append ((hm.patch _ hpatch).endsInDigit.append ['.']) _) _
    | none =>
      cases hminor : m.minor with
      | some digits =>
        rw [show partText none = [] from rfl, List.append_nil]
        exact .append ((hm.minor _ hminor).endsInDigit.append ['.']) _
      | none =>
        rw [show partText none ++ partText none = [] from rfl, List.append_nil]
        exact hm.major.endsInDigit
  · unfold FilterMatch.text
    simp only [List.append_assoc]

/-- No advertised wildcard text is of the grammar. -/
theorem matchFilter_advertised (equals : Bool) (spaces major : List Char)
    (minor : Option (List Char)) : matchFilter (advertised equals spaces major minor) = none := by
  refine Option.eq_none_iff_forall_ne_some.mpr fun m h => ?_
  obtain ⟨hm, htext⟩ := matchFilter_iff.mp h
  obtain ⟨_, ⟨ds, d, rfl, hd⟩, hends⟩ := hm.endsInDigit
  have hstar : advertised equals spaces major minor =
      (((if equals then ['=', '='] else []) ++ (spaces ++ (major ++ partText minor))) ++ ['.']) ++
        ['*'] := by
    unfold advertised
    simp only [List.append_assoc]
    rfl
  rw [hstar, hends] at htext
  cases hw : m.wildcard with
  | true =>
    rw [hw] at htext
    obtain ⟨hbody, -⟩ := List.append_inj' htext rfl
    obtain ⟨-, hlast⟩ := List.append_inj' hbody rfl
    obtain rfl := (List.cons.inj hlast).1
    cases hd
  | false =>
    rw [hw, show wildcardText false = [] from rfl, List.append_nil] at htext
    obtain ⟨-, hlast⟩ := List.append_inj' htext rfl
    obtain rfl := (List.cons.inj hlast).1
    cases hd

/-- The wildcard texts that the field advertises are refused, whatever the query is; and a wildcard
text that is accepted selects the versions with the numbers that it has exactly when no third one
stands in front of the star. -/
theorem version_filter_wildcards (softwareId : Id) :
    (∀ equals spaces major minor input query, (∀ c ∈ spaces, Js.isSpace c = true) →
      IsNumber major → (∀ digits, minor = some digits → IsNumber digits) →
      (Js.trim input).toList = advertised equals spaces major minor →
      parseSemverFilter query input = .error "Invalid semantic version filter.") ∧
    ∀ input query (m : FilterMatch),
      parseSemverFilter (productConditions softwareId) input = .ok query →
      matchFilter (Js.trim input).toList = some m → m.wildcard = true →
      ((∀ t v, v ∈ selectedVersions t query ↔ VersionOf t softwareId v ∧ m.Agrees v) ↔
        m.patch = none) := by
  refine ⟨fun equals spaces major minor input query _ _ _ htext => ?_,
    fun input query m h hmatch hw => ?_⟩
  · unfold parseSemverFilter
    rw [htext, matchFilter_advertised]
  · obtain ⟨m', hm, htext, -, rfl⟩ := parseSemverFilter_eq_ok.mp h
    obtain rfl : m' = m := Option.some.inj ((matchFilter_iff.mpr ⟨hm, htext⟩).symm.trans hmatch)
    have hmin : ∀ digits, m'.minor = some digits → m'.min = parseDigits digits := by
      intro digits hd
      rw [FilterMatch.min, hd]
      rfl
    constructor
    · intro hall
      by_contra hne
      obtain ⟨digits, hdigits⟩ := Option.ne_none_iff_exists'.mp hne
      -- A version that differs in its third number only.
      let v : Version := { releaseVersion none with
        softwareId, major := m'.maj, minor := m'.min, patch := parseDigits digits + 1 }
      have hv : v ∈ selectedVersions { publicTables with versions := [v] }
          (m'.restrict (productConditions softwareId)) :=
        (mem_selectedVersions_wildcard hw).mpr ⟨⟨.head _, rfl, rfl⟩, rfl, fun _ => rfl⟩
      have hagrees := ((hall _ v).mp hv).2.2.2 digits hdigits
      exact absurd hagrees (Nat.succ_ne_self _)
    · intro hpatch t v
      rw [mem_selectedVersions_wildcard hw]
      refine and_congr_right fun _ => and_congr_right fun _ => ⟨fun h => ⟨fun ds hds => ?_,
        fun ds hds => ?_⟩, fun h hsome => ?_⟩
      · rw [h (by rw [hds]; rfl), hmin ds hds]
      · rw [hpatch] at hds
        cases hds
      · obtain ⟨ds, hds⟩ := Option.isSome_iff_exists.mp hsome
        rw [h.1 ds hds, hmin ds hds]

/-- The text that the field gives as an example is refused, and a star behind three numbers selects a
version with another third number. -/
theorem wildcard_example_refused :
    parseSemverFilter (productConditions "p") "1.0.*" = .error "Invalid semantic version filter." ∧
      ((parseSemverFilter (productConditions "p") "1.0.7*").map fun query =>
        selectedVersions (releaseTables none unsigned) query) = .ok [releaseVersion none] := by
  have hadvertised : matchFilter (Js.trim "1.0.*").toList = none := by decide +kernel
  have hthree : matchFilter (Js.trim "1.0.7*").toList =
      some ⟨none, [], ['1'], some ['0'], some ['7'], true⟩ := by decide +kernel
  refine ⟨by simp only [parseSemverFilter, hadvertised], ?_⟩
  have hrefused : FilterMatch.refused ⟨none, [], ['1'], some ['0'], some ['7'], true⟩ = false := by
    decide +kernel
  simp only [parseSemverFilter, hthree, hrefused, Bool.false_eq_true, if_false, Except.map]
  exact congrArg Except.ok (by decide +kernel)

end VersionService

end Reeva
