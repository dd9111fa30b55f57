import Reeva.Codec.Doubles
import Reeva.Storage.ProviderForms

/-!
# The form of a provider

The service shows a provider in a form, without its secrets, and saves what is entered into it. What
is shown is read anew when it is saved: `unchanged_form_iff` says for which providers nothing changes.
-/

namespace Reeva

open Legacy (bind_eq_ok map_eq_ok)

/-- The configuration as it is shown. -/
structure SafeConfig where
  driver : String
  root : String
  endpoint : String
  bucket : String
  region : String
  forcePathStyle : Json
  maxAttempts : Json
  connectionTimeoutMs : Json
  socketTimeoutMs : Json
  downloadUrlTtlSeconds : Json
  credentialsConfigured : Bool
  sessionTokenConfigured : Bool

/-- What a form shows of a provider. -/
structure EditView where
  id : Id
  name : String
  type : String
  quotaGb : ℚ
  config : SafeConfig

/-- A string, or the text that stands for other values. -/
def stringOr (value : Option Json) (fallback : String) : String :=
  match value with
  | some (.str s) => s
  | _ => fallback

namespace StorageProviderService

/-- The port of an endpoint as it is shown. -/
def safePort : Option Json → String
  | some (.str s) => ":" ++ s
  | some (.int n) => ":" ++ Js.text (.int n)
  | some (.float m e) => ":" ++ Js.text (.float m e)
  | _ => ""

/-- The endpoint as it is shown: one without a scheme gets one, and the port. -/
def safeEndpoint (config : Json) : String :=
  let endpoint := stringOr (config.get? "endpoint") ""
  if endpoint ≠ "" ∧ hasScheme endpoint = false then
    let useSSL := config.get? "useSSL"
    (if useSSL = some (.bool true) ∨ useSSL = some (.str "true") then "https" else "http") ++
      "://" ++ (endpoint ++ safePort (config.get? "port"))
  else endpoint

/-- The path style as it is shown. -/
def safePathStyle (config : Json) : Json :=
  match config.get? "forcePathStyle" with
  | some (.bool b) => .bool b
  | some (.str s) => .str s
  | _ => .str "auto"

/-- A number as it is shown: `value ?? fallback`. -/
def safeNumber (config : Json) (key : String) (fallback : ℤ) : Json :=
  (coalesce (config.get? key) none).getD (.int fallback)

/-- `safeProviderConfig` -/
def safeProviderConfig (platform : StoragePlatform) (provider : StorageProvider) : SafeConfig :=
  let config := provider.config
  { driver := providerDriver platform provider
    root := stringOr (config.get? "root") ""
    endpoint := safeEndpoint config
    bucket := stringOr (config.get? "bucket") ""
    region := stringOr (config.get? "region") "us-east-1"
    forcePathStyle := safePathStyle config
    maxAttempts := safeNumber config "maxAttempts" 3
    connectionTimeoutMs := safeNumber config "connectionTimeoutMs" 10000
    socketTimeoutMs := safeNumber config "socketTimeoutMs" 120000
    downloadUrlTtlSeconds := safeNumber config "downloadUrlTtlSeconds" 3600
    credentialsConfigured :=
      (orJson (config.get? "accessKeyId") (config.get? "accessKey")).any Js.truthy &&
        (orJson (config.get? "secretAccessKey") (config.get? "secretKey")).any Js.truthy
    sessionTokenConfigured := (config.get? "sessionToken").any Js.truthy }

/-- `getProviderEditView`; the quotient by a power of two is exact. -/
def getProviderEditView (platform : StoragePlatform) (provider : StorageProvider) : EditView where
  id := provider.id
  name := provider.name
  type := provider.type
  quotaGb := (Js.toDouble (provider.quotaBytes.getD 0)).getD 0 / gbInBytes
  config := safeProviderConfig platform provider

/-- The form of a view that is sent as it is shown: its values as strings, with blank fields for the
secrets, and no box checked. `numberText` is `String(x)` for numbers. -/
def editForm (numberText : ℚ → String) (view : EditView) : Json :=
  .obj [
    ("name", .str view.name),
    ("quotaGb", .str (numberText view.quotaGb)),
    ("root", .str view.config.root),
    ("endpoint", .str view.config.endpoint),
    ("bucket", .str view.config.bucket),
    ("region", .str view.config.region),
    ("forcePathStyle", .str (Js.text view.config.forcePathStyle)),
    ("accessKeyId", .str ""),
    ("secretAccessKey", .str ""),
    ("sessionToken", .str ""),
    ("maxAttempts", .str (Js.text view.config.maxAttempts)),
    ("connectionTimeoutMs", .str (Js.text view.config.connectionTimeoutMs)),
    ("socketTimeoutMs", .str (Js.text view.config.socketTimeoutMs)),
    ("downloadUrlTtlSeconds", .str (Js.text view.config.downloadUrlTtlSeconds))]

end StorageProviderService

open StorageProviderService

/-- The strings that are shown fit into the form. -/
structure EditView.Fits (view : EditView) : Prop where
  name : Js.length view.name ≤ 100
  endpoint : Js.length view.config.endpoint ≤ 2048
  bucket : Js.length view.config.bucket ≤ 255
  region : Js.length view.config.region ≤ 100

/-- A value that counts as none. -/
def isBlank (value : Option Json) : Bool := [none, some .null, some (.str "")].contains value

/-- Two texts that are parsed to URLs with the same endpoint. -/
def SameEndpoint (parseUrl : String → Option Url) (a b : String) : Prop :=
  ∃ u v, parseUrl a = some u ∧ u.IsEndpoint ∧ parseUrl b = some v ∧ u.endpoint = v.endpoint

/-- The settings that are numbers. -/
def numberKeys : List String :=
  ["maxAttempts", "connectionTimeoutMs", "socketTimeoutMs", "downloadUrlTtlSeconds"]

/-- What a provider needs so that its form changes nothing. An endpoint without a scheme is shown with
one, and with the port: what is shown must be read as what the driver makes of the stored endpoint. -/
structure SurvivesForm (parseUrl : String → Option Url) (driver : String) (p : StorageProvider) :
    Prop where
  name : Js.trim p.name ≠ ""
  quota : ∃ n, p.quotaBytes = some n ∧ 0 ≤ n ∧ n ≤ 1000000 * gbInBytes
  numbers : ∀ key ∈ numberKeys, p.config.get? key ≠ some (.bool true)
  accessKeyId : p.config.get? "accessKeyId" = some (.str "") →
    isBlank (p.config.get? "accessKey") = true
  secretAccessKey : p.config.get? "secretAccessKey" = some (.str "") →
    isBlank (p.config.get? "secretKey") = true
  endpoint : ∀ e, p.config.get? "endpoint" = some (.str e) → e ≠ "" → hasScheme e = false →
    SameEndpoint parseUrl (Js.trim (safeEndpoint p.config))
      (endpointText (takesLegacyHost driver) (Js.trim e) (p.config.get? "port")
        (p.config.get? "useSSL"))

section fields

variable {v : Option Json} {name : String} {n fallback max : ℤ}

/-- What `asPositiveInteger` accepts. -/
theorem asPositiveInteger_eq_ok (h : asPositiveInteger v fallback name max = .ok n) :
    (isBlank v = true ∧ n = fallback) ∨
      ∃ w, v = some w ∧ Js.toNumber w = some (n : ℚ) ∧ 1 ≤ n ∧ n ≤ max := by
  unfold asPositiveInteger at h
  split at h
  · exact .inl ⟨rfl, (Except.ok.inj h).symm⟩
  · exact .inl ⟨rfl, (Except.ok.inj h).symm⟩
  · exact .inl ⟨rfl, (Except.ok.inj h).symm⟩
  · rename_i w _ _
    split at h
    · rename_i q hq
      split_ifs at h with hrange
      obtain rfl := Except.ok.inj h
      have hnum : ((q.num : ℤ) : ℚ) = q := Rat.coe_int_num_of_den_eq_one hrange.1
      rw [← hnum] at hq hrange
      exact .inr ⟨w, rfl, hq, by exact_mod_cast hrange.2.1, by exact_mod_cast hrange.2.2⟩
    · cases h

/-- A text that stands for a number within the limits is accepted. -/
theorem asPositiveInteger_text {text : String} (h : Js.numberOfText text = some (n : ℚ))
    (hn : 1 ≤ n ∧ n ≤ max) : asPositiveInteger (some (.str text)) fallback name max = .ok n := by
  have hread : Js.toNumber (.str text) = some (n : ℚ) := h
  have hq : ((n : ℚ)).den = 1 ∧ 1 ≤ (n : ℚ) ∧ (n : ℚ) ≤ max :=
    ⟨Rat.den_intCast n, by exact_mod_cast hn.1, by exact_mod_cast hn.2⟩
  unfold asPositiveInteger
  split
  · rename_i he
    cases he
  · rename_i he
    cases he
  · rename_i he
    obtain rfl := Json.str.inj (Option.some.inj he)
    have hzero : (0 : ℚ) = n := Option.some.inj h
    have : n = 0 := by exact_mod_cast hzero.symm
    omega
  · rename_i he
    obtain rfl := Option.some.inj he
    rw [hread]
    dsimp only
    rw [if_pos hq, Rat.num_intCast]

/-- A number that is shown is read back, except for `true`: it counts as one, but its text does not. -/
theorem asPositiveInteger_shown (hfallback : 1 ≤ fallback ∧ fallback ≤ max) (hmax : max < 2 ^ 53)
    (h : asPositiveInteger v fallback name max = .ok n) :
    asPositiveInteger (some (.str (Js.text ((coalesce v none).getD (.int fallback))))) fallback name
        max = .ok n ↔ v ≠ some (.bool true) := by
  constructor
  · rintro hshown rfl
    have htrue : Js.toNumber (.str "true") = none := by decide +kernel
    change asPositiveInteger (some (.str "true")) fallback name max = .ok n at hshown
    obtain ⟨hblank, -⟩ | ⟨w, hw, hread, -⟩ := asPositiveInteger_eq_ok hshown
    · revert hblank
      decide
    · obtain rfl := Option.some.inj hw
      rw [htrue] at hread
      cases hread
  · intro htrue
    have hdefault : asPositiveInteger (some (.str (Js.text (.int fallback)))) fallback name max =
        .ok fallback := by
      have hsafe : Js.isSafeInteger fallback = true := by
        unfold Js.isSafeInteger
        simp only [Bool.and_eq_true, decide_eq_true_eq]
        omega
      have hread : Js.toNumber (.int fallback) = some (fallback : ℚ) := Js.toDouble_intCast hsafe
      exact asPositiveInteger_text
        (Js.numberOfText_text hread hfallback.1 (by omega) (fun he => by cases he)) hfallback
    obtain ⟨hblank, rfl⟩ | ⟨w, rfl, hread, hn⟩ := asPositiveInteger_eq_ok h
    · unfold isBlank at hblank
      rw [List.contains_iff_mem] at hblank
      simp only [List.mem_cons, List.not_mem_nil, or_false] at hblank
      obtain rfl | rfl | rfl := hblank
      · exact hdefault
      · exact hdefault
      · rfl
    · have hnull : w ≠ .null := by
        rintro rfl
        have hzero : (0 : ℚ) = n := Option.some.inj hread
        have : n = 0 := by exact_mod_cast hzero.symm
        omega
      have hshown : coalesce (some w) none = some w := by
        cases w <;> first | rfl | exact absurd rfl hnull
      rw [hshown, Option.getD_some]
      refine asPositiveInteger_text (Js.numberOfText_text hread hn.1 (by omega) ?_) hn
      exact fun he => htrue (congrArg some he)

/-- Only blank values count as none. -/
theorem asOptionalString_eq_none_iff : asOptionalString v name = .ok none ↔ isBlank v = true := by
  unfold isBlank
  rw [List.contains_iff_mem]
  simp only [List.mem_cons, List.not_mem_nil, or_false]
  constructor
  · intro h
    unfold asOptionalString at h
    split at h
    · exact .inl rfl
    · exact .inr (.inl rfl)
    · exact .inr (.inr rfl)
    · split_ifs at h
      cases Except.ok.inj h
    · cases h
  · rintro (rfl | rfl | rfl) <;> rfl

/-- A secret is kept, unless an older release's counts for an empty one. -/
theorem asOptionalString_orJson {a b : Option Json} {o : Option String}
    (h : asOptionalString (coalesce a b) name = .ok o) :
    asOptionalString (orJson a b) name = .ok o ↔ (a = some (.str "") → isBlank b = true) := by
  by_cases hempty : a = some (.str "")
  · subst hempty
    obtain rfl : none = o := Except.ok.inj h
    have hor : orJson (some (.str "")) b = b := rfl
    rw [hor, asOptionalString_eq_none_iff]
    exact ⟨fun hb _ => hb, fun hb => hb rfl⟩
  · refine ⟨fun _ he => absurd he hempty, fun _ => ?_⟩
    cases a with
    | none => exact h
    | some a =>
      cases a with
      | null => exact h
      | str s =>
        have hne : s ≠ "" := fun he => hempty (by rw [he])
        have hor : orJson (some (.str s)) b = some (.str s) := if_pos (decide_eq_true hne)
        rw [hor]
        exact h
      | bool b => cases h
      | int n => cases h
      | float m e => cases h
      | arr xs => cases h
      | obj fields => cases h

/-- A bucket is read as it is shown. -/
theorem readBucket_shown {bucket : String} (h : asOptionalString v "S3_BUCKET" = .ok (some bucket))
    (hchars : badBucket bucket = false) (hfits : Js.length (stringOr v "") ≤ 255) :
    readBucket (some (.str (stringOr v ""))) = .ok bucket := by
  obtain ⟨t, rfl, rfl, hne⟩ := asOptionalString_eq_some h
  exact (readBucket_eq_ok_iff (inputString_str _ hfits)).mpr
    ⟨asOptionalString_trimmed _ (trim_trim t) hne, hchars⟩

/-- A region is read as it is shown. -/
theorem readRegion_shown {region : Option String} (h : asOptionalString v "S3_REGION" = .ok region)
    (hfits : Js.length (stringOr v "us-east-1") ≤ 100) :
    readRegion (some (.str (stringOr v "us-east-1"))) = .ok (region.getD "us-east-1") := by
  cases region with
  | none =>
    have hblank := asOptionalString_eq_none_iff.mp h
    unfold isBlank at hblank
    rw [List.contains_iff_mem] at hblank
    simp only [List.mem_cons, List.not_mem_nil, or_false] at hblank
    obtain rfl | rfl | rfl := hblank <;> decide
  | some region =>
    obtain ⟨t, rfl, rfl, hne⟩ := asOptionalString_eq_some h
    refine (readRegion_eq_ok_iff (inputString_str _ hfits)).mpr ⟨some (Js.trim t), ?_, rfl⟩
    have hshown : Js.trim (stringOr (some (.str t)) "us-east-1") = Js.trim t := rfl
    rw [hshown, if_neg hne]
    exact asOptionalString_trimmed _ (trim_trim t) hne

/-- A path style is read as it is shown. -/
theorem readPathStyle_shown {config : Json} {endpoint : Option String} {driver : String} {b : Bool}
    (h : parsePathStyle (config.get? "forcePathStyle") endpoint driver = .ok b) :
    ∃ style, readPathStyle (some (.str (Js.text (safePathStyle config)))) = .ok style ∧
      b = style.getD (automaticPathStyle driver endpoint) := by
  unfold safePathStyle
  generalize config.get? "forcePathStyle" = v at h
  unfold parsePathStyle at h
  split at h
  · exact ⟨some true, by decide, (Except.ok.inj h).symm⟩
  · exact ⟨some true, by decide, (Except.ok.inj h).symm⟩
  · exact ⟨some false, by decide, (Except.ok.inj h).symm⟩
  · exact ⟨some false, by decide, (Except.ok.inj h).symm⟩
  · exact ⟨none, by decide, (Except.ok.inj h).symm⟩
  · exact ⟨none, by decide, (Except.ok.inj h).symm⟩
  · exact ⟨none, by decide, (Except.ok.inj h).symm⟩
  · exact ⟨none, by decide, (Except.ok.inj h).symm⟩
  · cases h

end fields

section endpoints

variable {parseUrl : String → Option Url} {driver : String} {config : Json}
  {endpoint : Option String}

/-- The characters of a scheme are no white space. -/
theorem isSpace_of_scheme {c : Char} (h : (c.isAlphanum || c = '+' || c = '.' || c = '-') = true) :
    Js.isSpace c = false := by
  have hletters : c.isAlphanum = ((decide (c.val ≥ 65 ∧ c.val ≤ 90) ||
      (decide (c.val ≥ 97) && decide (c.val ≤ 122))) || c.isDigit) := rfl
  rw [hletters] at h
  simp only [Bool.or_eq_true, Bool.and_eq_true, decide_eq_true_eq] at h
  obtain (((((h | h) | h) | rfl) | rfl) | rfl) := h
  · have hlow : 65 ≤ c.toNat := UInt32.le_iff_toNat_le.mp h.1
    have hhigh : c.toNat ≤ 90 := UInt32.le_iff_toNat_le.mp h.2
    simp only [Js.isSpace, List.contains_eq_mem, List.mem_cons, List.not_mem_nil, or_false,
      Bool.or_eq_false_iff, decide_eq_false_iff_not, Bool.and_eq_false_iff]
    omega
  · have hlow : 97 ≤ c.toNat := UInt32.le_iff_toNat_le.mp h.1
    have hhigh : c.toNat ≤ 122 := UInt32.le_iff_toNat_le.mp h.2
    simp only [Js.isSpace, List.contains_eq_mem, List.mem_cons, List.not_mem_nil, or_false,
      Bool.or_eq_false_iff, decide_eq_false_iff_not, Bool.and_eq_false_iff]
    omega
  · exact Js.isSpace_of_isDigit h
  all_goals decide

/-- A text with a scheme: a letter, characters of schemes, and `://`. -/
theorem hasScheme_iff {s : String} : hasScheme s = true ↔ ∃ c cs t,
    s.toList = c :: (cs ++ ([':', '/', '/'] ++ t)) ∧ c.isAlpha = true ∧
      ∀ d ∈ cs, (d.isAlphanum || d = '+' || d = '.' || d = '-') = true := by
  unfold hasScheme
  constructor
  · intro h
    cases hs : s.toList with
    | nil =>
      rw [hs] at h
      cases h
    | cons c cs =>
      rw [hs] at h
      dsimp only at h
      rw [Bool.and_eq_true, decide_eq_true_eq] at h
      obtain ⟨halpha, htake⟩ := h
      refine ⟨c, cs.takeWhile fun c => c.isAlphanum || c = '+' || c = '.' || c = '-',
        (cs.dropWhile fun c => c.isAlphanum || c = '+' || c = '.' || c = '-').drop 3, ?_, halpha,
        fun d hd => ?_⟩
      · rw [← htake, List.take_append_drop, List.takeWhile_append_dropWhile]
      · have hkeep := List.mem_takeWhile_imp hd
        exact hkeep
  · rintro ⟨c, cs, t, hs, halpha, hscheme⟩
    rw [hs]
    dsimp only
    rw [List.dropWhile_append_of_pos hscheme, halpha]
    rfl

/-- Stripping leaves what starts and ends with something else. -/
theorem strip_append {p : Char → Bool} {front : List Char} (hne : front ≠ [])
    (hfront : ∀ c ∈ front, p c = false) (t : List Char) :
    Js.strip p (front ++ t) = front ++ (t.reverse.dropWhile p).reverse := by
  have hkeep : ∀ (l rest : List Char), l ≠ [] → (∀ c ∈ l, p c = false) →
      (l ++ rest).dropWhile p = l ++ rest := by
    intro l rest hl hall
    cases l with
    | nil => exact absurd rfl hl
    | cons c cs => exact List.dropWhile_cons_of_neg (by rw [hall c (.head _)]; decide)
  have hback : front.reverse.dropWhile p = front.reverse := by
    have h := hkeep _ [] (List.reverse_ne_nil_iff.mpr hne)
      fun c hc => hfront c (List.mem_reverse.mp hc)
    rwa [List.append_nil] at h
  unfold Js.strip
  rw [hkeep _ _ hne hfront, List.reverse_append, List.dropWhile_append, hback]
  split_ifs with hempty
  · rw [List.isEmpty_iff.mp hempty, List.reverse_reverse, List.reverse_nil, List.append_nil]
  · rw [List.reverse_append, List.reverse_reverse]

/-- What follows a scheme may be stripped, but the scheme is left. -/
theorem hasScheme_trim {s : String} (h : hasScheme s = true) : hasScheme (Js.trim s) = true := by
  obtain ⟨c, cs, t, hs, halpha, hscheme⟩ := hasScheme_iff.mp h
  have hspace : ∀ d ∈ c :: (cs ++ [':', '/', '/']), Js.isSpace d = false := by
    intro d hd
    obtain rfl | hd := List.mem_cons.mp hd
    · refine isSpace_of_scheme ?_
      unfold Char.isAlphanum
      rw [halpha]
      rfl
    obtain hd | hd := List.mem_append.mp hd
    · exact isSpace_of_scheme (hscheme d hd)
    · have hall : [':', '/', '/'].all (fun d => !Js.isSpace d) = true := by decide
      simpa using List.all_eq_true.mp hall d hd
  have hstrip := strip_append (List.cons_ne_nil _ _) hspace t
  refine hasScheme_iff.mpr ⟨c, cs, (t.reverse.dropWhile Js.isSpace).reverse, ?_, halpha, hscheme⟩
  unfold Js.trim
  rw [String.toList_ofList, hs]
  simpa using hstrip

/-- A text that is completed has a scheme. -/
theorem hasScheme_completed (secure : Prop) [Decidable secure] (rest : String) :
    hasScheme ((if secure then "https" else "http") ++ "://" ++ rest) = true := by
  rw [String.append_assoc]
  split_ifs
  · refine hasScheme_iff.mpr ⟨'h', ['t', 't', 'p', 's'], rest.toList, ?_, by decide,
      List.all_eq_true.mp (by decide)⟩
    rw [String.toList_append, String.toList_append]
    rfl
  · refine hasScheme_iff.mpr ⟨'h', ['t', 't', 'p'], rest.toList, ?_, by decide,
      List.all_eq_true.mp (by decide)⟩
    rw [String.toList_append, String.toList_append]
    rfl

/-- An endpoint without a scheme is shown with one. -/
theorem safeEndpoint_eq {e : String} (h : config.get? "endpoint" = some (.str e)) (hne : e ≠ "") :
    hasScheme (safeEndpoint config) = true ∧
      (hasScheme e = true → safeEndpoint config = e) := by
  have hstring : stringOr (config.get? "endpoint") "" = e := by
    rw [h]
    rfl
  unfold safeEndpoint
  dsimp only
  rw [hstring]
  by_cases hscheme : hasScheme e = true
  · have hbare : ¬(e ≠ "" ∧ hasScheme e = false) := by
      rw [hscheme]
      simp
    rw [if_neg hbare]
    exact ⟨hscheme, fun _ => rfl⟩
  · rw [if_pos ⟨hne, by simpa using hscheme⟩]
    exact ⟨hasScheme_completed _ _, fun hs => absurd hs hscheme⟩

/-- A text with a scheme is parsed as it is. -/
theorem normalizeEndpoint_of_hasScheme {text : String} (h : hasScheme text = true)
    (legacyHost : Bool) (port useSSL : Option Json) :
    normalizeEndpoint parseUrl (some text) legacyHost port useSSL = .ok endpoint ↔
      ∃ u, parseUrl text = some u ∧ u.IsEndpoint ∧ endpoint = some u.endpoint := by
  have hscheme : ¬(legacyHost && !hasScheme text) = true := by
    rw [h]
    simp
  rw [normalizeEndpoint_eq_ok_iff]
  unfold endpointText
  rw [if_neg hscheme]
  exact ⟨fun h => h.2, fun h => ⟨fun hl => absurd hl hscheme, h⟩⟩

/-- An endpoint that is shown is parsed. -/
theorem readEndpoint_safeEndpoint (hscheme : hasScheme (safeEndpoint config) = true)
    (hfits : Js.length (safeEndpoint config) ≤ 2048) :
    readEndpoint parseUrl driver (some (.str (safeEndpoint config))) = .ok endpoint ↔
      ∃ u, parseUrl (Js.trim (safeEndpoint config)) = some u ∧ u.IsEndpoint ∧
        endpoint = some u.endpoint := by
  have htrim := hasScheme_trim hscheme
  have hblank : Js.trim (safeEndpoint config) ≠ "" := by
    intro he
    rw [he] at htrim
    cases htrim
  rw [readEndpoint_eq_ok_iff (inputString_str _ hfits),
    asOptionalString_entered _ (trim_trim _), if_neg hblank,
    ← normalizeEndpoint_of_hasScheme htrim (takesLegacyHost driver) none none]
  constructor
  · rintro ⟨e, he, h⟩
    rwa [Except.ok.inj he]
  · exact fun h => ⟨_, rfl, h⟩

/-- An endpoint is read as it was, exactly where what is shown is parsed as what was completed. -/
theorem readEndpoint_shown
    (h : ∃ e, asOptionalString (config.get? "endpoint") "S3_ENDPOINT" = .ok e ∧
      normalizeEndpoint parseUrl e (takesLegacyHost driver) (config.get? "port")
        (config.get? "useSSL") = .ok endpoint)
    (hfits : Js.length (safeEndpoint config) ≤ 2048) :
    readEndpoint parseUrl driver (some (.str (safeEndpoint config))) = .ok endpoint ↔
      ∀ e, config.get? "endpoint" = some (.str e) → e ≠ "" → hasScheme e = false →
        SameEndpoint parseUrl (Js.trim (safeEndpoint config))
          (endpointText (takesLegacyHost driver) (Js.trim e) (config.get? "port")
            (config.get? "useSSL")) := by
  obtain ⟨e, he, hnormal⟩ := h
  cases e with
  | none =>
    -- No endpoint is stored, so none is shown.
    have hblank := asOptionalString_eq_none_iff.mp he
    have hshown : safeEndpoint config = "" := by
      have hstring : stringOr (config.get? "endpoint") "" = "" := by
        unfold isBlank at hblank
        rw [List.contains_iff_mem] at hblank
        simp only [List.mem_cons, List.not_mem_nil, or_false] at hblank
        obtain h | h | h := hblank <;> rw [h] <;> rfl
      unfold safeEndpoint
      rw [hstring]
      rfl
    obtain rfl := Except.ok.inj hnormal
    rw [hshown]
    refine ⟨fun _ e hget hne => ?_, fun _ => rfl⟩
    rw [hget] at hblank
    have hcon : some (Json.str e) = some (.str "") := by
      simpa [isBlank] using hblank
    exact absurd (Json.str.inj (Option.some.inj hcon)) hne
  | some e =>
    obtain ⟨t, hget, rfl, hne⟩ := asOptionalString_eq_some he
    have ht : t ≠ "" := by
      rintro rfl
      exact hne (by decide)
    obtain ⟨hshown, hsame⟩ := safeEndpoint_eq hget ht
    rw [readEndpoint_safeEndpoint hshown hfits]
    -- An endpoint with a scheme is shown and parsed as it is; one without is completed in two ways.
    by_cases hscheme : hasScheme t = true
    · rw [hsame hscheme]
      refine ⟨fun _ e he _ hbare => ?_,
        fun _ => (normalizeEndpoint_of_hasScheme (hasScheme_trim hscheme) _ _ _).mp hnormal⟩
      obtain rfl := Json.str.inj (Option.some.inj (hget.symm.trans he))
      rw [hscheme] at hbare
      cases hbare
    · obtain ⟨-, v, hv, hurl, rfl⟩ := normalizeEndpoint_eq_ok_iff.mp hnormal
      constructor
      · rintro ⟨u, hu, huEndpoint, hu'⟩ e he _ _
        obtain rfl := Json.str.inj (Option.some.inj (hget.symm.trans he))
        exact ⟨u, v, hu, huEndpoint, hv, (Option.some.inj hu').symm⟩
      · intro h
        obtain ⟨u, v', hu, huEndpoint, hv', hu'⟩ := h t hget ht (by simpa using hscheme)
        obtain rfl := Option.some.inj (hv.symm.trans hv')
        exact ⟨u, hu, huEndpoint, congrArg some hu'.symm⟩

/-- A text is as it is where neither end is white space. -/
theorem trim_of_ends {s : String} (hfirst : ∀ c ∈ s.toList.head?, Js.isSpace c = false)
    (hlast : ∀ c ∈ s.toList.getLast?, Js.isSpace c = false) : Js.trim s = s := by
  have hkeep : ∀ l : List Char, (∀ c ∈ l.head?, Js.isSpace c = false) →
      l.dropWhile Js.isSpace = l := by
    intro l hl
    cases l with
    | nil => rfl
    | cons c cs => exact List.dropWhile_cons_of_neg (by rw [hl c rfl]; decide)
  unfold Js.trim Js.strip
  rw [hkeep _ hfirst, hkeep _ (by rwa [List.head?_reverse]), List.reverse_reverse,
    String.ofList_toList]

/-- A trimmed text does not end in white space. -/
theorem isSpace_getLast?_of_trim {s : String} (h : Js.trim s = s) :
    ∀ c ∈ s.toList.getLast?, Js.isSpace c = false := by
  intro c hc
  have hlist : s.toList = ((s.toList.dropWhile Js.isSpace).reverse.dropWhile Js.isSpace).reverse := by
    have hstrip := congrArg String.toList h
    unfold Js.trim Js.strip at hstrip
    rw [String.toList_ofList] at hstrip
    exact hstrip.symm
  rw [hlist, List.getLast?_reverse] at hc
  have hhead := List.head?_dropWhile_not Js.isSpace (s.toList.dropWhile Js.isSpace).reverse
  rw [hc] at hhead
  simpa using hhead

/-- The text of a number is not empty. -/
theorem text_number_ne_empty :
    (∀ n, Js.text (.int n) ≠ "") ∧ ∀ m e, Js.text (.float m e) ≠ "" := by
  have hint : ∀ n : ℤ, toString n ≠ "" := by
    intro n h
    cases n with
    | ofNat k =>
      have hdigits : String.ofList (Nat.toDigits 10 k) = "" := h
      exact Nat.toDigits_ne_nil (String.ofList_eq_empty_iff.mp hdigits)
    | negSucc k =>
      have hminus : "-" ++ toString (k + 1) = "" := h
      have hlist := congrArg String.toList hminus
      rw [String.toList_append] at hlist
      cases hlist
  have hprint : ∀ j : Json, j.stringify ≠ "" := by
    intro j h
    obtain ⟨c, cs, hc, -⟩ := Json.print_cons j
    unfold Json.stringify at h
    rw [hc] at h
    cases String.ofList_eq_empty_iff.mp h
  constructor
  · intro n
    unfold Js.text
    split_ifs
    · exact hint _
    · exact hprint _
  · intro m e
    unfold Js.text
    split
    · split_ifs
      · exact hint _
      · exact hprint _
    · exact hprint _

/-- What is shown of a host and a port is what is completed. -/
theorem safePort_eq {port : Option Json} (h : port ≠ some (.str "")) :
    safePort port = if portText port = "" then "" else ":" ++ portText port := by
  obtain ⟨hint, hfloat⟩ := text_number_ne_empty
  cases port with
  | none => rfl
  | some v =>
    cases v with
    | str s =>
      have hne : portText (some (.str s)) ≠ "" := fun he => h (by rw [show s = "" from he])
      rw [if_neg hne]
      rfl
    | int n => exact (if_neg (hint n)).symm
    | float m e => exact (if_neg (hfloat m e)).symm
    | null => rfl
    | bool b => rfl
    | arr xs => rfl
    | obj fields => rfl

/-- A completed endpoint has no white space at its ends. -/
theorem trim_completed (secure : Prop) [Decidable secure] {e port : String} (htrim : Js.trim e = e)
    (hne : e ≠ "") (hport : ∀ c ∈ port.toList, Js.isSpace c = false) :
    Js.trim ((if secure then "https" else "http") ++ "://" ++ e ++ port) =
      (if secure then "https" else "http") ++ "://" ++ e ++ port := by
  refine trim_of_ends ?_ ?_
  · intro c hc
    rw [String.append_assoc, String.append_assoc, String.toList_append] at hc
    split_ifs at hc
    all_goals
      obtain rfl : 'h' = c := Option.some.inj hc
      decide
  · intro c hc
    rw [String.toList_append] at hc
    by_cases hempty : port.toList = []
    · have hlist : e.toList ≠ [] := fun he => hne (String.toList_eq_nil_iff.mp he)
      rw [hempty, List.append_nil, String.toList_append,
        List.getLast?_append_of_ne_nil _ hlist] at hc
      exact isSpace_getLast?_of_trim htrim c hc
    · rw [List.getLast?_append_of_ne_nil _ hempty] at hc
      exact hport c (List.mem_of_getLast? hc)

/-- A host that the driver completes survives: without white space around it, and where its port is not
the empty text. -/
theorem sameEndpoint_of_host {s : Settings} (hs : s.ReadFrom parseUrl driver config)
    (hlegacy : takesLegacyHost driver = true) {e : String}
    (he : config.get? "endpoint" = some (.str e)) (hne : e ≠ "") (hscheme : hasScheme e = false)
    (htrim : Js.trim e = e) (hport : config.get? "port" ≠ some (.str "")) :
    SameEndpoint parseUrl (Js.trim (safeEndpoint config))
      (endpointText (takesLegacyHost driver) (Js.trim e) (config.get? "port")
        (config.get? "useSSL")) := by
  obtain ⟨e', he', hnormal⟩ := hs.endpoint
  rw [he, asOptionalString_trimmed _ htrim hne] at he'
  rw [← Except.ok.inj he', hlegacy] at hnormal
  obtain ⟨hgood, u, hu, hurl, -⟩ := normalizeEndpoint_eq_ok_iff.mp hnormal
  have hport' := hgood (by rw [hscheme]; rfl)
  have hshown : safeEndpoint config =
      endpointText true e (config.get? "port") (config.get? "useSSL") := by
    have hstring : stringOr (config.get? "endpoint") "" = e := by
      rw [he]
      rfl
    unfold safeEndpoint endpointText completed
    dsimp only
    rw [hstring, if_pos ⟨hne, hscheme⟩, hscheme, safePort_eq hport]
    exact (String.append_assoc).symm
  have hends : Js.trim (safeEndpoint config) = safeEndpoint config := by
    have hdigits : ∀ c ∈ (if portText (config.get? "port") = "" then "" else
        ":" ++ portText (config.get? "port")).toList, Js.isSpace c = false := by
      intro c hc
      split_ifs at hc with hnone
      · cases hc
      · rw [String.toList_append] at hc
        obtain hc | hc := List.mem_append.mp hc
        · obtain rfl := List.mem_singleton.mp hc
          decide
        · have hall : (portText (config.get? "port")).toList.all Char.isDigit = true := by
            by_contra hbad
            exact hport' ⟨hnone, .inl hbad⟩
          exact Js.isSpace_of_isDigit (List.all_eq_true.mp hall c hc)
    rw [hshown]
    unfold endpointText completed
    rw [hscheme]
    exact trim_completed _ htrim hne hdigits
  rw [htrim, hlegacy, hends, hshown]
  exact ⟨u, u, hu, hurl, hu, rfl⟩

end endpoints

/-- Settings are determined by their members. -/
theorem Settings.fields_injective {s t : Settings} (h : s.fields = t.fields) : s = t := by
  have hget : ∀ k, ((s.members none).lookup k).join = ((t.members none).lookup k).join := by
    intro k
    rw [← Settings.get?_stored, ← Settings.get?_stored]
    exact congrArg (fun fields => (Json.obj fields).get? k) h
  have hstr : ∀ {a b : String}, some (Json.str a) = some (.str b) → a = b :=
    fun h => Json.str.inj (Option.some.inj h)
  have hint : ∀ {a b : ℤ}, some (Json.int a) = some (.int b) → a = b :=
    fun h => Json.int.inj (Option.some.inj h)
  have hopt : ∀ {a b : Option String}, a.map Json.str = b.map .str → a = b :=
    fun h => Option.map_injective (fun _ _ => Json.str.inj) h
  have hbucket : s.bucket = t.bucket := hstr (hget "bucket")
  have hregion : s.region = t.region := hstr (hget "region")
  have hendpoint : s.endpoint = t.endpoint := hopt (hget "endpoint")
  have haccess : s.accessKeyId = t.accessKeyId := hopt (hget "accessKeyId")
  have hsecret : s.secretAccessKey = t.secretAccessKey := hopt (hget "secretAccessKey")
  have htoken : s.sessionToken = t.sessionToken := hopt (hget "sessionToken")
  have hstyle : s.forcePathStyle = t.forcePathStyle :=
    Json.bool.inj (Option.some.inj (hget "forcePathStyle"))
  have hattempts : s.maxAttempts = t.maxAttempts := hint (hget "maxAttempts")
  have hconnection : s.connectionTimeoutMs = t.connectionTimeoutMs := hint (hget "connectionTimeoutMs")
  have hsocket : s.socketTimeoutMs = t.socketTimeoutMs := hint (hget "socketTimeoutMs")
  have hdownload : s.downloadUrlTtlSeconds = t.downloadUrlTtlSeconds :=
    hint (hget "downloadUrlTtlSeconds")
  obtain ⟨⟩ := s
  obtain ⟨⟩ := t
  dsimp only at *
  subst_vars
  rfl

section saving

variable {platform : StoragePlatform} {numberText : ℚ → String} {p : StorageProvider}
  {driver : String} {s : Settings}

/-- A quota is read back exactly within the limits of the form. -/
theorem quotaInBytes_shown (htext : ∀ q, Js.IsDouble q → Js.numberOfText (numberText q) = some q)
    (n : ℤ) :
    quotaInBytes (some (.str (numberText ((Js.toDouble n).getD 0 / gbInBytes)))) = .ok n ↔
      0 ≤ n ∧ n ≤ 1000000 * gbInBytes := by
  have hgb : ((gbInBytes : ℕ) : ℚ) = 2 ^ 30 := by
    unfold gbInBytes
    norm_num
  obtain ⟨d, hd⟩ : ∃ d, (Js.toDouble n).getD 0 = d := ⟨_, rfl⟩
  -- A division by a power of two is exact, so what is shown is read as it was.
  have hdouble : Js.IsDouble (d / 2 ^ 30) := by
    cases hread : Js.toDouble n with
    | none =>
      rw [hread] at hd
      rw [← hd]
      exact ⟨0, 0, by simp, by norm_num, by norm_num, by simp⟩
    | some q =>
      rw [hread] at hd
      rw [← hd]
      exact Js.isDouble_div hread (by norm_num)
  have hquota : quotaInBytes (some (.str (numberText (d / 2 ^ 30)))) =
      if d / 2 ^ 30 < 0 ∨ 1000000 < d / 2 ^ 30 then
        .error "Storage quota must be a non-negative finite GB value."
      else .ok (StorageProviderService.round d) := by
    have hread : (some (Json.str (numberText (d / 2 ^ 30)))).bind Js.toNumber =
        some (d / 2 ^ 30) := by
      rw [Option.bind_some, Js.toNumber_str]
      exact htext _ hdouble
    have hback : d / 2 ^ 30 * ((gbInBytes : ℕ) : ℚ) = d := by
      rw [hgb]
      field_simp
    unfold quotaInBytes
    rw [hread]
    dsimp only
    rw [hback]
  rw [hd, hgb, hquota]
  have hlimit : (1000000 : ℤ) * (gbInBytes : ℕ) = 1000000 * 2 ^ 30 := by decide
  rw [hlimit]
  constructor
  · intro h
    split_ifs at h with hrange
    obtain rfl := Except.ok.inj h
    push Not at hrange
    have hlow : 0 ≤ d := by
      have := mul_nonneg hrange.1 (by norm_num : (0 : ℚ) ≤ 2 ^ 30)
      rwa [div_mul_cancel₀ _ (by norm_num)] at this
    have hhigh : d ≤ 1000000 * 2 ^ 30 := (div_le_iff₀ (by norm_num)).mp hrange.2
    -- Within the limits of the form the rounded bytes are within those of the column.
    have hnonneg : 0 ≤ ⌊d + 1 / 2⌋ := by
      rw [Int.floor_nonneg]
      linarith
    have hfloor : ⌊d + 1 / 2⌋ < 1000000 * 2 ^ 30 + 1 := by
      rw [Int.floor_lt]
      push_cast
      linarith
    unfold StorageProviderService.round
    constructor
    · exact hnonneg
    · exact Int.lt_add_one_iff.mp hfloor
  · rintro ⟨hlow, hhigh⟩
    -- A quota within the limits is a safe integer, which is its own double.
    have hsafe : Js.isSafeInteger n = true := by
      unfold Js.isSafeInteger
      simp only [Bool.and_eq_true, decide_eq_true_eq]
      omega
    rw [Js.toDouble_intCast hsafe, Option.getD_some] at hd
    have hlow' : (0 : ℚ) ≤ d := by
      rw [← hd]
      exact_mod_cast hlow
    have hhigh' : d ≤ 1000000 * 2 ^ 30 := by
      rw [← hd]
      exact_mod_cast hhigh
    have hrange : ¬(d / 2 ^ 30 < 0 ∨ 1000000 < d / 2 ^ 30) := by
      rw [not_or, not_lt, not_lt]
      exact ⟨div_nonneg hlow' (by norm_num), (div_le_iff₀ (by norm_num)).mpr hhigh'⟩
    have hround : StorageProviderService.round d = n := by
      unfold StorageProviderService.round
      rw [← hd, Int.floor_intCast_add]
      norm_num
    rw [if_neg hrange, hround]

/-- A name that fits into the form is accepted where it is not blank. -/
theorem validateProviderName_shown (hfits : Js.length p.name ≤ 100) :
    (∃ name, validateProviderName (some (.str p.name)) = .ok name) ↔ Js.trim p.name ≠ "" := by
  unfold validateProviderName
  dsimp only
  have hlength := (Js.length_trim_le p.name).trans hfits
  by_cases hblank : Js.trim p.name = ""
  · rw [if_pos (.inl hblank)]
    exact ⟨fun ⟨name, h⟩ => (by cases h), fun h => absurd hblank h⟩
  · rw [if_neg fun h => h.elim hblank fun hlong => Nat.not_lt.mpr hlength hlong]
    exact ⟨fun _ => hblank, fun _ => ⟨_, rfl⟩⟩

/-- The settings that are read of a form that is sent as it is shown. -/
theorem formReads_editForm_iff {parseUrl : String → Option Url}
    (hs : s.ReadFrom parseUrl driver p.config) (hfits : (getProviderEditView platform p).Fits) :
    FormReads parseUrl driver (editForm numberText (getProviderEditView platform p)) (some p.config)
        s ↔
      (∀ key ∈ numberKeys, p.config.get? key ≠ some (.bool true)) ∧
      (p.config.get? "accessKeyId" = some (.str "") →
        isBlank (p.config.get? "accessKey") = true) ∧
      (p.config.get? "secretAccessKey" = some (.str "") →
        isBlank (p.config.get? "secretKey") = true) ∧
      ∀ e, p.config.get? "endpoint" = some (.str e) → e ≠ "" → hasScheme e = false →
        SameEndpoint parseUrl (Js.trim (safeEndpoint p.config))
          (endpointText (takesLegacyHost driver) (Js.trim e) (p.config.get? "port")
            (p.config.get? "useSSL")) := by
  have hattempts := asPositiveInteger_shown (by decide) (by decide) hs.maxAttempts
  have hconnection := asPositiveInteger_shown (by decide) (by decide) hs.connectionTimeoutMs
  have hsocket := asPositiveInteger_shown (by decide) (by decide) hs.socketTimeoutMs
  have hdownload := asPositiveInteger_shown (by decide) (by decide) hs.downloadUrlTtlSeconds
  have haccess := asOptionalString_orJson hs.accessKeyId
  have hsecret := asOptionalString_orJson hs.secretAccessKey
  have hendpoint := readEndpoint_shown hs.endpoint hfits.endpoint
  constructor
  · intro h
    obtain ⟨id, secret, token, hid, hkey, htoken, -, -, hread⟩ := h.secrets
    -- The form shows no secrets, so what is stored under the old names must be what is read.
    obtain rfl : "" = id := Except.ok.inj hid
    obtain rfl : "" = secret := Except.ok.inj hkey
    refine ⟨?_, haccess.mp hread.1, hsecret.mp hread.2.1, hendpoint.mp h.endpoint⟩
    intro key hkey
    simp only [numberKeys, List.mem_cons, List.not_mem_nil, or_false] at hkey
    obtain rfl | rfl | rfl | rfl := hkey
    · exact hattempts.mp h.maxAttempts
    · exact hconnection.mp h.connectionTimeoutMs
    · exact hsocket.mp h.socketTimeoutMs
    · exact hdownload.mp h.downloadUrlTtlSeconds
  · rintro ⟨hnumbers, hid, hkey, hurl⟩
    constructor
    · exact readBucket_shown hs.bucket hs.bucketChars hfits.bucket
    · obtain ⟨region, hregion, hdefault⟩ := hs.region
      rw [hdefault]
      exact readRegion_shown hregion hfits.region
    · exact hendpoint.mpr hurl
    · exact readPathStyle_shown hs.forcePathStyle
    · exact hattempts.mpr (hnumbers _ (by decide))
    · exact hconnection.mpr (hnumbers _ (by decide))
    · exact hsocket.mpr (hnumbers _ (by decide))
    · exact hdownload.mpr (hnumbers _ (by decide))
    · exact ⟨"", "", "", rfl, rfl, rfl, fun _ => ⟨rfl, rfl⟩, fun _ => Iff.rfl, haccess.mpr hid,
        hsecret.mpr hkey, hs.sessionToken⟩
    · exact hs.paired
    · exact hs.token

/-- Saving the form of a provider as it is shown changes neither its settings nor its quota, exactly
where the provider survives its form. -/
theorem unchanged_form_iff (laws : platform.Lawful)
    (htext : ∀ q, Js.IsDouble q → Js.numberOfText (numberText q) = some q)
    (hdriver : providerDriver platform p ∈ s3Drivers) {r : List (String × Json)}
    (hbefore : normalizeS3CompatibleConfig platform.parseUrl p.config (providerDriver platform p) =
      .ok r)
    (hfits : (getProviderEditView platform p).Fits) :
    (∃ p', updateProvider platform p (editForm numberText (getProviderEditView platform p)) = .ok p' ∧
        normalizeS3CompatibleConfig platform.parseUrl p'.config (providerDriver platform p) = .ok r ∧
        p'.quotaBytes = p.quotaBytes) ↔
      SurvivesForm platform.parseUrl (providerDriver platform p) p := by
  obtain ⟨s, hs, rfl⟩ := normalize_eq_ok_iff.mp hbefore
  have hname := validateProviderName_shown hfits.name
  have hquotaGb : ∀ n, p.quotaBytes = some n →
      (getProviderEditView platform p).quotaGb = (Js.toDouble n).getD 0 / gbInBytes := by
    intro n hn
    unfold getProviderEditView
    rw [hn]
    rfl
  -- What is saved is its own normal form, and the normal form determines the settings.
  have hsaved : ∀ t : Settings, FormReads platform.parseUrl (providerDriver platform p)
      (editForm numberText (getProviderEditView platform p)) (some p.config) t →
      normalizeS3CompatibleConfig platform.parseUrl (t.stored (some (providerDriver platform p)))
        (providerDriver platform p) = .ok t.fields := by
    intro t ht
    obtain ⟨e, he⟩ := ht.entries
    exact (((readFrom_merged_iff he).mpr ht).again laws.url _ _).normalize
  constructor
  · rintro ⟨p', hp', hafter, hquota⟩
    obtain ⟨name, config, quotaBytes, hread, hconfig, hquotaBytes, rfl⟩ :=
      updateProvider_eq_ok_iff.mp hp'
    obtain ⟨t, ht, rfl⟩ := (normalizedProviderConfig_eq_ok_iff hdriver).mp hconfig
    -- The settings that were saved are those that were shown.
    obtain rfl := Settings.fields_injective (Except.ok.inj ((hsaved t ht).symm.trans hafter))
    obtain ⟨hnumbers, hid, hkey, hurl⟩ := (formReads_editForm_iff hs hfits).mp ht
    refine ⟨hname.mp ⟨name, hread⟩, ⟨quotaBytes, hquota.symm, ?_⟩, hnumbers, hid, hkey, hurl⟩
    refine (quotaInBytes_shown htext quotaBytes).mp ?_
    rw [← hquotaGb quotaBytes hquota.symm]
    exact hquotaBytes
  · intro h
    obtain ⟨n, hn, hrange⟩ := h.quota
    obtain ⟨name, hread⟩ := hname.mpr h.name
    -- The settings that were shown are read back, and the quota with them.
    have hform : FormReads platform.parseUrl (providerDriver platform p)
        (editForm numberText (getProviderEditView platform p)) (some p.config) s :=
      (formReads_editForm_iff hs hfits).mpr
        ⟨h.numbers, h.accessKeyId, h.secretAccessKey, h.endpoint⟩
    have hquota : quotaInBytes ((editForm numberText (getProviderEditView platform p)).get?
        "quotaGb") = .ok n := by
      have hget : (editForm numberText (getProviderEditView platform p)).get? "quotaGb" =
          some (.str (numberText (getProviderEditView platform p).quotaGb)) := rfl
      rw [hget, hquotaGb n hn]
      exact (quotaInBytes_shown htext n).mpr hrange
    exact ⟨_, updateProvider_eq_ok_iff.mpr ⟨name, _, n, hread,
      (normalizedProviderConfig_eq_ok_iff hdriver).mpr ⟨s, hform, rfl⟩, hquota, rfl⟩,
      hsaved s hform, hn.symm⟩

end saving

/-! ## Two legacy rows -/

/-- The places that every double has enough of. -/
def toyPlaces : ℕ := 1074

/-- Texts of numbers: whole numbers have their digits, all others an exact decimal text. -/
def toyNumberText (q : ℚ) : String :=
  if q.den = 1 ∧ 0 ≤ q.num then toString q.num
  else Js.decimalText (q * 10 ^ toyPlaces).num (-(toyPlaces : ℤ))

/-- A binary fraction is a decimal one. -/
theorem decimal_of_binary {q : ℚ} {m e : ℤ} {k : ℕ} (hq : q = m * 2 ^ e) (he : -(k : ℤ) ≤ e) :
    ∃ n : ℤ, q * 10 ^ k = n ∧ (n : ℚ) * 10 ^ (-(k : ℤ)) = q := by
  obtain ⟨l, hl⟩ : ∃ l : ℕ, e = l - k := ⟨(e + k).toNat, by omega⟩
  have hten : (10 : ℚ) ^ k = 2 ^ k * 5 ^ k := by
    rw [← mul_pow]
    norm_num
  have htwo : (2 : ℚ) ^ e * 2 ^ k = 2 ^ l := by
    rw [hl, zpow_sub₀ (by norm_num : (2 : ℚ) ≠ 0), zpow_natCast, zpow_natCast]
    exact div_mul_cancel₀ _ (by positivity)
  have hscaled : q * 10 ^ k = ((m * 2 ^ l * 5 ^ k : ℤ) : ℚ) := by
    push_cast
    rw [hten, hq, ← htwo]
    ring
  refine ⟨_, hscaled, ?_⟩
  rw [← hscaled, zpow_neg, zpow_natCast, mul_assoc, mul_inv_cancel₀ (by positivity), mul_one]

/-- They are read back. -/
theorem numberOfText_toyNumberText {q : ℚ} (h : Js.IsDouble q) :
    Js.numberOfText (toyNumberText q) = some q := by
  unfold toyNumberText
  split_ifs with hwhole
  · have hnum : ((q.num : ℤ) : ℚ) = q := Rat.coe_int_num_of_den_eq_one hwhole.1
    obtain ⟨k, hk⟩ := Int.eq_ofNat_of_zero_le hwhole.2
    have hq : q = (k : ℚ) := by
      rw [← hnum, hk]
      norm_cast
    rw [hk, Js.numberOfText_natCast, ← hq]
    exact Js.toDouble_of_isDouble h
  · obtain ⟨m, e, hq, -, he, -⟩ := id h
    obtain ⟨n, hn, hback⟩ := decimal_of_binary hq (k := toyPlaces) he
    rw [hn, Rat.num_intCast]
    have hread : Js.numberOfText (Js.decimalText n (-(toyPlaces : ℤ))) =
        some ((n : ℚ) * 10 ^ (-(toyPlaces : ℤ))) := Js.numberOfText_decimalText (by
      rw [hback]
      exact h)
    rw [hread, hback]

/-- A provider of an older release with a host and a port. -/
def legacyHostProvider : StorageProvider :=
  { legacyProvider with quotaBytes := some 10737418240 }

/-- Its form changes nothing. -/
theorem unchanged_form_legacyHost :
    ∃ p', updateProvider toyPlatform legacyHostProvider
        (editForm toyNumberText (getProviderEditView toyPlatform legacyHostProvider)) = .ok p' ∧
      normalizeS3CompatibleConfig toyPlatform.parseUrl p'.config "minio" =
        normalizeS3CompatibleConfig toyPlatform.parseUrl legacyHostProvider.config "minio" ∧
      p'.quotaBytes = some 10737418240 := by
  have hdriver : providerDriver toyPlatform legacyHostProvider = "minio" := by decide
  have hbefore : normalizeS3CompatibleConfig toyPlatform.parseUrl legacyHostProvider.config "minio" =
      .ok [("bucket", .str "ota"), ("region", .str "us-east-1"),
        ("endpoint", .str "http://minio:9000"), ("forcePathStyle", .bool true),
        ("maxAttempts", .int 3), ("connectionTimeoutMs", .int 10000),
        ("socketTimeoutMs", .int 120000), ("downloadUrlTtlSeconds", .int 3600)] := by
    decide +kernel
  have hfits : (getProviderEditView toyPlatform legacyHostProvider).Fits :=
    ⟨by decide, by decide, by decide, by decide⟩
  have hiff := unchanged_form_iff lawful_toyPlatform (fun _ => numberOfText_toyNumberText)
    (by rw [hdriver]; decide) (by rw [hdriver]; exact hbefore) hfits
  rw [hdriver] at hiff
  obtain ⟨p', hp', hafter, hquota⟩ := hiff.mpr {
    name := by decide
    quota := ⟨10737418240, rfl, by decide, by decide⟩
    numbers := by decide
    accessKeyId := by decide
    secretAccessKey := by decide
    endpoint := by
      intro e he hne hscheme
      obtain rfl : "minio" = e := Json.str.inj (Option.some.inj he)
      obtain ⟨s, hs, -⟩ := normalize_eq_ok_iff.mp hbefore
      exact sameEndpoint_of_host hs (by decide) he hne hscheme (by decide) (by decide) }
  exact ⟨p', hp', hafter.trans hbefore.symm, hquota⟩

/-- A provider whose older credentials are hidden by empty ones. -/
def hiddenKeyProvider : StorageProvider :=
  { legacyHostProvider with
    config := .obj [("driver", .str "minio"), ("bucket", .str "ota"),
      ("endpoint", .str "http://minio:9000"), ("accessKeyId", .str ""), ("accessKey", .str "old"),
      ("secretAccessKey", .str ""), ("secretKey", .str "secret")] }

/-- Its client has no credentials, but gets the older ones when its form is saved unchanged. -/
theorem hidden_keys_appear :
    (getProviderEditView toyPlatform hiddenKeyProvider).Fits ∧
    (normalizeS3CompatibleConfig toyPlatform.parseUrl hiddenKeyProvider.config "minio").map
      (fun r => (Json.obj r).get? "accessKeyId") = .ok none ∧
    (updateProvider toyPlatform hiddenKeyProvider
        (editForm toyNumberText (getProviderEditView toyPlatform hiddenKeyProvider)) >>= fun p' =>
      (normalizeS3CompatibleConfig toyPlatform.parseUrl p'.config "minio").map
        (fun r => (Json.obj r).get? "accessKeyId")) = .ok (some (.str "old")) := by
  refine ⟨⟨by decide, by decide, by decide, by decide⟩, by decide +kernel, by decide +kernel⟩

end Reeva
