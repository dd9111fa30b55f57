import Reeva.Storage.ProviderService

/-!
# The settings of a resolved provider

A configuration is brought into normal form when a provider is saved, when it is activated, when it is
resolved, and once more by the client, then under another driver. `resolved_settings` says that a
client has exactly the settings that were saved, or the normal form of what an older release saved.
-/

namespace Reeva

open Legacy (bind_eq_ok map_eq_ok)
open StorageProviderService

/-- What the platform's functions do: with URLs, and with texts of ASCII characters. -/
structure StoragePlatform.Lawful (platform : StoragePlatform) : Prop where
  url : UrlLaws platform.parseUrl
  lower : ∀ s : String, (∀ c ∈ s.toList, c.toNat < 128) →
    platform.toLowerCase s = String.ofList (s.toList.map Char.toLower)

/-- The drivers of all providers. -/
def drivers : List String := "local" :: s3Drivers

section resolving

variable {platform : StoragePlatform} {driver : String} {input : Json} {existing : Option Json}
  {config : Json}

/-- The name of a driver is read as it is stored. -/
theorem driverName_of_mem (laws : platform.Lawful) (h : driver ∈ drivers) (type : String) :
    driverName platform (some (.str driver)) type = driver := by
  have hall : drivers.all (fun d => Js.trim d = d && d ≠ "" && d.toList.all (·.toNat < 128) &&
      String.ofList (d.toList.map Char.toLower) = d) = true := by decide +kernel
  have hd := List.all_eq_true.mp hall driver h
  simp only [Bool.and_eq_true, decide_eq_true_eq, List.all_eq_true] at hd
  obtain ⟨⟨⟨htrim, hne⟩, hascii⟩, hlower⟩ := hd
  unfold driverName
  dsimp only
  rw [htrim, if_neg hne, laws.lower driver hascii, hlower]

/-- What is saved: a root, or the settings that were read. -/
inductive Saved (platform : StoragePlatform) (driver : String) (config : Json) : Prop
  | files (root : String) (hdriver : driver = "local") (habsolute : NodePath.isAbsolute root = true)
    (h : config = .obj [("driver", .str "local"), ("root", .str root)])
  | s3 (s : Settings) (value : Json) (hdriver : driver ∈ s3Drivers)
    (hs : s.ReadFrom platform.parseUrl driver value) (h : config = s.stored (some driver))

theorem saved_of_normalizedProviderConfig
    (h : normalizedProviderConfig platform driver input existing = .ok config) :
    Saved platform driver config := by
  unfold normalizedProviderConfig at h
  by_cases hlocal : driver = "local"
  · rw [if_pos hlocal] at h
    obtain ⟨root, -, h⟩ := bind_eq_ok.mp h
    split_ifs at h with hroot
    obtain rfl := Except.ok.inj h
    push Not at hroot
    exact .files root hlocal (by simpa using hroot.2) rfl
  · rw [if_neg hlocal] at h
    split_ifs at h with hdriver
    obtain ⟨merged, -, h⟩ := bind_eq_ok.mp h
    obtain ⟨normalized, hnormal, h⟩ := bind_eq_ok.mp h
    obtain rfl := Except.ok.inj h
    obtain ⟨s, hs, rfl⟩ := normalize_eq_ok_iff.mp hnormal
    rw [Bool.not_eq_false] at hdriver
    exact .s3 s merged (List.contains_iff_mem.mp hdriver) hs rfl

/-- A provider whose client has exactly the settings that are stored. -/
def ResolvesAsStored (platform : StoragePlatform) (p : StorageProvider) : Prop :=
  (∃ root, p.config = .obj [("driver", .str "local"), ("root", .str root)] ∧
    StorageManager.resolve platform p = .ok (.files (some (.str root)))) ∨
  ∃ driver r, p.config = .obj (("driver", .str driver) :: r) ∧
    StorageManager.resolve platform p = .ok (.s3 r)

/-- The client of an S3-compatible provider has the settings that are read of its configuration. -/
theorem resolve_of_readFrom (laws : platform.Lawful) {p : StorageProvider} {s : Settings}
    (hname : driverName platform (p.config.get? "driver") p.type = driver)
    (hdriver : driver ∈ s3Drivers) (hs : s.ReadFrom platform.parseUrl driver p.config) :
    StorageManager.resolve platform p = .ok (.s3 s.fields) := by
  have hlocal : driver ≠ "local" := by
    rintro rfl
    revert hdriver
    decide
  have hclient : S3CompatibleProvider.new platform (.obj s.fields) = .ok (.s3 s.fields) := by
    -- The client normalises the settings again, as those of the driver `s3`.
    have hagain : normalizeS3CompatibleConfig platform.parseUrl (.obj s.fields) "s3" =
        .ok s.fields := (hs.again laws.url none "s3").normalize
    unfold S3CompatibleProvider.new
    rw [hagain]
    rfl
  have hnormal := hs.normalize
  obtain ⟨fields, hconfig⟩ := hs.object
  rw [hconfig] at hname hnormal
  unfold StorageManager.resolve
  dsimp only
  rw [hconfig, hname, if_neg hlocal, if_pos (List.contains_iff_mem.mpr hdriver)]
  exact bind_eq_ok.mpr ⟨(), rfl, bind_eq_ok.mpr ⟨_, hnormal, hclient⟩⟩

/-- What is saved resolves to what is saved. -/
theorem Saved.resolves (laws : platform.Lawful) {p : StorageProvider}
    (h : Saved platform driver p.config) : ResolvesAsStored platform p := by
  cases h with
  | files root hdriver habsolute hconfig =>
    refine .inl ⟨root, hconfig, ?_⟩
    have hname : driverName platform (p.config.get? "driver") p.type = "local" := by
      rw [hconfig]
      exact driverName_of_mem laws (.head _) p.type
    unfold StorageManager.resolve
    dsimp only
    rw [hname, hconfig]
    rfl
  | s3 s value hdriver hs hconfig =>
    refine .inr ⟨driver, s.fields, hconfig, ?_⟩
    have hname : driverName platform (p.config.get? "driver") p.type = driver := by
      have hget : p.config.get? "driver" = some (.str driver) := by
        rw [hconfig]
        exact s.get?_stored (some driver) "driver"
      rw [hget]
      exact driverName_of_mem laws (.tail _ hdriver) p.type
    refine resolve_of_readFrom laws hname hdriver ?_
    rw [hconfig]
    exact hs.again laws.url (some driver) driver

/-- A new provider has a configuration that was brought into normal form. -/
theorem config_of_createProvider {id : Id} {p : StorageProvider}
    (h : createProvider platform id input = .ok p) :
    ∃ driver, normalizedProviderConfig platform driver input none = .ok p.config := by
  unfold createProvider at h
  obtain ⟨name, -, h⟩ := bind_eq_ok.mp h
  obtain ⟨driver, -, h⟩ := bind_eq_ok.mp h
  dsimp only at h
  split_ifs at h
  all_goals
    obtain ⟨config, hconfig, h⟩ := bind_eq_ok.mp h
    obtain ⟨quotaBytes, -, h⟩ := bind_eq_ok.mp h
    obtain rfl := Except.ok.inj h
    exact ⟨_, hconfig⟩

/-- What an edit saves. -/
theorem updateProvider_eq_ok_iff {provider p : StorageProvider} :
    updateProvider platform provider input = .ok p ↔ ∃ name config quotaBytes,
      validateProviderName (input.get? "name") = .ok name ∧
      normalizedProviderConfig platform (providerDriver platform provider) input
        (some provider.config) = .ok config ∧
      quotaInBytes (input.get? "quotaGb") = .ok quotaBytes ∧
      p = { provider with name, config, quotaBytes := some quotaBytes } := by
  constructor
  · intro h
    unfold updateProvider at h
    obtain ⟨name, hname, h⟩ := bind_eq_ok.mp h
    obtain ⟨config, hconfig, h⟩ := bind_eq_ok.mp h
    obtain ⟨quotaBytes, hquota, h⟩ := bind_eq_ok.mp h
    exact ⟨name, config, quotaBytes, hname, hconfig, hquota, (Except.ok.inj h).symm⟩
  · rintro ⟨name, config, quotaBytes, hname, hconfig, hquota, rfl⟩
    unfold updateProvider
    exact bind_eq_ok.mpr ⟨_, hname, bind_eq_ok.mpr ⟨_, hconfig, bind_eq_ok.mpr ⟨_, hquota, rfl⟩⟩⟩

/-- A provider whose client has the root that is stored, or the settings of its normal form. -/
def ResolvesToNormalForm (platform : StoragePlatform) (p : StorageProvider) : Prop :=
  (∃ root, providerDriver platform p = "local" ∧ p.config.get? "root" = some (.str root) ∧
    StorageManager.resolve platform p = .ok (.files (some (.str root)))) ∨
  ∃ r, normalizeS3CompatibleConfig platform.parseUrl p.config (providerDriver platform p) = .ok r ∧
    StorageManager.resolve platform p = .ok (.s3 r)

/-- A provider that may be activated resolves to its normal form. -/
theorem resolves_of_checkActivation (laws : platform.Lawful) {p : StorageProvider}
    (h : checkActivation platform p = .ok ()) : ResolvesToNormalForm platform p := by
  unfold checkActivation at h
  dsimp only at h
  by_cases hlocal : providerDriver platform p = "local"
  · rw [if_pos hlocal] at h
    split at h
    · rename_i root hroot
      refine .inl ⟨root, hlocal, hroot, ?_⟩
      cases hconfig : p.config with
      | obj fields =>
        have hname : driverName platform (p.config.get? "driver") p.type = "local" := hlocal
        rw [hconfig] at hname hroot
        unfold StorageManager.resolve
        dsimp only
        rw [hconfig, hname, hroot]
        rfl
      | _ =>
        rw [hconfig] at hroot
        cases hroot
    · cases h
  · rw [if_neg hlocal] at h
    split_ifs at h with hdriver
    obtain ⟨r, hnormal, -⟩ := map_eq_ok.mp h
    obtain ⟨s, hs, rfl⟩ := normalize_eq_ok_iff.mp hnormal
    rw [Bool.not_eq_false] at hdriver
    exact .inr ⟨s.fields, hnormal, resolve_of_readFrom laws rfl (List.contains_iff_mem.mp hdriver) hs⟩

/-- Normal forms are stable under all drivers. A provider that was created or edited resolves to a
client with exactly the stored settings; one that may be activated, also if an older release stored it,
resolves to a client with the normal form of what is stored. -/
theorem resolved_settings (laws : platform.Lawful) :
    (∀ value d r, normalizeS3CompatibleConfig platform.parseUrl value d = .ok r →
      ∀ d', normalizeS3CompatibleConfig platform.parseUrl (.obj r) d' = .ok r) ∧
    (∀ id input p, createProvider platform id input = .ok p → ResolvesAsStored platform p) ∧
    (∀ provider input p, updateProvider platform provider input = .ok p →
      ResolvesAsStored platform p) ∧
    ∀ p, checkActivation platform p = .ok () → ResolvesToNormalForm platform p := by
  refine ⟨fun value d r h d' => normal_form_stable laws.url h d', fun id input p h => ?_,
    fun provider input p h => ?_, fun p h => resolves_of_checkActivation laws h⟩
  · obtain ⟨driver, hconfig⟩ := config_of_createProvider h
    exact (saved_of_normalizedProviderConfig hconfig).resolves laws
  · obtain ⟨name, config, quotaBytes, -, hconfig, -, rfl⟩ := updateProvider_eq_ok_iff.mp h
    exact (saved_of_normalizedProviderConfig hconfig).resolves laws

end resolving

/-! ## A toy platform

A parser for URLs with a scheme, a host and a path, which refuses all others.
-/

/-- A character that the toy parser refuses. -/
def isRefused (c : Char) : Bool := Js.isSpace c || ['?', '#', '@', '\\'].contains c

/-- The URL of what follows the scheme. -/
def toyUrl (protocol : String) (rest : List Char) : Option Url :=
  if rest.takeWhile (· ≠ '/') = [] ∨ rest.any isRefused = true then none
  else some {
    protocol
    host := String.ofList (rest.takeWhile (· ≠ '/'))
    pathname := if rest.dropWhile (· ≠ '/') = [] then "/" else String.ofList (rest.dropWhile (· ≠ '/'))
    username := "", password := "", search := "", hash := "" }

/-- The toy parser. -/
def toyParseUrl (s : String) : Option Url :=
  (("http://".toList.isPrefixOf? s.toList).bind (toyUrl "http:")).or
    (("https://".toList.isPrefixOf? s.toList).bind (toyUrl "https:"))

/-- The toy platform. -/
def toyPlatform : StoragePlatform where
  parseUrl := toyParseUrl
  toLowerCase s := String.ofList (s.toList.map Char.toLower)

section toy

variable {s : String} {u : Url}

/-- The toy parser reads what follows the scheme. -/
theorem toyParseUrl_scheme (host path : String) {protocol : String}
    (h : protocol = "http:" ∨ protocol = "https:") :
    toyParseUrl (protocol ++ "//" ++ host ++ path) = toyUrl protocol (host.toList ++ path.toList) := by
  obtain rfl | rfl := h
  · unfold toyParseUrl
    rw [String.append_assoc, String.toList_append, String.toList_append, String.toList_append]
    change (toyUrl "http:" (host.toList ++ path.toList)).or none = _
    exact Option.or_none
  · unfold toyParseUrl
    rw [String.append_assoc, String.toList_append, String.toList_append, String.toList_append]
    rfl

/-- What it has parsed. -/
theorem toyParseUrl_eq_some (h : toyParseUrl s = some u) :
    ∃ protocol rest, (protocol = "http:" ∨ protocol = "https:") ∧ toyUrl protocol rest = some u := by
  obtain h | ⟨-, h⟩ := Option.or_eq_some_iff.mp h
  · obtain ⟨rest, -, h⟩ := Option.bind_eq_some_iff.mp h
    exact ⟨_, rest, .inl rfl, h⟩
  · obtain ⟨rest, -, h⟩ := Option.bind_eq_some_iff.mp h
    exact ⟨_, rest, .inr rfl, h⟩

/-- The parts of what it has parsed. -/
structure ToyParts (u : Url) : Prop where
  protocol : u.protocol = "http:" ∨ u.protocol = "https:"
  host : u.host.toList ≠ [] ∧ ∀ c ∈ u.host.toList, c ≠ '/'
  root : u.pathname.toList.head? = some '/'
  chars : ∀ c ∈ u.host.toList ++ u.pathname.toList, isRefused c = false
  username : u.username = ""
  password : u.password = ""
  search : u.search = ""
  hash : u.hash = ""

theorem toyParts_of_parse (h : toyParseUrl s = some u) : ToyParts u := by
  obtain ⟨protocol, rest, hprotocol, h⟩ := toyParseUrl_eq_some h
  unfold toyUrl at h
  split_ifs at h with hbad hroot
  all_goals
    obtain rfl := Option.some.inj h
    push Not at hbad
    have hchars : ∀ c ∈ rest, isRefused c = false := by
      intro c hc
      by_contra hcon
      exact hbad.2 (List.any_eq_true.mpr ⟨c, hc, by simpa using hcon⟩)
  · have hslash : "/".toList = ['/'] := rfl
    refine ⟨hprotocol, ⟨?_, ?_⟩, ?_, ?_, rfl, rfl, rfl, rfl⟩
    · rw [String.toList_ofList]
      exact hbad.1
    · intro c hc
      rw [String.toList_ofList] at hc
      simpa using List.mem_takeWhile_imp hc
    · exact congrArg List.head? hslash
    · intro c hc
      rw [String.toList_ofList, hslash] at hc
      obtain hc | hc := List.mem_append.mp hc
      · exact hchars c ((List.takeWhile_prefix _).subset hc)
      · obtain rfl := List.mem_singleton.mp hc
        decide
  · refine ⟨hprotocol, ⟨?_, ?_⟩, ?_, ?_, rfl, rfl, rfl, rfl⟩
    · rw [String.toList_ofList]
      exact hbad.1
    · intro c hc
      rw [String.toList_ofList] at hc
      simpa using List.mem_takeWhile_imp hc
    · rw [String.toList_ofList]
      have hhead := List.head?_dropWhile_not (· ≠ '/') rest
      cases hpath : rest.dropWhile (· ≠ '/') with
      | nil => exact absurd hpath hroot
      | cons c cs =>
        rw [hpath] at hhead
        simpa using hhead
    · intro c hc
      rw [String.toList_ofList, String.toList_ofList] at hc
      obtain hc | hc := List.mem_append.mp hc
      · exact hchars c ((List.takeWhile_prefix _).subset hc)
      · exact hchars c ((List.dropWhile_suffix _).subset hc)

/-- A host and a path are read back. -/
theorem ToyParts.parse (h : ToyParts u) (path : List Char) (hsub : ∀ c ∈ path, c ∈ u.pathname.toList)
    (hroot : path = [] ∨ path.head? = some '/') :
    toyUrl u.protocol (u.host.toList ++ path) =
      some { u with pathname := if path = [] then "/" else String.ofList path } := by
  have hkeep : ∀ c ∈ u.host.toList, decide (c ≠ '/') = true := fun c hc =>
    decide_eq_true (h.host.2 c hc)
  have htail : path.takeWhile (· ≠ '/') = [] ∧ path.dropWhile (· ≠ '/') = path := by
    obtain rfl | hroot := hroot
    · exact ⟨rfl, rfl⟩
    · cases path with
      | nil => cases hroot
      | cons c cs =>
        obtain rfl := Option.some.inj hroot
        exact ⟨List.takeWhile_cons_of_neg (by decide), List.dropWhile_cons_of_neg (by decide)⟩
  have hhost : (u.host.toList ++ path).takeWhile (· ≠ '/') = u.host.toList := by
    rw [List.takeWhile_append_of_pos hkeep, htail.1, List.append_nil]
  have hpath : (u.host.toList ++ path).dropWhile (· ≠ '/') = path := by
    rw [List.dropWhile_append_of_pos hkeep, htail.2]
  have hgood : ¬(u.host.toList = [] ∨ (u.host.toList ++ path).any isRefused = true) := by
    rintro (hempty | hany)
    · exact h.host.1 hempty
    · obtain ⟨c, hc, hbad⟩ := List.any_eq_true.mp hany
      have hmem : c ∈ u.host.toList ++ u.pathname.toList := by
        obtain hc | hc := List.mem_append.mp hc
        · exact List.mem_append_left _ hc
        · exact List.mem_append_right _ (hsub c hc)
      rw [h.chars c hmem] at hbad
      cases hbad
  unfold toyUrl
  rw [hhost, hpath, if_neg hgood, String.ofList_toList]
  obtain ⟨protocol, host, pathname, username, password, search, hash⟩ := u
  obtain ⟨-, -, -, -, rfl, rfl, rfl, rfl⟩ := h
  rfl

theorem lawful_toyPlatform : toyPlatform.Lawful where
  url := by
    refine ⟨fun s u hu _ hne => ?_, fun s u hu _ => ?_, fun s u hu _ c hc => ?_⟩
    · have h := toyParts_of_parse hu
      have hlist : (dropSlashes u.pathname).toList ≠ [] := fun he =>
        hne (String.toList_eq_nil_iff.mp he)
      have hprefix : (dropSlashes u.pathname).toList <+: u.pathname.toList := by
        unfold dropSlashes
        rw [String.toList_ofList, ← List.reverse_suffix, List.reverse_reverse]
        exact List.dropWhile_suffix _
      have hroot : (dropSlashes u.pathname).toList.head? = some '/' := by
        obtain ⟨rest, hrest⟩ := hprefix
        rw [← h.root, ← hrest, List.head?_append_of_ne_nil _ hlist]
      have hparse := h.parse (dropSlashes u.pathname).toList
        (fun c hc => hprefix.subset hc) (.inr hroot)
      rw [if_neg hlist, String.ofList_toList] at hparse
      unfold Url.href
      rw [if_neg hne]
      exact (toyParseUrl_scheme _ _ h.protocol).trans hparse
    · have h := toyParts_of_parse hu
      have hparse := h.parse [] (fun c hc => by cases hc) (.inl rfl)
      have hscheme := toyParseUrl_scheme u.host "" h.protocol
      rw [String.append_empty] at hscheme
      exact hscheme.trans hparse
    · have hchar := (toyParts_of_parse hu).chars c hc
      unfold isRefused at hchar
      simp only [Bool.or_eq_false_iff] at hchar
      exact hchar.1
  lower _ _ := rfl

end toy

/-- A form for a MinIO server. -/
def minioForm : Json := .obj [("name", .str "Objects"), ("driver", .str "MinIO"),
  ("bucket", .str " ota "), ("endpoint", .str "minio:9000/"), ("accessKeyId", .str "key"),
  ("secretAccessKey", .str "secret")]

/-- The provider that is made of it. -/
theorem resolved_settings_minio :
    ∃ p, createProvider toyPlatform "p1" minioForm = .ok p ∧ ResolvesAsStored toyPlatform p := by
  have hok : (createProvider toyPlatform "p1" minioForm).toOption.isSome = true := by
    decide +kernel
  cases hcreated : createProvider toyPlatform "p1" minioForm with
  | error message =>
    rw [hcreated] at hok
    cases hok
  | ok p => exact ⟨p, rfl, (resolved_settings lawful_toyPlatform).2.1 _ _ _ hcreated⟩

/-- A provider of an older release. -/
def legacyProvider : StorageProvider where
  id := "p2"
  name := "Objects"
  type := "minio"
  config := .obj [("bucket", .str "ota"), ("endpoint", .str "minio"), ("port", .str "9000")]
  isDefault := false
  isActive := true
  quotaBytes := none
  deletedAt := none

/-- It may be activated, but its client has an endpoint and a region that are not stored. -/
theorem legacy_settings_differ :
    toyPlatform.Lawful ∧ checkActivation toyPlatform legacyProvider = .ok () ∧
    (∃ r, StorageManager.resolve toyPlatform legacyProvider = .ok (.s3 r) ∧
      (Json.obj r).get? "endpoint" = some (.str "http://minio:9000") ∧
      legacyProvider.config.get? "endpoint" = some (.str "minio") ∧
      (Json.obj r).get? "region" = some (.str "us-east-1") ∧
      legacyProvider.config.get? "region" = none) ∧
    ¬ResolvesAsStored toyPlatform legacyProvider := by
  refine ⟨lawful_toyPlatform, by decide +kernel, ⟨[("bucket", .str "ota"), ("region", .str "us-east-1"),
    ("endpoint", .str "http://minio:9000"), ("forcePathStyle", .bool true),
    ("maxAttempts", .int 3), ("connectionTimeoutMs", .int 10000),
    ("socketTimeoutMs", .int 120000), ("downloadUrlTtlSeconds", .int 3600)],
    by decide +kernel⟩, ?_⟩
  rintro (⟨root, hconfig, -⟩ | ⟨driver, r, hconfig, -⟩)
  · exact absurd hconfig (by
      unfold legacyProvider
      simp)
  · exact absurd hconfig (by
      unfold legacyProvider
      simp)

end Reeva
