import Reeva.Codec.JsonRoundTrip
import Reeva.Interleaving.AdvisoryLocks
import Reeva.Licensing.Accounting

/-!
# One key pair

The first activation creates the pair of keys that signs the tokens, in its own transaction and under
an advisory lock that it holds until its end. Whoever has the lock finds the settings as they are
committed, so no second pair is created; a token is returned after a commit, so its key is committed
too (`one_key_pair`).
-/

open Interleaving ReadCommitted

namespace Reeva.Licensing

open LicenseService

/-! ## The stored keys -/

/-- The value of the live setting with a key. -/
def storedKey (settings : List Setting) (key : String) : Option String :=
  (settings.find? fun s => s.key = key && s.deletedAt.isNone).bind (·.value)

/-- The settings keep this pair of keys. -/
def HasPair (settings : List Setting) (privateKey publicKey : String) : Prop :=
  storedKey settings "license_private_key" = some privateKey ∧
    storedKey settings "license_public_key" = some publicKey

/-- There is no setting of a key. -/
def NoKeys (settings : List Setting) : Prop :=
  ∀ s ∈ settings, s.key ≠ "license_private_key" ∧ s.key ≠ "license_public_key"

instance (settings : List Setting) (privateKey publicKey : String) :
    Decidable (HasPair settings privateKey publicKey) := by
  unfold HasPair
  infer_instance

instance (settings : List Setting) : Decidable (NoKeys settings) := by
  unfold NoKeys
  infer_instance

/-- The settings keep no pair, or one that belongs together. -/
def PairOrNone (belongs : String → String → Prop) (d : Db) : Prop :=
  NoKeys d.settings ∨ ∃ privateKey publicKey, HasPair d.settings privateKey publicKey ∧
    belongs privateKey publicKey

/-- A pair that is stored stays. -/
def KeepsPair (d d' : Db) : Prop :=
  ∀ privateKey publicKey, HasPair d.settings privateKey publicKey →
    HasPair d'.settings privateKey publicKey

section settings

variable {settings : List Setting} {privateKey publicKey : String}

/-- Where no setting has a key, none is found. -/
theorem find?_none {key : String} (h : ∀ s ∈ settings, s.key ≠ key) :
    (settings.find? fun s => s.key = key && s.deletedAt.isNone) = none :=
  List.find?_eq_none.mpr fun s hs => by simp [h s hs]

/-- A setting that is found has a pair, unless there are none. -/
theorem PairOrNone.found {belongs : String → String → Prop} {d : Db} (h : PairOrNone belongs d)
    {s : Setting} (hs : d.toTables.setting "license_private_key" = some s)
    (hvalue : s.value = some privateKey) :
    ∃ publicKey, HasPair d.settings privateKey publicKey ∧ belongs privateKey publicKey := by
  have hstored : storedKey d.settings "license_private_key" = some privateKey := by
    rw [← hvalue]
    exact congrArg (·.bind (·.value)) hs
  rcases h with hno | ⟨privateKey', publicKey, hpair, hbelongs⟩
  · have hkey : s.key = "license_private_key" ∧ s.deletedAt = none := by
      simpa using List.find?_some hs
    exact absurd hkey.1 (hno s (List.mem_of_find?_eq_some hs)).1
  · obtain rfl := Option.some.inj (hpair.1.symm.trans hstored)
    exact ⟨publicKey, hpair, hbelongs⟩

/-- Where no private key is found, there are no keys. -/
theorem PairOrNone.not_found {belongs : String → String → Prop} {d : Db} (h : PairOrNone belongs d)
    (hs : d.toTables.setting "license_private_key" = none) : NoKeys d.settings := by
  rcases h with hno | ⟨privateKey, publicKey, hpair, -⟩
  · exact hno
  · have hstored : storedKey d.settings "license_private_key" = none :=
      congrArg (·.bind (·.value)) hs
    rw [hpair.1] at hstored
    cases hstored

/-- A setting of a key. -/
def IsKey (key value : String) (s : Setting) : Prop :=
  s.key = key ∧ s.value = some value ∧ s.deletedAt = none

/-- Two settings that are added where there are none make a pair. -/
theorem hasPair_append (h : NoKeys settings) {r q : Setting}
    (hr : IsKey "license_private_key" privateKey r) (hq : IsKey "license_public_key" publicKey q) :
    HasPair (settings ++ [r, q]) privateKey publicKey := by
  obtain ⟨hrkey, hrvalue, hrlive⟩ := hr
  obtain ⟨hqkey, hqvalue, hqlive⟩ := hq
  constructor
  · rw [storedKey, List.find?_append, find?_none fun s hs => (h s hs).1]
    simp [hrkey, hrlive, hrvalue]
  · rw [storedKey, List.find?_append, find?_none fun s hs => (h s hs).2]
    simp [hrkey, hqkey, hqlive, hqvalue]

end settings

/-! ## Tokens -/

/-- What a client uses of its libraries. -/
structure Client where
  /-- `Buffer.from(s, 'base64')` -/
  fromBase64 : String → List UInt8
  /-- `crypto.verify(undefined, data, publicKey, signature)` -/
  verify : List UInt8 → String → List UInt8 → Bool

/-- The check of a token: the signature `s` is one of `p` as it is embedded. -/
def Client.accepts (client : Client) (publicKey token : String) : Bool :=
  match (Js.fromUtf8 (client.fromBase64 token)).bind Json.parse with
  | some (.obj [("p", p), ("s", .str s)]) =>
    client.verify (Js.utf8 p.stringify) publicKey (client.fromBase64 s)
  | _ => false

/-- A token carries its payload as it was signed. -/
theorem accepts_token {rt : Runtime} {client : Client}
    (hbase64 : ∀ bytes, client.fromBase64 (rt.base64 bytes) = bytes) (publicKey : String)
    (payload : Json) (signature : List UInt8) :
    client.accepts publicKey (token rt payload signature) =
      client.verify (Js.utf8 payload.stringify) publicKey signature := by
  simp [Client.accepts, token, hbase64]

/-- The token is signed with a private key. -/
def SignedWith (rt : Runtime) (privateKey t : String) : Prop :=
  ∃ payload signature, t = token rt payload signature ∧
    rt.sign privateKey (Js.utf8 payload.stringify) = .ok signature

/-! ## The terms of an activation -/

/-- Generated pairs belong together. -/
def PairsBelong (belongs : String → String → Prop) : Guard machine
  | _, .ext .generateKeyPair, .ext (.keys privateKey publicKey), _ => belongs privateKey publicKey
  | _, _, _, _ => True

/-- Lock 3 protects the settings, and a pair that is stored stays. -/
abbrev keyTerms (belongs : String → String → Prop) : Terms schema world :=
  lockTerms world 3 (fun d => (Db.toTables d).settings) (PairOrNone belongs) KeepsPair
    (fun _ _ _ h => h) fun _ _ _ h₁₂ h₂₃ _ _ h => h₂₃ _ _ (h₁₂ _ _ h)

/-- The lock of the keys, or nothing. -/
def keyLock (i : ℕ) : Bool → Possession schema i
  | true => .lock i 3
  | false => .nothing i

/-- Where a transaction got its private key: it was stored, or it is written in the transaction, which
holds the lock. -/
inductive KeySource (privateKey publicKey : String) : Bool → List Write → Db → Prop
  | stored {d : Db} (h : HasPair d.settings privateKey publicKey) :
    KeySource privateKey publicKey false [] d
  | created {d : Db} {r q : Setting} (hr : IsKey "license_private_key" privateKey r)
    (hq : IsKey "license_public_key" publicKey q) (h : NoKeys d.settings) :
    KeySource privateKey publicKey true [.insertSetting r, .insertSetting q] d

section terms

variable {rt : Runtime} {belongs : String → String → Prop} {i : ℕ} {ok : Guard machine}
  {privateKey publicKey : String}

/-- A transaction may count on its source. -/
theorem keySource_fact (l : Bool) (ws : List Write) :
    (keyLock i l).Fact (keyTerms belongs) fun d _ => KeySource privateKey publicKey l ws d := by
  intro σ σ' hr hg hl h
  cases h with
  | stored h => exact .stored (hr.1 _ _ h)
  | created hkey hpublic h =>
    exact .created hkey hpublic (lockTerms_held NoKeys σ σ' hr hg hl h)

/-- Writes that leave the settings. -/
def LeavesSettings (w : Write) : Prop := ∀ t : Tables, (w.run t).2.settings = t.settings

/-- What is published adds the settings of the source, and nothing else to the settings. -/
theorem KeySource.publish {l : Bool} {ss ws : List Write} {d d' : Db}
    (h : KeySource privateKey publicKey l ss d) (hws : ∀ w ∈ ws, LeavesSettings w)
    (hp : Server.publish (D := schema) (ss ++ ws) d = some d') :
    HasPair d'.settings privateKey publicKey ∧ (l = true ∨ d'.settings = d.settings) ∧
      KeepsPair d d' := by
  have leaves : ∀ {ws : List Write} {d d' : Db}, (∀ w ∈ ws, LeavesSettings w) →
      Server.publish (D := schema) ws d = some d' → d'.settings = d.settings := by
    intro ws
    induction ws with
    | nil =>
      intro d d' _ hp
      cases hp
      rfl
    | cons w ws ih =>
      intro d d' hws hp
      obtain ⟨d₁, hrun, hrest⟩ := publish_cons hp
      have hw := hws w (List.mem_cons_self ..) d.toTables
      rw [← hrun] at hw
      exact (ih (fun w hw => hws w (List.mem_cons_of_mem _ hw)) hrest).trans hw
  cases h with
  | stored h =>
    have hsettings := leaves hws hp
    refine ⟨?_, .inr hsettings, fun _ _ hold => ?_⟩ <;> rwa [hsettings]
  | @created _ r q hr hq h =>
    obtain ⟨d₁, hrun, hrest⟩ := publish_cons hp
    obtain ⟨d₂, hrun₂, hrest₂⟩ := publish_cons hrest
    have hsettings : d'.settings = d.settings ++ [r, q] := by
      rw [leaves hws hrest₂, show d₂.settings = d₁.settings ++ [q] from congrArg _ hrun₂,
        show d₁.settings = d.settings ++ [r] from congrArg _ hrun, List.append_assoc]
      rfl
    refine ⟨?_, .inl rfl, fun privateKey' publicKey' hold => ?_⟩
    · rw [hsettings]
      exact hasPair_append h hr hq
    · have hnone : storedKey d.settings "license_private_key" = none := by
        rw [storedKey, find?_none fun s hs => (h s hs).1]
        rfl
      rw [hold.1] at hnone
      cases hnone

/-! ### Rules -/

/-- A program that keeps the terms. -/
abbrev KeepsKeys {α : Type} (belongs : String → String → Prop) (ok : Guard machine) (i : ℕ)
    (A : State → Prop) (p : Program α) (Q : α → State → Prop) : Prop :=
  Triple ok ((keyTerms belongs).committing fun _ _ _ => True) i A p Q
    fun _ => (Possession.nothing (D := schema) i).Known fun _ _ => True

variable {α β : Type} {L M : Possession schema i} {A : Db → ℕ → Prop} {tx : Option (List Write)}
  {Q : α → State → Prop}

/-- What is known where a program fails. -/
theorem failed_keys {σ : State} :
    (Possession.nothing (D := schema) i).Known (fun _ _ => True) σ := fun _ =>
  ⟨Possession.nothing_has i _, trivial⟩

theorem keys_fail {P : State → Prop} {e : Failure String} :
    KeepsKeys belongs ok i P (.fail e : Program α) Q := fun _ _ _ _ _ _ => failed_keys

theorem keys_ret (hA : L.Fact (keyTerms belongs) A) {a : α} (h : ∀ σ, L.Holds tx A σ → Q a σ) :
    KeepsKeys belongs ok i (L.Holds tx A) (.ret a) Q :=
  fun σ _ ha σ₁ hr _ => h σ₁ (hA.stable σ σ₁ hr ha)

theorem keys_refuse {P : State → Prop} {c : Prop} [Decidable c] {message : String}
    {k : Unit → Program α} (hk : KeepsKeys belongs ok i P (k ()) Q) :
    KeepsKeys belongs ok i P ((refuse c message).bind k) Q := by
  unfold refuse
  split
  · exact keys_fail
  · exact hk

theorem keys_orThrow {P : State → Prop} {e : Except String β} {k : β → Program α}
    (hk : ∀ b, e = .ok b → KeepsKeys belongs ok i P (k b) Q) :
    KeepsKeys belongs ok i P ((orThrow e).bind k) Q := by
  cases e with
  | ok b => exact hk b rfl
  | error message => exact keys_fail

theorem keys_select (hA : L.Fact (keyTerms belongs) A) {f : Tables → β} {k : β → Program α}
    {B : β → Db → ℕ → Prop}
    (hB : ∀ (d : Db) (w : ℕ), PairOrNone belongs d → A d w →
      B (f (Db.toTables (Server.applyAll (D := schema) (tx.getD []) d))) d w)
    (hk : ∀ v, KeepsKeys belongs ok i (L.Holds tx (B v)) (k v) Q) :
    KeepsKeys belongs ok i (L.Holds tx A) ((select f).bind k) Q :=
  Possession.query_rule (f := fun d : schema.Db => f (Db.toTables d)) hA
    (fun _ hi ha => hB _ _ hi ha) (fun _ _ _ => failed_keys) hk

theorem keys_call (hA : L.Fact (keyTerms belongs) A) {c : Call} {k : c.Res → Program α}
    {B : c.Res → Db → ℕ → Prop}
    (hB : ∀ (σ : State) o r w, A σ.server.db σ.world → ok i (.ext c) (.ext o) σ →
      world.run i c o σ.world = some (r, w) → B r σ.server.db w)
    (hk : ∀ r, KeepsKeys belongs ok i (L.Holds tx (B r)) (k r) Q) :
    KeepsKeys belongs ok i (L.Holds tx A) ((call c).bind k) Q := by
  refine Possession.ext_rule (E := calls) (X := world) (e := c) hA (fun σ o r w hi ha hok hrun => ?_) hk
  have hmove : (keyTerms belongs).inv ⟨σ.server, w⟩ ∧ (keyTerms belongs).guar i σ ⟨σ.server, w⟩ :=
    lockTerms_ext hi
  exact ⟨hmove.1, hmove.2, hB σ o r w ha hok hrun⟩

theorem keys_lock (hA : L.Fact (keyTerms belongs) A) {ls : List (Row × Mode)}
    {k : Unit → Program α} (hk : KeepsKeys belongs ok i (L.Holds tx A) (k ()) Q) :
    KeepsKeys belongs ok i (L.Holds tx A) ((db (D := schema) (.lock ls)).bind k) Q :=
  Possession.lock_rule hA (fun _ => L.take ls) (fun _ => id) (fun _ _ _ => failed_keys) hk

theorem keys_exec (hA : L.Fact (keyTerms belongs) A) {ws : List Write} {w : Write}
    {k : ℕ → Program α}
    (hk : ∀ n, KeepsKeys belongs ok i (L.Holds (some (ws ++ [w])) A) (k n) Q) :
    KeepsKeys belongs ok i (L.Holds (some ws) A) ((exec w).bind k) Q :=
  Possession.write_rule hA (fun _ hi htx _ _ hfree => lockTerms_write hi htx hfree)
    (fun _ _ _ => failed_keys) hk

/-! ### The key -/

/-- What a transaction knows when it has its private key. -/
def HasKey (belongs : String → String → Prop) (i : ℕ) (privateKey : String) (σ : State) : Prop :=
  ∃ l ss, (keyLock i l).Holds (some ss) (fun d _ => ∃ publicKey, belongs privateKey publicKey ∧
    KeySource privateKey publicKey l ss d) σ

theorem hasKey_fact (l : Bool) (ss : List Write) :
    (keyLock i l).Fact (keyTerms belongs) fun d _ => ∃ publicKey, belongs privateKey publicKey ∧
      KeySource privateKey publicKey l ss d := by
  rintro σ σ' hr hg hl ⟨publicKey, hbelongs, h⟩
  exact ⟨publicKey, hbelongs, keySource_fact l ss σ σ' hr hg hl h⟩

/-- While a transaction holds the lock, there are no keys but its own. -/
theorem noKeys_fact {P : Prop} :
    (keyLock i true).Fact (keyTerms belongs) fun d _ => NoKeys d.settings ∧ P :=
  fun σ σ' hr hg hl h => ⟨lockTerms_held NoKeys σ σ' hr hg hl h.1, h.2⟩

/-- A private key that was added is no public key. -/
theorem view_publicKey {d : Db} {r : Setting} (hr : r.key = "license_private_key")
    (h : NoKeys d.settings) :
    (Db.toTables (Server.applyAll (D := schema) [.insertSetting r] d)).setting
      "license_public_key" = none := by
  refine find?_none fun s hs => ?_
  rw [Server.applyAll, List.foldl_cons, List.foldl_nil, Server.applyOne] at hs
  cases happ : schema.apply (.insertSetting r) d with
  | none =>
    rw [happ] at hs
    exact (h s hs).2
  | some p =>
    obtain ⟨n, d'⟩ := p
    rw [happ] at hs
    have hrows : d'.settings = d.settings ++ [r] := congrArg _ (apply_tables happ)
    rcases List.mem_append.mp (hrows ▸ hs) with hs | hs
    · exact (h s hs).2
    · rw [List.mem_singleton.mp hs, hr]
      decide

/-- The public key, which is not there, is added. -/
theorem updateOrCreateSetting_keys {P : Prop} {r : Setting} (hr : r.key = "license_private_key") :
    KeepsKeys belongs ok i
      ((keyLock i true).Holds (some [.insertSetting r]) fun d _ => NoKeys d.settings ∧ P)
      (updateOrCreateSetting "license_public_key" publicKey)
      (fun _ σ => ∃ q, IsKey "license_public_key" publicKey q ∧
        (keyLock i true).Holds (some [.insertSetting r, .insertSetting q])
          (fun d _ => NoKeys d.settings ∧ P) σ) := by
  unfold updateOrCreateSetting
  refine keys_select (B := fun found d _ => NoKeys d.settings ∧ P ∧ found = []) noKeys_fact ?_
    fun found => keys_lock noKeys_fact ?_
  · rintro d w - ⟨h, hP⟩
    refine ⟨h, hP, ?_⟩
    rw [Option.getD_some, view_publicKey hr h]
    rfl
  · refine keys_select (B := fun setting d _ => NoKeys d.settings ∧ P ∧ setting = none) noKeys_fact
      ?_ fun setting => ?_
    · rintro d w - ⟨h, hP, -⟩
      refine ⟨h, hP, ?_⟩
      rw [Option.getD_some, view_publicKey hr h]
      rfl
    · cases setting with
      | some s =>
        refine keys_exec noKeys_fact fun _ => keys_ret noKeys_fact fun σ h => ?_
        -- The branch is not reached: no setting was found.
        have hnot : σ.server.gone i = false → False := fun hg => by cases (h.2 hg).2.2.2
        exact ⟨⟨"", "license_public_key", some publicKey, none⟩, ⟨rfl, rfl, rfl⟩,
          fun hg => (hnot hg).elim, fun hg => (hnot hg).elim⟩
      | none =>
        refine keys_call (c := .randomUuid) noKeys_fact (B := fun _ d _ => NoKeys d.settings ∧ P)
          (fun _ _ _ _ h _ _ => ⟨h.1, h.2.1⟩) fun id : Id => ?_
        refine keys_exec noKeys_fact fun _ => keys_ret noKeys_fact fun σ h => ?_
        exact ⟨⟨id, "license_public_key", some publicKey, none⟩, ⟨rfl, rfl, rfl⟩, h⟩

/-- What the query for the private key found: a key of a stored pair, or that there are no keys. -/
def KeyFound (belongs : String → String → Prop) (setting : Option Setting) (d : Db) : Prop :=
  (∀ s privateKey, setting = some s → s.value = some privateKey →
    ∃ publicKey, HasPair d.settings privateKey publicKey ∧ belongs privateKey publicKey) ∧
  (setting = none → NoKeys d.settings)

/-- While a transaction holds the lock, it may count on what it found. -/
theorem keyFound_fact (setting : Option Setting) :
    (keyLock i true).Fact (keyTerms belongs) fun d _ => KeyFound belongs setting d := by
  rintro σ σ' hr hg hl ⟨hstored, hnone⟩
  refine ⟨fun s privateKey hs hvalue => ?_, fun hs => ?_⟩
  · obtain ⟨publicKey, hpair, hbelongs⟩ := hstored s privateKey hs hvalue
    exact ⟨publicKey, hr.1 _ _ hpair, hbelongs⟩
  · exact lockTerms_held NoKeys σ σ' hr hg hl (hnone hs)

/-- `getPrivateKey` -/
theorem getPrivateKey_keys (hok : ∀ i s ch σ, ok i s ch σ → PairsBelong belongs i s ch σ) :
    KeepsKeys belongs ok i ((keyLock i false).Holds (some []) fun _ _ => True) getPrivateKey
      (HasKey belongs i) := by
  unfold getPrivateKey
  refine Possession.advisory_rule (M := keyLock i true) (.const _)
    (fun srv _ => (Function.update_self .. : Function.update srv.advisory 3 (some i) 3 = some i))
    (fun _ _ _ => failed_keys) ?_
  refine keys_select (B := fun setting d _ => KeyFound belongs setting d) (.const _) ?_
    fun setting => ?_
  · rintro d w hpair -
    exact ⟨fun s privateKey hs hvalue => hpair.found hs hvalue, fun hs => hpair.not_found hs⟩
  · cases setting with
    -- A key is stored: it is read under the lock and not written again.
    | some s =>
      dsimp only
      cases hvalue : s.value with
      -- There is none, and the lock keeps others from storing one: the pair is generated and
      -- stored.
      | none => exact keys_fail
      | some privateKey =>
        refine keys_ret (keyFound_fact (some s)) fun σ h => ⟨false, [], h.mono ?_ ?_⟩
        · exact fun srv _ => Possession.nothing_has i srv
        · intro d w hfound
          obtain ⟨publicKey, hpair, hbelongs⟩ := hfound.1 s privateKey rfl hvalue
          exact ⟨publicKey, hbelongs, .stored hpair⟩
    | none =>
      dsimp only
      refine keys_call (c := .generateKeyPair) (keyFound_fact none)
        (B := fun keys d _ => NoKeys d.settings ∧ belongs keys.1 keys.2) ?_ ?_
      · rintro σ o ⟨privateKey, publicKey⟩ w h hchoice hrun
        refine ⟨h.2 rfl, ?_⟩
        have hpair := hok _ _ _ _ hchoice
        cases o with
        | keys privateKey' publicKey' =>
          obtain ⟨hkeys, -⟩ := Prod.mk.inj (Option.some.inj hrun)
          rw [← hkeys]
          exact hpair
        | _ => cases hrun
      · rintro ⟨privateKey, publicKey⟩
        refine keys_call (c := .randomUuid) noKeys_fact
          (B := fun _ d _ => NoKeys d.settings ∧ belongs privateKey publicKey)
          (fun _ _ _ _ h _ _ => h) fun id : Id => keys_exec noKeys_fact fun _ => ?_
        refine .bind ((keyTerms belongs).discipline_refl i) (updateOrCreateSetting_keys rfl) ?_
        rintro _ σ hi ⟨q, hq, h⟩ σ₁ hr -
        refine ⟨true, _, (noKeys_fact.stable σ σ₁ hr h).mono (fun _ h => h) ?_⟩
        exact fun d _ hd => ⟨publicKey, hd.2, .created ⟨rfl, rfl, rfl⟩ hq hd.1⟩

/-! ### The activation -/

/-- What a token is worth: it is signed with the private key that is stored. -/
def Issued (rt : Runtime) (belongs : String → String → Prop) (t : String) (d : Db) : Prop :=
  ∃ privateKey publicKey, HasPair d.settings privateKey publicKey ∧ belongs privateKey publicKey ∧
    SignedWith rt privateKey t

/-- What an activation is about to commit. -/
def Issuing (rt : Runtime) (belongs : String → String → Prop) (t : String) (ws : List Write)
    (l : Bool) (d : Db) : Prop :=
  ∃ privateKey publicKey ss rest, ws = ss ++ rest ∧ (∀ w ∈ rest, LeavesSettings w) ∧
    belongs privateKey publicKey ∧ KeySource privateKey publicKey l ss d ∧
      SignedWith rt privateKey t

theorem issuing_fact (t : String) (ws : List Write) (l : Bool) :
    (keyLock i l).Fact (keyTerms belongs) fun d _ => Issuing rt belongs t ws l d := by
  rintro σ σ' hr hg hl ⟨privateKey, publicKey, ss, rest, hws, hrest, hbelongs, hsource, hsigned⟩
  exact ⟨privateKey, publicKey, ss, rest, hws, hrest, hbelongs,
    keySource_fact l ss σ σ' hr hg hl hsource, hsigned⟩

/-- What a token is worth stays, whoever is there. -/
theorem issued_stable (t : String) :
    Stable (keyTerms belongs).discipline i fun σ => Issued rt belongs t σ.server.db := by
  rintro σ σ' hr ⟨privateKey, publicKey, hpair, h⟩
  exact ⟨privateKey, publicKey, hr.2.1 _ _ hpair, h⟩

/-- `lockLicense` -/
theorem lockLicense_keys {id : String} {k : License → Program α}
    (hk : ∀ l, KeepsKeys belongs ok i (L.Holds tx fun _ _ => True) (k l) Q) :
    KeepsKeys belongs ok i (L.Holds tx fun _ _ => True) ((lockLicense rt id).bind k) Q := by
  unfold lockLicense
  split
  · exact keys_fail
  · simp only [Prog.bind_eq, Prog.bind_assoc]
    refine keys_select (B := fun _ _ _ => True) (.const _) (fun _ _ _ h => h) fun found =>
      keys_lock (.const _) ?_
    refine keys_select (B := fun _ _ _ => True) (.const _) (fun _ _ _ h => h) fun license => ?_
    cases license with
    | some l => exact hk l
    | none => exact keys_fail

/-- `refuseExpired` -/
theorem refuseExpired_keys {license : License} {k : Unit → Program α}
    (hk : KeepsKeys belongs ok i (L.Holds tx fun _ _ => True) (k ()) Q) :
    KeepsKeys belongs ok i (L.Holds tx fun _ _ => True) ((refuseExpired license).bind k) Q := by
  refine .bind (B := fun _ => L.Holds tx fun _ _ => True) ((keyTerms belongs).discipline_refl i) ?_
    fun _ => hk
  unfold refuseExpired
  split
  · refine keys_call (c := .now) (B := fun _ _ _ => True) (.const _) (fun _ _ _ _ h _ _ => h)
      fun now : ℤ => ?_
    rw [← Prog.bind_ret (refuse _ _)]
    exact keys_refuse (keys_ret (.const _) fun _ h => h)
  · exact keys_ret (.const _) fun _ h => h

/-- `issueActivationToken` -/
theorem issueActivationToken_keys (hok : ∀ i s ch σ, ok i s ch σ → PairsBelong belongs i s ch σ)
    (licenseId : String) (machineId : Input) :
    KeepsKeys belongs ok i ((keyLock i false).Holds none fun _ _ => True)
      (issueActivationToken rt licenseId machineId)
      (fun t σ => Issued rt belongs t σ.server.db) := by
  unfold issueActivationToken
  split
  · exact keys_fail
  · rename_i machineId _
    refine Triple.mono (Possession.transaction_returns (keyLock i) (R := fun _ _ => True)
      (B := fun t ws l d _ => Issuing rt belongs t ws l d) (.const _) (.const _)
      (fun t ws l => issuing_fact t ws l) issued_stable (fun _ _ h => h)
      (fun _ _ _ _ _ _ => trivial) ?_ ?_) (fun _ h => h) (fun _ _ h => h) fun _ _ _ => failed_keys
    · -- The body: the licence and its activations do not matter here, only the key and the
      -- signature do.
      refine lockLicense_keys fun license => keys_refuse ?_
      refine refuseExpired_keys (keys_select (B := fun _ _ _ => True) (.const _) (fun _ _ _ h => h)
        fun activations => keys_refuse (keys_refuse ?_))
      refine keys_call (c := .now) (B := fun _ _ _ => True) (.const _) (fun _ _ _ _ h _ _ => h)
        fun iat : ℤ => ?_
      refine .bind ((keyTerms belongs).discipline_refl i) (getPrivateKey_keys hok)
        fun privateKey => ?_
      rintro σ hi ⟨l, ss, h⟩
      refine keys_orThrow (fun signature hsigned => ?_) σ hi h
      refine keys_call (c := .randomUuid) (hasKey_fact l ss)
        (B := fun _ d _ => ∃ publicKey, belongs privateKey publicKey ∧
          KeySource privateKey publicKey l ss d) (fun _ _ _ _ h _ _ => h) fun id : Id => ?_
      refine keys_exec (hasKey_fact l ss) fun _ => keys_exec (hasKey_fact l ss) fun _ => ?_
      refine keys_ret (hasKey_fact l ss) fun σ h => ⟨_, l, h.mono (fun _ h => h) ?_⟩
      rintro d w ⟨publicKey, hbelongs, hsource⟩
      refine ⟨privateKey, publicKey, ss, _, List.append_assoc .., ?_, hbelongs, hsource,
        _, signature, rfl, hsigned⟩
      simp only [List.mem_append, List.mem_singleton]
      rintro w (rfl | rfl)
      · exact fun _ => rfl
      · exact fun _ => rfl
    · rintro t ws l σ φ d hi - hl ⟨privateKey, publicKey, ss, rest, rfl, hrest, hbelongs, hsource,
        hsigned⟩ - hp
      -- The commit publishes the pair, if the transaction has created one.
      obtain ⟨hpair, hlock, hkeeps⟩ := hsource.publish hrest hp
      have hmove : (keyTerms belongs).inv ⟨{ σ.server.release i with db := d }, σ.world⟩ ∧
          (keyTerms belongs).guar i σ ⟨{ σ.server.release i with db := d }, σ.world⟩ := by
        refine lockTerms_commit (.inr ⟨privateKey, publicKey, hpair, hbelongs⟩) hkeeps ?_
        rcases hlock with rfl | hsame
        · exact .inl hl
        · exact .inr hsame
      exact ⟨hmove.1, hmove.2, trivial, ⟨privateKey, publicKey, hpair, hbelongs, hsigned⟩,
        fun _ => trivial⟩

end terms

/-! ## Runs -/

/-- Activations that run over the same licences. -/
def activations (rt : Runtime) (calls : List (String × Input)) (d : Db) (clock : ℕ) :
    Config machine (Failure String) String :=
  ⟨⟨Server.idle d, clock⟩, calls.map fun c => issueActivationToken rt c.1 c.2⟩

section runs

variable {rt : Runtime} {belongs : String → String → Prop} {calls : List (String × Input)} {d : Db}
  {clock : ℕ} {c : Config machine (Failure String) String}

/-- Activations keep the terms. -/
theorem activations_sound (hd : NoKeys d.settings) :
    Sound (PairsBelong belongs) (keyTerms belongs).discipline
      (fun _ t σ => Issued rt belongs t σ.server.db) (fun _ _ _ => True)
      (activations rt calls d clock) := by
  refine ⟨.inl hd, fun i p hp => ?_⟩
  rw [activations, List.getElem?_map] at hp
  obtain ⟨call, -, rfl⟩ := Option.map_eq_some_iff.mp hp
  have h : KeepsKeys belongs (PairsBelong belongs) i _ (issueActivationToken rt call.1 call.2) _ :=
    issueActivationToken_keys (fun _ _ _ _ h => h) call.1 call.2
  refine wp_mono (fun _ _ h => h) (fun _ _ _ => trivial)
    (triple_of_committing h _ (.inl hd) ⟨fun _ => rfl, fun _ => ?_⟩)
  exact ⟨Possession.nothing_has i _, trivial⟩

/-- In every run of activations over settings without keys: there is no pair of keys or one that
belongs together, a pair that is committed is the only one ever after, and the clients accept every
token that was returned, under the public key that is stored. -/
theorem one_key_pair (rt : Runtime) (client : Client) (belongs : String → String → Prop)
    (hbase64 : ∀ bytes, client.fromBase64 (rt.base64 bytes) = bytes)
    (hverify : ∀ privateKey publicKey data signature, belongs privateKey publicKey →
      rt.sign privateKey data = .ok signature → client.verify data publicKey signature = true)
    (calls : List (String × Input)) {d : Db} (clock : ℕ) (hd : NoKeys d.settings)
    {c : Config machine (Failure String) String}
    (hr : (activations rt calls d clock).Run (PairsBelong belongs) c) :
    (NoKeys c.state.server.db.settings ∨ ∃ privateKey publicKey,
      HasPair c.state.server.db.settings privateKey publicKey ∧ belongs privateKey publicKey) ∧
    (∀ c' privateKey publicKey, c.Run (PairsBelong belongs) c' →
      HasPair c.state.server.db.settings privateKey publicKey →
      HasPair c'.state.server.db.settings privateKey publicKey) ∧
    ∀ (i : ℕ) (t : String), c.pool[i]? = some (Prog.ret t) → ∃ privateKey publicKey,
      HasPair c.state.server.db.settings privateKey publicKey ∧
        ∃ payload signature, t = token rt payload signature ∧
          client.verify (Js.utf8 payload.stringify) publicKey signature = true ∧
          client.accepts publicKey t = true := by
  have hsound := Sound.run (c := activations rt calls d clock) (keyTerms belongs).compatible
    (activations_sound hd) hr
  refine ⟨hsound.1, fun c' privateKey publicKey hr' hpair => ?_, fun i t ht => ?_⟩
  · have hmoves := hsound.onlooker (keyTerms belongs).compatible hr' (Nat.le_refl _)
    exact hmoves.2.1 _ _ hpair
  · obtain ⟨privateKey, publicKey, hpair, hbelongs, payload, signature, rfl, hsigned⟩ :=
      hsound.returned (keyTerms belongs).compatible ht
    have hvalid := hverify _ _ _ _ hbelongs hsigned
    exact ⟨privateKey, publicKey, hpair, payload, signature, rfl, hvalid,
      (accepts_token hbase64 publicKey payload signature).trans hvalid⟩

end runs

/-! ## A run -/

/-- Libraries that sign with the toy scheme. -/
def signingRuntime : Runtime where
  parseUuid := some
  driverText := Json.stringify
  fromISO _ := none
  sign privateKey data := .ok (toySign (privateKey.toList.getLast?.getD 'A') data)
  base64 bytes := String.ofList (Base64Url.encodeStandard bytes)

/-- A client of the toy scheme. -/
def toyClient : Client where
  fromBase64 s := Base64Url.decodeStandard s.toList
  verify data publicKey signature := signature == toySign (publicKey.toList.getLast?.getD 'A') data

/-- A pair of the toy scheme. -/
def toyBelongs (privateKey publicKey : String) : Prop :=
  privateKey.toList.getLast?.getD 'A' = publicKey.toList.getLast?.getD 'A'

instance (privateKey publicKey : String) : Decidable (toyBelongs privateKey publicKey) := by
  unfold toyBelongs
  infer_instance

/-- The test of `PairsBelong`. -/
def testPairs : ℕ → Action schema calls → machine.Choice → State → Bool
  | _, .ext .generateKeyPair, .ext (.keys privateKey publicKey), _ => toyBelongs privateKey publicKey
  | _, _, _, _ => true

theorem pairsBelong_of_test (i : ℕ) (s : Action schema calls) (ch : machine.Choice) (σ : State)
    (h : testPairs i s ch σ = true) : PairsBelong toyBelongs i s ch σ := by
  cases s with
  | ext c =>
    cases c with
    | generateKeyPair =>
      cases ch with
      | ext o =>
        cases o with
        | keys privateKey publicKey => exact of_decide_eq_true (p := toyBelongs _ _) h
        | _ => trivial
      | _ => trivial
    | _ => trivial
  | _ => trivial

/-- A licence for two machines. -/
def licensedDb : Db :=
  ⟨⟨[⟨"L", "K", "Orbit", none, none, "active", 2, 0, none, none, none⟩], [], []⟩, by decide⟩

/-- The first activation creates the keys, the second finds them. -/
def activateTwice : List (Config.Event machine) :=
  succeed 0 5 ++ [.thread 0 (.ext .done)] ++ succeed 0 2 ++
    [.thread 0 (.ext (.keys "private A" "public A")), .thread 0 (.ext (.id "S"))] ++ succeed 0 4 ++
    [.thread 0 (.ext (.id "P"))] ++ succeed 0 1 ++ [.thread 0 (.ext (.id "A"))] ++ succeed 0 3 ++
    succeed 1 5 ++ [.thread 1 (.ext .done)] ++ succeed 1 2 ++ [.thread 1 (.ext (.id "B"))] ++
    succeed 1 3

/-- The token that a program returned. -/
def returnedToken (c : Config machine (Failure String) String) (i : ℕ) : Option String :=
  match c.pool[i]? with
  | some (.ret t) => some t
  | _ => none

theorem pool_of_returnedToken {c : Config machine (Failure String) String} {i : ℕ} {t : String}
    (h : returnedToken c i = some t) : c.pool[i]? = some (Prog.ret t) := by
  unfold returnedToken at h
  split at h
  · rename_i t' hp
    rw [hp, Option.some.inj h]
  · cases h

/-- Two activations, and both tokens are accepted under one key. -/
theorem one_key_pair_example :
    ∃ c t publicKey, (activations signingRuntime [("L", some (.str "m")), ("L", some (.str "n"))]
        licensedDb 0).Run (PairsBelong toyBelongs) c ∧
      c.pool[1]? = some (Prog.ret t) ∧ toyClient.accepts publicKey t = true := by
  have h : ((activations signingRuntime [("L", some (.str "m")), ("L", some (.str "n"))]
      licensedDb 0).follow testPairs activateTwice).any (fun c => (returnedToken c 1).isSome) =
      true := by
    decide +kernel
  obtain ⟨c, hc, ht⟩ := Config.reached_of_follow pairsBelong_of_test h
  obtain ⟨t, ht⟩ := Option.isSome_iff_exists.mp ht
  have hbase64 : ∀ bytes, toyClient.fromBase64 (signingRuntime.base64 bytes) = bytes := by
    simp [toyClient, signingRuntime]
  have hverify : ∀ privateKey publicKey data signature, toyBelongs privateKey publicKey →
      signingRuntime.sign privateKey data = .ok signature →
      toyClient.verify data publicKey signature = true := by
    intro privateKey publicKey data signature hbelongs hsigned
    rw [← Except.ok.inj hsigned, hbelongs]
    exact beq_self_eq_true _
  obtain ⟨-, -, htokens⟩ := one_key_pair signingRuntime toyClient toyBelongs hbase64 hverify _ 0
    (by decide) hc
  obtain ⟨-, publicKey, -, -, -, -, -, haccepts⟩ := htokens 1 t (pool_of_returnedToken ht)
  exact ⟨c, t, publicKey, hc, pool_of_returnedToken ht, haccepts⟩

end Reeva.Licensing
