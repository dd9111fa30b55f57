import Mathlib.Data.List.Nodup
import Reeva.Legacy.ImportRun

/-!
# Provider configurations are encrypted once

What the three writers of provider configurations store for a plain configuration, and for one that
is in its envelope already, and what the model reads back. The model and the migration leave an
envelope alone; the import wraps it again (`encrypted_once`).
-/

namespace Reeva

open Encryption Legacy Sessions

variable {E : Encryption}

/-- Decryption gives back what was encrypted for the purpose that the writers share. -/
def Encryption.Inverts (E : Encryption) : Prop :=
  ∀ iv value, E.decrypt (E.encrypt iv value storageProviderConfigPurpose)
    storageProviderConfigPurpose = some value

/-! ## Envelopes -/

/-- An envelope is one. -/
@[simp] theorem isEncrypted_envelope (payload : String) :
    isEncryptedStorageProviderConfig (envelope payload) = true := by
  have hversion : (envelope payload).get? envelopeKey = some (.int 1) := rfl
  have hpayload : (envelope payload).get? "payload" = some (.str payload) := rfl
  have hone : Js.number? (.int 1) = some 1 := by
    have h := Js.toDouble_intCast (n := 1) (by decide)
    exact_mod_cast h
  have hunfold : isEncryptedStorageProviderConfig (envelope payload) =
      (decide (((envelope payload).get? envelopeKey).bind Js.number? = some (envelopeVersion : ℚ)) &&
        isString ((envelope payload).get? "payload")) := rfl
  rw [hunfold, hversion, hpayload, Option.bind_some, hone]
  simp [envelopeVersion, isString]

/-- An envelope is in its stored form. -/
@[simp] theorem jsonb_envelope (payload : String) : (envelope payload).jsonb = envelope payload := by
  have hlt : envelopeKey < "payload" := by decide
  simp [envelope, Json.jsonb, Json.jsonbFields, Json.insertField, hlt]

/-- What the application encrypts is an envelope. -/
@[simp] theorem isEncrypted_encrypt (iv : ℕ) (value : Json) :
    isEncryptedStorageProviderConfig (E.encryptStorageProviderConfig iv value) = true :=
  isEncrypted_envelope _

/-- What the application encrypts is stored as it is. -/
@[simp] theorem jsonb_encrypt (iv : ℕ) (value : Json) :
    (E.encryptStorageProviderConfig iv value).jsonb = E.encryptStorageProviderConfig iv value :=
  jsonb_envelope _

/-- The configuration in an envelope is read back. -/
theorem decrypt_encrypt (hE : E.Inverts) (iv : ℕ) (fields : List (String × Json)) :
    E.decryptStorageProviderConfig (E.encryptStorageProviderConfig iv (.obj fields)) =
      .ok (.obj fields) := by
  have hpayload : (E.encryptStorageProviderConfig iv (.obj fields)).get? "payload" =
      some (.str (E.encrypt iv (.obj fields) storageProviderConfigPurpose)) := rfl
  unfold decryptStorageProviderConfig
  rw [if_pos (isEncrypted_encrypt iv _), hpayload]
  simp only [hE iv (.obj fields)]

/-- The model reads the configuration in a stored envelope. -/
theorem consume_encrypt (hE : E.Inverts) (iv : ℕ) (fields : List (String × Json)) :
    E.consume (E.encryptStorageProviderConfig iv (.obj fields)) = .ok (.obj fields) :=
  decrypt_encrypt hE iv fields

/-- The import's encryptor writes the same envelopes. -/
theorem scriptEncrypt_eq (iv : ℕ) (config : Json) :
    E.scriptEncrypt iv config = E.encryptStorageProviderConfig iv config := rfl

/-! ## What is written -/

/-- A value that a writer is given, and the configuration that it stands for. -/
inductive Configures (E : Encryption) : Json → Json → Prop
  | plain (fields : List (String × Json))
      (henvelope : isEncryptedStorageProviderConfig (.obj fields) = false)
      (henvironment : environmentBacked (.obj fields) = false) :
      Configures E (.obj fields) (.obj fields)
  | wrapped (iv : ℕ) (fields : List (String × Json)) :
      Configures E (E.encryptStorageProviderConfig iv (.obj fields)) (.obj fields)

/-- A value given as itself or as its JSON text. -/
def Means (given value : Json) : Prop :=
  given = value ∨ ∃ text, given = .str text ∧ Json.parse text = some value

/-- A value that a row may hold before the migration: a plain configuration, or an envelope. -/
def Admissible (E : Encryption) (value : Json) : Prop :=
  (∃ fields, value = .obj fields ∧ isEncryptedStorageProviderConfig value = false) ∨
    ∃ iv fields, value = E.encryptStorageProviderConfig iv (.obj fields)

/-- Values with a configuration are objects. -/
theorem Configures.exists_obj {x config : Json} (h : Configures E x config) :
    (∃ fields, x = .obj fields) ∧ ∃ fields, config = .obj fields := by
  cases h with
  | plain fields => exact ⟨⟨fields, rfl⟩, fields, rfl⟩
  | wrapped iv fields => exact ⟨⟨_, rfl⟩, fields, rfl⟩

/-- Reading a value without the database gives the configuration that it stands for. -/
theorem Configures.decrypt {x config : Json} (h : Configures E x config) (hE : E.Inverts) :
    E.decryptStorageProviderConfig x = .ok config := by
  cases h with
  | plain fields henvelope => simp [decryptStorageProviderConfig, henvelope]
  | wrapped iv fields => exact decrypt_encrypt hE iv fields

/-- The options of the import with the script's encryptor. -/
def scriptOptions (E : Encryption) (dryRun : Bool) : Options where
  dryRun := dryRun
  encryptStorageConfig := some fun iv config => .ok (E.scriptEncrypt iv config)

/-! ## The model -/

/-- The model stores the envelope of the configuration. -/
theorem prepare_of_configures {x config given : Json} (h : Configures E x config)
    (hgiven : Means given x) (iv : ℕ) :
    ∃ iv', E.prepare iv given = .ok (E.encryptStorageProviderConfig iv' config).stringify := by
  -- a text is parsed first
  have hvalue : E.prepare iv given = E.prepare iv x := by
    rcases hgiven with rfl | ⟨text, rfl, htext⟩
    · rfl
    · obtain ⟨⟨fields, rfl⟩, -⟩ := h.exists_obj
      simp [prepare, htext, bind, Except.bind]
  rw [hvalue]
  cases h with
  | plain fields henvelope henvironment =>
    exact ⟨iv, by simp [prepare, henvelope, bind, Except.bind, pure, Except.pure]⟩
  | wrapped iv' fields =>
    refine ⟨iv', ?_⟩
    have hobj : E.prepare iv (E.encryptStorageProviderConfig iv' (.obj fields)) =
        if isEncryptedStorageProviderConfig (E.encryptStorageProviderConfig iv' (.obj fields)) then
          .ok (E.encryptStorageProviderConfig iv' (.obj fields)).stringify
        else .ok (E.encryptStorageProviderConfig iv
          (E.encryptStorageProviderConfig iv' (.obj fields))).stringify := by
      rfl
    rw [hobj, if_pos (isEncrypted_encrypt iv' _)]

/-! ## The migration -/

/-- A row after the loop over the providers. -/
def Rewritten (f : ProviderRow → Except String (Option Json)) (row row' : ProviderRow) : Prop :=
  row'.id = row.id ∧ ∃ config, f row = .ok config ∧
    row'.config = (config.map Json.jsonb).getD row.config

/-- A table is determined by its rows. -/
theorem ProviderTable.ext {t t' : ProviderTable} (h : t.rows = t'.rows) : t = t' := by
  cases t
  cases t'
  cases h
  rfl

/-- The row that one iteration writes. -/
theorem ProviderTable.put_rows {t : ProviderTable} {done rest : List ProviderRow}
    {row : ProviderRow} (hrows : t.rows = done ++ row :: rest) (config : Option Json) :
    (t.put row.id config).rows =
      done ++ { row with config := (config.map Json.jsonb).getD row.config } :: rest := by
  cases config with
  | none => exact hrows
  | some config =>
    have hnodup := t.nodup
    rw [hrows, List.map_append, List.map_cons] at hnodup
    have hdone : ∀ other ∈ done, other.id ≠ row.id := fun other hother =>
      (List.nodup_append.mp hnodup).2.2 _ (List.mem_map_of_mem hother) _ (by simp)
    have hrest : ∀ other ∈ rest, other.id ≠ row.id := fun other hother heq =>
      (List.nodup_cons.mp (List.nodup_append.mp hnodup).2.1).1
        (heq ▸ List.mem_map_of_mem hother)
    have keep : ∀ rows : List ProviderRow, (∀ other ∈ rows, other.id ≠ row.id) →
        rows.map (fun other => if other.id = row.id then
          { other with config := config.jsonb } else other) = rows := by
      intro rows hne
      rw [List.map_congr_left fun other hother => if_neg (hne other hother), List.map_id']
    show t.rows.map _ = _
    rw [hrows, List.map_append, List.map_cons, keep done hdone, keep rest hrest, if_pos rfl]
    rfl

/-- The loop over the providers, when no iteration throws. -/
theorem ProviderTable.foldlM_put {f : ProviderRow → Except String (Option Json)}
    {rest : List ProviderRow} : ∀ {done : List ProviderRow} {t : ProviderTable},
      t.rows = done ++ rest → (∀ row ∈ rest, ∃ config, f row = .ok config) →
        ∃ t' rest', rest.foldlM (fun now row => (f row).map (now.put row.id)) t = .ok t' ∧
          t'.rows = done ++ rest' ∧ List.Forall₂ (Rewritten f) rest rest' := by
  induction rest with
  | nil =>
    intro done t hrows _
    exact ⟨t, [], rfl, hrows, .nil⟩
  | cons row rest ih =>
    intro done t hrows hf
    obtain ⟨config, hconfig⟩ := hf row (by simp)
    have hput := put_rows hrows config
    rw [List.append_cons] at hput
    obtain ⟨t', rest', hfold, hrows', hrest⟩ := ih hput fun row hrow => hf row (by simp [hrow])
    refine ⟨t', { row with config := (config.map Json.jsonb).getD row.config } :: rest', ?_, ?_,
      .cons ⟨rfl, config, hconfig, rfl⟩ hrest⟩
    · rw [List.foldlM_cons, hconfig]
      exact hfold
    · rw [hrows', List.append_assoc, List.singleton_append]

/-- The loop returns only if every iteration does. -/
theorem ProviderTable.foldlM_returns {f : ProviderRow → Except String (Option Json)}
    {rest : List ProviderRow} : ∀ {t t' : ProviderTable},
      rest.foldlM (fun now row => (f row).map (now.put row.id)) t = .ok t' →
        ∀ row ∈ rest, ∃ config, f row = .ok config := by
  induction rest with
  | nil =>
    intro t t' _ row hrow
    cases hrow
  | cons first rest ih =>
    intro t t' h row hrow
    rw [List.foldlM_cons] at h
    obtain ⟨now, hnow, h⟩ := bind_eq_ok.mp h
    obtain ⟨config, hconfig, -⟩ := map_eq_ok.mp hnow
    rcases List.mem_cons.mp hrow with rfl | hrow
    · exact ⟨config, hconfig⟩
    · exact ih h row hrow

/-- The loop over all providers returns when every iteration does. -/
theorem ProviderTable.forEach_returns {f : ProviderRow → Except String (Option Json)}
    {t : ProviderTable} (hf : ∀ row ∈ t.rows, ∃ config, f row = .ok config) :
    ∃ t', t.forEach f = .ok t' := by
  obtain ⟨t', -, h, -⟩ := @foldlM_put f t.rows [] t rfl hf
  exact ⟨t', h⟩

/-- The rows after the loop. -/
theorem ProviderTable.forEach_rows {f : ProviderRow → Except String (Option Json)}
    {t t' : ProviderTable} (h : t.forEach f = .ok t') :
    List.Forall₂ (Rewritten f) t.rows t'.rows := by
  obtain ⟨t'', rest', h', hrows, hrest⟩ := 
    @foldlM_put f t.rows [] t rfl (foldlM_returns h)
  have heq : t'' = t' := Except.ok.inj (h'.symm.trans h)
  rwa [← heq, hrows, List.nil_append]

/-- The migration passes over a row exactly when it holds an envelope. -/
theorem upRow_eq_none {start : Startup} {iv : ℕ} {row : ProviderRow} :
    E.upRow start iv row = .ok none ↔
      ∃ config, parseConfig row.config = .ok config ∧
        isEncryptedStorageProviderConfig config = true := by
  unfold upRow
  constructor
  · intro h
    obtain ⟨config, hparse, h⟩ := bind_eq_ok.mp h
    refine ⟨config, hparse, ?_⟩
    split at h
    · assumption
    · split at h
      · split at h <;> cases h
      · cases h
  · rintro ⟨config, hparse, hconfig⟩
    exact bind_eq_ok.mpr ⟨config, hparse, if_pos hconfig⟩

/-- What the migration writes is an envelope of an object. -/
theorem upRow_eq_some {start : Startup} {iv : ℕ} {row : ProviderRow} {config : Json}
    (h : E.upRow start iv row = .ok (some config)) :
    ∃ fields, config = E.encryptStorageProviderConfig iv (.obj fields) ∧
      (environmentBacked row.config = false → row.config = .obj fields ∨
        ∃ text, row.config = .str text) := by
  unfold upRow at h
  obtain ⟨parsed, hparse, h⟩ := bind_eq_ok.mp h
  have hobj : ∃ fields, parsed = .obj fields ∧
      (row.config = .obj fields ∨ ∃ text, row.config = .str text) := by
    unfold parseConfig asConfig at hparse
    dsimp only at hparse
    split at hparse
    · rename_i text htext
      split at hparse
      · split at hparse
        · cases hparse
          exact ⟨_, rfl, .inr ⟨text, htext⟩⟩
        · cases hparse
      · cases hparse
    · split at hparse
      · rename_i fields hfields
        cases hparse
        exact ⟨fields, rfl, .inl hfields⟩
      · cases hparse
  obtain ⟨fields, rfl, hrow⟩ := hobj
  split at h
  · cases h
  · split at h
    · split at h
      · rename_i henv _ migrated hmigrated
        cases h
        obtain ⟨fields', -, hfields'⟩ := bind_eq_ok.mp hmigrated
        cases hfields'
        refine ⟨_, rfl, fun hnot => .inr ?_⟩
        rcases hrow with hrow | hrow
        · rw [hrow, henv] at hnot
          cases hnot
        · exact hrow
      · cases h
    · cases h
      exact ⟨fields, rfl, fun _ => hrow⟩

/-- An object is parsed as itself. -/
theorem parseConfig_obj (fields : List (String × Json)) :
    parseConfig (.obj fields) = .ok (.obj fields) := rfl

/-- The migration encrypts a plain configuration. -/
theorem upRow_plain {start : Startup} {iv : ℕ} {rowId : String} {fields : List (String × Json)}
    (henvelope : isEncryptedStorageProviderConfig (.obj fields) = false)
    (henvironment : environmentBacked (.obj fields) = false) :
    E.upRow start iv ⟨rowId, .obj fields⟩ =
      .ok (some (E.encryptStorageProviderConfig iv (.obj fields))) := by
  unfold upRow
  rw [parseConfig_obj]
  simp [henvelope, henvironment, bind, Except.bind, pure, Except.pure]

/-- The migration passes over an envelope. -/
theorem upRow_wrapped {start : Startup} {iv iv' : ℕ} {rowId : String} {config : Json} :
    E.upRow start iv ⟨rowId, E.encryptStorageProviderConfig iv' config⟩ = .ok none :=
  upRow_eq_none.mpr ⟨_, rfl, isEncrypted_encrypt iv' config⟩

/-- The migration leaves an envelope of an admissible row's configuration. -/
theorem rewritten_up {start : Startup} {iv : String → ℕ} {row row' : ProviderRow}
    (hadmissible : Admissible E row.config)
    (h : Rewritten (fun provider => E.upRow start (iv provider.id) provider) row row') :
    ∃ iv' fields, row'.config = E.encryptStorageProviderConfig iv' (.obj fields) ∧
      ∀ config, Configures E row.config config → E.Inverts → config = .obj fields := by
  obtain ⟨-, written, hwritten, hconfig⟩ := h
  obtain ⟨rowId, value⟩ := row
  dsimp only at hadmissible hconfig hwritten
  rcases hadmissible with ⟨fields, rfl, hplain⟩ | ⟨iv', fields, rfl⟩
  · cases written with
    | none =>
      obtain ⟨config, hparse, henvelope⟩ := upRow_eq_none.mp hwritten
      cases hparse
      rw [hplain] at henvelope
      cases henvelope
    | some config =>
      obtain ⟨fields', rfl, hfields⟩ := upRow_eq_some hwritten
      refine ⟨_, fields', by simpa using hconfig, fun config hconfigures _ => ?_⟩
      cases hconfigures with
      | plain _ _ henvironment =>
        rcases hfields henvironment with hsame | ⟨text, htext⟩
        · exact hsame
        · cases htext
      | wrapped iv' inner =>
        have henvelope := isEncrypted_encrypt (E := E) iv' (.obj inner)
        exact absurd (henvelope.symm.trans hplain) (by decide)
  · rw [upRow_wrapped] at hwritten
    cases hwritten
    refine ⟨iv', fields, by simpa using hconfig, fun config hconfigures hE => ?_⟩
    have hread := hconfigures.decrypt hE
    rw [decrypt_encrypt hE] at hread
    exact (Except.ok.inj hread).symm

/-- The migration goes through when its environment-backed rows can be migrated. -/
theorem up_returns {start : Startup} {iv : String → ℕ} {t : ProviderTable}
    (hadmissible : ∀ row ∈ t.rows, Admissible E row.config)
    (henvironment : ∀ row ∈ t.rows, environmentBacked row.config = true →
      ∃ config, start.migrateEnvironmentProvider = .ok config) :
    ∃ t', E.up start iv t = .ok t' := by
  refine ProviderTable.forEach_returns fun row hrow => ?_
  have hbacked := henvironment row hrow
  have hrow := hadmissible row hrow
  obtain ⟨rowId, value⟩ := row
  rcases hrow with ⟨fields, rfl, hplain⟩ | ⟨iv', fields, rfl⟩
  · cases henv : environmentBacked (.obj fields) with
    | false => exact ⟨_, upRow_plain hplain henv⟩
    | true =>
      obtain ⟨config, hconfig⟩ := hbacked henv
      refine ⟨some (E.encryptStorageProviderConfig (iv rowId) config), ?_⟩
      unfold upRow
      refine bind_eq_ok.mpr ⟨_, parseConfig_obj fields, ?_⟩
      rw [if_neg (by simp [hplain]), if_pos henv, hconfig]
      rfl
  · exact ⟨none, upRow_wrapped⟩

/-- A loop that passes over every row leaves the table. -/
theorem ProviderTable.eq_of_passes {f : ProviderRow → Except String (Option Json)}
    {rows rows' : List ProviderRow} (h : List.Forall₂ (Rewritten f) rows rows')
    (hf : ∀ row ∈ rows, f row = .ok none) : rows = rows' := by
  induction h with
  | nil => rfl
  | @cons row row' rows rows' hrow _ ih =>
    obtain ⟨hid, config, hconfig, hstored⟩ := hrow
    rw [hf row (by simp)] at hconfig
    cases hconfig
    have hsame : row = row' := by
      cases row
      cases row'
      exact congrArg₂ _ hid.symm hstored.symm
    rw [hsame, ih fun other hother => hf other (by simp [hother])]

/-- After the migration there is nothing left for it to do. -/
theorem up_again {start start' : Startup} {iv iv' : String → ℕ} {t t' : ProviderTable}
    (h : E.up start iv t = .ok t') : E.up start' iv' t' = .ok t' := by
  have hpass : ∀ row' ∈ t'.rows, E.upRow start' (iv' row'.id) row' = .ok none := by
    intro row' hrow'
    obtain ⟨row, -, -, written, hwritten, hconfig⟩ :=
      forall₂_mem (List.Forall₂.flip (ProviderTable.forEach_rows h)) hrow'
    cases written with
    | none =>
      rw [upRow_eq_none] at hwritten ⊢
      rwa [show row'.config = row.config from hconfig]
    | some config =>
      obtain ⟨fields, rfl, -⟩ := upRow_eq_some hwritten
      have hstored : row'.config = E.encryptStorageProviderConfig (iv row.id) (.obj fields) := by
        simpa using hconfig
      exact upRow_eq_none.mpr ⟨_, by rw [hstored]; rfl, isEncrypted_encrypt _ _⟩
  obtain ⟨t'', ht''⟩ := ProviderTable.forEach_returns
    (f := fun provider => E.upRow start' (iv' provider.id) provider)
    fun row' hrow' => ⟨none, hpass row' hrow'⟩
  have hrows : t'.rows = t''.rows :=
    ProviderTable.eq_of_passes (ProviderTable.forEach_rows ht'') hpass
  rw [ProviderTable.ext hrows]
  rwa [ProviderTable.ext hrows] at ht''

/-- The way back decrypts what the migration leaves. -/
theorem downRow_encrypt (hE : E.Inverts) {iv : ℕ} {row : ProviderRow}
    {fields : List (String × Json)}
    (h : row.config = E.encryptStorageProviderConfig iv (.obj fields)) :
    E.downRow row = .ok (some (.obj fields)) := by
  unfold downRow
  refine bind_eq_ok.mpr ⟨E.encryptStorageProviderConfig iv (.obj fields), by rw [h]; rfl, ?_⟩
  rw [if_pos (isEncrypted_encrypt iv _), decrypt_encrypt hE]
  rfl

/-- The way back restores the plain configurations. -/
theorem down_up (hE : E.Inverts) {start : Startup} {iv : String → ℕ} {t t' : ProviderTable}
    (h : E.up start iv t = .ok t') (hadmissible : ∀ row ∈ t.rows, Admissible E row.config) :
    ∃ t'', E.down t' = .ok t'' ∧
      ∀ row ∈ t.rows, isEncryptedStorageProviderConfig row.config = false →
        environmentBacked row.config = false → row ∈ t''.rows := by
  have hrows := ProviderTable.forEach_rows h
  have hdown : ∀ row' ∈ t'.rows, ∃ config, E.downRow row' = .ok config := by
    intro row' hrow'
    obtain ⟨row, hrow, hrewritten⟩ := forall₂_mem hrows.flip hrow'
    obtain ⟨iv', fields, hconfig, -⟩ := rewritten_up (hadmissible row hrow) hrewritten
    exact ⟨_, downRow_encrypt hE hconfig⟩
  obtain ⟨t'', ht''⟩ := ProviderTable.forEach_returns hdown
  refine ⟨t'', ht'', fun row hrow hplain henvironment => ?_⟩
  obtain ⟨row', hrow', hrewritten⟩ := forall₂_mem hrows hrow
  obtain ⟨row'', hrow'', hid, config, hconfig, hstored⟩ :=
    forall₂_mem (ProviderTable.forEach_rows ht'') hrow'
  obtain ⟨iv', fields, hwritten, hunique⟩ := rewritten_up (hadmissible row hrow) hrewritten
  rw [downRow_encrypt hE hwritten] at hconfig
  obtain rfl := Except.ok.inj hconfig
  -- the row held the configuration that was encrypted, in its stored form
  have hobj : row.config = .obj fields := by
    rcases hadmissible row hrow with ⟨inner, hinner, -⟩ | ⟨_, _, hwrapped⟩
    · rw [hinner] at hplain henvironment hunique ⊢
      exact hunique _ (.plain inner hplain henvironment) hE
    · rw [hwrapped, isEncrypted_encrypt] at hplain
      cases hplain
  have hsame : row'' = row := by
    have hconfig : row''.config = row.config := by
      rw [hstored, Option.map_some, Option.getD_some, ← hobj]
      exact t.stored row hrow
    have hids : row''.id = row.id := hid.trans hrewritten.1
    cases row
    cases row''
    congr
  rwa [hsame] at hrow''

/-! ## The three writers -/

/-- The writers of provider configurations. -/
inductive Writer
  | model
  | migration
  | legacyImport

/-- A writer that is given a value for a row, as itself or (but for the migration, which is given the
row) as its text, stores another. -/
def Stores (E : Encryption) (pg : Postgres) : Writer → Json → Json → Prop
  | .model, value, stored => ∃ given iv text, Means given value ∧ E.prepare iv given = .ok text ∧
      pg.input "jsonb" (some text) = some (.json stored)
  | .migration, value, stored => ∃ start iv t t' rowId, E.up start iv t = .ok t' ∧
      ⟨rowId, value⟩ ∈ t.rows ∧ ⟨rowId, stored⟩ ∈ t'.rows
  | .legacyImport, value, stored => ∃ given softwareId document s s' report,
      ∃ (tables fields : List (String × Json)) (k : ℕ) (row : Legacy.Row),
      Means given value ∧ s.transaction = none ∧
      (importLegacyData pg (scriptOptions E false) softwareId document).exec s =
        (.ok report, s') ∧
      checkDocument document = .ok tables ∧
      (rowsOf tables "storage_providers")[k]? = some (.obj fields) ∧ ("config", given) ∈ fields ∧
      (s'.committed "storage_providers")[k]? = some row ∧
      row.lookup "config" = some (.json stored)

variable {pg : Postgres}

/-- A text that the application prints is stored in its `jsonb` form. -/
theorem input_stringify (j : Json) :
    pg.input "jsonb" (some j.stringify) = some (.json j.jsonb) := by
  unfold Postgres.input
  simp

/-- The model stores an envelope of the configuration. -/
theorem stores_model {x config stored : Json} (h : Configures E x config)
    (hstores : Stores E pg .model x stored) :
    ∃ iv, stored = E.encryptStorageProviderConfig iv config := by
  obtain ⟨given, iv, text, hgiven, hprepare, hinput⟩ := hstores
  obtain ⟨iv', htext⟩ := prepare_of_configures h hgiven iv
  rw [htext] at hprepare
  cases hprepare
  rw [input_stringify, jsonb_encrypt] at hinput
  cases hinput
  exact ⟨iv', rfl⟩

/-- Values with a configuration are admissible. -/
theorem Configures.admissible {x config : Json} (h : Configures E x config) :
    Admissible E x := by
  cases h with
  | plain fields henvelope => exact .inl ⟨fields, rfl, henvelope⟩
  | wrapped iv fields => exact .inr ⟨iv, fields, rfl⟩

/-- The migration leaves an envelope of the configuration. -/
theorem stores_migration {x config stored : Json} (hE : E.Inverts) (h : Configures E x config)
    (hstores : Stores E pg .migration x stored) :
    ∃ iv, stored = E.encryptStorageProviderConfig iv config := by
  obtain ⟨start, iv, t, t', rowId, hup, hrow, hrow'⟩ := hstores
  obtain ⟨other, hother, hrewritten⟩ := forall₂_mem (ProviderTable.forEach_rows hup) hrow
  have hsame : other = ⟨rowId, stored⟩ :=
    List.inj_on_of_nodup_map t'.nodup hother hrow' hrewritten.1
  obtain ⟨iv', fields, hconfig, hunique⟩ := rewritten_up h.admissible hrewritten
  refine ⟨iv', ?_⟩
  rw [hunique config h hE, ← hconfig, hsame]

/-- The import's conversion wraps what it is given, and never throws. -/
theorem convert_config {iv : ℕ} {given : Json} {fields : List (String × Json)} {dryRun : Bool}
    (h : Means given (.obj fields)) :
    convert (scriptOptions E dryRun) iv "storage_providers" "config" "jsonb" given =
      .ok (E.encryptStorageProviderConfig iv (.obj fields)) := by
  have hjson : convertJson "jsonb" given given = .ok (.obj fields) := by
    rcases h with rfl | ⟨text, rfl, htext⟩
    · rfl
    · simp [convertJson, htext]
  have hsafe : ¬(("jsonb" : String) = "bigint" ∧ unsafeNumber given = true) := fun hb =>
    absurd hb.1 (by decide)
  have hboolean : convertBoolean "storage_providers" "config" "jsonb" given = .ok given :=
    if_neg fun hb => absurd hb.1 (by decide)
  have hconfig : convertConfig (scriptOptions E dryRun) iv "storage_providers" "config"
      (.obj fields) = .ok (E.encryptStorageProviderConfig iv (.obj fields)) := rfl
  refine bind_eq_ok.mpr ⟨given, hboolean, ?_⟩
  refine bind_eq_ok.mpr ⟨_, hjson, bind_eq_ok.mpr ⟨_, hconfig, ?_⟩⟩
  exact bind_eq_ok.mpr ⟨(), throwIf_eq_ok.mpr hsafe, rfl⟩

/-- The import wraps what it is given. -/
theorem stores_import {x config stored : Json}
    (hcolumn : (pg.columns "storage_providers").lookup "config" = some "jsonb")
    (h : Configures E x config) (hstores : Stores E pg .legacyImport x stored) :
    ∃ iv, stored = E.encryptStorageProviderConfig iv x := by
  obtain ⟨given, softwareId, document, s, s', report, tables, fields, k, row, hgiven, hs, hexec,
    hdocument, hfields, hfield, hrow, hstored⟩ := hstores
  obtain ⟨-, -, hcommitted⟩ := (import_run hs).2 report s' hexec
  obtain ⟨tables', data, hdocument', hdata, himported⟩ := hcommitted
  obtain rfl := Except.ok.inj (hdocument.symm.trans hdocument')
  have hrows := himported.rows "storage_providers" (by decide)
  rw [rowsOf_withSoftware hdata (by decide) (by decide)] at hrows
  have hprepared : ("config", given) ∈ prepareRow "storage_providers" fields := hfield
  obtain ⟨iv, type, converted, v, htype, hconvert, hinput, hlookup⟩ :=
    (forall₂_getElem? hrows hfields hrow).column hprepared
  rw [hcolumn] at htype
  obtain rfl := Option.some.inj htype
  obtain ⟨⟨inner, rfl⟩, -⟩ := h.exists_obj
  rw [convert_config hgiven] at hconvert
  obtain rfl := Except.ok.inj hconvert
  have hprepared : prepareValue (E.encryptStorageProviderConfig iv (.obj inner)) =
      some (E.encryptStorageProviderConfig iv (.obj inner)).stringify := rfl
  rw [hprepared, input_stringify, jsonb_encrypt] at hinput
  obtain rfl := Option.some.inj hinput
  rw [hstored] at hlookup
  cases hlookup
  exact ⟨iv, rfl⟩

/-- What a writer is given when it stores the configuration of every value: not an envelope, if it is
the import. -/
def Unwrapped (w : Writer) (value config : Json) : Prop := w = .legacyImport → value = config

/-- Every writer stores an envelope, and the model reads the value's configuration from it exactly when
the writer is not the import of an envelope. The model's `prepare` and the import's conversion never
throw on such a value, and `up` throws only for a row that is environment-backed; running `up` again
changes nothing, and `down` after `up` restores every row that was plain and not
environment-backed. -/
theorem encrypted_once (hE : E.Inverts)
    (hcolumn : (pg.columns "storage_providers").lookup "config" = some "jsonb") :
    (∀ w value config stored, Configures E value config → Stores E pg w value stored →
      isEncryptedStorageProviderConfig stored = true ∧
        (E.consume stored = .ok config ↔ Unwrapped w value config)) ∧
    (∀ value config given iv, Configures E value config → Means given value →
      (∃ text, E.prepare iv given = .ok text) ∧
        ∃ converted, convert (scriptOptions E false) iv "storage_providers" "config" "jsonb" given =
          .ok converted) ∧
    (∀ start iv t, (∀ row ∈ t.rows, Admissible E row.config) →
      (∀ row ∈ t.rows, environmentBacked row.config = true →
        ∃ config, start.migrateEnvironmentProvider = .ok config) →
      ∃ t', E.up start iv t = .ok t') ∧
    ∀ start iv t t', E.up start iv t = .ok t' →
      (∀ start' iv', E.up start' iv' t' = .ok t') ∧
      ((∀ row ∈ t.rows, Admissible E row.config) → ∃ t'', E.down t' = .ok t'' ∧
        ∀ row ∈ t.rows, isEncryptedStorageProviderConfig row.config = false →
          environmentBacked row.config = false → row ∈ t''.rows) := by
  refine ⟨fun w value config stored hvalue hstores => ?_, fun value config given iv hvalue hgiven =>
    ?_, fun start iv t hadmissible henvironment => ?_, fun start iv t t' hup => ⟨fun start' iv' => ?_,
      fun hadmissible => ?_⟩⟩
  · obtain ⟨-, fields, rfl⟩ := hvalue.exists_obj
    cases w with
    | model =>
      obtain ⟨iv, rfl⟩ := stores_model hvalue hstores
      exact ⟨isEncrypted_encrypt iv _, iff_of_true (consume_encrypt hE iv fields) nofun⟩
    | migration =>
      obtain ⟨iv, rfl⟩ := stores_migration hE hvalue hstores
      exact ⟨isEncrypted_encrypt iv _, iff_of_true (consume_encrypt hE iv fields) nofun⟩
    | legacyImport =>
      obtain ⟨iv, rfl⟩ := stores_import hcolumn hvalue hstores
      obtain ⟨⟨inner, rfl⟩, -⟩ := hvalue.exists_obj
      refine ⟨isEncrypted_encrypt iv _, ?_⟩
      rw [consume_encrypt hE iv inner]
      exact ⟨fun h _ => Except.ok.inj h, fun h => congrArg _ (h rfl)⟩
  · obtain ⟨iv', htext⟩ := prepare_of_configures hvalue hgiven iv
    obtain ⟨⟨inner, rfl⟩, -⟩ := hvalue.exists_obj
    exact ⟨⟨_, htext⟩, _, convert_config hgiven⟩
  · exact up_returns hadmissible henvironment
  · exact up_again hup
  · exact down_up hE hup hadmissible

/-! ## An import of an envelope -/

/-- An encryption that hides nothing. -/
def toyEncryption : Encryption where
  encrypt _ value _ := value.stringify
  decrypt text _ := Json.parse text

/-- What it encrypts is read back. -/
theorem toyEncryption_inverts : toyEncryption.Inverts := by
  intro iv value
  simp [toyEncryption]

/-- A database that lets every row in. -/
def toyPostgres : Postgres where
  columns table :=
    if table = "storage_providers" then [("id", "uuid"), ("config", "jsonb")]
    else [("id", "uuid"), ("name", "text"), ("slug", "text"), ("is_active", "boolean"),
      ("is_default", "boolean")]
  read _ text := some text
  default _ _ _ := .null
  allows _ _ _ := true
  allowsDelete _ := true
  refuses _ := false

/-- An export with one provider. -/
def providerExport (config : Json) : Json :=
  .obj [("formatVersion", .int 1),
    ("tables", .obj [("storage_providers", .arr [.obj [("id", .str "p"), ("config", config)]])])]

/-- The configuration of a local provider. -/
def localConfig : List (String × Json) := [("driver", .str "local")]

/-- The envelope of that configuration. -/
def localEnvelope : Json := toyEncryption.encryptStorageProviderConfig 0 (.obj localConfig)

/-- The run of the import of a provider into an empty database. -/
def providerImport (config : Json) : Except String Legacy.Report × Session Legacy.Tables :=
  (importLegacyData toyPostgres (scriptOptions toyEncryption false) "s"
    (providerExport config)).exec { committed := fun _ => [] }

/-- The provider's row after an import of its envelope. -/
def doubleRow : Legacy.Row :=
  [("id", .other "p"), ("config", .json (toyEncryption.encryptStorageProviderConfig 16 localEnvelope))]

/-- A pair whose first component is known. -/
theorem eq_mk_of_fst {α β : Type} {p : α × β} {a : α} (h : p.1 = a) : p = (a, p.2) := by
  cases h
  rfl

/-- An import that goes through stores what is in the provider's row. -/
theorem stores_of_run {config stored : Json} {row : Legacy.Row} {report : Legacy.Report}
    (hdocument : checkDocument (providerExport config) = .ok
      [("storage_providers", .arr [.obj [("id", .str "p"), ("config", config)]])])
    (hok : (providerImport config).1 = .ok report)
    (hrow : (providerImport config).2.committed "storage_providers" = [row])
    (hconfig : row.lookup "config" = some (.json stored)) :
    Stores toyEncryption toyPostgres .legacyImport config stored := by
  have hfirst : ((providerImport config).2.committed "storage_providers")[0]? = some row := by
    rw [hrow]
    rfl
  exact ⟨config, "s", providerExport config, { committed := fun _ => [] }, (providerImport config).2,
    report, _, [("id", .str "p"), ("config", config)], 0, row, .inl rfl, rfl, eq_mk_of_fst hok,
    hdocument, rfl, by simp, hfirst, hconfig⟩

/-- The report of an import of one provider. -/
def oneProvider : Legacy.Report :=
  ⟨false, importTables.map fun table =>
    (table, if table = "storage_providers" ∨ table = "software" then 1 else 0), false, true⟩

/-- The import of the envelope goes through. -/
theorem providerImport_envelope :
    (providerImport localEnvelope).1 = .ok oneProvider ∧
      (providerImport localEnvelope).2.committed "storage_providers" = [doubleRow] := by
  decide +kernel

/-- Importing an envelope stores an envelope around the envelope. -/
theorem stores_wrapped :
    Stores toyEncryption toyPostgres .legacyImport localEnvelope
      (toyEncryption.encryptStorageProviderConfig 16 localEnvelope) :=
  stores_of_run (by decide +kernel) providerImport_envelope.1 providerImport_envelope.2 rfl

/-- The import of an envelope stores what the model cannot read: it reads the inner envelope. -/
theorem encrypted_once_fails :
    ¬∀ (E : Encryption) (pg : Postgres), E.Inverts →
      (pg.columns "storage_providers").lookup "config" = some "jsonb" →
      ∀ w value config stored, Configures E value config → Stores E pg w value stored →
        isEncryptedStorageProviderConfig stored = true ∧ E.consume stored = .ok config := by
  intro h
  have hread := (h toyEncryption toyPostgres toyEncryption_inverts rfl .legacyImport localEnvelope
    (.obj localConfig) _ (.wrapped 0 localConfig) stores_wrapped).2
  have hinner : toyEncryption.consume (toyEncryption.encryptStorageProviderConfig 16 localEnvelope) =
      .ok localEnvelope := consume_encrypt toyEncryption_inverts 16 _
  rw [hinner] at hread
  exact absurd (Except.ok.inj hread) (by decide)

/-- The model reads no configuration from the imported envelope, as it was not given unwrapped. -/
theorem encrypted_once_example :
    toyEncryption.consume (toyEncryption.encryptStorageProviderConfig 16 localEnvelope) =
        .ok (.obj localConfig) ↔ Unwrapped .legacyImport localEnvelope (.obj localConfig) :=
  ((@encrypted_once toyEncryption toyPostgres toyEncryption_inverts rfl).1 .legacyImport localEnvelope
    (.obj localConfig) _ (.wrapped 0 localConfig) stores_wrapped).2

end Reeva
