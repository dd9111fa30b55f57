import Mathlib.Data.List.Induction
import Reeva.Cms.SignableSize

/-!
# The signer's version gate

`parse_payload` takes a version apart at its dots and tests each part; Reeva writes a version as
three decimal numbers with dots between them. The gate passes exactly the texts that Reeva writes
for numbers of a column of type `integer`, and such a text gives back its numbers: so the version of
a manifest that the signer accepts belongs to one row of the product at most.

The decimal numerals come first: digits without a leading zero are the text of their value. The
parts of a text and the text itself are then recovered from each other by `split`.
-/

namespace Reeva.Signer

/-! ## Decimal numerals -/

/-- A digit is the text of its value. -/
theorem digitChar_value {d : Char} (h : d.isDigit = true) :
    d.toNat - '0'.toNat < 10 ∧ Nat.digitChar (d.toNat - '0'.toNat) = d := by
  simp only [Char.isDigit, Bool.and_eq_true, decide_eq_true_eq] at h
  have hlow : 48 ≤ d.toNat := UInt32.le_iff_toNat_le.mp h.1
  have hhigh : d.toNat ≤ 57 := UInt32.le_iff_toNat_le.mp h.2
  have hzero : '0'.toNat = 48 := rfl
  obtain ⟨k, hk, hd⟩ : ∃ k < 10, d.toNat = 48 + k := ⟨d.toNat - 48, by omega, by omega⟩
  have key : ∀ k < 10, Nat.digitChar k = Char.ofNat (48 + k) := by decide
  constructor
  · omega
  · rw [hd, hzero, Nat.add_sub_cancel_left, key k hk, ← hd, Char.ofNat_toNat]

/-- Digits without a leading zero are the text of their value. -/
theorem toDigits_ofDigitChars {ds : List Char} (hne : ds ≠ [])
    (hz : ds.length = 1 ∨ ds.head? ≠ some '0') (hd : ∀ d ∈ ds, d.isDigit = true) :
    Nat.toDigits 10 (Nat.ofDigitChars 10 ds 0) = ds := by
  -- The last digit comes off the end, as in the printer.
  induction ds using List.reverseRecOn with
  | nil => exact absurd rfl hne
  | append_singleton init d ih =>
    obtain ⟨hlt, hchar⟩ := digitChar_value (hd d (by simp))
    have hvalue : Nat.ofDigitChars 10 (init ++ [d]) 0 =
        10 * Nat.ofDigitChars 10 init 0 + (d.toNat - '0'.toNat) := by
      rw [Nat.ofDigitChars_append, Nat.ofDigitChars_cons, Nat.ofDigitChars_nil]
    rw [hvalue]
    by_cases hinit : init = []
    · subst hinit
      rw [Nat.ofDigitChars_nil, Nat.mul_zero, Nat.zero_add, Nat.toDigits_of_lt_base hlt, hchar]
      rfl
    · -- What stands before the last digit has no leading zero either, so its value is not zero.
      have hhead : init.head? ≠ some '0' := by
        rw [← List.head?_append_of_ne_nil init hinit]
        refine hz.resolve_left fun h => hinit (List.length_eq_zero_iff.mp ?_)
        simpa using h
      have hdigits := ih hinit (.inr hhead) fun c hc => hd c (List.mem_append_left _ hc)
      have hpos : 0 < Nat.ofDigitChars 10 init 0 := by
        refine Nat.pos_of_ne_zero fun h0 => hhead ?_
        rw [← hdigits, h0, Nat.toDigits_zero]
        rfl
      rw [← Nat.toDigits_append_toDigits (by decide) hpos hlt, hdigits,
        Nat.toDigits_of_lt_base hlt, hchar]

/-- A part of a version is the text of a number of type `i32`. -/
theorem isVersionPart_iff {part : List Char} :
    isVersionPart part = true ↔ ∃ n ≤ 2147483647, part = Nat.toDigits 10 n := by
  simp only [isVersionPart, Bool.and_eq_true, Bool.or_eq_true, decide_eq_true_eq,
    List.all_eq_true]
  constructor
  · intro ⟨⟨⟨hne, hz⟩, hd⟩, hle⟩
    exact ⟨Nat.ofDigitChars 10 part 0, hle, (toDigits_ofDigitChars hne hz hd).symm⟩
  · rintro ⟨n, hn, rfl⟩
    refine ⟨⟨⟨Nat.toDigits_ne_nil, ?_⟩, Json.toDigits_isDigit n⟩, ?_⟩
    · rcases Nat.eq_zero_or_pos n with rfl | hpos
      · exact .inl rfl
      · exact .inr (Json.toDigits_head_ne_zero hpos)
    · rw [Nat.ofDigitChars_ten_toDigits]
      exact hn

/-! ## The parts of a text -/

/-- Every text has a first part. -/
theorem split_ne_nil (z : Char) (cs : List Char) : split z cs ≠ [] := by
  cases cs with
  | nil => exact List.cons_ne_nil _ _
  | cons c cs =>
    rw [split]
    split
    · exact List.cons_ne_nil _ _
    · split <;> exact List.cons_ne_nil _ _

/-- A text is its parts with the separator between them. -/
theorem intercalate_split (z : Char) (cs : List Char) :
    List.intercalate [z] (split z cs) = cs := by
  induction cs with
  | nil => rfl
  | cons c cs ih =>
    rw [split]
    split
    · rename_i hc
      obtain ⟨part, parts, hp⟩ := List.exists_cons_of_ne_nil (split_ne_nil z cs)
      rw [hp] at ih ⊢
      rw [List.intercalate_cons_cons, ih, hc]
      rfl
    · split
      · rename_i part parts hp
        rw [hp] at ih
        rw [← ih]
        cases parts with
        | nil => simp
        | cons part' parts => simp [List.intercalate_cons_cons]
      · rename_i hp
        exact absurd hp (split_ne_nil z cs)

/-- A text without separators is its only part. -/
theorem split_of_not_mem {z : Char} {a : List Char} (ha : z ∉ a) : split z a = [a] := by
  induction a with
  | nil => rfl
  | cons c a ih =>
    rw [List.mem_cons, not_or] at ha
    rw [split, if_neg (Ne.symm ha.1), ih ha.2]

/-- The first part ends at the first separator. -/
theorem split_append {z : Char} {a : List Char} (ha : z ∉ a) (rest : List Char) :
    split z (a ++ z :: rest) = a :: split z rest := by
  induction a with
  | nil => rw [List.nil_append, split, if_pos rfl]
  | cons c a ih =>
    rw [List.mem_cons, not_or] at ha
    rw [List.cons_append, split, if_neg (Ne.symm ha.1), ih ha.2]

end Reeva.Signer

namespace Reeva

open Signer (isSemver isVersionPart split)

/-! ## Versions -/

/-- The numbers that a column of type `integer` holds and a version can have. -/
def SemverRange (p : ℕ × ℕ × ℕ) : Prop :=
  p.1 ≤ 2147483647 ∧ p.2.1 ≤ 2147483647 ∧ p.2.2 ≤ 2147483647

/-- `` `${major}.${minor}.${patch}` `` -/
def rendered (p : ℕ × ℕ × ℕ) : String :=
  toString p.1 ++ "." ++ toString p.2.1 ++ "." ++ toString p.2.2

/-- The numbers of a version. -/
def Version.numbers (v : Version) : ℕ × ℕ × ℕ := (v.major, v.minor, v.patch)

/-- Reeva renders the numbers of a row. -/
theorem Version.number_eq (v : Version) : v.number = rendered v.numbers := rfl

/-- The characters of a rendered version. -/
theorem toList_rendered (p : ℕ × ℕ × ℕ) :
    (rendered p).toList = Nat.toDigits 10 p.1 ++
      '.' :: (Nat.toDigits 10 p.2.1 ++ '.' :: Nat.toDigits 10 p.2.2) := by
  have hdot : ".".toList = ['.'] := rfl
  simp only [rendered, String.toList_append, Nat.toString_eq_repr, Nat.toList_repr, hdot,
    List.append_assoc, List.cons_append, List.nil_append]

/-- No numeral has a dot. -/
theorem dot_notMem_toDigits (n : ℕ) : '.' ∉ Nat.toDigits 10 n := fun h =>
  absurd (Json.toDigits_isDigit n '.' h) (by decide)

/-- The parts of a rendered version are its numerals. -/
theorem split_rendered (p : ℕ × ℕ × ℕ) :
    split '.' (rendered p).toList =
      [Nat.toDigits 10 p.1, Nat.toDigits 10 p.2.1, Nat.toDigits 10 p.2.2] := by
  rw [toList_rendered, Signer.split_append (dot_notMem_toDigits _),
    Signer.split_append (dot_notMem_toDigits _), Signer.split_of_not_mem (dot_notMem_toDigits _)]

/-- A number is determined by its numeral. -/
theorem toDigits_injective {m n : ℕ} (h : Nat.toDigits 10 m = Nat.toDigits 10 n) : m = n := by
  calc
    m = Nat.ofDigitChars 10 (Nat.toDigits 10 m) 0 := Nat.ofDigitChars_ten_toDigits.symm
    _ = Nat.ofDigitChars 10 (Nat.toDigits 10 n) 0 := by rw [h]
    _ = n := Nat.ofDigitChars_ten_toDigits

/-- The numbers of a version are determined by its text. -/
theorem rendered_injective : Function.Injective rendered := by
  intro p q h
  have hparts := split_rendered p
  rw [h, split_rendered q] at hparts
  simp only [List.cons.injEq, and_true] at hparts
  obtain ⟨hmajor, hminor, hpatch⟩ := hparts
  exact Prod.ext (toDigits_injective hmajor.symm)
    (Prod.ext (toDigits_injective hminor.symm) (toDigits_injective hpatch.symm))

/-- The gate passes the rendered versions. -/
theorem isSemver_rendered {p : ℕ × ℕ × ℕ} (h : SemverRange p) : isSemver (rendered p) = true := by
  obtain ⟨hmajor, hminor, hpatch⟩ := h
  simp only [isSemver, split_rendered, List.length_cons, List.length_nil, List.all_cons,
    List.all_nil, Bool.and_eq_true, decide_eq_true_eq, Signer.isVersionPart_iff, and_true]
  exact ⟨trivial, ⟨_, hmajor, rfl⟩, ⟨_, hminor, rfl⟩, ⟨_, hpatch, rfl⟩⟩

/-- The gate passes nothing else. -/
theorem rendered_of_isSemver {s : String} (h : isSemver s = true) :
    ∃ p, SemverRange p ∧ rendered p = s := by
  simp only [isSemver, Bool.and_eq_true, decide_eq_true_eq, List.all_eq_true] at h
  obtain ⟨hlength, hparts⟩ := h
  -- There are three parts, and each is the numeral of a number.
  obtain ⟨x, y, z, hxyz⟩ := List.length_eq_three.mp hlength
  rw [hxyz] at hparts
  obtain ⟨a, ha, hx⟩ := Signer.isVersionPart_iff.mp (hparts x (by simp))
  obtain ⟨b, hb, hy⟩ := Signer.isVersionPart_iff.mp (hparts y (by simp))
  obtain ⟨c, hc, hz⟩ := Signer.isVersionPart_iff.mp (hparts z (by simp))
  refine ⟨(a, b, c), ⟨ha, hb, hc⟩, String.toList_inj.mp ?_⟩
  -- The text is its parts with the dots between them.
  have hjoin := Signer.intercalate_split '.' s.toList
  rw [hxyz, hx, hy, hz] at hjoin
  rw [toList_rendered, ← hjoin]
  simp [List.intercalate_cons_cons]

/-! ## Manifests -/

/-- The gate is part of what the signer supports. -/
theorem isSemver_of_parsePayload {payload product : String} {bytes : List UInt8}
    {m : Signer.Manifest} (h : Signer.parsePayload payload product = .ok (bytes, m)) :
    isSemver m.version = true := by
  have hsupported := supported_of_readManifest (parsePayload_eq_ok_iff.mp h).2
  simp only [Signer.Manifest.supported, Bool.and_eq_true] at hsupported
  tauto

/-- At most one row of a product has a given number. -/
theorem Tables.Valid.number_unique {t : Tables} (ht : t.Valid) {v w : Version}
    (hv : v ∈ t.versions) (hw : w ∈ t.versions) (hsoftware : v.softwareId = w.softwareId)
    (hnumber : v.number = w.number) : v = w := by
  refine List.inj_on_of_nodup_map ht.semvers hv hw ?_
  have hnumbers : v.numbers = w.numbers := rendered_injective hnumber
  exact congrArg₂ Prod.mk hsoftware hnumbers

/-- The signer reads the version that Reeva wrote into the manifest. -/
theorem version_of_fromJson {m : OtaReleaseManifest} {manifest : Signer.Manifest}
    (h : Signer.Manifest.fromJson m.toJson = some manifest) : manifest.version = m.version := by
  have hcodename : ∀ o, Signer.readOption (jsonOfNullable o) = some o := by
    intro o
    cases o <;> rfl
  have hvalues : Signer.Manifest.fromJson m.toJson = Signer.Manifest.ofValues (.int 1)
      (.str m.software) (.str m.version) (jsonOfNullable m.codename) (jsonOfNullable m.changelog)
      (.str m.channel) (.str m.platform) (.str m.architecture) (.str m.fileName) (.int m.sizeBytes)
      (.str m.sha256) := by
    rfl
  rw [hvalues] at h
  simp only [Signer.Manifest.ofValues, hcodename, Signer.readString, Option.bind_eq_bind,
    Option.bind_some, Option.pure_def, Option.bind_eq_some_iff, Option.some.injEq] at h
  obtain ⟨schemaVersion, -, sizeBytes, -, rfl⟩ := h
  rfl

/-- A payload of Reeva that the signer accepts carries the version of its manifest. -/
theorem version_of_parsePayload {m : OtaReleaseManifest} {product : String} {bytes : List UInt8}
    {manifest : Signer.Manifest}
    (h : Signer.parsePayload m.payload product = .ok (bytes, manifest)) :
    manifest.version = m.version := by
  obtain ⟨-, rfl, hread⟩ := (parsePayload_payload_iff m).mp h
  rw [readManifest, Js.fromUtf8_utf8, Option.bind_some, Json.parse_stringify, Option.bind_some]
    at hread
  split at hread
  · cases hread
  · rename_i m' hjson
    split at hread
    · obtain rfl := Except.ok.inj hread
      exact version_of_fromJson hjson
    · cases hread

/-- A manifest is built from a version, and carries its number. -/
theorem version_of_buildOtaReleaseManifest {a : LoadedArtifact} {m : OtaReleaseManifest}
    (h : buildOtaReleaseManifest a = .ok m) :
    ∃ v, a.version = some v ∧ m.version = v.version.number := by
  unfold buildOtaReleaseManifest at h
  split at h
  · rename_i version software platform architecture hversion _ _
    refine ⟨⟨version, some software⟩, hversion, ?_⟩
    split at h
    · split at h
      · cases h
      · split at h
        · split at h
          · cases h
          · obtain rfl := Except.ok.inj h
            rfl
        · cases h
    · cases h
  · cases h

/-- The gate accepts the renderings of three numbers from 0 to 2³¹ − 1 and nothing else, and the
numbers are unique. So the version of a manifest that the signer accepts is the number of the rows
with these numbers, of which a product has one at most; and for a payload of Reeva's it is the
number of the version that the manifest was built from. -/
theorem version_gate :
    (∀ s, isSemver s = true ↔ ∃ p, SemverRange p ∧ rendered p = s) ∧
    (∀ s p q, rendered p = s → rendered q = s → p = q) ∧
    (∀ payload product bytes m, Signer.parsePayload payload product = .ok (bytes, m) →
      (∃! p, SemverRange p ∧ rendered p = m.version ∧
        ∀ v : Version, v.number = m.version ↔ v.numbers = p) ∧
      ∀ t : Tables, t.Valid → ∀ v ∈ t.versions, ∀ w ∈ t.versions, v.softwareId = w.softwareId →
        v.number = m.version → w.number = m.version → v = w) ∧
    (∀ artifact m product bytes manifest, buildOtaReleaseManifest artifact = .ok m →
      Signer.parsePayload m.payload product = .ok (bytes, manifest) →
      ∃ v, artifact.version = some v ∧ manifest.version = v.version.number) := by
  refine ⟨fun s => ⟨rendered_of_isSemver, ?_⟩, ?_, ?_, ?_⟩
  · rintro ⟨p, hp, rfl⟩
    exact isSemver_rendered hp
  · intro s p q hp hq
    exact rendered_injective (hp.trans hq.symm)
  · intro payload product bytes m h
    obtain ⟨p, hp, hm⟩ := rendered_of_isSemver (isSemver_of_parsePayload h)
    constructor
    · refine ⟨p, ⟨hp, hm, fun v => ?_⟩, fun q hq => rendered_injective (hq.2.1.trans hm.symm)⟩
      rw [Version.number_eq, ← hm, rendered_injective.eq_iff]
    · intro t ht v hv w hw hsoftware hvm hwm
      exact ht.number_unique hv hw hsoftware (hvm.trans hwm.symm)
  · intro artifact m product bytes manifest hbuild hparse
    obtain ⟨v, hv, hm⟩ := version_of_buildOtaReleaseManifest hbuild
    exact ⟨v, hv, (version_of_parsePayload hparse).trans hm⟩

end Reeva
