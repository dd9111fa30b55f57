import Reeva.Release.Manifest
import Reeva.Release.OtaSigning
import Reeva.Signer.Manifest

/-!
# The encoding of payloads

Three programs take a payload as text: the server that verifies a signature over it, the signer that
signs it, and the command line tool that signs it offline. Each checks the text in its own way, with
its own decoder. All three take the canonical encodings of byte strings and nothing else, and go on
with the same bytes (`one_encoding_gate`).
-/

namespace Reeva

/-- A text is the canonical encoding of some bytes, within the limit. -/
def Canonical (s : String) (bytes : List UInt8) : Prop :=
  bytes ≠ [] ∧ s.toList = Base64Url.encode bytes ∧ s.toList.length ≤ 120000

/-- A text encodes at most one byte string. -/
theorem Canonical.unique {s : String} {a b : List UInt8} (ha : Canonical s a)
    (hb : Canonical s b) : a = b :=
  Base64Url.encode_injective (ha.2.1.symm.trans hb.2.1)

/-- The lenient decoder decodes a canonical text. -/
theorem Canonical.decodeLenient {s : String} {b : List UInt8} (h : Canonical s b) :
    Base64Url.decodeLenient s.toList = b := by
  rw [h.2.1, Base64Url.decodeLenient_encode]

/-- A canonical text is not empty. -/
theorem Canonical.ne_nil {s : String} {b : List UInt8} (h : Canonical s b) : s.toList ≠ [] := by
  rw [h.2.1]
  exact Base64Url.encode_ne_nil h.1

/-- A canonical text consists of characters of the alphabet. -/
theorem Canonical.alphabet {s : String} {b : List UInt8} (h : Canonical s b) :
    s.toList.all Base64Url.isAlphabet = true := by
  rw [h.2.1]
  exact List.all_eq_true.mpr (Base64Url.encode_alphabet b)

/-- A text that its lenient reading gives back is canonical. -/
theorem canonical_of_reencode {s : String}
    (hne : (Base64Url.decodeLenient s.toList).length ≠ 0)
    (henc : Base64Url.encode (Base64Url.decodeLenient s.toList) = s.toList)
    (hlen : s.toList.length ≤ 120000) : Canonical s (Base64Url.decodeLenient s.toList) :=
  ⟨by simpa using hne, henc.symm, hlen⟩

/-- A character of the alphabet is an ASCII character. -/
theorem toNat_lt_of_isAlphabet {c : Char} (h : Base64Url.isAlphabet c = true) : c.toNat < 128 := by
  obtain ⟨n, hn⟩ := Option.isSome_iff_exists.mp h
  exact Base64Url.toNat_lt_of_value hn

/-! ## The server -/

section server

variable (node : Node)

/-- A signature verifies over some bytes: the part of `verifyOtaReleaseSignature` that is not about
the payload's text. -/
def SignatureOver (bytes : List UInt8) (signature : Json) (publicKeyPem : String) : Prop :=
  ∃ text key, signature = .str text ∧ text.toList.length = 86 ∧
    text.toList.all Base64Url.isAlphabet = true ∧
    (Base64Url.decodeLenient text.toList).length = 64 ∧
    Base64Url.encode (Base64Url.decodeLenient text.toList) = text.toList ∧
    getPublicKey node publicKeyPem = .ok key ∧
    node.verify bytes key (Base64Url.decodeLenient text.toList) = true

/-- The server verifies the signatures over the bytes of canonical texts. -/
theorem verifyOtaReleaseSignature_iff {s : String} {signature : Json} {pem : String} :
    verifyOtaReleaseSignature node s signature pem = true ↔
      ∃ bytes, Canonical s bytes ∧ SignatureOver node bytes signature pem := by
  constructor
  · intro h
    unfold verifyOtaReleaseSignature at h
    split at h
    · rename_i text
      split_ifs at h with hform hchars
      dsimp only at h
      split_ifs at h with hbytes
      push Not at hform hchars hbytes
      split at h
      · rename_i key hkey
        have hcanonical := canonical_of_reencode hbytes.2.2.1 hbytes.2.2.2 hchars.2.2
        exact ⟨_, hcanonical, text, key, rfl, hform.1, by simpa using hform.2, hbytes.1, hbytes.2.1,
          hkey, h⟩
      · cases h
    · cases h
  · rintro ⟨bytes, hs, text, key, rfl, h86, halphabet, h64, hsignature, hkey, hverify⟩
    have hne : bytes.length ≠ 0 := by simpa using hs.1
    have hencode : Base64Url.encode bytes = s.toList := hs.2.1.symm
    have hlen : ¬120000 < s.toList.length := Nat.not_lt.mpr hs.2.2
    simp only [verifyOtaReleaseSignature, h86, halphabet, hs.ne_nil, hs.alphabet, hlen,
      hs.decodeLenient, h64, hsignature, hne, hencode, hkey, hverify, ne_eq, not_true_eq_false,
      Bool.not_true, Bool.false_eq_true, or_self, if_false]

end server

/-! ## The signer -/

/-- The part of `parse_payload` after the text has been decoded. -/
def readManifest (bytes : List UInt8) (product : String) : Except Signer.ApiError Signer.Manifest :=
  match ((Js.fromUtf8 bytes).bind Json.parse).bind Signer.Manifest.fromJson with
  | none => .error (Signer.invalid "Invalid release manifest.")
  | some m =>
    if m.supported product then .ok m
    else .error (Signer.invalid "Unsupported or mismatched release metadata.")

/-- The errors of `parse_payload` about the text. -/
def encodingErrors : List Signer.ApiError :=
  [Signer.invalid "Invalid manifest size.", Signer.invalid "Invalid base64url payload.",
    Signer.invalid "Noncanonical payload."]

/-- Of a canonical text, the signer reads the manifest in its bytes. -/
theorem parsePayload_of_canonical {s product : String} {bytes : List UInt8}
    (h : Canonical s bytes) :
    Signer.parsePayload s product = (readManifest bytes product).map fun m => (bytes, m) := by
  have hempty : s ≠ "" := fun hs => h.ne_nil (by rw [hs]; rfl)
  have hlen : ¬120000 < Signer.byteLength s := by
    rw [Signer.byteLength_of_ascii fun c hc =>
      toNat_lt_of_isAlphabet (List.all_eq_true.mp h.alphabet c hc)]
    exact Nat.not_lt.mpr h.2.2
  have hdecode : Base64Url.decodeStrict s.toList = some bytes :=
    Base64Url.decodeStrict_eq_some_iff.mpr h.2.1.symm
  have hencode : ¬Base64Url.encode bytes ≠ s.toList := fun hne => hne h.2.1.symm
  unfold Signer.parsePayload readManifest
  rw [if_neg (not_or.mpr ⟨hempty, hlen⟩), hdecode]
  dsimp only
  rw [if_neg hencode]
  cases ((Js.fromUtf8 bytes).bind Json.parse).bind Signer.Manifest.fromJson with
  | none => rfl
  | some m =>
    dsimp only
    split <;> rfl

/-- A text that is not canonical is refused with an error about it. -/
theorem parsePayload_of_not_canonical {s : String} (product : String)
    (h : ¬∃ bytes, Canonical s bytes) :
    ∃ e ∈ encodingErrors, Signer.parsePayload s product = .error e := by
  unfold Signer.parsePayload
  split
  · exact ⟨_, .head _, rfl⟩
  · rename_i hsize
    split
    · exact ⟨_, .tail _ (.head _), rfl⟩
    · rename_i bytes hdecode
      -- What the strict decoder decodes is canonical.
      have hencode := Base64Url.decodeStrict_eq_some_iff.mp hdecode
      have halphabet : s.toList.all Base64Url.isAlphabet = true := by
        rw [← hencode]
        exact List.all_eq_true.mpr (Base64Url.encode_alphabet bytes)
      rw [Signer.byteLength_of_ascii fun c hc =>
        toNat_lt_of_isAlphabet (List.all_eq_true.mp halphabet c hc)] at hsize
      push Not at hsize
      have hbytes : bytes ≠ [] := by
        rintro rfl
        exact hsize.1 (String.toList_eq_nil_iff.mp hencode.symm)
      exact absurd ⟨bytes, hbytes, hencode.symm, hsize.2⟩ h

/-- A manifest that is read is one that the signer supports. -/
theorem supported_of_readManifest {bytes : List UInt8} {product : String} {m : Signer.Manifest}
    (h : readManifest bytes product = .ok m) : m.supported product = true := by
  unfold readManifest at h
  split at h
  · cases h
  · split at h
    · rename_i hm
      obtain rfl := Except.ok.inj h
      exact hm
    · cases h

/-- The errors about the manifest are no errors about the text. -/
theorem readManifest_error {bytes : List UInt8} {product : String} {e : Signer.ApiError}
    (h : readManifest bytes product = .error e) : e ∉ encodingErrors := by
  unfold readManifest at h
  split at h
  · obtain rfl := Except.error.inj h
    decide
  · split at h
    · cases h
    · obtain rfl := Except.error.inj h
      decide

/-- The signer reads canonical texts and the manifests in their bytes. -/
theorem parsePayload_eq_ok_iff {s product : String} {bytes : List UInt8}
    {manifest : Signer.Manifest} :
    Signer.parsePayload s product = .ok (bytes, manifest) ↔
      Canonical s bytes ∧ readManifest bytes product = .ok manifest := by
  constructor
  · intro h
    by_cases hs : ∃ bytes, Canonical s bytes
    · obtain ⟨bytes', hs⟩ := hs
      rw [parsePayload_of_canonical hs] at h
      cases hm : readManifest bytes' product with
      | error e =>
        rw [hm] at h
        cases h
      | ok m =>
        rw [hm] at h
        obtain ⟨rfl, rfl⟩ := Prod.mk.inj (Except.ok.inj h)
        exact ⟨hs, hm⟩
    · obtain ⟨e, -, he⟩ := parsePayload_of_not_canonical product hs
      cases he.symm.trans h
  · rintro ⟨hs, hm⟩
    rw [parsePayload_of_canonical hs, hm]
    rfl

/-! ## The command line tool -/

section tool

variable (host : OtaSigning.Host)

open OtaSigning

/-- The options name a usable private key, and its signature of some bytes is `text`: the part of
`signPayload` that is not about the payload's text. -/
def SignsWith (options : List (String × String)) (bytes : List UInt8) (text : String) : Prop :=
  ∃ path pem key mode, options.lookup "--private-key" = some path ∧ path ≠ "" ∧
    options.length = 2 ∧ host.readFileSync path = .ok pem ∧ host.createPrivateKey pem = .ok key ∧
    host.asymmetricKeyType key = "ed25519" ∧ host.mode path = .ok mode ∧
    text = String.ofList (Base64Url.encode (host.sign bytes key)) ++ "\n"

/-- A call that fails is the end of a command. -/
theorem call_error {α β : Type} {e : String} (next : α → Script β) (streams : Streams) :
    (call (.error e) >>= next : Script β) streams = (.error e, streams) := rfl

/-- A call that succeeds is followed by what comes next. -/
theorem call_ok {α β : Type} {a : α} (next : α → Script β) (streams : Streams) :
    (call (.ok a) >>= next : Script β) streams = next a streams := rfl

/-- The warning changes nothing but the error stream. -/
theorem warning_bind {c : Prop} [Decidable c] (text : String) {β : Type} (next : Unit → Script β)
    (streams : Streams) :
    ∃ stderr, ((if c then writeError text else pure ()) >>= next : Script β) streams =
      next () { streams with stderr } := by
  by_cases hc : c
  · rw [if_pos hc]
    exact ⟨_, rfl⟩
  · rw [if_neg hc]
    exact ⟨_, rfl⟩

/-- The private key is the one at the path that the options name. -/
theorem SignsWith.of_lookup {host : Host} {options : List (String × String)} {path : String}
    {bytes : List UInt8} {text : String} (h : SignsWith host options bytes text)
    (hpath : options.lookup "--private-key" = some path) :
    ∃ pem key mode, host.readFileSync path = .ok pem ∧ host.createPrivateKey pem = .ok key ∧
      host.asymmetricKeyType key = "ed25519" ∧ host.mode path = .ok mode ∧
      text = String.ofList (Base64Url.encode (host.sign bytes key)) ++ "\n" := by
  obtain ⟨path', pem, key, mode, hpath', -, -, h⟩ := h
  rw [hpath] at hpath'
  obtain rfl := Option.some.inj hpath'
  exact ⟨pem, key, mode, h⟩

/-- What a run of the tool comes to: an error and no signature, or the signature of the bytes of a
canonical text. -/
theorem signPayload_run (options : List (String × String)) (streams : Streams) :
    (∃ e stderr, signPayload host options streams = (.error e, { streams with stderr }) ∧
        ∀ s bytes text, options.lookup "--payload-base64url" = some s → Canonical s bytes →
          ¬SignsWith host options bytes text) ∨
      ∃ s bytes text stderr, options.lookup "--payload-base64url" = some s ∧ Canonical s bytes ∧
        SignsWith host options bytes text ∧
        signPayload host options streams =
          (.ok (), { stdout := streams.stdout ++ text, stderr }) := by
  unfold signPayload
  dsimp only
  split
  · rename_i h
    refine .inl ⟨_, _, rfl, ?_⟩
    rintro s bytes text hs hc ⟨path, pem, key, mode, hpath, hne, htwo, -⟩
    rw [hs, hpath, Option.getD_some, Option.getD_some] at h
    exact h.elim hne fun h => h.elim (fun h => hc.ne_nil (by rw [h]; rfl)) fun h => h htwo
  rename_i hoptions
  push Not at hoptions
  obtain ⟨hpath, hpayload, htwo⟩ := hoptions
  obtain ⟨path, hlookup⟩ : ∃ path, options.lookup "--private-key" = some path :=
    Option.ne_none_iff_exists'.mp fun h => hpath (by rw [h]; rfl)
  obtain ⟨s, hs⟩ : ∃ s, options.lookup "--payload-base64url" = some s :=
    Option.ne_none_iff_exists'.mp fun h => hpayload (by rw [h]; rfl)
  rw [hlookup, Option.getD_some] at hpath
  rw [hlookup, hs, Option.getD_some, Option.getD_some]
  -- Where a check of the key fails, the options name no usable key.
  have refused : (∀ bytes text, Canonical s bytes → ¬SignsWith host options bytes text) →
      ∀ s' bytes text, some s = some s' → Canonical s' bytes →
        ¬SignsWith host options bytes text := by
    intro h s' bytes text hs'
    obtain rfl := Option.some.inj hs'
    exact h bytes text
  split
  · rename_i hchars
    refine .inl ⟨_, _, rfl, refused fun bytes text hc _ => ?_⟩
    rw [hc.alphabet, Js.length_of_ascii fun c hmem =>
      toNat_lt_of_isAlphabet (List.all_eq_true.mp hc.alphabet c hmem)] at hchars
    -- A canonical text is ASCII, so its length is that of its bytes.
    have hlen := hc.2.2
    simp only [Bool.not_true, Bool.false_eq_true, false_or] at hchars
    omega
  rename_i hchars
  push Not at hchars
  cases hread : host.readFileSync path with
  | error e =>
    refine .inl ⟨e, streams.stderr, call_error _ _, refused fun bytes text _ hsign => ?_⟩
    obtain ⟨pem, key, mode, hread', -⟩ := hsign.of_lookup hlookup
    cases hread.symm.trans hread'
  | ok pem =>
  rw [call_ok]
  cases hkey : host.createPrivateKey pem with
  | error e =>
    refine .inl ⟨e, streams.stderr, call_error _ _, refused fun bytes text _ hsign => ?_⟩
    obtain ⟨pem', key, mode, hread', hkey', -⟩ := hsign.of_lookup hlookup
    obtain rfl := Except.ok.inj (hread.symm.trans hread')
    cases hkey.symm.trans hkey'
  | ok key =>
  rw [call_ok]
  split
  · rename_i htype
    refine .inl ⟨_, streams.stderr, rfl, refused fun bytes text _ hsign => htype ?_⟩
    obtain ⟨pem', key', mode, hread', hkey', htype', -⟩ := hsign.of_lookup hlookup
    obtain rfl := Except.ok.inj (hread.symm.trans hread')
    obtain rfl := Except.ok.inj (hkey.symm.trans hkey')
    exact htype'
  rename_i htype
  push Not at htype
  cases hmode : host.mode path with
  | error e =>
    refine .inl ⟨e, streams.stderr, call_error _ _, refused fun bytes text _ hsign => ?_⟩
    obtain ⟨pem', key', mode, -, -, -, hmode', -⟩ := hsign.of_lookup hlookup
    cases hmode.symm.trans hmode'
  | ok mode =>
  rw [call_ok]
  obtain ⟨stderr, hwarning⟩ := warning_bind (c := mode % 64 ≠ 0) permissionWarning _ streams
  rw [hwarning]
  split
  · -- The bytes decode leniently from any text; a text that is not canonical is not encoded back.
    rename_i hbytes
    refine .inl ⟨_, stderr, rfl, refused fun bytes text hc _ => ?_⟩
    rw [hc.decodeLenient, hc.2.1] at hbytes
    exact hbytes.elim (fun h => hc.1 (List.length_eq_zero_iff.mp h)) fun h => h rfl
  · rename_i hbytes
    push Not at hbytes
    have hlen : s.toList.length ≤ 120000 := by
      rw [← Js.length_of_ascii fun c hmem =>
        toNat_lt_of_isAlphabet (List.all_eq_true.mp (by simpa using hchars.1) c hmem)]
      exact hchars.2
    exact .inr ⟨s, _, _, stderr, rfl, canonical_of_reencode hbytes.1 hbytes.2 hlen,
      ⟨path, pem, key, mode, hlookup, hpath, htwo, hread, hkey, htype, hmode, rfl⟩, rfl⟩

/-- The tool signs the bytes of canonical texts. -/
theorem signPayload_iff {options : List (String × String)} {s text : String}
    (hs : options.lookup "--payload-base64url" = some s) (streams : Streams) :
    ((signPayload host options streams).1 = .ok () ∧
        (signPayload host options streams).2.stdout = streams.stdout ++ text) ↔
      ∃ bytes, Canonical s bytes ∧ SignsWith host options bytes text := by
  obtain ⟨e, stderr, hrun, hnone⟩ | ⟨s', bytes, out, stderr, hs', hc, hsign, hrun⟩ :=
    signPayload_run host options streams
  · rw [hrun]
    constructor
    · rintro ⟨h, -⟩
      cases h
    · rintro ⟨bytes, hc, hsign⟩
      exact absurd hsign (hnone s bytes text hs hc)
  · obtain rfl := Option.some.inj (hs.symm.trans hs')
    rw [hrun]
    constructor
    · rintro ⟨-, h⟩
      obtain rfl : out = text := (String.append_right_inj _).mp h
      exact ⟨bytes, hc, hsign⟩
    · rintro ⟨bytes', hc', hsign'⟩
      obtain rfl := hc.unique hc'
      obtain ⟨path, pem, key, mode, hpath, -, -, hread, hkey, -, -, rfl⟩ := hsign
      obtain ⟨pem', key', mode', hread', hkey', -, -, rfl⟩ := hsign'.of_lookup hpath
      obtain rfl := Except.ok.inj (hread.symm.trans hread')
      obtain rfl := Except.ok.inj (hkey.symm.trans hkey')
      exact ⟨rfl, rfl⟩

/-- A tool that fails has written no signature. -/
theorem signPayload_error {options : List (String × String)} {streams : Streams} {e : String}
    (h : (signPayload host options streams).1 = .error e) :
    (signPayload host options streams).2.stdout = streams.stdout := by
  obtain ⟨e', stderr, hrun, -⟩ | ⟨s, bytes, out, stderr, -, -, -, hrun⟩ :=
    signPayload_run host options streams
  · rw [hrun]
  · rw [hrun] at h
    cases h

end tool

/-! ## One gate -/

/-- The three programs accept the same texts, the canonical ones, and obtain the same bytes from
them. -/
theorem one_encoding_gate (node : Node) (host : OtaSigning.Host) (s : String) :
    (∀ a b, Canonical s a → Canonical s b → a = b) ∧
    (∀ signature pem, verifyOtaReleaseSignature node s signature pem = true ↔
      ∃ bytes, Canonical s bytes ∧ SignatureOver node bytes signature pem) ∧
    (∀ product bytes manifest, Signer.parsePayload s product = .ok (bytes, manifest) ↔
      Canonical s bytes ∧ readManifest bytes product = .ok manifest) ∧
    (∀ product, (∃ e ∈ encodingErrors, Signer.parsePayload s product = .error e) ↔
      ¬∃ bytes, Canonical s bytes) ∧
    (∀ options streams text, options.lookup "--payload-base64url" = some s →
      ((((OtaSigning.signPayload host options streams).1 = .ok () ∧
          (OtaSigning.signPayload host options streams).2.stdout = streams.stdout ++ text) ↔
        ∃ bytes, Canonical s bytes ∧ SignsWith host options bytes text) ∧
      ((OtaSigning.signPayload host options streams).1 ≠ .ok () →
        (OtaSigning.signPayload host options streams).2.stdout = streams.stdout))) := by
  refine ⟨fun a b => Canonical.unique, fun signature pem => verifyOtaReleaseSignature_iff node, ?_,
    ?_, ?_⟩
  · exact fun product bytes manifest => parsePayload_eq_ok_iff
  · intro product
    constructor
    · rintro ⟨e, he, h⟩ ⟨bytes, hs⟩
      rw [parsePayload_of_canonical hs] at h
      cases hm : readManifest bytes product with
      | error e' =>
        rw [hm] at h
        obtain rfl := Except.error.inj h
        exact readManifest_error hm he
      | ok m =>
        rw [hm] at h
        cases h
    · exact parsePayload_of_not_canonical product
  · intro options streams text hs
    refine ⟨signPayload_iff host hs streams, fun h => ?_⟩
    cases hrun : (OtaSigning.signPayload host options streams).1 with
    | error e => exact signPayload_error host hrun
    | ok u => exact absurd hrun h

end Reeva
