import Reeva.Release.ManagedSigner
import Reeva.Release.PayloadEncoding
import Reeva.Signer.Service

/-!
# The identity of signing requests

Reeva and the signer name a signing request by the hash of the same bytes: a tag, the product, the
key and the payload's bytes, with a zero byte after each text. A product and a key that the signer
accepts have no zero byte, so these bytes determine the request (`request_identity`).
-/

namespace Reeva

/-- The bytes whose hash names a request. -/
def requestBytes (product keyId : String) (bytes : List UInt8) : List UInt8 :=
  Js.utf8 "reeva-signer-v1" ++ 0 :: (Js.utf8 product ++ 0 :: (Js.utf8 keyId ++ 0 :: bytes))

/-! ## Texts without zero bytes -/

/-- Texts are determined by their bytes. -/
theorem utf8_injective {s t : String} (h : Js.utf8 s = Js.utf8 t) : s = t := by
  have hs := Js.fromUtf8_utf8 s
  rw [h, Js.fromUtf8_utf8] at hs
  exact (Option.some.inj hs).symm

/-- ASCII characters other than NUL have no zero byte. -/
theorem zero_notMem_utf8 {s : String} (h : ∀ c ∈ s.toList, 0 < c.toNat ∧ c.toNat < 128) :
    (0 : UInt8) ∉ Js.utf8 s := by
  intro hmem
  obtain ⟨c, hc, hzero⟩ := List.mem_flatMap.mp hmem
  obtain ⟨hpos, hlt⟩ := h c hc
  have hsize : c.utf8Size = 1 := Char.utf8Size_eq_one_iff.mpr
    (UInt32.le_iff_toNat_le.mpr (Nat.le_of_lt_succ hlt))
  rw [String.utf8EncodeChar_eq_singleton hsize, List.mem_singleton] at hzero
  have hval := congrArg UInt8.toNat hzero
  have hmod : c.val.toUInt8.toNat = c.toNat % 256 := UInt32.toNat_toUInt8 c.val
  rw [hmod, Nat.mod_eq_of_lt (by omega)] at hval
  exact absurd hval (Nat.ne_of_lt hpos)

/-- A product that the signer accepts has no zero byte. -/
theorem zero_notMem_slug {s : String} (h : Signer.validSlug s = true) :
    (0 : UInt8) ∉ Js.utf8 s := by
  refine zero_notMem_utf8 fun c hc => ?_
  have hall : (s.toList.all fun c => c.isLower || c.isDigit || c = '-') = true := by
    simp only [Signer.validSlug, Bool.and_eq_true] at h
    exact h.2
  exact Signer.slugChar_ascii (List.all_eq_true.mp hall c hc)

/-- A key that the signer accepts has no zero byte. -/
theorem zero_notMem_hex {s : String} (h : Signer.validHex s = true) :
    (0 : UInt8) ∉ Js.utf8 s := by
  refine zero_notMem_utf8 fun c hc => ?_
  have hall : (s.toList.all fun c => c.isDigit || ('a' ≤ c && c ≤ 'f')) = true := by
    simp only [Signer.validHex, Bool.and_eq_true] at h
    exact h.2
  exact Signer.hexChar_ascii (List.all_eq_true.mp hall c hc)

/-- The bytes of a request determine its product, key and payload. -/
theorem requestBytes_injective {p p' k k' : String} {b b' : List UInt8}
    (hp : Signer.validSlug p = true) (hk : Signer.validHex k = true)
    (hp' : Signer.validSlug p' = true) (hk' : Signer.validHex k' = true)
    (h : requestBytes p k b = requestBytes p' k' b') : p = p' ∧ k = k' ∧ b = b' := by
  -- The first zero byte after the tag ends the product, the second one the key.
  have hrest := (List.cons.inj (List.append_cancel_left h)).2
  obtain ⟨hproduct, hrest⟩ := Js.before_separator (zero_notMem_slug hp) (zero_notMem_slug hp') hrest
  obtain ⟨hkey, hbytes⟩ := Js.before_separator (zero_notMem_hex hk) (zero_notMem_hex hk') hrest
  exact ⟨utf8_injective hproduct, utf8_injective hkey, hbytes⟩

/-! ## Requests -/

/-- The signer accepts a submission, and decodes its payload: the checks of `create_request` before
it asks the key store. -/
def Accepts (input : Signer.CreateRequest) (bytes : List UInt8) : Prop :=
  Signer.validHex input.keyId = true ∧
    ∃ manifest, Signer.parsePayload input.payload input.product = .ok (bytes, manifest)

/-- The product of an accepted submission is a slug. -/
theorem Accepts.validSlug {input : Signer.CreateRequest} {bytes : List UInt8}
    (h : Accepts input bytes) : Signer.validSlug input.product = true := by
  obtain ⟨-, m, hm⟩ := h
  have hsupported := supported_of_readManifest (parsePayload_eq_ok_iff.mp hm).2
  simp only [Signer.Manifest.supported, Bool.and_eq_true] at hsupported
  simp only [hsupported]

/-- The payload of an accepted submission is the encoding of its bytes. -/
theorem Accepts.canonical {input : Signer.CreateRequest} {bytes : List UInt8}
    (h : Accepts input bytes) : Canonical input.payload bytes := by
  obtain ⟨-, m, hm⟩ := h
  exact (parsePayload_eq_ok_iff.mp hm).1

/-- A text is determined by the bytes of which it is the canonical encoding. -/
theorem Canonical.text_unique {s t : String} {b : List UInt8} (hs : Canonical s b)
    (ht : Canonical t b) : s = t :=
  String.toList_injective (hs.2.1.trans ht.2.1.symm)

/-- Reeva and the signer hash the same bytes to name a request, and these bytes determine the
product, the key and the payload of a submission that the signer accepts. With a hash that keeps
bytes apart, different submissions have different names, whichever side computes them. -/
theorem request_identity (node : Node) (crates : Signer.Crates) :
    (∀ p k payload b, Canonical payload b →
      ManagedSignerService.managedRequestId node p k payload =
          node.digest "sha256" (requestBytes p k b) ∧
        Signer.requestId crates p k b = Signer.hexEncode (crates.sha256 (requestBytes p k b))) ∧
    (∀ p p' k k' b b', Signer.validSlug p = true → Signer.validHex k = true →
      Signer.validSlug p' = true → Signer.validHex k' = true →
      requestBytes p k b = requestBytes p' k' b' → p = p' ∧ k = k' ∧ b = b') ∧
    (∀ i i' b b', Accepts i b → Accepts i' b' →
      ((∀ x y, crates.sha256 x = crates.sha256 y → x = y) →
        Signer.requestId crates i.product i.keyId b =
          Signer.requestId crates i'.product i'.keyId b' →
        i.product = i'.product ∧ i.keyId = i'.keyId ∧ i.payload = i'.payload) ∧
      ((∀ x y, node.digest "sha256" x = node.digest "sha256" y → x = y) →
        ManagedSignerService.managedRequestId node i.product i.keyId i.payload =
          ManagedSignerService.managedRequestId node i'.product i'.keyId i'.payload →
        i.product = i'.product ∧ i.keyId = i'.keyId ∧ i.payload = i'.payload)) := by
  have hnode : ∀ p k payload b, Canonical payload b →
      ManagedSignerService.managedRequestId node p k payload =
        node.digest "sha256" (requestBytes p k b) := by
    intro p k payload b h
    rw [ManagedSignerService.managedRequestId, h.decodeLenient, requestBytes]
  refine ⟨fun p k payload b h => ⟨hnode p k payload b h, rfl⟩,
    fun p p' k k' b b' hp hk hp' hk' => requestBytes_injective hp hk hp' hk', ?_⟩
  intro i i' b b' hi hi'
  have same : requestBytes i.product i.keyId b = requestBytes i'.product i'.keyId b' →
      i.product = i'.product ∧ i.keyId = i'.keyId ∧ i.payload = i'.payload := by
    intro h
    obtain ⟨hproduct, hkey, hbytes⟩ :=
      requestBytes_injective hi.validSlug hi.1 hi'.validSlug hi'.1 h
    have hpayload := hi'.canonical
    rw [← hbytes] at hpayload
    exact ⟨hproduct, hkey, hi.canonical.text_unique hpayload⟩
  constructor
  · intro hsha h
    exact same (hsha _ _ (Signer.hexEncode_injective h))
  · intro hdigest h
    rw [hnode _ _ _ _ hi.canonical, hnode _ _ _ _ hi'.canonical] at h
    exact same (hdigest _ _ h)

end Reeva
