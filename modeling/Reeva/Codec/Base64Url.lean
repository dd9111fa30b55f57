import Mathlib.Data.Nat.Notation
import Mathlib.Data.List.Forall2

/-!
# Base64url without padding

The encoder of RFC 4648 §5, and two decoders of it: the lenient one of JavaScript's `Buffer`, which
reads both alphabets, stops at padding, skips what is in neither and drops bits that do not fill a
byte; and the strict one, which refuses all that. On an encoder's output they agree and give the
bytes back (`decodeLenient_encode`, `decodeStrict_encode`), and a strict decoder decodes nothing else
(`decodeStrict_eq_some_iff`). The standard alphabet with padding comes last.

The work is done on sextets, the numbers below 64 that the alphabet's characters stand for.
-/

namespace Base64Url

/-- The number that a character of the alphabet stands for. -/
def value (c : Char) : Option ℕ :=
  if 'A' ≤ c ∧ c ≤ 'Z' then some (c.toNat - 65)
  else if 'a' ≤ c ∧ c ≤ 'z' then some (c.toNat - 71)
  else if '0' ≤ c ∧ c ≤ '9' then some (c.toNat + 4)
  else if c = '-' then some 62
  else if c = '_' then some 63
  else none

/-- The character that stands for a sextet. -/
def char (n : ℕ) : Char :=
  if n < 26 then Char.ofNat (n + 65)
  else if n < 52 then Char.ofNat (n + 71)
  else if n < 62 then Char.ofNat (n - 4)
  else if n = 62 then '-'
  else '_'

/-- A character of the alphabet. -/
def isAlphabet (c : Char) : Bool := (value c).isSome

/-- The sextets of a byte string. The last ones are filled up with zero bits. -/
def sextets : List UInt8 → List ℕ
  | a :: b :: c :: rest =>
    a.toNat / 4 :: (a.toNat % 4 * 16 + b.toNat / 16) :: (b.toNat % 16 * 4 + c.toNat / 64) ::
      (c.toNat % 64) :: sextets rest
  | [a, b] => [a.toNat / 4, a.toNat % 4 * 16 + b.toNat / 16, b.toNat % 16 * 4]
  | [a] => [a.toNat / 4, a.toNat % 4 * 16]
  | [] => []

/-- The bytes that a list of sextets fills; the bits left over are dropped. -/
def bytes : List ℕ → List UInt8
  | w :: x :: y :: z :: rest =>
    UInt8.ofNat (w * 4 + x / 16) :: UInt8.ofNat (x % 16 * 16 + y / 4) ::
      UInt8.ofNat (y % 4 * 64 + z) :: bytes rest
  | [w, x, y] => [UInt8.ofNat (w * 4 + x / 16), UInt8.ofNat (x % 16 * 16 + y / 4)]
  | [w, x] => [UInt8.ofNat (w * 4 + x / 16)]
  | _ => []

/-- Whether the bits left over by `bytes` are absent or zero. -/
def closed : List ℕ → Bool
  | _ :: _ :: _ :: _ :: rest => closed rest
  | [_, _, y] => y % 4 == 0
  | [_, x] => x % 16 == 0
  | [_] => false
  | [] => true

/-- The encoder. -/
def encode (b : List UInt8) : List Char := (sextets b).map char

/-- The number that a character of either alphabet stands for. -/
def lenientValue (c : Char) : Option ℕ :=
  if c = '+' then some 62 else if c = '/' then some 63 else value c

/-- The decoder of `Buffer.from(s, 'base64url')`, which is that of `Buffer.from(s, 'base64')`. -/
def decodeLenient (cs : List Char) : List UInt8 :=
  bytes ((cs.takeWhile (· ≠ '=')).filterMap lenientValue)

/-- The decoder that accepts the encoder's outputs only. -/
def decodeStrict (cs : List Char) : Option (List UInt8) :=
  (cs.mapM value).bind fun vs => if closed vs then some (bytes vs) else none

/-- A sextet's character stands for it. -/
theorem value_char {n : ℕ} (h : n < 64) : value (char n) = some n := by
  have key : ∀ n < 64, value (char n) = some n := by decide
  exact key n h

/-- Every sextet of a byte string is below 64. -/
theorem sextets_lt (b : List UInt8) : ∀ n ∈ sextets b, n < 64 := by
  induction b using sextets.induct with
  | case1 a b c rest ih =>
    have ha := a.toNat_lt
    have hb := b.toNat_lt
    have hc := c.toNat_lt
    simp only [sextets, List.mem_cons]
    rintro n (rfl | rfl | rfl | rfl | hn)
    · omega
    · omega
    · omega
    · omega
    · exact ih n hn
  | case2 a b =>
    have ha := a.toNat_lt
    have hb := b.toNat_lt
    simp only [sextets, List.mem_cons, List.not_mem_nil, or_false]
    rintro n (rfl | rfl | rfl) <;> omega
  | case3 a =>
    have ha := a.toNat_lt
    simp only [sextets, List.mem_cons, List.not_mem_nil, or_false]
    rintro n (rfl | rfl) <;> omega
  | case4 => simp [sextets]

/-- A number computed from bytes that equals a byte is that byte. -/
theorem ofNat_eq {n : ℕ} {a : UInt8} (h : n = a.toNat) : UInt8.ofNat n = a := by
  rw [h, UInt8.ofNat_toNat]

/-- The sextets of a byte string give it back. -/
theorem bytes_sextets (b : List UInt8) : bytes (sextets b) = b := by
  induction b using sextets.induct with
  | case1 a b c rest ih =>
    have ha := a.toNat_lt
    have hb := b.toNat_lt
    have hc := c.toNat_lt
    simp only [sextets, bytes, ih]
    rw [ofNat_eq (a := a) (by omega), ofNat_eq (a := b) (by omega), ofNat_eq (a := c) (by omega)]
  | case2 a b =>
    have ha := a.toNat_lt
    have hb := b.toNat_lt
    simp only [sextets, bytes]
    rw [ofNat_eq (a := a) (by omega), ofNat_eq (a := b) (by omega)]
  | case3 a =>
    have ha := a.toNat_lt
    simp only [sextets, bytes]
    rw [ofNat_eq (a := a) (by omega)]
  | case4 => rfl

/-- The sextets of a byte string leave no bit over. -/
theorem closed_sextets (b : List UInt8) : closed (sextets b) = true := by
  induction b using sextets.induct with
  | case1 a b c rest ih => simpa [sextets, closed] using ih
  | case2 a b =>
    simp only [sextets, closed, beq_iff_eq]
    omega
  | case3 a =>
    simp only [sextets, closed, beq_iff_eq]
    omega
  | case4 => rfl

/-- A sextet's character stands for it in the lenient reading, too. -/
theorem lenientValue_char {n : ℕ} (h : n < 64) : lenientValue (char n) = some n := by
  have key : ∀ n < 64, lenientValue (char n) = some n := by decide
  exact key n h

/-- A sextet's character is no padding. -/
theorem char_ne_padding {n : ℕ} (h : n < 64) : char n ≠ '=' := by
  have key : ∀ n < 64, char n ≠ '=' := by decide
  exact key n h

/-- Sextets survive their characters, skipping none. -/
theorem filterMap_lenientValue_char {ns : List ℕ} (h : ∀ n ∈ ns, n < 64) :
    (ns.map char).filterMap lenientValue = ns := by
  induction ns with
  | nil => rfl
  | cons n ns ih =>
    rw [List.map_cons, List.filterMap_cons, lenientValue_char (h n (by simp))]
    simp only [ih fun m hm => h m (by simp [hm])]

/-- The lenient decoder reads the characters of sextets to their end. -/
theorem takeWhile_char {ns : List ℕ} (h : ∀ n ∈ ns, n < 64) (rest : List Char) :
    (ns.map char ++ rest).takeWhile (· ≠ '=') = ns.map char ++ rest.takeWhile (· ≠ '=') := by
  refine List.takeWhile_append_of_pos fun c hc => ?_
  obtain ⟨n, hn, rfl⟩ := List.mem_map.mp hc
  simpa using char_ne_padding (h n hn)

/-- Sextets survive their characters, refusing none. -/
theorem mapM_value_char {ns : List ℕ} (h : ∀ n ∈ ns, n < 64) :
    (ns.map char).mapM value = some ns := by
  induction ns with
  | nil => rfl
  | cons n ns ih =>
    rw [List.map_cons, List.mapM_cons, value_char (h n (by simp)),
      ih fun m hm => h m (by simp [hm])]
    rfl

/-- The lenient decoder gives the encoded bytes back. -/
@[simp] theorem decodeLenient_encode (b : List UInt8) : decodeLenient (encode b) = b := by
  have hread := takeWhile_char (sextets_lt b) []
  rw [List.append_nil, List.takeWhile_nil, List.append_nil] at hread
  rw [decodeLenient, encode, hread, filterMap_lenientValue_char (sextets_lt b), bytes_sextets]

/-- The strict decoder gives the encoded bytes back. -/
@[simp] theorem decodeStrict_encode (b : List UInt8) : decodeStrict (encode b) = some b := by
  rw [decodeStrict, encode, mapM_value_char (sextets_lt b), Option.bind_some, closed_sextets,
    if_pos rfl, bytes_sextets]

/-- Only ASCII characters stand for a number. -/
theorem toNat_lt_of_value {c : Char} {n : ℕ} (h : value c = some n) : c.toNat < 128 := by
  have hle : ∀ d : Char, c ≤ d → c.toNat ≤ d.toNat := fun d hd => UInt32.le_iff_toNat_le.mp hd
  unfold value at h
  split_ifs at h with hu hl hd hm hs
  · exact Nat.lt_of_le_of_lt (hle 'Z' hu.2) (by decide)
  · exact Nat.lt_of_le_of_lt (hle 'z' hl.2) (by decide)
  · exact Nat.lt_of_le_of_lt (hle '9' hd.2) (by decide)
  · rw [hm]
    decide
  · rw [hs]
    decide

/-- A character that stands for a number is that number's. -/
theorem char_of_value {c : Char} {n : ℕ} (h : value c = some n) : char n = c ∧ n < 64 := by
  have key : ∀ m < 128, ∀ n ∈ value (Char.ofNat m), char n = Char.ofNat m ∧ n < 64 := by decide
  have hc := key c.toNat (toNat_lt_of_value h) n
  rw [Char.ofNat_toNat] at hc
  exact hc h

/-- Sextets that leave no bit over are those of their bytes. -/
theorem sextets_bytes {ns : List ℕ} (h : ∀ n ∈ ns, n < 64) (hc : closed ns = true) :
    sextets (bytes ns) = ns := by
  have byte : ∀ {n : ℕ}, n < 256 → (UInt8.ofNat n).toNat = n := fun hn =>
    UInt8.toNat_ofNat_of_lt' hn
  induction ns using bytes.induct with
  | case1 w x y z rest ih =>
    simp only [List.mem_cons, forall_eq_or_imp] at h
    obtain ⟨hw, hx, hy, hz, hrest⟩ := h
    simp only [bytes, sextets, ih hrest hc]
    rw [byte (by omega), byte (by omega), byte (by omega)]
    congr 1
    · omega
    congr 1
    · omega
    congr 1
    · omega
    congr 1
    omega
  | case2 w x y =>
    simp only [List.mem_cons, forall_eq_or_imp, List.not_mem_nil, false_imp_iff,
      implies_true, and_true] at h
    obtain ⟨hw, hx, hy⟩ := h
    simp only [closed, beq_iff_eq] at hc
    simp only [bytes, sextets]
    rw [byte (by omega), byte (by omega)]
    simp only [List.cons.injEq, and_true]
    omega
  | case3 w x =>
    simp only [List.mem_cons, forall_eq_or_imp, List.not_mem_nil, false_imp_iff,
      implies_true, and_true] at h
    obtain ⟨hw, hx⟩ := h
    simp only [closed, beq_iff_eq] at hc
    simp only [bytes, sextets]
    rw [byte (by omega)]
    simp only [List.cons.injEq, and_true]
    omega
  | case4 ns hfour hthree htwo =>
    match ns with
    | [] => rfl
    | [_] => simp [closed] at hc
    | [w, x] => exact absurd rfl (htwo w x)
    | [w, x, y] => exact absurd rfl (hthree w x y)
    | w :: x :: y :: z :: rest => exact absurd rfl (hfour w x y z rest)

/-- Characters that all stand for a number are those of the numbers. -/
theorem map_char_of_mapM {cs : List Char} {ns : List ℕ} (h : cs.mapM value = some ns) :
    ns.map char = cs ∧ ∀ n ∈ ns, n < 64 := by
  induction cs generalizing ns with
  | nil =>
    obtain rfl := Option.some.inj h
    simp
  | cons c cs ih =>
    rw [List.mapM_cons] at h
    obtain ⟨n, hn, h⟩ := Option.bind_eq_some_iff.mp h
    obtain ⟨ns', hns, h⟩ := Option.bind_eq_some_iff.mp h
    obtain rfl := Option.some.inj h
    obtain ⟨hc, hlt⟩ := char_of_value hn
    obtain ⟨hcs, hall⟩ := ih hns
    refine ⟨by rw [List.map_cons, hc, hcs], ?_⟩
    simpa using ⟨hlt, hall⟩

/-- A strict decoder decodes an encoding, and nothing else. -/
theorem decodeStrict_eq_some_iff {cs : List Char} {b : List UInt8} :
    decodeStrict cs = some b ↔ encode b = cs := by
  constructor
  · intro h
    obtain ⟨ns, hns, h⟩ := Option.bind_eq_some_iff.mp h
    obtain ⟨hcs, hlt⟩ := map_char_of_mapM hns
    split_ifs at h with hclosed
    obtain rfl := Option.some.inj h
    rw [encode, sextets_bytes hlt hclosed, hcs]
  · rintro rfl
    exact decodeStrict_encode b

/-- An encoding consists of characters of the alphabet. -/
theorem encode_alphabet (b : List UInt8) : ∀ c ∈ encode b, isAlphabet c = true := by
  intro c hc
  obtain ⟨n, hn, rfl⟩ := List.mem_map.mp hc
  rw [isAlphabet, value_char (sextets_lt b n hn)]
  rfl

/-- The encoder writes four characters for every three bytes, and what is left over in one more than
it has bytes. -/
theorem length_encode (b : List UInt8) : (encode b).length = (b.length * 4 + 2) / 3 := by
  rw [encode, List.length_map]
  induction b using sextets.induct with
  | case1 a b c rest ih =>
    simp only [sextets, List.length_cons, ih]
    omega
  | case2 a b => simp [sextets]
  | case3 a => simp [sextets]
  | case4 => rfl

/-- Different byte strings have different encodings. -/
theorem encode_injective {a b : List UInt8} (h : encode a = encode b) : a = b := by
  rw [← decodeLenient_encode a, h, decodeLenient_encode]

/-- Only the empty byte string has an empty encoding. -/
theorem encode_ne_nil {b : List UInt8} (h : b ≠ []) : encode b ≠ [] := fun hb =>
  h (encode_injective (b := []) hb)

/-! ## The standard alphabet -/

/-- A character of the standard alphabet. -/
def toStandard (c : Char) : Char := if c = '-' then '+' else if c = '_' then '/' else c

/-- The encoder of RFC 4648 §4, with padding. -/
def encodeStandard (b : List UInt8) : List Char :=
  (encode b).map toStandard ++ List.replicate ((3 - b.length % 3) % 3) '='

/-- The decoder of `Buffer.from(s, 'base64')`. -/
def decodeStandard (cs : List Char) : List UInt8 := decodeLenient cs

/-- The decoder gives the encoded bytes back. -/
@[simp] theorem decodeStandard_encodeStandard (b : List UInt8) :
    decodeStandard (encodeStandard b) = b := by
  have back : ∀ n < 64, lenientValue (toStandard (char n)) = some n := by decide
  have apart : ∀ n < 64, toStandard (char n) ≠ '=' := by decide
  have hread : ((encode b).map toStandard).filterMap lenientValue = sextets b := by
    rw [encode, List.map_map, List.filterMap_map]
    calc (sextets b).filterMap (lenientValue ∘ (toStandard ∘ char))
        = (sextets b).filterMap some :=
          List.filterMap_congr fun n hn => back n (sextets_lt b n hn)
      _ = sextets b := List.filterMap_some
  have hend : ∀ k, (List.replicate k '=').takeWhile (· ≠ '=') = [] := fun k => by
    cases k <;> rfl
  rw [decodeStandard, decodeLenient, encodeStandard, List.takeWhile_append_of_pos, hend,
    List.append_nil, hread, bytes_sextets]
  intro c hc
  rw [encode, List.map_map] at hc
  obtain ⟨n, hn, rfl⟩ := List.mem_map.mp hc
  simpa using apart n (sextets_lt b n hn)

end Base64Url
