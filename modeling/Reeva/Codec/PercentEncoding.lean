import Mathlib.Data.Nat.Notation
import Reeva.Codec.Text

/-!
# Percent-encoding

A percent-encoding keeps the characters of a set and writes the UTF-8 bytes of the others as escapes
of a `%` and two hexadecimal digits. Whatever the set is, as long as it has characters of ASCII
other than `%` only, the escapes and the kept characters give back the bytes of the text.
-/

namespace PercentEncoding

/-- A digit of an escape. -/
def upperDigit (n : ℕ) : Char := (Nat.digitChar n).toUpper

/-- The escape of a byte. -/
def escape (b : UInt8) : List Char := ['%', upperDigit (b.toNat / 16), upperDigit (b.toNat % 16)]

/-- The encoding of a character, where the characters that satisfy `keep` stay. -/
def encodeChar (keep : Char → Bool) (c : Char) : List Char :=
  if keep c then [c] else (String.utf8EncodeChar c).flatMap escape

/-- The value of a hexadecimal digit. -/
def hexValue (c : Char) : Option ℕ :=
  if '0' ≤ c ∧ c ≤ '9' then some (c.toNat - 48)
  else if 'A' ≤ c ∧ c ≤ 'F' then some (c.toNat - 55)
  else if 'a' ≤ c ∧ c ≤ 'f' then some (c.toNat - 87)
  else none

/-- The bytes of an encoded text; there are none when an escape is broken, or when a character is
not of ASCII. -/
def decode : List Char → Option (List UInt8)
  | [] => some []
  | '%' :: x :: y :: rest => do
    let high ← hexValue x
    let low ← hexValue y
    return UInt8.ofNat (16 * high + low) :: (← decode rest)
  | c :: rest =>
    if c = '%' ∨ 128 ≤ c.toNat then none
    else do return UInt8.ofNat c.toNat :: (← decode rest)

/-- The texts of escapes and of characters that satisfy `plain`. -/
inductive Escaped (plain : Char → Bool) : List Char → Prop
  | nil : Escaped plain []
  | char {c : Char} {rest : List Char} : plain c = true → Escaped plain rest →
      Escaped plain (c :: rest)
  | escape {x y : Char} {rest : List Char} : (hexValue x).isSome → (hexValue y).isSome →
      Escaped plain rest → Escaped plain ('%' :: x :: y :: rest)

/-! ## One escape -/

/-- A digit has its value. -/
theorem hexValue_upperDigit {n : ℕ} (h : n < 16) : hexValue (upperDigit n) = some n := by
  have key : ∀ n < 16, hexValue (upperDigit n) = some n := by decide
  exact key n h

/-- The halves of a byte. -/
theorem halves_lt (b : UInt8) : b.toNat / 16 < 16 ∧ b.toNat % 16 < 16 := by
  have hb : b.toNat < 256 := b.toNat_lt
  omega

/-- An escape is read as its byte. -/
theorem decode_escape (b : UInt8) (rest : List Char) :
    decode (escape b ++ rest) = (decode rest).map (b :: ·) := by
  obtain ⟨hhigh, hlow⟩ := halves_lt b
  have hbyte : UInt8.ofNat (16 * (b.toNat / 16) + b.toNat % 16) = b := by
    rw [Nat.div_add_mod]
    exact UInt8.ofNat_toNat
  simp only [escape, List.cons_append, List.nil_append, decode, hexValue_upperDigit hhigh,
    hexValue_upperDigit hlow, Option.bind_eq_bind, Option.bind_some, hbyte, Option.pure_def]
  cases decode rest <;> rfl

/-- Escapes are read as their bytes. -/
theorem decode_escapes (bs : List UInt8) (rest : List Char) :
    decode (bs.flatMap escape ++ rest) = (decode rest).map (bs ++ ·) := by
  induction bs with
  | nil =>
    rw [List.flatMap_nil, List.nil_append]
    cases decode rest <;> rfl
  | cons b bs ih =>
    rw [List.flatMap_cons, List.append_assoc, decode_escape, ih, Option.map_map]
    rfl

/-- A character of ASCII other than `%` is read as itself. -/
theorem decode_char {c : Char} (h : c ≠ '%' ∧ c.toNat < 128) (rest : List Char) :
    decode (c :: rest) = (decode rest).map (String.utf8EncodeChar c ++ ·) := by
  have hsize : c.utf8Size = 1 := Char.utf8Size_eq_one_iff.mpr
    (UInt32.le_iff_toNat_le.mpr (Nat.le_of_lt_succ h.2))
  have hbyte : String.utf8EncodeChar c = [UInt8.ofNat c.toNat] :=
    String.utf8EncodeChar_eq_singleton hsize
  rw [hbyte, decode]
  · rw [if_neg (not_or.mpr ⟨h.1, Nat.not_le.mpr h.2⟩)]
    cases decode rest <;> rfl
  · intro x y rest' hc
    exact absurd hc h.1

/-! ## Whole texts -/

section encoding

variable {keep : Char → Bool}

/-- What the encoding of a character is read as. -/
theorem decode_encodeChar (hkeep : ∀ c, keep c = true → c ≠ '%' ∧ c.toNat < 128) (c : Char)
    (rest : List Char) :
    decode (encodeChar keep c ++ rest) = (decode rest).map (String.utf8EncodeChar c ++ ·) := by
  unfold encodeChar
  split
  · rename_i hc
    exact decode_char (hkeep c hc) rest
  · exact decode_escapes _ rest

/-- An encoded text is read as its bytes. -/
theorem decode_encode (hkeep : ∀ c, keep c = true → c ≠ '%' ∧ c.toNat < 128) (cs : List Char) :
    decode (cs.flatMap (encodeChar keep)) = some (cs.flatMap String.utf8EncodeChar) := by
  induction cs with
  | nil => rfl
  | cons c cs ih =>
    rw [List.flatMap_cons, decode_encodeChar hkeep, ih, List.flatMap_cons]
    rfl

/-- Escapes before an escaped text leave it one. -/
theorem Escaped.escapes {plain : Char → Bool} (bs : List UInt8) {rest : List Char}
    (h : Escaped plain rest) : Escaped plain (bs.flatMap PercentEncoding.escape ++ rest) := by
  induction bs with
  | nil => exact h
  | cons b bs ih =>
    obtain ⟨hhigh, hlow⟩ := halves_lt b
    refine .escape ?_ ?_ ih
    · rw [hexValue_upperDigit hhigh]
      rfl
    · rw [hexValue_upperDigit hlow]
      rfl

/-- An encoded text has escapes and kept characters only. -/
theorem escaped_encode {plain : Char → Bool} (h : ∀ c, keep c = true → plain c = true)
    (cs : List Char) : Escaped plain (cs.flatMap (encodeChar keep)) := by
  induction cs with
  | nil => exact .nil
  | cons c cs ih =>
    rw [List.flatMap_cons, encodeChar]
    split
    · rename_i hc
      exact .char (h c hc) ih
    · exact ih.escapes _

/-- The escapes are of printable characters. -/
theorem Escaped.forall {plain : Char → Bool} {p : Char → Prop} {cs : List Char}
    (h : Escaped plain cs) (hplain : ∀ c, plain c = true → p c)
    (hhex : ∀ c, (hexValue c).isSome → p c) (hpercent : p '%') : ∀ c ∈ cs, p c := by
  induction h with
  | nil => exact fun c hc => absurd hc List.not_mem_nil
  | char hc _ ih => exact List.forall_mem_cons.mpr ⟨hplain _ hc, ih⟩
  | escape hx hy _ ih =>
    exact List.forall_mem_cons.mpr ⟨hpercent, List.forall_mem_cons.mpr ⟨hhex _ hx,
      List.forall_mem_cons.mpr ⟨hhex _ hy, ih⟩⟩⟩

end encoding

/-! ## A second pass -/

/-- Replaces the characters that satisfy `special` by their escapes. -/
def escapeMore (special : Char → Bool) (c : Char) : List Char :=
  if special c then (String.utf8EncodeChar c).flatMap escape else [c]

/-- A pass that spares the characters of escapes leaves them as they are. -/
theorem escapes_escapeMore {special : Char → Bool} (hpercent : special '%' = false)
    (hdigit : ∀ n < 16, special (upperDigit n) = false) (bs : List UInt8) :
    (bs.flatMap escape).flatMap (escapeMore special) = bs.flatMap escape := by
  induction bs with
  | nil => rfl
  | cons b bs ih =>
    obtain ⟨hhigh, hlow⟩ := halves_lt b
    have hescape : (escape b).flatMap (escapeMore special) = escape b := by
      simp only [escape, List.flatMap_cons, List.flatMap_nil, escapeMore, hpercent, hdigit _ hhigh,
        hdigit _ hlow, Bool.false_eq_true, if_false, List.append_nil, List.singleton_append]
    rw [List.flatMap_cons, List.flatMap_append, hescape, ih]

/-- So the two passes are one that keeps fewer characters. -/
theorem encode_escapeMore {keep special : Char → Bool} (hpercent : special '%' = false)
    (hdigit : ∀ n < 16, special (upperDigit n) = false) (cs : List Char) :
    (cs.flatMap (encodeChar keep)).flatMap (escapeMore special) =
      cs.flatMap (encodeChar fun c => keep c && !special c) := by
  rw [List.flatMap_assoc]
  congr 1
  funext c
  cases hkeep : keep c with
  | false =>
    simp only [encodeChar, hkeep, Bool.false_and, Bool.false_eq_true, if_false]
    exact escapes_escapeMore hpercent hdigit _
  | true =>
    cases hspecial : special c with
    | false => simp [encodeChar, hkeep, escapeMore, hspecial]
    | true => simp [encodeChar, hkeep, escapeMore, hspecial]

end PercentEncoding
