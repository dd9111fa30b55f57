import Reeva.Codec.PercentEncoding
import Reeva.Release.ManagedSigner

/-!
# The header of a download

`attachmentDisposition` writes the name of a file into a header twice: between quotes, for old
clients, and percent-encoded as RFC 5987 has it. Three rewrites with different classes of characters
follow each other: control characters by code points, the quoted form by UTF-16 code units, and
`encodeURIComponent` with a pass of its own over the characters that RFC 5987 does not allow. The
two passes are one percent-encoding that keeps the characters of both, which carries the recovery of
the name; the quoted form is printable unit by unit.
-/

namespace Reeva.DownloadHeaders

open PercentEncoding (encodeChar escapeMore upperDigit Escaped)

/-! ## The source -/

/-- The character that stands for a character of the name. -/
def safeCharacter (character : Char) : Char :=
  if character.toNat ≤ 0x1f ∨ character.toNat = 0x7f then '_' else character

/-- `safeFileName` -/
def safeFileName (fileName : String) : String := String.ofList (fileName.toList.map safeCharacter)

/-- The UTF-16 code units of a character. -/
def codeUnits (c : Char) : List ℕ :=
  if c.toNat < 0x10000 then [c.toNat]
  else [0xd800 + (c.toNat - 0x10000) / 0x400, 0xdc00 + (c.toNat - 0x10000) % 0x400]

/-- What stands for a code unit after `.replace(/[^\x20-\x7e]|["\\;]/g, '_')`. -/
def fallbackUnit (unit : ℕ) : Char :=
  if unit < 0x20 ∨ 0x7e < unit ∨ unit = 0x22 ∨ unit = 0x5c ∨ unit = 0x3b then '_'
  else Char.ofNat unit

/-- `fallback` -/
def fallback (safeFileName : String) : String :=
  String.ofList ((safeFileName.toList.flatMap codeUnits).map fallbackUnit)

/-- The characters of `/[!'()*]/`. -/
def isExtra (c : Char) : Bool := ['!', '\'', '(', ')', '*'].contains c

/-- What stands for a character after the second pass: `` `%${…toString(16).toUpperCase()}` ``. -/
def extraEscape (character : Char) : List Char :=
  if isExtra character then '%' :: (Nat.toDigits 16 character.toNat).map Char.toUpper
  else [character]

/-- `encoded` -/
def encoded (safeFileName : String) : String :=
  String.ofList ((encodeUriComponent safeFileName).toList.flatMap extraEscape)

/-- `attachmentDisposition` -/
def attachmentDisposition (fileName : String) : String :=
  let safeFileName := safeFileName fileName
  "attachment; filename=\"" ++ fallback safeFileName ++ "\"; filename*=UTF-8''" ++
    encoded safeFileName

/-! ## Classes of characters -/

/-- A property of all characters of ASCII is a property of the numbers below 128. -/
theorem forall_ascii {p : Char → Prop} (h : ∀ n < 128, p (Char.ofNat n)) {c : Char}
    (hc : c.toNat < 128) : p c := by
  have hp := h c.toNat hc
  rwa [Char.ofNat_toNat] at hp

/-- `attr-char` of RFC 5987. -/
def isAttrChar (c : Char) : Bool := c.isAlphanum || "!#$&+-.^_`|~".toList.contains c

/-- The characters that both passes keep. -/
def isKept (c : Char) : Bool := isUriChar c && !isExtra c

/-- A character of the header. -/
def Printable (c : Char) : Prop := 0x20 ≤ c.toNat ∧ c.toNat ≤ 0x7e

/-- Printable characters are decidable. -/
instance (c : Char) : Decidable (Printable c) := inferInstanceAs (Decidable (_ ∧ _))

/-- Letters and digits are of ASCII. -/
theorem alphanum_ascii {c : Char} (h : c.isAlphanum = true) : c.toNat < 128 := by
  have hletters : c.isAlphanum = ((decide (c.val ≥ 65 ∧ c.val ≤ 90) ||
      decide (c.val ≥ 97) && decide (c.val ≤ 122)) ||
      decide (c.val ≥ 48) && decide (c.val ≤ 57)) := rfl
  simp only [hletters, Bool.or_eq_true, Bool.and_eq_true, decide_eq_true_eq, ge_iff_le,
    UInt32.le_iff_toNat_le] at h
  change ((65 ≤ c.toNat ∧ c.toNat ≤ 90) ∨ 97 ≤ c.toNat ∧ c.toNat ≤ 122) ∨
    48 ≤ c.toNat ∧ c.toNat ≤ 57 at h
  omega

/-- `encodeURIComponent` keeps characters of ASCII only. -/
theorem uriChar_ascii {c : Char} (h : isUriChar c = true) : c.toNat < 128 := by
  rw [isUriChar, Bool.or_eq_true] at h
  rcases h with h | h
  · exact alphanum_ascii h
  · have hlist : ∀ c ∈ ['-', '_', '.', '!', '~', '*', '\'', '(', ')'], c.toNat < 128 :=
      Js.forall_of_all (by decide)
    exact hlist c (List.contains_iff_mem.mp h)

/-- What both passes keep is allowed by RFC 5987. -/
theorem kept_attrChar {c : Char} (h : isKept c = true) : isAttrChar c = true := by
  have hascii := uriChar_ascii (Bool.and_eq_true_iff.mp h).1
  exact forall_ascii (p := fun c => isKept c = true → isAttrChar c = true) (by decide +kernel)
    hascii h

/-- What both passes keep stands for its own byte. -/
theorem kept_plain {c : Char} (h : isKept c = true) : c ≠ '%' ∧ c.toNat < 128 := by
  have hascii := uriChar_ascii (Bool.and_eq_true_iff.mp h).1
  refine ⟨?_, hascii⟩
  rintro rfl
  exact absurd h (by decide +kernel)

/-- What RFC 5987 allows is printable. -/
theorem attrChar_printable {c : Char} (h : isAttrChar c = true) : Printable c := by
  have hascii : c.toNat < 128 := by
    rw [isAttrChar, Bool.or_eq_true] at h
    rcases h with h | h
    · exact alphanum_ascii h
    · have hlist : ∀ c ∈ "!#$&+-.^_`|~".toList, c.toNat < 128 := Js.forall_of_all (by decide +kernel)
      exact hlist c (List.contains_iff_mem.mp h)
  exact forall_ascii (p := fun c => isAttrChar c = true → Printable c) (by decide +kernel)
    hascii h

/-- Hexadecimal digits are printable. -/
theorem hexDigit_printable {c : Char} (h : (PercentEncoding.hexValue c).isSome = true) :
    Printable c := by
  unfold PercentEncoding.hexValue at h
  split at h
  · rename_i hc
    have hlow : 48 ≤ c.toNat := UInt32.le_iff_toNat_le.mp hc.1
    have hhigh : c.toNat ≤ 57 := UInt32.le_iff_toNat_le.mp hc.2
    exact ⟨by omega, by omega⟩
  · split at h
    · rename_i hc
      have hlow : 65 ≤ c.toNat := UInt32.le_iff_toNat_le.mp hc.1
      have hhigh : c.toNat ≤ 70 := UInt32.le_iff_toNat_le.mp hc.2
      exact ⟨by omega, by omega⟩
    · split at h
      · rename_i hc
        have hlow : 97 ≤ c.toNat := UInt32.le_iff_toNat_le.mp hc.1
        have hhigh : c.toNat ≤ 102 := UInt32.le_iff_toNat_le.mp hc.2
        exact ⟨by omega, by omega⟩
      · exact absurd h Bool.false_ne_true

/-! ## The two forms of the name -/

/-- What stands for a code unit is printable and does not end the quoted form. -/
theorem fallbackUnit_safe (unit : ℕ) :
    Printable (fallbackUnit unit) ∧ fallbackUnit unit ≠ '"' ∧ fallbackUnit unit ≠ '\\' ∧
      fallbackUnit unit ≠ ';' := by
  by_cases hunit : unit < 127
  · have key : ∀ unit < 127, Printable (fallbackUnit unit) ∧ fallbackUnit unit ≠ '"' ∧
        fallbackUnit unit ≠ '\\' ∧ fallbackUnit unit ≠ ';' := by
      decide +kernel
    exact key unit hunit
  · rw [fallbackUnit, if_pos (by omega)]
    decide

/-- So is the whole quoted form. -/
theorem fallback_safe {s : String} {c : Char} (hc : c ∈ (fallback s).toList) :
    Printable c ∧ c ≠ '"' ∧ c ≠ '\\' ∧ c ≠ ';' := by
  rw [fallback, String.toList_ofList] at hc
  obtain ⟨unit, -, rfl⟩ := List.mem_map.mp hc
  exact fallbackUnit_safe unit

/-- The second pass writes escapes. -/
theorem extraEscape_eq : extraEscape = escapeMore isExtra := by
  funext c
  unfold extraEscape escapeMore
  split
  · rename_i hc
    have hlist : ∀ c ∈ ['!', '\'', '(', ')', '*'],
        '%' :: (Nat.toDigits 16 c.toNat).map Char.toUpper =
          (String.utf8EncodeChar c).flatMap PercentEncoding.escape :=
      Js.forall_of_all (by decide +kernel)
    exact hlist c (List.contains_iff_mem.mp hc)
  · rfl

/-- The encoded form is a percent-encoding. -/
theorem encoded_eq (s : String) :
    encoded s = String.ofList (s.toList.flatMap (encodeChar isKept)) := by
  have hfirst : (encodeUriComponent s).toList = s.toList.flatMap (encodeChar isUriChar) := by
    rw [encodeUriComponent, String.toList_ofList]
    rfl
  have hpercent : isExtra '%' = false := by decide
  have hdigit : ∀ n < 16, isExtra (upperDigit n) = false := by decide +kernel
  rw [encoded, hfirst, extraEscape_eq, PercentEncoding.encode_escapeMore hpercent hdigit]
  rfl

/-- It has escapes and characters of RFC 5987 only. -/
theorem escaped_encoded (s : String) : Escaped isAttrChar (encoded s).toList := by
  rw [encoded_eq, String.toList_ofList]
  exact PercentEncoding.escaped_encode (fun c => kept_attrChar) _

/-- It gives back the name. -/
theorem decode_encoded (s : String) :
    (PercentEncoding.decode (encoded s).toList).bind Js.fromUtf8 = some s := by
  have hdecode : PercentEncoding.decode (s.toList.flatMap (encodeChar isKept)) =
      some (s.toList.flatMap String.utf8EncodeChar) :=
    PercentEncoding.decode_encode (fun c => kept_plain) s.toList
  rw [encoded_eq, String.toList_ofList, hdecode, Option.bind_some]
  exact Js.fromUtf8_utf8 s

/-! ## The header -/

/-- A header with the two forms of a name. -/
def disposition (fallback encoded : String) : String :=
  "attachment; filename=\"" ++ fallback ++ "\"; filename*=UTF-8''" ++ encoded

/-- What stands before and after a text that starts with a quote is determined, when nothing before
it has a quote. -/
theorem around_quote {start middle f f' e e' : String} {cs : List Char}
    (hmiddle : middle.toList = '"' :: cs) (hf : '"' ∉ f.toList) (hf' : '"' ∉ f'.toList)
    (h : start ++ f ++ middle ++ e = start ++ f' ++ middle ++ e') : f = f' ∧ e = e' := by
  have hlist := congrArg String.toList h
  simp only [String.toList_append, List.append_assoc, hmiddle, List.cons_append,
    List.append_cancel_left_eq] at hlist
  obtain ⟨hfallback, hrest⟩ := Js.before_separator hf hf' hlist
  exact ⟨String.toList_inj.mp hfallback, String.toList_inj.mp (List.append_cancel_left hrest)⟩

/-- The two forms can be read off a header: the quoted form ends at the first quote. -/
theorem disposition_inj {f f' e e' : String} (hf : '"' ∉ f.toList) (hf' : '"' ∉ f'.toList)
    (h : disposition f e = disposition f' e') : f = f' ∧ e = e' := by
  have hmiddle : "\"; filename*=UTF-8''".toList = '"' :: "; filename*=UTF-8''".toList := by
    decide +kernel
  exact around_quote hmiddle hf hf' h

/-- The characters of two strings one after the other. -/
theorem forall_append {p : Char → Prop} {s t : String} (hs : ∀ c ∈ s.toList, p c)
    (ht : ∀ c ∈ t.toList, p c) : ∀ c ∈ (s ++ t).toList, p c := by
  rw [String.toList_append]
  exact fun c hc => (List.mem_append.mp hc).elim (hs c) (ht c)

/-- A header is printable when its two forms are. -/
theorem disposition_printable {f e : String} (hf : ∀ c ∈ f.toList, Printable c)
    (he : ∀ c ∈ e.toList, Printable c) : ∀ c ∈ (disposition f e).toList, Printable c := by
  have hstart : ∀ c ∈ "attachment; filename=\"".toList, Printable c :=
    Js.forall_of_all (by decide +kernel)
  have hmiddle : ∀ c ∈ "\"; filename*=UTF-8''".toList, Printable c :=
    Js.forall_of_all (by decide +kernel)
  exact forall_append (forall_append (forall_append hstart hf) hmiddle) he

/-- For every file name the header is printable; its quoted form has no double quote, backslash or
semicolon, its other form only escapes and characters of RFC 5987; and the latter gives back the
name with the control characters replaced. The forms are those that a reader of the header finds. -/
theorem attachment_header (fileName : String) :
    (∀ c ∈ (attachmentDisposition fileName).toList, 0x20 ≤ c.toNat ∧ c.toNat ≤ 0x7e) ∧
    ∃ quoted extended,
      attachmentDisposition fileName = disposition quoted extended ∧
      (∀ q e, '"' ∉ q.toList → attachmentDisposition fileName = disposition q e →
        q = quoted ∧ e = extended) ∧
      (∀ c ∈ quoted.toList, c ≠ '"' ∧ c ≠ '\\' ∧ c ≠ ';') ∧
      Escaped isAttrChar extended.toList ∧
      (PercentEncoding.decode extended.toList).bind Js.fromUtf8 =
        some (String.ofList (fileName.toList.map fun c =>
          if c.toNat ≤ 0x1f ∨ c.toNat = 0x7f then '_' else c)) := by
  have heq : attachmentDisposition fileName =
      disposition (fallback (safeFileName fileName)) (encoded (safeFileName fileName)) := rfl
  have hquote : '"' ∉ (fallback (safeFileName fileName)).toList := fun h =>
    (fallback_safe h).2.1 rfl
  constructor
  · refine disposition_printable (fun c hc => (fallback_safe hc).1) fun c hc => ?_
    exact (escaped_encoded _).forall (fun c => attrChar_printable) (fun c => hexDigit_printable)
      (by decide) c hc
  · refine ⟨_, _, heq, ?_, ?_, escaped_encoded _, decode_encoded _⟩
    · intro q e hq h
      exact disposition_inj hq hquote (h.symm.trans heq)
    · intro c hc
      exact (fallback_safe hc).2

end Reeva.DownloadHeaders
