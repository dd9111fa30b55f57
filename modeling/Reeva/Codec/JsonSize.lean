import Reeva.Codec.Text
import Reeva.Codec.JsonRoundTrip

/-!
# The size of JSON texts

How many bytes of UTF-8 the text of a value has, counted over the characters of its strings: what
escapes add, what the members of an object add, and bounds by the length in UTF-16 code units.
-/

namespace Js

/-- The bytes of some characters in UTF-8. -/
def byteSize (cs : List Char) : ℕ := (cs.map Char.utf8Size).sum

@[simp] theorem byteSize_nil : byteSize [] = 0 := rfl

@[simp] theorem byteSize_cons (c : Char) (cs : List Char) :
    byteSize (c :: cs) = c.utf8Size + byteSize cs := by
  unfold byteSize
  rw [List.map_cons, List.sum_cons]

@[simp] theorem byteSize_append (cs ds : List Char) :
    byteSize (cs ++ ds) = byteSize cs + byteSize ds := by
  unfold byteSize
  rw [List.map_append, List.sum_append]

/-- It is the length of the encoding. -/
theorem length_utf8_ofList (cs : List Char) : (utf8 (String.ofList cs)).length = byteSize cs := by
  unfold utf8 byteSize
  rw [String.toList_ofList, List.length_flatMap]
  exact congrArg List.sum (List.map_congr_left fun c _ => String.length_utf8EncodeChar c)

/-- An ASCII character has one byte. -/
theorem utf8Size_of_ascii {c : Char} (h : c.toNat < 128) : c.utf8Size = 1 :=
  Char.utf8Size_eq_one_iff.mpr (UInt32.le_iff_toNat_le.mpr (Nat.le_of_lt_succ h))

/-- ASCII characters have one byte each. -/
theorem byteSize_of_ascii {cs : List Char} (h : ∀ c ∈ cs, c.toNat < 128) :
    byteSize cs = cs.length := by
  unfold byteSize
  rw [List.map_congr_left fun c hc => utf8Size_of_ascii (h c hc), List.map_const',
    List.sum_replicate_nat, Nat.mul_one]

/-- A character has at most three bytes for each of its code units. -/
theorem utf8Size_le (c : Char) : c.utf8Size ≤ 3 * if c.toNat < 0x10000 then 1 else 2 := by
  have hle : c.utf8Size ≤ 4 := Char.utf8Size_le_four c
  split_ifs with hunit
  · -- Four bytes are for the characters beyond the first plane.
    by_contra hcon
    have hfour : c.utf8Size = 4 := by omega
    have hbig := Char.utf8Size_eq_four_iff.mp hfour
    have : 65535 < c.toNat := UInt32.lt_iff_toNat_lt.mp hbig
    omega
  · omega

end Js

namespace Json

/-- A control character without a short escape. -/
def isLongEscaped (c : Char) : Bool :=
  c.toNat < 32 && c ≠ '\n' && c ≠ '\r' && c ≠ '\t' && c.toNat ≠ 8 && c.toNat ≠ 12

/-- The bytes of a character inside a string literal. -/
def charSize (c : Char) : ℕ :=
  if isLongEscaped c then 6 else if c.toNat < 32 ∨ c = '"' ∨ c = '\\' then 2 else c.utf8Size

/-- They are those that `escape` writes. -/
theorem byteSize_escape (c : Char) : Js.byteSize (escape c) = charSize c := by
  have hdigit : ∀ n < 16, (Nat.digitChar n).utf8Size = 1 := by decide
  have hone : '\\'.utf8Size = 1 ∧ 'u'.utf8Size = 1 ∧ '0'.utf8Size = 1 := by decide
  unfold charSize isLongEscaped
  obtain ⟨e, he, hescape⟩ | ⟨hcontrol, hunit, hescape⟩ | ⟨hquote, hslash, hge, hescape⟩ :=
    escape_cases c
  · rw [hescape]
    simp only [shortEscapes, List.mem_cons, Prod.mk.injEq, List.not_mem_nil, or_false] at he
    obtain ⟨rfl, rfl⟩ | ⟨rfl, rfl⟩ | ⟨rfl, rfl⟩ | ⟨rfl, rfl⟩ | ⟨rfl, rfl⟩ | ⟨rfl, rfl⟩ |
      ⟨rfl, rfl⟩ := he <;> decide
  · rw [hescape]
    have hother : ¬(c = '\n' ∨ c = '\r' ∨ c = '\t' ∨ c.toNat = 8 ∨ c.toNat = 12) := by
      unfold unitOf at hunit
      rintro (rfl | rfl | rfl | h | h)
      · cases hunit
      · cases hunit
      · cases hunit
      · rw [if_neg (by omega)] at hunit
        cases hunit
      · rw [if_neg (by omega)] at hunit
        cases hunit
    push Not at hother
    simp only [hcontrol, hother.1, hother.2.1, hother.2.2.1, hother.2.2.2.1, hother.2.2.2.2,
      decide_true, ne_eq, not_false_eq_true, Bool.and_self, if_true, Js.byteSize_cons,
      Js.byteSize_nil, hone, hdigit (c.toNat / 16) (by omega), hdigit (c.toNat % 16) (by omega)]
  · rw [hescape]
    have hnot : ¬c.toNat < 32 := Nat.not_lt.mpr hge
    simp only [hnot, hquote, hslash, decide_false, Bool.false_and, Bool.false_eq_true, if_false,
      or_self, Js.byteSize_cons, Js.byteSize_nil, Nat.add_zero]

/-- The bytes of a string literal. -/
def textSize (s : String) : ℕ := (s.toList.map charSize).sum + 2

theorem byteSize_printStr (s : String) : Js.byteSize (printStr s) = textSize s := by
  have hquote : '"'.utf8Size = 1 := by decide
  have hescapes : ∀ cs : List Char, Js.byteSize (cs.flatMap escape) = (cs.map charSize).sum := by
    intro cs
    induction cs with
    | nil => rfl
    | cons c cs ih =>
      rw [List.flatMap_cons, Js.byteSize_append, byteSize_escape, ih, List.map_cons, List.sum_cons]
  unfold printStr textSize
  simp only [Js.byteSize_cons, Js.byteSize_append, Js.byteSize_nil, hescapes, hquote]
  omega

/-- The bytes of an object's members, with what separates and closes them. -/
theorem byteSize_printFields (fields : List (String × Json)) :
    Js.byteSize (printFields fields) =
      1 + (fields.map fun f => textSize f.1 + Js.byteSize f.2.print + 2).sum := by
  have hone : '}'.utf8Size = 1 ∧ ','.utf8Size = 1 ∧ ':'.utf8Size = 1 := by decide
  induction fields with
  | nil => simp only [printFields, Js.byteSize_cons, Js.byteSize_nil, hone, List.map_nil, List.sum_nil]
  | cons f fields ih =>
    obtain ⟨k, v⟩ := f
    simp only [printFields, Js.byteSize_cons, Js.byteSize_append, byteSize_printStr, ih, hone,
      List.map_cons, List.sum_cons]
    omega

/-- The bytes of an object. -/
theorem byteSize_print_obj (f : String × Json) (fields : List (String × Json)) :
    Js.byteSize (print (.obj (f :: fields))) =
      1 + ((f :: fields).map fun f => textSize f.1 + Js.byteSize f.2.print + 2).sum := by
  have hone : '{'.utf8Size = 1 ∧ ':'.utf8Size = 1 := by decide
  obtain ⟨k, v⟩ := f
  simp only [print, Js.byteSize_cons, Js.byteSize_append, byteSize_printStr, byteSize_printFields,
    hone, List.map_cons, List.sum_cons]
  omega

/-! ## Bounds -/

/-- A character has at most three bytes for each of its code units, if it has no long escape, and at
most six in any case. -/
theorem charSize_le (c : Char) :
    charSize c ≤ 3 * (if c.toNat < 0x10000 then 1 else 2) + 3 * if isLongEscaped c then 1 else 0 := by
  unfold charSize
  have hle := Js.utf8Size_le c
  by_cases hlong : isLongEscaped c = true
  · have hlt : c.toNat < 32 := by
      unfold isLongEscaped at hlong
      simp only [Bool.and_eq_true, decide_eq_true_eq] at hlong
      exact hlong.1.1.1.1.1
    rw [if_pos hlong, if_pos hlong, if_pos (by omega)]
  · rw [if_neg hlong, if_neg hlong]
    split_ifs with hshort hunit hunit
    · omega
    · omega
    · rwa [if_pos hunit] at hle
    · rwa [if_neg hunit] at hle

/-- So has a text. -/
theorem textSize_le (s : String) :
    textSize s ≤ 3 * Js.length s + 3 * s.toList.countP isLongEscaped + 2 := by
  have hsum : ∀ cs : List Char, (cs.map charSize).sum ≤
      3 * (cs.map fun c => if c.toNat < 0x10000 then 1 else 2).sum + 3 * cs.countP isLongEscaped := by
    intro cs
    induction cs with
    | nil => exact Nat.le_refl 0
    | cons c cs ih =>
      have hc := charSize_le c
      rw [List.map_cons, List.sum_cons, List.map_cons, List.sum_cons, List.countP_cons]
      omega
  have h := hsum s.toList
  unfold textSize Js.length
  omega

/-- There are at most as many characters as code units. -/
theorem countP_le_length (s : String) : s.toList.countP isLongEscaped ≤ Js.length s := by
  have hle : ∀ cs : List Char,
      cs.length ≤ (cs.map fun c => if c.toNat < 0x10000 then 1 else 2).sum := by
    intro cs
    induction cs with
    | nil => exact Nat.le_refl 0
    | cons c cs ih =>
      rw [List.length_cons, List.map_cons, List.sum_cons]
      split_ifs <;> omega
  exact List.countP_le_length.trans (hle s.toList)

/-- A text has at most six bytes for each of its code units. -/
theorem textSize_le_six (s : String) : textSize s ≤ 6 * Js.length s + 2 := by
  have hsize := textSize_le s
  have hcount := countP_le_length s
  omega

end Json

