import Mathlib.Algebra.GroupWithZero.Nat
import Mathlib.Algebra.Order.Group.Nat
import Mathlib.Algebra.Order.BigOperators.Group.List

/-!
# Strings as JavaScript sees them

Strings here are sequences of Unicode scalar values, which is what every text of the database and of
a request body is. JavaScript measures them in UTF-16 code units, trims a fixed set of white space,
and turns them into bytes as UTF-8.
-/

namespace Js

/-- `s.length`: the number of UTF-16 code units. -/
def length (s : String) : ℕ :=
  (s.toList.map fun c => if c.toNat < 0x10000 then 1 else 2).sum

/-- The white space and line terminators that `trim` removes. -/
def isSpace (c : Char) : Bool :=
  [9, 10, 11, 12, 13, 32, 0xA0, 0x1680, 0x2028, 0x2029, 0x202F, 0x205F, 0x3000, 0xFEFF].contains
    c.toNat || (0x2000 ≤ c.toNat && c.toNat ≤ 0x200A)

/-- Removes the characters at both ends that satisfy `p`. -/
def strip (p : Char → Bool) (cs : List Char) : List Char :=
  ((cs.dropWhile p).reverse.dropWhile p).reverse

/-- `s.trim()`. -/
def trim (s : String) : String := String.ofList (strip isSpace s.toList)

/-- A character of `[a-f0-9]`. -/
def isLowerHex (c : Char) : Bool := c.isDigit || ('a' ≤ c && c ≤ 'f')

/-- `/^[a-f0-9]{64}$/`. -/
def isSha256Hex (s : String) : Bool := s.toList.length == 64 && s.toList.all isLowerHex

/-- `Buffer.from(s, 'utf8')`. -/
def utf8 (s : String) : List UInt8 := s.toList.flatMap String.utf8EncodeChar

/-- `buffer.toString('utf8')` for a buffer of valid UTF-8. -/
def fromUtf8 (b : List UInt8) : Option String := String.fromUTF8? b.toByteArray

/-- A property of the members of a list can be checked. -/
theorem forall_of_all {α : Type} {p : α → Prop} [DecidablePred p] {cs : List α}
    (h : (cs.all fun c => decide (p c)) = true) : ∀ c ∈ cs, p c := by
  simpa using h

/-- Nothing is removed where no character satisfies `p`. -/
theorem strip_of_forall {p : Char → Bool} {cs : List Char} (h : ∀ c ∈ cs, p c = false) :
    strip p cs = cs := by
  have drop : ∀ {cs : List Char}, (∀ c ∈ cs, p c = false) → cs.dropWhile p = cs := by
    intro cs h
    cases cs with
    | nil => rfl
    | cons c cs => exact List.dropWhile_cons_of_neg (by simp [h c])
  rw [strip, drop h, drop (by simpa using h), List.reverse_reverse]

/-- The length of what is left after stripping. -/
theorem length_trim_le (s : String) : length (trim s) ≤ length s := by
  have hsub : (strip isSpace s.toList).Sublist s.toList := by
    unfold strip
    rw [← List.reverse_sublist, List.reverse_reverse]
    exact (List.dropWhile_sublist _).trans (List.reverse_sublist.mpr (List.dropWhile_sublist _))
  unfold length trim
  rw [String.toList_ofList]
  exact (hsub.map _).sum_le_sum fun _ _ => Nat.zero_le _

/-- Digits are no white space. -/
theorem isSpace_of_isDigit {c : Char} (h : c.isDigit = true) : isSpace c = false := by
  simp only [Char.isDigit, Bool.and_eq_true, decide_eq_true_eq] at h
  have hlow : 48 ≤ c.toNat := UInt32.le_iff_toNat_le.mp h.1
  have hhigh : c.toNat ≤ 57 := UInt32.le_iff_toNat_le.mp h.2
  simp only [isSpace, List.contains_eq_mem, List.mem_cons, List.not_mem_nil, or_false,
    Bool.or_eq_false_iff, decide_eq_false_iff_not, Bool.and_eq_false_iff]
  omega

/-- The bytes of a string that is given by its characters. -/
theorem utf8_ofList (cs : List Char) :
    utf8 (String.ofList cs) = cs.flatMap String.utf8EncodeChar := by
  rw [utf8, String.toList_ofList]

/-- The bytes of a string. -/
theorem toByteArray_utf8 (s : String) : (utf8 s).toByteArray = s.toByteArray := by
  rw [← String.utf8Encode_toList]
  simp [utf8, List.utf8Encode]

/-- A string is read back from its bytes. -/
@[simp] theorem fromUtf8_utf8 (s : String) : fromUtf8 (utf8 s) = some s := by
  rw [fromUtf8, toByteArray_utf8, String.fromUTF8?, dif_pos s.isValidUTF8]
  rfl

/-- Only the empty string has no bytes. -/
theorem utf8_ne_nil {s : String} (h : s ≠ "") : utf8 s ≠ [] := by
  intro hb
  have hs := fromUtf8_utf8 s
  rw [hb] at hs
  exact h (Option.some.inj (hs.symm.trans (fromUtf8_utf8 "")))

/-- The length of a text of ASCII characters, as JavaScript counts it. -/
theorem length_of_ascii {s : String} (h : ∀ c ∈ s.toList, c.toNat < 128) :
    length s = s.toList.length := by
  have hone : (s.toList.map fun c => if c.toNat < 0x10000 then 1 else 2) =
      s.toList.map fun _ => 1 :=
    List.map_congr_left fun c hc => if_pos (Nat.lt_trans (h c hc) (by decide))
  rw [length, hone, List.map_const', List.sum_replicate_nat, Nat.mul_one]

/-- What stands before the first separator, and what stands after it, is determined. -/
theorem before_separator {α : Type} {z : α} {a b x y : List α} (ha : z ∉ a) (hb : z ∉ b)
    (h : a ++ z :: x = b ++ z :: y) : a = b ∧ x = y := by
  induction a generalizing b with
  | nil =>
    cases b with
    | nil => exact ⟨rfl, (List.cons.inj h).2⟩
    | cons c b => exact absurd (List.cons.inj h).1 fun hz => hb (hz ▸ .head _)
  | cons c a ih =>
    cases b with
    | nil => exact absurd (List.cons.inj h).1 fun hz => ha (hz ▸ .head _)
    | cons c' b =>
      obtain ⟨rfl, hrest⟩ := List.cons.inj h
      obtain ⟨rfl, hxy⟩ := ih (fun hz => ha (.tail _ hz)) (fun hz => hb (.tail _ hz)) hrest
      exact ⟨rfl, hxy⟩

/-- What stands after the last separator is determined. -/
theorem after_separator {α : Type} {z : α} {a b x y : List α} (hx : z ∉ x) (hy : z ∉ y)
    (h : a ++ z :: x = b ++ z :: y) : x = y := by
  have hrev := congrArg List.reverse h
  simp only [List.reverse_append, List.reverse_cons, List.append_assoc, List.singleton_append]
    at hrev
  exact List.reverse_inj.mp (before_separator (by simpa using hx) (by simpa using hy) hrev).1

end Js
