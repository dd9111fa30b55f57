import Reeva.Codec.JsonRoundTrip
import Reeva.Codec.Number

/-!
# Doubles and their texts

A finite double is a number of 53 bits times a power of two. Rounding leaves it as it is, and every
decimal text with its exact value is read as this double.
-/

namespace Js

/-- A finite double. -/
def IsDouble (q : ℚ) : Prop :=
  ∃ m e : ℤ, q = m * 2 ^ e ∧ |m| ≤ 2 ^ 53 ∧ -1074 ≤ e ∧ |q| < 2 ^ 1024

/-- The mantissa needs at most 53 bits. -/
theorem IsDouble.mantissa {q : ℚ} (h : IsDouble q) :
    ∃ m e : ℤ, q = m * 2 ^ e ∧ |m| < 2 ^ 53 ∧ -1074 ≤ e ∧ |q| < 2 ^ 1024 := by
  obtain ⟨m, e, rfl, hm, he, hlt⟩ := h
  obtain hm | hm := hm.lt_or_eq
  · exact ⟨m, e, rfl, hm, he, hlt⟩
  · have hhalf : 2 * (m / 2) = m := by
      rw [abs_eq (by norm_num)] at hm
      omega
    refine ⟨m / 2, e + 1, ?_, ?_, by omega, hlt⟩
    · have hcast : (m : ℚ) = 2 * ((m / 2 : ℤ) : ℚ) := by exact_mod_cast hhalf.symm
      rw [hcast, zpow_add_one₀ (by norm_num)]
      ring
    · rw [abs_lt]
      rw [abs_eq (by norm_num)] at hm
      omega

/-- A double is its own nearest double. -/
theorem toDouble_of_isDouble {q : ℚ} (h : IsDouble q) : toDouble q = some q := by
  obtain ⟨m, e, hq, hm, he, hlt⟩ := h.mantissa
  by_cases h0 : q = 0
  · simp [toDouble, h0]
  have habs : |q| < 2 ^ (53 + e) := by
    have hcast : |(m : ℚ)| < 2 ^ (53 : ℤ) := by
      rw [← Int.cast_abs]
      exact_mod_cast hm
    rw [hq, abs_mul, abs_of_pos (zpow_pos (by norm_num : (0 : ℚ) < 2) e),
      zpow_add₀ (by norm_num : (2 : ℚ) ≠ 0)]
    exact mul_lt_mul_of_pos_right hcast (zpow_pos (by norm_num) e)
  have hlog := log_lt (abs_pos.mpr h0) habs
  obtain ⟨k, hk⟩ : ∃ k : ℕ, max (Int.log 2 |q| - 52) (-1074) = e - (k : ℤ) :=
    ⟨(e - max (Int.log 2 |q| - 52) (-1074)).toNat, by omega⟩
  have hpow : (2 : ℚ) ^ (e - (k : ℤ)) ≠ 0 := (zpow_pos (by norm_num) _).ne'
  have hscaled : q / 2 ^ (e - (k : ℤ)) = ((m * 2 ^ k : ℤ) : ℚ) := by
    rw [div_eq_iff hpow, hq]
    push_cast
    rw [mul_assoc, ← zpow_natCast, ← zpow_add₀ (by norm_num : (2 : ℚ) ≠ 0)]
    congr 2
    omega
  unfold toDouble
  dsimp only
  rw [if_neg h0, hk, hscaled, roundHalfEven_intCast, ← hscaled, div_mul_cancel₀ _ hpow, if_pos hlt]

/-- The nearest double of a whole number, divided by a power of two, is a double. -/
theorem isDouble_div {n : ℤ} {d : ℚ} (h : toDouble n = some d) {k : ℕ} (hk : k ≤ 1022) :
    IsDouble (d / 2 ^ k) := by
  by_cases h0 : (n : ℚ) = 0
  · rw [h0] at h
    obtain rfl := Option.some.inj h
    exact ⟨0, 0, by simp, by norm_num, by norm_num, by simp⟩
  have hone : (2 : ℚ) ^ (0 : ℤ) ≤ |(n : ℚ)| := by
    rw [zpow_zero, ← Int.cast_abs]
    exact_mod_cast Int.one_le_abs (by exact_mod_cast h0)
  -- A whole number is at least one, so its exponent is no less than the smallest one.
  have hlog : 0 ≤ Int.log 2 |(n : ℚ)| :=
    (Int.zpow_le_iff_le_log (by norm_num) (abs_pos.mpr h0)).mp (by exact_mod_cast hone)
  obtain ⟨E, hE⟩ : ∃ E, max (Int.log 2 |(n : ℚ)| - 52) (-1074) = E := ⟨_, rfl⟩
  have hbound : |(n : ℚ) / 2 ^ E| < 2 ^ 53 := by
    have hlt : |(n : ℚ)| < 2 ^ (Int.log 2 |(n : ℚ)| + 1) :=
      by exact_mod_cast Int.lt_zpow_succ_log_self (b := 2) (by norm_num) |(n : ℚ)|
    have hle : (2 : ℚ) ^ (Int.log 2 |(n : ℚ)| + 1) ≤ 2 ^ (53 + E) :=
      zpow_le_zpow_right₀ (by norm_num) (by omega)
    rw [abs_div, abs_of_pos (zpow_pos (by norm_num : (0 : ℚ) < 2) E),
      div_lt_iff₀ (zpow_pos (by norm_num) E)]
    calc |(n : ℚ)| < 2 ^ (53 + E) := hlt.trans_le hle
      _ = 2 ^ 53 * 2 ^ E := by
        rw [zpow_add₀ (by norm_num : (2 : ℚ) ≠ 0)]
        norm_cast
  -- The scaled number lies below `2 ^ 53`, and so does what it is rounded to, or on it.
  have hround : |roundHalfEven ((n : ℚ) / 2 ^ E)| ≤ 2 ^ 53 := by
    rw [abs_lt] at hbound
    have hlow : -2 ^ 53 ≤ ⌊(n : ℚ) / 2 ^ E⌋ := Int.le_floor.mpr (by
      push_cast
      exact hbound.1.le)
    have hhigh : ⌊(n : ℚ) / 2 ^ E⌋ < 2 ^ 53 := Int.floor_lt.mpr (by
      push_cast
      exact hbound.2)
    have := floor_le_roundHalfEven ((n : ℚ) / 2 ^ E)
    have := roundHalfEven_le ((n : ℚ) / 2 ^ E)
    rw [abs_le]
    omega
  unfold toDouble at h
  dsimp only at h
  rw [if_neg h0, hE] at h
  split_ifs at h with hlt
  obtain rfl := Option.some.inj h
  refine ⟨roundHalfEven ((n : ℚ) / 2 ^ E), E - k, ?_, hround, by omega, ?_⟩
  · rw [zpow_sub₀ (by norm_num : (2 : ℚ) ≠ 0), zpow_natCast, mul_div_assoc]
  · rw [abs_div]
    refine (div_le_self (abs_nonneg _) ?_).trans_lt hlt
    rw [abs_of_pos (by positivity)]
    exact one_le_pow₀ (by norm_num)

/-- A whole number that is read as a positive double below `2 ^ 53` is positive and below `2 ^ 53`. -/
theorem lt_of_toDouble {n : ℤ} {d : ℚ} (h : toDouble n = some d) (hpos : 0 < d) (hlt : d < 2 ^ 53) :
    0 < n ∧ n < 2 ^ 53 := by
  have h0 : (n : ℚ) ≠ 0 := by
    intro h0
    rw [h0] at h
    obtain rfl := Option.some.inj h
    exact lt_irrefl _ hpos
  obtain ⟨E, hE⟩ : ∃ E, max (Int.log 2 |(n : ℚ)| - 52) (-1074) = E := ⟨_, rfl⟩
  have hpow : (0 : ℚ) < 2 ^ E := zpow_pos (by norm_num) E
  unfold toDouble at h
  dsimp only at h
  rw [if_neg h0, hE] at h
  split_ifs at h
  obtain rfl := Option.some.inj h
  have hround := roundHalfEven_le ((n : ℚ) / 2 ^ E)
  have hround' := floor_le_roundHalfEven ((n : ℚ) / 2 ^ E)
  -- A negative number is not rounded to a positive one.
  have hn : 0 < n := by
    by_contra hcon
    have hneg : (n : ℚ) < 0 := lt_of_le_of_ne (by exact_mod_cast Int.not_lt.mp hcon) h0
    have hfloor : ⌊(n : ℚ) / 2 ^ E⌋ < 0 := Int.floor_lt.mpr (by
      rw [Int.cast_zero]
      exact div_neg_of_neg_of_pos hneg hpow)
    have hle : (roundHalfEven ((n : ℚ) / 2 ^ E) : ℚ) ≤ 0 := by exact_mod_cast (by omega)
    exact absurd hpos (not_lt.mpr (mul_nonpos_of_nonpos_of_nonneg hle hpow.le))
  refine ⟨hn, ?_⟩
  by_contra hcon
  -- The leading bit of the number is kept.
  have hcast : (0 : ℚ) < n := by exact_mod_cast hn
  have hlog : 53 ≤ Int.log 2 |(n : ℚ)| := by
    rw [abs_of_pos hcast]
    refine (Int.zpow_le_iff_le_log (by norm_num) hcast).mp ?_
    exact_mod_cast Int.not_lt.mp hcon
  have hfloor : (2 : ℤ) ^ 52 ≤ ⌊(n : ℚ) / 2 ^ E⌋ := by
    rw [Int.le_floor, le_div_iff₀ hpow]
    have hlow : (2 : ℚ) ^ Int.log 2 |(n : ℚ)| ≤ n := by
      rw [abs_of_pos hcast]
      exact_mod_cast Int.zpow_log_le_self (b := 2) (by norm_num) hcast
    have hbits : (2 : ℚ) ^ (52 : ℤ) * 2 ^ E = 2 ^ Int.log 2 |(n : ℚ)| := by
      rw [← zpow_add₀ (by norm_num : (2 : ℚ) ≠ 0)]
      congr 1
      omega
    have hcast52 : (((2 : ℤ) ^ 52 : ℤ) : ℚ) = 2 ^ (52 : ℤ) := by norm_num
    rw [hcast52, hbits]
    exact hlow
  -- The mantissa has its leading bit, and the exponent is positive.
  have hd : (2 : ℚ) ^ 53 ≤ (roundHalfEven ((n : ℚ) / 2 ^ E) : ℚ) * 2 ^ E := by
    have hmantissa : (2 : ℚ) ^ 52 ≤ (roundHalfEven ((n : ℚ) / 2 ^ E) : ℚ) := by
      exact_mod_cast hfloor.trans hround'
    have htwo : (2 : ℚ) ≤ 2 ^ E := by
      calc (2 : ℚ) = 2 ^ (1 : ℤ) := (zpow_one 2).symm
        _ ≤ 2 ^ E := zpow_le_zpow_right₀ (by norm_num) (by omega)
    calc (2 : ℚ) ^ 53 = (2 : ℚ) ^ 52 * 2 := by norm_num
      _ ≤ (roundHalfEven ((n : ℚ) / 2 ^ E) : ℚ) * 2 ^ E :=
        mul_le_mul hmantissa htwo (by norm_num) (le_trans (by norm_num) hmantissa)
  exact absurd hlt (not_lt.mpr hd)

/-! ## Decimal texts -/

/-- A decimal text: an integer and an exponent. -/
def decimalText (m e : ℤ) : String := String.ofList (Json.printInt m ++ 'e' :: Json.printInt e)

/-- What may follow the digits of a decimal text: nothing, or an exponent. -/
def exponentText : Option ℤ → List Char
  | none => []
  | some e => 'e' :: Json.printInt e

/-- The texts of numbers have no white space. -/
theorem isSpace_printInt (n : ℤ) : ∀ c ∈ Json.printInt n, isSpace c = false := by
  intro c hc
  rw [Json.printInt_eq] at hc
  obtain hc | hc := List.mem_append.mp hc
  · split_ifs at hc
    · obtain rfl := List.mem_singleton.mp hc
      decide
    · cases hc
  · exact isSpace_of_isDigit (Json.toDigits_isDigit _ c hc)

theorem isSpace_exponentText (exponent : Option ℤ) :
    ∀ c ∈ exponentText exponent, isSpace c = false := by
  intro c hc
  cases exponent with
  | none => cases hc
  | some e =>
    obtain rfl | hc := List.mem_cons.mp hc
    · decide
    · exact isSpace_printInt e c hc

/-- The value of a decimal text without a sign. -/
theorem decimal_digits (n : ℕ) (exponent : Option ℤ) :
    decimal (Nat.toDigits 10 n ++ exponentText exponent) =
      toDouble ((n : ℚ) * 10 ^ exponent.getD 0) := by
  have hdigits : Json.digits (Nat.toDigits 10 n ++ exponentText exponent) =
      (Nat.toDigits 10 n, exponentText exponent) := by
    refine Json.digits_append (Json.toDigits_isDigit n) fun c hc => ?_
    cases exponent with
    | none => cases hc
    | some e =>
      obtain rfl := Option.some.inj hc
      decide
  have hexponent : Json.parseExponent (exponentText exponent) = some (exponent, []) := by
    cases exponent with
    | none => rfl
    | some e =>
      have h := Json.parseExponent_print e Json.stops_nil
      rw [List.append_nil] at h
      exact h
  have hpoint : ∀ cs, exponentText exponent ≠ '.' :: cs := by
    intro cs he
    cases exponent with
    | none => cases he
    | some e => exact absurd (List.cons.inj he).1 (by decide)
  have hne : Nat.toDigits 10 n ≠ [] := Nat.toDigits_ne_nil
  have hvalue : decimal (Nat.toDigits 10 n ++ exponentText exponent) =
      toDouble ((Nat.ofDigitChars 10 (Nat.toDigits 10 n ++ []) 0 : ℚ) *
        10 ^ (exponent.getD 0 - ((0 : ℕ) : ℤ))) := by
    unfold decimal
    rw [hdigits]
    dsimp only
    split
    · rename_i cs he
      exact absurd he (hpoint cs)
    · dsimp only
      rw [if_neg fun h => hne h.1, hexponent]
      rfl
  rw [hvalue, List.append_nil, Nat.ofDigitChars_ten_toDigits, Nat.cast_zero, sub_zero]

/-- A text that starts with digits is no binary, octal or hexadecimal literal. -/
theorem numberOfText_digits (n : ℕ) (exponent : Option ℤ) :
    numberOfText (String.ofList (Nat.toDigits 10 n ++ exponentText exponent)) =
      toDouble ((n : ℚ) * 10 ^ exponent.getD 0) := by
  have hspace : ∀ c ∈ Nat.toDigits 10 n ++ exponentText exponent, isSpace c = false := by
    intro c hc
    obtain hc | hc := List.mem_append.mp hc
    · exact isSpace_of_isDigit (Json.toDigits_isDigit n c hc)
    · exact isSpace_exponentText exponent c hc
  -- What follows the first digit is a digit or the letter of an exponent.
  obtain ⟨d, ds, hcons, hd⟩ := Json.toDigits_cons n
  have hsecond : ∀ c cs, ds ++ exponentText exponent = c :: cs → c.isDigit = true ∨ c = 'e' := by
    intro c cs he
    cases ds with
    | nil =>
      cases exponent with
      | none => cases he
      | some e => exact .inr (List.cons.inj he).1.symm
    | cons d' ds =>
      rw [← (List.cons.inj he).1]
      exact .inl (Json.toDigits_isDigit n d' (by rw [hcons]; simp))
  have hletter : ∀ x cs, x.isDigit = false → x ≠ 'e' →
      d :: (ds ++ exponentText exponent) ≠ '0' :: x :: cs := by
    intro x cs hx hne he
    obtain hx' | rfl := hsecond x cs (List.cons.inj he).2
    · rw [hx] at hx'
      cases hx'
    · exact hne rfl
  -- There is no white space to trim.
  have htrim : (trim (String.ofList (Nat.toDigits 10 n ++ exponentText exponent))).toList =
      d :: (ds ++ exponentText exponent) := by
    unfold trim
    rw [String.toList_ofList, String.toList_ofList, strip_of_forall hspace, hcons]
    rfl
  rw [← decimal_digits, hcons]
  rw [hcons] at htrim
  generalize String.ofList (d :: ds ++ exponentText exponent) = s at htrim
  unfold numberOfText
  rw [htrim]
  -- The branches of `Number` in their order: only the last one takes such a text.
  split
  · rename_i he
    cases he
  · rename_i cs he
    exact absurd he (hletter 'x' cs (by decide) (by decide))
  · rename_i cs he
    exact absurd he (hletter 'X' cs (by decide) (by decide))
  · rename_i cs he
    exact absurd he (hletter 'o' cs (by decide) (by decide))
  · rename_i cs he
    exact absurd he (hletter 'O' cs (by decide) (by decide))
  · rename_i cs he
    exact absurd he (hletter 'b' cs (by decide) (by decide))
  · rename_i cs he
    exact absurd he (hletter 'B' cs (by decide) (by decide))
  · rename_i cs he
    exact absurd (List.cons.inj he).1 (Json.digit_ne_sign hd).1
  · rename_i cs he
    exact absurd (List.cons.inj he).1 (Json.digit_ne_sign hd).2
  · rfl

/-- The text of an integer is read as its nearest double. -/
theorem numberOfText_natCast (n : ℕ) : numberOfText (toString (n : ℤ)) = toDouble (n : ℚ) := by
  have htext : toString (n : ℤ) = String.ofList (Nat.toDigits 10 n ++ exponentText none) := by
    unfold exponentText
    rw [List.append_nil]
    rfl
  rw [htext, numberOfText_digits]
  simp

/-- A whole number that a value stands for is also what its text stands for, unless it is `true`. -/
theorem numberOfText_text {v : Json} {n : ℤ} (h : toNumber v = some (n : ℚ)) (hn : 1 ≤ n)
    (hsafe : n < 2 ^ 53) (htrue : v ≠ .bool true) : numberOfText (text v) = some (n : ℚ) := by
  have hdouble : numberOfText (toString n) = some (n : ℚ) := by
    obtain ⟨k, rfl⟩ := Int.eq_ofNat_of_zero_le (by omega : 0 ≤ n)
    rw [numberOfText_natCast]
    refine toDouble_intCast ?_
    unfold isSafeInteger
    simp only [Bool.and_eq_true, decide_eq_true_eq]
    omega
  cases v with
  | null =>
    have hzero : (0 : ℚ) = n := Option.some.inj h
    have : n = 0 := by exact_mod_cast hzero.symm
    omega
  | bool b =>
    cases b with
    | true => exact absurd rfl htrue
    | false =>
      have hzero : (0 : ℚ) = n := Option.some.inj h
      have : n = 0 := by exact_mod_cast hzero.symm
      omega
  | str s => exact h
  | arr xs => exact h
  | obj fields => cases h
  | int m =>
    have hm := lt_of_toDouble h (by exact_mod_cast hn) (by exact_mod_cast hsafe)
    have hread : toDouble (m : ℚ) = some (n : ℚ) := h
    unfold text
    rw [if_pos (by omega), hread, Option.getD_some, Rat.num_intCast]
    exact hdouble
  | float m e =>
    have hinteger : integer? (.float m e) = some n := by
      have hread : number? (.float m e) = some (n : ℚ) := h
      unfold integer?
      rw [hread, Option.bind_some, if_pos (Rat.den_intCast n), Rat.num_intCast]
    unfold text
    rw [hinteger]
    dsimp only
    rw [if_pos (by omega)]
    exact hdouble

/-- The magnitude of a double is a double. -/
theorem IsDouble.abs {q : ℚ} (h : IsDouble q) : IsDouble |q| := by
  obtain ⟨m, e, hq, hm, he, hlt⟩ := h
  refine ⟨|m|, e, ?_, by rwa [abs_abs], he, by rwa [abs_abs]⟩
  rw [hq, abs_mul, abs_of_pos (zpow_pos (by norm_num : (0 : ℚ) < 2) e), Int.cast_abs]

/-- A decimal text of a double is read as this double. -/
theorem numberOfText_decimalText {m e : ℤ} (h : IsDouble ((m : ℚ) * 10 ^ e)) :
    numberOfText (decimalText m e) = some ((m : ℚ) * 10 ^ e) := by
  have hmagnitude : ((m.natAbs : ℕ) : ℚ) * 10 ^ e = |(m : ℚ) * 10 ^ e| := by
    rw [abs_mul, abs_of_pos (zpow_pos (by norm_num : (0 : ℚ) < 10) e), Nat.cast_natAbs, Int.cast_abs]
  have habs : toDouble ((m.natAbs : ℚ) * 10 ^ e) = some |(m : ℚ) * 10 ^ e| := by
    rw [hmagnitude]
    exact toDouble_of_isDouble h.abs
  have hpow : (0 : ℚ) < 10 ^ e := zpow_pos (by norm_num) e
  unfold decimalText
  rw [Json.printInt_eq]
  by_cases hneg : m < 0
  · rw [if_pos hneg]
    have hspace : ∀ c ∈ '-' :: (Nat.toDigits 10 m.natAbs ++ exponentText (some e)),
        isSpace c = false := by
      intro c hc
      obtain rfl | hc := List.mem_cons.mp hc
      · decide
      obtain hc | hc := List.mem_append.mp hc
      · exact isSpace_of_isDigit (Json.toDigits_isDigit _ c hc)
      · exact isSpace_exponentText _ c hc
    have htrim : (trim (String.ofList (['-'] ++ Nat.toDigits 10 m.natAbs ++ 'e' ::
        Json.printInt e))).toList = '-' :: (Nat.toDigits 10 m.natAbs ++ exponentText (some e)) := by
      unfold trim
      rw [String.toList_ofList, String.toList_ofList]
      exact strip_of_forall hspace
    have hread : numberOfText (String.ofList (['-'] ++ Nat.toDigits 10 m.natAbs ++ 'e' ::
        Json.printInt e)) =
          (decimal (Nat.toDigits 10 m.natAbs ++ exponentText (some e))).map (- ·) := by
      unfold numberOfText
      rw [htrim]
      rfl
    have hcast : (m : ℚ) < 0 := by exact_mod_cast hneg
    rw [hread, decimal_digits, Option.getD_some, habs, abs_of_neg (mul_neg_of_neg_of_pos hcast hpow)]
    simp
  · rw [if_neg hneg]
    have hcast : (0 : ℚ) ≤ m := by exact_mod_cast Int.not_lt.mp hneg
    have hread := numberOfText_digits m.natAbs (some e)
    rw [Option.getD_some, habs, abs_of_nonneg (mul_nonneg hcast hpow.le)] at hread
    exact hread

end Js
