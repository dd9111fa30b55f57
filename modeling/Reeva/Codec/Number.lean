import Mathlib.Data.Int.Log
import Mathlib.Data.Rat.Floor
import Mathlib.Tactic.Linarith
import Reeva.Codec.Json
import Reeva.Codec.Text

/-!
# JSON numbers as JavaScript sees them

JavaScript reads a number literal as the double nearest to it. `Js.number?` gives that double, as a
rational number.
-/

namespace Js

/-- The nearest integer, the even one of two. -/
def roundHalfEven (q : ℚ) : ℤ :=
  let r := q - ⌊q⌋
  if r < 1 / 2 then ⌊q⌋
  else if 1 / 2 < r then ⌊q⌋ + 1
  else if ⌊q⌋ % 2 = 0 then ⌊q⌋
  else ⌊q⌋ + 1

/-- The nearest double, when it is finite. -/
def toDouble (q : ℚ) : Option ℚ :=
  if q = 0 then some 0
  else
    let exponent := max (Int.log 2 |q| - 52) (-1074)
    let double := roundHalfEven (q / 2 ^ exponent) * (2 : ℚ) ^ exponent
    if |double| < 2 ^ 1024 then some double else none

/-- `Number.isSafeInteger`, for an integer. -/
def isSafeInteger (n : ℤ) : Bool := -9007199254740991 ≤ n && n ≤ 9007199254740991

/-- An integer is the nearest one. -/
theorem roundHalfEven_intCast (n : ℤ) : roundHalfEven n = n := by
  simp [roundHalfEven]

/-- Rounding does not go below the integer part. -/
theorem floor_le_roundHalfEven (q : ℚ) : ⌊q⌋ ≤ roundHalfEven q := by
  simp only [roundHalfEven]
  split_ifs <;> omega

/-- Rounding goes up by less than one. -/
theorem roundHalfEven_le (q : ℚ) : roundHalfEven q ≤ ⌊q⌋ + 1 := by
  simp only [roundHalfEven]
  split_ifs <;> omega

/-- The leading bit of a number below a power of two. -/
theorem log_lt {q : ℚ} (hq : 0 < q) {k : ℤ} (h : q < (2 : ℚ) ^ k) : Int.log 2 q < k :=
  (Int.lt_zpow_iff_log_lt (by norm_num) hq).mp (by exact_mod_cast h)

/-- A safe integer is a double. -/
theorem toDouble_intCast {n : ℤ} (h : isSafeInteger n = true) : toDouble n = some (n : ℚ) := by
  simp only [isSafeInteger, Bool.and_eq_true, decide_eq_true_eq] at h
  by_cases h0 : (n : ℚ) = 0
  · simp [toDouble, h0]
  · have habs : |(n : ℚ)| < 2 ^ (53 : ℤ) := by
      rw [← Int.cast_abs]
      have : |n| < 2 ^ 53 := abs_lt.mpr (by omega)
      exact_mod_cast this
    have hlog := log_lt (abs_pos.mpr h0) habs
    obtain ⟨k, hk⟩ : ∃ k : ℕ, max (Int.log 2 |(n : ℚ)| - 52) (-1074) = -(k : ℤ) :=
      ⟨(-max (Int.log 2 |(n : ℚ)| - 52) (-1074)).toNat, by omega⟩
    have hscaled : (n : ℚ) / 2 ^ (-(k : ℤ)) = ((n * 2 ^ k : ℤ) : ℚ) := by
      simp [zpow_neg]
    have hback : ((n * 2 ^ k : ℤ) : ℚ) * 2 ^ (-(k : ℤ)) = n := by
      rw [← hscaled, div_mul_cancel₀]
      exact (zpow_pos (by norm_num) _).ne'
    simp only [toDouble, h0, if_false, hk, hscaled, roundHalfEven_intCast, hback]
    refine if_pos (habs.trans ?_)
    rw [zpow_ofNat]
    exact pow_lt_pow_right₀ (by norm_num) (by norm_num)

/-- `n++`, for a counter that began at a whole number below `2 ^ 53`: there it gets stuck. -/
def increment (n : ℕ) : ℕ := if n < 9007199254740992 then n + 1 else n

/-- The counter is a double. -/
theorem toDouble_increment {n : ℕ} (h : n ≤ 9007199254740992) :
    toDouble ((n : ℚ) + 1) = some (increment n : ℚ) := by
  by_cases hsafe : n + 1 < 9007199254740992
  · have hint := toDouble_intCast (n := ((n + 1 : ℕ) : ℤ)) (by
      simp only [isSafeInteger, Bool.and_eq_true, decide_eq_true_eq]
      omega)
    rw [increment, if_pos (by omega)]
    exact_mod_cast hint
  · obtain rfl | rfl : n = 9007199254740991 ∨ n = 9007199254740992 := by omega
    · decide +kernel
    · decide +kernel

/-- A number that is not below `2 ^ 53`, and below `2 ^ 55`, is read as one that is not below
`2 ^ 53`. -/
theorem le_toDouble {q : ℚ} (h : 2 ^ 53 ≤ q) (h' : q < 2 ^ 55) :
    ∃ d, toDouble q = some d ∧ 2 ^ 53 ≤ d := by
  have hq : 0 < q := by linarith
  have hlo : 53 ≤ Int.log 2 q := by
    refine (Int.zpow_le_iff_le_log (by norm_num) hq).mp ?_
    exact_mod_cast h
  have hhi : Int.log 2 q < 55 := log_lt hq (by exact_mod_cast h')
  obtain ⟨k, hk, hk1, hk2⟩ : ∃ k : ℕ, max (Int.log 2 |q| - 52) (-1074) = (k : ℤ) ∧ 1 ≤ k ∧ k ≤ 2 := by
    rw [abs_of_pos hq]
    exact ⟨(Int.log 2 q - 52).toNat, by omega, by omega, by omega⟩
  have hpow : (1 : ℚ) ≤ 2 ^ k ∧ (2 : ℚ) ^ k ≤ 4 :=
    ⟨one_le_pow₀ (by norm_num), (pow_le_pow_right₀ (by norm_num) hk2).trans (by norm_num)⟩
  have hfloor : (2 : ℤ) ^ (53 - k) ≤ ⌊q / 2 ^ k⌋ := by
    rw [Int.le_floor, le_div_iff₀ (by positivity)]
    push_cast
    rw [← pow_add, Nat.sub_add_cancel (by omega)]
    exact h
  have hle : (⌊q / 2 ^ k⌋ : ℚ) ≤ q / 2 ^ k := Int.floor_le _
  have hround : ((2 : ℤ) ^ (53 - k) : ℚ) ≤ roundHalfEven (q / 2 ^ k) := by
    exact_mod_cast hfloor.trans (floor_le_roundHalfEven _)
  have hround' : (roundHalfEven (q / 2 ^ k) : ℚ) ≤ q / 2 ^ k + 1 := by
    have : (roundHalfEven (q / 2 ^ k) : ℚ) ≤ ⌊q / 2 ^ k⌋ + 1 := by
      exact_mod_cast roundHalfEven_le _
    linarith
  have hd : (2 : ℚ) ^ 53 ≤ roundHalfEven (q / 2 ^ k) * 2 ^ k := by
    calc (2 : ℚ) ^ 53 = 2 ^ (53 - k) * 2 ^ k := by rw [← pow_add, Nat.sub_add_cancel (by omega)]
      _ ≤ _ := by
        refine mul_le_mul_of_nonneg_right ?_ (by positivity)
        exact_mod_cast hround
  have hd' : roundHalfEven (q / 2 ^ k) * (2 : ℚ) ^ k ≤ q + 4 := by
    calc roundHalfEven (q / 2 ^ k) * (2 : ℚ) ^ k ≤ (q / 2 ^ k + 1) * 2 ^ k :=
          mul_le_mul_of_nonneg_right hround' (by positivity)
      _ = q + 2 ^ k := by rw [add_mul, div_mul_cancel₀ _ (by positivity), one_mul]
      _ ≤ q + 4 := by linarith
  refine ⟨_, ?_, hd⟩
  simp only [toDouble, hq.ne', if_false, hk, zpow_natCast]
  refine if_pos ?_
  rw [abs_of_nonneg (le_trans (by norm_num) hd)]
  calc roundHalfEven (q / 2 ^ k) * (2 : ℚ) ^ k ≤ 2 ^ 55 + 4 := by linarith
    _ < 2 ^ 56 := by norm_num
    _ < 2 ^ 1024 := pow_lt_pow_right₀ (by norm_num) (by norm_num)

/-- The finite double that a JSON number is read as. -/
def number? : Json → Option ℚ
  | .int n => toDouble n
  | .float m e => toDouble (m * 10 ^ e)
  | _ => none

/-- The integer that a JSON number is read as; `Number.isInteger` holds when there is one. -/
def integer? (j : Json) : Option ℤ :=
  (number? j).bind fun q => if q.den = 1 then some q.num else none

/-- A safe integer is read as itself. -/
theorem integer?_int {n : ℤ} (h : isSafeInteger n = true) : integer? (.int n) = some n := by
  have hn : number? (.int n) = some (n : ℚ) := toDouble_intCast h
  rw [integer?, hn, Option.bind_some, if_pos (Rat.den_intCast n), Rat.num_intCast]

/-- JavaScript's truthiness. -/
def truthy : Json → Bool
  | .null => false
  | .bool b => b
  | .str s => s ≠ ""
  | .arr _ | .obj _ => true
  | j => number? j ≠ some 0

/-- `Number.parseInt(s)`, where `none` is `NaN`: an optional sign, an optional hexadecimal prefix and as
many digits as follow. -/
def parseInt (s : String) : Option ℤ :=
  let (neg, cs) := Json.sign (s.toList.dropWhile isSpace)
  let (base, cs) := match cs with
    | '0' :: 'x' :: cs => (16, cs)
    | '0' :: 'X' :: cs => (16, cs)
    | cs => (10, cs)
  match (cs.takeWhile fun c => (Json.hexValue c).any (· < base)).filterMap Json.hexValue with
  | [] => none
  | ds => some (Json.signed neg (ds.foldl (fun n d => n * base + d) 0))

/-- `q.toFixed(digits)` for a number that is not negative. -/
def toFixed (digits : ℕ) (q : ℚ) : String :=
  let n := ⌊q * 10 ^ digits + 1 / 2⌋.toNat
  let fraction := toString (n % 10 ^ digits)
  toString (n / 10 ^ digits) ++ "." ++
    String.ofList (List.replicate (digits - fraction.length) '0') ++ fraction

mutual

/-- `String(value)`. A number that is no integer of usual size is left as its literal. -/
def text : Json → String
  | .null => "null"
  | .bool b => if b then "true" else "false"
  | .str s => s
  | .arr xs => elementTexts xs
  | .obj _ => "[object Object]"
  | .int n => if n.natAbs < 10 ^ 21 then toString ((toDouble n).getD n).num else (Json.int n).stringify
  | .float m e =>
    match integer? (.float m e) with
    | some n => if n.natAbs < 10 ^ 21 then toString n else (Json.float m e).stringify
    | none => (Json.float m e).stringify

/-- The texts of an array's elements, joined by commas; `null` has none. -/
def elementTexts : List Json → String
  | [] => ""
  | [.null] => ""
  | [x] => text x
  | .null :: xs => "," ++ elementTexts xs
  | x :: xs => text x ++ "," ++ elementTexts xs

end

/-! ## `Number(value)` -/

/-- The decimal literal of a whole text: digits, with an optional point among them or at one of their
ends, and an optional exponent. -/
def decimal (cs : List Char) : Option ℚ := do
  let (whole, cs) := Json.digits cs
  let (fraction, cs) := match cs with
    | '.' :: cs => Json.digits cs
    | cs => ([], cs)
  if whole = [] ∧ fraction = [] then none
  let (exponent, rest) ← Json.parseExponent cs
  if rest ≠ [] then none
  toDouble ((Nat.ofDigitChars 10 (whole ++ fraction) 0 : ℚ) *
    10 ^ (exponent.getD 0 - fraction.length))

/-- The digits of a whole text to a base. -/
def inBase (base : ℕ) (cs : List Char) : Option ℚ :=
  if cs ≠ [] ∧ cs.all fun c => (Json.hexValue c).any (· < base) then
    toDouble (((cs.filterMap Json.hexValue).foldl (fun n d => n * base + d) 0 : ℕ) : ℚ)
  else none

/-- `Number(s)` where it is finite: `none` is `NaN`, or an infinity. -/
def numberOfText (s : String) : Option ℚ :=
  match (trim s).toList with
  | [] => some 0
  | '0' :: 'x' :: cs | '0' :: 'X' :: cs => inBase 16 cs
  | '0' :: 'o' :: cs | '0' :: 'O' :: cs => inBase 8 cs
  | '0' :: 'b' :: cs | '0' :: 'B' :: cs => inBase 2 cs
  | '-' :: cs => (decimal cs).map fun q => -q
  | '+' :: cs => decimal cs
  | cs => decimal cs

/-- `Number(value)` where it is finite. -/
def toNumber : Json → Option ℚ
  | .null => some 0
  | .bool b => some (if b then 1 else 0)
  | .str s => numberOfText s
  | .arr xs => numberOfText (elementTexts xs)
  | .obj _ => none
  | j => number? j

/-- The number of a string. -/
theorem toNumber_str (s : String) : toNumber (.str s) = numberOfText s := rfl

end Js
