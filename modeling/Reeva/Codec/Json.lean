import Mathlib.Data.Int.Notation
import Mathlib.Data.Nat.Notation

/-!
# JSON

JSON values, the text that JavaScript's `JSON.stringify` writes for them, a parser of JSON texts, and
the form in which PostgreSQL's `jsonb` keeps a value. An object is the list of its members in the
order in which they were written, so that a reader may still refuse a member that is given twice. A
number literal without fraction and exponent is an `int`; any other is a `float`, kept as mantissa and
exponent of ten. Texts are lists of characters.
-/

/-- A JSON value. -/
inductive Json
  | null
  | bool (b : Bool)
  | int (n : ℤ)
  | float (mantissa exponent : ℤ)
  | str (s : String)
  | arr (xs : List Json)
  | obj (fields : List (String × Json))
  deriving Repr

namespace Json

mutual

/-- Equality of values is decidable. -/
def decEq : (a b : Json) → Decidable (a = b)
  | null, null => isTrue rfl
  | bool a, bool b => decidable_of_iff (a = b) (by simp)
  | int a, int b => decidable_of_iff (a = b) (by simp)
  | float a b, float c d => decidable_of_iff (a = c ∧ b = d) (by simp)
  | str a, str b => decidable_of_iff (a = b) (by simp)
  | arr a, arr b =>
    match decEqElems a b with
    | isTrue h => isTrue (by rw [h])
    | isFalse h => isFalse (by simpa using h)
  | obj a, obj b =>
    match decEqFields a b with
    | isTrue h => isTrue (by rw [h])
    | isFalse h => isFalse (by simpa using h)
  | null, bool _ | null, int _ | null, float _ _ | null, str _ | null, arr _ | null, obj _
  | bool _, null | bool _, int _ | bool _, float _ _ | bool _, str _ | bool _, arr _
  | bool _, obj _ | int _, null | int _, bool _ | int _, float _ _ | int _, str _ | int _, arr _
  | int _, obj _ | float _ _, null | float _ _, bool _ | float _ _, int _ | float _ _, str _
  | float _ _, arr _ | float _ _, obj _ | str _, null | str _, bool _ | str _, int _
  | str _, float _ _ | str _, arr _ | str _, obj _ | arr _, null | arr _, bool _ | arr _, int _
  | arr _, float _ _ | arr _, str _ | arr _, obj _ | obj _, null | obj _, bool _ | obj _, int _
  | obj _, float _ _ | obj _, str _ | obj _, arr _ => isFalse (by simp)

/-- Equality of an array's elements is decidable. -/
def decEqElems : (a b : List Json) → Decidable (a = b)
  | [], [] => isTrue rfl
  | [], _ :: _ | _ :: _, [] => isFalse (by simp)
  | x :: xs, y :: ys =>
    match decEq x y, decEqElems xs ys with
    | isTrue h, isTrue h' => isTrue (by rw [h, h'])
    | isFalse h, _ => isFalse (by simp [h])
    | _, isFalse h => isFalse (by simp [h])

/-- Equality of an object's members is decidable. -/
def decEqFields : (a b : List (String × Json)) → Decidable (a = b)
  | [], [] => isTrue rfl
  | [], _ :: _ | _ :: _, [] => isFalse (by simp)
  | (k, x) :: xs, (l, y) :: ys =>
    match decEq x y, decEqFields xs ys with
    | isTrue h, isTrue h' => decidable_of_iff (k = l) (by simp [h, h'])
    | isFalse h, _ => isFalse (by simp [h])
    | _, isFalse h => isFalse (by simp [h])

end

instance : DecidableEq Json := decEq

/-- The member of an object under a key; of several, the last one counts. -/
def get? : Json → String → Option Json
  | obj fields, k => fields.reverse.lookup k
  | _, _ => none

/-! ## Texts -/

/-- The text of an integer. -/
def printInt (n : ℤ) : List Char :=
  if n < 0 then '-' :: Nat.toDigits 10 n.natAbs else Nat.toDigits 10 n.natAbs

/-- A character inside a string literal: the quotation mark, the backslash, and the control
characters are escaped. -/
def escape (c : Char) : List Char :=
  if c = '"' then ['\\', '"']
  else if c = '\\' then ['\\', '\\']
  else if c = '\n' then ['\\', 'n']
  else if c = '\r' then ['\\', 'r']
  else if c = '\t' then ['\\', 't']
  else if c.toNat = 8 then ['\\', 'b']
  else if c.toNat = 12 then ['\\', 'f']
  else if c.toNat < 32 then
    ['\\', 'u', '0', '0', Nat.digitChar (c.toNat / 16), Nat.digitChar (c.toNat % 16)]
  else [c]

/-- A string literal. -/
def printStr (s : String) : List Char := '"' :: (s.toList.flatMap escape ++ ['"'])

mutual

/-- The text of a value, without white space. -/
def print : Json → List Char
  | null => ['n', 'u', 'l', 'l']
  | bool true => ['t', 'r', 'u', 'e']
  | bool false => ['f', 'a', 'l', 's', 'e']
  | int n => printInt n
  | float m e => printInt m ++ 'e' :: printInt e
  | str s => printStr s
  | arr [] => ['[', ']']
  | arr (x :: xs) => '[' :: (print x ++ printElems xs)
  | obj [] => ['{', '}']
  | obj ((k, v) :: fields) => '{' :: (printStr k ++ ':' :: (print v ++ printFields fields))

/-- The text of an array from behind one of its elements on. -/
def printElems : List Json → List Char
  | [] => [']']
  | x :: xs => ',' :: (print x ++ printElems xs)

/-- The text of an object from behind one of its members on. -/
def printFields : List (String × Json) → List Char
  | [] => ['}']
  | (k, v) :: fields => ',' :: (printStr k ++ ':' :: (print v ++ printFields fields))

end

/-- `JSON.stringify`. -/
def stringify (j : Json) : String := String.ofList j.print

/-! ## The parser -/

/-- Skips white space. -/
def skipSpace : List Char → List Char
  | c :: cs => if c = ' ' ∨ c = '\n' ∨ c = '\r' ∨ c = '\t' then skipSpace cs else c :: cs
  | [] => []

/-- The value of a hexadecimal digit. -/
def hexValue (c : Char) : Option ℕ :=
  if c.isDigit then some (c.toNat - 48)
  else if 'a' ≤ c ∧ c ≤ 'f' then some (c.toNat - 87)
  else if 'A' ≤ c ∧ c ≤ 'F' then some (c.toNat - 55)
  else none

/-- The number of four hexadecimal digits. -/
def hex4 (a b c d : Char) : Option ℕ := do
  return (((← hexValue a) * 16 + (← hexValue b)) * 16 + (← hexValue c)) * 16 + (← hexValue d)

/-- The rest of a string literal behind its opening quotation mark, as a list of characters and of
the UTF-16 units that `\u` escapes give. -/
def parseUnits : List Char → Option (List (Char ⊕ ℕ) × List Char)
  | [] => none
  | '"' :: cs => some ([], cs)
  | '\\' :: 'u' :: a :: b :: c :: d :: cs => do
    let n ← hex4 a b c d
    let (us, rest) ← parseUnits cs
    return (.inr n :: us, rest)
  | '\\' :: e :: cs => do
    let c ← match e with
      | '"' => some '"'
      | '\\' => some '\\'
      | '/' => some '/'
      | 'b' => some (Char.ofNat 8)
      | 'f' => some (Char.ofNat 12)
      | 'n' => some '\n'
      | 'r' => some '\r'
      | 't' => some '\t'
      | _ => none
    let (us, rest) ← parseUnits cs
    return (.inl c :: us, rest)
  | c :: cs =>
    if c = '\\' ∨ c.toNat < 32 then none
    else (parseUnits cs).map fun p => (.inl c :: p.1, p.2)

/-- Joins surrogate pairs; a surrogate without its partner stands for no character. -/
def assemble : List (Char ⊕ ℕ) → Option (List Char)
  | [] => some []
  | .inl c :: us => (assemble us).map (c :: ·)
  | .inr n :: us =>
    if n < 0xD800 ∨ 0xE000 ≤ n then (assemble us).map (Char.ofNat n :: ·)
    else
      match us with
      | .inr m :: us' =>
        if n < 0xDC00 ∧ 0xDC00 ≤ m ∧ m < 0xE000 then
          (assemble us').map (Char.ofNat (0x10000 + (n - 0xD800) * 0x400 + (m - 0xDC00)) :: ·)
        else none
      | _ => none

/-- The rest of a string literal behind its opening quotation mark. -/
def parseStr (cs : List Char) : Option (String × List Char) := do
  let (us, rest) ← parseUnits cs
  let chars ← assemble us
  return (String.ofList chars, rest)

/-- The digits at the start of a text. -/
def digits : List Char → List Char × List Char
  | c :: cs => if c.isDigit then (c :: (digits cs).1, (digits cs).2) else ([], c :: cs)
  | [] => ([], [])

/-- A minus sign, when there is one, and the rest. -/
def minus : List Char → Bool × List Char
  | '-' :: cs => (true, cs)
  | cs => (false, cs)

/-- The sign of an exponent, when there is one: whether it is a minus, and the rest. -/
def sign : List Char → Bool × List Char
  | '-' :: cs => (true, cs)
  | '+' :: cs => (false, cs)
  | cs => (false, cs)

/-- A number with its sign. -/
def signed (neg : Bool) (n : ℕ) : ℤ := if neg then -n else n

/-- The digits behind a decimal point, when there is one; a point needs a digit behind it. -/
def parseFraction : List Char → Option (List Char × List Char)
  | '.' :: cs => if (digits cs).1 = [] then none else some (digits cs)
  | cs => some ([], cs)

/-- The exponent, when there is one; it needs a digit. -/
def parseExponent : List Char → Option (Option ℤ × List Char)
  | c :: cs =>
    if c = 'e' ∨ c = 'E' then
      let (neg, cs) := sign cs
      if (digits cs).1 = [] then none
      else some (some (signed neg (Nat.ofDigitChars 10 (digits cs).1 0)), (digits cs).2)
    else some (none, c :: cs)
  | [] => some (none, [])

/-- A number literal. Leading zeros are refused, and `-0` is a `float`, as it has no integer value of
its own. -/
def parseNumber (cs : List Char) : Option (Json × List Char) := do
  let (neg, cs) := minus cs
  let (whole, cs) := digits cs
  if whole = [] ∨ (1 < whole.length ∧ whole.head? = some '0') then none
  let (frac, cs) ← parseFraction cs
  let (exp, cs) ← parseExponent cs
  let mantissa := Nat.ofDigitChars 10 (whole ++ frac) 0
  if frac = [] ∧ exp = none ∧ ¬(neg ∧ mantissa = 0) then
    return (int (signed neg mantissa), cs)
  else
    return (float (signed neg mantissa) (exp.getD 0 - frac.length), cs)

mutual

/-- A value at the start of a text. The first argument bounds the depth of the recursion. -/
def parseValue : ℕ → List Char → Option (Json × List Char)
  | 0, _ => none
  | n + 1, cs =>
    match skipSpace cs with
    | 'n' :: 'u' :: 'l' :: 'l' :: cs => some (null, cs)
    | 't' :: 'r' :: 'u' :: 'e' :: cs => some (bool true, cs)
    | 'f' :: 'a' :: 'l' :: 's' :: 'e' :: cs => some (bool false, cs)
    | '"' :: cs => (parseStr cs).map fun p => (str p.1, p.2)
    | '[' :: cs =>
      match skipSpace cs with
      | ']' :: cs => some (arr [], cs)
      | cs => (parseElems n cs).map fun p => (arr p.1, p.2)
    | '{' :: cs =>
      match skipSpace cs with
      | '}' :: cs => some (obj [], cs)
      | cs => (parseFields n cs).map fun p => (obj p.1, p.2)
    | cs => parseNumber cs

/-- The elements of an array up to its closing bracket. -/
def parseElems : ℕ → List Char → Option (List Json × List Char)
  | 0, _ => none
  | n + 1, cs => do
    let (x, cs) ← parseValue n cs
    match skipSpace cs with
    | ']' :: cs => return ([x], cs)
    | ',' :: cs => (parseElems n cs).map fun p => (x :: p.1, p.2)
    | _ => none

/-- The members of an object up to its closing brace. -/
def parseFields : ℕ → List Char → Option (List (String × Json) × List Char)
  | 0, _ => none
  | n + 1, cs =>
    match skipSpace cs with
    | '"' :: cs => do
      let (k, cs) ← parseStr cs
      match skipSpace cs with
      | ':' :: cs =>
        let (v, cs) ← parseValue n cs
        match skipSpace cs with
        | '}' :: cs => return ([(k, v)], cs)
        | ',' :: cs => (parseFields n cs).map fun p => ((k, v) :: p.1, p.2)
        | _ => none
      | _ => none
    | _ => none

end

/-- The value of a JSON text. Two levels of recursion per character are more than any text needs. -/
def parse (s : String) : Option Json := do
  let (j, rest) ← parseValue (2 * s.toList.length + 1) s.toList
  if skipSpace rest = [] then some j else none

/-! ## `jsonb` -/

/-- Puts a member in front of the members with a larger key; an equal key is there already and is
kept. -/
def insertField (k : String) (v : Json) : List (String × Json) → List (String × Json)
  | [] => [(k, v)]
  | (l, w) :: fields =>
    if k < l then (k, v) :: (l, w) :: fields
    else if k = l then (l, w) :: fields
    else (l, w) :: insertField k v fields

mutual

/-- The form in which PostgreSQL keeps a value: members in the order of their keys, of several
members with one key the last. Equality of such forms is the equality of values as sets of
members. -/
def jsonb : Json → Json
  | arr xs => arr (jsonbElems xs)
  | obj fields => obj (jsonbFields fields)
  | j => j

/-- The elements of an array. -/
def jsonbElems : List Json → List Json
  | [] => []
  | x :: xs => jsonb x :: jsonbElems xs

/-- The members of an object. -/
def jsonbFields : List (String × Json) → List (String × Json)
  | [] => []
  | (k, v) :: fields => insertField k (jsonb v) (jsonbFields fields)

end

end Json
