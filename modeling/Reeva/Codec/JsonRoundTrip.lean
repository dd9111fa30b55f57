import Reeva.Codec.Json
import Mathlib.Data.List.Basic
import Mathlib.Data.String.Basic

/-!
# The parser reads back what `stringify` writes

`parse_stringify` is the round trip of `Json.lean`: every value is read back from its own text, so
`stringify` is injective. The proof goes bottom up: digits, integers, string literals character by
character, and then values, where the recursion's bound is measured by `depth`, which the length of
the text covers twice over. `jsonb` comes last: an object's `jsonb` form has the members that the
object has (`get?_jsonb`).
-/

namespace Json

/-! ## Numbers -/

/-- The rest of a text does not continue a number. -/
def Stops (rest : List Char) : Prop :=
  ∀ c, rest.head? = some c → c.isDigit = false ∧ c ≠ '.' ∧ c ≠ 'e' ∧ c ≠ 'E'

/-- A character that is no part of a number stops it. -/
theorem stops_cons {c : Char} (rest : List Char)
    (h : c.isDigit = false ∧ c ≠ '.' ∧ c ≠ 'e' ∧ c ≠ 'E') : Stops (c :: rest) := by
  intro d hd
  cases hd
  exact h

/-- The end of the text stops a number. -/
theorem stops_nil : Stops [] := by
  intro c hc
  cases hc

/-- The digits in front of something else are all of a text's digits. -/
theorem digits_append {ds t : List Char} (hd : ∀ c ∈ ds, c.isDigit = true)
    (hr : ∀ c, t.head? = some c → c.isDigit = false) : digits (ds ++ t) = (ds, t) := by
  induction ds with
  | nil =>
    cases t with
    | nil => rfl
    | cons c cs => simp [digits, hr c rfl]
  | cons d ds ih =>
    have hds := ih fun c hc => hd c (by simp [hc])
    simp only [List.cons_append, digits, hd d (by simp), if_true, hds]

/-- The decimal digits of a number are digits. -/
theorem toDigits_isDigit (n : ℕ) : ∀ c ∈ Nat.toDigits 10 n, c.isDigit = true := fun _ hc =>
  Nat.isDigit_of_mem_toDigits (by decide) (by decide) hc

/-- Only zero starts with the digit zero. -/
theorem toDigits_head_ne_zero {n : ℕ} (h : 0 < n) : (Nat.toDigits 10 n).head? ≠ some '0' := by
  induction n using Nat.strongRecOn with
  | ind n ih =>
    rw [Nat.toDigits_eq_if (by decide)]
    split
    · rename_i hlt
      have key : ∀ m < 10, 0 < m → [Nat.digitChar m].head? ≠ some '0' := by decide
      exact key n hlt h
    · have hn : 0 < n / 10 := by omega
      rw [List.head?_append_of_ne_nil _ Nat.toDigits_ne_nil]
      exact ih (n / 10) (by omega) hn

/-- The digits of a number pass the parser's check of leading zeros. -/
theorem toDigits_leading (n : ℕ) : ¬(Nat.toDigits 10 n = [] ∨
    (1 < (Nat.toDigits 10 n).length ∧ (Nat.toDigits 10 n).head? = some '0')) := by
  rintro (h | ⟨hl, hh⟩)
  · exact Nat.toDigits_ne_nil h
  · rcases Nat.eq_zero_or_pos n with rfl | hn
    · simp [Nat.toDigits_zero] at hl
    · exact toDigits_head_ne_zero hn hh

/-- The text of an integer is its sign and its digits. -/
theorem printInt_eq (n : ℤ) :
    printInt n = (if n < 0 then ['-'] else []) ++ Nat.toDigits 10 n.natAbs := by
  unfold printInt
  split <;> rfl

/-- The sign and the magnitude of an integer give it back. -/
theorem signed_natAbs (n : ℤ) : signed (decide (n < 0)) n.natAbs = n := by
  unfold signed
  split
  · rename_i h
    simp only [decide_eq_true_eq] at h
    omega
  · rename_i h
    simp only [decide_eq_true_eq] at h
    omega

/-- The first digit of a number. -/
theorem toDigits_cons (n : ℕ) : ∃ d ds, Nat.toDigits 10 n = d :: ds ∧ d.isDigit = true := by
  cases h : Nat.toDigits 10 n with
  | nil => exact absurd h Nat.toDigits_ne_nil
  | cons d ds => exact ⟨d, ds, rfl, toDigits_isDigit n d (by rw [h]; simp)⟩

/-- A digit is not a sign. -/
theorem digit_ne_sign {d : Char} (h : d.isDigit = true) : d ≠ '-' ∧ d ≠ '+' := by
  constructor <;> (rintro rfl; revert h; decide)

/-- The start of a number literal: the parser's view of the sign. -/
theorem minus_printInt (n : ℤ) (rest : List Char) :
    minus (printInt n ++ rest) = (decide (n < 0), Nat.toDigits 10 n.natAbs ++ rest) := by
  obtain ⟨d, ds, hd, hdig⟩ := toDigits_cons n.natAbs
  rw [printInt_eq]
  by_cases hn : n < 0
  · simp [hn, minus]
  · simp only [hn, if_false, List.nil_append, hd, List.cons_append, decide_false]
    unfold minus
    split
    · rename_i h
      exact absurd (List.cons.inj h).1 (digit_ne_sign hdig).1
    · rfl

/-- The sign of an exponent. -/
theorem sign_printInt (n : ℤ) (rest : List Char) :
    sign (printInt n ++ rest) = (decide (n < 0), Nat.toDigits 10 n.natAbs ++ rest) := by
  obtain ⟨d, ds, hd, hdig⟩ := toDigits_cons n.natAbs
  rw [printInt_eq]
  by_cases hn : n < 0
  · simp [hn, sign]
  · simp only [hn, if_false, List.nil_append, hd, List.cons_append, decide_false]
    unfold sign
    split
    · rename_i h
      exact absurd (List.cons.inj h).1 (digit_ne_sign hdig).1
    · rename_i h
      exact absurd (List.cons.inj h).1 (digit_ne_sign hdig).2
    · rfl

/-- A text that stops a number has no fraction. -/
theorem parseFraction_stops {rest : List Char} (h : Stops rest) :
    parseFraction rest = some ([], rest) := by
  cases rest with
  | nil => rfl
  | cons c cs =>
    unfold parseFraction
    split
    · rename_i he
      exact absurd (List.cons.inj he).1 (h c rfl).2.1
    · rfl

/-- A text that stops a number has no exponent. -/
theorem parseExponent_stops {rest : List Char} (h : Stops rest) :
    parseExponent rest = some (none, rest) := by
  cases rest with
  | nil => rfl
  | cons c cs => simp [parseExponent, (h c rfl).2.2]

/-- The exponent of a `float`'s text. -/
theorem parseExponent_print (e : ℤ) {rest : List Char} (h : Stops rest) :
    parseExponent ('e' :: (printInt e ++ rest)) = some (some e, rest) := by
  have hd := digits_append (t := rest) (toDigits_isDigit e.natAbs) fun c hc => (h c hc).1
  simp only [parseExponent, sign_printInt, hd, Nat.toDigits_ne_nil, true_or, if_true, if_false,
    Nat.ofDigitChars_ten_toDigits, signed_natAbs]

/-- An integer is read back from its text. -/
theorem parseNumber_int (n : ℤ) {rest : List Char} (h : Stops rest) :
    parseNumber (printInt n ++ rest) = some (int n, rest) := by
  have hd := digits_append (t := rest) (toDigits_isDigit n.natAbs) fun c hc => (h c hc).1
  have hz : ¬(n < 0 ∧ n.natAbs = 0) := by omega
  unfold parseNumber
  simp only [minus_printInt, hd, toDigits_leading, if_false, Option.bind_eq_bind,
    parseFraction_stops h, Option.bind_some, parseExponent_stops h, List.append_nil,
    Nat.ofDigitChars_ten_toDigits, decide_eq_true_eq]
  rw [if_pos ⟨trivial, trivial, hz⟩, signed_natAbs]
  rfl

/-- A `float` is read back from its text. -/
theorem parseNumber_float (m e : ℤ) {rest : List Char} (h : Stops rest) :
    parseNumber (printInt m ++ 'e' :: (printInt e ++ rest)) = some (float m e, rest) := by
  have hd := digits_append (t := 'e' :: (printInt e ++ rest)) (toDigits_isDigit m.natAbs)
    fun c hc => by cases hc; decide
  have hf : parseFraction ('e' :: (printInt e ++ rest)) = some ([], 'e' :: (printInt e ++ rest)) :=
    rfl
  unfold parseNumber
  simp only [minus_printInt, hd, toDigits_leading, if_false, Option.bind_eq_bind, hf,
    Option.bind_some, parseExponent_print e h, List.append_nil, Nat.ofDigitChars_ten_toDigits]
  simp [signed_natAbs]

/-! ## String literals -/

/-- What the parser sees of an escaped character. -/
def unitOf (c : Char) : Char ⊕ ℕ :=
  if c.toNat < 32 ∧ c.toNat ≠ 8 ∧ c.toNat ≠ 9 ∧ c.toNat ≠ 10 ∧ c.toNat ≠ 12 ∧ c.toNat ≠ 13 then
    .inr c.toNat
  else .inl c

/-- The escape of a control character is read back as its number. -/
theorem hex4_digitChar {n : ℕ} (h : n < 32) :
    hex4 '0' '0' (Nat.digitChar (n / 16)) (Nat.digitChar (n % 16)) = some n := by
  have key : ∀ n < 32,
      hex4 '0' '0' (Nat.digitChar (n / 16)) (Nat.digitChar (n % 16)) = some n := by decide
  exact key n h

/-- A character with a given number is the character of that number. -/
theorem eq_ofNat {c : Char} {n : ℕ} (h : c.toNat = n) : c = Char.ofNat n := by
  rw [← h, Char.ofNat_toNat]

/-- The short escapes, with the characters that they stand for. -/
def shortEscapes : List (Char × Char) :=
  [('"', '"'), ('\\', '\\'), ('n', '\n'), ('r', '\r'), ('t', '\t'), ('b', Char.ofNat 8),
    ('f', Char.ofNat 12)]

/-- A short escape is read back as its character. -/
theorem parseUnits_short {e c : Char} (h : (e, c) ∈ shortEscapes) (rest : List Char) :
    parseUnits ('\\' :: e :: rest) = (parseUnits rest).map fun p => (unitOf c :: p.1, p.2) := by
  simp only [shortEscapes, List.mem_cons, Prod.mk.injEq, List.not_mem_nil, or_false] at h
  rcases h with ⟨rfl, rfl⟩ | ⟨rfl, rfl⟩ | ⟨rfl, rfl⟩ | ⟨rfl, rfl⟩ | ⟨rfl, rfl⟩ | ⟨rfl, rfl⟩ |
    ⟨rfl, rfl⟩ <;> cases h : parseUnits rest <;> simp [parseUnits, unitOf, h]

/-- What `escape` writes: a short escape, the number of a control character, or the character
itself. -/
theorem escape_cases (c : Char) :
    (∃ e, (e, c) ∈ shortEscapes ∧ escape c = ['\\', e]) ∨
    (c.toNat < 32 ∧ unitOf c = .inr c.toNat ∧
      escape c = ['\\', 'u', '0', '0', Nat.digitChar (c.toNat / 16),
        Nat.digitChar (c.toNat % 16)]) ∨
    (c ≠ '"' ∧ c ≠ '\\' ∧ 32 ≤ c.toNat ∧ escape c = [c]) := by
  by_cases hs : ∃ e, (e, c) ∈ shortEscapes
  · obtain ⟨e, he⟩ := hs
    refine .inl ⟨e, he, ?_⟩
    simp only [shortEscapes, List.mem_cons, Prod.mk.injEq, List.not_mem_nil, or_false] at he
    rcases he with ⟨rfl, rfl⟩ | ⟨rfl, rfl⟩ | ⟨rfl, rfl⟩ | ⟨rfl, rfl⟩ | ⟨rfl, rfl⟩ | ⟨rfl, rfl⟩ |
      ⟨rfl, rfl⟩ <;> rfl
  · -- Without a short escape the character differs from all seven of them.
    simp only [shortEscapes, List.mem_cons, Prod.mk.injEq, List.not_mem_nil, or_false,
      exists_or, exists_eq_left, not_or] at hs
    obtain ⟨hq, hb, hn, hr, ht, h8, h12⟩ := hs
    have h8' : c.toNat ≠ 8 := fun h => h8 (eq_ofNat h)
    have h12' : c.toNat ≠ 12 := fun h => h12 (eq_ofNat h)
    by_cases h32 : c.toNat < 32
    · have h9 : c.toNat ≠ 9 := fun h => ht (eq_ofNat h)
      have h10 : c.toNat ≠ 10 := fun h => hn (eq_ofNat h)
      have h13 : c.toNat ≠ 13 := fun h => hr (eq_ofNat h)
      refine .inr (.inl ⟨h32, by rw [unitOf, if_pos ⟨h32, h8', h9, h10, h12', h13⟩], ?_⟩)
      simp [escape, hq, hb, hn, hr, ht, h8', h12', h32]
    · exact .inr (.inr ⟨hq, hb, by omega, by simp [escape, hq, hb, hn, hr, ht, h8', h12', h32]⟩)

/-- One character of a literal is read back. -/
theorem parseUnits_escape (c : Char) (rest : List Char) :
    parseUnits (escape c ++ rest) = (parseUnits rest).map fun p => (unitOf c :: p.1, p.2) := by
  rcases escape_cases c with ⟨e, he, hc⟩ | ⟨h32, hu, hc⟩ | ⟨hq, hb, h32, hc⟩
  · rw [hc]
    exact parseUnits_short he rest
  · rw [hc]
    cases h : parseUnits rest <;> simp [parseUnits, hex4_digitChar h32, hu, h]
  · have hu : unitOf c = .inl c := by
      rw [unitOf, if_neg]
      omega
    rw [hc, hu, List.cons_append, List.nil_append, parseUnits.eq_def]
    split
    · simp_all
    · rename_i he
      exact absurd (List.cons.inj he).1 hq
    · rename_i he
      exact absurd (List.cons.inj he).1 hb
    · rename_i he
      exact absurd (List.cons.inj he).1 hb
    · rename_i he
      obtain ⟨rfl, rfl⟩ := List.cons.inj he
      have h32' : ¬c.toNat < 32 := by omega
      simp [hb, h32']

/-- A literal's characters are read back up to its closing quotation mark. -/
theorem parseUnits_escapes (cs rest : List Char) :
    parseUnits (cs.flatMap escape ++ '"' :: rest) = some (cs.map unitOf, rest) := by
  induction cs with
  | nil => simp [parseUnits]
  | cons c cs ih => simp [List.append_assoc, parseUnits_escape, ih]

/-- No surrogates are left to join. -/
theorem assemble_unitOf (cs : List Char) : assemble (cs.map unitOf) = some cs := by
  induction cs with
  | nil => rfl
  | cons c cs ih =>
    rw [List.map_cons]
    by_cases hc : c.toNat < 32 ∧ c.toNat ≠ 8 ∧ c.toNat ≠ 9 ∧ c.toNat ≠ 10 ∧ c.toNat ≠ 12 ∧
        c.toNat ≠ 13
    · have hlt : c.toNat < 0xD800 ∨ 0xE000 ≤ c.toNat := by omega
      rw [unitOf, if_pos hc, assemble.eq_def]
      simp only [hlt, if_true, ih, Option.map_some, Char.ofNat_toNat]
    · rw [unitOf, if_neg hc, assemble, ih, Option.map_some]

/-- A string literal is read back. -/
theorem parseStr_printStr (s : String) (rest : List Char) :
    parseStr (s.toList.flatMap escape ++ '"' :: rest) = some (s, rest) := by
  simp [parseStr, parseUnits_escapes, assemble_unitOf]

/-! ## Values -/

/-- White space is only skipped where there is some. -/
theorem skipSpace_cons {c : Char} (cs : List Char)
    (h : ¬(c = ' ' ∨ c = '\n' ∨ c = '\r' ∨ c = '\t')) : skipSpace (c :: cs) = c :: cs := by
  rw [skipSpace, if_neg h]

/-- A character that a value's text may start with. -/
def Starts (c : Char) : Prop :=
  c = 'n' ∨ c = 't' ∨ c = 'f' ∨ c = '"' ∨ c = '[' ∨ c = '{' ∨ c = '-' ∨ c.isDigit = true

/-- A value's text starts with neither white space nor a closing bracket. -/
theorem Starts.ne {c : Char} (h : Starts c) :
    ¬(c = ' ' ∨ c = '\n' ∨ c = '\r' ∨ c = '\t') ∧ c ≠ ']' ∧ c ≠ '}' := by
  refine ⟨?_, ?_, ?_⟩
  · rintro (rfl | rfl | rfl | rfl) <;> revert h <;> unfold Starts <;> decide
  · rintro rfl
    revert h
    unfold Starts
    decide
  · rintro rfl
    revert h
    unfold Starts
    decide

/-- The text of an integer starts with a sign or a digit. -/
theorem printInt_cons (n : ℤ) :
    ∃ c cs, printInt n = c :: cs ∧ (c = '-' ∨ c.isDigit = true) := by
  obtain ⟨d, ds, hd, hdig⟩ := toDigits_cons n.natAbs
  unfold printInt
  split
  · exact ⟨'-', _, rfl, .inl rfl⟩
  · exact ⟨d, ds, hd, .inr hdig⟩

/-- The start of a value's text. -/
theorem print_cons (j : Json) : ∃ c cs, j.print = c :: cs ∧ Starts c := by
  have hnum : ∀ n : ℤ, ∀ l, ∃ c cs, printInt n ++ l = c :: cs ∧ Starts c := by
    intro n l
    obtain ⟨c, cs, hc, hs⟩ := printInt_cons n
    refine ⟨c, cs ++ l, by rw [hc, List.cons_append], ?_⟩
    rcases hs with rfl | hs
    · simp [Starts]
    · simp [Starts, hs]
  match j with
  | null => exact ⟨'n', _, rfl, by simp [Starts]⟩
  | bool true => exact ⟨'t', _, rfl, by simp [Starts]⟩
  | bool false => exact ⟨'f', _, rfl, by simp [Starts]⟩
  | int n => simpa [print] using hnum n []
  | float m e => simpa only [print] using hnum m ('e' :: printInt e)
  | str s => exact ⟨'"', _, by rw [print, printStr], by simp [Starts]⟩
  | arr [] => exact ⟨'[', _, rfl, by simp [Starts]⟩
  | arr (x :: xs) => exact ⟨'[', _, by rw [print], by simp [Starts]⟩
  | obj [] => exact ⟨'{', _, rfl, by simp [Starts]⟩
  | obj ((k, v) :: fields) => exact ⟨'{', _, by rw [print], by simp [Starts]⟩

/-- There is no white space in front of a value's text. -/
theorem skipSpace_print (j : Json) (rest : List Char) :
    skipSpace (j.print ++ rest) = j.print ++ rest := by
  obtain ⟨c, cs, hc, hs⟩ := print_cons j
  rw [hc, List.cons_append, skipSpace_cons _ hs.ne.1]

/-- A text that starts like a number is read as one. -/
theorem parseValue_number {c : Char} (cs : List Char) (n : ℕ) (h : c = '-' ∨ c.isDigit = true) :
    parseValue (n + 1) (c :: cs) = parseNumber (c :: cs) := by
  have hs : Starts c := by
    rcases h with rfl | h
    · simp [Starts]
    · simp [Starts, h]
  rw [parseValue, skipSpace_cons _ hs.ne.1]
  split <;> first | rfl | skip
  all_goals
    rename_i he
    obtain ⟨rfl, -⟩ := List.cons.inj he
    exact absurd h (by decide)

mutual

/-- A bound on the recursion that reads a value's text. -/
def depth : Json → ℕ
  | arr xs => depthElems xs + 1
  | obj fields => depthFields fields + 1
  | _ => 1

/-- A bound on the recursion that reads an array's elements. -/
def depthElems : List Json → ℕ
  | [] => 0
  | x :: xs => max (depth x) (depthElems xs) + 1

/-- A bound on the recursion that reads an object's members. -/
def depthFields : List (String × Json) → ℕ
  | [] => 0
  | (_, v) :: fields => max (depth v) (depthFields fields) + 1

end

/-- What follows an array's or an object's element stops a number. -/
theorem stops_printElems (xs : List Json) (rest : List Char) :
    Stops (printElems xs ++ rest) := by
  cases xs with
  | nil => exact stops_cons _ (by decide)
  | cons x xs =>
    rw [printElems, List.cons_append]
    exact stops_cons _ (by decide)

/-- What follows an object's member stops a number. -/
theorem stops_printFields (fields : List (String × Json)) (rest : List Char) :
    Stops (printFields fields ++ rest) := by
  cases fields with
  | nil => exact stops_cons _ (by decide)
  | cons f fields =>
    obtain ⟨k, v⟩ := f
    rw [printFields, List.cons_append]
    exact stops_cons _ (by decide)

mutual

/-- A value is read back from its text. -/
theorem parseValue_print : ∀ (j : Json) (n : ℕ) (rest : List Char), depth j ≤ n → Stops rest →
    parseValue n (j.print ++ rest) = some (j, rest)
  | null, n + 1, rest, _, _ => by simp [print, parseValue, skipSpace]
  | bool true, n + 1, rest, _, _ => by simp [print, parseValue, skipSpace]
  | bool false, n + 1, rest, _, _ => by simp [print, parseValue, skipSpace]
  | int k, n + 1, rest, _, hr => by
    obtain ⟨c, cs, hc, hs⟩ := printInt_cons k
    rw [print, hc, List.cons_append, parseValue_number _ _ hs, ← List.cons_append, ← hc]
    exact parseNumber_int k hr
  | float m e, n + 1, rest, _, hr => by
    obtain ⟨c, cs, hc, hs⟩ := printInt_cons m
    rw [print, List.append_assoc, hc, List.cons_append, parseValue_number _ _ hs,
      ← List.cons_append, ← hc]
    exact parseNumber_float m e hr
  | str s, n + 1, rest, _, _ => by
    simp [print, printStr, parseValue, skipSpace, List.append_assoc, parseStr_printStr]
  | arr [], n + 1, rest, _, _ => by simp [print, parseValue, skipSpace]
  | arr (x :: xs), n + 1, rest, hd, hr => by
    have hel := parseElems_print x xs n rest (by simpa [depth] using hd)
    obtain ⟨c, cs, hc, hs⟩ := print_cons x
    simp only [print, List.cons_append, List.append_assoc, parseValue]
    rw [skipSpace_cons _ (by decide)]
    simp only [skipSpace_print]
    rw [hc, List.cons_append] at hel ⊢
    split
    · rename_i he
      exact absurd (List.cons.inj he).1 hs.ne.2.1
    · simp [hel]
  | obj [], n + 1, rest, _, _ => by simp [print, parseValue, skipSpace]
  | obj ((k, v) :: fields), n + 1, rest, hd, hr => by
    have hf := parseFields_print k v fields n rest (by simpa [depth] using hd)
    simp only [print, printStr, List.cons_append, List.append_assoc, List.nil_append,
      parseValue] at hf ⊢
    rw [skipSpace_cons _ (by decide)]
    simp only [skipSpace_cons (c := '"') _ (by decide)]
    simp [hf]
  | arr _, 0, _, hd, _ | obj _, 0, _, hd, _ | null, 0, _, hd, _ | bool _, 0, _, hd, _
  | int _, 0, _, hd, _ | float _ _, 0, _, hd, _ | str _, 0, _, hd, _ => by simp [depth] at hd

/-- An array's elements are read back from their text. -/
theorem parseElems_print : ∀ (x : Json) (xs : List Json) (n : ℕ) (rest : List Char),
    depthElems (x :: xs) ≤ n →
    parseElems n (x.print ++ (printElems xs ++ rest)) = some (x :: xs, rest)
  | x, xs, 0, rest, hd => by simp [depthElems] at hd
  | x, [], n + 1, rest, hd => by
    have hx := parseValue_print x n (printElems [] ++ rest)
      (by simp only [depthElems] at hd; omega) (stops_printElems _ _)
    simp only [parseElems, hx]
    simp [printElems, skipSpace]
  | x, y :: ys, n + 1, rest, hd => by
    have hx := parseValue_print x n (printElems (y :: ys) ++ rest)
      (by simp only [depthElems] at hd; omega) (stops_printElems _ _)
    have hys := parseElems_print y ys n rest (by simp only [depthElems] at hd ⊢; omega)
    simp only [parseElems, hx]
    simp [printElems, skipSpace, hys]

/-- An object's members are read back from their text. -/
theorem parseFields_print : ∀ (k : String) (v : Json) (fields : List (String × Json)) (n : ℕ)
    (rest : List Char), depthFields ((k, v) :: fields) ≤ n →
    parseFields n (printStr k ++ ':' :: (v.print ++ (printFields fields ++ rest))) =
      some ((k, v) :: fields, rest)
  | k, v, fields, 0, rest, hd => by simp [depthFields] at hd
  | k, v, [], n + 1, rest, hd => by
    have hv := parseValue_print v n (printFields [] ++ rest)
      (by simp only [depthFields] at hd; omega) (stops_printFields _ _)
    simp only [parseFields, printStr, List.cons_append, List.append_assoc, List.nil_append]
    rw [skipSpace_cons _ (by decide)]
    simp only [parseStr_printStr, Option.bind_eq_bind, Option.bind_some]
    rw [skipSpace_cons _ (by decide)]
    simp only [hv, Option.bind_some]
    simp [printFields, skipSpace]
  | k, v, (l, w) :: fields, n + 1, rest, hd => by
    have hv := parseValue_print v n (printFields ((l, w) :: fields) ++ rest)
      (by simp only [depthFields] at hd; omega) (stops_printFields _ _)
    have hf := parseFields_print l w fields n rest (by simp only [depthFields] at hd ⊢; omega)
    simp only [parseFields, printStr, List.cons_append, List.append_assoc, List.nil_append]
    rw [skipSpace_cons _ (by decide)]
    simp only [parseStr_printStr, Option.bind_eq_bind, Option.bind_some]
    rw [skipSpace_cons _ (by decide)]
    simp only [hv, Option.bind_some]
    simp only [printStr, List.cons_append, List.append_assoc, List.nil_append] at hf
    simp [printFields, printStr, skipSpace, hf]

end

mutual

/-- A value's text is long enough for the recursion that reads it. -/
theorem depth_le : ∀ j : Json, depth j ≤ 2 * j.print.length
  | null | bool true | bool false => by simp [depth, print]
  | int n => by
    obtain ⟨c, cs, hc, -⟩ := printInt_cons n
    simp only [depth, print, hc, List.length_cons]
    omega
  | float m e => by
    simp only [depth, print, List.length_append, List.length_cons]
    omega
  | str s => by
    simp only [depth, print, printStr, List.length_cons]
    omega
  | arr [] | obj [] => by simp [depth, depthElems, depthFields, print]
  | arr (x :: xs) => by
    have hx := depth_le x
    have hxs := depthElems_le xs
    simp only [depth, depthElems, print, List.length_cons, List.length_append]
    omega
  | obj ((k, v) :: fields) => by
    have hv := depth_le v
    have hf := depthFields_le fields
    simp only [depth, depthFields, print, List.length_cons, List.length_append]
    omega

/-- The same for an array's elements. -/
theorem depthElems_le : ∀ xs : List Json, depthElems xs ≤ 2 * (printElems xs).length
  | [] => by simp [depthElems]
  | x :: xs => by
    have hx := depth_le x
    have hxs := depthElems_le xs
    simp only [depthElems, printElems, List.length_cons, List.length_append]
    omega

/-- The same for an object's members. -/
theorem depthFields_le : ∀ fields : List (String × Json),
    depthFields fields ≤ 2 * (printFields fields).length
  | [] => by simp [depthFields]
  | (k, v) :: fields => by
    have hv := depth_le v
    have hf := depthFields_le fields
    simp only [depthFields, printFields, List.length_cons, List.length_append]
    omega

end

/-- The round trip: a value is the one that its text stands for. -/
@[simp] theorem parse_stringify (j : Json) : parse j.stringify = some j := by
  have hd := depth_le j
  have h := parseValue_print j (2 * j.print.length + 1) [] (by omega) stops_nil
  rw [List.append_nil] at h
  simp [parse, stringify, h, skipSpace]

/-- Different values have different texts. -/
theorem stringify_injective {a b : Json} (h : a.stringify = b.stringify) : a = b := by
  have hab := congrArg parse h
  rw [parse_stringify, parse_stringify] at hab
  exact Option.some.inj hab

/-! ## `jsonb` -/

/-- The members are in the order of their keys, each key once. -/
def Sorted (fields : List (String × Json)) : Prop := fields.Pairwise fun f g => f.1 < g.1

/-- The first of sorted members has the least key. -/
theorem Sorted.lookup_of_lt {k l : String} {w : Json} {fields : List (String × Json)}
    (h : Sorted ((l, w) :: fields)) (hk : k < l) : ((l, w) :: fields).lookup k = none := by
  rw [List.lookup_eq_none_iff]
  intro f hf
  have hlt : k < f.1 := by
    rcases List.mem_cons.mp hf with rfl | hf
    · exact hk
    · exact hk.trans ((List.pairwise_cons.mp h).1 f hf)
  simpa using hlt.ne

/-- A member under another key is passed over. -/
theorem lookup_cons_ne {x k : String} (h : x ≠ k) (v : Json) (fields : List (String × Json)) :
    ((k, v) :: fields).lookup x = fields.lookup x := by
  have hne : (x == k) = false := by simpa using h
  rw [List.lookup_cons, hne]

/-- A member that is put into sorted members is found unless its key was there already. -/
theorem lookup_insertField {fields : List (String × Json)} (h : Sorted fields) (k x : String)
    (v : Json) : (insertField k v fields).lookup x =
      (fields.lookup x).or (if x = k then some v else none) := by
  induction fields with
  | nil =>
    by_cases hx : x = k
    · simp [insertField, hx]
    · simp [insertField, lookup_cons_ne hx, hx]
  | cons f fields ih =>
    obtain ⟨l, w⟩ := f
    have ih := ih (List.pairwise_cons.mp h).2
    by_cases hlt : k < l
    · rw [insertField, if_pos hlt]
      by_cases hx : x = k
      · subst hx
        rw [h.lookup_of_lt hlt]
        simp
      · simp [lookup_cons_ne hx, hx]
    · by_cases hkl : k = l
      · subst hkl
        rw [insertField, if_neg hlt, if_pos rfl]
        by_cases hx : x = k
        · simp [hx]
        · simp [hx]
      · rw [insertField, if_neg hlt, if_neg hkl]
        by_cases hx : x = l
        · simp [hx]
        · simp [lookup_cons_ne hx, ih]

/-- The keys after an insertion. -/
theorem mem_insertField {k : String} {v : Json} {fields : List (String × Json)}
    {f : String × Json} (h : f ∈ insertField k v fields) : f = (k, v) ∨ f ∈ fields := by
  induction fields with
  | nil => exact .inl (by simpa [insertField] using h)
  | cons g fields ih =>
    obtain ⟨l, w⟩ := g
    unfold insertField at h
    split at h
    · exact (List.mem_cons.mp h).imp id id
    · split at h
      · exact .inr h
      · rcases List.mem_cons.mp h with rfl | h
        · exact .inr (by simp)
        · exact (ih h).imp id fun h => by simp [h]

/-- Sorted members stay sorted. -/
theorem Sorted.insertField {fields : List (String × Json)} (h : Sorted fields) (k : String)
    (v : Json) : Sorted (insertField k v fields) := by
  induction fields with
  | nil => simp [Json.insertField, Sorted]
  | cons f fields ih =>
    obtain ⟨l, w⟩ := f
    obtain ⟨hl, hf⟩ := List.pairwise_cons.mp h
    unfold Json.insertField
    split
    · rename_i hlt
      refine List.pairwise_cons.mpr ⟨fun g hg => ?_, h⟩
      rcases List.mem_cons.mp hg with rfl | hg
      · exact hlt
      · exact hlt.trans (hl g hg)
    · split
      · exact h
      · rename_i hlt hkl
        refine List.pairwise_cons.mpr ⟨fun g hg => ?_, ih hf⟩
        rcases mem_insertField hg with rfl | hg
        · exact lt_of_le_of_ne (not_lt.mp hlt) (Ne.symm hkl)
        · exact hl g hg

/-- The members of a `jsonb` object are sorted. -/
theorem sorted_jsonbFields (fields : List (String × Json)) : Sorted (jsonbFields fields) := by
  induction fields with
  | nil => exact .nil
  | cons f fields ih =>
    obtain ⟨k, v⟩ := f
    exact ih.insertField k (jsonb v)

/-- In sorted members it does not matter from which end one looks. -/
theorem Sorted.lookup_reverse {fields : List (String × Json)} (h : Sorted fields) (x : String) :
    fields.reverse.lookup x = fields.lookup x := by
  induction fields with
  | nil => rfl
  | cons f fields ih =>
    obtain ⟨k, v⟩ := f
    obtain ⟨hk, hf⟩ := List.pairwise_cons.mp h
    rw [List.reverse_cons, List.lookup_append, ih hf]
    by_cases hx : x = k
    · subst hx
      have hn : fields.lookup x = none := by
        rw [List.lookup_eq_none_iff]
        exact fun g hg => by simpa using (hk g hg).ne
      simp [hn]
    · simp [lookup_cons_ne hx]

/-- The `jsonb` form of an object has the object's members. -/
theorem get?_jsonb (fields : List (String × Json)) (x : String) :
    (jsonb (obj fields)).get? x = ((obj fields).get? x).map jsonb := by
  have key : ∀ fields : List (String × Json),
      (jsonbFields fields).lookup x = (fields.reverse.lookup x).map jsonb := by
    intro fields
    induction fields with
    | nil => rfl
    | cons f fields ih =>
      obtain ⟨k, v⟩ := f
      rw [jsonbFields, lookup_insertField (sorted_jsonbFields fields), ih, List.reverse_cons,
        List.lookup_append]
      by_cases hx : x = k
      · subst hx
        cases fields.reverse.lookup x <;> simp
      · cases fields.reverse.lookup x <;> simp [lookup_cons_ne hx, hx]
  rw [jsonb, get?, (sorted_jsonbFields fields).lookup_reverse, key]
  rfl

/-- A member with a key before all others goes in front. -/
theorem insertField_of_lt {k : String} (v : Json) {fields : List (String × Json)}
    (h : ∀ f ∈ fields, k < f.1) : insertField k v fields = (k, v) :: fields := by
  cases fields with
  | nil => rfl
  | cons f fields =>
    obtain ⟨l, w⟩ := f
    rw [insertField, if_pos (h (l, w) (by simp))]

/-- The values of sorted members that are in `jsonb` form are left alone. -/
theorem Sorted.jsonbFields {fields : List (String × Json)} (h : Sorted fields)
    (hv : ∀ f ∈ fields, jsonb f.2 = f.2) : jsonbFields fields = fields := by
  induction fields with
  | nil => rfl
  | cons f fields ih =>
    obtain ⟨k, v⟩ := f
    obtain ⟨hk, hf⟩ := List.pairwise_cons.mp h
    have hval : jsonb v = v := hv (k, v) (by simp)
    rw [Json.jsonbFields, ih hf fun f hf => hv f (by simp [hf]), hval, insertField_of_lt v hk]

mutual

/-- The `jsonb` form is kept as it is. -/
theorem jsonb_jsonb : ∀ j : Json, jsonb (jsonb j) = jsonb j
  | null | bool _ | int _ | float _ _ | str _ => rfl
  | arr xs => by rw [jsonb, jsonb, jsonbElems_jsonbElems xs]
  | obj fields => by
    rw [jsonb, jsonb, (sorted_jsonbFields fields).jsonbFields (jsonb_jsonbFields fields)]

/-- The elements of an array are kept as they are. -/
theorem jsonbElems_jsonbElems : ∀ xs : List Json, jsonbElems (jsonbElems xs) = jsonbElems xs
  | [] => rfl
  | x :: xs => by rw [jsonbElems, jsonbElems, jsonb_jsonb x, jsonbElems_jsonbElems xs]

/-- The values of an object's members are in `jsonb` form. -/
theorem jsonb_jsonbFields : ∀ (fields : List (String × Json)) (f : String × Json),
    f ∈ jsonbFields fields → jsonb f.2 = f.2
  | [], _, hf => by simp [Json.jsonbFields] at hf
  | (_, v) :: fields, f, hf => by
    rw [Json.jsonbFields] at hf
    rcases mem_insertField hf with rfl | hf
    · exact jsonb_jsonb v
    · exact jsonb_jsonbFields fields f hf

end

end Json
