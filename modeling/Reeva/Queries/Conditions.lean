import Mathlib.Order.Lattice
import Mathlib.Data.Nat.Notation

/-!
# The condition of a query

What a query builder makes of its calls. A call of `where` adds a condition with AND, a call of
`orWhere` with OR, and nothing sets parentheses but a group; AND binds more tightly than OR. A
condition is therefore a list of alternatives, each of them a list of conditions that must all hold,
and conditions that are added with AND restrict a query only while it has a single alternative.
-/

namespace Queries

/-- The operator of a comparison. -/
inductive Comparison
  | eq
  | lt
  | le
  | gt
  | ge
  deriving DecidableEq, Repr

/-- What an operator says of two values. -/
def Comparison.Holds {β : Type*} [LinearOrder β] (op : Comparison) (a b : β) : Prop :=
  match op with
  | .eq => a = b
  | .lt => a < b
  | .le => a ≤ b
  | .gt => b < a
  | .ge => b ≤ a

instance {β : Type*} [LinearOrder β] (op : Comparison) (a b : β) : Decidable (op.Holds a b) :=
  match op with
  | .eq => inferInstanceAs (Decidable (a = b))
  | .lt => inferInstanceAs (Decidable (a < b))
  | .le => inferInstanceAs (Decidable (a ≤ b))
  | .gt => inferInstanceAs (Decidable (b < a))
  | .ge => inferInstanceAs (Decidable (b ≤ a))

section comparison

variable {β : Type*} [LinearOrder β] {a b : β}

@[simp] theorem Comparison.eq_holds : Comparison.eq.Holds a b ↔ a = b := Iff.rfl

@[simp] theorem Comparison.lt_holds : Comparison.lt.Holds a b ↔ a < b := Iff.rfl

@[simp] theorem Comparison.le_holds : Comparison.le.Holds a b ↔ a ≤ b := Iff.rfl

@[simp] theorem Comparison.gt_holds : Comparison.gt.Holds a b ↔ b < a := Iff.rfl

@[simp] theorem Comparison.ge_holds : Comparison.ge.Holds a b ↔ b ≤ a := Iff.rfl

end comparison

/-- A condition on a row: a column is compared with a bound value, the other columns satisfy
something, or one of the alternatives of a group holds. -/
inductive Condition (ρ : Type)
  | compare (column : ρ → ℕ) (op : Comparison) (value : ℕ)
  | satisfies (p : ρ → Bool)
  | group (alternatives : List (List (Condition ρ)))

/-- The condition that a query has so far. -/
abbrev Conditions (ρ : Type) := List (List (Condition ρ))

variable {ρ : Type}

/-- `query.where(…)` -/
def Conditions.andWhere (q : Conditions ρ) (c : Condition ρ) : Conditions ρ :=
  match q with
  | [] => [[c]]
  | [conjunction] => [conjunction ++ [c]]
  | conjunction :: rest => conjunction :: Conditions.andWhere rest c

/-- `query.orWhere(…)` -/
def Conditions.orWhere (q : Conditions ρ) (c : Condition ρ) : Conditions ρ := q ++ [[c]]

mutual

/-- Whether a row satisfies a condition. A group without conditions is left out of the query. -/
def Condition.holds (x : ρ) : Condition ρ → Bool
  | .compare column op value => op.Holds (column x) value
  | .satisfies p => p x
  | .group [] => true
  | .group (conjunction :: rest) => holdsAll x conjunction || holdsAny x rest

/-- Whether it satisfies all of some conditions. -/
def holdsAll (x : ρ) : List (Condition ρ) → Bool
  | [] => true
  | c :: cs => c.holds x && holdsAll x cs

/-- Whether it satisfies one of some alternatives. -/
def holdsAny (x : ρ) : List (List (Condition ρ)) → Bool
  | [] => false
  | conjunction :: rest => holdsAll x conjunction || holdsAny x rest

end

mutual

/-- The values that a condition binds, in their order in the statement. -/
def Condition.bindings : Condition ρ → List ℕ
  | .compare _ _ value => [value]
  | .satisfies _ => []
  | .group alternatives => bindingsAny alternatives

/-- The values that some conditions bind. -/
def bindingsAll : List (Condition ρ) → List ℕ
  | [] => []
  | c :: cs => c.bindings ++ bindingsAll cs

/-- The values that some alternatives bind. -/
def bindingsAny : List (List (Condition ρ)) → List ℕ
  | [] => []
  | conjunction :: rest => bindingsAll conjunction ++ bindingsAny rest

end

/-- Whether a query selects a row. -/
def Conditions.selects (q : Conditions ρ) (x : ρ) : Bool := (Condition.group q).holds x

/-- All conditions of two lists. -/
theorem holdsAll_append (x : ρ) (cs cs' : List (Condition ρ)) :
    holdsAll x (cs ++ cs') = (holdsAll x cs && holdsAll x cs') := by
  induction cs with
  | nil => rfl
  | cons c cs ih => simp only [List.cons_append, holdsAll, ih, Bool.and_assoc]

/-- One of the alternatives of two lists. -/
theorem holdsAny_append (x : ρ) (q q' : List (List (Condition ρ))) :
    holdsAny x (q ++ q') = (holdsAny x q || holdsAny x q') := by
  induction q with
  | nil => rfl
  | cons conjunction q ih => simp only [List.cons_append, holdsAny, ih, Bool.or_assoc]

/-- A query without alternatives to its conditions. -/
def Conditions.Single (q : Conditions ρ) : Prop := q.length ≤ 1

/-- A query without alternatives has one list of conditions, or none yet. -/
theorem Conditions.Single.cases {q : Conditions ρ} (h : q.Single) :
    q = [] ∨ ∃ conjunction, q = [conjunction] := by
  rcases q with _ | ⟨conjunction, _ | ⟨c, rest⟩⟩
  · exact .inl rfl
  · exact .inr ⟨conjunction, rfl⟩
  · exact absurd h (by simp [Conditions.Single])

/-- It has no alternatives after another `where`. -/
theorem Conditions.Single.andWhere {q : Conditions ρ} (h : q.Single) (c : Condition ρ) :
    (q.andWhere c).Single := by
  obtain rfl | ⟨conjunction, rfl⟩ := h.cases
  · exact le_rfl
  · exact le_rfl

/-- `where` restricts a query without alternatives. -/
theorem Conditions.Single.selects_andWhere {q : Conditions ρ} (h : q.Single) (c : Condition ρ)
    (x : ρ) : (q.andWhere c).selects x = (q.selects x && c.holds x) := by
  obtain rfl | ⟨conjunction, rfl⟩ := h.cases
  · simp [Conditions.andWhere, Conditions.selects, Condition.holds, holdsAll, holdsAny]
  · simp [Conditions.andWhere, Conditions.selects, Condition.holds, holdsAll, holdsAny,
      holdsAll_append]

/-- `orWhere` adds an alternative to a query with conditions. -/
theorem Conditions.selects_orWhere {q : Conditions ρ} (h : q ≠ []) (c : Condition ρ) (x : ρ) :
    (q.orWhere c).selects x = (q.selects x || c.holds x) := by
  cases q with
  | nil => exact absurd rfl h
  | cons conjunction rest =>
    simp [Conditions.orWhere, Conditions.selects, Condition.holds, holdsAll, holdsAny,
      holdsAny_append, Bool.or_assoc]

end Queries
