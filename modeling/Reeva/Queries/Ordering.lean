import Mathlib.Algebra.Order.Floor.Semifield
import Mathlib.Data.List.Sort
import Mathlib.Data.Rat.Floor

/-!
# Ordered queries and their pages

Rows ordered by descending keys, the first of them, and their pages. Where the key tells the rows
apart, the order is a function of the set of rows: it does not depend on where the rows stood before,
on conditions that are applied earlier or later, or on keys that come after. The pages of a list are
its parts of a given length, and one after another they give the list back.
-/

namespace Queries

variable {α β γ : Type*}

/-! ## Order -/

/-- A key that tells the rows apart. -/
def Distinguishes (key : α → β) (rows : List α) : Prop :=
  ∀ x ∈ rows, ∀ y ∈ rows, key x = key y → x = y

/-- Fewer rows are told apart as well. -/
theorem Distinguishes.subset {key : α → β} {rows rows' : List α} (h : Distinguishes key rows)
    (hsub : rows' ⊆ rows) : Distinguishes key rows' := fun x hx y hy => h x (hsub hx) y (hsub hy)

section order

variable [LinearOrder β] [LinearOrder γ]

/-- `x` may come before `y`. -/
def NotAfter (key : α → β) (x y : α) : Prop := key y ≤ key x

instance (key : α → β) : DecidableRel (NotAfter key) := fun x y =>
  inferInstanceAs (Decidable (key y ≤ key x))

instance (key : α → β) : Std.Total (NotAfter key) := ⟨fun x y => le_total (key y) (key x)⟩

instance (key : α → β) : IsTrans α (NotAfter key) := ⟨fun _ _ _ h h' => le_trans h' h⟩

/-- `ORDER BY key DESC` -/
def orderByDesc (key : α → β) (rows : List α) : List α := rows.insertionSort (NotAfter key)

variable {key : α → β} {rows rows' : List α}

/-- Ordering changes neither the rows nor how often they stand there. -/
theorem orderByDesc_perm (key : α → β) (rows : List α) : (orderByDesc key rows).Perm rows :=
  List.perm_insertionSort _ _

@[simp] theorem mem_orderByDesc {x : α} : x ∈ orderByDesc key rows ↔ x ∈ rows :=
  (orderByDesc_perm key rows).mem_iff

@[simp] theorem length_orderByDesc : (orderByDesc key rows).length = rows.length :=
  (orderByDesc_perm key rows).length_eq

/-- The keys descend. -/
theorem pairwise_orderByDesc (key : α → β) (rows : List α) :
    (orderByDesc key rows).Pairwise (NotAfter key) := List.pairwise_insertionSort _ _

/-- Before: with the greater key. -/
def Before (key : α → β) (x y : α) : Prop := key y < key x

instance (key : α → β) : Std.Irrefl (Before key) := ⟨fun _ => lt_irrefl _⟩

instance (key : α → β) : Std.Antisymm (Before key) := ⟨fun _ _ h h' => absurd h (lt_asymm h')⟩

/-- Rows in an order that agrees with a key strictly descend, when the key tells them apart. -/
theorem pairwise_before {r : α → α → Prop} (hd : Distinguishes key rows) (hn : rows.Nodup)
    (hp : rows.Pairwise r)
    (h : ∀ x ∈ rows, ∀ y ∈ rows, key x < key y → ¬r x y) :
    rows.Pairwise (Before key) := by
  refine (hp.and hn).imp_of_mem fun {x y} hx hy hxy => ?_
  rcases lt_trichotomy (key x) (key y) with hlt | heq | hgt
  · exact absurd hxy.1 (h x hx y hy hlt)
  · exact absurd (hd x hx y hy heq) hxy.2
  · exact hgt

/-- The keys strictly descend, when they tell the rows apart. -/
theorem pairwise_before_orderByDesc (hd : Distinguishes key rows) (hn : rows.Nodup) :
    (orderByDesc key rows).Pairwise (Before key) := by
  refine pairwise_before (hd.subset fun x hx => mem_orderByDesc.mp hx)
    ((orderByDesc_perm key rows).nodup_iff.mpr hn) (pairwise_orderByDesc key rows) ?_
  intro x _ y _ hlt hle
  exact absurd hlt (not_lt_of_ge hle)

/-- The order depends on which rows there are, and on no key that only comes after a key that tells
them apart. -/
theorem orderByDesc_eq {key' : α → γ} (hd : Distinguishes key rows) (hn : rows.Nodup)
    (hn' : rows'.Nodup) (hmem : ∀ x, x ∈ rows' ↔ x ∈ rows)
    (h : ∀ x ∈ rows, ∀ y ∈ rows, key x < key y → key' x < key' y) :
    orderByDesc key' rows' = orderByDesc key rows := by
  refine List.Pairwise.eq_of_mem_iff (r := Before key) ?_ (pairwise_before_orderByDesc hd hn) ?_
  · refine pairwise_before (r := NotAfter key') ?_ ?_ (pairwise_orderByDesc key' rows') ?_
    · exact hd.subset fun x hx => (hmem x).mp (mem_orderByDesc.mp hx)
    · exact (orderByDesc_perm key' rows').nodup_iff.mpr hn'
    · intro x hx y hy hlt hle
      exact absurd (h x ((hmem x).mp (mem_orderByDesc.mp hx)) y
        ((hmem y).mp (mem_orderByDesc.mp hy)) hlt) (not_lt_of_ge hle)
  · intro x
    rw [mem_orderByDesc, mem_orderByDesc, hmem]

/-- A condition may be applied before or after ordering. -/
theorem orderByDesc_filter (hd : Distinguishes key rows) (hn : rows.Nodup) (p : α → Bool) :
    orderByDesc key (rows.filter p) = (orderByDesc key rows).filter p := by
  refine List.Pairwise.eq_of_mem_iff (r := Before key) ?_
    ((pairwise_before_orderByDesc hd hn).filter p) fun x => ?_
  · exact pairwise_before_orderByDesc (hd.subset fun x hx => (List.mem_filter.mp hx).1) (hn.filter p)
  · rw [mem_orderByDesc, List.mem_filter, List.mem_filter, mem_orderByDesc]

/-- The first row that satisfies a condition, which greater keys satisfy as well, is the first row, if
that one satisfies it. -/
theorem head?_filter {p : α → Bool} (hp : rows.Pairwise fun x y => p y = true → p x = true) :
    (rows.filter p).head? = rows.head?.filter p := by
  cases rows with
  | nil => rfl
  | cons x rows =>
    cases hx : p x with
    | true => simp [hx, Option.filter]
    | false =>
      have hnone : rows.filter p = [] := by
        refine List.filter_eq_nil_iff.mpr fun y hy hpy => ?_
        rw [(List.pairwise_cons.mp hp).1 y hy hpy] at hx
        cases hx
      simp [hx, hnone, Option.filter]

end order

/-! ## Pages -/

variable {rows : List α} {limit : ℕ}

/-- `OFFSET (page - 1) * limit LIMIT limit` -/
def page (limit : ℕ) (rows : List α) (number : ℕ) : List α :=
  (rows.drop ((number - 1) * limit)).take limit

/-- A page has rows of the list. -/
theorem page_subset (limit : ℕ) (rows : List α) (number : ℕ) : page limit rows number ⊆ rows :=
  fun _ hx => List.mem_of_mem_drop (List.mem_of_mem_take hx)

/-- `Math.ceil(total / limit)` -/
def totalPages (total limit : ℕ) : ℕ := ⌈(total : ℚ) / limit⌉₊

/-- The first pages give the first rows. -/
theorem flatMap_page (limit : ℕ) (rows : List α) (n : ℕ) :
    ((List.range n).flatMap fun k => page limit rows (k + 1)) = rows.take (n * limit) := by
  induction n with
  | zero => simp
  | succ n ih =>
    rw [List.range_succ, List.flatMap_append, ih, Nat.succ_mul, List.take_add]
    simp [page]

/-- There is room for all rows on the pages. -/
theorem le_totalPages_mul (total : ℕ) (hlimit : 1 ≤ limit) :
    total ≤ totalPages total limit * limit := by
  have hpos : (0 : ℚ) < limit := by exact_mod_cast hlimit
  have h := (div_le_iff₀ hpos).mp (Nat.le_ceil ((total : ℚ) / limit))
  exact_mod_cast h

/-- All pages give all rows. -/
theorem flatMap_pages (rows : List α) (hlimit : 1 ≤ limit) :
    ((List.range (totalPages rows.length limit)).flatMap fun k => page limit rows (k + 1)) =
      rows := by
  rw [flatMap_page, List.take_of_length_le (le_totalPages_mul rows.length hlimit)]

end Queries
