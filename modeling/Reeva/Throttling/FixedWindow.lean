import Mathlib.Data.List.Count
import Mathlib.Data.Nat.Notation
import Mathlib.Order.Basic

/-!
# Fixed-window counters

A counter of hits that starts anew with the first hit after its window. A hit passes when the count is
within a limit. Windows of one counter do not overlap, so at most the limit passes within one window
(`hits_window`), and a span of time as long as a window meets two of them, and one more for every time
that the counter is cleared (`hits_span`). Counters whose window is over may be dropped
(`hit_live`).
-/

namespace FixedWindow

/-- A counter of hits within a window. -/
structure Counter where
  attempts : ℕ
  windowEnd : ℕ
  deriving DecidableEq, Repr

/-- The counter after one more hit. -/
def hit (length now : ℕ) : Option Counter → Counter
  | none => ⟨1, now + length⟩
  | some c => if c.windowEnd ≤ now then ⟨1, now + length⟩ else ⟨c.attempts + 1, c.windowEnd⟩

/-- What a counter still counts for: nothing once its window is over. -/
def live (now : ℕ) (c : Option Counter) : Option Counter := c.filter (now < ·.windowEnd)

/-- What happens to a counter. -/
inductive Op
  | hit
  | clear
  deriving DecidableEq, Repr

/-- The hits of a history, each with its time and the counter after it. -/
def hits (length : ℕ) : Option Counter → List (ℕ × Op) → List (ℕ × Counter)
  | _, [] => []
  | c, (now, .hit) :: ops => (now, hit length now c) :: hits length (some (hit length now c)) ops
  | _, (_, .clear) :: ops => hits length none ops

/-- The number of times that a history clears the counter. -/
def clears (ops : List (ℕ × Op)) : ℕ := ops.countP (·.2 = .clear)

variable {length limit : ℕ}

/-- A counter whose window is over counts as none. -/
theorem hit_live (now : ℕ) (c : Option Counter) : hit length now (live now c) = hit length now c := by
  cases c with
  | none => rfl
  | some c =>
    by_cases h : now < c.windowEnd
    · simp [live, Option.filter_some, h]
    · simp [live, Option.filter_some, h, hit, Nat.le_of_not_lt h]

/-- What was dropped earlier would not count later. -/
theorem live_live {now later : ℕ} (h : now ≤ later) (c : Option Counter) :
    live later (live now c) = live later c := by
  cases c with
  | none => rfl
  | some c =>
    have hlater : later < c.windowEnd → now < c.windowEnd := Nat.lt_of_le_of_lt h
    by_cases hn : now < c.windowEnd
    · simp [live, Option.filter_some, hn]
    · simp [live, Option.filter_some, hn, mt hlater hn]

/-- A counter that was just hit counts. -/
theorem live_hit (hlength : 0 < length) (now : ℕ) (c : Option Counter) :
    live now (some (hit length now c)) = some (hit length now c) := by
  cases c with
  | none => simp [live, Option.filter_some, hit, hlength]
  | some c =>
    by_cases h : c.windowEnd ≤ now
    · simp [live, Option.filter_some, hit, h, hlength]
    · simp [live, Option.filter_some, hit, h, Nat.lt_of_not_le h]

/-! ## One window -/

/-- The room that is left in the window that ends at `e`. -/
def room (limit e : ℕ) : Option Counter → ℕ
  | none => limit
  | some c => if c.windowEnd < e then limit else if c.windowEnd = e then limit - c.attempts else 0

theorem room_le (limit e : ℕ) (c : Option Counter) : room limit e c ≤ limit := by
  cases c with
  | none => exact Nat.le_refl _
  | some c =>
    simp only [room]
    split_ifs <;> omega

/-- A hit that passes takes room from its window. -/
theorem room_hit (limit : ℕ) (hlength : 0 < length) (e now : ℕ) (c : Option Counter) :
    (if (hit length now c).attempts ≤ limit ∧ (hit length now c).windowEnd = e then 1 else 0) +
      room limit e (some (hit length now c)) ≤ room limit e c := by
  have fresh : (if 1 ≤ limit ∧ now + length = e then 1 else 0) +
      room limit e (some ⟨1, now + length⟩) ≤ limit := by
    simp only [room]
    split_ifs <;> omega
  cases c with
  | none => exact fresh
  | some c =>
    by_cases hend : c.windowEnd ≤ now
    · -- A new window ends after the old one.
      simp only [hit, hend, if_true]
      by_cases he : c.windowEnd < e
      · simpa only [room, he, if_true] using fresh
      · have h₁ : ¬now + length < e := by omega
        have h₂ : now + length ≠ e := by omega
        simp only [room, h₁, h₂, and_false, if_false]
        exact Nat.zero_le _
    · simp only [hit, hend, if_false, room]
      split_ifs <;> omega

/-- Within one window of a counter that is not cleared at most the limit passes. -/
theorem hits_window (limit : ℕ) (hlength : 0 < length) (e : ℕ) {ops : List (ℕ × Op)}
    (hops : ∀ op ∈ ops, op.2 = .hit) (c : Option Counter) :
    (hits length c ops).countP (fun h => h.2.attempts ≤ limit ∧ h.2.windowEnd = e) ≤
      room limit e c := by
  induction ops generalizing c with
  | nil => exact Nat.zero_le _
  | cons op ops ih =>
    obtain ⟨now, op⟩ := op
    obtain rfl : op = .hit := hops _ (List.mem_cons_self ..)
    have hrest := ih (fun op h => hops op (List.mem_cons_of_mem _ h)) (some (hit length now c))
    have hroom := room_hit limit hlength e now c
    simp only [hits, List.countP_cons, decide_eq_true_eq]
    omega

/-! ## A span of time -/

/-- The hits that pass. -/
def passes (limit : ℕ) (hs : List (ℕ × Counter)) : ℕ := hs.countP (·.2.attempts ≤ limit)

/-- From a counter whose window outlasts the history. -/
theorem passes_outlasting (limit : ℕ) {start : ℕ} {ops : List (ℕ × Op)}
    (hops : ∀ op ∈ ops, start ≤ op.1 ∧ op.1 < start + length) (c : Option Counter)
    (hc : ∀ c' ∈ c, start + length ≤ c'.windowEnd) :
    passes limit (hits length c ops) ≤
      limit - (c.elim 0 (·.attempts)) + limit * clears ops := by
  induction ops generalizing c with
  | nil => exact Nat.zero_le _
  | cons op ops ih =>
    obtain ⟨now, op⟩ := op
    have hin := hops _ (List.mem_cons_self ..)
    have hrest := ih fun op h => hops op (List.mem_cons_of_mem _ h)
    cases op with
    | clear =>
      have h := hrest none (by simp)
      have hclears : clears ((now, .clear) :: ops) = clears ops + 1 := by simp [clears]
      rw [hclears, hits, Nat.mul_add]
      simp only [Option.elim_none] at h
      omega
    | hit =>
      have hnew : hit length now c = ⟨c.elim 0 (·.attempts) + 1, (hit length now c).windowEnd⟩ ∧
          start + length ≤ (hit length now c).windowEnd := by
        cases c with
        | none => exact ⟨rfl, Nat.add_le_add_right hin.1 _⟩
        | some c =>
          have hend := hc c rfl
          have hnow : ¬c.windowEnd ≤ now := by omega
          simpa [hit, hnow] using hend
      have h := hrest (some (hit length now c)) fun c' h => by
        obtain rfl := Option.some.inj h
        exact hnew.2
      have hclears : clears ((now, .hit) :: ops) = clears ops := by simp [clears]
      rw [hclears, hits, passes, List.countP_cons, ← passes, hnew.1]
      rw [hnew.1] at h
      simp only [Option.elim_some, decide_eq_true_eq] at h ⊢
      split_ifs <;> omega

/-- From any counter: its own window may still be open, and no window that starts within the span is
over before the span is. -/
theorem passes_room (limit : ℕ) {start : ℕ} {ops : List (ℕ × Op)}
    (hops : ∀ op ∈ ops, start ≤ op.1 ∧ op.1 < start + length) (c : Option Counter) :
    passes limit (hits length c ops) ≤
      limit - (c.elim limit (·.attempts)) + limit * (clears ops + 1) := by
  induction ops generalizing c with
  | nil => exact Nat.zero_le _
  | cons op ops ih =>
    obtain ⟨now, op⟩ := op
    have hin := hops _ (List.mem_cons_self ..)
    have hlater : ∀ op ∈ ops, start ≤ op.1 ∧ op.1 < start + length :=
      fun op h => hops op (List.mem_cons_of_mem _ h)
    cases op with
    | clear =>
      have h := passes_outlasting limit hlater none (by simp)
      have hclears : clears ((now, .clear) :: ops) = clears ops + 1 := by simp [clears]
      rw [hclears, hits, Nat.mul_add, Nat.mul_add]
      simp only [Option.elim_none] at h
      omega
    | hit =>
      have hclears : clears ((now, .hit) :: ops) = clears ops := by simp [clears]
      rw [hclears, hits, passes, List.countP_cons, ← passes]
      by_cases hopen : ∃ c' ∈ c, ¬c'.windowEnd ≤ now
      · obtain ⟨c', rfl, hend⟩ := hopen
        have h := ih hlater (some (hit length now (some c')))
        simp only [hit, hend, if_false, Option.elim_some, decide_eq_true_eq] at h ⊢
        split_ifs <;> omega
      · -- A new window, which outlasts the span.
        have hnew : hit length now c = ⟨1, now + length⟩ := by
          cases c with
          | none => rfl
          | some c' => exact if_pos (by_contra fun hend => hopen ⟨c', rfl, hend⟩)
        rw [hnew]
        have h := passes_outlasting limit hlater (some ⟨1, now + length⟩) fun c' hc' => by
          obtain rfl := Option.some.inj hc'
          exact Nat.add_le_add_right hin.1 _
        simp only [Option.elim_some, decide_eq_true_eq, Nat.mul_add] at h ⊢
        split_ifs <;> omega

/-- Within a span of time as long as a window at most twice the limit passes, and the limit once more
for every time that the counter is cleared. -/
theorem passes_span (limit : ℕ) {start : ℕ} {ops : List (ℕ × Op)}
    (hops : ∀ op ∈ ops, start ≤ op.1 ∧ op.1 < start + length) (c : Option Counter) :
    passes limit (hits length c ops) ≤ limit * (clears ops + 2) := by
  have h := passes_room limit hops c
  rw [Nat.mul_add] at h ⊢
  omega

/-! ## Histories in the order of time -/

/-- The counter after a history. -/
def final (length : ℕ) : Option Counter → List (ℕ × Op) → Option Counter
  | c, [] => c
  | c, (now, .hit) :: ops => final length (some (hit length now c)) ops
  | _, (_, .clear) :: ops => final length none ops

/-- One history after another. -/
theorem hits_append (c : Option Counter) (ops ops' : List (ℕ × Op)) :
    hits length c (ops ++ ops') = hits length c ops ++ hits length (final length c ops) ops' := by
  induction ops generalizing c with
  | nil => rfl
  | cons op ops ih =>
    obtain ⟨now, op⟩ := op
    cases op <;> simp [hits, final, ih]

/-- A hit has the time of an event. -/
theorem mem_hits {c : Option Counter} {ops : List (ℕ × Op)} {h : ℕ × Counter}
    (hmem : h ∈ hits length c ops) : ∃ op ∈ ops, op.1 = h.1 := by
  induction ops generalizing c with
  | nil => cases hmem
  | cons op ops ih =>
    obtain ⟨now, op⟩ := op
    cases op with
    | hit =>
      rcases List.mem_cons.mp hmem with rfl | hmem
      · exact ⟨_, List.mem_cons_self .., rfl⟩
      · obtain ⟨op, hop, ht⟩ := ih hmem
        exact ⟨op, List.mem_cons_of_mem _ hop, ht⟩
    | clear =>
      obtain ⟨op, hop, ht⟩ := ih hmem
      exact ⟨op, List.mem_cons_of_mem _ hop, ht⟩

/-- What happened before a time comes first. -/
theorem split_at {ops : List (ℕ × Op)} (hops : ops.Pairwise (·.1 ≤ ·.1)) (t : ℕ) :
    ∃ before after, ops = before ++ after ∧ (∀ op ∈ before, op.1 < t) ∧ ∀ op ∈ after, t ≤ op.1 := by
  induction ops with
  | nil => exact ⟨[], [], rfl, by simp, by simp⟩
  | cons op ops ih =>
    rw [List.pairwise_cons] at hops
    by_cases h : op.1 < t
    · obtain ⟨before, after, rfl, hbefore, hafter⟩ := ih hops.2
      exact ⟨op :: before, after, rfl, by simpa [h] using hbefore, hafter⟩
    · refine ⟨[], op :: ops, rfl, by simp, ?_⟩
      rintro op' (_ | ⟨_, hop'⟩)
      · exact Nat.le_of_not_lt h
      · exact Nat.le_trans (Nat.le_of_not_lt h) (hops.1 op' hop')

/-- Hits outside of a span do not count in it. -/
theorem passes_outside {start : ℕ} {c : Option Counter} {ops : List (ℕ × Op)}
    (hops : ∀ op ∈ ops, op.1 < start ∨ start + length ≤ op.1) :
    (hits length c ops).countP
      (fun h => h.2.attempts ≤ limit ∧ start ≤ h.1 ∧ h.1 < start + length) = 0 := by
  rw [List.countP_eq_zero]
  intro h hmem
  obtain ⟨op, hop, ht⟩ := mem_hits hmem
  have := hops op hop
  simp only [decide_eq_true_eq, ← ht]
  omega

/-- In a history in the order of time at most twice the limit passes within a span as long as a window,
and the limit once more for every time that the counter is cleared in it. -/
theorem hits_span (length limit start : ℕ) {ops : List (ℕ × Op)} (hops : ops.Pairwise (·.1 ≤ ·.1))
    (c : Option Counter) :
    (hits length c ops).countP
        (fun h => h.2.attempts ≤ limit ∧ start ≤ h.1 ∧ h.1 < start + length) ≤
      limit * (ops.countP (fun op => op.2 = .clear ∧ start ≤ op.1 ∧ op.1 < start + length) + 2) := by
  obtain ⟨before, rest, rfl, hbefore, hrest⟩ := split_at hops start
  obtain ⟨within, after, rfl, hwithin, hafter⟩ :=
    split_at (List.pairwise_append.mp hops).2.1 (start + length)
  have hspan : ∀ op ∈ within, start ≤ op.1 ∧ op.1 < start + length := fun op h =>
    ⟨hrest op (List.mem_append_left _ h), hwithin op h⟩
  rw [hits_append, hits_append, List.countP_append, List.countP_append,
    passes_outside fun op h => .inl (hbefore op h), passes_outside fun op h => .inr (hafter op h),
    List.countP_append, List.countP_append]
  have hpasses := passes_span limit hspan (final length c before)
  have hcount : passes limit (hits length (final length c before) within) =
      (hits length (final length c before) within).countP
        (fun h => h.2.attempts ≤ limit ∧ start ≤ h.1 ∧ h.1 < start + length) := by
    refine List.countP_congr fun h hmem => ?_
    obtain ⟨op, hop, ht⟩ := mem_hits hmem
    simp [← ht, hspan op hop]
  have hclears : clears within =
      within.countP fun op => op.2 = .clear ∧ start ≤ op.1 ∧ op.1 < start + length :=
    List.countP_congr fun op hop => by simp [hspan op hop]
  rw [Nat.zero_add, Nat.add_zero, ← hcount]
  refine Nat.le_trans hpasses (Nat.mul_le_mul_left _ ?_)
  rw [hclears]
  omega

end FixedWindow
