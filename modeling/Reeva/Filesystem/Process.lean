import Reeva.Filesystem.Tree

/-!
# Programs over a file system

A program performs calls on a tree that nobody else changes. Any call may fail for a reason that is
not in the tree, and then does nothing: the failures to come are part of the state. A program may also
throw errors of its own, and catch both. `Triple` says what holds of the tree when a program returns
and when it throws; its rules follow the program's text.
-/

namespace Filesystem

/-- What a program throws. -/
inductive Failure
  | errno (e : Errno)
  | message (text : String)
  deriving DecidableEq, Repr

/-- A tree, and which of the next calls fail. -/
structure Disk where
  tree : Tree
  faults : List (Option Errno)

/-- A program over a file system. -/
abbrev Process := ExceptT Failure (StateM Disk)

/-- What comes of a call that the tree answers with `r`. -/
def Disk.outcome {α : Type} (d : Disk) (r : Except Errno α) : Except Errno α :=
  match d.faults.head? with
  | some (some e) => .error e
  | _ => r

/-- A call that looks at the tree. -/
def look {α : Type} (f : Tree → Except Errno α) : Process α := fun d =>
  match d.outcome (f d.tree) with
  | .ok a => (.ok a, ⟨d.tree, d.faults.tail⟩)
  | .error e => (.error (.errno e), ⟨d.tree, d.faults.tail⟩)

/-- A call that changes the tree. -/
def change (f : Tree → Except Errno Tree) : Process Unit := fun d =>
  match d.outcome (f d.tree) with
  | .ok tree => (.ok (), ⟨tree, d.faults.tail⟩)
  | .error e => (.error (.errno e), ⟨d.tree, d.faults.tail⟩)

/-- A call that succeeds is answered by the tree. -/
theorem Disk.ok_of_outcome {α : Type} {d : Disk} {r : Except Errno α} {a : α}
    (h : d.outcome r = .ok a) : r = .ok a := by
  unfold Disk.outcome at h
  split at h
  · cases h
  · exact h

/-! ## Runs -/

section runs

variable {α β : Type} {p : Process α} {d d' : Disk}

/-- What follows a program that returns. -/
theorem bind_of_ok {f : α → Process β} {a : α} (h : p d = (.ok a, d')) : (p >>= f) d = f a d' := by
  change (ExceptT.bindCont f (p d).1) (p d).2 = _
  rw [h]
  rfl

/-- Nothing follows a program that throws. -/
theorem bind_of_error {f : α → Process β} {e : Failure} (h : p d = (.error e, d')) :
    (p >>= f) d = (.error e, d') := by
  change (ExceptT.bindCont f (p d).1) (p d).2 = _
  rw [h]
  rfl

/-- A handler does nothing for a program that returns. -/
theorem tryCatch_of_ok {handler : Failure → Process α} {a : α} (h : p d = (.ok a, d')) :
    (MonadExcept.tryCatch p handler) d = (.ok a, d') := by
  simp only [MonadExcept.tryCatch, tryCatchThe, MonadExceptOf.tryCatch, ExceptT.tryCatch,
    ExceptT.mk, Bind.bind, StateT.bind, h]
  rfl

/-- A program that throws is handled. -/
theorem tryCatch_of_error {handler : Failure → Process α} {e : Failure}
    (h : p d = (.error e, d')) : (MonadExcept.tryCatch p handler) d = handler e d' := by
  simp only [MonadExcept.tryCatch, tryCatchThe, MonadExceptOf.tryCatch, ExceptT.tryCatch,
    ExceptT.mk, Bind.bind, StateT.bind, h]

/-- A call that looks, where none fails on its own. -/
theorem look_calm {f : Tree → Except Errno α} {t : Tree} {a : α} (h : f t = .ok a) :
    look f ⟨t, []⟩ = (.ok a, ⟨t, []⟩) := by
  unfold look Disk.outcome
  dsimp only [List.head?_nil]
  rw [h]
  rfl

/-- A call that changes something, where none fails on its own. -/
theorem change_calm {f : Tree → Except Errno Tree} {t t' : Tree} (h : f t = .ok t') :
    change f ⟨t, []⟩ = (.ok (), ⟨t', []⟩) := by
  unfold change Disk.outcome
  dsimp only [List.head?_nil]
  rw [h]
  rfl

/-- A call that the tree refuses, where none fails on its own. -/
theorem change_calm_error {f : Tree → Except Errno Tree} {t : Tree} {e : Errno}
    (h : f t = .error e) : change f ⟨t, []⟩ = (.error (.errno e), ⟨t, []⟩) := by
  unfold change Disk.outcome
  dsimp only [List.head?_nil]
  rw [h]
  rfl

end runs

/-! ## Triples -/

/-- From a tree with `P` the program returns with `Q`, or throws with `F`. -/
def Triple {α : Type} (P : Tree → Prop) (p : Process α) (Q : α → Tree → Prop)
    (F : Failure → Tree → Prop) : Prop :=
  ∀ d : Disk, P d.tree →
    (∀ a d', p d = (.ok a, d') → Q a d'.tree) ∧ ∀ e d', p d = (.error e, d') → F e d'.tree

namespace Triple

variable {α β : Type} {P P' : Tree → Prop} {p : Process α} {Q Q' : α → Tree → Prop}
  {F F' : Failure → Tree → Prop}

/-- A stronger precondition and weaker postconditions. -/
theorem weaken (h : Triple P p Q F) (hP : ∀ t, P' t → P t) (hQ : ∀ a t, Q a t → Q' a t)
    (hF : ∀ e t, F e t → F' e t) : Triple P' p Q' F' := fun d hd =>
  ⟨fun a d' hp => hQ a _ ((h d (hP _ hd)).1 a d' hp),
    fun e d' hp => hF e _ ((h d (hP _ hd)).2 e d' hp)⟩

/-- What a precondition says besides what it says of the tree. -/
theorem given {c : Prop} (h : c → Triple P p Q F) : Triple (fun t => P t ∧ c) p Q F :=
  fun d hd => h hd.2 d hd.1

/-- A precondition is one about each tree that has it. -/
theorem each (h : ∀ t, P t → Triple (· = t) p Q F) : Triple P p Q F :=
  fun d hd => h d.tree hd d rfl

/-- A program that returns. -/
theorem pure {a : α} (h : ∀ t, P t → Q a t) : Triple P (Pure.pure a : Process α) Q F := by
  intro d hd
  constructor
  · intro b d' hp
    obtain ⟨hb, rfl⟩ := Prod.mk.inj hp
    obtain rfl := Except.ok.inj hb
    exact h _ hd
  · intro e d' hp
    cases hp

/-- A program that throws. -/
theorem throw {e : Failure} (h : ∀ t, P t → F e t) :
    Triple P (MonadExcept.throw e : Process α) Q F := by
  intro d hd
  constructor
  · intro b d' hp
    cases hp
  · intro e' d' hp
    obtain ⟨he, rfl⟩ := Prod.mk.inj hp
    obtain rfl := Except.error.inj he
    exact h _ hd

/-- One program after another. -/
theorem bind {f : α → Process β} {R : β → Tree → Prop} (h : Triple P p Q F)
    (hf : ∀ a, Triple (Q a) (f a) R F) : Triple P (p >>= f) R F := by
  intro d hd
  obtain ⟨hok, herror⟩ := h d hd
  generalize hp : p d = out
  obtain ⟨r, d'⟩ := out
  cases r with
  | error e =>
    rw [bind_of_error hp]
    refine ⟨fun b d'' hr => (by cases hr), fun e' d'' hr => ?_⟩
    obtain ⟨he, rfl⟩ := Prod.mk.inj hr
    obtain rfl := Except.error.inj he
    exact herror e _ hp
  | ok a =>
    rw [bind_of_ok hp]
    exact hf a d' (hok a d' hp)

/-- A program with a handler. -/
theorem tryCatch {handler : Failure → Process α} (h : Triple P p Q F)
    (hh : ∀ e, Triple (F e) (handler e) Q F') :
    Triple P (MonadExcept.tryCatch p handler) Q F' := by
  intro d hd
  obtain ⟨hok, herror⟩ := h d hd
  generalize hp : p d = out
  obtain ⟨r, d'⟩ := out
  cases r with
  | error e =>
    rw [tryCatch_of_error hp]
    exact hh e d' (herror e d' hp)
  | ok a =>
    rw [tryCatch_of_ok hp]
    refine ⟨fun b d'' hr => ?_, fun e d'' hr => (by cases hr)⟩
    obtain ⟨hb, rfl⟩ := Prod.mk.inj hr
    obtain rfl := Except.ok.inj hb
    exact hok a _ hp

/-- A loop keeps what every round keeps. -/
theorem forM {γ : Type} {xs : List γ} {f : γ → Process PUnit} {I : List γ → Tree → Prop}
    (h : ∀ x rest, Triple (I (x :: rest)) (f x) (fun _ => I rest) F) :
    Triple (I xs) (xs.forM f) (fun _ => I []) F := by
  induction xs with
  | nil => exact .pure fun _ h => h
  | cons x xs ih => exact .bind (h x xs) fun _ => ih

/-- What a call sees. -/
theorem look {f : Tree → Except Errno α} (hok : ∀ t a, P t → f t = .ok a → Q a t)
    (herror : ∀ t e, P t → F (.errno e) t) : Triple P (Filesystem.look f) Q F := by
  intro d hd
  unfold Filesystem.look
  split
  · rename_i a houtcome
    refine ⟨fun b d' hr => ?_, fun e d' hr => by cases hr⟩
    obtain ⟨hb, rfl⟩ := Prod.mk.inj hr
    obtain rfl := Except.ok.inj hb
    exact hok _ _ hd (Disk.ok_of_outcome houtcome)
  · rename_i e houtcome
    refine ⟨fun b d' hr => (by cases hr), fun e' d' hr => ?_⟩
    obtain ⟨he, rfl⟩ := Prod.mk.inj hr
    obtain rfl := Except.error.inj he
    exact herror _ _ hd

/-- What a call changes. -/
theorem change {f : Tree → Except Errno Tree} {Q : Unit → Tree → Prop}
    (hok : ∀ t t', P t → f t = .ok t' → Q () t') (herror : ∀ t e, P t → F (.errno e) t) :
    Triple P (Filesystem.change f) Q F := by
  intro d hd
  unfold Filesystem.change
  split
  · rename_i t' houtcome
    refine ⟨fun b d' hr => ?_, fun e d' hr => by cases hr⟩
    obtain ⟨-, rfl⟩ := Prod.mk.inj hr
    exact hok _ _ hd (Disk.ok_of_outcome houtcome)
  · rename_i e houtcome
    refine ⟨fun b d' hr => (by cases hr), fun e' d' hr => ?_⟩
    obtain ⟨he, rfl⟩ := Prod.mk.inj hr
    obtain rfl := Except.error.inj he
    exact herror _ _ hd

end Triple

end Filesystem
