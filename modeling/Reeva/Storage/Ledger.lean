import Mathlib.Data.Set.Basic
import Mathlib.Order.Basic

/-!
# A ledger of stored objects

Objects are named by an owner's identifier and a place. The ledger has three books: what is kept for
good, what is reserved until a time, and what is stored. `NoOrphans` says that whatever is stored is
kept or reserved. `Move` lists what may happen to the books, with the condition under which each move
is safe, and the lemmas after it say what the moves of one owner leave to the others. `Change` does the
same for the property that what is kept stays stored.
-/

namespace Ledger

variable {ι π : Type*}

/-- The three books. -/
structure Books (ι π : Type*) where
  /-- What is kept for good. -/
  kept : Set (ι × π)
  /-- What is reserved, and until when. -/
  reserved : Set (ι × π × ℕ)
  /-- What is stored. -/
  stored : Set (ι × π)

namespace Books

/-- Whatever is stored is kept or reserved. -/
def NoOrphans (b : Books ι π) : Prop :=
  ∀ id place, (id, place) ∈ b.stored → (id, place) ∈ b.kept ∨ ∃ e, (id, place, e) ∈ b.reserved

/-- An identifier has one reservation at most. -/
def Functional (b : Books ι π) : Prop :=
  ∀ id place e place' e', (id, place, e) ∈ b.reserved → (id, place', e') ∈ b.reserved →
    place = place' ∧ e = e'

/-- An object is not stored unless it is kept. -/
def Settled (b : Books ι π) (id : ι) (place : π) : Prop :=
  (id, place) ∈ b.stored → (id, place) ∈ b.kept

/-- A reservation that has expired at `n` may be dropped. -/
def Droppable (b : Books ι π) (n : ℕ) (id : ι) (place : π) : Prop :=
  ∀ e ≤ n, (id, place, e) ∈ b.reserved → b.Settled id place

/-- What the owner of the identifiers in `mine` may do to the books at the time `t`. -/
inductive Move (t : ℕ) (mine : Set ι) : Books ι π → Books ι π → Prop
  /-- Nothing. -/
  | idle (b : Books ι π) : Move t mine b b
  /-- An identifier without a reservation gets one. -/
  | reserve (b : Books ι π) (id : ι) (place : π) (e : ℕ) (hid : id ∈ mine)
    (h : ∀ place e, (id, place, e) ∉ b.reserved) :
    Move t mine b { b with reserved := insert (id, place, e) b.reserved }
  /-- An object with an unexpired reservation is stored. -/
  | store (b : Books ι π) (id : ι) (place : π) (e : ℕ) (hid : id ∈ mine) (he : t < e)
    (h : (id, place, e) ∈ b.reserved) :
    Move t mine b { b with stored := insert (id, place) b.stored }
  /-- Any object is removed. -/
  | remove (b : Books ι π) (id : ι) (place : π) :
    Move t mine b { b with stored := b.stored \ {(id, place)} }
  /-- The reservation of a settled identifier is dropped. -/
  | release (b : Books ι π) (id : ι) (hid : id ∈ mine) (h : ∀ place, b.Settled id place) :
    Move t mine b { b with reserved := {x ∈ b.reserved | x.1 ≠ id} }
  /-- An identifier is kept in one place, and its reservation is dropped. -/
  | keep (b : Books ι π) (id : ι) (place : π) (hid : id ∈ mine)
    (h : ∀ place' ≠ place, b.Settled id place') :
    Move t mine b { b with
      kept := insert (id, place) b.kept, reserved := {x ∈ b.reserved | x.1 ≠ id} }
  /-- Droppable reservations are dropped. -/
  | drop (b : Books ι π) (gone : Set (ι × π × ℕ)) (n : ℕ) (hn : n ≤ t)
    (h : ∀ x ∈ gone, x.2.2 ≤ n ∧ b.Droppable n x.1 x.2.1) :
    Move t mine b { b with reserved := b.reserved \ gone }

namespace Move

variable {t : ℕ} {mine : Set ι} {b b' : Books ι π}

/-- Every move keeps what is stored kept or reserved. -/
theorem noOrphans (h : Move t mine b b') (hb : b.NoOrphans) : b'.NoOrphans := by
  cases h with
  | idle => exact hb
  | reserve id place e hid h =>
    intro id' place' hs
    rcases hb id' place' hs with hk | ⟨e', he'⟩
    · exact .inl hk
    · exact .inr ⟨e', .inr he'⟩
  | store id place e hid he h =>
    rintro id' place' (hs | hs)
    · cases hs
      exact .inr ⟨e, h⟩
    · exact hb id' place' hs
  | remove id place => exact fun id' place' hs => hb id' place' hs.1
  | release id hid h =>
    intro id' place' hs
    rcases hb id' place' hs with hk | ⟨e', he'⟩
    · exact .inl hk
    · by_cases heq : id' = id
      · subst heq
        exact .inl (h place' hs)
      · exact .inr ⟨e', he', heq⟩
  | keep id place hid h =>
    intro id' place' hs
    rcases hb id' place' hs with hk | ⟨e', he'⟩
    · exact .inl (.inr hk)
    · by_cases heq : id' = id
      · subst heq
        by_cases hplace : place' = place
        · exact .inl (.inl (by rw [hplace]))
        · exact .inl (.inr (h place' hplace hs))
      · exact .inr ⟨e', he', heq⟩
  | drop gone n hn h =>
    intro id' place' hs
    rcases hb id' place' hs with hk | ⟨e', he'⟩
    · exact .inl hk
    · by_cases hg : (id', place', e') ∈ gone
      · obtain ⟨hle, hd⟩ := h _ hg
        exact .inl (hd e' hle he' hs)
      · exact .inr ⟨e', he', hg⟩

/-- Every move leaves a reservation droppable that has expired before it. -/
theorem droppable (h : Move t mine b b') (hf : b.Functional) (hb : b.NoOrphans) {n : ℕ} (hn : n ≤ t)
    {id' : ι} {place' : π} (hd : b.Droppable n id' place') : b'.Droppable n id' place' := by
  cases h with
  | idle => exact hd
  | reserve id place e hid h =>
    rintro e' hle (he' | he') hs
    · -- The identifier had no reservation, so what is stored under it is kept.
      obtain ⟨rfl, -⟩ := Prod.mk.inj he'
      exact (hb _ _ hs).resolve_right fun ⟨e'', he''⟩ => h _ _ he''
    · exact hd e' hle he' hs
  | store id place e hid he h =>
    rintro e' hle he' (hs | hs)
    · cases hs
      have hee := (hf _ _ _ _ _ h he').2
      omega
    · exact hd e' hle he' hs
  | remove id place => exact fun e' hle he' hs => hd e' hle he' hs.1
  | release id hid h => exact fun e' hle he' hs => hd e' hle he'.1 hs
  | keep id place hid h => exact fun e' hle he' hs => .inr (hd e' hle he'.1 hs)
  | drop gone n' hn' h => exact fun e' hle he' hs => hd e' hle he'.1 hs

/-- A move unsettles none of the identifiers of others. -/
theorem settled (h : Move t mine b b') {id' : ι} (hother : id' ∉ mine) {place' : π}
    (hs : b.Settled id' place') : b'.Settled id' place' := by
  cases h with
  | store id place e hid he h =>
    rintro (hs' | hs')
    · obtain ⟨rfl, -⟩ := Prod.mk.inj hs'
      exact absurd hid hother
    · exact hs hs'
  | remove id place => exact fun hs' => hs hs'.1
  | keep id place hid h => exact fun hs' => .inr (hs hs')
  | _ => exact hs

/-- A move leaves others their unexpired reservations. -/
theorem reserved (h : Move t mine b b') {id' : ι} (hother : id' ∉ mine) {place' : π} {e' : ℕ}
    (he' : t < e') (hr : (id', place', e') ∈ b.reserved) : (id', place', e') ∈ b'.reserved := by
  have hne : ∀ id ∈ mine, id' ≠ id := fun id hid heq => hother (heq ▸ hid)
  cases h with
  | reserve id place e hid h => exact .inr hr
  | release id hid h => exact ⟨hr, hne id hid⟩
  | keep id place hid h => exact ⟨hr, hne id hid⟩
  | drop gone n hn h => exact ⟨hr, fun hg => absurd ((h _ hg).1.trans hn) (not_le.mpr he')⟩
  | _ => exact hr

end Move

/-- Without a reservation, an identifier is settled. -/
theorem NoOrphans.settled {b : Books ι π} (hb : b.NoOrphans) {id : ι} {place : π}
    (h : ∀ e, (id, place, e) ∉ b.reserved) : b.Settled id place := fun hs =>
  (hb id place hs).resolve_right fun ⟨e, he⟩ => h e he

/-! ## Kept objects -/

/-- What is kept is stored. -/
def Backed (b : Books ι π) : Prop := b.kept ⊆ b.stored

/-- Nothing is kept under an identifier. -/
def Unkept (b : Books ι π) (id : ι) : Prop := ∀ place, (id, place) ∉ b.kept

/-- Identifiers with reservations are not kept. -/
def Apart (b : Books ι π) : Prop := ∀ id place e, (id, place, e) ∈ b.reserved → b.Unkept id

/-- What the owner of the identifiers in `mine` may do to the books so that kept objects stay. The
identifiers in `ended` are those whose time is over. -/
inductive Change (ended mine : Set ι) : Books ι π → Books ι π → Prop
  /-- Nothing. -/
  | idle (b : Books ι π) : Change ended mine b b
  /-- Reservations are dropped. -/
  | drop (b : Books ι π) (gone : Set (ι × π × ℕ)) :
    Change ended mine b { b with reserved := b.reserved \ gone }
  /-- An identifier that is not kept gets a reservation. -/
  | reserve (b : Books ι π) (id : ι) (place : π) (e : ℕ) (h : b.Unkept id) :
    Change ended mine b { b with reserved := insert (id, place, e) b.reserved }
  /-- An object is stored. -/
  | store (b : Books ι π) (id : ι) (place : π) :
    Change ended mine b { b with stored := insert (id, place) b.stored }
  /-- An object that is not kept is removed, by its owner or after its time. -/
  | remove (b : Books ι π) (id : ι) (place : π) (hid : id ∈ mine ∨ id ∈ ended) (h : b.Unkept id) :
    Change ended mine b { b with stored := b.stored \ {(id, place)} }
  /-- A stored object is kept by its owner, in time. -/
  | keep (b : Books ι π) (id : ι) (place : π) (hid : id ∈ mine) (hin : id ∉ ended)
    (h : (id, place) ∈ b.stored) : Change ended mine b { b with
      kept := insert (id, place) b.kept, reserved := {x ∈ b.reserved | x.1 ≠ id} }

namespace Change

variable {ended mine : Set ι} {b b' : Books ι π}

/-- What is kept stays stored. -/
theorem backed (h : Change ended mine b b') (hb : b.Backed) : b'.Backed := by
  cases h with
  | idle => exact hb
  | drop gone => exact hb
  | reserve id place e h => exact hb
  | store id place => exact fun x hx => .inr (hb hx)
  | remove id place hid h =>
    refine fun x hx => ⟨hb hx, ?_⟩
    rintro rfl
    exact h place hx
  | keep id place hid hin h =>
    rintro x (rfl | hx)
    · exact h
    · exact hb hx

/-- Kept identifiers stay without reservations. -/
theorem apart (h : Change ended mine b b') (hb : b.Apart) : b'.Apart := by
  cases h with
  | idle => exact hb
  | drop gone => exact fun id place e he => hb id place e he.1
  | reserve id place e h =>
    rintro id' place' e' (he | he)
    · obtain ⟨rfl, -⟩ := Prod.mk.inj he
      exact h
    · exact hb id' place' e' he
  | store id place => exact hb
  | remove id place hid h => exact hb
  | keep id place hid hin h =>
    rintro id' place' e' ⟨he, hne⟩ place'' (heq | hk)
    · exact hne (Prod.mk.inj heq).1
    · exact hb id' place' e' he place'' hk

/-- Nobody keeps the identifiers of others, or those whose time is over. -/
theorem unkept (h : Change ended mine b b') {id : ι} (hid : id ∉ mine ∨ id ∈ ended)
    (hu : b.Unkept id) : b'.Unkept id := by
  cases h with
  | keep id' place hmine hin h =>
    rintro place' (heq | hk)
    · obtain ⟨rfl, -⟩ := Prod.mk.inj heq
      exact hid.elim (fun h => h hmine) hin
    · exact hu place' hk
  | _ => exact hu

/-- Nobody removes the objects of others before their time is over. -/
theorem stored (h : Change ended mine b b') {id : ι} (hid : id ∉ mine) (hin : id ∉ ended)
    {place : π} (hs : (id, place) ∈ b.stored) : (id, place) ∈ b'.stored := by
  cases h with
  | store id' place' => exact .inr hs
  | remove id' place' hown h =>
    refine ⟨hs, fun heq => ?_⟩
    obtain ⟨rfl, -⟩ := Prod.mk.inj heq
    exact hown.elim hid hin
  | _ => exact hs

end Change

end Books

end Ledger
