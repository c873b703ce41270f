/-
Walking through the arrangements of a list of items. A cursor holds the arrangement that
comes up next; `next` hands it out and moves on, and past the last one it stays at the end.
-/
import GpuPartition.Arrangement.Successor

namespace GpuPartition.Arrangement

/-- A place in the sequence of arrangements; `none` is its end. -/
structure Cursor (α : Type) where
  upcoming : Option (List α)
  deriving Repr

namespace Cursor

variable {α : Type} [LT α] [DecidableLT α]

/-- In front of the first arrangement of the items. The order of the items does not matter, and
no items have one arrangement. -/
def start (items : List α) : Cursor α := ⟨some (first items)⟩

/-- Hands out the upcoming arrangement, if there is one, and moves past it. -/
def next (c : Cursor α) : Option (List α) × Cursor α :=
  match c.upcoming with
  | none => (none, c)
  | some a => (some a, ⟨next? a⟩)

/-- Moves past `n` arrangements. -/
def drop : Nat → Cursor α → Cursor α
  | 0, c => c
  | n + 1, c => drop n c.next.2

/-- Hands out up to `n` arrangements behind those already in `taken`, which is in reverse. -/
def takeOnto (taken : List (List α)) : Nat → Cursor α → List (List α) × Cursor α
  | 0, c => (taken.reverse, c)
  | n + 1, c =>
    match c.next with
    | (none, c) => (taken.reverse, c)
    | (some a, c) => takeOnto (a :: taken) n c

/-- Hands out up to `n` arrangements. -/
def take (n : Nat) (c : Cursor α) : List (List α) × Cursor α := takeOnto [] n c

/-- The number of arrangements ahead on top of `counted`, as far as `n` more are looked at. -/
def countOnto (counted : Nat) : Nat → Cursor α → Nat
  | 0, _ => counted
  | n + 1, c =>
    match c.next with
    | (none, _) => counted
    | (some _, c) => countOnto (counted + 1) n c

/-- The number of arrangements ahead, at most `n`. -/
def ahead (n : Nat) (c : Cursor α) : Nat := countOnto 0 n c

@[simp] theorem next_end : (⟨none⟩ : Cursor α).next = (none, ⟨none⟩) := rfl

end Cursor

/-- The product of the numbers up to `n`, which bounds the arrangements of `n` items. -/
def factorial : Nat → Nat
  | 0 => 1
  | n + 1 => (n + 1) * factorial n

/-- Every arrangement of the items, in lexicographic order. -/
def all {α : Type} [LT α] [DecidableLT α] (items : List α) : List (List α) :=
  ((Cursor.start items).take (factorial items.length)).1

end GpuPartition.Arrangement
