/-
The arrangements of a list of items in lexicographic order: the first one, and the step
from one to the next. Equal items are never exchanged with each other, so each distinct
arrangement comes up once.

`next?` recurses on the tail: while the tail has a next arrangement, that is the step;
once the tail is the greatest arrangement of itself, the head gives way to the least
item of the tail above it.
-/

namespace GpuPartition.Arrangement

variable {α : Type} [LT α] [DecidableLT α]

/-- The least arrangement: the items in order. -/
def first (items : List α) : List α :=
  items.mergeSort fun a b => !decide (b < a)

/-- Puts into the place of `a` the last item of a non-increasing `rest` that is above it, and
everything else behind it in increasing order. -/
def replaceHead? (a : α) (rest : List α) : Option (List α) :=
  match (rest.takeWhile (a < ·)).reverse with
  | [] => none
  | b :: above => some (b :: ((rest.dropWhile (a < ·)).reverse ++ a :: above))

/-- The next arrangement in lexicographic order, `none` after the greatest one. -/
def next? : List α → Option (List α)
  | [] => none
  | a :: rest =>
    match next? rest with
    | some rest' => some (a :: rest')
    | none => replaceHead? a rest

end GpuPartition.Arrangement
