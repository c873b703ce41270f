/-
Enumerating layouts: every way to choose a count for each offer such that the slices
taken stay within two budgets. The choices come in lexicographic order, all zero first.
-/
import GpuPartition.Model

namespace GpuPartition

/-- How often a need fits into a budget; a need of nothing fits as often as `most`. -/
def fitting (most need budget : Nat) : Nat :=
  if need = 0 then most else budget / need

/-- The greatest count of an offer within its limit and what is left of the budgets. -/
def Offer.most (o : Offer) (compute memory : Nat) : Nat :=
  min o.limit (min (fitting o.limit o.compute compute) (fitting o.limit o.memory memory))

/-- The counts, one for each offer, that stay within the budgets, in lexicographic order. -/
def choices : List Offer → (compute memory : Nat) → List (List Nat)
  | [], _, _ => [[]]
  | o :: offers, compute, memory =>
    (List.range (o.most compute memory + 1)).flatMap fun n =>
      (choices offers (compute - o.compute * n) (memory - o.memory * n)).map (n :: ·)

/-- The layouts that the offers allow within the budgets. Offers of one profile accumulate. -/
def layoutsWithin (offers : List Offer) (compute memory : Nat) : List Layout :=
  (choices offers compute memory).map fun counts =>
    Layout.ofCounts ((offers.map (·.profile)).zip counts)

/-- The layouts that fit a model. -/
def Model.layouts (m : Model) : List Layout :=
  layoutsWithin m.offers m.computeSlices m.memorySlices

end GpuPartition
