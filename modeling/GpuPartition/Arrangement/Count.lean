/-
How many distinct arrangements a multiset has: `n! / (c₁! ⋯ cₖ!)` for multiplicities
`c₁ … cₖ` of sum `n`, as a product of binomial coefficients, one for each kind of item put
in among the items before it. Numbers stop growing at a cap, so that large multiplicities
cost little.
-/
import GpuPartition.Layout

namespace GpuPartition.Arrangement

/-- Continues from the value of `n` over `i` to that of `n` over `i + steps`, as long as it is
below `cap`. -/
def chooseFrom (cap n : Nat) : (steps i value : Nat) → Nat
  | 0, _, value => value
  | steps + 1, i, value =>
    if cap ≤ value then cap else chooseFrom cap n steps (i + 1) (value * (n - i) / (i + 1))

/-- The binomial coefficient `n` over `k`, or `cap` where it is above. Of `k` and `n - k` the
lesser is counted to, so the values on the way do not fall. -/
def cappedChoose (cap n k : Nat) : Nat :=
  min cap (chooseFrom cap n (min k (n - k)) 0 1)

/-- The number of distinct arrangements, or `cap` where it is above. -/
def cappedCount (cap : Nat) (multiplicities : List Nat) : Nat :=
  (multiplicities.foldl (fun (n, total) c =>
    (n + c, min cap (total * cappedChoose cap (n + c) c))) (0, min cap 1)).2

/-- The number of distinct arrangements, as far as a machine word tells. -/
def count (multiplicities : List Nat) : Nat := cappedCount wordMax multiplicities

end GpuPartition.Arrangement
