/-
Enumerating layouts by a walk over the tree of choices, in machine words. A node of the tree
has counts for the first few offers; the nodes below it add one count more. The walk keeps
the nodes ahead on a stack, of which it visits the top one: a node with a count for every
offer is a layout, and any other is replaced by the nodes below it, the least count on top.

Slices and counts of a node have 32 bits. A number that outgrows its word ends the walk.
-/
import GpuPartition.Enumeration

namespace GpuPartition

/-- The greatest count of an offer within its limit and what is left of the budgets. A need of
nothing fits as often as 32 bits tell. -/
def Offer.mostCounted (o : Offer) (compute memory : Nat) : Nat :=
  let byCompute := fitting (UInt32.size - 1) o.compute compute
  let byMemory := fitting (UInt32.size - 1) o.memory memory
  min (min o.limit byCompute) byMemory

/-- What so many instances leave of a budget, unless they need more than 32 bits tell, or more
than there is. -/
def spend? (budget need count : Nat) : Option Nat :=
  if need * count < UInt32.size ∧ need * count ≤ budget then some (budget - need * count) else none

/-- A node of the tree of choices: for how many offers the count is chosen, the counts, and what
is left of the budgets. -/
structure Choice where
  depth : Nat
  counts : List Nat
  compute : Nat
  memory : Nat

namespace Choice

/-- The node below that has so many instances of the next offer. -/
def child? (node : Choice) (o : Offer) (count : Nat) : Option Choice := do
  let compute ← spend? node.compute o.compute count
  let memory ← spend? node.memory o.memory count
  if node.depth < wordMax then some ⟨node.depth + 1, node.counts ++ [count], compute, memory⟩
  else none

/-- Puts the nodes with the given counts of the next offer on a stack, one after the other. -/
def push? (node : Choice) (o : Offer) (counts : List Nat) (stack : List Choice) :
    Option (List Choice) :=
  counts.foldlM (fun stack count => (node.child? o count).map (· :: stack)) stack

/-- Puts all nodes below on a stack, the greatest count first. -/
def expand? (node : Choice) (o : Offer) (stack : List Choice) : Option (List Choice) :=
  node.push? o (List.range (o.mostCounted node.compute node.memory + 1)).reverse stack

/-- The layout of a node with a count for every offer, unless a count outgrows its word. -/
def layout? (node : Choice) (offers : List Offer) : Option Layout :=
  Layout.ofCounts? ((offers.map (·.profile)).zip node.counts)

/-! ## The walk ends -/

/-- More than the number of nodes below any one node. -/
def breadth (offers : List Offer) : Nat := offers.foldr (fun o n => o.limit + n) 2

/-- More than the number of nodes below the stack, so that it falls with every visit. -/
def ahead (offers : List Offer) (stack : List Choice) : Nat :=
  stack.foldr (fun node n => Nat.pow (breadth offers) (offers.length - node.depth) + n) 0

theorem ahead_cons (offers : List Offer) (node : Choice) (stack : List Choice) :
    ahead offers (node :: stack) =
      Nat.pow (breadth offers) (offers.length - node.depth) + ahead offers stack := rfl

theorem two_le_breadth (offers : List Offer) : 2 ≤ breadth offers := by
  induction offers with
  | nil => exact Nat.le_refl 2
  | cons o offers ih => exact Nat.le_trans ih (Nat.le_add_left _ _)

theorem lt_breadth {offers : List Offer} {o : Offer} (h : o ∈ offers) :
    o.limit + 1 < breadth offers := by
  induction offers with
  | nil => cases h
  | cons o' offers ih =>
    have hrest := two_le_breadth offers
    rw [breadth, List.foldr_cons, ← breadth]
    rcases List.mem_cons.1 h with rfl | h
    · omega
    · have := ih h
      omega

theorem breadth_pow_pos (offers : List Offer) (n : Nat) : 0 < Nat.pow (breadth offers) n :=
  Nat.pow_pos (Nat.zero_lt_of_lt (two_le_breadth offers))

theorem depth_of_child? {node child : Choice} {o : Offer} {count : Nat}
    (h : node.child? o count = some child) : child.depth = node.depth + 1 := by
  simp only [child?, Option.bind_eq_bind, Option.bind_eq_some_iff] at h
  obtain ⟨compute, -, memory, -, h⟩ := h
  split at h
  · rw [← Option.some.inj h]
  · cases h

theorem ahead_push? {offers : List Offer} {node : Choice} {o : Offer} {counts : List Nat}
    {stack stack' : List Choice} (h : node.push? o counts stack = some stack') :
    ahead offers stack' = counts.length * Nat.pow (breadth offers)
      (offers.length - (node.depth + 1)) + ahead offers stack := by
  induction counts generalizing stack with
  | nil =>
    obtain rfl := Option.some.inj h
    rw [List.length_nil, Nat.zero_mul, Nat.zero_add]
  | cons count counts ih =>
    rw [push?, List.foldlM_cons, Option.bind_eq_bind, Option.bind_eq_some_iff] at h
    obtain ⟨_, hmap, hpush⟩ := h
    obtain ⟨child, hchild, rfl⟩ := Option.map_eq_some_iff.1 hmap
    rw [ih hpush, ahead_cons, depth_of_child? hchild, List.length_cons, Nat.succ_mul]
    omega

/-- A node has more ahead than the nodes that take its place. -/
theorem ahead_expand? {offers : List Offer} {node : Choice} {o : Offer}
    {stack stack' : List Choice} (ho : offers[node.depth]? = some o)
    (h : node.expand? o stack = some stack') :
    ahead offers stack' < ahead offers (node :: stack) := by
  obtain ⟨hdepth, rfl⟩ := List.getElem?_eq_some_iff.1 ho
  have hlimit := lt_breadth (List.getElem_mem hdepth)
  have hmost : (offers[node.depth]).mostCounted node.compute node.memory ≤
      (offers[node.depth]).limit :=
    Nat.le_trans (Nat.min_le_left _ _) (Nat.min_le_left _ _)
  have hlevel : offers.length - node.depth = (offers.length - (node.depth + 1)) + 1 := by omega
  have hpow (n : Nat) : Nat.pow (breadth offers) (n + 1) =
      Nat.pow (breadth offers) n * breadth offers := rfl
  rw [ahead_push? h, List.length_reverse, List.length_range, ahead_cons, hlevel, hpow, Nat.mul_comm]
  refine Nat.add_lt_add_right ?_ _
  exact Nat.mul_lt_mul_of_pos_left (by omega) (breadth_pow_pos offers _)

end Choice

/-- Visits the nodes on the stack, and those below them. The layouts are added behind those that
have been found before. -/
def walkFrom? (offers : List Offer) (stack : List Choice) (found : List Layout) :
    Option (List Layout) :=
  match stack with
  | [] => some found
  | node :: stack =>
    match _ho : offers[node.depth]? with
    | none => (node.layout? offers).bind fun l => walkFrom? offers stack (found ++ [l])
    | some o =>
      match _hs : node.expand? o stack with
      | none => none
      | some stack' => walkFrom? offers stack' found
termination_by Choice.ahead offers stack
decreasing_by
  · exact Nat.lt_add_of_pos_left (Choice.breadth_pow_pos offers _)
  · exact Choice.ahead_expand? _ho _hs

/-- The layouts that the offers allow within the budgets, unless a number outgrows its word. -/
def walk? (offers : List Offer) (compute memory : Nat) : Option (List Layout) :=
  walkFrom? offers [⟨0, [], compute, memory⟩] []

end GpuPartition
