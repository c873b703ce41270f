/-
The walk over the tree of choices is exact. A node stands for the choices that start with its counts
(`Choice.layouts`). It is sound if it keeps to limits and budgets; then none of its numbers outgrows
its word, and the nodes below it are sound and stand, in order, for what it stands for
(`Choice.Sound.expand?_eq`, `Choice.layouts_eq_flatMap`). So the walk finds, node after node, what the
stack stands for (`walkFrom?_eq`), and from the root the layouts of all choices (`walk?_exact`).
-/
import Mathlib.Algebra.Order.BigOperators.Group.List
import Mathlib.Algebra.Order.Group.Nat
import GpuPartition.Enumeration.Walk
import GpuPartition.Proofs.Enumeration

namespace GpuPartition

variable {o : Offer} {offers : List Offer} {counts : List Nat} {compute memory : Nat}

/-- The numbers of an offer have 32 bits. -/
structure Offer.Narrow (o : Offer) : Prop where
  compute : o.compute < UInt32.size
  memory : o.memory < UInt32.size
  limit : o.limit < UInt32.size

instance (o : Offer) : Decidable o.Narrow :=
  decidable_of_iff (o.compute < UInt32.size ∧ o.memory < UInt32.size ∧ o.limit < UInt32.size)
    ⟨fun ⟨hcompute, hmemory, hlimit⟩ => ⟨hcompute, hmemory, hlimit⟩,
      fun ⟨hcompute, hmemory, hlimit⟩ => ⟨hcompute, hmemory, hlimit⟩⟩

/-! ## Machine words -/

theorem min_fitting {limit most : Nat} (h : limit ≤ most) (need budget : Nat) :
    min limit (fitting most need budget) = min limit (fitting limit need budget) := by
  rw [fitting, fitting]
  by_cases hneed : need = 0
  · rw [if_pos hneed, if_pos hneed, Nat.min_self, Nat.min_eq_left h]
  · rw [if_neg hneed, if_neg hneed]

/-- The greatest count is found in 32 bits. -/
theorem Offer.mostCounted_eq (h : o.limit < UInt32.size) (compute memory : Nat) :
    o.mostCounted compute memory = o.most compute memory := by
  have hcompute := min_fitting (Nat.le_pred_of_lt h) o.compute compute
  have hmemory := min_fitting (Nat.le_pred_of_lt h) o.memory memory
  simp only [mostCounted, most, Nat.pred_eq_sub_one] at *
  omega

theorem spend?_eq {budget need n : Nat} (hbudget : budget < UInt32.size) (h : need * n ≤ budget) :
    spend? budget need n = some (budget - need * n) := by
  rw [spend?, if_pos ⟨h.trans_lt hbudget, h⟩]

/-- A layout of so few offers of 32 bits counts no profile above a word. -/
theorem count_layoutOf_le (hlength : offers.length < UInt32.size)
    (hnarrow : ∀ o ∈ offers, o.limit < UInt32.size)
    (hlimits : List.Forall₂ (fun o n => n ≤ o.limit) offers counts) (p : Profile) :
    (layoutOf offers counts).count p ≤ wordMax := by
  have hsum : (layoutOf offers counts).count p ≤ (offers.map Offer.limit).sum := by
    clear hlength hnarrow
    induction hlimits with
    | nil => exact Nat.zero_le _
    | cons hlimit _ ih =>
      rw [count_layoutOf_cons, List.map_cons, List.sum_cons]
      split <;> omega
  have hbound : (offers.map Offer.limit).sum ≤ offers.length * (UInt32.size - 1) := by
    have hmap : ∀ n ∈ offers.map Offer.limit, n ≤ UInt32.size - 1 := by
      intro n hn
      obtain ⟨o, ho, rfl⟩ := List.mem_map.1 hn
      exact Nat.le_pred_of_lt (hnarrow o ho)
    simpa using List.sum_le_card_nsmul _ _ hmap
  calc (layoutOf offers counts).count p ≤ offers.length * (UInt32.size - 1) := hsum.trans hbound
    _ ≤ (UInt32.size - 1) * (UInt32.size - 1) :=
        Nat.mul_le_mul_right _ (Nat.le_pred_of_lt hlength)
    _ ≤ wordMax := by decide

namespace Choice

variable {node : Choice} {stack : List Choice}

/-! ## Nodes -/

/-- The node chooses counts for the first offers, within their limits, and has budgets of 32 bits
left. -/
structure Sound (offers : List Offer) (node : Choice) : Prop where
  limits : List.Forall₂ (fun o n => n ≤ o.limit) (offers.take node.depth) node.counts
  depth : node.depth ≤ offers.length
  compute : node.compute < UInt32.size
  memory : node.memory < UInt32.size

/-- The layouts of the choices that start with the counts of the node. -/
def layouts (offers : List Offer) (node : Choice) : List Layout :=
  (choices (offers.drop node.depth) node.compute node.memory).map fun counts =>
    layoutOf offers (node.counts ++ counts)

/-- The node below with so many instances of the next offer. -/
def child (node : Choice) (o : Offer) (n : Nat) : Choice :=
  ⟨node.depth + 1, node.counts ++ [n], node.compute - o.compute * n, node.memory - o.memory * n⟩

theorem Sound.child?_eq (h : node.Sound offers) (hlength : offers.length < UInt32.size) {n : Nat}
    (hn : n ≤ o.most node.compute node.memory) : node.child? o n = some (node.child o n) := by
  obtain ⟨-, hcompute, hmemory⟩ := Offer.le_most_iff.1 hn
  have hdepth : node.depth < wordMax :=
    (h.depth.trans_lt hlength).trans_le (by decide)
  rw [child?, spend?_eq h.compute hcompute, spend?_eq h.memory hmemory]
  exact if_pos hdepth

theorem Sound.child (h : node.Sound offers) (ho : offers[node.depth]? = some o) {n : Nat}
    (hn : n ≤ o.limit) : (node.child o n).Sound offers where
  limits := by
    obtain ⟨hdepth, rfl⟩ := List.getElem?_eq_some_iff.1 ho
    change List.Forall₂ _ (offers.take (node.depth + 1)) (node.counts ++ [n])
    rw [List.take_succ_eq_append_getElem hdepth]
    exact List.rel_append h.limits (.cons hn .nil)
  depth := (List.getElem?_eq_some_iff.1 ho).1
  compute := (Nat.sub_le _ _).trans_lt h.compute
  memory := (Nat.sub_le _ _).trans_lt h.memory

/-- Nodes that are pushed from the last to the first lie on the stack in order. -/
theorem push?_reverse {ns : List Nat} (h : ∀ n ∈ ns, node.child? o n = some (node.child o n)) :
    node.push? o ns.reverse stack = some (ns.map (node.child o) ++ stack) := by
  induction ns with
  | nil => rfl
  | cons n ns ih =>
    rw [List.forall_mem_cons] at h
    rw [List.reverse_cons, push?, List.foldlM_append, ← push?, ih h.2]
    change ((node.child? o n).map _ >>= pure) = _
    rw [h.1]
    rfl

/-- A sound node is replaced by the nodes below it, the least count on top. -/
theorem Sound.expand?_eq (h : node.Sound offers) (hlength : offers.length < UInt32.size)
    (hlimit : o.limit < UInt32.size) :
    node.expand? o stack =
      some ((List.range (o.most node.compute node.memory + 1)).map (node.child o) ++ stack) := by
  rw [expand?, Offer.mostCounted_eq hlimit]
  exact push?_reverse fun n hn =>
    h.child?_eq hlength (Nat.le_of_lt_succ (List.mem_range.1 hn))

/-- A node stands for what the nodes below it stand for. -/
theorem layouts_eq_flatMap (ho : offers[node.depth]? = some o) :
    node.layouts offers = ((List.range (o.most node.compute node.memory + 1)).map
      (node.child o)).flatMap (layouts offers) := by
  obtain ⟨hdepth, rfl⟩ := List.getElem?_eq_some_iff.1 ho
  rw [layouts, List.drop_eq_getElem_cons hdepth, choices, List.map_flatMap, List.flatMap_map]
  refine List.flatMap_congr fun n _ => ?_
  rw [layouts, List.map_map]
  refine List.map_congr_left fun counts _ => ?_
  rw [Function.comp, child, List.append_assoc, List.singleton_append]

/-- A sound node with a count for every offer stands for its layout. -/
theorem Sound.layout?_eq (h : node.Sound offers) (hlength : offers.length < UInt32.size)
    (hnarrow : ∀ o ∈ offers, o.limit < UInt32.size) (hend : offers[node.depth]? = none) :
    ∃ l, node.layout? offers = some l ∧ node.layouts offers = [l] := by
  have hle := List.getElem?_eq_none_iff.1 hend
  have hlimits := h.limits
  rw [List.take_of_length_le hle] at hlimits
  refine ⟨layoutOf offers node.counts, ?_, ?_⟩
  · rw [layout?, Layout.ofCounts?]
    exact if_pos (Layout.fits_iff.2 (count_layoutOf_le hlength hnarrow hlimits))
  · rw [layouts, List.drop_of_length_le hle]
    simp [choices]

end Choice

/-! ## The walk -/

theorem walkFrom?_of_layout {node : Choice} {stack : List Choice} {found : List Layout} {l : Layout}
    (hend : offers[node.depth]? = none) (hl : node.layout? offers = some l) :
    walkFrom? offers (node :: stack) found = walkFrom? offers stack (found ++ [l]) := by
  rw [walkFrom?]
  split
  next => rw [hl, Option.bind_some]
  next ho => rw [hend] at ho; cases ho

theorem walkFrom?_of_expand {node : Choice} {stack stack' : List Choice} {found : List Layout}
    (ho : offers[node.depth]? = some o) (hs : node.expand? o stack = some stack') :
    walkFrom? offers (node :: stack) found = walkFrom? offers stack' found := by
  rw [walkFrom?]
  split
  next hend => rw [ho] at hend; cases hend
  next o' ho' =>
    obtain rfl : o = o' := Option.some.inj (ho.symm.trans ho')
    split
    next hnone => rw [hs] at hnone; cases hnone
    next stack₁ hs₁ => rw [Option.some.inj (hs.symm.trans hs₁)]

/-- The walk finds what the nodes on the stack stand for, from the top down. -/
theorem walkFrom?_eq (hlength : offers.length < UInt32.size)
    (hnarrow : ∀ o ∈ offers, o.limit < UInt32.size) {stack : List Choice} {found : List Layout}
    (hstack : ∀ node ∈ stack, node.Sound offers) :
    walkFrom? offers stack found = some (found ++ stack.flatMap (Choice.layouts offers)) := by
  induction stack, found using walkFrom?.induct offers with
  | case1 found => rw [walkFrom?, List.flatMap_nil, List.append_nil]
  | case2 found node stack hend ih =>
    obtain ⟨hnode, hstack⟩ := List.forall_mem_cons.1 hstack
    obtain ⟨l, hl, hlayouts⟩ := hnode.layout?_eq hlength hnarrow hend
    rw [walkFrom?_of_layout hend hl, ih l hstack, List.flatMap_cons, hlayouts, List.append_assoc]
  | case3 found node stack o ho hnone =>
    obtain ⟨hnode, -⟩ := List.forall_mem_cons.1 hstack
    rw [hnode.expand?_eq hlength (hnarrow o (List.mem_of_getElem? ho))] at hnone
    cases hnone
  | case4 found node stack o ho stack' hs ih =>
    obtain ⟨hnode, hstack⟩ := List.forall_mem_cons.1 hstack
    rw [walkFrom?_of_expand ho hs]
    rw [hnode.expand?_eq hlength (hnarrow o (List.mem_of_getElem? ho))] at hs
    obtain rfl := Option.some.inj hs
    have hchildren : ∀ child ∈ (List.range (o.most node.compute node.memory + 1)).map
        (node.child o), child.Sound offers := by
      intro child hchild
      obtain ⟨n, hn, rfl⟩ := List.mem_map.1 hchild
      have hmost := Nat.le_of_lt_succ (List.mem_range.1 hn)
      exact hnode.child ho (Offer.le_most_iff.1 hmost).1
    rw [ih (List.forall_mem_append.2 ⟨hchildren, hstack⟩), List.flatMap_append, List.flatMap_cons,
      Choice.layouts_eq_flatMap ho]

/-- The walk ends without overflow, with the layouts in the order of their choices. -/
theorem walk?_eq (hlength : offers.length < UInt32.size) (hnarrow : ∀ o ∈ offers, o.Narrow)
    (hcompute : compute < UInt32.size) (hmemory : memory < UInt32.size) :
    walk? offers compute memory = some (layoutsWithin offers compute memory) := by
  have hroot : (⟨0, [], compute, memory⟩ : Choice).Sound offers :=
    ⟨.nil, Nat.zero_le _, hcompute, hmemory⟩
  rw [walk?, walkFrom?_eq hlength (fun o ho => (hnarrow o ho).limit)
    (List.forall_mem_singleton.2 hroot), List.nil_append, List.flatMap_singleton]
  rfl

/-! ## What it finds -/

/-- The first choice has no instances. -/
theorem head?_choices (offers : List Offer) (compute memory : Nat) :
    (choices offers compute memory).head? = some (List.replicate offers.length 0) := by
  induction offers generalizing compute memory with
  | nil => rfl
  | cons o offers ih =>
    rw [choices, List.range_succ_eq_map, List.flatMap_cons, List.head?_append, List.head?_map, ih]
    rfl

theorem layoutOf_replicate (offers : List Offer) :
    layoutOf offers (List.replicate offers.length 0) = .empty := by
  refine Layout.ext_count fun p => ?_
  induction offers with
  | nil => rfl
  | cons o offers ih =>
    rw [List.length_cons, List.replicate_succ, count_layoutOf_cons, ih, ite_self, Nat.zero_add]

/-- **The walk is exact.** For fewer than `2 ^ 32` offers whose numbers have 32 bits, and budgets of
32 bits, the walk ends, no number on its way outgrows its word, and no budget falls below nothing.
What it finds is what `layoutsWithin` lists: the layouts of all counts, one for each offer, that keep
to the limits and within both budgets, in strictly increasing lexicographic order of the counts. The
first of them is empty, and among offers of distinct profiles no two are equal. -/
theorem walk?_exact (offers : List Offer) (compute memory : Nat)
    (hlength : offers.length < UInt32.size) (hnarrow : ∀ o ∈ offers, o.Narrow)
    (hcompute : compute < UInt32.size) (hmemory : memory < UInt32.size) :
    walk? offers compute memory = some (layoutsWithin offers compute memory) ∧
    ∃ choices : List (List Nat),
      layoutsWithin offers compute memory = choices.map (fun counts =>
        .ofCounts ((offers.map Offer.profile).zip counts)) ∧
      (∀ counts, counts ∈ choices ↔
        List.Forall₂ (fun o n => n ≤ o.limit) offers counts ∧
        (List.zipWith (fun o n => o.compute * n) offers counts).sum ≤ compute ∧
        (List.zipWith (fun o n => o.memory * n) offers counts).sum ≤ memory) ∧
      choices.Pairwise (· < ·) ∧
      (layoutsWithin offers compute memory).head? = some .empty ∧
      ((offers.map Offer.profile).Nodup → (layoutsWithin offers compute memory).Nodup) := by
  refine ⟨walk?_eq hlength hnarrow hcompute hmemory, choices offers compute memory, rfl,
    fun counts => mem_choices, choices_increasing offers compute memory, ?_,
    fun hdistinct => layoutsWithin_nodup hdistinct compute memory⟩
  rw [layoutsWithin_eq, List.head?_map, head?_choices, Option.map_some, layoutOf_replicate]

/-- Two offers of one profile, each in need of slices of one kind only, and one in need of nothing.
The first has the greatest limit of 32 bits. -/
theorem walk?_exact_repeated :
    let offers : List Offer := [⟨⟨1, 5⟩, 1, 0, UInt32.size - 1, []⟩, ⟨⟨1, 5⟩, 0, 2, 7, []⟩,
      ⟨⟨2, 10⟩, 0, 0, 1, []⟩]
    offers.length < UInt32.size ∧ (∀ o ∈ offers, o.Narrow) ∧
      ∃ found, walk? offers 1 3 = some found ∧ found.map Layout.text =
        ["\x7b\x7d", "\x7b2g.10gb: 1\x7d", "\x7b1g.5gb: 1\x7d", "\x7b1g.5gb: 1, 2g.10gb: 1\x7d",
          "\x7b1g.5gb: 1\x7d", "\x7b1g.5gb: 1, 2g.10gb: 1\x7d", "\x7b1g.5gb: 2\x7d",
          "\x7b1g.5gb: 2, 2g.10gb: 1\x7d"] := by
  intro offers
  have hlength : offers.length < UInt32.size := by decide
  have hnarrow : ∀ o ∈ offers, o.Narrow := by decide
  have hwalk := (walk?_exact offers 1 3 hlength hnarrow (by decide) (by decide)).1
  exact ⟨hlength, hnarrow, _, hwalk, by decide +kernel⟩

end GpuPartition
