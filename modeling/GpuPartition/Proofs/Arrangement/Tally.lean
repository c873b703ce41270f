/-
The running product is exact. Once the items of some kinds are put in, and some of one more, the
tally holds their number and the number of their arrangements, so each division on the way leaves no
rest (`Tally.put_exact`). Arrangements only grow more numerous as items are put in, and a product
that outgrows two words is divided by less than a word, so it ends the count only where the number
of all arrangements outgrows a word (`Tally.ofMultiplicities_outcome`). Hence the product tells what
`count` tells, whatever the order of the multiplicities and whichever of them are zero
(`tallied?_exact`).
-/
import Mathlib.Algebra.Order.BigOperators.Group.List
import Mathlib.Algebra.Order.Group.Nat
import GpuPartition.Arrangement.Tally
import GpuPartition.Proofs.Arrangement.Count

namespace GpuPartition.Arrangement

variable {cs : List Nat}

/-! ## One more item -/

/-- One more item of the last kind. -/
theorem multinomial_succ_mul (cs : List Nat) (i : Nat) :
    multinomial (cs ++ [i + 1]) * (i + 1) = multinomial (cs ++ [i]) * (cs.sum + i + 1) := by
  calc multinomial (cs ++ [i + 1]) * (i + 1)
      = multinomial cs * ((cs.sum + i + 1).choose (i + 1) * (i + 1)) := by
        rw [multinomial_append, Nat.mul_assoc, Nat.add_assoc]
    _ = multinomial cs * ((cs.sum + i + 1) * (cs.sum + i).choose i) := by
        rw [← Nat.add_one_mul_choose_eq]
    _ = multinomial (cs ++ [i]) * (cs.sum + i + 1) := by
        rw [multinomial_append, Nat.mul_assoc, Nat.mul_comm (cs.sum + i + 1)]

theorem multinomial_le_of_le (cs : List Nat) {i c : Nat} (h : i ≤ c) :
    multinomial (cs ++ [i]) ≤ multinomial (cs ++ [c]) := by
  have hchoose : (cs.sum + i).choose i ≤ (cs.sum + c).choose c := by
    rw [Nat.choose_symm_add.symm, (Nat.choose_symm_add (a := cs.sum) (b := c)).symm]
    exact Nat.choose_le_choose _ (Nat.add_le_add_left h _)
  rw [multinomial_append, multinomial_append]
  exact Nat.mul_le_mul_left _ hchoose

theorem multinomial_le_append (cs more : List Nat) :
    multinomial cs ≤ multinomial (cs ++ more) := by
  induction more using List.reverseRecOn with
  | nil => rw [List.append_nil]
  | append_singleton more c ih =>
    rw [← List.append_assoc, multinomial_append]
    exact ih.trans (Nat.le_mul_of_pos_right _ (Nat.choose_pos (Nat.le_add_left c _)))

theorem multinomial_zero (cs : List Nat) : multinomial (cs ++ [0]) = multinomial cs := by
  rw [multinomial_append, Nat.choose_zero_right, Nat.mul_one]

/-! ## The loop -/

namespace Tally

/-- The tally of items of these multiplicities. -/
def exact (cs : List Nat) : Tally := ⟨cs.sum, multinomial cs⟩

theorem exact_zero (cs : List Nat) : exact (cs ++ [0]) = exact cs := by
  rw [exact, multinomial_zero, List.sum_append, List.sum_singleton, Nat.add_zero, exact]

/-- One turn of the loop, where the items can be counted. -/
theorem put_exact (cs : List Nat) (i : Nat) (h : cs.sum + i + 1 ≤ doubleWordMax) :
    (exact (cs ++ [i])).put (i + 1) =
      if doubleWordMax < multinomial (cs ++ [i + 1]) * (i + 1) then .error .total
      else .ok (exact (cs ++ [i + 1])) := by
  have hsum : (cs ++ [i]).sum = cs.sum + i := by rw [List.sum_append, List.sum_singleton]
  have hsum' : (cs ++ [i + 1]).sum = cs.sum + i + 1 := by
    rw [List.sum_append, List.sum_singleton, Nat.add_assoc]
  have hdiv : multinomial (cs ++ [i + 1]) * (i + 1) / (i + 1) = multinomial (cs ++ [i + 1]) :=
    Nat.mul_div_cancel _ i.succ_pos
  rw [put, exact, hsum, if_neg (Nat.not_lt.2 h)]
  simp only [← multinomial_succ_mul, hdiv]
  rw [exact, hsum']

/-- A product that outgrows two words belongs to a number that outgrows one. -/
theorem lt_of_doubleWordMax_lt {m i : Nat} (hi : i ≤ wordMax) (h : doubleWordMax < m * i) :
    wordMax < m := by
  by_contra hm
  have hle : m * i ≤ wordMax * wordMax := Nat.mul_le_mul (Nat.le_of_not_lt hm) hi
  have : wordMax * wordMax ≤ doubleWordMax := by decide
  omega

theorem putKind_succ (t : Tally) (c : Nat) :
    t.putKind (c + 1) = t.putKind c >>= fun t => t.put (c + 1) := by
  rw [putKind, List.range'_concat, List.foldlM_append, putKind]
  refine bind_congr fun t => ?_
  rw [List.foldlM_cons, Nat.one_mul, Nat.add_comm 1 c]
  cases t.put (c + 1) <;> rfl

/-- The items of one kind are put in, or their arrangements outgrow a word. -/
theorem putKind_outcome {c : Nat} (hword : c ≤ wordMax) (hsum : cs.sum + c ≤ doubleWordMax) :
    (exact cs).putKind c = .ok (exact (cs ++ [c])) ∨
      (exact cs).putKind c = .error .total ∧ wordMax < multinomial (cs ++ [c]) := by
  induction c with
  | zero => exact .inl (congrArg Except.ok (exact_zero cs).symm)
  | succ c ih =>
    rw [putKind_succ]
    rcases ih (by omega) (by omega) with hok | ⟨hstop, hlt⟩
    · have hput := put_exact cs c (by omega)
      rw [hok]
      change (exact (cs ++ [c])).put (c + 1) = _ ∨ (exact (cs ++ [c])).put (c + 1) = _ ∧ _
      rw [hput]
      split
      next hmore => exact .inr ⟨rfl, lt_of_doubleWordMax_lt hword hmore⟩
      next => exact .inl rfl
    · rw [hstop]
      exact .inr ⟨rfl, hlt.trans_le (multinomial_le_of_le cs c.le_succ)⟩

theorem ofMultiplicities_append (cs : List Nat) (c : Nat) :
    ofMultiplicities (cs ++ [c]) = ofMultiplicities cs >>= fun t => t.putKind c := by
  rw [ofMultiplicities, List.foldlM_append, ofMultiplicities]
  refine bind_congr fun t => ?_
  rw [List.foldlM_cons]
  cases t.putKind c <;> rfl

/-- All items are put in, or their arrangements outgrow a word. -/
theorem ofMultiplicities_outcome (hwords : ∀ c ∈ cs, c ≤ wordMax) (hsum : cs.sum ≤ doubleWordMax) :
    ofMultiplicities cs = .ok (exact cs) ∨
      ofMultiplicities cs = .error .total ∧ wordMax < multinomial cs := by
  induction cs using List.reverseRecOn with
  | nil => exact .inl rfl
  | append_singleton cs c ih =>
    rw [List.forall_mem_append, List.forall_mem_singleton] at hwords
    rw [List.sum_append, List.sum_singleton] at hsum
    rw [ofMultiplicities_append]
    rcases ih hwords.1 (by omega) with hok | ⟨hstop, hlt⟩
    · rw [hok]
      exact putKind_outcome hwords.2 hsum
    · rw [hstop]
      exact .inr ⟨rfl, hlt.trans_le (multinomial_le_append cs [c])⟩

end Tally

/-! ## The count -/

/-- So many multiplicities can be added up in two words. -/
theorem sum_le_doubleWordMax (hwords : ∀ c ∈ cs, c ≤ wordMax) (hlength : cs.length < UInt64.size) :
    cs.sum ≤ doubleWordMax := by
  calc cs.sum ≤ cs.length * wordMax := by
        simpa using List.sum_le_card_nsmul cs wordMax hwords
    _ ≤ wordMax * wordMax := Nat.mul_le_mul_right _ (Nat.le_pred_of_lt hlength)
    _ ≤ doubleWordMax := by decide

theorem tallied?_eq (hwords : ∀ c ∈ cs, c ≤ wordMax) (hlength : cs.length < UInt64.size) :
    tallied? cs = some (min (multinomial cs) wordMax) := by
  rw [tallied?]
  rcases Tally.ofMultiplicities_outcome hwords (sum_le_doubleWordMax hwords hlength) with
    hok | ⟨hstop, hlt⟩
  · rw [hok]
    exact congrArg some (Nat.min_def.symm)
  · rw [hstop]
    exact congrArg some (Nat.min_eq_right hlt.le).symm

/-- Kinds without items do not matter. -/
theorem multinomial_filter (cs : List Nat) : multinomial (cs.filter (· ≠ 0)) = multinomial cs := by
  have hparts : (cs.filter (· ≠ 0)).sum = cs.sum ∧
      ((cs.filter (· ≠ 0)).map Nat.factorial).prod = (cs.map Nat.factorial).prod := by
    induction cs with
    | nil => exact ⟨rfl, rfl⟩
    | cons c cs ih =>
      rw [List.filter_cons]
      by_cases hc : c = 0
      · simpa [hc] using ih
      · simpa [hc, Nat.factorial_ne_zero] using ih
  rw [multinomial, hparts.1, hparts.2, multinomial]

/-- **The running product is exact.** For multiplicities of one word each, fewer than a word can
count, the product gives the number of distinct arrangements or the greatest word, whichever is
less, and so does `count`. On its way the items can be counted, every division leaves no rest, and
the count ends early only if the number of all arrangements outgrows a word. The result does not
depend on the order of the multiplicities, nor on those that are zero. -/
theorem tallied?_exact (cs : List Nat) (hwords : ∀ c ∈ cs, c ≤ wordMax)
    (hlength : cs.length < UInt64.size) :
    tallied? cs = some (min (multinomial cs) wordMax) ∧
    count cs = min (multinomial cs) wordMax ∧
    (∀ before c after i t, cs = before ++ c :: after → i < c →
      Tally.ofMultiplicities (before ++ [i]) = .ok t →
        t.put (i + 1) ≠ .error .items ∧
        (t.put (i + 1) = .error .total → wordMax < multinomial cs) ∧
        ∀ t', t.put (i + 1) = .ok t' → t'.total * (i + 1) = t.total * t'.items) ∧
    ∀ cs' : List Nat, cs'.length < UInt64.size →
      (cs'.filter (· ≠ 0)).Perm (cs.filter (· ≠ 0)) → tallied? cs' = tallied? cs := by
  refine ⟨tallied?_eq hwords hlength, (count_eq cs).trans (Nat.min_comm _ _), ?_, ?_⟩
  · rintro before c after i t rfl hi ht
    have hsum := sum_le_doubleWordMax hwords hlength
    rw [List.sum_append, List.sum_cons] at hsum
    rw [List.forall_mem_append, List.forall_mem_cons] at hwords
    obtain ⟨hbefore, hc, -⟩ := hwords
    have hexact : t = Tally.exact (before ++ [i]) := by
      have hwords' : ∀ c ∈ before ++ [i], c ≤ wordMax :=
        List.forall_mem_append.2 ⟨hbefore, List.forall_mem_singleton.2 (by omega)⟩
      have hsum' : (before ++ [i]).sum ≤ doubleWordMax := by
        rw [List.sum_append, List.sum_singleton]
        omega
      rcases Tally.ofMultiplicities_outcome hwords' hsum' with hok | ⟨hstop, -⟩
      · exact Except.ok.inj (ht.symm.trans hok)
      · cases ht.symm.trans hstop
    have hput := Tally.put_exact before i (by omega)
    rw [hexact, hput]
    split
    next hmore =>
      refine ⟨by simp, fun _ => ?_, fun t' h => nomatch h⟩
      calc wordMax < multinomial (before ++ [i + 1]) :=
            Tally.lt_of_doubleWordMax_lt (by omega) hmore
        _ ≤ multinomial (before ++ [c]) := multinomial_le_of_le before hi
        _ ≤ multinomial (before ++ [c] ++ after) := multinomial_le_append _ after
        _ = multinomial (before ++ c :: after) := by rw [List.append_assoc, List.singleton_append]
    next =>
      refine ⟨by simp, by simp, fun t' h => ?_⟩
      obtain rfl := Except.ok.inj h
      have hstep := multinomial_succ_mul before i
      simpa [Tally.exact, Nat.add_assoc] using hstep
  · intro cs' hlength' hperm
    have hwords' : ∀ c ∈ cs', c ≤ wordMax := fun c hc => by
      by_cases hzero : c = 0
      · exact hzero ▸ Nat.zero_le _
      · have hmem : c ∈ cs.filter (· ≠ 0) :=
          hperm.subset (List.mem_filter.2 ⟨hc, decide_eq_true hzero⟩)
        exact hwords c (List.mem_filter.1 hmem).1
    rw [tallied?_eq hwords' hlength', tallied?_eq hwords hlength, ← multinomial_filter cs',
      multinomial_perm hperm, multinomial_filter]

/-- Forty different items. The product outgrows two words at the 35th of them, and the number of all
arrangements a word. A kind without items changes nothing. -/
theorem tallied?_exact_forty :
    let cs := List.replicate 40 1
    (∀ c ∈ cs, c ≤ wordMax) ∧ cs.length < UInt64.size ∧
      tallied? cs = some wordMax ∧ tallied? (0 :: cs) = tallied? cs ∧
      ∃ t, Tally.ofMultiplicities (List.replicate 34 1 ++ [0]) = .ok t ∧
        t.put 1 = .error .total ∧ wordMax < multinomial cs := by
  intro cs
  have hwords : ∀ c ∈ cs, c ≤ wordMax := by decide
  have hlength : cs.length < UInt64.size := by decide
  obtain ⟨hcount, -, hturns, hothers⟩ := tallied?_exact cs hwords hlength
  have hmin : min (multinomial cs) wordMax = wordMax := by decide +kernel
  have hturn : Tally.ofMultiplicities (List.replicate 34 1 ++ [0]) = .ok ⟨34, Nat.factorial 34⟩ := by
    decide +kernel
  have hstop : (⟨34, Nat.factorial 34⟩ : Tally).put (0 + 1) = .error .total := by decide +kernel
  refine ⟨hwords, hlength, hmin ▸ hcount, hothers _ (by decide) (.refl _), _, hturn, hstop, ?_⟩
  exact (hturns _ 1 (List.replicate 5 1) 0 _ rfl (by decide) hturn).2.1 hstop

end GpuPartition.Arrangement
