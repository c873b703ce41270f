/-
What a reader and a writer of TOML owe each other (`Toml.Lawful`). The text of a document is read as
that document, but for the order of the members of its tables, which have none in TOML; and there is
no text for a number beyond the 64-bit integers. The reader and the writer of this library are
lawful (`Toml.lawful`): they put the sections of each table last.
-/
import GpuPartition.Proofs.Toml.Document
import GpuPartition.Proofs.Tree

namespace GpuPartition.Toml

/-- The reader undoes the writer on plain tables, and the writer keeps to the integers of TOML. -/
structure Lawful (print? : Tree → Option String) (parse : String → Option Tree) : Prop where
  read_back : ∀ ms, Plain depthLimit ms →
    ∃ text t, print? (.table ms) = some text ∧ parse text = some t ∧ (Tree.table ms).Alike t
  limited : ∀ t n, Occurs n t → 2 ^ 63 ≤ n → print? t = none

mutual

/-- A tree with its sections last is the tree but for the order of members. -/
theorem alike_arrange : ∀ t : Tree, t.Alike (arrange t)
  | .table ms => by
    obtain ⟨ms', halike, hperm⟩ := membersAlike_arrange ms
    exact ⟨ms', _, rfl, halike, hperm⟩
  | .list items => by
    rw [arrange]
    split
    next => exact ⟨_, rfl, itemsAlike_arrange items⟩
    next => exact .refl _
  | .text _ => rfl
  | .natural _ => rfl
  | .bool _ => rfl
  | .other => rfl
  | .unnamed => rfl
  | .broken => rfl

theorem itemsAlike_arrange : ∀ ts : List Tree, Tree.ItemsAlike ts (arrangeItems ts)
  | [] => trivial
  | t :: ts => ⟨alike_arrange t, itemsAlike_arrange ts⟩

theorem membersAlike_arrange : ∀ ms : List (String × Tree), ∃ ms', Tree.MembersAlike ms ms' ∧
    (ms.filter (fun m => !isSection m.2) ++ arrangeSections ms).Perm ms'
  | [] => ⟨[], trivial, .nil⟩
  | (name, t) :: ms => by
    obtain ⟨ms', halike, hperm⟩ := membersAlike_arrange ms
    cases hsection : isSection t with
    | true =>
      refine ⟨(name, arrange t) :: ms', ⟨rfl, alike_arrange t, halike⟩, ?_⟩
      rw [arrangeSections, if_pos hsection, List.filter_cons_of_neg (by simp [hsection])]
      exact List.perm_middle.trans (hperm.cons _)
    | false =>
      refine ⟨(name, t) :: ms', ⟨rfl, .refl t, halike⟩, ?_⟩
      rw [arrangeSections, if_neg (by simp [hsection]),
        List.filter_cons_of_pos (by simp [hsection])]
      exact hperm.cons _

end

/-- **The law of TOML.** The reader and the writer of TOML undo each other. -/
theorem lawful : Lawful print? parse where
  read_back := fun ms h => by
    obtain ⟨text, hprint, hparse⟩ := parse_print h
    exact ⟨text, _, hprint, hparse, alike_arrange (.table ms)⟩
  limited := fun t n hn hlimit => by
    have hinteger : integerLimit = 2 ^ 63 := by decide
    cases t with
    | table ms =>
      cases hprint : print? (.table ms) with
      | none => rfl
      | some text =>
        have := lt_of_print? hprint hn
        omega
    | _ => rfl

end GpuPartition.Toml
