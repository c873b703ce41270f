/-
Trees that say the same. The members of a table have no order, so a reader may give those of each
table in another order than the writer was given them; the trees are alike then (`Tree.Alike`). The
items of a list stay where they are.
-/
import Mathlib.Data.List.Forall2
import GpuPartition.Tree

namespace GpuPartition.Tree

mutual

/-- The trees are the same but for the order of the members of their tables. -/
def Alike : Tree → Tree → Prop
  | list items, t => ∃ items', t = list items' ∧ ItemsAlike items items'
  | table members, t => ∃ members' shuffled, t = table shuffled ∧
      MembersAlike members members' ∧ shuffled.Perm members'
  | t, t' => t = t'

def ItemsAlike : List Tree → List Tree → Prop
  | [], [] => True
  | t :: ts, t' :: ts' => t.Alike t' ∧ ItemsAlike ts ts'
  | _, _ => False

/-- Members of the same names, one by one, with values that are alike. -/
def MembersAlike : List (String × Tree) → List (String × Tree) → Prop
  | [], [] => True
  | (name, t) :: ms, (name', t') :: ms' => name = name' ∧ t.Alike t' ∧ MembersAlike ms ms'
  | _, _ => False

end

theorem itemsAlike_iff {ts ts' : List Tree} :
    ItemsAlike ts ts' ↔ List.Forall₂ Alike ts ts' := by
  induction ts generalizing ts' with
  | nil => cases ts' <;> simp [ItemsAlike]
  | cons t ts ih => cases ts' <;> simp [ItemsAlike, ih]

theorem membersAlike_iff {ms ms' : List (String × Tree)} :
    MembersAlike ms ms' ↔ List.Forall₂ (fun m m' => m.1 = m'.1 ∧ m.2.Alike m'.2) ms ms' := by
  induction ms generalizing ms' with
  | nil => cases ms' <;> simp [MembersAlike]
  | cons m ms ih => cases ms' <;> simp [MembersAlike, ih, and_assoc]

mutual

theorem Alike.refl : ∀ t : Tree, t.Alike t
  | list items => ⟨items, rfl, ItemsAlike.refl items⟩
  | table ms => ⟨ms, ms, rfl, MembersAlike.refl ms, .refl ms⟩
  | text _ => rfl
  | natural _ => rfl
  | bool _ => rfl
  | other => rfl
  | unnamed => rfl
  | broken => rfl

theorem ItemsAlike.refl : ∀ ts : List Tree, ItemsAlike ts ts
  | [] => trivial
  | t :: ts => ⟨Alike.refl t, ItemsAlike.refl ts⟩

theorem MembersAlike.refl : ∀ ms : List (String × Tree), MembersAlike ms ms
  | [] => trivial
  | (_, t) :: ms => ⟨rfl, Alike.refl t, MembersAlike.refl ms⟩

end

end GpuPartition.Tree
