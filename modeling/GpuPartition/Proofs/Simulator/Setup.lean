/-
The setup of a simulated GPU, its index, model, rules and fault plan, is not touched by any
call (`keptByCalls_of_setup`). So where the plan is without faults it stays so, and then
neither a listing fails nor the destruction of a live instance, and the layout can be read.
-/
import GpuPartition.Proofs.Manager.FailureModel

namespace GpuPartition.Simulator

/-- What calls do not change. -/
structure Setup where
  index : Nat
  model : Model
  rules : List CreateRule
  faults : FaultPlan

/-- The setup of a device. -/
def setup (s : Simulator) : Setup := ⟨s.index, s.model, s.rules, s.faults⟩

theorem setup_eq {s s' : Simulator} (h : Changes s s') : s'.setup = s.setup := by
  cases h <;> rfl

/-- What depends on the setup alone is kept by every call. -/
theorem keptByCalls_of_setup {P : Simulator → Prop}
    (hP : ∀ {s s' : Simulator}, s'.setup = s.setup → P s → P s') : KeptByCalls P :=
  keptByCalls_of_changes fun h => hP (setup_eq h)

/-! ## Plans without faults -/

variable {P : Simulator → Prop} {s : Simulator} {e : DeviceError}

theorem not_queryFailed_isEnabled {v : View Simulator} :
    ¬ v.QueryFailed Device.isEnabled e s := by
  rintro ⟨s₁, -, hcall⟩
  cases hcall

theorem not_listFailed (hP : ∀ {s}, P s → s.faults = .none) :
    ¬ (view.restrict P).QueryFailed Device.instances e s := by
  rintro ⟨s₁, hs₁, hcall⟩
  change instances s₁ = _ at hcall
  rw [instances_eq, hP (View.sound_restrict.1 hs₁).2] at hcall
  cases hcall

theorem not_destroyFailed_of_faults (hP : ∀ {s}, P s → s.faults = .none) (hon : s.enabled = true) :
    ¬ (view.restrict P).DestroyFailed e s := by
  rintro ⟨id, s₁, hs₁, hid, hcall⟩
  obtain rfl := destroy_of_error hcall
  have hfaults := hP (View.sound_restrict.1 hs₁).2
  have hgo : destroy id s₁ = .ok () _ :=
    destroy_eq_ok.2 ⟨hon, by rw [destroyBlocked, hfaults]; rfl, List.mem_map.1 hid, rfl⟩
  cases hgo.symm.trans hcall

theorem layout_of_faults (hfaults : s.faults = .none) : Manager.layout s =
    .ok (Layout.ofProfiles (view.profiles s)) { s with calls.list := s.calls.list + 1 } := by
  have hlist := instances_eq s
  rw [if_neg (by rw [hfaults]; decide)] at hlist
  have hcall : (Manager.instances : ManagerM Simulator _) s = .ok s.live _ :=
    Manager.calling_eq_ok.2 hlist
  exact bind_of_ok hcall _

end GpuPartition.Simulator
