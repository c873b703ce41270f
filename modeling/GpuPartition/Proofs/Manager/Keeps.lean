/-
What every call of a device keeps, the manager's operations keep: they touch a device
through its calls alone, however often they retry and wherever they fail. Only two of them change
the mode; the others keep whatever the other calls keep. An attempt at an order destroys nothing
but what it has created itself (`keeps_createOnto_own`).
-/
import GpuPartition.Proofs.Manager.Steps
import GpuPartition.Proofs.Search

namespace GpuPartition

variable {δ : Type}

/-! ## Searches -/

/-- The attempt keeps the property, whatever it says of an order. -/
def Attempt.Keeps {σ ε : Type} (P : σ → Prop) (attempt : Attempt σ ε) : Prop :=
  ∀ order s, P s → P (attempt order s).2

section

variable {σ ε : Type} {P : σ → Prop} {attempt : Attempt σ ε}

theorem keeps_searchFrom (hattempt : attempt.Keeps P) (layout : Layout)
    (distinct fuel attempts : Nat) (last : Option ε) (cursor : Arrangement.Cursor Profile) {s : σ}
    (hs : P s) : P (searchFrom attempt layout distinct fuel attempts last cursor s).2 := by
  induction fuel generalizing attempts last cursor s with
  | zero => exact hs
  | succ fuel ih =>
    obtain ⟨_ | order⟩ := cursor
    · exact hs
    · rw [searchFrom_some]
      have hs' := hattempt order s hs
      rcases h : attempt order s with ⟨_ | e | e, s'⟩ <;> rw [h] at hs'
      · exact hs'
      · exact ih _ _ _ hs'
      · exact hs'

theorem keeps_searchOrders (hattempt : attempt.Keeps P) (layout : Layout) {s : σ} (hs : P s) :
    P (searchOrders layout attempt s).2 := by
  rw [searchOrders]
  split
  · exact hs
  · exact keeps_searchFrom hattempt _ _ _ _ _ _ hs

end

namespace Manager

variable [Device δ] {P : δ → Prop}

/-! ## Reading and clearing -/

theorem keeps_calling {α : Type} {call : DeviceM δ α} (hcall : Keeps P call)
    (operation : Operation) : Keeps P (calling operation call) := by
  intro d hd
  rw [after, calling]
  cases h : call d with
  | ok a d' => exact hcall.of_ok hd h
  | error e d' => exact hcall.of_error hd h

theorem keeps_mode (hP : KeptInMode P) : Keeps P (mode : ManagerM δ Bool) :=
  keeps_calling hP.isEnabled _

theorem keeps_instances (hP : KeptInMode P) : Keeps P (instances : ManagerM δ (List Instance)) :=
  keeps_calling hP.instances _

theorem keeps_layout (hP : KeptInMode P) : Keeps P (layout : ManagerM δ Layout) :=
  (keeps_instances hP).bind fun _ => .pure _

theorem keeps_destroyAll (hP : KeptInMode P) (ids : List Nat) :
    Keeps P (destroyAll ids : ManagerM δ Unit) := by
  induction ids with
  | nil => exact .pure ()
  | cons id ids ih => exact (keeps_calling (hP.destroy id) _).bind fun _ => ih

theorem keeps_clear (hP : KeptInMode P) : Keeps P (clear : ManagerM δ Unit) := by
  refine (keeps_mode hP).bind fun on => ?_
  cases on with
  | false => exact .pure ()
  | true => exact (keeps_instances hP).bind fun l => keeps_destroyAll hP _

theorem keeps_assertLayout (hP : KeptInMode P) (expected : Layout) :
    Keeps P (assertLayout expected : ManagerM δ Unit) := by
  refine (keeps_layout hP).bind fun actual => ?_
  split
  · exact .pure ()
  · exact .bind .get fun d => .throw _

theorem keeps_setMode (hP : KeptByCalls P) (on : Bool) :
    Keeps P (setMode on : ManagerM δ Unit) := by
  refine (keeps_mode hP.toKeptInMode).bind fun on' => ?_
  split
  · exact .pure ()
  · cases on with
    | false =>
      exact (keeps_clear hP.toKeptInMode).bind fun _ => keeps_calling (hP.setMode false) _
    | true => exact keeps_calling (hP.setMode true) _

/-! ## Replacing the layout -/

theorem keeps_rollback {ids : List Nat}
    (hdestroy : ∀ id ∈ ids, Keeps P (Device.destroy id : DeviceM δ Unit)) :
    Keeps P (rollback ids : DeviceM δ Unit) := by
  induction ids with
  | nil => exact .pure ()
  | cons id ids ih =>
    obtain ⟨hid, hids⟩ := List.forall_mem_cons.1 hdestroy
    exact hid.bind fun _ => ih hids

/-- An attempt keeps what creations keep and destructions of its own instances, whose numbers are
such as creations hand out. -/
theorem keeps_createOnto_own {own : Nat → Prop}
    (hcreate : ∀ p, Keeps P (Device.create p : DeviceM δ Nat))
    (hown : ∀ {p d id d'}, P d → Device.create p d = .ok id d' → own id)
    (hdestroy : ∀ id, own id → Keeps P (Device.destroy id : DeviceM δ Unit))
    (order : List Profile) {created : List Nat} (hcreated : ∀ id ∈ created, own id) {d : δ}
    (hd : P d) : P (createOnto created order d).2 := by
  induction order generalizing created d with
  | nil => exact hd
  | cons p order ih =>
    rw [createOnto_cons]
    split
    next id d₁ h =>
      exact ih (List.forall_mem_cons.2 ⟨hown hd h, hcreated⟩) ((hcreate p).of_ok hd h)
    next e d₁ h =>
      have hroll := keeps_rollback fun id hid => hdestroy id (hcreated id hid)
      have hd₁ := (hcreate p).of_error hd h
      split
      next d₂ h' => exact hroll.of_ok hd₁ h'
      next e' d₂ h' => exact hroll.of_error hd₁ h'

theorem keeps_createInOrder (hP : KeptInMode P) :
    (createInOrder : Attempt δ DeviceError).Keeps P := by
  intro order d hd
  have hown : ∀ id ∈ ([] : List Nat), True := fun _ _ => trivial
  exact keeps_createOnto_own hP.create (fun _ _ => trivial) (fun id _ => hP.destroy id) order hown
    hd

omit [Device δ] in
theorem keeps_preparing {α : Type} {steps : ManagerM δ α} (h : Keeps P steps) (target : Layout) :
    Keeps P (preparing target steps) := by
  intro d hd
  rw [after, preparing, EStateM.adaptExcept]
  cases hs : steps d with
  | ok a d' => exact h.of_ok hd hs
  | error e d' => exact h.of_error hd hs

theorem keeps_createLayout (hP : KeptInMode P) (target : Layout) :
    Keeps P (createLayout target : ManagerM δ Report) := by
  intro d hd
  have h := keeps_searchOrders (keeps_createInOrder hP) target hd
  rw [after, createLayout, StateT.run]
  rcases hsearch : searchOrders target createInOrder d with ⟨cause | found, d'⟩ <;>
    rw [hsearch] at h
  · cases cause <;> exact h
  · exact h

theorem keeps_setLayout (hP : KeptInMode P) (target : Layout) :
    Keeps P (setLayout target : ManagerM δ Report) := by
  refine .bind .get fun d => ?_
  split
  · exact .throw _
  · refine (keeps_preparing (keeps_mode hP) target).bind fun on => ?_
    cases on with
    | false => exact .throw _
    | true =>
      exact (keeps_preparing (keeps_clear hP) target).bind fun _ => keeps_createLayout hP target

theorem keeps_applyTarget (hP : KeptByCalls P) (target : Target) :
    Keeps P (applyTarget target : ManagerM δ Report) := by
  refine (keeps_setMode hP _).bind fun _ => ?_
  split
  · exact keeps_setLayout hP.toKeptInMode _
  · exact .bind .get fun _ => .pure _

end Manager

end GpuPartition
