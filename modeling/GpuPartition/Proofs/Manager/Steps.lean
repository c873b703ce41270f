/-
The manager's operations, call by call: which call comes first, and where the operation goes
on or ends after each answer.
-/
import GpuPartition.Manager
import GpuPartition.Proofs.Calls

namespace GpuPartition.Manager

variable {δ : Type} [Device δ]

theorem calling_eq_ok {α : Type} {operation : Operation} {call : DeviceM δ α} {a : α} {d d' : δ} :
    calling operation call d = .ok a d' ↔ call d = .ok a d' := by
  rw [calling]
  cases call d <;> simp

theorem calling_eq_error {α : Type} {operation : Operation} {call : DeviceM δ α}
    {e : ManagerError} {d d' : δ} : calling operation call d = .error e d' ↔
      ∃ cause, call d = .error cause d' ∧
        e = .fatal (Device.identifier d') operation none 0 cause := by
  rw [calling]
  cases call d with
  | ok a d₁ => simp
  | error cause d₁ =>
    simp only [EStateM.Result.error.injEq]
    constructor
    · rintro ⟨rfl, rfl⟩
      exact ⟨cause, ⟨rfl, rfl⟩, rfl⟩
    · rintro ⟨_, ⟨rfl, rfl⟩, rfl⟩
      exact ⟨rfl, rfl⟩

/-- Clearing destroys as a rollback does, but its failure is the operation's own. -/
theorem destroyAll_eq (ids : List Nat) (d : δ) :
    destroyAll ids d = calling .destroy (rollback ids) d := by
  induction ids generalizing d with
  | nil => rfl
  | cons id ids ih =>
    rw [destroyAll, rollback, calling]
    cases h : Device.destroy id d with
    | ok u d' =>
      have hcall : calling .destroy (Device.destroy id) d = .ok u d' := calling_eq_ok.2 h
      rw [bind_of_ok hcall, bind_of_ok h, ih, calling]
    | error e d' =>
      have hcall : calling .destroy (Device.destroy id) d =
          .error (.fatal (Device.identifier d') .destroy none 0 e) d' :=
        calling_eq_error.2 ⟨e, h, rfl⟩
      rw [bind_of_error hcall, bind_of_error h]

theorem clear_eq (d : δ) :
    clear d = match mode d with
      | .error e d' => .error e d'
      | .ok false d' => .ok () d'
      | .ok true d' => match instances d' with
        | .error e d'' => .error e d''
        | .ok l d'' => calling .destroy (rollback (l.map (·.id))) d'' := by
  rw [clear]
  cases h : mode d with
  | error e d' => rw [bind_of_error h]
  | ok on d' =>
    rw [bind_of_ok h]
    cases on with
    | false => rfl
    | true =>
      cases h' : instances d' with
      | error e d'' =>
        simp only [h']
        exact bind_of_error h' _
      | ok l d'' =>
        simp only [h']
        exact (bind_of_ok h' _).trans (destroyAll_eq _ _)

theorem createOnto_cons (created : List Nat) (p : Profile) (order : List Profile) (d : δ) :
    createOnto created (p :: order) d = match Device.create p d with
      | .ok id d' => createOnto (id :: created) order d'
      | .error e d' => match rollback created d' with
        | .ok () d'' => (.retry e, d'')
        | .error e' d'' => (.fatal e', d'') := rfl

omit [Device δ] in
/-- Failures of the steps before the search name the layout. -/
theorem preparing_eq {α : Type} (target : Layout) (x : ManagerM δ α) (d : δ) :
    preparing target x d = match x d with
      | .ok a d' => .ok a d'
      | .error e d' => .error (e.naming target) d' := by
  unfold preparing EStateM.adaptExcept
  cases x d <;> rfl

theorem setLayout_eq (target : Layout) (d : δ) :
    setLayout target d = match (Device.model d).check target with
      | .error cause => .error (.capacity (Device.identifier d) target cause) d
      | .ok _ => match mode d with
        | .error e d' => .error (e.naming target) d'
        | .ok false d' => .error (.modeOff (Device.identifier d)) d'
        | .ok true d' => match clear d' with
          | .error e d'' => .error (e.naming target) d''
          | .ok () d'' => createLayout target d'' := by
  have hget : (get : ManagerM δ δ) d = .ok d d := rfl
  rw [setLayout, bind_of_ok hget]
  cases (Device.model d).check target with
  | error cause => rfl
  | ok used =>
    cases h : mode d with
    | error e d' =>
      have hmode : preparing target mode d = .error (e.naming target) d' := by
        rw [preparing_eq, h]
      exact bind_of_error hmode _
    | ok on d' =>
      have hmode : preparing target mode d = .ok on d' := by rw [preparing_eq, h]
      refine (bind_of_ok hmode _).trans ?_
      cases on with
      | false => rfl
      | true =>
        cases h' : clear d' with
        | error e d'' =>
          have hclear : preparing target clear d' = .error (e.naming target) d'' := by
            rw [preparing_eq, h']
          simp only [h']
          exact bind_of_error hclear _
        | ok u d'' =>
          have hclear : preparing target clear d' = .ok u d'' := by rw [preparing_eq, h']
          simp only [h']
          exact bind_of_ok hclear _

theorem setMode_eq (on : Bool) (d : δ) :
    setMode on d = match mode d with
      | .error e d' => .error e d'
      | .ok on' d' => if on' = on then .ok () d' else
        match on with
        | true => calling .setMode (Device.setMode true) d'
        | false => match clear d' with
          | .error e d'' => .error e d''
          | .ok () d'' => calling .setMode (Device.setMode false) d'' := by
  rw [setMode]
  cases h : mode d with
  | error e d' => rw [bind_of_error h]
  | ok on' d' =>
    rw [bind_of_ok h]
    by_cases hsame : on' = on
    · simp only [if_pos hsame]
      rfl
    · simp only [if_neg hsame]
      cases on with
      | true => rfl
      | false =>
        cases h' : clear d' with
        | error e d'' => exact bind_of_error h' _
        | ok u d'' => exact bind_of_ok h' _

/-- A target is applied if its mode is set, and then its layout unless the mode is off. -/
theorem applyTarget_eq_ok {t : Target} {d d' : δ} {report : Report} :
    applyTarget t d = .ok report d' ↔ ∃ d₁, setMode t.enabled d = .ok () d₁ ∧
      (t.enabled = true ∧ setLayout t.layout d₁ = .ok report d' ∨
        t.enabled = false ∧ report = ⟨Device.identifier d₁, false, .empty, 0, []⟩ ∧ d' = d₁) := by
  rw [applyTarget, bind_eq_ok]
  constructor
  · rintro ⟨⟨⟩, d₁, hmode, hrest⟩
    refine ⟨d₁, hmode, ?_⟩
    split at hrest
    next hon => exact .inl ⟨hon, hrest⟩
    next hoff =>
      obtain ⟨rfl, rfl⟩ := EStateM.Result.ok.inj hrest
      exact .inr ⟨Bool.eq_false_iff.2 hoff, rfl, rfl⟩
  · rintro ⟨d₁, hmode, ⟨hon, hset⟩ | ⟨hoff, rfl, rfl⟩⟩
    · exact ⟨(), d₁, hmode, by rwa [if_pos hon]⟩
    · exact ⟨(), d', hmode, by rw [hoff]; rfl⟩

/-- It fails where its mode is not set, or its layout is not. -/
theorem applyTarget_eq_error {t : Target} {d d' : δ} {e : ManagerError} :
    applyTarget t d = .error e d' ↔ setMode t.enabled d = .error e d' ∨
      ∃ d₁, setMode t.enabled d = .ok () d₁ ∧ t.enabled = true ∧
        setLayout t.layout d₁ = .error e d' := by
  rw [applyTarget, bind_eq_error]
  refine or_congr_right ⟨?_, ?_⟩
  · rintro ⟨⟨⟩, d₁, hmode, hrest⟩
    split at hrest
    next hon => exact ⟨d₁, hmode, hon, hrest⟩
    next => cases hrest
  · rintro ⟨d₁, hmode, hon, hset⟩
    exact ⟨(), d₁, hmode, by rwa [if_pos hon]⟩

/-! ## Fatal failures -/

omit [Device δ] in
theorem isFatal_iff {e : ManagerError} : e.isFatal = true ↔
    ∃ device operation target attempts cause,
      e = .fatal device operation target attempts cause := by
  cases e <;> simp [ManagerError.isFatal]

/-- The operation fails only with fatal errors. -/
def FailsFatally {α : Type} (x : ManagerM δ α) : Prop :=
  ∀ d e d', x d = .error e d' → e.isFatal = true

theorem failsFatally_calling {α : Type} (operation : Operation) (call : DeviceM δ α) :
    FailsFatally (calling operation call) := by
  intro d e d' h
  obtain ⟨cause, -, rfl⟩ := calling_eq_error.1 h
  rfl

omit [Device δ] in
theorem failsFatally_pure {α : Type} (a : α) : FailsFatally (pure a : ManagerM δ α) := by
  intro d e d' h
  cases h

omit [Device δ] in
theorem FailsFatally.bind {α β : Type} {x : ManagerM δ α} {f : α → ManagerM δ β}
    (hx : FailsFatally x) (hf : ∀ a, FailsFatally (f a)) : FailsFatally (x >>= f) := by
  intro d e d' h
  rcases bind_eq_error.1 h with h | ⟨a, d₁, -, h⟩
  · exact hx d e d' h
  · exact hf a d₁ e d' h

theorem failsFatally_destroyAll (ids : List Nat) :
    FailsFatally (destroyAll ids : ManagerM δ Unit) := by
  induction ids with
  | nil => exact failsFatally_pure ()
  | cons id ids ih => exact (failsFatally_calling _ _).bind fun _ => ih

theorem failsFatally_clear : FailsFatally (clear : ManagerM δ Unit) := by
  refine (failsFatally_calling _ _).bind fun on => ?_
  cases on with
  | false => exact failsFatally_pure ()
  | true => exact (failsFatally_calling _ _).bind fun l => failsFatally_destroyAll _

theorem failsFatally_setMode (on : Bool) : FailsFatally (setMode on : ManagerM δ Unit) := by
  refine (failsFatally_calling _ _).bind fun on' => ?_
  split
  · exact failsFatally_pure ()
  · cases on with
    | false => exact failsFatally_clear.bind fun _ => failsFatally_calling _ _
    | true => exact failsFatally_calling _ _

end GpuPartition.Manager
