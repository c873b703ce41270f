/-
What the calls of a device promise, said of what is to be seen of it: the instances that
live there, and its mode. A call that fails changes neither; beyond that a call may do to
the device what it likes (count, keep a log, lose its patience), so the laws hold of many
devices.

A rig around a lawful device that shows no made-up instances is lawful (`Rig.view_lawful`),
whatever calls it blocks.
-/
import GpuPartition.Device.Rig
import GpuPartition.Proofs.Calls

namespace GpuPartition

/-- What is to be seen of a device. The laws are promised in valid states only. -/
structure View (δ : Type) where
  valid : δ → Prop
  live : δ → List Instance
  enabled : δ → Bool

namespace View

variable {δ : Type}

/-- The numbers of the live instances. -/
def ids (v : View δ) (d : δ) : List Nat := (v.live d).map (·.id)

/-- The profiles of the live instances. -/
def profiles (v : View δ) (d : δ) : List Profile := (v.live d).map (·.profile)

/-- A state in which the calls keep their promises: it is valid, and no two live instances share
their number. -/
structure Sound (v : View δ) (d : δ) : Prop where
  valid : v.valid d
  distinct : (v.ids d).Nodup

/-- Nothing that is to be seen has changed. -/
structure Same (v : View δ) (d d' : δ) : Prop where
  valid : v.valid d'
  live : (v.live d').Perm (v.live d)
  enabled : v.enabled d' = v.enabled d

/-- An instance of `p` numbered `id` has come to live. -/
structure Added (v : View δ) (p : Profile) (id : Nat) (d d' : δ) : Prop where
  valid : v.valid d'
  fresh : id ∉ v.ids d
  live : ∃ placement, (v.live d').Perm (⟨id, p, placement⟩ :: v.live d)
  enabled : v.enabled d' = v.enabled d

/-- The instance numbered `id` has gone. -/
structure Removed (v : View δ) (id : Nat) (d d' : δ) : Prop where
  valid : v.valid d'
  live : ∃ i, i.id = id ∧ (v.live d).Perm (i :: v.live d')
  enabled : v.enabled d' = v.enabled d

/-- What the calls of a device promise. -/
structure Lawful [Device δ] (v : View δ) : Prop where
  isEnabled_ok : ∀ {d on d'}, v.Sound d → Device.isEnabled d = .ok on d' →
    on = v.enabled d ∧ v.Same d d'
  isEnabled_error : ∀ {d e d'}, v.Sound d → Device.isEnabled d = .error e d' → v.Same d d'
  instances_ok : ∀ {d l d'}, v.Sound d → Device.instances d = .ok l d' →
    l.Perm (v.live d) ∧ v.Same d d'
  instances_error : ∀ {d e d'}, v.Sound d → Device.instances d = .error e d' → v.Same d d'
  create_ok : ∀ {p d id d'}, v.Sound d → Device.create p d = .ok id d' → v.Added p id d d'
  create_error : ∀ {p d e d'}, v.Sound d → Device.create p d = .error e d' → v.Same d d'
  destroy_ok : ∀ {id d d'}, v.Sound d → Device.destroy id d = .ok () d' → v.Removed id d d'
  destroy_error : ∀ {id d e d'}, v.Sound d → Device.destroy id d = .error e d' → v.Same d d'

/-! ## What the laws keep -/

variable {v : View δ} {d d' d'' : δ} {p : Profile} {id : Nat}

theorem Same.trans (h : v.Same d d') (h' : v.Same d' d'') : v.Same d d'' :=
  ⟨h'.valid, h'.live.trans h.live, h'.enabled.trans h.enabled⟩

theorem Same.ids (h : v.Same d d') : (v.ids d').Perm (v.ids d) := h.live.map _

theorem Same.profiles (h : v.Same d d') : (v.profiles d').Perm (v.profiles d) := h.live.map _

theorem Same.sound (h : v.Same d d') (hd : v.Sound d) : v.Sound d' :=
  ⟨h.valid, h.ids.nodup_iff.2 hd.distinct⟩

theorem Added.ids (h : v.Added p id d d') : (v.ids d').Perm (id :: v.ids d) := by
  obtain ⟨placement, hlive⟩ := h.live
  exact hlive.map _

theorem Added.profiles (h : v.Added p id d d') : (v.profiles d').Perm (p :: v.profiles d) := by
  obtain ⟨placement, hlive⟩ := h.live
  exact hlive.map _

theorem Added.sound (h : v.Added p id d d') (hd : v.Sound d) : v.Sound d' :=
  ⟨h.valid, h.ids.nodup_iff.2 (List.nodup_cons.2 ⟨h.fresh, hd.distinct⟩)⟩

theorem Removed.ids (h : v.Removed id d d') : (v.ids d).Perm (id :: v.ids d') := by
  obtain ⟨i, rfl, hlive⟩ := h.live
  exact hlive.map _

theorem Removed.sound (h : v.Removed id d d') (hd : v.Sound d) : v.Sound d' :=
  ⟨h.valid, (List.nodup_cons.1 (h.ids.nodup_iff.1 hd.distinct)).2⟩

/-- Sound states stay sound. The laws say so of every call but a change of mode. -/
theorem Lawful.keptByCalls_sound [Device δ] (hv : v.Lawful)
    (hmode : ∀ on, Keeps v.Sound (Device.setMode on : DeviceM δ Unit)) :
    KeptByCalls v.Sound where
  isEnabled d hd := by
    cases h : (Device.isEnabled : DeviceM δ Bool) d with
    | ok on d' => exact after_of_ok h ▸ (hv.isEnabled_ok hd h).2.sound hd
    | error e d' => exact after_of_error h ▸ (hv.isEnabled_error hd h).sound hd
  setMode := hmode
  instances d hd := by
    cases h : (Device.instances : DeviceM δ (List Instance)) d with
    | ok l d' => exact after_of_ok h ▸ (hv.instances_ok hd h).2.sound hd
    | error e d' => exact after_of_error h ▸ (hv.instances_error hd h).sound hd
  create p d hd := by
    cases h : (Device.create p : DeviceM δ Nat) d with
    | ok id d' => exact after_of_ok h ▸ (hv.create_ok hd h).sound hd
    | error e d' => exact after_of_error h ▸ (hv.create_error hd h).sound hd
  destroy id d hd := by
    cases h : (Device.destroy id : DeviceM δ Unit) d with
    | ok u d' => exact after_of_ok h ▸ (hv.destroy_ok hd h).sound hd
    | error e d' => exact after_of_error h ▸ (hv.destroy_error hd h).sound hd

/-! ## Restriction -/

/-- The view in which only states with the property are valid. -/
def restrict (v : View δ) (P : δ → Prop) : View δ :=
  { v with valid := fun d => v.valid d ∧ P d }

variable {P : δ → Prop}

theorem sound_restrict : (v.restrict P).Sound d ↔ v.Sound d ∧ P d :=
  ⟨fun h => ⟨⟨h.valid.1, h.distinct⟩, h.valid.2⟩, fun h => ⟨⟨h.1.valid, h.2⟩, h.1.distinct⟩⟩

theorem Same.restrict (h : v.Same d d') (hP : P d') : (v.restrict P).Same d d' :=
  ⟨⟨h.valid, hP⟩, h.live, h.enabled⟩

/-- What every call keeps may be taken into the validity of states. -/
theorem Lawful.restrict [Device δ] (hv : v.Lawful) (hP : KeptByCalls P) :
    (v.restrict P).Lawful where
  isEnabled_ok hd h := by
    obtain ⟨hd, hPd⟩ := sound_restrict.1 hd
    obtain ⟨hon, hsame⟩ := hv.isEnabled_ok hd h
    exact ⟨hon, hsame.restrict (hP.isEnabled.of_ok hPd h)⟩
  isEnabled_error hd h := by
    obtain ⟨hd, hPd⟩ := sound_restrict.1 hd
    exact (hv.isEnabled_error hd h).restrict (hP.isEnabled.of_error hPd h)
  instances_ok hd h := by
    obtain ⟨hd, hPd⟩ := sound_restrict.1 hd
    obtain ⟨hl, hsame⟩ := hv.instances_ok hd h
    exact ⟨hl, hsame.restrict (hP.instances.of_ok hPd h)⟩
  instances_error hd h := by
    obtain ⟨hd, hPd⟩ := sound_restrict.1 hd
    exact (hv.instances_error hd h).restrict (hP.instances.of_error hPd h)
  create_ok {p d id d'} hd h := by
    obtain ⟨hd, hPd⟩ := sound_restrict.1 hd
    have hadd := hv.create_ok hd h
    exact ⟨⟨hadd.valid, (hP.create p).of_ok hPd h⟩, hadd.fresh, hadd.live, hadd.enabled⟩
  create_error {p d e d'} hd h := by
    obtain ⟨hd, hPd⟩ := sound_restrict.1 hd
    exact (hv.create_error hd h).restrict ((hP.create p).of_error hPd h)
  destroy_ok {id d d'} hd h := by
    obtain ⟨hd, hPd⟩ := sound_restrict.1 hd
    have hrem := hv.destroy_ok hd h
    exact ⟨⟨hrem.valid, (hP.destroy id).of_ok hPd h⟩, hrem.live, hrem.enabled⟩
  destroy_error {id d e d'} hd h := by
    obtain ⟨hd, hPd⟩ := sound_restrict.1 hd
    exact (hv.destroy_error hd h).restrict ((hP.destroy id).of_error hPd h)

end View

/-! ## Rigs -/

namespace Rig

variable {δ : Type}

/-- A rig shows what its device shows, as long as it makes nothing up. -/
def view (v : View δ) : View (Rig δ) where
  valid r := v.valid r.device ∧ r.ghosts = []
  live r := v.live r.device
  enabled r := v.enabled r.device

variable {v : View δ} {r r' : Rig δ}

theorem sound_view : (view v).Sound r ↔ v.Sound r.device ∧ r.ghosts = [] :=
  ⟨fun h => ⟨⟨h.valid.1, h.distinct⟩, h.valid.2⟩, fun h => ⟨⟨h.1.valid, h.2⟩, h.1.distinct⟩⟩

theorem pass_eq_ok {α : Type} {call : DeviceM δ α} {a : α} (h : pass call r = .ok a r') :
    call r.device = .ok a r'.device ∧ r'.ghosts = r.ghosts := by
  unfold pass at h
  split at h
  next hc =>
    simp only [EStateM.Result.ok.injEq] at h
    obtain ⟨rfl, rfl⟩ := h
    exact ⟨hc, rfl⟩
  next => cases h

theorem pass_eq_error {α : Type} {call : DeviceM δ α} {e : DeviceError}
    (h : pass call r = .error e r') :
    call r.device = .error e r'.device ∧ r'.ghosts = r.ghosts := by
  unfold pass at h
  split at h
  next => cases h
  next hc =>
    simp only [EStateM.Result.error.injEq] at h
    obtain ⟨rfl, rfl⟩ := h
    exact ⟨hc, rfl⟩

theorem view_same (h : v.Same r.device r'.device) (hg : r'.ghosts = []) :
    (view v).Same r r' :=
  ⟨⟨h.valid, hg⟩, h.live, h.enabled⟩

variable [Device δ]

theorem instances_eq (r : Rig δ) :
    Device.instances r = match pass Device.instances r with
      | .ok l r' => .ok (l ++ r'.ghosts) r'
      | .error e r' => .error e r' := by
  cases h : pass Device.instances r with
  | ok l r' => exact bind_of_ok h _
  | error e r' => exact bind_of_error h _

/-- A rig that makes nothing up is as lawful as its device, whatever calls it blocks. -/
theorem view_lawful (hv : v.Lawful) : (view v).Lawful where
  isEnabled_ok {r on r'} hr h := by
    obtain ⟨hd, hg⟩ := sound_view.1 hr
    simp only [Device.isEnabled] at h
    split at h
    · cases h
    · obtain ⟨h, hg'⟩ := pass_eq_ok h
      obtain ⟨hon, hsame⟩ := hv.isEnabled_ok hd h
      exact ⟨hon, view_same hsame (hg'.trans hg)⟩
  isEnabled_error {r e r'} hr h := by
    obtain ⟨hd, hg⟩ := sound_view.1 hr
    simp only [Device.isEnabled] at h
    split at h
    · simp only [block, EStateM.Result.error.injEq] at h
      obtain ⟨-, rfl⟩ := h
      exact ⟨hr.valid, List.Perm.refl _, rfl⟩
    · obtain ⟨h, hg'⟩ := pass_eq_error h
      exact view_same (hv.isEnabled_error hd h) (hg'.trans hg)
  instances_ok {r l r'} hr h := by
    obtain ⟨hd, hg⟩ := sound_view.1 hr
    rw [instances_eq] at h
    split at h
    next l₀ r₁ hp =>
      simp only [EStateM.Result.ok.injEq] at h
      obtain ⟨rfl, rfl⟩ := h
      obtain ⟨h, hg'⟩ := pass_eq_ok hp
      obtain ⟨hl, hsame⟩ := hv.instances_ok hd h
      rw [hg'.trans hg, List.append_nil]
      exact ⟨hl, view_same hsame (hg'.trans hg)⟩
    next => cases h
  instances_error {r e r'} hr h := by
    obtain ⟨hd, hg⟩ := sound_view.1 hr
    rw [instances_eq] at h
    split at h
    next => cases h
    next e₀ r₁ hp =>
      simp only [EStateM.Result.error.injEq] at h
      obtain ⟨rfl, rfl⟩ := h
      obtain ⟨h, hg'⟩ := pass_eq_error hp
      exact view_same (hv.instances_error hd h) (hg'.trans hg)
  create_ok {p r id r'} hr h := by
    obtain ⟨hd, hg⟩ := sound_view.1 hr
    simp only [Device.create] at h
    split at h
    · cases h
    · obtain ⟨h, hg'⟩ := pass_eq_ok h
      have hadd := hv.create_ok hd h
      exact ⟨⟨hadd.valid, hg'.trans hg⟩, hadd.fresh, hadd.live, hadd.enabled⟩
  create_error {p r e r'} hr h := by
    obtain ⟨hd, hg⟩ := sound_view.1 hr
    simp only [Device.create] at h
    split at h
    · simp only [block, EStateM.Result.error.injEq] at h
      obtain ⟨-, rfl⟩ := h
      exact ⟨hr.valid, List.Perm.refl _, rfl⟩
    · obtain ⟨h, hg'⟩ := pass_eq_error h
      exact view_same (hv.create_error hd h) (hg'.trans hg)
  destroy_ok {id r r'} hr h := by
    obtain ⟨hd, hg⟩ := sound_view.1 hr
    obtain ⟨h, hg'⟩ := pass_eq_ok h
    have hrem := hv.destroy_ok hd h
    exact ⟨⟨hrem.valid, hg'.trans hg⟩, hrem.live, hrem.enabled⟩
  destroy_error {id r e r'} hr h := by
    obtain ⟨hd, hg⟩ := sound_view.1 hr
    obtain ⟨h, hg'⟩ := pass_eq_error h
    exact view_same (hv.destroy_error hd h) (hg'.trans hg)

end Rig

end GpuPartition
