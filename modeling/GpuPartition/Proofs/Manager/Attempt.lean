/-
One attempt to create instances in a given order, on a lawful device that holds nothing but
what the attempt has created: all of them live afterwards, or none does, or a destruction
failed on the way back.
-/
import Mathlib.Data.List.Perm.Subperm
import GpuPartition.Proofs.Device.Lawful
import GpuPartition.Proofs.Manager.Steps

namespace GpuPartition

variable {δ : Type} [Device δ]

/-- The destruction of a live instance has failed with `e`, and has left `d'`. -/
def View.DestroyFailed (v : View δ) (e : DeviceError) (d' : δ) : Prop :=
  ∃ id d₁, v.Sound d₁ ∧ id ∈ v.ids d₁ ∧ Device.destroy id d₁ = .error e d'

namespace Manager

variable {v : View δ} {d d' : δ}

/-! ## Rolling back -/

/-- Destroying all that lives, in whatever order, leaves nothing. -/
theorem rollback_ok (hv : v.Lawful) {created : List Nat} (hd : v.Sound d)
    (hids : (v.ids d).Perm created) (h : rollback created d = .ok () d') :
    v.valid d' ∧ v.live d' = [] ∧ v.enabled d' = v.enabled d := by
  induction created generalizing d with
  | nil =>
    obtain ⟨-, rfl⟩ := EStateM.Result.ok.inj h
    exact ⟨hd.valid, List.map_eq_nil_iff.1 hids.eq_nil, rfl⟩
  | cons id created ih =>
    obtain ⟨_, d₁, hdestroy, h⟩ := bind_eq_ok.1 h
    have hrem := hv.destroy_ok hd hdestroy
    obtain ⟨hvalid, hlive, hmode⟩ := ih (hrem.sound hd) (hrem.ids.symm.trans hids).cons_inv h
    exact ⟨hvalid, hlive, hmode.trans hrem.enabled⟩

omit [Device δ] in
theorem profiles_subperm (h : (v.live d').Subperm (v.live d)) :
    (v.profiles d').Subperm (v.profiles d) := by
  obtain ⟨l, hl, hsub⟩ := h
  exact ⟨l.map _, hl.map _, hsub.map _⟩

theorem rollback_error (hv : v.Lawful) {created : List Nat} {e : DeviceError} (hd : v.Sound d)
    (hids : (v.ids d).Perm created) (h : rollback created d = .error e d') :
    v.DestroyFailed e d' ∧ (v.live d').Subperm (v.live d) ∧ v.enabled d' = v.enabled d := by
  induction created generalizing d with
  | nil => cases h
  | cons id created ih =>
    rcases bind_eq_error.1 h with hdestroy | ⟨_, d₁, hdestroy, h⟩
    · have hsame := hv.destroy_error hd hdestroy
      have hid : id ∈ v.ids d := hids.mem_iff.2 List.mem_cons_self
      exact ⟨⟨id, d, hd, hid, hdestroy⟩, hsame.live.subperm, hsame.enabled⟩
    · have hrem := hv.destroy_ok hd hdestroy
      obtain ⟨hfailed, hpart, hmode⟩ :=
        ih (hrem.sound hd) (hrem.ids.symm.trans hids).cons_inv h
      obtain ⟨i, -, hlive⟩ := hrem.live
      exact ⟨hfailed, hpart.trans ((List.sublist_cons_self i _).subperm.trans hlive.symm.subperm),
        hmode.trans hrem.enabled⟩

/-! ## Creating in order -/

/-- How an attempt at `order` may end that starts from `d`. When it breaks off, at least one
profile is missing from what is left. -/
inductive AttemptOutcome (v : View δ) (d : δ) (order : List Profile) :
    Verdict DeviceError × δ → Prop
  | accepted {d' : δ} (sound : v.Sound d') (mode : v.enabled d' = v.enabled d)
    (profiles : (v.profiles d').Perm (order ++ v.profiles d)) :
    AttemptOutcome v d order (.accepted, d')
  | retry {e} {d' : δ} (valid : v.valid d') (mode : v.enabled d' = v.enabled d)
    (live : v.live d' = []) : AttemptOutcome v d order (.retry e, d')
  | fatal {e p} {d' : δ} (failed : v.DestroyFailed e d') (mode : v.enabled d' = v.enabled d)
    (part : (p :: v.profiles d').Subperm (order ++ v.profiles d)) :
    AttemptOutcome v d order (.fatal e, d')

theorem createOnto_outcome (hv : v.Lawful) (order : List Profile) {created : List Nat}
    (hd : v.Sound d) (hids : (v.ids d).Perm created) :
    AttemptOutcome v d order (createOnto created order d) := by
  induction order generalizing created d with
  | nil => exact .accepted hd rfl (List.Perm.refl _)
  | cons p order ih =>
    rw [createOnto_cons]
    split
    next id d₁ hcreate =>
      have hadd := hv.create_ok hd hcreate
      have hperm : (order ++ v.profiles d₁).Perm (p :: order ++ v.profiles d) :=
        (hadd.profiles.append_left order).trans List.perm_middle
      have hids₁ : (v.ids d₁).Perm (id :: created) := hadd.ids.trans (hids.cons id)
      rcases hout : createOnto (id :: created) order d₁ with ⟨verdict, d'⟩
      cases hout ▸ ih (hadd.sound hd) hids₁ with
      | accepted sound mode profiles =>
        exact .accepted sound (mode.trans hadd.enabled) (profiles.trans hperm)
      | retry valid mode live => exact .retry valid (mode.trans hadd.enabled) live
      | fatal failed mode part =>
        exact .fatal failed (mode.trans hadd.enabled) (part.trans hperm.subperm)
    next e d₁ hcreate =>
      have hsame := hv.create_error hd hcreate
      have hids₁ := hsame.ids.trans hids
      split
      next d₂ hroll =>
        obtain ⟨hvalid, hlive, hmode⟩ := rollback_ok hv (hsame.sound hd) hids₁ hroll
        exact .retry hvalid (hmode.trans hsame.enabled) hlive
      next e' d₂ hroll =>
        obtain ⟨hfailed, hpart, hmode⟩ := rollback_error hv (hsame.sound hd) hids₁ hroll
        have hprofiles : (v.profiles d₂).Subperm (v.profiles d) :=
          (profiles_subperm hpart).trans hsame.profiles.subperm
        refine .fatal (p := p) hfailed (hmode.trans hsame.enabled) ?_
        exact (List.subperm_cons p).2
          (hprofiles.trans (List.sublist_append_right order _).subperm)

/-- On an empty device an attempt creates all of the order, or leaves the device empty, or ends
with a failed destruction. -/
theorem createInOrder_outcome (hv : v.Lawful) (order : List Profile) (hd : v.Sound d)
    (hlive : v.live d = []) : AttemptOutcome v d order (createInOrder order d) := by
  refine createOnto_outcome hv order hd ?_
  rw [View.ids, hlive]
  exact List.Perm.refl _

end Manager

end GpuPartition
