import DecisionForest.Proofs.Results
import DecisionForest.Settings.Profile

/-!
# Settings stay valid

Only the parallel threshold can make settings invalid, and no variable changes it. So settings that
are valid to begin with, those of a file or the default ones, are valid after the variables too, and
the check made then never fails by itself.

- `Settings.validate_eq_ok_iff` says which settings are valid,
- `Settings.validate_of_ofFile` is the check of a file,
- `Settings.parallelThreshold_applyOverrides` says that variables leave the threshold alone,
- `Settings.override_eq` is what variables come to on valid settings.
-/

namespace DecisionForest
namespace Settings

variable {s s' : Settings} {env : Environment}

theorem validate_congr (h : s.parallelThreshold = s'.parallelThreshold) :
    s.validate = s'.validate := by
  rw [validate, validate, h]

theorem validate_eq_ok_iff : s.validate = .ok () ↔ s.parallelThreshold ≠ 0 := by
  rw [validate]
  split <;> simp_all

theorem validate_eq_ok_iff_one_le : s.validate = .ok () ↔ 1 ≤ s.parallelThreshold := by
  rw [validate_eq_ok_iff, UInt64.le_iff_toNat_le, ne_eq, ← UInt64.toNat_inj, UInt64.toNat_zero,
    UInt64.toNat_one]
  omega

theorem validate_of_ofFile {read : Reader} {name : String} (h : ofFile read name = .ok s) :
    s.validate = .ok () := by
  unfold ofFile at h
  simp only [bind_eq_ok_iff] at h
  obtain ⟨_, _, _, _, ⟨⟩, hvalid, ⟨⟩⟩ := h
  exact hvalid

/-- Each variable has a field of its own, and none has the threshold. -/
theorem parallelThreshold_apply {o : Override} (ho : o ∈ Override.all) {value : String}
    (h : o.apply s value = .ok s') : s'.parallelThreshold = s.parallelThreshold := by
  simp only [Override.all, List.mem_cons, List.not_mem_nil, or_false] at ho
  rcases ho with rfl | rfl | rfl | rfl | rfl <;>
  · obtain ⟨_, _, ⟨⟩⟩ := bind_eq_ok_iff.1 h
    rfl

theorem parallelThreshold_applyOverrides {overrides : List Override}
    (hsub : ∀ o ∈ overrides, o ∈ Override.all) :
    (applyOverrides env s overrides).settings.parallelThreshold = s.parallelThreshold := by
  induction overrides generalizing s with
  | nil =>
      rfl
  | cons o rest ih =>
      have hrest : ∀ o ∈ rest, o ∈ Override.all := fun o ho => hsub o (by simp [ho])
      unfold applyOverrides
      cases env o.name with
      | none =>
          exact ih hrest
      | some value =>
          dsimp only
          cases happly : o.apply s value with
          | error fault =>
              rfl
          | ok s₁ =>
              rw [← parallelThreshold_apply (hsub o (by simp)) happly]
              exact ih hrest

theorem validate_applyOverrides (h : s.validate = .ok ()) :
    (s.applyOverrides env Override.all).settings.validate = .ok () := by
  rw [validate_congr (parallelThreshold_applyOverrides fun o ho => ho), h]

/-- On valid settings an invalid variable is the only way to fail. -/
theorem override_eq (h : s.validate = .ok ()) :
    s.override env = s.applyOverrides env Override.all := by
  rw [override, validate_applyOverrides h]
  cases (s.applyOverrides env Override.all).error? <;> rfl

theorem validate_override (h : s.validate = .ok ()) :
    (s.override env).settings.validate = .ok () := by
  rw [override_eq h, validate_applyOverrides h]

end Settings
end DecisionForest
