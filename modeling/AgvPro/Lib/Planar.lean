import Mathlib.Analysis.SpecialFunctions.Complex.Arg

/-!
# Rotations of the plane by half angles

A quaternion `w + z k` turns the plane; it is written here as the complex number
`w + z i`, of any length but 0.  `heading q` is the direction the x axis is turned to,
`yaw q` the angle of it.

    heading q = exp (yaw q i)                                          (heading_eq_exp)
    heading (k q) = heading q                                          (heading_real_mul)
    two unit quaternions of one heading are equal up to sign           (eq_or_eq_neg)
-/

namespace Planar

open Complex

noncomputable def heading (q : ℂ) : ℂ := q ^ 2 / ((‖q‖ ^ 2 : ℝ) : ℂ)

/-- The turn of a quaternion is twice its argument. -/
noncomputable def yaw (q : ℂ) : ℝ := 2 * arg q

/-- The unit quaternion of a turn by `θ`. -/
noncomputable def versor (θ : ℝ) : ℂ := exp ((θ / 2 : ℝ) * I)

theorem norm_sq_mk (w z : ℝ) : ‖(⟨w, z⟩ : ℂ)‖ ^ 2 = w ^ 2 + z ^ 2 := by
  rw [Complex.sq_norm, normSq_mk]
  ring

theorem heading_mk (w z : ℝ) :
    heading ⟨w, z⟩ = ⟨(w ^ 2 - z ^ 2) / (w ^ 2 + z ^ 2), 2 * z * w / (w ^ 2 + z ^ 2)⟩ := by
  have hsq : (⟨w, z⟩ : ℂ) ^ 2 = ⟨w ^ 2 - z ^ 2, 2 * z * w⟩ := by
    apply Complex.ext
    · simp [pow_two]
    · simp [pow_two]
      ring
  rw [heading, norm_sq_mk, hsq]
  apply Complex.ext
  · rw [div_ofReal_re]
  · rw [div_ofReal_im]

theorem heading_eq_exp {q : ℂ} (hq : q ≠ 0) : heading q = exp (yaw q * I) := by
  have hnorm : (‖q‖ : ℂ) ^ 2 ≠ 0 := pow_ne_zero 2 (ofReal_ne_zero.mpr (norm_ne_zero_iff.mpr hq))
  calc heading q = (‖q‖ * exp (arg q * I)) ^ 2 / (‖q‖ : ℂ) ^ 2 := by
        rw [norm_mul_exp_arg_mul_I, heading, ofReal_pow]
    _ = exp (arg q * I) ^ 2 := by rw [mul_pow, mul_div_cancel_left₀ _ hnorm]
    _ = exp (yaw q * I) := by
        rw [← exp_nat_mul, yaw]
        push_cast
        ring_nf

theorem heading_real_mul {k : ℝ} (hk : k ≠ 0) (q : ℂ) : heading (k * q) = heading q := by
  have hsq : ((k : ℂ) ^ 2) ≠ 0 := pow_ne_zero 2 (ofReal_ne_zero.mpr hk)
  have hnorm : ‖(k : ℂ) * q‖ ^ 2 = k ^ 2 * ‖q‖ ^ 2 := by
    rw [norm_mul, norm_real, mul_pow, Real.norm_eq_abs, sq_abs]
  rw [heading, heading, hnorm, mul_pow, ofReal_mul, ofReal_pow k, mul_div_mul_left _ _ hsq]

theorem heading_of_unit {q : ℂ} (hq : ‖q‖ = 1) : heading q = q ^ 2 := by
  rw [heading, hq, one_pow, ofReal_one, div_one]

theorem norm_heading {q : ℂ} (hq : q ≠ 0) : ‖heading q‖ = 1 := by
  rw [heading_eq_exp hq, norm_exp_ofReal_mul_I]

theorem heading_re_sq_add_im_sq {q : ℂ} (hq : q ≠ 0) :
    (heading q).re ^ 2 + (heading q).im ^ 2 = 1 := by
  have hsq := Complex.sq_norm (heading q)
  rw [norm_heading hq, normSq_apply] at hsq
  rw [pow_two, pow_two, ← hsq, one_pow]

theorem norm_versor (θ : ℝ) : ‖versor θ‖ = 1 := norm_exp_ofReal_mul_I _

theorem heading_versor (θ : ℝ) : heading (versor θ) = exp (θ * I) := by
  rw [heading_of_unit (norm_versor θ), versor, ← exp_nat_mul]
  push_cast
  ring_nf

theorem versor_eq (θ : ℝ) : versor θ = ⟨Real.cos (θ / 2), Real.sin (θ / 2)⟩ := by
  apply Complex.ext
  · exact exp_ofReal_mul_I_re _
  · exact exp_ofReal_mul_I_im _

/-- The double cover: one direction, two unit quaternions. -/
theorem eq_or_eq_neg {q q' : ℂ} (hq : ‖q‖ = 1) (hq' : ‖q'‖ = 1) (h : heading q = heading q') :
    q = q' ∨ q = -q' := by
  rw [heading_of_unit hq, heading_of_unit hq'] at h
  exact sq_eq_sq_iff_eq_or_eq_neg.mp h

end Planar
