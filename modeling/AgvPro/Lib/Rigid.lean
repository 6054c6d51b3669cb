import Mathlib

/-!
# Rigid motions of the plane

A `Rigid` is a place and a heading, and at once the motion that takes the origin there;
motions compose, the second taken in the frame the first leads to.  A body with velocity
`v` in its own frame and turn rate `ω`, both constant, runs along an arc; `Leg.hold` is the
straight step that stands in for the arc.

    motions are a group                                                  (Rigid)
    the arc and the straight step end in one heading, their places no more than
      ‖v‖ |ω| dt² / 2 apart                                              (steady_end)
    along legs the headings stay equal and the distances add up          (follows_end)
-/

namespace Planar

open Complex Set

noncomputable def dir (θ : ℝ) : ℂ := exp (θ * I)

@[simp] theorem dir_zero : dir 0 = 1 := by simp [dir]

theorem dir_add (θ φ : ℝ) : dir (θ + φ) = dir θ * dir φ := by
  unfold dir
  rw [← exp_add]
  push_cast
  ring_nf

@[simp] theorem norm_dir (θ : ℝ) : ‖dir θ‖ = 1 := norm_exp_ofReal_mul_I θ

theorem norm_dir_sub_one_le (θ : ℝ) : ‖dir θ - 1‖ ≤ |θ| := by
  unfold dir
  rw [mul_comm]
  exact Real.norm_exp_I_mul_ofReal_sub_one_le

/-! ## The group -/

@[ext] structure Rigid where
  pos : ℂ
  ang : ℝ

namespace Rigid

noncomputable instance : Mul Rigid := ⟨fun a b => ⟨a.pos + dir a.ang * b.pos, a.ang + b.ang⟩⟩
noncomputable instance : One Rigid := ⟨⟨0, 0⟩⟩
noncomputable instance : Inv Rigid := ⟨fun a => ⟨-(dir (-a.ang) * a.pos), -a.ang⟩⟩

@[simp] theorem mul_pos (a b : Rigid) : (a * b).pos = a.pos + dir a.ang * b.pos := rfl
@[simp] theorem mul_ang (a b : Rigid) : (a * b).ang = a.ang + b.ang := rfl
@[simp] theorem one_pos : (1 : Rigid).pos = 0 := rfl
@[simp] theorem one_ang : (1 : Rigid).ang = 0 := rfl
@[simp] theorem inv_pos (a : Rigid) : a⁻¹.pos = -(dir (-a.ang) * a.pos) := rfl
@[simp] theorem inv_ang (a : Rigid) : a⁻¹.ang = -a.ang := rfl

noncomputable instance : Group Rigid :=
  Group.ofLeftAxioms
    (fun a b c => by
      ext1
      · simp only [mul_pos, mul_ang, dir_add]
        ring
      · exact add_assoc _ _ _)
    (fun a => by ext1 <;> simp)
    (fun a => by ext1 <;> simp)

/-- Places keep their distance under a motion. -/
theorem norm_mul_sub_mul (a b c : Rigid) :
    ‖(a * b).pos - (a * c).pos‖ = ‖b.pos - c.pos‖ := by
  rw [mul_pos, mul_pos, add_sub_add_left_eq_sub, ← mul_sub, norm_mul, norm_dir, one_mul]

/-- A motion in steps leads no further than the steps together. -/
theorem norm_prod_pos_le (l : List Rigid) : ‖l.prod.pos‖ ≤ (l.map fun a => ‖a.pos‖).sum := by
  induction l with
  | nil => simp
  | cons a l ih =>
    rw [List.prod_cons, mul_pos, List.map_cons, List.sum_cons]
    calc ‖a.pos + dir a.ang * l.prod.pos‖ ≤ ‖a.pos‖ + ‖dir a.ang * l.prod.pos‖ := norm_add_le _ _
      _ = ‖a.pos‖ + ‖l.prod.pos‖ := by rw [norm_mul, norm_dir, one_mul]
      _ ≤ ‖a.pos‖ + (l.map fun a => ‖a.pos‖).sum := by gcongr

theorem abs_prod_ang_le (l : List Rigid) : |l.prod.ang| ≤ (l.map fun a => |a.ang|).sum := by
  induction l with
  | nil => simp
  | cons a l ih =>
    rw [List.prod_cons, mul_ang, List.map_cons, List.sum_cons]
    exact (abs_add_le _ _).trans (by gcongr)

end Rigid

/-! ## Constant velocity in the body's frame -/

/-- From time `a` to `b` the body moves at `v` in its own frame and turns at `ω`. -/
structure Steady (x : ℝ → Rigid) (v : ℂ) (ω a b : ℝ) : Prop where
  continuousOn_pos : ContinuousOn (fun s => (x s).pos) (Icc a b)
  continuousOn_ang : ContinuousOn (fun s => (x s).ang) (Icc a b)
  deriv_pos : ∀ s ∈ Ico a b, HasDerivWithinAt (fun s => (x s).pos) (dir (x s).ang * v) (Ici s) s
  deriv_ang : ∀ s ∈ Ico a b, HasDerivWithinAt (fun s => (x s).ang) ω (Ici s) s

/-- The heading turns at its rate. -/
theorem Steady.ang_eq {x : ℝ → Rigid} {v : ℂ} {ω a b : ℝ} (h : Steady x v ω a b) {s : ℝ}
    (hs : s ∈ Icc a b) : (x s).ang = (x a).ang + ω * (s - a) := by
  have hlinear : ∀ s, HasDerivAt (fun s => ω * (s - a)) ω s := by
    intro s
    simpa using ((hasDerivAt_id s).sub_const a).const_mul ω
  have hconst := constant_of_has_deriv_right_zero (f := fun s => (x s).ang - ω * (s - a))
    (h.continuousOn_ang.sub fun s _ => (hlinear s).continuousAt.continuousWithinAt)
    (fun s hs => ((h.deriv_ang s hs).fun_sub (hlinear s).hasDerivWithinAt).congr_deriv (sub_self ω))
    s hs
  simp only [sub_self, mul_zero, sub_zero] at hconst
  linarith

/-- The place runs ahead of the straight step by no more than the turn allows. -/
theorem Steady.pos_le {x : ℝ → Rigid} {v : ℂ} {ω a b : ℝ} (h : Steady x v ω a b) {s : ℝ}
    (hs : s ∈ Icc a b) :
    ‖(x s).pos - ((x a).pos + dir (x a).ang * ((s - a : ℝ) * v))‖ ≤
      ‖v‖ * |ω| * (s - a) ^ 2 / 2 := by
  have hline : ∀ s : ℝ, HasDerivAt
      (fun s : ℝ => (x a).pos + dir (x a).ang * ((s - a : ℝ) * v)) (dir (x a).ang * v) s := by
    intro s
    have hre : HasDerivAt (fun s : ℝ => ((s - a : ℝ) : ℂ)) 1 s :=
      ((hasDerivAt_id s).sub_const a).ofReal_comp
    simpa using ((hre.mul_const v).const_mul (dir (x a).ang)).const_add (x a).pos
  have hbound : ∀ s, HasDerivAt (fun s => ‖v‖ * |ω| * (s - a) ^ 2 / 2) (‖v‖ * |ω| * (s - a)) s := by
    intro s
    have hsq := ((((hasDerivAt_id s).sub_const a).pow 2).const_mul (‖v‖ * |ω|)).div_const 2
    refine hsq.congr_deriv ?_
    simp only [id_eq, Nat.cast_ofNat, Nat.add_one_sub_one, pow_one, mul_one]
    ring
  have hgap : ∀ s ∈ Ico a b, HasDerivWithinAt
      (fun s => (x s).pos - ((x a).pos + dir (x a).ang * ((s - a : ℝ) * v)))
      (dir (x s).ang * v - dir (x a).ang * v) (Ici s) s :=
    fun s hs => (h.deriv_pos s hs).fun_sub (hline s).hasDerivWithinAt
  refine image_norm_le_of_norm_deriv_right_le_deriv_boundary
    (h.continuousOn_pos.sub fun s _ => (hline s).continuousAt.continuousWithinAt) hgap (by simp)
    hbound (fun s hs => ?_) hs
  -- the two velocities differ by the turn since `a`
  have hturn : dir (x s).ang = dir (x a).ang * dir (ω * (s - a)) := by
    rw [h.ang_eq ⟨hs.1, hs.2.le⟩, dir_add]
  have hsa : 0 ≤ s - a := sub_nonneg.mpr hs.1
  calc ‖dir (x s).ang * v - dir (x a).ang * v‖
      = ‖dir (x a).ang * ((dir (ω * (s - a)) - 1) * v)‖ := by rw [hturn]; ring_nf
    _ = ‖dir (ω * (s - a)) - 1‖ * ‖v‖ := by rw [norm_mul, norm_dir, one_mul, norm_mul]
    _ ≤ |ω * (s - a)| * ‖v‖ := by gcongr; exact norm_dir_sub_one_le _
    _ = ‖v‖ * |ω| * (s - a) := by rw [abs_mul, abs_of_nonneg hsa]; ring

/-! ## Legs -/

/-- A stretch of time at a constant velocity in the body's frame. -/
structure Leg where
  v : ℂ
  ω : ℝ
  dt : ℝ

namespace Leg

/-- The straight step. -/
noncomputable def hold (l : Leg) : Rigid := ⟨l.dt * l.v, l.dt * l.ω⟩

/-- Twice what the arc of a leg may lie off its straight step. -/
noncomputable def slip (l : Leg) : ℝ := ‖l.v‖ * |l.ω| * l.dt ^ 2

end Leg

/-- From time `a` on the body runs along the legs. -/
def Follows (x : ℝ → Rigid) : ℝ → List Leg → Prop
  | _, [] => True
  | a, l :: legs => 0 ≤ l.dt ∧ Steady x l.v l.ω a (a + l.dt) ∧ Follows x (a + l.dt) legs

/-- One leg against its straight step. -/
theorem steady_end {x : ℝ → Rigid} {l : Leg} {a : ℝ} (hdt : 0 ≤ l.dt)
    (h : Steady x l.v l.ω a (a + l.dt)) :
    (x (a + l.dt)).ang = (x a * l.hold).ang ∧
      ‖(x (a + l.dt)).pos - (x a * l.hold).pos‖ ≤ l.slip / 2 := by
  have hend : a + l.dt ∈ Icc a (a + l.dt) := ⟨by linarith, le_rfl⟩
  have hpos := h.pos_le hend
  rw [add_sub_cancel_left] at hpos
  refine ⟨?_, hpos⟩
  rw [h.ang_eq hend, Rigid.mul_ang, Leg.hold, add_sub_cancel_left, mul_comm]

/-- **Legs.**  The straight steps miss no part of the turn, and of the way no more than the
slips of the legs together. -/
theorem follows_end {x : ℝ → Rigid} (legs : List Leg) (a : ℝ) (h : Follows x a legs) :
    (x (a + (legs.map Leg.dt).sum)).ang = (x a * (legs.map Leg.hold).prod).ang ∧
      ‖(x (a + (legs.map Leg.dt).sum)).pos - (x a * (legs.map Leg.hold).prod).pos‖ ≤
        (legs.map Leg.slip).sum / 2 := by
  induction legs generalizing a with
  | nil => simp
  | cons l legs ih =>
    obtain ⟨hdt, hsteady, hrest⟩ := h
    obtain ⟨hang, hpos⟩ := steady_end hdt hsteady
    obtain ⟨hang', hpos'⟩ := ih (a + l.dt) hrest
    simp only [List.map_cons, List.sum_cons, List.prod_cons, ← mul_assoc, ← add_assoc]
    generalize (legs.map Leg.hold).prod = rest at hang' hpos' ⊢
    generalize x (a + l.dt + (legs.map Leg.dt).sum) = y at hang' hpos' ⊢
    constructor
    · rw [hang', Rigid.mul_ang, Rigid.mul_ang _ rest, hang]
    · -- with one heading the error of the first step is carried along as it is
      have hcarry : ‖(x (a + l.dt) * rest).pos - (x a * l.hold * rest).pos‖ =
          ‖(x (a + l.dt)).pos - (x a * l.hold).pos‖ := by
        rw [Rigid.mul_pos, Rigid.mul_pos _ rest, hang, add_sub_add_right_eq_sub]
      calc ‖y.pos - (x a * l.hold * rest).pos‖
          ≤ ‖y.pos - (x (a + l.dt) * rest).pos‖ +
              ‖(x (a + l.dt) * rest).pos - (x a * l.hold * rest).pos‖ :=
            norm_sub_le_norm_sub_add_norm_sub _ _ _
        _ ≤ (legs.map Leg.slip).sum / 2 + l.slip / 2 := by
            rw [hcarry]
            exact add_le_add hpos' hpos
        _ = (l.slip + (legs.map Leg.slip).sum) / 2 := by ring

/-- The same for the motion relative to where the legs began. -/
theorem follows_relative {x : ℝ → Rigid} (legs : List Leg) (a : ℝ) (h : Follows x a legs) :
    ((x a)⁻¹ * x (a + (legs.map Leg.dt).sum)).ang = (legs.map Leg.hold).prod.ang ∧
      ‖((x a)⁻¹ * x (a + (legs.map Leg.dt).sum)).pos - (legs.map Leg.hold).prod.pos‖ ≤
        (legs.map Leg.slip).sum / 2 := by
  obtain ⟨hang, hpos⟩ := follows_end legs a h
  constructor
  · rw [Rigid.mul_ang, hang, Rigid.mul_ang, Rigid.inv_ang]
    ring
  · rw [← Rigid.norm_mul_sub_mul (x a), mul_inv_cancel_left]
    exact hpos

end Planar
