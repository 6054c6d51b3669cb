import AgvPro.Dock.ChargerFile
import AgvPro.Lib.Planar

/-!
# The docking goal: `execute_navigation_internal`

The goal lies `forward_distance` in front of the charger, along the charger's heading, and
faces `yaw_offset_deg` clockwise of it.  The heading is `2 * atan2(orien_z, orien_w)`, the
goal's quaternion the half angle of what is left after the turn.

The computation is over any number type with the functions of `math`; what it achieves is
proved over the reals, where `atan2` is the argument of `w + z i`.

    position, distance, unit quaternion and heading of the goal, and the same goal for
    every multiple of the charger's quaternion                          (reaches_goal)
-/

namespace AgvPro

/-! ## The computation -/

/-- What the computation uses of `math`. -/
structure MathOps (F : Type) where
  pi : F
  sin : F → F
  cos : F → F
  atan2 : F → F → F

/-- `nav_goal_params.yaml` -/
structure NavGoalParams (F : Type) where
  forward_distance : F
  yaw_offset_deg : F

/-- The fields of a `PoseStamped` that `create_pose` sets, without the stamp. -/
structure GoalPose (F : Type) where
  frame_id : String
  x : F
  y : F
  z : F
  w : F

section

variable {F : Type} [Add F] [Sub F] [Mul F] [Div F] [OfNat F 2] [OfNat F 180]

def MathOps.radians (math : MathOps F) (x : F) : F := x * (math.pi / 180)

def createPose (x y z w : F) : GoalPose F := ⟨"map", x, y, z, w⟩

def goalPose (math : MathOps F) (params : NavGoalParams F) (charger : ChargerPosition F) :
    GoalPose F :=
  let yaw := 2 * math.atan2 charger.orien_z charger.orien_w
  let x_offset := params.forward_distance * math.cos yaw
  let y_offset := params.forward_distance * math.sin yaw
  let goal_yaw := yaw - math.radians params.yaw_offset_deg
  createPose (charger.p_x + x_offset) (charger.p_y + y_offset) (math.sin (goal_yaw / 2))
    (math.cos (goal_yaw / 2))

/-- The goal handed to `nav_through_pose`; none when the file (`none`: not read) or one of
the four keys is missing, and the call returns `False`. -/
def executeNavigationInternal (math : MathOps F) (params : NavGoalParams F)
    (file : Option (Document F)) : Option (GoalPose F) :=
  (file.bind Document.position?).map (goalPose math params)

/-- The goal of the position `navigationPosition` finds on file. -/
theorem executeNavigationInternal_file (json : Json F) (math : MathOps F) (params : NavGoalParams F)
    (file : Option (List Char)) :
    executeNavigationInternal math params (readFile json file) =
      (navigationPosition json file).map (goalPose math params) := rfl

end

/-! ## Over the reals -/

open Complex Planar

/-- `math.atan2(y, x)` is the angle of the point `(x, y)`. -/
noncomputable def realMath : MathOps ℝ where
  pi := Real.pi
  sin := Real.sin
  cos := Real.cos
  atan2 := fun y x => arg ⟨x, y⟩

def ChargerPosition.orientation (charger : ChargerPosition ℝ) : ℂ :=
  ⟨charger.orien_w, charger.orien_z⟩

def GoalPose.orientation (goal : GoalPose ℝ) : ℂ := ⟨goal.w, goal.z⟩

/-- The quaternion multiplied by `k`. -/
def ChargerPosition.scale (charger : ChargerPosition ℝ) (k : ℝ) : ChargerPosition ℝ :=
  { charger with orien_z := k * charger.orien_z, orien_w := k * charger.orien_w }

/-- The yaw of the goal. -/
noncomputable def goalYaw (params : NavGoalParams ℝ) (charger : ChargerPosition ℝ) : ℝ :=
  yaw charger.orientation - realMath.radians params.yaw_offset_deg

theorem orientation_ne_zero {charger : ChargerPosition ℝ}
    (h : charger.orien_z ≠ 0 ∨ charger.orien_w ≠ 0) : charger.orientation ≠ 0 := by
  intro hzero
  have hre : charger.orien_w = 0 := congrArg re hzero
  have him : charger.orien_z = 0 := congrArg im hzero
  exact h.elim (fun hz => hz him) fun hw => hw hre

theorem orientation_scale (charger : ChargerPosition ℝ) (k : ℝ) :
    (charger.scale k).orientation = k * charger.orientation := by
  apply Complex.ext
  · simp [ChargerPosition.orientation, ChargerPosition.scale]
  · simp [ChargerPosition.orientation, ChargerPosition.scale]

/-- The goal's position, with the heading for `cos` and `sin`. -/
theorem goalPose_position (params : NavGoalParams ℝ) {charger : ChargerPosition ℝ}
    (h : charger.orientation ≠ 0) :
    (goalPose realMath params charger).x =
        charger.p_x + params.forward_distance * (heading charger.orientation).re ∧
      (goalPose realMath params charger).y =
        charger.p_y + params.forward_distance * (heading charger.orientation).im := by
  rw [heading_eq_exp h, exp_ofReal_mul_I_re, exp_ofReal_mul_I_im]
  exact ⟨rfl, rfl⟩

theorem goalPose_orientation (params : NavGoalParams ℝ) (charger : ChargerPosition ℝ) :
    (goalPose realMath params charger).orientation = versor (goalYaw params charger) :=
  (versor_eq _).symm

/-- The goal faces the charger's heading turned clockwise by the offset. -/
theorem heading_goalPose (params : NavGoalParams ℝ) {charger : ChargerPosition ℝ}
    (h : charger.orientation ≠ 0) :
    heading (goalPose realMath params charger).orientation =
      heading charger.orientation * exp (-(realMath.radians params.yaw_offset_deg * I)) := by
  rw [goalPose_orientation, heading_versor, heading_eq_exp h, ← exp_add, goalYaw]
  congr 1
  push_cast
  ring

theorem goalPose_distance (params : NavGoalParams ℝ) {charger : ChargerPosition ℝ}
    (h : charger.orientation ≠ 0) :
    Real.sqrt (((goalPose realMath params charger).x - charger.p_x) ^ 2 +
        ((goalPose realMath params charger).y - charger.p_y) ^ 2) = |params.forward_distance| := by
  obtain ⟨hx, hy⟩ := goalPose_position params h
  have hsq : (params.forward_distance * (heading charger.orientation).re) ^ 2 +
      (params.forward_distance * (heading charger.orientation).im) ^ 2 =
        params.forward_distance ^ 2 := by
    rw [mul_pow, mul_pow, ← mul_add, heading_re_sq_add_im_sq h, mul_one]
  rw [hx, hy, add_sub_cancel_left, add_sub_cancel_left, hsq, Real.sqrt_sq_eq_abs]

/-- What a goal of the charger is for. -/
structure Approaches (params : NavGoalParams ℝ) (charger : ChargerPosition ℝ)
    (goal : GoalPose ℝ) : Prop where
  x_eq : goal.x = charger.p_x + params.forward_distance *
    ((charger.orien_w ^ 2 - charger.orien_z ^ 2) / (charger.orien_w ^ 2 + charger.orien_z ^ 2))
  y_eq : goal.y = charger.p_y + params.forward_distance *
    (2 * charger.orien_z * charger.orien_w / (charger.orien_w ^ 2 + charger.orien_z ^ 2))
  distance : Real.sqrt ((goal.x - charger.p_x) ^ 2 + (goal.y - charger.p_y) ^ 2) =
    |params.forward_distance|
  unit : goal.z ^ 2 + goal.w ^ 2 = 1
  faces : heading goal.orientation =
    heading charger.orientation * exp (-(realMath.radians params.yaw_offset_deg * I))

/-- The same place, and the same turn: the quaternions are equal up to sign. -/
structure SameGoal (goal goal' : GoalPose ℝ) : Prop where
  x_eq : goal'.x = goal.x
  y_eq : goal'.y = goal.y
  turn : goal'.orientation = goal.orientation ∨ goal'.orientation = -goal.orientation

theorem goalPose_approaches (params : NavGoalParams ℝ) {charger : ChargerPosition ℝ}
    (h : charger.orientation ≠ 0) :
    Approaches params charger (goalPose realMath params charger) := by
  obtain ⟨hx, hy⟩ := goalPose_position params h
  have hheading := heading_mk charger.orien_w charger.orien_z
  refine ⟨?_, ?_, goalPose_distance params h, ?_, heading_goalPose params h⟩
  · rw [hx]
    show _ + _ * (heading ⟨charger.orien_w, charger.orien_z⟩).re = _
    rw [hheading]
  · rw [hy]
    show _ + _ * (heading ⟨charger.orien_w, charger.orien_z⟩).im = _
    rw [hheading]
  · exact Real.sin_sq_add_cos_sq _

theorem goalPose_scale (params : NavGoalParams ℝ) {charger : ChargerPosition ℝ} {k : ℝ}
    (h : charger.orientation ≠ 0) (hk : k ≠ 0) :
    SameGoal (goalPose realMath params charger)
      (goalPose realMath params (charger.scale k)) := by
  have hscaled : (charger.scale k).orientation ≠ 0 := by
    rw [orientation_scale]
    exact mul_ne_zero (ofReal_ne_zero.mpr hk) h
  have hheading : heading (charger.scale k).orientation = heading charger.orientation := by
    rw [orientation_scale, heading_real_mul hk]
  obtain ⟨hx, hy⟩ := goalPose_position params h
  obtain ⟨hx', hy'⟩ := goalPose_position params hscaled
  rw [hheading] at hx' hy'
  refine ⟨hx'.trans hx.symm, hy'.trans hy.symm, ?_⟩
  -- the half angle may come out on either sheet; its double does not
  have hunit : ∀ c, ‖(goalPose realMath params c).orientation‖ = 1 := fun c => by
    rw [goalPose_orientation, norm_versor]
  have hsame : heading (goalPose realMath params (charger.scale k)).orientation =
      heading (goalPose realMath params charger).orientation := by
    rw [heading_goalPose params hscaled, heading_goalPose params h, hheading]
  exact eq_or_eq_neg (hunit _) (hunit _) hsame

/-- **The docking goal** of any charger whose quaternion is not 0, and of its multiples. -/
theorem reaches_goal (params : NavGoalParams ℝ) (charger : ChargerPosition ℝ)
    (h : charger.orien_z ≠ 0 ∨ charger.orien_w ≠ 0) :
    ∃ goal, executeNavigationInternal realMath params (some charger.document) = some goal ∧
      Approaches params charger goal ∧
        ∀ k : ℝ, k ≠ 0 → ∃ goal',
          executeNavigationInternal realMath params (some (charger.scale k).document) = some goal' ∧
            SameGoal goal goal' :=
  ⟨_, rfl, goalPose_approaches params (orientation_ne_zero h),
    fun _ hk => ⟨_, rfl, goalPose_scale params (orientation_ne_zero h) hk⟩⟩

/-- A quaternion with `w < 0`, not normalised: the charger faces along -y. -/
theorem reaches_goal_negative :
    ∃ goal, executeNavigationInternal realMath ⟨2, 10⟩
        (some (⟨3, 4, 1, -1⟩ : ChargerPosition ℝ).document) = some goal ∧
      goal.x = 3 ∧ goal.y = 2 := by
  obtain ⟨goal, hgoal, happroach, -⟩ := reaches_goal ⟨2, 10⟩ ⟨3, 4, 1, -1⟩ (Or.inl one_ne_zero)
  refine ⟨goal, hgoal, ?_, ?_⟩
  · rw [happroach.x_eq]
    norm_num
  · rw [happroach.y_eq]
    norm_num

end AgvPro
