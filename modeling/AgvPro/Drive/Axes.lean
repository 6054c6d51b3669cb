import AgvPro.Base.Command

/-!
# The three velocities, in a Twist and in a frame

    the fields are the hundredths of the velocities, clamped   (field_cmdFrame)
    a change of a velocity is at most one hundredth larger     (abs_field_sub_lt)
-/

namespace AgvPro

/-! ## In a Twist -/

/-- The velocities the base can be given. -/
inductive Axis where
  | x
  | y
  | theta
deriving DecidableEq

def Twist.axis (msg : Twist) : Axis → ℚ
  | .x => msg.linear.x
  | .y => msg.linear.y
  | .theta => msg.angular.z

/-- `msg` with its three velocities replaced, its other components as they are. -/
def Twist.withAxes (msg : Twist) (v : Axis → ℚ) : Twist where
  linear := { msg.linear with x := v .x, y := v .y }
  angular := { msg.angular with z := v .theta }

@[simp] theorem axis_withAxes (msg : Twist) (v : Axis → ℚ) (i : Axis) :
    (msg.withAxes v).axis i = v i := by
  cases i <;> rfl

@[simp] theorem axis_stop (i : Axis) : ({} : Twist).axis i = 0 := by
  cases i <;> rfl

/-! ## The fields of a frame -/

def Axis.field : Axis → List UInt8 → Int
  | .x, f => signedAt f 4
  | .y, f => signedAt f 6
  | .theta, f => signedAt f 8

/-- Where `cmdCallback` clamps. -/
def Axis.bound : Axis → ℚ
  | .x => 3/2
  | .y => 1
  | .theta => 1

theorem bound_pos (i : Axis) : 0 < i.bound := by
  cases i <;> norm_num [Axis.bound]

theorem neg_bound_le (i : Axis) : -i.bound ≤ i.bound := by
  have hpos := bound_pos i
  linarith

theorem field_cmdFrame (msg : Twist) (i : Axis) :
    i.field (cmdFrame msg) = hundredths (msg.axis i) (-i.bound) i.bound := by
  obtain ⟨hx, hy, htheta⟩ := signedAt_cmdFrame msg
  have hbound : (-3/2 : ℚ) = -(3/2) := by norm_num
  cases i with
  | x =>
    rw [hbound] at hx
    exact hx
  | y => exact hy
  | theta => exact htheta

theorem field_stop (i : Axis) : i.field (cmdFrame {}) = 0 := by
  have hpos := bound_pos i
  have hzero : clamp (0 : ℚ) (-i.bound) i.bound = 0 := by
    rw [clamp, if_neg (by linarith), if_neg (by linarith)]
  rw [field_cmdFrame, axis_stop, hundredths, hzero, mul_zero]
  exact trunc_intCast 0

/-- Truncating adds less than one to a distance. -/
theorem abs_trunc_sub_lt (a b : ℚ) : |((trunc a - trunc b : Int) : ℚ)| < |a - b| + 1 := by
  wlog hle : a ≤ b generalizing a b
  · have hswap := this b a (le_of_not_ge hle)
    rw [abs_sub_comm a b]
    push_cast at hswap ⊢
    rwa [abs_sub_comm]
  have hmono : ((trunc a : Int) : ℚ) ≤ trunc b := by exact_mod_cast trunc_le_trunc hle
  push_cast
  rw [abs_of_nonpos (by linarith), abs_of_nonpos (by linarith)]
  unfold trunc
  split_ifs with ha hb hb
  · linarith [Int.floor_le b, Int.lt_floor_add_one a]
  · exact absurd (ha.trans hle) hb
  · linarith [Int.floor_le b, Int.le_ceil a]
  · linarith [Int.ceil_lt_add_one b, Int.le_ceil a]

theorem abs_clamp_sub_le {lo hi : ℚ} (hle : lo ≤ hi) (a b : ℚ) :
    |clamp a lo hi - clamp b lo hi| ≤ |a - b| := by
  wlog hab : a ≤ b generalizing a b
  · have hswap := this b a (le_of_not_ge hab)
    rwa [abs_sub_comm, abs_sub_comm a]
  have hmono := clamp_le_clamp hle hab
  rw [abs_of_nonpos (by linarith), abs_of_nonpos (by linarith)]
  unfold clamp
  split_ifs <;> linarith

/-- A change of the velocity comes out as less than one hundredth more. -/
theorem abs_field_sub_lt (msg msg' : Twist) (i : Axis) :
    |((i.field (cmdFrame msg') - i.field (cmdFrame msg) : Int) : ℚ)| <
      100 * |msg'.axis i - msg.axis i| + 1 := by
  rw [field_cmdFrame, field_cmdFrame]
  refine (abs_trunc_sub_lt _ _).trans_le ?_
  have hclamp := abs_clamp_sub_le (neg_bound_le i) (msg'.axis i) (msg.axis i)
  rw [← mul_sub, abs_mul, abs_of_pos (by norm_num : (0 : ℚ) < 100)]
  linarith

end AgvPro
