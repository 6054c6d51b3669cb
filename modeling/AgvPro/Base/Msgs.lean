import Mathlib.Data.Rat.Defs

/-!
# Messages

The `geometry_msgs` the nodes exchange, over exact arithmetic.
-/

namespace AgvPro

structure Vector3 where
  x : ℚ := 0
  y : ℚ := 0
  z : ℚ := 0
deriving DecidableEq

/-- `{}` is the stop command. -/
structure Twist where
  linear : Vector3 := {}
  angular : Vector3 := {}
deriving DecidableEq

end AgvPro
