import AgvPro.Drive.Axes
import AgvPro.Lib.Run
import Mathlib.Data.List.Chain

/-!
# The velocity smoother in front of `/cmd_vel`

Navigation's commands pass through the smoother: at every tick of its timer it takes the
velocity it sent last a step further towards the command, no faster than the acceleration
limits allow.  When the commands stop for longer than `velocity_timeout` it makes the
command zero, brakes, and falls silent.

    what is sent lies between what was sent before and the command  (applyConstraints_between)
    nothing sent leaves the velocity limits, zero counted in, nor
      what a tick allows                                            (bounded_run, changes_run)
    braking reaches zero within a number of ticks known beforehand  (stops_run)
    a command that is repeated is reached, and kept                 (settles_run)

The numbers, `double` in the source, are exact rationals.
-/

namespace AgvPro

open Run

/-! ## Parameters -/

/-- The place of a velocity in a `std::vector<double>` of size 3. -/
def Axis.index : Axis → Nat
  | .x => 0
  | .y => 1
  | .theta => 2

def Axis.all : List Axis := [.x, .y, .theta]

structure SmootherParams where
  smoothing_frequency : ℚ := 20
  feedback : String := "OPEN_LOOP"
  scale_velocities : Bool := false
  max_velocity : List ℚ := [1/2, 0, 5/2]
  min_velocity : List ℚ := [-1/2, 0, -5/2]
  max_accel : List ℚ := [5/2, 0, 16/5]
  max_decel : List ℚ := [-5/2, 0, -16/5]
  deadband_velocity : List ℚ := [0, 0, 0]
  velocity_timeout : ℚ := 1

/-- The limits as `on_configure` lets them pass. -/
structure SmootherConfig where
  smoothing_frequency : ℚ
  open_loop : Bool
  scale_velocities : Bool
  max_velocities : Axis → ℚ
  min_velocities : Axis → ℚ
  max_accels : Axis → ℚ
  max_decels : Axis → ℚ
  deadband_velocities : Axis → ℚ
  velocity_timeout : Int
  decel_nonpos : ∀ i, max_decels i ≤ 0
  accel_nonneg : ∀ i, 0 ≤ max_accels i
  min_le_max : ∀ i, min_velocities i ≤ max_velocities i

/-- `on_configure` succeeds, throws, or reads past the end of a vector. -/
inductive Configured where
  | success (c : SmootherConfig)
  | failure (what : String)
  | outOfRange

/-- One round of the loop: what its checks throw, in their order. -/
def limitError (p : SmootherParams) (i : Axis) : Option (Option String) :=
  match p.max_decel[i.index]? with
  | none => none
  | some decel =>
    if 0 < decel then
      some "Positive values set of deceleration! These should be negative to slow down!"
    else match p.max_accel[i.index]? with
      | none => none
      | some accel =>
        if accel < 0 then
          some "Negative values set of acceleration! These should be positive to speed up!"
        else match p.min_velocity[i.index]?, p.max_velocity[i.index]? with
          | some lo, some hi =>
            if hi < lo then some "Min velocities are higher than max velocities!" else some none
          | _, _ => none

def atAxis (v : List ℚ) (i : Axis) : ℚ := v.getD i.index 0

/-- A round without a complaint. -/
theorem limits_of_pass {p : SmootherParams} {i : Axis} (h : limitError p i = some none) :
    atAxis p.max_decel i ≤ 0 ∧ 0 ≤ atAxis p.max_accel i ∧
      atAxis p.min_velocity i ≤ atAxis p.max_velocity i := by
  unfold limitError at h
  unfold atAxis
  simp only [List.getD_eq_getElem?_getD]
  cases hd : p.max_decel[i.index]? with
  | none => simp [hd] at h
  | some decel =>
    by_cases hdecel : 0 < decel
    · simp [hd, hdecel] at h
    · cases ha : p.max_accel[i.index]? with
      | none => simp [hd, hdecel, ha] at h
      | some accel =>
        by_cases haccel : accel < 0
        · simp [hd, hdecel, ha, haccel] at h
        · cases hlo : p.min_velocity[i.index]? with
          | none => simp [hd, hdecel, ha, haccel, hlo] at h
          | some lo =>
            cases hhi : p.max_velocity[i.index]? with
            | none => simp [hd, hdecel, ha, haccel, hlo, hhi] at h
            | some hi =>
              by_cases hle : hi < lo
              · simp [hd, hdecel, ha, haccel, hlo, hhi, hle] at h
              · exact ⟨not_lt.mp hdecel, not_lt.mp haccel, not_lt.mp hle⟩

/-- The loop comes before any size is looked at. -/
def onConfigure (p : SmootherParams) : Configured :=
  match hx : limitError p .x, hy : limitError p .y, htheta : limitError p .theta with
  | none, _, _ => .outOfRange
  | some (some what), _, _ => .failure what
  | some none, none, _ => .outOfRange
  | some none, some (some what), _ => .failure what
  | some none, some none, none => .outOfRange
  | some none, some none, some (some what) => .failure what
  | some none, some none, some none =>
    if p.max_velocity.length ≠ 3 ∨ p.min_velocity.length ≠ 3 ∨ p.max_accel.length ≠ 3 ∨
        p.max_decel.length ≠ 3 ∨ p.deadband_velocity.length ≠ 3 then
      .failure ("Invalid setting of kinematic and/or deadband limits!" ++
        " All limits must be size of 3 representing (x, y, theta).")
    else if p.feedback ≠ "OPEN_LOOP" ∧ p.feedback ≠ "CLOSED_LOOP" then
      .failure "Invalid feedback_type, options are OPEN_LOOP and CLOSED_LOOP."
    else
      have hpass : ∀ i, limitError p i = some none := fun i => by
        cases i with
        | x => exact hx
        | y => exact hy
        | theta => exact htheta
      .success
        { smoothing_frequency := p.smoothing_frequency
          open_loop := p.feedback == "OPEN_LOOP"
          scale_velocities := p.scale_velocities
          max_velocities := atAxis p.max_velocity
          min_velocities := atAxis p.min_velocity
          max_accels := atAxis p.max_accel
          max_decels := atAxis p.max_decel
          deadband_velocities := atAxis p.deadband_velocity
          velocity_timeout := trunc (p.velocity_timeout * 1000000000)
          decel_nonpos := fun i => (limits_of_pass (hpass i)).1
          accel_nonneg := fun i => (limits_of_pass (hpass i)).2.1
          min_le_max := fun i => (limits_of_pass (hpass i)).2.2 }

def Configured.config : Configured → Option SmootherConfig
  | .success c => some c
  | .failure _ | .outOfRange => none

/-- The section of `agvpro.yaml`. -/
def agvproParams : SmootherParams where
  smoothing_frequency := 20
  scale_velocities := false
  feedback := "OPEN_LOOP"
  max_velocity := [13/50, 0, 1/2]
  min_velocity := [-13/50, 0, -1/2]
  max_accel := [5/2, 0, 16/5]
  max_decel := [-5/2, 0, -16/5]
  deadband_velocity := [0, 0, 0]
  velocity_timeout := 1

/-- What `on_configure` makes of it. -/
def agvproSmoother : SmootherConfig := (onConfigure agvproParams).config.get (by decide +kernel)

theorem agvpro_forward : 0 < agvproSmoother.smoothing_frequency := by decide +kernel

theorem agvpro_open : agvproSmoother.open_loop = true := by decide +kernel

/-! ## Model -/

/-- A `double` as a message may carry it. -/
inductive Double where
  | finite (q : ℚ)
  | inf
  | nan
deriving DecidableEq

/-- A Twist as it is received. -/
structure RawTwist where
  linear : Double × Double × Double
  angular : Double × Double × Double

/-- `validateTwist`, with the values it lets pass. -/
def validateTwist : RawTwist → Option Twist
  | ⟨(.finite lx, .finite ly, .finite lz), (.finite ax, .finite ay, .finite az)⟩ =>
    some ⟨⟨lx, ly, lz⟩, ⟨ax, ay, az⟩⟩
  | _ => none

structure Smoother where
  command : Option Twist := none
  last_cmd : Twist := {}
  stopped : Bool := true
  last_command_time : Int := 0
  published : List Twist := []

/-- A message on `cmd_vel`, or a tick of the timer with what `odom_smoother_` holds. -/
inductive SmootherEvent where
  | command (msg : RawTwist) (now : Int)
  | tick (now : Int) (odom : Twist)

section
variable (c : SmootherConfig)

/-- The range of one step: the acceleration limit away from zero, that for braking
otherwise. -/
def stepLimit (v_curr v_cmd accel decel : ℚ) : ℚ :=
  if |v_curr| ≤ |v_cmd| ∧ 0 ≤ v_curr * v_cmd then accel / c.smoothing_frequency
  else -decel / c.smoothing_frequency

def findEtaConstraint (v_curr v_cmd accel decel : ℚ) : ℚ :=
  let dv := v_cmd - v_curr
  let limit := stepLimit c v_curr v_cmd accel decel
  if limit < dv then limit / dv
  else if dv < -limit then -limit / dv
  else -1

def applyConstraints (v_curr v_cmd accel decel eta : ℚ) : ℚ :=
  let dv := v_cmd - v_curr
  let limit := stepLimit c v_curr v_cmd accel decel
  v_curr + clamp (eta * dv) (-limit) limit

/-- The scale factor after an axis more. -/
def updateEta (current command : Twist) (eta : ℚ) (i : Axis) : ℚ :=
  let curr_eta := findEtaConstraint c (current.axis i) (command.axis i) (c.max_accels i)
    (c.max_decels i)
  if 0 < curr_eta ∧ |1 - eta| < |1 - curr_eta| then curr_eta else eta

/-- The most significant of the three scale factors. -/
def findEta (current command : Twist) : ℚ := Axis.all.foldl (updateEta c current command) 1

/-- The command within the velocity limits; it replaces the one received. -/
def clampCommand (command : Twist) : Twist :=
  command.withAxes fun i => clamp (command.axis i) (c.min_velocities i) (c.max_velocities i)

def smoothed (current command : Twist) : Twist :=
  let eta := if c.scale_velocities then findEta c current command else 1
  ({} : Twist).withAxes fun i =>
    applyConstraints c (current.axis i) (command.axis i) (c.max_accels i) (c.max_decels i) eta

def deadband (msg : Twist) : Twist :=
  msg.withAxes fun i => if |msg.axis i| < c.deadband_velocities i then 0 else msg.axis i

namespace Smoother

/-- Messages with a NaN or an infinity are ignored. -/
def inputCommandCallback (s : Smoother) (msg : RawTwist) (now : Int) : Smoother :=
  match validateTwist msg with
  | none => s
  | some msg => { s with command := some msg, last_command_time := now }

def smootherTimer (s : Smoother) (now : Int) (odom : Twist) : Smoother :=
  match s.command with
  | none => s
  | some command =>
    let timedOut := c.velocity_timeout < now - s.last_command_time
    if timedOut ∧ (s.last_cmd = {} ∨ s.stopped) then { s with stopped := true }
    else
      let command := clampCommand c (if timedOut then {} else command)
      let current := if c.open_loop then s.last_cmd else odom
      let cmd_vel := smoothed c current command
      { s with
        command := some command
        last_cmd := cmd_vel
        stopped := false
        published := s.published ++ [deadband c cmd_vel] }

def step (s : Smoother) : SmootherEvent → Option Smoother
  | .command msg now => some (s.inputCommandCallback msg now)
  | .tick now odom => some (s.smootherTimer c now odom)

end Smoother

end

/-! ## One axis -/

section
variable {c : SmootherConfig}

/-- What a tick may take off while it brakes. -/
def SmootherConfig.brake (c : SmootherConfig) (i : Axis) : ℚ :=
  -c.max_decels i / c.smoothing_frequency

theorem brake_nonneg (hf : 0 < c.smoothing_frequency) (i : Axis) : 0 ≤ c.brake i :=
  div_nonneg (neg_nonneg.mpr (c.decel_nonpos i)) hf.le

theorem stepLimit_nonneg (hf : 0 < c.smoothing_frequency) (cur cmd : ℚ) (i : Axis) :
    0 ≤ stepLimit c cur cmd (c.max_accels i) (c.max_decels i) := by
  unfold stepLimit
  split
  · exact div_nonneg (c.accel_nonneg i) hf.le
  · exact brake_nonneg hf i

/-- A change cut to a symmetric range keeps its direction. -/
theorem clamp_toward (d limit : ℚ) (hlimit : 0 ≤ limit) :
    (0 ≤ d → 0 ≤ clamp d (-limit) limit ∧ clamp d (-limit) limit ≤ d) ∧
      (d ≤ 0 → d ≤ clamp d (-limit) limit ∧ clamp d (-limit) limit ≤ 0) := by
  unfold clamp
  constructor
  · intro hd
    split_ifs with h1 h2
    · constructor <;> linarith
    · constructor <;> linarith
    · exact ⟨hd, le_rfl⟩
  · intro hd
    split_ifs with h1 h2
    · constructor <;> linarith
    · constructor <;> linarith
    · exact ⟨le_rfl, hd⟩

theorem applyConstraints_change (hf : 0 < c.smoothing_frequency) (cur cmd eta : ℚ) (i : Axis) :
    |applyConstraints c cur cmd (c.max_accels i) (c.max_decels i) eta - cur| ≤
      stepLimit c cur cmd (c.max_accels i) (c.max_decels i) := by
  have hlimit := stepLimit_nonneg hf cur cmd i
  obtain ⟨hlo, hhi⟩ := clamp_bounds (eta * (cmd - cur)) _ _ (neg_le_self hlimit)
  unfold applyConstraints
  simp only [add_sub_cancel_left]
  exact abs_le.mpr ⟨hlo, hhi⟩

/-- What is sent lies between the current velocity and the command. -/
theorem applyConstraints_between (hf : 0 < c.smoothing_frequency) (cur cmd : ℚ) {eta : ℚ}
    (h0 : 0 ≤ eta) (h1 : eta ≤ 1) (i : Axis) :
    min cur cmd ≤ applyConstraints c cur cmd (c.max_accels i) (c.max_decels i) eta ∧
      applyConstraints c cur cmd (c.max_accels i) (c.max_decels i) eta ≤ max cur cmd := by
  have hlimit := stepLimit_nonneg hf cur cmd i
  obtain ⟨hup, hdown⟩ := clamp_toward (eta * (cmd - cur)) _ hlimit
  unfold applyConstraints
  simp only
  rcases le_total cur cmd with hle | hle
  · have hd : 0 ≤ cmd - cur := sub_nonneg.mpr hle
    obtain ⟨hlo, hhi⟩ := hup (mul_nonneg h0 hd)
    have hscaled : eta * (cmd - cur) ≤ cmd - cur := mul_le_of_le_one_left hd h1
    rw [min_eq_left hle, max_eq_right hle]
    constructor <;> linarith
  · have hd : cmd - cur ≤ 0 := sub_nonpos.mpr hle
    obtain ⟨hlo, hhi⟩ := hdown (mul_nonpos_of_nonneg_of_nonpos h0 hd)
    have hscaled : cmd - cur ≤ eta * (cmd - cur) := by nlinarith
    rw [min_eq_right hle, max_eq_left hle]
    constructor <;> linarith

/-! ## The scale factor -/

/-- A factor that counts is one at which an axis just keeps its limit. -/
theorem findEtaConstraint_pos (hf : 0 < c.smoothing_frequency) {cur cmd : ℚ} {i : Axis}
    (h : 0 < findEtaConstraint c cur cmd (c.max_accels i) (c.max_decels i)) :
    findEtaConstraint c cur cmd (c.max_accels i) (c.max_decels i) < 1 ∧
      stepLimit c cur cmd (c.max_accels i) (c.max_decels i) =
        findEtaConstraint c cur cmd (c.max_accels i) (c.max_decels i) * |cmd - cur| := by
  have hlimit := stepLimit_nonneg hf cur cmd i
  unfold findEtaConstraint at h ⊢
  simp only at h ⊢
  split_ifs at h ⊢ with h1 h2
  · have hd : 0 < cmd - cur := lt_of_le_of_lt hlimit h1
    rw [abs_of_pos hd, div_mul_cancel₀ _ hd.ne', div_lt_one hd]
    exact ⟨h1, rfl⟩
  · have hd : cmd - cur < 0 := lt_of_lt_of_le h2 (neg_nonpos.mpr hlimit)
    rw [abs_of_neg hd, div_lt_one_of_neg hd]
    refine ⟨h2, ?_⟩
    rw [mul_neg, div_mul_cancel₀ _ hd.ne, neg_neg]
  · norm_num at h

/-- The factor chosen is 1, or that of an axis. -/
theorem findEta_cases (current command : Twist) :
    findEta c current command = 1 ∨ ∃ i,
      findEta c current command = findEtaConstraint c (current.axis i) (command.axis i)
        (c.max_accels i) (c.max_decels i) ∧ 0 < findEta c current command := by
  have hfold : ∀ (axes : List Axis) (eta : ℚ),
      (eta = 1 ∨ ∃ i, eta = findEtaConstraint c (current.axis i) (command.axis i)
        (c.max_accels i) (c.max_decels i) ∧ 0 < eta) →
      axes.foldl (updateEta c current command) eta = 1 ∨
        ∃ i, axes.foldl (updateEta c current command) eta = findEtaConstraint c (current.axis i)
          (command.axis i) (c.max_accels i) (c.max_decels i) ∧
          0 < axes.foldl (updateEta c current command) eta := by
    intro axes
    induction axes with
    | nil => exact fun eta h => h
    | cons i axes ih =>
      intro eta h
      apply ih
      unfold updateEta
      simp only
      split
      · rename_i hcond
        exact Or.inr ⟨i, rfl, hcond.1⟩
      · exact h
  exact hfold Axis.all 1 (Or.inl rfl)

theorem findEta_mem (hf : 0 < c.smoothing_frequency) (current command : Twist) :
    0 < findEta c current command ∧ findEta c current command ≤ 1 := by
  rcases findEta_cases current command with h | ⟨i, h, hpos⟩
  · rw [h]
    exact ⟨one_pos, le_rfl⟩
  · have hlt := (findEtaConstraint_pos hf (h ▸ hpos)).1
    exact ⟨hpos, h.trans_lt hlt |>.le⟩

/-! ## One tick -/

/-- Only the three velocities are set. -/
structure Flat (msg : Twist) : Prop where
  linear_z : msg.linear.z = 0
  angular_x : msg.angular.x = 0
  angular_y : msg.angular.y = 0

theorem Flat.withAxes {msg : Twist} (h : Flat msg) (v : Axis → ℚ) : Flat (msg.withAxes v) :=
  ⟨h.linear_z, h.angular_x, h.angular_y⟩

theorem flat_stop : Flat {} := ⟨rfl, rfl, rfl⟩

/-- A flat Twist is its three velocities. -/
theorem Flat.ext {msg msg' : Twist} (h : Flat msg) (h' : Flat msg')
    (haxis : ∀ i, msg.axis i = msg'.axis i) : msg = msg' := by
  obtain ⟨⟨x, y, z⟩, ⟨ax, ay, az⟩⟩ := msg
  obtain ⟨⟨x', y', z'⟩, ⟨ax', ay', az'⟩⟩ := msg'
  have hz : z = z' := h.linear_z.trans h'.linear_z.symm
  have hax : ax = ax' := h.angular_x.trans h'.angular_x.symm
  have hay : ay = ay' := h.angular_y.trans h'.angular_y.symm
  have hx : x = x' := haxis .x
  have hy : y = y' := haxis .y
  have htheta : az = az' := haxis .theta
  rw [hx, hy, hz, hax, hay, htheta]

/-- The factor a tick uses. -/
def tickEta (c : SmootherConfig) (current command : Twist) : ℚ :=
  if c.scale_velocities then findEta c current command else 1

theorem tickEta_mem (hf : 0 < c.smoothing_frequency) (current command : Twist) :
    0 < tickEta c current command ∧ tickEta c current command ≤ 1 := by
  unfold tickEta
  split
  · exact findEta_mem hf current command
  · exact ⟨one_pos, le_rfl⟩

@[simp] theorem smoothed_axis (current command : Twist) (i : Axis) :
    (smoothed c current command).axis i = applyConstraints c (current.axis i) (command.axis i)
      (c.max_accels i) (c.max_decels i) (tickEta c current command) := by
  cases i <;> rfl

theorem smoothed_flat (current command : Twist) : Flat (smoothed c current command) := by
  unfold smoothed
  exact flat_stop.withAxes _

@[simp] theorem deadband_axis (msg : Twist) (i : Axis) : (deadband c msg).axis i =
    if |msg.axis i| < c.deadband_velocities i then 0 else msg.axis i := by
  cases i <;> rfl

theorem deadband_stop : deadband c {} = {} := by
  refine (flat_stop.withAxes _).ext flat_stop fun i => ?_
  simp

/-- The ways through a tick. -/
inductive Smoother.Ticked (c : SmootherConfig) (s : Smoother) (now : Int) (odom : Twist) :
    Smoother → Prop
  | waiting (hcommand : s.command = none) : s.Ticked c now odom s
  | silent (command : Twist) (hcommand : s.command = some command)
      (htimeout : c.velocity_timeout < now - s.last_command_time)
      (hstop : s.last_cmd = {} ∨ s.stopped = true) :
      s.Ticked c now odom { s with stopped := true }
  | sent (received command : Twist) (hcommand : s.command = some received)
      (hclamped : command = clampCommand c
        (if c.velocity_timeout < now - s.last_command_time then {} else received))
      (hmoving : c.velocity_timeout < now - s.last_command_time →
        s.last_cmd ≠ {} ∧ s.stopped = false) :
      s.Ticked c now odom
        { s with
          command := some command
          last_cmd := smoothed c (if c.open_loop then s.last_cmd else odom) command
          stopped := false
          published := s.published ++
            [deadband c (smoothed c (if c.open_loop then s.last_cmd else odom) command)] }

theorem Smoother.ticked (s : Smoother) (now : Int) (odom : Twist) :
    s.Ticked c now odom (s.smootherTimer c now odom) := by
  unfold smootherTimer
  split
  · rename_i hcommand
    exact .waiting hcommand
  · rename_i received hcommand
    simp only
    split
    · rename_i h
      exact .silent received hcommand h.1 h.2
    · rename_i h
      refine .sent received _ hcommand rfl fun htimeout => ?_
      have hmoving := not_and.mp h htimeout
      exact ⟨fun h0 => hmoving (Or.inl h0),
        Bool.eq_false_of_not_eq_true fun h1 => hmoving (Or.inr h1)⟩

/-! ## Limits -/

/-- Within the velocity limits, zero counted in: on the way from a standstill to a smallest
velocity above zero the smoother sends what lies between. -/
def Within (c : SmootherConfig) (msg : Twist) : Prop :=
  ∀ i, min (c.min_velocities i) 0 ≤ msg.axis i ∧ msg.axis i ≤ max (c.max_velocities i) 0

theorem within_stop : Within c {} := fun i => by
  rw [axis_stop]
  exact ⟨min_le_right _ _, le_max_right _ _⟩

theorem within_clampCommand (msg : Twist) : Within c (clampCommand c msg) := fun i => by
  obtain ⟨hlo, hhi⟩ := clamp_bounds (msg.axis i) _ _ (c.min_le_max i)
  rw [clampCommand, axis_withAxes]
  exact ⟨(min_le_left _ _).trans hlo, hhi.trans (le_max_left _ _)⟩

theorem within_smoothed (hf : 0 < c.smoothing_frequency) {current command : Twist}
    (hcur : Within c current) (hcmd : Within c command) :
    Within c (smoothed c current command) := by
  intro i
  obtain ⟨h0, h1⟩ := tickEta_mem hf current command
  obtain ⟨hlo, hhi⟩ := applyConstraints_between hf (current.axis i) (command.axis i) h0.le h1 i
  rw [smoothed_axis]
  exact ⟨(le_min (hcur i).1 (hcmd i).1).trans hlo, hhi.trans (max_le (hcur i).2 (hcmd i).2)⟩

theorem within_deadband {msg : Twist} (h : Within c msg) : Within c (deadband c msg) := by
  intro i
  rw [deadband_axis]
  split
  · exact ⟨min_le_right _ _, le_max_right _ _⟩
  · exact h i

/-- What was sent last, and all that was published, lies within the limits. -/
def Bounded (c : SmootherConfig) (s : Smoother) : Prop :=
  Within c s.last_cmd ∧ Flat s.last_cmd ∧ ∀ msg ∈ s.published, Within c msg ∧ Flat msg

theorem bounded_step (hf : 0 < c.smoothing_frequency) {s s' : Smoother} {e : SmootherEvent}
    (hs : Bounded c s)
    (hodom : ∀ now odom, e = .tick now odom → c.open_loop = true ∨ Within c odom)
    (h : s.step c e = some s') : Bounded c s' := by
  cases e with
  | command raw now =>
    cases h
    unfold Smoother.inputCommandCallback
    cases validateTwist raw with
    | none => exact hs
    | some msg => exact hs
  | tick now odom =>
    cases h
    have hticked := s.ticked (c := c) now odom
    generalize s.smootherTimer c now odom = s' at hticked ⊢
    cases hticked with
    | waiting hcommand => exact hs
    | silent command hcommand htimeout hstop => exact hs
    | sent received command hcommand hclamped hmoving =>
      have hcur : Within c (if c.open_loop then s.last_cmd else odom) := by
        rcases hodom now odom rfl with hopen | hin
        · rw [if_pos hopen]
          exact hs.1
        · split
          · exact hs.1
          · exact hin
      have hcmd : Within c command := hclamped ▸ within_clampCommand _
      have hsent := within_smoothed hf hcur hcmd
      refine ⟨hsent, smoothed_flat _ _, fun msg hmsg => ?_⟩
      rcases List.mem_append.mp hmsg with hmsg | hmsg
      · exact hs.2.2 msg hmsg
      · rw [List.mem_singleton.mp hmsg]
        exact ⟨within_deadband hsent, (smoothed_flat _ _).withAxes _⟩

theorem bounded_exec (hf : 0 < c.smoothing_frequency) (es : List SmootherEvent) (s s' : Smoother)
    (hs : Bounded c s)
    (hodom : ∀ now odom, .tick now odom ∈ es → c.open_loop = true ∨ Within c odom)
    (h : exec (Smoother.step c) es s = some s') : Bounded c s' := by
  induction es generalizing s with
  | nil => cases h; exact hs
  | cons e es ih =>
    obtain ⟨s1, h1, h2⟩ := exec_cons h
    refine ih s1 (bounded_step hf hs (fun now odom he => ?_) h1) (fun now odom he => ?_) h2
    · exact hodom now odom (he ▸ List.mem_cons_self)
    · exact hodom now odom (List.mem_cons_of_mem e he)

theorem bounded_start : Bounded c {} :=
  ⟨within_stop, flat_stop, fun _ hmsg => (List.not_mem_nil hmsg).elim⟩

/-- **Limits.**  Whatever is commanded and whenever the timer ticks, nothing published
leaves the velocity limits, and no other component is ever set. -/
theorem bounded_run (hf : 0 < c.smoothing_frequency) (es : List SmootherEvent) (s : Smoother)
    (hodom : ∀ now odom, .tick now odom ∈ es → c.open_loop = true ∨ Within c odom)
    (h : exec (Smoother.step c) es {} = some s) : ∀ msg ∈ s.published, Within c msg ∧ Flat msg :=
  (bounded_exec hf es {} s bounded_start hodom h).2.2

/-- A curve to the left. -/
def curveLeft : RawTwist :=
  ⟨(.finite (1/5), .finite 0, .finite 0), (.finite 0, .finite 0, .finite (1/4))⟩

/-- The command, one that is ignored, and two ticks. -/
def shortDrive : List SmootherEvent :=
  [.command curveLeft 1000000000,
   .command { curveLeft with linear := (.nan, .inf, .nan) } 1010000000,
   .tick 1050000000 {}, .tick 1100000000 {}]

theorem bounded_run_short : ∃ s, exec (Smoother.step agvproSmoother) shortDrive {} = some s ∧
    s.published.length = 2 ∧ ∀ msg ∈ s.published, Within agvproSmoother msg ∧ Flat msg := by
  obtain ⟨s, h, hlength⟩ := Option.map_eq_some_iff.mp
    (show (exec (Smoother.step agvproSmoother) shortDrive {}).map (·.published.length) = some 2 by
      decide +kernel)
  refine ⟨s, h, hlength, ?_⟩
  exact bounded_run agvpro_forward shortDrive s (fun _ _ _ => Or.inl agvpro_open) h

/-! ## Accelerations -/

/-- From one velocity to the next: speeding up obeys `max_accel`, slowing down and turning
back `max_decel`. -/
def Allowed (c : SmootherConfig) (i : Axis) (v v' : ℚ) : Prop :=
  |v' - v| ≤
    if |v| < |v'| ∧ 0 ≤ v * v' then c.max_accels i / c.smoothing_frequency else c.brake i

/-- To a larger velocity it is away from zero exactly if the smaller one is not negative. -/
theorem away_iff {v v' : ℚ} (h : v < v') :
    (|v| < |v'| ∧ 0 ≤ v * v' ↔ 0 ≤ v) ∧ (|v| ≤ |v'| ∧ 0 ≤ v * v' ↔ 0 ≤ v) := by
  have hmpr : 0 ≤ v → |v| < |v'| ∧ 0 ≤ v * v' := by
    intro hv
    have hv' : 0 < v' := hv.trans_lt h
    rw [abs_of_nonneg hv, abs_of_pos hv']
    exact ⟨h, mul_nonneg hv hv'.le⟩
  have hmp : |v| ≤ |v'| ∧ 0 ≤ v * v' → 0 ≤ v := by
    rintro ⟨habs, hmul⟩
    by_contra hneg
    have hv := not_le.mp hneg
    have hv' : v' ≤ 0 := nonpos_of_mul_nonneg_right hmul hv
    rw [abs_of_neg hv, abs_of_nonpos hv'] at habs
    linarith
  exact ⟨⟨fun hlt => hmp ⟨hlt.1.le, hlt.2⟩, hmpr⟩,
    hmp, fun hv => ⟨(hmpr hv).1.le, (hmpr hv).2⟩⟩

/-- The branch a command takes can be read off any velocity on the way to it. -/
theorem branch_iff {cur cmd out : ℚ} (hlo : min cur cmd ≤ out) (hhi : out ≤ max cur cmd)
    (hne : out ≠ cur) : |cur| < |out| ∧ 0 ≤ cur * out ↔ |cur| ≤ |cmd| ∧ 0 ≤ cur * cmd := by
  rcases lt_or_gt_of_ne hne with hlt | hgt
  · have hcmd : cmd < cur := by
      by_contra hle
      rw [min_eq_left (not_lt.mp hle)] at hlo
      exact absurd hlt (not_lt.mpr hlo)
    have hout := (away_iff (neg_lt_neg hlt)).1
    have hfar := (away_iff (neg_lt_neg hcmd)).2
    rw [abs_neg, abs_neg, neg_mul_neg] at hout hfar
    exact hout.trans hfar.symm
  · have hcmd : cur < cmd := by
      by_contra hle
      rw [max_eq_left (not_lt.mp hle)] at hhi
      exact absurd hgt (not_lt.mpr hhi)
    exact (away_iff hgt).1.trans (away_iff hcmd).2.symm

theorem allowed_applyConstraints (hf : 0 < c.smoothing_frequency) (cur cmd : ℚ) {eta : ℚ}
    (h0 : 0 ≤ eta) (h1 : eta ≤ 1) (i : Axis) : Allowed c i cur
      (applyConstraints c cur cmd (c.max_accels i) (c.max_decels i) eta) := by
  obtain ⟨hlo, hhi⟩ := applyConstraints_between hf cur cmd h0 h1 i
  have hstep := applyConstraints_change hf cur cmd eta i
  unfold Allowed
  by_cases hsame : applyConstraints c cur cmd (c.max_accels i) (c.max_decels i) eta = cur
  · rw [hsame, sub_self, abs_zero, if_neg (by simp)]
    exact brake_nonneg hf i
  · rw [if_congr (branch_iff hlo hhi hsame) rfl rfl]
    exact hstep

/-- What was published is, but for the deadband, a sequence from rest of allowed changes,
which `last_cmd_` ends. -/
def Paced (c : SmootherConfig) (s : Smoother) : Prop :=
  ∃ sent : List Twist, s.published = sent.map (deadband c) ∧
    (({} : Twist) :: sent).getLast? = some s.last_cmd ∧
    (({} : Twist) :: sent).IsChain fun v v' => ∀ i, Allowed c i (v.axis i) (v'.axis i)

theorem paced_step (hf : 0 < c.smoothing_frequency) (hopen : c.open_loop = true) (s : Smoother)
    (e : SmootherEvent) (s' : Smoother) (hs : Paced c s) (h : s.step c e = some s') :
    Paced c s' := by
  cases e with
  | command raw now =>
    cases h
    unfold Smoother.inputCommandCallback
    cases validateTwist raw with
    | none => exact hs
    | some msg => exact hs
  | tick now odom =>
    cases h
    have hticked := s.ticked (c := c) now odom
    generalize s.smootherTimer c now odom = s' at hticked ⊢
    cases hticked with
    | waiting hcommand => exact hs
    | silent command hcommand htimeout hstop => exact hs
    | sent received command hcommand hclamped hmoving =>
      obtain ⟨sent, hpublished, hlast, hchain⟩ := hs
      obtain ⟨h0, h1⟩ := tickEta_mem hf s.last_cmd command
      rw [if_pos hopen]
      refine ⟨sent ++ [smoothed c s.last_cmd command], ?_, ?_, ?_⟩
      · rw [List.map_append, hpublished]
        rfl
      · rw [← List.cons_append, List.getLast?_concat]
      · rw [← List.cons_append, List.isChain_append]
        refine ⟨hchain, List.isChain_singleton _, fun v hv v' hv' i => ?_⟩
        rw [hlast] at hv
        cases hv
        cases hv'
        rw [smoothed_axis]
        exact allowed_applyConstraints hf _ _ h0.le h1 i

theorem paced_start : Paced c {} := ⟨[], rfl, rfl, List.isChain_singleton _⟩

/-- **Accelerations.**  Sent and published run in step, and no tick speeds the robot up, slows
it down or turns it back by more than the limits allow. -/
theorem changes_run (hf : 0 < c.smoothing_frequency) (hopen : c.open_loop = true)
    (es : List SmootherEvent) (s : Smoother) (h : exec (Smoother.step c) es {} = some s) :
    ∃ sent : List Twist, s.published = sent.map (deadband c) ∧
      (({} : Twist) :: sent).getLast? = some s.last_cmd ∧
      (({} : Twist) :: sent).IsChain fun v v' => ∀ i, Allowed c i (v.axis i) (v'.axis i) :=
  always (paced_step hf hopen) es {} s paced_start h

theorem changes_run_short : ∃ s, exec (Smoother.step agvproSmoother) shortDrive {} = some s ∧
    ∃ sent : List Twist, s.published = sent.map (deadband agvproSmoother) ∧
      (({} : Twist) :: sent).getLast? = some s.last_cmd ∧
      (({} : Twist) :: sent).IsChain fun v v' =>
        ∀ i, Allowed agvproSmoother i (v.axis i) (v'.axis i) := by
  obtain ⟨s, h⟩ := Option.isSome_iff_exists.mp
    (show (exec (Smoother.step agvproSmoother) shortDrive {}).isSome from rfl)
  exact ⟨s, h, changes_run agvpro_forward agvpro_open shortDrive s h⟩

/-! ## Arriving -/

/-- What is left of a way after a step of `eta` of it, cut to a limit. -/
theorem left_le (hf : 0 < c.smoothing_frequency) (cur cmd : ℚ) {eta : ℚ} (h0 : 0 ≤ eta)
    (h1 : eta ≤ 1) (i : Axis) :
    |cmd - applyConstraints c cur cmd (c.max_accels i) (c.max_decels i) eta| ≤
      max ((1 - eta) * |cmd - cur|)
        (|cmd - cur| - stepLimit c cur cmd (c.max_accels i) (c.max_decels i)) := by
  have hlimit := stepLimit_nonneg hf cur cmd i
  generalize hl : stepLimit c cur cmd (c.max_accels i) (c.max_decels i) = limit at hlimit ⊢
  have hout : cmd - applyConstraints c cur cmd (c.max_accels i) (c.max_decels i) eta =
      (cmd - cur) - clamp (eta * (cmd - cur)) (-limit) limit := by
    unfold applyConstraints
    rw [hl]
    ring
  rw [hout]
  generalize cmd - cur = d
  rcases le_total 0 d with hd | hd
  · have hscaled : eta * d ≤ d := mul_le_of_le_one_left hd h1
    have hpos : 0 ≤ eta * d := mul_nonneg h0 hd
    rw [abs_of_nonneg hd]
    unfold clamp
    split_ifs with hlo hhi
    · linarith
    · rw [abs_of_nonneg (by linarith)]
      exact le_max_right _ _
    · rw [abs_of_nonneg (by linarith), ← one_sub_mul]
      exact le_max_left _ _
  · have hscaled : d ≤ eta * d := by nlinarith
    have hneg : eta * d ≤ 0 := mul_nonpos_of_nonneg_of_nonpos h0 hd
    rw [abs_of_nonpos hd]
    unfold clamp
    split_ifs with hlo hhi
    · rw [abs_of_nonpos (by linarith)]
      refine le_trans ?_ (le_max_right _ _)
      linarith
    · linarith
    · rw [abs_of_nonpos (by linarith)]
      refine le_trans ?_ (le_max_left _ _)
      linarith

/-- `n` steps of at least `g` lie between the velocities and the command. -/
def Near (g : Axis → ℚ) (n : Nat) (current command : Twist) : Prop :=
  ∀ i, |command.axis i - current.axis i| ≤ n * g i

/-- On an axis that is not there yet the limit is at least `g`. -/
def Gains (c : SmootherConfig) (g : Axis → ℚ) (current command : Twist) : Prop :=
  ∀ i, current.axis i ≠ command.axis i →
    g i ≤ stepLimit c (current.axis i) (command.axis i) (c.max_accels i) (c.max_decels i)

/-- One of `n + 1` steps is never more than the factor leaves. -/
theorem tickEta_ge (hf : 0 < c.smoothing_frequency) {g : Axis → ℚ} {n : Nat}
    {current command : Twist} (hgain : Gains c g current command)
    (hnear : Near g (n + 1) current command) : 1 ≤ (n + 1) * tickEta c current command := by
  have hn : (0 : ℚ) ≤ n := Nat.cast_nonneg n
  unfold tickEta
  split
  · rcases findEta_cases (c := c) current command with h | ⟨i, h, hpos⟩
    · rw [h]
      linarith
    · obtain ⟨-, hlimit⟩ := findEtaConstraint_pos hf (h ▸ hpos)
      rw [← h] at hlimit
      have hle := hnear i
      push_cast at hle
      by_cases harrived : current.axis i = command.axis i
      · -- nothing is left to scale
        rw [harrived] at h
        simp [findEtaConstraint, not_lt.mpr (stepLimit_nonneg hf _ _ i)] at h
        linarith
      · have hg := hgain i harrived
        have hdist : 0 < |command.axis i - current.axis i| :=
          abs_pos.mpr (sub_ne_zero.mpr (Ne.symm harrived))
        by_contra hlt
        have hshort := not_le.mp hlt
        have hmul : (n + 1) * (findEta c current command * |command.axis i - current.axis i|) <
            |command.axis i - current.axis i| := by
          rw [← mul_assoc]
          exact mul_lt_of_lt_one_left hdist hshort
        rw [← hlimit] at hmul
        have hfar : (n + 1) * g i ≤ (n + 1) * stepLimit c (current.axis i) (command.axis i)
            (c.max_accels i) (c.max_decels i) := by
          gcongr
        linarith
  · linarith

/-- A tick leaves one step less. -/
theorem near_smoothed (hf : 0 < c.smoothing_frequency) {g : Axis → ℚ} {n : Nat}
    {current command : Twist} (hgain : Gains c g current command)
    (hnear : Near g (n + 1) current command) : Near g n (smoothed c current command) command := by
  intro i
  obtain ⟨h0, h1⟩ := tickEta_mem hf current command
  have hge := tickEta_ge hf hgain hnear
  have hle := hnear i
  push_cast at hle
  have hn : (0 : ℚ) ≤ n := Nat.cast_nonneg n
  have hg : 0 ≤ g i := by
    have hdist := (abs_nonneg _).trans hle
    nlinarith
  rw [smoothed_axis]
  refine (left_le hf _ _ h0.le h1 i).trans (max_le ?_ ?_)
  · calc (1 - tickEta c current command) * |command.axis i - current.axis i|
        ≤ (1 - tickEta c current command) * ((n + 1) * g i) := by gcongr
      _ = (n + 1 - (n + 1) * tickEta c current command) * g i := by ring
      _ ≤ n * g i := by gcongr; linarith
  · by_cases harrived : current.axis i = command.axis i
    · have hlimit := stepLimit_nonneg hf (current.axis i) (command.axis i) i
      have hrest := mul_nonneg hn hg
      rw [harrived] at hlimit ⊢
      rw [sub_self, abs_zero]
      linarith
    · have hstep := hgain i harrived
      linarith

/-- No step left is being there. -/
theorem Near.arrived {g : Axis → ℚ} {current command : Twist} (h : Near g 0 current command)
    (i : Axis) : current.axis i = command.axis i := by
  have hle := h i
  rw [Nat.cast_zero, zero_mul] at hle
  exact (sub_eq_zero.mp (abs_nonpos_iff.mp hle)).symm

/-- Who is there stays there. -/
theorem near_zero_smoothed (hf : 0 < c.smoothing_frequency) {g : Axis → ℚ}
    {current command : Twist} (h : Near g 0 current command) :
    Near g 0 (smoothed c current command) command := by
  intro i
  obtain ⟨h0, h1⟩ := tickEta_mem hf current command
  obtain ⟨hlo, hhi⟩ := applyConstraints_between hf (current.axis i) (command.axis i) h0.le h1 i
  rw [h.arrived i, min_self] at hlo
  rw [h.arrived i, max_self] at hhi
  rw [smoothed_axis, h.arrived i, le_antisymm hhi hlo, sub_self, abs_zero, Nat.cast_zero,
    zero_mul]

/-! ## Braking -/

/-- Standing still is within the velocity limits. -/
def Stoppable (c : SmootherConfig) : Prop :=
  ∀ i, c.min_velocities i ≤ 0 ∧ 0 ≤ c.max_velocities i

theorem clampCommand_stop (h : Stoppable c) : clampCommand c {} = {} := by
  refine (flat_stop.withAxes _).ext flat_stop fun i => ?_
  obtain ⟨hlo, hhi⟩ := h i
  rw [axis_withAxes, axis_stop, clamp, if_neg (not_lt.mpr hlo), if_neg (not_lt.mpr hhi)]

theorem gains_brake (current : Twist) : Gains c c.brake current {} := by
  intro i hne
  have hpos : 0 < |current.axis i| := by
    rw [axis_stop] at hne
    exact abs_pos.mpr hne
  unfold stepLimit
  rw [if_neg fun h => ?_]
  · rfl
  · rw [axis_stop, abs_zero] at h
    exact absurd hpos (not_lt.mpr h.1)

/-- A smoother that is stopped, or was never commanded, stands still. -/
structure Rested (s : Smoother) : Prop where
  still : s.stopped = true → s.last_cmd = {}
  idle : s.command = none → s.stopped = true

theorem rested_step (s : Smoother) (e : SmootherEvent) (s' : Smoother) (hs : Rested s)
    (h : s.step c e = some s') : Rested s' := by
  cases e with
  | command raw now =>
    cases h
    unfold Smoother.inputCommandCallback
    cases validateTwist raw with
    | none => exact hs
    | some msg => exact ⟨hs.still, nofun⟩
  | tick now odom =>
    cases h
    have hticked := s.ticked (c := c) now odom
    generalize s.smootherTimer c now odom = s' at hticked ⊢
    cases hticked with
    | waiting hcommand => exact hs
    | silent command hcommand htimeout hstop =>
      exact ⟨fun _ => hstop.elim id hs.still, fun _ => rfl⟩
    | sent received command hcommand hclamped hmoving => exact ⟨nofun, nofun⟩

/-- The ticks of a list of readings of clock and odometry. -/
def ticks (readings : List (Int × Twist)) : List SmootherEvent :=
  readings.map fun r => .tick r.1 r.2

def Late (c : SmootherConfig) (s : Smoother) (readings : List (Int × Twist)) : Prop :=
  ∀ r ∈ readings, c.velocity_timeout < r.1 - s.last_command_time

theorem stopped_stays (readings : List (Int × Twist)) (s s' : Smoother) (hs : s.stopped = true)
    (hlate : Late c s readings) (h : exec (Smoother.step c) (ticks readings) s = some s') :
    s'.stopped = true ∧ s'.published = s.published := by
  induction readings generalizing s with
  | nil => cases h; exact ⟨hs, rfl⟩
  | cons r readings ih =>
    obtain ⟨s1, h1, h2⟩ := exec_cons h
    have hrest : ∀ r' ∈ readings, c.velocity_timeout < r'.1 - s.last_command_time :=
      fun r' hr' => hlate r' (List.mem_cons_of_mem r hr')
    cases h1
    have hticked := s.ticked (c := c) r.1 r.2
    generalize s.smootherTimer c r.1 r.2 = s1 at hticked h2
    cases hticked with
    | waiting hcommand => exact ih s hs hrest h2
    | silent command hcommand htimeout hstop => exact ih { s with stopped := true } rfl hrest h2
    | sent received command hcommand hclamped hmoving =>
      have hmoves := (hmoving (hlate r List.mem_cons_self)).2
      rw [hs] at hmoves
      cases hmoves

/-- `n` ticks brake a smoother that is `n` steps from rest. -/
theorem brakes (hf : 0 < c.smoothing_frequency) (hopen : c.open_loop = true)
    (hstop : Stoppable c) (readings : List (Int × Twist)) (n : Nat) (s s' : Smoother)
    (hs : Rested s) (hflat : Flat s.last_cmd) (hnear : Near c.brake n s.last_cmd {})
    (hlate : Late c s readings) (h : exec (Smoother.step c) (ticks readings) s = some s') :
    (∃ more, s'.published = s.published ++ more ∧ more.length ≤ n) ∧
      (n < readings.length → s'.stopped = true) := by
  induction readings generalizing n s with
  | nil =>
    cases h
    have hnone : ¬ n < 0 := Nat.not_lt_zero n
    exact ⟨⟨[], (List.append_nil _).symm, Nat.zero_le n⟩, fun hlt => absurd hlt hnone⟩
  | cons r readings ih =>
    obtain ⟨s1, h1, h2⟩ := exec_cons h
    have hrest : ∀ r' ∈ readings, c.velocity_timeout < r'.1 - s.last_command_time :=
      fun r' hr' => hlate r' (List.mem_cons_of_mem r hr')
    have htimeout := hlate r List.mem_cons_self
    cases h1
    have hticked := s.ticked (c := c) r.1 r.2
    generalize s.smootherTimer c r.1 r.2 = s1 at hticked h2
    cases hticked with
    | waiting hcommand =>
      obtain ⟨hstopped, hpublished⟩ := stopped_stays readings s s' (hs.idle hcommand) hrest h2
      exact ⟨⟨[], by rw [hpublished, List.append_nil], Nat.zero_le n⟩, fun _ => hstopped⟩
    | silent command hcommand _ hsilent =>
      obtain ⟨hstopped, hpublished⟩ :=
        stopped_stays readings { s with stopped := true } s' rfl hrest h2
      exact ⟨⟨[], by rw [hpublished, List.append_nil], Nat.zero_le n⟩, fun _ => hstopped⟩
    | sent received command hcommand hclamped hmoving =>
      rw [if_pos htimeout, clampCommand_stop hstop] at hclamped
      subst hclamped
      rw [if_pos hopen] at h2
      cases n with
      | zero => exact absurd (hflat.ext flat_stop hnear.arrived) (hmoving htimeout).1
      | succ n =>
        have hnear' := near_smoothed hf (gains_brake s.last_cmd) hnear
        have hbraked := fun hs hflat hnear hlate => ih n _ hs hflat hnear hlate h2
        obtain ⟨⟨more, hpublished, hlen⟩, hstopped⟩ :=
          hbraked ⟨nofun, nofun⟩ (smoothed_flat _ _) hnear' hrest
        refine ⟨⟨_, hpublished.trans (List.append_assoc _ _ _), ?_⟩, fun hlt => ?_⟩
        · rw [List.length_append, List.length_singleton]
          omega
        · exact hstopped (by simpa using hlt)

/-- From within the velocity limits `n` ticks are enough. -/
theorem near_rest (hstop : Stoppable c) {n : Nat}
    (hn : ∀ i, c.max_velocities i ≤ n * c.brake i ∧ -c.min_velocities i ≤ n * c.brake i)
    {msg : Twist} (h : Within c msg) : Near c.brake n msg {} := by
  intro i
  obtain ⟨hlo, hhi⟩ := h i
  obtain ⟨hmax, hmin⟩ := hn i
  rw [min_eq_left (hstop i).1] at hlo
  rw [max_eq_left (hstop i).2] at hhi
  rw [axis_stop, zero_sub, abs_neg, abs_le]
  constructor <;> linarith

/-- The last Twist published is the last one sent, but for the deadband. -/
theorem Paced.last_published {s : Smoother} (h : Paced c s) (hstill : s.last_cmd = {}) :
    s.published.getLast?.getD {} = {} := by
  obtain ⟨sent, hpublished, hend, -⟩ := h
  rw [hpublished, List.getLast?_map]
  cases hsent : sent.getLast? with
  | none => rfl
  | some msg =>
    rw [List.getLast?_cons, hsent] at hend
    have hmsg : msg = s.last_cmd := Option.some.inj hend
    rw [hmsg, hstill, Option.map_some, Option.getD_some, deadband_stop]

theorem rested_start : Rested {} := ⟨fun _ => rfl, fun _ => rfl⟩

/-- **Braking.**  However the smoother was driven, once the commands stay away for longer
than the timeout it publishes at most `n` times more, the last time a stop, and is silent
from then on: `n` ticks are enough from the velocity limits to rest. -/
theorem stops_run (hf : 0 < c.smoothing_frequency) (hopen : c.open_loop = true)
    (hstop : Stoppable c) (n : Nat)
    (hn : ∀ i, c.max_velocities i ≤ n * c.brake i ∧ -c.min_velocities i ≤ n * c.brake i)
    (es : List SmootherEvent) (s s' : Smoother) (h : exec (Smoother.step c) es {} = some s)
    (readings : List (Int × Twist)) (hlate : Late c s readings) (hlen : n < readings.length)
    (h' : exec (Smoother.step c) (ticks readings) s = some s') :
    s'.stopped = true ∧ s'.last_cmd = {} ∧ s'.published.getLast?.getD {} = {} ∧
      ∃ more, s'.published = s.published ++ more ∧ more.length ≤ n := by
  have hrested : Rested s := always rested_step es {} s rested_start h
  have hpaced : Paced c s := always (paced_step hf hopen) es {} s paced_start h
  obtain ⟨hwithin, hflat, -⟩ :=
    bounded_exec hf es {} s bounded_start (fun _ _ _ => Or.inl hopen) h
  obtain ⟨hmore, hstopped⟩ := brakes hf hopen hstop readings n s s' hrested hflat
    (near_rest hstop hn hwithin) hlate h'
  have hlast : s'.last_cmd = {} := (always rested_step _ s s' hrested h').still (hstopped hlen)
  have hpaced' := always (paced_step hf hopen) _ s s' hpaced h'
  exact ⟨hstopped hlen, hlast, hpaced'.last_published hlast, hmore⟩

theorem agvpro_stoppable : Stoppable agvproSmoother := by
  rintro (_ | _ | _) <;> decide +kernel

theorem agvpro_brakes : ∀ i,
    agvproSmoother.max_velocities i ≤ (4 : Nat) * agvproSmoother.brake i ∧
    -agvproSmoother.min_velocities i ≤ (4 : Nat) * agvproSmoother.brake i := by
  rintro (_ | _ | _) <;> decide +kernel

/-- Five ticks of the timer, the timeout past. -/
def lateReadings : List (Int × Twist) :=
  (List.range 5).map fun k => (2100000000 + 50000000 * k, {})

theorem stops_run_short : ∃ s s', exec (Smoother.step agvproSmoother) shortDrive {} = some s ∧
    exec (Smoother.step agvproSmoother) (ticks lateReadings) s = some s' ∧
    s.last_cmd ≠ {} ∧ s'.stopped = true ∧ s'.last_cmd = {} ∧ s'.published.getLast?.getD {} = {} ∧
      ∃ more, s'.published = s.published ++ more ∧ more.length ≤ 4 := by
  obtain ⟨s, h, hlast⟩ := Option.map_eq_some_iff.mp
    (show (exec (Smoother.step agvproSmoother) shortDrive {}).map
      (fun s => (s.last_command_time, s.last_cmd)) =
        some (1000000000, ⟨⟨1/5, 0, 0⟩, ⟨0, 0, 1/4⟩⟩) by decide +kernel)
  obtain ⟨htime, hcmd⟩ := Prod.mk.inj hlast
  obtain ⟨s', h'⟩ := Option.isSome_iff_exists.mp
    (show (exec (Smoother.step agvproSmoother) (ticks lateReadings) s).isSome from rfl)
  have hlate : Late agvproSmoother s lateReadings := by
    unfold Late
    rw [htime]
    decide +kernel
  refine ⟨s, s', h, h', ?_, stops_run agvpro_forward agvpro_open agvpro_stoppable 4 agvpro_brakes
    shortDrive s s' h lateReadings hlate (by decide) h'⟩
  rw [hcmd]
  decide +kernel

/-! ## Following a command -/

/-- What a tick moves an axis at least, in either branch. -/
def SmootherConfig.gain (c : SmootherConfig) (i : Axis) : ℚ :=
  min (c.max_accels i) (-c.max_decels i) / c.smoothing_frequency

theorem gains_gain (hf : 0 < c.smoothing_frequency) (current command : Twist) :
    Gains c c.gain current command := by
  intro i _
  unfold stepLimit SmootherConfig.gain
  split
  · exact div_le_div_of_nonneg_right (min_le_left _ _) hf.le
  · exact div_le_div_of_nonneg_right (min_le_right _ _) hf.le

/-- The command is repeated, and every tick falls within the timeout of the last one. -/
def Repeated (c : SmootherConfig) (msg : Twist) (s : Smoother) : SmootherEvent → Prop
  | .command raw _ => validateTwist raw = some msg
  | .tick now _ => now - s.last_command_time ≤ c.velocity_timeout

theorem clampCommand_idem (msg : Twist) :
    clampCommand c (clampCommand c msg) = clampCommand c msg := by
  have haxes : (fun i => clamp ((clampCommand c msg).axis i) (c.min_velocities i)
      (c.max_velocities i)) = fun i => clamp (msg.axis i) (c.min_velocities i)
        (c.max_velocities i) := by
    funext i
    obtain ⟨hlo, hhi⟩ := clamp_bounds (msg.axis i) _ _ (c.min_le_max i)
    rw [clampCommand, axis_withAxes, clamp, if_neg (not_lt.mpr hlo), if_neg (not_lt.mpr hhi)]
  rw [clampCommand, haxes]
  rfl

def SmootherEvent.isTick : SmootherEvent → Bool
  | .tick _ _ => true
  | .command _ _ => false

/-- `n` ticks are enough to reach a command that is `n` steps away. -/
theorem follows (hf : 0 < c.smoothing_frequency) (hopen : c.open_loop = true) (msg : Twist)
    (es : List SmootherEvent) (n : Nat) (s s' : Smoother)
    (hcommand : ∃ received, s.command = some received ∧
      clampCommand c received = clampCommand c msg)
    (hnear : Near c.gain n s.last_cmd (clampCommand c msg))
    (hok : Along (Smoother.step c) (Repeated c msg) es s)
    (h : exec (Smoother.step c) es s = some s') :
    Near c.gain (n - es.countP SmootherEvent.isTick) s'.last_cmd (clampCommand c msg) := by
  induction es generalizing n s with
  | nil =>
    cases h
    exact hnear
  | cons e es ih =>
    obtain ⟨s1, h1, h2⟩ := exec_cons h
    obtain ⟨hrepeated, hrest⟩ := hok s1 h1
    cases e with
    | command raw now =>
      have hvalid : validateTwist raw = some msg := hrepeated
      rw [List.countP_cons_of_neg (by simp [SmootherEvent.isTick])]
      cases h1
      refine ih n _ ?_ ?_ hrest h2
      · exact ⟨msg, by simp [Smoother.inputCommandCallback, hvalid], rfl⟩
      · simpa [Smoother.inputCommandCallback, hvalid] using hnear
    | tick now odom =>
      have htime : ¬ c.velocity_timeout < now - s.last_command_time := not_lt.mpr hrepeated
      obtain ⟨received, hreceived, hclamp⟩ := hcommand
      rw [List.countP_cons_of_pos (by rfl), Nat.add_comm, ← Nat.sub_sub]
      cases h1
      have hticked := s.ticked (c := c) now odom
      generalize s.smootherTimer c now odom = s1 at hticked hrest h2
      cases hticked with
      | waiting hnone =>
        rw [hreceived] at hnone
        cases hnone
      | silent command _ htimeout hstop => exact absurd htimeout htime
      | sent received' command hreceived' hclamped hmoving =>
        rw [hreceived] at hreceived'
        cases hreceived'
        rw [if_neg htime, hclamp] at hclamped
        subst hclamped
        rw [if_pos hopen] at hrest h2
        have hnext : Near c.gain (n - 1) (smoothed c s.last_cmd (clampCommand c msg))
            (clampCommand c msg) := by
          cases n with
          | zero => exact near_zero_smoothed hf hnear
          | succ n => exact near_smoothed hf (gains_gain hf _ _) hnear
        have hfollowed := fun hcommand hnear => ih (n - 1) _ hcommand hnear hrest h2
        exact hfollowed ⟨_, rfl, clampCommand_idem msg⟩ hnext

/-- **Following.**  While one command is repeated in time, what is sent reaches it exactly,
clamped to the velocity limits, within the ticks its distance takes, and stays there. -/
theorem settles_run (hf : 0 < c.smoothing_frequency) (hopen : c.open_loop = true) (msg : Twist)
    (raw : RawTwist) (hraw : validateTwist raw = some msg) (now : Int) (s s' : Smoother)
    (es : List SmootherEvent) (n : Nat)
    (hnear : ∀ i, |(clampCommand c msg).axis i - s.last_cmd.axis i| ≤ n * c.gain i)
    (hok : Along (Smoother.step c) (Repeated c msg) (.command raw now :: es) s)
    (hlen : n ≤ es.countP SmootherEvent.isTick)
    (h : exec (Smoother.step c) (.command raw now :: es) s = some s') :
    ∀ i, s'.last_cmd.axis i = (clampCommand c msg).axis i := by
  obtain ⟨s1, h1, h2⟩ := exec_cons h
  have hrest := (hok s1 h1).2
  cases h1
  have hs1 : s.inputCommandCallback raw now =
      { s with command := some msg, last_command_time := now } := by
    simp [Smoother.inputCommandCallback, hraw]
  rw [hs1] at hrest h2
  have hend := follows hf hopen msg es n { s with command := some msg, last_command_time := now }
    s' ⟨msg, rfl, rfl⟩ hnear hrest h2
  rw [Nat.sub_eq_zero_of_le hlen] at hend
  exact hend.arrived

theorem settles_run_short : ∃ s', exec (Smoother.step agvproSmoother)
    [.command curveLeft 1000000000, .tick 1050000000 {}, .tick 1100000000 {}] {} = some s' ∧
    ∀ i, s'.last_cmd.axis i =
      (clampCommand agvproSmoother ⟨⟨1/5, 0, 0⟩, ⟨0, 0, 1/4⟩⟩).axis i := by
  obtain ⟨s', h⟩ := Option.isSome_iff_exists.mp
    (show (exec (Smoother.step agvproSmoother)
      [.command curveLeft 1000000000, .tick 1050000000 {}, .tick 1100000000 {}] {}).isSome from rfl)
  refine ⟨s', h, settles_run agvpro_forward agvpro_open _ _ rfl _ {} s' _ 2 ?_ ?_ (by decide) h⟩
  · rintro (_ | _ | _) <;> decide +kernel
  · rintro _ ⟨⟩
    refine ⟨rfl, ?_⟩
    rintro _ ⟨⟩
    refine ⟨show (_ : Int) ≤ _ by decide +kernel, ?_⟩
    rintro _ ⟨⟩
    exact ⟨show (_ : Int) ≤ _ by decide +kernel, trivial⟩

end

end AgvPro
