import AgvPro.Base.Telemetry
import AgvPro.Lib.Run
import Mathlib.Algebra.BigOperators.Group.List.Basic
import Mathlib.Algebra.Group.Prod
import Mathlib.Data.Rat.Cast.CharZero
import Mathlib.Tactic.LinearCombination

/-!
# Odometry: `Control` and its publishers

`Control` runs on a timer.  When `readData` accepts a frame it integrates the frame's
velocities over the time since `lastTime` and publishes; otherwise it does nothing.  The
constructor has set `lastTime` already, before the seconds the serial port takes to start.

Headings and positions live in any field with a cosine and a sine (`Trig`), the clock
counts nanoseconds.

    a refused frame changes nothing; an accepted one is the last 31 bytes   (control_sound)
    the pose is the sum over the intervals between accepted frames
      ↔ the interval before the first one counts nothing                    (accounted_iff)
-/

namespace AgvPro

open Run

/-! ## The driver -/

/-- Any cosine and sine of a heading. -/
structure Trig (K : Type) [Field K] where
  cos : K → K
  sin : K → K
  norm : ∀ θ, cos θ ^ 2 + sin θ ^ 2 = 1

def odomPoseCovariance : List ℚ :=
  [1/1000000000, 0, 0, 0, 0, 0,
   0, 1/1000, 1/1000000000, 0, 0, 0,
   0, 0, 1000000, 0, 0, 0,
   0, 0, 0, 1000000, 0, 0,
   0, 0, 0, 0, 1000000, 0,
   0, 0, 0, 0, 0, 1/1000000000]

def odomTwistCovariance : List ℚ :=
  [1/1000000000, 0, 0, 0, 0, 0,
   0, 1/1000, 1/1000000000, 0, 0, 0,
   0, 0, 1000000, 0, 0, 0,
   0, 0, 0, 1000000, 0, 0,
   0, 0, 0, 0, 1000000, 0,
   0, 0, 0, 0, 0, 1/1000000000]

/-- Both covariances of the IMU message that it sets. -/
def imuCovariance : List ℚ := [1000000, 0, 0, 0, 1000000, 0, 0, 0, 1/1000000]

/-- A message sent out; an orientation is given by its heading, that of the IMU in degrees. -/
inductive Publication (K : Type) where
  | transform (stamp : Int) (frameId childFrameId : String) (x y theta : K)
  | odom (stamp : Int) (frameId childFrameId : String) (x y theta : K) (poseCovariance : List ℚ)
      (vx vy vtheta : ℚ) (twistCovariance : List ℚ)
  | voltage (data : ℚ)
  | imu (stamp : Int) (frameId : String) (yaw : ℚ) (angularVelocity linearAcceleration : Vector3)
      (orientationCovariance angularVelocityCovariance : List ℚ)
deriving DecidableEq

/-- The fields of the node that `Control` reads and writes, and what it has published. -/
structure Driver (K : Type) where
  sensors : SensorState
  x : K
  y : K
  theta : K
  currentTime : Int
  lastTime : Int
  frameIdOfOdometry : String
  childFrameIdOfOdometry : String
  published : List (Publication K)
deriving DecidableEq

/-- `get_clock()->now()` -/
def Port.now (p : Port) : Int × Port := (p.clock 0, { p with clock := fun i => p.clock (i + 1) })

section
variable {K : Type} [Field K]

/-- `(b - a).seconds()` -/
def secondsBetween (a b : Int) : K := ((b - a : Int) : K) / 1000000000

namespace Driver

/-- The fields after the constructor has run, `lastTime` as it read the clock then. -/
def construct (frameId childFrameId : String) (now : Int) : Driver K where
  sensors := {}
  x := 0
  y := 0
  theta := 0
  currentTime := 0
  lastTime := now
  frameIdOfOdometry := frameId
  childFrameIdOfOdometry := childFrameId
  published := []

def publisherOdom (t : Trig K) (d : Driver K) (dt : K) (p : Port) : Driver K × Port :=
  let (stamp, p) := p.now
  let s := d.sensors
  let deltaX := ((s.vx : K) * t.cos d.theta - (s.vy : K) * t.sin d.theta) * dt
  let deltaY := ((s.vx : K) * t.sin d.theta + (s.vy : K) * t.cos d.theta) * dt
  let deltaTh := (s.vtheta : K) * dt
  let x := d.x + deltaX
  let y := d.y + deltaY
  let theta := d.theta + deltaTh
  ({ d with
      currentTime := stamp
      x := x
      y := y
      theta := theta
      published := d.published ++
        [.transform stamp d.frameIdOfOdometry d.childFrameIdOfOdometry x y theta,
          .odom stamp d.frameIdOfOdometry d.childFrameIdOfOdometry x y theta odomPoseCovariance
            s.vx s.vy s.vtheta odomTwistCovariance] }, p)

def publisherVoltage (d : Driver K) : Driver K :=
  { d with published := d.published ++ [.voltage d.sensors.batteryVoltage] }

def publisherImuSensor (d : Driver K) (p : Port) : Driver K × Port :=
  let (stamp, p) := p.now
  let s := d.sensors
  ({ d with
      published := d.published ++
        [.imu stamp "imu_link" s.yaw s.angularVelocity s.linearAcceleration imuCovariance
          imuCovariance] }, p)

/-- `lastTime` 0 stands for no frame before. -/
def control (t : Trig K) (d : Driver K) (p : Port) : Result (Driver K) :=
  match readData d.sensors p with
  | .blocked p => .blocked p
  | .done (false, s) p => .done { d with sensors := s } p
  | .done (true, s) p =>
    let (currentTime, p) := p.now
    let dt : K := if d.lastTime ≠ 0 then secondsBetween d.lastTime currentTime else 0
    let d := { d with sensors := s, currentTime := currentTime, lastTime := currentTime }
    let (d, p) := d.publisherOdom t dt p
    let d := d.publisherVoltage
    let (d, p) := d.publisherImuSensor p
    .done d p

end Driver

/-! ## Acceptance -/

/-- **Sound and atomic.**  What `readData` accepts are the last 31 bytes it read, and the
state is their decoding; what it refuses leaves the node as it was. -/
theorem control_sound (t : Trig K) (d : Driver K) (p q : Port) (s : SensorState) :
    (readData d.sensors p = .done (true, s) q →
      ∃ pre frame : List UInt8, p.rx = onWire (pre ++ frame) ++ q.rx ∧ frame.length = 31 ∧
        frame.take 4 = [0xFE, 0xFE, 0x1C, 0x25] ∧ crcOk 29 frame = true ∧ s = decode frame) ∧
    (readData d.sensors p = .done (false, s) q →
      s = d.sensors ∧ d.control t p = .done d q) := by
  constructor
  · intro h
    obtain ⟨buf, rx, hr, rfl, rfl⟩ := readData_true h
    obtain ⟨pre, hrx, hlen, hhead, hcrc⟩ := receiveFrame_accepted _ _ _ _ hr
    exact ⟨pre, buf, hrx, hlen, hhead, hcrc, rfl⟩
  · intro h
    obtain rfl := readData_false h
    unfold Driver.control
    rw [h]
    exact ⟨rfl, rfl⟩

/-! ## Dead reckoning -/

/-- An accepted frame: the reading `lastTime` took, the velocities, and the heading held
before it. -/
structure Fix (K : Type) where
  time : Int
  sensors : SensorState
  heading : K

/-- The driver with the frames it has accepted. -/
structure Tracked (K : Type) extends Driver K where
  fixes : List (Fix K)

/-- A call of `Control`, the port as the call meets it. -/
def Tracked.step (t : Trig K) (s : Tracked K) (p : Port) : Option (Tracked K) :=
  match s.control t p with
  | .blocked _ => none
  | .done d _ =>
    match readData s.sensors p with
    | .done (true, _) _ => some ⟨d, s.fixes ++ [⟨d.lastTime, d.sensors, s.theta⟩]⟩
    | _ => some ⟨d, s.fixes⟩

def Tracked.start (frameId childFrameId : String) (now : Int) : Tracked K :=
  ⟨Driver.construct frameId childFrameId now, []⟩

/-- How `x`, `y` and the heading move in `dt` seconds at the velocities `v`. -/
def moved (t : Trig K) (heading : K) (v : SensorState) (dt : K) : K × K × K :=
  (((v.vx : K) * t.cos heading - (v.vy : K) * t.sin heading) * dt,
    ((v.vx : K) * t.sin heading + (v.vy : K) * t.cos heading) * dt, (v.vtheta : K) * dt)

/-- The motion between two accepted frames, at the velocities of the second. -/
def interval (t : Trig K) (f g : Fix K) : K × K × K :=
  moved t g.heading g.sensors (secondsBetween f.time g.time)

/-- The pose is the sum over the intervals between consecutive accepted frames. -/
def Accounted (t : Trig K) (s : Tracked K) : Prop :=
  (s.x, s.y, s.theta) = (List.zipWith (interval t) s.fixes s.fixes.tail).sum

def Still (v : SensorState) : Prop := v.vx = 0 ∧ v.vy = 0 ∧ v.vtheta = 0

/-- If a frame is accepted, the time `Control` takes for the interval before it is right:
none before the first frame, and a reading 0 not taken for none before a later one. -/
def Counted (s : Tracked K) (p : Port) : Prop :=
  ∀ buf rx, receiveFrame p.isOpen p.rx = .accepted buf rx →
    (if s.fixes = [] then s.lastTime = 0 else s.lastTime ≠ 0) ∨
      p.clock 0 = s.lastTime ∨ Still (decode buf)

/-! ## One call -/

/-- What a call of `Control` that returns does to pose, `lastTime` and frames. -/
inductive Tracked.Stepped (t : Trig K) (s : Tracked K) (p : Port) (s' : Tracked K) : Prop
  | refused (rx : List RxEvent) (hr : receiveFrame p.isOpen p.rx = .rejected rx)
      (hpose : (s'.x, s'.y, s'.theta) = (s.x, s.y, s.theta)) (htime : s'.lastTime = s.lastTime)
      (hfixes : s'.fixes = s.fixes)
  | accepted (buf : List UInt8) (rx : List RxEvent)
      (hr : receiveFrame p.isOpen p.rx = .accepted buf rx)
      (hpose : (s'.x, s'.y, s'.theta) = (s.x, s.y, s.theta) + moved t s.theta (decode buf)
        (if s.lastTime ≠ 0 then secondsBetween s.lastTime (p.clock 0) else 0))
      (htime : s'.lastTime = p.clock 0)
      (hfixes : s'.fixes = s.fixes ++ [⟨p.clock 0, decode buf, s.theta⟩])

theorem Tracked.stepped {t : Trig K} {s s' : Tracked K} {p : Port} (h : s.step t p = some s') :
    s.Stepped t p s' := by
  unfold step Driver.control readData at h
  cases hr : receiveFrame p.isOpen p.rx with
  | blocked => rw [hr] at h; cases h
  | rejected rx =>
    rw [hr] at h
    cases h
    exact .refused rx hr rfl rfl rfl
  | accepted buf rx =>
    rw [hr] at h
    cases h
    exact .accepted buf rx hr rfl rfl rfl

theorem moved_zero (t : Trig K) (heading : K) (v : SensorState) : moved t heading v 0 = 0 := by
  unfold moved
  simp only [mul_zero]
  rfl

/-- The rotation keeps every velocity but 0 from vanishing. -/
theorem moved_eq_zero_iff [CharZero K] (t : Trig K) (heading : K) (v : SensorState) (dt : K) :
    moved t heading v dt = 0 ↔ dt = 0 ∨ Still v := by
  unfold moved Still
  rw [Prod.mk_eq_zero, Prod.mk_eq_zero, mul_eq_zero, mul_eq_zero, mul_eq_zero]
  constructor
  · rintro ⟨hx, hy, hth⟩
    by_cases hdt : dt = 0
    · exact Or.inl hdt
    · have hx := hx.resolve_right hdt
      have hy := hy.resolve_right hdt
      have hth := hth.resolve_right hdt
      have hnorm := t.norm heading
      have hvx : (v.vx : K) = 0 := by
        linear_combination t.cos heading * hx + t.sin heading * hy - (v.vx : K) * hnorm
      have hvy : (v.vy : K) = 0 := by
        linear_combination t.cos heading * hy - t.sin heading * hx - (v.vy : K) * hnorm
      exact Or.inr ⟨Rat.cast_eq_zero.mp hvx, Rat.cast_eq_zero.mp hvy, Rat.cast_eq_zero.mp hth⟩
  · rintro (hdt | ⟨hvx, hvy, hth⟩)
    · simp [hdt]
    · simp [hvx, hvy, hth]

theorem moved_inj [CharZero K] (t : Trig K) (heading : K) (v : SensorState) (a b : K) :
    moved t heading v a = moved t heading v b ↔ a = b ∨ Still v := by
  have hsub : moved t heading v a - moved t heading v b = moved t heading v (a - b) := by
    unfold moved
    simp only [Prod.mk_sub_mk, mul_sub]
  rw [← sub_eq_zero, hsub, moved_eq_zero_iff, sub_eq_zero]

theorem secondsBetween_eq_zero_iff [CharZero K] (a b : Int) :
    (secondsBetween a b : K) = 0 ↔ b = a := by
  unfold secondsBetween
  rw [div_eq_zero_iff, Int.cast_eq_zero, sub_eq_zero]
  constructor
  · intro h
    exact h.resolve_right (by norm_num)
  · exact Or.inl

/-- One interval more. -/
theorem zipWith_tail_concat {α β : Type} (f : α → α → β) (l : List α) (a b : α) :
    List.zipWith f (l ++ [a, b]) (l ++ [a, b]).tail =
      List.zipWith f (l ++ [a]) (l ++ [a]).tail ++ [f a b] := by
  induction l with
  | nil => rfl
  | cons c l ih =>
    cases l with
    | nil => rfl
    | cons d l =>
      simp only [List.cons_append, List.tail_cons, List.zipWith_cons_cons] at ih ⊢
      rw [ih]

/-! ## Accounting -/

/-- The latest frame was accepted at `lastTime`. -/
def Timed (s : Tracked K) : Prop := ∀ f, s.fixes.getLast? = some f → f.time = s.lastTime

theorem timed_step {t : Trig K} (s : Tracked K) (p : Port) (s' : Tracked K) (hs : Timed s)
    (h : s.step t p = some s') : Timed s' := by
  cases Tracked.stepped h with
  | refused rx hr hpose htime hfixes =>
    unfold Timed
    rw [hfixes, htime]
    exact hs
  | accepted buf rx hr hpose htime hfixes =>
    intro f hf
    rw [hfixes, List.getLast?_concat] at hf
    cases hf
    exact htime.symm

/-- The time before a frame that belongs to the account. -/
def owed (s : Tracked K) (now : Int) : K :=
  if s.fixes = [] then 0 else secondsBetween s.lastTime now

theorem sum_intervals_concat (t : Trig K) (s : Tracked K) (hs : Timed s) (f : Fix K) :
    (List.zipWith (interval t) (s.fixes ++ [f]) (s.fixes ++ [f]).tail).sum =
      (List.zipWith (interval t) s.fixes s.fixes.tail).sum +
        moved t f.heading f.sensors (owed s f.time) := by
  unfold owed
  rcases List.eq_nil_or_concat' s.fixes with hnil | ⟨l, a, hl⟩
  · rw [hnil, if_pos rfl]
    simp [moved_zero]
  · have htime : a.time = s.lastTime := hs a (by rw [hl, List.getLast?_concat])
    have hne : s.fixes ≠ [] := by rw [hl]; simp
    rw [if_neg hne, hl, List.append_assoc, List.singleton_append, zipWith_tail_concat,
      List.sum_append, List.sum_singleton, interval, htime]

/-- The time `Control` takes before a frame is the time owed. -/
theorem taken_eq_owed_iff [CharZero K] (s : Tracked K) (now : Int) :
    (if s.lastTime ≠ 0 then secondsBetween s.lastTime now else 0 : K) = owed s now ↔
      (if s.fixes = [] then s.lastTime = 0 else s.lastTime ≠ 0) ∨ now = s.lastTime := by
  unfold owed
  by_cases hnil : s.fixes = []
  · by_cases h0 : s.lastTime = 0
    · simp [hnil, h0]
    · simp [hnil, h0, secondsBetween_eq_zero_iff]
  · by_cases h0 : s.lastTime = 0
    · simp [hnil, h0, eq_comm (a := (0 : K)), secondsBetween_eq_zero_iff]
    · simp [hnil, h0]

/-- A call keeps the account exactly when it takes the interval for what it is. -/
theorem accounted_step_iff [CharZero K] {t : Trig K} {s s' : Tracked K} {p : Port} (hs : Timed s)
    (ha : Accounted t s) (h : s.step t p = some s') : Accounted t s' ↔ Counted s p := by
  unfold Accounted at ha ⊢
  unfold Counted
  cases Tracked.stepped h with
  | refused rx hr hpose htime hfixes =>
    rw [hpose, hfixes, hr]
    refine ⟨fun _ buf rx' hacc => ?_, fun _ => ha⟩
    cases hacc
  | accepted buf rx hr hpose htime hfixes =>
    rw [hpose, hfixes, sum_intervals_concat t s hs, ha, add_right_inj, moved_inj,
      taken_eq_owed_iff, hr, or_assoc]
    constructor
    · intro hc buf' rx' hr'
      cases hr'
      exact hc
    · intro hc
      exact hc buf rx rfl

/-- **Dead reckoning.**  The pose is, throughout a run, the sum over the intervals between
accepted frames exactly when no call takes an interval for another. -/
theorem accounted_iff [CharZero K] (t : Trig K) (frameId childFrameId : String) (now : Int)
    (calls : List Port) :
    Throughout (Tracked.step t) (Accounted t) calls (.start frameId childFrameId now) ↔
      Along (Tracked.step t) Counted calls (.start frameId childFrameId now) :=
  throughout_iff_along (I := Timed) timed_step
    (fun _ _ _ hs ha hstep => accounted_step_iff hs ha hstep) calls _
    (fun f hf => by cases hf) rfl

end

/-- The heading is always 0. -/
def flatTrig : Trig ℚ := ⟨fun _ => 1, fun _ => 0, fun _ => by norm_num⟩

/-- 1 rad/s and nothing else. -/
def turningTelemetry : TelemetryFrame := ⟨[0, 0, 100] ++ List.replicate 22 0, rfl⟩

/-- The frame on an open port at 4 s. -/
def turningPort : Port where
  rx := onWire turningTelemetry.bytes
  clock := fun _ => seconds 4
  split := fun _ => 1
  isOpen := true
  throwsAt := fun _ => none
  tx := []

theorem accounted_iff_turning :
    Throughout (Tracked.step flatTrig) (Accounted flatTrig) [turningPort]
        (.start "odom" "base_footprint" (seconds 4)) ↔
      Along (Tracked.step flatTrig) Counted [turningPort]
        (.start "odom" "base_footprint" (seconds 4)) :=
  accounted_iff flatTrig "odom" "base_footprint" (seconds 4) [turningPort]

/-- The constructor read the clock at 1 s: the first frame turns the robot by 3 rad. -/
theorem not_accounted :
    ¬ ∀ (t : Trig ℚ) (now : Int) (calls : List Port),
      (now :: calls.map fun p => p.clock 0).Pairwise (· ≤ ·) →
      (∀ p ∈ calls, ∀ i j, i ≤ j → p.clock i ≤ p.clock j) →
      Throughout (Tracked.step t) (Accounted t) calls (.start "odom" "base_footprint" now) := by
  intro h
  have hrun := h flatTrig (seconds 1) [turningPort] (by decide) (by simp [turningPort])
  have hstep : ((Tracked.start "odom" "base_footprint" (seconds 1)).step flatTrig turningPort).map
      (fun s => (s.theta, s.fixes.length)) = some (3, 1) := by
    decide +kernel
  obtain ⟨s, hs, hout⟩ := Option.map_eq_some_iff.mp hstep
  obtain ⟨htheta, hlen⟩ := Prod.mk.inj hout
  obtain ⟨f, hf⟩ := List.length_eq_one_iff.mp hlen
  have hacc : Accounted flatTrig s := hrun.2 s hs
  unfold Accounted at hacc
  rw [hf] at hacc
  have h0 : s.theta = 0 := (Prod.mk.inj (Prod.mk.inj hacc).2).2
  rw [htheta] at h0
  norm_num at h0

theorem control_sound_turning :
    ∃ pre frame : List UInt8, turningPort.rx = onWire (pre ++ frame) ++ [] ∧ frame.length = 31 ∧
      frame.take 4 = [0xFE, 0xFE, 0x1C, 0x25] ∧ crcOk 29 frame = true ∧
      decode turningTelemetry.bytes = decode frame :=
  (control_sound flatTrig (Driver.construct "odom" "base_footprint" 0) turningPort
    { turningPort with rx := [] } (decode turningTelemetry.bytes)).1
    (readData_telemetry _ turningPort turningTelemetry [] rfl (List.append_nil _).symm)

end AgvPro
