import AgvPro.Base.Reports
import AgvPro.Lib.Rigid

/-!
# Dead reckoning in the plane

Over the reals the pose of the driver is a rigid motion, and a frame with velocities `v`
and `ω` moves it by the straight step `Leg.hold` of the time `Control` takes for it.  The
poses are those of a `Chronicle`: its frames are the line's, its times the clock's.

    between two published poses lies the product of the straight steps between them,
      wherever the driver stood                                          (pose_between)
    a robot that really ran at the reported velocities has the published heading, and is
      off the published way by ‖v‖ |ω| dt² / 2 for each frame at most    (drift_le)
    velocities are signed bytes: 1.28 √2 m and 1.28 rad for each second  (speed_le)
-/

namespace AgvPro

open Run Planar

noncomputable def realTrig : Trig ℝ := ⟨Real.cos, Real.sin, Real.cos_sq_add_sin_sq⟩

noncomputable def Driver.pose (d : Driver ℝ) : Rigid := ⟨⟨d.x, d.y⟩, d.theta⟩

/-- The velocity a frame reports, in the robot's own frame. -/
noncomputable def velocity (s : SensorState) : ℂ := ⟨s.vx, s.vy⟩

/-- The seconds of a clock that counts nanoseconds. -/
noncomputable def clockSeconds (t : Int) : ℝ := secondsBetween 0 t

/-- The time `Control` takes for a frame. -/
noncomputable def taken (last now : Int) : ℝ := if last ≠ 0 then secondsBetween last now else 0

/-- A frame as a leg. -/
noncomputable def Entry.leg (last : Int) (e : Entry ℝ) : Leg :=
  ⟨velocity e.driver.sensors, e.driver.sensors.vtheta, taken last e.time⟩

/-- The legs of a log, `last` the time before it. -/
noncomputable def legs : Int → List (Entry ℝ) → List Leg
  | _, [] => []
  | last, e :: log => e.leg last :: legs e.time log

/-! ## One frame -/

theorem pose_next {d : Driver ℝ} {e : Entry ℝ} (h : e.Next realTrig d) :
    e.driver.pose = d.pose * (e.leg d.lastTime).hold := by
  have hpose := h.pose
  rw [← h.sensors] at hpose
  simp only [moved, Prod.mk_add_mk, Prod.mk.injEq] at hpose
  obtain ⟨hx, hy, hth⟩ := hpose
  have hdir : dir d.theta = ⟨Real.cos d.theta, Real.sin d.theta⟩ := by
    apply Complex.ext
    · exact Complex.exp_ofReal_mul_I_re _
    · exact Complex.exp_ofReal_mul_I_im _
  unfold Driver.pose
  ext1
  · apply Complex.ext
    · simp only [hx, Rigid.mul_pos, hdir, Entry.leg, Leg.hold, velocity, taken, realTrig,
        Complex.add_re, Complex.mul_re, Complex.mul_im, Complex.ofReal_re, Complex.ofReal_im]
      ring
    · simp only [hy, Rigid.mul_pos, hdir, Entry.leg, Leg.hold, velocity, taken, realTrig,
        Complex.add_im, Complex.mul_re, Complex.mul_im, Complex.ofReal_re, Complex.ofReal_im]
      ring
  · simp only [hth, Rigid.mul_ang, Entry.leg, Leg.hold, taken]
    ring

/-! ## Logs -/

section
variable {K : Type} [Field K] {t : Trig K}

theorem Logged.eq_of_nil {d0 d : Driver K} {log : List (Entry K)} (h : Logged t d0 log d)
    (hnil : log = []) : d = d0 := by
  cases h with
  | start => rfl
  | frame h e hnext => exact absurd hnil (by simp)

/-- A log read from the left. -/
theorem Logged.cons_inv {d0 d : Driver K} {log : List (Entry K)} (h : Logged t d0 log d) :
    ∀ e rest, log = e :: rest → e.Next t d0 ∧ Logged t e.driver rest d := by
  induction h with
  | start => exact fun e rest h => by cases h
  | @frame log d h e' hnext ih =>
    intro e rest hlog
    cases log with
    | nil =>
      obtain ⟨rfl, rfl⟩ := List.cons.inj hlog
      obtain rfl := h.eq_of_nil rfl
      exact ⟨hnext, .start⟩
    | cons e1 log =>
      obtain ⟨rfl, rfl⟩ := List.cons.inj hlog
      obtain ⟨hfirst, hrest⟩ := ih e1 log rfl
      exact ⟨hfirst, hrest.frame e' hnext⟩

theorem Logged.drop {d0 d : Driver K} {e : Entry K} {rest : List (Entry K)}
    (before : List (Entry K)) (h : Logged t d0 (before ++ e :: rest) d) :
    Logged t e.driver rest d := by
  induction before generalizing d0 with
  | nil => exact (h.cons_inv e rest rfl).2
  | cons e1 before ih => exact ih (h.cons_inv e1 _ rfl).2

end

/-- The pose after a log is the pose before it and then the steps. -/
theorem pose_logged (log1 : List (Entry ℝ)) {d d' : Driver ℝ} {f : Entry ℝ}
    {log2 : List (Entry ℝ)} (h : Logged realTrig d (log1 ++ f :: log2) d') :
    f.driver.pose = d.pose * ((legs d.lastTime (log1 ++ [f])).map Leg.hold).prod := by
  induction log1 generalizing d with
  | nil =>
    have hnext := (h.cons_inv f log2 rfl).1
    simp [legs, pose_next hnext]
  | cons e log1 ih =>
    obtain ⟨hnext, hrest⟩ := h.cons_inv e _ rfl
    rw [ih hrest, pose_next hnext, mul_assoc]
    simp [legs, Entry.time]

/-! ## Time -/

theorem clockSeconds_sub (a b : Int) : clockSeconds b - clockSeconds a = secondsBetween a b := by
  unfold clockSeconds secondsBetween
  push_cast
  ring

theorem clockSeconds_mono {a b : Int} (h : a ≤ b) : clockSeconds a ≤ clockSeconds b := by
  have hcast : (a : ℝ) ≤ b := by exact_mod_cast h
  rw [← sub_nonneg, clockSeconds_sub]
  unfold secondsBetween
  push_cast
  linarith

/-- The clock has started and does not run backwards. -/
def Clocked (times : List Int) : Prop := times.Pairwise (· ≤ ·) ∧ ∀ a ∈ times, 0 < a

theorem Clocked.tail {a : Int} {times : List Int} (h : Clocked (a :: times)) : Clocked times :=
  ⟨(List.pairwise_cons.mp h.1).2, fun b hb => h.2 b (List.mem_cons_of_mem a hb)⟩

theorem Clocked.sublist {times times' : List Int} (h : Clocked times)
    (hsub : times'.Sublist times) : Clocked times' :=
  ⟨h.1.sublist hsub, fun a ha => h.2 a (hsub.subset ha)⟩

/-- The legs take the time between the two readings, none of them a negative one. -/
theorem legs_elapsed (a : Int) (log : List (Entry ℝ)) (f : Entry ℝ)
    (h : Clocked (a :: (log ++ [f]).map Entry.time)) :
    ((legs a (log ++ [f])).map Leg.dt).sum = clockSeconds f.time - clockSeconds a ∧
      ∀ l ∈ legs a (log ++ [f]), 0 ≤ l.dt := by
  induction log generalizing a with
  | nil =>
    have hne : a ≠ 0 := (h.2 a List.mem_cons_self).ne'
    have hle : a ≤ f.time := (List.pairwise_cons.mp h.1).1 _ (by simp)
    have hdt : taken a f.time = clockSeconds f.time - clockSeconds a := by
      rw [taken, if_pos hne, clockSeconds_sub]
    simp only [List.nil_append, legs, List.map_cons, List.map_nil, List.sum_singleton, Entry.leg,
      hdt, List.forall_mem_singleton, true_and]
    linarith [clockSeconds_mono hle]
  | cons e log ih =>
    have hne : a ≠ 0 := (h.2 a List.mem_cons_self).ne'
    have hle : a ≤ e.time := (List.pairwise_cons.mp h.1).1 _ (by simp)
    have hdt : taken a e.time = clockSeconds e.time - clockSeconds a := by
      rw [taken, if_pos hne, clockSeconds_sub]
    obtain ⟨hsum, hall⟩ := ih e.time h.tail
    simp only [List.cons_append, legs, List.map_cons, List.sum_cons, Entry.leg, hdt, hsum]
    refine ⟨by ring, List.forall_mem_cons.mpr ⟨?_, hall⟩⟩
    linarith [clockSeconds_mono hle]

/-! ## Velocities -/

/-- Hundredths in a signed byte. -/
theorem abs_int8At_le (buf : List UInt8) (i : Nat) : |((int8At buf i : ℚ) : ℝ)| ≤ 1.28 := by
  obtain ⟨k, hk, hlo, hhi⟩ := int8At_bounds buf i
  have hlo' : (-128 : ℝ) ≤ k := by exact_mod_cast hlo
  have hhi' : (k : ℝ) ≤ 127 := by exact_mod_cast hhi
  rw [hk, abs_le]
  push_cast
  constructor
  · linarith
  · linarith

theorem norm_velocity_le (buf : List UInt8) : ‖velocity (decode buf)‖ ≤ 1.28 * √2 := by
  have hre : |(velocity (decode buf)).re| ≤ 1.28 := abs_int8At_le buf 4
  have him : |(velocity (decode buf)).im| ≤ 1.28 := abs_int8At_le buf 5
  calc ‖velocity (decode buf)‖
      ≤ √2 * max |(velocity (decode buf)).re| |(velocity (decode buf)).im| :=
        Complex.norm_le_sqrt_two_mul_max _
    _ ≤ √2 * 1.28 := by
        have hmax := max_le hre him
        gcongr
    _ = 1.28 * √2 := mul_comm _ _

theorem mem_legs {log : List (Entry ℝ)} {last : Int} {l : Leg} (hl : l ∈ legs last log) :
    ∃ e ∈ log, l.v = velocity e.driver.sensors ∧ l.ω = e.driver.sensors.vtheta := by
  induction log generalizing last with
  | nil => exact (List.not_mem_nil hl).elim
  | cons e log ih =>
    rcases List.mem_cons.mp hl with rfl | hl
    · exact ⟨e, List.mem_cons_self, rfl, rfl⟩
    · obtain ⟨e', he', h⟩ := ih hl
      exact ⟨e', List.mem_cons_of_mem e he', h⟩

/-- A bound on what each leg moves, for each second, bounds what they move together. -/
theorem sum_le_elapsed (ls : List Leg) (g : Leg → ℝ) (c : ℝ) (h : ∀ l ∈ ls, g l ≤ c * l.dt) :
    (ls.map g).sum ≤ c * (ls.map Leg.dt).sum := by
  rw [← List.sum_map_mul_left]
  exact List.sum_le_sum h

/-! ## A whole life -/

/-- Two entries of a log and those between them. -/
def Between (log : List (Entry ℝ)) (e : Entry ℝ) (between : List (Entry ℝ)) (f : Entry ℝ) : Prop :=
  ∃ before after, log = before ++ e :: (between ++ f :: after)

theorem Between.relative {d0 d : Driver ℝ} {log between : List (Entry ℝ)} {e f : Entry ℝ}
    (hlog : Logged realTrig d0 log d) (h : Between log e between f) :
    e.driver.pose⁻¹ * f.driver.pose = ((legs e.time (between ++ [f])).map Leg.hold).prod := by
  obtain ⟨before, after, rfl⟩ := h
  rw [pose_logged between (hlog.drop before), inv_mul_cancel_left]
  rfl

theorem Between.clocked {log between : List (Entry ℝ)} {e f : Entry ℝ}
    (hclock : Clocked (log.map Entry.time)) (h : Between log e between f) :
    Clocked (e.time :: (between ++ [f]).map Entry.time) := by
  obtain ⟨before, after, rfl⟩ := h
  have hsplit : before ++ e :: (between ++ f :: after) =
      before ++ (e :: (between ++ [f]) ++ after) := by simp
  rw [hsplit] at hclock
  have hsub : (e :: (between ++ [f])).Sublist (before ++ (e :: (between ++ [f]) ++ after)) :=
    (List.sublist_append_left _ after).trans (List.sublist_append_right before _)
  exact hclock.sublist (hsub.map Entry.time)

theorem Between.decoded {d0 d : Driver ℝ} {log between : List (Entry ℝ)} {e f : Entry ℝ}
    (hlog : Logged realTrig d0 log d) (h : Between log e between f) {l : Leg}
    (hl : l ∈ legs e.time (between ++ [f])) :
    ∃ buf, l.v = velocity (decode buf) ∧ l.ω = (decode buf).vtheta := by
  obtain ⟨before, after, rfl⟩ := h
  obtain ⟨e', he', hv, hω⟩ := mem_legs hl
  have hmem : e' ∈ before ++ e :: (between ++ f :: after) := by
    simp only [List.mem_append, List.mem_cons] at he' ⊢
    tauto
  have hsensors := (hlog.checked e' hmem).sensors
  exact ⟨e'.frame, hsensors ▸ hv, hsensors ▸ hω⟩

section
variable {q : Parameters} {start : SerialStart} {m : Meeting} {es : List (NodeEvent × Meeting)}
  {n : Node ℝ}

/-- **Relative poses.**  Between any two published poses lies the product of the straight
steps between them: where the driver stood, what it published before and what the services
did have no part in it. -/
theorem pose_between (h : exec (Node.step realTrig) es (Node.launch q start m) = some n) :
    ∃ log : List (Entry ℝ), Chronicle realTrig q m es n log ∧
      ∀ e between f, Between log e between f →
        e.driver.pose⁻¹ * f.driver.pose =
          ((legs e.time (between ++ [f])).map Leg.hold).prod := by
  obtain ⟨log, hlog⟩ := life_log h
  exact ⟨log, hlog, fun e between f hb => hb.relative hlog.logged⟩

/-- **Drift.**  If the robot really ran, frame by frame, at the velocities reported, then
between any two published poses the odometry has turned as the robot has, and gone as far
but for `‖v‖ |ω| dt² / 2` for each frame. -/
theorem drift_le (h : exec (Node.step realTrig) es (Node.launch q start m) = some n)
    (hclock : Clocked (es.map fun e => e.2.clock 0)) :
    ∃ log : List (Entry ℝ), Chronicle realTrig q m es n log ∧
      ∀ e between f, Between log e between f → ∀ x : ℝ → Rigid,
        Follows x (clockSeconds e.time) (legs e.time (between ++ [f])) →
          ((x (clockSeconds e.time))⁻¹ * x (clockSeconds f.time)).ang =
              (e.driver.pose⁻¹ * f.driver.pose).ang ∧
            ‖((x (clockSeconds e.time))⁻¹ * x (clockSeconds f.time)).pos -
                (e.driver.pose⁻¹ * f.driver.pose).pos‖ ≤
              ((legs e.time (between ++ [f])).map fun l => ‖l.v‖ * |l.ω| * l.dt ^ 2).sum / 2 := by
  obtain ⟨log, hlog⟩ := life_log h
  refine ⟨log, hlog, fun e between f hb x hx => ?_⟩
  have htime := (legs_elapsed e.time between f (hb.clocked (hclock.sublist hlog.times))).1
  have hend := follows_relative _ _ hx
  rw [htime, add_sub_cancel] at hend
  rw [hb.relative hlog.logged]
  exact hend

/-- **Speed.**  No published pose lies further from another than signed bytes of hundredths
allow in the time between them. -/
theorem speed_le (h : exec (Node.step realTrig) es (Node.launch q start m) = some n)
    (hclock : Clocked (es.map fun e => e.2.clock 0)) :
    ∃ log : List (Entry ℝ), Chronicle realTrig q m es n log ∧
      ∀ e between f, Between log e between f →
        ‖f.driver.pose.pos - e.driver.pose.pos‖ ≤
            1.28 * √2 * (clockSeconds f.time - clockSeconds e.time) ∧
          |f.driver.theta - e.driver.theta| ≤
            1.28 * (clockSeconds f.time - clockSeconds e.time) := by
  obtain ⟨log, hlog⟩ := life_log h
  refine ⟨log, hlog, fun e between f hb => ?_⟩
  obtain ⟨htime, hdt⟩ := legs_elapsed e.time between f (hb.clocked (hclock.sublist hlog.times))
  have hrel := hb.relative hlog.logged
  have hpos : ∀ l ∈ legs e.time (between ++ [f]), ‖l.hold.pos‖ ≤ 1.28 * √2 * l.dt := by
    intro l hl
    obtain ⟨buf, hv, -⟩ := hb.decoded hlog.logged hl
    have hle := norm_velocity_le buf
    rw [Leg.hold, norm_mul, Complex.norm_of_nonneg (hdt l hl), hv, mul_comm]
    have := hdt l hl
    gcongr
  have hang : ∀ l ∈ legs e.time (between ++ [f]), |l.hold.ang| ≤ 1.28 * l.dt := by
    intro l hl
    obtain ⟨buf, -, hω⟩ := hb.decoded hlog.logged hl
    have hle : |((decode buf).vtheta : ℝ)| ≤ 1.28 := abs_int8At_le buf 6
    rw [Leg.hold, abs_mul, abs_of_nonneg (hdt l hl), hω, mul_comm]
    have := hdt l hl
    gcongr
  constructor
  · have hnorm : ‖f.driver.pose.pos - e.driver.pose.pos‖ =
        ‖(e.driver.pose⁻¹ * f.driver.pose).pos‖ := by
      have hmul := Rigid.norm_mul_sub_mul e.driver.pose (e.driver.pose⁻¹ * f.driver.pose) 1
      rw [mul_inv_cancel_left, mul_one, Rigid.one_pos, sub_zero] at hmul
      exact hmul
    calc ‖f.driver.pose.pos - e.driver.pose.pos‖
        ≤ (((legs e.time (between ++ [f])).map Leg.hold).map fun a => ‖a.pos‖).sum := by
          rw [hnorm, hrel]
          exact Rigid.norm_prod_pos_le _
      _ ≤ 1.28 * √2 * (clockSeconds f.time - clockSeconds e.time) := by
          rw [List.map_map, ← htime]
          exact sum_le_elapsed _ _ _ hpos
  · have hturn : f.driver.theta - e.driver.theta = (e.driver.pose⁻¹ * f.driver.pose).ang := by
      rw [Rigid.mul_ang, Rigid.inv_ang]
      show _ = -e.driver.theta + f.driver.theta
      ring
    calc |f.driver.theta - e.driver.theta|
        ≤ (((legs e.time (between ++ [f])).map Leg.hold).map fun a => |a.ang|).sum := by
          rw [hturn, hrel]
          exact Rigid.abs_prod_ang_le _
      _ ≤ 1.28 * (clockSeconds f.time - clockSeconds e.time) := by
          rw [List.map_map, ← htime]
          exact sum_le_elapsed _ _ _ hang

end

/-! ## A second in motion -/

/-- 1 m/s forward and 1 rad/s. -/
def curvingTelemetry : TelemetryFrame := ⟨[100, 0, 100] ++ List.replicate 22 0, rfl⟩

/-- Three frames, half a second apart. -/
def curvingLife : List (NodeEvent × Meeting) :=
  [(.timer, { quietMeeting (onWire curvingTelemetry.bytes) with clock := fun _ => seconds 4 }),
    (.timer, { quietMeeting (onWire curvingTelemetry.bytes) with clock := fun _ => 4500000000 }),
    (.timer, { quietMeeting (onWire curvingTelemetry.bytes) with clock := fun _ => seconds 5 })]

/-- The velocities published with the odometry. -/
def velocitiesOf {K : Type} (published : List (Publication K)) : List (ℚ × ℚ × ℚ) :=
  published.filterMap fun msg => match msg with
    | .odom _ _ _ _ _ _ _ vx vy vtheta _ => some (vx, vy, vtheta)
    | _ => none

theorem velocitiesOf_reports {K : Type} (log : List (Entry K)) :
    velocitiesOf (log.flatMap Entry.report) =
      log.map fun e => (e.driver.sensors.vx, e.driver.sensors.vy, e.driver.sensors.vtheta) := by
  induction log with
  | nil => rfl
  | cons e log ih =>
    rw [List.flatMap_cons, velocitiesOf, List.filterMap_append, List.map_cons, ← ih]
    rfl

theorem curvingLife_runs : ∃ n, exec (Node.step realTrig) curvingLife
    (Node.launch {} .initialized runningLaunch) = some n ∧
      velocitiesOf n.driver.published = List.replicate 3 (1, 0, 1) :=
  Option.map_eq_some_iff.mp (show (exec (Node.step realTrig) curvingLife
    (Node.launch {} .initialized runningLaunch)).map (fun n => velocitiesOf n.driver.published) =
      some (List.replicate 3 (1, 0, 1)) by decide +kernel)

theorem curvingLife_clocked : Clocked (curvingLife.map fun e => e.2.clock 0) :=
  ⟨by decide, by decide⟩

/-- 1 m/s and 1 rad/s, held. -/
noncomputable def curve (dt : ℝ) : Leg := ⟨1, 1, dt⟩

/-- Its three frames: when `Control` read the clock for them, and the legs between them. -/
structure Curving (e1 e2 e3 : Entry ℝ) : Prop where
  times : [e1.time, e2.time, e3.time] = [seconds 4, 4500000000, seconds 5]
  legs : legs e1.time [e2, e3] = [curve (1 / 2), curve (1 / 2)]

theorem curving_log {n : Node ℝ} {log : List (Entry ℝ)}
    (hpublished : velocitiesOf n.driver.published = List.replicate 3 (1, 0, 1))
    (hlog : Chronicle realTrig {} runningLaunch curvingLife n log) :
    ∃ e1 e2 e3, log = [e1, e2, e3] ∧ Curving e1 e2 e3 := by
  rw [hlog.published, velocitiesOf_reports] at hpublished
  have hlength : log.length = 3 := by
    rw [← List.length_map, hpublished, List.length_replicate]
  obtain ⟨e1, e2, e3, rfl⟩ := List.length_eq_three.mp hlength
  have htimes : [e1.time, e2.time, e3.time] = [seconds 4, 4500000000, seconds 5] :=
    hlog.times.eq_of_length rfl
  obtain ⟨h1, h2, h3, -⟩ : e1.time = _ ∧ e2.time = _ ∧ e3.time = _ ∧ True := by
    simpa using htimes
  simp only [List.map_cons, List.map_nil, List.replicate, List.cons.injEq, Prod.mk.injEq,
    and_true] at hpublished
  obtain ⟨-, ⟨hx2, hy2, hth2⟩, hx3, hy3, hth3⟩ := hpublished
  have hleg : ∀ (last : Int) (e : Entry ℝ), e.driver.sensors.vx = 1 → e.driver.sensors.vy = 0 →
      e.driver.sensors.vtheta = 1 → taken last e.time = 1 / 2 → e.leg last = curve (1 / 2) := by
    intro last e hx hy hth htaken
    unfold Entry.leg velocity curve
    rw [hx, hy, hth, htaken]
    congr 1
    · apply Complex.ext <;> simp
    · simp
  refine ⟨e1, e2, e3, rfl, htimes, ?_⟩
  simp only [AgvPro.legs]
  rw [hleg e1.time e2 hx2 hy2 hth2, hleg e2.time e3 hx3 hy3 hth3]
  · rw [h2, h3]
    norm_num [taken, secondsBetween, seconds]
  · rw [h1, h2]
    norm_num [taken, secondsBetween, seconds]

theorem Curving.elapsed {e1 e2 e3 : Entry ℝ} (h : Curving e1 e2 e3) :
    clockSeconds e3.time - clockSeconds e1.time = 1 := by
  obtain ⟨h1, -, h3, -⟩ : e1.time = _ ∧ e2.time = _ ∧ e3.time = _ ∧ True := by simpa using h.times
  rw [clockSeconds_sub, h1, h3]
  norm_num [secondsBetween, seconds]

/-- From the first pose to the third it is the leg twice. -/
theorem pose_between_curving : ∃ (n : Node ℝ) (e1 e2 e3 : Entry ℝ),
    Chronicle realTrig {} runningLaunch curvingLife n [e1, e2, e3] ∧ Curving e1 e2 e3 ∧
      e1.driver.pose⁻¹ * e3.driver.pose = (curve (1 / 2)).hold * (curve (1 / 2)).hold := by
  obtain ⟨n, h, hpublished⟩ := curvingLife_runs
  obtain ⟨log, hlog, hposes⟩ := pose_between h
  obtain ⟨e1, e2, e3, rfl, hcurving⟩ := curving_log hpublished hlog
  refine ⟨n, e1, e2, e3, hlog, hcurving, ?_⟩
  rw [hposes e1 [e2] e3 ⟨[], [], rfl⟩]
  simp [hcurving.legs]

/-- A quarter of a metre for a second in the curve. -/
theorem drift_le_curving : ∃ (n : Node ℝ) (e1 e2 e3 : Entry ℝ),
    Chronicle realTrig {} runningLaunch curvingLife n [e1, e2, e3] ∧ Curving e1 e2 e3 ∧
      ∀ x : ℝ → Rigid, Follows x (clockSeconds e1.time) [curve (1 / 2), curve (1 / 2)] →
        ((x (clockSeconds e1.time))⁻¹ * x (clockSeconds e3.time)).ang =
            (e1.driver.pose⁻¹ * e3.driver.pose).ang ∧
          ‖((x (clockSeconds e1.time))⁻¹ * x (clockSeconds e3.time)).pos -
              (e1.driver.pose⁻¹ * e3.driver.pose).pos‖ ≤ 1 / 4 := by
  obtain ⟨n, h, hpublished⟩ := curvingLife_runs
  obtain ⟨log, hlog, hdrift⟩ := drift_le h curvingLife_clocked
  obtain ⟨e1, e2, e3, rfl, hcurving⟩ := curving_log hpublished hlog
  refine ⟨n, e1, e2, e3, hlog, hcurving, fun x hx => ?_⟩
  have hlegs : legs e1.time ([e2] ++ [e3]) = [curve (1 / 2), curve (1 / 2)] := hcurving.legs
  obtain ⟨hang, hpos⟩ := hdrift e1 [e2] e3 ⟨[], [], rfl⟩ x (hlegs ▸ hx)
  refine ⟨hang, hpos.trans_eq ?_⟩
  rw [hlegs]
  norm_num [curve]

/-- One second lies between them. -/
theorem speed_le_curving : ∃ (n : Node ℝ) (e1 e2 e3 : Entry ℝ),
    Chronicle realTrig {} runningLaunch curvingLife n [e1, e2, e3] ∧ Curving e1 e2 e3 ∧
      ‖e3.driver.pose.pos - e1.driver.pose.pos‖ ≤ 1.28 * √2 ∧
        |e3.driver.theta - e1.driver.theta| ≤ 1.28 := by
  obtain ⟨n, h, hpublished⟩ := curvingLife_runs
  obtain ⟨log, hlog, hspeed⟩ := speed_le h curvingLife_clocked
  obtain ⟨e1, e2, e3, rfl, hcurving⟩ := curving_log hpublished hlog
  obtain ⟨hpos, hang⟩ := hspeed e1 [e2] e3 ⟨[], [], rfl⟩
  rw [hcurving.elapsed, mul_one] at hpos hang
  exact ⟨n, e1, e2, e3, hlog, hcurving, hpos, hang⟩

end AgvPro
