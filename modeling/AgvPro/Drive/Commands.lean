import AgvPro.Dock.Control
import AgvPro.Drive.Smoother
import AgvPro.Drive.Wire

/-!
# The smoother and the docking thread on the wire

Both publish on `/cmd_vel`, each taken here as the only one that does; the smoother is that of
exact arithmetic.

    no velocity frame handed to `write` leaves the limits of the smoother     (wire_limits)
    in open loop, without losses, successive frames differ by a tick's change (wire_changes)
    once the commands stay away, the last of them is a stop                   (wire_stops)
    and so it is behind docking, unless a cleared flag leaves it moving       (wire_docked)
-/

namespace AgvPro

open Run

/-! ## The smoother -/

theorem published_append {c : SmootherConfig} {s s' : Smoother} {e : SmootherEvent}
    (h : s.step c e = some s') : ∃ more, s'.published = s.published ++ more := by
  have hsame : s.published = s.published ++ [] := (List.append_nil _).symm
  cases e with
  | command raw now =>
    cases h
    unfold Smoother.inputCommandCallback
    split
    · exact ⟨[], hsame⟩
    · exact ⟨[], hsame⟩
  | tick now odom =>
    cases h
    have hticked := s.ticked (c := c) now odom
    generalize s.smootherTimer c now odom = s' at hticked ⊢
    cases hticked with
    | waiting hcommand => exact ⟨[], hsame⟩
    | silent command hcommand htimeout hstop => exact ⟨[], hsame⟩
    | sent received command hcommand hclamped hmoving => exact ⟨_, rfl⟩

def Smoother.publisher (c : SmootherConfig) : Publisher Smoother SmootherEvent where
  step := Smoother.step c
  published := Smoother.published
  grows := fun _ _ _ => published_append

/-- What a tick may change a velocity by: a step of either kind, and the deadband. -/
def SmootherConfig.jump (c : SmootherConfig) (i : Axis) : ℚ :=
  max (c.max_accels i / c.smoothing_frequency) (c.brake i) + max (c.deadband_velocities i) 0

/-- Cutting small values to zero adds no more than the deadband to a distance. -/
theorem abs_cut_sub_le (a b d : ℚ) :
    |(if |b| < d then 0 else b) - (if |a| < d then 0 else a)| ≤ |b - a| + max d 0 := by
  have hdead : d ≤ max d 0 := le_max_left d 0
  have hzero : 0 ≤ max d 0 := le_max_right d 0
  have hpos : 0 ≤ |b - a| := abs_nonneg _
  have hfrom : |b| - |a| ≤ |b - a| := abs_sub_abs_le_abs_sub b a
  have hto : |a| - |b| ≤ |a - b| := abs_sub_abs_le_abs_sub a b
  rw [abs_sub_comm a b] at hto
  generalize max d 0 = cut at *
  split_ifs with h1 h2 h2
  · rw [sub_zero, abs_zero]
    linarith
  · rw [zero_sub, abs_neg]
    linarith
  · rw [sub_zero]
    linarith
  · linarith

theorem deadband_jump {c : SmootherConfig} {msg msg' : Twist} {i : Axis}
    (h : Allowed c i (msg.axis i) (msg'.axis i)) :
    |(deadband c msg').axis i - (deadband c msg).axis i| ≤ c.jump i := by
  have hstep : |msg'.axis i - msg.axis i| ≤
      max (c.max_accels i / c.smoothing_frequency) (c.brake i) := by
    unfold Allowed at h
    refine h.trans ?_
    split
    · exact le_max_left _ _
    · exact le_max_right _ _
  rw [deadband_axis, deadband_axis]
  exact (abs_cut_sub_le _ _ _).trans (add_le_add_left hstep _)

def shortLaunch : Chain Smoother ℚ :=
  .launch (Smoother.publisher agvproSmoother) {} {} .initialized runningLaunch

/-- Two ticks of a curve while the driver answers a service. -/
def shortChain : List (ChainEvent SmootherEvent) :=
  [.publisher (.command curveLeft 1000000000),
   .publisher (.tick 1050000000 {}),
   .deliver (quietMeeting []),
   .publisher (.tick 1100000000 {}),
   .node (.service (.setDigitalOutput ⟨1, 1⟩))
     (quietMeeting (onWire (buildSerialFrame setOutputIo [1]))),
   .deliver (quietMeeting [])]

theorem shortChain_runs : ∃ s,
    exec (Chain.step (Smoother.publisher agvproSmoother) flatTrig) shortChain shortLaunch = some s ∧
      s.node.velocities.length = 2 :=
  Option.map_eq_some_iff.mp
    (show (exec (Chain.step (Smoother.publisher agvproSmoother) flatTrig) shortChain
      shortLaunch).map (fun s => s.node.velocities.length) = some 2 by decide +kernel)

section
variable {K : Type} [Field K] {c : SmootherConfig} {t : Trig K} {q : Parameters}
  {start : SerialStart} {m : Meeting} {es : List (ChainEvent SmootherEvent)} {s : Chain Smoother K}

/-- **Limits on the wire.**  Whatever navigation commands and however messages, callbacks and
ticks interleave, the velocity frames handed to `write` are a part of what the smoother
published, in order, and none of their fields leaves the smoother's limits, which are widened
to hold zero where they do not. -/
theorem wire_limits (hf : 0 < c.smoothing_frequency)
    (hodom : ∀ now odom, .publisher (.tick now odom) ∈ es → c.open_loop = true ∨ Within c odom)
    (h : exec (Chain.step (Smoother.publisher c) t) es
      (.launch (Smoother.publisher c) {} q start m) = some s) :
    (s.node.velocities.map Transmit.frame).Sublist (s.publisher.published.map cmdFrame) ∧
      ∀ w ∈ s.node.velocities, ∀ i : Axis,
        hundredths (min (c.min_velocities i) 0) (-i.bound) i.bound ≤ i.field w.frame ∧
          i.field w.frame ≤ hundredths (max (c.max_velocities i) 0) (-i.bound) i.bound := by
  have hsublist : (s.node.velocities.map Transmit.frame).Sublist
      (s.publisher.published.map cmdFrame) := Chain.velocities_sublist h
  obtain ⟨-, -, hbounded⟩ := bounded_exec hf (publisherEvents es) {} s.publisher bounded_start
    (fun now odom he => by
      obtain ⟨e, he, hsome⟩ := List.mem_filterMap.mp he
      cases e with
      | publisher e =>
        cases hsome
        exact hodom now odom he
      | lose k => cases hsome
      | deliver m => cases hsome
      | node e m => cases hsome) (Chain.publisher_exec es _ s h)
  refine ⟨hsublist, fun w hw i => ?_⟩
  obtain ⟨msg, hmsg, hframe⟩ := List.mem_map.mp (hsublist.subset (List.mem_map_of_mem hw))
  obtain ⟨hwithin, -⟩ := hbounded msg hmsg
  obtain ⟨hlo, hhi⟩ := hwithin i
  rw [← hframe, field_cmdFrame]
  exact ⟨hundredths_mono (neg_bound_le i) hlo, hundredths_mono (neg_bound_le i) hhi⟩

theorem wire_limits_short : ∃ s : Chain Smoother ℚ,
    s.node.velocities.length = 2 ∧
    (s.node.velocities.map Transmit.frame).Sublist (s.publisher.published.map cmdFrame) ∧
      ∀ w ∈ s.node.velocities, ∀ i : Axis,
        hundredths (min (agvproSmoother.min_velocities i) 0) (-i.bound) i.bound ≤ i.field w.frame ∧
          i.field w.frame ≤
            hundredths (max (agvproSmoother.max_velocities i) 0) (-i.bound) i.bound := by
  obtain ⟨s, h, hlength⟩ := shortChain_runs
  exact ⟨s, hlength, wire_limits agvpro_forward (fun _ _ _ => Or.inl agvpro_open) h⟩

/-- **Changes on the wire.**  In open loop, as long as no message is lost, a velocity frame
handed to `write` differs from the one before it, the first one from a stop, by less than
what a tick may change and one hundredth; they all go out whole if none of their writes
fails. -/
theorem wire_changes (hf : 0 < c.smoothing_frequency) (hopen : c.open_loop = true)
    (hlose : ∀ k, .lose k ∉ es)
    (h : exec (Chain.step (Smoother.publisher c) t) es
      (.launch (Smoother.publisher c) {} q start m) = some s) :
    ((cmdFrame {} :: s.node.velocities.map Transmit.frame).IsChain fun f f' => ∀ i : Axis,
      |((i.field f' - i.field f : Int) : ℚ)| < 100 * c.jump i + 1) ∧
    (start ≠ .openFailed → (∀ m' ∈ deliveries es, m'.throwsAt 0 = none) →
      ∀ w ∈ s.node.velocities, w.sent = 14) := by
  refine ⟨?_, fun hport hnone => Chain.velocities_whole h hport hnone⟩
  obtain ⟨sent, hpublished, -, hchain⟩ :=
    always (paced_step hf hopen) _ _ s.publisher paced_start (Chain.publisher_exec es _ s h)
  obtain ⟨rest, hbegin⟩ := Chain.velocities_begin hlose h
  have hall : ((({} : Twist) :: sent).map fun v => cmdFrame (deadband c v)).IsChain
      fun f f' => ∀ i : Axis, |((i.field f' - i.field f : Int) : ℚ)| < 100 * c.jump i + 1 := by
    refine List.isChain_map_of_isChain _ (fun v v' hallowed i => ?_) hchain
    have hjump := deadband_jump (hallowed i)
    refine (abs_field_sub_lt _ _ i).trans_le ?_
    linarith
  have hsent : s.publisher.published.map cmdFrame = sent.map fun v => cmdFrame (deadband c v) := by
    rw [hpublished, List.map_map]
    rfl
  refine hall.prefix ⟨rest, ?_⟩
  rw [List.map_cons, deadband_stop, List.cons_append, hbegin]
  exact congrArg (cmdFrame {} :: ·) hsent

theorem wire_changes_short : ∃ s : Chain Smoother ℚ,
    s.node.velocities.length = 2 ∧
    ((cmdFrame {} :: s.node.velocities.map Transmit.frame).IsChain fun f f' => ∀ i : Axis,
      |((i.field f' - i.field f : Int) : ℚ)| < 100 * agvproSmoother.jump i + 1) ∧
    ∀ w ∈ s.node.velocities, w.sent = 14 := by
  obtain ⟨s, h, hlength⟩ := shortChain_runs
  obtain ⟨hchain, hwhole⟩ :=
    wire_changes agvpro_forward agvpro_open (fun k hk => by simp [shortChain] at hk) h
  exact ⟨s, hlength, hchain, hwhole (by decide) (by simp [shortChain, deliveries, quietMeeting])⟩

/-- **Dead man.**  In open loop, with limits that let the robot stand, after any run, once the
commands to the smoother stay away for longer than the timeout, `n` ticks are enough: when
its last message has arrived, the last velocity frame handed to `write`, if any, is a stop,
and it goes out whole unless that very write fails. -/
theorem wire_stops (hf : 0 < c.smoothing_frequency) (hopen : c.open_loop = true)
    (hstop : Stoppable c) (n : Nat)
    (hn : ∀ i, c.max_velocities i ≤ n * c.brake i ∧ -c.min_velocities i ≤ n * c.brake i)
    (h : exec (Chain.step (Smoother.publisher c) t) es
      (.launch (Smoother.publisher c) {} q start m) = some s)
    (es' : List (ChainEvent SmootherEvent)) (readings : List (Int × Twist))
    (hes' : publisherEvents es' = ticks readings) (hlate : Late c s.publisher readings)
    (hlen : n < readings.length) (s' : Chain Smoother K)
    (h' : exec (Chain.step (Smoother.publisher c) t) es' s = some s')
    (harrived : s'.topic.inFlight = []) : Chain.StopsLast start (es ++ es') s'.node := by
  have hrun := Chain.publisher_exec es _ s h
  have hrun' := Chain.publisher_exec es' s s' h'
  rw [hes'] at hrun'
  have hrested := always rested_step _ _ s.publisher rested_start hrun
  have hpaced := always (paced_step hf hopen) _ _ s.publisher paced_start hrun
  obtain ⟨hwithin, hflat, -⟩ :=
    bounded_exec hf _ _ s.publisher bounded_start (fun _ _ _ => Or.inl hopen) hrun
  obtain ⟨-, hstopped⟩ := brakes hf hopen hstop readings n _ _ hrested hflat
    (near_rest hstop hn hwithin) hlate hrun'
  have hstill := (always rested_step _ _ _ hrested hrun').still (hstopped hlen)
  have hend := (always (paced_step hf hopen) _ _ _ hpaced hrun').last_published hstill
  exact Chain.stop_of_last (exec_append h h') harrived hend

/-- Five late ticks, a loss and the Control timer among them. -/
def brakingChain : List (ChainEvent SmootherEvent) :=
  [.publisher (.tick 2100000000 {}),
   .publisher (.tick 2150000000 {}),
   .lose 0,
   .node .timer (quietMeeting (onWire turningTelemetry.bytes)),
   .publisher (.tick 2200000000 {}),
   .deliver (quietMeeting []),
   .publisher (.tick 2250000000 {}),
   .publisher (.tick 2300000000 {})]

theorem wire_stops_short : ∃ s' : Chain Smoother ℚ,
    s'.node.velocities.length = 3 ∧
      Chain.StopsLast .initialized (shortChain ++ brakingChain) s'.node := by
  have hrun : ((exec (Chain.step (Smoother.publisher agvproSmoother) flatTrig) shortChain
      shortLaunch).bind fun s =>
        (exec (Chain.step (Smoother.publisher agvproSmoother) flatTrig) brakingChain s).map
          fun s' => (s.publisher.last_command_time, s'.topic.inFlight.length,
            s'.node.velocities.length)) = some (1000000000, 0, 3) := by
    decide +kernel
  obtain ⟨s, h, hbraking⟩ := Option.bind_eq_some_iff.mp hrun
  obtain ⟨s', h', hfacts⟩ := Option.map_eq_some_iff.mp hbraking
  obtain ⟨htime, hrest⟩ := Prod.mk.inj hfacts
  obtain ⟨harrived, hlength⟩ := Prod.mk.inj hrest
  have hlate : Late agvproSmoother s.publisher lateReadings := by
    unfold Late
    rw [htime]
    decide +kernel
  exact ⟨s', hlength, wire_stops agvpro_forward agvpro_open agvpro_stoppable 4 agvpro_brakes h
    brakingChain lateReadings rfl hlate (by decide) s' h' (List.eq_nil_of_length_eq_zero harrived)⟩

end

/-! ## The docking thread -/

theorem docking_append {s s' : Control} {e : Event} (h : s.step e = some s') :
    ∃ more, s'.published = s.published ++ more := by
  cases e with
  | stop =>
    cases h
    exact ⟨[], (List.append_nil _).symm⟩
  | dock e =>
    cases Control.step_dock h with
    | quiet hpublished => exact ⟨[], hpublished.trans (List.append_nil _).symm⟩
    | published r t leave hpc hr hd' => exact ⟨[t], by rw [hd']⟩
    | ignored r hpc he hr hd' => exact ⟨[], by rw [hd', List.append_nil]⟩
    | stopped hpc hd' => exact ⟨[{}], by rw [hd']⟩

def Control.publisher : Publisher Control Event where
  step := Control.step
  published := fun s => s.published
  grows := fun _ _ _ => docking_append

section
variable {K : Type} [Field K] {t : Trig K} {q : Parameters} {start : SerialStart} {m : Meeting}

/-- **Behind docking.**  However the thread, those that clear its flag, the messages and the
driver's callbacks interleave: when the loop is over and its last message has arrived, the
last velocity frame handed to `write` is a stop, whole unless that write fails; except where
the flag has ended the loop with a moving frame last. -/
theorem wire_docked (active : Bool) (es : List (ChainEvent Event)) (s : Chain Control K)
    (h : exec (Chain.step Control.publisher t) es
      (.launch Control.publisher (Control.start active) q start m) = some s)
    (hok : Along Control.step LeavesAtRest (publisherEvents es) (Control.start active))
    (hover : s.publisher.pc.over = true) (harrived : s.topic.inFlight = []) :
    Chain.StopsLast start es s.node := by
  have hrun := Chain.publisher_exec es _ s h
  have hstopped := (invariant overStopped_step _ _ s.publisher
    ⟨tracks_start, fun ho => by cases ho⟩ hok hrun).2 hover
  exact Chain.stop_of_last h harrived hstopped

/-- To the first frame, which moves the robot. -/
def approach : List Event := started ++ [.dock (.frame aheadReading), .dock .advance]

/-- The next frame says that it stands in the charging zone. -/
def arrival : List Event :=
  [.dock .advance, .dock .advance, .dock (.frame (readingOf [0, 0, 0xAA, 0, 0, 0, 0, 0])),
    .dock .advance, .dock .advance]

def dockedChain : List (ChainEvent Event) :=
  approach.map .publisher ++ .deliver (quietMeeting []) ::
    (arrival.map .publisher ++ [.deliver (quietMeeting [])])

theorem wire_docked_charging : ∃ s : Chain Control ℚ,
    s.node.velocities.map (fun w => (Axis.x.field w.frame, w.sent)) = [(10, 14), (0, 14)] ∧
      Chain.StopsLast .initialized dockedChain s.node := by
  have hrun : (exec (Chain.step Control.publisher flatTrig) dockedChain
      (.launch Control.publisher (Control.start false) {} .initialized runningLaunch)).map
        (fun s => (s.publisher.pc.over, s.topic.inFlight.length, decide (s.publisher.inForce = {}),
          s.node.velocities.map fun w => (Axis.x.field w.frame, w.sent))) =
        some (true, 0, true, [(10, 14), (0, 14)]) := by
    decide +kernel
  obtain ⟨s, h, hfacts⟩ := Option.map_eq_some_iff.mp hrun
  obtain ⟨hover, hrest⟩ := Prod.mk.inj hfacts
  obtain ⟨harrived, hrest⟩ := Prod.mk.inj hrest
  obtain ⟨hforce, hvelocities⟩ := Prod.mk.inj hrest
  have hok := leavesAtRest_of_stopped (Chain.publisher_exec dockedChain _ s h)
    (of_decide_eq_true hforce)
  exact ⟨s, hvelocities, wire_docked false dockedChain s h hok hover
    (List.eq_nil_of_length_eq_zero harrived)⟩

end

end AgvPro
