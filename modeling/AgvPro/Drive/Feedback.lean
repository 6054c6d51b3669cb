import AgvPro.Base.Reports
import AgvPro.Drive.Commands
import AgvPro.Lib.Recent

/-!
# The smoother in closed loop

With `CLOSED_LOOP` feedback a tick does not go on from what was sent last but from the mean of
the odometry of the last `odom_duration`, which `OdomSmoother` keeps as a running sum over a
queue.  The odometry is the driver's, the driver's velocities are the smoother's: a loop.  The
doubles of the source are exact here.

    the running sum is the mean of what is recent, also behind losses       (loop_mean)
    no velocity handed to `write` leaves the limits by more than what the
      device itself has reported                                            (loop_limits)
-/

namespace AgvPro

open Run

/-! ## Twists by component -/

inductive Component where
  | linear_x
  | linear_y
  | linear_z
  | angular_x
  | angular_y
  | angular_z

def Twist.component (msg : Twist) : Component → ℚ
  | .linear_x => msg.linear.x
  | .linear_y => msg.linear.y
  | .linear_z => msg.linear.z
  | .angular_x => msg.angular.x
  | .angular_y => msg.angular.y
  | .angular_z => msg.angular.z

/-- A statement that the source writes once for each component. -/
def Twist.zipWith (f : ℚ → ℚ → ℚ) (a b : Twist) : Twist where
  linear := ⟨f a.linear.x b.linear.x, f a.linear.y b.linear.y, f a.linear.z b.linear.z⟩
  angular := ⟨f a.angular.x b.angular.x, f a.angular.y b.angular.y, f a.angular.z b.angular.z⟩

def Twist.map (f : ℚ → ℚ) (a : Twist) : Twist := a.zipWith (fun x _ => f x) a

@[simp] theorem component_zipWith (f : ℚ → ℚ → ℚ) (a b : Twist) (i : Component) :
    (a.zipWith f b).component i = f (a.component i) (b.component i) := by
  cases i <;> rfl

@[simp] theorem component_map (f : ℚ → ℚ) (a : Twist) (i : Component) :
    (a.map f).component i = f (a.component i) := by
  cases i <;> rfl

@[simp] theorem component_stop (i : Component) : ({} : Twist).component i = 0 := by
  cases i <;> rfl

/-- The velocities among the components. -/
def Axis.component : Axis → Component
  | .x => .linear_x
  | .y => .linear_y
  | .theta => .angular_z

theorem component_axis (msg : Twist) (i : Axis) : msg.component i.component = msg.axis i := by
  cases i <;> rfl

/-! ## The odometry smoother -/

/-- The stamp and the Twist of a `nav_msgs/Odometry`. -/
structure Odometry where
  stamp : Int
  twist : Twist
deriving DecidableEq

structure OdomSmoother where
  odom_history : List Odometry := []
  odom_cumulate : Twist := {}
  vel_smooth : Twist := {}

/-- The loop of `odomCallback` that takes what is too old off the front, and out of the sum. -/
def popFront (odom_history_duration current_time : Int) :
    List Odometry → Twist → List Odometry × Twist
  | [], odom_cumulate => ([], odom_cumulate)
  | odom :: odom_history, odom_cumulate =>
    if odom_history_duration < current_time - odom.stamp then
      popFront odom_history_duration current_time odom_history
        (odom_cumulate.zipWith (· - ·) odom.twist)
    else (odom :: odom_history, odom_cumulate)

namespace OdomSmoother

def updateState (s : OdomSmoother) : OdomSmoother :=
  match s.odom_history.getLast? with
  | none => s
  | some odom =>
    let odom_cumulate := s.odom_cumulate.zipWith (· + ·) odom.twist
    { s with
      odom_cumulate := odom_cumulate
      vel_smooth := odom_cumulate.map (· / s.odom_history.length) }

def odomCallback (odom_history_duration : Int) (s : OdomSmoother) (msg : Odometry) :
    OdomSmoother :=
  let (odom_history, odom_cumulate) :=
    popFront odom_history_duration msg.stamp s.odom_history s.odom_cumulate
  updateState { s with odom_history := odom_history ++ [msg], odom_cumulate := odom_cumulate }

end OdomSmoother

/-- `x` is too old when `m` comes. -/
def tooOld (d : Int) (m x : Odometry) : Bool := d < m.stamp - x.stamp

theorem aging {d : Int} (hd : 0 ≤ d) : Recent.Aging (tooOld d) fun x y => x.stamp ≤ y.stamp where
  fresh := fun m => by simp [tooOld, hd]
  later := fun m m' x hle hold => by
    simp only [tooOld, decide_eq_true_eq] at hold ⊢
    omega
  earlier := fun m x y hle hold => by
    simp only [tooOld, decide_eq_true_eq] at hold ⊢
    omega

def sumOf (history : List Odometry) (i : Component) : ℚ :=
  (history.map fun m => m.twist.component i).sum

def meanOf (history : List Odometry) (i : Component) : ℚ :=
  Recent.mean (history.map fun m => m.twist.component i)

/-- The sum stays that of the queue. -/
theorem popFront_spec (d now : Int) (history : List Odometry) (cumulate : Twist)
    (h : ∀ i, cumulate.component i = sumOf history i) :
    (popFront d now history cumulate).1 = history.dropWhile (fun x => d < now - x.stamp) ∧
      ∀ i, (popFront d now history cumulate).2.component i =
        sumOf (popFront d now history cumulate).1 i := by
  induction history generalizing cumulate with
  | nil => exact ⟨rfl, h⟩
  | cons odom history ih =>
    rw [popFront]
    by_cases hold : d < now - odom.stamp
    · rw [if_pos hold, List.dropWhile_cons_of_pos (by simpa using hold)]
      apply ih
      intro i
      rw [component_zipWith, h i, sumOf, List.map_cons, List.sum_cons, add_sub_cancel_left]
      rfl
    · rw [if_neg hold, List.dropWhile_cons_of_neg (by simpa using hold)]
      exact ⟨rfl, h⟩

/-- What the smoother holds after the messages `ms`. -/
structure Averaged (d : Int) (ms : List Odometry) (s : OdomSmoother) : Prop where
  history : s.odom_history = Recent.window (tooOld d) ms
  cumulate : ∀ i, s.odom_cumulate.component i = sumOf s.odom_history i
  smooth : ∀ i, s.vel_smooth.component i = meanOf s.odom_history i

theorem averaged_start (d : Int) : Averaged d [] {} :=
  ⟨rfl, fun i => component_stop i, fun i => by simp [meanOf, Recent.mean]⟩

theorem averaged_callback {d : Int} {ms : List Odometry} {s : OdomSmoother}
    (hs : Averaged d ms s) (m : Odometry) : Averaged d (ms ++ [m]) (s.odomCallback d m) := by
  obtain ⟨hdrop, hsum⟩ := popFront_spec d m.stamp s.odom_history s.odom_cumulate hs.cumulate
  unfold OdomSmoother.odomCallback
  generalize popFront d m.stamp s.odom_history s.odom_cumulate = popped at hdrop hsum
  obtain ⟨history, cumulate⟩ := popped
  obtain rfl : history = _ := hdrop
  have hnew : ∀ i, (cumulate.zipWith (· + ·) m.twist).component i =
      sumOf (s.odom_history.dropWhile (fun x => d < m.stamp - x.stamp) ++ [m]) i := by
    intro i
    rw [component_zipWith, hsum i, sumOf, sumOf, List.map_append, List.sum_append]
    simp
  unfold OdomSmoother.updateState
  simp only [List.getLast?_concat]
  refine ⟨?_, hnew, fun i => ?_⟩
  · rw [Recent.window_append, ← hs.history]
    rfl
  · show (Twist.map _ _).component i = _
    rw [component_map, hnew i, meanOf, Recent.mean, List.length_map]
    rfl

/-! ## The loop -/

/-- The smoother with its odometry; in open loop the latter goes unread. -/
structure FedSmoother where
  smoother : Smoother := {}
  odom_smoother : OdomSmoother := {}

inductive FedEvent where
  | command (msg : RawTwist) (now : Int)
  | odometry (msg : Odometry)
  | tick (now : Int)

section
variable (c : SmootherConfig) (odom_history_duration : Int)

def FedSmoother.step (s : FedSmoother) : FedEvent → Option FedSmoother
  | .command msg now => some { s with smoother := s.smoother.inputCommandCallback msg now }
  | .odometry msg =>
    some { s with odom_smoother := s.odom_smoother.odomCallback odom_history_duration msg }
  | .tick now =>
    some { s with smoother := s.smoother.smootherTimer c now s.odom_smoother.vel_smooth }

theorem FedSmoother.grows (s : FedSmoother) (e : FedEvent) (s' : FedSmoother)
    (h : s.step c odom_history_duration e = some s') :
    ∃ more, s'.smoother.published = s.smoother.published ++ more := by
  cases e with
  | command msg now =>
    cases h
    exact published_append (c := c) (e := .command msg now) rfl
  | odometry msg =>
    cases h
    exact ⟨[], (List.append_nil _).symm⟩
  | tick now =>
    cases h
    exact published_append (c := c) (e := .tick now s.odom_smoother.vel_smooth) rfl

def FedSmoother.publisher : Publisher FedSmoother FedEvent where
  step := FedSmoother.step c odom_history_duration
  published := fun s => s.smoother.published
  grows := FedSmoother.grows c odom_history_duration

end

/-- What a node has published on `odom`. -/
def odometries {K : Type} (published : List (Publication K)) : List Odometry :=
  published.filterMap fun msg => match msg with
    | .odom stamp _ _ _ _ _ _ vx vy vtheta _ => some ⟨stamp, ⟨⟨vx, vy, 0⟩, ⟨0, 0, vtheta⟩⟩⟩
    | _ => none

theorem odometries_append {K : Type} (published more : List (Publication K)) :
    odometries (published ++ more) = odometries published ++ odometries more :=
  List.filterMap_append

/-- Smoother, `/cmd_vel` and driver, and the driver's odometry on its way back. -/
structure Loop (K : Type) where
  chain : Chain FedSmoother K
  odometry : Topic Odometry

inductive LoopEvent where
  | chain (e : ChainEvent FedEvent)
  | odometry
  | loseOdometry (k : Nat)

namespace Loop

section
variable {K : Type} [Field K] (c : SmootherConfig) (odom_history_duration : Int) (t : Trig K)

def launch (q : Parameters) (start : SerialStart) (m : Meeting) : Loop K :=
  ⟨.launch (FedSmoother.publisher c odom_history_duration) {} q start m, .empty⟩

/-- Nobody else publishes odometry. -/
def step (s : Loop K) : LoopEvent → Option (Loop K)
  | .chain (.publisher (.odometry _)) => none
  | .chain e => (s.chain.step (FedSmoother.publisher c odom_history_duration) t e).map fun chain =>
    { chain := chain
      odometry := s.odometry.publish ((odometries chain.node.driver.published).drop
        (odometries s.chain.node.driver.published).length) }
  | .odometry => s.odometry.receive.bind fun (msg, odometry) =>
    (s.chain.step (FedSmoother.publisher c odom_history_duration) t
      (.publisher (.odometry msg))).map fun chain => ⟨chain, odometry⟩
  | .loseOdometry k => (s.odometry.lose k).map fun odometry => { s with odometry := odometry }

end

end Loop

/-! ## Limits in closed loop -/

/-- Between any bounds on the velocity limits, zero, and the odometry `ms`. -/
def Spanned (c : SmootherConfig) (ms : List Odometry) (msg : Twist) : Prop :=
  ∀ (i : Axis) (lo hi : ℚ), lo ≤ min (c.min_velocities i) 0 → max (c.max_velocities i) 0 ≤ hi →
    (∀ m ∈ ms, lo ≤ m.twist.axis i ∧ m.twist.axis i ≤ hi) → lo ≤ msg.axis i ∧ msg.axis i ≤ hi

section
variable {c : SmootherConfig} {ms : List Odometry}

theorem Spanned.mono {ms' : List Odometry} {msg : Twist} (h : Spanned c ms msg)
    (hsub : ∀ m ∈ ms, m ∈ ms') : Spanned c ms' msg :=
  fun i lo hi hlo hhi hms => h i lo hi hlo hhi fun m hm => hms m (hsub m hm)

theorem Within.spanned {msg : Twist} (h : Within c msg) : Spanned c ms msg :=
  fun i _ _ hlo hhi _ => ⟨hlo.trans (h i).1, (h i).2.trans hhi⟩

theorem spanned_smoothed (hf : 0 < c.smoothing_frequency) {current command : Twist}
    (hcur : Spanned c ms current) (hcmd : Spanned c ms command) :
    Spanned c ms (smoothed c current command) := by
  intro i lo hi hlo hhi hms
  obtain ⟨h0, h1⟩ := tickEta_mem hf current command
  obtain ⟨hlow, hhigh⟩ := applyConstraints_between hf (current.axis i) (command.axis i) h0.le h1 i
  obtain ⟨hcurlo, hcurhi⟩ := hcur i lo hi hlo hhi hms
  obtain ⟨hcmdlo, hcmdhi⟩ := hcmd i lo hi hlo hhi hms
  rw [smoothed_axis]
  exact ⟨(le_min hcurlo hcmdlo).trans hlow, hhigh.trans (max_le hcurhi hcmdhi)⟩

theorem spanned_deadband {msg : Twist} (h : Spanned c ms msg) : Spanned c ms (deadband c msg) := by
  intro i lo hi hlo hhi hms
  rw [deadband_axis]
  split
  · exact ⟨hlo.trans (min_le_right _ _), (le_max_right _ _).trans hhi⟩
  · exact h i lo hi hlo hhi hms

/-- The mean of some of the odometry is in between, too. -/
theorem Averaged.spanned {d : Int} {s : OdomSmoother} (h : Averaged d ms s) :
    Spanned c ms s.vel_smooth := by
  intro i lo hi hlo hhi hms
  have hsmooth := h.smooth i.component
  rw [component_axis] at hsmooth
  rw [hsmooth, meanOf]
  by_cases hne : s.odom_history = []
  · rw [hne, List.map_nil, Recent.mean, List.sum_nil, zero_div]
    exact ⟨hlo.trans (min_le_right _ _), (le_max_right _ _).trans hhi⟩
  · apply Recent.mean_mem (by simpa using hne)
    intro x hx
    obtain ⟨m, hm, rfl⟩ := List.mem_map.mp hx
    rw [component_axis]
    rw [h.history] at hm
    exact hms m ((Recent.window_suffix ms).subset hm)

/-- What was sent last, and all that was published, is spanned. -/
structure Hulled (c : SmootherConfig) (ms : List Odometry) (s : Smoother) : Prop where
  last_cmd : Spanned c ms s.last_cmd
  published : ∀ msg ∈ s.published, Spanned c ms msg

theorem Hulled.mono {ms' : List Odometry} {s : Smoother} (h : Hulled c ms s)
    (hsub : ∀ m ∈ ms, m ∈ ms') : Hulled c ms' s :=
  ⟨h.last_cmd.mono hsub, fun msg hmsg => (h.published msg hmsg).mono hsub⟩

theorem hulled_command {s : Smoother} (h : Hulled c ms s) (raw : RawTwist) (now : Int) :
    Hulled c ms (s.inputCommandCallback raw now) := by
  unfold Smoother.inputCommandCallback
  split
  · exact h
  · exact ⟨h.last_cmd, h.published⟩

theorem hulled_tick (hf : 0 < c.smoothing_frequency) {s : Smoother} {odom : Twist}
    (h : Hulled c ms s) (hodom : Spanned c ms odom) (now : Int) :
    Hulled c ms (s.smootherTimer c now odom) := by
  have hticked := s.ticked (c := c) now odom
  generalize s.smootherTimer c now odom = s' at hticked ⊢
  cases hticked with
  | waiting hcommand => exact h
  | silent command hcommand htimeout hstop => exact ⟨h.last_cmd, h.published⟩
  | sent received command hcommand hclamped hmoving =>
    have hcur : Spanned c ms (if c.open_loop then s.last_cmd else odom) := by
      split
      · exact h.last_cmd
      · exact hodom
    have hcmd : Spanned c ms command := by
      rw [hclamped]
      exact (within_clampCommand _).spanned
    have hsent := spanned_smoothed hf hcur hcmd
    refine ⟨hsent, fun msg hmsg => ?_⟩
    rcases List.mem_append.mp hmsg with hmsg | hmsg
    · exact h.published msg hmsg
    · rw [List.mem_singleton.mp hmsg]
      exact spanned_deadband hsent

end

/-! ## Runs of the loop -/

section
variable {K : Type} [Field K] {t : Trig K}

theorem published_grows {n n' : Node K} {e : NodeEvent × Meeting} (h : n.step t e = some n') :
    ∃ more, n'.driver.published = n.driver.published ++ more := by
  have hheard : Heard [] n n.unread := ⟨[], rfl⟩
  obtain ⟨log, hlog, -⟩ := logged_step .start hheard h
  exact ⟨_, hlog.published_eq⟩

namespace Chain

variable {σ α : Type} {p : Publisher σ α}

/-- A step is one of the publisher, or the publisher is as before; the driver's publications
stay. -/
theorem step_parts {s s' : Chain σ K} {e : ChainEvent α} (h : s.step p t e = some s') :
    ((∃ a, e = .publisher a ∧ p.step s.publisher a = some s'.publisher) ∨
      (∀ a, e ≠ .publisher a) ∧ s'.publisher = s.publisher) ∧
    ∃ more, s'.node.driver.published = s.node.driver.published ++ more := by
  cases e with
  | publisher a =>
    obtain ⟨publisher, hstep, rfl⟩ := Option.map_eq_some_iff.mp h
    exact ⟨.inl ⟨a, rfl, hstep⟩, [], (List.append_nil _).symm⟩
  | lose k =>
    obtain ⟨topic, -, rfl⟩ := Option.map_eq_some_iff.mp h
    exact ⟨.inr ⟨fun a ha => by simp at ha, rfl⟩, [], (List.append_nil _).symm⟩
  | deliver m =>
    obtain ⟨⟨msg, topic⟩, -, h⟩ := Option.bind_eq_some_iff.mp h
    obtain ⟨node, hnode, rfl⟩ := Option.map_eq_some_iff.mp h
    exact ⟨.inr ⟨fun a ha => by simp at ha, rfl⟩, published_grows hnode⟩
  | node e m =>
    obtain ⟨node, hnode, rfl, -⟩ := step_node h
    exact ⟨.inr ⟨fun a ha => by simp at ha, rfl⟩, published_grows hnode⟩

end Chain

variable {c : SmootherConfig} {d : Int}

/-- What holds of the loop at any time. -/
structure Loop.Closed (c : SmootherConfig) (d : Int) (s : Loop K) : Prop where
  sent : s.odometry.sent = odometries s.chain.node.driver.published
  averaged : Averaged d s.odometry.received s.chain.publisher.odom_smoother
  hulled : Hulled c s.odometry.received s.chain.publisher.smoother
  joined : Chain.Joined (FedSmoother.publisher c d) s.chain

theorem Loop.closed_launch (q : Parameters) (start : SerialStart) (m : Meeting) :
    Loop.Closed c d (.launch (K := K) c d q start m) := by
  refine ⟨?_, averaged_start d, ⟨within_stop.spanned, fun _ hmsg => (List.not_mem_nil hmsg).elim⟩,
    Chain.joined_launch _ q start m⟩
  have hlaunch := Node.launched (K := K) q start m
  show [] = odometries (Node.launch (K := K) q start m).driver.published
  rw [hlaunch.driver]
  rfl

/-- The parts of the loop but for the odometry on its way back. -/
theorem Loop.closed_chain (hf : 0 < c.smoothing_frequency) {s : Loop K} {e : ChainEvent FedEvent}
    {chain : Chain FedSmoother K} (hs : s.Closed c d)
    (hodom : ∀ msg, e ≠ .publisher (.odometry msg))
    (h : s.chain.step (FedSmoother.publisher c d) t e = some chain) :
    Loop.Closed c d ⟨chain, s.odometry.publish ((odometries chain.node.driver.published).drop
      (odometries s.chain.node.driver.published).length)⟩ := by
  obtain ⟨hpublisher, more, hmore⟩ := Chain.step_parts h
  have hjoined := Chain.joined_step _ _ _ hs.joined h
  have hsent : s.odometry.sent ++ (odometries chain.node.driver.published).drop
      (odometries s.chain.node.driver.published).length =
      odometries chain.node.driver.published := by
    rw [hs.sent, hmore, odometries_append, List.drop_left]
  rcases hpublisher with ⟨a, rfl, hstep⟩ | ⟨-, hsame⟩
  · cases a with
    | command msg now =>
      have hnext := Option.some.inj hstep
      refine ⟨hsent, ?_, ?_, hjoined⟩
      · rw [← hnext]
        exact hs.averaged
      · rw [← hnext]
        exact hulled_command hs.hulled msg now
    | odometry msg => exact absurd rfl (hodom msg)
    | tick now =>
      have hnext := Option.some.inj hstep
      refine ⟨hsent, ?_, ?_, hjoined⟩
      · rw [← hnext]
        exact hs.averaged
      · rw [← hnext]
        exact hulled_tick hf hs.hulled hs.averaged.spanned now
  · refine ⟨hsent, ?_, ?_, hjoined⟩
    · rw [hsame]
      exact hs.averaged
    · rw [hsame]
      exact hs.hulled

theorem Loop.closed_step (hf : 0 < c.smoothing_frequency) (s : Loop K) (e : LoopEvent)
    (s' : Loop K) (hs : s.Closed c d) (h : s.step c d t e = some s') : s'.Closed c d := by
  cases e with
  | chain e =>
    unfold Loop.step at h
    split at h
    · cases h
    · rename_i e' hodom heq
      cases heq
      obtain ⟨chain, hchain, rfl⟩ := Option.map_eq_some_iff.mp h
      exact closed_chain hf hs (fun msg hmsg => hodom msg (by rw [hmsg])) hchain
    all_goals rename_i heq; cases heq
  | odometry =>
    obtain ⟨⟨msg, odometry⟩, hreceive, h⟩ := Option.bind_eq_some_iff.mp h
    obtain ⟨chain, hchain, rfl⟩ := Option.map_eq_some_iff.mp h
    obtain ⟨hsent, hreceived, -⟩ := Topic.receive_spec hreceive
    have hjoined := Chain.joined_step _ _ _ hs.joined hchain
    rw [Chain.step] at hchain
    obtain ⟨publisher, hstep, rfl⟩ := Option.map_eq_some_iff.mp hchain
    have hnext := Option.some.inj hstep
    refine ⟨hsent.trans hs.sent, ?_, ?_, hjoined⟩
    · rw [hreceived, ← hnext]
      exact averaged_callback hs.averaged msg
    · rw [hreceived, ← hnext]
      exact hs.hulled.mono fun m hm => List.mem_append_left _ hm
  | loseOdometry k =>
    obtain ⟨odometry, hlose, rfl⟩ := Option.map_eq_some_iff.mp h
    obtain ⟨hsent, hreceived⟩ := Topic.lose_spec hlose
    exact ⟨hsent.trans hs.sent, hreceived ▸ hs.averaged, hreceived ▸ hs.hulled, hs.joined⟩

variable {q : Parameters} {start : SerialStart} {m0 : Meeting} {es : List LoopEvent} {s : Loop K}

theorem Loop.closed (hf : 0 < c.smoothing_frequency)
    (h : exec (Loop.step c d t) es (.launch c d q start m0) = some s) : s.Closed c d :=
  always (Loop.closed_step hf) es _ s (Loop.closed_launch q start m0) h

/-- **Feedback.**  However commands, ticks, callbacks and messages interleave and whatever
odometry is lost on its way: as long as the driver's stamps are in order, the velocity the next
tick takes for the current one is the mean of those odometry messages received that are not
older than `odom_duration`, seen from the newest. -/
theorem loop_mean (hf : 0 < c.smoothing_frequency) (hd : 0 ≤ d)
    (h : exec (Loop.step c d t) es (.launch c d q start m0) = some s)
    (horder : (odometries s.chain.node.driver.published).Pairwise fun x y => x.stamp ≤ y.stamp)
    (m : Odometry) (hlast : s.odometry.received.getLast? = some m) :
    s.odometry.received.Sublist (odometries s.chain.node.driver.published) ∧
      ∀ i, s.chain.publisher.odom_smoother.vel_smooth.component i =
        meanOf (s.odometry.received.filter fun x => m.stamp - x.stamp ≤ d) i := by
  have hs := Loop.closed hf h
  have hsublist : s.odometry.received.Sublist (odometries s.chain.node.driver.published) := by
    rw [← hs.sent]
    exact (List.sublist_append_left _ _).trans s.odometry.sublist
  refine ⟨hsublist, fun i => ?_⟩
  obtain ⟨ms, hms⟩ := List.getLast?_eq_some_iff.mp hlast
  rw [hs.averaged.smooth i, hs.averaged.history, hms, Recent.window_eq_filter (aging hd)]
  · congr 1
    refine List.filter_congr fun x _ => ?_
    rw [tooOld, ← decide_not, decide_eq_decide]
    exact not_lt
  · rw [← hms]
    exact horder.sublist hsublist

def closedSmoother : SmootherConfig :=
  (onConfigure { agvproParams with feedback := "CLOSED_LOOP" }).config.get (by decide +kernel)

theorem closed_forward : 0 < closedSmoother.smoothing_frequency := by decide +kernel

/-- The device turns by itself, twice as fast as the smoother may; a curve is commanded. -/
def shortLoop : List LoopEvent :=
  [.chain (.node .timer (quietMeeting (onWire turningTelemetry.bytes))),
   .odometry,
   .chain (.node .timer { quietMeeting (onWire turningTelemetry.bytes) with
     clock := fun _ => 4050000000 }),
   .odometry,
   .chain (.publisher (.command curveLeft 4060000000)),
   .chain (.publisher (.tick 4100000000)),
   .chain (.deliver (quietMeeting []))]

def turningReadings : List Odometry :=
  [⟨4000000000, { angular := { z := 1 } }⟩, ⟨4050000000, { angular := { z := 1 } }⟩]

theorem shortLoop_runs : ∃ s : Loop ℚ, exec (Loop.step closedSmoother 100000000 flatTrig) shortLoop
    (.launch closedSmoother 100000000 {} .initialized runningLaunch) =
      some s ∧ odometries s.chain.node.driver.published = turningReadings ∧
      s.odometry.received = turningReadings ∧
      s.chain.node.velocities.map (fun w => Axis.theta.field w.frame) = [84] := by
  have hrun : (exec (Loop.step closedSmoother 100000000 flatTrig) shortLoop
      (.launch closedSmoother 100000000 {} .initialized runningLaunch)).map (fun s =>
          (odometries s.chain.node.driver.published, s.odometry.received,
            s.chain.node.velocities.map fun w => Axis.theta.field w.frame)) =
      some (turningReadings, turningReadings, [84]) := by
    decide +kernel
  obtain ⟨s, h, hfacts⟩ := Option.map_eq_some_iff.mp hrun
  obtain ⟨hpublished, hrest⟩ := Prod.mk.inj hfacts
  obtain ⟨hreceived, hfields⟩ := Prod.mk.inj hrest
  exact ⟨s, h, hpublished, hreceived, hfields⟩

theorem loop_mean_short : ∃ s : Loop ℚ, s.odometry.received = turningReadings ∧
    ∀ i, s.chain.publisher.odom_smoother.vel_smooth.component i =
      meanOf (turningReadings.filter fun x => 4050000000 - x.stamp ≤ 100000000) i := by
  obtain ⟨s, h, hpublished, hreceived, -⟩ := shortLoop_runs
  obtain ⟨-, hmean⟩ := loop_mean closed_forward (by decide) h (by rw [hpublished]; decide)
    ⟨4050000000, { angular := { z := 1 } }⟩ (by rw [hreceived]; rfl)
  rw [hreceived] at hmean
  exact ⟨s, hreceived, hmean⟩

/-- **Limits in closed loop.**  In every run of the loop no field of a velocity frame handed to
`write` leaves the limits of the smoother by more than what the driver has published of the
device itself. -/
theorem loop_limits (hf : 0 < c.smoothing_frequency)
    (h : exec (Loop.step c d t) es (.launch c d q start m0) = some s) (i : Axis) (lo hi : ℚ)
    (hlo : lo ≤ min (c.min_velocities i) 0) (hhi : max (c.max_velocities i) 0 ≤ hi)
    (hodom : ∀ m ∈ odometries s.chain.node.driver.published,
      lo ≤ m.twist.axis i ∧ m.twist.axis i ≤ hi) :
    ∀ w ∈ s.chain.node.velocities,
      hundredths lo (-i.bound) i.bound ≤ i.field w.frame ∧
        i.field w.frame ≤ hundredths hi (-i.bound) i.bound := by
  have hs := Loop.closed hf h
  intro w hw
  have hframe := List.mem_map_of_mem (f := Transmit.frame) hw
  rw [hs.joined.handed] at hframe
  obtain ⟨msg, hmsg, hframe⟩ := List.mem_map.mp hframe
  have hpublished : msg ∈ s.chain.publisher.smoother.published := by
    have hmem := Topic.mem_sent hmsg
    rwa [hs.joined.sent] at hmem
  have hreceived : ∀ m ∈ s.odometry.received, lo ≤ m.twist.axis i ∧ m.twist.axis i ≤ hi := by
    intro m hm
    exact hodom m (hs.sent ▸ Topic.mem_sent hm)
  obtain ⟨hlow, hhigh⟩ := hs.hulled.published msg hpublished i lo hi hlo hhi hreceived
  rw [← hframe, field_cmdFrame]
  exact ⟨hundredths_mono (neg_bound_le i) hlow, hundredths_mono (neg_bound_le i) hhigh⟩

theorem loop_limits_short : ∃ s : Loop ℚ,
    s.chain.node.velocities.map (fun w => Axis.theta.field w.frame) = [84] ∧
    ∀ w ∈ s.chain.node.velocities,
      hundredths (-1 / 2) (-1) 1 ≤ Axis.theta.field w.frame ∧
        Axis.theta.field w.frame ≤ hundredths 1 (-1) 1 := by
  obtain ⟨s, h, hpublished, -, hfields⟩ := shortLoop_runs
  refine ⟨s, hfields, loop_limits closed_forward h .theta (-1 / 2) 1 (by decide +kernel)
    (by decide +kernel) ?_⟩
  rw [hpublished]
  decide +kernel

end

end AgvPro
