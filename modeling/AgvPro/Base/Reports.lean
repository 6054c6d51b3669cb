import AgvPro.Base.Node

/-!
# What the node publishes

`Control` shares the line with the services and with `is_power_on`: each takes bytes off
its front.  Every accepted frame is published as four messages, the transform and the
odometry with one stamp, the IMU with a later one.

    the calls only take from the front of the line     (handle_takes, control_takes)
    what is published are the messages of telemetry frames that stand apart on the line, in
      their order, each pose the one before it moved by the frame's velocities
                                                       (published_from_line)
-/

namespace AgvPro

open Run Window

/-! ## Calls take from the front -/

theorem hunt_takes (rx rx' : List RxEvent) (h : (hunt rx).rest? = some rx') : rx' <:+ rx := by
  induction rx using hunt.induct with
  | case1 => cases h
  | case2 rx => cases h; exact List.suffix_cons _ _
  | case3 b rx hb ih =>
    rw [hunt_other b rx hb] at h
    exact (ih h).trans (List.suffix_cons _ _)
  | case4 b hb => rw [hunt.eq_def] at h; simp [hb, HuntEnd.rest?] at h
  | case5 b hb rx =>
    rw [hunt.eq_def] at h
    simp only [hb, if_false, HuntEnd.rest?, Option.some.injEq] at h
    subst h
    exact ⟨[.byte b, .error], rfl⟩
  | case6 b hb rx =>
    obtain rfl : b = 0xFE := by simpa using hb
    rw [hunt_header] at h
    cases h
    exact ⟨[.byte 0xFE, .byte 0xFE], rfl⟩
  | case7 b hb b' rx hb' ih =>
    obtain rfl : b = 0xFE := by simpa using hb
    rw [hunt_lone b' rx hb'] at h
    exact (ih h).trans ⟨[.byte 0xFE, .byte b'], rfl⟩

theorem readExactly_takes (n : Nat) (rx rx' : List RxEvent)
    (h : (readExactly n rx).rest? = some rx') : rx' <:+ rx := by
  induction n generalizing rx with
  | zero => cases h; exact List.suffix_rfl
  | succ n ih =>
    match rx with
    | [] => cases h
    | .error :: rx => cases h; exact List.suffix_cons _ _
    | .byte b :: rx =>
      have hrec := ih rx
      unfold readExactly at h
      cases hr : readExactly n rx with
      | bytes bs rx1 =>
        rw [hr] at h hrec
        exact (hrec h).trans (List.suffix_cons _ _)
      | error rx1 =>
        rw [hr] at h hrec
        exact (hrec h).trans (List.suffix_cons _ _)
      | blocked => rw [hr] at h; cases h

theorem receiveBody_takes (rx rx' : List RxEvent) (h : (receiveBody rx).rest? = some rx') :
    rx' <:+ rx := by
  have hlen := readExactly_takes 1 rx
  unfold receiveBody at h
  cases hl : readExactly 1 rx with
  | blocked => rw [hl] at h; cases h
  | error rx1 => rw [hl] at h hlen; exact hlen rx' h
  | bytes bufLength rx1 =>
    rw [hl] at h hlen
    have h1 := hlen rx1 rfl
    have hdata := readExactly_takes receivePayloadSize rx1
    simp only at h
    split at h
    · cases h; exact h1
    · cases hd : readExactly receivePayloadSize rx1 with
      | blocked => rw [hd] at h; cases h
      | error rx2 => rw [hd] at h hdata; exact (hdata rx' h).trans h1
      | bytes dataBuf rx2 =>
        rw [hd] at h hdata
        have h2 := hdata rx2 rfl
        simp only at h
        split at h <;> (cases h; exact h2.trans h1)

theorem receiveFrame_takes (isOpen : Bool) (rx rx' : List RxEvent)
    (h : (receiveFrame isOpen rx).rest? = some rx') : rx' <:+ rx := by
  have hhunt := hunt_takes rx
  unfold receiveFrame at h
  by_cases ho : isOpen = true
  · simp only [ho, Bool.not_true, Bool.false_eq_true, if_false] at h
    cases hr : hunt rx with
    | blocked => rw [hr] at h; cases h
    | error rx1 => rw [hr] at h hhunt; exact hhunt rx' h
    | found rx1 =>
      rw [hr] at h hhunt
      exact (receiveBody_takes rx1 rx' h).trans (hhunt rx1 rfl)
  · simp only [ho, Bool.not_false, if_true] at h
    cases h
    exact List.suffix_rfl

theorem suffix_of_eq_append {l l' : List RxEvent} (pre : List RxEvent) (h : l = pre ++ l') :
    l' <:+ l :=
  ⟨pre, h.symm⟩

theorem awaitHeader_takes {header : List UInt8} (timeout start : Int) (isOpen : Bool)
    (split : Nat → Nat) (rx : List RxEvent) (clock : Nat → Int) (hne : header ≠ []) (l : Line) :
    (∀ w, awaitHeader header timeout start isOpen split rx clock [] = .done w l → l.rx <:+ rx) ∧
      (awaitHeader header timeout start isOpen split rx clock [] = .error l → l.rx <:+ rx) := by
  have hspec := awaitHeader_spec header timeout start isOpen split rx clock [] (not_ends_nil hne)
  rw [lastN_nil] at hspec
  constructor
  · intro w h
    rw [h] at hspec
    obtain ⟨-, bs, hrx, -⟩ := hspec
    exact suffix_of_eq_append _ hrx
  · intro h
    rw [h] at hspec
    obtain ⟨bs, -, ⟨-, hrx⟩ | hrx⟩ := hspec
    · exact suffix_of_eq_append _ hrx
    · exact (List.suffix_cons _ _).trans (suffix_of_eq_append _ hrx)

theorem fill_takes (timeout start : Int) (isOpen : Bool) (n : Nat) (l l' : Line) :
    (∀ buf, fill timeout start isOpen n n l [] = .done buf l' → l'.rx <:+ l.rx) ∧
      (fill timeout start isOpen n n l [] = .error l' → l'.rx <:+ l.rx) := by
  have hspec := fill_spec timeout start isOpen n n l [] (Nat.le_refl _)
  constructor
  · intro buf h
    rw [h] at hspec
    obtain ⟨bs, -, hrx, -⟩ := hspec
    exact suffix_of_eq_append _ hrx
  · intro h
    rw [h] at hspec
    obtain ⟨bs, -, ⟨-, hrx⟩ | hrx⟩ := hspec
    · exact suffix_of_eq_append _ hrx
    · exact (List.suffix_cons _ _).trans (suffix_of_eq_append _ hrx)

theorem readSerialResponse_takes {header : List UInt8} (n : Nat) (timeout : Int) (p : Port)
    (hne : header ≠ []) : (readSerialResponse header n timeout p).port.rx <:+ p.rx := by
  unfold readSerialResponse
  simp only
  cases ha : awaitHeader header timeout (p.clock 0) p.isOpen p.split p.rx
      (fun i => p.clock (i + 1)) [] with
  | blocked => exact List.suffix_rfl
  | error l => exact (awaitHeader_takes _ _ _ _ _ _ hne l).2 ha
  | done w l =>
    have h1 := (awaitHeader_takes _ _ _ _ _ _ hne l).1 w ha
    dsimp only
    split
    · exact h1
    · cases hf : fill timeout (p.clock 0) p.isOpen (n + 2) (n + 2) l [] with
      | blocked => exact List.suffix_rfl
      | error l' => exact ((fill_takes _ _ _ _ l l').2 hf).trans h1
      | done buf l' =>
        have h2 := ((fill_takes _ _ _ _ l l').1 buf hf).trans h1
        dsimp only
        split
        · exact h2
        · exact h2

theorem handle_takes (req : ServiceRequest) (p : Port) : (handle req p).port.rx <:+ p.rx := by
  cases hr : req.rejects with
  | true =>
    obtain ⟨resp, hres, -⟩ := handle_of_rejects req p hr
    rw [hres]
    exact List.suffix_rfl
  | false =>
    rw [handle_of_accepts req p hr]
    unfold callService
    rw [Result.port_map]
    exact readSerialResponse_takes 8 _ (sendSerialFrame _ p) (replyHeader_ne_nil _)

theorem isPowerOn_takes (p : Port) : (isPowerOn p).port.rx <:+ p.rx := by
  have hquery := readSerialResponse_takes 8 (seconds 12) (askPowerState p)
    (replyHeader_ne_nil getPowerState)
  have hrun := isPowerOn_run p
  generalize isPowerOn p = r at hrun ⊢
  cases hrun with
  | waiting q hread =>
    rw [hread] at hquery
    exact hquery
  | refused v q hread hstatus =>
    rw [hread] at hquery
    exact hquery
  | running v q status hread hstatus hne =>
    rw [hread] at hquery
    exact hquery
  | commanded v q _ hread hstatus hr =>
    rw [hread] at hquery
    rw [hr, Result.port_map]
    exact (readSerialResponse_takes 8 _ (sendPowerOn q) (replyHeader_ne_nil _)).trans hquery

theorem construct_takes (initialized : Bool) (p : Port) :
    (construct initialized p).port.rx <:+ p.rx := by
  have hpower := isPowerOn_takes p
  unfold construct
  cases initialized with
  | false => exact List.suffix_rfl
  | true =>
    simp only [Bool.not_true, Bool.false_eq_true, if_false]
    cases hrun : isPowerOn p with
    | blocked q =>
      rw [hrun] at hpower
      exact hpower
    | done report q =>
      rw [hrun] at hpower
      simp only [Result.bind]
      split
      · exact hpower
      · exact hpower

/-! ## The log -/

/-- An accepted frame, what was passed over before it, and the driver as it published. -/
structure Entry (K : Type) where
  gap : List RxEvent
  frame : List UInt8
  driver : Driver K
  stamp : Int
  imuStamp : Int

section
variable {K : Type}

def Entry.events (e : Entry K) : List RxEvent := e.gap ++ onWire e.frame

/-- When `Control` read the clock for the frame. -/
def Entry.time (e : Entry K) : Int := e.driver.lastTime

/-- The four messages of a frame. -/
def Entry.report (e : Entry K) : List (Publication K) :=
  let d := e.driver
  [.transform e.stamp d.frameIdOfOdometry d.childFrameIdOfOdometry d.x d.y d.theta,
    .odom e.stamp d.frameIdOfOdometry d.childFrameIdOfOdometry d.x d.y d.theta odomPoseCovariance
      d.sensors.vx d.sensors.vy d.sensors.vtheta odomTwistCovariance,
    .voltage d.sensors.batteryVoltage,
    .imu e.imuStamp "imu_link" d.sensors.yaw d.sensors.angularVelocity d.sensors.linearAcceleration
      imuCovariance imuCovariance]

theorem length_reports (log : List (Entry K)) :
    (log.flatMap Entry.report).length = 4 * log.length := by
  induction log with
  | nil => rfl
  | cons e log ih =>
    rw [List.flatMap_cons, List.length_append, ih, List.length_cons]
    show 4 + _ = _
    omega

/-- The line so far: the entries, what other calls have taken since the last one, and what
is unread. -/
def Heard (log : List (Entry K)) (n : Node K) (arrived : List RxEvent) : Prop :=
  ∃ since, log.flatMap Entry.events ++ since ++ n.unread = arrived

/-- A call that makes no entry takes from the front of the line. -/
theorem Heard.take {log : List (Entry K)} {n n' : Node K} {arrived : List RxEvent} {m : Meeting}
    (h : Heard log n arrived) (htake : n'.unread <:+ n.unread ++ m.arrived) :
    Heard log n' (arrived ++ m.arrived) := by
  obtain ⟨since, rfl⟩ := h
  obtain ⟨taken, htaken⟩ := htake
  exact ⟨since ++ taken, by simp only [List.append_assoc, htaken]⟩

variable [Field K]

/-- The entry after `d`: its frame is complete and checked, its driver holds what the frame
says and the pose moved by it. -/
structure Entry.Next (t : Trig K) (d : Driver K) (e : Entry K) : Prop where
  length : e.frame.length = 31
  head : e.frame.take 4 = [0xFE, 0xFE, 0x1C, 0x25]
  crc : crcOk 29 e.frame = true
  sensors : e.driver.sensors = decode e.frame
  pose : (e.driver.x, e.driver.y, e.driver.theta) = (d.x, d.y, d.theta) +
    moved t d.theta (decode e.frame)
      (if d.lastTime ≠ 0 then secondsBetween d.lastTime e.time else 0)
  frameId : e.driver.frameIdOfOdometry = d.frameIdOfOdometry
  childFrameId : e.driver.childFrameIdOfOdometry = d.childFrameIdOfOdometry
  published : e.driver.published = d.published ++ e.report

/-- The entries behind a driver, from the one the constructor made. -/
inductive Logged (t : Trig K) (d0 : Driver K) : List (Entry K) → Driver K → Prop
  | start : Logged t d0 [] d0
  | frame {log : List (Entry K)} {d : Driver K} (h : Logged t d0 log d) (e : Entry K)
      (hnext : e.Next t d) : Logged t d0 (log ++ [e]) e.driver

theorem control_waits (t : Trig K) (d : Driver K) (p q : Port) (h : d.control t p = .blocked q) :
    q.rx = p.rx := by
  unfold Driver.control readData at h
  cases hr : receiveFrame p.isOpen p.rx with
  | blocked => rw [hr] at h; cases h; rfl
  | rejected rx => rw [hr] at h; cases h
  | accepted buf rx => rw [hr] at h; cases h

/-- A call of `Control` that returns has left the driver as it was or made an entry. -/
theorem control_takes (t : Trig K) (d d' : Driver K) (p q : Port)
    (h : d.control t p = .done d' q) :
    d' = d ∧ q.rx <:+ p.rx ∨
      ∃ e : Entry K, e.driver = d' ∧ e.Next t d ∧ e.time = p.clock 0 ∧
        p.rx = e.events ++ q.rx := by
  have hrest := receiveFrame_takes p.isOpen p.rx
  unfold Driver.control readData at h
  cases hr : receiveFrame p.isOpen p.rx with
  | blocked => rw [hr] at h; cases h
  | rejected rx =>
    rw [hr] at h hrest
    cases h
    exact Or.inl ⟨rfl, hrest rx rfl⟩
  | accepted buf rx =>
    obtain ⟨pre, hrx, hlen, hhead, hcrc⟩ := receiveFrame_accepted _ _ _ _ hr
    rw [hr] at h
    cases h
    refine Or.inr ⟨⟨onWire pre, buf, _, p.clock 1, p.clock 2⟩, rfl,
      ⟨hlen, hhead, hcrc, rfl, rfl, rfl, rfl, ?_⟩, rfl, ?_⟩
    · simp [Driver.publisherVoltage, Entry.report]
    · simp only [Entry.events, ← onWire_append]
      exact hrx

/-! ## A whole life -/

/-- One event more: its callback makes an entry, or none. -/
theorem logged_step {t : Trig K} {d0 : Driver K} {n n' : Node K} {e : NodeEvent × Meeting}
    {log : List (Entry K)} {arrived : List RxEvent} (hlog : Logged t d0 log n.driver)
    (hheard : Heard log n arrived) (h : n.step t e = some n') :
    ∃ more, Logged t d0 (log ++ more) n'.driver ∧ Heard (log ++ more) n' (arrived ++ e.2.arrived) ∧
      (more.map Entry.time).Sublist [e.2.clock 0] := by
  obtain ⟨e, m⟩ := e
  have hsame : ∀ p : Port, p.rx <:+ n.unread ++ m.arrived → n'.driver = n.driver →
      n'.unread = p.rx → ∃ more, Logged t d0 (log ++ more) n'.driver ∧
        Heard (log ++ more) n' (arrived ++ m.arrived) ∧
        (more.map Entry.time).Sublist [m.clock 0] := by
    intro p hp hdriver hunread
    refine ⟨[], ?_, ?_, List.nil_sublist _⟩
    · rw [List.append_nil, hdriver]
      exact hlog
    · rw [List.append_nil]
      exact hheard.take (hunread ▸ hp)
  cases (Node.callback h).2 with
  | cmdVel msg => exact hsame (cmdCallback msg (n.port m)) List.suffix_rfl rfl rfl
  | service req phase responses hphase =>
    exact hsame (handle req (n.port m)).port (handle_takes req (n.port m)) rfl rfl
  | waiting p htimer hrun =>
    have hrx := control_waits t n.driver (n.port m) p hrun
    exact hsame p (hrx ▸ List.suffix_rfl) rfl rfl
  | timer driver p htimer hrun =>
    rcases control_takes t n.driver driver (n.port m) p hrun with
      ⟨hdriver, hrx⟩ | ⟨entry, rfl, hnext, htime, hrx⟩
    · exact hsame p hrx hdriver rfl
    · obtain ⟨since, hline⟩ := hheard
      -- what other calls took stands in front of the frame, too
      let entry' : Entry K := { entry with gap := since ++ entry.gap }
      have hnext' : entry'.Next t n.driver :=
        ⟨hnext.length, hnext.head, hnext.crc, hnext.sensors, hnext.pose, hnext.frameId,
          hnext.childFrameId, hnext.published⟩
      refine ⟨[entry'], hlog.frame entry' hnext', ⟨[], ?_⟩, ?_⟩
      · have hrx' : n.unread ++ m.arrived = entry.events ++ p.rx := hrx
        show _ = arrived ++ m.arrived
        rw [← hline, List.append_assoc _ n.unread, hrx']
        simp [entry', Entry.events, Node.after]
      · have htime' : entry'.time = m.clock 0 := htime
        simp [htime']
  | destroy =>
    refine hsame (n.port m) List.suffix_rfl rfl ?_
    show (if n.isOpen then setAutoReport false (n.port m) else n.port m).rx = _
    split
    · rfl
    · rfl

theorem logged_run {t : Trig K} {d0 : Driver K} (es : List (NodeEvent × Meeting)) (n n' : Node K)
    (log : List (Entry K)) (arrived : List RxEvent) (hlog : Logged t d0 log n.driver)
    (hheard : Heard log n arrived) (h : exec (Node.step t) es n = some n') :
    ∃ more, Logged t d0 (log ++ more) n'.driver ∧
      Heard (log ++ more) n' (arrived ++ es.flatMap fun e => e.2.arrived) ∧
      (more.map Entry.time).Sublist (es.map fun e => e.2.clock 0) := by
  induction es generalizing n log arrived with
  | nil =>
    cases h
    exact ⟨[], by simpa using hlog, by simpa using hheard, List.nil_sublist _⟩
  | cons e es ih =>
    obtain ⟨n1, h1, h2⟩ := exec_cons h
    obtain ⟨more1, hlog1, hheard1, htimes1⟩ := logged_step hlog hheard h1
    obtain ⟨more2, hlog2, hheard2, htimes2⟩ := ih n1 _ _ hlog1 hheard1 h2
    refine ⟨more1 ++ more2, ?_, ?_, ?_⟩
    · rw [← List.append_assoc]
      exact hlog2
    · rw [← List.append_assoc, List.flatMap_cons, ← List.append_assoc]
      exact hheard2
    · rw [List.map_append, List.map_cons, ← List.singleton_append]
      exact htimes1.append htimes2

theorem launch_heard (q : Parameters) (start : SerialStart) (m : Meeting) :
    Heard ([] : List (Entry K)) (Node.launch q start m) m.arrived := by
  unfold Node.launch
  extract_lets n
  have htake := construct_takes (start == .initialized)
    (n.port { m with clock := fun i => m.clock (i + 1) })
  cases hrun : construct (start == .initialized)
      (n.port { m with clock := fun i => m.clock (i + 1) }) with
  | blocked p =>
    rw [hrun] at htake
    obtain ⟨since, hsince⟩ := htake
    exact ⟨since, hsince⟩
  | done timer p =>
    rw [hrun] at htake
    obtain ⟨since, hsince⟩ := htake
    exact ⟨since, hsince⟩

theorem Logged.published_eq {t : Trig K} {d0 d : Driver K} {log : List (Entry K)}
    (h : Logged t d0 log d) : d.published = d0.published ++ log.flatMap Entry.report := by
  induction h with
  | start => simp
  | frame h e hnext ih => rw [hnext.published, ih, List.flatMap_append, List.append_assoc]; simp

theorem Logged.frameIds {t : Trig K} {d0 d : Driver K} {log : List (Entry K)}
    (h : Logged t d0 log d) : (d.frameIdOfOdometry = d0.frameIdOfOdometry ∧
        d.childFrameIdOfOdometry = d0.childFrameIdOfOdometry) ∧
      ∀ e ∈ log, e.driver.frameIdOfOdometry = d0.frameIdOfOdometry ∧
        e.driver.childFrameIdOfOdometry = d0.childFrameIdOfOdometry := by
  induction h with
  | start => exact ⟨⟨rfl, rfl⟩, fun e he => (List.not_mem_nil he).elim⟩
  | frame h e hnext ih =>
    have hids : e.driver.frameIdOfOdometry = d0.frameIdOfOdometry ∧
        e.driver.childFrameIdOfOdometry = d0.childFrameIdOfOdometry :=
      ⟨hnext.frameId.trans ih.1.1, hnext.childFrameId.trans ih.1.2⟩
    refine ⟨hids, fun e' he' => ?_⟩
    rcases List.mem_append.mp he' with he' | he'
    · exact ih.2 e' he'
    · rw [List.mem_singleton.mp he']
      exact hids

/-- What an entry holds whatever stands before it. -/
structure Entry.Checked (e : Entry K) : Prop where
  length : e.frame.length = 31
  head : e.frame.take 4 = [0xFE, 0xFE, 0x1C, 0x25]
  crc : crcOk 29 e.frame = true
  sensors : e.driver.sensors = decode e.frame

theorem Logged.checked {t : Trig K} {d0 d : Driver K} {log : List (Entry K)}
    (h : Logged t d0 log d) : ∀ e ∈ log, e.Checked := by
  induction h with
  | start => exact fun e he => (List.not_mem_nil he).elim
  | frame h e hnext ih =>
    intro e' he'
    rcases List.mem_append.mp he' with he' | he'
    · exact ih e' he'
    · rw [List.mem_singleton.mp he']
      exact ⟨hnext.length, hnext.head, hnext.crc, hnext.sensors⟩

/-- The log of a life: the driver has come from the constructor through it, what is published
are its messages, its frames stand apart and in order on the line, and its times are, in
order, readings of the clock. -/
structure Chronicle (t : Trig K) (q : Parameters) (m : Meeting) (es : List (NodeEvent × Meeting))
    (n : Node K) (log : List (Entry K)) : Prop where
  logged : Logged t (.construct (q.scoped q.odometryFrameId) (q.scoped q.odometryChildFrameId)
    (m.clock 0)) log n.driver
  published : n.driver.published = log.flatMap Entry.report
  line : log.flatMap Entry.events <+: m.arrived ++ es.flatMap (fun e => e.2.arrived)
  times : (log.map Entry.time).Sublist (es.map fun e => e.2.clock 0)

theorem life_log {t : Trig K} {q : Parameters} {start : SerialStart} {m : Meeting}
    {es : List (NodeEvent × Meeting)} {n : Node K}
    (h : exec (Node.step t) es (Node.launch q start m) = some n) :
    ∃ log, Chronicle t q m es n log := by
  have hstart : Logged t (.construct (q.scoped q.odometryFrameId)
      (q.scoped q.odometryChildFrameId) (m.clock 0)) []
      (Node.launch q start m : Node K).driver := by
    rw [(Node.launched q start m).driver]
    exact .start
  obtain ⟨log, hlog, ⟨since, hline⟩, htimes⟩ :=
    logged_run es _ n [] m.arrived hstart (launch_heard q start m) h
  refine ⟨log, hlog, hlog.published_eq, ?_, htimes⟩
  rw [← hline, List.append_assoc]
  exact List.prefix_append _ _

/-- **Publications.**  What a node has published are the messages of the frames in a log:
their bytes stand apart and in order on the line, each complete with its CRC right; the
frame ids of transform and odometry are the scoped parameters, that of the IMU is
`imu_link` in every namespace. -/
theorem published_from_line {t : Trig K} {q : Parameters} {start : SerialStart} {m : Meeting}
    {es : List (NodeEvent × Meeting)} {n : Node K}
    (h : exec (Node.step t) es (Node.launch q start m) = some n) :
    ∃ log : List (Entry K),
      Logged t (.construct (q.scoped q.odometryFrameId) (q.scoped q.odometryChildFrameId)
        (m.clock 0)) log n.driver ∧
      n.driver.published = log.flatMap Entry.report ∧
      log.flatMap Entry.events <+: m.arrived ++ es.flatMap (fun e => e.2.arrived) ∧
      (log.map Entry.time).Sublist (es.map fun e => e.2.clock 0) ∧
      ∀ e ∈ log, e.driver.frameIdOfOdometry = q.scoped q.odometryFrameId ∧
        e.driver.childFrameIdOfOdometry = q.scoped q.odometryChildFrameId := by
  obtain ⟨log, hlog⟩ := life_log h
  exact ⟨log, hlog.logged, hlog.published, hlog.line, hlog.times, hlog.logged.frameIds.2⟩

end

/-- One frame, checked, on the line of the short life, at 4 s. -/
theorem published_from_line_short : ∃ (n : Node ℚ) (e : Entry ℚ),
    n.driver.published = e.report ∧ e.Checked ∧ e.time = seconds 4 ∧
      e.events <+: runningLaunch.arrived ++ shortLife.flatMap (fun e => e.2.arrived) ∧
      e.driver.frameIdOfOdometry = "odom" ∧
      e.driver.childFrameIdOfOdometry = "base_footprint" := by
  obtain ⟨n, h, -, hlen⟩ := shortLife_runs
  obtain ⟨log, hlogged, hpublished, hline, htimes, hids⟩ := published_from_line h
  have hone : log.length = 1 := by
    have hreports := length_reports log
    rw [← hpublished, hlen] at hreports
    omega
  obtain ⟨e, rfl⟩ := List.length_eq_one_iff.mp hone
  rw [List.flatMap_singleton] at hpublished hline
  have htime : e.time = seconds 4 := by
    have hmem := htimes.subset (List.mem_singleton_self e.time)
    simpa [shortLife, quietMeeting] using hmem
  exact ⟨n, e, hpublished, hlogged.checked e List.mem_cons_self, htime, hline,
    hids e List.mem_cons_self⟩

end AgvPro
