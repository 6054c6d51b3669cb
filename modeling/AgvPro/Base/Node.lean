import AgvPro.Base.Command
import AgvPro.Base.Odometry
import AgvPro.Base.Power
import AgvPro.Base.Services

/-!
# The driver node, from its constructor to its destructor

One thread spins the node: a Twist, a service request and the Control timer each run to
their end before the next.  A callback that waits in a read for ever, or applies
`operator[]` past the end of a response, takes the whole node with it.  The destructor
turns the reports off and sends nothing else.

    every frame handed to `write` is one of the commands, its fields in range, and goes
      out whole unless that write fails                                 (life_permitted)
    the velocity frames are those of the Twists received, in order      (velocities_eq)
    the record is startup, the frames the events call for, and reports off behind a
      destructor, whatever the device sends                             (life_trace)
-/

namespace AgvPro

open Run

/-! ## Model -/

/-- What the constructor declares and reads. -/
structure Parameters where
  odometryFrameId : String := "odom"
  odometryChildFrameId : String := "base_footprint"
  imuFrameId : String := "imu_link"
  nameSpace : String := ""

/-- A frame id behind the namespace, where there is one. -/
def Parameters.scoped (q : Parameters) (frameId : String) : String :=
  if q.nameSpace ≠ "" then q.nameSpace ++ "/" ++ frameId else frameId

/-- How the try block around the serial port ends: `open` throws, something after it
throws, or nothing does. -/
inductive SerialStart where
  | openFailed
  | setupFailed
  | initialized
deriving DecidableEq

/-- What a callback meets: the bytes that have come by the time it returns, the clock, the
chunks, and the writes that throw. -/
structure Meeting where
  arrived : List RxEvent
  clock : Nat → Int
  split : Nat → Nat
  throwsAt : Nat → Option Nat

inductive NodePhase where
  | spinning
  | stuck
  | destroyed
deriving DecidableEq

structure Node (K : Type) where
  driver : Driver K
  frameIdOfImu : String
  isOpen : Bool
  controlTimer : Bool
  phase : NodePhase
  unread : List RxEvent
  tx : List Transmit
  responses : List ServiceResponse

inductive NodeEvent where
  | cmdVel (msg : Twist)
  | service (req : ServiceRequest)
  | timer
  | destroy

namespace Node

section
variable {K : Type} [Field K]

def port (n : Node K) (m : Meeting) : Port :=
  ⟨⟨n.unread ++ m.arrived, m.clock, m.split⟩, n.isOpen, m.throwsAt, n.tx⟩

/-- The node with what a call has left of the line and written. -/
def after (n : Node K) (p : Port) : Node K := { n with unread := p.rx, tx := p.tx }

/-- The constructor.  It has read the clock before it opens the port. -/
def launch (q : Parameters) (start : SerialStart) (m : Meeting) : Node K :=
  let n : Node K :=
    { driver := .construct (q.scoped q.odometryFrameId) (q.scoped q.odometryChildFrameId)
        (m.clock 0)
      frameIdOfImu := q.scoped q.imuFrameId
      isOpen := start != .openFailed
      controlTimer := false
      phase := .spinning
      unread := []
      tx := []
      responses := [] }
  match construct (start == .initialized) (n.port { m with clock := fun i => m.clock (i + 1) }) with
  | .done timer p => { n.after p with controlTimer := timer }
  | .blocked p => { n.after p with phase := .stuck }

/-- The destructor; `is_open` guards all of it. -/
def destroy (n : Node K) (m : Meeting) : Node K :=
  let p := n.port m
  { n.after (if n.isOpen then setAutoReport false p else p) with
    isOpen := false
    phase := .destroyed }

def step (t : Trig K) (n : Node K) (e : NodeEvent × Meeting) : Option (Node K) :=
  if n.phase ≠ .spinning then none
  else match e.1 with
    | .cmdVel msg => some (n.after (cmdCallback msg (n.port e.2)))
    | .service req =>
      match handle req (n.port e.2) with
      | .done (.returned response) p =>
        some { n.after p with responses := n.responses ++ [response] }
      | .done (.outOfRange _ _) p => some { n.after p with phase := .stuck }
      | .blocked p => some { n.after p with phase := .stuck }
    | .timer =>
      if n.controlTimer then
        match n.driver.control t (n.port e.2) with
        | .done driver p => some { n.after p with driver := driver }
        | .blocked p => some { n.after p with phase := .stuck }
      else none
    | .destroy => some (n.destroy e.2)

end

end Node

/-! ## What should be written -/

/-- The report command. -/
def reportFrame (enable : Bool) : List UInt8 := buildSerialFrame 0x23 [if enable then 1 else 0]

/-- The frames an event calls for; nothing the device sends enters. -/
def NodeEvent.frames (isOpen : Bool) : NodeEvent → List (List UInt8)
  | .cmdVel msg => [cmdFrame msg]
  | .service req => if req.rejects then [] else [buildSerialFrame req.cmdId req.payload]
  | .timer => []
  | .destroy => if isOpen then [reportFrame false] else []

/-- What the constructor may have written when it returns, or waits for ever. -/
inductive Startup : SerialStart → Bool → List (List UInt8) → Prop
  | openFailed : Startup .openFailed false []
  | setupFailed : Startup .setupFailed false []
  | asked : Startup .initialized false [buildSerialFrame getPowerState []]
  | commanded : Startup .initialized false
      [buildSerialFrame getPowerState [], buildSerialFrame powerOn []]
  | running : Startup .initialized true [buildSerialFrame getPowerState [], reportFrame true]
  | started : Startup .initialized true
      [buildSerialFrame getPowerState [], buildSerialFrame powerOn [], reportFrame true]

/-- The frames handed to `write`, in order, whether or not they went out. -/
def Node.handed {K : Type} (n : Node K) : List (List UInt8) := n.tx.map Transmit.frame

/-- What the writes of an event leave in the record. -/
def eventTransmits (isOpen : Bool) (e : NodeEvent × Meeting) : List Transmit :=
  transmits isOpen e.2.throwsAt (e.1.frames isOpen)

/-! ## One event -/

/-- What an event leaves of a node, whatever its callback meets. -/
structure Node.Stepped {K : Type} (n : Node K) (e : NodeEvent × Meeting) (n' : Node K) : Prop where
  spinning : n.phase = .spinning
  tx : n'.tx = n.tx ++ eventTransmits n.isOpen e
  controlTimer : n'.controlTimer = n.controlTimer
  isOpen : n'.phase ≠ .destroyed → n'.isOpen = n.isOpen
  destroyed : n'.phase = .destroyed ↔ e.1 = .destroy
  driver : n'.driver = n.driver ∨ e.1 = .timer ∧ n.controlTimer = true

/-- A callback that has called the port, and left the node spinning or stuck. -/
theorem Node.Stepped.of_port {K : Type} {n : Node K} {e : NodeEvent} {m : Meeting} {p : Port}
    {driver : Driver K} (phase : NodePhase) (responses : List ServiceResponse)
    (hph : n.phase = .spinning) (he : e ≠ .destroy)
    (hwrites : Writes (n.port m) p (e.frames n.isOpen)) (hphase : phase ≠ .destroyed)
    (hdriver : driver = n.driver ∨ e = .timer ∧ n.controlTimer = true) :
    n.Stepped (e, m)
      { n.after p with driver := driver, phase := phase, responses := responses } where
  spinning := hph
  tx := hwrites.tx
  controlTimer := rfl
  isOpen := fun _ => rfl
  destroyed := iff_of_false hphase he
  driver := hdriver

theorem Node.stepped_destroy {K : Type} (n : Node K) (m : Meeting) (hph : n.phase = .spinning) :
    n.Stepped (.destroy, m) (n.destroy m) := by
  refine ⟨hph, ?_, rfl, fun hd => absurd rfl hd, iff_of_true rfl rfl, Or.inl rfl⟩
  show (if n.isOpen then setAutoReport false (n.port m) else n.port m).tx = _
  rw [eventTransmits, NodeEvent.frames]
  by_cases hopen : n.isOpen = true
  · rw [if_pos hopen, if_pos hopen]
    exact (writes_send (reportFrame false) (n.port m)).tx
  · rw [if_neg hopen, if_neg hopen]
    exact (List.append_nil n.tx).symm

section
variable {K : Type} [Field K] {t : Trig K}

theorem control_writes (d : Driver K) (p : Port) : Writes p (d.control t p).port [] := by
  unfold Driver.control readData
  cases receiveFrame p.isOpen p.rx with
  | blocked => exact writes_line p p.toLine
  | rejected rx => exact writes_line p _
  | accepted buf rx => exact writes_line p _

/-- What the callback of an event leaves of a node: what its one call leaves, and the node
spinning, or stuck in that call. -/
inductive Node.Callback (t : Trig K) (n : Node K) (m : Meeting) : NodeEvent → Node K → Prop
  | cmdVel (msg : Twist) : n.Callback t m (.cmdVel msg) (n.after (cmdCallback msg (n.port m)))
  | service (req : ServiceRequest) (phase : NodePhase) (responses : List ServiceResponse)
      (hphase : phase ≠ .destroyed) :
      n.Callback t m (.service req) { n.after (handle req (n.port m)).port with
        phase := phase
        responses := responses }
  | waiting (p : Port) (htimer : n.controlTimer = true)
      (hrun : n.driver.control t (n.port m) = .blocked p) :
      n.Callback t m .timer { n.after p with phase := .stuck }
  | timer (driver : Driver K) (p : Port) (htimer : n.controlTimer = true)
      (hrun : n.driver.control t (n.port m) = .done driver p) :
      n.Callback t m .timer { n.after p with driver := driver }
  | destroy : n.Callback t m .destroy (n.destroy m)

theorem Node.callback {n n' : Node K} {e : NodeEvent × Meeting} (h : n.step t e = some n') :
    n.phase = .spinning ∧ n.Callback t e.2 e.1 n' := by
  obtain ⟨e, m⟩ := e
  unfold Node.step at h
  by_cases hph : n.phase = .spinning
  · have hspin : n.phase ≠ .destroyed := by rw [hph]; decide
    refine ⟨hph, ?_⟩
    rw [if_neg (not_not_intro hph)] at h
    cases e with
    | cmdVel msg =>
      cases h
      exact .cmdVel msg
    | service req =>
      have hcallback := Callback.service (t := t) (n := n) (m := m) req
      cases hrun : handle req (n.port m) with
      | blocked p =>
        simp only [hrun] at h hcallback
        cases h
        exact hcallback .stuck n.responses nofun
      | done out p =>
        cases out with
        | returned response =>
          simp only [hrun] at h hcallback
          cases h
          exact hcallback n.phase (n.responses ++ [response]) hspin
        | outOfRange i size =>
          simp only [hrun] at h hcallback
          cases h
          exact hcallback .stuck n.responses nofun
    | timer =>
      by_cases htimer : n.controlTimer = true
      · simp only [htimer, if_true] at h
        cases hrun : n.driver.control t (n.port m) with
        | blocked p =>
          rw [hrun] at h
          cases h
          exact .waiting p htimer hrun
        | done driver p =>
          rw [hrun] at h
          cases h
          exact .timer driver p htimer hrun
      · simp only [htimer] at h
        cases h
    | destroy =>
      cases h
      exact .destroy
  · rw [if_pos hph] at h
    cases h

theorem Node.stepped {n n' : Node K} {e : NodeEvent × Meeting} (h : n.step t e = some n') :
    n.Stepped e n' := by
  obtain ⟨hph, hcallback⟩ := callback h
  obtain ⟨e, m⟩ := e
  have hspin : n.phase ≠ .destroyed := by rw [hph]; decide
  have htimerWrites := control_writes (t := t) n.driver (n.port m)
  cases hcallback with
  | cmdVel msg =>
    exact .of_port (e := .cmdVel msg) n.phase n.responses hph nofun (cmdCallback_writes msg _) hspin
      (Or.inl rfl)
  | service req phase responses hphase =>
    exact .of_port phase responses hph nofun (handle_writes req (n.port m)) hphase (Or.inl rfl)
  | waiting p htimer hrun =>
    rw [hrun] at htimerWrites
    exact .of_port .stuck n.responses hph nofun htimerWrites nofun (Or.inl rfl)
  | timer driver p htimer hrun =>
    rw [hrun] at htimerWrites
    exact .of_port n.phase n.responses hph nofun htimerWrites hspin (Or.inr ⟨rfl, htimer⟩)
  | destroy => exact n.stepped_destroy m hph

/-! ## A whole life -/

/-- Nothing follows the destructor. -/
theorem Node.ended {n n' : Node K} (hph : n.phase = .destroyed) (es : List (NodeEvent × Meeting))
    (h : exec (step t) es n = some n') : es = [] ∧ n' = n := by
  cases es with
  | nil => exact ⟨rfl, (Option.some.inj h).symm⟩
  | cons e es =>
    obtain ⟨n1, h1, -⟩ := exec_cons h
    have hspin := (stepped h1).spinning
    rw [hph] at hspin
    cases hspin

/-- What a run of events leaves of the node. -/
theorem Node.ran (es : List (NodeEvent × Meeting)) (n n' : Node K)
    (h : exec (step t) es n = some n') :
    n'.tx = n.tx ++ es.flatMap (eventTransmits n.isOpen) ∧
      n'.controlTimer = n.controlTimer ∧
      (n.controlTimer = false → n'.driver = n.driver) := by
  induction es generalizing n with
  | nil =>
    cases h
    exact ⟨by simp, rfl, fun _ => rfl⟩
  | cons e es ih =>
    obtain ⟨n1, h1, h2⟩ := exec_cons h
    have hstep := stepped h1
    obtain ⟨htx, htimer, hdriver⟩ := ih n1 h2
    refine ⟨?_, htimer.trans hstep.controlTimer, fun hoff => ?_⟩
    · rw [List.flatMap_cons, ← List.append_assoc, ← hstep.tx]
      by_cases hd : n1.phase = .destroyed
      · obtain ⟨rfl, rfl⟩ := ended hd es h2
        simp
      · rw [htx, hstep.isOpen hd]
    · rw [hdriver (hstep.controlTimer.trans hoff)]
      exact hstep.driver.resolve_right fun hon => by rw [hoff] at hon; cases hon.2

end

/-! ## The constructor -/

/-- Behind a query, and a command perhaps, comes the report command of a driver that starts. -/
theorem construct_startup (p : Port) : ∃ frames,
    Startup .initialized ((construct true p).value?.getD false) frames ∧
      Writes p (construct true p).port frames := by
  unfold construct
  simp only [Bool.not_true, Bool.false_eq_true, if_false]
  have hpower := (isPowerOn_run p).writes
  cases hrun : isPowerOn p with
  | blocked q =>
    rw [hrun] at hpower
    rcases hpower with hone | ⟨htwo, -⟩
    · exact ⟨_, .asked, hone⟩
    · exact ⟨_, .commanded, htwo⟩
  | done report q =>
    rw [hrun] at hpower
    cases hon : report.on with
    | false =>
      simp only [Result.bind, hon, Bool.false_eq_true, if_false]
      rcases hpower with hone | ⟨htwo, -⟩
      · exact ⟨_, .asked, hone⟩
      · exact ⟨_, .commanded, htwo⟩
    | true =>
      simp only [Result.bind, hon, if_true]
      have hreport : Writes q (setAutoReport true q) [reportFrame true] := writes_send _ q
      rcases hpower with hone | ⟨htwo, -⟩
      · exact ⟨_, .running, hone.trans hreport⟩
      · exact ⟨_, .started, htwo.trans hreport⟩

/-- What the constructor leaves. -/
structure Node.Launched {K : Type} [Field K] (q : Parameters) (start : SerialStart) (m : Meeting)
    (n : Node K) : Prop where
  startup : ∃ frames, Startup start n.controlTimer frames ∧
    n.tx = transmits (start != .openFailed) m.throwsAt frames
  isOpen : n.isOpen = (start != .openFailed)
  alive : n.phase ≠ .destroyed
  driver : n.driver = .construct (q.scoped q.odometryFrameId)
    (q.scoped q.odometryChildFrameId) (m.clock 0)

theorem Node.launched {K : Type} [Field K] (q : Parameters) (start : SerialStart) (m : Meeting) :
    (Node.launch q start m : Node K).Launched q start m := by
  unfold launch
  extract_lets n
  cases start with
  | openFailed => exact ⟨⟨_, .openFailed, rfl⟩, rfl, nofun, rfl⟩
  | setupFailed => exact ⟨⟨_, .setupFailed, rfl⟩, rfl, nofun, rfl⟩
  | initialized =>
    obtain ⟨frames, hstartup, hwrites⟩ :=
      construct_startup (n.port { m with clock := fun i => m.clock (i + 1) })
    have htx := hwrites.tx
    rw [show (SerialStart.initialized == .initialized) = true from rfl]
    cases hrun : construct true (n.port { m with clock := fun i => m.clock (i + 1) }) with
    | blocked p =>
      rw [hrun] at hstartup htx
      exact ⟨⟨frames, hstartup, htx⟩, rfl, nofun, rfl⟩
    | done timer p =>
      rw [hrun] at hstartup htx
      exact ⟨⟨frames, hstartup, htx⟩, rfl, nofun, rfl⟩

/-! ## The record -/

section
variable {K : Type} [Field K] {t : Trig K} {q : Parameters} {start : SerialStart} {m : Meeting}
  {es : List (NodeEvent × Meeting)} {n : Node K}

/-- Behind the startup stand the frames the events call for. -/
theorem tx_eq (h : exec (Node.step t) es (Node.launch q start m) = some n) :
    ∃ startup, Startup start n.controlTimer startup ∧
      n.tx = transmits (start != .openFailed) m.throwsAt startup ++
        es.flatMap (eventTransmits (start != .openFailed)) := by
  have hlaunch := Node.launched (K := K) q start m
  obtain ⟨startup, hstartup, hlaunched⟩ := hlaunch.startup
  obtain ⟨htx, htimer, -⟩ := Node.ran es _ n h
  refine ⟨startup, htimer ▸ hstartup, ?_⟩
  rw [htx, hlaunch.isOpen, hlaunched]

theorem map_frame_events (isOpen : Bool) (es : List (NodeEvent × Meeting)) :
    (es.flatMap (eventTransmits isOpen)).map Transmit.frame =
      (es.map Prod.fst).flatMap (NodeEvent.frames isOpen) := by
  rw [List.map_flatMap, List.flatMap_map]
  exact List.flatMap_congr fun e _ => map_frame_transmits _ _ _

theorem mem_transmits {isOpen : Bool} {throwsAt : Nat → Option Nat} {fs : List (List UInt8)}
    {w : Transmit} (h : w ∈ transmits isOpen throwsAt fs) :
    w.frame ∈ fs ∧ ∃ i, w.sent = bytesOut isOpen (throwsAt i) w.frame.length := by
  induction fs generalizing throwsAt with
  | nil => cases h
  | cons f fs ih =>
    rcases List.mem_cons.mp h with rfl | h
    · exact ⟨List.mem_cons_self, 0, rfl⟩
    · obtain ⟨hmem, i, hsent⟩ := ih h
      exact ⟨List.mem_cons_of_mem f hmem, i + 1, hsent⟩

/-- The commands of the driver, with the values their fields may take. -/
inductive Permitted : List UInt8 → Prop
  | query : Permitted (buildSerialFrame getPowerState [])
  | powerOn : Permitted (buildSerialFrame powerOn [])
  | report (enable : Bool) : Permitted (reportFrame enable)
  | velocity (x y rot : Int) (hx : |x| ≤ 150) (hy : |y| ≤ 100) (hrot : |rot| ≤ 100) :
      Permitted (buildSerialFrame 0x21 (be16Bytes x ++ be16Bytes y ++ be16Bytes rot ++ [0, 0]))
  | output (pin state : UInt8) (hlo : 1 ≤ pin.toNat) (hhi : pin.toNat ≤ 6) :
      Permitted (buildSerialFrame setOutputIo [pin, state])
  | input (pin : UInt8) (hlo : 1 ≤ pin.toNat) (hhi : pin.toNat ≤ 6) :
      Permitted (buildSerialFrame getInputIo [pin])
  | ledColor (position brightness r g b : UInt8) (hposition : position.toNat ≤ 1) :
      Permitted (buildSerialFrame setLedColor [position, brightness, r, g, b])
  | ledMode (mode : UInt8) (hmode : mode.toNat ≤ 1) : Permitted (buildSerialFrame setLedMode [mode])

theorem crcOk_buildSerialFrame (cmdId : UInt8) (payload : List UInt8) :
    crcOk 12 (buildSerialFrame cmdId payload) = true := by
  have hlen : (replyHeader cmdId ++ payload.take 8 ++
      List.replicate (8 - payload.length) 0).length = 12 := by
    simp
    omega
  have hcrc := crcOk_withCrc (replyHeader cmdId ++ payload.take 8 ++
    List.replicate (8 - payload.length) 0)
  rwa [hlen, ← buildSerialFrame_eq] at hcrc

/-- Every command is a frame the device's own test accepts. -/
theorem Permitted.wellFormed {f : List UInt8} (h : Permitted f) :
    f.length = 14 ∧ [0xFE, 0xFE, 0x0B] <+: f ∧ crcOk 12 f = true := by
  have hbuild : ∀ cmdId payload, (buildSerialFrame cmdId payload).length = 14 ∧
      [0xFE, 0xFE, 0x0B] <+: buildSerialFrame cmdId payload ∧
      crcOk 12 (buildSerialFrame cmdId payload) = true := fun cmdId payload =>
    ⟨length_buildSerialFrame cmdId payload, ⟨_, rfl⟩, crcOk_buildSerialFrame cmdId payload⟩
  cases h <;> exact hbuild _ _

theorem abs_hundredths_le (v b : ℚ) (n : Nat) (hb : 100 * b = n) :
    |hundredths v (-b) b| ≤ n := by
  have hn : (0 : ℚ) ≤ n := Nat.cast_nonneg n
  obtain ⟨hlo, hhi⟩ := clamp_bounds v (-b) b (by linarith)
  have hle : hundredths v (-b) b ≤ trunc ((n : Int) : ℚ) := trunc_le_trunc (by push_cast; linarith)
  have hge : trunc ((-n : Int) : ℚ) ≤ hundredths v (-b) b := trunc_le_trunc (by push_cast; linarith)
  rw [trunc_intCast] at hle hge
  exact abs_le.mpr ⟨hge, hle⟩

theorem permitted_cmdFrame (msg : Twist) : Permitted (cmdFrame msg) := by
  rw [cmdFrame_eq_build]
  refine .velocity _ _ _ ?_ ?_ ?_
  · rw [show (-3/2 : ℚ) = -(3/2) from by norm_num]
    exact abs_hundredths_le _ _ 150 (by norm_num)
  · exact abs_hundredths_le _ _ 100 (by norm_num)
  · exact abs_hundredths_le _ _ 100 (by norm_num)

theorem permitted_service (req : ServiceRequest) (hr : req.rejects = false) :
    Permitted (buildSerialFrame req.cmdId req.payload) := by
  cases req with
  | setDigitalOutput r =>
    have hpin := mt (rejects_pin_iff r.pin).mpr (by simpa [ServiceRequest.rejects] using hr)
    have hbyte := toNat_toByte r.pin
    exact .output _ _ (by omega) (by omega)
  | getDigitalInput r =>
    have hpin := mt (rejects_pin_iff r.pin).mpr (by simpa [ServiceRequest.rejects] using hr)
    have hbyte := toNat_toByte r.pin
    exact .input _ (by omega) (by omega)
  | setLedColor r =>
    have hrange := (inRange_of_accepts_led r hr).1
    have hbyte := toNat_toByte r.position
    exact .ledColor _ _ _ _ _ (by omega)
  | setLedMode r =>
    refine .ledMode _ ?_
    cases r.mode <;> decide

theorem permitted_event {isOpen : Bool} {e : NodeEvent} {f : List UInt8}
    (h : f ∈ e.frames isOpen) : Permitted f := by
  cases e with
  | cmdVel msg =>
    rw [List.mem_singleton.mp h]
    exact permitted_cmdFrame msg
  | service req =>
    simp only [NodeEvent.frames] at h
    by_cases hr : req.rejects = true
    · rw [if_pos hr] at h
      exact (List.not_mem_nil h).elim
    · rw [if_neg hr] at h
      rw [List.mem_singleton.mp h]
      exact permitted_service req (Bool.eq_false_of_not_eq_true hr)
  | timer => exact (List.not_mem_nil h).elim
  | destroy =>
    simp only [NodeEvent.frames] at h
    by_cases hopen : isOpen = true
    · rw [if_pos hopen] at h
      rw [List.mem_singleton.mp h]
      exact .report false
    · rw [if_neg hopen] at h
      exact (List.not_mem_nil h).elim

theorem permitted_startup {timer : Bool} {startup : List (List UInt8)}
    (h : Startup start timer startup) : ∀ f ∈ startup, Permitted f := by
  cases h <;>
    simp [Permitted.query, Permitted.powerOn, Permitted.report]

/-- The port opens, and no write throws. -/
def Unfailing (start : SerialStart) (m : Meeting) (es : List (NodeEvent × Meeting)) : Prop :=
  start ≠ .openFailed ∧ ∀ m' ∈ m :: es.map Prod.snd, ∀ i, m'.throwsAt i = none

/-- Every write of a run is one of a permitted frame, in the startup or a callback. -/
theorem life_write (h : exec (Node.step t) es (Node.launch q start m) = some n) {w : Transmit}
    (hw : w ∈ n.tx) :
    Permitted w.frame ∧ ∃ m' ∈ m :: es.map Prod.snd, ∃ i,
      w.sent = bytesOut (start != .openFailed) (m'.throwsAt i) w.frame.length := by
  obtain ⟨startup, hstartup, htx⟩ := tx_eq h
  rw [htx] at hw
  rcases List.mem_append.mp hw with hw | hw
  · obtain ⟨hframe, hsent⟩ := mem_transmits hw
    exact ⟨permitted_startup hstartup _ hframe, m, List.mem_cons_self, hsent⟩
  · obtain ⟨e, he, hw⟩ := List.mem_flatMap.mp hw
    obtain ⟨hframe, hsent⟩ := mem_transmits hw
    exact ⟨permitted_event hframe, e.2, List.mem_cons_of_mem _ (List.mem_map_of_mem he), hsent⟩

/-- **Nothing else goes out.**  Whatever is asked of the node, every frame handed to `write`
is one of its commands, complete, with its fields in range and the CRC right; at most its
14 bytes go out, and all of them where no write fails. -/
theorem life_permitted (h : exec (Node.step t) es (Node.launch q start m) = some n) :
    ∀ w ∈ n.tx, Permitted w.frame ∧
      (w.frame.length = 14 ∧ [0xFE, 0xFE, 0x0B] <+: w.frame ∧ crcOk 12 w.frame = true) ∧
      w.sent ≤ 14 ∧ (Unfailing start m es → w.sent = 14) := by
  intro w hw
  obtain ⟨hpermitted, m', hm', i, hsent⟩ := life_write h hw
  have hformed := hpermitted.wellFormed
  rw [hformed.1] at hsent
  refine ⟨hpermitted, hformed, ?_, fun ⟨hopen, hnone⟩ => ?_⟩
  · rw [hsent]
    exact bytesOut_le _ _ _
  · rw [hsent, bytesOut_eq_iff (by decide)]
    exact ⟨bne_iff_ne.mpr hopen, hnone m' hm' i⟩

/-! ## Velocities -/

def isVelocity (f : List UInt8) : Bool := f.getD 3 0 == 0x21

/-- The velocity frames handed to `write`. -/
def Node.velocities {K : Type} (n : Node K) : List Transmit :=
  n.tx.filter fun w => isVelocity w.frame

/-- The Twists among the events, each with what its callback meets. -/
def commands (es : List (NodeEvent × Meeting)) : List (Twist × Meeting) :=
  es.filterMap fun e => match e.1 with
    | .cmdVel msg => some (msg, e.2)
    | _ => none

/-- The write of a Twist. -/
def velocityTransmit (isOpen : Bool) (c : Twist × Meeting) : Transmit :=
  ⟨cmdFrame c.1, bytesOut isOpen (c.2.throwsAt 0) 14⟩

theorem velocityTransmit_whole (start : SerialStart) (c : Twist × Meeting) :
    (velocityTransmit (start != .openFailed) c).sent = 14 ↔
      start ≠ .openFailed ∧ c.2.throwsAt 0 = none := by
  show bytesOut _ _ _ = 14 ↔ _
  rw [bytesOut_eq_iff (by decide), bne_iff_ne]

theorem velocities_startup {isOpen timer : Bool} {throwsAt : Nat → Option Nat}
    {startup : List (List UInt8)} (h : Startup start timer startup) :
    (transmits isOpen throwsAt startup).filter (fun w => isVelocity w.frame) = [] := by
  cases h <;> rfl

theorem velocities_event (isOpen : Bool) (e : NodeEvent × Meeting) :
    (eventTransmits isOpen e).filter (fun w => isVelocity w.frame) =
      (commands [e]).map (velocityTransmit isOpen) := by
  obtain ⟨e, m⟩ := e
  cases e with
  | cmdVel msg => rfl
  | service req =>
    have hservice : isVelocity (buildSerialFrame req.cmdId req.payload) = false := by
      cases req <;> rfl
    show (transmits isOpen m.throwsAt (if req.rejects then [] else _)).filter _ = []
    split
    · rfl
    · simp [transmits, hservice]
  | timer => rfl
  | destroy =>
    have hreport : isVelocity (reportFrame false) = false := rfl
    show (transmits isOpen m.throwsAt (if isOpen then _ else [])).filter _ = []
    split
    · simp [transmits, hreport]
    · rfl

theorem velocities_events (isOpen : Bool) (es : List (NodeEvent × Meeting)) :
    (es.flatMap (eventTransmits isOpen)).filter (fun w => isVelocity w.frame) =
      (commands es).map (velocityTransmit isOpen) := by
  induction es with
  | nil => rfl
  | cons e es ih =>
    rw [List.flatMap_cons, List.filter_append, ih, velocities_event, ← List.map_append,
      commands, commands, ← List.filterMap_append]
    rfl

/-- One write for each Twist, and no other velocity. -/
theorem velocities_life (h : exec (Node.step t) es (Node.launch q start m) = some n) :
    n.velocities = (commands es).map (velocityTransmit (start != .openFailed)) := by
  obtain ⟨startup, hstartup, htx⟩ := tx_eq h
  unfold Node.velocities
  rw [htx, List.filter_append, velocities_startup hstartup, velocities_events]
  rfl

/-- **Velocities.**  The velocity frames handed to `write` are those of the Twists received,
each once and in order, whole where the write does not fail: nothing in the node, the
destructor included, ever sends a velocity of its own, so the last Twist stays in force. -/
theorem velocities_eq (h : exec (Node.step t) es (Node.launch q start m) = some n) :
    n.velocities = (commands es).map (velocityTransmit (start != .openFailed)) ∧
      ∀ msg m', (commands es).getLast? = some (msg, m') →
        ∃ w, n.velocities.getLast? = some w ∧
          (signedAt w.frame 4 = hundredths msg.linear.x (-3/2) (3/2) ∧
            signedAt w.frame 6 = hundredths msg.linear.y (-1) 1 ∧
            signedAt w.frame 8 = hundredths msg.angular.z (-1) 1) ∧
          (w.sent = 14 ↔ start ≠ .openFailed ∧ m'.throwsAt 0 = none) := by
  have hvelocities := velocities_life h
  refine ⟨hvelocities, fun msg m' hlast => ⟨velocityTransmit _ (msg, m'), ?_,
    signedAt_cmdFrame msg, velocityTransmit_whole start (msg, m')⟩⟩
  rw [hvelocities, List.getLast?_map, hlast]
  rfl

/-! ## Power and reports -/

/-- A run ends in the destructor or does not meet it. -/
theorem Node.ending (es : List (NodeEvent × Meeting)) (n n' : Node K) (hn : n.phase ≠ .destroyed)
    (h : exec (Node.step t) es n = some n') :
    n'.phase ≠ .destroyed ∧ (∀ e ∈ es, e.1 ≠ .destroy) ∨
      n'.phase = .destroyed ∧ ∃ es' m, es = es' ++ [(.destroy, m)] ∧ ∀ e ∈ es', e.1 ≠ .destroy := by
  induction es generalizing n with
  | nil =>
    cases h
    exact Or.inl ⟨hn, fun e he => (List.not_mem_nil he).elim⟩
  | cons e es ih =>
    obtain ⟨n1, h1, h2⟩ := exec_cons h
    have hstep := stepped h1
    by_cases hd : n1.phase = .destroyed
    · obtain ⟨rfl, rfl⟩ := ended hd es h2
      obtain ⟨e, m⟩ := e
      obtain rfl := hstep.destroyed.mp hd
      exact Or.inr ⟨hd, [], m, rfl, fun e he => (List.not_mem_nil he).elim⟩
    · have he : e.1 ≠ .destroy := fun he => hd (hstep.destroyed.mpr he)
      rcases ih n1 hd h2 with ⟨hlive, hes⟩ | ⟨hdead, es', m', rfl, hes⟩
      · exact Or.inl ⟨hlive, List.forall_mem_cons.mpr ⟨he, hes⟩⟩
      · exact Or.inr ⟨hdead, e :: es', m', rfl, List.forall_mem_cons.mpr ⟨he, hes⟩⟩

/-- The commands that callbacks send. -/
def callbackCommands : List UInt8 := [0x21, setLedColor, setLedMode, setOutputIo, getInputIo]

theorem callback_command {isOpen : Bool} {e : NodeEvent} (he : e ≠ .destroy) {f : List UInt8}
    (hf : f ∈ e.frames isOpen) : f.getD 3 0 ∈ callbackCommands := by
  cases e with
  | cmdVel msg =>
    rw [List.mem_singleton.mp hf]
    exact List.mem_cons_self
  | service req =>
    simp only [NodeEvent.frames] at hf
    by_cases hr : req.rejects = true
    · rw [if_pos hr] at hf
      exact (List.not_mem_nil hf).elim
    · rw [if_neg hr] at hf
      rw [List.mem_singleton.mp hf]
      show req.cmdId ∈ callbackCommands
      cases req <;> simp [callbackCommands, ServiceRequest.cmdId]
  | timer => exact (List.not_mem_nil hf).elim
  | destroy => exact absurd rfl he

/-- What the callbacks write, the destructor left aside. -/
def callbackFrames (isOpen : Bool) (es : List (NodeEvent × Meeting)) : List (List UInt8) :=
  ((es.map Prod.fst).filter fun e => match e with
    | .destroy => false
    | _ => true).flatMap (NodeEvent.frames isOpen)

theorem callbackFrames_eq (isOpen : Bool) {es : List (NodeEvent × Meeting)}
    (hes : ∀ e ∈ es, e.1 ≠ .destroy) :
    callbackFrames isOpen es = (es.map Prod.fst).flatMap (NodeEvent.frames isOpen) := by
  unfold callbackFrames
  rw [List.filter_eq_self.mpr]
  intro e he
  obtain ⟨e', he', rfl⟩ := List.mem_map.mp he
  have hne := hes e' he'
  cases hfst : e'.1 with
  | destroy => exact absurd hfst hne
  | cmdVel msg => rfl
  | service req => rfl
  | timer => rfl

theorem callbackFrames_command {isOpen : Bool} {es : List (NodeEvent × Meeting)} {f : List UInt8}
    (hf : f ∈ callbackFrames isOpen es) : f.getD 3 0 ∈ callbackCommands := by
  obtain ⟨e, he, hf⟩ := List.mem_flatMap.mp hf
  refine callback_command (fun hd => ?_) hf
  subst hd
  exact absurd (List.mem_filter.mp he).2 (by simp)

/-- **The record.**  The frames handed to `write` are the startup, those the events call for,
in order, and the command that turns the reports off if the node was destroyed with its
port open: the bytes that arrive, the clock and failing writes have no part in which frames
these are.  Each goes out as far as its own write gets.  Power and report commands stand
nowhere else, and without the Control timer nothing is published. -/
theorem life_trace (h : exec (Node.step t) es (Node.launch q start m) = some n) :
    (∃ startup, Startup start n.controlTimer startup ∧
      n.handed = startup ++ callbackFrames (start != .openFailed) es ++
        (if n.phase = .destroyed ∧ start ≠ .openFailed then [reportFrame false] else []) ∧
      n.tx = transmits (start != .openFailed) m.throwsAt startup ++
        es.flatMap (eventTransmits (start != .openFailed))) ∧
    (∀ f ∈ callbackFrames (start != .openFailed) es, f.getD 3 0 ∈ callbackCommands) ∧
    (n.controlTimer = false → n.driver.published = []) := by
  have hlaunch := Node.launched (K := K) q start m
  obtain ⟨startup, hstartup, htx⟩ := tx_eq h
  obtain ⟨-, htimer, hdriver⟩ := Node.ran es _ n h
  have hhanded : n.handed = startup ++
      (es.map Prod.fst).flatMap (NodeEvent.frames (start != .openFailed)) := by
    unfold Node.handed
    rw [htx, List.map_append, map_frame_transmits, map_frame_events]
  refine ⟨⟨startup, hstartup, ?_, htx⟩, fun f hf => callbackFrames_command hf, fun hoff => ?_⟩
  · rcases Node.ending es _ n hlaunch.alive h with ⟨hlive, hes⟩ | ⟨hdead, es', m', rfl, hes⟩
    · rw [hhanded, callbackFrames_eq _ hes, if_neg fun hd => hlive hd.1, List.append_nil]
    · have hcallbacks : callbackFrames (start != .openFailed) (es' ++ [(.destroy, m')]) =
          callbackFrames (start != .openFailed) es' := by
        simp [callbackFrames]
      rw [hhanded, hcallbacks, callbackFrames_eq _ hes, List.map_append, List.flatMap_append,
        ← List.append_assoc]
      congr 1
      cases start with
      | openFailed => simp [NodeEvent.frames]
      | setupFailed => simp [NodeEvent.frames, hdead]
      | initialized => simp [NodeEvent.frames, hdead]
  · rw [hdriver (htimer.symm.trans hoff), hlaunch.driver]
    rfl

end

/-! ## A short life -/

/-- The device is running, telemetry comes, an output is set. -/
def quietMeeting (arrived : List RxEvent) : Meeting := ⟨arrived, fun _ => seconds 4, fun _ => 1,
  fun _ => none⟩

/-- Status 1 to the power query. -/
def runningReply : ReplyFrame := ⟨getPowerState, 1 :: List.replicate 7 0, rfl⟩

def shortLife : List (NodeEvent × Meeting) :=
  [(.cmdVel { linear := { x := 9 } }, quietMeeting []),
    (.timer, quietMeeting (onWire turningTelemetry.bytes)),
    (.service (.setDigitalOutput ⟨1, 1⟩), quietMeeting (onWire (buildSerialFrame setOutputIo [1]))),
    (.destroy, quietMeeting [])]

def runningLaunch : Meeting := quietMeeting (onWire runningReply.bytes)

theorem shortLife_runs : ∃ n : Node ℚ,
    exec (Node.step flatTrig) shortLife (Node.launch {} .initialized runningLaunch) = some n ∧
      n.tx.length = 5 ∧ n.driver.published.length = 4 := by
  have hrun : (exec (Node.step flatTrig) shortLife
      (Node.launch {} .initialized runningLaunch)).map
        (fun n => (n.tx.length, n.driver.published.length)) = some (5, 4) := by
    decide +kernel
  obtain ⟨n, h, hlen⟩ := Option.map_eq_some_iff.mp hrun
  exact ⟨n, h, Prod.mk.inj hlen⟩

theorem life_permitted_short : ∃ n : Node ℚ, n.tx.length = 5 ∧
    ∀ w ∈ n.tx, Permitted w.frame ∧
      (w.frame.length = 14 ∧ [0xFE, 0xFE, 0x0B] <+: w.frame ∧ crcOk 12 w.frame = true) ∧
      w.sent = 14 := by
  obtain ⟨n, h, hlen, -⟩ := shortLife_runs
  refine ⟨n, hlen, fun w hw => ?_⟩
  obtain ⟨hpermitted, hformed, -, hwhole⟩ := life_permitted h w hw
  refine ⟨hpermitted, hformed, hwhole ⟨by decide, ?_⟩⟩
  simp [shortLife, runningLaunch, quietMeeting]

/-- The one Twist, cut to 1.5 m/s. -/
theorem velocities_eq_short : ∃ n : Node ℚ,
    n.velocities = [⟨cmdFrame { linear := { x := 9 } }, 14⟩] ∧
      ∃ w, n.velocities.getLast? = some w ∧ signedAt w.frame 4 = 150 ∧ w.sent = 14 := by
  obtain ⟨n, h, -⟩ := shortLife_runs
  obtain ⟨hall, hlast⟩ := velocities_eq h
  obtain ⟨w, hw, ⟨hx, -⟩, hwhole⟩ := hlast { linear := { x := 9 } } (quietMeeting []) rfl
  exact ⟨n, hall, w, hw, hx.trans (by decide +kernel), hwhole.mpr ⟨by decide, rfl⟩⟩

theorem life_trace_short : ∃ n : Node ℚ,
    (∃ startup, Startup .initialized n.controlTimer startup ∧
      n.handed = startup ++ callbackFrames true shortLife ++
        (if n.phase = .destroyed ∧ SerialStart.initialized ≠ .openFailed then [reportFrame false]
        else []) ∧
      n.tx = transmits true runningLaunch.throwsAt startup ++
        shortLife.flatMap (eventTransmits true)) ∧
    (∀ f ∈ callbackFrames true shortLife, f.getD 3 0 ∈ callbackCommands) ∧
    (n.controlTimer = false → n.driver.published = []) := by
  obtain ⟨n, h, -⟩ := shortLife_runs
  exact ⟨n, life_trace h⟩

end AgvPro
