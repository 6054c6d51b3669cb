import AgvPro.Base.ReaderSpec

/-!
# Powering up: `is_power_on` and the constructor

`is_power_on` asks for the power state.  On status 0 it sends `POWER_ON`, sleeps a second
and looks at the status of the reply, of which only 1 counts; any other status of the first
reply counts as running.  The constructor turns the reports on and creates the Control
timer if it returned true.

    POWER_ON once and only after status 0, the driver only after is_power_on,
    is_power_on only after status 1
      ↔ a valid first reply carries status 0 or 1                 (powerGate_iff)
-/

namespace AgvPro

def powerOn : UInt8 := 0x10
def getPowerState : UInt8 := 0x12

/-! ## The exchanges -/

def Result.bind {α β : Type} : Result α → (α → Port → Result β) → Result β
  | .done a p, f => f a p
  | .blocked p, _ => .blocked p

/-- What `is_power_on` returns, and the message it logs last. -/
structure PowerReport where
  on : Bool
  statusMsg : String := ""
deriving DecidableEq

/-- The checks both replies get: size, CRC, and byte 4 as a signed status. -/
def replyStatus (response : List UInt8) : Option Int :=
  if response.length ≠ 14 then none
  else if !crcOk 12 response then none
  else some (response.getD 4 0).toInt8.toInt

/-- The switch on the status of the `POWER_ON` reply. -/
def powerStatus : Int → PowerReport
  | 1 => ⟨true, "Motor is operating normally."⟩
  | 2 => ⟨false, "Emergency stop button is not released."⟩
  | 3 => ⟨false, "Battery voltage is below 19.5V."⟩
  | 4 => ⟨false, "CAN initialization error."⟩
  | 5 => ⟨false, "Motor initialization error."⟩
  | _ => ⟨false, "Unknown power status code"⟩

/-- The verdict on the `POWER_ON` reply. -/
def commandReport (response : List UInt8) : PowerReport :=
  match replyStatus response with
  | none => ⟨false, ""⟩
  | some status => powerStatus status

/-- The port with the power query written. -/
def askPowerState (p : Port) : Port := sendSerialFrame (buildSerialFrame getPowerState []) p

/-- The port with the `POWER_ON` command written; the sleep moves nothing on it. -/
def sendPowerOn (p : Port) : Port := sendSerialFrame (buildSerialFrame powerOn []) p

def isPowerOn (p : Port) : Result PowerReport :=
  (readSerialResponse (replyHeader getPowerState) 8 (seconds 12) (askPowerState p)).bind
    fun response p =>
      match replyStatus response with
      | none => .done ⟨false, ""⟩ p
      | some status =>
        if status = 0 then
          (readSerialResponse (replyHeader powerOn) 8 (seconds 5) (sendPowerOn p)).map commandReport
        else .done ⟨true, "Motor is operating normally."⟩ p

def setAutoReport (enable : Bool) (p : Port) : Port :=
  sendSerialFrame (buildSerialFrame 0x23 [if enable then 1 else 0]) p

/-- The end of the constructor: whether it creates the Control timer.  `initialized` says
that the try block that opens the port got through. -/
def construct (initialized : Bool) (p : Port) : Result Bool :=
  if !initialized then .done false p
  else (isPowerOn p).bind fun report p =>
    if report.on then .done true (setAutoReport true p) else .done false p

/-! ## What is read and written -/

/-- The frames written between two states of the port. -/
def written (p q : Port) : List (List UInt8) := (q.tx.drop p.tx.length).map Transmit.frame

/-- A 14-byte reply to one of the two power commands, its CRC valid. -/
structure PowerReply (w : List UInt8) (status : Int) : Prop where
  header : replyHeader getPowerState <+: w ∨ replyHeader powerOn <+: w
  status : replyStatus w = some status

/-- The bytes taken between two states of the port end in a power reply with this status. -/
def LastReply (p q : Port) (status : Int) : Prop :=
  ∃ bs w, p.rx = onWire (bs ++ w) ++ q.rx ∧ PowerReply w status

/-- The gate in front of the motors and the driver. -/
structure PowerGate (p : Port) : Prop where
  once : ∀ initialized,
    (written p (construct initialized p).port).count (buildSerialFrame powerOn []) ≤ 1
  asked : ∀ initialized,
    buildSerialFrame powerOn [] ∈ written p (construct initialized p).port →
      ∃ v q, readSerialResponse (replyHeader getPowerState) 8 (seconds 12) (askPowerState p) =
          .done v q ∧
        replyStatus v = some 0 ∧ buildSerialFrame powerOn [] ∉ written p q
  started : ∀ initialized,
    (construct initialized p).value? = some true ∨
      buildSerialFrame 0x23 [1] ∈ written p (construct initialized p).port →
        ∃ report q, isPowerOn p = .done report q ∧ report.on = true
  normal : ∀ report q, isPowerOn p = .done report q → report.on = true → LastReply p q 1

/-- The whole reply to the query is there in time and passes the checks, with this status. -/
def FirstStatus (p : Port) (status : Int) : Prop :=
  ∃ v q, AnsweredWith (replyHeader getPowerState) 8 (seconds 12) (askPowerState p) v q ∧
    replyStatus v = some status

/-! ## Runs -/

/-- The ways through `is_power_on`. -/
inductive PowerRun (p : Port) : Result PowerReport → Prop
  | waiting (q : Port)
      (hread : readSerialResponse (replyHeader getPowerState) 8 (seconds 12) (askPowerState p) =
        .blocked q) :
      PowerRun p (.blocked q)
  | refused (v : List UInt8) (q : Port)
      (hread : readSerialResponse (replyHeader getPowerState) 8 (seconds 12) (askPowerState p) =
        .done v q)
      (hstatus : replyStatus v = none) :
      PowerRun p (.done ⟨false, ""⟩ q)
  | running (v : List UInt8) (q : Port) (status : Int)
      (hread : readSerialResponse (replyHeader getPowerState) 8 (seconds 12) (askPowerState p) =
        .done v q)
      (hstatus : replyStatus v = some status) (hne : status ≠ 0) :
      PowerRun p (.done ⟨true, "Motor is operating normally."⟩ q)
  | commanded (v : List UInt8) (q : Port) (r : Result PowerReport)
      (hread : readSerialResponse (replyHeader getPowerState) 8 (seconds 12) (askPowerState p) =
        .done v q)
      (hstatus : replyStatus v = some 0)
      (hr : r = (readSerialResponse (replyHeader powerOn) 8 (seconds 5) (sendPowerOn q)).map
        commandReport) :
      PowerRun p r

theorem isPowerOn_run (p : Port) : PowerRun p (isPowerOn p) := by
  unfold isPowerOn
  cases hread : readSerialResponse (replyHeader getPowerState) 8 (seconds 12) (askPowerState p) with
  | blocked q => exact .waiting q hread
  | done v q =>
    simp only [Result.bind]
    cases hstatus : replyStatus v with
    | none => exact .refused v q hread hstatus
    | some status =>
      by_cases hzero : status = 0
      · subst hzero
        simp only [if_true]
        exact .commanded v q _ hread hstatus rfl
      · simp only [hzero, if_false]
        exact .running v q status hread hstatus hzero

/-! ## Writes -/

theorem Writes.written_eq {p q : Port} {frames : List (List UInt8)} (h : Writes p q frames) :
    written p q = frames := by
  unfold written
  rw [h.tx, List.drop_left, map_frame_transmits]

/-- The query, and the reply read. -/
theorem writes_query (p : Port) :
    Writes p (readSerialResponse (replyHeader getPowerState) 8 (seconds 12) (askPowerState p)).port
      [buildSerialFrame getPowerState []] :=
  (writes_send _ p).trans (writes_read (replyHeader_ne_nil _) _ _ _)

/-- A reply of status 0 has been read when the command is written. -/
def Asked (p : Port) : Prop :=
  ∃ v q, readSerialResponse (replyHeader getPowerState) 8 (seconds 12) (askPowerState p) =
      .done v q ∧ replyStatus v = some 0 ∧ Writes p q [buildSerialFrame getPowerState []]

/-- `is_power_on` writes its query, and the command behind a reply of status 0. -/
theorem PowerRun.writes {p : Port} {r : Result PowerReport} (h : PowerRun p r) :
    Writes p r.port [buildSerialFrame getPowerState []] ∨
      Writes p r.port [buildSerialFrame getPowerState [], buildSerialFrame powerOn []] ∧
        Asked p := by
  have hquery := writes_query p
  cases h with
  | waiting q hread =>
    rw [hread] at hquery
    exact Or.inl hquery
  | refused v q hread hstatus =>
    rw [hread] at hquery
    exact Or.inl hquery
  | running v q status hread hstatus hne =>
    rw [hread] at hquery
    exact Or.inl hquery
  | commanded v q r hread hstatus hr =>
    rw [hread] at hquery
    rw [hr, Result.port_map]
    exact Or.inr ⟨hquery.trans ((writes_send _ q).trans (writes_read (replyHeader_ne_nil _) _ _ _)),
      v, q, hread, hstatus, hquery⟩

/-- The constructor adds nothing to that, or the report command if `is_power_on` said yes. -/
theorem construct_writes (initialized : Bool) (p : Port) :
    Writes p (construct initialized p).port [] ∧ (construct initialized p).value? ≠ some true ∨
      ∃ frames, Writes p (isPowerOn p).port frames ∧
        (Writes p (construct initialized p).port frames ∧
            (construct initialized p).value? ≠ some true ∨
          Writes p (construct initialized p).port (frames ++ [buildSerialFrame 0x23 [1]]) ∧
            ∃ report q, isPowerOn p = .done report q ∧ report.on = true) := by
  unfold construct
  cases initialized with
  | false => exact Or.inl ⟨writes_line p p.toLine, by simp [Result.value?]⟩
  | true =>
    refine Or.inr ?_
    obtain ⟨frames, hframes⟩ : ∃ frames, Writes p (isPowerOn p).port frames := by
      rcases (isPowerOn_run p).writes with h | ⟨h, -⟩
      · exact ⟨_, h⟩
      · exact ⟨_, h⟩
    refine ⟨frames, hframes, ?_⟩
    cases hrun : isPowerOn p with
    | blocked q =>
      rw [hrun] at hframes
      exact Or.inl ⟨hframes, by simp [Result.bind, Result.value?]⟩
    | done report q =>
      rw [hrun] at hframes
      cases hon : report.on with
      | false =>
        simp only [Bool.not_true, Bool.false_eq_true, if_false, Result.bind, hon]
        exact Or.inl ⟨hframes, by simp [Result.value?]⟩
      | true =>
        simp only [Bool.not_true, Bool.false_eq_true, if_false, Result.bind, hon, if_true]
        exact Or.inr ⟨hframes.trans (writes_send _ q), report, q, rfl, hon⟩

/-- Frames of different commands are different. -/
theorem buildSerialFrame_ne {c c' : UInt8} (h : c ≠ c') (payload payload' : List UInt8) :
    buildSerialFrame c payload ≠ buildSerialFrame c' payload' := by
  intro heq
  exact h (congrArg (fun frame => frame.getD 3 0) heq)

/-- What `is_power_on` writes holds at most one command and no report frame. -/
theorem PowerRun.frames {p : Port} {r : Result PowerReport} (h : PowerRun p r)
    {frames : List (List UInt8)} (hw : Writes p r.port frames) :
    frames.count (buildSerialFrame powerOn []) ≤ 1 ∧ buildSerialFrame 0x23 [1] ∉ frames ∧
      (buildSerialFrame powerOn [] ∈ frames → Asked p) := by
  have hquery : buildSerialFrame getPowerState [] ≠ buildSerialFrame powerOn [] :=
    buildSerialFrame_ne (by decide) _ _
  have hreport : buildSerialFrame 0x23 [1] ≠ buildSerialFrame getPowerState [] :=
    buildSerialFrame_ne (by decide) _ _
  have hreport' : buildSerialFrame 0x23 [1] ≠ buildSerialFrame powerOn [] :=
    buildSerialFrame_ne (by decide) _ _
  rcases h.writes with hone | ⟨htwo, hasked⟩
  · obtain rfl : frames = _ := hw.written_eq.symm.trans hone.written_eq
    refine ⟨?_, ?_, fun hmem => absurd (List.mem_singleton.mp hmem).symm hquery⟩
    · rw [List.count_singleton]
      split <;> omega
    · exact fun hmem => hreport (List.mem_singleton.mp hmem)
  · obtain rfl : frames = _ := hw.written_eq.symm.trans htwo.written_eq
    refine ⟨?_, ?_, fun _ => hasked⟩
    · rw [List.count_cons_of_ne hquery, List.count_singleton_self]
    · intro hmem
      rcases List.mem_cons.mp hmem with heq | hmem
      · exact hreport heq
      · exact hreport' (List.mem_singleton.mp hmem)

/-- The first three parts of the gate hold on every port. -/
theorem construct_gate (initialized : Bool) (p : Port) :
    (written p (construct initialized p).port).count (buildSerialFrame powerOn []) ≤ 1 ∧
      (buildSerialFrame powerOn [] ∈ written p (construct initialized p).port → Asked p) ∧
      ((construct initialized p).value? = some true ∨
        buildSerialFrame 0x23 [1] ∈ written p (construct initialized p).port →
          ∃ report q, isPowerOn p = .done report q ∧ report.on = true) := by
  have hreport : buildSerialFrame 0x23 [1] ≠ buildSerialFrame powerOn [] :=
    buildSerialFrame_ne (by decide) _ _
  rcases construct_writes initialized p with ⟨hnil, hvalue⟩ | ⟨frames, hframes, hrest⟩
  · rw [hnil.written_eq]
    exact ⟨Nat.zero_le _, fun h => (List.not_mem_nil h).elim,
      fun h => h.elim (absurd · hvalue) fun h => (List.not_mem_nil h).elim⟩
  · obtain ⟨honce, hno, hasked⟩ := (isPowerOn_run p).frames hframes
    rcases hrest with ⟨hsame, hvalue⟩ | ⟨hmore, hstarted⟩
    · rw [hsame.written_eq]
      exact ⟨honce, hasked, fun h => h.elim (absurd · hvalue) (absurd · hno)⟩
    · rw [hmore.written_eq]
      refine ⟨?_, fun hmem => ?_, fun _ => hstarted⟩
      · rw [List.count_append, List.count_singleton, beq_false_of_ne hreport]
        exact honce
      · rcases List.mem_append.mp hmem with hmem | hmem
        · exact hasked hmem
        · exact absurd (List.mem_singleton.mp hmem).symm hreport

/-! ## The last reply -/

theorem powerStatus_on (status : Int) : (powerStatus status).on = true ↔ status = 1 := by
  unfold powerStatus
  split
  · exact iff_of_true rfl rfl
  all_goals simp_all

theorem commandReport_on (v : List UInt8) :
    (commandReport v).on = true ↔ replyStatus v = some 1 := by
  unfold commandReport
  cases replyStatus v with
  | none => simp
  | some status =>
    rw [Option.some_inj]
    exact powerStatus_on status

theorem replyStatus_length {v : List UInt8} {status : Int} (h : replyStatus v = some status) :
    v.length = 14 := by
  unfold replyStatus at h
  by_contra hlen
  rw [if_pos hlen] at h
  cases h

theorem ne_nil_of_replyStatus {v : List UInt8} {status : Int} (h : replyStatus v = some status) :
    v ≠ [] := by
  intro hnil
  have hlen := replyStatus_length h
  rw [hnil] at hlen
  cases hlen

/-- The header stands in front. -/
theorem FrameAt.header_prefix {header : List UInt8} {n : Nat} {rx rx' : List RxEvent}
    {v : List UInt8} (h : FrameAt header n rx v rx') : header <+: v := by
  obtain ⟨pre, tail, -, -, rfl, -⟩ := h
  exact List.prefix_append _ _

/-- A reply read with a valid CRC is the last thing the call took. -/
theorem lastReply_of_read {cmdId : UInt8} {timeout : Int} {p q : Port} {v : List UInt8}
    {status : Int} (hcmd : cmdId = getPowerState ∨ cmdId = powerOn)
    (hread : readSerialResponse (replyHeader cmdId) 8 timeout p = .done v q)
    (hstatus : replyStatus v = some status) : LastReply p q status := by
  have hframe := readSerialResponse_sound (replyHeader_ne_nil cmdId) hread
    (ne_nil_of_replyStatus hstatus)
  obtain ⟨pre, hrx⟩ := hframe.consumed
  refine ⟨pre, v, hrx, ?_, hstatus⟩
  rcases hcmd with rfl | rfl
  · exact Or.inl hframe.header_prefix
  · exact Or.inr hframe.header_prefix

/-- More bytes in front do not change what came last. -/
theorem LastReply.before {p q r : Port} {bs : List UInt8} {status : Int}
    (hrx : p.rx = onWire bs ++ q.rx) (h : LastReply q r status) : LastReply p r status := by
  obtain ⟨pre, w, hw, hreply⟩ := h
  refine ⟨bs ++ pre, w, ?_, hreply⟩
  rw [hrx, hw]
  simp

theorem LastReply.unique {p q : Port} {status status' : Int} (h : LastReply p q status)
    (h' : LastReply p q status') : status = status' := by
  obtain ⟨bs, w, hrx, -, hstatus⟩ := h
  obtain ⟨bs', w', hrx', -, hstatus'⟩ := h'
  have hwire : onWire (bs ++ w) = onWire (bs' ++ w') :=
    List.append_cancel_right (hrx.symm.trans hrx')
  obtain ⟨-, rfl⟩ := List.append_inj' (onWire_injective _ _ hwire)
    ((replyStatus_length hstatus).trans (replyStatus_length hstatus').symm)
  exact Option.some.inj (hstatus.symm.trans hstatus')

/-- A reply that was read and passes the checks was there in time. -/
theorem answeredWith_of_read {cmdId : UInt8} {timeout : Int} {p q : Port} {v : List UInt8}
    {status : Int} (hread : readSerialResponse (replyHeader cmdId) 8 timeout p = .done v q)
    (hstatus : replyStatus v = some status) :
    AnsweredWith (replyHeader cmdId) 8 timeout p v q := by
  refine (readSerialResponse_returns_iff _ _ _ _ _ _ (replyHeader_ne_nil _)).mp ⟨hread, ?_⟩
  exact ne_nil_of_replyStatus hstatus

/-- Where `is_power_on` says yes, the reply read last carried 1, or is the first one. -/
theorem lastReply_of_on {p q : Port} {report : PowerReport} (h : isPowerOn p = .done report q)
    (hon : report.on = true) :
    LastReply p q 1 ∨ ∃ status, FirstStatus p status ∧ status ≠ 0 ∧ LastReply p q status := by
  have hrun := isPowerOn_run p
  rw [h] at hrun
  cases hrun with
  | refused v q hread hstatus => cases hon
  | running v q status hread hstatus hne =>
    exact Or.inr ⟨status, ⟨v, q, answeredWith_of_read hread hstatus, hstatus⟩, hne,
      lastReply_of_read (p := askPowerState p) (Or.inl rfl) hread hstatus⟩
  | commanded v q1 r hread hstatus hr =>
    cases hread' : readSerialResponse (replyHeader powerOn) 8 (seconds 5) (sendPowerOn q1) with
    | blocked q2 => rw [hread'] at hr; cases hr
    | done w q2 =>
      rw [hread'] at hr
      obtain ⟨rfl, rfl⟩ := Result.done.inj hr
      have hlast := lastReply_of_read (Or.inr rfl) hread' ((commandReport_on w).mp hon)
      obtain ⟨pre, w', hrx, -⟩ := lastReply_of_read (Or.inl rfl) hread hstatus
      exact Or.inl (LastReply.before (q := sendPowerOn q1) hrx hlast)

/-- Any first status but 0 is taken for running. -/
theorem isPowerOn_of_firstStatus {p : Port} {status : Int} (h : FirstStatus p status)
    (hne : status ≠ 0) :
    ∃ q, isPowerOn p = .done ⟨true, "Motor is operating normally."⟩ q ∧ LastReply p q status := by
  obtain ⟨v, q, hwith, hstatus⟩ := h
  obtain ⟨hread, -⟩ := (readSerialResponse_returns_iff _ _ _ _ _ _ (replyHeader_ne_nil _)).mpr hwith
  refine ⟨q, ?_, lastReply_of_read (p := askPowerState p) (Or.inl rfl) hread hstatus⟩
  simp only [isPowerOn, hread, Result.bind, hstatus, hne, if_false]

/-- **The gate** holds on exactly the ports whose first reply, if it is there and valid,
carries status 0 or 1. -/
theorem powerGate_iff (p : Port) :
    PowerGate p ↔ ∀ status, FirstStatus p status → status = 0 ∨ status = 1 := by
  constructor
  · intro h status hfirst
    by_contra hbad
    rw [not_or] at hbad
    obtain ⟨q, hrun, hlast⟩ := isPowerOn_of_firstStatus hfirst hbad.1
    exact hbad.2 (hlast.unique (h.normal _ q hrun rfl))
  · intro h
    have hquery : buildSerialFrame powerOn [] ≠ buildSerialFrame getPowerState [] :=
      buildSerialFrame_ne (by decide) _ _
    refine ⟨fun b => (construct_gate b p).1, fun b hmem => ?_, fun b => (construct_gate b p).2.2,
      fun report q hrun hon => ?_⟩
    · obtain ⟨v, q, hread, hstatus, hwrites⟩ := (construct_gate b p).2.1 hmem
      refine ⟨v, q, hread, hstatus, ?_⟩
      rw [hwrites.written_eq, List.mem_singleton]
      exact hquery
    · rcases lastReply_of_on hrun hon with hlast | ⟨status, hfirst, hne, hlast⟩
      · exact hlast
      · obtain rfl := (h status hfirst).resolve_left hne
        exact hlast

/-- Status 2: the emergency stop is pressed. -/
def stoppedReply : ReplyFrame := ⟨getPowerState, 2 :: List.replicate 7 0, rfl⟩

/-- The device answers the query so. -/
def stoppedPort : Port := .ready (onWire stoppedReply.bytes)

/-- The driver starts all the same. -/
theorem not_powerGate_stopped :
    (construct true stoppedPort).value? = some true ∧ ¬ ∀ p, PowerGate p := by
  refine ⟨by decide +kernel, fun h => ?_⟩
  have hvalue : (readSerialResponse (replyHeader getPowerState) 8 (seconds 12)
      (askPowerState stoppedPort)).value? = some stoppedReply.bytes := by
    decide +kernel
  obtain ⟨q, hread⟩ := Result.eq_done hvalue
  have hstatus : replyStatus stoppedReply.bytes = some 2 := by decide +kernel
  have hfirst : FirstStatus stoppedPort 2 := ⟨_, q, answeredWith_of_read hread hstatus, hstatus⟩
  obtain ⟨q', hrun, hlast⟩ := isPowerOn_of_firstStatus hfirst (by decide)
  have heq : (2 : Int) = 1 := hlast.unique ((h stoppedPort).normal _ q' hrun rfl)
  exact absurd heq (by decide)

end AgvPro
