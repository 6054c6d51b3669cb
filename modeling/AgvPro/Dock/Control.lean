import AgvPro.Dock.Parser
import AgvPro.Lib.Run

/-!
# The docking thread: `start_serial_control`

The thread opens the port, sends the AT commands, sets `serial_control_active` and loops:
test the flag, read a tuple, publish, log.  Another thread may clear the flag at any
point, and an exception may come anywhere in the try block; whether the port opened is
not followed, a port that did not shows as an exception in the handshake.

    the last Twist is a stop when the run ends
      ↔ the flag never ends the loop after a moving frame            (endsStopped_iff)
    a moving Twist stands only on the frame processed last
      ↔ no ignored frame follows a moving one                        (authorised_iff)
    nothing moving is published after a stop request
      ↔ it comes between the announcement and the end, not while a frame is awaited
        or a moving one in hand                                      (stopsObeyed_iff)
-/

namespace AgvPro

open Run

/-! ## One docking thread -/

/-- `act r`: the tuple `r` has been read; `print leave`: its Twist is published, the log
line to come, and then `break` or not. -/
inductive Pc where
  | create
  | openSerial
  | sendAtCommands
  | activate
  | announce
  | test
  | read
  | act (r : Reading)
  | print (leave : Bool)
  | handler
  | closing
  | done
deriving DecidableEq

def Pc.inTry : Pc → Bool
  | .handler => false
  | .closing => false
  | .done => false
  | _ => true

/-- In the finally block or behind it. -/
def Pc.over : Pc → Bool
  | .closing => true
  | .done => true
  | _ => false

/-- What the loop body does with a tuple. -/
inductive Reaction where
  | raises
  | silent
  | publish (t : Twist) (leave : Bool)
deriving DecidableEq

/-- `infrared_bits[7]` raises on a shorter list. -/
def react (r : Reading) : Reaction :=
  match r.infraredBits[7]? with
  | none => .raises
  | some bit =>
    if bit = 0 then
      if r.whichMode = 0x01 then .publish ⟨⟨r.xSpeed, 0, 0⟩, ⟨0, 0, r.zSpeed⟩⟩ false
      else if r.whichMode = 0xBB then .publish {} false
      else if r.whichMode = 0xAA then .publish {} true
      else if r.whichMode = 0xCF then .publish {} true
      else .silent
    else .publish {} true

/-- `frames` are the tuples processed so far. -/
structure Docking where
  pc : Pc := .create
  published : List Twist := []
  frames : List Reading := []
deriving DecidableEq

inductive DockEvent where
  | advance
  | frame (r : Reading)
  | raise

namespace Docking

def goto (d : Docking) (pc : Pc) : Docking := { d with pc := pc }

/-- A step of the thread, and `serial_control_active` after it. -/
def step (d : Docking) (active : Bool) : DockEvent → Option (Docking × Bool)
  | .frame r =>
    match d.pc with
    | .read => some (d.goto (.act r), active)
    | _ => none
  | .raise => if d.pc.inTry then some (d.goto .handler, active) else none
  | .advance =>
    match d.pc with
    | .create => some (d.goto .openSerial, active)
    | .openSerial => some (d.goto .sendAtCommands, active)
    | .sendAtCommands => some (d.goto .activate, active)
    | .activate => some (d.goto .announce, true)
    | .announce => some (d.goto .test, active)
    | .test => some (d.goto (if active then .read else .closing), active)
    | .read => none
    | .act r =>
      match react r with
      | .raises => some (d.goto .handler, active)
      | .silent => some ({ d with pc := .test, frames := d.frames ++ [r] }, active)
      | .publish t leave => some (⟨.print leave, d.published ++ [t], d.frames ++ [r]⟩, active)
    | .print leave => some (d.goto (if leave then .closing else .test), active)
    | .handler => some ({ d with pc := .closing, published := d.published ++ [{}] }, active)
    | .closing => some (d.goto .done, active)
    | .done => none

/-- The Twist published last; before the first one nothing moves. -/
def inForce (d : Docking) : Twist := d.published.getLast?.getD {}

end Docking

/-! ## With a flag others may clear -/

structure Control extends Docking where
  active : Bool
deriving DecidableEq

/-- `stop` is a call of `stop_serial_control`. -/
inductive Event where
  | stop
  | dock (e : DockEvent)

namespace Control

def start (active : Bool) : Control := ⟨{}, active⟩

def step (s : Control) : Event → Option Control
  | .stop => some { s with active := false }
  | .dock e => (s.toDocking.step s.active e).map fun out => ⟨out.1, out.2⟩

end Control

/-! ## Readings -/

namespace Reading

/-- `infrared_bits[7] == 0` -/
def clear (r : Reading) : Bool := r.infraredBits[7]? == some 0

/-- No obstacle, and a mode byte no branch names. -/
def silent (r : Reading) : Bool :=
  r.clear &&
    !(r.whichMode == 0x01 || r.whichMode == 0xBB || r.whichMode == 0xAA || r.whichMode == 0xCF)

def moving (r : Reading) : Bool :=
  r.clear && r.whichMode == 0x01 && (r.xSpeed != 0 || r.zSpeed != 0)

end Reading

/-- The last frame that was not ignored is a moving one. -/
def Standing (frames : List Reading) : Prop :=
  ∃ r ∈ (frames.filter fun q => !q.silent).getLast?, r.moving = true

/-! ## Lemmas -/

theorem react_silent_iff (r : Reading) : react r = .silent ↔ r.silent = true := by
  unfold react Reading.silent Reading.clear
  cases hb : r.infraredBits[7]? with
  | none => simp
  | some bit =>
    dsimp only
    split_ifs with h0 h1 h2 h3 h4 <;> simp_all

theorem react_publish (r : Reading) (t : Twist) (leave : Bool) (h : react r = .publish t leave) :
    r.silent = false ∧ (t ≠ {} ↔ r.moving = true) ∧ (leave = true → t = {}) := by
  unfold react at h
  unfold Reading.silent Reading.moving Reading.clear
  cases hb : r.infraredBits[7]? with
  | none => simp [hb] at h
  | some bit =>
    simp only [hb] at h
    split_ifs at h with h0 h1 h2 h3 h4
    · obtain ⟨rfl, rfl⟩ := Reaction.publish.inj h
      simp [h0, h1, Twist.mk.injEq, Vector3.mk.injEq]
      tauto
    · obtain ⟨rfl, rfl⟩ := Reaction.publish.inj h
      simp [h0, h2]
    · obtain ⟨rfl, rfl⟩ := Reaction.publish.inj h
      simp [h0, h3]
    · obtain ⟨rfl, rfl⟩ := Reaction.publish.inj h
      simp [h0, h4]
    · obtain ⟨rfl, rfl⟩ := Reaction.publish.inj h
      simp [h0]

/-- What a step of the thread does to the Twists and the frames. -/
inductive Docking.Stepped (active : Bool) (e : DockEvent) (d d' : Docking) : Prop
  | quiet (published : d'.published = d.published) (frames : d'.frames = d.frames)
      (notPrint : d'.pc ≠ .print true) (stays : d.pc.over = true → d'.pc.over = true)
      (enters : d'.pc.over = true → d.pc.over = true ∨ d.pc = .print true ∨
        d.pc = .test ∧ active = false ∧ e = .advance)
  | published (r : Reading) (t : Twist) (leave : Bool) (hpc : d.pc = .act r)
      (hr : react r = .publish t leave)
      (hd' : d' = ⟨.print leave, d.published ++ [t], d.frames ++ [r]⟩)
  | ignored (r : Reading) (hpc : d.pc = .act r) (he : e = .advance) (hr : react r = .silent)
      (hd' : d' = { d with pc := .test, frames := d.frames ++ [r] })
  | stopped (hpc : d.pc = .handler)
      (hd' : d' = { d with pc := .closing, published := d.published ++ [{}] })

theorem Docking.stepped {d d' : Docking} {active active' : Bool} {e : DockEvent}
    (h : d.step active e = some (d', active')) : Docking.Stepped active e d d' := by
  obtain ⟨pc, published, frames⟩ := d
  cases e with
  | frame r =>
    cases pc with
    | read =>
      cases h
      exact .quiet rfl rfl (by simp [goto]) (by simp [Pc.over]) (by simp [goto, Pc.over])
    | _ => cases h
  | raise =>
    simp only [step] at h
    split_ifs at h with ht
    cases h
    refine .quiet rfl rfl (by simp [goto]) (fun ho => ?_) (by simp [goto, Pc.over])
    cases pc <;> simp [Pc.over, Pc.inTry] at ho ht
  | advance =>
    cases pc with
    | act r =>
      unfold step at h
      cases hr : react r with
      | raises =>
        simp only [hr] at h
        cases h
        exact .quiet rfl rfl (by simp [goto]) (by simp [Pc.over]) (by simp [goto, Pc.over])
      | silent =>
        simp only [hr] at h
        cases h
        exact .ignored r rfl rfl hr rfl
      | publish t leave =>
        simp only [hr] at h
        cases h
        exact .published r t leave rfl hr rfl
    | handler => cases h; exact .stopped rfl rfl
    | test =>
      cases active <;> cases h <;>
        exact .quiet rfl rfl (by simp [goto]) (by simp [Pc.over]) (by simp [goto, Pc.over])
    | print leave =>
      cases leave <;> cases h <;>
        exact .quiet rfl rfl (by simp [goto]) (by simp [Pc.over]) (by simp [goto, Pc.over])
    | read => cases h
    | done => cases h
    | closing => cases h; exact .quiet rfl rfl (by simp [goto]) (fun _ => rfl) (fun _ => Or.inl rfl)
    | _ =>
      cases h
      exact .quiet rfl rfl (by simp [goto]) (by simp [Pc.over]) (by simp [goto, Pc.over])

theorem inForce_congr {d d' : Docking} (h : d'.published = d.published) :
    d'.inForce = d.inForce := by
  unfold Docking.inForce
  rw [h]

theorem inForce_concat (pc : Pc) (published : List Twist) (t : Twist) (frames : List Reading) :
    (⟨pc, published ++ [t], frames⟩ : Docking).inForce = t := by
  simp [Docking.inForce]

theorem standing_silent (frames : List Reading) (r : Reading) (h : r.silent = true) :
    Standing (frames ++ [r]) ↔ Standing frames := by
  simp [Standing, List.filter_append, h]

theorem standing_acted (frames : List Reading) (r : Reading) (h : r.silent = false) :
    Standing (frames ++ [r]) ↔ r.moving = true := by
  simp [Standing, List.filter_append, h]

/-- While the loop is on, the Twist in force is moving iff the last frame not ignored is;
after a `break` it is a stop. -/
structure Tracks (d : Docking) : Prop where
  running : d.pc.over = false → (d.inForce ≠ {} ↔ Standing d.frames)
  leaving : d.pc = .print true → d.inForce = {}

theorem tracks_start : Tracks {} where
  running := fun _ => by simp [Docking.inForce, Standing]
  leaving := fun h => by cases h

theorem Tracks.stepped {d d' : Docking} {active : Bool} {e : DockEvent} (h : Tracks d)
    (hs : Docking.Stepped active e d d') : Tracks d' := by
  cases hs with
  | quiet hpub hframes hprint hstays _ =>
    refine ⟨fun ho => ?_, fun hp => absurd hp hprint⟩
    rw [inForce_congr hpub, hframes]
    apply h.running
    cases hd : d.pc.over with
    | false => rfl
    | true => rw [hstays hd] at ho; cases ho
  | published r t leave hpc hr hd' =>
    subst hd'
    obtain ⟨hsilent, hmoving, hleave⟩ := react_publish r t leave hr
    refine ⟨fun _ => ?_, fun hp => ?_⟩
    · rw [inForce_concat, standing_acted _ _ hsilent]
      exact hmoving
    · rw [inForce_concat]
      exact hleave (Pc.print.inj hp)
  | ignored r hpc he hr hd' =>
    subst hd'
    refine ⟨fun _ => ?_, fun hp => by cases hp⟩
    rw [standing_silent _ _ ((react_silent_iff r).mp hr)]
    exact h.running (by rw [hpc]; rfl)
  | stopped hpc hd' =>
    subst hd'
    exact ⟨fun ho => (by cases ho), fun hp => by cases hp⟩

theorem Control.step_dock {s s' : Control} {e : DockEvent} (h : s.step (.dock e) = some s') :
    Docking.Stepped s.active e s.toDocking s'.toDocking := by
  obtain ⟨out, hout, rfl⟩ := Option.map_eq_some_iff.mp h
  exact Docking.stepped hout

theorem Control.step_tracks (s : Control) (ev : Event) (s' : Control) (h : Tracks s.toDocking)
    (hs : s.step ev = some s') : Tracks s'.toDocking := by
  cases ev with
  | stop => cases hs; exact h
  | dock e => exact h.stepped (Control.step_dock hs)

/-! ## The end of a run -/

/-- The loop is not left by its flag while a moving frame is the last one heeded. -/
def LeavesAtRest (s : Control) : Event → Prop
  | .dock .advance => s.pc = .test → s.active = false → ¬ Standing s.frames
  | _ => True

/-- Behind the loop nothing moves. -/
def OverStopped (s : Control) : Prop := s.pc.over = true → s.inForce = {}

theorem overStopped_step (s : Control) (ev : Event) (s' : Control)
    (h : Tracks s.toDocking ∧ OverStopped s) (hok : LeavesAtRest s ev) (hs : s.step ev = some s') :
    Tracks s'.toDocking ∧ OverStopped s' := by
  refine ⟨Control.step_tracks s ev s' h.1 hs, ?_⟩
  cases ev with
  | stop => cases hs; exact h.2
  | dock e =>
    intro hover
    cases Control.step_dock hs with
    | quiet hpub hframes hprint hstays henters =>
      rw [inForce_congr hpub]
      rcases henters hover with ho | hp | ⟨ht, ha, rfl⟩
      · exact h.2 ho
      · exact h.1.leaving hp
      · by_contra hmove
        exact hok ht ha ((h.1.running (by rw [ht]; rfl)).mp hmove)
    | published r t leave hpc hr hd' => rw [hd'] at hover; cases hover
    | ignored r hpc he hr hd' => rw [hd'] at hover; cases hover
    | stopped hpc hd' => rw [hd', inForce_concat]

/-- A moving Twist that stands behind the loop stands for good. -/
theorem overStopped_back (s : Control) (ev : Event) (s' : Control) (hs : s.step ev = some s')
    (h : OverStopped s') : OverStopped s := by
  intro hover
  cases ev with
  | stop => cases hs; exact h hover
  | dock e =>
    cases Control.step_dock hs with
    | quiet hpub hframes hprint hstays henters =>
      rw [← inForce_congr hpub]
      exact h (hstays hover)
    | published r t leave hpc hr hd' => rw [hpc] at hover; cases hover
    | ignored r hpc he hr hd' => rw [hpc] at hover; cases hover
    | stopped hpc hd' => rw [hpc] at hover; cases hover

theorem leavesAtRest_of_overStopped (s : Control) (ev : Event) (s' : Control)
    (ht : Tracks s.toDocking) (h : OverStopped s') (hs : s.step ev = some s') :
    LeavesAtRest s ev := by
  rcases ev with _ | _ | r | _
  · trivial
  · intro hpc hactive hstanding
    have hmove := (ht.running (by rw [hpc]; rfl)).mpr hstanding
    obtain ⟨⟨pc, published, frames⟩, active⟩ := s
    simp only at hpc hactive
    subst hpc hactive
    cases hs
    exact hmove (h rfl)
  · trivial
  · trivial

theorem leavesAtRest_of_stopped {active : Bool} {es : List Event} {s : Control}
    (h : exec Control.step es (Control.start active) = some s) (hstop : s.inForce = {}) :
    Along Control.step LeavesAtRest es (Control.start active) := by
  obtain ⟨hall, -⟩ := throughout_of_last overStopped_back es _ s h (fun _ => hstop)
  exact along_of_throughout (I := fun s => Tracks s.toDocking) Control.step_tracks
    leavesAtRest_of_overStopped es _ tracks_start hall

/-- **Docking leaves the robot stopped** in exactly the runs that are not left by a cleared
flag with a moving frame last. -/
theorem endsStopped_iff (active : Bool) (es : List Event) (s : Control)
    (h : exec Control.step es (Control.start active) = some s) (hdone : s.pc = .done) :
    s.inForce = {} ↔ Along Control.step LeavesAtRest es (Control.start active) := by
  have hover : s.pc.over = true := by rw [hdone]; rfl
  constructor
  · exact leavesAtRest_of_stopped h
  · intro hok
    exact (invariant (I := fun s => Tracks s.toDocking ∧ OverStopped s) overStopped_step es _ s
      ⟨tracks_start, fun ho => by cases ho⟩ hok h).2 hover

/-- From the start to the first wait for a frame. -/
def started : List Event := List.replicate 6 (.dock .advance)

/-- A frame of mode `01`, 0.1 m/s ahead, no obstacle. -/
def aheadReading : Reading := readingOf [0x00, 0x64, 0x01, 0x00, 0x00, 0x00, 0x00, 0x00]

/-- The flag is cleared after the first frame. -/
def clearedRun : List Event :=
  started ++ [.dock (.frame aheadReading), .dock .advance, .stop, .dock .advance, .dock .advance,
    .dock .advance]

/-- The run returns with 0.1 m/s in force. -/
theorem not_endsStopped_cleared :
    ∃ s, exec Control.step clearedRun (Control.start false) = some s ∧ s.pc = .done ∧
      s.inForce ≠ {} := by
  have heval : (exec Control.step clearedRun (Control.start false)).map
      (fun s => (s.pc, decide (s.inForce = {}))) = some (.done, false) := by
    decide +kernel
  obtain ⟨s, hs, hproj⟩ := Option.map_eq_some_iff.mp heval
  obtain ⟨hpc, hforce⟩ := Prod.mk.inj hproj
  exact ⟨s, hs, hpc, of_decide_eq_false hforce⟩

/-- A frame, then the charging zone. -/
def chargingRun : List Event :=
  started ++ [.dock (.frame aheadReading), .dock .advance, .dock .advance, .dock .advance,
    .dock (.frame (readingOf [0, 0, 0xAA, 0, 0, 0, 0, 0])), .dock .advance, .dock .advance,
    .dock .advance]

theorem endsStopped_iff_charging :
    ∃ s, exec Control.step chargingRun (Control.start false) = some s ∧ s.pc = .done ∧
      (s.inForce = {} ↔ Along Control.step LeavesAtRest chargingRun (Control.start false)) := by
  have heval : (exec Control.step chargingRun (Control.start false)).map (fun s => s.pc) =
      some .done := by
    decide +kernel
  obtain ⟨s, hs, hpc⟩ := Option.map_eq_some_iff.mp heval
  exact ⟨s, hs, hpc, endsStopped_iff false chargingRun s hs hpc⟩

/-! ## Motion authority -/

/-- A moving Twist is in force only on the frame processed last, one of mode `01` without
an obstacle. -/
def Authorised (s : Control) : Prop :=
  s.inForce ≠ {} → ∃ r ∈ s.frames.getLast?, r.clear = true ∧ r.whichMode = 0x01

/-- No frame that is ignored comes right behind a moving one. -/
def NoneIgnored (s : Control) : Event → Prop
  | .dock .advance =>
    ∀ r, s.pc = .act r → r.silent = true → ∀ q ∈ s.frames.getLast?, q.moving = false
  | _ => True

/-- The invariant of `Authorised`: the last frame is the one that moves. -/
def LastMoves (s : Control) : Prop := s.inForce ≠ {} → ∃ r ∈ s.frames.getLast?, r.moving = true

theorem lastMoves_step (s : Control) (ev : Event) (s' : Control) (h : LastMoves s)
    (hok : NoneIgnored s ev) (hs : s.step ev = some s') : LastMoves s' := by
  cases ev with
  | stop => cases hs; exact h
  | dock e =>
    intro hmove
    cases Control.step_dock hs with
    | quiet hpub hframes hprint hstays henters =>
      rw [hframes]
      apply h
      rwa [inForce_congr hpub] at hmove
    | published r t leave hpc hr hd' =>
      rw [hd', inForce_concat] at hmove
      rw [hd']
      exact ⟨r, by simp, (react_publish r t leave hr).2.1.mp hmove⟩
    | ignored r hpc he hr hd' =>
      subst he
      rw [hd'] at hmove
      obtain ⟨q, hq, hqm⟩ := h hmove
      rw [hok r hpc ((react_silent_iff r).mp hr) q hq] at hqm
      cases hqm
    | stopped hpc hd' =>
      rw [hd', inForce_concat] at hmove
      exact absurd rfl hmove

theorem authorised_of_lastMoves (s : Control) (h : LastMoves s) : Authorised s := by
  intro hmove
  obtain ⟨r, hr, hm⟩ := h hmove
  unfold Reading.moving at hm
  simp only [Bool.and_eq_true, beq_iff_eq] at hm
  exact ⟨r, hr, hm.1.1, hm.1.2⟩

theorem standing_of_last (frames : List Reading) (q : Reading) (hq : q ∈ frames.getLast?)
    (hm : q.moving = true) : Standing frames := by
  obtain ⟨frames', rfl⟩ := List.getLast?_eq_some_iff.mp hq
  refine (standing_acted frames' q ?_).mpr hm
  unfold Reading.moving at hm
  simp only [Bool.and_eq_true, beq_iff_eq] at hm
  simp [Reading.silent, hm.1.2]

theorem noneIgnored_of_authorised (s : Control) (ev : Event) (s' : Control)
    (ht : Tracks s.toDocking) (h : Authorised s') (hs : s.step ev = some s') :
    NoneIgnored s ev := by
  rcases ev with _ | _ | r | _
  · trivial
  · intro r hpc hsilent q hq
    by_contra hm
    have hmove := (ht.running (by rw [hpc]; rfl)).mpr
      (standing_of_last s.frames q hq (by simpa using hm))
    -- `r` is processed and the Twist stays
    have hout : s.toDocking.step s.active .advance =
        some ({ s.toDocking with pc := .test, frames := s.frames ++ [r] }, s.active) := by
      simp only [Docking.step, hpc, (react_silent_iff r).mpr hsilent]
    simp only [Control.step, hout, Option.map_some, Option.some.injEq] at hs
    subst hs
    obtain ⟨r', hr', -, hmode⟩ := h hmove
    obtain rfl : r = r' := by simpa using hr'
    simp [Reading.silent, hmode] at hsilent
  · trivial
  · trivial

/-- **Motion authority** holds throughout exactly the runs in which no ignored frame comes
right behind a moving one. -/
theorem authorised_iff (active : Bool) (es : List Event) :
    Throughout Control.step Authorised es (Control.start active) ↔
      Along Control.step NoneIgnored es (Control.start active) := by
  constructor
  · exact along_of_throughout (I := fun s => Tracks s.toDocking) Control.step_tracks
      noneIgnored_of_authorised es _ tracks_start
  · exact throughout_of_along lastMoves_step authorised_of_lastMoves es _ fun hmove =>
      absurd rfl hmove

/-- The moving frame, then one of mode `02`. -/
def ignoredRun : List Event :=
  started ++ [.dock (.frame aheadReading), .dock .advance, .dock .advance, .dock .advance,
    .dock (.frame (readingOf [0, 0, 0x02, 0, 0, 0, 0, 0])), .dock .advance]

/-- 0.1 m/s stays in force behind a frame of mode `02`. -/
theorem not_authorised_ignored :
    ∃ s, exec Control.step ignoredRun (Control.start false) = some s ∧ ¬ Authorised s := by
  have heval : (exec Control.step ignoredRun (Control.start false)).map
      (fun s => (decide (s.inForce = {}), s.frames.getLast?.map (·.whichMode))) =
        some (false, some 0x02) := by
    decide +kernel
  obtain ⟨s, hs, hproj⟩ := Option.map_eq_some_iff.mp heval
  obtain ⟨hforce, hmode⟩ := Prod.mk.inj hproj
  refine ⟨s, hs, fun hauth => ?_⟩
  obtain ⟨r, hr, -, hr1⟩ := hauth (of_decide_eq_false hforce)
  rw [Option.mem_def.mp hr] at hmode
  rw [Option.map_some, hr1] at hmode
  exact absurd hmode (by decide)

/-! ## Stop requests -/

/-- Whatever happens after a stop request in this state, no moving Twist is published. -/
def Obeyed (s : Control) : Prop :=
  ∀ es s', exec Control.step (.stop :: es) s = some s' →
    ∀ t ∈ s'.published.drop s.published.length, t = {}

/-- Behind the setting of the flag, not waiting for a frame and without a moving one in
hand. -/
def Pc.heeds : Pc → Bool
  | .create => false
  | .openSerial => false
  | .sendAtCommands => false
  | .activate => false
  | .read => false
  | .act r => !r.moving
  | _ => true

/-- The flag is down, and only stops have been added to `old`. -/
structure Halting (old : List Twist) (s : Control) : Prop where
  active : s.active = false
  heeds : s.pc.heeds = true
  added : ∃ new, s.published = old ++ new ∧ ∀ t ∈ new, t = {}

theorem Halting.goto {old : List Twist} {d : Docking} {pc : Pc} (h : Halting old ⟨d, false⟩)
    (hpc : pc.heeds = true) : Halting old ⟨d.goto pc, false⟩ :=
  ⟨rfl, hpc, h.added⟩

theorem Halting.publish {old : List Twist} {d : Docking} {pc : Pc} {frames : List Reading}
    (h : Halting old ⟨d, false⟩) (hpc : pc.heeds = true) :
    Halting old ⟨⟨pc, d.published ++ [({} : Twist)], frames⟩, false⟩ := by
  obtain ⟨new, hnew, hall⟩ := h.added
  refine ⟨rfl, hpc, new ++ [({} : Twist)], ?_, fun t ht => ?_⟩
  · show d.published ++ [({} : Twist)] = old ++ (new ++ [({} : Twist)])
    rw [show d.published = old ++ new from hnew, List.append_assoc]
  · rcases List.mem_append.mp ht with ht | ht
    · exact hall t ht
    · exact List.mem_singleton.mp ht

theorem Halting.stepped {old : List Twist} {d : Docking} {e : DockEvent} {out : Docking × Bool}
    (h : Halting old ⟨d, false⟩) (hout : d.step false e = some out) :
    Halting old ⟨out.1, out.2⟩ := by
  obtain ⟨pc, published, frames⟩ := d
  have hheeds : pc.heeds = true := h.heeds
  cases e with
  | frame r =>
    cases pc with
    | read => cases hheeds
    | _ => cases hout
  | raise =>
    simp only [Docking.step] at hout
    split_ifs at hout
    cases hout
    exact h.goto rfl
  | advance =>
    cases pc with
    | act r =>
      simp only [Docking.step] at hout
      cases hr : react r with
      | raises => rw [hr] at hout; cases hout; exact h.goto rfl
      | silent => rw [hr] at hout; cases hout; exact ⟨rfl, rfl, h.added⟩
      | publish t leave =>
        rw [hr] at hout
        cases hout
        have ht : t = {} := by
          by_contra hne
          rw [Pc.heeds, (react_publish r t leave hr).2.1.mp hne] at hheeds
          cases hheeds
        subst ht
        exact h.publish rfl
    | handler => cases hout; exact h.publish rfl
    | print leave => cases leave <;> (cases hout; exact h.goto rfl)
    | announce => cases hout; exact h.goto rfl
    | test => cases hout; exact h.goto rfl
    | closing => cases hout; exact h.goto rfl
    | done => cases hout
    | create => cases hheeds
    | openSerial => cases hheeds
    | sendAtCommands => cases hheeds
    | activate => cases hheeds
    | read => cases hheeds

theorem halting_step (old : List Twist) (s : Control) (ev : Event) (s' : Control)
    (h : Halting old s) (hs : s.step ev = some s') : Halting old s' := by
  obtain ⟨d, active⟩ := s
  obtain rfl : active = false := h.active
  cases ev with
  | stop => cases hs; exact h
  | dock e =>
    obtain ⟨out, hout, rfl⟩ := Option.map_eq_some_iff.mp hs
    exact h.stepped hout

/-- From where a stop is not heeded to the publication of a moving Twist. -/
def onwards : Pc → List Event
  | .create => List.replicate 6 (.dock .advance) ++ [.dock (.frame aheadReading), .dock .advance]
  | .openSerial =>
    List.replicate 5 (.dock .advance) ++ [.dock (.frame aheadReading), .dock .advance]
  | .sendAtCommands =>
    List.replicate 4 (.dock .advance) ++ [.dock (.frame aheadReading), .dock .advance]
  | .activate => List.replicate 3 (.dock .advance) ++ [.dock (.frame aheadReading), .dock .advance]
  | .read => [.dock (.frame aheadReading), .dock .advance]
  | _ => [.dock .advance]

theorem react_moving (r : Reading) (h : r.moving = true) :
    ∃ t leave, react r = .publish t leave ∧ t ≠ ({} : Twist) := by
  have hmode : r.infraredBits[7]? = some 0 ∧ r.whichMode = 0x01 := by
    unfold Reading.moving Reading.clear at h
    simp only [Bool.and_eq_true, beq_iff_eq] at h
    exact h.1
  have hr : react r = .publish ⟨⟨r.xSpeed, 0, 0⟩, ⟨0, 0, r.zSpeed⟩⟩ false := by
    simp [react, hmode.1, hmode.2]
  exact ⟨_, _, hr, (react_publish r _ _ hr).2.1.mpr h⟩

theorem onwards_moves (s : Control) (h : s.pc.heeds = false) :
    ∃ s' t, exec Control.step (.stop :: onwards s.pc) s = some s' ∧
      s'.published = s.published ++ [t] ∧ t ≠ ({} : Twist) := by
  obtain ⟨⟨pc, published, frames⟩, active⟩ := s
  obtain ⟨t, leave, hr, ht⟩ := react_moving aheadReading (by decide +kernel)
  have hread (active' : Bool) : ∃ s' t, exec Control.step
      [.dock (.frame aheadReading), .dock .advance]
      ⟨⟨.read, published, frames⟩, active'⟩ = some s' ∧ s'.published = published ++ [t] ∧
        t ≠ ({} : Twist) := by
    refine ⟨⟨⟨.print leave, published ++ [t], frames ++ [aheadReading]⟩, active'⟩, t, ?_, rfl, ht⟩
    simp [exec, Control.step, Docking.step, Docking.goto, hr]
  cases pc with
  | act r =>
    obtain ⟨t, leave, hr, ht⟩ := react_moving r (by simpa [Pc.heeds] using h)
    refine ⟨⟨⟨.print leave, published ++ [t], frames ++ [r]⟩, false⟩, t, ?_, rfl, ht⟩
    simp [onwards, exec, Control.step, Docking.step, hr]
  | read => exact hread false
  -- from these the flag is set again before the first frame
  | create => exact hread true
  | openSerial => exact hread true
  | sendAtCommands => exact hread true
  | activate => exact hread true
  | announce => cases h
  | test => cases h
  | print leave => cases h
  | handler => cases h
  | closing => cases h
  | done => cases h

/-- A stop request is obeyed in exactly the states that heed it. -/
theorem obeyed_iff (s : Control) : Obeyed s ↔ s.pc.heeds = true := by
  constructor
  · intro h
    by_contra hheeds
    obtain ⟨s', t, hs', hpub, ht⟩ := onwards_moves s (by simpa using hheeds)
    exact ht (h _ s' hs' t (by simp [hpub]))
  · intro hheeds es s' hs' t ht
    obtain ⟨s1, h1, h2⟩ := exec_cons hs'
    cases h1
    have hinit : Halting s.published { s with active := false } :=
      ⟨rfl, hheeds, [], (List.append_nil _).symm, fun t ht => (List.not_mem_nil ht).elim⟩
    obtain ⟨new, hnew, hall⟩ := (always (halting_step s.published) es _ s' hinit h2).added
    rw [hnew, List.drop_left] at ht
    exact hall t ht

/-- Every stop request of the run is obeyed, however the run goes on behind it. -/
def StopsObeyed (active : Bool) (es : List Event) : Prop :=
  ∀ es1 es2 s, es = es1 ++ .stop :: es2 → exec Control.step es1 (Control.start active) = some s →
    Obeyed s

def StopHeeded (s : Control) : Event → Prop
  | .stop => s.pc.heeds = true
  | _ => True

/-- **No stop request is lost** in exactly the runs whose stops all come where they are
heeded. -/
theorem stopsObeyed_iff (active : Bool) (es : List Event) :
    StopsObeyed active es ↔ Along Control.step StopHeeded es (Control.start active) := by
  rw [along_iff]
  constructor
  · intro h es1 ev es2 s s' hes hs hstep
    cases ev with
    | stop => exact (obeyed_iff s).mp (h es1 es2 s hes hs)
    | dock e => trivial
  · intro h es1 es2 s hes hs
    exact (obeyed_iff s).mpr (h es1 .stop es2 s _ hes hs rfl)

/-- A stop during the handshake, and one while a frame is awaited. -/
theorem not_stopsObeyed_handshake_read :
    ¬ StopsObeyed false [.dock .advance, .dock .advance, .stop] ∧
      ¬ StopsObeyed false (started ++ [.stop]) := by
  constructor
  · intro h
    obtain ⟨s', t, hs', hpub, ht⟩ := onwards_moves ⟨{ pc := .sendAtCommands }, false⟩ rfl
    exact ht (h [.dock .advance, .dock .advance] [] ⟨{ pc := .sendAtCommands }, false⟩ rfl rfl _ s'
      hs' t (by simp [hpub]))
  · intro h
    obtain ⟨s', t, hs', hpub, ht⟩ := onwards_moves ⟨{ pc := .read }, true⟩ rfl
    exact ht (h started [] ⟨{ pc := .read }, true⟩ rfl rfl _ s' hs' t (by simp [hpub]))

end AgvPro
