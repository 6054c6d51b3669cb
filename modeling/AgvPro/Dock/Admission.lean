import AgvPro.Dock.Control
import AgvPro.Dock.Handshake

/-!
# From the handshake to the docking loop

`start_serial_control` calls `open_serial` and `send_at_commands` and goes on.  A port that
does not open is seen later, the first write to it raising; a handshake that gave up prints
so and returns like any other.

A `Device` is what the other end does up to the end of the handshake: whether the port
opens, and what each poll finds.  The bytes behind it come with the events of a run.

    the flag is raised, or anything moves, only behind a handshake that acknowledged both
    commands ↔ the device does not leave one of them unanswered          (guarded_iff)
-/

namespace AgvPro

open Run SerialCANParser

def atCommands : List String := ["AT+CG", "AT+AT"]

structure Device where
  opened : Bool
  polls : Nat → Option UInt8

/-- The thread, and the parser it has constructed. -/
structure Session extends Control where
  parser : SerialCANParser
deriving DecidableEq

/-- `handshake k`: `send_at_commands` returns, its last poll among the first `k`;
`read bytes`: `read_serial_data` returns on the last of these bytes. -/
inductive SessionEvent where
  | handshake (k : Nat)
  | read (bytes : List UInt8)
  | advance
  | raise
  | stop

def Session.start (active : Bool) : Session := ⟨Control.start active, .new⟩

/-- An event that leaves the parser alone. -/
def Session.on (s : Session) (ev : Event) : Option Session :=
  (s.toControl.step ev).map fun c => ⟨c, s.parser⟩

namespace Device

/-- The handshake is over within `k` polls. -/
def overBy (d : Device) (k : Nat) : Bool :=
  d.opened && (sendAtCommands 0 atCommands ((List.range k).map d.polls)).isSome

def step (d : Device) (s : Session) : SessionEvent → Option Session
  | .handshake k =>
    if s.pc = .sendAtCommands ∧ d.overBy k = true then s.on (.dock .advance) else none
  | .read bytes =>
    match s.parser.readSerialData bytes with
    | some (r, parser, []) => (s.toControl.step (.dock (.frame r))).map fun c => ⟨c, parser⟩
    | _ => none
  -- `ser` is `None` on a port that did not open: the write raises
  | .advance => if s.pc = .sendAtCommands then none else s.on (.dock .advance)
  | .raise => s.on (.dock .raise)
  | .stop => s.on .stop

/-- The port opened, and the handshake brought an `OK` for each command. -/
def Admitted (d : Device) : Prop :=
  d.opened = true ∧ ∃ k log rest,
    sendAtCommands 0 atCommands ((List.range k).map d.polls) = some (log, rest) ∧
      ∀ i < atCommands.length, Acknowledged log i

end Device

/-- Between the handshake and the way out: the docking loop and the two lines before it. -/
def Pc.engaged : Pc → Bool
  | .activate => true
  | .announce => true
  | .test => true
  | .read => true
  | .act _ => true
  | .print _ => true
  | _ => false

/-- The thread has gone beyond the handshake, raised the flag or published a moving
Twist. -/
def Session.Proceeded (active : Bool) (s : Session) : Prop :=
  s.pc.engaged = true ∨ (active = false ∧ s.active = true) ∨ ∃ t ∈ s.published, t ≠ ({} : Twist)

/-- In no run with this device does the thread proceed without a handshake. -/
def Device.Guarded (d : Device) : Prop :=
  ∀ active es s, exec d.step es (Session.start active) = some s → s.Proceeded active → d.Admitted

/-! ## In front of the handshake -/

theorem Session.on_eq_some {s s' : Session} {ev : Event} (h : s.on ev = some s') :
    s.toControl.step ev = some s'.toControl := by
  obtain ⟨c, hc, rfl⟩ := Option.map_eq_some_iff.mp h
  exact hc

/-- A step that neither begins in the loop nor ends the handshake does not lead there; it
adds no Twist but a stop. -/
theorem Session.not_proceeded_on {active : Bool} {s s' : Session} {ev : Event}
    (h : ¬ s.Proceeded active) (hhandshake : ev = .dock .advance → s.pc ≠ .sendAtCommands)
    (hs : s.on ev = some s') : ¬ s'.Proceeded active := by
  obtain ⟨⟨⟨pc, published, frames⟩, flag⟩, parser⟩ := s
  obtain ⟨⟨⟨pc', published', frames'⟩, flag'⟩, parser'⟩ := s'
  have hstep := Session.on_eq_some hs
  unfold Proceeded at h ⊢
  push Not at h ⊢
  obtain ⟨hpc, hflag, hstill⟩ := h
  have hstopped : ∀ t ∈ published ++ [({} : Twist)], t = {} := by
    intro t ht
    rcases List.mem_append.mp ht with ht | ht
    · exact hstill t ht
    · exact List.mem_singleton.mp ht
  cases ev with
  | stop =>
    cases hstep
    exact ⟨hpc, fun _ => Bool.false_ne_true, hstill⟩
  | dock e =>
    obtain ⟨out, hout, heq⟩ := Option.map_eq_some_iff.mp hstep
    cases e with
    | frame r =>
      cases pc with
      | read => exact absurd rfl hpc
      | _ => cases hout
    | raise =>
      simp only [Docking.step] at hout
      split_ifs at hout
      cases hout
      cases heq
      exact ⟨Bool.false_ne_true, hflag, hstill⟩
    | advance =>
      cases pc with
      | create => cases hout; cases heq; exact ⟨Bool.false_ne_true, hflag, hstill⟩
      | openSerial => cases hout; cases heq; exact ⟨Bool.false_ne_true, hflag, hstill⟩
      | sendAtCommands => exact absurd rfl (hhandshake rfl)
      | handler => cases hout; cases heq; exact ⟨Bool.false_ne_true, hflag, hstopped⟩
      | closing => cases hout; cases heq; exact ⟨Bool.false_ne_true, hflag, hstill⟩
      | done => cases hout
      | _ => exact absurd rfl hpc

/-- The only way on is a handshake that is over. -/
theorem Device.step_proceeded {d : Device} {active : Bool} (s : Session) (ev : SessionEvent)
    (s' : Session) (h : (∃ k, d.overBy k = true) ∨ ¬ s.Proceeded active)
    (hs : d.step s ev = some s') : (∃ k, d.overBy k = true) ∨ ¬ s'.Proceeded active := by
  rcases h with h | h
  · exact Or.inl h
  cases ev with
  | handshake k =>
    simp only [step] at hs
    split_ifs at hs with hk
    exact Or.inl ⟨k, hk.2⟩
  | read bytes =>
    simp only [step] at hs
    split at hs
    · obtain ⟨c, hc, -⟩ := Option.map_eq_some_iff.mp hs
      obtain ⟨⟨⟨pc, published, frames⟩, flag⟩, parser⟩ := s
      obtain ⟨out, hout, -⟩ := Option.map_eq_some_iff.mp hc
      cases pc with
      | read => exact absurd (Or.inl rfl) h
      | _ => cases hout
    · cases hs
  | advance =>
    simp only [step] at hs
    split_ifs at hs with hpc
    exact Or.inr (Session.not_proceeded_on h (fun _ => hpc) hs)
  | raise => exact Or.inr (Session.not_proceeded_on h (fun heq => by cases heq) hs)
  | stop => exact Or.inr (Session.not_proceeded_on h (fun heq => by cases heq) hs)

theorem Device.overBy_of_proceeded {d : Device} {active : Bool} {es : List SessionEvent}
    {s : Session} (h : exec d.step es (Session.start active) = some s)
    (hs : s.Proceeded active) : ∃ k, d.overBy k = true := by
  have hstart : ¬ (Session.start active).Proceeded active := by
    rintro (hpc | ⟨hlow, hraised⟩ | ⟨t, ht, -⟩)
    · cases hpc
    · exact Bool.false_ne_true (hlow.symm.trans hraised)
    · cases ht
  rcases always Device.step_proceeded es _ s (Or.inr hstart) h with hover | hnot
  · exact hover
  · exact absurd hs hnot

/-! ## What a handshake that is over lets through -/

/-- Opened and over, the handshake is followed by the flag. -/
theorem Device.proceeds {d : Device} {k : Nat} (hk : d.overBy k = true) :
    ∃ s, exec d.step [.advance, .advance, .handshake k, .advance] (Session.start false) = some s ∧
      s.Proceeded false := by
  refine ⟨⟨⟨{ pc := .announce }, true⟩, .new⟩, ?_, Or.inl rfl⟩
  simp [exec, Device.step, Session.start, Session.on, Control.start, Control.step, Docking.step,
    Docking.goto, hk]

theorem Device.overBy_iff (d : Device) (k : Nat) :
    d.overBy k = true ↔ d.opened = true ∧ ∃ log rest,
      sendAtCommands 0 atCommands ((List.range k).map d.polls) = some (log, rest) := by
  simp [overBy, Option.isSome_iff_exists]

/-- A device that made the handshake give up is never admitted. -/
theorem Device.not_admitted {d : Device} {k : Nat}
    (h : verdict atCommands.length maxRetries (firstReplies d.polls k) = some false) :
    ¬ d.Admitted := by
  rintro ⟨-, k', log, rest, hsend, hacks⟩
  have htrue := (verdict_true_iff hsend).mpr fun i hi => by rw [Nat.zero_add]; exact hacks i hi
  exact absurd (verdict_unique h htrue) Bool.false_ne_true

/-- **Docking is guarded** by the handshake with exactly the devices that do not open, or
never leave a command without an `OK` three times in a row. -/
theorem guarded_iff (d : Device) :
    d.Guarded ↔ ¬ (d.opened = true ∧ ∃ k, Unanswered atCommands.length (firstReplies d.polls k)) := by
  constructor
  · rintro h ⟨hopened, k, hgiven⟩
    have hfalse := (verdict_unanswered_iff _ _).mpr hgiven
    have hover : d.overBy k = true := by
      rw [Device.overBy, hopened, Bool.true_and, isSome_sendAtCommands]
      exact Option.isSome_of_eq_some hfalse
    obtain ⟨s, hs, hproceeded⟩ := Device.proceeds hover
    exact Device.not_admitted hfalse (h false _ s hs hproceeded)
  · intro h active es s hs hproceeded
    obtain ⟨k, hk⟩ := Device.overBy_of_proceeded hs hproceeded
    obtain ⟨hopened, log, rest, hsend⟩ := (d.overBy_iff k).mp hk
    refine ⟨hopened, k, log, rest, hsend, ?_⟩
    have hsome := isSome_sendAtCommands atCommands 0 ((List.range k).map d.polls)
    rw [hsend] at hsome
    obtain ⟨b, hb⟩ := Option.isSome_iff_exists.mp hsome.symm
    cases b with
    | false => exact absurd ⟨hopened, k, (verdict_unanswered_iff _ _).mp hb⟩ h
    | true =>
      intro i hi
      have hack := (verdict_true_iff hsend).mp hb i hi
      rwa [Nat.zero_add] at hack

/-- It answers `NO`, CR LF to everything. -/
def naysayer : Device where
  opened := true
  polls := fun i => some ([0x4E, 0x4F, 0x0D, 0x0A].getD (i % 4) 0)

/-- A frame of mode `01`, 0.1 m/s ahead. -/
def aheadBytes : List UInt8 :=
  [0x41, 0x54, 0x30, 0x40, 0, 0, 0x08, 0x00, 0x64, 0x01, 0x00, 0x00, 0x00, 0x00, 0x00, 0x0D, 0x0A]

/-- The handshake gives up, and the loop is entered. -/
def naysayerRun : List SessionEvent :=
  [.advance, .advance, .handshake 12, .advance, .advance, .advance, .read aheadBytes, .advance]

/-- Three times no, and the base moves. -/
theorem not_guarded_naysayer :
    ∃ s, exec naysayer.step naysayerRun (Session.start false) = some s ∧ s.active = true ∧
      (∃ t ∈ s.published, t ≠ ({} : Twist)) ∧ ¬ naysayer.Admitted := by
  have heval : (exec naysayer.step naysayerRun (Session.start false)).map
      (fun s => (s.active, decide (∃ t ∈ s.published, t ≠ ({} : Twist)))) = some (true, true) := by
    decide +kernel
  obtain ⟨s, hs, hproj⟩ := Option.map_eq_some_iff.mp heval
  obtain ⟨hactive, hmoves⟩ := Prod.mk.inj hproj
  have hrefused : verdict atCommands.length maxRetries (firstReplies naysayer.polls 12) =
      some false := by
    decide +kernel
  exact ⟨s, hs, hactive, of_decide_eq_true hmoves, Device.not_admitted hrefused⟩

end AgvPro
