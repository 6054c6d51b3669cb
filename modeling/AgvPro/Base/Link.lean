import AgvPro.Base.ReplyFraming
import AgvPro.Base.Telemetry
import AgvPro.Lib.Run

/-!
# The link as a message system

The device takes the command frames that were written completely, in order, and answers
each with one reply of the same command id, at any time; in between it sends telemetry.
`readData` and the handlers run one at a time on the bytes that are still unread.  Frames
carry no number: that a reply answers request `id` is known to the model only.  A call that
waits in a read for ever, or applies `operator[]` to the empty vector of a timeout, is the
node's last.

    no header of the command unread at a call, none sent ahead of its reply  (Solicited)
      →  every success rests on the reply to that request      (agrees_of_solicited)
-/

namespace AgvPro

open Window Run

/-! ## Model -/

/-- What the line carries to the driver: telemetry, the reply to request `id`, or a read
error. -/
inductive Msg where
  | telemetry (t : TelemetryFrame)
  | reply (id : Nat) (r : ReplyFrame)
  | error
deriving DecidableEq

def Msg.events : Msg → List RxEvent
  | .telemetry t => onWire t.bytes
  | .reply _ r => onWire r.bytes
  | .error => [.error]

/-- A handler's response to request `id`, what it wrote, and how much of everything sent
had been read when it returned. -/
structure Report where
  id : Nat
  request : ServiceRequest
  response : ServiceResponse
  tx : List Transmit
  readTo : Nat

structure Link where
  history : List Msg
  unread : List RxEvent
  owed : List (Nat × UInt8)
  nextId : Nat
  sensors : SensorState
  reports : List Report
  stuck : Bool

/-- What a call meets besides the bytes: the port, its one write, the clock, the chunks. -/
structure Env where
  isOpen : Bool
  throwsAt : Option Nat
  clock : Nat → Int
  split : Nat → Nat

inductive Move where
  | telemetry (t : TelemetryFrame)
  | answer (payload : List UInt8) (length_payload : payload.length = 8)
  | error

inductive Action where
  | device (m : Move)
  | tick (env : Env)
  | call (req : ServiceRequest) (env : Env) (moves : List Move)

namespace Link

def start : Link := ⟨[], [], [], 0, {}, [], false⟩

def port (s : Link) (env : Env) : Port :=
  ⟨⟨s.unread, env.clock, env.split⟩, env.isOpen, fun _ => env.throwsAt, []⟩

def sentSoFar (s : Link) : Nat := (s.history.flatMap Msg.events).length

def emit (s : Link) (m : Msg) : Link :=
  { s with history := s.history ++ [m], unread := s.unread ++ m.events }

/-- The device answers the oldest request it owes a reply to. -/
def move (s : Link) : Move → Option Link
  | .telemetry t => some (s.emit (.telemetry t))
  | .answer payload h =>
    match s.owed with
    | [] => none
    | (id, cmd) :: owed => some ({ s with owed := owed }.emit (.reply id ⟨cmd, payload, h⟩))
  | .error => some (s.emit .error)

/-- What a handler hands to `write` for a request. -/
def written (req : ServiceRequest) (env : Env) : List Transmit :=
  transmits env.isOpen (fun _ => env.throwsAt)
    (if req.rejects then [] else [buildSerialFrame req.cmdId req.payload])

/-- The device receives the request if every byte went out. -/
def request (s : Link) (req : ServiceRequest) (env : Env) : Link :=
  { s with
    nextId := s.nextId + 1
    owed :=
      if (written req env).any fun w => w.sent == w.frame.length then
        s.owed ++ [(s.nextId, req.cmdId)]
      else s.owed }

/-- The handler of request `id` returned, or took the node with it. -/
def report (s : Link) (id : Nat) (req : ServiceRequest) (p : Port) :
    Outcome ServiceResponse → Link
  | .returned response =>
    { s with
      unread := p.rx
      reports := s.reports ++ [⟨id, req, response, p.tx, s.sentSoFar - p.rx.length⟩] }
  | .outOfRange _ _ => { s with unread := p.rx, stuck := true }

/-- `moves` are what the device does between the write and the return of the call. -/
def step (s : Link) (a : Action) : Option Link :=
  if s.stuck then none
  else match a with
    | .device m => s.move m
    | .tick env =>
      match readData s.sensors (s.port env) with
      | .blocked p => some { s with unread := p.rx, stuck := true }
      | .done (_, sensors) p => some { s with unread := p.rx, sensors := sensors }
    | .call req env moves =>
      (exec move moves (s.request req env)).map fun s1 =>
        match handle req (s1.port env) with
        | .blocked p => { s1 with unread := p.rx, stuck := true }
        | .done out p => s1.report s.nextId req p out

end Link

/-! ## Agreement -/

/-- A reported success rests on a request that went out and on the device's reply to it:
that reply is what the handler read last, and the response is made from its status. -/
def Agrees (history : List Msg) (r : Report) : Prop :=
  r.response.success = true →
    r.tx = [⟨buildSerialFrame r.request.cmdId r.request.payload, 14⟩] ∧
    ∃ before reply after, history = before ++ .reply r.id reply :: after ∧
      reply.cmd = r.request.cmdId ∧ (before.flatMap Msg.events).length + 14 = r.readTo ∧
      r.response = r.request.reply (reply.bytes.getD r.request.statusAt 0)

def Msg.replies (c : UInt8) : Msg → Bool
  | .reply _ r => r.cmd == c
  | _ => false

/-- When the handler is called no header of its command is unread, and nothing sent during
the call ahead of the reply shows one. -/
def Solicited (s : Link) : Action → Prop
  | .call req env moves =>
    req.rejects = true ∨ Quiet req.cmdId s.unread ∧
      ∀ s1 msgs, exec Link.move moves (s.request req env) = some s1 →
        s1.history = s.history ++ msgs →
          ∀ m ∈ msgs.takeWhile fun m => !m.replies req.cmdId, Quiet req.cmdId m.events
  | _ => True

/-! ## Lemmas -/

theorem Agrees.mono {history : List Msg} {r : Report} (h : Agrees history r) (more : List Msg) :
    Agrees (history ++ more) r := by
  intro hs
  obtain ⟨htx, before, reply, after, rfl, hrest⟩ := h hs
  exact ⟨htx, before, reply, after ++ more, by simp, hrest⟩

/-- What the model takes to be written is what the handler writes. -/
theorem handle_tx (s : Link) (req : ServiceRequest) (env : Env) :
    (handle req (s.port env)).port.tx = Link.written req env :=
  (handle_writes req (s.port env)).tx

/-- What a message answers. -/
def Msg.answered : Msg → Option (Nat × UInt8)
  | .reply id r => some (id, r.cmd)
  | _ => none

/-- The device only adds to the line, and answers what it owes in order. -/
structure Moved (s s1 : Link) (msgs : List Msg) : Prop where
  history : s1.history = s.history ++ msgs
  unread : s1.unread = s.unread ++ msgs.flatMap Msg.events
  owed : s.owed = msgs.filterMap Msg.answered ++ s1.owed
  reports : s1.reports = s.reports
  stuck : s1.stuck = s.stuck

theorem Moved.emit (s : Link) (m : Msg) (owed : List (Nat × UInt8))
    (howed : s.owed = m.answered.toList ++ owed) :
    Moved s ({ s with owed := owed }.emit m) [m] where
  history := rfl
  unread := by simp [Link.emit]
  owed := by
    rw [howed]
    cases hm : m.answered <;> simp [hm, Link.emit]
  reports := rfl
  stuck := rfl

theorem Moved.trans {s s1 s2 : Link} {msgs msgs' : List Msg} (h : Moved s s1 msgs)
    (h' : Moved s1 s2 msgs') : Moved s s2 (msgs ++ msgs') where
  history := by rw [h'.history, h.history, List.append_assoc]
  unread := by rw [h'.unread, h.unread, List.flatMap_append, List.append_assoc]
  owed := by rw [h.owed, h'.owed, List.filterMap_append, List.append_assoc]
  reports := h'.reports.trans h.reports
  stuck := h'.stuck.trans h.stuck

theorem move_spec (s : Link) (a : Move) (s1 : Link) (h : s.move a = some s1) :
    ∃ msgs, Moved s s1 msgs := by
  cases a with
  | telemetry t =>
    cases h
    exact ⟨_, .emit s (.telemetry t) s.owed rfl⟩
  | error =>
    cases h
    exact ⟨_, .emit s .error s.owed rfl⟩
  | answer payload hp =>
    unfold Link.move at h
    cases ho : s.owed with
    | nil => simp [ho] at h
    | cons o owed =>
      obtain ⟨id, cmd⟩ := o
      simp only [ho, Option.some.injEq] at h
      subst h
      exact ⟨_, .emit s (.reply id ⟨cmd, payload, hp⟩) owed ho⟩

theorem moves_spec (moves : List Move) (s s1 : Link) (h : exec Link.move moves s = some s1) :
    ∃ msgs, Moved s s1 msgs := by
  induction moves generalizing s with
  | nil =>
    cases h
    exact ⟨[], (List.append_nil _).symm, (List.append_nil _).symm, rfl, rfl, rfl⟩
  | cons a moves ih =>
    obtain ⟨s2, h1, h2⟩ := exec_cons h
    obtain ⟨m1, hm1⟩ := move_spec s a s2 h1
    obtain ⟨m2, hm2⟩ := ih s2 h2
    exact ⟨m1 ++ m2, hm1.trans hm2⟩

theorem Msg.boundary (m : Msg) : Boundary m.events := by
  cases m with
  | telemetry t => exact .frame _
  | reply id r => exact .frame _
  | error => exact .error []

theorem onWire_or_error (rx : List RxEvent) :
    (∃ bs, rx = onWire bs) ∨ ∃ bs rest, rx = onWire bs ++ .error :: rest := by
  induction rx with
  | nil => exact Or.inl ⟨[], rfl⟩
  | cons e rx ih =>
    cases e with
    | error => exact Or.inr ⟨[], rx, rfl⟩
    | byte b =>
      rcases ih with ⟨bs, rfl⟩ | ⟨bs, rest, rfl⟩
      · exact Or.inl ⟨b :: bs, rfl⟩
      · exact Or.inr ⟨b :: bs, rest, rfl⟩

theorem Quiet.not_ends {c : UInt8} {rx : List RxEvent} {pre : List UInt8} (h : Quiet c rx)
    (hpre : onWire pre <+: rx) : ¬ replyHeader c <:+ pre := by
  intro hend
  have hq : Quiet c (onWire pre) := fun hin => h (hin.trans hpre.isInfix)
  exact (quiet_onWire c pre).mp hq hend.isInfix

/-- In quiet bytes, and messages quiet up to the first reply of `c`, the first header of `c`
is that of this reply. -/
theorem locate {c : UInt8} (hc : c ≠ 0xFE) (msgs : List Msg) (u : List RxEvent) (pre : List UInt8)
    (hu : Quiet c u) (hmsgs : ∀ m ∈ msgs.takeWhile fun m => !m.replies c, Quiet c m.events)
    (hpre : onWire pre <+: u ++ msgs.flatMap Msg.events) (hend : FirstEnd (replyHeader c) pre) :
    ∃ before id reply after x, msgs = before ++ .reply id reply :: after ∧ reply.cmd = c ∧
      u ++ before.flatMap Msg.events = onWire x ∧ pre = x ++ replyHeader c := by
  induction msgs generalizing u with
  | nil => exact (hu.not_ends (by simpa using hpre) hend.ends).elim
  | cons m msgs ih =>
    cases hreply : m.replies c with
    | false =>
      rw [List.takeWhile_cons_of_pos (by rw [hreply]; rfl)] at hmsgs
      obtain ⟨before, id, reply, after, x, rfl, hcmd, hx, hpre'⟩ :=
        ih (u ++ m.events) (quiet_append hc hu (hmsgs m List.mem_cons_self) m.boundary)
          (fun m' hm' => hmsgs m' (List.mem_cons_of_mem m hm')) (by simpa using hpre)
      exact ⟨m :: before, id, reply, after, x, rfl, hcmd, by simpa using hx, hpre'⟩
    | true =>
      cases m with
      | telemetry t => cases hreply
      | error => cases hreply
      | reply id r =>
        have hcmd : r.cmd = c := beq_iff_eq.mp hreply
        rcases onWire_or_error u with ⟨x, rfl⟩ | ⟨x, rest, rfl⟩
        · refine ⟨[], id, r, msgs, x, rfl, hcmd, by simp, ?_⟩
          subst hcmd
          refine firstEnd_onWire_unique hend (firstEnd_header hc x hu) hpre ?_
          exact ⟨onWire r.tail ++ msgs.flatMap Msg.events, by simp [Msg.events, r.bytes_eq]⟩
        · -- nothing is read past the error
          rw [List.append_assoc] at hpre
          have hx : onWire pre <+: onWire x ++ .error :: rest :=
            (List.IsPrefix.map _ (onWire_prefix_of_stop hpre (Or.inr ⟨_, rfl⟩))).trans
              (List.prefix_append _ _)
          exact (hu.not_ends hx hend.ends).elim

theorem written_whole {req : ServiceRequest} {env : Env} (hr : req.rejects = false)
    (hany : (Link.written req env).any (fun w => w.sent == w.frame.length) = true) :
    Link.written req env = [⟨buildSerialFrame req.cmdId req.payload, 14⟩] := by
  unfold Link.written at hany ⊢
  simp only [hr, Bool.false_eq_true, if_false, transmits, List.any_cons, List.any_nil,
    Bool.or_false, beq_iff_eq] at hany ⊢
  rw [hany, length_buildSerialFrame]

/-- Where nothing was owed before, the reply is to the request, which went out whole, and
nothing is owed behind it. -/
theorem answered_request {s s1 : Link} {req : ServiceRequest} {env : Env} {msgs : List Msg}
    {id : Nat} {reply : ReplyFrame} (hr : req.rejects = false) (howed : s.owed = [])
    (hmoved : Moved (s.request req env) s1 msgs) (hmem : .reply id reply ∈ msgs) :
    Link.written req env = [⟨buildSerialFrame req.cmdId req.payload, 14⟩] ∧ id = s.nextId ∧
      s1.owed = [] := by
  have hpaid := hmoved.owed
  have hin : (id, reply.cmd) ∈ msgs.filterMap Msg.answered :=
    List.mem_filterMap.mpr ⟨_, hmem, rfl⟩
  unfold Link.request at hpaid
  simp only [howed, List.nil_append] at hpaid
  split at hpaid
  · rename_i hany
    rcases List.append_eq_singleton_iff.mp hpaid.symm with ⟨hnil, -⟩ | ⟨hone, hrest⟩
    · rw [hnil] at hin
      cases hin
    · rw [hone] at hin
      exact ⟨written_whole hr hany, (Prod.mk.inj (List.mem_singleton.mp hin)).1, hrest⟩
  · rw [(List.append_eq_nil_iff.mp hpaid.symm).1] at hin
    cases hin

/-- A solicited call with nothing owed before it leaves nothing owed when it returns, and its
success rests on the reply to its request. -/
theorem call_agrees (s s1 : Link) (req : ServiceRequest) (env : Env) (moves : List Move)
    (resp : ServiceResponse) (p : Port) (howed : s.owed = [])
    (hsol : Solicited s (.call req env moves))
    (hmoves : exec Link.move moves (s.request req env) = some s1)
    (hcall : handle req (s1.port env) = .done (.returned resp) p) :
    s1.owed = [] ∧ Agrees s1.history ⟨s.nextId, req, resp, p.tx, s1.sentSoFar - p.rx.length⟩ := by
  obtain ⟨msgs, hmoved⟩ := moves_spec moves _ s1 hmoves
  have htx : p.tx = Link.written req env := by
    rw [← handle_tx s1 req env, hcall]
    rfl
  cases hr : req.rejects with
  | true =>
    obtain ⟨resp', hres, hfail, -⟩ := handle_of_rejects req (s1.port env) hr
    rw [hcall] at hres
    cases hres
    have hpaid := hmoved.owed
    simp only [Link.request, Link.written, hr, if_true, transmits, List.any_nil,
      Bool.false_eq_true, if_false, howed] at hpaid
    refine ⟨(List.append_eq_nil_iff.mp hpaid.symm).2, fun hs => ?_⟩
    rw [hfail] at hs
    cases hs
  | false =>
    obtain ⟨hquiet, hahead⟩ := hsol.resolve_left (by simp [hr])
    rw [handle_of_accepts req _ hr] at hcall
    obtain ⟨v, ⟨pre, tail, hend, hlen, rfl, hrx⟩, rfl⟩ := callService_returned hcall
    have hunread : s1.unread = s.unread ++ msgs.flatMap Msg.events := hmoved.unread
    have hrx' : s.unread ++ msgs.flatMap Msg.events = onWire (pre ++ tail) ++ p.rx :=
      hunread.symm.trans hrx
    obtain ⟨before, id, reply, after, x, rfl, hcmd, hx, rfl⟩ := locate (cmdId_ne_fe req) msgs
      s.unread pre hquiet (hahead s1 msgs hmoves hmoved.history)
      (by rw [hrx', onWire_append, List.append_assoc]; exact List.prefix_append _ _) hend
    -- the 14 bytes from the header on are the reply's
    have hbytes : onWire reply.bytes ++ after.flatMap Msg.events =
        onWire (replyHeader req.cmdId ++ tail) ++ p.rx := by
      rw [List.flatMap_append, ← List.append_assoc, hx] at hrx'
      simpa [Msg.events] using hrx'
    obtain ⟨hreply, hafter⟩ := List.append_inj hbytes (by simp [hlen])
    have hv := onWire_injective _ _ hreply
    have hmem : Msg.reply id reply ∈ before ++ .reply id reply :: after := by simp
    obtain ⟨hwhole, rfl, hpaid⟩ := answered_request hr howed hmoved hmem
    have hhist : s1.history = s.history ++ (before ++ .reply s.nextId reply :: after) :=
      hmoved.history
    refine ⟨hpaid, fun _ => ⟨htx.trans hwhole, s.history ++ before, reply, after, ?_, hcmd, ?_, ?_⟩⟩
    · rw [hhist, List.append_assoc]
    · simp [Link.sentSoFar, hhist, ← hafter, Msg.events]
      omega
    · rw [hv]

/-- Between calls nothing is owed, and every report so far agrees. -/
structure Paid (s : Link) : Prop where
  owed : s.stuck = false → s.owed = []
  agrees : ∀ r ∈ s.reports, Agrees s.history r

theorem Paid.moved {s s1 : Link} {msgs : List Msg} (hs : Paid s) (h : Moved s s1 msgs) :
    Paid s1 where
  owed := fun halive => by
    have hpaid := h.owed
    rw [hs.owed (h.stuck.symm.trans halive)] at hpaid
    exact (List.append_eq_nil_iff.mp hpaid.symm).2
  agrees := by
    rw [h.history, h.reports]
    exact fun r hr => (hs.agrees r hr).mono msgs

theorem step_paid (s : Link) (a : Action) (s' : Link) (hs : Paid s) (hsol : Solicited s a)
    (h : s.step a = some s') : Paid s' := by
  unfold Link.step at h
  cases halive : s.stuck with
  | true => simp [halive] at h
  | false =>
    simp only [halive, Bool.false_eq_true, if_false] at h
    cases a with
    | device m =>
      obtain ⟨msgs, hm⟩ := move_spec s m s' h
      exact hs.moved hm
    | tick env =>
      cases hd : readData s.sensors (s.port env) with
      | blocked p =>
        simp only [hd, Option.some.injEq] at h
        subst h
        exact ⟨nofun, hs.agrees⟩
      | done a p =>
        simp only [hd, Option.some.injEq] at h
        subst h
        exact ⟨fun _ => hs.owed halive, hs.agrees⟩
    | call req env moves =>
      obtain ⟨s1, hm, rfl⟩ := Option.map_eq_some_iff.mp h
      obtain ⟨msgs, hmoved⟩ := moves_spec moves _ s1 hm
      have hold : ∀ r ∈ s1.reports, Agrees s1.history r := by
        rw [hmoved.history, hmoved.reports]
        exact fun r hr => (hs.agrees r hr).mono msgs
      cases hc : handle req (s1.port env) with
      | blocked p => exact ⟨nofun, hold⟩
      | done out p =>
        cases out with
        | outOfRange i n => exact ⟨nofun, hold⟩
        | returned resp =>
          obtain ⟨hpaid, hagrees⟩ :=
            call_agrees s s1 req env moves resp p (hs.owed halive) hsol hm hc
          refine ⟨fun _ => hpaid, fun r hr => ?_⟩
          rcases List.mem_append.mp hr with hr | hr
          · exact hold r hr
          · rw [List.mem_singleton.mp hr]
            exact hagrees

/-- **Agreement** holds throughout every run whose calls are all solicited. -/
theorem agrees_of_solicited (as : List Action)
    (hsol : Along Link.step Solicited as Link.start) :
    Throughout Link.step (fun s => ∀ r ∈ s.reports, Agrees s.history r) as Link.start :=
  throughout_of_along step_paid (fun _ h => h.agrees) as Link.start
    ⟨fun _ => rfl, fun _ hr => (List.not_mem_nil hr).elim⟩ hsol

def promptEnv : Env := ⟨true, none, fun _ => 0, fun _ => 1⟩

/-- The device answers with the payload of `r`. -/
def Move.answerAs (r : ReplyFrame) : Move := .answer r.payload r.length_payload

/-- `GetDigitalInput` of pin 1, answered at once. -/
def answeredRun : List Action :=
  [.call (.getDigitalInput ⟨1⟩) promptEnv [.answerAs inputReplyFrame]]

theorem agrees_answeredRun :
    (exec Link.step answeredRun Link.start).map (fun s => s.reports.length) = some 1 ∧
      Throughout Link.step (fun s => ∀ r ∈ s.reports, Agrees s.history r) answeredRun
        Link.start := by
  refine ⟨by decide +kernel, agrees_of_solicited answeredRun fun s _ => ⟨Or.inr ⟨?_, ?_⟩, trivial⟩⟩
  · exact quiet_short _ [] (by simp)
  · intro s1 msgs hmoves hhist m hm
    cases hmoves
    obtain rfl : [Msg.reply 0 inputReplyFrame] = msgs := hhist
    cases hm

/-- Pin 1 is asked while the robot is tilted. -/
def mimicRun : List Action :=
  [.call (.getDigitalInput ⟨1⟩) promptEnv
    [.telemetry tiltedTelemetry, .answerAs inputReplyFrame]]

/-- A piece of telemetry is reported for pin 1. -/
theorem not_agrees_mimic :
    ∃ s, exec Link.step mimicRun Link.start = some s ∧ ∃ r ∈ s.reports, ¬ Agrees s.history r := by
  have heval : (exec Link.step mimicRun Link.start).map (fun s =>
      (s.history, s.reports.map fun r => (r.id, r.response, r.readTo))) =
        some ([.telemetry tiltedTelemetry, .reply 0 inputReplyFrame],
          [(0, .input ⟨⟨true, "Success"⟩, 157⟩, 39)]) := by
    decide +kernel
  obtain ⟨s, hrun, hproj⟩ := Option.map_eq_some_iff.mp heval
  obtain ⟨hhistory, hreports⟩ := Prod.mk.inj hproj
  obtain ⟨r, rest, hr, hfields, -⟩ := List.map_eq_cons_iff.mp hreports
  obtain ⟨hid, hresp, hto⟩ : r.id = 0 ∧ r.response = .input ⟨⟨true, "Success"⟩, 157⟩ ∧
    r.readTo = 39 := by simpa using hfields
  refine ⟨s, hrun, r, by rw [hr]; exact List.mem_cons_self, fun hagree => ?_⟩
  obtain ⟨-, before, reply, after, hhist, -, hpos, -⟩ := hagree (by rw [hresp]; rfl)
  rw [hid, hhistory] at hhist
  rw [hto] at hpos
  -- the reply ends at byte 45
  rcases before with _ | ⟨a, _ | ⟨b, before⟩⟩
  · simp at hhist
  · simp only [List.cons_append, List.nil_append, List.cons.injEq] at hhist
    rw [← hhist.1] at hpos
    simp [Msg.events] at hpos
  · simp at hhist

end AgvPro
