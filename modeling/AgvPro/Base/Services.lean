import AgvPro.Base.SerialTiming

/-!
# The four services

Each handler checks its request, writes one command frame and takes its verdict from a
status byte of the reply.  `SetDigitalOutput` and `GetDigitalInput` narrow the int32
pin to a byte before they check it, the LED handlers after.

    handle req p is a rejection with nothing written, or one frame handed to `write` and
    the status of what `read_serial_response` returns    (handle_of_rejects, handle_of_accepts)
    refused, or the request's own numbers go out ↔ they survive the narrowing, and the
      write does not fail                                                  (faithful_iff)
    success only from a frame with a valid CRC ↔ NoForgedReply req rx  (authentic_iff)
-/

namespace AgvPro

open Window

/-! ## Requests and responses -/

structure SetDigitalOutputRequest where
  pin : Int32
  state : Int32

structure GetDigitalInputRequest where
  pin : Int32

structure SetLedColorRequest where
  position : Int32
  brightness : Int32
  r : Int32
  g : Int32
  b : Int32

structure SetLedModeRequest where
  mode : Bool

structure Response where
  success : Bool := false
  message : String := ""
deriving DecidableEq

structure GetDigitalInputResponse extends Response where
  state : Int32 := 0
deriving DecidableEq

/-- A handler returns its response, or applies `operator[]` past the end of a vector. -/
inductive Outcome (ρ : Type) where
  | returned (response : ρ)
  | outOfRange (index size : Nat)
deriving DecidableEq

def Outcome.map {ρ σ : Type} (f : ρ → σ) : Outcome ρ → Outcome σ
  | .returned r => .returned (f r)
  | .outOfRange i n => .outOfRange i n

/-- `static_cast<uint8_t>` of an int32. -/
def toByte (v : Int32) : UInt8 := v.toUInt32.toUInt8

/-! ## Handlers -/

/-- Write the command, wait 5 s for the reply, read byte `statusAt` of it. -/
def callService {ρ : Type} (cmdId : UInt8) (payload : List UInt8) (statusAt : Nat)
    (reply : UInt8 → ρ) (p : Port) : Result (Outcome ρ) :=
  (readSerialResponse (replyHeader cmdId) 8 (seconds 5)
    (sendSerialFrame (buildSerialFrame cmdId payload) p)).map fun responseFrame =>
      match responseFrame[statusAt]? with
      | some status => .returned (reply status)
      | none => .outOfRange statusAt responseFrame.length

/-- The verdict of the handlers whose status 1 means success. -/
def statusReply (status : UInt8) : Response :=
  if status = 0x01 then { success := true, message := "Success" }
  else { success := false, message := "Failed with status code" }

/-- A failed read leaves the message as it was. -/
def inputReply (status : UInt8) : GetDigitalInputResponse :=
  if status = 0xFF then { success := false }
  else { success := true, message := "Success", state := status.toUInt32.toInt32 }

def handleSetDigitalOutput (request : SetDigitalOutputRequest) (p : Port) :
    Result (Outcome Response) :=
  let outputNumber := toByte request.pin
  let outputState := toByte request.state
  if outputNumber < 1 || outputNumber > 6 then
    .done (.returned { success := false, message := "Invalid output pin number" }) p
  else callService setOutputIo [outputNumber, outputState] 4 statusReply p

def handleGetDigitalInput (request : GetDigitalInputRequest) (p : Port) :
    Result (Outcome GetDigitalInputResponse) :=
  let inputNumber := toByte request.pin
  if inputNumber < 1 || inputNumber > 6 then
    .done (.returned { success := false, message := "Invalid input pin number" }) p
  else callService getInputIo [inputNumber] 5 inputReply p

def handleSetLedColor (request : SetLedColorRequest) (p : Port) : Result (Outcome Response) :=
  if request.position < 0 || request.position > 1 then
    .done (.returned { success := false, message := "Invalid LED position" }) p
  else if request.brightness < 0 || request.brightness > 255 then
    .done (.returned { success := false, message := "Invalid brightness" }) p
  else if request.r < 0 || request.r > 255 || request.g < 0 || request.g > 255 ||
      request.b < 0 || request.b > 255 then
    .done (.returned { success := false, message := "Invalid RGB value" }) p
  else
    callService setLedColor
      [toByte request.position, toByte request.brightness, toByte request.r, toByte request.g,
        toByte request.b]
      4 statusReply p

def handleSetLedMode (request : SetLedModeRequest) (p : Port) : Result (Outcome Response) :=
  let mode : UInt8 := if request.mode then 0x01 else 0x00
  callService setLedMode [mode] 4 statusReply p

/-! ## One view of the four -/

inductive ServiceRequest where
  | setDigitalOutput (r : SetDigitalOutputRequest)
  | getDigitalInput (r : GetDigitalInputRequest)
  | setLedColor (r : SetLedColorRequest)
  | setLedMode (r : SetLedModeRequest)

inductive ServiceResponse where
  | plain (r : Response)
  | input (r : GetDigitalInputResponse)
deriving DecidableEq

def ServiceResponse.success : ServiceResponse → Bool
  | .plain r => r.success
  | .input r => r.success

/-- The digital-input state, 0 where none was set. -/
def ServiceResponse.state : ServiceResponse → Int32
  | .plain _ => 0
  | .input r => r.state

def handle : ServiceRequest → Port → Result (Outcome ServiceResponse)
  | .setDigitalOutput r, p => (handleSetDigitalOutput r p).map (Outcome.map .plain)
  | .getDigitalInput r, p => (handleGetDigitalInput r p).map (Outcome.map .input)
  | .setLedColor r, p => (handleSetLedColor r p).map (Outcome.map .plain)
  | .setLedMode r, p => (handleSetLedMode r p).map (Outcome.map .plain)

namespace ServiceRequest

def cmdId : ServiceRequest → UInt8
  | setDigitalOutput _ => setOutputIo
  | getDigitalInput _ => getInputIo
  | setLedColor _ => AgvPro.setLedColor
  | setLedMode _ => AgvPro.setLedMode

def payload : ServiceRequest → List UInt8
  | setDigitalOutput r => [toByte r.pin, toByte r.state]
  | getDigitalInput r => [toByte r.pin]
  | setLedColor r => [toByte r.position, toByte r.brightness, toByte r.r, toByte r.g, toByte r.b]
  | setLedMode r => [if r.mode then 0x01 else 0x00]

/-- The range check of the handler, on what it checks. -/
def rejects : ServiceRequest → Bool
  | setDigitalOutput r => toByte r.pin < 1 || toByte r.pin > 6
  | getDigitalInput r => toByte r.pin < 1 || toByte r.pin > 6
  | setLedColor r =>
    r.position < 0 || r.position > 1 || (r.brightness < 0 || r.brightness > 255) ||
      (r.r < 0 || r.r > 255 || r.g < 0 || r.g > 255 || r.b < 0 || r.b > 255)
  | setLedMode _ => false

def statusAt : ServiceRequest → Nat
  | getDigitalInput _ => 5
  | _ => 4

def reply : ServiceRequest → UInt8 → ServiceResponse
  | getDigitalInput _, status => .input (inputReply status)
  | _, status => .plain (statusReply status)

end ServiceRequest

/-! ## Lemmas -/

theorem Result.map_map {α β γ : Type} (f : α → β) (g : β → γ) (r : Result α) :
    (r.map f).map g = r.map (g ∘ f) := by
  cases r <;> rfl

theorem callService_map {ρ σ : Type} (cmdId : UInt8) (payload : List UInt8) (statusAt : Nat)
    (reply : UInt8 → ρ) (f : ρ → σ) (p : Port) :
    (callService cmdId payload statusAt reply p).map (Outcome.map f) =
      callService cmdId payload statusAt (f ∘ reply) p := by
  unfold callService
  rw [Result.map_map]
  congr 1
  funext v
  simp only [Function.comp_apply]
  cases v[statusAt]? <;> rfl

/-- A rejected request fails and touches nothing. -/
theorem handle_of_rejects (req : ServiceRequest) (p : Port) (h : req.rejects = true) :
    ∃ resp, handle req p = .done (.returned resp) p ∧ resp.success = false ∧ resp.state = 0 := by
  cases req with
  | setDigitalOutput r =>
    simp only [ServiceRequest.rejects] at h
    simp only [handle, handleSetDigitalOutput, h, if_true]
    exact ⟨_, rfl, rfl, rfl⟩
  | getDigitalInput r =>
    simp only [ServiceRequest.rejects] at h
    simp only [handle, handleGetDigitalInput, h, if_true]
    exact ⟨_, rfl, rfl, rfl⟩
  | setLedColor r =>
    simp only [ServiceRequest.rejects] at h
    simp only [handle, handleSetLedColor]
    split_ifs with h1 h2 h3
    · exact ⟨_, rfl, rfl, rfl⟩
    · exact ⟨_, rfl, rfl, rfl⟩
    · exact ⟨_, rfl, rfl, rfl⟩
    · simp_all
  | setLedMode r => cases h

/-- An accepted request is one exchange with the device. -/
theorem handle_of_accepts (req : ServiceRequest) (p : Port) (h : req.rejects = false) :
    handle req p = callService req.cmdId req.payload req.statusAt req.reply p := by
  cases req with
  | setDigitalOutput r =>
    simp only [ServiceRequest.rejects] at h
    simp only [handle, handleSetDigitalOutput, h, Bool.false_eq_true, if_false, callService_map]
    rfl
  | getDigitalInput r =>
    simp only [ServiceRequest.rejects] at h
    simp only [handle, handleGetDigitalInput, h, Bool.false_eq_true, if_false, callService_map]
    rfl
  | setLedColor r =>
    simp only [ServiceRequest.rejects, Bool.or_eq_false_iff] at h
    obtain ⟨⟨⟨h1, h2⟩, h3, h4⟩, ⟨⟨⟨⟨h5, h6⟩, h7⟩, h8⟩, h9⟩, h10⟩ := h
    simp only [handle, handleSetLedColor, h1, h2, h3, h4, h5, h6, h7, h8, h9, h10, Bool.or_self,
      Bool.false_eq_true, if_false, callService_map]
    rfl
  | setLedMode r =>
    simp only [handle, handleSetLedMode, callService_map]
    rfl

/-- Reading the reply moves only the line: the one write of a call is its command. -/
theorem callService_writes {ρ : Type} (cmdId : UInt8) (payload : List UInt8) (statusAt : Nat)
    (reply : UInt8 → ρ) (p : Port) :
    Writes p (callService cmdId payload statusAt reply p).port
      [buildSerialFrame cmdId payload] := by
  unfold callService
  rw [Result.port_map]
  exact (writes_send _ p).trans (writes_read (replyHeader_ne_nil _) _ _ _)

/-- A service hands over its one frame whatever becomes of the reply. -/
theorem handle_writes (req : ServiceRequest) (p : Port) :
    Writes p (handle req p).port
      (if req.rejects then [] else [buildSerialFrame req.cmdId req.payload]) := by
  cases hr : req.rejects with
  | true =>
    obtain ⟨resp, hres, -⟩ := handle_of_rejects req p hr
    rw [hres]
    exact writes_line p p.toLine
  | false =>
    rw [handle_of_accepts req p hr]
    exact callService_writes _ _ _ _ p

theorem toNat_toByte (v : Int32) : ((toByte v).toNat : Int) = v.toInt % 256 := by
  have h := BitVec.toInt_eq_toNat_cond v.toBitVec
  have e : v.toInt = v.toBitVec.toInt := rfl
  have e' : v.toUInt32.toNat = v.toBitVec.toNat := rfl
  unfold toByte
  rw [UInt32.toNat_toUInt8, e, h, e']
  split <;> omega

/-! ## Request fidelity -/

namespace ServiceRequest

/-- The numbers of the request, in payload order. -/
def requested : ServiceRequest → List Int
  | setDigitalOutput r => [r.pin.toInt, r.state.toInt]
  | getDigitalInput r => [r.pin.toInt]
  | setLedColor r => [r.position.toInt, r.brightness.toInt, r.r.toInt, r.g.toInt, r.b.toInt]
  | setLedMode r => [if r.mode then 1 else 0]

/-- The ranges of the services: pins 1 to 6, two LED positions, bytes for the rest. -/
def InRange : ServiceRequest → Prop
  | setDigitalOutput r => 1 ≤ r.pin.toInt ∧ r.pin.toInt ≤ 6
  | getDigitalInput r => 1 ≤ r.pin.toInt ∧ r.pin.toInt ≤ 6
  | setLedColor r => (0 ≤ r.position.toInt ∧ r.position.toInt ≤ 1) ∧
      ∀ v ∈ [r.brightness.toInt, r.r.toInt, r.g.toInt, r.b.toInt], 0 ≤ v ∧ v ≤ 255
  | setLedMode _ => True

end ServiceRequest

/-- A frame of the request's command whose payload bytes are the requested numbers, the
unused ones 0. -/
def Carries (req : ServiceRequest) (frame : List UInt8) : Prop :=
  ∃ payload : List UInt8, payload.map (fun b => (b.toNat : Int)) = req.requested ∧
    frame = withCrc (replyHeader req.cmdId ++ payload ++ List.replicate (8 - payload.length) 0)

/-- Refused: failure is reported and nothing handed to `write`. -/
def FailsSilently (req : ServiceRequest) (p : Port) : Prop :=
  ∃ resp p', handle req p = .done (.returned resp) p' ∧ resp.success = false ∧ p'.tx = p.tx

/-- One frame with the request's numbers goes out, all 14 bytes of it. -/
def SendsRequest (req : ServiceRequest) (p : Port) : Prop :=
  ∃ frame, (handle req p).port.tx = p.tx ++ [⟨frame, 14⟩] ∧ Carries req frame ∧ req.InRange

/-- A request is either refused with nothing written, or sent as it is. -/
def Faithful (req : ServiceRequest) (p : Port) : Prop :=
  (FailsSilently req p ∨ SendsRequest req p) ∧ ¬ (FailsSilently req p ∧ SendsRequest req p)

/-- The pin check survives the narrowing, and an accepted state is a byte. -/
def NarrowsExactly : ServiceRequest → Prop
  | .setDigitalOutput r => r.pin.toInt % 256 < 1 ∨ 6 < r.pin.toInt % 256 ∨
      (1 ≤ r.pin.toInt ∧ r.pin.toInt ≤ 6 ∧ 0 ≤ r.state.toInt ∧ r.state.toInt ≤ 255)
  | .getDigitalInput r => r.pin.toInt % 256 < 1 ∨ 6 < r.pin.toInt % 256 ∨
      (1 ≤ r.pin.toInt ∧ r.pin.toInt ≤ 6)
  | .setLedColor _ => True
  | .setLedMode _ => True

theorem rejects_pin_iff (pin : Int32) :
    (toByte pin < 1 || toByte pin > 6) = true ↔ pin.toInt % 256 < 1 ∨ 6 < pin.toInt % 256 := by
  have h := toNat_toByte pin
  rw [Bool.or_eq_true, decide_eq_true_eq, decide_eq_true_eq, gt_iff_lt, UInt8.lt_iff_toNat_lt,
    UInt8.lt_iff_toNat_lt, show UInt8.toNat 1 = 1 from rfl, show UInt8.toNat 6 = 6 from rfl]
  omega

theorem inRange_of_accepts_led (r : SetLedColorRequest)
    (h : (ServiceRequest.setLedColor r).rejects = false) :
    (ServiceRequest.setLedColor r).InRange := by
  simp only [ServiceRequest.rejects, Bool.or_eq_false_iff, decide_eq_false_iff_not, gt_iff_lt,
    Int32.lt_iff_toInt_lt, Int.not_lt] at h
  obtain ⟨⟨⟨h1, h2⟩, h3, h4⟩, ⟨⟨⟨⟨h5, h6⟩, h7⟩, h8⟩, h9⟩, h10⟩ := h
  exact ⟨⟨h1, h2⟩, by simp only [List.forall_mem_cons]; exact
    ⟨⟨h3, h4⟩, ⟨h5, h6⟩, ⟨h7, h8⟩, ⟨h9, h10⟩, fun v hv => by cases hv⟩⟩

@[simp] theorem length_payload (req : ServiceRequest) :
    req.payload.length = req.requested.length := by
  cases req <;> rfl

theorem length_payload_le (req : ServiceRequest) : req.payload.length ≤ 8 := by
  cases req <;> simp [ServiceRequest.requested]

theorem buildSerialFrame_payload (req : ServiceRequest) :
    buildSerialFrame req.cmdId req.payload =
      withCrc
        (replyHeader req.cmdId ++ req.payload ++ List.replicate (8 - req.payload.length) 0) := by
  rw [buildSerialFrame_eq, List.take_of_length_le (length_payload_le req)]

/-- The frame the handler builds carries the request iff no number was cut. -/
theorem carries_iff (req : ServiceRequest) :
    Carries req (buildSerialFrame req.cmdId req.payload) ↔
      req.payload.map (fun b => (b.toNat : Int)) = req.requested := by
  rw [buildSerialFrame_payload]
  constructor
  · rintro ⟨payload, hreq, hframe⟩
    have hlen : payload.length = req.payload.length := by
      rw [length_payload, ← hreq, List.length_map]
    obtain ⟨hmsg, -⟩ := List.append_inj hframe (by simp [hlen])
    obtain ⟨hhead, -⟩ := List.append_inj hmsg (by simp [hlen])
    rwa [List.append_cancel_left hhead]
  · intro h
    exact ⟨req.payload, h, rfl⟩

theorem narrows_iff (req : ServiceRequest) (h : req.rejects = false) :
    NarrowsExactly req ↔
      req.payload.map (fun b => (b.toNat : Int)) = req.requested ∧ req.InRange := by
  cases req with
  | setDigitalOutput r =>
    have hpin := mt (rejects_pin_iff r.pin).mpr (by simpa [ServiceRequest.rejects] using h)
    simp only [NarrowsExactly, ServiceRequest.payload, ServiceRequest.requested,
      ServiceRequest.InRange, List.map_cons, List.map_nil, toNat_toByte, List.cons.injEq, and_true]
    omega
  | getDigitalInput r =>
    have hpin := mt (rejects_pin_iff r.pin).mpr (by simpa [ServiceRequest.rejects] using h)
    simp only [NarrowsExactly, ServiceRequest.payload, ServiceRequest.requested,
      ServiceRequest.InRange, List.map_cons, List.map_nil, toNat_toByte, List.cons.injEq, and_true]
    omega
  | setLedColor r =>
    have hr := inRange_of_accepts_led r h
    refine ⟨fun _ => ⟨?_, hr⟩, fun _ => trivial⟩
    simp only [ServiceRequest.InRange, List.forall_mem_cons] at hr
    simp only [ServiceRequest.payload, ServiceRequest.requested, List.map_cons, List.map_nil,
      toNat_toByte, List.cons.injEq, and_true]
    omega
  | setLedMode r =>
    refine ⟨fun _ => ⟨?_, trivial⟩, fun _ => trivial⟩
    simp only [ServiceRequest.payload, ServiceRequest.requested]
    cases r.mode <;> rfl

theorem narrowsExactly_of_rejects (req : ServiceRequest) (h : req.rejects = true) :
    NarrowsExactly req := by
  cases req with
  | setDigitalOutput r =>
    rcases (rejects_pin_iff r.pin).mp h with h | h
    · exact Or.inl h
    · exact Or.inr (Or.inl h)
  | getDigitalInput r =>
    rcases (rejects_pin_iff r.pin).mp h with h | h
    · exact Or.inl h
    · exact Or.inr (Or.inl h)
  | setLedColor r => trivial
  | setLedMode r => trivial

/-- An accepted request is one write of its frame, as far as that write gets. -/
theorem handle_tx_of_accepts (req : ServiceRequest) (p : Port) (h : req.rejects = false) :
    (handle req p).port.tx =
      p.tx ++ [⟨buildSerialFrame req.cmdId req.payload, bytesOut p.isOpen (p.throwsAt 0) 14⟩] := by
  have htx := (handle_writes req p).tx
  rwa [h, if_neg Bool.false_ne_true, transmits, transmits, length_buildSerialFrame] at htx

/-- **Request fidelity** holds of exactly the requests the narrowing does not change, where
they are refused or the write goes through. -/
theorem faithful_iff (req : ServiceRequest) (p : Port) :
    Faithful req p ↔
      NarrowsExactly req ∧ (req.rejects = true ∨ p.isOpen = true ∧ p.throwsAt 0 = none) := by
  cases hr : req.rejects with
  | true =>
    obtain ⟨resp, hres, hfail, -⟩ := handle_of_rejects req p hr
    have hsend : ¬ SendsRequest req p := by
      rintro ⟨frame, htx, -⟩
      rw [hres] at htx
      have := congrArg List.length htx
      simp [Result.port] at this
    refine ⟨fun _ => ⟨narrowsExactly_of_rejects req hr, Or.inl rfl⟩,
      fun _ => ⟨Or.inl ?_, fun h => hsend h.2⟩⟩
    exact ⟨resp, p, hres, hfail, rfl⟩
  | false =>
    have htx := handle_tx_of_accepts req p hr
    have hquiet : ¬ FailsSilently req p := by
      rintro ⟨resp, p', hres, -, hp'⟩
      rw [hres] at htx
      have := congrArg List.length (hp'.symm.trans htx)
      simp at this
    have hsend : SendsRequest req p ↔
        NarrowsExactly req ∧ p.isOpen = true ∧ p.throwsAt 0 = none := by
      rw [narrows_iff req hr, ← carries_iff, ← bytesOut_eq_iff (by decide : 0 < 14)]
      constructor
      · rintro ⟨frame, htx', hc, hin⟩
        obtain ⟨rfl, hsent⟩ := Transmit.mk.inj
          (List.singleton_inj.mp (List.append_cancel_left (htx.symm.trans htx')))
        exact ⟨⟨hc, hin⟩, hsent⟩
      · rintro ⟨⟨hc, hin⟩, hsent⟩
        rw [hsent] at htx
        exact ⟨_, htx, hc, hin⟩
    rw [or_iff_right Bool.false_ne_true, ← hsend]
    exact ⟨fun h => h.1.resolve_left hquiet, fun h => ⟨Or.inr h, fun h' => hquiet h'.1⟩⟩

/-- An open port on which the device has just answered `SetDigitalOutput` with status 1. -/
def answeringPort : Port where
  rx := onWire (buildSerialFrame setOutputIo [1])
  clock := fun _ => 0
  split := fun _ => 1
  isOpen := true
  throwsAt := fun _ => none
  tx := []

/-- Pin 257 is narrowed to 1, passes the check and is sent as pin 1. -/
theorem not_faithful_pin_257 : ¬ Faithful (.setDigitalOutput ⟨257, 1⟩) answeringPort := by
  rintro ⟨⟨resp, p', hres, -, htx⟩ | ⟨frame, -, -, hin⟩, -⟩
  · have hone : (handle (.setDigitalOutput ⟨257, 1⟩) answeringPort).port.tx.length = 1 := by
      decide +kernel
    rw [hres] at hone
    simp [Result.port, htx, answeringPort] at hone
  · exact absurd hin.2 (by decide)

/-! ## Authenticity -/

/-- The status byte makes the handler report success. -/
def ServiceRequest.succeedsOn : ServiceRequest → UInt8 → Bool
  | .getDigitalInput _, status => status != 0xFF
  | _, status => status == 0x01

/-- A complete reply frame of the command, with a correct CRC. -/
structure ValidReply (cmdId : UInt8) (frame : List UInt8) : Prop where
  length : frame.length = 14
  header : replyHeader cmdId <+: frame
  crc : crcOk 12 frame = true

/-- Whatever the clock, the chunks and the write do: a reported success, or a reported
input state, rests on a valid reply, the last 14 bytes the call has read. -/
def Authentic (req : ServiceRequest) (rx : List RxEvent) : Prop :=
  ∀ p : Port, p.rx = rx → ∀ resp p', handle req p = .done (.returned resp) p' →
    (resp.success = true ∨ resp.state ≠ 0) →
    ∃ pre frame, rx = onWire (pre ++ frame) ++ p'.rx ∧ ValidReply req.cmdId frame

/-- The frame at the first occurrence of the reply header, if all there before any error,
has a correct CRC unless its status is a failure. -/
def NoForgedReply (req : ServiceRequest) (rx : List RxEvent) : Prop :=
  req.rejects = true ∨ ∀ frame rx', FrameAt (replyHeader req.cmdId) 8 rx frame rx' →
    req.succeedsOn (frame.getD req.statusAt 0) = true → crcOk 12 frame = true

theorem reply_success (req : ServiceRequest) (status : UInt8) :
    (req.reply status).success = req.succeedsOn status := by
  have hstatus : (ServiceResponse.plain (statusReply status)).success = (status == 0x01) := by
    unfold statusReply ServiceResponse.success
    by_cases h : status = 0x01 <;> simp [h]
  cases req with
  | setDigitalOutput r => exact hstatus
  | getDigitalInput r =>
    unfold ServiceRequest.reply inputReply ServiceResponse.success ServiceRequest.succeedsOn
    by_cases h : status = 0xFF <;> simp [h]
  | setLedColor r => exact hstatus
  | setLedMode r => exact hstatus

/-- A state is reported only with success. -/
theorem reply_state (req : ServiceRequest) (status : UInt8) (h : (req.reply status).state ≠ 0) :
    req.succeedsOn status = true := by
  cases req with
  | getDigitalInput r =>
    by_contra hs
    have hff : status = 0xFF := by simpa [ServiceRequest.succeedsOn] using hs
    subst hff
    exact h rfl
  | setDigitalOutput r => exact absurd rfl h
  | setLedColor r => exact absurd rfl h
  | setLedMode r => exact absurd rfl h

/-- A response rests on the status byte of the frame the reader found. -/
theorem callService_returned {ρ : Type} {cmdId : UInt8} {payload : List UInt8} {statusAt : Nat}
    {reply : UInt8 → ρ} {p p' : Port} {resp : ρ}
    (h : callService cmdId payload statusAt reply p = .done (.returned resp) p') :
    ∃ v, FrameAt (replyHeader cmdId) 8 p.rx v p'.rx ∧ resp = reply (v.getD statusAt 0) := by
  unfold callService at h
  cases hr : readSerialResponse (replyHeader cmdId) 8 (seconds 5)
      (sendSerialFrame (buildSerialFrame cmdId payload) p) with
  | blocked p1 => rw [hr] at h; cases h
  | done v p1 =>
    rw [hr] at h
    simp only [Result.map, Result.done.injEq] at h
    obtain ⟨hout, rfl⟩ := h
    cases hv : v[statusAt]? with
    | none => rw [hv] at hout; cases hout
    | some status =>
      rw [hv] at hout
      have hne : v ≠ [] := by rintro rfl; cases hv
      have hframe := readSerialResponse_sound (replyHeader_ne_nil _) hr hne
      refine ⟨v, hframe, ?_⟩
      rw [List.getD_eq_getElem?_getD, hv]
      exact (Outcome.returned.inj hout).symm

/-- A frame that is all there and read in time is answered. -/
theorem callService_complete {ρ : Type} {cmdId : UInt8} (payload : List UInt8) {statusAt : Nat}
    (reply : UInt8 → ρ) {p : Port} {v : List UInt8} {rx' : List RxEvent} (hopen : p.isOpen = true)
    (hclock : InTime (seconds 5) p.clock) (hv : FrameAt (replyHeader cmdId) 8 p.rx v rx')
    (hat : statusAt < 14) :
    ∃ p', callService cmdId payload statusAt reply p =
      .done (.returned (reply (v.getD statusAt 0))) p' ∧ p'.rx = rx' := by
  obtain ⟨p', hr, hrx⟩ := readSerialResponse_complete (replyHeader_ne_nil cmdId)
    (p := sendSerialFrame (buildSerialFrame cmdId payload) p) hopen hclock hv
  refine ⟨p', ?_, hrx⟩
  unfold callService
  rw [hr, List.getD_eq_getElem?_getD]
  have hlt : statusAt < v.length := by rw [hv.length]; exact hat
  simp [Result.map, List.getElem?_eq_getElem hlt]

/-- A clock that stands still meets every deadline. -/
theorem inTime_still : InTime (seconds 5) fun _ => 0 :=
  fun _ => (by decide : (0 : Int) - 0 < seconds 5)

theorem statusAt_lt (req : ServiceRequest) : req.statusAt < 14 := by
  cases req <;> exact Nat.le_of_ble_eq_true rfl

/-- **Authenticity** holds of exactly the streams that hold no forged reply. -/
theorem authentic_iff (req : ServiceRequest) (rx : List RxEvent) :
    Authentic req rx ↔ NoForgedReply req rx := by
  cases hr : req.rejects with
  | true =>
    refine ⟨fun _ => Or.inl hr, fun _ p _ resp p' hres hs => ?_⟩
    obtain ⟨resp', hres', hfail, hstate⟩ := handle_of_rejects req p hr
    rw [hres] at hres'
    cases hres'
    rcases hs with hs | hs
    · rw [hfail] at hs; cases hs
    · exact absurd hstate hs
  | false =>
    constructor
    · intro h
      refine Or.inr fun frame rx' hframe hsucc => ?_
      obtain ⟨p', hres, hrx⟩ := callService_complete req.payload req.reply
        (p := .ready rx) rfl inTime_still hframe (statusAt_lt req)
      rw [← handle_of_accepts req _ hr] at hres
      obtain ⟨pre, frame', hrx', hvalid⟩ := h _ rfl _ _ hres
        (Or.inl (by rw [reply_success]; exact hsucc))
      -- both frames are the 14 bytes before what is left
      obtain ⟨pre', hpre'⟩ := hframe.consumed
      rw [hrx] at hrx'
      have hwire := onWire_injective _ _ (List.append_cancel_right (hrx'.symm.trans hpre'))
      obtain ⟨-, rfl⟩ := List.append_inj' hwire (by rw [hvalid.length, hframe.length])
      exact hvalid.crc
    · rintro (h | h) p rfl resp p' hres hs
      · rw [hr] at h; cases h
      · rw [handle_of_accepts req p hr] at hres
        obtain ⟨v, hframe, rfl⟩ := callService_returned hres
        have hsucc : req.succeedsOn (v.getD req.statusAt 0) = true := by
          rcases hs with hs | hs
          · rwa [reply_success] at hs
          · exact reply_state req _ hs
        obtain ⟨pre, hpre⟩ := hframe.consumed
        refine ⟨pre, v, hpre, hframe.length, ?_, h v p'.rx hframe hsucc⟩
        obtain ⟨-, tail, -, -, rfl, -⟩ := hframe
        exact List.prefix_append _ _

/-- A reply frame with status 1 and a CRC of 0. -/
def forgedReply : List UInt8 := [0xFE, 0xFE, 0x0B, 0x40, 0x01] ++ List.replicate 9 0

/-- `SetDigitalOutput` reports success on it. -/
theorem not_authentic_forgedReply :
    ¬ Authentic (.setDigitalOutput ⟨1, 1⟩) (onWire forgedReply) := by
  intro h
  have hvalue : (handle (.setDigitalOutput ⟨1, 1⟩)
      { answeringPort with rx := onWire forgedReply }).value? =
        some (.returned (.plain ⟨true, "Success"⟩)) := by
    decide +kernel
  obtain ⟨p', hres⟩ := Result.eq_done hvalue
  obtain ⟨pre, frame, hrx, hvalid⟩ := h _ rfl _ _ hres (Or.inl rfl)
  have hlen := congrArg List.length hrx
  rw [List.length_append, length_onWire, length_onWire, List.length_append, hvalid.length] at hlen
  obtain rfl : pre = [] := List.eq_nil_of_length_eq_zero (by simp [forgedReply] at hlen; omega)
  obtain ⟨hframe, -⟩ := List.append_inj
    (show onWire forgedReply ++ [] = onWire frame ++ p'.rx by simpa using hrx)
    (by simp [hvalid.length, forgedReply])
  obtain rfl := onWire_injective _ _ hframe
  exact absurd hvalid.crc (by decide +kernel)

end AgvPro
