import Mathlib.Data.List.Basic
import Mathlib.Logic.Function.Iterate

/-!
# Frames of the base controller link

Command and reply frames are 14 bytes `FE FE 0B cmd payload[8] crc[2]`, telemetry
frames 31 bytes `FE FE 1C 25 body[25] crc[2]`; the CRC covers every byte before it
and is stored high byte first.  `crc16Ibm` and `buildSerialFrame` are the driver's;
`crcOk n` is the test `is_power_on` (`n = 12`) and `readData` (`n = 29`) apply to
what they read.
-/

namespace AgvPro

def receiveFrameSize : Nat := 31
def receivePayloadSize : Nat := receiveFrameSize - 3

def setLedColor : UInt8 := 0x34
def setLedMode : UInt8 := 0x3A
def setOutputIo : UInt8 := 0x40
def getInputIo : UInt8 := 0x41

/-! ## CRC -/

/-- The body of the inner loop of `crc16_ibm`. -/
def crcBit (crc : UInt16) : UInt16 :=
  if crc &&& 0x0001 ≠ 0 then (crc >>> 1) ^^^ 0xA001 else crc >>> 1

/-- The body of its outer loop. -/
def crcByte (crc : UInt16) (b : UInt8) : UInt16 := crcBit^[8] (crc ^^^ b.toUInt16)

def crc16Ibm (data : List UInt8) : UInt16 := data.foldl crcByte 0xFFFF

/-- The CRC as it stands on the wire, high byte first. -/
def crcBytes (msg : List UInt8) : List UInt8 :=
  [(crc16Ibm msg >>> 8).toUInt8, (crc16Ibm msg).toUInt8]

def withCrc (msg : List UInt8) : List UInt8 := msg ++ crcBytes msg

/-- `(hi << 8) | lo` -/
def be16 (hi lo : UInt8) : UInt16 := (hi.toUInt16 <<< 8) ||| lo.toUInt16

/-- Bytes `n` and `n + 1` are the CRC of the `n` bytes before them. -/
def crcOk (n : Nat) (frame : List UInt8) : Bool :=
  be16 (frame.getD n 0) (frame.getD (n + 1) 0) == crc16Ibm (frame.take n)

/-! ## Frames -/

/-- At most 8 payload bytes are copied into a zeroed frame. -/
def buildSerialFrame (cmdId : UInt8) (payload : List UInt8) : List UInt8 :=
  let frame := [0xFE, 0xFE, 0x0B, cmdId] ++ payload.take 8 ++ List.replicate (8 - payload.length) 0
  let crc := crc16Ibm (frame.take 12)
  frame ++ [(crc >>> 8).toUInt8, crc.toUInt8]

/-- The four bytes a command or reply frame of `cmdId` begins with. -/
def replyHeader (cmdId : UInt8) : List UInt8 := [0xFE, 0xFE, 0x0B, cmdId]

/-- A well-formed reply: any command id, any 8 payload bytes. -/
structure ReplyFrame where
  cmd : UInt8
  payload : List UInt8
  length_payload : payload.length = 8
deriving DecidableEq

def ReplyFrame.bytes (r : ReplyFrame) : List UInt8 := withCrc (replyHeader r.cmd ++ r.payload)

/-- A well-formed telemetry frame: any 25 sensor bytes. -/
structure TelemetryFrame where
  body : List UInt8
  length_body : body.length = 25
deriving DecidableEq

def TelemetryFrame.bytes (t : TelemetryFrame) : List UInt8 :=
  withCrc ([0xFE, 0xFE, 0x1C, 0x25] ++ t.body)

/-! ## Lemmas -/

@[simp] theorem length_crcBytes (msg : List UInt8) : (crcBytes msg).length = 2 := rfl

@[simp] theorem length_withCrc (msg : List UInt8) : (withCrc msg).length = msg.length + 2 := by
  simp [withCrc]

@[simp] theorem length_replyHeader (c : UInt8) : (replyHeader c).length = 4 := rfl

theorem replyHeader_ne_nil (c : UInt8) : replyHeader c ≠ [] := List.cons_ne_nil _ _

/-- What stands behind the header of a reply. -/
def ReplyFrame.tail (r : ReplyFrame) : List UInt8 :=
  r.payload ++ crcBytes (replyHeader r.cmd ++ r.payload)

theorem ReplyFrame.bytes_eq (r : ReplyFrame) : r.bytes = replyHeader r.cmd ++ r.tail := by
  simp [bytes, withCrc, tail]

@[simp] theorem ReplyFrame.length_tail (r : ReplyFrame) : r.tail.length = 10 := by
  simp [tail, r.length_payload]

@[simp] theorem ReplyFrame.length_bytes (r : ReplyFrame) : r.bytes.length = 14 := by
  simp [bytes, r.length_payload]

@[simp] theorem TelemetryFrame.length_bytes (t : TelemetryFrame) : t.bytes.length = 31 := by
  simp [bytes, t.length_body]

theorem buildSerialFrame_eq (cmdId : UInt8) (payload : List UInt8) :
    buildSerialFrame cmdId payload =
      withCrc (replyHeader cmdId ++ payload.take 8 ++ List.replicate (8 - payload.length) 0) := by
  have hlen : (replyHeader cmdId ++ payload.take 8 ++
      List.replicate (8 - payload.length) 0).length = 12 := by
    simp; omega
  have htake := List.take_of_length_le (Nat.le_of_eq hlen)
  unfold replyHeader at htake ⊢
  unfold buildSerialFrame withCrc crcBytes
  simp only [htake]

@[simp] theorem length_buildSerialFrame (cmdId : UInt8) (payload : List UInt8) :
    (buildSerialFrame cmdId payload).length = 14 := by
  rw [buildSerialFrame_eq]
  simp
  omega

/-- What the builder makes of 8 payload bytes is a well-formed frame. -/
theorem buildSerialFrame_eq_bytes (r : ReplyFrame) :
    buildSerialFrame r.cmd r.payload = r.bytes := by
  rw [buildSerialFrame_eq, List.take_of_length_le (Nat.le_of_eq r.length_payload), r.length_payload]
  simp [ReplyFrame.bytes]

theorem toNat_be16 (hi lo : UInt8) : (be16 hi lo).toNat = hi.toNat * 256 + lo.toNat := by
  have hh := hi.toNat_lt
  have hl := lo.toNat_lt
  have e : UInt16.toNat 8 % 16 = 8 := rfl
  unfold be16
  rw [UInt16.toNat_or, UInt16.toNat_shiftLeft, UInt8.toNat_toUInt16, UInt8.toNat_toUInt16, e,
    Nat.shiftLeft_eq, Nat.mod_eq_of_lt (by omega), ← Nat.shiftLeft_eq,
    ← Nat.shiftLeft_add_eq_or_of_lt (by omega), Nat.shiftLeft_eq]

theorem toNat_hiByte (c : UInt16) : (c >>> 8).toUInt8.toNat = c.toNat / 256 := by
  have h := c.toNat_lt
  have e : UInt16.toNat 8 % 16 = 8 := rfl
  rw [UInt16.toNat_toUInt8, UInt16.toNat_shiftRight, e, Nat.shiftRight_eq_div_pow]
  omega

theorem be16_split (c : UInt16) : be16 (c >>> 8).toUInt8 c.toUInt8 = c := by
  apply UInt16.toNat_inj.mp
  rw [toNat_be16, toNat_hiByte, UInt16.toNat_toUInt8]
  omega

theorem split_be16 (hi lo : UInt8) :
    (be16 hi lo >>> 8).toUInt8 = hi ∧ (be16 hi lo).toUInt8 = lo := by
  have hh := hi.toNat_lt
  have hl := lo.toNat_lt
  constructor
  · apply UInt8.toNat_inj.mp
    rw [toNat_hiByte, toNat_be16]
    omega
  · apply UInt8.toNat_inj.mp
    rw [UInt16.toNat_toUInt8, toNat_be16]
    omega

theorem crcOk_append (msg : List UInt8) (hi lo : UInt8) :
    crcOk msg.length (msg ++ [hi, lo]) = (be16 hi lo == crc16Ibm msg) := by
  simp [crcOk]

/-- The test accepts exactly what the sender appends. -/
theorem crcOk_iff (msg : List UInt8) (hi lo : UInt8) :
    crcOk msg.length (msg ++ [hi, lo]) = true ↔ msg ++ [hi, lo] = withCrc msg := by
  rw [crcOk_append, beq_iff_eq]
  constructor
  · intro h
    obtain ⟨e1, e2⟩ := split_be16 hi lo
    unfold withCrc crcBytes
    rw [← h, e1, e2]
  · intro h
    have h' := List.append_cancel_left h
    simp only [crcBytes, List.cons.injEq, and_true] at h'
    rw [h'.1, h'.2, be16_split]

theorem crcOk_withCrc (msg : List UInt8) : crcOk msg.length (withCrc msg) = true :=
  (crcOk_iff msg _ _).mpr rfl

theorem ReplyFrame.crcOk_bytes (r : ReplyFrame) : crcOk 12 r.bytes = true := by
  have h := crcOk_withCrc (replyHeader r.cmd ++ r.payload)
  rwa [List.length_append, length_replyHeader, r.length_payload] at h

theorem TelemetryFrame.crcOk_bytes (t : TelemetryFrame) : crcOk 29 t.bytes = true := by
  have h := crcOk_withCrc ([0xFE, 0xFE, 0x1C, 0x25] ++ t.body)
  rwa [List.length_append, t.length_body] at h

end AgvPro
