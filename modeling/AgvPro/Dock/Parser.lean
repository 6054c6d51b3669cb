import AgvPro.Base.Msgs
import Mathlib.Data.List.Basic

/-!
# The CAN parser of the docking serial line

`SerialCANParser` collects 17 bytes that begin `41 54`, checks the CAN id and the data
length, and decodes 8 data bytes into the tuple `read_serial_data` returns.

    every tuple returned is the decoding of the data bytes of a frame   (readSerialData_sound)
-/

namespace AgvPro

/-- The tuple `read_serial_data` returns. -/
structure Reading where
  xSpeed : ℚ
  zSpeed : ℚ
  whichMode : UInt8
  infraredBits : List UInt8
deriving DecidableEq

/-- The fields that carry over from one call to the next. -/
structure SerialCANParser extends Reading where
  buffer : List UInt8
deriving DecidableEq

def SerialCANParser.new : SerialCANParser := ⟨⟨0, 0, 0, []⟩, []⟩

/-! ## Decoding -/

/-- `high_byte << 3 | low_byte >> 5` -/
def canIdCheck (high low : UInt8) : Nat := (high.toNat <<< 3) ||| (low.toNat >>> 5)

/-- `(hi << 8) | lo`, read as two's complement. -/
def speedRaw (hi lo : UInt8) : Int :=
  let raw := (hi.toNat <<< 8) ||| lo.toNat
  if raw &&& 0x8000 ≠ 0 then -(((65536 - raw) &&& 0xFFFF : Nat) : Int) else (raw : Int)

/-- Most significant bit first. -/
def bitsOf (infrared : UInt8) : List UInt8 :=
  (List.range 8).map fun i => (infrared >>> (7 - i).toUInt8) &&& 0x01

/-- What `parse_can_data` makes of 8 data bytes. -/
def readingOf (data : List UInt8) : Reading where
  xSpeed := (speedRaw (data.getD 0 0) (data.getD 1 0) : ℚ) / 1000
  zSpeed := (speedRaw (data.getD 4 0) (data.getD 5 0) : ℚ) / 1000
  whichMode := data.getD 2 0
  infraredBits := bitsOf (data.getD 6 0)

namespace SerialCANParser

/-- Data of another length leaves the fields as they were. -/
def parseCanData (p : SerialCANParser) (data : List UInt8) : SerialCANParser :=
  if data.length ≠ 8 then p else { p with toReading := readingOf data }

/-! ## Receiving -/

/-- One byte in the loop of `read_serial_data`: a tuple ends the call. -/
def feed (p : SerialCANParser) (byte : UInt8) : SerialCANParser × Option Reading :=
  let buffer := p.buffer ++ [byte]
  if p.buffer.length < 2 then
    if buffer.length = 2 ∧ (buffer.getD 0 0 ≠ 0x41 ∨ buffer.getD 1 0 ≠ 0x54) then
      ({ p with buffer := [] }, none)
    else ({ p with buffer := buffer }, none)
  else if buffer.length ≥ 17 then
    let canFrameId := canIdCheck (buffer.getD 2 0) (buffer.getD 3 0)
    let dataLength := buffer.getD 6 0
    let data := (buffer.take 15).drop 7
    if canFrameId = 0x182 ∧ dataLength = 0x08 then
      let p := { p.parseCanData data with buffer := [] }
      (p, some p.toReading)
    else ({ p with buffer := [] }, none)
  else ({ p with buffer := buffer }, none)

/-- Over the bytes that will arrive; `none` when they end before a tuple does. -/
def readSerialData (p : SerialCANParser) :
    List UInt8 → Option (Reading × SerialCANParser × List UInt8)
  | [] => none
  | byte :: bs =>
    match p.feed byte with
    | (p, some r) => some (r, p, bs)
    | (p, none) => readSerialData p bs

/-! ## Lemmas -/

theorem feed_buffer (p : SerialCANParser) (byte : UInt8) (h : p.buffer.length < 17) :
    (p.feed byte).1.buffer.length < 17 := by
  unfold feed
  simp only
  split_ifs with h1 h2 h3 h4
  · simp
  · simp; omega
  · simp
  · simp
  · simp at h3 ⊢; omega

theorem feed_reading (p p' : SerialCANParser) (byte : UInt8) (r : Reading)
    (hlen : p.buffer.length < 17) (h : p.feed byte = (p', some r)) :
    ∃ data : List UInt8, data.length = 8 ∧ r = readingOf data := by
  unfold feed at h
  simp only at h
  split_ifs at h with h1 h2 h3 h4
  · cases (Prod.mk.inj h).2
  · cases (Prod.mk.inj h).2
  · have hdata : (((p.buffer ++ [byte]).take 15).drop 7).length = 8 := by
      simp at h3 ⊢
      omega
    refine ⟨_, hdata, ?_⟩
    rw [← Option.some.inj (Prod.mk.inj h).2, parseCanData, if_neg (not_not_intro hdata)]
  · cases (Prod.mk.inj h).2
  · cases (Prod.mk.inj h).2

/-- Every tuple is the decoding of 8 data bytes. -/
theorem readSerialData_sound (bs : List UInt8) (p p' : SerialCANParser) (r : Reading)
    (rest : List UInt8) (hlen : p.buffer.length < 17)
    (h : p.readSerialData bs = some (r, p', rest)) :
    ∃ data : List UInt8, data.length = 8 ∧ r = readingOf data := by
  induction bs generalizing p with
  | nil => cases h
  | cons byte bs ih =>
    unfold readSerialData at h
    have hbuf := feed_buffer p byte hlen
    cases hf : p.feed byte with
    | mk p1 out =>
      rw [hf] at h hbuf
      cases out with
      | none => exact ih p1 hbuf h
      | some r' =>
        obtain ⟨data, hdata, hr⟩ := feed_reading p p1 byte r' hlen hf
        cases h
        exact ⟨data, hdata, hr⟩

end SerialCANParser

end AgvPro
