import AgvPro.Base.Command

/-!
# What a telemetry frame carries

The 25 bytes behind `FE FE 1C 25` hold sixteen values: three signed bytes, four plain ones
and nine big-endian signed words.  `Slot` says where a field stands in the buffer and how
it is read, `Member.slot` is the layout `readData` uses.

    a field is the same in two buffers ↔ its own bytes are             (Slot.read_eq_iff)
    values ↔ accepted frames, one to one; each byte read once      (decoding_bijective)
-/

namespace AgvPro

/-! ## Layout -/

/-- How a field is read, with the offset of its first byte. -/
inductive Slot where
  | int8 (i : Nat)
  | uint8 (i : Nat)
  | tenths (i : Nat)
  | int16 (i : Nat)

namespace Slot

def read (buf : List UInt8) : Slot → ℚ
  | int8 i => int8At buf i
  | uint8 i => (buf.getD i 0).toNat
  | tenths i => ((buf.getD i 0).toNat : ℚ) / 10
  | int16 i => int16At buf i

/-- The offsets of the bytes it reads. -/
def bytes : Slot → List Nat
  | int8 i => [i]
  | uint8 i => [i]
  | tenths i => [i]
  | int16 i => [i, i + 1]

end Slot

/-- The fields of `SensorState`, one for each number decoded. -/
inductive Member where
  | vx
  | vy
  | vtheta
  | motorStatus
  | motorError
  | batteryVoltage
  | enableStatus
  | accelerationX
  | accelerationY
  | accelerationZ
  | velocityX
  | velocityY
  | velocityZ
  | roll
  | pitch
  | yaw
deriving DecidableEq

namespace Member

def of (s : SensorState) : Member → ℚ
  | vx => s.vx
  | vy => s.vy
  | vtheta => s.vtheta
  | motorStatus => s.motorStatus.toNat
  | motorError => s.motorError.toNat
  | batteryVoltage => s.batteryVoltage
  | enableStatus => s.enableStatus.toNat
  | accelerationX => s.linearAcceleration.x
  | accelerationY => s.linearAcceleration.y
  | accelerationZ => s.linearAcceleration.z
  | velocityX => s.angularVelocity.x
  | velocityY => s.angularVelocity.y
  | velocityZ => s.angularVelocity.z
  | roll => s.roll
  | pitch => s.pitch
  | yaw => s.yaw

def slot : Member → Slot
  | vx => .int8 4
  | vy => .int8 5
  | vtheta => .int8 6
  | motorStatus => .uint8 7
  | motorError => .uint8 8
  | batteryVoltage => .tenths 9
  | enableStatus => .uint8 10
  | accelerationX => .int16 11
  | accelerationY => .int16 13
  | accelerationZ => .int16 15
  | velocityX => .int16 17
  | velocityY => .int16 19
  | velocityZ => .int16 21
  | roll => .int16 23
  | pitch => .int16 25
  | yaw => .int16 27

/-- In the order of the frame. -/
def all : List Member :=
  [vx, vy, vtheta, motorStatus, motorError, batteryVoltage, enableStatus, accelerationX,
    accelerationY, accelerationZ, velocityX, velocityY, velocityZ, roll, pitch, yaw]

/-- The field byte `i` belongs to. -/
def atByte (i : Nat) : Member := (all.find? fun f => f.slot.bytes.contains i).getD vx

theorem mem_all (f : Member) : f ∈ all := by
  cases f <;> decide

/-- The layout is the one of `decode`. -/
theorem of_decode (f : Member) (buf : List UInt8) : f.of (decode buf) = f.slot.read buf := by
  cases f <;> rfl

end Member

/-- The slots share no byte of the body and leave none out. -/
theorem mem_bytes_iff (f : Member) (i : Nat) (hlo : 4 ≤ i) (hhi : i ≤ 28) :
    i ∈ f.slot.bytes ↔ f = Member.atByte i := by
  have h : ∀ i ∈ List.range' 4 25, ∀ f ∈ Member.all, i ∈ f.slot.bytes ↔ f = Member.atByte i := by
    decide +kernel
  exact h i (List.mem_range'_1.mpr ⟨hlo, by omega⟩) f (Member.mem_all f)

/-! ## Every bit of a field -/

theorem hundredths_inj {m n : Int} (h : (m : ℚ) / 100 = (n : ℚ) / 100) : m = n := by
  have hq : (m : ℚ) = n := by linarith
  exact Int.cast_injective hq

theorem int8At_eq_iff (buf buf' : List UInt8) (i : Nat) :
    int8At buf i = int8At buf' i ↔ buf.getD i 0 = buf'.getD i 0 := by
  constructor
  · intro h
    have hsigned : (buf.getD i 0).toInt8 = (buf'.getD i 0).toInt8 :=
      Int8.toInt_inj.mp (hundredths_inj h)
    exact congrArg Int8.toUInt8 hsigned
  · intro h
    unfold int8At
    rw [h]

theorem int16At_eq_iff (buf buf' : List UInt8) (i : Nat) :
    int16At buf i = int16At buf' i ↔
      buf.getD i 0 = buf'.getD i 0 ∧ buf.getD (i + 1) 0 = buf'.getD (i + 1) 0 := by
  constructor
  · intro h
    have hsigned := Int16.toInt_inj.mp (hundredths_inj h)
    have hword : be16 (buf.getD i 0) (buf.getD (i + 1) 0) =
        be16 (buf'.getD i 0) (buf'.getD (i + 1) 0) := congrArg Int16.toUInt16 hsigned
    obtain ⟨hhi, hlo⟩ := split_be16 (buf.getD i 0) (buf.getD (i + 1) 0)
    obtain ⟨hhi', hlo'⟩ := split_be16 (buf'.getD i 0) (buf'.getD (i + 1) 0)
    rw [hword] at hhi hlo
    exact ⟨hhi.symm.trans hhi', hlo.symm.trans hlo'⟩
  · rintro ⟨hhi, hlo⟩
    unfold int16At
    rw [hhi, hlo]

/-- A field reads its bytes and no other, and every bit of them. -/
theorem Slot.read_eq_iff (f : Slot) (buf buf' : List UInt8) :
    f.read buf = f.read buf' ↔ ∀ i ∈ f.bytes, buf.getD i 0 = buf'.getD i 0 := by
  cases f with
  | int8 i =>
    rw [Slot.bytes, List.forall_mem_singleton]
    exact int8At_eq_iff buf buf' i
  | uint8 i =>
    rw [Slot.bytes, List.forall_mem_singleton, Slot.read, Slot.read, Nat.cast_inj,
      UInt8.toNat_inj]
  | tenths i =>
    rw [Slot.bytes, List.forall_mem_singleton, Slot.read, Slot.read,
      div_left_inj' (by norm_num), Nat.cast_inj, UInt8.toNat_inj]
  | int16 i =>
    rw [Slot.bytes, List.forall_mem_cons, List.forall_mem_singleton]
    exact int16At_eq_iff buf buf' i

/-- One field is read from byte `i`: whatever else is there, every change of it shows in
that field and in no other. -/
def ReadOnce (i : Nat) : Prop :=
  ∃ f : Member, ∀ (buf : List UInt8) (b : UInt8), i < buf.length → b ≠ buf.getD i 0 →
    ∀ g : Member, g.of (decode (buf.set i b)) ≠ g.of (decode buf) ↔ g = f

theorem getD_set (buf : List UInt8) (i j : Nat) (b : UInt8) (hi : i < buf.length) :
    (buf.set i b).getD j 0 = if i = j then b else buf.getD j 0 := by
  rw [List.getD_eq_getElem?_getD, List.getD_eq_getElem?_getD, List.getElem?_set]
  split_ifs with hij
  · rfl
  · rfl

theorem readOnce_body (i : Nat) (hlo : 4 ≤ i) (hhi : i ≤ 28) : ReadOnce i := by
  refine ⟨Member.atByte i, fun buf b hi hb g => ?_⟩
  rw [← mem_bytes_iff g i hlo hhi, Member.of_decode, Member.of_decode, Ne, Slot.read_eq_iff]
  constructor
  · intro h
    by_contra hmem
    apply h
    intro j hj
    have hij : i ≠ j := fun e => hmem (e ▸ hj)
    rw [getD_set buf i j b hi, if_neg hij]
  · intro hmem h
    have hsame := h i hmem
    rw [getD_set buf i i b hi, if_pos rfl] at hsame
    exact hb hsame

/-! ## Values and frames -/

/-- What the sixteen slots can hold. -/
structure TelemetryValues where
  vx : Int8
  vy : Int8
  vtheta : Int8
  motorStatus : UInt8
  motorError : UInt8
  batteryVoltage : UInt8
  enableStatus : UInt8
  accelerationX : Int16
  accelerationY : Int16
  accelerationZ : Int16
  velocityX : Int16
  velocityY : Int16
  velocityZ : Int16
  roll : Int16
  pitch : Int16
  yaw : Int16
deriving DecidableEq

namespace TelemetryValues

/-- In hundredths, the battery in tenths, the status bytes as they are. -/
def scaled (v : TelemetryValues) : SensorState where
  vx := (v.vx.toInt : ℚ) / 100
  vy := (v.vy.toInt : ℚ) / 100
  vtheta := (v.vtheta.toInt : ℚ) / 100
  motorStatus := v.motorStatus
  motorError := v.motorError
  batteryVoltage := (v.batteryVoltage.toNat : ℚ) / 10
  enableStatus := v.enableStatus
  linearAcceleration := ⟨(v.accelerationX.toInt : ℚ) / 100, (v.accelerationY.toInt : ℚ) / 100,
    (v.accelerationZ.toInt : ℚ) / 100⟩
  angularVelocity := ⟨(v.velocityX.toInt : ℚ) / 100, (v.velocityY.toInt : ℚ) / 100,
    (v.velocityZ.toInt : ℚ) / 100⟩
  roll := (v.roll.toInt : ℚ) / 100
  pitch := (v.pitch.toInt : ℚ) / 100
  yaw := (v.yaw.toInt : ℚ) / 100

def frame (v : TelemetryValues) : TelemetryFrame :=
  ⟨[v.vx.toUInt8, v.vy.toUInt8, v.vtheta.toUInt8, v.motorStatus, v.motorError, v.batteryVoltage,
    v.enableStatus, hiByte v.accelerationX, loByte v.accelerationX, hiByte v.accelerationY,
    loByte v.accelerationY, hiByte v.accelerationZ, loByte v.accelerationZ, hiByte v.velocityX,
    loByte v.velocityX, hiByte v.velocityY, loByte v.velocityY, hiByte v.velocityZ,
    loByte v.velocityZ, hiByte v.roll, loByte v.roll, hiByte v.pitch, loByte v.pitch, hiByte v.yaw,
    loByte v.yaw], rfl⟩

/-- What `decode` finds in a buffer, before scaling. -/
def found (buf : List UInt8) : TelemetryValues where
  vx := (buf.getD 4 0).toInt8
  vy := (buf.getD 5 0).toInt8
  vtheta := (buf.getD 6 0).toInt8
  motorStatus := buf.getD 7 0
  motorError := buf.getD 8 0
  batteryVoltage := buf.getD 9 0
  enableStatus := buf.getD 10 0
  accelerationX := (be16 (buf.getD 11 0) (buf.getD 12 0)).toInt16
  accelerationY := (be16 (buf.getD 13 0) (buf.getD 14 0)).toInt16
  accelerationZ := (be16 (buf.getD 15 0) (buf.getD 16 0)).toInt16
  velocityX := (be16 (buf.getD 17 0) (buf.getD 18 0)).toInt16
  velocityY := (be16 (buf.getD 19 0) (buf.getD 20 0)).toInt16
  velocityZ := (be16 (buf.getD 21 0) (buf.getD 22 0)).toInt16
  roll := (be16 (buf.getD 23 0) (buf.getD 24 0)).toInt16
  pitch := (be16 (buf.getD 25 0) (buf.getD 26 0)).toInt16
  yaw := (be16 (buf.getD 27 0) (buf.getD 28 0)).toInt16

theorem decode_eq (buf : List UInt8) : decode buf = (found buf).scaled := rfl

theorem toInt16_be16 (a : Int16) : (be16 (hiByte a) (loByte a)).toInt16 = a := by
  rw [be16_split_signed]
  rfl

theorem found_frame (v : TelemetryValues) : found v.frame.bytes = v := by
  show (⟨v.vx, v.vy, v.vtheta, v.motorStatus, v.motorError, v.batteryVoltage, v.enableStatus,
    (be16 (hiByte v.accelerationX) (loByte v.accelerationX)).toInt16,
    (be16 (hiByte v.accelerationY) (loByte v.accelerationY)).toInt16,
    (be16 (hiByte v.accelerationZ) (loByte v.accelerationZ)).toInt16,
    (be16 (hiByte v.velocityX) (loByte v.velocityX)).toInt16,
    (be16 (hiByte v.velocityY) (loByte v.velocityY)).toInt16,
    (be16 (hiByte v.velocityZ) (loByte v.velocityZ)).toInt16,
    (be16 (hiByte v.roll) (loByte v.roll)).toInt16,
    (be16 (hiByte v.pitch) (loByte v.pitch)).toInt16,
    (be16 (hiByte v.yaw) (loByte v.yaw)).toInt16⟩ : TelemetryValues) = v
  simp only [toInt16_be16]

theorem decode_frame (v : TelemetryValues) : decode v.frame.bytes = v.scaled := by
  rw [decode_eq, found_frame]

end TelemetryValues

/-- Frames that decode to the same state are the same frame. -/
theorem decode_injective (t t' : TelemetryFrame) (h : decode t.bytes = decode t'.bytes) :
    t = t' := by
  have hbyte (i : Nat) (hlo : 4 ≤ i) (hhi : i ≤ 28) : t.bytes.getD i 0 = t'.bytes.getD i 0 := by
    have hmem := (mem_bytes_iff (Member.atByte i) i hlo hhi).mpr rfl
    have hfield := congrArg (fun s => (Member.atByte i).of s) h
    rw [Member.of_decode, Member.of_decode] at hfield
    exact (Slot.read_eq_iff _ _ _).mp hfield i hmem
  have hbody : t.body = t'.body := by
    apply List.ext_getElem (t.length_body.trans t'.length_body.symm)
    intro i hi hi'
    have hi25 := t.length_body ▸ hi
    have hat (u : TelemetryFrame) (hu : i < u.body.length) :
        u.bytes.getD (i + 4) 0 = u.body[i] := by
      show (([0xFE, 0xFE, 0x1C, 0x25] ++ u.body) ++ crcBytes _).getD (i + 4) 0 = _
      rw [List.getD_append _ _ _ _ (by simp; omega), List.getD_append_right _ _ _ _ (by simp),
        List.length_cons]
      simp [hu]
    rw [← hat t hi, ← hat t' hi']
    exact hbyte (i + 4) (by omega) (by omega)
  obtain ⟨body, hlen⟩ := t
  obtain ⟨body', hlen'⟩ := t'
  obtain rfl : body = body' := hbody
  rfl

/-! ## Accepted frames -/

/-- The 31 bytes `w` are the last that some call of `readData` took before it returned true
with the state `s'`. -/
def Accepted (w : List UInt8) (s' : SensorState) : Prop :=
  w.length = receiveFrameSize ∧ ∃ (s : SensorState) (p q : Port) (pre : List UInt8),
    p.rx = onWire (pre ++ w) ++ q.rx ∧ readData s p = .done (true, s') q

/-- A buffer that passes the checks is a telemetry frame. -/
theorem exists_telemetryFrame (w : List UInt8) (hlen : w.length = 31)
    (hhead : w.take 4 = [0xFE, 0xFE, 0x1C, 0x25]) (hcrc : crcOk 29 w = true) :
    ∃ t : TelemetryFrame, w = t.bytes := by
  have hlast : (w.drop 29).length = 2 := by rw [List.length_drop, hlen]
  obtain ⟨hi, lo, hcheck⟩ := List.length_eq_two.mp hlast
  have hmsg : (w.take 29).length = 29 := by rw [List.length_take, hlen]; rfl
  have hw : w.take 29 ++ [hi, lo] = w := by rw [← hcheck, List.take_append_drop]
  have hsum : w.take 29 ++ [hi, lo] = withCrc (w.take 29) := by
    apply (crcOk_iff (w.take 29) hi lo).mp
    rw [hw, hmsg]
    exact hcrc
  have hbody : w.take 29 = [0xFE, 0xFE, 0x1C, 0x25] ++ (w.take 29).drop 4 := by
    rw [← hhead, show w.take 4 = (w.take 29).take 4 by rw [List.take_take]; rfl,
      List.take_append_drop]
  refine ⟨⟨(w.take 29).drop 4, by rw [List.length_drop, hmsg]⟩, ?_⟩
  rw [TelemetryFrame.bytes, ← hbody, ← hsum, hw]

theorem accepted_iff (w : List UInt8) (s' : SensorState) :
    Accepted w s' ↔ ∃ t : TelemetryFrame, w = t.bytes ∧ s' = decode t.bytes := by
  constructor
  · rintro ⟨hlen, s, p, q, pre, hrx, hread⟩
    obtain ⟨buf, rx, hrecv, rfl, rfl⟩ := readData_true hread
    obtain ⟨pre', hrx', hbuf, hhead, hcrc⟩ := receiveFrame_accepted _ _ _ _ hrecv
    -- both are the last 31 bytes taken
    have hwire : onWire (pre ++ w) = onWire (pre' ++ buf) :=
      List.append_cancel_right (hrx.symm.trans hrx')
    obtain ⟨-, rfl⟩ := List.append_inj' (onWire_injective _ _ hwire) (hlen.trans hbuf.symm)
    obtain ⟨t, rfl⟩ := exists_telemetryFrame w hlen hhead hcrc
    exact ⟨t, rfl, rfl⟩
  · rintro ⟨t, rfl, rfl⟩
    have hread := readData_telemetry {} (.ready (onWire t.bytes)) t [] rfl (by simp)
    exact ⟨t.length_bytes, _, _, _, [], by simp, hread⟩

/-- An accepted frame is accepted by every call that meets it. -/
theorem Accepted.readData {w : List UInt8} {s' : SensorState} (h : Accepted w s')
    (s : SensorState) (p : Port) (rx : List RxEvent) (hopen : p.isOpen = true)
    (hrx : p.rx = onWire w ++ rx) :
    AgvPro.readData s p = .done (true, s') { p with rx := rx } := by
  obtain ⟨t, rfl, rfl⟩ := (accepted_iff w s').mp h
  exact readData_telemetry s p t rx hopen hrx

theorem accepted_unique {w w' : List UInt8} {s' : SensorState} (h : Accepted w s')
    (h' : Accepted w' s') : w = w' := by
  obtain ⟨t, rfl, ht⟩ := (accepted_iff w s').mp h
  obtain ⟨t', rfl, ht'⟩ := (accepted_iff w' s').mp h'
  rw [decode_injective t t' (ht.symm.trans ht')]

theorem TelemetryValues.accepted_frame (v : TelemetryValues) : Accepted v.frame.bytes v.scaled :=
  (accepted_iff _ _).mpr ⟨v.frame, rfl, v.decode_frame.symm⟩

/-- Scaling loses nothing. -/
theorem TelemetryValues.scaled_injective {v v' : TelemetryValues} (h : v.scaled = v'.scaled) :
    v = v' := by
  have hframe := decode_injective v.frame v'.frame
    (v.decode_frame.trans (h.trans v'.decode_frame.symm))
  rw [← found_frame v, ← found_frame v', hframe]

/-- **Decoding is one to one**: sixteen values, one accepted frame, and no bit of the body
ignored or read into two fields. -/
theorem decoding_bijective :
    (∀ v : TelemetryValues, ∃! w, Accepted w v.scaled) ∧
      (∀ w s', Accepted w s' → ∃! v : TelemetryValues, v.scaled = s') ∧
      (∀ w w' s', Accepted w s' → Accepted w' s' → w = w') ∧
      ∀ i, 4 ≤ i → i ≤ 28 → ReadOnce i := by
  refine ⟨fun v => ?_, fun w s' h => ?_, fun w w' s' h h' => accepted_unique h h', readOnce_body⟩
  · exact ⟨v.frame.bytes, v.accepted_frame, fun w h => accepted_unique h v.accepted_frame⟩
  · obtain ⟨t, rfl, rfl⟩ := (accepted_iff w s').mp h
    exact ⟨.found t.bytes, rfl, fun v hv => TelemetryValues.scaled_injective hv⟩

end AgvPro
