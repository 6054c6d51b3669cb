import AgvPro.Base.Msgs
import AgvPro.Base.Serial

/-!
# Telemetry: `readData`

`readData` hunts for `FE FE` two bytes at a time, wants the length byte `1C`, reads 28
bytes more, checks the command byte and the CRC and decodes the sensor values.  A frame
of another length is given up after its third byte, so the hunt goes on inside it.

`readAll` calls `readData` until a call does not return; `framesIn` lists what the calls
accept, with the bytes left unread after each.  A stream is cut into the units
of `Skipped` and the frames in between:

    readAll = framesIn, decoded                                   (readAll_eq)
    every telemetry frame between replies is read, and nothing else
      ↔ the replies between two of them are `Skipped` completely  (demultiplexes_iff)
-/

namespace AgvPro

/-! ## Decoding -/

/-- The fields `readData` writes, over exact arithmetic. -/
structure SensorState where
  vx : ℚ := 0
  vy : ℚ := 0
  vtheta : ℚ := 0
  motorStatus : UInt8 := 0
  motorError : UInt8 := 0
  batteryVoltage : ℚ := 0
  enableStatus : UInt8 := 0
  linearAcceleration : Vector3 := {}
  angularVelocity : Vector3 := {}
  roll : ℚ := 0
  pitch : ℚ := 0
  yaw : ℚ := 0
deriving DecidableEq

/-- `static_cast<double>(static_cast<int8_t>(buf[i])) * 0.01` -/
def int8At (buf : List UInt8) (i : Nat) : ℚ := ((buf.getD i 0).toInt8.toInt : ℚ) / 100

/-- `static_cast<double>(static_cast<int16_t>((buf[i] << 8) | buf[i + 1])) * 0.01` -/
def int16At (buf : List UInt8) (i : Nat) : ℚ :=
  ((be16 (buf.getD i 0) (buf.getD (i + 1) 0)).toInt16.toInt : ℚ) / 100

def decode (recvBuf : List UInt8) : SensorState where
  vx := int8At recvBuf 4
  vy := int8At recvBuf 5
  vtheta := int8At recvBuf 6
  motorStatus := recvBuf.getD 7 0
  motorError := recvBuf.getD 8 0
  batteryVoltage := ((recvBuf.getD 9 0).toNat : ℚ) / 10
  enableStatus := recvBuf.getD 10 0
  linearAcceleration := ⟨int16At recvBuf 11, int16At recvBuf 13, int16At recvBuf 15⟩
  angularVelocity := ⟨int16At recvBuf 17, int16At recvBuf 19, int16At recvBuf 21⟩
  roll := int16At recvBuf 23
  pitch := int16At recvBuf 25
  yaw := int16At recvBuf 27

/-! ## Receiving -/

inductive HuntEnd where
  | found (rx : List RxEvent)
  | error (rx : List RxEvent)
  | blocked

/-- The header loop on an open port: after an `FE` the next byte is taken too, whatever
it is. -/
def hunt : List RxEvent → HuntEnd
  | [] => .blocked
  | .error :: rx => .error rx
  | .byte b :: rx =>
    if b ≠ 0xFE then hunt rx
    else match rx with
      | [] => .blocked
      | .error :: rx => .error rx
      | .byte b :: rx => if b = 0xFE then .found rx else hunt rx

inductive Received where
  | accepted (recvBuf : List UInt8) (rx : List RxEvent)
  | rejected (rx : List RxEvent)
  | blocked

/-- The checks on the 28 bytes behind the length byte. -/
def frameOk (dataBuf : List UInt8) : Bool :=
  let recvBuf := [0xFE, 0xFE, 0x1C] ++ dataBuf
  recvBuf.getD 3 0 == 0x25 && crcOk (receiveFrameSize - 2) recvBuf

/-- Behind the header: the length byte, the data and the checks. -/
def receiveBody (rx : List RxEvent) : Received :=
  match readExactly 1 rx with
  | .blocked => .blocked
  | .error rx => .rejected rx
  | .bytes bufLength rx =>
    if (bufLength.getD 0 0).toNat ≠ receivePayloadSize then .rejected rx
    else match readExactly receivePayloadSize rx with
      | .blocked => .blocked
      | .error rx => .rejected rx
      | .bytes dataBuf rx =>
        if frameOk dataBuf then .accepted ([0xFE, 0xFE, 0x1C] ++ dataBuf) rx else .rejected rx

/-- `readData` up to its last check.  On a port that is not open the first read fails. -/
def receiveFrame (isOpen : Bool) (rx : List RxEvent) : Received :=
  if !isOpen then .rejected rx
  else match hunt rx with
    | .blocked => .blocked
    | .error rx => .rejected rx
    | .found rx => receiveBody rx

def readData (s : SensorState) (p : Port) : Result (Bool × SensorState) :=
  match receiveFrame p.isOpen p.rx with
  | .accepted recvBuf rx => .done (true, decode recvBuf) { p with rx := rx }
  | .rejected rx => .done (false, s) { p with rx := rx }
  | .blocked => .blocked p

/-- `readData` again and again until a call does not return: for each call that returned
true, how much was left unread and the state it decoded. -/
def readAll : Nat → SensorState → Port → List (Nat × SensorState)
  | 0, _, _ => []
  | fuel + 1, s, p =>
    match readData s p with
    | .blocked _ => []
    | .done (false, s) p => readAll fuel s p
    | .done (true, s) p => (p.rx.length, s) :: readAll fuel s p

/-- The frames that repeated calls accept on an open port. -/
def framesIn : Nat → List RxEvent → List (Nat × List UInt8)
  | 0, _ => []
  | fuel + 1, rx =>
    match receiveFrame true rx with
    | .blocked => []
    | .rejected rx => framesIn fuel rx
    | .accepted buf rx => (rx.length, buf) :: framesIn fuel rx

theorem readAll_eq (fuel : Nat) (s : SensorState) (p : Port) (hopen : p.isOpen = true) :
    readAll fuel s p = (framesIn fuel p.rx).map fun f => (f.1, decode f.2) := by
  induction fuel generalizing s p with
  | zero => rfl
  | succ fuel ih =>
    unfold readAll framesIn readData
    rw [show receiveFrame p.isOpen p.rx = receiveFrame true p.rx by rw [hopen]]
    cases receiveFrame true p.rx with
    | blocked => rfl
    | rejected rx => exact ih s { p with rx := rx } hopen
    | accepted buf rx =>
      simp only [List.map_cons, List.cons.injEq, true_and]
      exact ih (decode buf) { p with rx := rx } hopen

/-! ## Progress -/

theorem hunt_other (b : UInt8) (rx : List RxEvent) (hb : b ≠ 0xFE) :
    hunt (.byte b :: rx) = hunt rx := by
  rw [hunt.eq_def]
  simp [hb]

theorem hunt_lone (b : UInt8) (rx : List RxEvent) (hb : b ≠ 0xFE) :
    hunt (.byte 0xFE :: .byte b :: rx) = hunt rx := by
  rw [hunt.eq_def]
  simp [hb]

theorem hunt_header (rx : List RxEvent) : hunt (.byte 0xFE :: .byte 0xFE :: rx) = .found rx := by
  rw [hunt.eq_def]
  simp

def HuntEnd.rest? : HuntEnd → Option (List RxEvent)
  | .found rx => some rx
  | .error rx => some rx
  | .blocked => none

def ReadEnd.rest? : ReadEnd → Option (List RxEvent)
  | .bytes _ rx => some rx
  | .error rx => some rx
  | .blocked => none

def Received.rest? : Received → Option (List RxEvent)
  | .accepted _ rx => some rx
  | .rejected rx => some rx
  | .blocked => none

theorem hunt_length (rx rx' : List RxEvent) (h : (hunt rx).rest? = some rx') :
    rx'.length < rx.length := by
  induction rx using hunt.induct with
  | case1 => cases h
  | case2 rx => cases h; exact Nat.lt_succ_self _
  | case3 b rx hb ih =>
    rw [hunt_other b rx hb] at h
    exact Nat.lt_succ_of_lt (ih h)
  | case4 b hb => rw [hunt.eq_def] at h; simp [hb, HuntEnd.rest?] at h
  | case5 b hb rx =>
    rw [hunt.eq_def] at h
    simp only [hb, if_false, HuntEnd.rest?, Option.some.injEq] at h
    subst h
    simp only [List.length_cons]
    omega
  | case6 b hb rx =>
    obtain rfl : b = 0xFE := by simpa using hb
    rw [hunt_header] at h
    cases h
    simp only [List.length_cons]
    omega
  | case7 b hb b' rx hb' ih =>
    obtain rfl : b = 0xFE := by simpa using hb
    rw [hunt_lone b' rx hb'] at h
    have := ih h
    simp only [List.length_cons]
    omega

theorem readExactly_length (n : Nat) (rx rx' : List RxEvent)
    (h : (readExactly n rx).rest? = some rx') : rx'.length ≤ rx.length := by
  induction n generalizing rx with
  | zero => cases h; exact Nat.le_refl _
  | succ n ih =>
    match rx with
    | [] => cases h
    | .error :: rx => cases h; simp
    | .byte b :: rx =>
      have hrec := ih rx
      unfold readExactly at h
      cases hr : readExactly n rx with
      | bytes bs rx1 =>
        rw [hr] at h hrec
        exact Nat.le_succ_of_le (hrec h)
      | error rx1 =>
        rw [hr] at h hrec
        exact Nat.le_succ_of_le (hrec h)
      | blocked => rw [hr] at h; cases h

theorem receiveBody_length (rx rx' : List RxEvent) (h : (receiveBody rx).rest? = some rx') :
    rx'.length ≤ rx.length := by
  have hlen := readExactly_length 1 rx
  unfold receiveBody at h
  cases hl : readExactly 1 rx with
  | blocked => rw [hl] at h; cases h
  | error rx1 => rw [hl] at h hlen; exact hlen rx' h
  | bytes bufLength rx1 =>
    rw [hl] at h hlen
    have h1 := hlen rx1 rfl
    have hdata := readExactly_length receivePayloadSize rx1
    simp only at h
    split at h
    · cases h; exact h1
    · cases hd : readExactly receivePayloadSize rx1 with
      | blocked => rw [hd] at h; cases h
      | error rx2 => rw [hd] at h hdata; exact Nat.le_trans (hdata rx' h) h1
      | bytes dataBuf rx2 =>
        rw [hd] at h hdata
        have h2 := hdata rx2 rfl
        simp only at h
        split at h <;> (cases h; exact Nat.le_trans h2 h1)

/-- Every call of `readData` that returns has read something. -/
theorem receiveFrame_length (rx rx' : List RxEvent)
    (h : (receiveFrame true rx).rest? = some rx') : rx'.length < rx.length := by
  have hhunt := hunt_length rx
  unfold receiveFrame at h
  simp only [Bool.not_true, Bool.false_eq_true, if_false] at h
  cases hr : hunt rx with
  | blocked => rw [hr] at h; cases h
  | error rx1 => rw [hr] at h hhunt; exact hhunt rx' h
  | found rx1 =>
    rw [hr] at h hhunt
    exact Nat.lt_of_le_of_lt (receiveBody_length rx1 rx' h) (hhunt rx1 rfl)

/-- Fuel beyond the length of the stream does not matter. -/
theorem framesIn_fuel (fuel fuel' : Nat) (rx : List RxEvent) (h : rx.length < fuel)
    (h' : rx.length < fuel') : framesIn fuel rx = framesIn fuel' rx := by
  induction fuel generalizing fuel' rx with
  | zero => omega
  | succ fuel ih =>
    obtain ⟨fuel', rfl⟩ : ∃ k, fuel' = k + 1 := ⟨fuel' - 1, by omega⟩
    have hlt := receiveFrame_length rx
    unfold framesIn
    cases hr : receiveFrame true rx with
    | blocked => rfl
    | rejected rx1 =>
      rw [hr] at hlt
      have := hlt rx1 rfl
      exact ih fuel' rx1 (by omega) (by omega)
    | accepted buf rx1 =>
      rw [hr] at hlt
      have := hlt rx1 rfl
      simp only [ih fuel' rx1 (by omega) (by omega)]

/-! ## Soundness -/

theorem hunt_found (rx rx' : List RxEvent) (h : hunt rx = .found rx') :
    ∃ pre : List UInt8, rx = onWire (pre ++ [0xFE, 0xFE]) ++ rx' := by
  induction rx using hunt.induct with
  | case1 => cases h
  | case2 rx => cases h
  | case3 b rx hb ih =>
    rw [hunt_other b rx hb] at h
    obtain ⟨pre, rfl⟩ := ih h
    exact ⟨b :: pre, rfl⟩
  | case4 b hb => rw [hunt.eq_def] at h; simp [hb] at h
  | case5 b hb rx => rw [hunt.eq_def] at h; simp [hb] at h
  | case6 b hb rx =>
    obtain rfl : b = 0xFE := by simpa using hb
    rw [hunt_header] at h
    cases h
    exact ⟨[], rfl⟩
  | case7 b hb b' rx hb' ih =>
    obtain rfl : b = 0xFE := by simpa using hb
    rw [hunt_lone b' rx hb'] at h
    obtain ⟨pre, rfl⟩ := ih h
    exact ⟨0xFE :: b' :: pre, rfl⟩

theorem readExactly_bytes (n : Nat) (rx rx' : List RxEvent) (bs : List UInt8)
    (h : readExactly n rx = .bytes bs rx') : rx = onWire bs ++ rx' ∧ bs.length = n := by
  induction n generalizing rx bs with
  | zero => cases h; exact ⟨rfl, rfl⟩
  | succ n ih =>
    match rx with
    | [] => cases h
    | .error :: rx => cases h
    | .byte b :: rx =>
      unfold readExactly at h
      cases hr : readExactly n rx with
      | bytes bs1 rx1 =>
        rw [hr] at h
        cases h
        obtain ⟨rfl, hlen⟩ := ih rx bs1 hr
        exact ⟨rfl, by rw [List.length_cons, hlen]⟩
      | error rx1 => rw [hr] at h; cases h
      | blocked => rw [hr] at h; cases h

theorem receiveBody_accepted (rx rx' : List RxEvent) (buf : List UInt8)
    (h : receiveBody rx = .accepted buf rx') :
    ∃ dataBuf : List UInt8, rx = onWire (0x1C :: dataBuf) ++ rx' ∧ dataBuf.length = 28 ∧
      buf = [0xFE, 0xFE, 0x1C] ++ dataBuf ∧ frameOk dataBuf = true := by
  unfold receiveBody at h
  cases hl : readExactly 1 rx with
  | blocked => rw [hl] at h; cases h
  | error rx1 => rw [hl] at h; cases h
  | bytes bufLength rx1 =>
    obtain ⟨rfl, hone⟩ := readExactly_bytes 1 rx rx1 bufLength hl
    obtain ⟨b, rfl⟩ := List.length_eq_one_iff.mp hone
    rw [hl] at h
    simp only [List.getD_cons_zero] at h
    split_ifs at h with hb
    obtain rfl : b = 0x1C := UInt8.toNat_inj.mp (not_not.mp hb)
    cases hd : readExactly receivePayloadSize rx1 with
    | blocked => rw [hd] at h; cases h
    | error rx2 => rw [hd] at h; cases h
    | bytes dataBuf rx2 =>
      obtain ⟨rfl, hlen⟩ := readExactly_bytes _ rx1 rx2 dataBuf hd
      rw [hd] at h
      simp only at h
      split_ifs at h with hok
      cases h
      exact ⟨dataBuf, by simp, hlen, rfl, hok⟩

/-- What is accepted is the last 31 bytes read, with the header, the command and the CRC
checked on them. -/
theorem receiveFrame_accepted (isOpen : Bool) (rx rx' : List RxEvent) (buf : List UInt8)
    (h : receiveFrame isOpen rx = .accepted buf rx') :
    ∃ pre : List UInt8, rx = onWire (pre ++ buf) ++ rx' ∧ buf.length = 31 ∧
      buf.take 4 = [0xFE, 0xFE, 0x1C, 0x25] ∧ crcOk 29 buf = true := by
  unfold receiveFrame at h
  split_ifs at h
  cases hh : hunt rx with
  | blocked => rw [hh] at h; cases h
  | error rx1 => rw [hh] at h; cases h
  | found rx1 =>
    rw [hh] at h
    obtain ⟨pre, rfl⟩ := hunt_found rx rx1 hh
    obtain ⟨dataBuf, rfl, hlen, rfl, hok⟩ := receiveBody_accepted rx1 rx' buf h
    unfold frameOk at hok
    rw [Bool.and_eq_true, beq_iff_eq] at hok
    obtain ⟨c, data, rfl⟩ := List.exists_cons_of_length_eq_add_one hlen
    obtain rfl : c = 0x25 := hok.1
    exact ⟨pre, by simp, by simpa using hlen, rfl, hok.2⟩

/-- A call returns true with the decoding of a frame, or false with the state it had. -/
theorem readData_true {s s' : SensorState} {p q : Port} (h : readData s p = .done (true, s') q) :
    ∃ buf rx, receiveFrame p.isOpen p.rx = .accepted buf rx ∧ s' = decode buf ∧
      q = { p with rx := rx } := by
  unfold readData at h
  cases hr : receiveFrame p.isOpen p.rx with
  | blocked => rw [hr] at h; cases h
  | rejected rx => rw [hr] at h; cases h
  | accepted buf rx => rw [hr] at h; cases h; exact ⟨buf, rx, rfl, rfl, rfl⟩

theorem readData_false {s s' : SensorState} {p q : Port} (h : readData s p = .done (false, s') q) :
    s' = s := by
  unfold readData at h
  cases hr : receiveFrame p.isOpen p.rx with
  | blocked => rw [hr] at h; cases h
  | accepted buf rx => rw [hr] at h; cases h
  | rejected rx => rw [hr] at h; cases h; rfl

/-! ## Frames in a byte stream -/

/-- What the calls accept from the bytes `bs`, all of them there and no error. -/
def frames (bs : List UInt8) : List (Nat × List UInt8) := framesIn (bs.length + 1) (onWire bs)

theorem frames_of_fuel (fuel : Nat) (bs : List UInt8) (h : bs.length < fuel) :
    framesIn fuel (onWire bs) = frames bs :=
  framesIn_fuel _ _ _ (by simpa using h) (by simp)

theorem frames_congr (as bs : List UInt8) (hlen : bs.length ≤ as.length)
    (h : receiveFrame true (onWire as) = receiveFrame true (onWire bs)) :
    frames as = frames bs := by
  rw [← frames_of_fuel (as.length + 1) bs (by omega), frames]
  unfold framesIn
  rw [h]

theorem frames_rejected (as bs : List UInt8) (hlen : bs.length < as.length)
    (h : receiveFrame true (onWire as) = .rejected (onWire bs)) : frames as = frames bs := by
  rw [← frames_of_fuel as.length bs hlen, frames]
  conv => lhs; unfold framesIn
  rw [h]

theorem frames_accepted (as bs buf : List UInt8) (hlen : bs.length < as.length)
    (h : receiveFrame true (onWire as) = .accepted buf (onWire bs)) :
    frames as = (bs.length, buf) :: frames bs := by
  rw [← frames_of_fuel as.length bs hlen, frames]
  conv => lhs; unfold framesIn
  rw [h]
  simp

theorem readExactly_onWire (n : Nat) (bs : List UInt8) (rx : List RxEvent) (h : bs.length = n) :
    readExactly n (onWire bs ++ rx) = .bytes bs rx := by
  induction bs generalizing n with
  | nil => subst h; rfl
  | cons b bs ih =>
    subst h
    simp only [onWire_cons, List.cons_append, List.length_cons]
    rw [readExactly, ih bs.length rfl]

theorem readExactly_short (n : Nat) (bs : List UInt8) (h : bs.length < n) :
    readExactly n (onWire bs) = .blocked := by
  induction bs generalizing n with
  | nil =>
    obtain ⟨n, rfl⟩ : ∃ k, n = k + 1 := ⟨n - 1, by simp at h; omega⟩
    rfl
  | cons b bs ih =>
    obtain ⟨n, rfl⟩ : ∃ k, n = k + 1 := ⟨n - 1, by simp at h; omega⟩
    rw [onWire_cons, readExactly, ih n (by simpa using h)]

theorem receiveFrame_congr (rx rx' : List RxEvent) (h : hunt rx = hunt rx') :
    receiveFrame true rx = receiveFrame true rx' := by
  unfold receiveFrame
  rw [h]
  rfl

theorem receiveFrame_header (rx : List RxEvent) :
    receiveFrame true (.byte 0xFE :: .byte 0xFE :: rx) = receiveBody rx := by
  unfold receiveFrame
  rw [hunt_header]
  rfl

theorem frames_other (b : UInt8) (bs : List UInt8) (hb : b ≠ 0xFE) : frames (b :: bs) = frames bs :=
  frames_congr _ _ (by simp) (receiveFrame_congr _ _ (hunt_other b _ hb))

theorem frames_lone (b : UInt8) (bs : List UInt8) (hb : b ≠ 0xFE) :
    frames (0xFE :: b :: bs) = frames bs :=
  frames_congr _ _ (by simp; omega) (receiveFrame_congr _ _ (hunt_lone b _ hb))

theorem frames_wrongLength (b : UInt8) (bs : List UInt8) (hb : b ≠ 0x1C) :
    frames (0xFE :: 0xFE :: b :: bs) = frames bs := by
  apply frames_rejected _ _ (by simp; omega)
  have hread : readExactly 1 (.byte b :: onWire bs) = .bytes [b] (onWire bs) :=
    readExactly_onWire 1 [b] (onWire bs) rfl
  have hlen : ([b].getD 0 0).toNat ≠ receivePayloadSize := fun h => hb (UInt8.toNat_inj.mp h)
  simp only [onWire_cons]
  rw [receiveFrame_header, receiveBody, hread]
  exact if_pos hlen

theorem receiveFrame_frame (w : List UInt8) (rx : List RxEvent) (hw : w.length = 28) :
    receiveFrame true (onWire (0xFE :: 0xFE :: 0x1C :: w) ++ rx) =
      if frameOk w then .accepted ([0xFE, 0xFE, 0x1C] ++ w) rx else .rejected rx := by
  have hread : readExactly 1 (.byte 0x1C :: (onWire w ++ rx)) = .bytes [0x1C] (onWire w ++ rx) :=
    readExactly_onWire 1 [0x1C] _ rfl
  have hdata : readExactly receivePayloadSize (onWire w ++ rx) = .bytes w rx :=
    readExactly_onWire receivePayloadSize w rx hw
  show receiveFrame true (.byte 0xFE :: .byte 0xFE :: .byte 0x1C :: (onWire w ++ rx)) = _
  rw [receiveFrame_header, receiveBody, hread]
  simp only
  rw [if_neg (by decide), hdata]

/-- A full frame of the right length is accepted or given up as a whole. -/
theorem frames_frame (w bs : List UInt8) (hw : w.length = 28) :
    frames (0xFE :: 0xFE :: 0x1C :: (w ++ bs)) =
      if frameOk w then (bs.length, [0xFE, 0xFE, 0x1C] ++ w) :: frames bs else frames bs := by
  have hrecv := receiveFrame_frame w (onWire bs) hw
  rw [← onWire_append] at hrecv
  cases hok : frameOk w with
  | true =>
    rw [hok, if_pos rfl] at hrecv
    exact frames_accepted _ _ _ (by simp; omega) hrecv
  | false =>
    rw [hok, if_neg (by simp)] at hrecv
    exact frames_rejected _ _ (by simp; omega) hrecv

theorem frames_short (w : List UInt8) (hw : w.length < 28) :
    frames (0xFE :: 0xFE :: 0x1C :: w) = [] := by
  have hread : readExactly 1 (.byte 0x1C :: onWire w) = .bytes [0x1C] (onWire w) :=
    readExactly_onWire 1 [0x1C] _ rfl
  unfold frames framesIn
  simp only [onWire_cons]
  rw [receiveFrame_header, receiveBody, hread]
  simp only
  rw [if_neg (by decide), readExactly_short receivePayloadSize w hw]

/-! ## Cutting a stream -/

/-- Bytes the calls pass over and leave nothing of. -/
inductive Skipped : List UInt8 → Prop
  | nil : Skipped []
  | other (b : UInt8) (bs : List UInt8) (hb : b ≠ 0xFE) (h : Skipped bs) : Skipped (b :: bs)
  | lone (b : UInt8) (bs : List UInt8) (hb : b ≠ 0xFE) (h : Skipped bs) : Skipped (0xFE :: b :: bs)
  | wrongLength (b : UInt8) (bs : List UInt8) (hb : b ≠ 0x1C) (h : Skipped bs) :
      Skipped (0xFE :: 0xFE :: b :: bs)
  | badFrame (w bs : List UInt8) (hw : w.length = 28) (hbad : frameOk w = false) (h : Skipped bs) :
      Skipped (0xFE :: 0xFE :: 0x1C :: (w ++ bs))

/-- The beginning of a frame, at which the last call waits for more. -/
inductive Stub : List UInt8 → Prop
  | nil : Stub []
  | one : Stub [0xFE]
  | two : Stub [0xFE, 0xFE]
  | short (w : List UInt8) (hw : w.length < 28) : Stub (0xFE :: 0xFE :: 0x1C :: w)

/-- How a stream can begin, and what the calls do with it. -/
inductive Start : List UInt8 → Prop
  | stub (bs : List UInt8) (h : Stub bs) : Start bs
  | other (b : UInt8) (bs : List UInt8) (hb : b ≠ 0xFE) : Start (b :: bs)
  | lone (b : UInt8) (bs : List UInt8) (hb : b ≠ 0xFE) : Start (0xFE :: b :: bs)
  | wrongLength (b : UInt8) (bs : List UInt8) (hb : b ≠ 0x1C) : Start (0xFE :: 0xFE :: b :: bs)
  | frame (w bs : List UInt8) (hw : w.length = 28) : Start (0xFE :: 0xFE :: 0x1C :: (w ++ bs))

theorem start (bs : List UInt8) : Start bs := by
  match bs with
  | [] => exact .stub [] .nil
  | [b] =>
    by_cases hb : b = 0xFE
    · subst hb; exact .stub _ .one
    · exact .other b [] hb
  | b :: b' :: bs =>
    by_cases hb : b = 0xFE
    · subst hb
      by_cases hb' : b' = 0xFE
      · subst hb'
        match bs with
        | [] => exact .stub _ .two
        | c :: bs =>
          by_cases hc : c = 0x1C
          · subst hc
            by_cases hlen : bs.length < 28
            · exact .stub _ (.short bs hlen)
            · have h := Start.frame (bs.take 28) (bs.drop 28) (by rw [List.length_take]; omega)
              rwa [List.take_append_drop] at h
          · exact .wrongLength c bs hc
      · exact .lone b' bs hb'
    · exact .other b (b' :: bs) hb

theorem frames_stub (bs : List UInt8) (h : Stub bs) : frames bs = [] := by
  cases h with
  | nil => rfl
  | one => rfl
  | two => rfl
  | short w hw => exact frames_short w hw

theorem frames_skipped (pre bs : List UInt8) (h : Skipped pre) :
    frames (pre ++ bs) = frames bs := by
  induction h with
  | nil => rfl
  | other b pre hb _ ih => exact (frames_other b _ hb).trans ih
  | lone b pre hb _ ih => exact (frames_lone b _ hb).trans ih
  | wrongLength b pre hb _ ih => exact (frames_wrongLength b _ hb).trans ih
  | badFrame w pre hw hbad _ ih =>
    have h := frames_frame w (pre ++ bs) hw
    rw [hbad, if_neg (by simp), ih] at h
    rw [← h]
    simp

/-- The 28 bytes behind the length byte. -/
def TelemetryFrame.data (t : TelemetryFrame) : List UInt8 :=
  0x25 :: (t.body ++ crcBytes ([0xFE, 0xFE, 0x1C, 0x25] ++ t.body))

theorem TelemetryFrame.bytes_eq (t : TelemetryFrame) :
    t.bytes = 0xFE :: 0xFE :: 0x1C :: t.data := by
  simp [bytes, withCrc, data]

@[simp] theorem TelemetryFrame.length_data (t : TelemetryFrame) : t.data.length = 28 := by
  simp [data, t.length_body]

theorem TelemetryFrame.frameOk_data (t : TelemetryFrame) : frameOk t.data = true := by
  have hcrc := t.crcOk_bytes
  rw [t.bytes_eq] at hcrc
  unfold frameOk
  rw [Bool.and_eq_true]
  exact ⟨rfl, hcrc⟩

/-- A telemetry frame next on the line of an open port is what a call reads. -/
theorem readData_telemetry (s : SensorState) (p : Port) (t : TelemetryFrame) (rx : List RxEvent)
    (hopen : p.isOpen = true) (hrx : p.rx = onWire t.bytes ++ rx) :
    readData s p = .done (true, decode t.bytes) { p with rx := rx } := by
  have hrecv := receiveFrame_frame t.data rx t.length_data
  rw [← t.bytes_eq, t.frameOk_data, if_pos rfl] at hrecv
  unfold readData
  rw [hopen, hrx, hrecv, t.bytes_eq]
  rfl

theorem frames_telemetry (t : TelemetryFrame) (bs : List UInt8) :
    frames (t.bytes ++ bs) = (bs.length, t.bytes) :: frames bs := by
  have h := frames_frame t.data bs t.length_data
  rw [t.frameOk_data, if_pos rfl] at h
  rw [t.bytes_eq]
  exact h

theorem Skipped.append {as bs : List UInt8} (ha : Skipped as) (hb : Skipped bs) :
    Skipped (as ++ bs) := by
  induction ha with
  | nil => exact hb
  | other b as hne _ ih => exact .other b _ hne ih
  | lone b as hne _ ih => exact .lone b _ hne ih
  | wrongLength b as hne _ ih => exact .wrongLength b _ hne ih
  | badFrame w as hw hbad _ ih =>
    have h := Skipped.badFrame w (as ++ bs) hw hbad ih
    rwa [← List.append_assoc] at h

theorem skipped_of_no_fe (bs : List UInt8) (h : 0xFE ∉ bs) : Skipped bs := by
  induction bs with
  | nil => exact .nil
  | cons b bs ih =>
    rw [List.mem_cons, not_or] at h
    exact .other b bs (Ne.symm h.1) (ih h.2)

theorem skipped_reply (r : ReplyFrame) (h : 0xFE ∉ r.bytes.drop 3) : Skipped r.bytes := by
  have hsplit : r.bytes = 0xFE :: 0xFE :: 0x0B :: r.bytes.drop 3 := rfl
  rw [hsplit]
  exact .wrongLength 0x0B _ (by decide) (skipped_of_no_fe _ h)

/-- A frame is accepted only when all its 31 bytes have come. -/
theorem frames_bound (bs : List UInt8) (n : Nat) (buf : List UInt8) (h : (n, buf) ∈ frames bs) :
    n + 31 ≤ bs.length := by
  induction hk : bs.length using Nat.strong_induction_on generalizing bs with
  | _ k ih =>
    subst hk
    cases start bs with
    | stub _ hs => rw [frames_stub bs hs] at h; cases h
    | other b bs hb =>
      rw [frames_other b bs hb] at h
      have := ih bs.length (by simp) bs h rfl
      simp only [List.length_cons]
      omega
    | lone b bs hb =>
      rw [frames_lone b bs hb] at h
      have := ih bs.length (by simp only [List.length_cons]; omega) bs h rfl
      simp only [List.length_cons]
      omega
    | wrongLength b bs hb =>
      rw [frames_wrongLength b bs hb] at h
      have := ih bs.length (by simp only [List.length_cons]; omega) bs h rfl
      simp only [List.length_cons]
      omega
    | frame w bs hw =>
      rw [frames_frame w bs hw] at h
      have hrec := ih bs.length (by simp; omega) bs
      simp only [List.length_cons, List.length_append, hw]
      split at h
      · rcases List.mem_cons.mp h with h | h
        · cases h; omega
        · have := hrec h rfl; omega
      · have := hrec h rfl; omega

theorem frames_eq_nil (bs : List UInt8) (h : frames bs = []) :
    ∃ pre stub, bs = pre ++ stub ∧ Skipped pre ∧ Stub stub := by
  induction hk : bs.length using Nat.strong_induction_on generalizing bs with
  | _ k ih =>
    subst hk
    cases start bs with
    | stub _ hs => exact ⟨[], bs, rfl, .nil, hs⟩
    | other b bs hb =>
      rw [frames_other b bs hb] at h
      obtain ⟨pre, stub, rfl, hpre, hstub⟩ := ih bs.length (by simp) bs h rfl
      exact ⟨b :: pre, stub, rfl, .other b pre hb hpre, hstub⟩
    | lone b bs hb =>
      rw [frames_lone b bs hb] at h
      obtain ⟨pre, stub, rfl, hpre, hstub⟩ :=
        ih bs.length (by simp only [List.length_cons]; omega) bs h rfl
      exact ⟨0xFE :: b :: pre, stub, rfl, .lone b pre hb hpre, hstub⟩
    | wrongLength b bs hb =>
      rw [frames_wrongLength b bs hb] at h
      obtain ⟨pre, stub, rfl, hpre, hstub⟩ :=
        ih bs.length (by simp only [List.length_cons]; omega) bs h rfl
      exact ⟨0xFE :: 0xFE :: b :: pre, stub, rfl, .wrongLength b pre hb hpre, hstub⟩
    | frame w bs hw =>
      rw [frames_frame w bs hw] at h
      cases hok : frameOk w with
      | true => rw [hok, if_pos rfl] at h; cases h
      | false =>
        rw [hok, if_neg (by simp)] at h
        obtain ⟨pre, stub, rfl, hpre, hstub⟩ := ih bs.length (by simp; omega) bs h rfl
        exact ⟨_, stub, by simp, .badFrame w pre hw hok hpre, hstub⟩

/-- Calls that begin in a stub in front of `t` do not come to accept `t` unless the stub is
empty: they have eaten into it. -/
theorem eq_nil_of_stub (t : TelemetryFrame) {stub : List UInt8} (bs : List UInt8)
    (buf : List UInt8) (more : List (Nat × List UInt8)) (hs : Stub stub)
    (h : frames (stub ++ t.bytes ++ bs) = (bs.length, buf) :: more) : stub = [] := by
  -- with less than a frame of `t` left nothing accepted ends where `t` ends
  have hlate : ∀ cs, cs.length < 31 → frames (cs ++ bs) = (bs.length, buf) :: more → False := by
    intro cs hcs hframes
    have := frames_bound (cs ++ bs) bs.length buf (by rw [hframes]; exact List.mem_cons_self)
    simp at this
    omega
  cases hs with
  | nil => rfl
  | one =>
    -- `FE | FE FE 1C …`: the second byte of `t` is taken for the length
    simp only [t.bytes_eq, List.cons_append, List.nil_append] at h
    rw [frames_wrongLength _ _ (by decide)] at h
    exact (hlate (0x1C :: t.data) (by simp) h).elim
  | two =>
    simp only [t.bytes_eq, List.cons_append, List.nil_append] at h
    rw [frames_wrongLength _ _ (by decide)] at h
    exact (hlate (0xFE :: 0x1C :: t.data) (by simp) h).elim
  | short w hw =>
    -- the frame begun in the stub takes its last bytes from `t`
    have hsplit : 0xFE :: 0xFE :: 0x1C :: w ++ t.bytes ++ bs = 0xFE :: 0xFE :: 0x1C ::
        ((w ++ t.bytes.take (28 - w.length)) ++ (t.bytes.drop (28 - w.length) ++ bs)) := by
      rw [List.append_assoc w, ← List.append_assoc (t.bytes.take _), List.take_append_drop]
      simp
    rw [hsplit, frames_frame _ _ (by simp; omega)] at h
    have hdrop : (t.bytes.drop (28 - w.length)).length < 31 := by simp; omega
    split at h
    · have := (Prod.mk.inj (List.cons.inj h).1).1
      simp at this
      omega
    · exact (hlate _ hdrop h).elim

/-- When the next frame accepted is `t`, the calls have passed over what stands before it. -/
theorem skipped_of_frames (t : TelemetryFrame) (gap bs : List UInt8) (n : Nat) (buf : List UInt8)
    (more : List (Nat × List UInt8)) (h : frames (gap ++ t.bytes ++ bs) = (n, buf) :: more)
    (hn : n = bs.length) : Skipped gap := by
  subst hn
  induction hk : gap.length using Nat.strong_induction_on generalizing gap with
  | _ k ih =>
    subst hk
    cases start gap with
    | other b gap hb =>
      refine .other b gap hb (ih gap.length (by simp) gap ?_ rfl)
      rwa [List.cons_append, List.cons_append, frames_other b _ hb] at h
    | lone b gap hb =>
      refine .lone b gap hb (ih gap.length (by simp only [List.length_cons]; omega) gap ?_ rfl)
      rwa [List.cons_append, List.cons_append, List.cons_append, List.cons_append,
        frames_lone b _ hb] at h
    | wrongLength b gap hb =>
      refine .wrongLength b gap hb
        (ih gap.length (by simp only [List.length_cons]; omega) gap ?_ rfl)
      simp only [List.cons_append] at h
      rwa [frames_wrongLength b _ hb] at h
    | frame w gap hw =>
      simp only [List.cons_append, List.append_assoc] at h
      rw [frames_frame w _ hw] at h
      cases hok : frameOk w with
      | true =>
        rw [hok, if_pos rfl] at h
        have := (Prod.mk.inj (List.cons.inj h).1).1
        simp at this
        omega
      | false =>
        rw [hok, if_neg (by simp), ← List.append_assoc] at h
        exact .badFrame w gap hw hok (ih gap.length (by simp; omega) gap h rfl)
    | stub _ hs =>
      rw [eq_nil_of_stub t bs buf more hs h]
      exact .nil

/-! ## Demultiplexing -/

/-- What the device puts on the line. -/
inductive WireFrame where
  | telemetry (t : TelemetryFrame)
  | reply (r : ReplyFrame)

def WireFrame.bytes : WireFrame → List UInt8
  | .telemetry t => t.bytes
  | .reply r => r.bytes

def stream (fs : List WireFrame) : List UInt8 := fs.flatMap WireFrame.bytes

/-- Each telemetry frame of the stream: how much follows it, and its values. -/
def expected : List WireFrame → List (Nat × SensorState)
  | [] => []
  | .telemetry t :: fs => ((stream fs).length, decode t.bytes) :: expected fs
  | .reply _ :: fs => expected fs

/-- Calling `readData` until it waits for more returns true at the end of each telemetry
frame, with its values, and never else. -/
def Demultiplexes (fs : List WireFrame) : Prop :=
  ∀ (fuel : Nat) (s : SensorState) (p : Port), p.isOpen = true → p.rx = onWire (stream fs) →
    p.rx.length < fuel → readAll fuel s p = expected fs

/-- The replies before each telemetry frame can be skipped completely, those behind the
last one up to a stub.  `gap` collects the replies since the last telemetry frame. -/
def Clean : List UInt8 → List WireFrame → Prop
  | gap, [] => ∃ pre stub, gap = pre ++ stub ∧ Skipped pre ∧ Stub stub
  | gap, .telemetry _ :: fs => Skipped gap ∧ Clean [] fs
  | gap, .reply r :: fs => Clean (gap ++ r.bytes) fs

@[simp] theorem stream_cons (f : WireFrame) (fs : List WireFrame) :
    stream (f :: fs) = f.bytes ++ stream fs := List.flatMap_cons

theorem frames_clean_iff (gap : List UInt8) (fs : List WireFrame) :
    (frames (gap ++ stream fs)).map (fun f => (f.1, decode f.2)) = expected fs ↔ Clean gap fs := by
  induction fs generalizing gap with
  | nil =>
    rw [show gap ++ stream [] = gap from List.append_nil gap]
    constructor
    · intro h
      exact frames_eq_nil gap (List.map_eq_nil_iff.mp h)
    · rintro ⟨pre, stub, rfl, hpre, hstub⟩
      rw [frames_skipped pre stub hpre, frames_stub stub hstub]
      rfl
  | cons f fs ih =>
    cases f with
    | reply r =>
      rw [stream_cons, ← List.append_assoc]
      exact ih (gap ++ r.bytes)
    | telemetry t =>
      rw [stream_cons, ← List.append_assoc]
      constructor
      · intro h
        obtain ⟨f, more, hf, hhead, -⟩ := List.map_eq_cons_iff.mp h
        have hskip : Skipped gap :=
          skipped_of_frames t gap (stream fs) f.1 f.2 more hf (Prod.mk.inj hhead).1
        refine ⟨hskip, (ih []).mp ?_⟩
        rw [List.append_assoc, frames_skipped gap _ hskip] at h
        have h' : (frames (t.bytes ++ stream fs)).map (fun f => (f.1, decode f.2)) =
            expected (.telemetry t :: fs) := h
        rw [frames_telemetry] at h'
        exact (List.cons.inj h').2
      · rintro ⟨hskip, hrest⟩
        have h' := (ih []).mpr hrest
        rw [List.append_assoc, frames_skipped gap _ hskip]
        show (frames (t.bytes ++ stream fs)).map _ = _
        rw [frames_telemetry, List.map_cons, expected]
        exact congrArg _ h'

/-- **Demultiplexing** holds of exactly the streams whose replies can be skipped. -/
theorem demultiplexes_iff (fs : List WireFrame) : Demultiplexes fs ↔ Clean [] fs := by
  rw [← frames_clean_iff [] fs]
  constructor
  · intro h
    rw [← h ((stream fs).length + 1) {} (.ready (onWire (stream fs))) rfl rfl (by simp),
      readAll_eq _ _ _ rfl]
    rfl
  · intro h fuel s p hopen hrx hfuel
    rw [readAll_eq fuel s p hopen, hrx, frames_of_fuel fuel _ (by simpa [hrx] using hfuel)]
    exact h

/-- A reply to `SetLedColor` whose CRC is `DB FE`. -/
def replyEndingFE : ReplyFrame := ⟨setLedColor, [0, 1, 0, 0, 0, 0, 0, 0], rfl⟩

def idleTelemetry : TelemetryFrame := ⟨List.replicate 25 0, rfl⟩

/-- Its last byte and the first of the next frame are taken for a header: the telemetry
frame is lost. -/
theorem not_demultiplexes_replyEndingFE :
    ¬ Demultiplexes [.reply replyEndingFE, .telemetry idleTelemetry] := by
  intro h
  have hlost : (readAll 46 {}
      (.ready (onWire (stream [.reply replyEndingFE, .telemetry idleTelemetry])))).length = 0 := by
    decide +kernel
  rw [h 46 {} _ rfl rfl (by decide)] at hlost
  exact absurd hlost (by decide)

/-- Replies in which no byte behind the length is `FE` do no harm. -/
theorem clean_of_no_fe (gap : List UInt8) (fs : List WireFrame) (hgap : Skipped gap)
    (h : ∀ r, WireFrame.reply r ∈ fs → 0xFE ∉ r.bytes.drop 3) : Clean gap fs := by
  induction fs generalizing gap with
  | nil => exact ⟨gap, [], (List.append_nil gap).symm, hgap, .nil⟩
  | cons f fs ih =>
    have hfs : ∀ r, WireFrame.reply r ∈ fs → 0xFE ∉ r.bytes.drop 3 :=
      fun r hr => h r (List.mem_cons_of_mem _ hr)
    cases f with
    | telemetry t => exact ⟨hgap, ih [] .nil hfs⟩
    | reply r =>
      exact ih (gap ++ r.bytes) (hgap.append (skipped_reply r (h r List.mem_cons_self))) hfs

end AgvPro
