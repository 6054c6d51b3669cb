import AgvPro.Base.Telemetry
import Mathlib.Data.List.GetD
import Mathlib.Data.Rat.Floor
import Mathlib.Tactic.Linarith

/-!
# Velocity commands: `cmdCallback`

A Twist is clamped, scaled to hundredths, truncated toward zero and put into a command
frame as three big-endian signed 16-bit fields; telemetry reports the same three
velocities as signed bytes.

    the fields of the frame are the truncated hundredths, clamped   (field_x, field_y, field_rot)
    the frame is the one build_serial_frame makes of them            (cmdCallback_refines)
    telemetry can report the commanded triple ↔ -1.29 < linear.x < 1.28   (reportable_iff)
-/

namespace AgvPro

/-- `std::clamp` -/
def clamp {α : Type} [LinearOrder α] (v lo hi : α) : α :=
  if v < lo then lo else if hi < v then hi else v

/-- Conversion to an integer: toward zero. -/
def trunc (q : ℚ) : Int := if 0 ≤ q then ⌊q⌋ else ⌈q⌉

/-- `(v >> 8) & 0xff` -/
def hiByte (v : Int16) : UInt8 := (v >>> 8).toUInt16.toUInt8

/-- `v & 0xff` -/
def loByte (v : Int16) : UInt8 := v.toUInt16.toUInt8

/-- A big-endian signed 16-bit field. -/
def signedAt (buf : List UInt8) (i : Nat) : Int :=
  (be16 (buf.getD i 0) (buf.getD (i + 1) 0)).toInt16.toInt

/-- The frame `cmdCallback` builds. -/
def cmdFrame (msg : Twist) : List UInt8 :=
  let linearX := clamp msg.linear.x (-3/2) (3/2)
  let linearY := clamp msg.linear.y (-1) 1
  let angularZ := clamp msg.angular.z (-1) 1
  let xSend := Int16.ofInt (trunc (linearX * 100))
  let ySend := Int16.ofInt (trunc (linearY * 100))
  let rotSend := Int16.ofInt (trunc (angularZ * 100))
  let buf := [0xFE, 0xFE, 0x0B, 0x21, hiByte xSend, loByte xSend, hiByte ySend, loByte ySend,
    hiByte rotSend, loByte rotSend, 0x00, 0x00]
  let crc := crc16Ibm buf
  buf ++ [(crc >>> 8).toUInt8, crc.toUInt8]

/-- It writes the frame itself, and catches as `send_serial_frame` does. -/
def cmdCallback (msg : Twist) (p : Port) : Port := sendSerialFrame (cmdFrame msg) p

/-! ## Clamping and truncating -/

section
variable {α β : Type} [LinearOrder α] [LinearOrder β]

/-- A monotone map goes through a clamp. -/
theorem clamp_map (f : α → β) (hf : Monotone f) (v lo hi : α) (h : lo ≤ hi) :
    f (clamp v lo hi) = clamp (f v) (f lo) (f hi) := by
  have hlohi := hf h
  unfold clamp
  by_cases hlo : v < lo
  · have hle := hf (le_of_lt hlo)
    rw [if_pos hlo]
    split_ifs with h1 h2
    · rfl
    · exact absurd h2 (not_lt.mpr (le_trans hle hlohi))
    · exact le_antisymm (not_lt.mp h1) hle
  · have hlo' := hf (not_lt.mp hlo)
    rw [if_neg hlo, if_neg (not_lt.mpr hlo')]
    by_cases hhi : hi < v
    · have hge := hf (le_of_lt hhi)
      rw [if_pos hhi]
      split_ifs with h1
      · rfl
      · exact le_antisymm hge (not_lt.mp h1)
    · rw [if_neg hhi, if_neg (not_lt.mpr (hf (not_lt.mp hhi)))]

theorem clamp_bounds (v lo hi : α) (h : lo ≤ hi) : lo ≤ clamp v lo hi ∧ clamp v lo hi ≤ hi := by
  unfold clamp
  split_ifs with h1 h2
  · exact ⟨le_refl _, h⟩
  · exact ⟨h, le_refl _⟩
  · exact ⟨not_lt.mp h1, not_lt.mp h2⟩
end

theorem trunc_intCast (n : Int) : trunc (n : ℚ) = n := by
  unfold trunc
  rw [Int.floor_intCast, Int.ceil_intCast, ite_self]

theorem trunc_le_trunc {a b : ℚ} (h : a ≤ b) : trunc a ≤ trunc b := by
  unfold trunc
  split_ifs with ha hb hb
  · exact Int.floor_le_floor h
  · exact absurd (le_trans ha h) hb
  · have hneg : ⌈a⌉ ≤ 0 := Int.ceil_le.mpr (by push_cast; linarith)
    have hpos : 0 ≤ ⌊b⌋ := Int.floor_nonneg.mpr hb
    omega
  · exact Int.ceil_le_ceil h

theorem trunc_le_iff (q : ℚ) (n : Nat) : trunc q ≤ n ↔ q < n + 1 := by
  unfold trunc
  split_ifs with hq
  · rw [← Int.lt_add_one_iff, Int.floor_lt]
    push_cast
    rfl
  · have hneg : ⌈q⌉ ≤ 0 := Int.ceil_le.mpr (by push_cast; linarith)
    have hn : (0 : ℚ) ≤ n := Nat.cast_nonneg n
    constructor
    · intro _
      linarith
    · intro _
      omega

theorem le_trunc_iff (q : ℚ) (n : Nat) : -(n : Int) ≤ trunc q ↔ -(n + 1 : ℚ) < q := by
  unfold trunc
  split_ifs with hq
  · have hpos : 0 ≤ ⌊q⌋ := Int.floor_nonneg.mpr hq
    have hn : (0 : ℚ) ≤ n := Nat.cast_nonneg n
    constructor
    · intro _
      linarith
    · intro _
      omega
  · rw [← Int.sub_one_lt_iff, Int.lt_ceil]
    push_cast
    constructor
    · intro h
      linarith
    · intro h
      linarith

/-! ## The fields of the frame -/

/-- The shift copies the sign into bits that the mask takes away again. -/
theorem hiByte_eq (v : Int16) : hiByte v = (v.toUInt16 >>> 8).toUInt8 := by
  have h8 : (8 : Int16).toBitVec.smod 16 = 8#16 := by decide
  apply UInt8.toBitVec_inj.mp
  unfold hiByte
  rw [UInt16.toBitVec_toUInt8, UInt16.toBitVec_toUInt8, UInt16.toBitVec_shiftRight,
    Int16.toBitVec_toUInt16, Int16.toBitVec_shiftRight, h8]
  show (v.toBitVec.sshiftRight 8).setWidth 8 = (v.toBitVec >>> 8).setWidth 8
  apply BitVec.eq_of_getLsbD_eq
  intro i hi
  have hin : ¬ 16 ≤ i := by omega
  have hlt : 8 + i < 16 := by omega
  rw [BitVec.getLsbD_setWidth, BitVec.getLsbD_setWidth, BitVec.getLsbD_sshiftRight,
    BitVec.getLsbD_ushiftRight, if_pos hlt]
  simp [hin]

theorem be16_split_signed (v : Int16) : be16 (hiByte v) (loByte v) = v.toUInt16 := by
  rw [hiByte_eq]
  exact be16_split v.toUInt16

theorem int16At_eq (buf : List UInt8) (i : Nat) : int16At buf i = (signedAt buf i : ℚ) / 100 := rfl

/-- The bytes of a field give back its value. -/
theorem signedAt_field (pre post : List UInt8) (n : Int) (hlo : -150 ≤ n) (hhi : n ≤ 150) :
    signedAt (pre ++ hiByte (Int16.ofInt n) :: loByte (Int16.ofInt n) :: post) pre.length = n := by
  have hsigned : (Int16.ofInt n).toInt = n :=
    Int16.toInt_ofInt_of_le (by omega) (by omega)
  unfold signedAt
  rw [List.getD_append_right _ _ _ _ (Nat.le_refl _), List.getD_append_right _ _ _ _ (by omega),
    Nat.sub_self, Nat.add_sub_cancel_left, List.getD_cons_zero, List.getD_cons_succ,
    List.getD_cons_zero, be16_split_signed]
  exact hsigned

/-- Clamping first and truncating the hundredths is truncating first and clamping. -/
theorem trunc_clamp_hundred (v lo hi : ℚ) (l h : Int) (hlo : lo * 100 = l) (hhi : hi * 100 = h)
    (hle : lo ≤ hi) : trunc (clamp v lo hi * 100) = clamp (trunc (v * 100)) l h := by
  have hscale : Monotone fun q : ℚ => q * 100 := by
    intro a b hab
    show a * 100 ≤ b * 100
    linarith
  have hmul : clamp v lo hi * 100 = clamp (v * 100) l h := by
    rw [← hlo, ← hhi]
    exact clamp_map _ hscale v lo hi hle
  have hlh : (l : ℚ) ≤ h := by
    rw [← hlo, ← hhi]
    linarith
  rw [hmul, clamp_map trunc (fun _ _ h => trunc_le_trunc h) _ _ _ hlh, trunc_intCast, trunc_intCast]

theorem field_bounds (v : Int) (b : Nat) (hb : b ≤ 150) :
    -150 ≤ clamp v (-b) b ∧ clamp v (-b) b ≤ 150 := by
  have h := clamp_bounds v (-b : Int) b (by omega)
  omega

theorem field_x (msg : Twist) :
    signedAt (cmdFrame msg) 4 = clamp (trunc (msg.linear.x * 100)) (-150) 150 := by
  obtain ⟨h1, h2⟩ := field_bounds (trunc (msg.linear.x * 100)) 150 (by omega)
  have hx := trunc_clamp_hundred msg.linear.x (-3/2) (3/2) (-150) 150 (by norm_num) (by norm_num)
    (by norm_num)
  push_cast at h1 h2
  rw [← hx] at h1 h2 ⊢
  exact signedAt_field [0xFE, 0xFE, 0x0B, 0x21] _ _ h1 h2

theorem field_y (msg : Twist) :
    signedAt (cmdFrame msg) 6 = clamp (trunc (msg.linear.y * 100)) (-100) 100 := by
  obtain ⟨h1, h2⟩ := field_bounds (trunc (msg.linear.y * 100)) 100 (by omega)
  have hy := trunc_clamp_hundred msg.linear.y (-1) 1 (-100) 100 (by norm_num) (by norm_num)
    (by norm_num)
  push_cast at h1 h2
  rw [← hy] at h1 h2 ⊢
  exact signedAt_field [0xFE, 0xFE, 0x0B, 0x21, _, _] _ _ h1 h2

theorem field_rot (msg : Twist) :
    signedAt (cmdFrame msg) 8 = clamp (trunc (msg.angular.z * 100)) (-100) 100 := by
  obtain ⟨h1, h2⟩ := field_bounds (trunc (msg.angular.z * 100)) 100 (by omega)
  have hrot := trunc_clamp_hundred msg.angular.z (-1) 1 (-100) 100 (by norm_num) (by norm_num)
    (by norm_num)
  push_cast at h1 h2
  rw [← hrot] at h1 h2 ⊢
  exact signedAt_field [0xFE, 0xFE, 0x0B, 0x21, _, _, _, _] _ _ h1 h2

/-! ## Against the generic builder -/

/-- The hundredths of a request, clamped, as an integer. -/
def hundredths (v lo hi : ℚ) : Int := trunc (100 * clamp v lo hi)

/-- A 16-bit two's-complement number, high byte first. -/
def be16Bytes (n : Int) : List UInt8 :=
  let u := (n % 65536).toNat
  [UInt8.ofNat (u / 256), UInt8.ofNat (u % 256)]

theorem be16Bytes_eq (n : Int) : be16Bytes n = [hiByte (Int16.ofInt n), loByte (Int16.ofInt n)] := by
  have hword : (Int16.ofInt n).toUInt16.toNat = (n % 65536).toNat :=
    BitVec.toNat_ofInt n
  have hlt : (n % 65536).toNat < 65536 := by omega
  have hhi : UInt8.ofNat ((n % 65536).toNat / 256) = hiByte (Int16.ofInt n) := by
    apply UInt8.toNat_inj.mp
    rw [hiByte_eq, toNat_hiByte, hword, UInt8.toNat_ofNat', Nat.mod_eq_of_lt (by omega)]
  have hlo : UInt8.ofNat ((n % 65536).toNat % 256) = loByte (Int16.ofInt n) := by
    apply UInt8.toNat_inj.mp
    unfold loByte
    rw [UInt16.toNat_toUInt8, hword, UInt8.toNat_ofNat']
    omega
  unfold be16Bytes
  simp only [hhi, hlo]

/-- `cmdCallback` and `build_serial_frame` lay out the same frame. -/
theorem cmdFrame_eq_build (msg : Twist) :
    cmdFrame msg = buildSerialFrame 0x21 (be16Bytes (hundredths msg.linear.x (-3/2) (3/2)) ++
      be16Bytes (hundredths msg.linear.y (-1) 1) ++ be16Bytes (hundredths msg.angular.z (-1) 1) ++
      [0, 0]) := by
  unfold hundredths
  rw [be16Bytes_eq, be16Bytes_eq, be16Bytes_eq, mul_comm 100, mul_comm 100, mul_comm 100]
  rfl

/-- `n` is `q` truncated: within one of it, no larger, never on the other side of 0. -/
structure Truncates (q : ℚ) (n : Int) : Prop where
  near : |(n : ℚ) - q| < 1
  le : |(n : ℚ)| ≤ |q|
  nonneg : 0 ≤ q → 0 ≤ n
  nonpos : q ≤ 0 → n ≤ 0

theorem truncates_trunc (q : ℚ) : Truncates q (trunc q) := by
  unfold trunc
  split_ifs with hq
  · have hfloor : 0 ≤ ⌊q⌋ := Int.floor_nonneg.mpr hq
    have hle := Int.floor_le q
    have hlt := Int.lt_floor_add_one q
    refine ⟨abs_lt.mpr ⟨by linarith, by linarith⟩, ?_, fun _ => hfloor, fun hneg => ?_⟩
    · rw [abs_of_nonneg hq, abs_of_nonneg (by exact_mod_cast hfloor)]
      exact hle
    · rw [le_antisymm hneg hq, Int.floor_zero]
  · have hneg : q ≤ 0 := le_of_lt (not_le.mp hq)
    have hceil : ⌈q⌉ ≤ 0 := Int.ceil_le.mpr (by exact_mod_cast hneg)
    have hle := Int.le_ceil q
    have hlt := Int.ceil_lt_add_one q
    refine ⟨abs_lt.mpr ⟨by linarith, by linarith⟩, ?_, fun h => absurd h hq, fun _ => hceil⟩
    rw [abs_of_nonpos hneg, abs_of_nonpos (by exact_mod_cast hceil)]
    exact neg_le_neg hle

theorem clamp_eq_max_min {v lo hi : ℚ} (hle : lo ≤ hi) : clamp v lo hi = max lo (min v hi) := by
  unfold clamp
  by_cases hlo : v < lo
  · have hhi : v ≤ hi := le_trans (le_of_lt hlo) hle
    rw [if_pos hlo, min_eq_left hhi, max_eq_left (le_of_lt hlo)]
  · rw [if_neg hlo]
    by_cases hhi : hi < v
    · rw [if_pos hhi, min_eq_right (le_of_lt hhi), max_eq_right hle]
    · rw [if_neg hhi, min_eq_left (not_lt.mp hhi), max_eq_right (not_lt.mp hlo)]

theorem clamp_le_clamp {v v' lo hi : ℚ} (hle : lo ≤ hi) (h : v ≤ v') :
    clamp v lo hi ≤ clamp v' lo hi := by
  rw [clamp_eq_max_min hle, clamp_eq_max_min hle]
  exact max_le_max le_rfl (min_le_min h le_rfl)

theorem hundredths_mono {v v' lo hi : ℚ} (hle : lo ≤ hi) (h : v ≤ v') :
    hundredths v lo hi ≤ hundredths v' lo hi := by
  have hclamp := clamp_le_clamp hle h
  apply trunc_le_trunc
  linarith

theorem signedAt_cmdFrame (msg : Twist) :
    signedAt (cmdFrame msg) 4 = hundredths msg.linear.x (-3/2) (3/2) ∧
      signedAt (cmdFrame msg) 6 = hundredths msg.linear.y (-1) 1 ∧
      signedAt (cmdFrame msg) 8 = hundredths msg.angular.z (-1) 1 := by
  have hx := trunc_clamp_hundred msg.linear.x (-3/2) (3/2) (-150) 150 (by norm_num) (by norm_num)
    (by norm_num)
  have hy := trunc_clamp_hundred msg.linear.y (-1) 1 (-100) 100 (by norm_num) (by norm_num)
    (by norm_num)
  have hrot := trunc_clamp_hundred msg.angular.z (-1) 1 (-100) 100 (by norm_num) (by norm_num)
    (by norm_num)
  unfold hundredths
  rw [field_x, field_y, field_rot, ← hx, ← hy, ← hrot]
  simp only [mul_comm, and_self]

theorem cmdCallback_writes (msg : Twist) (p : Port) : Writes p (cmdCallback msg p) [cmdFrame msg] :=
  writes_send _ p

/-- **One frame.**  The frame handed to `write` is the generic builder's, it goes out whole
where the port is open and the write does not throw, it carries the three truncated
requests, and a larger request is never sent as a smaller one. -/
theorem cmdCallback_refines (msg : Twist) (p : Port) :
    let x := hundredths msg.linear.x (-3/2) (3/2)
    let y := hundredths msg.linear.y (-1) 1
    let rot := hundredths msg.angular.z (-1) 1
    (∃ t : Transmit, (cmdCallback msg p).tx = p.tx ++ [t] ∧
      t.frame = buildSerialFrame 0x21 (be16Bytes x ++ be16Bytes y ++ be16Bytes rot ++ [0, 0]) ∧
      (t.sent = 14 ↔ p.isOpen = true ∧ p.throwsAt 0 = none) ∧
      signedAt t.frame 4 = x ∧ signedAt t.frame 6 = y ∧ signedAt t.frame 8 = rot) ∧
    (Truncates (100 * clamp msg.linear.x (-3/2) (3/2)) x ∧
      Truncates (100 * clamp msg.linear.y (-1) 1) y ∧
      Truncates (100 * clamp msg.angular.z (-1) 1) rot) ∧
    ∀ msg' : Twist,
      (msg.linear.x ≤ msg'.linear.x → x ≤ hundredths msg'.linear.x (-3/2) (3/2)) ∧
      (msg.linear.y ≤ msg'.linear.y → y ≤ hundredths msg'.linear.y (-1) 1) ∧
      (msg.angular.z ≤ msg'.angular.z → rot ≤ hundredths msg'.angular.z (-1) 1) := by
  intro x y rot
  refine ⟨?_, ⟨truncates_trunc _, truncates_trunc _, truncates_trunc _⟩, fun msg' => ?_⟩
  · exact ⟨_, rfl, cmdFrame_eq_build msg, @bytesOut_eq_iff _ _ 14 (by decide),
      signedAt_cmdFrame msg⟩
  · exact ⟨hundredths_mono (by norm_num), hundredths_mono (by norm_num),
      hundredths_mono (by norm_num)⟩

/-! ## Commanded against reported -/

/-- Some telemetry that `readData` accepts reports the triple the frame of `msg` carries. -/
def Reportable (msg : Twist) : Prop :=
  ∃ (s s' : SensorState) (p q : Port), readData s p = .done (true, s') q ∧
    s'.vx = int16At (cmdFrame msg) 4 ∧ s'.vy = int16At (cmdFrame msg) 6 ∧
    s'.vtheta = int16At (cmdFrame msg) 8

theorem int8At_bounds (buf : List UInt8) (i : Nat) :
    ∃ n : Int, int8At buf i = (n : ℚ) / 100 ∧ -128 ≤ n ∧ n ≤ 127 :=
  ⟨_, rfl, (buf.getD i 0).toInt8.le_toInt, Int.lt_add_one_iff.mp (buf.getD i 0).toInt8.toInt_lt⟩

theorem int8At_ofInt (pre post : List UInt8) (n : Int) (hlo : -128 ≤ n) (hhi : n ≤ 127) :
    int8At (pre ++ (Int8.ofInt n).toUInt8 :: post) pre.length = (n : ℚ) / 100 := by
  have hsigned : (Int8.ofInt n).toInt = n := Int8.toInt_ofInt_of_le (by omega) (by omega)
  unfold int8At
  rw [List.getD_append_right _ _ _ _ (Nat.le_refl _), Nat.sub_self, List.getD_cons_zero]
  show (((Int8.ofInt n).toInt : Int) : ℚ) / 100 = _
  rw [hsigned]

/-- A frame that reports three velocities, in hundredths, and nothing else. -/
def velocityTelemetry (x y rot : Int) : TelemetryFrame :=
  ⟨[(Int8.ofInt x).toUInt8, (Int8.ofInt y).toUInt8, (Int8.ofInt rot).toUInt8] ++
    List.replicate 22 0, rfl⟩

theorem clamp_within_iff (v : Int) : (-128 ≤ clamp v (-150) 150 ∧ clamp v (-150) 150 ≤ 127) ↔
    -128 ≤ v ∧ v ≤ 127 := by
  unfold clamp
  split_ifs <;> omega

/-- Telemetry reports a signed byte. -/
theorem reportable_bounds (msg : Twist) (h : Reportable msg) :
    -128 ≤ clamp (trunc (msg.linear.x * 100)) (-150) 150 ∧
      clamp (trunc (msg.linear.x * 100)) (-150) 150 ≤ 127 := by
  obtain ⟨s, s', p, q, hread, hvx, -, -⟩ := h
  obtain ⟨buf, rx, -, rfl, -⟩ := readData_true hread
  obtain ⟨n, hn, hlo, hhi⟩ := int8At_bounds buf 4
  have hcast : (n : ℚ) = (clamp (trunc (msg.linear.x * 100)) (-150) 150 : Int) := by
    have hvx' : int8At buf 4 = _ := hvx
    rw [hn, int16At_eq, field_x] at hvx'
    linarith
  rw [← Int.cast_injective hcast]
  exact ⟨hlo, hhi⟩

theorem readData_velocityTelemetry (x y rot : Int) (hx : -128 ≤ x ∧ x ≤ 127)
    (hy : -100 ≤ y ∧ y ≤ 100) (hrot : -100 ≤ rot ∧ rot ≤ 100) :
    ∃ (s s' : SensorState) (p q : Port), readData s p = .done (true, s') q ∧
      s'.vx = (x : ℚ) / 100 ∧ s'.vy = (y : ℚ) / 100 ∧ s'.vtheta = (rot : ℚ) / 100 := by
  refine ⟨{}, _, .ready (onWire (velocityTelemetry x y rot).bytes), _,
    readData_telemetry _ _ (velocityTelemetry x y rot) [] rfl (by simp), ?_, ?_, ?_⟩
  · exact int8At_ofInt [0xFE, 0xFE, 0x1C, 0x25] _ x hx.1 hx.2
  · exact int8At_ofInt [0xFE, 0xFE, 0x1C, 0x25, _] _ y (by omega) (by omega)
  · exact int8At_ofInt [0xFE, 0xFE, 0x1C, 0x25, _, _] _ rot (by omega) (by omega)

/-- **Ranges.**  Only the forward velocity can be commanded beyond what telemetry reports. -/
theorem reportable_iff (msg : Twist) :
    Reportable msg ↔ -129 / 100 < msg.linear.x ∧ msg.linear.x < 128 / 100 := by
  have hlo := le_trunc_iff (msg.linear.x * 100) 128
  have hhi := trunc_le_iff (msg.linear.x * 100) 127
  push_cast at hlo hhi
  constructor
  · intro h
    obtain ⟨h1, h2⟩ := (clamp_within_iff _).mp (reportable_bounds msg h)
    have := hlo.mp h1
    have := hhi.mp h2
    exact ⟨by linarith, by linarith⟩
  · rintro ⟨h1, h2⟩
    have hx := (clamp_within_iff _).mpr ⟨hlo.mpr (by linarith), hhi.mpr (by linarith)⟩
    have hy := clamp_bounds (trunc (msg.linear.y * 100)) (-100) 100 (by omega)
    have hrot := clamp_bounds (trunc (msg.angular.z * 100)) (-100) 100 (by omega)
    unfold Reportable
    rw [int16At_eq, int16At_eq, int16At_eq, field_x, field_y, field_rot]
    exact readData_velocityTelemetry _ _ _ hx hy hrot

/-- 1.5 m/s may be commanded. -/
theorem not_reportable_full_speed : ¬ ∀ msg : Twist, Reportable msg := by
  intro h
  have hbound := (reportable_bounds _ (h ⟨⟨3/2, 0, 0⟩, {}⟩)).2
  have hspeed : clamp (trunc (3/2 * 100)) (-150) 150 = 150 := by decide +kernel
  rw [hspeed] at hbound
  omega

end AgvPro
