import AgvPro.Base.Command
import AgvPro.Dock.Control
import AgvPro.Dock.Framing
import Mathlib.Data.Nat.Bitwise

/-!
# From a docking frame to the wheels

A docking frame carries a forward speed in mm/s and a turning speed in mrad/s, the mode and
the infrared bits.  The parser divides the speeds by 1000, the docking thread publishes them
as a Twist on `/cmd_vel`, and `cmdCallback` of the base driver sends them on in hundredths.

    moving mode, no obstacle → the speeds over 10, truncated and clamped;
    obstacle or a mode that stops → zeros                        (docking_velocity)
-/

namespace AgvPro

/-! ## Two readings of a 16-bit speed -/

/-- The masked negation of the parser is two's complement, also at -32768. -/
theorem speedRaw_eq (data : List UInt8) (i : Nat) :
    speedRaw (data.getD i 0) (data.getD (i + 1) 0) = signedAt data i := by
  have h16 := (be16 (data.getD i 0) (data.getD (i + 1) 0)).toNat_lt
  have hraw : ((data.getD i 0).toNat <<< 8) ||| (data.getD (i + 1) 0).toNat =
      (be16 (data.getD i 0) (data.getD (i + 1) 0)).toNat := by
    rw [toNat_be16, ← Nat.shiftLeft_add_eq_or_of_lt (data.getD (i + 1) 0).toNat_lt,
      Nat.shiftLeft_eq]
  have hsigned : signedAt data i =
      (be16 (data.getD i 0) (data.getD (i + 1) 0)).toBitVec.toInt := rfl
  have hnat : (be16 (data.getD i 0) (data.getD (i + 1) 0)).toBitVec.toNat =
      (be16 (data.getD i 0) (data.getD (i + 1) 0)).toNat := rfl
  unfold speedRaw
  rw [hraw, hsigned, BitVec.toInt_eq_toNat_cond, hnat]
  generalize (be16 (data.getD i 0) (data.getD (i + 1) 0)).toNat = raw at h16 ⊢
  have hsign : raw &&& 0x8000 ≠ 0 ↔ 32768 ≤ raw := by
    have hand := Nat.and_two_pow raw 15
    have hbit : raw.testBit 15 = decide (raw / 2 ^ 15 % 2 = 1) := Nat.testBit_eq_decide_div_mod_eq
    rw [show (0x8000 : Nat) = 2 ^ 15 from rfl, hand, hbit]
    by_cases h : 32768 ≤ raw
    · have h1 : raw / 2 ^ 15 % 2 = 1 := by omega
      rw [decide_eq_true h1]
      simp [h]
    · have h0 : ¬ raw / 2 ^ 15 % 2 = 1 := by omega
      rw [decide_eq_false h0]
      simp [h]
  have hmask : (65536 - raw) &&& 0xFFFF = (65536 - raw) % 65536 :=
    Nat.and_two_pow_sub_one_eq_mod _ 16
  simp only [hsign, hmask]
  split_ifs <;> omega

/-! ## The stages -/

/-- The docking thread, waiting for a frame, gets `r` and publishes `t` for it. -/
def Publishes (r : Reading) (t : Twist) : Prop :=
  ∀ (d : Docking) (active : Bool), d.pc = .read → ∃ d1 d2 : Docking,
    d.step active (.frame r) = some (d1, active) ∧ d1.step active .advance = some (d2, active) ∧
      d2.published = d.published ++ [t]

/-- `cmdCallback` writes one frame for `t`, with these fields. -/
def Commands (t : Twist) (x y rot : Int) : Prop :=
  ∀ p : Port, ∃ frame sent, (cmdCallback t p).tx = p.tx ++ [⟨frame, sent⟩] ∧
    signedAt frame 4 = x ∧ signedAt frame 6 = y ∧ signedAt frame 8 = rot

theorem publishes_of_react (r : Reading) (t : Twist) (leave : Bool)
    (h : react r = .publish t leave) : Publishes r t := by
  intro d active hd
  refine ⟨d.goto (.act r), ⟨.print leave, d.published ++ [t], d.frames ++ [r]⟩, ?_, ?_, rfl⟩
  · unfold Docking.step
    rw [hd]
  · unfold Docking.step Docking.goto
    simp only [h]

theorem commands_cmdFrame (t : Twist) :
    Commands t (clamp (trunc (t.linear.x * 100)) (-150) 150)
      (clamp (trunc (t.linear.y * 100)) (-100) 100)
      (clamp (trunc (t.angular.z * 100)) (-100) 100) :=
  fun _ => ⟨cmdFrame t, _, rfl, field_x t, field_y t, field_rot t⟩

theorem commands_stop : Commands {} 0 0 0 := by
  have hzero : ∀ b : Int, 0 ≤ b → clamp (trunc ((0 : ℚ) * 100)) (-b) b = 0 := by
    intro b hb
    have h0 : trunc ((0 : ℚ) * 100) = 0 := by rw [zero_mul]; exact trunc_intCast 0
    unfold clamp
    rw [h0]
    split_ifs <;> omega
  have h := commands_cmdFrame {}
  rwa [hzero 150 (by omega), hzero 100 (by omega)] at h

/-- The last of the eight bits is the lowest. -/
theorem infraredBits_last (data : List UInt8) :
    (readingOf data).infraredBits[7]? = some (data.getD 6 0 &&& 0x01) := by
  have hshift : ∀ b : UInt8, b >>> 0 = b := fun _ => UInt8.shiftRight_zero
  show some ((data.getD 6 0 >>> 0) &&& 0x01) = _
  rw [hshift]

theorem react_normal (data : List UInt8) (hmode : data.getD 2 0 = 0x01)
    (hclear : data.getD 6 0 &&& 0x01 = 0) :
    react (readingOf data) =
      .publish ⟨⟨(readingOf data).xSpeed, 0, 0⟩, ⟨0, 0, (readingOf data).zSpeed⟩⟩ false := by
  unfold react
  rw [infraredBits_last]
  dsimp only
  rw [if_pos hclear]
  exact if_pos hmode

/-- An obstacle stops in every mode, three modes stop without one. -/
theorem react_stop (data : List UInt8)
    (h : data.getD 6 0 &&& 0x01 = 1 ∨ data.getD 2 0 ∈ [0xBB, 0xAA, 0xCF]) :
    ∃ leave, react (readingOf data) = .publish {} leave := by
  unfold react
  rw [infraredBits_last]
  dsimp only
  by_cases hclear : data.getD 6 0 &&& 0x01 = 0
  · have hmode := h.resolve_left (by rw [hclear]; decide)
    have hwhich : (readingOf data).whichMode = data.getD 2 0 := rfl
    rw [if_pos hclear, hwhich]
    simp only [List.mem_cons, List.not_mem_nil, or_false] at hmode
    rcases hmode with hm | hm | hm
    · exact ⟨false, by rw [hm]; rfl⟩
    · exact ⟨true, by rw [hm]; rfl⟩
    · exact ⟨true, by rw [hm]; rfl⟩
  · rw [if_neg hclear]
    exact ⟨true, rfl⟩

/-- Toward zero. -/
theorem trunc_tenth (v : Int) :
    (0 ≤ v → 0 ≤ trunc ((v : ℚ) / 10) ∧ 10 * trunc ((v : ℚ) / 10) ≤ v) ∧
      (v < 0 → trunc ((v : ℚ) / 10) ≤ 0 ∧ v ≤ 10 * trunc ((v : ℚ) / 10)) := by
  unfold trunc
  constructor
  · intro hv
    have hq : (0 : ℚ) ≤ (v : ℚ) / 10 := by
      have : (0 : ℚ) ≤ v := Int.cast_nonneg hv
      linarith
    have hle := Int.floor_le ((v : ℚ) / 10)
    have hmul : (10 : ℚ) * ⌊(v : ℚ) / 10⌋ ≤ v := by linarith
    rw [if_pos hq]
    exact ⟨Int.floor_nonneg.mpr hq, by exact_mod_cast hmul⟩
  · intro hv
    have hq : (v : ℚ) / 10 < 0 := by
      have : (v : ℚ) < 0 := Int.cast_lt_zero.mpr hv
      linarith
    have hle := Int.le_ceil ((v : ℚ) / 10)
    have hmul : (v : ℚ) ≤ 10 * ⌈(v : ℚ) / 10⌉ := by linarith
    rw [if_neg (not_le.mpr hq)]
    exact ⟨Int.ceil_le.mpr (by push_cast; linarith), by exact_mod_cast hmul⟩

/-- Truncating a tenth and clamping keeps the sign and does not make the value larger. -/
theorem clamp_tenth (v : Int) (b : Nat) :
    0 ≤ clamp (trunc ((v : ℚ) / 10)) (-b) b * v ∧
      10 * |clamp (trunc ((v : ℚ) / 10)) (-b) b| ≤ |v| := by
  obtain ⟨hpos, hneg⟩ := trunc_tenth v
  rcases le_or_gt 0 v with hv | hv
  · obtain ⟨h1, h2⟩ := hpos hv
    have hc : 0 ≤ clamp (trunc ((v : ℚ) / 10)) (-b) b ∧
        10 * clamp (trunc ((v : ℚ) / 10)) (-b) b ≤ v := by
      unfold clamp
      split_ifs <;> omega
    rw [abs_of_nonneg hc.1, abs_of_nonneg hv]
    exact ⟨mul_nonneg hc.1 hv, hc.2⟩
  · obtain ⟨h1, h2⟩ := hneg hv
    have hc : clamp (trunc ((v : ℚ) / 10)) (-b) b ≤ 0 ∧
        v ≤ 10 * clamp (trunc ((v : ℚ) / 10)) (-b) b := by
      unfold clamp
      split_ifs <;> omega
    rw [abs_of_nonpos hc.1, abs_of_neg hv]
    exact ⟨mul_nonneg_of_nonpos_of_nonpos hc.1 (le_of_lt hv), by omega⟩

/-! ## End to end -/

/-- The payload's forward and turning speed as the frame's fields have them. -/
def forwardField (data : List UInt8) : Int := clamp (trunc ((signedAt data 0 : ℚ) / 10)) (-150) 150
def turnField (data : List UInt8) : Int := clamp (trunc ((signedAt data 4 : ℚ) / 10)) (-100) 100

theorem commands_moving (data : List UInt8) :
    Commands ⟨⟨(readingOf data).xSpeed, 0, 0⟩, ⟨0, 0, (readingOf data).zSpeed⟩⟩
      (forwardField data) 0 (turnField data) := by
  have hx : (readingOf data).xSpeed * 100 = (signedAt data 0 : ℚ) / 10 := by
    show (speedRaw (data.getD 0 0) (data.getD (0 + 1) 0) : ℚ) / 1000 * 100 = _
    rw [speedRaw_eq]
    ring
  have hz : (readingOf data).zSpeed * 100 = (signedAt data 4 : ℚ) / 10 := by
    show (speedRaw (data.getD 4 0) (data.getD (4 + 1) 0) : ℚ) / 1000 * 100 = _
    rw [speedRaw_eq]
    ring
  have hy : clamp (trunc ((0 : ℚ) * 100)) (-100) 100 = 0 := by decide +kernel
  have h := commands_cmdFrame
    ⟨⟨(readingOf data).xSpeed, 0, 0⟩, ⟨0, 0, (readingOf data).zSpeed⟩⟩
  simp only [hx, hy, hz] at h
  exact h

/-- **End to end.**  A docking frame read by a parser with an empty buffer, its Twist and the
command frame written for it. -/
theorem docking_velocity (p : SerialCANParser) (hp : p.buffer = []) (f : CanFrame)
    (hf : f.is182 = true) (rest : List UInt8) :
    (∃ p', p.readSerialData (f.bytes ++ rest) = some (readingOf f.data, p', rest)) ∧
    (f.data.getD 2 0 = 0x01 → f.data.getD 6 0 &&& 0x01 = 0 →
      ∃ t, Publishes (readingOf f.data) t ∧ Commands t (forwardField f.data) 0 (turnField f.data)) ∧
    (f.data.getD 6 0 &&& 0x01 = 1 ∨ f.data.getD 2 0 ∈ [0xBB, 0xAA, 0xCF] →
      ∃ t, Publishes (readingOf f.data) t ∧ Commands t 0 0 0) ∧
    (0 ≤ forwardField f.data * signedAt f.data 0 ∧
      10 * |forwardField f.data| ≤ |signedAt f.data 0|) ∧
    (0 ≤ turnField f.data * signedAt f.data 4 ∧ 10 * |turnField f.data| ≤ |signedAt f.data 4|) := by
  refine ⟨?_, ?_, ?_, clamp_tenth _ 150, clamp_tenth _ 100⟩
  · have hread := p.readSerialData_frame f.bytes rest hp f.length_bytes
      (SerialCANParser.head_bytes f)
    rw [SerialCANParser.accepts_bytes, if_pos hf, SerialCANParser.data_bytes] at hread
    exact ⟨_, hread⟩
  · intro hmode hclear
    exact ⟨_, publishes_of_react _ _ false (react_normal f.data hmode hclear),
      commands_moving f.data⟩
  · intro hstop
    obtain ⟨leave, hreact⟩ := react_stop f.data hstop
    exact ⟨{}, publishes_of_react _ _ leave hreact, commands_stop⟩

/-- 1.6 m/s backward and 0.333 rad/s. -/
def backwardFrame : CanFrame where
  id := [0x30, 0x40, 0, 1]
  data := [0xF9, 0xC0, 0x01, 0, 0x01, 0x4D, 0, 0]
  trailer := [0, 0]
  length_id := rfl
  length_data := rfl
  length_trailer := rfl

theorem docking_velocity_backward :
    ∃ t, Publishes (readingOf backwardFrame.data) t ∧
      Commands t (forwardField backwardFrame.data) 0 (turnField backwardFrame.data) :=
  (docking_velocity .new rfl backwardFrame (by decide +kernel) []).2.1 (by decide) (by decide)

end AgvPro
