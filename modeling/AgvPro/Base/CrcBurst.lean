import AgvPro.Base.CrcDistance
import Mathlib.Data.List.GetD
import Mathlib.Data.Nat.Find

/-!
# Bursts and the frame check

A UART sends the bytes in order, the low bit of each first (`wireBit`).  In that order
`crc16_ibm` is the register of a reflected CRC, which would have its low byte first
behind the message; the driver puts the high byte first.  So a burst of at most 16 bits
inside the message, or inside the CRC, is always detected, and across the seam it is not:
an error in the last six message bits is hidden by 16-bit bursts of one shape each
(`seamHit`).

    a burst of 16 bits passes  ↔  it is one of the 63 seam hits      (crcOk_burst_iff)
    a burst of 8 bits never passes                                   (crcOk_burst_short)
-/

namespace AgvPro

open Lfsr (shifts unit xorSum parity)

/-- Bit `p` of a byte string, in the order a UART sends it. -/
def wireBit (ws : List UInt8) (p : Nat) : Bool := (ws.getD (p / 8) 0).toBitVec.getLsbD (p % 8)

/-- `received` is `sent` with an error confined to the `width` bits from bit `k` on. -/
structure Burst (width : Nat) (sent received : List UInt8) (k : Nat) : Prop where
  length : received.length = sent.length
  ne : received ≠ sent
  within : ∀ p, wireBit received p ≠ wireBit sent p → k ≤ p ∧ p < k + width

/-- `u` as the last six bits of a byte on the wire. -/
def lastSix (u : BitVec 6) : UInt8 := ⟨u.setWidth 8 <<< 2⟩

/-- Bits `u` of the last six of a message are inverted, and with them the bits of the CRC
that they change. -/
def seamMask (u : BitVec 6) : List UInt8 :=
  let crc : UInt16 := ⟨shifts taps 6 (u.setWidth 16)⟩
  [lastSix u, (crc >>> 8).toUInt8, crc.toUInt8]

/-- The mask on the last message byte and the CRC behind it. -/
def seamHit (u : BitVec 6) (frame : List UInt8) : List UInt8 :=
  frame.take (frame.length - 3) ++
    List.zipWith (· ^^^ ·) (frame.drop (frame.length - 3)) (seamMask u)

/-! ## Bits on the wire -/

theorem wireBit_byte (ws : List UInt8) (i j : Nat) (hj : j < 8) :
    wireBit ws (8 * i + j) = (ws.getD i 0).toBitVec.getLsbD j := by
  have hdiv : (8 * i + j) / 8 = i := by omega
  have hmod : (8 * i + j) % 8 = j := by omega
  unfold wireBit
  rw [hdiv, hmod]

theorem wireBit_of_ge (ws : List UInt8) (p : Nat) (h : 8 * ws.length ≤ p) :
    wireBit ws p = false := by
  have hout : ws.length ≤ p / 8 := by omega
  unfold wireBit
  rw [List.getD_eq_default _ _ hout]
  exact BitVec.getLsbD_zero

theorem wireBit_ext (as bs : List UInt8) (hlen : as.length = bs.length)
    (h : ∀ p, wireBit as p = wireBit bs p) : as = bs := by
  apply List.ext_getElem hlen
  intro i hi hi'
  apply UInt8.toBitVec_inj.mp
  apply BitVec.eq_of_getLsbD_eq
  intro j hj
  have hbit := h (8 * i + j)
  rw [wireBit_byte as i j hj, wireBit_byte bs i j hj, List.getD_eq_getElem _ _ hi,
    List.getD_eq_getElem _ _ hi'] at hbit
  exact hbit

theorem wireBit_append_left (as bs : List UInt8) (p : Nat) (h : p < 8 * as.length) :
    wireBit (as ++ bs) p = wireBit as p := by
  unfold wireBit
  rw [List.getD_append _ _ _ _ (by omega)]

theorem wireBit_append_right (as bs : List UInt8) (p : Nat) :
    wireBit (as ++ bs) (8 * as.length + p) = wireBit bs p := by
  have hdiv : (8 * as.length + p) / 8 = as.length + p / 8 := by omega
  have hmod : (8 * as.length + p) % 8 = p % 8 := by omega
  unfold wireBit
  rw [hdiv, hmod, List.getD_append_right _ _ _ _ (by omega), Nat.add_sub_cancel_left]

/-- On the wire the high byte of the CRC comes first. -/
theorem wireBit_crcBytes (msg : List UInt8) (q : Nat) (hq : q < 16) :
    wireBit (crcBytes msg) q = (crc16Ibm msg).toBitVec.getLsbD ((q + 8) % 16) := by
  unfold wireBit crcBytes
  rcases Nat.lt_or_ge q 8 with h | h
  · have hdiv : q / 8 = 0 := by omega
    have hmod : q % 8 = q := by omega
    have hrot : (q + 8) % 16 = 8 + q := by omega
    rw [hdiv, hmod, hrot, List.getD_cons_zero, UInt16.toBitVec_toUInt8, UInt16.toBitVec_shiftRight]
    simp [h]
  · have hdiv : q / 8 = 1 := by omega
    have hmod : (q + 8) % 16 = q % 8 := by omega
    rw [hdiv, hmod, List.getD_cons_succ, List.getD_cons_zero, UInt16.toBitVec_toUInt8]
    simp [Nat.mod_lt q (by omega : 8 > 0)]

theorem wireBit_withCrc (msg : List UInt8) (q : Nat) (hq : q < 16) :
    wireBit (withCrc msg) (8 * msg.length + q) =
      (crc16Ibm msg).toBitVec.getLsbD ((q + 8) % 16) := by
  unfold withCrc
  rw [wireBit_append_right, wireBit_crcBytes msg q hq]

theorem wireBit_flipBit (ws : List UInt8) (p q : Nat) (hp : p < 8 * ws.length) :
    wireBit (flipBit ws (p / 8, p % 8)) q = (wireBit ws q ^^ decide (q = p)) := by
  have hin : p / 8 < ws.length := by omega
  unfold wireBit flipBit
  rw [List.getD_eq_getElem?_getD, List.getD_eq_getElem?_getD, List.getElem?_modify]
  by_cases h : p / 8 = q / 8
  · have hdec : decide (q = p) = decide (q % 8 = p % 8) := by
      apply decide_eq_decide.mpr
      omega
    rw [h] at hin
    simp only [h, if_true, List.getElem?_eq_getElem hin, Option.map_eq_map, Option.map_some,
      Option.getD_some]
    rw [UInt8.toBitVec_xor, mask_toBitVec _ (Nat.mod_lt _ (by omega)), BitVec.getLsbD_xor,
      Lfsr.getLsbD_unit, hdec]
    simp [Nat.mod_lt q (by omega : 8 > 0)]
  · have hne : q ≠ p := by rintro rfl; exact h rfl
    simp [h, hne]

/-! ## The register behind a burst -/

/-- Of the `n` bits from bit `k` on, those named by `b` are inverted. -/
def flipWindow (ws : List UInt8) (k : Nat) (b : Nat → Bool) : Nat → List UInt8
  | 0 => ws
  | n + 1 =>
    if b n then flipBit (flipWindow ws k b n) ((k + n) / 8, (k + n) % 8) else flipWindow ws k b n

theorem length_flipWindow (ws : List UInt8) (k : Nat) (b : Nat → Bool) (n : Nat) :
    (flipWindow ws k b n).length = ws.length := by
  induction n with
  | zero => rfl
  | succ n ih =>
    unfold flipWindow
    split
    · rw [length_flipBit, ih]
    · exact ih

theorem wireBit_flipWindow (ws : List UInt8) (k : Nat) (b : Nat → Bool) (n p : Nat)
    (h : k + n ≤ 8 * ws.length) :
    wireBit (flipWindow ws k b n) p =
      (wireBit ws p ^^ (decide (k ≤ p ∧ p < k + n) && b (p - k))) := by
  induction n with
  | zero =>
    have hno : ¬ (k ≤ p ∧ p < k + 0) := by omega
    rw [decide_eq_false hno]
    simp [flipWindow]
  | succ n ih =>
    have hrec := ih (by omega)
    have hin : k + n < 8 * (flipWindow ws k b n).length := by rw [length_flipWindow]; omega
    unfold flipWindow
    by_cases hp : p = k + n
    · subst hp
      have hsub : k + n - k = n := by omega
      rw [hsub] at hrec ⊢
      cases hb : b n with
      | true => rw [if_pos rfl, wireBit_flipBit _ _ _ hin, hrec]; simp
      | false => rw [if_neg (by simp), hrec]; simp
    · have hdec : decide (k ≤ p ∧ p < k + (n + 1)) = decide (k ≤ p ∧ p < k + n) := by
        apply decide_eq_decide.mpr
        omega
      rw [hdec, ← hrec]
      cases b n with
      | true => rw [if_pos rfl, wireBit_flipBit _ _ _ hin]; simp [hp]
      | false => rw [if_neg (by simp)]

/-- Byte strings that differ only inside a window. -/
theorem eq_flipWindow (ws ws' : List UInt8) (k n : Nat) (hlen : ws'.length = ws.length)
    (h : k + n ≤ 8 * ws.length) (hin : ∀ p, wireBit ws' p ≠ wireBit ws p → k ≤ p ∧ p < k + n) :
    ws' = flipWindow ws k (fun t => wireBit ws' (k + t) ^^ wireBit ws (k + t)) n := by
  apply wireBit_ext _ _ (by rw [length_flipWindow, hlen])
  intro p
  rw [wireBit_flipWindow _ _ _ _ _ h]
  by_cases hp : k ≤ p ∧ p < k + n
  · have hsub : k + (p - k) = p := by omega
    rw [hsub, decide_eq_true hp]
    cases wireBit ws p <;> simp
  · have heq : wireBit ws' p = wireBit ws p := by
      by_contra hne
      exact hp (hin p hne)
    rw [decide_eq_false hp, heq]
    simp

theorem crc16Ibm_flipWindow (ws : List UInt8) (k : Nat) (b : Nat → Bool) (n : Nat)
    (h : k + n ≤ 8 * ws.length) :
    (crc16Ibm (flipWindow ws k b n)).toBitVec = (crc16Ibm ws).toBitVec ^^^
      xorSum b (fun t => shifts taps (8 * ws.length - (k + t)) (unit 16 0)) n := by
  induction n with
  | zero => simp [flipWindow, xorSum]
  | succ n ih =>
    have hrec := ih (by omega)
    unfold flipWindow
    rw [xorSum, ← BitVec.xor_assoc, ← hrec]
    cases b n with
    | false => simp
    | true =>
      have hdist : 8 * (ws.length - (k + n) / 8) - (k + n) % 8 = 8 * ws.length - (k + n) := by omega
      rw [if_pos rfl, if_pos rfl, crc16Ibm_flipBit _ _ _ (by rw [length_flipWindow]; omega)
        (Nat.mod_lt _ (by omega)), length_flipWindow, hdist]

/-- **An error in a window of the message** changes the CRC by the window's content, shifted
to the end of the message. -/
theorem crc16Ibm_window (msg msg' : List UInt8) (k n : Nat) (hlen : msg'.length = msg.length)
    (hn : n ≤ 16) (h : k + n ≤ 8 * msg.length)
    (hin : ∀ p, wireBit msg' p ≠ wireBit msg p → k ≤ p ∧ p < k + n) :
    (crc16Ibm msg').toBitVec = (crc16Ibm msg).toBitVec ^^^ shifts taps (8 * msg.length - k)
      (xorSum (fun t => wireBit msg' (k + t) ^^ wireBit msg (k + t)) (unit 16) n) := by
  conv => lhs; rw [eq_flipWindow msg msg' k n hlen h hin]
  rw [crc16Ibm_flipWindow _ _ _ _ h, Lfsr.shifts_xorSum]
  congr 1
  apply Lfsr.xorSum_congr _ _ _ _ _ (fun _ _ => rfl)
  intro t ht
  have hsplit : 8 * msg.length - k = (8 * msg.length - (k + t)) + t := by omega
  rw [hsplit, Lfsr.shifts_add, Lfsr.shifts_unit taps t (by omega)]

/-! ## The seam -/

/-- The CRC bits behind a window of 16 that begins `d` bits before the CRC. -/
def behind (d : Nat) : BitVec 16 := (BitVec.allOnes 16 <<< (16 - d)).rotateRight 8

theorem getLsbD_behind : ∀ d, d < 16 → ∀ i, i < 16 →
    (behind d).getLsbD i = decide (16 - d ≤ (i + 8) % 16) := by
  decide +kernel

/-- The CRC bits outside the window that together tell its first bit. -/
def seamWitness (d : Nat) : BitVec 16 :=
  if d = 15 then 0xAAAA#16 else if d = 14 then 0x8001#16 else unit 16 (14 - d)

theorem seamWitness_behind : ∀ d, d < 16 → 7 ≤ d →
    seamWitness d &&& behind d = seamWitness d := by
  decide +kernel

theorem parity_seamWitness : ∀ d, d < 16 → 7 ≤ d → ∀ t, t < d →
    parity (seamWitness d &&& shifts taps d (unit 16 t)) = decide (t = 0) := by
  decide +kernel

/-- An error from 7 to 15 bits before the CRC changes some CRC bit outside its window. -/
theorem seam_outside (d : Nat) (h7 : 7 ≤ d) (h16 : d < 16) (b : Nat → Bool) (h0 : b 0 = true) :
    ∃ q, 16 - d ≤ q ∧ q < 16 ∧
      (shifts taps d (xorSum b (unit 16) d)).getLsbD ((q + 8) % 16) = true := by
  have hodd : parity (seamWitness d &&& shifts taps d (xorSum b (unit 16) d)) = true := by
    rw [Lfsr.shifts_xorSum, Lfsr.parity_and_xorSum _ _ _ _ (parity_seamWitness d h16 h7), h0]
    simp only [Bool.and_true, decide_eq_true_eq]
    omega
  generalize shifts taps d (xorSum b (unit 16) d) = c at hodd ⊢
  by_contra hno
  have hclear : behind d &&& c = 0#16 := by
    apply BitVec.eq_of_getLsbD_eq
    intro i hi
    rw [BitVec.getLsbD_and, getLsbD_behind _ h16 i hi, BitVec.getLsbD_zero]
    by_cases hq : 16 - d ≤ (i + 8) % 16
    · have hrot : ((i + 8) % 16 + 8) % 16 = i := by omega
      have hbit : c.getLsbD i ≠ true :=
        fun hc => hno ⟨(i + 8) % 16, hq, by omega, by rwa [hrot]⟩
      simp [hbit]
    · rw [decide_eq_false hq, Bool.false_and]
  rw [← seamWitness_behind d h16 h7, BitVec.and_assoc, hclear, BitVec.and_zero,
    Lfsr.parity_zero] at hodd
  cases hodd

section
variable (msg msg' : List UInt8) (p₀ : Nat) (hlen : msg'.length = msg.length)
  (hwin : ∀ q, wireBit msg' q ≠ wireBit msg q → p₀ ≤ q ∧ q < p₀ + 16)
  (hcrc : ∀ q, q < 16 → p₀ + 16 ≤ 8 * msg.length + q →
    (crc16Ibm msg').toBitVec.getLsbD ((q + 8) % 16) =
      (crc16Ibm msg).toBitVec.getLsbD ((q + 8) % 16))

include hlen hwin hcrc in
/-- A window inside the message: the CRCs would agree throughout. -/
theorem no_error_inside (hin : p₀ + 16 ≤ 8 * msg.length) :
    wireBit msg' p₀ = wireBit msg p₀ := by
  have hdiff := crc16Ibm_window msg msg' p₀ 16 hlen (Nat.le_refl _) hin hwin
  have hsame : (crc16Ibm msg').toBitVec = (crc16Ibm msg).toBitVec := by
    apply BitVec.eq_of_getLsbD_eq
    intro i hi
    have hrot : ((i + 8) % 16 + 8) % 16 = i := by omega
    have hbit := hcrc ((i + 8) % 16) (Nat.mod_lt _ (by omega)) (by omega)
    rwa [hrot] at hbit
  have hsum := BitVec.xor_eq_zero_iff.mpr hsame
  rw [hdiff, BitVec.xor_comm (crc16Ibm msg).toBitVec, BitVec.xor_assoc, BitVec.xor_self,
    BitVec.xor_zero] at hsum
  have hzero := Lfsr.shifts_injective taps (by decide) (by decide) _ _ 0#16
    (hsum.trans (Lfsr.shifts_zero_right taps _).symm)
  have hbit := congrArg (fun v : BitVec 16 => v.getLsbD 0) hzero
  simp only [Lfsr.getLsbD_xorSum_unit, BitVec.getLsbD_zero, Nat.add_zero] at hbit
  simpa using hbit

include hlen hwin hcrc in
/-- A window across the seam that begins 7 bits before the CRC or earlier. -/
theorem no_error_early (h7 : p₀ + 7 ≤ 8 * msg.length) (h16 : 8 * msg.length < p₀ + 16) :
    wireBit msg' p₀ = wireBit msg p₀ := by
  by_contra hne
  have hmsg : ∀ q, wireBit msg' q ≠ wireBit msg q →
      p₀ ≤ q ∧ q < p₀ + (8 * msg.length - p₀) := by
    intro q hq
    obtain ⟨hge, -⟩ := hwin q hq
    refine ⟨hge, ?_⟩
    by_contra hout
    rw [wireBit_of_ge msg' q (by omega), wireBit_of_ge msg q (by omega)] at hq
    exact hq rfl
  have hdiff := crc16Ibm_window msg msg' p₀ (8 * msg.length - p₀) hlen (by omega) (by omega) hmsg
  obtain ⟨q, hq1, hq2, hbit⟩ := seam_outside (8 * msg.length - p₀) (by omega) (by omega)
    (fun t => wireBit msg' (p₀ + t) ^^ wireBit msg (p₀ + t)) (by simpa using hne)
  have hsame := hcrc q hq2 (by omega)
  rw [hdiff, BitVec.getLsbD_xor, hbit] at hsame
  cases hc : (crc16Ibm msg).toBitVec.getLsbD ((q + 8) % 16) <;> simp [hc] at hsame
end

/-- Two messages of a length whose frames differ only within 16 bits differ only in the last
six bits of the messages. -/
theorem burst_last_six (msg msg' : List UInt8) (k : Nat) (hlen : msg'.length = msg.length)
    (h : ∀ p, wireBit (withCrc msg') p ≠ wireBit (withCrc msg) p → k ≤ p ∧ p < k + 16) (p : Nat)
    (hp : wireBit msg' p ≠ wireBit msg p) : 8 * msg.length ≤ p + 6 := by
  have hin : ∀ q, wireBit msg' q ≠ wireBit msg q → k ≤ q ∧ q < k + 16 := by
    intro q hq
    apply h q
    have hq8 : q < 8 * msg.length := by
      by_contra hge
      rw [wireBit_of_ge msg' q (by omega), wireBit_of_ge msg q (by omega)] at hq
      exact hq rfl
    unfold withCrc
    rwa [wireBit_append_left _ _ _ (by omega), wireBit_append_left _ _ _ hq8]
  -- the first bit that differs
  have hex : ∃ p, wireBit msg' p ≠ wireBit msg p := ⟨p, hp⟩
  obtain ⟨p₀, hp₀, hmin⟩ : ∃ p₀, wireBit msg' p₀ ≠ wireBit msg p₀ ∧
      ∀ q, wireBit msg' q ≠ wireBit msg q → p₀ ≤ q :=
    ⟨Nat.find hex, Nat.find_spec hex, fun q hq => Nat.find_min' hex hq⟩
  have hk := (hin p₀ hp₀).1
  have hwin : ∀ q, wireBit msg' q ≠ wireBit msg q → p₀ ≤ q ∧ q < p₀ + 16 := by
    intro q hq
    have := (hin q hq).2
    exact ⟨hmin q hq, by omega⟩
  have hcrc : ∀ q, q < 16 → p₀ + 16 ≤ 8 * msg.length + q →
      (crc16Ibm msg').toBitVec.getLsbD ((q + 8) % 16) =
        (crc16Ibm msg).toBitVec.getLsbD ((q + 8) % 16) := by
    intro q hq hbehind
    rw [← wireBit_withCrc msg' q hq, ← wireBit_withCrc msg q hq, hlen]
    by_contra hne
    have := (h _ hne).2
    omega
  have hle := hmin p hp
  by_contra hearly
  rcases Nat.lt_or_ge (8 * msg.length) (p₀ + 16) with hseam | hinside
  · exact hp₀ (no_error_early msg msg' p₀ hlen hwin hcrc (by omega) hseam)
  · exact hp₀ (no_error_inside msg msg' p₀ hlen hwin hcrc hinside)

/-! ## Bursts that pass -/

theorem crcOk_length (n : Nat) (ws : List UInt8) (hlen : ws.length = n + 2)
    (h : crcOk n ws = true) :
    ∃ msg : List UInt8, msg.length = n ∧ ws = withCrc msg := by
  obtain ⟨hi, lo, hlast⟩ : ∃ hi lo, ws.drop n = [hi, lo] :=
    List.length_eq_two.mp (by rw [List.length_drop]; omega)
  have htake : (ws.take n).length = n := by rw [List.length_take]; omega
  have hws : ws = ws.take n ++ [hi, lo] := by rw [← hlast, List.take_append_drop]
  refine ⟨ws.take n, htake, ?_⟩
  have hiff := crcOk_iff (ws.take n) hi lo
  rw [← hws, htake] at hiff
  exact hiff.mp h

/-- Messages that differ only in their last six bits. -/
theorem eq_of_last_six (msg msg' : List UInt8) (hlen : msg'.length = msg.length) (hne : msg' ≠ msg)
    (h : ∀ p, wireBit msg' p ≠ wireBit msg p → 8 * msg.length ≤ p + 6) :
    ∃ (pre : List UInt8) (c : UInt8) (u : BitVec 6), u ≠ 0#6 ∧ msg = pre ++ [c] ∧
      msg' = pre ++ [c ^^^ lastSix u] := by
  rcases List.eq_nil_or_concat' msg with rfl | ⟨pre, c, rfl⟩
  · exact absurd (List.length_eq_zero_iff.mp hlen) hne
  rcases List.eq_nil_or_concat' msg' with rfl | ⟨pre', c', rfl⟩
  · simp at hlen
  have hpre_len : pre'.length = pre.length := by simpa using hlen
  have hsame : ∀ p, p + 6 < 8 * (pre.length + 1) →
      wireBit (pre' ++ [c']) p = wireBit (pre ++ [c]) p := by
    intro p hp
    by_contra hdiff
    have := h p hdiff
    simp at this
    omega
  have hpre : pre' = pre := by
    apply wireBit_ext _ _ hpre_len
    intro p
    rcases Nat.lt_or_ge p (8 * pre.length) with hp | hp
    · rw [← wireBit_append_left pre' [c'] p (by omega), ← wireBit_append_left pre [c] p hp]
      exact hsame p (by omega)
    · rw [wireBit_of_ge pre' p (by omega), wireBit_of_ge pre p hp]
  subst hpre
  have hlow : ∀ j, j < 2 → c'.toBitVec.getLsbD j = c.toBitVec.getLsbD j := by
    intro j hj
    have hbit := hsame (8 * pre'.length + j) (by omega)
    rw [wireBit_append_right, wireBit_append_right] at hbit
    unfold wireBit at hbit
    rwa [show j / 8 = 0 by omega, show j % 8 = j by omega] at hbit
  have hc : c' = c ^^^ lastSix (((c.toBitVec ^^^ c'.toBitVec) >>> 2).setWidth 6) := by
    apply UInt8.toBitVec_inj.mp
    apply BitVec.eq_of_getLsbD_eq
    intro j hj
    unfold lastSix
    rw [UInt8.toBitVec_xor, BitVec.getLsbD_xor, BitVec.getLsbD_shiftLeft]
    rcases Nat.lt_or_ge j 2 with h2 | h2
    · simp [h2, hlow j h2]
    · have h6 : j - 2 < 6 := by omega
      have hadd : 2 + (j - 2) = j := by omega
      have hnot : ¬ j < 2 := by omega
      simp [hj, h6, hadd, hnot, Nat.lt_of_lt_of_le h6 (by omega : 6 ≤ 8)]
  refine ⟨pre', c, _, ?_, rfl, by rw [← hc]⟩
  intro hzero
  have hmask : lastSix 0#6 = 0 := by decide
  rw [hzero, hmask, UInt8.xor_zero] at hc
  exact hne (by rw [hc])

theorem shifts_seam : ∀ u : BitVec 6,
    shifts taps 8 ((lastSix u).toBitVec.setWidth 16) = shifts taps 6 (u.setWidth 16) := by
  decide +kernel

theorem crc16Ibm_lastSix (pre : List UInt8) (c : UInt8) (u : BitVec 6) :
    crc16Ibm (pre ++ [c ^^^ lastSix u]) =
      crc16Ibm (pre ++ [c]) ^^^ ⟨shifts taps 6 (u.setWidth 16)⟩ := by
  apply UInt16.toBitVec_inj.mp
  unfold crc16Ibm
  simp only [List.foldl_append, List.foldl_cons, List.foldl_nil]
  rw [UInt16.toBitVec_xor, crcByte_toBitVec, crcByte_toBitVec, ← shifts_seam u,
    ← Lfsr.shifts_xor, UInt8.toBitVec_xor, BitVec.setWidth_xor, BitVec.xor_assoc]

/-- A seam hit makes the frame of a message that differs in its last six bits. -/
theorem seamHit_withCrc (pre : List UInt8) (c : UInt8) (u : BitVec 6) :
    seamHit u (withCrc (pre ++ [c])) = withCrc (pre ++ [c ^^^ lastSix u]) := by
  unfold seamHit withCrc crcBytes seamMask
  rw [crc16Ibm_lastSix, UInt16.shiftRight_xor, UInt16.toUInt8_xor, UInt16.toUInt8_xor]
  simp

/-- **Exactness.**  A burst of at most 16 bits passes the check when, and only when, it is
a seam hit. -/
theorem crcOk_burst_iff (msg received : List UInt8) (k : Nat)
    (h : Burst 16 (withCrc msg) received k) :
    crcOk msg.length received = true ↔
      msg ≠ [] ∧ ∃ u : BitVec 6, u ≠ 0#6 ∧ received = seamHit u (withCrc msg) := by
  constructor
  · intro hok
    obtain ⟨msg', hlen, rfl⟩ :=
      crcOk_length msg.length received (by rw [h.length, length_withCrc]) hok
    have hne : msg' ≠ msg := fun e => h.ne (by rw [e])
    obtain ⟨pre, c, u, hu, rfl, rfl⟩ :=
      eq_of_last_six msg msg' hlen hne (burst_last_six msg msg' k hlen h.within)
    exact ⟨by simp, u, hu, (seamHit_withCrc pre c u).symm⟩
  · rintro ⟨hmsg, u, -, rfl⟩
    rcases List.eq_nil_or_concat' msg with rfl | ⟨pre, c, rfl⟩
    · exact absurd rfl hmsg
    · rw [seamHit_withCrc]
      have hok := crcOk_withCrc (pre ++ [c ^^^ lastSix u])
      simpa using hok

theorem burst_of_lt (width : Nat) (sent received : List UInt8) (k : Nat)
    (hlen : received.length = sent.length) (hne : received ≠ sent)
    (h : ∀ p, p < 8 * sent.length → wireBit received p ≠ wireBit sent p → k ≤ p ∧ p < k + width) :
    Burst width sent received k := by
  refine ⟨hlen, hne, fun p hp => ?_⟩
  rcases Nat.lt_or_ge p (8 * sent.length) with hlt | hge
  · exact h p hlt hp
  · rw [wireBit_of_ge received p (by omega), wireBit_of_ge sent p hge] at hp
    exact absurd rfl hp

/-- An idle telemetry frame without its CRC. -/
def idleMessage : List UInt8 := [0xFE, 0xFE, 0x1C, 0x25] ++ List.replicate 25 0

/-- Two bits of its last yaw byte and two of the CRC, within nine bits. -/
theorem crcOk_burst_iff_idle :
    crcOk 29 (seamHit 3#6 (withCrc idleMessage)) = true ↔
      idleMessage ≠ [] ∧ ∃ u : BitVec 6, u ≠ 0#6 ∧
        seamHit 3#6 (withCrc idleMessage) = seamHit u (withCrc idleMessage) :=
  crcOk_burst_iff idleMessage (seamHit 3#6 (withCrc idleMessage)) 226
    (burst_of_lt _ _ _ _ (by decide +kernel) (by decide +kernel) (by decide +kernel))

theorem not_crcOk_burst :
    ¬ ∀ (msg received : List UInt8) (k : Nat), Burst 16 (withCrc msg) received k →
      crcOk msg.length received = false := by
  intro h
  have hpass : crcOk 29 (seamHit 3#6 (withCrc idleMessage)) = true := by decide +kernel
  have hfail := h idleMessage (seamHit 3#6 (withCrc idleMessage)) 226
    (burst_of_lt _ _ _ _ (by decide +kernel) (by decide +kernel) (by decide +kernel))
  rw [show idleMessage.length = 29 from rfl, hpass] at hfail
  cases hfail

/-- Every seam hit spans more than 8 bits. -/
theorem seam_span : ∀ u : BitVec 6, u ≠ 0#6 → ∃ i, i < 8 ∧ ∃ q, q < 16 ∧ i ≤ q ∧
    (lastSix u).toBitVec.getLsbD i = true ∧
    (shifts taps 6 (u.setWidth 16)).getLsbD ((q + 8) % 16) = true := by
  decide +kernel

theorem crcOk_burst_short (msg received : List UInt8) (k : Nat)
    (h : Burst 8 (withCrc msg) received k) : crcOk msg.length received = false := by
  by_contra hpass
  obtain ⟨msg', hlen, rfl⟩ := crcOk_length msg.length received (by rw [h.length, length_withCrc])
    (by simpa using hpass)
  have hne : msg' ≠ msg := fun e => h.ne (by rw [e])
  have hwide : ∀ p, wireBit (withCrc msg') p ≠ wireBit (withCrc msg) p → k ≤ p ∧ p < k + 16 := by
    intro p hp
    have := h.within p hp
    omega
  obtain ⟨pre, c, u, hu, rfl, rfl⟩ :=
    eq_of_last_six msg msg' hlen hne (burst_last_six msg msg' k hlen hwide)
  obtain ⟨i, hi, q, hq, hiq, hmsg, hcrc⟩ := seam_span u hu
  have hfirst : wireBit (withCrc (pre ++ [c ^^^ lastSix u])) (8 * pre.length + i) ≠
      wireBit (withCrc (pre ++ [c])) (8 * pre.length + i) := by
    unfold withCrc
    rw [List.append_assoc, List.append_assoc, wireBit_append_right, wireBit_append_right]
    have hdiv : i / 8 = 0 := by omega
    have hmod : i % 8 = i := by omega
    unfold wireBit
    rw [hdiv, hmod, List.singleton_append, List.singleton_append, List.getD_cons_zero,
      List.getD_cons_zero, UInt8.toBitVec_xor, BitVec.getLsbD_xor, hmsg]
    simp
  have hlast : wireBit (withCrc (pre ++ [c ^^^ lastSix u])) (8 * (pre ++ [c]).length + q) ≠
      wireBit (withCrc (pre ++ [c])) (8 * (pre ++ [c]).length + q) := by
    rw [← hlen, wireBit_withCrc _ q hq, hlen, wireBit_withCrc _ q hq, crc16Ibm_lastSix,
      UInt16.toBitVec_xor, BitVec.getLsbD_xor, hcrc]
    simp
  have h1 := (h.within _ hfirst).1
  have h2 := (h.within _ hlast).2
  simp only [List.length_append, List.length_singleton] at h2
  omega

end AgvPro
