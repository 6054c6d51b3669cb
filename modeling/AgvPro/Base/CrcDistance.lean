import AgvPro.Base.Frame
import AgvPro.Lib.Lfsr

/-!
# Minimum distance of the frame check

The register of `crc16_ibm` is a shift register with taps `0xA001`, so flipping bit
`j` of byte `i` changes the difference between the computed and the stored CRC
(`syndrome`) by a value `bitSig n i j` that depends only on the position
(`syndrome_flipBit`).  Every `bitSig` has odd parity, and over at most 4093 message
bytes no two are equal, since the register seeded with 1 first returns after 32767
steps.  So one, two or three flipped bits never give syndrome 0
(`crcOk_flipBits`).
-/

namespace AgvPro

open Lfsr (shift shifts unit parity)

def taps : BitVec 16 := 0xA001#16

/-- Bit `p.2` of byte `p.1` is inverted. -/
def flipBit (ws : List UInt8) (p : Nat × Nat) : List UInt8 :=
  ws.modify p.1 (· ^^^ (1 <<< UInt8.ofNat p.2))

def flipBits (ws : List UInt8) (ps : List (Nat × Nat)) : List UInt8 := ps.foldl flipBit ws

/-- One, two or three distinct bit positions in `n` bytes. -/
structure FewFlips (n : Nat) (ps : List (Nat × Nat)) : Prop where
  nodup : ps.Nodup
  pos : 1 ≤ ps.length
  le : ps.length ≤ 3
  inside : ∀ p ∈ ps, p.1 < n ∧ p.2 < 8

/-- Computed CRC of the first `n` bytes against the stored one. -/
def syndrome (n : Nat) (ws : List UInt8) : BitVec 16 :=
  (crc16Ibm (ws.take n)).toBitVec ^^^ (be16 (ws.getD n 0) (ws.getD (n + 1) 0)).toBitVec

/-- What flipping bit `j` of byte `i` adds to the syndrome. -/
def bitSig (n i j : Nat) : BitVec 16 :=
  if i < n then shifts taps (8 * (n - i) - j) (unit 16 0) else unit 16 (8 * (n + 1 - i) + j)

theorem crcOk_iff_syndrome (n : Nat) (ws : List UInt8) :
    crcOk n ws = true ↔ syndrome n ws = 0#16 := by
  unfold crcOk syndrome
  rw [beq_iff_eq, ← UInt16.toBitVec_inj]
  constructor
  · intro h; rw [h, BitVec.xor_self]
  · intro h; exact (BitVec.xor_eq_zero_iff.mp h).symm

/-! ## The register -/

theorem crcBit_toBitVec (c : UInt16) : (crcBit c).toBitVec = shift taps c.toBitVec := by
  have hlow : (c &&& 0x0001 ≠ 0) ↔ c.toBitVec.getLsbD 0 = true := by
    rw [Ne, ← UInt16.toBitVec_inj, UInt16.toBitVec_and,
      show (0x0001 : UInt16).toBitVec = 1#16 from rfl, BitVec.and_one_eq_setWidth_ofBool_getLsbD]
    cases c.toBitVec.getLsbD 0 <;> decide
  unfold crcBit shift taps
  by_cases h : c.toBitVec.getLsbD 0 = true
  · rw [if_pos (hlow.mpr h), if_pos h, UInt16.toBitVec_xor, UInt16.toBitVec_shiftRight]
    rfl
  · rw [if_neg (fun e => h (hlow.mp e)), if_neg h, UInt16.toBitVec_shiftRight]
    rfl

theorem crcBits_toBitVec (k : Nat) (c : UInt16) :
    (crcBit^[k] c).toBitVec = shifts taps k c.toBitVec := by
  induction k generalizing c with
  | zero => rfl
  | succ k ih => rw [Function.iterate_succ_apply, ih, crcBit_toBitVec, Lfsr.shifts_succ]

theorem crcByte_toBitVec (c : UInt16) (b : UInt8) :
    (crcByte c b).toBitVec = shifts taps 8 (c.toBitVec ^^^ b.toBitVec.setWidth 16) := by
  unfold crcByte
  rw [crcBits_toBitVec, UInt16.toBitVec_xor]
  rfl

/-- A difference in the register is carried through the bytes that follow. -/
theorem foldl_crcByte_xor (bs : List UInt8) (c c' : UInt16) (d : BitVec 16)
    (h : c'.toBitVec = c.toBitVec ^^^ d) :
    (bs.foldl crcByte c').toBitVec = (bs.foldl crcByte c).toBitVec ^^^ shifts taps (8 * bs.length) d := by
  induction bs generalizing c c' d with
  | nil => exact h
  | cons b bs ih =>
    have hstep : (crcByte c' b).toBitVec = (crcByte c b).toBitVec ^^^ shifts taps 8 d := by
      rw [crcByte_toBitVec, crcByte_toBitVec, ← Lfsr.shifts_xor, h, BitVec.xor_assoc,
        BitVec.xor_comm d, ← BitVec.xor_assoc]
    simp only [List.foldl_cons, List.length_cons]
    rw [ih _ _ _ hstep, ← Lfsr.shifts_add, show 8 * bs.length + 8 = 8 * (bs.length + 1) by omega]

/-! ## Single flips -/

theorem mask_toBitVec (j : Nat) (hj : j < 8) :
    ((1 : UInt8) <<< UInt8.ofNat j).toBitVec = unit 8 j := by
  have h : ∀ j : Fin 8, ((1 : UInt8) <<< UInt8.ofNat j.1).toBitVec = unit 8 j.1 := by decide
  exact h ⟨j, hj⟩

theorem setWidth_unit (j : Nat) (hj : j < 8) : (unit 8 j).setWidth 16 = unit 16 j := by
  have h : ∀ j : Fin 8, (unit 8 j.1).setWidth 16 = unit 16 j.1 := by decide
  exact h ⟨j, hj⟩

theorem crc16Ibm_flipBit (msg : List UInt8) (i j : Nat) (hi : i < msg.length) (hj : j < 8) :
    (crc16Ibm (flipBit msg (i, j))).toBitVec =
      (crc16Ibm msg).toBitVec ^^^ shifts taps (8 * (msg.length - i) - j) (unit 16 0) := by
  obtain ⟨pre, b, post, rfl, rfl⟩ : ∃ pre b post, msg = pre ++ b :: post ∧ pre.length = i :=
    ⟨msg.take i, msg[i], msg.drop (i + 1), by simp, by simp; omega⟩
  have hflip : flipBit (pre ++ b :: post) (pre.length, j) =
      pre ++ (b ^^^ (1 <<< UInt8.ofNat j)) :: post := by
    unfold flipBit
    rw [List.modify_eq_take_cons_drop hi]
    simp
  have hbyte : ∀ c : UInt16, (crcByte c (b ^^^ (1 <<< UInt8.ofNat j))).toBitVec =
      (crcByte c b).toBitVec ^^^ shifts taps 8 (unit 16 j) := by
    intro c
    rw [crcByte_toBitVec, crcByte_toBitVec, ← Lfsr.shifts_xor, UInt8.toBitVec_xor,
      mask_toBitVec j hj, BitVec.setWidth_xor, setWidth_unit j hj, BitVec.xor_assoc]
  -- the bit reaches the bottom of the register after `j` of the remaining steps
  have hlen : 8 * post.length + 8 = (8 * ((pre ++ b :: post).length - pre.length) - j) + j := by
    simp; omega
  unfold crc16Ibm
  rw [hflip]
  simp only [List.foldl_append, List.foldl_cons]
  rw [foldl_crcByte_xor post _ _ _ (hbyte _), ← Lfsr.shifts_add, hlen, Lfsr.shifts_add,
    Lfsr.shifts_unit taps j (by omega)]

theorem be16_toBitVec (hi lo : UInt8) :
    (be16 hi lo).toBitVec = hi.toBitVec.setWidth 16 <<< 8 ^^^ lo.toBitVec.setWidth 16 := by
  have hor : (be16 hi lo).toBitVec = hi.toBitVec.setWidth 16 <<< 8 ||| lo.toBitVec.setWidth 16 := by
    unfold be16
    rw [UInt16.toBitVec_or, UInt16.toBitVec_shiftLeft]
    rfl
  rw [hor]
  apply BitVec.eq_of_getLsbD_eq
  intro i hi16
  rw [BitVec.getLsbD_or, BitVec.getLsbD_xor]
  by_cases h : i < 8
  · simp [h]
  · have hlo : lo.toBitVec.getLsbD i = false := BitVec.getLsbD_of_ge _ _ (by omega)
    simp [hlo]

theorem be16_flipHi (hi lo : UInt8) (j : Nat) (hj : j < 8) :
    (be16 (hi ^^^ (1 <<< UInt8.ofNat j)) lo).toBitVec =
      (be16 hi lo).toBitVec ^^^ unit 16 (8 + j) := by
  have hshift : ∀ j : Fin 8, unit 16 j.1 <<< 8 = unit 16 (8 + j.1) := by decide
  rw [be16_toBitVec, be16_toBitVec, UInt8.toBitVec_xor, mask_toBitVec j hj,
    BitVec.setWidth_xor, setWidth_unit j hj, BitVec.shiftLeft_xor_distrib, hshift ⟨j, hj⟩]
  ac_rfl

theorem be16_flipLo (hi lo : UInt8) (j : Nat) (hj : j < 8) :
    (be16 hi (lo ^^^ (1 <<< UInt8.ofNat j))).toBitVec =
      (be16 hi lo).toBitVec ^^^ unit 16 j := by
  rw [be16_toBitVec, be16_toBitVec, UInt8.toBitVec_xor, mask_toBitVec j hj,
    BitVec.setWidth_xor, setWidth_unit j hj, BitVec.xor_assoc]

@[simp] theorem length_flipBit (ws : List UInt8) (p : Nat × Nat) :
    (flipBit ws p).length = ws.length := by
  simp [flipBit]

theorem take_flipBit (n : Nat) (ws : List UInt8) (p : Nat × Nat) :
    (flipBit ws p).take n = flipBit (ws.take n) p := by
  apply List.ext_getElem?
  intro k
  unfold flipBit
  rw [List.getElem?_take, List.getElem?_modify, List.getElem?_modify, List.getElem?_take]
  split <;> simp

/-- **One flip.**  It adds its own signature to the syndrome, whatever the bytes are. -/
theorem syndrome_flipBit (n : Nat) (ws : List UInt8) (hlen : ws.length = n + 2) (i j : Nat)
    (hi : i < n + 2) (hj : j < 8) :
    syndrome n (flipBit ws (i, j)) = syndrome n ws ^^^ bitSig n i j := by
  have hget : ∀ k, k ≠ i → (flipBit ws (i, j)).getD k 0 = ws.getD k 0 := by
    intro k hk
    simp [flipBit, List.getD_eq_getElem?_getD, Ne.symm hk]
  have hself : (flipBit ws (i, j)).getD i 0 = ws.getD i 0 ^^^ (1 <<< UInt8.ofNat j) := by
    simp [flipBit, List.getD_eq_getElem?_getD, show i < ws.length by omega]
  unfold syndrome bitSig
  rw [take_flipBit]
  by_cases hin : i < n
  · have hcrc := crc16Ibm_flipBit (ws.take n) i j (by simp; omega) hj
    rw [List.length_take, hlen, Nat.min_eq_left (by omega)] at hcrc
    rw [if_pos hin, hget n (by omega), hget (n + 1) (by omega), hcrc]
    ac_rfl
  · have hout : flipBit (ws.take n) (i, j) = ws.take n :=
      List.modify_eq_self (by simp; omega)
    rw [if_neg hin, hout]
    rcases Nat.lt_or_ge n i with h | h
    · obtain rfl : i = n + 1 := by omega
      rw [hget n (by omega), hself, be16_flipLo _ _ j hj, BitVec.xor_assoc]
      simp
    · obtain rfl : i = n := by omega
      rw [hget (i + 1) (by omega), hself, be16_flipHi _ _ j hj, BitVec.xor_assoc]
      simp [show i + 1 - i = 1 by omega]

theorem syndrome_withCrc (msg : List UInt8) : syndrome msg.length (withCrc msg) = 0#16 :=
  (crcOk_iff_syndrome _ _).mp (crcOk_withCrc msg)

/-! ## Signatures -/

theorem parity_bitSig (n i j : Nat) (hi : i < n + 2) (hj : j < 8) :
    parity (bitSig n i j) = true := by
  unfold bitSig
  split
  · rw [Lfsr.parity_shifts taps (by decide), Lfsr.parity_unit 0 (by omega)]
  · exact Lfsr.parity_unit _ (by omega)

/-- The register seeded with 1 does not return to 1 in fewer than 32767 steps. -/
theorem taps_noReturn : Lfsr.noReturn taps.toNat 32766 (shift taps (unit 16 0)).toNat = true := by
  decide +kernel

/-- No two positions of a frame of at most 4093 covered bytes share a signature. -/
theorem bitSig_inj (n : Nat) (hn : n ≤ 4093) (i j i' j' : Nat) (hi : i < n + 2) (hj : j < 8)
    (hi' : i' < n + 2) (hj' : j' < 8) (h : bitSig n i j = bitSig n i' j') : i = i' ∧ j = j' := by
  have hlow : taps.getLsbD (16 - 1) = true := by decide
  have mixed : ∀ i j i' j', i < n → j < 8 → ¬ i' < n → i' < n + 2 → j' < 8 →
      shifts taps (8 * (n - i) - j) (unit 16 0) ≠ unit 16 (8 * (n + 1 - i') + j') := by
    intro i j i' j' hi hj hi' hi2 hj'
    exact Lfsr.shifts_one_ne_unit taps (by omega) 32766 taps_noReturn _ _ (by omega) (by omega)
      (by omega)
  unfold bitSig at h
  split at h
  · next hin =>
    split at h
    · next hin' =>
      have := Lfsr.shifts_one_inj taps (by omega) hlow 32766 taps_noReturn _ _ (by omega) (by omega) h
      omega
    · next hin' => exact absurd h (mixed i j i' j' hin hj hin' hi' hj')
  · next hin =>
    split at h
    · next hin' => exact absurd h.symm (mixed i' j' i j hin' hj' hin hi hj)
    · next hin' =>
      have := Lfsr.unit_inj _ _ (by omega) h
      omega

/-- **At most three flips.**  Their signatures do not cancel. -/
theorem syndrome_flipBits (n : Nat) (hn : n ≤ 4093) (ws : List UInt8) (hlen : ws.length = n + 2)
    (h0 : syndrome n ws = 0#16) (ps : List (Nat × Nat)) (hps : FewFlips (n + 2) ps) :
    syndrome n (flipBits ws ps) ≠ 0#16 := by
  obtain ⟨hnd, h1, h3, hin⟩ := hps
  have hone : ∀ ws : List UInt8, ws.length = n + 2 → ∀ p : Nat × Nat, p.1 < n + 2 ∧ p.2 < 8 →
      syndrome n (flipBit ws p) = syndrome n ws ^^^ bitSig n p.1 p.2 :=
    fun ws hl p hp => syndrome_flipBit n ws hl p.1 p.2 hp.1 hp.2
  have hodd : ∀ p ∈ ps, parity (bitSig n p.1 p.2) = true :=
    fun p hp => parity_bitSig n p.1 p.2 (hin p hp).1 (hin p hp).2
  intro h
  match ps, hnd, h1, h3, hin, hodd, h with
  | [p], _, _, _, hin, hodd, h =>
    simp only [flipBits, List.foldl_cons, List.foldl_nil] at h
    rw [hone ws hlen p (hin p (by simp)), h0, BitVec.zero_xor] at h
    have := hodd p (by simp)
    rw [h, Lfsr.parity_zero] at this
    cases this
  | [p, q], hnd, _, _, hin, _, h =>
    simp only [flipBits, List.foldl_cons, List.foldl_nil] at h
    rw [hone _ (by simpa using hlen) q (hin q (by simp)), hone ws hlen p (hin p (by simp)), h0,
      BitVec.zero_xor] at h
    obtain ⟨hp1, hp2⟩ := hin p (by simp)
    obtain ⟨hq1, hq2⟩ := hin q (by simp)
    obtain ⟨e1, e2⟩ := bitSig_inj n hn _ _ _ _ hp1 hp2 hq1 hq2 (BitVec.xor_eq_zero_iff.mp h)
    have hne : p ≠ q := by simpa using hnd
    exact hne (Prod.ext e1 e2)
  | [p, q, r], _, _, _, hin, hodd, h =>
    simp only [flipBits, List.foldl_cons, List.foldl_nil] at h
    rw [hone _ (by simpa using hlen) r (hin r (by simp)),
      hone _ (by simpa using hlen) q (hin q (by simp)), hone ws hlen p (hin p (by simp)), h0,
      BitVec.zero_xor] at h
    have hpar := congrArg parity h
    rw [Lfsr.parity_xor, Lfsr.parity_xor, hodd p (by simp), hodd q (by simp), hodd r (by simp),
      Lfsr.parity_zero] at hpar
    cases hpar

theorem crcOk_flipBits (n : Nat) (msg : List UInt8) (hlen : msg.length = n) (hn : n ≤ 4093)
    (ps : List (Nat × Nat)) (hps : FewFlips (n + 2) ps) :
    crcOk n (flipBits (withCrc msg) ps) = false := by
  subst hlen
  rw [Bool.eq_false_iff, Ne, crcOk_iff_syndrome]
  exact syndrome_flipBits _ hn _ (length_withCrc msg) (syndrome_withCrc msg) ps hps

/-- **Distance 4.**  One, two or three flipped bits anywhere in a message of at most 4093
bytes and its CRC are detected, so no frame of the link passes with so few bits wrong. -/
theorem crc16Ibm_min_distance :
    (∀ (msg : List UInt8) (ps : List (Nat × Nat)), 1 ≤ msg.length → msg.length ≤ 4093 →
      FewFlips (msg.length + 2) ps → crcOk msg.length (flipBits (withCrc msg) ps) = false) ∧
    (∀ (cmdId : UInt8) (payload : List UInt8) (ps : List (Nat × Nat)), FewFlips 14 ps →
      crcOk 12 (flipBits (buildSerialFrame cmdId payload) ps) = false) ∧
    (∀ (t : TelemetryFrame) (ps : List (Nat × Nat)), FewFlips 31 ps →
      crcOk 29 (flipBits t.bytes ps) = false) := by
  refine ⟨fun msg ps _ hn hps => crcOk_flipBits _ msg rfl hn ps hps, ?_, ?_⟩
  · intro cmdId payload ps hps
    rw [buildSerialFrame_eq]
    exact crcOk_flipBits 12 _ (by simp; omega) (by omega) ps hps
  · intro t ps hps
    exact crcOk_flipBits 29 _ (by simp [t.length_body]) (by omega) ps hps

/-- The last message bit and the first CRC bit of a one-byte message. -/
theorem crc16Ibm_min_distance_two :
    crcOk 1 (flipBits (withCrc [0x55]) [(0, 7), (1, 0)]) = false :=
  crc16Ibm_min_distance.1 [0x55] [(0, 7), (1, 0)] (by decide) (by decide)
    ⟨by decide, by decide, by decide, by decide⟩

end AgvPro
