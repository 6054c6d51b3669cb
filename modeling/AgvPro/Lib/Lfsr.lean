import Mathlib.Logic.Function.Iterate
import Mathlib.Data.Nat.Basic

/-!
# Linear feedback shift registers

`shift g c` is one step of the right-shifting register with taps `g`: the low bit
leaves, and a set low bit adds the taps.  Registers of any width `w` and any taps.

* The step is linear in exclusive or (`shift_xor`, `shifts_xor`).
* Taps of odd parity keep the parity of the register (`parity_shift`).
* Taps with the top bit set make the step injective (`shift_injective`).
* Exclusive-or sums of registers go through the steps (`shifts_xorSum`), and a mask that
  meets one summand oddly and the others evenly tells its coefficient (`parity_and_xorSum`).
* The register seeded with its low bit does not come back to it within `n` steps
  if `noReturn` says so (`noReturn_sound`), and then its states up to `n` steps
  apart, and the single bits, are told apart (`shifts_one_inj`, `shifts_one_ne_unit`).
-/

namespace Lfsr

variable {w : Nat}

/-- The low bit leaves; if it was set, the taps are added. -/
def shift (g c : BitVec w) : BitVec w :=
  if c.getLsbD 0 then (c >>> 1) ^^^ g else c >>> 1

/-- `n` steps. -/
def shifts (g : BitVec w) (n : Nat) (c : BitVec w) : BitVec w := (shift g)^[n] c

/-! ## Linearity -/

theorem shift_xor (g a b : BitVec w) : shift g (a ^^^ b) = shift g a ^^^ shift g b := by
  unfold shift
  simp only [BitVec.getLsbD_xor, BitVec.ushiftRight_xor_distrib]
  apply BitVec.eq_of_getLsbD_eq
  intro i _
  cases a.getLsbD 0 <;> cases b.getLsbD 0 <;>
    simp [Bool.xor_comm, Bool.xor_left_comm]

theorem shift_zero (g : BitVec w) : shift g 0#w = 0#w := by
  simp [shift]

theorem shifts_zero (g c : BitVec w) : shifts g 0 c = c := rfl

theorem shifts_succ (g : BitVec w) (n : Nat) (c : BitVec w) :
    shifts g (n + 1) c = shifts g n (shift g c) := rfl

theorem shifts_add (g : BitVec w) (m n : Nat) (c : BitVec w) :
    shifts g (m + n) c = shifts g m (shifts g n c) :=
  Function.iterate_add_apply _ _ _ _

theorem shifts_xor (g : BitVec w) (n : Nat) (a b : BitVec w) :
    shifts g n (a ^^^ b) = shifts g n a ^^^ shifts g n b := by
  induction n generalizing a b with
  | zero => rfl
  | succ n ih => rw [shifts_succ, shifts_succ, shifts_succ, shift_xor, ih]

theorem shifts_zero_right (g : BitVec w) (n : Nat) : shifts g n 0#w = 0#w := by
  induction n with
  | zero => rfl
  | succ n ih => rw [shifts_succ, shift_zero, ih]

/-! ## Parity -/

/-- Parity of the bits below `n`. -/
def parityBelow (c : BitVec w) : Nat → Bool
  | 0 => false
  | n + 1 => parityBelow c n ^^ c.getLsbD n

def parity (c : BitVec w) : Bool := parityBelow c w

theorem parityBelow_xor (a b : BitVec w) (n : Nat) :
    parityBelow (a ^^^ b) n = (parityBelow a n ^^ parityBelow b n) := by
  induction n with
  | zero => rfl
  | succ n ih =>
    simp only [parityBelow, ih, BitVec.getLsbD_xor]
    cases parityBelow a n <;> cases parityBelow b n <;> cases a.getLsbD n <;> simp

theorem parity_xor (a b : BitVec w) : parity (a ^^^ b) = (parity a ^^ parity b) :=
  parityBelow_xor a b w

theorem parity_zero : parity 0#w = false := by
  have h : ∀ n, parityBelow 0#w n = false := by
    intro n
    induction n with
    | zero => rfl
    | succ n ih => simp [parityBelow, ih]
  exact h w

theorem parityBelow_shiftRight (c : BitVec w) (n : Nat) :
    (parityBelow (c >>> 1) n ^^ c.getLsbD 0) = parityBelow c (n + 1) := by
  induction n with
  | zero => simp [parityBelow]
  | succ n ih =>
    rw [parityBelow, parityBelow, ← ih, BitVec.getLsbD_ushiftRight, Nat.add_comm 1 n]
    cases parityBelow (c >>> 1) n <;> cases c.getLsbD 0 <;> cases c.getLsbD (n + 1) <;> rfl

/-- Shifting right drops the low bit from the parity. -/
theorem parity_shiftRight (c : BitVec w) : parity (c >>> 1) = (parity c ^^ c.getLsbD 0) := by
  have h := parityBelow_shiftRight c w
  rw [parityBelow, BitVec.getLsbD_of_ge c w (Nat.le_refl w), Bool.xor_false] at h
  unfold parity
  rw [← h]
  cases parityBelow (c >>> 1) w <;> cases c.getLsbD 0 <;> rfl

/-- Taps of odd parity replace the bit that leaves. -/
theorem parity_shift (g : BitVec w) (hg : parity g = true) (c : BitVec w) :
    parity (shift g c) = parity c := by
  unfold shift
  cases hc : c.getLsbD 0 with
  | true => rw [if_pos rfl, parity_xor, parity_shiftRight, hc, hg]; cases parity c <;> rfl
  | false => rw [if_neg (by simp), parity_shiftRight, hc, Bool.xor_false]

theorem parity_shifts (g : BitVec w) (hg : parity g = true) (n : Nat) (c : BitVec w) :
    parity (shifts g n c) = parity c := by
  induction n generalizing c with
  | zero => rfl
  | succ n ih => rw [shifts_succ, ih, parity_shift g hg]

/-! ## Single bits -/

/-- The register with only bit `k` set. -/
def unit (w k : Nat) : BitVec w := BitVec.twoPow w k

theorem getLsbD_unit (k i : Nat) : (unit w k).getLsbD i = (decide (i < w) && decide (i = k)) := by
  unfold unit
  rw [BitVec.getLsbD_twoPow]
  by_cases hi : i = k
  · subst hi; simp
  · have hk : k ≠ i := fun e => hi e.symm
    simp [hi, hk]

theorem parityBelow_unit (k n : Nat) (hk : k < w) :
    parityBelow (unit w k) n = decide (k < n) := by
  induction n with
  | zero => rfl
  | succ n ih =>
    rw [parityBelow, ih, getLsbD_unit]
    rcases Nat.lt_trichotomy k n with h | h | h
    · have hn : n ≠ k := by omega
      simp [h, hn, Nat.lt_succ_of_lt h]
    · subst h; simp [hk]
    · have h1 : ¬ k < n := by omega
      have h2 : ¬ k < n + 1 := by omega
      have h3 : n ≠ k := by omega
      simp [h1, h2, h3]

theorem parity_unit (k : Nat) (hk : k < w) : parity (unit w k) = true := by
  unfold parity
  rw [parityBelow_unit k w hk]
  exact decide_eq_true hk

/-- A bit above the lowest only moves down. -/
theorem shift_unit_succ (g : BitVec w) (k : Nat) (hk : k + 1 < w) :
    shift g (unit w (k + 1)) = unit w k := by
  unfold shift
  rw [getLsbD_unit, if_neg (by simp)]
  apply BitVec.eq_of_getLsbD_eq
  intro i hi
  rw [BitVec.getLsbD_ushiftRight, getLsbD_unit, getLsbD_unit]
  by_cases h : i = k
  · subst h
    simp [hi, hk, Nat.add_comm]
  · have : 1 + i ≠ k + 1 := by omega
    simp [h, this]

theorem shifts_unit (g : BitVec w) (k : Nat) (hk : k < w) : shifts g k (unit w k) = unit w 0 := by
  induction k with
  | zero => rfl
  | succ k ih => rw [shifts_succ, shift_unit_succ g k hk, ih (by omega)]

theorem unit_inj (j k : Nat) (hj : j < w) (h : unit w j = unit w k) : j = k := by
  have hb : (unit w k).getLsbD j = true := by
    rw [← h, getLsbD_unit]
    simp [hj]
  rw [getLsbD_unit] at hb
  simpa [hj] using hb

/-! ## Sums -/

/-- The exclusive or of the `f i` with `b i`, over `i < n`. -/
def xorSum (b : Nat → Bool) (f : Nat → BitVec w) : Nat → BitVec w
  | 0 => 0#w
  | n + 1 => xorSum b f n ^^^ (if b n then f n else 0#w)

theorem xorSum_congr (b b' : Nat → Bool) (f f' : Nat → BitVec w) (n : Nat)
    (hb : ∀ i, i < n → b i = b' i) (hf : ∀ i, i < n → f i = f' i) :
    xorSum b f n = xorSum b' f' n := by
  induction n with
  | zero => rfl
  | succ n ih =>
    rw [xorSum, xorSum, hb n (by omega), hf n (by omega),
      ih (fun i hi => hb i (by omega)) (fun i hi => hf i (by omega))]

theorem shifts_xorSum (g : BitVec w) (a : Nat) (b : Nat → Bool) (f : Nat → BitVec w) (n : Nat) :
    shifts g a (xorSum b f n) = xorSum b (fun i => shifts g a (f i)) n := by
  induction n with
  | zero => exact shifts_zero_right g a
  | succ n ih =>
    rw [xorSum, xorSum, shifts_xor, ih]
    cases b n with
    | true => rfl
    | false => simp [shifts_zero_right]

theorem getLsbD_xorSum_unit (b : Nat → Bool) (n i : Nat) :
    (xorSum b (unit w) n).getLsbD i = (decide (i < w) && decide (i < n) && b i) := by
  induction n with
  | zero => simp [xorSum]
  | succ n ih =>
    have hbit : (if b n then unit w n else 0#w).getLsbD i =
        (decide (i < w) && decide (i = n) && b n) := by
      cases b n with
      | true => simp [getLsbD_unit]
      | false => simp
    rw [xorSum, BitVec.getLsbD_xor, ih, hbit]
    rcases Nat.lt_trichotomy i n with h | h | h
    · simp [h, Nat.lt_succ_of_lt h, Nat.ne_of_lt h]
    · subst h; simp
    · simp [Nat.not_lt_of_gt h, Nat.ne_of_gt h, show ¬ i < n + 1 by omega]

theorem and_xor (m a b : BitVec w) : m &&& (a ^^^ b) = (m &&& a) ^^^ (m &&& b) := by
  ext i hi
  rw [BitVec.getElem_and, BitVec.getElem_xor, BitVec.getElem_xor, BitVec.getElem_and,
    BitVec.getElem_and, Bool.and_xor_distrib_left]

/-- A mask that meets only the first of the `f i` in an odd number of bits tells the first
coefficient of a sum. -/
theorem parity_and_xorSum (m : BitVec w) (f : Nat → BitVec w) (n : Nat) (b : Nat → Bool)
    (h : ∀ t < n, parity (m &&& f t) = decide (t = 0)) :
    parity (m &&& xorSum b f n) = (decide (0 < n) && b 0) := by
  induction n with
  | zero =>
    show parity (m &&& 0#w) = _
    rw [BitVec.and_zero, parity_zero]
    rfl
  | succ n ih =>
    have hlast : parity (m &&& if b n then f n else 0#w) = (b n && decide (n = 0)) := by
      cases b n with
      | true => rw [if_pos rfl, h n (Nat.lt_succ_self n), Bool.true_and]
      | false => rw [if_neg Bool.false_ne_true, BitVec.and_zero, parity_zero, Bool.false_and]
    rw [xorSum, and_xor, parity_xor, ih fun t ht => h t (Nat.lt_succ_of_lt ht), hlast]
    cases n with
    | zero => simp
    | succ n => simp

/-! ## Distinct states -/

/-- Taps with the top bit set: the top bit after a step is the bit that left. -/
theorem shift_injective (g : BitVec w) (hw : 0 < w) (hg : g.getLsbD (w - 1) = true)
    (a b : BitVec w) (h : shift g a = shift g b) : a = b := by
  have top : ∀ c : BitVec w, (shift g c).getLsbD (w - 1) = c.getLsbD 0 := by
    intro c
    have hout : c.getLsbD (1 + (w - 1)) = false := BitVec.getLsbD_of_ge c _ (by omega)
    unfold shift
    cases hc : c.getLsbD 0 <;> simp [BitVec.getLsbD_ushiftRight, hout, hg]
  have low : a.getLsbD 0 = b.getLsbD 0 := by rw [← top a, ← top b, h]
  have rest : a >>> 1 = b >>> 1 := by
    unfold shift at h
    rw [low] at h
    split at h
    · have hx := congrArg (fun c => c ^^^ g) h
      simpa [BitVec.xor_assoc] using hx
    · exact h
  apply BitVec.eq_of_getLsbD_eq
  intro i _
  cases i with
  | zero => exact low
  | succ i =>
    have hi := congrArg (fun c : BitVec w => c.getLsbD i) rest
    simpa [BitVec.getLsbD_ushiftRight, Nat.add_comm] using hi

theorem shifts_injective (g : BitVec w) (hw : 0 < w) (hg : g.getLsbD (w - 1) = true) (n : Nat)
    (a b : BitVec w) (h : shifts g n a = shifts g n b) : a = b := by
  induction n generalizing a b with
  | zero => exact h
  | succ n ih => exact shift_injective g hw hg a b (ih _ _ h)

/-- The register, as a number, is not 1 now or in any of the next steps, `n` states in
all.  Matching on the register keeps it in normal form when the kernel runs this. -/
def noReturn (g : Nat) : Nat → Nat → Bool
  | 0, _ => true
  | _ + 1, 0 => true
  | n + 1, c + 1 =>
    c != 0 && noReturn g n (if (c + 1) % 2 = 1 then ((c + 1) / 2) ^^^ g else (c + 1) / 2)

theorem toNat_shift (g c : BitVec w) :
    (shift g c).toNat = if c.toNat % 2 = 1 then (c.toNat / 2) ^^^ g.toNat else c.toNat / 2 := by
  have hlow : c.getLsbD 0 = decide (c.toNat % 2 = 1) := by
    rw [BitVec.getLsbD, Nat.testBit_zero]
  unfold shift
  rw [hlow]
  by_cases h : c.toNat % 2 = 1 <;> simp [h, Nat.shiftRight_eq_div_pow]

theorem noReturn_sound (g : BitVec w) (n : Nat) (c : BitVec w)
    (h : noReturn g.toNat n c.toNat = true) : ∀ d, d < n → (shifts g d c).toNat ≠ 1 := by
  induction n generalizing c with
  | zero => intro d hd; omega
  | succ n ih =>
    intro d hd
    rcases Nat.eq_zero_or_pos c.toNat with hc | hc
    · obtain rfl : c = 0#w := BitVec.eq_of_toNat_eq (by simpa using hc)
      rw [shifts_zero_right]
      simp
    · obtain ⟨k, hk⟩ : ∃ k, c.toNat = k + 1 := ⟨c.toNat - 1, by omega⟩
      rw [hk] at h
      simp only [noReturn, Bool.and_eq_true, bne_iff_ne] at h
      rw [← hk, ← toNat_shift] at h
      cases d with
      | zero => rw [shifts_zero, hk]; omega
      | succ d => exact ih _ h.2 d (by omega)

section
variable (g : BitVec w) (hw : 1 < w) (hg : g.getLsbD (w - 1) = true) (n : Nat)
  (hn : noReturn g.toNat n (shift g (unit w 0)).toNat = true)

include hw hn in
theorem shifts_one_ne (d : Nat) (hd : 0 < d) (hdn : d ≤ n) : shifts g d (unit w 0) ≠ unit w 0 := by
  intro h
  obtain ⟨e, rfl⟩ : ∃ e, d = e + 1 := ⟨d - 1, by omega⟩
  have hne := noReturn_sound g n _ hn e (by omega)
  rw [← shifts_succ, h] at hne
  apply hne
  unfold unit
  rw [BitVec.toNat_twoPow, Nat.mod_eq_of_lt (Nat.pow_lt_pow_right (by omega) (by omega)),
    Nat.pow_zero]

include hw hg hn in
/-- States at most `n` steps apart differ. -/
theorem shifts_one_inj (a b : Nat) (ha : a ≤ n) (hb : b ≤ n)
    (h : shifts g a (unit w 0) = shifts g b (unit w 0)) : a = b := by
  have key : ∀ a b, a < b → b ≤ n → shifts g a (unit w 0) ≠ shifts g b (unit w 0) := by
    intro a b hab hb h
    obtain ⟨d, rfl⟩ : ∃ d, b = a + d := ⟨b - a, by omega⟩
    rw [shifts_add] at h
    exact shifts_one_ne g hw n hn d (by omega) (by omega)
      (shifts_injective g (by omega) hg a _ _ h).symm
  rcases Nat.lt_trichotomy a b with hab | hab | hab
  · exact absurd h (key a b hab hb)
  · exact hab
  · exact absurd h.symm (key b a hab ha)

include hw hn in
/-- A state reached by at least one step is not a single bit. -/
theorem shifts_one_ne_unit (a k : Nat) (ha : 0 < a) (hk : k < w) (hn' : a + k ≤ n) :
    shifts g a (unit w 0) ≠ unit w k := by
  intro h
  have h' : shifts g (k + a) (unit w 0) = unit w 0 := by
    rw [shifts_add, h, shifts_unit g k hk]
  exact shifts_one_ne g hw n hn (k + a) (by omega) (by omega) h'
end

end Lfsr
