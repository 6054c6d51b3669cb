import Mathlib.Algebra.Order.Floor.Ring
import Mathlib.Tactic.FieldSimp
import Mathlib.Tactic.Linarith

/-!
# Bins of equal width

An interval from `a` to `b` is covered by bins of width `w`, counted up to the one that
reaches `b`; the bin of a value is found by rounding down.  The last value has no bin of its
own when the interval is a whole number of bins.

    a value is in the bin that begins at or below it      (bin_eq_iff)
    a value of the interval has one of the bins ↔
      it is not the end of a whole number of bins         (bin_lt_bins_iff)
-/

namespace Bins

variable {K : Type} [Field K] [LinearOrder K] [IsStrictOrderedRing K] [FloorRing K]

def bin (a w x : K) : ℤ := ⌊(x - a) / w⌋

def bins (a b w : K) : ℤ := ⌈(b - a) / w⌉

variable {a b w x : K}

theorem bin_eq_iff (hw : 0 < w) (i : ℤ) :
    bin a w x = i ↔ a + i * w ≤ x ∧ x < a + (i + 1) * w := by
  unfold bin
  rw [Int.floor_eq_iff, le_div_iff₀ hw, div_lt_iff₀ hw, le_sub_iff_add_le', sub_lt_iff_lt_add']

theorem bin_nonneg (hw : 0 < w) (ha : a ≤ x) : 0 ≤ bin a w x :=
  Int.floor_nonneg.mpr (div_nonneg (sub_nonneg.mpr ha) hw.le)

theorem bins_nonneg (hw : 0 < w) (hle : a ≤ b) : 0 ≤ bins a b w :=
  Int.ceil_nonneg (div_nonneg (sub_nonneg.mpr hle) hw.le)

theorem bin_le_bins (hw : 0 < w) (hx : x ≤ b) : bin a w x ≤ bins a b w := by
  have hmono : (x - a) / w ≤ (b - a) / w := by gcongr
  exact (Int.floor_le_floor hmono).trans (Int.floor_le_ceil _)

theorem bin_lt_bins_iff (hw : 0 < w) (hx : x ≤ b) :
    bin a w x < bins a b w ↔ ¬ (x = b ∧ ∃ n : ℤ, b - a = n * w) := by
  unfold bin bins
  rw [Int.lt_ceil]
  have hfloor : (⌊(x - a) / w⌋ : K) ≤ (x - a) / w := Int.floor_le _
  have hmono : (x - a) / w ≤ (b - a) / w := by gcongr
  constructor
  · rintro hlt ⟨rfl, n, hn⟩
    rw [hn, mul_div_assoc, div_self hw.ne', mul_one, Int.floor_intCast] at hlt
    exact lt_irrefl _ hlt
  · intro hne
    refine lt_of_le_of_ne (hfloor.trans hmono) fun heq => hne ⟨?_, ⌊(x - a) / w⌋, ?_⟩
    · have hxb : (x - a) / w = (b - a) / w := le_antisymm hmono (heq ▸ hfloor)
      rw [div_left_inj' hw.ne'] at hxb
      exact sub_left_inj.mp hxb
    · rw [heq, div_mul_cancel₀ _ hw.ne']

end Bins
