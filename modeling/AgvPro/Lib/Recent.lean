import Mathlib.Algebra.BigOperators.Group.List.Basic
import Mathlib.Algebra.Order.BigOperators.Group.List
import Mathlib.Algebra.Order.Field.Basic
import Mathlib.Data.List.Induction
import Mathlib.Data.List.TakeWhile

/-!
# The recent part of a stream

A window over a stream.  When a value comes, those in front that are too old for it leave, up
to the first that is not; then it enters at the end.

    the window is an end of the stream                              (window_suffix)
    of a stream in order, it is all that is not too old             (window_eq_filter)
    the mean of a window lies within any bounds of its values       (mean_mem)
-/

namespace Recent

variable {α : Type} (old : α → α → Bool)

/-- `old m x`: when `m` comes, `x` is too old. -/
def slide (w : List α) (m : α) : List α := w.dropWhile (old m) ++ [m]

def window (ms : List α) : List α := ms.foldl (slide old) []

/-- What is too old stays so, and what came before it is too old as well. -/
structure Aging (le : α → α → Prop) : Prop where
  fresh : ∀ m, old m m = false
  later : ∀ m m' x, le m m' → old m x = true → old m' x = true
  earlier : ∀ m x y, le x y → old m y = true → old m x = true

variable {old}

theorem window_append (ms : List α) (m : α) :
    window old (ms ++ [m]) = slide old (window old ms) m := by
  unfold window
  rw [List.foldl_append]
  rfl

theorem window_suffix (ms : List α) : window old ms <:+ ms := by
  induction ms using List.reverseRecOn with
  | nil => exact List.suffix_rfl
  | append_singleton ms m ih =>
    rw [window_append, slide]
    obtain ⟨front, hfront⟩ := (List.dropWhile_suffix (old m)).trans ih
    exact ⟨front, by rw [← List.append_assoc, hfront]⟩

/-- Along a list in which only a front can satisfy `p`. -/
theorem dropWhile_eq_filter {p : α → Bool} {l : List α}
    (h : l.Pairwise fun x y => p y = true → p x = true) :
    l.dropWhile p = l.filter fun x => !p x := by
  induction l with
  | nil => rfl
  | cons x l ih =>
    obtain ⟨hx, hl⟩ := List.pairwise_cons.mp h
    by_cases hpx : p x = true
    · rw [List.dropWhile_cons_of_pos hpx, List.filter_cons_of_neg (by simp [hpx])]
      exact ih hl
    · rw [List.dropWhile_cons_of_neg hpx, List.filter_cons_of_pos (by simp [hpx])]
      refine congrArg (x :: ·) (List.filter_eq_self.mpr fun y hy => ?_).symm
      have hpy : ¬ p y = true := fun hpy => hpx (hx y hy hpy)
      simp [hpy]

/-- Of a stream in order the window keeps exactly what the newest value finds recent. -/
theorem window_eq_filter {le : α → α → Prop} (h : Aging old le) (ms : List α) (m : α)
    (horder : (ms ++ [m]).Pairwise le) :
    window old (ms ++ [m]) = (ms ++ [m]).filter fun x => !old m x := by
  induction ms using List.reverseRecOn generalizing m with
  | nil => simp [window, slide, h.fresh m]
  | append_singleton ms m' ih =>
    obtain ⟨hms, -, hlast⟩ := List.pairwise_append.mp horder
    have hle : le m' m := hlast m' (by simp) m (by simp)
    have hfront : ((ms ++ [m']).filter fun x => !old m' x).Pairwise
        fun x y => old m y = true → old m x = true :=
      (hms.filter _).imp (fun hxy => h.earlier m _ _ hxy)
    rw [window_append, ih m' hms, slide, dropWhile_eq_filter hfront, List.filter_filter,
      List.filter_append (ms ++ [m']) [m]]
    congr 1
    · refine List.filter_congr fun x _ => ?_
      -- what `m'` found too old is too old for `m`
      by_cases hold : old m' x = true
      · simp [hold, h.later m' m x hle hold]
      · simp [hold]
    · simp [h.fresh m]

section
variable {K : Type} [Field K] [LinearOrder K] [IsStrictOrderedRing K]

def mean (l : List K) : K := l.sum / l.length

theorem mean_mem {l : List K} {a b : K} (hne : l ≠ []) (h : ∀ x ∈ l, a ≤ x ∧ x ≤ b) :
    a ≤ mean l ∧ mean l ≤ b := by
  have hpos : (0 : K) < l.length := Nat.cast_pos.mpr (List.length_pos_of_ne_nil hne)
  have hlow := List.card_nsmul_le_sum l a fun x hx => (h x hx).1
  have hhigh := List.sum_le_card_nsmul l b fun x hx => (h x hx).2
  rw [nsmul_eq_mul] at hlow hhigh
  unfold mean
  constructor
  · rwa [le_div_iff₀ hpos, mul_comm]
  · rwa [div_le_iff₀ hpos, mul_comm]

end

end Recent
