import Mathlib.Data.List.Infix
import Mathlib.Data.Nat.Find

/-!
# Searching a stream through a sliding window

A reader that keeps the last `pat.length` elements it has seen stops the first time
they are `pat`: at the shortest prefix of the stream that ends in `pat`
(`FirstEnd pat p`).  That prefix is unique (`FirstEnd.unique`) and exists whenever
`pat` occurs (`exists_firstEnd`); text before `pat` that contains no earlier
occurrence, also none that overlaps `pat`, makes `pat` the first one
(`firstEnd_append`).
-/

namespace Window

variable {α : Type}

/-- The last `k` elements. -/
def lastN (k : Nat) (l : List α) : List α := l.drop (l.length - k)

theorem lastN_nil (k : Nat) : lastN k ([] : List α) = [] := List.drop_nil

/-- One more element enters the window of size `k`; the oldest leaves when it is full. -/
def push (k : Nat) (window : List α) (b : α) : List α :=
  if (window ++ [b]).length > k then (window ++ [b]).tail else window ++ [b]

theorem push_lastN (k : Nat) (l : List α) (b : α) : push k (lastN k l) b = lastN k (l ++ [b]) := by
  unfold push lastN
  rw [← List.drop_append_of_le_length (Nat.sub_le l.length k)]
  by_cases h : k ≤ l.length
  · rw [if_pos (by simp; omega), List.tail_drop]
    congr 1
    simp; omega
  · rw [if_neg (by simp; omega)]
    congr 1
    simp; omega

theorem lastN_eq_iff (pat l : List α) : lastN pat.length l = pat ↔ pat <:+ l := by
  constructor
  · intro h
    rw [← h]
    exact List.drop_suffix _ _
  · rintro ⟨pre, rfl⟩
    simp [lastN]

/-- Nothing seen yet does not end in `pat`. -/
theorem not_ends_nil {pat : List α} (hne : pat ≠ []) : ∀ q, q <+: [] → ¬ pat <:+ q := by
  intro q hq hend
  rw [List.prefix_nil.mp hq] at hend
  exact hne (List.suffix_nil.mp hend)

/-- `p` ends in `pat`, and no shorter prefix of it does. -/
structure FirstEnd (pat p : List α) : Prop where
  ends : pat <:+ p
  first : ∀ q, q <+: p → pat <:+ q → q = p

theorem FirstEnd.unique {pat p p' : List α} (h : FirstEnd pat p) (h' : FirstEnd pat p')
    (hcmp : p <+: p' ∨ p' <+: p) : p = p' := by
  rcases hcmp with hle | hle
  · exact h'.first p hle h.ends
  · exact (h.first p' hle h'.ends).symm

/-- The first end is still the first one when less stands before it. -/
theorem FirstEnd.drop {pat pre p : List α} (h : FirstEnd pat (pre ++ p)) (hends : pat <:+ p) :
    FirstEnd pat p := by
  refine ⟨hends, fun q hq hend => ?_⟩
  have hsame := h.first (pre ++ q) ((List.prefix_append_right_inj pre).mpr hq)
    (hend.trans (List.suffix_append pre q))
  exact List.append_cancel_left hsame

/-- A stream in which `pat` occurs has a first end of it. -/
theorem exists_firstEnd {pat s : List α} (h : pat <:+: s) : ∃ p, p <+: s ∧ FirstEnd pat p := by
  obtain ⟨pre, post, rfl⟩ := h
  -- the shortest of the prefixes that end in `pat`
  have hex : ∃ n, pat <:+ (pre ++ pat ++ post).take n :=
    ⟨(pre ++ pat).length, by rw [List.take_left]; exact List.suffix_append pre pat⟩
  classical
  refine ⟨(pre ++ pat ++ post).take (Nat.find hex), List.take_prefix _ _, Nat.find_spec hex, ?_⟩
  intro q hq hend
  have hqs : q = (pre ++ pat ++ post).take q.length :=
    List.prefix_iff_eq_take.mp (hq.trans (List.take_prefix _ _))
  have hmin : Nat.find hex ≤ q.length := Nat.find_min' hex (by rw [← hqs]; exact hend)
  exact hq.eq_of_length_le (by rw [List.length_take]; omega)

/-- No occurrence in `pre`, not even one running into `pat`. -/
theorem firstEnd_append {pat pre : List α} (hne : pat ≠ []) (h : ¬ pat <:+: pre ++ pat.dropLast) :
    FirstEnd pat (pre ++ pat) := by
  refine ⟨List.suffix_append pre pat, fun q hq hend => ?_⟩
  by_contra hqp
  apply h
  have hsplit : pre ++ pat = (pre ++ pat.dropLast) ++ [pat.getLast hne] := by
    rw [List.append_assoc, List.dropLast_append_getLast]
  rw [hsplit] at hq hqp
  rcases List.prefix_concat_iff.mp hq with e | hq'
  · exact absurd e hqp
  · exact hend.isInfix.trans hq'.isInfix

end Window
