import Mathlib.Data.Option.Basic

/-!
# Runs of a partial step function

`exec step as s` takes the steps `as` from `s`; it is `none` when one of them is not
possible.  `Along step ok as s` says that every step of that run meets a condition on
the state before it, `Throughout step P as s` that every state of the run has a property.

    I kept by every step that meets ok  →  I after every run along ok          (invariant)
    …, P wherever I                     →  P throughout every run along ok     (throughout_of_along)
    ok before every step that reaches P →  along ok, every run P throughout    (along_of_throughout)
    ok before exactly the steps that keep P  →  the two agree on every run   (throughout_iff_along)
-/

namespace Run

variable {σ α : Type} (step : σ → α → Option σ)

def exec : List α → σ → Option σ
  | [], s => some s
  | a :: as, s => (step s a).bind (exec as)

def Along (ok : σ → α → Prop) : List α → σ → Prop
  | [], _ => True
  | a :: as, s => ∀ s', step s a = some s' → ok s a ∧ Along ok as s'

def Throughout (P : σ → Prop) : List α → σ → Prop
  | [], s => P s
  | a :: as, s => P s ∧ ∀ s', step s a = some s' → Throughout P as s'

variable {step}

theorem exec_cons {a : α} {as : List α} {s s' : σ} (h : exec step (a :: as) s = some s') :
    ∃ s1, step s a = some s1 ∧ exec step as s1 = some s' :=
  Option.bind_eq_some_iff.mp h

theorem exec_append {as bs : List α} {s s1 s' : σ} (h : exec step as s = some s1)
    (h' : exec step bs s1 = some s') : exec step (as ++ bs) s = some s' := by
  induction as generalizing s with
  | nil =>
    cases h
    exact h'
  | cons a as ih =>
    obtain ⟨s2, h2, h3⟩ := exec_cons h
    exact Option.bind_eq_some_iff.mpr ⟨s2, h2, ih h3⟩

/-- Every step of the run, wherever it stands. -/
theorem along_iff {ok : σ → α → Prop} (as : List α) (s : σ) :
    Along step ok as s ↔ ∀ as1 a as2 s1 s2, as = as1 ++ a :: as2 → exec step as1 s = some s1 →
      step s1 a = some s2 → ok s1 a := by
  induction as generalizing s with
  | nil => exact ⟨fun _ as1 a as2 s1 s2 h => by simp at h, fun _ => trivial⟩
  | cons a as ih =>
    constructor
    · rintro h as1 b as2 s1 s2 has h1 h2
      cases as1 with
      | nil =>
        obtain ⟨rfl, rfl⟩ := List.cons.inj has
        cases h1
        exact (h s2 h2).1
      | cons c as1 =>
        obtain ⟨rfl, rfl⟩ := List.cons.inj has
        obtain ⟨s3, h3, h4⟩ := exec_cons h1
        exact (ih s3).mp (h s3 h3).2 as1 b as2 s1 s2 rfl h4 h2
    · intro h s1 h1
      refine ⟨h [] a as s s1 rfl rfl h1, (ih s1).mpr fun as1 b as2 s2 s3 has h2 h3 => ?_⟩
      refine h (a :: as1) b as2 s2 s3 (by rw [has]; rfl) ?_ h3
      show (step s a).bind (exec step as1) = some s2
      rw [h1]
      exact h2

/-- What holds at first and is kept by every step that meets `ok` holds after every run
whose steps meet it. -/
theorem invariant {ok : σ → α → Prop} {I : σ → Prop}
    (hstep : ∀ s a s', I s → ok s a → step s a = some s' → I s') (as : List α) (s s' : σ)
    (hinit : I s) (hok : Along step ok as s) (h : exec step as s = some s') : I s' := by
  induction as generalizing s with
  | nil => cases h; exact hinit
  | cons a as ih =>
    obtain ⟨s1, h1, h2⟩ := exec_cons h
    obtain ⟨hok1, hok2⟩ := hok s1 h1
    exact ih s1 (hstep s a s1 hinit hok1 h1) hok2 h2

/-- An invariant of every step holds after every run. -/
theorem always {I : σ → Prop} (hstep : ∀ s a s', I s → step s a = some s' → I s') (as : List α)
    (s s' : σ) (hinit : I s) (h : exec step as s = some s') : I s' := by
  induction as generalizing s with
  | nil => cases h; exact hinit
  | cons a as ih =>
    obtain ⟨s1, h1, h2⟩ := exec_cons h
    exact ih s1 (hstep s a s1 hinit h1) h2

theorem throughout_of_along {ok : σ → α → Prop} {I P : σ → Prop}
    (hstep : ∀ s a s', I s → ok s a → step s a = some s' → I s') (hP : ∀ s, I s → P s)
    (as : List α) (s : σ) (hinit : I s) (hok : Along step ok as s) : Throughout step P as s := by
  induction as generalizing s with
  | nil => exact hP s hinit
  | cons a as ih =>
    refine ⟨hP s hinit, fun s1 h1 => ?_⟩
    obtain ⟨hok1, hok2⟩ := hok s1 h1
    exact ih s1 (hstep s a s1 hinit hok1 h1) hok2

theorem Throughout.head {P : σ → Prop} {as : List α} {s : σ} (h : Throughout step P as s) :
    P s := by
  cases as with
  | nil => exact h
  | cons a as => exact h.1

/-- `I` holds of every run; where a step that goes on to `P` met `ok`, runs with `P`
throughout run along `ok`. -/
theorem along_of_throughout {ok : σ → α → Prop} {I P : σ → Prop}
    (hI : ∀ s a s', I s → step s a = some s' → I s')
    (hok : ∀ s a s', I s → P s' → step s a = some s' → ok s a) (as : List α) (s : σ)
    (hinit : I s) (hP : Throughout step P as s) : Along step ok as s := by
  induction as generalizing s with
  | nil => trivial
  | cons a as ih =>
    intro s1 h1
    have hP1 := hP.2 s1 h1
    exact ⟨hok s a s1 hinit hP1.head h1, ih s1 (hI s a s1 hinit h1) hP1⟩

/-- `I` holds of every run; where exactly the steps that meet `ok` keep `P`, the runs with
`P` throughout are those along `ok`. -/
theorem throughout_iff_along {ok : σ → α → Prop} {I P : σ → Prop}
    (hI : ∀ s a s', I s → step s a = some s' → I s')
    (hiff : ∀ s a s', I s → P s → step s a = some s' → (P s' ↔ ok s a)) (as : List α) (s : σ)
    (hinit : I s) (hs : P s) : Throughout step P as s ↔ Along step ok as s := by
  induction as generalizing s with
  | nil => exact ⟨fun _ => trivial, fun _ => hs⟩
  | cons a as ih =>
    constructor
    · intro h s1 h1
      have hs1 := (h.2 s1 h1).head
      exact ⟨(hiff s a s1 hinit hs h1).mp hs1,
        (ih s1 (hI s a s1 hinit h1) hs1).mp (h.2 s1 h1)⟩
    · intro h
      refine ⟨hs, fun s1 h1 => ?_⟩
      obtain ⟨hok, hrest⟩ := h s1 h1
      exact (ih s1 (hI s a s1 hinit h1) ((hiff s a s1 hinit hs h1).mpr hok)).mpr hrest

theorem Throughout.last {P : σ → Prop} {as : List α} {s s' : σ} (hP : Throughout step P as s)
    (h : exec step as s = some s') : P s' := by
  induction as generalizing s with
  | nil => cases h; exact hP
  | cons a as ih =>
    obtain ⟨s1, h1, h2⟩ := exec_cons h
    exact ih (hP.2 s1 h1) h2

/-- A property that no step restores holds throughout a run if it holds at its end. -/
theorem throughout_of_last {P : σ → Prop} (hback : ∀ s a s', step s a = some s' → P s' → P s)
    (as : List α) (s s' : σ) (h : exec step as s = some s') (hP : P s') :
    Throughout step P as s ∧ P s := by
  induction as generalizing s with
  | nil => cases h; exact ⟨hP, hP⟩
  | cons a as ih =>
    obtain ⟨s1, h1, h2⟩ := exec_cons h
    obtain ⟨hall, hhead⟩ := ih s1 h2
    have hs := hback s a s1 h1 hhead
    refine ⟨⟨hs, fun s2 hs2 => ?_⟩, hs⟩
    obtain rfl : s1 = s2 := Option.some.inj (h1.symm.trans hs2)
    exact hall

end Run
