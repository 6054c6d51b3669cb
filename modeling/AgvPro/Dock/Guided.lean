import AgvPro.Dock.Goal
import AgvPro.Dock.Navigator
import AgvPro.Dock.Recharger

/-!
# The recharger with its navigator

`check_navigation_request` starts docking when `nav_through_pose` says that the navigation
was successful.  Over a whole run that says less than it seems to: a goal that is rejected
leaves the navigator with the result of an earlier one.

    a navigation returns ↔ its goal is rejected or gets a result  (navigation_returns_iff)
    docking starts ↔ the goal accepted last has succeeded         (docks_iff)
-/

namespace AgvPro

open Run

/-! ## Model -/

/-- The recharger with its navigator; for each navigation the exchange it led to, if it got
as far as a goal. -/
structure Guided (F Q : Type) where
  recharger : Recharger := {}
  navigator : BasicNavigator (GoalPose F) Q := {}
  navigations : List (Option Nat) := []

/-- `navigate` is the end of `execute_navigation_internal`. -/
inductive GuidedEvent (F : Type) where
  | recharger (e : RechargerEvent)
  | navigate (file : Option (Document F)) (call : NavCall)

section
variable {F Q : Type} [Add F] [Sub F] [Mul F] [Div F] [OfNat F 2] [OfNat F 180]

def Guided.step (math : MathOps F) (params : NavGoalParams F) (s : Guided F Q) :
    GuidedEvent F → Option (Guided F Q)
  | .recharger (.navigated _) => none
  | .recharger e => (s.recharger.step e).map fun recharger => { s with recharger := recharger }
  | .navigate file call =>
    match executeNavigationInternal math params file with
    | none => (s.recharger.step (.navigated false)).map fun recharger =>
      { s with recharger := recharger, navigations := s.navigations ++ [none] }
    | some goal => (navThroughPose s.navigator [goal] call).bind fun (navigator, result) =>
      (s.recharger.step (.navigated result)).map fun recharger =>
        { recharger := recharger
          navigator := navigator
          navigations := s.navigations ++ [some s.navigator.exchanges.length] }

end

/-! ## The recharger -/

/-- What a docking thread rests on. -/
structure Warranted (s : Recharger) : Prop where
  thread : ∀ t ∈ s.threads, s.results[t.startedBy]? = some true
  returned : ∀ n result, s.spin = .returned n result → s.results[n]? = some result

/-- Only the end of a navigation adds a result. -/
theorem results_step {s s' : Recharger} {e : RechargerEvent} (h : s.step e = some s') :
    s'.results = s.results ++ match e with
      | .navigated result => [result]
      | _ => [] := by
  cases e with
  | press => rcases step_press h with ⟨-, rfl⟩ | ⟨-, rfl⟩ <;> simp
  | stop =>
    cases h
    simp
  | tick => rcases step_tick h with ⟨rfl, -⟩ | ⟨-, -, rfl⟩ <;> simp
  | navigated result =>
    obtain ⟨-, rfl⟩ := step_navigated h
    rfl
  | conclude => obtain ⟨n, ⟨-, rfl⟩ | ⟨-, rfl⟩⟩ := step_conclude h <;> simp
  | dock i e =>
    obtain ⟨t, d, active, -, -, rfl⟩ := step_dock h
    simp

theorem warranted_step {s s' : Recharger} {e : RechargerEvent} (hs : Warranted s)
    (h : s.step e = some s') : Warranted s' := by
  cases e with
  | press =>
    rcases step_press h with ⟨-, rfl⟩ | ⟨-, rfl⟩
    · exact hs
    · exact ⟨hs.thread, hs.returned⟩
  | stop =>
    cases h
    exact ⟨hs.thread, hs.returned⟩
  | tick =>
    rcases step_tick h with ⟨rfl, -⟩ | ⟨-, -, rfl⟩
    · exact hs
    · exact ⟨hs.thread, by simp⟩
  | navigated result =>
    obtain ⟨-, rfl⟩ := step_navigated h
    refine ⟨fun t ht => ?_, ?_⟩
    · have hresult := hs.thread t ht
      obtain ⟨hlt, -⟩ := List.getElem?_eq_some_iff.mp hresult
      exact (List.getElem?_append_left hlt).trans hresult
    · rintro n r ⟨⟩
      simp
  | conclude =>
    obtain ⟨n, ⟨hspin, rfl⟩ | ⟨-, rfl⟩⟩ := step_conclude h
    · refine ⟨fun t ht => ?_, by simp⟩
      rcases List.mem_append.mp ht with ht | ht
      · exact hs.thread t ht
      · rw [List.mem_singleton.mp ht]
        exact hs.returned n true hspin
    · exact ⟨hs.thread, by simp⟩
  | dock i e =>
    obtain ⟨t, d, active, ht, -, rfl⟩ := step_dock h
    refine ⟨fun u hu => ?_, hs.returned⟩
    rcases List.mem_or_eq_of_mem_set hu with hu | rfl
    · exact hs.thread u hu
    · exact hs.thread t (List.mem_of_getElem? ht)

/-! ## Both together -/

section
variable {F Q : Type}

/-- Results and exchanges belong together. -/
structure NavAccounted (s : Guided F Q) : Prop where
  tracked : NavTracked s.navigator
  settled : Settled s.navigator.exchanges
  warranted : Warranted s.recharger
  counted : s.navigations.length = s.recharger.results.length
  earlier : ∀ k i : Nat, s.navigations[k]? = some (some i) → i < s.navigator.exchanges.length
  verdict : ∀ k : Nat, s.recharger.results[k]? = some true ↔
    ∃ i : Nat, s.navigations[k]? = some (some i) ∧ LastSucceeded s.navigator.exchanges i

theorem accounted_start : NavAccounted ({} : Guided F Q) where
  tracked := tracked_start
  settled := nofun
  warranted := ⟨nofun, nofun⟩
  counted := rfl
  earlier := nofun
  verdict := fun _ => ⟨nofun, nofun⟩

/-- A navigation more. -/
theorem NavAccounted.navigated {s : Guided F Q} (hs : NavAccounted s)
    {navigator : BasicNavigator (GoalPose F) Q} (htracked : NavTracked navigator)
    (hsettled : Settled navigator.exchanges)
    (hgrows : Grows s.navigator.exchanges navigator.exchanges)
    (hle : s.navigator.exchanges.length ≤ navigator.exchanges.length) {recharger : Recharger}
    {result : Bool} (hrecharger : s.recharger.step (.navigated result) = some recharger)
    (entry : Option Nat) (hentry : ∀ i, entry = some i → i < navigator.exchanges.length)
    (hverdict : result = true ↔ ∃ i, entry = some i ∧ LastSucceeded navigator.exchanges i) :
    NavAccounted ⟨recharger, navigator, s.navigations ++ [entry]⟩ := by
  have hresults := results_step hrecharger
  simp only at hresults
  refine ⟨htracked, hsettled, warranted_step hs.warranted hrecharger, ?_, fun k i hk => ?_,
    fun k => ?_⟩
  · simp [hresults, hs.counted]
  · rcases List.mem_append.mp (List.mem_of_getElem? hk) with hmem | hmem
    · obtain ⟨j, hj⟩ := List.mem_iff_getElem?.mp hmem
      exact (hs.earlier j i hj).trans_le hle
    · exact hentry i (List.mem_singleton.mp hmem).symm
  · show recharger.results[k]? = some true ↔
      ∃ i, (s.navigations ++ [entry])[k]? = some (some i) ∧ LastSucceeded navigator.exchanges i
    rw [hresults]
    rcases Nat.lt_trichotomy k s.recharger.results.length with hlt | rfl | hgt
    · rw [List.getElem?_append_left hlt, List.getElem?_append_left (hs.counted ▸ hlt),
        hs.verdict k]
      refine exists_congr fun i => and_congr_right fun hi => ?_
      exact (lastSucceeded_grows hgrows hs.settled (hs.earlier k i hi)).symm
    · rw [List.getElem?_concat_length, ← hs.counted, List.getElem?_concat_length,
        Option.some.injEq, hverdict]
      simp only [Option.some.injEq]
    · have hcounted := hs.counted
      rw [List.getElem?_eq_none (by simp; omega), List.getElem?_eq_none (by simp; omega)]
      exact ⟨nofun, nofun⟩

end

section
variable {F Q : Type} [Add F] [Sub F] [Mul F] [Div F] [OfNat F 2] [OfNat F 180]
  {math : MathOps F} {params : NavGoalParams F}

theorem step_recharger {s s' : Guided F Q} {e : RechargerEvent}
    (h : s.step math params (.recharger e) = some s') :
    ∃ recharger, s.recharger.step e = some recharger ∧
      s' = { s with recharger := recharger } ∧ recharger.results = s.recharger.results := by
  cases e with
  | navigated result => cases h
  | _ =>
    simp only [Guided.step] at h
    obtain ⟨recharger, hrecharger, rfl⟩ := Option.map_eq_some_iff.mp h
    exact ⟨recharger, hrecharger, rfl, (results_step hrecharger).trans (List.append_nil _)⟩

theorem accounted_step (s : Guided F Q) (e : GuidedEvent F) (s' : Guided F Q) (hs : NavAccounted s)
    (h : s.step math params e = some s') : NavAccounted s' := by
  cases e with
  | recharger e =>
    obtain ⟨recharger, hrecharger, rfl, hresults⟩ := step_recharger h
    exact ⟨hs.tracked, hs.settled, warranted_step hs.warranted hrecharger,
      by rw [hresults]; exact hs.counted, hs.earlier, by rw [hresults]; exact hs.verdict⟩
  | navigate file call =>
    simp only [Guided.step] at h
    split at h
    · obtain ⟨recharger, hrecharger, rfl⟩ := Option.map_eq_some_iff.mp h
      exact hs.navigated hs.tracked hs.settled (Grows.refl _) le_rfl hrecharger none nofun
        (iff_of_false Bool.false_ne_true (by rintro ⟨i, hi, -⟩; cases hi))
    · rename_i goal hgoal
      obtain ⟨⟨navigator, result⟩, hnav, h⟩ := Option.bind_eq_some_iff.mp h
      obtain ⟨recharger, hrecharger, rfl⟩ := Option.map_eq_some_iff.mp h
      obtain ⟨htracked, hsettled, hlength, hgrows, hresult⟩ :=
        navThroughPose_spec hs.tracked hs.settled hnav
      refine hs.navigated htracked hsettled hgrows (by omega) hrecharger _ ?_ ?_
      · rintro i ⟨⟩
        omega
      · rw [hresult]
        exact ⟨fun hlast => ⟨_, rfl, hlast⟩, by rintro ⟨i, ⟨⟩, hlast⟩; exact hlast⟩

/-- **A navigation returns** exactly if its goal is rejected, or a result for it arrives
while it is waited for: there is no other way out of the loop. -/
theorem navigation_returns_iff (es : List (GuidedEvent F)) (s : Guided F Q)
    (h : exec (Guided.step math params) es {} = some s) (hspin : s.recharger.spin = .navigating)
    (file : Option (Document F)) (call : NavCall) :
    (s.step math params (.navigate file call)).isSome = true ↔
      executeNavigationInternal math params file = none ∨ call.rounds ≠ [] ∧
        (call.accepted = true →
          ∃ status, (s.navigator.exchanges.length, status) ∈ call.rounds.flatten) := by
  have hs : NavAccounted s := always accounted_step es {} s accounted_start h
  have hrecharger : ∀ result, ∃ recharger, s.recharger.step (.navigated result) = some recharger :=
    fun result => by
      simp only [Recharger.step, hspin]
      exact ⟨_, rfl⟩
  simp only [Guided.step]
  split
  · rename_i hnone
    obtain ⟨recharger, hsome⟩ := hrecharger false
    simp [hsome, hnone]
  · rename_i goal hgoal
    rw [← navThroughPose_isSome hs.tracked hs.settled [goal] call]
    cases hnav : navThroughPose s.navigator [goal] call with
    | none => simp [hgoal]
    | some out =>
      obtain ⟨recharger, hsome⟩ := hrecharger out.2
      simp [hsome]

noncomputable def chargerFile : Option (Document ℝ) :=
  some (ChargerPosition.document ⟨0, 0, 0, 1⟩)

/-- An accepted goal without a result keeps the loop going. -/
theorem navigation_returns_iff_waiting : ∃ s : Guided ℝ Unit,
    exec (Guided.step realMath ⟨1, 0⟩) [.recharger .press, .recharger .tick] {} = some s ∧
      ¬ (s.step realMath ⟨1, 0⟩ (.navigate chargerFile ⟨true, [], [[], []]⟩)).isSome = true := by
  refine ⟨_, rfl, ?_⟩
  rw [navigation_returns_iff [.recharger .press, .recharger .tick] _ rfl rfl]
  rintro (hnone | ⟨-, harrives⟩)
  · cases hnone
  · obtain ⟨status, hmem⟩ := harrives rfl
    simp at hmem

/-- **What docking goes back to.**  In every run the `k`-th navigation counts as successful
exactly if it sent a goal and the goal accepted last, its own or an earlier one, has
succeeded; so each docking thread does. -/
theorem docks_iff (es : List (GuidedEvent F)) (s : Guided F Q)
    (h : exec (Guided.step math params) es {} = some s) :
    (∀ k : Nat, s.recharger.results[k]? = some true ↔
      ∃ i : Nat, s.navigations[k]? = some (some i) ∧ LastSucceeded s.navigator.exchanges i) ∧
    ∀ t ∈ s.recharger.threads, ∃ i : Nat, s.navigations[t.startedBy]? = some (some i) ∧
      LastSucceeded s.navigator.exchanges i := by
  have hs : NavAccounted s := always accounted_step es {} s accounted_start h
  exact ⟨hs.verdict, fun t ht => (hs.verdict t.startedBy).mp (hs.warranted.thread t ht)⟩

/-- The first goal is reached, the second one rejected. -/
noncomputable def refusedLife : List (GuidedEvent ℝ) :=
  [.recharger .press, .recharger .tick, .navigate chargerFile ⟨true, [], [[], [(0, .succeeded)]]⟩,
   .recharger .conclude, .recharger .press, .recharger .tick,
   .navigate chargerFile ⟨false, [], [[]]⟩, .recharger .conclude]

/-- Docking starts a second time. -/
theorem docks_iff_refused : ∃ s : Guided ℝ Unit,
    exec (Guided.step realMath ⟨1, 0⟩) refusedLife {} = some s ∧ s.recharger.threads.length = 2 ∧
      ∃ i : Nat, s.navigations[1]? = some (some i) ∧ LastSucceeded s.navigator.exchanges i := by
  obtain ⟨s, h, hfacts⟩ := Option.map_eq_some_iff.mp
    (show (exec (Guided.step realMath ⟨1, 0⟩) refusedLife ({} : Guided ℝ Unit)).map
      (fun s => (s.recharger.results, s.recharger.threads.length)) = some ([true, true], 2) by
        decide +kernel)
  obtain ⟨hresults, hthreads⟩ := Prod.mk.inj hfacts
  obtain ⟨hverdict, -⟩ := docks_iff refusedLife s h
  exact ⟨s, h, hthreads, (hverdict 1).mp (by rw [hresults]; rfl)⟩

end

end AgvPro
