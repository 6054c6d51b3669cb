import AgvPro.Dock.Control

/-!
# Navigation and docking

Three threads share the recharger: the keyboard calls `request_navigation`, the ROS thread
runs `check_navigation_request` and in it the navigation, and each successful navigation
starts a docking thread.  A navigation is known by its number, the place of its result.

    no press accepted from the return of a successful navigation to the end of its docking
      →  one activity at a time, each docking thread from a successful navigation of its own;
    such a press, and the ROS thread can break this by itself    (exclusive_unless_pressed)
-/

namespace AgvPro

open Run

/-! ## Model -/

/-- The ROS thread: waiting for the next tick, inside `execute_navigation_internal`, or
behind it with the result of navigation `n`. -/
inductive Spin where
  | idle
  | navigating
  | returned (n : Nat) (result : Bool)

structure DockingThread where
  startedBy : Nat
  dock : Docking

def DockingThread.live (t : DockingThread) : Prop := t.dock.pc ≠ .done

structure Recharger where
  navigationRequested : Bool := false
  navigationActive : Bool := false
  serialControlActive : Bool := false
  spin : Spin := .idle
  results : List Bool := []
  threads : List DockingThread := []

/-- `tick` is `check_navigation_request` up to its call of `execute_navigation_internal`,
`navigated` the end of that, `conclude` the rest. -/
inductive RechargerEvent where
  | press
  | tick
  | navigated (result : Bool)
  | conclude
  | stop
  | dock (i : Nat) (e : DockEvent)

def Recharger.step (s : Recharger) : RechargerEvent → Option Recharger
  | .press => some (if !s.navigationActive then { s with navigationRequested := true } else s)
  | .tick =>
    match s.spin with
    | .idle =>
      if s.navigationRequested && !s.navigationActive then
        some { s with navigationRequested := false, navigationActive := true, spin := .navigating }
      else some s
    | _ => none
  | .navigated result =>
    match s.spin with
    | .navigating =>
      some { s with
        navigationActive := false
        spin := .returned s.results.length result
        results := s.results ++ [result] }
    | _ => none
  | .conclude =>
    match s.spin with
    | .returned n result =>
      if result then some { s with spin := .idle, threads := s.threads ++ [⟨n, {}⟩] }
      else some { s with spin := .idle, navigationActive := false }
    | _ => none
  | .stop => some { s with serialControlActive := false }
  | .dock i e =>
    match s.threads[i]? with
    | none => none
    | some t =>
      (t.dock.step s.serialControlActive e).map fun out =>
        { s with serialControlActive := out.2, threads := s.threads.set i { t with dock := out.1 } }

/-! ## Mutual exclusion -/

/-- One activity at most drives the robot, and every docking thread has a successful
navigation of its own. -/
structure Exclusive (s : Recharger) : Prop where
  navigating : s.spin = .navigating → ∀ t ∈ s.threads, ¬ t.live
  single : ∀ t ∈ s.threads, ∀ u ∈ s.threads, t.live → u.live → t.startedBy = u.startedBy
  distinct : (s.threads.map DockingThread.startedBy).Nodup
  successful : ∀ t ∈ s.threads, s.results[t.startedBy]? = some true

/-- No navigation starts while a docking thread is live. -/
def StartsAlone (s : Recharger) : RechargerEvent → Prop
  | .tick => s.navigationRequested = true → s.navigationActive = false → ∀ t ∈ s.threads, ¬ t.live
  | _ => True

/-- `Exclusive`, and what makes it inductive: nothing is live until a navigation that
has started is concluded, and no thread has its number yet. -/
structure Separate (s : Recharger) : Prop extends Exclusive s where
  away : s.spin ≠ .idle → ∀ t ∈ s.threads, ¬ t.live
  fresh : ∀ n result, s.spin = .returned n result →
    s.results[n]? = some result ∧ n ∉ s.threads.map DockingThread.startedBy

theorem separate_start : Separate {} where
  navigating := fun h => by cases h
  single := fun t ht => by cases ht
  distinct := List.nodup_nil
  successful := fun t ht => by cases ht
  away := fun h => absurd rfl h
  fresh := fun n result h => by cases h

theorem live_of_step {d : Docking} {active : Bool} {e : DockEvent} {out : Docking × Bool}
    (h : d.step active e = some out) : d.pc ≠ .done := by
  intro hdone
  cases e <;> simp [Docking.step, hdone, Pc.inTry] at h

/-- A tick starts a navigation, or nothing changes. -/
theorem step_tick {s s' : Recharger} (h : s.step .tick = some s') :
    (s' = s ∧ ¬ (s.navigationRequested = true ∧ s.navigationActive = false)) ∨
      s.navigationRequested = true ∧ s.navigationActive = false ∧
      s' = { s with
        navigationRequested := false, navigationActive := true, spin := .navigating } := by
  simp only [Recharger.step] at h
  cases hspin : s.spin with
  | navigating => simp [hspin] at h
  | returned n result => simp [hspin] at h
  | idle =>
    simp only [hspin] at h
    split_ifs at h with hstart
    · simp only [Bool.and_eq_true, Bool.not_eq_true'] at hstart
      cases h
      exact Or.inr ⟨hstart.1, hstart.2, rfl⟩
    · simp only [Bool.and_eq_true, Bool.not_eq_true'] at hstart
      cases h
      exact Or.inl ⟨rfl, hstart⟩

theorem step_press {s s' : Recharger} (h : s.step .press = some s') :
    (s.navigationActive = true ∧ s' = s) ∨
      s.navigationActive = false ∧ s' = { s with navigationRequested := true } := by
  simp only [Recharger.step] at h
  cases hactive : s.navigationActive with
  | true =>
    simp only [hactive, Bool.not_true, Bool.false_eq_true, if_false, Option.some.injEq] at h
    exact Or.inl ⟨rfl, h.symm⟩
  | false =>
    simp only [hactive, Bool.not_false, if_true, Option.some.injEq] at h
    exact Or.inr ⟨rfl, h.symm⟩

theorem step_navigated {s s' : Recharger} {result : Bool}
    (h : s.step (.navigated result) = some s') :
    s.spin = .navigating ∧ s' = { s with
      navigationActive := false
      spin := .returned s.results.length result
      results := s.results ++ [result] } := by
  simp only [Recharger.step] at h
  cases hspin : s.spin with
  | navigating =>
    simp only [hspin, Option.some.injEq] at h
    exact ⟨rfl, h.symm⟩
  | _ => simp [hspin] at h

/-- A success starts its thread, a failure lowers the flag. -/
theorem step_conclude {s s' : Recharger} (h : s.step .conclude = some s') :
    ∃ n, (s.spin = .returned n true ∧
        s' = { s with spin := .idle, threads := s.threads ++ [⟨n, {}⟩] }) ∨
      (s.spin = .returned n false ∧ s' = { s with spin := .idle, navigationActive := false }) := by
  simp only [Recharger.step] at h
  cases hspin : s.spin with
  | returned n result =>
    refine ⟨n, ?_⟩
    cases result with
    | true =>
      simp only [hspin, if_true, Option.some.injEq] at h
      exact Or.inl ⟨rfl, h.symm⟩
    | false =>
      simp only [hspin, Bool.false_eq_true, if_false, Option.some.injEq] at h
      exact Or.inr ⟨rfl, h.symm⟩
  | _ => simp [hspin] at h

/-- Only a live thread takes a step. -/
theorem step_dock {s s' : Recharger} {i : Nat} {e : DockEvent}
    (h : s.step (.dock i e) = some s') :
    ∃ t d active, s.threads[i]? = some t ∧ t.live ∧
      s' = { s with
        serialControlActive := active, threads := s.threads.set i { t with dock := d } } := by
  simp only [Recharger.step] at h
  cases ht : s.threads[i]? with
  | none => simp [ht] at h
  | some t =>
    simp only [ht] at h
    obtain ⟨out, hout, rfl⟩ := Option.map_eq_some_iff.mp h
    exact ⟨t, out.1, out.2, rfl, live_of_step hout, rfl⟩

/-- A thread that has stepped stands where it stood; every live one was live before. -/
theorem mem_set_live {s : Recharger} {i : Nat} {t u : DockingThread} {d : Docking}
    (ht : s.threads[i]? = some t) (hlive : t.live) (hu : u ∈ s.threads.set i { t with dock := d })
    (hulive : u.live) : ∃ v ∈ s.threads, v.live ∧ v.startedBy = u.startedBy := by
  rcases List.mem_or_eq_of_mem_set hu with hu | rfl
  · exact ⟨u, hu, hulive, rfl⟩
  · exact ⟨t, List.mem_of_getElem? ht, hlive, rfl⟩

theorem map_set_startedBy {s : Recharger} {i : Nat} {t : DockingThread} {d : Docking}
    (ht : s.threads[i]? = some t) :
    (s.threads.set i { t with dock := d }).map DockingThread.startedBy =
      s.threads.map DockingThread.startedBy := by
  rw [List.map_set]
  refine List.ext_getElem? fun j => ?_
  by_cases hij : i = j
  · subst hij
    obtain ⟨hi, rfl⟩ := List.getElem?_eq_some_iff.mp ht
    rw [List.getElem?_set_self (by simpa using hi)]
    simp [hi]
  · rw [List.getElem?_set_ne hij]

theorem Separate.dock {s : Recharger} {i : Nat} {t : DockingThread} {d : Docking} {active : Bool}
    (h : Separate s) (ht : s.threads[i]? = some t) (hlive : t.live) :
    Separate { s with
      serialControlActive := active, threads := s.threads.set i { t with dock := d } } where
  navigating := fun hs u hu hulive => by
    obtain ⟨v, hv, hvlive, -⟩ := mem_set_live ht hlive hu hulive
    exact h.navigating hs v hv hvlive
  single := fun u hu w hw hulive hwlive => by
    obtain ⟨v, hv, hvlive, hvu⟩ := mem_set_live ht hlive hu hulive
    obtain ⟨x, hx, hxlive, hxw⟩ := mem_set_live ht hlive hw hwlive
    rw [← hvu, ← hxw]
    exact h.single v hv x hx hvlive hxlive
  distinct := by
    rw [map_set_startedBy ht]
    exact h.distinct
  successful := fun u hu => by
    rcases List.mem_or_eq_of_mem_set hu with hu | rfl
    · exact h.successful u hu
    · exact h.successful t (List.mem_of_getElem? ht)
  away := fun hs u hu hulive => by
    obtain ⟨v, hv, hvlive, -⟩ := mem_set_live ht hlive hu hulive
    exact h.away hs v hv hvlive
  fresh := fun n result hs => by
    rw [map_set_startedBy ht]
    exact h.fresh n result hs

/-- The end of a navigation: its number is new. -/
theorem Separate.navigated {s : Recharger} (h : Separate s) (hs : s.spin = .navigating)
    (result : Bool) :
    Separate { s with
      navigationActive := false
      spin := .returned s.results.length result
      results := s.results ++ [result] } where
  navigating := fun hs => by cases hs
  single := h.single
  distinct := h.distinct
  successful := fun t ht => by
    have hsucc := h.successful t ht
    obtain ⟨hlt, -⟩ := List.getElem?_eq_some_iff.mp hsucc
    exact (List.getElem?_append_left hlt).trans hsucc
  away := fun _ => h.navigating hs
  fresh := fun n r hr => by
    cases hr
    refine ⟨by simp, fun hmem => ?_⟩
    obtain ⟨t, ht, hn⟩ := List.mem_map.mp hmem
    obtain ⟨hlt, -⟩ := List.getElem?_eq_some_iff.mp (h.successful t ht)
    omega

/-- A successful navigation starts its thread. -/
theorem Separate.conclude {s : Recharger} (h : Separate s) {n : Nat}
    (hs : s.spin = .returned n true) :
    Separate { s with spin := .idle, threads := s.threads ++ [⟨n, {}⟩] } where
  navigating := fun hs => by cases hs
  single := fun t ht u hu htlive hulive => by
    have hnone := h.away (by rw [hs]; exact fun he => by cases he)
    rcases List.mem_append.mp ht with ht | ht
    · exact absurd htlive (hnone t ht)
    · rcases List.mem_append.mp hu with hu | hu
      · exact absurd hulive (hnone u hu)
      · rw [List.mem_singleton.mp ht, List.mem_singleton.mp hu]
  distinct := by
    rw [List.map_append]
    refine List.nodup_append.mpr ⟨h.distinct, by simp, fun a ha b hb => ?_⟩
    rintro rfl
    rw [List.mem_singleton.mp hb] at ha
    exact (h.fresh n true hs).2 ha
  successful := fun t ht => by
    rcases List.mem_append.mp ht with ht | ht
    · exact h.successful t ht
    · rw [List.mem_singleton.mp ht]
      exact (h.fresh n true hs).1
  away := fun he => absurd rfl he
  fresh := fun m r hm => by cases hm

theorem separate_step (s : Recharger) (ev : RechargerEvent) (s' : Recharger) (h : Separate s)
    (hok : StartsAlone s ev) (hs : s.step ev = some s') : Separate s' := by
  cases ev with
  | press =>
    rcases step_press hs with ⟨-, rfl⟩ | ⟨-, rfl⟩
    · exact h
    · exact ⟨⟨h.navigating, h.single, h.distinct, h.successful⟩, h.away, h.fresh⟩
  | stop =>
    cases hs
    exact ⟨⟨h.navigating, h.single, h.distinct, h.successful⟩, h.away, h.fresh⟩
  | tick =>
    rcases step_tick hs with ⟨rfl, -⟩ | ⟨hreq, hact, rfl⟩
    · exact h
    · have hnone := hok hreq hact
      exact ⟨⟨fun _ => hnone, h.single, h.distinct, h.successful⟩, fun _ => hnone,
        fun n result he => by cases he⟩
  | navigated result =>
    obtain ⟨hspin, rfl⟩ := step_navigated hs
    exact h.navigated hspin result
  | conclude =>
    obtain ⟨n, ⟨hspin, rfl⟩ | ⟨hspin, rfl⟩⟩ := step_conclude hs
    · exact h.conclude hspin
    · exact ⟨⟨fun he => (by cases he), h.single, h.distinct, h.successful⟩,
        fun he => absurd rfl he, fun n r he => by cases he⟩
  | dock i e =>
    obtain ⟨t, d, active, ht, hlive, rfl⟩ := step_dock hs
    exact h.dock ht hlive

/-! ## Presses -/

/-- No press is accepted between the return of a successful navigation and the end of its
docking thread. -/
def Unpressed (s : Recharger) : RechargerEvent → Prop
  | .press => s.navigationActive = false →
      (∀ t ∈ s.threads, ¬ t.live) ∧ ∀ n, s.spin ≠ .returned n true
  | _ => True

/-- A request that waits meets neither a navigation, nor a success, nor a live thread. -/
def Unguarded (s : Recharger) : Prop :=
  s.navigationRequested = true →
    (∀ t ∈ s.threads, ¬ t.live) ∧ s.spin ≠ .navigating ∧ ∀ n, s.spin ≠ .returned n true

/-- The flag is up exactly while a navigation runs. -/
def Flagged (s : Recharger) : Prop := s.navigationActive = true ↔ s.spin = .navigating

theorem flagged_step (s : Recharger) (ev : RechargerEvent) (s' : Recharger) (h : Flagged s)
    (hs : s.step ev = some s') : Flagged s' := by
  unfold Flagged at h ⊢
  cases ev with
  | press =>
    rcases step_press hs with ⟨-, rfl⟩ | ⟨-, rfl⟩
    · exact h
    · exact h
  | stop =>
    cases hs
    exact h
  | tick =>
    rcases step_tick hs with ⟨rfl, -⟩ | ⟨-, -, rfl⟩
    · exact h
    · exact iff_of_true rfl rfl
  | navigated result =>
    obtain ⟨-, rfl⟩ := step_navigated hs
    exact iff_of_false nofun nofun
  | conclude =>
    obtain ⟨n, ⟨hspin, rfl⟩ | ⟨-, rfl⟩⟩ := step_conclude hs
    · rw [hspin] at h
      exact iff_of_false (fun hactive => by cases h.mp hactive) nofun
    · exact iff_of_false nofun nofun
  | dock i e =>
    obtain ⟨t, d, active, -, -, rfl⟩ := step_dock hs
    exact h

theorem flagged_start : Flagged {} := iff_of_false nofun nofun

theorem unguarded_step (s : Recharger) (ev : RechargerEvent) (s' : Recharger) (hflag : Flagged s)
    (h : Unguarded s) (hok : Unpressed s ev) (hs : s.step ev = some s') : Unguarded s' := by
  intro hreq
  cases ev with
  | press =>
    rcases step_press hs with ⟨-, rfl⟩ | ⟨hactive, rfl⟩
    · exact h hreq
    · obtain ⟨hnone, hreturned⟩ := hok hactive
      refine ⟨hnone, fun hnav => ?_, hreturned⟩
      rw [hflag.mpr hnav] at hactive
      cases hactive
  | stop =>
    cases hs
    exact h hreq
  | tick =>
    rcases step_tick hs with ⟨rfl, -⟩ | ⟨-, -, rfl⟩
    · exact h hreq
    · cases hreq
  | navigated result =>
    obtain ⟨hspin, rfl⟩ := step_navigated hs
    exact absurd hspin (h hreq).2.1
  | conclude =>
    obtain ⟨n, ⟨hspin, rfl⟩ | ⟨-, rfl⟩⟩ := step_conclude hs
    · exact absurd hspin ((h hreq).2.2 n)
    · exact ⟨(h hreq).1, nofun, nofun⟩
  | dock i e =>
    obtain ⟨t, d, active, ht, hlive, rfl⟩ := step_dock hs
    exact absurd hlive ((h hreq).1 t (List.mem_of_getElem? ht))

theorem startsAlone_of_unguarded {s : Recharger} (h : Unguarded s) (ev : RechargerEvent) :
    StartsAlone s ev := by
  cases ev with
  | tick => exact fun hreq _ => (h hreq).1
  | _ => trivial

theorem exclusive_along (es : List RechargerEvent)
    (hok : Along Recharger.step Unpressed es {}) : Throughout Recharger.step Exclusive es {} :=
  throughout_of_along (I := fun s => Separate s ∧ Flagged s ∧ Unguarded s)
    (fun s ev s' ⟨hseparate, hflag, hguard⟩ hok hs =>
      ⟨separate_step s ev s' hseparate (startsAlone_of_unguarded hguard ev) hs,
        flagged_step s ev s' hflag hs, unguarded_step s ev s' hflag hguard hok hs⟩)
    (fun _ h => h.1.toExclusive) es {} ⟨separate_start, flagged_start, nofun⟩ hok

/-- From an accepted request with a live thread a tick is enough. -/
theorem tick_collides {s : Recharger} (hspin : s.spin = .idle) (hreq : s.navigationRequested = true)
    (hactive : s.navigationActive = false) {t : DockingThread} (ht : t ∈ s.threads)
    (hlive : t.live) : ∃ s', s.step .tick = some s' ∧ ¬ Exclusive s' := by
  refine ⟨{ s with navigationRequested := false, navigationActive := true, spin := .navigating },
    ?_, fun h => h.navigating rfl t ht hlive⟩
  simp [Recharger.step, hspin, hreq, hactive]

/-- A press that is accepted at the wrong time: a thread is live, or about to be. -/
theorem of_pressed {s : Recharger} (hbad : ¬ Unpressed s .press) :
    s.navigationActive = false ∧
      ((∃ t ∈ s.threads, t.live) ∨ ∃ n, s.spin = .returned n true) := by
  simp only [Unpressed, Classical.not_imp, not_and_or, not_forall, not_not] at hbad
  obtain ⟨hactive, ⟨t, ht, hlive⟩ | hreturned⟩ := hbad
  · exact ⟨hactive, Or.inl ⟨t, ht, hlive⟩⟩
  · exact ⟨hactive, Or.inr hreturned⟩

/-- The end of `check_navigation_request`, with a request waiting. -/
theorem conclude_collides {s : Recharger} {n : Nat} {result : Bool}
    (hspin : s.spin = .returned n result) (hreq : s.navigationRequested = true)
    (hactive : s.navigationActive = false)
    (hlive : (∃ t ∈ s.threads, t.live) ∨ result = true) :
    ∃ s', exec Recharger.step [.conclude, .tick] s = some s' ∧ ¬ Exclusive s' := by
  cases result with
  | true =>
    have hconclude : s.step .conclude =
        some { s with spin := .idle, threads := s.threads ++ [⟨n, {}⟩] } := by
      simp [Recharger.step, hspin]
    obtain ⟨s', htick, hs'⟩ := tick_collides
      (s := { s with spin := .idle, threads := s.threads ++ [⟨n, {}⟩] }) rfl hreq hactive
      (List.mem_append_right _ (List.mem_singleton_self _)) nofun
    exact ⟨s', by simp [exec, hconclude, htick], hs'⟩
  | false =>
    obtain ⟨t, ht, hlive⟩ := hlive.resolve_right Bool.false_ne_true
    have hconclude : s.step .conclude =
        some { s with spin := .idle, navigationActive := false } := by
      simp [Recharger.step, hspin]
    obtain ⟨s', htick, hs'⟩ := tick_collides
      (s := { s with spin := .idle, navigationActive := false }) rfl hreq rfl ht hlive
    exact ⟨s', by simp [exec, hconclude, htick], hs'⟩

/-- Behind such a press the ROS thread alone gets there. -/
theorem press_collides {s : Recharger} (hflag : Flagged s) (hbad : ¬ Unpressed s .press) :
    ∃ rest s', (∀ e ∈ rest, e = .conclude ∨ e = .tick) ∧
      exec Recharger.step (.press :: rest) s = some s' ∧ ¬ Exclusive s' := by
  obtain ⟨hactive, hlive⟩ := of_pressed hbad
  have hpress : s.step .press = some { s with navigationRequested := true } := by
    simp [Recharger.step, hactive]
  cases hspin : s.spin with
  | navigating =>
    rw [hflag.mpr hspin] at hactive
    cases hactive
  | idle =>
    obtain ⟨t, ht, hlive⟩ := hlive.resolve_right (by simp [hspin])
    obtain ⟨s', htick, hs'⟩ :=
      tick_collides (s := { s with navigationRequested := true }) hspin rfl hactive ht hlive
    exact ⟨[.tick], s', by simp, by simp [exec, hpress, htick], hs'⟩
  | returned n result =>
    have hlive' : (∃ t ∈ s.threads, t.live) ∨ result = true := by
      refine hlive.imp id ?_
      rintro ⟨n', hn'⟩
      rw [hspin] at hn'
      cases hn'
      rfl
    obtain ⟨s', hrest, hs'⟩ := conclude_collides (s := { s with navigationRequested := true })
      hspin rfl hactive hlive'
    refine ⟨[.conclude, .tick], s', by simp, ?_, hs'⟩
    rw [exec, hpress]
    exact hrest

/-- **Mutual exclusion** holds throughout a run without a press between the return of a
successful navigation and the end of its docking; were such a press accepted at its end, the
ROS thread alone could go on to a navigation beside a live docking thread. -/
theorem exclusive_unless_pressed (es : List RechargerEvent) :
    (Along Recharger.step Unpressed es {} → Throughout Recharger.step Exclusive es {}) ∧
    ∀ s, exec Recharger.step es {} = some s → ¬ Unpressed s .press →
      ∃ rest, (∀ e ∈ rest, e = .conclude ∨ e = .tick) ∧
        ¬ Throughout Recharger.step Exclusive (es ++ .press :: rest) {} := by
  refine ⟨exclusive_along es, fun s hrun hbad => ?_⟩
  have hflag : Flagged s := always flagged_step es {} s flagged_start hrun
  obtain ⟨rest, s', hrest, hexec, hs'⟩ := press_collides hflag hbad
  exact ⟨rest, hrest, fun hall => hs' (hall.last (exec_append hrun hexec))⟩

/-- Two dockings, the second press behind the end of the first. -/
def twice : List RechargerEvent :=
  [.press, .tick, .navigated true, .conclude, .dock 0 .raise, .dock 0 .advance, .dock 0 .advance,
    .press, .tick, .navigated true, .conclude]

theorem exclusive_twice : (exec Recharger.step twice {}).map (fun s => s.threads.length) = some 2 ∧
    Throughout Recharger.step Exclusive twice {} := by
  refine ⟨by decide +kernel, (exclusive_unless_pressed twice).1 ?_⟩
  simp [twice, Along, Recharger.step, Unpressed, Docking.step, Docking.goto, Pc.inTry,
    DockingThread.live]

/-- A second press while the first docking thread is live. -/
def secondPress : List RechargerEvent :=
  [.press, .tick, .navigated true, .conclude, .press, .tick]

theorem not_exclusive_secondPress : ¬ Throughout Recharger.step Exclusive secondPress {} := by
  intro h
  have hlast : Exclusive
      { navigationActive := true, spin := .navigating, results := [true], threads := [⟨0, {}⟩] } :=
    h.last rfl
  exact hlast.navigating rfl _ (List.mem_singleton.mpr rfl) fun hdone => by cases hdone

end AgvPro
