import AgvPro.Lib.Run
import Mathlib.Data.Bool.Basic
import Mathlib.Data.List.Induction
import Mathlib.Data.Rat.Defs

/-!
# The action client behind `nav_through_pose`

`BasicNavigator` keeps the handle of the goal it sent last, the future of the goal that was
accepted last, and the status it saw last.  A goal that is rejected replaces the handle and
leaves the other two as they were.

    isTaskComplete and getResult are about the goal accepted last, cancelTask about the
      goal sent last, in any interleaving with the answers         (answers_iff)
    a navigation returns ↔ its goal is rejected or gets a result   (navThroughPose_isSome)
    it reports whether the goal accepted last has succeeded        (navThroughPose_spec)
-/

namespace AgvPro

open Run

/-! ## Model -/

/-- `action_msgs/msg/GoalStatus` -/
inductive GoalStatus where
  | unknown
  | accepted
  | executing
  | canceling
  | succeeded
  | canceled
  | aborted
deriving DecidableEq

inductive TaskResult where
  | unknown
  | succeeded
  | canceled
  | failed
deriving DecidableEq

/-- The goal messages of the seven methods that start a task, over poses and paths. -/
inductive ActionGoal (P Q : Type) where
  | navigateThroughPoses (poses : List P) (behavior_tree : String)
  | navigateToPose (pose : P) (behavior_tree : String)
  | followWaypoints (poses : List P)
  | spin (target_yaw : ℚ) (time_allowance : Int)
  | backUp (target_x speed : ℚ) (time_allowance : Int)
  | assistedTeleop (time_allowance : Int)
  | followPath (path : Q) (controller_id goal_checker_id : String)

/-- A goal sent, and what the server has answered so far. -/
structure GoalExchange (P Q : Type) where
  goal : ActionGoal P Q
  accepted : Bool
  result : Option GoalStatus := none
  cancels : Nat := 0

/-- A result that arrives; only the first one for a goal that was accepted counts. -/
def GoalExchange.answer {P Q : Type} (status : GoalStatus) (x : GoalExchange P Q) : GoalExchange P Q :=
  if x.accepted ∧ x.result = none then { x with result := some status } else x

def GoalExchange.cancel {P Q : Type} (x : GoalExchange P Q) : GoalExchange P Q :=
  { x with cancels := x.cancels + 1 }

/-- Handle and future stand for the exchange they belong to. -/
structure BasicNavigator (P Q : Type) where
  exchanges : List (GoalExchange P Q) := []
  goalHandle : Option Nat := none
  resultFuture : Option Nat := none
  status : Option GoalStatus := none

/-- The results that arrive while the node spins. -/
abbrev Arrivals := List (Nat × GoalStatus)

namespace BasicNavigator

section
variable {P Q : Type}

/-- `rclpy.spin_until_future_complete` -/
def spinUntil (n : BasicNavigator P Q) (arrivals : Arrivals) : BasicNavigator P Q :=
  { n with
    exchanges := arrivals.foldl (fun xs r => xs.modify r.1 (GoalExchange.answer r.2)) n.exchanges }

/-- What the seven methods share, from `send_goal_async` on. -/
def sendGoal (n : BasicNavigator P Q) (goal : ActionGoal P Q) (accepted : Bool)
    (arrivals : Arrivals) : BasicNavigator P Q × Bool :=
  let n := n.spinUntil arrivals
  let handle := n.exchanges.length
  let n := { n with
    exchanges := n.exchanges ++ [⟨goal, accepted, none, 0⟩]
    goalHandle := some handle }
  if !accepted then (n, false) else ({ n with resultFuture := some handle }, true)

def goThroughPoses (n : BasicNavigator P Q) (poses : List P) (accepted : Bool)
    (arrivals : Arrivals) : BasicNavigator P Q × Bool :=
  n.sendGoal (.navigateThroughPoses poses "") accepted arrivals

/-- The result of the future, once it is there. -/
def futureResult (n : BasicNavigator P Q) (i : Nat) : Option GoalStatus :=
  n.exchanges[i]?.bind GoalExchange.result

def isTaskComplete (n : BasicNavigator P Q) (arrivals : Arrivals) : BasicNavigator P Q × Bool :=
  match n.resultFuture with
  | none => (n, true)
  | some i =>
    let n := n.spinUntil arrivals
    match n.futureResult i with
    | some status => ({ n with status := some status }, true)
    | none => (n, false)

def getResult (n : BasicNavigator P Q) : TaskResult :=
  match n.status with
  | some .succeeded => .succeeded
  | some .aborted => .failed
  | some .canceled => .canceled
  | _ => .unknown

/-- The request goes to the handle, whatever it is the future is of. -/
def cancelTask (n : BasicNavigator P Q) (arrivals : Arrivals) : BasicNavigator P Q :=
  match n.resultFuture, n.goalHandle with
  | some _, some handle =>
    { n with exchanges := n.exchanges.modify handle GoalExchange.cancel }.spinUntil arrivals
  | _, _ => n

/-- The loop of `nav_through_pose`, with what arrives in each round. -/
def waitForTask (n : BasicNavigator P Q) : List Arrivals → Option (BasicNavigator P Q)
  | [] => none
  | arrivals :: rest =>
    match n.isTaskComplete arrivals with
    | (n, true) => some n
    | (n, false) => n.waitForTask rest

end

end BasicNavigator

/-- What a call of `nav_through_pose` meets. -/
structure NavCall where
  accepted : Bool
  whileSending : Arrivals
  rounds : List Arrivals

def navThroughPose {P Q : Type} (n : BasicNavigator P Q) (poses : List P) (call : NavCall) :
    Option (BasicNavigator P Q × Bool) :=
  ((n.goThroughPoses poses call.accepted call.whileSending).1.waitForTask call.rounds).map
    fun n => (n, n.getResult == .succeeded)

/-! ## Exchanges -/

section
variable {P Q : Type}

/-- Exchanges only grow, and a result that is there stays. -/
def Grows (xs ys : List (GoalExchange P Q)) : Prop :=
  ∀ (i : Nat) (x : GoalExchange P Q), xs[i]? = some x → ∃ y : GoalExchange P Q, ys[i]? = some y ∧
    y.goal = x.goal ∧ y.accepted = x.accepted ∧
    ∀ status, x.result = some status → y.result = some status

theorem Grows.refl (xs : List (GoalExchange P Q)) : Grows xs xs :=
  fun _ x hx => ⟨x, hx, rfl, rfl, fun _ h => h⟩

theorem Grows.trans {xs ys zs : List (GoalExchange P Q)} (h : Grows xs ys) (h' : Grows ys zs) :
    Grows xs zs := by
  intro i x hx
  obtain ⟨y, hy, hgoal, haccepted, hresult⟩ := h i x hx
  obtain ⟨z, hz, hgoal', haccepted', hresult'⟩ := h' i y hy
  exact ⟨z, hz, hgoal'.trans hgoal, haccepted'.trans haccepted,
    fun status hs => hresult' status (hresult status hs)⟩

theorem grows_append (xs ys : List (GoalExchange P Q)) : Grows xs (xs ++ ys) := by
  intro i x hx
  obtain ⟨hi, -⟩ := List.getElem?_eq_some_iff.mp hx
  exact ⟨x, (List.getElem?_append_left hi).trans hx, rfl, rfl, fun _ h => h⟩

/-- A change of one exchange that keeps its goal, the server's answer and its result. -/
theorem grows_modify (xs : List (GoalExchange P Q)) (i : Nat) (f : GoalExchange P Q → GoalExchange P Q)
    (hf : ∀ x, (f x).goal = x.goal ∧ (f x).accepted = x.accepted ∧
      ∀ status, x.result = some status → (f x).result = some status) :
    Grows xs (xs.modify i f) := by
  intro j x hx
  rw [List.getElem?_modify, hx]
  by_cases hij : i = j
  · obtain ⟨hgoal, haccepted, hresult⟩ := hf x
    exact ⟨f x, by simp [hij], hgoal, haccepted, hresult⟩
  · exact ⟨x, by simp [hij], rfl, rfl, fun _ h => h⟩

@[simp] theorem answer_accepted (status : GoalStatus) (x : GoalExchange P Q) :
    (x.answer status).accepted = x.accepted := by
  unfold GoalExchange.answer
  split <;> rfl

@[simp] theorem answer_cancels (status : GoalStatus) (x : GoalExchange P Q) :
    (x.answer status).cancels = x.cancels := by
  unfold GoalExchange.answer
  split <;> rfl

theorem answer_goal (status : GoalStatus) (x : GoalExchange P Q) :
    (x.answer status).goal = x.goal := by
  unfold GoalExchange.answer
  split <;> rfl

theorem answer_result {status status' : GoalStatus} {x : GoalExchange P Q}
    (h : x.result = some status') : (x.answer status).result = some status' := by
  unfold GoalExchange.answer
  rw [if_neg (by simp [h])]
  exact h

/-- What a field the answers leave alone looks like after them. -/
theorem map_foldl_answer {α : Type} (f : GoalExchange P Q → α)
    (hf : ∀ status x, f (GoalExchange.answer status x) = f x) (arrivals : Arrivals)
    (xs : List (GoalExchange P Q)) :
    (arrivals.foldl (fun xs r => xs.modify r.1 (GoalExchange.answer r.2)) xs).map f = xs.map f := by
  induction arrivals generalizing xs with
  | nil => rfl
  | cons r rest ih =>
    rw [List.foldl_cons, ih]
    refine List.ext_getElem? fun j => ?_
    rw [List.getElem?_map, List.getElem?_map, List.getElem?_modify]
    by_cases hij : r.1 = j
    · cases hj : xs[j]? <;> simp [hij, hf]
    · simp [hij]

namespace BasicNavigator

variable (n : BasicNavigator P Q) (arrivals : Arrivals)

theorem spinUntil_accepted : (n.spinUntil arrivals).exchanges.map GoalExchange.accepted =
    n.exchanges.map GoalExchange.accepted :=
  map_foldl_answer _ answer_accepted arrivals n.exchanges

theorem spinUntil_cancels : (n.spinUntil arrivals).exchanges.map GoalExchange.cancels =
    n.exchanges.map GoalExchange.cancels :=
  map_foldl_answer _ answer_cancels arrivals n.exchanges

@[simp] theorem spinUntil_resultFuture :
    (n.spinUntil arrivals).resultFuture = n.resultFuture := rfl

@[simp] theorem spinUntil_status : (n.spinUntil arrivals).status = n.status := rfl

@[simp] theorem spinUntil_length :
    (n.spinUntil arrivals).exchanges.length = n.exchanges.length := by
  have hlength := congrArg List.length (n.spinUntil_accepted arrivals)
  rwa [List.length_map, List.length_map] at hlength

theorem spinUntil_grows : Grows n.exchanges (n.spinUntil arrivals).exchanges := by
  show Grows n.exchanges (arrivals.foldl _ n.exchanges)
  generalize n.exchanges = xs
  induction arrivals generalizing xs with
  | nil => exact Grows.refl xs
  | cons r rest ih =>
    have hfirst : Grows xs (xs.modify r.1 (GoalExchange.answer r.2)) :=
      grows_modify xs r.1 _ fun x => ⟨answer_goal r.2 x, answer_accepted r.2 x,
        fun _ h => answer_result h⟩
    exact hfirst.trans (ih _)

/-- The first result that arrives is the result. -/
theorem futureResult_spinUntil {i : Nat} {x : GoalExchange P Q} (hx : n.exchanges[i]? = some x)
    (haccepted : x.accepted = true) (hnone : x.result = none) :
    (n.spinUntil arrivals).futureResult i =
      (arrivals.find? fun r => r.1 == i).map Prod.snd := by
  show (arrivals.foldl _ n.exchanges)[i]?.bind GoalExchange.result = _
  generalize n.exchanges = xs at hx
  induction arrivals generalizing xs with
  | nil => simp [hx, hnone]
  | cons r rest ih =>
    rw [List.foldl_cons]
    by_cases hi : r.1 = i
    · -- this one is it, and the rest leaves it
      have hset : (xs.modify r.1 (GoalExchange.answer r.2))[i]? = some { x with result := some r.2 } := by
        rw [List.getElem?_modify, hx]
        simp [hi, GoalExchange.answer, haccepted, hnone]
      have hgrows := spinUntil_grows ⟨xs.modify r.1 (GoalExchange.answer r.2), none, none, none⟩ rest
      obtain ⟨y, hy, -, -, hresult⟩ := hgrows i _ hset
      have hfound : (rest.foldl (fun xs r => xs.modify r.1 (GoalExchange.answer r.2))
          (xs.modify r.1 (GoalExchange.answer r.2)))[i]? = some y := hy
      rw [hfound, List.find?_cons_of_pos (by simp [hi])]
      exact hresult r.2 rfl
    · have hsame : (xs.modify r.1 (GoalExchange.answer r.2))[i]? = some x := by
        rw [List.getElem?_modify, hx]
        simp [hi]
      rw [ih _ hsame]
      simp [hi]

end BasicNavigator

/-- The goal accepted last. -/
def LastAccepted (xs : List (GoalExchange P Q)) (i : Nat) : Prop :=
  (xs.map GoalExchange.accepted)[i]? = some true ∧
    ∀ j, i < j → (xs.map GoalExchange.accepted)[j]? ≠ some true

theorem LastAccepted.unique {xs : List (GoalExchange P Q)} {i j : Nat} (h : LastAccepted xs i)
    (h' : LastAccepted xs j) : i = j := by
  rcases Nat.lt_trichotomy i j with hlt | heq | hlt
  · exact absurd h'.1 (h.2 j hlt)
  · exact heq
  · exact absurd h.1 (h'.2 i hlt)

/-- A goal sent last is the one accepted last, or leaves that as it was. -/
theorem lastAccepted_append (xs : List (GoalExchange P Q)) (x : GoalExchange P Q) (i : Nat) :
    LastAccepted (xs ++ [x]) i ↔
      if x.accepted then i = xs.length else LastAccepted xs i := by
  have hget : ∀ j, ((xs ++ [x]).map GoalExchange.accepted)[j]? =
      if j = xs.length then some x.accepted else (xs.map GoalExchange.accepted)[j]? := by
    intro j
    rw [List.map_append]
    rcases Nat.lt_trichotomy j xs.length with hlt | rfl | hlt
    · rw [List.getElem?_append_left (by simpa using hlt), if_neg hlt.ne]
    · simp
    · rw [if_neg hlt.ne', List.getElem?_eq_none (by simp; omega),
        List.getElem?_eq_none (by simp; omega)]
  have hout : ∀ j, xs.length ≤ j → (xs.map GoalExchange.accepted)[j]? = none :=
    fun j hj => List.getElem?_eq_none (by simpa using hj)
  unfold LastAccepted
  simp only [hget]
  cases hx : x.accepted with
  | true =>
    simp only [if_true]
    constructor
    · rintro ⟨hi, hlater⟩
      by_contra hne
      rw [if_neg hne] at hi
      have hlt : i < xs.length := by
        by_contra hge
        rw [hout i (not_lt.mp hge)] at hi
        cases hi
      exact hlater xs.length hlt (if_pos rfl)
    · rintro rfl
      refine ⟨if_pos rfl, fun j hj => ?_⟩
      rw [if_neg hj.ne', hout j hj.le]
      simp
  | false =>
    simp only [Bool.false_eq_true, if_false]
    constructor
    · rintro ⟨hi, hlater⟩
      have hne : i ≠ xs.length := fun heq => by simp [heq] at hi
      rw [if_neg hne] at hi
      refine ⟨hi, fun j hj => ?_⟩
      by_cases hj' : j = xs.length
      · rw [hout j hj'.ge]
        simp
      · have hlast := hlater j hj
        rwa [if_neg hj'] at hlast
    · rintro ⟨hi, hlater⟩
      have hne : i ≠ xs.length := fun heq => by rw [hout i heq.ge] at hi; cases hi
      refine ⟨(if_neg hne).trans hi, fun j hj => ?_⟩
      by_cases hj' : j = xs.length
      · rw [if_pos hj']
        simp
      · rw [if_neg hj']
        exact hlater j hj

/-- What the three fields stand for. -/
structure NavTracked (n : BasicNavigator P Q) : Prop where
  handle : ∀ i, n.goalHandle = some i ↔ i + 1 = n.exchanges.length
  future : ∀ i, n.resultFuture = some i ↔ LastAccepted n.exchanges i
  status : ∀ status, n.status = some status →
    ∃ x ∈ n.exchanges, x.accepted = true ∧ x.result = some status

theorem tracked_start : NavTracked ({} : BasicNavigator P Q) where
  handle := fun i => ⟨nofun, fun h => absurd h (Nat.succ_ne_zero i)⟩
  future := fun i => ⟨nofun, fun h => by cases h.1⟩
  status := nofun

/-- A change of the exchanges that keeps what they are tracked by. -/
theorem NavTracked.exchanged {n : BasicNavigator P Q} (h : NavTracked n) {ys : List (GoalExchange P Q)}
    (haccepted : ys.map GoalExchange.accepted = n.exchanges.map GoalExchange.accepted)
    (hgrows : Grows n.exchanges ys) : NavTracked { n with exchanges := ys } where
  handle := fun i => by
    have hlength := congrArg List.length haccepted
    rw [List.length_map, List.length_map] at hlength
    exact (h.handle i).trans (by rw [hlength])
  future := fun i => by
    unfold LastAccepted
    simp only
    rw [haccepted]
    exact h.future i
  status := fun status hs => by
    obtain ⟨x, hx, haccepted, hresult⟩ := h.status status hs
    obtain ⟨i, hi⟩ := List.mem_iff_getElem?.mp hx
    obtain ⟨y, hy, -, hsame, hkept⟩ := hgrows i x hi
    exact ⟨y, List.mem_of_getElem? hy, hsame.trans haccepted, hkept status hresult⟩

theorem NavTracked.spinUntil {n : BasicNavigator P Q} (h : NavTracked n) (arrivals : Arrivals) :
    NavTracked (n.spinUntil arrivals) :=
  h.exchanged (n.spinUntil_accepted arrivals) (n.spinUntil_grows arrivals)

theorem sendGoal_eq (n : BasicNavigator P Q) (goal : ActionGoal P Q) (accepted : Bool)
    (arrivals : Arrivals) : (n.sendGoal goal accepted arrivals).1 =
      { n with
        exchanges := (n.spinUntil arrivals).exchanges ++ [{ goal := goal, accepted := accepted }]
        goalHandle := some n.exchanges.length
        resultFuture := if accepted then some n.exchanges.length else n.resultFuture } := by
  unfold BasicNavigator.sendGoal
  cases accepted <;> simp

theorem NavTracked.sendGoal {n : BasicNavigator P Q} (h : NavTracked n) (goal : ActionGoal P Q)
    (accepted : Bool) (arrivals : Arrivals) : NavTracked (n.sendGoal goal accepted arrivals).1 := by
  have hspin := h.spinUntil arrivals
  have hlength := n.spinUntil_length arrivals
  rw [sendGoal_eq]
  refine ⟨fun i => ?_, fun i => ?_, fun status hs => ?_⟩
  · simp only [List.length_append, List.length_singleton, hlength, Option.some.injEq]
    omega
  · simp only
    rw [lastAccepted_append, hlength]
    cases accepted with
    | true =>
      rw [if_pos rfl, if_pos rfl]
      exact ⟨fun hi => (Option.some.inj hi).symm, fun hi => congrArg some hi.symm⟩
    | false =>
      rw [if_neg Bool.false_ne_true, if_neg Bool.false_ne_true]
      exact hspin.future i
  · obtain ⟨x, hx, hresult⟩ := hspin.status status hs
    exact ⟨x, List.mem_append_left _ hx, hresult⟩

/-- The future's exchange is one. -/
theorem NavTracked.pending {n : BasicNavigator P Q} (h : NavTracked n) {i : Nat}
    (hi : n.resultFuture = some i) : ∃ x, n.exchanges[i]? = some x ∧ x.accepted = true := by
  have hlast := ((h.future i).mp hi).1
  rw [List.getElem?_map] at hlast
  exact Option.map_eq_some_iff.mp hlast

theorem NavTracked.isTaskComplete {n : BasicNavigator P Q} (h : NavTracked n) (arrivals : Arrivals) :
    NavTracked (n.isTaskComplete arrivals).1 := by
  have hspin := h.spinUntil arrivals
  unfold BasicNavigator.isTaskComplete
  split
  · exact h
  · rename_i i hi
    simp only
    split
    · rename_i status hstatus
      refine ⟨hspin.handle, hspin.future, ?_⟩
      rintro _ ⟨⟩
      obtain ⟨x, hx, hresult⟩ := Option.bind_eq_some_iff.mp hstatus
      obtain ⟨y, hy, haccepted⟩ := hspin.pending hi
      rw [hx] at hy
      cases hy
      exact ⟨x, List.mem_of_getElem? hx, haccepted, hresult⟩
    · exact hspin

theorem NavTracked.cancelTask {n : BasicNavigator P Q} (h : NavTracked n) (arrivals : Arrivals) :
    NavTracked (n.cancelTask arrivals) := by
  unfold BasicNavigator.cancelTask
  split
  · rename_i i handle hi hhandle
    have hgrows : Grows n.exchanges (n.exchanges.modify handle GoalExchange.cancel) :=
      grows_modify _ handle _ fun x => ⟨rfl, rfl, fun _ hx => hx⟩
    refine NavTracked.spinUntil (h.exchanged ?_ hgrows) arrivals
    refine List.ext_getElem? fun j => ?_
    rw [List.getElem?_map, List.getElem?_map, List.getElem?_modify]
    by_cases hj : handle = j
    · cases n.exchanges[j]? <;> simp [hj, GoalExchange.cancel]
    · simp [hj]
  · exact h

/-! ## Any use of it -/

inductive NavEvent (P Q : Type) where
  | send (goal : ActionGoal P Q) (accepted : Bool) (arrivals : Arrivals)
  | isTaskComplete (arrivals : Arrivals)
  | cancelTask (arrivals : Arrivals)

def BasicNavigator.step (n : BasicNavigator P Q) : NavEvent P Q → Option (BasicNavigator P Q)
  | .send goal accepted arrivals => some (n.sendGoal goal accepted arrivals).1
  | .isTaskComplete arrivals => some (n.isTaskComplete arrivals).1
  | .cancelTask arrivals => some (n.cancelTask arrivals)

theorem tracked_step (n : BasicNavigator P Q) (e : NavEvent P Q) (n' : BasicNavigator P Q)
    (hn : NavTracked n) (h : n.step e = some n') : NavTracked n' := by
  cases e with
  | send goal accepted arrivals =>
    cases h
    exact hn.sendGoal goal accepted arrivals
  | isTaskComplete arrivals =>
    cases h
    exact hn.isTaskComplete arrivals
  | cancelTask arrivals =>
    cases h
    exact hn.cancelTask arrivals

theorem exists_lastAccepted {xs : List (GoalExchange P Q)} {x : GoalExchange P Q} (hx : x ∈ xs)
    (haccepted : x.accepted = true) : ∃ i, LastAccepted xs i := by
  induction xs using List.reverseRecOn with
  | nil => cases hx
  | append_singleton xs y ih =>
    by_cases hy : y.accepted = true
    · exact ⟨xs.length, (lastAccepted_append xs y _).mpr (by rw [if_pos hy])⟩
    · rcases List.mem_append.mp hx with hx | hx
      · obtain ⟨i, hi⟩ := ih hx
        exact ⟨i, (lastAccepted_append xs y i).mpr (by rwa [if_neg hy])⟩
      · rw [List.mem_singleton.mp hx] at haccepted
        exact absurd haccepted hy

/-- No future, no goal accepted yet. -/
theorem NavTracked.resultFuture_none {n : BasicNavigator P Q} (h : NavTracked n) :
    n.resultFuture = none ↔ ∀ x ∈ n.exchanges, x.accepted = false := by
  constructor
  · intro hnone x hx
    by_contra hx'
    obtain ⟨i, hi⟩ := exists_lastAccepted hx (Bool.eq_true_of_not_eq_false hx')
    rw [(h.future i).mpr hi] at hnone
    cases hnone
  · intro hall
    cases hi : n.resultFuture with
    | none => rfl
    | some i =>
      obtain ⟨x, hx, haccepted⟩ := h.pending hi
      rw [hall x (List.mem_of_getElem? hx)] at haccepted
      cases haccepted

/-- A yes is about the goal accepted last. -/
theorem NavTracked.complete {n : BasicNavigator P Q} (h : NavTracked n) {arrivals : Arrivals}
    (hdone : (n.isTaskComplete arrivals).2 = true) {i : Nat} (hi : LastAccepted n.exchanges i) :
    ∃ x, (n.isTaskComplete arrivals).1.exchanges[i]? = some x ∧ x.result ≠ none ∧
      (n.isTaskComplete arrivals).1.status = x.result := by
  rw [← h.future] at hi
  unfold BasicNavigator.isTaskComplete at hdone ⊢
  rw [hi] at hdone ⊢
  simp only at hdone ⊢
  split at hdone
  · rename_i status hstatus
    obtain ⟨x, hx, hresult⟩ := Option.bind_eq_some_iff.mp hstatus
    exact ⟨x, hx, by rw [hresult]; exact nofun, hresult.symm⟩
  · cases hdone

theorem NavTracked.complete_iff {n : BasicNavigator P Q} (h : NavTracked n) (arrivals : Arrivals) :
    (n.isTaskComplete arrivals).2 = true ↔ (∀ x ∈ n.exchanges, x.accepted = false) ∨
      ∃ i x status, LastAccepted n.exchanges i ∧ (n.spinUntil arrivals).exchanges[i]? = some x ∧
        x.result = some status := by
  unfold BasicNavigator.isTaskComplete
  split
  · rename_i hnone
    exact iff_of_true rfl (Or.inl (h.resultFuture_none.mp hnone))
  · rename_i i hi
    have hlast := (h.future i).mp hi
    have hsome : ¬ ∀ x ∈ n.exchanges, x.accepted = false := fun hall => by
      rw [h.resultFuture_none.mpr hall] at hi
      cases hi
    simp only
    split
    · rename_i status hstatus
      obtain ⟨x, hx, hresult⟩ := Option.bind_eq_some_iff.mp hstatus
      exact iff_of_true rfl (Or.inr ⟨i, x, status, hlast, hx, hresult⟩)
    · rename_i hnone
      refine iff_of_false Bool.false_ne_true ?_
      rintro (hall | ⟨j, x, status, hj, hx, hresult⟩)
      · exact hsome hall
      · rw [hj.unique hlast] at hx
        simp [BasicNavigator.futureResult, hx, hresult] at hnone

/-- The cancellation is counted at the goal sent last. -/
theorem NavTracked.cancels {n : BasicNavigator P Q} (h : NavTracked n) (arrivals : Arrivals) :
    (n.cancelTask arrivals).exchanges.map GoalExchange.cancels =
      if (∃ x ∈ n.exchanges, x.accepted = true) then
        (n.exchanges.map GoalExchange.cancels).modify (n.exchanges.length - 1) (· + 1)
      else n.exchanges.map GoalExchange.cancels := by
  unfold BasicNavigator.cancelTask
  split
  · rename_i i handle hi hhandle
    obtain ⟨x, hx, haccepted⟩ := h.pending hi
    have hlast := (h.handle handle).mp hhandle
    rw [if_pos ⟨x, List.mem_of_getElem? hx, haccepted⟩, BasicNavigator.spinUntil_cancels,
      ← hlast, Nat.add_sub_cancel]
    refine List.ext_getElem? fun j => ?_
    simp only [List.getElem?_map, List.getElem?_modify]
    cases n.exchanges[j]? with
    | none => rfl
    | some y => by_cases hj : handle = j <;> simp [hj, GoalExchange.cancel]
  · rename_i hnot
    rw [if_neg]
    rintro ⟨x, hx, haccepted⟩
    obtain ⟨i, hi⟩ := exists_lastAccepted hx haccepted
    have hpos := List.length_pos_of_mem hx
    exact hnot i (n.exchanges.length - 1) ((h.future i).mpr hi) ((h.handle _).mpr (by omega))

/-- **Whose answer it is.**  In any use of the navigator, whatever arrives and when:
`isTaskComplete` says yes exactly when no goal was ever accepted or the one accepted last
has its result, and the status is then that result; `cancelTask` asks for one cancellation,
of the goal sent last, even if that one was rejected and another is still running. -/
theorem answers_iff (es : List (NavEvent P Q)) (n : BasicNavigator P Q)
    (h : exec BasicNavigator.step es {} = some n) (arrivals : Arrivals) :
    ((n.isTaskComplete arrivals).2 = true ↔ (∀ x ∈ n.exchanges, x.accepted = false) ∨
      ∃ i x status, LastAccepted n.exchanges i ∧ (n.spinUntil arrivals).exchanges[i]? = some x ∧
        x.result = some status) ∧
    (∀ i, LastAccepted n.exchanges i → (n.isTaskComplete arrivals).2 = true →
      ∃ x, (n.isTaskComplete arrivals).1.exchanges[i]? = some x ∧ x.result ≠ none ∧
        (n.isTaskComplete arrivals).1.status = x.result) ∧
    (n.cancelTask arrivals).exchanges.map GoalExchange.cancels =
      if (∃ x ∈ n.exchanges, x.accepted = true) then
        (n.exchanges.map GoalExchange.cancels).modify (n.exchanges.length - 1) (· + 1)
      else n.exchanges.map GoalExchange.cancels := by
  have htracked : NavTracked n := always tracked_step es {} n tracked_start h
  exact ⟨htracked.complete_iff arrivals, fun i hi hdone => htracked.complete hdone hi,
    htracked.cancels arrivals⟩

/-- A pose is sent, a second one rejected while the first is still under way. -/
def overtaken : List (NavEvent Nat Nat) :=
  [.send (.navigateToPose 1 "") true [], .isTaskComplete [],
   .send (.navigateToPose 2 "") false []]

/-- The cancellation goes to the second. -/
theorem answers_iff_overtaken : ∃ n : BasicNavigator Nat Nat,
    exec BasicNavigator.step overtaken {} = some n ∧
      (n.cancelTask []).exchanges.map GoalExchange.cancels = [0, 1] := by
  refine ⟨_, rfl, ?_⟩
  obtain ⟨-, -, hcancel⟩ := answers_iff overtaken _ rfl []
  rw [hcancel, if_pos ⟨_, List.mem_cons_self, rfl⟩]
  rfl

/-! ## A navigation -/

theorem isTaskComplete_kept (n : BasicNavigator P Q) (arrivals : Arrivals) :
    (n.isTaskComplete arrivals).1.exchanges.map GoalExchange.accepted =
        n.exchanges.map GoalExchange.accepted ∧
      Grows n.exchanges (n.isTaskComplete arrivals).1.exchanges := by
  unfold BasicNavigator.isTaskComplete
  split
  · exact ⟨rfl, Grows.refl _⟩
  · simp only
    split
    · exact ⟨n.spinUntil_accepted arrivals, n.spinUntil_grows arrivals⟩
    · exact ⟨n.spinUntil_accepted arrivals, n.spinUntil_grows arrivals⟩

/-- What the loop ends with. -/
theorem waitForTask_spec (rounds : List Arrivals) (n n' : BasicNavigator P Q) (hn : NavTracked n)
    (h : n.waitForTask rounds = some n') :
    NavTracked n' ∧ n'.exchanges.map GoalExchange.accepted = n.exchanges.map GoalExchange.accepted ∧
      Grows n.exchanges n'.exchanges ∧ ∀ i, LastAccepted n'.exchanges i →
        ∃ x, n'.exchanges[i]? = some x ∧ x.result ≠ none ∧ n'.status = x.result := by
  induction rounds generalizing n with
  | nil => cases h
  | cons arrivals rest ih =>
    have htracked := hn.isTaskComplete arrivals
    obtain ⟨haccepted, hgrows⟩ := isTaskComplete_kept n arrivals
    have hcomplete := @NavTracked.complete _ _ _ hn arrivals
    rw [BasicNavigator.waitForTask] at h
    generalize n.isTaskComplete arrivals = out at h htracked haccepted hgrows hcomplete
    obtain ⟨n1, done⟩ := out
    cases done with
    | true =>
      cases h
      refine ⟨htracked, haccepted, hgrows, fun i hi => hcomplete rfl ?_⟩
      unfold LastAccepted at hi ⊢
      rwa [← haccepted]
    | false =>
      obtain ⟨ht, ha, hg, hlast⟩ := ih n1 htracked h
      exact ⟨ht, ha.trans haccepted, hgrows.trans hg, hlast⟩

/-- Of the goals up to the `i`-th, the one accepted last has succeeded. -/
def LastSucceeded (xs : List (GoalExchange P Q)) (i : Nat) : Prop :=
  ∃ j x, j ≤ i ∧ xs[j]? = some x ∧ x.accepted = true ∧ x.result = some .succeeded ∧
    ∀ l y, j < l → l ≤ i → xs[l]? = some y → y.accepted = false

theorem lastSucceeded_length {xs : List (GoalExchange P Q)} {i : Nat} (hi : i + 1 = xs.length) :
    LastSucceeded xs i ↔
      ∃ j x, LastAccepted xs j ∧ xs[j]? = some x ∧ x.result = some .succeeded := by
  constructor
  · rintro ⟨j, x, hj, hx, haccepted, hresult, hlater⟩
    refine ⟨j, x, ⟨by simp [hx, haccepted], fun l hl htrue => ?_⟩, hx, hresult⟩
    rw [List.getElem?_map] at htrue
    obtain ⟨y, hy, hytrue⟩ := Option.map_eq_some_iff.mp htrue
    obtain ⟨hlt, -⟩ := List.getElem?_eq_some_iff.mp hy
    rw [hlater l y hl (by omega) hy] at hytrue
    cases hytrue
  · rintro ⟨j, x, ⟨htrue, hlater⟩, hx, hresult⟩
    obtain ⟨hlt, -⟩ := List.getElem?_eq_some_iff.mp hx
    rw [List.getElem?_map, hx] at htrue
    refine ⟨j, x, by omega, hx, Option.some.inj htrue, hresult, fun l y hl _ hy => ?_⟩
    have hnot := hlater l hl
    rw [List.getElem?_map, hy] at hnot
    exact Bool.eq_false_of_not_eq_true fun htrue => hnot (congrArg some htrue)

/-- Every goal that was accepted has its result. -/
def Settled (xs : List (GoalExchange P Q)) : Prop :=
  ∀ x ∈ xs, x.accepted = true → x.result ≠ none

/-- What has been settled stays so, whatever is sent afterwards. -/
theorem lastSucceeded_grows {xs ys : List (GoalExchange P Q)} (hgrows : Grows xs ys)
    (hsettled : Settled xs) {i : Nat} (hi : i < xs.length) :
    LastSucceeded ys i ↔ LastSucceeded xs i := by
  constructor
  · rintro ⟨j, y, hj, hy, haccepted, hresult, hlater⟩
    have hx : xs[j]? = some xs[j] := List.getElem?_eq_getElem (by omega)
    obtain ⟨y', hy', -, hsame, hkept⟩ := hgrows j _ hx
    rw [hy] at hy'
    cases hy'
    have hxaccepted := hsame.symm.trans haccepted
    obtain ⟨status, hstatus⟩ :=
      Option.ne_none_iff_exists'.mp (hsettled _ (List.mem_of_getElem? hx) hxaccepted)
    have hxresult : xs[j].result = some .succeeded := by
      rw [hstatus, ← hkept status hstatus]
      exact hresult
    refine ⟨j, _, hj, hx, hxaccepted, hxresult, fun l x hl hli hxl => ?_⟩
    obtain ⟨y', hy', -, hsame', -⟩ := hgrows l x hxl
    exact hsame'.symm.trans (hlater l y' hl hli hy')
  · rintro ⟨j, x, hj, hx, haccepted, hresult, hlater⟩
    obtain ⟨y, hy, -, hsame, hkept⟩ := hgrows j x hx
    refine ⟨j, y, hj, hy, hsame.trans haccepted, hkept _ hresult, fun l y' hl hli hy' => ?_⟩
    have hxl : xs[l]? = some xs[l] := List.getElem?_eq_getElem (by omega)
    obtain ⟨y'', hy'', -, hsame', -⟩ := hgrows l _ hxl
    rw [hy'] at hy''
    cases hy''
    exact hsame'.trans (hlater l _ hl hli hxl)

/-- With one goal more, all are settled once the one accepted last is. -/
theorem settled_grows {xs ys : List (GoalExchange P Q)} (hgrows : Grows xs ys)
    (hsettled : Settled xs) (hlength : ys.length = xs.length + 1)
    (hlast : ∀ i, LastAccepted ys i → ∃ y, ys[i]? = some y ∧ y.result ≠ none) : Settled ys := by
  intro y hy haccepted
  obtain ⟨i, hi⟩ := List.mem_iff_getElem?.mp hy
  obtain ⟨hlt, -⟩ := List.getElem?_eq_some_iff.mp hi
  by_cases hnew : i = xs.length
  · -- the goal just sent is then the one accepted last
    have hi' : LastAccepted ys i := by
      refine ⟨by simp [hi, haccepted], fun j hj => ?_⟩
      rw [List.getElem?_eq_none (by rw [List.length_map]; omega)]
      exact nofun
    obtain ⟨y', hy', hresult⟩ := hlast i hi'
    rw [hi] at hy'
    cases hy'
    exact hresult
  · have hold : xs[i]? = some xs[i] := List.getElem?_eq_getElem (by omega)
    obtain ⟨y', hy', -, hsame, hkept⟩ := hgrows i _ hold
    rw [hi] at hy'
    cases hy'
    obtain ⟨status, hstatus⟩ := Option.ne_none_iff_exists'.mp
      (hsettled _ (List.mem_of_getElem? hold) (hsame.symm.trans haccepted))
    rw [hkept status hstatus]
    exact nofun

theorem getResult_succeeded (n : BasicNavigator P Q) :
    (n.getResult == .succeeded) = true ↔ n.status = some .succeeded := by
  unfold BasicNavigator.getResult
  split <;> simp_all

/-- A navigation adds one exchange, leaves all of them settled, and reports whether the goal
accepted last has succeeded. -/
theorem navThroughPose_spec {n n' : BasicNavigator P Q} {poses : List P} {call : NavCall}
    {result : Bool} (hn : NavTracked n) (hsettled : Settled n.exchanges)
    (h : navThroughPose n poses call = some (n', result)) :
    NavTracked n' ∧ Settled n'.exchanges ∧ n'.exchanges.length = n.exchanges.length + 1 ∧
      Grows n.exchanges n'.exchanges ∧
      (result = true ↔ LastSucceeded n'.exchanges n.exchanges.length) := by
  obtain ⟨n1, hwait, hout⟩ := Option.map_eq_some_iff.mp h
  cases hout
  have hsend := hn.sendGoal (.navigateThroughPoses poses "") call.accepted call.whileSending
  obtain ⟨htracked, haccepted, hgrows, hlast⟩ := waitForTask_spec call.rounds _ n' hsend hwait
  have hsent := sendGoal_eq n (.navigateThroughPoses poses "") call.accepted call.whileSending
  rw [hsent] at haccepted hgrows
  have hlength : n'.exchanges.length = n.exchanges.length + 1 := by
    have hmap := congrArg List.length haccepted
    simpa using hmap
  have hbefore := ((n.spinUntil_grows call.whileSending).trans (grows_append _ _)).trans hgrows
  have hsettled' : Settled n'.exchanges := settled_grows hbefore hsettled hlength fun i hi => by
    obtain ⟨x, hx, hresult, -⟩ := hlast i hi
    exact ⟨x, hx, hresult⟩
  refine ⟨htracked, hsettled', hlength, hbefore, ?_⟩
  rw [lastSucceeded_length hlength.symm, getResult_succeeded]
  constructor
  · intro hstatus
    obtain ⟨x, hx, hxaccepted, -⟩ := htracked.status _ hstatus
    obtain ⟨i, hi⟩ := exists_lastAccepted hx hxaccepted
    obtain ⟨y, hy, -, hsame⟩ := hlast i hi
    exact ⟨i, y, hi, hy, hsame.symm.trans hstatus⟩
  · rintro ⟨i, x, hi, hx, hxresult⟩
    obtain ⟨y, hy, -, hsame⟩ := hlast i hi
    rw [hx] at hy
    cases hy
    exact hsame.trans hxresult

/-- The loop ends exactly if the result of the future is there or arrives. -/
theorem waitForTask_isSome (rounds : List Arrivals) (n : BasicNavigator P Q) (i : Nat)
    (x : GoalExchange P Q) (hi : n.resultFuture = some i) (hx : n.exchanges[i]? = some x)
    (haccepted : x.accepted = true) : (n.waitForTask rounds).isSome = true ↔
      rounds ≠ [] ∧ (x.result = none → ∃ status, (i, status) ∈ rounds.flatten) := by
  induction rounds generalizing n x with
  | nil => exact ⟨nofun, fun h => absurd rfl h.1⟩
  | cons arrivals rest ih =>
    rw [BasicNavigator.waitForTask]
    unfold BasicNavigator.isTaskComplete
    simp only [hi]
    cases hresult : x.result with
    | some status =>
      obtain ⟨y, hy, -, -, hkept⟩ := n.spinUntil_grows arrivals i x hx
      have hdone : (n.spinUntil arrivals).futureResult i = some status := by
        simp [BasicNavigator.futureResult, hy, hkept status hresult]
      simp [hdone]
    | none =>
      have hfirst := n.futureResult_spinUntil arrivals hx haccepted hresult
      cases hfind : arrivals.find? fun r => r.1 == i with
      | some r =>
        rw [hfind, Option.map_some] at hfirst
        have hmem := List.mem_of_find?_eq_some hfind
        have hr : r.1 = i := by simpa using List.find?_some hfind
        simp only [hfirst, Option.isSome_some, true_iff]
        refine ⟨List.cons_ne_nil _ _, fun _ => ⟨r.2, ?_⟩⟩
        rw [List.flatten_cons, List.mem_append]
        exact Or.inl (by rwa [← hr])
      | none =>
        rw [hfind, Option.map_none] at hfirst
        have hnone : ∀ status, (i, status) ∉ arrivals := fun status hmem => by
          simpa using List.find?_eq_none.mp hfind _ hmem
        obtain ⟨y, hy, -, hsame, -⟩ := n.spinUntil_grows arrivals i x hx
        have hynone : y.result = none := by
          rw [BasicNavigator.futureResult, hy] at hfirst
          exact hfirst
        have hrest := ih (n.spinUntil arrivals) y hi hy (hsame.trans haccepted)
        simp only [hfirst, hrest, List.flatten_cons, List.mem_append, hnone, false_or, hynone]
        constructor
        · rintro ⟨-, harrives⟩
          exact ⟨List.cons_ne_nil _ _, harrives⟩
        · rintro ⟨-, harrives⟩
          obtain ⟨status, hmem⟩ := harrives trivial
          exact ⟨fun hnil => by simp [hnil] at hmem, harrives⟩

theorem navThroughPose_isSome {n : BasicNavigator P Q} (hn : NavTracked n)
    (hsettled : Settled n.exchanges) (poses : List P) (call : NavCall) :
    (navThroughPose n poses call).isSome = true ↔ call.rounds ≠ [] ∧
      (call.accepted = true → ∃ status, (n.exchanges.length, status) ∈ call.rounds.flatten) := by
  have hsent := sendGoal_eq n (.navigateThroughPoses poses "") call.accepted call.whileSending
  have hsend := hn.sendGoal (.navigateThroughPoses poses "") call.accepted call.whileSending
  unfold navThroughPose BasicNavigator.goThroughPoses
  rw [Option.isSome_map]
  generalize (n.sendGoal (.navigateThroughPoses poses "") call.accepted call.whileSending).1 = n1
    at hsent hsend
  cases hfuture : n1.resultFuture with
  | none =>
    cases haccepted : call.accepted with
    | true =>
      rw [hsent, haccepted] at hfuture
      cases hfuture
    | false =>
      cases call.rounds with
      | nil => simp [BasicNavigator.waitForTask]
      | cons arrivals rest =>
        simp [BasicNavigator.waitForTask, BasicNavigator.isTaskComplete, hfuture]
  | some i =>
    obtain ⟨x, hx, hxaccepted⟩ := hsend.pending hfuture
    rw [waitForTask_isSome call.rounds n1 i x hfuture hx hxaccepted]
    cases haccepted : call.accepted with
    | true =>
      -- the future is that of the goal just sent
      rw [hsent, haccepted, if_pos rfl] at hfuture
      cases hfuture
      have hnew : x.result = none := by
        rw [hsent, ← n.spinUntil_length call.whileSending, List.getElem?_concat_length] at hx
        cases hx
        rfl
      simp [hnew]
    | false =>
      -- it is an older one, and that is settled
      rw [hsent, haccepted, if_neg Bool.false_ne_true] at hfuture
      obtain ⟨y, hy, hyaccepted⟩ := hn.pending hfuture
      obtain ⟨status, hstatus⟩ :=
        Option.ne_none_iff_exists'.mp (hsettled y (List.mem_of_getElem? hy) hyaccepted)
      have hgrows := (n.spinUntil_grows call.whileSending).trans
        (grows_append _ [{ goal := .navigateThroughPoses poses "", accepted := call.accepted }])
      obtain ⟨z, hz, -, -, hkept⟩ := hgrows i y hy
      rw [hsent] at hx
      rw [hx] at hz
      cases hz
      simp [hkept status hstatus]

end

end AgvPro
