import AgvPro.Drive.Wire
import Mathlib.Algebra.Order.BigOperators.GroupWithZero.List

/-!
# Driving by keyboard: `teleop_twist_keyboard`

A key sets the direction or scales the speeds; every key, and the end, publishes a Twist.
Python's floats are exact numbers here.  With `stamped` the messages are TwistStamped, which
the driver does not take.

    a speed is the least of what its start and each cap leave after the factors
      that follow                                                       (le_speed_iff)
    no velocity frame leaves the speed limits, and the last one is a stop
      once the program has ended                                        (wire_teleop)
-/

namespace AgvPro

open Run

/-! ## Model -/

def moveBindings : Char → Option (ℚ × ℚ × ℚ × ℚ)
  | 'i' => some (1, 0, 0, 0)
  | 'o' => some (1, 0, 0, -1)
  | 'j' => some (0, 0, 0, 1)
  | 'l' => some (0, 0, 0, -1)
  | 'u' => some (1, 0, 0, 1)
  | ',' => some (-1, 0, 0, 0)
  | '.' => some (-1, 0, 0, 1)
  | 'm' => some (-1, 0, 0, -1)
  | 'O' => some (1, -1, 0, 0)
  | 'I' => some (1, 0, 0, 0)
  | 'J' => some (0, 1, 0, 0)
  | 'L' => some (0, -1, 0, 0)
  | 'U' => some (1, 1, 0, 0)
  | '<' => some (-1, 0, 0, 0)
  | '>' => some (-1, -1, 0, 0)
  | 'M' => some (-1, 1, 0, 0)
  | 't' => some (0, 0, 1, 0)
  | 'b' => some (0, 0, -1, 0)
  | _ => none

def speedBindings : Char → Option (ℚ × ℚ)
  | 'q' => some (11/10, 11/10)
  | 'z' => some (9/10, 9/10)
  | 'w' => some (11/10, 1)
  | 'x' => some (9/10, 1)
  | 'e' => some (1, 11/10)
  | 'c' => some (1, 9/10)
  | _ => none

structure TeleopParams where
  stamped : Bool := false
  frame_id : String := ""
  speed : ℚ := 1/4
  turn : ℚ := 1/2
  speed_limit : ℚ := 3/2
  turn_limit : ℚ := 3/2

structure Teleop where
  speed : ℚ
  turn : ℚ
  x : ℚ := 0
  y : ℚ := 0
  z : ℚ := 0
  th : ℚ := 0
  published : List Twist := []
  running : Bool := true

/-- A key read, none at the end of the input, or an exception. -/
inductive TeleopEvent where
  | key (key : Option Char)
  | raise

namespace Teleop

/-- The exception comes before the try block. -/
def start (p : TeleopParams) : Except String Teleop :=
  if !p.stamped && p.frame_id ≠ "" then
    .error "'frame_id' can only be set when 'stamped' is True"
  else .ok { speed := p.speed, turn := p.turn }

/-- The end of a round of the loop. -/
def publish (s : Teleop) : Teleop :=
  let twist : Twist := ⟨⟨s.x * s.speed, s.y * s.speed, s.z * s.speed⟩, ⟨0, 0, s.th * s.turn⟩⟩
  { s with published := s.published ++ [twist] }

/-- The finally block. -/
def finish (s : Teleop) : Teleop := { s with published := s.published ++ [{}], running := false }

def step (p : TeleopParams) (s : Teleop) : TeleopEvent → Option Teleop
  | .raise => if s.running then some s.finish else none
  | .key key =>
    if !s.running then none
    else match key.bind moveBindings with
      | some (x, y, z, th) => some { s with x := x, y := y, z := z, th := th }.publish
      | none => match key.bind speedBindings with
        | some (linear, angular) =>
          some { s with
            speed := min p.speed_limit (s.speed * linear)
            turn := min p.turn_limit (s.turn * angular) }.publish
        | none =>
          let s := { s with x := 0, y := 0, z := 0, th := 0 }
          some (if key = some '\x03' then s.finish else s.publish)

end Teleop

/-! ## One key -/

theorem moveBindings_le {key : Char} {x y z th : ℚ} (h : moveBindings key = some (x, y, z, th)) :
    |x| ≤ 1 ∧ |y| ≤ 1 ∧ |z| ≤ 1 ∧ |th| ≤ 1 := by
  unfold moveBindings at h
  split at h <;> cases h <;> norm_num

theorem speedBindings_pos {key : Char} {linear angular : ℚ}
    (h : speedBindings key = some (linear, angular)) : 0 < linear ∧ 0 < angular := by
  unfold speedBindings at h
  split at h <;> cases h <;> norm_num

/-- What an event makes of a running program. -/
inductive Teleop.Stepped (p : TeleopParams) (s : Teleop) : TeleopEvent → Teleop → Prop
  | moved (key : Char) (x y z th : ℚ) (hkey : moveBindings key = some (x, y, z, th)) :
      s.Stepped p (.key (some key)) { s with x := x, y := y, z := z, th := th }.publish
  | scaled (key : Char) (linear angular : ℚ) (hkey : speedBindings key = some (linear, angular)) :
      s.Stepped p (.key (some key))
        { s with
          speed := min p.speed_limit (s.speed * linear)
          turn := min p.turn_limit (s.turn * angular) }.publish
  | halted (key : Option Char) (hkey : key.bind speedBindings = none) :
      s.Stepped p (.key key) { s with x := 0, y := 0, z := 0, th := 0 }.publish
  | ended (key : Option Char) (hkey : key.bind speedBindings = none) :
      s.Stepped p (.key key) { s with x := 0, y := 0, z := 0, th := 0 }.finish
  | raised : s.Stepped p .raise s.finish

theorem Teleop.stepped {p : TeleopParams} {s s' : Teleop} {e : TeleopEvent}
    (h : s.step p e = some s') : s.running = true ∧ s.Stepped p e s' := by
  cases e with
  | raise =>
    simp only [step] at h
    split at h
    · rename_i hrunning
      cases h
      exact ⟨hrunning, .raised⟩
    · cases h
  | key key =>
    simp only [step] at h
    split at h
    · cases h
    · rename_i hrunning
      refine ⟨by simpa using hrunning, ?_⟩
      split at h
      · rename_i x y z th hmove
        cases h
        obtain ⟨c, rfl, hc⟩ := Option.bind_eq_some_iff.mp hmove
        exact .moved c x y z th hc
      · split at h
        · rename_i linear angular hspeed
          cases h
          obtain ⟨c, rfl, hc⟩ := Option.bind_eq_some_iff.mp hspeed
          exact .scaled c linear angular hc
        · rename_i hspeed
          cases h
          split
          · exact .ended key hspeed
          · exact .halted key hspeed

/-! ## The speeds -/

/-- What is left of a product that is cut to a limit behind every factor. -/
theorem le_capped_iff (limit b : ℚ) (fs : List ℚ) (start : ℚ) (hpos : ∀ f ∈ fs, 0 < f) :
    b ≤ fs.foldl (fun s f => min limit (s * f)) start ↔ b ≤ start * fs.prod ∧
      ∀ before f after, fs = before ++ f :: after → b ≤ limit * after.prod := by
  induction fs generalizing start with
  | nil => simp
  | cons f fs ih =>
    have hrest : ∀ f ∈ fs, 0 < f := fun f hf => hpos f (List.mem_cons_of_mem _ hf)
    have hprod : 0 ≤ fs.prod := (List.prod_pos hrest).le
    rw [List.foldl_cons, ih _ hrest, min_mul_of_nonneg _ _ hprod, le_min_iff, mul_assoc,
      ← List.prod_cons]
    constructor
    · rintro ⟨⟨hlimit, hstart⟩, hlater⟩
      refine ⟨hstart, fun before g after hsplit => ?_⟩
      cases before with
      | nil =>
        cases hsplit
        exact hlimit
      | cons g' before =>
        obtain ⟨rfl, htail⟩ := List.cons.inj hsplit
        exact hlater before g after htail
    · rintro ⟨hstart, hlater⟩
      exact ⟨⟨hlater [] f fs rfl, hstart⟩, fun before g after hsplit =>
        hlater (f :: before) g after (by rw [hsplit]; rfl)⟩

/-- The factors of the speed keys among the events. -/
def factors (part : ℚ × ℚ → ℚ) (es : List TeleopEvent) : List ℚ :=
  es.filterMap fun e => match e with
    | .key (some key) => (speedBindings key).map part
    | _ => none

theorem factors_cons (part : ℚ × ℚ → ℚ) (e : TeleopEvent) (es : List TeleopEvent) :
    factors part (e :: es) = factors part [e] ++ factors part es :=
  List.filterMap_append (l := [e])

theorem factors_pos (es : List TeleopEvent) :
    (∀ f ∈ factors Prod.fst es, 0 < f) ∧ ∀ f ∈ factors Prod.snd es, 0 < f := by
  have hkey : ∀ part : ℚ × ℚ → ℚ, ∀ f ∈ factors part es,
      ∃ key scale, speedBindings key = some scale ∧ part scale = f := by
    intro part f hf
    obtain ⟨e, -, he⟩ := List.mem_filterMap.mp hf
    split at he
    · exact ⟨_, Option.map_eq_some_iff.mp he⟩
    · cases he
  constructor
  · intro f hf
    obtain ⟨key, scale, hscale, rfl⟩ := hkey Prod.fst f hf
    exact (speedBindings_pos hscale).1
  · intro f hf
    obtain ⟨key, scale, hscale, rfl⟩ := hkey Prod.snd f hf
    exact (speedBindings_pos hscale).2

section
variable {p : TeleopParams}

/-- A key that moves is none that scales. -/
theorem speedBindings_of_move {key : Char} {v : ℚ × ℚ × ℚ × ℚ}
    (h : moveBindings key = some v) : speedBindings key = none := by
  unfold moveBindings at h
  split at h <;> first | rfl | cases h

theorem speeds_step {s s' : Teleop} {e : TeleopEvent} (h : s.step p e = some s') :
    s'.speed = (factors Prod.fst [e]).foldl (fun s f => min p.speed_limit (s * f)) s.speed ∧
      s'.turn = (factors Prod.snd [e]).foldl (fun s f => min p.turn_limit (s * f)) s.turn := by
  cases (Teleop.stepped h).2 with
  | moved key x y z th hkey =>
    simp [factors, speedBindings_of_move hkey, Teleop.publish]
  | scaled key linear angular hkey => simp [factors, hkey, Teleop.publish]
  | halted key hkey =>
    cases key with
    | none => exact ⟨rfl, rfl⟩
    | some key => simp [factors, show speedBindings key = none from hkey, Teleop.publish]
  | ended key hkey =>
    cases key with
    | none => exact ⟨rfl, rfl⟩
    | some key => simp [factors, show speedBindings key = none from hkey, Teleop.finish]
  | raised => exact ⟨rfl, rfl⟩

theorem speeds_exec (es : List TeleopEvent) (s s' : Teleop)
    (h : exec (Teleop.step p) es s = some s') :
    s'.speed = (factors Prod.fst es).foldl (fun s f => min p.speed_limit (s * f)) s.speed ∧
      s'.turn = (factors Prod.snd es).foldl (fun s f => min p.turn_limit (s * f)) s.turn := by
  induction es generalizing s with
  | nil =>
    cases h
    exact ⟨rfl, rfl⟩
  | cons e es ih =>
    obtain ⟨s1, h1, h2⟩ := exec_cons h
    obtain ⟨hspeed, hturn⟩ := speeds_step h1
    obtain ⟨hspeed', hturn'⟩ := ih s1 h2
    rw [factors_cons Prod.fst, factors_cons Prod.snd, List.foldl_append, List.foldl_append,
      ← hspeed, ← hturn]
    exact ⟨hspeed', hturn'⟩

/-- **How the speed keys compose.**  A speed is the largest number that lies below its start
times all factors and, for every press of a speed key, below its limit times the factors that
follow: what a press would have gone beyond the limit is lost, and nothing else. -/
theorem le_speed_iff (es : List TeleopEvent) (s s' : Teleop)
    (h : exec (Teleop.step p) es s = some s') (b : ℚ) :
    (b ≤ s'.speed ↔ b ≤ s.speed * (factors Prod.fst es).prod ∧
      ∀ before f after, factors Prod.fst es = before ++ f :: after →
        b ≤ p.speed_limit * after.prod) ∧
    (b ≤ s'.turn ↔ b ≤ s.turn * (factors Prod.snd es).prod ∧
      ∀ before f after, factors Prod.snd es = before ++ f :: after →
        b ≤ p.turn_limit * after.prod) := by
  obtain ⟨hspeed, hturn⟩ := speeds_exec es s s' h
  obtain ⟨hfst, hsnd⟩ := factors_pos es
  rw [hspeed, hturn]
  exact ⟨le_capped_iff p.speed_limit b _ s.speed hfst, le_capped_iff p.turn_limit b _ s.turn hsnd⟩

/-- Faster, ahead, faster, and slower again; the first two presses meet the limit. -/
def scaling : List TeleopEvent :=
  [.key (some 'q'), .key (some 'i'), .key (some 'w'), .key (some 'z'), .key none]

/-- The speed from before is not reached any more. -/
theorem le_speed_iff_scaling : ∃ s', exec (Teleop.step { speed := 7/5 }) scaling
    { speed := 7/5, turn := 1/2 } = some s' ∧ ¬ 7/5 ≤ s'.speed := by
  obtain ⟨s', h⟩ := Option.isSome_iff_exists.mp
    (show (exec (Teleop.step { speed := 7/5 }) scaling { speed := 7/5, turn := 1/2 }).isSome
      from rfl)
  refine ⟨s', h, fun hle => ?_⟩
  obtain ⟨-, hlimit⟩ := ((le_speed_iff scaling _ s' h (7/5)).1).mp hle
  have hcut := hlimit [11/10] (11/10) [9/10] rfl
  norm_num at hcut

/-! ## On the wire -/

/-- What a speed never exceeds: it may start above its limit. -/
def TeleopParams.top (p : TeleopParams) : Axis → ℚ
  | .x => max p.speed p.speed_limit
  | .y => max p.speed p.speed_limit
  | .theta => max p.turn p.turn_limit

/-- The speeds, the directions and all that was published are within their bounds, and an
ended program has published a stop last. -/
structure Moderate (p : TeleopParams) (s : Teleop) : Prop where
  speed : 0 ≤ s.speed ∧ s.speed ≤ max p.speed p.speed_limit
  turn : 0 ≤ s.turn ∧ s.turn ≤ max p.turn p.turn_limit
  direction : |s.x| ≤ 1 ∧ |s.y| ≤ 1 ∧ |s.th| ≤ 1
  published : ∀ msg ∈ s.published, ∀ i : Axis, |msg.axis i| ≤ p.top i
  ended : s.running = false → s.published.getLast?.getD {} = {}

/-- The parameters as they make sense. -/
structure TeleopParams.Nonneg (p : TeleopParams) : Prop where
  speed : 0 ≤ p.speed
  turn : 0 ≤ p.turn
  speed_limit : 0 ≤ p.speed_limit
  turn_limit : 0 ≤ p.turn_limit

theorem scaled_bounds {limit start speed factor : ℚ} (hlimit : 0 ≤ limit) (hfactor : 0 < factor)
    (h : 0 ≤ speed ∧ speed ≤ max start limit) :
    0 ≤ min limit (speed * factor) ∧ min limit (speed * factor) ≤ max start limit :=
  ⟨le_min hlimit (mul_nonneg h.1 hfactor.le), (min_le_left _ _).trans (le_max_right _ _)⟩

theorem abs_direction_mul {d speed top : ℚ} (hd : |d| ≤ 1) (h : 0 ≤ speed ∧ speed ≤ top) :
    |d * speed| ≤ top := by
  rw [abs_mul, abs_of_nonneg h.1]
  exact (mul_le_of_le_one_left h.1 hd).trans h.2

theorem Moderate.publish {s : Teleop} (h : Moderate p s) (hrunning : s.running = true) :
    Moderate p s.publish where
  speed := h.speed
  turn := h.turn
  direction := h.direction
  published := fun msg hmsg i => by
    rcases List.mem_append.mp hmsg with hmsg | hmsg
    · exact h.published msg hmsg i
    · rw [List.mem_singleton.mp hmsg]
      cases i with
      | x => exact abs_direction_mul h.direction.1 h.speed
      | y => exact abs_direction_mul h.direction.2.1 h.speed
      | theta => exact abs_direction_mul h.direction.2.2 h.turn
  ended := fun hended => by
    have hsame : s.publish.running = s.running := rfl
    rw [hsame, hrunning] at hended
    cases hended

theorem Moderate.finish {s : Teleop} (h : Moderate p s) (hp : p.Nonneg) :
    Moderate p s.finish where
  speed := h.speed
  turn := h.turn
  direction := h.direction
  published := fun msg hmsg i => by
    rcases List.mem_append.mp hmsg with hmsg | hmsg
    · exact h.published msg hmsg i
    · rw [List.mem_singleton.mp hmsg, axis_stop, abs_zero]
      cases i with
      | x => exact hp.speed.trans (le_max_left _ _)
      | y => exact hp.speed.trans (le_max_left _ _)
      | theta => exact hp.turn.trans (le_max_left _ _)
  ended := fun _ => by
    show (s.published ++ [({} : Twist)]).getLast?.getD {} = {}
    rw [List.getLast?_concat]
    rfl

theorem moderate_step (hp : p.Nonneg) (s : Teleop) (e : TeleopEvent) (s' : Teleop)
    (hs : Moderate p s) (h : s.step p e = some s') : Moderate p s' := by
  obtain ⟨hrunning, hstepped⟩ := Teleop.stepped h
  have hzero : |(0 : ℚ)| ≤ 1 := by norm_num
  have hhalted : Moderate p { s with x := 0, y := 0, z := 0, th := 0 } :=
    ⟨hs.speed, hs.turn, ⟨hzero, hzero, hzero⟩, hs.published, hs.ended⟩
  cases hstepped with
  | moved key x y z th hkey =>
    obtain ⟨hx, hy, -, hth⟩ := moveBindings_le hkey
    exact Moderate.publish ⟨hs.speed, hs.turn, ⟨hx, hy, hth⟩, hs.published, hs.ended⟩ hrunning
  | scaled key linear angular hkey =>
    obtain ⟨hlinear, hangular⟩ := speedBindings_pos hkey
    exact Moderate.publish ⟨scaled_bounds hp.speed_limit hlinear hs.speed,
      scaled_bounds hp.turn_limit hangular hs.turn, hs.direction, hs.published, hs.ended⟩ hrunning
  | halted key hkey => exact hhalted.publish hrunning
  | ended key hkey => exact hhalted.finish hp
  | raised => exact hs.finish hp

theorem moderate_start (hp : p.Nonneg) {s : Teleop} (h : Teleop.start p = .ok s) :
    Moderate p s := by
  unfold Teleop.start at h
  split at h
  · cases h
  · cases h
    exact ⟨⟨hp.speed, le_max_left _ _⟩, ⟨hp.turn, le_max_left _ _⟩, by norm_num, nofun, nofun⟩

theorem teleop_append {s s' : Teleop} {e : TeleopEvent} (h : s.step p e = some s') :
    ∃ more, s'.published = s.published ++ more := by
  cases (Teleop.stepped h).2 with
  | moved key x y z th hkey => exact ⟨_, rfl⟩
  | scaled key linear angular hkey => exact ⟨_, rfl⟩
  | halted key hkey => exact ⟨_, rfl⟩
  | ended key hkey => exact ⟨_, rfl⟩
  | raised => exact ⟨_, rfl⟩

/-- Stamped messages do not reach a driver that takes plain Twists. -/
def Teleop.publisher (p : TeleopParams) : Publisher Teleop TeleopEvent where
  step := Teleop.step p
  published := fun s => if p.stamped then [] else s.published
  grows := fun s e s' h => by
    split
    · exact ⟨[], rfl⟩
    · exact teleop_append h

theorem mem_plain {p : TeleopParams} {s : Teleop} {msg : Twist}
    (h : msg ∈ (Teleop.publisher p).published s) : msg ∈ s.published := by
  change msg ∈ (if p.stamped then [] else s.published) at h
  split at h
  · cases h
  · exact h

theorem last_plain {p : TeleopParams} {s : Teleop} (h : s.published.getLast?.getD {} = {}) :
    ((Teleop.publisher p).published s).getLast?.getD {} = {} := by
  change (if p.stamped then [] else s.published).getLast?.getD {} = {}
  split
  · rfl
  · exact h

/-- **Driving by keyboard.**  With parameters that are not negative, stamped or not, whatever
is typed and however messages and callbacks interleave: no field of a velocity frame handed
to `write` exceeds what the start and the limit of its speed allow, and once the program has
ended, by key or by an exception, and its last message has arrived, the last of these frames
is a stop, whole unless its write fails. -/
theorem wire_teleop {K : Type} [Field K] {t : Trig K} {q : Parameters} {start : SerialStart}
    {m : Meeting} (hp : p.Nonneg) {s0 : Teleop}
    (hstart : Teleop.start p = .ok s0) (es : List (ChainEvent TeleopEvent)) (s : Chain Teleop K)
    (h : exec (Chain.step (Teleop.publisher p) t) es
      (.launch (Teleop.publisher p) s0 q start m) = some s) :
    (∀ w ∈ s.node.velocities, ∀ i : Axis,
      hundredths (-p.top i) (-i.bound) i.bound ≤ i.field w.frame ∧
        i.field w.frame ≤ hundredths (p.top i) (-i.bound) i.bound) ∧
    (s.publisher.running = false → s.topic.inFlight = [] → Chain.StopsLast start es s.node) := by
  have hmoderate : Moderate p s.publisher := always (moderate_step hp) _ s0 s.publisher
    (moderate_start hp hstart) (Chain.publisher_exec es _ s h)
  refine ⟨fun w hw i => ?_, fun hended harrived => ?_⟩
  · obtain ⟨msg, hmsg, hframe⟩ :=
      List.mem_map.mp ((Chain.velocities_sublist h).subset (List.mem_map_of_mem hw))
    obtain ⟨hlo, hhi⟩ := abs_le.mp (hmoderate.published msg (mem_plain hmsg) i)
    rw [← hframe, field_cmdFrame]
    exact ⟨hundredths_mono (neg_bound_le i) hlo, hundredths_mono (neg_bound_le i) hhi⟩
  · exact Chain.stop_of_last h harrived (last_plain (hmoderate.ended hended))

/-- Ahead, faster, and the end of the program; one message is overtaken. -/
def typed : List (ChainEvent TeleopEvent) :=
  [.publisher (.key (some 'i')), .publisher (.key (some 'q')), .lose 0,
   .deliver (quietMeeting []), .publisher (.key (some '\x03')), .deliver (quietMeeting [])]

theorem wire_teleop_typed : ∃ s : Chain Teleop ℚ,
    s.node.velocities.length = 2 ∧
    (∀ w ∈ s.node.velocities, ∀ i : Axis,
      hundredths (-TeleopParams.top {} i) (-i.bound) i.bound ≤ i.field w.frame ∧
        i.field w.frame ≤ hundredths (TeleopParams.top {} i) (-i.bound) i.bound) ∧
    Chain.StopsLast .initialized typed s.node := by
  have hrun : (exec (Chain.step (Teleop.publisher {}) flatTrig) typed
      (.launch (Teleop.publisher {}) { speed := 1/4, turn := 1/2 } {} .initialized
        runningLaunch)).map
        (fun s => (s.publisher.running, s.topic.inFlight.length, s.node.velocities.length)) =
      some (false, 0, 2) := by
    decide +kernel
  obtain ⟨s, h, hfacts⟩ := Option.map_eq_some_iff.mp hrun
  obtain ⟨hended, hrest⟩ := Prod.mk.inj hfacts
  obtain ⟨harrived, hlength⟩ := Prod.mk.inj hrest
  have hnonneg : TeleopParams.Nonneg {} := by
    constructor <;> norm_num
  obtain ⟨hlimits, hlast⟩ := wire_teleop hnonneg rfl typed s h
  exact ⟨s, hlength, hlimits, hlast hended (List.eq_nil_of_length_eq_zero harrived)⟩

end

end AgvPro
