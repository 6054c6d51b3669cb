import AgvPro.Base.Node
import AgvPro.Drive.Axes
import AgvPro.Lib.Run
import AgvPro.Lib.Topic

/-!
# From a publisher of `/cmd_vel` to the wire

A node publishes Twists, the driver turns those it receives into velocity frames and hands
them to `write`, which may fail.  Messages wait in between, and one that is overtaken may be
lost; meanwhile the driver answers services, publishes odometry, or waits for the device.

    the driver's part of a run is one of the driver, a Twist at each delivery  (driver_exec)
    the velocity frames are a part of what was published, in order      (velocities_sublist)
    with nothing in flight, the last of them is the last Twist          (last_velocity)
    without losses, they are where what was published begins            (velocities_begin)
-/

namespace AgvPro

open Run

/-! ## Model -/

/-- A node that publishes Twists, and takes none back. -/
structure Publisher (σ α : Type) where
  step : σ → α → Option σ
  published : σ → List Twist
  grows : ∀ s a s', step s a = some s' → ∃ more, published s' = published s ++ more

structure Chain (σ K : Type) where
  publisher : σ
  topic : Topic Twist
  node : Node K

inductive ChainEvent (α : Type) where
  | publisher (e : α)
  | lose (k : Nat)
  | deliver (m : Meeting)
  | node (e : NodeEvent) (m : Meeting)

/-- The events of the publisher among them. -/
def publisherEvents {α : Type} (es : List (ChainEvent α)) : List α :=
  es.filterMap fun e => match e with
    | .publisher e => some e
    | _ => none

/-- What the driver meets at each delivery. -/
def deliveries {α : Type} (es : List (ChainEvent α)) : List Meeting :=
  es.filterMap fun e => match e with
    | .deliver m => some m
    | _ => none

namespace Chain

section
variable {σ α K : Type} [Field K] (p : Publisher σ α) (t : Trig K)

def launch (s : σ) (q : Parameters) (start : SerialStart) (m : Meeting) : Chain σ K :=
  ⟨s, Topic.empty.publish (p.published s), .launch q start m⟩

/-- Nobody else publishes Twists. -/
def step (s : Chain σ K) : ChainEvent α → Option (Chain σ K)
  | .publisher e => (p.step s.publisher e).map fun publisher =>
    { s with
      publisher := publisher
      topic := s.topic.publish
        ((p.published publisher).drop (p.published s.publisher).length) }
  | .lose k => (s.topic.lose k).map fun topic => { s with topic := topic }
  | .deliver m => s.topic.receive.bind fun (msg, topic) =>
    (s.node.step t (.cmdVel msg, m)).map fun node => { s with topic := topic, node := node }
  | .node (.cmdVel _) _ => none
  | .node e m => (s.node.step t (e, m)).map fun node => { s with node := node }

end

/-! ## How the parts are joined -/

/-- All that was published was sent, and all that was received was handed to `write`. -/
structure Joined {σ α K : Type} (p : Publisher σ α) (s : Chain σ K) : Prop where
  sent : s.topic.sent = p.published s.publisher
  handed : s.node.velocities.map Transmit.frame = s.topic.received.map cmdFrame

/-- The last velocity frame handed to `write`, if any, is a stop.  It went out whole if the
port is open and that write, of the last Twist delivered, did not throw. -/
def StopsLast {α K : Type} (start : SerialStart) (es : List (ChainEvent α)) (n : Node K) : Prop :=
  ∀ w, n.velocities.getLast? = some w →
    (w.frame = cmdFrame {} ∧ ∀ i : Axis, i.field w.frame = 0) ∧
    (w.sent = 14 ↔ start ≠ .openFailed ∧
      ∃ m, (deliveries es).getLast? = some m ∧ m.throwsAt 0 = none)

section
variable {σ α K : Type} [Field K] {p : Publisher σ α} {t : Trig K}

theorem velocities_stepped {n n' : Node K} {e : NodeEvent × Meeting} (h : n.step t e = some n') :
    n'.velocities = n.velocities ++ (commands [e]).map (velocityTransmit n.isOpen) := by
  unfold Node.velocities
  rw [(Node.stepped h).tx, List.filter_append, velocities_event]

/-- A callback that is no command. -/
theorem step_node {s s' : Chain σ K} {e : NodeEvent} {m : Meeting}
    (h : s.step p t (.node e m) = some s') :
    ∃ node, s.node.step t (e, m) = some node ∧ s' = { s with node := node } ∧
      commands [(e, m)] = [] := by
  cases e with
  | cmdVel msg => cases h
  | service req =>
    obtain ⟨node, hnode, rfl⟩ := Option.map_eq_some_iff.mp h
    exact ⟨node, hnode, rfl, rfl⟩
  | timer =>
    obtain ⟨node, hnode, rfl⟩ := Option.map_eq_some_iff.mp h
    exact ⟨node, hnode, rfl, rfl⟩
  | destroy =>
    obtain ⟨node, hnode, rfl⟩ := Option.map_eq_some_iff.mp h
    exact ⟨node, hnode, rfl, rfl⟩

theorem joined_launch (s : σ) (q : Parameters) (start : SerialStart) (m : Meeting) :
    Joined p (launch (K := K) p s q start m) := by
  obtain ⟨startup, hstartup, htx⟩ := (Node.launched (K := K) q start m).startup
  refine ⟨rfl, ?_⟩
  show ((Node.launch q start m : Node K).tx.filter _).map Transmit.frame = []
  rw [htx, velocities_startup hstartup]
  rfl

theorem joined_step (s : Chain σ K) (e : ChainEvent α) (s' : Chain σ K) (hs : Joined p s)
    (h : s.step p t e = some s') : Joined p s' := by
  cases e with
  | publisher e =>
    obtain ⟨publisher, hstep, rfl⟩ := Option.map_eq_some_iff.mp h
    obtain ⟨more, hmore⟩ := p.grows _ _ _ hstep
    refine ⟨?_, hs.handed⟩
    show s.topic.sent ++ (p.published publisher).drop _ = p.published publisher
    rw [hs.sent, hmore, List.drop_left]
  | lose k =>
    obtain ⟨topic, hlose, rfl⟩ := Option.map_eq_some_iff.mp h
    obtain ⟨hsent, hreceived⟩ := Topic.lose_spec hlose
    exact ⟨hsent.trans hs.sent, hs.handed.trans (by rw [hreceived])⟩
  | deliver m =>
    obtain ⟨⟨msg, topic⟩, hreceive, h⟩ := Option.bind_eq_some_iff.mp h
    obtain ⟨node, hnode, rfl⟩ := Option.map_eq_some_iff.mp h
    obtain ⟨hsent, hreceived, -⟩ := Topic.receive_spec hreceive
    refine ⟨hsent.trans hs.sent, ?_⟩
    show node.velocities.map Transmit.frame = topic.received.map cmdFrame
    rw [velocities_stepped hnode, List.map_append, hs.handed, hreceived, List.map_append]
    rfl
  | node e m =>
    obtain ⟨node, hnode, rfl, hnone⟩ := step_node h
    refine ⟨hs.sent, ?_⟩
    show node.velocities.map Transmit.frame = s.topic.received.map cmdFrame
    rw [velocities_stepped hnode, hnone, List.map_nil, List.append_nil, hs.handed]

/-- The publisher's part of a run is a run of the publisher. -/
theorem publisher_exec (es : List (ChainEvent α)) (s s' : Chain σ K)
    (h : exec (step p t) es s = some s') :
    exec p.step (publisherEvents es) s.publisher = some s'.publisher := by
  induction es generalizing s with
  | nil =>
    cases h
    rfl
  | cons e es ih =>
    obtain ⟨s1, h1, h2⟩ := exec_cons h
    have hrest := ih s1 h2
    cases e with
    | publisher e =>
      obtain ⟨publisher, hstep, rfl⟩ := Option.map_eq_some_iff.mp h1
      show (p.step s.publisher e).bind _ = _
      rw [hstep]
      exact hrest
    | lose k =>
      obtain ⟨topic, -, rfl⟩ := Option.map_eq_some_iff.mp h1
      exact hrest
    | deliver m =>
      obtain ⟨⟨msg, topic⟩, -, h1⟩ := Option.bind_eq_some_iff.mp h1
      obtain ⟨node, -, rfl⟩ := Option.map_eq_some_iff.mp h1
      exact hrest
    | node e m =>
      obtain ⟨node, -, rfl, -⟩ := step_node h1
      exact hrest

/-- The driver's part of a run is a run of the driver, that gets a Twist at each delivery. -/
theorem driver_exec (es : List (ChainEvent α)) (s s' : Chain σ K)
    (h : exec (step p t) es s = some s') :
    ∃ ns, exec (Node.step t) ns s.node = some s'.node ∧
      s'.topic.received = s.topic.received ++ (commands ns).map Prod.fst ∧
      (commands ns).map Prod.snd = deliveries es := by
  induction es generalizing s with
  | nil =>
    cases h
    exact ⟨[], rfl, (List.append_nil _).symm, rfl⟩
  | cons e es ih =>
    obtain ⟨s1, h1, h2⟩ := exec_cons h
    obtain ⟨ns, hns, hreceived, hmeetings⟩ := ih s1 h2
    cases e with
    | publisher e =>
      obtain ⟨publisher, -, rfl⟩ := Option.map_eq_some_iff.mp h1
      exact ⟨ns, hns, hreceived, hmeetings⟩
    | lose k =>
      obtain ⟨topic, hlose, rfl⟩ := Option.map_eq_some_iff.mp h1
      exact ⟨ns, hns, hreceived.trans (by rw [(Topic.lose_spec hlose).2]), hmeetings⟩
    | deliver m =>
      obtain ⟨⟨msg, topic⟩, hreceive, h1⟩ := Option.bind_eq_some_iff.mp h1
      obtain ⟨node, hnode, rfl⟩ := Option.map_eq_some_iff.mp h1
      refine ⟨(.cmdVel msg, m) :: ns, Option.bind_eq_some_iff.mpr ⟨node, hnode, hns⟩, ?_, ?_⟩
      · rw [hreceived, (Topic.receive_spec hreceive).2.1, List.append_assoc]
        rfl
      · exact congrArg (m :: ·) hmeetings
    | node e m =>
      obtain ⟨node, hnode, rfl, hnone⟩ := step_node h1
      have hcommands : commands ((e, m) :: ns) = commands ns := by
        rw [← List.singleton_append, commands, List.filterMap_append]
        exact congrArg (· ++ commands ns) hnone
      refine ⟨(e, m) :: ns, Option.bind_eq_some_iff.mpr ⟨node, hnode, hns⟩, ?_, ?_⟩
      · rw [hcommands]
        exact hreceived
      · rw [hcommands]
        exact hmeetings

end

section
variable {σ α K : Type} [Field K] {p : Publisher σ α} {t : Trig K} {s0 : σ} {q : Parameters}
  {start : SerialStart} {m : Meeting} {es : List (ChainEvent α)} {s : Chain σ K}

theorem joined (h : exec (step p t) es (launch p s0 q start m) = some s) : Joined p s :=
  always joined_step es _ s (joined_launch s0 q start m) h

theorem velocities_sublist (h : exec (step p t) es (launch p s0 q start m) = some s) :
    (s.node.velocities.map Transmit.frame).Sublist
      ((p.published s.publisher).map cmdFrame) := by
  have hjoined := joined h
  rw [hjoined.handed, ← hjoined.sent]
  exact ((List.sublist_append_left _ _).trans s.topic.sublist).map cmdFrame

/-- With nothing in flight the last velocity frame is the last Twist's, and its write was
that of the last delivery. -/
theorem last_velocity (h : exec (step p t) es (launch p s0 q start m) = some s)
    (harrived : s.topic.inFlight = []) {w : Transmit}
    (hlast : s.node.velocities.getLast? = some w) :
    ∃ msg m', (p.published s.publisher).getLast? = some msg ∧ (deliveries es).getLast? = some m' ∧
      w = velocityTransmit (start != .openFailed) (msg, m') := by
  obtain ⟨ns, hns, hreceived, hmeetings⟩ := driver_exec es _ s h
  rw [velocities_life hns, List.getLast?_map] at hlast
  obtain ⟨⟨msg, m'⟩, hcommand, rfl⟩ := Option.map_eq_some_iff.mp hlast
  refine ⟨msg, m', ?_, ?_, rfl⟩
  · have hstart : (launch (K := K) p s0 q start m).topic.received = [] := rfl
    rw [← (joined h).sent, ← Topic.last_received harrived, hreceived, hstart, List.nil_append,
      List.getLast?_map, hcommand]
    rfl
  · rw [← hmeetings, List.getLast?_map, hcommand]
    rfl

/-- Where no delivery's write fails, every velocity frame goes out whole. -/
theorem velocities_whole (h : exec (step p t) es (launch p s0 q start m) = some s)
    (hport : start ≠ .openFailed) (hnone : ∀ m' ∈ deliveries es, m'.throwsAt 0 = none) :
    ∀ w ∈ s.node.velocities, w.sent = 14 := by
  obtain ⟨ns, hns, -, hmeetings⟩ := driver_exec es _ s h
  rw [velocities_life hns]
  intro w hw
  obtain ⟨c, hc, rfl⟩ := List.mem_map.mp hw
  rw [velocityTransmit_whole]
  exact ⟨hport, hnone c.2 (hmeetings ▸ List.mem_map_of_mem hc)⟩

/-- A publisher that ends with a stop stops the robot, if the write does not fail. -/
theorem stop_of_last (h : exec (step p t) es (launch p s0 q start m) = some s)
    (harrived : s.topic.inFlight = []) (hstop : (p.published s.publisher).getLast?.getD {} = {}) :
    StopsLast start es s.node := by
  intro w hlast
  obtain ⟨msg, m', hmsg, hm', rfl⟩ := last_velocity h harrived hlast
  rw [hmsg, Option.getD_some] at hstop
  subst hstop
  refine ⟨⟨rfl, field_stop⟩, ?_⟩
  rw [velocityTransmit_whole, hm']
  simp

theorem lossless_exec (hlose : ∀ k, .lose k ∉ es) (s s' : Chain σ K) (hs : s.topic.Lossless)
    (h : exec (step p t) es s = some s') : s'.topic.Lossless := by
  induction es generalizing s with
  | nil =>
    cases h
    exact hs
  | cons e es ih =>
    obtain ⟨s1, h1, h2⟩ := exec_cons h
    refine ih (fun k hk => hlose k (List.mem_cons_of_mem e hk)) s1 ?_ h2
    cases e with
    | publisher e =>
      obtain ⟨publisher, -, rfl⟩ := Option.map_eq_some_iff.mp h1
      exact hs.publish _
    | lose k => exact absurd List.mem_cons_self (hlose k)
    | deliver m =>
      obtain ⟨⟨msg, topic⟩, hreceive, h1⟩ := Option.bind_eq_some_iff.mp h1
      obtain ⟨node, -, rfl⟩ := Option.map_eq_some_iff.mp h1
      exact hs.receive hreceive
    | node e m =>
      obtain ⟨node, -, rfl, -⟩ := step_node h1
      exact hs

theorem velocities_begin (hlose : ∀ k, .lose k ∉ es)
    (h : exec (step p t) es (launch p s0 q start m) = some s) :
    s.node.velocities.map Transmit.frame <+: (p.published s.publisher).map cmdFrame := by
  have hjoined := joined h
  have hlossless := lossless_exec hlose (launch p s0 q start m) s rfl h
  rw [hjoined.handed, ← hjoined.sent]
  exact hlossless.begins.map cmdFrame

end

end Chain

end AgvPro
