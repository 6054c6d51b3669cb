import AgvPro.Base.Services

/-!
# Replies among telemetry

While auto-report is on, a reply stands behind any number of telemetry frames, and
`read_serial_response` hunts for its header through their bytes.  A header that starts in
one frame and ends in the next does not exist (`quiet_append`), so the reply is found
unless a telemetry frame contains `FE FE 0B c` in its sensor bytes:

    the reply is returned and nothing behind it read ↔ no telemetry frame holds the header
                                                                   (framesReply_iff)
-/

namespace AgvPro

open Window

/-! ## Frame seams -/

/-- The events hold no reply header of `c`. -/
def Quiet (c : UInt8) (rx : List RxEvent) : Prop := ¬ onWire (replyHeader c) <:+: rx

/-- Next comes nothing, an error, or the `FE FE` of a frame. -/
inductive Boundary : List RxEvent → Prop
  | nil : Boundary []
  | error (rx : List RxEvent) : Boundary (.error :: rx)
  | frame (rx : List RxEvent) : Boundary (.byte 0xFE :: .byte 0xFE :: rx)

theorem quiet_onWire (c : UInt8) (bs : List UInt8) :
    Quiet c (onWire bs) ↔ ¬ replyHeader c <:+: bs := by
  refine not_congr ⟨?_, ?_⟩
  · rintro ⟨s, t, hst⟩
    obtain ⟨bs1, bs2, rfl, hbs1, -⟩ := List.map_eq_append_iff.mp hst.symm
    obtain ⟨bs3, bs4, rfl, -, hbs4⟩ := List.map_eq_append_iff.mp hbs1
    rw [onWire_injective _ _ hbs4]
    exact List.infix_append _ _ _
  · rintro ⟨s, t, rfl⟩
    rw [onWire_append, onWire_append]
    exact List.infix_append _ _ _

theorem quiet_short (c : UInt8) (bs : List UInt8) (h : bs.length < 4) : Quiet c (onWire bs) := by
  intro hin
  have := hin.length_le
  simp at this
  omega

/-- No header straddles a seam: its second half would begin with `FE`. -/
theorem quiet_append {c : UInt8} (hc : c ≠ 0xFE) {as bs : List RxEvent} (ha : Quiet c as)
    (hb : Quiet c bs) (hstart : Boundary bs) : Quiet c (as ++ bs) := by
  intro h
  rcases List.infix_append_iff_ne_nil.mp h with h | h | ⟨l1, l2, hl1, hl2, he, -, hp⟩
  · exact ha h
  · exact hb h
  · have hmem : ∀ e ∈ l2, e ∈ onWire (replyHeader c) := by
      intro e hm
      rw [he]
      exact List.mem_append_right l1 hm
    cases hstart with
    | nil => exact hl2 (List.prefix_nil.mp hp)
    | error rx =>
      cases l2 with
      | nil => exact hl2 rfl
      | cons e l2 =>
        rw [(List.cons_prefix_cons.mp hp).1] at hmem
        simpa [onWire] using hmem .error List.mem_cons_self
    | frame rx =>
      -- `l2` is `FE 0B c`, `0B c` or `c`, and a prefix of `FE FE …`
      rcases l1 with _ | ⟨a, _ | ⟨b, _ | ⟨d, _ | ⟨e, l1⟩⟩⟩⟩
      · exact hl1 rfl
      · simp [replyHeader] at he
        rw [← he.2] at hp
        simp at hp
      · simp [replyHeader] at he
        rw [← he.2.2] at hp
        simp at hp
      · simp [replyHeader] at he
        rw [← he.2.2.2] at hp
        simp [hc] at hp
      · simp [replyHeader] at he
        exact hl2 he.2.2.2.2.2

/-- Behind quiet bytes the header of a reply is the first one. -/
theorem firstEnd_header {c : UInt8} (hc : c ≠ 0xFE) (u : List UInt8) (hu : Quiet c (onWire u)) :
    FirstEnd (replyHeader c) (u ++ replyHeader c) := by
  refine firstEnd_append (replyHeader_ne_nil _) ((quiet_onWire c _).mp ?_)
  rw [onWire_append]
  exact quiet_append hc hu (quiet_short c _ (by simp)) (.frame _)

theorem frameAt_reply (r : ReplyFrame) (hc : r.cmd ≠ 0xFE) (u : List UInt8)
    (hu : Quiet r.cmd (onWire u)) (rest : List RxEvent) :
    FrameAt (replyHeader r.cmd) 8 (onWire (u ++ r.bytes) ++ rest) r.bytes rest :=
  ⟨u ++ replyHeader r.cmd, r.tail, firstEnd_header hc u hu, r.length_tail, r.bytes_eq,
    by rw [r.bytes_eq, List.append_assoc]⟩

theorem boundary_telemetry (t : TelemetryFrame) (rx : List RxEvent) :
    Boundary (onWire t.bytes ++ rx) :=
  .frame _

theorem quiet_telemetry {c : UInt8} (hc : c ≠ 0xFE) (ts : List TelemetryFrame) :
    Quiet c (onWire (ts.flatMap TelemetryFrame.bytes)) ↔
      ∀ t ∈ ts, ¬ replyHeader c <:+: t.bytes := by
  constructor
  · intro h t ht hin
    apply (quiet_onWire c _).mp h
    obtain ⟨ts1, ts2, rfl⟩ := List.append_of_mem ht
    refine hin.trans ⟨ts1.flatMap TelemetryFrame.bytes, ts2.flatMap TelemetryFrame.bytes, ?_⟩
    simp
  · intro h
    induction ts with
    | nil => exact quiet_short c [] (by simp)
    | cons t ts ih =>
      have hts := ih fun t' ht' => h t' (List.mem_cons_of_mem t ht')
      rw [List.flatMap_cons, onWire_append]
      refine quiet_append hc ((quiet_onWire c _).mpr (h t List.mem_cons_self)) hts ?_
      cases ts with
      | nil => exact .nil
      | cons t' ts =>
        rw [List.flatMap_cons, onWire_append]
        exact boundary_telemetry t' _

/-! ## Framing -/

/-- On telemetry frames, the reply and anything behind it, in time and without an error
up to there, the reader returns the reply and leaves what is behind it. -/
def FramesReply (ts : List TelemetryFrame) (r : ReplyFrame) : Prop :=
  ∀ (timeout : Int) (p : Port) (rest : List RxEvent), p.isOpen = true →
    InTime timeout p.clock → p.rx = onWire (ts.flatMap TelemetryFrame.bytes ++ r.bytes) ++ rest →
    ∃ p', readSerialResponse (replyHeader r.cmd) 8 timeout p = .done r.bytes p' ∧ p'.rx = rest

theorem cmdId_ne_fe (req : ServiceRequest) : req.cmdId ≠ 0xFE := by
  cases req with
  | setDigitalOutput _ => exact (by decide : setOutputIo ≠ 0xFE)
  | getDigitalInput _ => exact (by decide : getInputIo ≠ 0xFE)
  | setLedColor _ => exact (by decide : setLedColor ≠ 0xFE)
  | setLedMode _ => exact (by decide : setLedMode ≠ 0xFE)

/-- **Framing** holds of exactly the telemetry that does not hold the header. -/
theorem framesReply_iff (req : ServiceRequest) (ts : List TelemetryFrame) (r : ReplyFrame)
    (hr : r.cmd = req.cmdId) :
    FramesReply ts r ↔ ∀ t ∈ ts, ¬ replyHeader req.cmdId <:+: t.bytes := by
  have hc : r.cmd ≠ 0xFE := hr ▸ cmdId_ne_fe req
  rw [← hr, ← quiet_telemetry hc]
  constructor
  · intro h
    by_contra hin
    obtain ⟨pre, ⟨post, hpost⟩, hend⟩ :=
      exists_firstEnd (not_not.mp (mt (quiet_onWire r.cmd _).mpr hin))
    -- the frame read there ends before the reply does
    let p : Port := .ready (onWire (ts.flatMap TelemetryFrame.bytes ++ r.bytes))
    have hframe : FrameAt (replyHeader r.cmd) 8 p.rx
        (replyHeader r.cmd ++ (post ++ r.bytes).take 10) (onWire ((post ++ r.bytes).drop 10)) := by
      refine ⟨pre, (post ++ r.bytes).take 10, hend, by simp, rfl, ?_⟩
      rw [← onWire_append, List.append_assoc, List.take_append_drop, ← List.append_assoc, hpost]
      exact Port.ready_rx _
    obtain ⟨p1, h1, hrx1⟩ :=
      readSerialResponse_complete (replyHeader_ne_nil _) rfl inTime_still hframe
    obtain ⟨p2, h2, hrx2⟩ := h (seconds 5) p [] rfl inTime_still (List.append_nil _).symm
    rw [h1] at h2
    obtain rfl := (Result.done.inj h2).2
    have := congrArg List.length (hrx1.symm.trans hrx2)
    simp at this
  · intro h timeout p rest hopen hclock hrx
    have hframe := frameAt_reply r hc _ h rest
    rw [← hrx] at hframe
    exact readSerialResponse_complete (replyHeader_ne_nil _) hopen hclock hframe

/-- Pitch -2.58° and yaw 28.81° are the bytes `FE FE 0B 41`. -/
def tiltedTelemetry : TelemetryFrame := ⟨List.replicate 21 0 ++ [0xFE, 0xFE, 0x0B, 0x41], rfl⟩

/-- Input 1 is high. -/
def inputReplyFrame : ReplyFrame := ⟨getInputIo, [1, 1, 0, 0, 0, 0, 0, 0], rfl⟩

/-- The telemetry is read as the reply to `GetDigitalInput`. -/
theorem not_framesReply_tilted : ¬ FramesReply [tiltedTelemetry] inputReplyFrame := by
  intro h
  have hvalue : (readSerialResponse (replyHeader getInputIo) 8 (seconds 5)
      (.ready (onWire (tiltedTelemetry.bytes ++ inputReplyFrame.bytes)))).value? ≠
        some inputReplyFrame.bytes := by
    decide +kernel
  obtain ⟨p', hres, -⟩ := h (seconds 5)
    (.ready (onWire (tiltedTelemetry.bytes ++ inputReplyFrame.bytes))) [] rfl inTime_still (by simp)
  exact hvalue (congrArg Result.value? hres)

/-- One frame of telemetry at rest before the reply. -/
theorem framesReply_iff_rest : FramesReply [⟨List.replicate 25 0, rfl⟩] inputReplyFrame ↔
    ∀ t ∈ [(⟨List.replicate 25 0, rfl⟩ : TelemetryFrame)],
      ¬ replyHeader (ServiceRequest.getDigitalInput ⟨1⟩).cmdId <:+: t.bytes :=
  framesReply_iff (.getDigitalInput ⟨1⟩) _ inputReplyFrame rfl

end AgvPro
