import AgvPro.Base.Power
import AgvPro.Base.ReplyFailure

/-!
# What the response timeout is worth

The deadline is tested between reads, and a read waits for a byte or an error, however long
that takes.  A call of `read_serial_response` comes back unless the line falls silent for
good while all its tests are in time; then it waits for ever.  `is_power_on` and the four
handlers wait where one of their reads does.

    a late test before the bytes run out  →  not Silent        (not_silent_of_talking)
    the timeout is effective ↔ the line does not fall silent in time     (effective_iff)
    with the callers                                                     (returns_iff)
-/

namespace AgvPro

open Window

/-- The call returns, and with nothing where the whole reply did not come in time. -/
def Effective (header : List UInt8) (n : Nat) (timeout : Int) (p : Port) : Prop :=
  ∃ v q, readSerialResponse header n timeout p = .done v q ∧
    (¬ Answered header n timeout p → v = [])

/-! ## Silence -/

/-- A device that goes on sending until a deadline test is late does not hold the call. -/
theorem not_silent_of_talking {header : List UInt8} {n : Nat} {timeout : Int} {p : Port} {i : Nat}
    (hlate : ¬ p.clock (i + 1) - p.clock 0 < timeout) (hmany : i + n + 1 ≤ p.rx.length) :
    ¬ Silent header n timeout p := by
  rintro ⟨-, ⟨bs, hrx, -, hin⟩ | ⟨pre, tail, hrx, -, hlt, hin⟩⟩
  · rw [hrx, length_onWire] at hmany
    exact hlate (hin i (by omega))
  · rw [hrx, length_onWire, List.length_append] at hmany
    have hone : 1 ≤ reads (n + 2) p.split (n + 2) tail.length := by
      unfold reads
      rw [if_neg (by omega)]
      split
      · exact Nat.le_refl _
      · exact Nat.le_add_left _ _
    exact hlate (hin i (by omega))

/-- Whether a read returns at all. -/
theorem read_returns_iff (header : List UInt8) (n : Nat) (timeout : Int) (p : Port)
    (hne : header ≠ []) :
    (∃ v q, readSerialResponse header n timeout p = .done v q) ↔ ¬ Silent header n timeout p := by
  rw [← readSerialResponse_silent_iff _ _ _ _ hne]
  cases hread : readSerialResponse header n timeout p with
  | done v q => simp
  | blocked q => simp

theorem effective_iff (header : List UInt8) (n : Nat) (timeout : Int) (p : Port)
    (hne : header ≠ []) : Effective header n timeout p ↔ ¬ Silent header n timeout p := by
  rw [← read_returns_iff _ _ _ _ hne]
  constructor
  · rintro ⟨v, q, hread, -⟩
    exact ⟨v, q, hread⟩
  · rintro ⟨v, q, hread⟩
    refine ⟨v, q, hread, fun hunanswered => ?_⟩
    by_contra hv
    exact hunanswered ((readSerialResponse_answered_iff _ _ _ _ hne).mp ⟨v, q, hread, hv⟩)

/-! ## The callers -/

theorem handle_returns_iff (req : ServiceRequest) (p : Port) :
    (∃ out q, handle req p = .done out q) ↔
      req.rejects = true ∨ ¬ Silent (replyHeader req.cmdId) 8 (seconds 5) p := by
  cases hr : req.rejects with
  | true =>
    obtain ⟨resp, hres, -⟩ := handle_of_rejects req p hr
    exact iff_of_true ⟨_, _, hres⟩ (Or.inl rfl)
  | false =>
    have hread := read_returns_iff (replyHeader req.cmdId) 8 (seconds 5)
      (sendSerialFrame (buildSerialFrame req.cmdId req.payload) p) (replyHeader_ne_nil _)
    rw [or_iff_right Bool.false_ne_true, handle_of_accepts req p hr, callService]
    -- the write moves nothing that reading sees
    refine Iff.trans ?_ hread
    constructor
    · rintro ⟨out, q, h⟩
      obtain ⟨v, hv, -⟩ := Result.map_eq_done h
      exact ⟨v, q, hv⟩
    · rintro ⟨v, q, h⟩
      rw [h]
      exact ⟨_, _, rfl⟩

/-- The line falls silent in time under the query, or, where that is answered by a valid
status 0, under the command. -/
def PowerSilent (p : Port) : Prop :=
  Silent (replyHeader getPowerState) 8 (seconds 12) p ∨
    ∃ v q, AnsweredWith (replyHeader getPowerState) 8 (seconds 12) (askPowerState p) v q ∧
      replyStatus v = some 0 ∧ Silent (replyHeader powerOn) 8 (seconds 5) q

theorem isPowerOn_returns_iff (p : Port) :
    (∃ report q, isPowerOn p = .done report q) ↔ ¬ PowerSilent p := by
  have hfirst := readSerialResponse_silent_iff (replyHeader getPowerState) 8 (seconds 12)
    (askPowerState p) (replyHeader_ne_nil _)
  constructor
  · rintro ⟨report, q, hrun⟩ (hsilent | ⟨v, q1, hwith, hstatus, hsilent⟩)
    · obtain ⟨q', hblocked⟩ := hfirst.mpr hsilent
      simp only [isPowerOn, hblocked, Result.bind] at hrun
      cases hrun
    · obtain ⟨hread, -⟩ :=
        (readSerialResponse_returns_iff _ _ _ _ _ _ (replyHeader_ne_nil _)).mpr hwith
      obtain ⟨q', hblocked⟩ := (readSerialResponse_silent_iff (replyHeader powerOn) 8 (seconds 5)
        (sendPowerOn q1) (replyHeader_ne_nil _)).mpr hsilent
      simp only [isPowerOn, hread, Result.bind, hstatus, if_true, hblocked, Result.map] at hrun
      cases hrun
  · intro h
    have hrun := isPowerOn_run p
    generalize isPowerOn p = r at hrun
    cases hrun with
    | waiting q hread => exact absurd (Or.inl (hfirst.mp ⟨q, hread⟩)) h
    | refused v q hread hstatus => exact ⟨_, _, rfl⟩
    | running v q status hread hstatus hne => exact ⟨_, _, rfl⟩
    | commanded v q r hread hstatus hr =>
      obtain ⟨w, q', hread'⟩ := (read_returns_iff (replyHeader powerOn) 8 (seconds 5)
        (sendPowerOn q) (replyHeader_ne_nil _)).mpr fun hsilent =>
          h (Or.inr ⟨v, q, answeredWith_of_read hread hstatus, hstatus, hsilent⟩)
      rw [hread'] at hr
      exact ⟨_, _, hr⟩

/-- **The timeout** works in exactly the calls under which the line does not fall silent
while the tests are in time, and so for those who make them. -/
theorem returns_iff (header : List UInt8) (hne : header ≠ []) :
    (∀ n timeout p, Effective header n timeout p ↔ ¬ Silent header n timeout p) ∧
      (∀ req p, (∃ out q, handle req p = .done out q) ↔
        req.rejects = true ∨ ¬ Silent (replyHeader req.cmdId) 8 (seconds 5) p) ∧
      ∀ p, (∃ report q, isPowerOn p = .done report q) ↔ ¬ PowerSilent p :=
  ⟨fun n timeout p => effective_iff header n timeout p hne, handle_returns_iff,
    isPowerOn_returns_iff⟩

/-- A device that keeps sending noise is timed out: 20 bytes, a second each. -/
theorem returns_iff_noise :
    Effective (replyHeader getPowerState) 8 (seconds 12)
      ⟨⟨onWire (List.replicate 20 0), fun i => seconds i, fun _ => 1⟩, true, fun _ => none, []⟩ := by
  refine ((returns_iff (replyHeader getPowerState) (replyHeader_ne_nil _)).1 _ _ _).mpr ?_
  exact not_silent_of_talking (i := 11) (by decide) (by decide)

/-- An open line on which nothing ever comes; the clock goes on by a second a reading. -/
def silentPort : Port := ⟨⟨[], fun i => seconds i, fun _ => 1⟩, true, fun _ => none, []⟩

/-- It passes every deadline, and yet nothing returns. -/
theorem not_effective_silent :
    (¬ ∀ header n timeout (p : Port), header ≠ [] →
      (∃ i, ¬ p.clock i - p.clock 0 < timeout) → Effective header n timeout p) ∧
    (¬ ∀ p : Port, (∃ i, ¬ p.clock i - p.clock 0 < seconds 12) →
      ∃ report q, isPowerOn p = .done report q) ∧
    ¬ ∀ req (p : Port), (∃ i, ¬ p.clock i - p.clock 0 < seconds 5) →
      ∃ out q, handle req p = .done out q := by
  have hlate (k : Nat) : ¬ silentPort.clock k - silentPort.clock 0 < seconds k := by
    show ¬ seconds k - seconds (0 : Nat) < seconds k
    unfold seconds
    omega
  refine ⟨fun h => ?_, fun h => ?_, fun h => ?_⟩
  · obtain ⟨v, q, hread, -⟩ := h (replyHeader getPowerState) 8 (seconds 12) silentPort
      (replyHeader_ne_nil _) ⟨12, hlate 12⟩
    cases hread
  · obtain ⟨report, q, hrun⟩ := h silentPort ⟨12, hlate 12⟩
    cases hrun
  · obtain ⟨out, q, hrun⟩ := h (.setLedMode ⟨true⟩) silentPort ⟨5, hlate 5⟩
    cases hrun

end AgvPro
