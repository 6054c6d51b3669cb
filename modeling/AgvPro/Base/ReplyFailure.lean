import AgvPro.Base.Services

/-!
# Handlers and failed reads

A read that fails gives the handler an empty vector.  `is_power_on` tests the size of what
it gets; the four handlers take byte `statusAt` of it at once.  So a handler is safe on
exactly the ports where no read of its call fails: the whole reply is there in time, or the
line falls silent for good and the call never returns.

    the handler is safe ↔ it refuses the request, Answered or Silent   (safe_iff)
-/

namespace AgvPro

/-! ## The handlers -/

/-- What `read_serial_response` gives the handler, after the command is written. -/
def responseFrame (req : ServiceRequest) (p : Port) : Result (List UInt8) :=
  readSerialResponse (replyHeader req.cmdId) 8 (seconds 5)
    (sendSerialFrame (buildSerialFrame req.cmdId req.payload) p)

/-- No index is past the end of the vector, and without a complete reply the handler still
returns, with a failure. -/
structure Safe (req : ServiceRequest) (p : Port) : Prop where
  inRange : ∀ i n, (handle req p).value? ≠ some (.outOfRange i n)
  fails : ∀ v, (responseFrame req p).value? = some v → v.length ≠ 14 →
    ∃ resp, (handle req p).value? = some (.returned resp) ∧ resp.success = false

theorem responseFrame_length {req : ServiceRequest} {p p' : Port} {v : List UInt8}
    (h : responseFrame req p = .done v p') (hv : v ≠ []) : v.length = 14 :=
  (readSerialResponse_sound (replyHeader_ne_nil _) h hv).length

theorem value?_handle (req : ServiceRequest) (p : Port) (hr : req.rejects = false) :
    (handle req p).value? = (responseFrame req p).value?.map fun v =>
      match v[req.statusAt]? with
      | some status => .returned (req.reply status)
      | none => .outOfRange req.statusAt v.length := by
  rw [handle_of_accepts req p hr]
  unfold callService responseFrame
  cases readSerialResponse (replyHeader req.cmdId) 8 (seconds 5)
    (sendSerialFrame (buildSerialFrame req.cmdId req.payload) p) <;> rfl

/-- An accepted request is safe unless the read fails. -/
theorem safe_of_accepts (req : ServiceRequest) (p : Port) (hr : req.rejects = false) :
    Safe req p ↔ (∃ v p', responseFrame req p = .done v p' ∧ v ≠ []) ∨
      ∃ p', responseFrame req p = .blocked p' := by
  have hvalue := value?_handle req p hr
  cases hread : responseFrame req p with
  | blocked p' =>
    rw [hread] at hvalue
    refine iff_of_true ⟨fun i n h => ?_, fun v h => ?_⟩ (Or.inr ⟨p', rfl⟩)
    · rw [hvalue] at h
      cases h
    · rw [hread] at h
      cases h
  | done v p' =>
    rw [hread] at hvalue
    by_cases hv : v = []
    · subst hv
      refine iff_of_false (fun h => h.inRange req.statusAt 0 hvalue) ?_
      rintro (⟨v, p'', h, hne⟩ | ⟨p'', h⟩)
      · exact hne (Result.done.inj h).1.symm
      · cases h
    · have hlen := responseFrame_length hread hv
      have hat : req.statusAt < v.length := hlen ▸ statusAt_lt req
      refine iff_of_true ⟨fun i n h => ?_, fun w h hw => ?_⟩ (Or.inl ⟨v, p', rfl, hv⟩)
      · rw [hvalue] at h
        simp [Result.value?, List.getElem?_eq_getElem hat] at h
      · rw [hread] at h
        exact absurd (Option.some.inj h ▸ hlen) hw

/-- **Safety** of a handler: it refuses the request, gets the whole reply, or waits. -/
theorem safe_iff (req : ServiceRequest) (p : Port) :
    Safe req p ↔ req.rejects = true ∨ Answered (replyHeader req.cmdId) 8 (seconds 5) p ∨
      Silent (replyHeader req.cmdId) 8 (seconds 5) p := by
  cases hr : req.rejects with
  | true =>
    obtain ⟨resp, hres, hfail, -⟩ := handle_of_rejects req p hr
    refine iff_of_true ⟨fun i n h => ?_, fun _ _ _ => ⟨resp, ?_, hfail⟩⟩ (Or.inl rfl)
    · rw [hres] at h
      cases h
    · rw [hres]
      rfl
  | false =>
    have hne := replyHeader_ne_nil req.cmdId
    rw [safe_of_accepts req p hr, or_iff_right Bool.false_ne_true]
    -- the write moves nothing that reading sees
    exact or_congr
      (readSerialResponse_answered_iff _ _ _
        (sendSerialFrame (buildSerialFrame req.cmdId req.payload) p) hne)
      (readSerialResponse_silent_iff _ _ _
        (sendSerialFrame (buildSerialFrame req.cmdId req.payload) p) hne)

/-- The services stay up on a port that never opened: byte 4 of an empty vector. -/
theorem not_safe_closed : ¬ ∀ (req : ServiceRequest) (p : Port), Safe req p := by
  intro h
  have hsafe := h (.setLedMode ⟨true⟩) { answeringPort with isOpen := false }
  exact hsafe.inRange 4 0 (by decide +kernel)

end AgvPro
