import AgvPro.Base.Serial

/-!
# When `read_serial_response` returns a frame

The loops of `read_serial_response` test the deadline before every read, and a read may
find fewer bytes than it asks for.  `reads` counts the tests of the second loop, so that
what a call does can be said of the port alone.

    the call returns a frame ↔ Answered                     (readSerialResponse_answered_iff)
    which frame, and what it leaves                         (readSerialResponse_returns_iff)
    the call never returns ↔ Silent                         (readSerialResponse_silent_iff)
    no error, no timeout, enough bytes  →  the frame is returned   (readSerialResponse_complete)
-/

namespace AgvPro

open Window

/-! ## Deadlines -/

/-- The first `k` readings of the clock come before the deadline. -/
def InTimeFor (timeout start : Int) (k : Nat) (clock : Nat → Int) : Prop :=
  ∀ i < k, clock i - start < timeout

theorem inTimeFor_zero (timeout start : Int) (clock : Nat → Int) :
    InTimeFor timeout start 0 clock := fun _ h => absurd h (Nat.not_lt_zero _)

theorem inTimeFor_succ (timeout start : Int) (k : Nat) (clock : Nat → Int) :
    InTimeFor timeout start (k + 1) clock ↔
      clock 0 - start < timeout ∧ InTimeFor timeout start k fun i => clock (i + 1) :=
  Nat.forall_lt_succ_left

theorem inTimeFor_add (timeout start : Int) (j k : Nat) (clock : Nat → Int) :
    InTimeFor timeout start (j + k) clock ↔
      InTimeFor timeout start j clock ∧ InTimeFor timeout start k fun i => clock (i + j) := by
  constructor
  · intro h
    exact ⟨fun i hi => h i (by omega), fun i hi => h (i + j) (by omega)⟩
  · rintro ⟨hj, hk⟩ i hi
    rcases Nat.lt_or_ge i j with hlt | hge
    · exact hj i hlt
    · have hlate : clock (i - j + j) - start < timeout := hk (i - j) (by omega)
      rwa [Nat.sub_add_cancel hge] at hlate

/-- The deadline tests of the second loop, if `ready` of the `remain` bytes it wants are
there and then no more: one for each read, the last of which may find nothing. -/
def reads : Nat → (Nat → Nat) → Nat → Nat → Nat
  | 0, _, _, _ => 0
  | fuel + 1, split, remain, ready =>
    if remain = 0 then 0
    else if ready = 0 then 1
    else
      let taken := min (min remain (split 0) - 1) (ready - 1) + 1
      reads fuel (fun i => split (i + 1)) (remain - taken) (ready - taken) + 1

/-- The whole reply comes before any error and before any late clock reading. -/
def Answered (header : List UInt8) (n : Nat) (timeout : Int) (p : Port) : Prop :=
  p.isOpen = true ∧ ∃ pre tail rx', p.rx = onWire (pre ++ tail) ++ rx' ∧ FirstEnd header pre ∧
    tail.length = n + 2 ∧
    InTimeFor timeout (p.clock 0) (pre.length + reads (n + 2) p.split (n + 2) (n + 2))
      fun i => p.clock (i + 1)

/-- The same, with the reply `v` and the port `q` behind it. -/
def AnsweredWith (header : List UInt8) (n : Nat) (timeout : Int) (p : Port) (v : List UInt8)
    (q : Port) : Prop :=
  p.isOpen = true ∧ ∃ pre tail rx', p.rx = onWire (pre ++ tail) ++ rx' ∧ FirstEnd header pre ∧
    tail.length = n + 2 ∧
    InTimeFor timeout (p.clock 0) (pre.length + reads (n + 2) p.split (n + 2) (n + 2))
      (fun i => p.clock (i + 1)) ∧
    v = header ++ tail ∧
    q = { p with
      rx := rx'
      clock := fun i => p.clock (i + reads (n + 2) p.split (n + 2) (n + 2) + pre.length + 1)
      split := fun i => p.split (i + reads (n + 2) p.split (n + 2) (n + 2)) }

/-- The line falls silent before the reply is whole, with no error and no late reading. -/
def Silent (header : List UInt8) (n : Nat) (timeout : Int) (p : Port) : Prop :=
  p.isOpen = true ∧
    ((∃ bs, p.rx = onWire bs ∧ ¬ header <:+: bs ∧
        InTimeFor timeout (p.clock 0) (bs.length + 1) fun i => p.clock (i + 1)) ∨
      ∃ pre tail, p.rx = onWire (pre ++ tail) ∧ FirstEnd header pre ∧ tail.length < n + 2 ∧
        InTimeFor timeout (p.clock 0) (pre.length + reads (n + 2) p.split (n + 2) tail.length)
          fun i => p.clock (i + 1))

/-! ## The first loop -/

theorem awaitHeader_byte (header : List UInt8) (timeout start : Int) (split : Nat → Nat) (b : UInt8)
    (rx : List RxEvent) (clock : Nat → Int) (seen : List UInt8) (ht : clock 0 - start < timeout) :
    awaitHeader header timeout start true split (.byte b :: rx) clock (lastN header.length seen) =
      if header <:+ seen ++ [b] then .done header ⟨rx, fun i => clock (i + 1), split⟩
      else awaitHeader header timeout start true split rx (fun i => clock (i + 1))
        (lastN header.length (seen ++ [b])) := by
  rw [awaitHeader.eq_def]
  simp only [ht, if_true, Bool.not_true, Bool.false_eq_true, if_false, push_lastN]
  by_cases hw : header <:+ seen ++ [b]
  · rw [if_pos hw, if_pos ((lastN_eq_iff _ _).mpr hw), (lastN_eq_iff _ _).mpr hw]
  · rw [if_neg hw, if_neg (mt (lastN_eq_iff _ _).mp hw)]

theorem awaitHeader_late (header : List UInt8) (timeout start : Int) (isOpen : Bool)
    (split : Nat → Nat) (rx : List RxEvent) (clock : Nat → Int) (w : List UInt8)
    (ht : ¬ clock 0 - start < timeout) :
    awaitHeader header timeout start isOpen split rx clock w =
      .done w ⟨rx, fun i => clock (i + 1), split⟩ := by
  rw [awaitHeader.eq_def]
  simp only [ht, if_false]

/-- Where the header is on the line, the loop ends with it iff the clock stays in time. -/
theorem awaitHeader_found_iff (header : List UInt8) (timeout start : Int) (split : Nat → Nat)
    (pre : List UInt8) (rx : List RxEvent) (clock : Nat → Int) (seen : List UInt8) (l : Line)
    (hseen : ¬ header <:+ seen) (hend : FirstEnd header (seen ++ pre)) :
    awaitHeader header timeout start true split (onWire pre ++ rx) clock
        (lastN header.length seen) = .done header l ↔
      InTimeFor timeout start pre.length clock ∧
        l = ⟨rx, fun i => clock (i + pre.length), split⟩ := by
  induction pre generalizing clock seen with
  | nil =>
    rw [List.append_nil] at hend
    exact absurd hend.ends hseen
  | cons b pre ih =>
    rw [List.length_cons, inTimeFor_succ, onWire_cons, List.cons_append]
    by_cases ht : clock 0 - start < timeout
    · rw [awaitHeader_byte _ _ _ _ _ _ _ _ ht]
      by_cases hw : header <:+ seen ++ [b]
      · have hshort := hend.first (seen ++ [b]) (by simp) hw
        obtain rfl : pre = [] := by simpa using hshort
        simp [hw, ht, inTimeFor_zero, eq_comm]
      · rw [if_neg hw, ih _ _ hw (by simpa using hend)]
        simp only [ht, true_and, Nat.add_assoc]
    · rw [awaitHeader_late _ _ _ _ _ _ _ _ ht]
      refine iff_of_false (fun h => hseen ?_) (fun h => ht h.1.1)
      exact (lastN_eq_iff _ _).mp (LoopEnd.done.inj h).1

/-- Where no header is on the line, the loop waits iff the clock stays in time. -/
theorem awaitHeader_silent_iff (header : List UInt8) (timeout start : Int) (split : Nat → Nat)
    (bs : List UInt8) (clock : Nat → Int) (seen : List UInt8) (hno : ¬ header <:+: seen ++ bs) :
    awaitHeader header timeout start true split (onWire bs) clock (lastN header.length seen) =
      .blocked ↔ InTimeFor timeout start (bs.length + 1) clock := by
  induction bs generalizing clock seen with
  | nil =>
    rw [List.length_nil, inTimeFor_succ]
    by_cases ht : clock 0 - start < timeout
    · rw [awaitHeader.eq_def]
      simp [ht, inTimeFor_zero]
    · rw [awaitHeader_late _ _ _ _ _ _ _ _ ht]
      exact iff_of_false (fun h => LoopEnd.noConfusion h) (fun h => ht h.1)
  | cons b bs ih =>
    rw [List.length_cons, inTimeFor_succ, onWire_cons]
    by_cases ht : clock 0 - start < timeout
    · have hw : ¬ header <:+ seen ++ [b] := by
        rintro ⟨t, hcat⟩
        exact hno ⟨t, bs, by rw [hcat]; simp⟩
      rw [awaitHeader_byte _ _ _ _ _ _ _ _ ht, if_neg hw, ih _ _ (by simpa using hno)]
      exact (and_iff_right ht).symm
    · rw [awaitHeader_late _ _ _ _ _ _ _ _ ht]
      exact iff_of_false (fun h => LoopEnd.noConfusion h) (fun h => ht h.1)

/-! ## The second loop -/

theorem takeBytes_onWire (k : Nat) (cs : List UInt8) (rx : List RxEvent)
    (h : k ≤ cs.length ∨ rx = []) :
    takeBytes k (onWire cs ++ rx) = (cs.take k, onWire (cs.drop k) ++ rx) := by
  induction cs generalizing k with
  | nil =>
    cases k with
    | zero => cases rx <;> rfl
    | succ k =>
      obtain rfl := h.resolve_left (Nat.not_succ_le_zero k)
      rfl
  | cons c cs ih =>
    cases k with
    | zero => rfl
    | succ k =>
      simp only [onWire_cons, List.cons_append, takeBytes, List.take_succ_cons, List.drop_succ_cons]
      rw [ih k (h.imp_left Nat.le_of_succ_le_succ)]

theorem reads_chunk (fuel : Nat) (split : Nat → Nat) (remain ready : Nat) (hr : remain ≠ 0) :
    reads (fuel + 1) split remain (ready + 1) =
      reads fuel (fun i => split (i + 1)) (remain - (min (min remain (split 0) - 1) ready + 1))
        (ready - min (min remain (split 0) - 1) ready) + 1 := by
  simp only [reads, hr, Nat.add_sub_cancel, if_false, Nat.add_eq_zero_iff, Nat.one_ne_zero,
    and_false, Nat.add_sub_add_right]

/-- One round of the loop takes a chunk of what is there. -/
theorem fill_chunk (timeout start : Int) (fuel remain : Nat) (l : Line) (buf : List UInt8)
    (b : UInt8) (cs : List UInt8) (rx : List RxEvent) (hr : remain ≠ 0)
    (ht : l.clock 0 - start < timeout) (hrx : l.rx = onWire (b :: cs) ++ rx)
    (hcs : cs.length + 1 = remain ∨ rx = []) :
    fill timeout start true (fuel + 1) remain l buf =
      fill timeout start true fuel
        (remain - (min (min remain (l.split 0) - 1) cs.length + 1))
        ⟨onWire (cs.drop (min remain (l.split 0) - 1)) ++ rx, fun i => l.clock (i + 1),
          fun i => l.split (i + 1)⟩
        (buf ++ b :: cs.take (min remain (l.split 0) - 1)) := by
  have htake := takeBytes_onWire (min remain (l.split 0) - 1) cs rx
    (hcs.imp_left fun h => by omega)
  rw [fill, if_neg hr]
  simp only [ht, if_true, readSome, Bool.not_true, Bool.false_eq_true, if_false, hrx, onWire_cons,
    List.cons_append, htake, List.length_cons, List.length_take]

theorem fill_late (timeout start : Int) (fuel remain : Nat) (l : Line) (buf : List UInt8)
    (hr : remain ≠ 0) (ht : ¬ l.clock 0 - start < timeout) :
    fill timeout start true (fuel + 1) remain l buf =
      .done buf ⟨l.rx, fun i => l.clock (i + 1), l.split⟩ := by
  rw [fill, if_neg hr]
  simp only [ht, if_false]

/-- Where all the bytes are on the line, they are collected iff the clock stays in time. -/
theorem fill_full_iff (timeout start : Int) (fuel remain : Nat) (l : Line)
    (buf tail : List UInt8) (rx : List RxEvent) (hfuel : remain ≤ fuel)
    (hrx : l.rx = onWire tail ++ rx) (hlen : tail.length = remain) :
    (∃ l', fill timeout start true fuel remain l buf = .done (buf ++ tail) l') ↔
      InTimeFor timeout start (reads fuel l.split remain remain) l.clock := by
  induction fuel generalizing remain l buf tail with
  | zero =>
    obtain rfl := Nat.le_zero.mp hfuel
    obtain rfl := List.eq_nil_of_length_eq_zero hlen
    exact iff_of_true ⟨l, by simp [fill]⟩ (inTimeFor_zero _ _ _)
  | succ fuel ih =>
    cases tail with
    | nil =>
      obtain rfl : 0 = remain := hlen
      exact iff_of_true ⟨l, by simp [fill]⟩ (inTimeFor_zero _ _ _)
    | cons b cs =>
      rw [List.length_cons] at hlen
      have hr : remain ≠ 0 := by omega
      have hreads : reads (fuel + 1) l.split remain remain =
          reads (fuel + 1) l.split remain (cs.length + 1) := by rw [hlen]
      rw [hreads, reads_chunk _ _ _ _ hr, inTimeFor_succ]
      by_cases ht : l.clock 0 - start < timeout
      · rw [fill_chunk _ _ _ _ _ _ _ _ _ hr ht hrx (Or.inl hlen)]
        have hcat : buf ++ b :: cs = buf ++ b :: cs.take (min remain (l.split 0) - 1) ++
            cs.drop (min remain (l.split 0) - 1) := by simp
        rw [hcat, ih _ _ _ _ (by omega) rfl (by rw [List.length_drop]; omega)]
        simp only [ht, true_and]
        have hleft : cs.length - min (min remain (l.split 0) - 1) cs.length =
            remain - (min (min remain (l.split 0) - 1) cs.length + 1) := by omega
        rw [hleft]
      · rw [fill_late _ _ _ _ _ _ hr ht]
        refine iff_of_false ?_ (fun h => ht h.1)
        rintro ⟨l', h⟩
        have hbuf := congrArg List.length (LoopEnd.done.inj h).1
        simp at hbuf

/-- What the loop leaves on the line when it has collected all the bytes. -/
theorem fill_full_line (timeout start : Int) (fuel remain : Nat) (l l' : Line)
    (buf tail : List UInt8) (rx : List RxEvent) (hfuel : remain ≤ fuel)
    (hrx : l.rx = onWire tail ++ rx) (hlen : tail.length = remain)
    (h : fill timeout start true fuel remain l buf = .done (buf ++ tail) l') :
    l' = ⟨rx, fun i => l.clock (i + reads fuel l.split remain remain),
      fun i => l.split (i + reads fuel l.split remain remain)⟩ := by
  induction fuel generalizing remain l buf tail with
  | zero =>
    obtain rfl := Nat.le_zero.mp hfuel
    obtain rfl := List.eq_nil_of_length_eq_zero hlen
    obtain rfl : l = l' := (LoopEnd.done.inj h).2
    obtain rfl : l.rx = rx := hrx
    rfl
  | succ fuel ih =>
    cases tail with
    | nil =>
      obtain rfl : 0 = remain := hlen
      obtain rfl : l = l' := (LoopEnd.done.inj h).2
      obtain rfl : l.rx = rx := hrx
      rfl
    | cons b cs =>
      rw [List.length_cons] at hlen
      have hr : remain ≠ 0 := by omega
      have hreads : reads (fuel + 1) l.split remain remain =
          reads (fuel + 1) l.split remain (cs.length + 1) := by rw [hlen]
      rw [hreads, reads_chunk _ _ _ _ hr]
      by_cases ht : l.clock 0 - start < timeout
      · have hcat : buf ++ b :: cs = buf ++ b :: cs.take (min remain (l.split 0) - 1) ++
            cs.drop (min remain (l.split 0) - 1) := by simp
        have hleft : cs.length - min (min remain (l.split 0) - 1) cs.length =
            remain - (min (min remain (l.split 0) - 1) cs.length + 1) := by omega
        rw [fill_chunk _ _ _ _ _ _ _ _ _ hr ht hrx (Or.inl hlen), hcat] at h
        rw [ih _ _ _ _ (by omega) rfl (by rw [List.length_drop]; omega) h, hleft]
        rfl
      · rw [fill_late _ _ _ _ _ _ hr ht] at h
        have hbuf := congrArg List.length (LoopEnd.done.inj h).1
        simp at hbuf

/-- Where the line falls silent first, the loop waits iff the clock stays in time. -/
theorem fill_silent_iff (timeout start : Int) (fuel remain : Nat) (l : Line)
    (buf tail : List UInt8) (hfuel : remain ≤ fuel) (hrx : l.rx = onWire tail)
    (hlen : tail.length < remain) :
    fill timeout start true fuel remain l buf = .blocked ↔
      InTimeFor timeout start (reads fuel l.split remain tail.length) l.clock := by
  induction fuel generalizing remain l buf tail with
  | zero => omega
  | succ fuel ih =>
    have hr : remain ≠ 0 := by omega
    by_cases ht : l.clock 0 - start < timeout
    · cases tail with
      | nil =>
        simp [fill, reads, hr, ht, readSome, hrx, InTimeFor]
      | cons b cs =>
        rw [List.length_cons] at hlen ⊢
        rw [reads_chunk _ _ _ _ hr, inTimeFor_succ,
          fill_chunk _ _ _ _ _ _ b cs [] hr ht (by rw [hrx, List.append_nil]) (Or.inr rfl),
          ih _ _ _ (cs.drop (min remain (l.split 0) - 1)) (by omega) (List.append_nil _)
            (by rw [List.length_drop]; omega)]
        have hleft : cs.length - min (min remain (l.split 0) - 1) cs.length =
            (cs.drop (min remain (l.split 0) - 1)).length := by rw [List.length_drop]; omega
        simp only [ht, true_and, hleft]
    · rw [fill_late _ _ _ _ _ _ hr ht]
      refine iff_of_false (fun h => LoopEnd.noConfusion h) (fun h => ht ?_)
      apply h 0
      simp only [reads, hr, if_false]
      split_ifs <;> omega

/-! ## The call -/

/-- On a port that is not open no header is found, and nothing is waited for. -/
theorem awaitHeader_closed (header : List UInt8) (timeout start : Int) (split : Nat → Nat)
    (rx : List RxEvent) (clock : Nat → Int) (w : List UInt8) :
    awaitHeader header timeout start false split rx clock w =
      if clock 0 - start < timeout then .error ⟨rx, fun i => clock (i + 1), split⟩
      else .done w ⟨rx, fun i => clock (i + 1), split⟩ := by
  rw [awaitHeader.eq_def]
  simp

/-- The first loop of the call. -/
def awaitReply (header : List UInt8) (timeout : Int) (p : Port) : LoopEnd :=
  awaitHeader header timeout (p.clock 0) p.isOpen p.split p.rx (fun i => p.clock (i + 1)) []

/-- The second loop of the call, on the line the first one leaves. -/
def fillReply (n : Nat) (timeout : Int) (p : Port) (l : Line) : LoopEnd :=
  fill timeout (p.clock 0) p.isOpen (n + 2) (n + 2) l []

/-- The call, taken apart into its loops. -/
theorem readSerialResponse_eq (header : List UInt8) (n : Nat) (timeout : Int) (p : Port) :
    readSerialResponse header n timeout p =
      match awaitReply header timeout p with
      | .blocked => .blocked p
      | .error l => .done [] { p with toLine := l }
      | .done w l =>
        if w ≠ header then .done [] { p with toLine := l }
        else match fillReply n timeout p l with
          | .blocked => .blocked p
          | .error l => .done [] { p with toLine := l }
          | .done buf l =>
            if buf.length ≠ n + 2 then .done [] { p with toLine := l }
            else .done (header ++ buf) { p with toLine := l } := rfl

/-- A result that is not empty, taken apart into the two loops. -/
theorem readSerialResponse_frame_iff (header : List UInt8) (n : Nat) (timeout : Int) (p q : Port)
    (v : List UInt8) (hne : header ≠ []) :
    readSerialResponse header n timeout p = .done v q ∧ v ≠ [] ↔
      ∃ l buf l', awaitReply header timeout p = .done header l ∧
        fillReply n timeout p l = .done buf l' ∧ buf.length = n + 2 ∧ v = header ++ buf ∧
        q = { p with toLine := l' } := by
  rw [readSerialResponse_eq]
  cases awaitReply header timeout p with
  | error l => simp +contextual
  | blocked => simp
  | done w l =>
    by_cases hw : w = header
    · cases hfill : fillReply n timeout p l with
      | error l' => simp +contextual [hw, hfill]
      | blocked => simp [hw, hfill]
      | done buf l' =>
        by_cases hlen : buf.length = n + 2
        · simp +contextual [hw, hfill, hlen, hne, eq_comm]
        · simp +contextual [hw, hfill, hlen]
    · simp +contextual [hw]

theorem readSerialResponse_blocked_iff (header : List UInt8) (n : Nat) (timeout : Int) (p : Port) :
    (∃ p', readSerialResponse header n timeout p = .blocked p') ↔
      awaitReply header timeout p = .blocked ∨
        ∃ l, awaitReply header timeout p = .done header l ∧
          fillReply n timeout p l = .blocked := by
  rw [readSerialResponse_eq]
  cases awaitReply header timeout p with
  | error l => simp
  | blocked => simp
  | done w l =>
    by_cases hw : w = header
    · cases hfill : fillReply n timeout p l with
      | error l' => simp [hw, hfill]
      | blocked => simp [hw, hfill]
      | done buf l' =>
        by_cases hlen : buf.length = n + 2
        · simp [hw, hfill, hlen]
        · simp [hw, hfill, hlen]
    · simp [hw]

/-- What the first loop finds, it finds at the first occurrence, in time, on an open port. -/
theorem awaitReply_found_iff (header : List UInt8) (timeout : Int) (p : Port) (l : Line)
    (hne : header ≠ []) :
    awaitReply header timeout p = .done header l ↔ p.isOpen = true ∧
      ∃ pre rx, p.rx = onWire pre ++ rx ∧ FirstEnd header pre ∧
        InTimeFor timeout (p.clock 0) pre.length (fun i => p.clock (i + 1)) ∧
        l = ⟨rx, fun i => p.clock (i + pre.length + 1), p.split⟩ := by
  have hnil : ¬ header <:+ [] := fun h => hne (List.suffix_nil.mp h)
  constructor
  · intro h
    have hspec := awaitHeader_spec header timeout (p.clock 0) p.isOpen p.split p.rx
      (fun i => p.clock (i + 1)) [] (not_ends_nil hne)
    rw [lastN_nil] at hspec
    unfold awaitReply at h
    rw [h] at hspec
    obtain ⟨-, pre, hrx, hfound, -⟩ := hspec
    cases ho : p.isOpen with
    | false =>
      rw [ho, awaitHeader_closed] at h
      split_ifs at h
      exact absurd (LoopEnd.done.inj h).1.symm hne
    | true =>
      rw [ho, hrx, ← lastN_nil header.length,
        awaitHeader_found_iff _ _ _ _ _ _ _ _ _ hnil (hfound rfl)] at h
      exact ⟨rfl, pre, l.rx, hrx, hfound rfl, h⟩
  · rintro ⟨ho, pre, rx, hrx, hend, h⟩
    unfold awaitReply
    rw [ho, hrx, ← lastN_nil header.length,
      awaitHeader_found_iff _ _ _ _ _ _ _ _ _ hnil (by simpa using hend)]
    exact h

theorem awaitReply_silent_iff (header : List UInt8) (timeout : Int) (p : Port) (hne : header ≠ []) :
    awaitReply header timeout p = .blocked ↔ p.isOpen = true ∧
      ∃ bs, p.rx = onWire bs ∧ ¬ header <:+: bs ∧
        InTimeFor timeout (p.clock 0) (bs.length + 1) fun i => p.clock (i + 1) := by
  constructor
  · intro h
    have hspec := awaitHeader_spec header timeout (p.clock 0) p.isOpen p.split p.rx
      (fun i => p.clock (i + 1)) [] (not_ends_nil hne)
    rw [lastN_nil] at hspec
    unfold awaitReply at h
    rw [h] at hspec
    obtain ⟨bs, hno, hrx⟩ := hspec
    have hno' : ¬ header <:+: bs := by
      rintro ⟨s, t, rfl⟩
      exact hno (s ++ header) (by simp) (List.suffix_append _ _)
    cases ho : p.isOpen with
    | false =>
      rw [ho, awaitHeader_closed] at h
      split_ifs at h
    | true =>
      rw [ho, hrx, ← lastN_nil header.length, awaitHeader_silent_iff _ _ _ _ _ _ _ (by simpa)] at h
      exact ⟨rfl, bs, hrx, hno', h⟩
  · rintro ⟨ho, bs, hrx, hno, h⟩
    unfold awaitReply
    rw [ho, hrx, ← lastN_nil header.length, awaitHeader_silent_iff _ _ _ _ _ _ _ (by simpa)]
    exact h

/-- **The call returns** a frame iff it is there in time, and leaves what is behind it. -/
theorem readSerialResponse_returns_iff (header : List UInt8) (n : Nat) (timeout : Int)
    (p q : Port) (v : List UInt8) (hne : header ≠ []) :
    readSerialResponse header n timeout p = .done v q ∧ v ≠ [] ↔
      AnsweredWith header n timeout p v q := by
  rw [readSerialResponse_frame_iff _ _ _ _ _ _ hne]
  constructor
  · rintro ⟨l, buf, l', hwait, hfill, hlen, rfl, rfl⟩
    obtain ⟨ho, pre, rx, hrx, hend, hin, rfl⟩ := (awaitReply_found_iff _ _ _ _ hne).mp hwait
    have hspec := fill_spec timeout (p.clock 0) p.isOpen (n + 2) (n + 2)
      ⟨rx, fun i => p.clock (i + pre.length + 1), p.split⟩ [] (Nat.le_refl _)
    unfold fillReply at hfill
    rw [hfill] at hspec
    obtain ⟨tail, hbuf, htail, -, -⟩ := hspec
    rw [List.nil_append] at hbuf
    subst hbuf
    rw [ho] at hfill
    have hin' := (fill_full_iff _ _ _ _ _ [] buf _ (Nat.le_refl _) htail hlen).mp ⟨l', hfill⟩
    have hline := fill_full_line _ _ _ _ _ _ [] buf _ (Nat.le_refl _) htail hlen hfill
    refine ⟨ho, pre, buf, l'.rx, ?_, hend, hlen, (inTimeFor_add _ _ _ _ _).mpr ⟨hin, hin'⟩, rfl,
      congrArg (fun l => ({ p with toLine := l } : Port)) hline⟩
    rw [hrx, onWire_append, List.append_assoc]
    exact congrArg _ htail
  · rintro ⟨ho, pre, tail, rx', hrx, hend, hlen, hin, rfl, rfl⟩
    obtain ⟨hin, hin'⟩ := (inTimeFor_add _ _ _ _ _).mp hin
    rw [onWire_append, List.append_assoc] at hrx
    obtain ⟨l', hfill⟩ := (fill_full_iff timeout (p.clock 0) (n + 2) (n + 2)
      ⟨onWire tail ++ rx', fun i => p.clock (i + pre.length + 1), p.split⟩ [] tail rx'
      (Nat.le_refl _) rfl hlen).mpr hin'
    have hline := fill_full_line _ _ _ _ _ _ [] tail _ (Nat.le_refl _) rfl hlen hfill
    refine ⟨_, tail, l', (awaitReply_found_iff _ _ _ _ hne).mpr ⟨ho, pre, _, hrx, hend, hin, rfl⟩,
      ?_, hlen, rfl, ?_⟩
    · unfold fillReply
      rw [ho]
      exact hfill
    · rw [hline]

/-- **Answered.**  The call returns a frame iff it is there in time. -/
theorem readSerialResponse_answered_iff (header : List UInt8) (n : Nat) (timeout : Int) (p : Port)
    (hne : header ≠ []) :
    (∃ v p', readSerialResponse header n timeout p = .done v p' ∧ v ≠ []) ↔
      Answered header n timeout p := by
  constructor
  · rintro ⟨v, q, h⟩
    obtain ⟨ho, pre, tail, rx', hrx, hend, hlen, hin, -⟩ :=
      (readSerialResponse_returns_iff _ _ _ _ _ _ hne).mp h
    exact ⟨ho, pre, tail, rx', hrx, hend, hlen, hin⟩
  · rintro ⟨ho, pre, tail, rx', hrx, hend, hlen, hin⟩
    exact ⟨_, _, (readSerialResponse_returns_iff _ _ _ _ _ _ hne).mpr
      ⟨ho, pre, tail, rx', hrx, hend, hlen, hin, rfl, rfl⟩⟩

/-- **Silence.**  The call waits for ever iff the line falls silent in time. -/
theorem readSerialResponse_silent_iff (header : List UInt8) (n : Nat) (timeout : Int) (p : Port)
    (hne : header ≠ []) :
    (∃ p', readSerialResponse header n timeout p = .blocked p') ↔ Silent header n timeout p := by
  rw [readSerialResponse_blocked_iff, awaitReply_silent_iff _ _ _ hne]
  unfold Silent
  rw [and_or_left]
  refine or_congr Iff.rfl ⟨?_, ?_⟩
  · rintro ⟨l, hwait, hfill⟩
    obtain ⟨ho, pre, rx, hrx, hend, hin, rfl⟩ := (awaitReply_found_iff _ _ _ _ hne).mp hwait
    have hspec := fill_spec timeout (p.clock 0) p.isOpen (n + 2) (n + 2)
      ⟨rx, fun i => p.clock (i + pre.length + 1), p.split⟩ [] (Nat.le_refl _)
    unfold fillReply at hfill
    rw [hfill] at hspec
    obtain ⟨tail, hlt, htail⟩ := hspec
    rw [ho] at hfill
    have hin' := (fill_silent_iff _ _ _ _ _ _ _ (Nat.le_refl _) htail hlt).mp hfill
    refine ⟨ho, pre, tail, ?_, hend, hlt, (inTimeFor_add _ _ _ _ _).mpr ⟨hin, hin'⟩⟩
    rw [hrx, onWire_append]
    exact congrArg _ htail
  · rintro ⟨ho, pre, tail, hrx, hend, hlt, hin⟩
    obtain ⟨hin, hin'⟩ := (inTimeFor_add _ _ _ _ _).mp hin
    rw [onWire_append] at hrx
    refine ⟨_, (awaitReply_found_iff _ _ _ _ hne).mpr ⟨ho, pre, _, hrx, hend, hin, rfl⟩, ?_⟩
    unfold fillReply
    rw [ho]
    exact (fill_silent_iff _ _ _ _ _ _ tail (Nat.le_refl _) rfl hlt).mpr hin'

/-- The first end on a line does not depend on how far one looks. -/
theorem firstEnd_onWire_unique {header pre pre' : List UInt8} {rx : List RxEvent}
    (h : FirstEnd header pre) (h' : FirstEnd header pre') (hp : onWire pre <+: rx)
    (hp' : onWire pre' <+: rx) : pre = pre' :=
  h.unique h' ((List.prefix_or_prefix_of_prefix hp hp').imp isPrefix_of_onWire isPrefix_of_onWire)

theorem FrameAt.length {cmdId : UInt8} {rx rx' : List RxEvent} {v : List UInt8}
    (h : FrameAt (replyHeader cmdId) 8 rx v rx') : v.length = 14 := by
  obtain ⟨pre, tail, -, hlen, rfl, -⟩ := h
  simp [hlen]

/-- The frame is the last thing read: the header ends `pre`, the tail follows. -/
theorem FrameAt.consumed {header : List UInt8} {n : Nat} {rx rx' : List RxEvent} {v : List UInt8}
    (h : FrameAt header n rx v rx') : ∃ pre, rx = onWire (pre ++ v) ++ rx' := by
  obtain ⟨pre, tail, hend, -, rfl, rfl⟩ := h
  obtain ⟨pre', rfl⟩ := hend.ends
  exact ⟨pre', by simp⟩

/-- A stream has one frame. -/
theorem FrameAt.unique {header : List UInt8} {n : Nat} {rx : List RxEvent} {v v' : List UInt8}
    {rx1 rx2 : List RxEvent} (h : FrameAt header n rx v rx1) (h' : FrameAt header n rx v' rx2) :
    v = v' ∧ rx1 = rx2 := by
  obtain ⟨pre, tail, hend, hlen, rfl, hrx⟩ := h
  obtain ⟨pre', tail', hend', hlen', rfl, hrx'⟩ := h'
  rw [onWire_append, List.append_assoc] at hrx hrx'
  obtain rfl := firstEnd_onWire_unique hend hend' (hrx ▸ List.prefix_append _ _)
    (hrx' ▸ List.prefix_append _ _)
  obtain ⟨htail, hrest⟩ := List.append_inj (List.append_cancel_left (hrx.symm.trans hrx'))
    (by rw [length_onWire, length_onWire, hlen, hlen'])
  exact ⟨by rw [onWire_injective _ _ htail], hrest⟩

/-- **Completeness.**  A frame that is there before any error, read in time, is returned. -/
theorem readSerialResponse_complete {header : List UInt8} {n : Nat} {timeout : Int} {p : Port}
    {v : List UInt8} {rx' : List RxEvent} (hne : header ≠ []) (hopen : p.isOpen = true)
    (hclock : InTime timeout p.clock) (hv : FrameAt header n p.rx v rx') :
    ∃ p', readSerialResponse header n timeout p = .done v p' ∧ p'.rx = rx' := by
  obtain ⟨pre, tail, hend, hlen, -, hrx⟩ := id hv
  have hanswered : Answered header n timeout p :=
    ⟨hopen, pre, tail, rx', hrx, hend, hlen, fun i _ => hclock (i + 1)⟩
  obtain ⟨w, p', hread, hw⟩ := (readSerialResponse_answered_iff _ _ _ _ hne).mpr hanswered
  obtain ⟨rfl, hrest⟩ := (readSerialResponse_sound hne hread hw).unique hv
  exact ⟨p', hread, hrest⟩

end AgvPro
