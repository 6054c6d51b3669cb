import AgvPro.Base.SerialTiming

/-!
# What a result of `read_serial_response` means

A frame is the one at the first occurrence of the header, whatever the chunks and the clock
were.  An empty vector comes from a read error met before the frame was whole, on a port
that is not open that of the first read, or from a last clock reading past the deadline.

    an empty vector  →  a read error or late                   (readSerialResponse_failed)
    two calls on the same bytes agree, unless one was late     (readSerialResponse_agree)
    all of it                                                  (readSerialResponse_means)
-/

namespace AgvPro

open Window

/-- The header and the `n + 2` bytes behind its first occurrence are all in `bs`. -/
def Whole (header : List UInt8) (n : Nat) (bs : List UInt8) : Prop :=
  ∃ pre tail, FirstEnd header pre ∧ tail.length = n + 2 ∧ pre ++ tail <+: bs

/-- The last clock reading the call made came past its deadline. -/
def LastLate (timeout : Int) (p p' : Port) : Prop :=
  ∃ i, p'.clock = (fun j => p.clock (j + (i + 2))) ∧ ¬ p.clock (i + 1) - p.clock 0 < timeout

/-- Why a call comes back with nothing.  `closed`: `read_some` on a port that is not open is
an error. -/
inductive Failed (header : List UInt8) (n : Nat) (timeout : Int) (p p' : Port) : Prop
  | closed (hclosed : p.isOpen = false)
  | error (bs : List UInt8) (hrx : p.rx = onWire bs ++ .error :: p'.rx)
      (hpart : ¬ Whole header n bs)
  | late (hlate : LastLate timeout p p')

/-! ## Giving up -/

/-- The first loop ends without the header only on a late reading. -/
theorem awaitHeader_gives_up (header : List UInt8) (timeout start : Int) (isOpen : Bool)
    (split : Nat → Nat) (rx : List RxEvent) (clock : Nat → Int) (w w' : List UInt8) (l : Line)
    (h : awaitHeader header timeout start isOpen split rx clock w = .done w' l)
    (hw : w' ≠ header) :
    ∃ i, l.clock = (fun j => clock (j + (i + 1))) ∧ ¬ clock i - start < timeout := by
  induction rx generalizing clock w with
  | nil =>
    unfold awaitHeader at h
    split_ifs at h with ht ho
    cases h
    exact ⟨0, rfl, ht⟩
  | cons e rx ih =>
    unfold awaitHeader at h
    split_ifs at h with ht ho
    · cases e with
      | error => cases h
      | byte b =>
        simp only at h
        split_ifs at h with hfound
        · cases h
          exact absurd hfound hw
        · obtain ⟨i, hclock, hlate⟩ := ih _ _ h
          exact ⟨i + 1, hclock, hlate⟩
    · cases h
      exact ⟨0, rfl, ht⟩

/-- And so does the second one without all its bytes. -/
theorem fill_gives_up (timeout start : Int) (isOpen : Bool) (fuel remain : Nat) (l l' : Line)
    (buf buf' : List UInt8) (hfuel : remain ≤ fuel)
    (h : fill timeout start isOpen fuel remain l buf = .done buf' l')
    (hshort : buf'.length < buf.length + remain) :
    ∃ i, l'.clock = (fun j => l.clock (j + (i + 1))) ∧ ¬ l.clock i - start < timeout := by
  induction fuel generalizing remain l buf with
  | zero =>
    cases h
    omega
  | succ fuel ih =>
    unfold fill at h
    split_ifs at h with hr ht
    · cases h
      omega
    · unfold readSome at h
      split_ifs at h with ho
      cases hrx : l.rx with
      | nil => rw [hrx] at h; cases h
      | cons e rx =>
        rw [hrx] at h
        cases e with
        | error => cases h
        | byte b =>
          obtain ⟨i, hclock, hlate⟩ := ih _ _ _ (by rw [List.length_cons]; omega) h
            (by rw [List.length_append, List.length_cons]; omega)
          exact ⟨i + 1, hclock, hlate⟩
    · cases h
      exact ⟨0, rfl, ht⟩

/-! ## Empty results -/

theorem not_whole_of_no_header {header : List UInt8} (n : Nat) {bs : List UInt8}
    (hno : ∀ q, q <+: bs → ¬ header <:+ q) : ¬ Whole header n bs := by
  rintro ⟨pre, tail, hend, -, hpre⟩
  exact hno pre ((List.prefix_append pre tail).trans hpre) hend.ends

theorem not_whole_of_short {header pre tail : List UInt8} {n : Nat} (hend : FirstEnd header pre)
    (hlt : tail.length < n + 2) : ¬ Whole header n (pre ++ tail) := by
  rintro ⟨pre', tail', hend', hlen', hpre'⟩
  have hsame : pre' = pre := hend'.unique hend
    (List.prefix_or_prefix_of_prefix ((List.prefix_append pre' tail').trans hpre')
      (List.prefix_append pre tail))
  subst hsame
  have hle := hpre'.length_le
  rw [List.length_append, List.length_append] at hle
  omega

theorem awaitReply_failed {header : List UInt8} {n : Nat} {timeout : Int} {p : Port} {l : Line}
    (hne : header ≠ []) (h : awaitReply header timeout p = .error l) :
    Failed header n timeout p { p with toLine := l } := by
  have hspec := awaitHeader_spec header timeout (p.clock 0) p.isOpen p.split p.rx
    (fun i => p.clock (i + 1)) [] (not_ends_nil hne)
  rw [lastN_nil] at hspec
  unfold awaitReply at h
  rw [h] at hspec
  obtain ⟨bs, hno, hrx⟩ := hspec
  rcases hrx with ⟨hclosed, -⟩ | hrx
  · exact .closed hclosed
  · exact .error bs hrx (not_whole_of_no_header n hno)

theorem fillReply_failed {header : List UInt8} {n : Nat} {timeout : Int} {p : Port} {l l' : Line}
    (hne : header ≠ []) (h : awaitReply header timeout p = .done header l)
    (h' : fillReply n timeout p l = .error l') :
    Failed header n timeout p { p with toLine := l' } := by
  obtain ⟨ho, pre, rx, hrx, hend, -, rfl⟩ := (awaitReply_found_iff _ _ _ _ hne).mp h
  have hspec := fill_spec timeout (p.clock 0) p.isOpen (n + 2) (n + 2)
    ⟨rx, fun i => p.clock (i + pre.length + 1), p.split⟩ [] (Nat.le_refl _)
  unfold fillReply at h'
  rw [h'] at hspec
  obtain ⟨tail, hlt, htail⟩ := hspec
  rcases htail with ⟨hclosed, -⟩ | htail
  · exact .closed hclosed
  · refine .error (pre ++ tail) ?_ (not_whole_of_short hend hlt)
    rw [hrx, onWire_append, List.append_assoc]
    exact congrArg _ htail

theorem awaitReply_late {header : List UInt8} {timeout : Int} {p : Port} {w : List UInt8} {l : Line}
    (h : awaitReply header timeout p = .done w l) (hw : w ≠ header) :
    LastLate timeout p { p with toLine := l } := by
  obtain ⟨i, hclock, hlate⟩ := awaitHeader_gives_up _ _ _ _ _ _ _ _ _ _ h hw
  exact ⟨i, hclock, hlate⟩

theorem fillReply_late {header : List UInt8} {n : Nat} {timeout : Int} {p : Port} {l l' : Line}
    {buf : List UInt8} (hne : header ≠ []) (h : awaitReply header timeout p = .done header l)
    (h' : fillReply n timeout p l = .done buf l') (hlen : buf.length ≠ n + 2) :
    LastLate timeout p { p with toLine := l' } := by
  obtain ⟨ho, pre, rx, hrx, hend, -, rfl⟩ := (awaitReply_found_iff _ _ _ _ hne).mp h
  have hspec := fill_spec timeout (p.clock 0) p.isOpen (n + 2) (n + 2)
    ⟨rx, fun i => p.clock (i + pre.length + 1), p.split⟩ [] (Nat.le_refl _)
  unfold fillReply at h'
  rw [h'] at hspec
  obtain ⟨tail, hbuf, -, hle, -⟩ := hspec
  rw [List.nil_append] at hbuf
  subst hbuf
  have hshort : buf.length < ([] : List UInt8).length + (n + 2) := by
    rw [List.length_nil]
    omega
  obtain ⟨i, hclock, hlate⟩ := fill_gives_up _ _ _ _ _ _ _ _ _ (Nat.le_refl _) h' hshort
  refine ⟨i + pre.length, ?_, ?_⟩
  · show l'.clock = _
    rw [hclock]
    funext j
    show p.clock (j + (i + 1) + pre.length + 1) = p.clock (j + (i + pre.length + 2))
    congr 1
    omega
  · exact hlate

/-- **Nothing** comes back only for a reason. -/
theorem readSerialResponse_failed {header : List UInt8} {n : Nat} {timeout : Int} {p p' : Port}
    (hne : header ≠ []) (h : readSerialResponse header n timeout p = .done [] p') :
    Failed header n timeout p p' := by
  rw [readSerialResponse_eq] at h
  cases hwait : awaitReply header timeout p with
  | blocked => rw [hwait] at h; cases h
  | error l =>
    rw [hwait] at h
    obtain rfl := (Result.done.inj h).2
    exact awaitReply_failed hne hwait
  | done w l =>
    rw [hwait] at h
    by_cases hw : w = header
    · subst hw
      simp only [ne_eq, not_true_eq_false, if_false] at h
      cases hfill : fillReply n timeout p l with
      | blocked => rw [hfill] at h; cases h
      | error l' =>
        rw [hfill] at h
        obtain rfl := (Result.done.inj h).2
        exact fillReply_failed hne hwait hfill
      | done buf l' =>
        rw [hfill] at h
        by_cases hlen : buf.length = n + 2
        · simp only [hlen, not_true_eq_false, if_false] at h
          exact absurd (List.append_eq_nil_iff.mp (Result.done.inj h).1).1 hne
        · simp only [hlen, not_false_eq_true, if_true] at h
          obtain rfl := (Result.done.inj h).2
          exact .late (fillReply_late hne hwait hfill hlen)
    · simp only [ne_eq, hw, not_false_eq_true, if_true] at h
      obtain rfl := (Result.done.inj h).2
      exact .late (awaitReply_late hwait hw)

/-! ## The stream decides -/

/-- An error before the frame is whole is before it for every call. -/
theorem not_frameAt_of_error {header : List UInt8} {n : Nat} {rx rx1 rx2 : List RxEvent}
    {bs v : List UInt8} (hrx : rx = onWire bs ++ .error :: rx1) (hpart : ¬ Whole header n bs) :
    ¬ FrameAt header n rx v rx2 := by
  rintro ⟨pre, tail, hend, hlen, -, hframe⟩
  have hpre : onWire (pre ++ tail) <+: onWire bs ++ .error :: rx1 := by
    rw [← hrx, hframe]
    exact List.prefix_append _ _
  exact hpart ⟨pre, tail, hend, hlen, onWire_prefix_of_stop hpre (Or.inr ⟨rx1, rfl⟩)⟩

/-- Nothing returned, though the frame is on the open line: the clock was late. -/
theorem late_of_frameAt {header : List UInt8} {n : Nat} {timeout : Int} {p p' : Port}
    {v : List UInt8} {rx : List RxEvent} (hne : header ≠ [])
    (h : readSerialResponse header n timeout p = .done [] p') (hopen : p.isOpen = true)
    (hv : FrameAt header n p.rx v rx) : LastLate timeout p p' := by
  rcases readSerialResponse_failed hne h with hclosed | ⟨bs, hrx, hpart⟩ | hlate
  · rw [hopen] at hclosed
    cases hclosed
  · exact absurd hv (not_frameAt_of_error hrx hpart)
  · exact hlate

/-- A port that is not open gives no frame. -/
theorem isOpen_of_frame {header : List UInt8} {n : Nat} {timeout : Int} {p p' : Port}
    {v : List UInt8} (hne : header ≠ []) (h : readSerialResponse header n timeout p = .done v p')
    (hv : v ≠ []) : p.isOpen = true :=
  ((readSerialResponse_answered_iff _ _ _ _ hne).mp ⟨v, p', h, hv⟩).1

/-- The two calls return the same and leave the same, or one of them timed out. -/
def Agree (timeout timeout' : Int) (p p' q q' : Port) (v v' : List UInt8) : Prop :=
  (v = v' ∧ (v ≠ [] → p'.rx = q'.rx)) ∨ (v = [] ∧ LastLate timeout p p') ∨
    (v' = [] ∧ LastLate timeout' q q')

theorem readSerialResponse_agree {header : List UInt8} {n : Nat} {timeout timeout' : Int}
    {p p' q q' : Port} {v v' : List UInt8} (hne : header ≠ []) (hrx : q.rx = p.rx)
    (hopen : q.isOpen = p.isOpen) (h : readSerialResponse header n timeout p = .done v p')
    (h' : readSerialResponse header n timeout' q = .done v' q') :
    Agree timeout timeout' p p' q q' v v' := by
  by_cases hv : v = []
  · subst hv
    by_cases hv' : v' = []
    · subst hv'
      exact Or.inl ⟨rfl, fun hnil => absurd rfl hnil⟩
    · have hframe := readSerialResponse_sound hne h' hv'
      have ho := isOpen_of_frame hne h' hv'
      rw [hrx] at hframe
      rw [hopen] at ho
      exact Or.inr (Or.inl ⟨rfl, late_of_frameAt hne h ho hframe⟩)
  · have hframe := readSerialResponse_sound hne h hv
    by_cases hv' : v' = []
    · subst hv'
      have ho := isOpen_of_frame hne h hv
      rw [← hrx] at hframe
      rw [← hopen] at ho
      exact Or.inr (Or.inr ⟨rfl, late_of_frameAt hne h' ho hframe⟩)
    · have hframe' := readSerialResponse_sound hne h' hv'
      rw [hrx] at hframe'
      obtain ⟨hsame, hrest⟩ := hframe.unique hframe'
      exact Or.inl ⟨hsame, fun _ => hrest⟩

/-- **The reader**: what a result is, what it depends on, and when it is empty. -/
theorem readSerialResponse_means (header : List UInt8) (n : Nat) (timeout : Int) (p p' : Port)
    (v : List UInt8) (hne : header ≠ [])
    (h : readSerialResponse header n timeout p = .done v p') :
    (v ≠ [] → FrameAt header n p.rx v p'.rx) ∧
      (∀ timeout' q q' v', q.rx = p.rx → q.isOpen = p.isOpen →
        readSerialResponse header n timeout' q = .done v' q' →
          Agree timeout timeout' p p' q q' v v') ∧
      (v = [] → Failed header n timeout p p') := by
  refine ⟨readSerialResponse_sound hne h, fun timeout' q q' v' hrx hopen h' => ?_, fun hv => ?_⟩
  · exact readSerialResponse_agree hne hrx hopen h h'
  · subst hv
    exact readSerialResponse_failed hne h

/-- The whole frame behind a header that overlaps itself, in chunks of two, and a frame cut
off by an error. -/
theorem readSerialResponse_means_overlapping :
    FrameAt [0xFE, 0xFE] 1 (onWire [0xFE, 0x01, 0xFE, 0xFE, 0xFE, 0x02, 0x03, 0x04])
        [0xFE, 0xFE, 0xFE, 0x02, 0x03] (onWire [0x04]) ∧
      Failed [0xFE, 0xFE] 1 12 (.ready (onWire [0xFE, 0xFE, 0x01] ++ [.error]))
        (readSerialResponse [0xFE, 0xFE] 1 12
          (.ready (onWire [0xFE, 0xFE, 0x01] ++ [.error]))).port := by
  have hne : ([0xFE, 0xFE] : List UInt8) ≠ [] := List.cons_ne_nil _ _
  constructor
  · exact (readSerialResponse_means [0xFE, 0xFE] 1 12
      ⟨⟨onWire [0xFE, 0x01, 0xFE, 0xFE, 0xFE, 0x02, 0x03, 0x04], fun _ => 0, fun _ => 2⟩, true,
        fun _ => none, []⟩ _ _ hne rfl).1 (List.cons_ne_nil _ _)
  · exact (readSerialResponse_means [0xFE, 0xFE] 1 12 _ _ [] hne rfl).2.2 rfl

end AgvPro
