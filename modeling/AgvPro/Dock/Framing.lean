import AgvPro.Dock.Parser
import AgvPro.Lib.Window

/-!
# Docking frames on the wire

The CAN adapter sends frames of 17 bytes, `41 54 id[4] 08 data[8] trailer[2]`.  The parser
looks for `41 54` two bytes at a time and then takes 17 bytes as they come, whether the
pair stood at the head of a frame or inside one; identifier and length are the only check.

`Reaches s bs`: on the stream `s` the parser stands with an empty buffer before `bs`.

    a stream of whole frames gives the data of the 0x182 frames, in order   (tuples_frames)
    a stream that begins inside a frame gives nothing else
      ↔ wherever the parser stands and would accept, a frame begins         (untorn_iff)
    the first frame behind noise is returned ↔ the noise is even in length  (synced_iff)
-/

namespace AgvPro

open Window

structure CanFrame where
  id : List UInt8
  data : List UInt8
  trailer : List UInt8
  length_id : id.length = 4
  length_data : data.length = 8
  length_trailer : trailer.length = 2

namespace CanFrame

def bytes (f : CanFrame) : List UInt8 := [0x41, 0x54] ++ f.id ++ [0x08] ++ f.data ++ f.trailer

/-- The identifier of the docking frames. -/
def is182 (f : CanFrame) : Bool := canIdCheck (f.id.getD 0 0) (f.id.getD 1 0) == 0x182

def canStream (fs : List CanFrame) : List UInt8 := fs.flatMap bytes

/-- Each docking frame: how much follows it, and its decoding. -/
def decoded : List CanFrame → List (Nat × Reading)
  | [] => []
  | f :: fs =>
    if f.is182 then ((canStream fs).length, readingOf f.data) :: decoded fs else decoded fs

@[simp] theorem length_bytes (f : CanFrame) : f.bytes.length = 17 := by
  simp [bytes, f.length_id, f.length_data, f.length_trailer]

@[simp] theorem canStream_cons (f : CanFrame) (fs : List CanFrame) :
    canStream (f :: fs) = f.bytes ++ canStream fs := List.flatMap_cons

@[simp] theorem length_canStream (fs : List CanFrame) : (canStream fs).length = 17 * fs.length := by
  induction fs with
  | nil => rfl
  | cons f fs ih =>
    rw [canStream_cons, List.length_append, length_bytes, ih, List.length_cons]
    omega

theorem decoded_dvd (fs : List CanFrame) (n : Nat) (r : Reading) (h : (n, r) ∈ decoded fs) :
    17 ∣ n := by
  induction fs with
  | nil => cases h
  | cons f fs ih =>
    unfold decoded at h
    split at h
    · rcases List.mem_cons.mp h with h | h
      · cases h
        rw [length_canStream]
        exact ⟨fs.length, rfl⟩
      · exact ih h
    · exact ih h

theorem decoded_sublist {fs fs' : List CanFrame} (h : fs <:+ fs') :
    (decoded fs).Sublist (decoded fs') := by
  obtain ⟨pre, rfl⟩ := h
  induction pre with
  | nil => exact List.Sublist.refl _
  | cons f pre ih =>
    show (decoded fs).Sublist (if f.is182 then _ :: decoded (pre ++ fs) else decoded (pre ++ fs))
    split
    · exact ih.trans (List.sublist_cons_self _ _)
    · exact ih

/-- What is left of a stream, a whole number of frames, are its last frames. -/
theorem suffix_canStream (frames : List CanFrame) (s : List UInt8) (hs : s <:+ canStream frames)
    (hdvd : 17 ∣ s.length) : s = canStream (lastN (s.length / 17) frames) := by
  have hlen := hs.length_le
  rw [length_canStream] at hlen
  have hlast : canStream (lastN (s.length / 17) frames) <:+ canStream frames := by
    unfold lastN canStream
    conv => rhs; rw [← List.take_append_drop (frames.length - s.length / 17) frames]
    rw [List.flatMap_append]
    exact List.suffix_append _ _
  have heq : s.length = (canStream (lastN (s.length / 17) frames)).length := by
    rw [length_canStream, lastN, List.length_drop]
    omega
  exact (List.suffix_of_suffix_length_le hs hlast (Nat.le_of_eq heq)).eq_of_length heq

end CanFrame

namespace SerialCANParser

open CanFrame

/-- What successive calls of `read_serial_data` return: how much was left unread, and the
tuple. -/
def tuples : Nat → SerialCANParser → List UInt8 → List (Nat × Reading)
  | 0, _, _ => []
  | fuel + 1, p, bs =>
    match p.readSerialData bs with
    | none => []
    | some (r, p, rest) => (rest.length, r) :: tuples fuel p rest

/-- With an empty buffer before `s`, the parser comes to stand so before `bs`: two bytes on
after a pair that is no header, a frame's length on after one that is. -/
inductive Reaches : List UInt8 → List UInt8 → Prop
  | here (bs : List UInt8) : Reaches bs bs
  | skip (a b : UInt8) (s bs : List UInt8) (hab : ¬ (a = 0x41 ∧ b = 0x54)) (h : Reaches s bs) :
      Reaches (a :: b :: s) bs
  | frame (w s bs : List UInt8) (hlen : w.length = 17) (hhead : w.take 2 = [0x41, 0x54])
      (h : Reaches s bs) : Reaches (w ++ s) bs

/-- The checks on 17 bytes. -/
def accepts (w : List UInt8) : Bool :=
  w.take 2 == [0x41, 0x54] && canIdCheck (w.getD 2 0) (w.getD 3 0) == 0x182 && w.getD 6 0 == 0x08

/-- 17 bytes stand here that pass the checks. -/
def LooksDocking (bs : List UInt8) : Prop := 17 ≤ bs.length ∧ accepts (bs.take 17) = true

/-! ## What the parser does where it stands -/

theorem readSerialData_nil (p : SerialCANParser) : p.readSerialData [] = none := rfl

theorem readSerialData_cons (p p' : SerialCANParser) (b : UInt8) (bs : List UInt8)
    (h : p.feed b = (p', none)) : p.readSerialData (b :: bs) = p'.readSerialData bs := by
  rw [readSerialData, h]

theorem readSerialData_tuple (p p' : SerialCANParser) (b : UInt8) (bs : List UInt8) (r : Reading)
    (h : p.feed b = (p', some r)) : p.readSerialData (b :: bs) = some (r, p', bs) := by
  rw [readSerialData, h]

/-- The first byte is only kept. -/
theorem feed_first (p : SerialCANParser) (b : UInt8) (hp : p.buffer = []) :
    p.feed b = ({ p with buffer := [b] }, none) := by
  simp [feed, hp]

/-- A pair that is no header is dropped. -/
theorem readSerialData_skip (p : SerialCANParser) (a b : UInt8) (bs : List UInt8)
    (hp : p.buffer = []) (hab : ¬ (a = 0x41 ∧ b = 0x54)) :
    p.readSerialData (a :: b :: bs) = p.readSerialData bs := by
  have hor : a ≠ 0x41 ∨ b ≠ 0x54 := by
    rw [← not_and_or]
    exact hab
  have hsecond : feed { p with buffer := [a] } b = (p, none) := by
    cases p
    cases hp
    simp [feed, hor]
  rw [readSerialData_cons p _ a _ (feed_first p a hp), readSerialData_cons _ _ b bs hsecond]

/-- Behind the header bytes are collected up to the sixteenth. -/
theorem readSerialData_collect (p : SerialCANParser) (w bs : List UInt8)
    (h2 : 2 ≤ p.buffer.length) (h17 : p.buffer.length + w.length < 17) :
    p.readSerialData (w ++ bs) = readSerialData { p with buffer := p.buffer ++ w } bs := by
  induction w generalizing p with
  | nil => simp
  | cons c w ih =>
    rw [List.length_cons] at h17
    have hfeed : p.feed c = ({ p with buffer := p.buffer ++ [c] }, none) := by
      have hlo : ¬ p.buffer.length < 2 := by omega
      have hhi : ¬ 17 ≤ p.buffer.length + 1 := by omega
      simp [feed, hlo, hhi]
    rw [List.cons_append, readSerialData_cons p _ c _ hfeed,
      ih _ (by simp; omega) (by simp; omega)]
    simp

theorem readSerialData_header (p : SerialCANParser) (bs : List UInt8) (hp : p.buffer = []) :
    p.readSerialData (0x41 :: 0x54 :: bs) =
      readSerialData { p with buffer := [0x41, 0x54] } bs := by
  rw [readSerialData_cons p _ _ _ (feed_first p _ hp), readSerialData_cons]
  simp [feed]

theorem readSerialData_short (p : SerialCANParser) (bs : List UInt8) (hp : p.buffer = [])
    (hlen : bs.length < 17) (hhead : bs.take 2 = [0x41, 0x54]) : p.readSerialData bs = none := by
  obtain ⟨w, rfl⟩ : ∃ w, bs = 0x41 :: 0x54 :: w :=
    ⟨bs.drop 2, by rw [← List.take_append_drop 2 bs, hhead]; simp⟩
  have hcollect := readSerialData_collect { p with buffer := [0x41, 0x54] } w [] (Nat.le_refl 2)
    (by simp at hlen ⊢; omega)
  rw [List.append_nil] at hcollect
  rw [readSerialData_header p w hp, hcollect, readSerialData_nil]

/-- 17 bytes behind a header are accepted or dropped as a whole. -/
theorem readSerialData_frame (p : SerialCANParser) (w bs : List UInt8) (hp : p.buffer = [])
    (hlen : w.length = 17) (hhead : w.take 2 = [0x41, 0x54]) :
    p.readSerialData (w ++ bs) =
      if accepts w then
        some (readingOf ((w.take 15).drop 7), ⟨readingOf ((w.take 15).drop 7), []⟩, bs)
      else p.readSerialData bs := by
  obtain ⟨v, c, rfl⟩ : ∃ v c, w = 0x41 :: 0x54 :: (v ++ [c]) := by
    rcases List.eq_nil_or_concat' (w.drop 2) with hnil | ⟨v, c, hvc⟩
    · have := congrArg List.length hnil
      simp at this
      omega
    · exact ⟨v, c, by rw [← hvc, ← List.take_append_drop 2 w, hhead]; simp⟩
  have hv : v.length = 14 := by simpa using hlen
  have hdata : ((((0x41 : UInt8) :: 0x54 :: (v ++ [c])).take 15).drop 7).length = 8 := by
    simp only [List.length_drop, List.length_take, hlen]
    omega
  have hlast : feed { p with buffer := 0x41 :: 0x54 :: v } c =
      if accepts (0x41 :: 0x54 :: (v ++ [c])) then
        (⟨readingOf (((0x41 :: 0x54 :: (v ++ [c])).take 15).drop 7), []⟩,
          some (readingOf (((0x41 :: 0x54 :: (v ++ [c])).take 15).drop 7)))
      else (p, none) := by
    cases p
    cases hp
    have hlo : ¬ v.length + 2 < 2 := by omega
    have hhi : 17 ≤ v.length + 2 + 1 := by omega
    have haccepts : accepts (0x41 :: 0x54 :: (v ++ [c])) = true ↔
        canIdCheck ((0x41 :: 0x54 :: (v ++ [c])).getD 2 0) ((0x41 :: 0x54 :: (v ++ [c])).getD 3 0) =
          0x182 ∧ (0x41 :: 0x54 :: (v ++ [c])).getD 6 0 = 0x08 := by
      simp [accepts]
    unfold feed
    simp only [List.length_cons, List.cons_append, List.length_append, List.length_nil, hlo, hhi,
      if_false, if_true, ← haccepts]
    unfold parseCanData
    rw [if_neg (not_not_intro hdata)]
  have hcollect := readSerialData_collect { p with buffer := [0x41, 0x54] } v (c :: bs)
    (Nat.le_refl 2) (by simp [hv])
  have hassoc : 0x41 :: 0x54 :: (v ++ [c]) ++ bs = 0x41 :: 0x54 :: (v ++ c :: bs) := by simp
  rw [hassoc, readSerialData_header p _ hp, hcollect]
  cases haccepts : accepts (0x41 :: 0x54 :: (v ++ [c])) with
  | true =>
    rw [haccepts] at hlast
    exact readSerialData_tuple _ _ c bs _ hlast
  | false =>
    rw [haccepts] at hlast
    exact readSerialData_cons _ _ c bs hlast

/-! ## The tuples -/

theorem tuples_congr (fuel : Nat) (p : SerialCANParser) (as bs : List UInt8)
    (h : p.readSerialData as = p.readSerialData bs) : tuples fuel p as = tuples fuel p bs := by
  cases fuel with
  | zero => rfl
  | succ fuel => unfold tuples; rw [h]

theorem tuples_none (fuel : Nat) (p : SerialCANParser) (bs : List UInt8)
    (h : p.readSerialData bs = none) : tuples fuel p bs = [] := by
  cases fuel with
  | zero => rfl
  | succ fuel => unfold tuples; rw [h]

theorem tuples_accept (fuel : Nat) (p : SerialCANParser) (w bs : List UInt8) (hp : p.buffer = [])
    (hlen : w.length = 17) (hacc : accepts w = true) :
    tuples (fuel + 1) p (w ++ bs) = (bs.length, readingOf ((w.take 15).drop 7)) ::
      tuples fuel ⟨readingOf ((w.take 15).drop 7), []⟩ bs := by
  have hhead : w.take 2 = [0x41, 0x54] := by
    unfold accepts at hacc
    simp only [Bool.and_eq_true, beq_iff_eq] at hacc
    exact hacc.1.1
  conv => lhs; unfold tuples
  rw [readSerialData_frame p w bs hp hlen hhead, if_pos hacc]

theorem tuples_reject (fuel : Nat) (p : SerialCANParser) (w bs : List UInt8) (hp : p.buffer = [])
    (hlen : w.length = 17) (hhead : w.take 2 = [0x41, 0x54]) (hacc : accepts w = false) :
    tuples fuel p (w ++ bs) = tuples fuel p bs := by
  apply tuples_congr
  rw [readSerialData_frame p w bs hp hlen hhead, hacc, if_neg (by simp)]

theorem accepts_bytes (f : CanFrame) : accepts f.bytes = f.is182 := by
  obtain ⟨i0, i1, i2, i3, hid⟩ : ∃ a b c d, f.id = [a, b, c, d] := by
    match f.id, f.length_id with
    | [a, b, c, d], _ => exact ⟨a, b, c, d, rfl⟩
  unfold accepts is182 bytes
  rw [hid]
  simp

theorem data_bytes (f : CanFrame) : (f.bytes.take 15).drop 7 = f.data := by
  have h7 : ([0x41, 0x54] ++ f.id ++ [0x08]).length = 7 := by simp [f.length_id]
  have h15 : ([0x41, 0x54] ++ f.id ++ [0x08] ++ f.data).length = 15 := by
    simp [f.length_id, f.length_data]
  unfold bytes
  rw [← h15, List.take_left, ← h7, List.drop_left]

theorem head_bytes (f : CanFrame) : f.bytes.take 2 = [0x41, 0x54] := rfl

/-- **Whole frames.**  From a frame's head on, each docking frame gives its tuple. -/
theorem tuples_frames (fuel : Nat) (p : SerialCANParser) (fs : List CanFrame)
    (hp : p.buffer = []) (hfuel : fs.length < fuel) :
    tuples fuel p (canStream fs) = decoded fs := by
  induction fs generalizing fuel p with
  | nil => exact tuples_none fuel p _ (readSerialData_nil p)
  | cons f fs ih =>
    rw [List.length_cons] at hfuel
    rw [canStream_cons]
    unfold decoded
    cases h182 : f.is182 with
    | true =>
      obtain ⟨fuel, rfl⟩ : ∃ k, fuel = k + 1 := ⟨fuel - 1, by omega⟩
      rw [tuples_accept fuel p f.bytes _ hp f.length_bytes (by rw [accepts_bytes, h182]),
        data_bytes, ih fuel _ rfl (by omega), if_pos rfl]
    | false =>
      rw [tuples_reject fuel p f.bytes _ hp f.length_bytes (head_bytes f)
        (by rw [accepts_bytes, h182]), ih fuel p hp (by omega), if_neg (by simp)]

/-- What calls return from a place the parser comes to, they return from the start. -/
theorem tuples_reaches {s bs : List UInt8} (h : Reaches s bs) (p : SerialCANParser) (fuel : Nat)
    (hp : p.buffer = []) (hfuel : s.length < fuel) :
    ∃ pre p' fuel', p'.buffer = [] ∧ bs.length < fuel' ∧
      tuples fuel p s = pre ++ tuples fuel' p' bs := by
  induction h generalizing p fuel with
  | here bs => exact ⟨[], p, fuel, hp, hfuel, rfl⟩
  | skip a b s bs hab _ ih =>
    rw [tuples_congr fuel p _ _ (readSerialData_skip p a b s hp hab)]
    exact ih p fuel hp (by simp only [List.length_cons] at hfuel; omega)
  | frame w s bs hlen hhead _ ih =>
    rw [List.length_append, hlen] at hfuel
    obtain ⟨fuel, rfl⟩ : ∃ k, fuel = k + 1 := ⟨fuel - 1, by omega⟩
    cases hacc : accepts w with
    | true =>
      obtain ⟨pre, p', fuel', hp', hfuel', heq⟩ :=
        ih ⟨readingOf ((w.take 15).drop 7), []⟩ fuel rfl (by omega)
      exact ⟨_ :: pre, p', fuel', hp', hfuel', by
        rw [tuples_accept fuel p w s hp hlen hacc, heq]; rfl⟩
    | false =>
      rw [tuples_reject _ p w s hp hlen hhead hacc]
      exact ih p _ hp (by omega)

/-- How a stream can begin for a parser with an empty buffer. -/
inductive Start : List UInt8 → Prop
  | stub (bs : List UInt8) (h : ∀ p : SerialCANParser, p.buffer = [] → p.readSerialData bs = none) :
      Start bs
  | skip (a b : UInt8) (bs : List UInt8) (hab : ¬ (a = 0x41 ∧ b = 0x54)) : Start (a :: b :: bs)
  | frame (w bs : List UInt8) (hlen : w.length = 17) (hhead : w.take 2 = [0x41, 0x54]) :
      Start (w ++ bs)

theorem start (bs : List UInt8) : Start bs := by
  match bs with
  | [] => exact .stub [] fun p _ => readSerialData_nil p
  | [b] =>
    refine .stub [b] fun p hp => ?_
    rw [readSerialData_cons p _ b [] (feed_first p b hp), readSerialData_nil]
  | a :: b :: bs =>
    by_cases hab : a = 0x41 ∧ b = 0x54
    · obtain ⟨rfl, rfl⟩ := hab
      by_cases hlen : (0x41 :: 0x54 :: bs).length < 17
      · exact .stub _ fun p hp => readSerialData_short p _ hp hlen rfl
      · have h := Start.frame ((0x41 :: 0x54 :: bs).take 17) ((0x41 :: 0x54 :: bs).drop 17)
          (by rw [List.length_take]; omega) rfl
        rwa [List.take_append_drop] at h
    · exact .skip a b bs hab

/-! ## Streams that begin inside a frame -/

/-- The frames that lie wholly in what is left of their stream. -/
def wholeFrames (frames : List CanFrame) (s : List UInt8) : List CanFrame :=
  lastN (s.length / 17) frames

/-- Every tuple is the decoding of a whole docking frame that ends where it was returned;
they come in the order of the frames. -/
def Untorn (frames : List CanFrame) (s : List UInt8) : Prop :=
  ∀ (fuel : Nat) (p : SerialCANParser), p.buffer = [] → s.length < fuel →
    (tuples fuel p s).Sublist (decoded (wholeFrames frames s))

/-- Wherever the parser stands and would accept, a frame begins. -/
def Aligned (s : List UInt8) : Prop := ∀ bs, Reaches s bs → LooksDocking bs → 17 ∣ bs.length

theorem wholeFrames_sublist (frames : List CanFrame) (s bs : List UInt8)
    (h : bs.length ≤ s.length) :
    (decoded (wholeFrames frames bs)).Sublist (decoded (wholeFrames frames s)) := by
  apply decoded_sublist
  have hle : bs.length / 17 ≤ s.length / 17 := Nat.div_le_div_right h
  unfold wholeFrames lastN
  have hsplit : frames.length - bs.length / 17 = (frames.length - s.length / 17) +
      (frames.length - bs.length / 17 - (frames.length - s.length / 17)) := by omega
  rw [hsplit, ← List.drop_drop]
  exact List.drop_suffix _ _

theorem Aligned.skip {a b : UInt8} {s : List UInt8} (h : Aligned (a :: b :: s))
    (hab : ¬ (a = 0x41 ∧ b = 0x54)) : Aligned s :=
  fun bs hbs => h bs (.skip a b s bs hab hbs)

theorem Aligned.frame {w s : List UInt8} (h : Aligned (w ++ s)) (hlen : w.length = 17)
    (hhead : w.take 2 = [0x41, 0x54]) : Aligned s :=
  fun bs hbs => h bs (.frame w s bs hlen hhead hbs)

theorem untorn_of_aligned (frames : List CanFrame) (s : List UInt8) (hs : s <:+ canStream frames)
    (h : Aligned s) : Untorn frames s := by
  induction hk : s.length using Nat.strong_induction_on generalizing s with
  | _ k ih =>
    subst hk
    intro fuel p hp hfuel
    by_cases hdvd : 17 ∣ s.length
    · -- the stream has come to a frame's head: the rest are whole frames
      have hwhole := suffix_canStream frames s hs hdvd
      have hcount : (wholeFrames frames s).length < fuel := by
        have := congrArg List.length hwhole
        rw [length_canStream] at this
        unfold wholeFrames
        omega
      have hall := tuples_frames fuel p (wholeFrames frames s) hp hcount
      unfold wholeFrames at hall ⊢
      rw [← hwhole] at hall
      rw [hall]
    · cases start s with
      | stub _ hstub =>
        rw [tuples_none fuel p s (hstub p hp)]
        exact List.nil_sublist _
      | skip a b bs hab =>
        rw [tuples_congr fuel p _ _ (readSerialData_skip p a b bs hp hab)]
        have hsuffix : bs <:+ canStream frames :=
          ((List.suffix_cons b bs).trans (List.suffix_cons a _)).trans hs
        have hlt : bs.length < (a :: b :: bs).length := by
          simp only [List.length_cons]
          omega
        exact (ih bs.length hlt bs hsuffix (h.skip hab) rfl fuel p hp (by omega)).trans
          (wholeFrames_sublist frames _ bs (Nat.le_of_lt hlt))
      | frame w bs hlen hhead =>
        cases hacc : accepts w with
        | true =>
          -- accepted here, so a frame begins here
          refine absurd (h (w ++ bs) (.here _) ⟨?_, ?_⟩) hdvd
          · rw [List.length_append, hlen]
            exact Nat.le_add_right _ _
          · rw [← hlen, List.take_left]
            exact hacc
        | false =>
          rw [tuples_reject fuel p w bs hp hlen hhead hacc]
          have hsuffix : bs <:+ canStream frames := (List.suffix_append w bs).trans hs
          have hlt : bs.length < (w ++ bs).length := by
            rw [List.length_append, hlen]
            omega
          exact (ih bs.length hlt bs hsuffix (h.frame hlen hhead) rfl fuel p hp (by omega)).trans
            (wholeFrames_sublist frames _ bs (Nat.le_of_lt hlt))

theorem aligned_of_untorn (frames : List CanFrame) (s : List UInt8) (h : Untorn frames s) :
    Aligned s := by
  intro bs hbs hdock
  obtain ⟨pre, p, fuel, hp, hfuel, htuples⟩ :=
    tuples_reaches hbs new (s.length + 1) rfl (Nat.lt_succ_self _)
  obtain ⟨fuel, rfl⟩ : ∃ k, fuel = k + 1 := ⟨fuel - 1, by omega⟩
  have hlen : (bs.take 17).length = 17 := by rw [List.length_take]; exact Nat.min_eq_left hdock.1
  have haccept := tuples_accept fuel p (bs.take 17) (bs.drop 17) hp hlen hdock.2
  rw [List.take_append_drop] at haccept
  have hmem : ((bs.drop 17).length, readingOf (((bs.take 17).take 15).drop 7)) ∈
      tuples (s.length + 1) new s := by
    rw [htuples, haccept]
    simp
  have hdvd := decoded_dvd _ _ _ ((h _ new rfl (Nat.lt_succ_self _)).subset hmem)
  have hle := hdock.1
  rw [List.length_drop] at hdvd
  omega

/-- **No torn frames.**  From any place inside a stream the tuples are those of whole docking
frames, in order, exactly when the parser accepts only at the head of one. -/
theorem untorn_iff (frames : List CanFrame) (s : List UInt8) (hs : s <:+ canStream frames) :
    Untorn frames s ↔ Aligned s :=
  ⟨aligned_of_untorn frames s, untorn_of_aligned frames s hs⟩

/-- Its data bytes begin like a docking frame. -/
def mimicFrame : CanFrame where
  id := [0x30, 0x40, 0, 0]
  data := [0x41, 0x54, 0x30, 0x40, 0, 0, 0x08, 0x7F]
  trailer := [0x0D, 0x0A]
  length_id := rfl
  length_data := rfl
  length_trailer := rfl

/-- The port is opened at the first data byte of a frame: 32.525 m/s. -/
theorem not_untorn_mimic :
    ¬ ∀ (frames : List CanFrame) (s : List UInt8), s <:+ canStream frames →
      ((tuples (s.length + 1) new s).map Prod.snd).Sublist
        ((frames.filter CanFrame.is182).map fun f => readingOf f.data) := by
  intro h
  have hsuffix : mimicFrame.bytes.drop 7 ++ mimicFrame.bytes <:+
      canStream [mimicFrame, mimicFrame] :=
    ⟨mimicFrame.bytes.take 7, by decide +kernel⟩
  have hfalse := h [mimicFrame, mimicFrame] _ hsuffix
  revert hfalse
  decide +kernel

theorem untorn_iff_mimic :
    Untorn [mimicFrame] (mimicFrame.bytes.drop 15) ↔ Aligned (mimicFrame.bytes.drop 15) :=
  untorn_iff [mimicFrame] (mimicFrame.bytes.drop 15) ⟨mimicFrame.bytes.take 15, by decide +kernel⟩

/-! ## Noise in front of a frame -/

/-- The frame behind the noise `g` is the first thing returned, and all of it is read. -/
def Synced (g : List UInt8) (f : CanFrame) : Prop :=
  ∀ p : SerialCANParser, p.buffer = [] →
    ∃ p', p.readSerialData (g ++ f.bytes) = some (readingOf f.data, p', [])

theorem feed_length (p : SerialCANParser) (b : UInt8) :
    (p.feed b).1.buffer.length ≤ p.buffer.length + 1 ∧
      ((p.feed b).2 ≠ none → 17 ≤ p.buffer.length + 1) := by
  unfold feed
  simp only
  split_ifs with h1 h2 h3 h4
  · simp
  · simp
  · simp at h3
    simp [h3]
  · simp
  · simp

/-- A tuple takes 17 bytes. -/
theorem readSerialData_needs (bs : List UInt8) (p : SerialCANParser)
    (out : Reading × SerialCANParser × List UInt8) (h : p.readSerialData bs = some out) :
    17 ≤ p.buffer.length + bs.length := by
  induction bs generalizing p with
  | nil => cases h
  | cons b bs ih =>
    obtain ⟨hgrow, hfull⟩ := feed_length p b
    rw [List.length_cons]
    cases hfeed : p.feed b with
    | mk p' tuple =>
      rw [hfeed] at hgrow hfull
      cases tuple with
      | some r =>
        have := hfull (Option.some_ne_none r)
        omega
      | none =>
        rw [readSerialData_cons p p' b bs hfeed] at h
        have hbuf : p'.buffer.length ≤ p.buffer.length + 1 := hgrow
        have := ih p' h
        omega

/-- Noise is dropped in pairs, the last byte of an odd number of them together with the
first byte of what follows. -/
theorem readSerialData_noise (p : SerialCANParser) (bs : List UInt8) (hp : p.buffer = []) :
    ∀ g : List UInt8, FirstEnd [0x41, 0x54] (g ++ [0x41, 0x54]) →
      p.readSerialData (g ++ 0x41 :: bs) =
        if 2 ∣ g.length then p.readSerialData (0x41 :: bs) else p.readSerialData bs
  | [], _ => rfl
  | [b], _ => readSerialData_skip p b 0x41 bs hp (fun h => absurd h.2 (by decide))
  | a :: b :: g, h => by
    have hab : ¬ (a = 0x41 ∧ b = 0x54) := by
      rintro ⟨rfl, rfl⟩
      have hlen := congrArg List.length
        (h.first [0x41, 0x54] (List.prefix_append _ _) (List.suffix_refl _))
      simp at hlen
    have hrest : FirstEnd [0x41, 0x54] (g ++ [0x41, 0x54]) :=
      FirstEnd.drop (show FirstEnd [0x41, 0x54] ([a, b] ++ (g ++ [0x41, 0x54])) from h)
        (List.suffix_append g _)
    have hdvd : 2 ∣ (a :: b :: g).length ↔ 2 ∣ g.length := by
      rw [List.length_cons, List.length_cons]
      omega
    simp only [hdvd]
    rw [← readSerialData_noise p bs hp g hrest]
    exact readSerialData_skip p a b _ hp hab

/-- **Synchronisation.**  The first frame is returned exactly behind an even number of
bytes. -/
theorem synced_iff (g : List UInt8) (f : CanFrame) (h182 : f.is182 = true)
    (h : FirstEnd [0x41, 0x54] (g ++ [0x41, 0x54])) : Synced g f ↔ 2 ∣ g.length := by
  have hbytes : f.bytes = 0x41 :: f.bytes.tail := rfl
  constructor
  · intro hsynced
    obtain ⟨p', hread⟩ := hsynced new rfl
    by_contra hodd
    rw [hbytes, readSerialData_noise new _ rfl g h, if_neg hodd] at hread
    have hneeds := readSerialData_needs _ _ _ hread
    rw [List.length_tail, f.length_bytes] at hneeds
    exact absurd hneeds (by decide)
  · intro heven p hp
    have hframe := readSerialData_frame p f.bytes [] hp f.length_bytes (head_bytes f)
    rw [List.append_nil, accepts_bytes, h182, if_pos rfl, data_bytes] at hframe
    refine ⟨⟨readingOf f.data, []⟩, ?_⟩
    rw [hbytes, readSerialData_noise p _ hp g h, if_pos heven, ← hbytes]
    exact hframe

theorem synced_iff_pair : Synced [0x00, 0x41] mimicFrame ↔ 2 ∣ [(0x00 : UInt8), 0x41].length :=
  synced_iff [0x00, 0x41] mimicFrame (by decide) (firstEnd_append (by decide) (by decide))

/-- A lone `41`: the pair `41 41` is dropped, and the header with it. -/
theorem not_synced_lone :
    ¬ ∀ (g : List UInt8) (f : CanFrame), f.is182 = true →
      FirstEnd [0x41, 0x54] (g ++ [0x41, 0x54]) → Synced g f := by
  intro h
  obtain ⟨p', hread⟩ := h [0x41] mimicFrame (by decide)
    (firstEnd_append (by decide) (by decide)) new rfl
  have hnone : (new.readSerialData ([0x41] ++ mimicFrame.bytes)).isNone = true := by
    decide +kernel
  rw [hread] at hnone
  cases hnone

end SerialCANParser

end AgvPro
