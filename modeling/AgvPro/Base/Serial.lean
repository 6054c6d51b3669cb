import AgvPro.Base.Frame
import AgvPro.Lib.Window

/-!
# The serial port and `read_serial_response`

A `Port` holds what the world outside the driver will do: the bytes and read errors
that reads will meet, in order (a read that finds nothing left blocks for ever), the
readings of the clock, how many bytes each `read_some` takes when more are ready, and
where each write throws.  `tx` records the writes made.

`readSerialResponse` hunts for the header through a window of its length and then
collects the rest in chunks, testing the deadline before every read.

    readSerialResponse h n t p = .done v p', v ≠ []  →
      v is h and the n + 2 bytes after its first occurrence     (readSerialResponse_sound)
-/

namespace AgvPro

open Window

/-- What the next byte-read meets: a byte, or an error code. -/
inductive RxEvent where
  | byte (b : UInt8)
  | error
deriving DecidableEq

/-- One `boost::asio::write`: the frame handed over, and how many of its bytes went out. -/
structure Transmit where
  frame : List UInt8
  sent : Nat
deriving DecidableEq

/-- What reading consumes. -/
structure Line where
  rx : List RxEvent
  clock : Nat → Int
  split : Nat → Nat

structure Port extends Line where
  isOpen : Bool
  throwsAt : Nat → Option Nat
  tx : List Transmit

/-- An open port with all of `rx` there, a clock that stands still and no failing write. -/
def Port.ready (rx : List RxEvent) : Port :=
  ⟨⟨rx, fun _ => 0, fun _ => 1⟩, true, fun _ => none, []⟩

@[simp] theorem Port.ready_rx (rx : List RxEvent) : (Port.ready rx).rx = rx := rfl

/-- A call returns, or waits in a read that no byte and no error ever ends. -/
inductive Result (α : Type) where
  | done (a : α) (p : Port)
  | blocked (p : Port)

def Result.port {α : Type} : Result α → Port
  | .done _ p => p
  | .blocked p => p

def Result.map {α β : Type} (f : α → β) : Result α → Result β
  | .done a p => .done (f a) p
  | .blocked p => .blocked p

def Result.value? {α : Type} : Result α → Option α
  | .done a _ => some a
  | .blocked _ => none

theorem Result.eq_done {α : Type} {r : Result α} {a : α} (h : r.value? = some a) :
    ∃ p, r = .done a p := by
  cases r with
  | done a' p => exact ⟨p, by rw [Option.some.inj h]⟩
  | blocked p => cases h

@[simp] theorem Result.port_map {α β : Type} (f : α → β) (r : Result α) :
    (r.map f).port = r.port := by
  cases r <;> rfl

theorem Result.map_eq_done {α β : Type} {f : α → β} {r : Result α} {b : β} {p : Port}
    (h : r.map f = .done b p) : ∃ a, r = .done a p ∧ f a = b := by
  cases r with
  | done a q =>
    obtain ⟨rfl, rfl⟩ := Result.done.inj h
    exact ⟨a, rfl, rfl⟩
  | blocked q => cases h

/-- `rclcpp::Duration::from_seconds`, in nanoseconds. -/
def seconds (s : Int) : Int := s * 1000000000

/-! ## Writing -/

/-- The bytes of a write of `size` that go out: none through a closed port, and not all of
them where the write throws. -/
def bytesOut (isOpen : Bool) (throws : Option Nat) (size : Nat) : Nat :=
  if !isOpen then 0
  else match throws with
    | none => size
    | some k => min k (size - 1)

/-- The exception of a failed write is caught: only the record shows it. -/
def sendSerialFrame (frame : List UInt8) (p : Port) : Port :=
  { p with
    tx := p.tx ++ [⟨frame, bytesOut p.isOpen (p.throwsAt 0) frame.length⟩]
    throwsAt := fun i => p.throwsAt (i + 1) }

theorem bytesOut_eq_iff {isOpen : Bool} {throws : Option Nat} {size : Nat} (hsize : 0 < size) :
    bytesOut isOpen throws size = size ↔ isOpen = true ∧ throws = none := by
  cases isOpen with
  | false => simp [bytesOut, hsize.ne]
  | true =>
    cases throws with
    | none => simp [bytesOut]
    | some k =>
      simp [bytesOut]
      omega

theorem bytesOut_le (isOpen : Bool) (throws : Option Nat) (size : Nat) :
    bytesOut isOpen throws size ≤ size := by
  cases isOpen with
  | false => exact Nat.zero_le size
  | true =>
    cases throws with
    | none => exact Nat.le_refl size
    | some k => exact (Nat.min_le_right k _).trans (Nat.sub_le size 1)

/-! ## Reading -/

inductive ReadEnd where
  | bytes (bs : List UInt8) (rx : List RxEvent)
  | error (rx : List RxEvent)
  | blocked

/-- Up to `n` bytes, stopping before an error. -/
def takeBytes : Nat → List RxEvent → List UInt8 × List RxEvent
  | n + 1, .byte b :: rx => (b :: (takeBytes n rx).1, (takeBytes n rx).2)
  | _, rx => ([], rx)

/-- `read_some` into a buffer of `size ≥ 1` bytes: at least one byte, at most `want`. -/
def readSome (isOpen : Bool) (size want : Nat) (rx : List RxEvent) : ReadEnd :=
  if !isOpen then .error rx
  else match rx with
    | [] => .blocked
    | .error :: rx => .error rx
    | .byte b :: rx =>
      .bytes (b :: (takeBytes (min size want - 1) rx).1) (takeBytes (min size want - 1) rx).2

inductive LoopEnd where
  | done (buf : List UInt8) (l : Line)
  | error (l : Line)
  | blocked

/-- The first loop: bytes one at a time into the window, until it is the header or the
deadline has passed. -/
def awaitHeader (header : List UInt8) (timeout start : Int) (isOpen : Bool) (split : Nat → Nat) :
    List RxEvent → (Nat → Int) → List UInt8 → LoopEnd
  | rx, clock, sliding =>
    let clock' := fun i => clock (i + 1)
    if clock 0 - start < timeout then
      if !isOpen then .error ⟨rx, clock', split⟩
      else match rx with
        | [] => .blocked
        | .error :: rx => .error ⟨rx, clock', split⟩
        | .byte b :: rx =>
          let sliding := push header.length sliding b
          if sliding = header then .done sliding ⟨rx, clock', split⟩
          else awaitHeader header timeout start isOpen split rx clock' sliding
    else .done sliding ⟨rx, clock', split⟩

/-- The second loop: chunks until `remain` more bytes have come or the deadline has
passed.  Each round reads at least one byte, so `fuel = remain` rounds suffice. -/
def fill (timeout start : Int) (isOpen : Bool) : Nat → Nat → Line → List UInt8 → LoopEnd
  | 0, _, l, buf => .done buf l
  | fuel + 1, remain, l, buf =>
    if remain = 0 then .done buf l
    else
      let l' : Line := ⟨l.rx, fun i => l.clock (i + 1), l.split⟩
      if l.clock 0 - start < timeout then
        match readSome isOpen remain (l.split 0) l.rx with
        | .blocked => .blocked
        | .error rx => .error { l' with rx := rx }
        | .bytes bs rx =>
          fill timeout start isOpen fuel (remain - bs.length)
            ⟨rx, l'.clock, fun i => l.split (i + 1)⟩ (buf ++ bs)
      else .done buf l'

/-- An empty vector stands for a timeout or a read error. -/
def readSerialResponse (expectedHeader : List UInt8) (payloadSize : Nat) (timeout : Int)
    (p : Port) : Result (List UInt8) :=
  let start := p.clock 0
  match awaitHeader expectedHeader timeout start p.isOpen p.split p.rx
      (fun i => p.clock (i + 1)) [] with
  | .blocked => .blocked p
  | .error l => .done [] { p with toLine := l }
  | .done sliding l =>
    if sliding ≠ expectedHeader then .done [] { p with toLine := l }
    else match fill timeout start p.isOpen (payloadSize + 2) (payloadSize + 2) l [] with
      | .blocked => .blocked p
      | .error l => .done [] { p with toLine := l }
      | .done buf l =>
        if buf.length ≠ payloadSize + 2 then .done [] { p with toLine := l }
        else .done (expectedHeader ++ buf) { p with toLine := l }

/-- `boost::asio::read` into a buffer of `n` bytes on an open port: all of them, or an
error. -/
def readExactly : Nat → List RxEvent → ReadEnd
  | 0, rx => .bytes [] rx
  | _ + 1, [] => .blocked
  | _ + 1, .error :: rx => .error rx
  | n + 1, .byte b :: rx =>
    match readExactly n rx with
    | .bytes bs rx => .bytes (b :: bs) rx
    | e => e

/-! ## Specification of the reader -/

/-- The bytes `bs`, as reads meet them. -/
def onWire (bs : List UInt8) : List RxEvent := bs.map .byte

@[simp] theorem onWire_nil : onWire [] = [] := rfl

@[simp] theorem onWire_cons (b : UInt8) (bs : List UInt8) :
    onWire (b :: bs) = .byte b :: onWire bs := rfl

@[simp] theorem onWire_append (as bs : List UInt8) : onWire (as ++ bs) = onWire as ++ onWire bs :=
  List.map_append

@[simp] theorem length_onWire (bs : List UInt8) : (onWire bs).length = bs.length :=
  List.length_map _

theorem onWire_injective (as bs : List UInt8) (h : onWire as = onWire bs) : as = bs :=
  List.map_injective_iff.mpr (fun _ _ e => RxEvent.byte.inj e) h

theorem isPrefix_of_onWire {as bs : List UInt8} (h : onWire as <+: onWire bs) : as <+: bs := by
  obtain ⟨t, ht⟩ := h
  obtain ⟨as', t', rfl, hl, -⟩ := List.map_eq_append_iff.mp ht.symm
  rw [onWire_injective _ _ hl]
  exact List.prefix_append _ _

/-- Bytes before an error, or before the end of everything, cover every byte prefix. -/
theorem onWire_prefix_of_stop {as bs : List UInt8} {rest : List RxEvent}
    (h : onWire as <+: onWire bs ++ rest) (hrest : rest = [] ∨ ∃ r, rest = .error :: r) :
    as <+: bs := by
  induction as generalizing bs with
  | nil => exact List.nil_prefix
  | cons a as ih =>
    cases bs with
    | nil =>
      obtain ⟨t, ht⟩ := h
      rcases hrest with rfl | ⟨r, rfl⟩ <;> simp at ht
    | cons b bs =>
      simp only [onWire_cons, List.cons_append, List.cons_prefix_cons, RxEvent.byte.injEq] at h
      obtain ⟨rfl, h⟩ := h
      exact List.cons_prefix_cons.mpr ⟨rfl, ih h⟩

/-- `v` is the header at its first occurrence and the `n + 2` bytes behind it; `rx'` is
what follows them. -/
def FrameAt (header : List UInt8) (n : Nat) (rx : List RxEvent) (v : List UInt8)
    (rx' : List RxEvent) : Prop :=
  ∃ pre tail, FirstEnd header pre ∧ tail.length = n + 2 ∧ v = header ++ tail ∧
    rx = onWire (pre ++ tail) ++ rx'

/-- No clock reading of a call reaches its deadline. -/
def InTime (timeout : Int) (clock : Nat → Int) : Prop := ∀ i, clock i - clock 0 < timeout

theorem takeBytes_spec (n : Nat) (rx : List RxEvent) :
    rx = onWire (takeBytes n rx).1 ++ (takeBytes n rx).2 ∧ (takeBytes n rx).1.length ≤ n := by
  induction n generalizing rx with
  | zero => exact ⟨rfl, Nat.le_refl _⟩
  | succ n ih =>
    match rx with
    | [] => exact ⟨rfl, Nat.zero_le _⟩
    | .error :: rx => exact ⟨rfl, Nat.zero_le _⟩
    | .byte b :: rx =>
      obtain ⟨h1, h2⟩ := ih rx
      refine ⟨?_, by simp only [takeBytes, List.length_cons]; omega⟩
      simp only [takeBytes, onWire_cons, List.cons_append]
      rw [← h1]

/-- What the first loop can end with, having seen no header in `seen`. -/
def AwaitSpec (header : List UInt8) (timeout start : Int) (isOpen : Bool) (rx : List RxEvent)
    (clock : Nat → Int) (seen : List UInt8) : LoopEnd → Prop
  | .done w l => (∃ k, l.clock = fun i => clock (i + k)) ∧
      ∃ bs, rx = onWire bs ++ l.rx ∧ (w = header → FirstEnd header (seen ++ bs)) ∧
        (w ≠ header → ∃ i, ¬ clock i - start < timeout)
  | .error l => ∃ bs, (∀ q, q <+: seen ++ bs → ¬ header <:+ q) ∧
      ((isOpen = false ∧ rx = onWire bs ++ l.rx) ∨ rx = onWire bs ++ .error :: l.rx)
  | .blocked => ∃ bs, (∀ q, q <+: seen ++ bs → ¬ header <:+ q) ∧ rx = onWire bs

/-- One byte more, with the rest of the loop as specified. -/
theorem AwaitSpec.cons {header : List UInt8} {timeout start : Int} {isOpen : Bool}
    {rx : List RxEvent} {clock : Nat → Int} {seen : List UInt8} {b : UInt8} {e : LoopEnd}
    (h : AwaitSpec header timeout start isOpen rx (fun i => clock (i + 1)) (seen ++ [b]) e) :
    AwaitSpec header timeout start isOpen (.byte b :: rx) clock seen e := by
  cases e with
  | done w l =>
    obtain ⟨⟨k, hk⟩, bs, rfl, hfound, hlate⟩ := h
    refine ⟨⟨k + 1, hk⟩, b :: bs, rfl, ?_, fun hw => ?_⟩
    · rw [List.append_assoc] at hfound
      exact hfound
    · obtain ⟨i, hi⟩ := hlate hw
      exact ⟨i + 1, hi⟩
  | error l =>
    obtain ⟨bs, hno, hrx⟩ := h
    rw [List.append_assoc] at hno
    refine ⟨b :: bs, hno, ?_⟩
    rcases hrx with ⟨hc, rfl⟩ | rfl
    · exact Or.inl ⟨hc, rfl⟩
    · exact Or.inr rfl
  | blocked =>
    obtain ⟨bs, hno, rfl⟩ := h
    rw [List.append_assoc] at hno
    exact ⟨b :: bs, hno, rfl⟩

theorem awaitHeader_spec (header : List UInt8) (timeout start : Int) (isOpen : Bool)
    (split : Nat → Nat) (rx : List RxEvent) (clock : Nat → Int) (seen : List UInt8)
    (hseen : ∀ q, q <+: seen → ¬ header <:+ q) :
    AwaitSpec header timeout start isOpen rx clock seen
      (awaitHeader header timeout start isOpen split rx clock (lastN header.length seen)) := by
  induction rx generalizing clock seen with
  | nil =>
    unfold awaitHeader
    split_ifs with ht ho
    · exact ⟨[], by simpa using hseen, Or.inl ⟨by simpa using ho, rfl⟩⟩
    · exact ⟨[], by simpa using hseen, rfl⟩
    · exact ⟨⟨1, rfl⟩, [], rfl,
        fun hw => absurd ((lastN_eq_iff _ _).mp hw) (hseen seen List.prefix_rfl), fun _ => ⟨0, ht⟩⟩
  | cons e rx ih =>
    unfold awaitHeader
    split_ifs with ht ho
    · exact ⟨[], by simpa using hseen, Or.inl ⟨by simpa using ho, rfl⟩⟩
    · cases e with
      | error => exact ⟨[], by simpa using hseen, Or.inr rfl⟩
      | byte b =>
        simp only [push_lastN]
        split_ifs with hw
        · refine ⟨⟨1, rfl⟩, [b], rfl, fun _ => ⟨(lastN_eq_iff _ _).mp hw, ?_⟩,
            fun hne => absurd hw hne⟩
          intro q hq hend
          rcases List.prefix_concat_iff.mp hq with rfl | hq'
          · rfl
          · exact absurd hend (hseen q hq')
        · apply AwaitSpec.cons
          apply ih
          intro q hq hend
          rcases List.prefix_concat_iff.mp hq with rfl | hq'
          · exact hw ((lastN_eq_iff _ _).mpr hend)
          · exact hseen q hq' hend
    · exact ⟨⟨1, rfl⟩, [], rfl,
        fun hw => absurd ((lastN_eq_iff _ _).mp hw) (hseen seen List.prefix_rfl), fun _ => ⟨0, ht⟩⟩

/-- What the second loop can end with. -/
def FillSpec (timeout start : Int) (isOpen : Bool) (remain : Nat) (l : Line) (buf : List UInt8) :
    LoopEnd → Prop
  | .done buf' l' => ∃ bs, buf' = buf ++ bs ∧ l.rx = onWire bs ++ l'.rx ∧ bs.length ≤ remain ∧
      (bs.length < remain → ∃ i, ¬ l.clock i - start < timeout)
  | .error l' => ∃ bs, bs.length < remain ∧
      ((isOpen = false ∧ l.rx = onWire bs ++ l'.rx) ∨ l.rx = onWire bs ++ .error :: l'.rx)
  | .blocked => ∃ bs, bs.length < remain ∧ l.rx = onWire bs

/-- One chunk more, with the rest of the loop as specified. -/
theorem FillSpec.chunk {timeout start : Int} {isOpen : Bool} {remain : Nat} {l l' : Line}
    {buf cs : List UInt8} {e : LoopEnd} (hrx : l.rx = onWire cs ++ l'.rx)
    (hlen : cs.length ≤ remain) (hclock : l'.clock = fun i => l.clock (i + 1))
    (h : FillSpec timeout start isOpen (remain - cs.length) l' (buf ++ cs) e) :
    FillSpec timeout start isOpen remain l buf e := by
  cases e with
  | done buf' l'' =>
    obtain ⟨bs, rfl, hbs, hle, hlate⟩ := h
    refine ⟨cs ++ bs, by simp, by rw [hrx, hbs]; simp, by simp; omega, fun hlt => ?_⟩
    obtain ⟨i, hi⟩ := hlate (by simp at hlt; omega)
    rw [hclock] at hi
    exact ⟨i + 1, hi⟩
  | error l'' =>
    obtain ⟨bs, hlt, hbs⟩ := h
    refine ⟨cs ++ bs, by simp; omega, ?_⟩
    rcases hbs with ⟨hc, hbs⟩ | hbs
    · exact Or.inl ⟨hc, by rw [hrx, hbs]; simp⟩
    · exact Or.inr (by rw [hrx, hbs]; simp)
  | blocked =>
    obtain ⟨bs, hlt, hbs⟩ := h
    exact ⟨cs ++ bs, by simp; omega, by rw [hrx, hbs]; simp⟩

theorem fill_spec (timeout start : Int) (isOpen : Bool) (fuel remain : Nat) (l : Line)
    (buf : List UInt8) (hfuel : remain ≤ fuel) :
    FillSpec timeout start isOpen remain l buf (fill timeout start isOpen fuel remain l buf) := by
  induction fuel generalizing remain l buf with
  | zero => exact ⟨[], by simp, rfl, Nat.zero_le _, fun h => by simp at h; omega⟩
  | succ fuel ih =>
    unfold fill
    split_ifs with hr ht
    · exact ⟨[], by simp, rfl, Nat.zero_le _, fun h => by simp at h; omega⟩
    · unfold readSome
      split_ifs with ho
      · exact ⟨[], by simp; omega, Or.inl ⟨by simpa using ho, rfl⟩⟩
      · cases hrx : l.rx with
        | nil => exact ⟨[], by simp; omega, hrx⟩
        | cons e rx =>
          cases e with
          | error => exact ⟨[], by simp; omega, Or.inr hrx⟩
          | byte b =>
            obtain ⟨hsplit, hle⟩ := takeBytes_spec (min remain (l.split 0) - 1) rx
            refine FillSpec.chunk ?_ ?_ rfl (ih _ _ _ ?_)
            · simp only [hrx, onWire_cons, List.cons_append]
              rw [← hsplit]
            · simp only [List.length_cons]; omega
            · simp only [List.length_cons]; omega
    · exact ⟨[], by simp, rfl, Nat.zero_le _, fun _ => ⟨0, ht⟩⟩

/-- What a call returns: nothing, after an error or a deadline, or the frame at the first
occurrence of the header; it reads no byte beyond that frame and writes none. -/
def ResponseSpec (header : List UInt8) (n : Nat) (p : Port) : Result (List UInt8) → Prop
  | .done v p' => p' = { p with toLine := p'.toLine } ∧ (v = [] ∨ FrameAt header n p.rx v p'.rx)
  | .blocked p' => p' = p

theorem readSerialResponse_spec (header : List UInt8) (n : Nat) (timeout : Int) (p : Port)
    (hne : header ≠ []) :
    ResponseSpec header n p (readSerialResponse header n timeout p) := by
  have hwait := awaitHeader_spec header timeout (p.clock 0) p.isOpen p.split p.rx
    (fun i => p.clock (i + 1)) [] (not_ends_nil hne)
  unfold readSerialResponse
  rw [lastN_nil] at hwait
  simp only
  generalize awaitHeader header timeout (p.clock 0) p.isOpen p.split p.rx
    (fun i => p.clock (i + 1)) [] = r at hwait ⊢
  cases r with
  | error l => exact ⟨rfl, Or.inl rfl⟩
  | blocked => rfl
  | done w l =>
    obtain ⟨-, pre, hpre, hfound, -⟩ := hwait
    by_cases hw : w = header
    · have hfill := fill_spec timeout (p.clock 0) p.isOpen (n + 2) (n + 2) l [] (Nat.le_refl _)
      dsimp only
      rw [if_neg (not_not_intro hw)]
      generalize fill timeout (p.clock 0) p.isOpen (n + 2) (n + 2) l [] = r' at hfill ⊢
      cases r' with
      | error l' => exact ⟨rfl, Or.inl rfl⟩
      | blocked => rfl
      | done buf l' =>
        obtain ⟨bs, hbuf, hbs, -, -⟩ := hfill
        rw [List.nil_append] at hbuf
        subst hbuf
        by_cases hlen : buf.length = n + 2
        · dsimp only
          rw [if_neg (not_not_intro hlen)]
          refine ⟨rfl, Or.inr ⟨pre, buf, by simpa using hfound hw, hlen, rfl, ?_⟩⟩
          simp [hpre, hbs]
        · dsimp only
          rw [if_pos hlen]
          exact ⟨rfl, Or.inl rfl⟩
    · dsimp only
      rw [if_pos hw]
      exact ⟨rfl, Or.inl rfl⟩

/-- **Soundness.**  A nonempty result is the frame at the first occurrence of the header. -/
theorem readSerialResponse_sound {header : List UInt8} {n : Nat} {timeout : Int} {p p' : Port}
    {v : List UInt8} (hne : header ≠ []) (h : readSerialResponse header n timeout p = .done v p')
    (hv : v ≠ []) : FrameAt header n p.rx v p'.rx := by
  have hs := readSerialResponse_spec header n timeout p hne
  rw [h] at hs
  exact hs.2.resolve_left hv

/-- Reading moves only the line. -/
theorem readSerialResponse_port (header : List UInt8) (n : Nat) (timeout : Int) (p : Port)
    (hne : header ≠ []) :
    ∃ l, (readSerialResponse header n timeout p).port = { p with toLine := l } := by
  have hspec := readSerialResponse_spec header n timeout p hne
  cases hread : readSerialResponse header n timeout p with
  | done v q =>
    rw [hread] at hspec
    exact ⟨_, hspec.1⟩
  | blocked q =>
    rw [hread] at hspec
    exact ⟨p.toLine, hspec⟩

/-! ## The record of the writes -/

/-- What frames handed to `write` one after the other leave in the record. -/
def transmits (isOpen : Bool) : (Nat → Option Nat) → List (List UInt8) → List Transmit
  | _, [] => []
  | throwsAt, f :: fs =>
    ⟨f, bytesOut isOpen (throwsAt 0) f.length⟩ :: transmits isOpen (fun i => throwsAt (i + 1)) fs

theorem transmits_append (isOpen : Bool) (throwsAt : Nat → Option Nat)
    (fs fs' : List (List UInt8)) :
    transmits isOpen throwsAt (fs ++ fs') =
      transmits isOpen throwsAt fs ++ transmits isOpen (fun i => throwsAt (i + fs.length)) fs' := by
  induction fs generalizing throwsAt with
  | nil => rfl
  | cons f fs ih =>
    simp only [List.cons_append, transmits, ih, List.length_cons, Nat.add_assoc]

@[simp] theorem map_frame_transmits (isOpen : Bool) (throwsAt : Nat → Option Nat)
    (fs : List (List UInt8)) : (transmits isOpen throwsAt fs).map Transmit.frame = fs := by
  induction fs generalizing throwsAt with
  | nil => rfl
  | cons f fs ih => simp only [transmits, List.map_cons, ih]

/-- From `p` to `q` just these frames were handed to `write`. -/
structure Writes (p q : Port) (frames : List (List UInt8)) : Prop where
  tx : q.tx = p.tx ++ transmits p.isOpen p.throwsAt frames
  isOpen : q.isOpen = p.isOpen
  throwsAt : q.throwsAt = fun i => p.throwsAt (i + frames.length)

theorem Writes.trans {p q r : Port} {frames frames' : List (List UInt8)} (h : Writes p q frames)
    (h' : Writes q r frames') : Writes p r (frames ++ frames') where
  tx := by rw [h'.tx, h.tx, h.isOpen, h.throwsAt, transmits_append, List.append_assoc]
  isOpen := h'.isOpen.trans h.isOpen
  throwsAt := by
    rw [h'.throwsAt, h.throwsAt, List.length_append]
    funext i
    show p.throwsAt (i + frames'.length + frames.length) = _
    rw [Nat.add_assoc, Nat.add_comm frames'.length]

theorem writes_line (p : Port) (l : Line) : Writes p { p with toLine := l } [] :=
  ⟨(List.append_nil _).symm, rfl, rfl⟩

theorem writes_send (frame : List UInt8) (p : Port) : Writes p (sendSerialFrame frame p) [frame] :=
  ⟨rfl, rfl, rfl⟩

theorem writes_read {header : List UInt8} (hne : header ≠ []) (n : Nat) (timeout : Int) (p : Port) :
    Writes p (readSerialResponse header n timeout p).port [] := by
  obtain ⟨l, hport⟩ := readSerialResponse_port header n timeout p hne
  rw [hport]
  exact writes_line p l

end AgvPro
