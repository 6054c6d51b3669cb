import Mathlib.Algebra.Ring.Nat
import Mathlib.Data.List.Basic

/-!
# Packets from the lidar's serial port

`LSIOSR::read` collects up to `length` bytes from a port that is looked at again and again;
`receive_data` reads one packet of the N10_P lidar with it: `A5`, `5A`, then whatever is left
of 108 bytes, the last of them the sum of the others.  A read that has taken eleven pieces
and still wants more returns -1 and its pieces are gone; after 151 reads in a row without a
byte the port is closed and opened again.

On a line that hands over at most ten pieces between two pauses and is never silent for
more than 150 looks, none of this shows: what is received depends on the bytes alone.

    a read loses bytes exactly when it runs out of pieces                   (lost_bytes_iff)
    steady lines with the same bytes give the same packets                  (packets_congr)
    gaps and packets in turn, whatever the pieces:
      the packets whose checksum is right, in order, each once              (packets_eq)
-/

namespace AgvPro.Lslidar

/-- What a look at the serial port finds. -/
inductive Look
  | quiet
  /-- `select` fails, as on a port that is not open. -/
  | failed
  /-- Readable, and `::read` gives nothing. -/
  | hangup
  /-- Readable, and `::read` fails. -/
  | readError
  | bytes (b : UInt8) (bs : List UInt8)
deriving Repr, DecidableEq

/-- `waitReadable`; `none` while it still waits. -/
def waitReadable : List Look → Option (Int × List Look)
  | [] => none
  | .quiet :: l => some (0, l)
  | .failed :: l => some (-1, l)
  | l => some (1, l)

/-- The line with bytes of a piece still to be read. -/
def unread : List UInt8 → List Look → List Look
  | [], l => l
  | b :: bs, l => .bytes b bs :: l

/-- `::read` of at most `length` bytes: its result, the bytes, the line behind them. -/
def posixRead (length : Nat) : List Look → Int × List UInt8 × List Look
  | .bytes b bs :: l =>
    let got := (b :: bs).take length
    (got.length, got, unread ((b :: bs).drop length) l)
  | .hangup :: l => (0, [], l)
  | .readError :: l => (-1, [], l)
  | l => (-1, [], l)

/-- The loop of `LSIOSR::read`; `left` more pieces may come up short. -/
def readLoop (left length retry : Nat) (total : List UInt8) (l : List Look) :
    Option (Int × List UInt8 × List Look) :=
  let (rc, got, l) := posixRead length l
  let total := total ++ got
  let length := length - got.length
  let retry := if rc < 0 then retry - 1 else retry
  if 0 < rc ∧ length = 0 ∨ rc < 0 ∧ retry = 0 then
    some (total.length, total, l)
  else
    (waitReadable l).bind fun (ready, l) =>
      match left with
      -- `unlink > 10`: the pieces read so far are not handed over
      | 0 => some (-1, [], l)
      | left + 1 =>
        if ready ≤ 0 then some (total.length, total, l) else readLoop left length retry total l

/-- `LSIOSR::read` with its usual timeout: the result, the bytes handed over, the line after. -/
def read (length : Nat) (l : List Look) : Option (Int × List UInt8 × List Look) :=
  (waitReadable l).bind fun (ready, l) =>
    if ready ≤ 0 then some (if ready = 0 then 0 else -1, [], l) else readLoop 10 length 3 [] l

/-- `tcflush`: what has arrived and was not read is dropped. -/
def flush : List Look → List Look
  | .bytes _ _ :: l => l
  | l => l

/-- `recvThread_crc`: the count of reads without a byte, the port opened again after 151. -/
def recvThreadCrc (count : Int) (linkTime : Nat) (l : List Look) : Nat × List Look :=
  let linkTime := if count ≤ 0 then linkTime + 1 else 0
  if linkTime > 150 then (0, flush l) else (linkTime, l)

/-- A loop of `receive_data` that reads until at least one byte came. -/
def readSome (length : Nat) : Nat → Nat → List Look → Option (List UInt8 × Nat × List Look)
  | 0, _, _ => none
  | fuel + 1, linkTime, l =>
    (read length l).bind fun (count, got, l) =>
      let (linkTime, l) := recvThreadCrc count linkTime l
      if count ≤ 0 then readSome length fuel linkTime l else some (got, linkTime, l)

/-- The last loop of `receive_data`: reads until the packet is full. -/
def readRest (len : Nat) :
    Nat → List UInt8 → Nat → List Look → Option (List UInt8 × Nat × List Look)
  | 0, _, _, _ => none
  | fuel + 1, packet, linkTime, l =>
    if packet.length < len then
      (read (len - packet.length) l).bind fun (count, got, l) =>
        let (linkTime, l) := recvThreadCrc count linkTime l
        readRest len fuel (packet ++ got) linkTime l
    else
      some (packet, linkTime, l)

/-- `PACKET_SIZE` of the N10_P. -/
def packetSize : Nat := 108

/-- `N10_CalCRC8`: the sum of the bytes, its low byte. -/
def n10CalCrc8 (p : List UInt8) : UInt8 := UInt8.ofNat (p.map UInt8.toNat).sum

/-- The check at the end of `receive_data`. -/
def crcMatches (p : List UInt8) : Bool :=
  p.getD (packetSize - 1) 0 == n10CalCrc8 (p.take (packetSize - 1))

/-- Looks and bytes a line still holds. -/
def size (l : List Look) : Nat :=
  (l.map fun look => match look with
    | .bytes _ bs => bs.length + 2
    | _ => 1).sum

/-- `receive_data`: the packet, or nothing when the bytes read were none; `none` while it
still waits. -/
def receiveData (l : List Look) : Option (Option (List UInt8) × List Look) :=
  (readSome 1 (size l + 1) 0 l).bind fun (first, linkTime, l) =>
    if first ≠ [0xA5] then some (none, l)
    else
      (readSome 1 (size l + 1) linkTime l).bind fun (second, linkTime, l) =>
        if second ≠ [0x5A] then some (none, l)
        else
          (readSome 2 (size l + 1) linkTime l).bind fun (two, linkTime, l) =>
            (readRest packetSize (size l + 1) (first ++ second ++ two) linkTime l).bind
              fun (packet, _, l) => some (if crcMatches packet then some packet else none, l)

/-- The packets that `polling`, called again and again, gets from the line. -/
def packetsFrom : Nat → List Look → List (List UInt8)
  | 0, _ => []
  | fuel + 1, l =>
    match receiveData l with
    | none => []
    | some (none, l) => packetsFrom fuel l
    | some (some packet, l) => packet :: packetsFrom fuel l

def packets (l : List Look) : List (List UInt8) := packetsFrom (size l + 1) l

/-! ## The bytes alone -/

/-- What the line says. -/
def heard (l : List Look) : List UInt8 :=
  l.flatMap fun look => match look with
    | .bytes b bs => b :: bs
    | _ => []

/-- `receive_data` where every byte is there at once. -/
def plainReceive : List UInt8 → Option (Option (List UInt8) × List UInt8)
  | [] => none
  | a :: r =>
    if a ≠ 0xA5 then some (none, r)
    else match r with
      | [] => none
      | b :: r =>
        if b ≠ 0x5A then some (none, r)
        else if r.length < packetSize - 2 then none
        else
          let packet := a :: b :: r.take (packetSize - 2)
          some (if crcMatches packet then some packet else none, r.drop (packetSize - 2))

def plainPackets : Nat → List UInt8 → List (List UInt8)
  | 0, _ => []
  | fuel + 1, r =>
    match plainReceive r with
    | none => []
    | some (none, r) => plainPackets fuel r
    | some (some packet, r) => packet :: plainPackets fuel r

/-- At most ten pieces between two pauses, at most 150 looks without a byte in a row; so
many of either have just been. -/
def Steady : Nat → Nat → List Look → Prop
  | _, _, [] => True
  | pieces, _, .bytes _ _ :: l => pieces < 10 ∧ Steady (pieces + 1) 0 l
  | _, silent, .quiet :: l => silent < 150 ∧ Steady 0 (silent + 1) l
  | _, silent, .failed :: l => silent < 150 ∧ Steady 0 (silent + 1) l
  | pieces, silent, .hangup :: l => pieces < 10 ∧ silent < 150 ∧ Steady (pieces + 1) (silent + 1) l
  | pieces, silent, .readError :: l =>
    pieces < 10 ∧ silent < 150 ∧ Steady (pieces + 1) (silent + 1) l

/-- Bytes before a packet that `receive_data` passes over one or two at a time and comes out
even. -/
def skips : List UInt8 → Bool
  | [] => true
  | a :: r =>
    if a ≠ 0xA5 then skips r
    else match r with
      | [] => false
      | b :: r => b != 0x5A && skips r

/-! ## The line -/

@[simp] theorem heard_nil : heard [] = [] := rfl

theorem heard_unread (bs : List UInt8) (l : List Look) : heard (unread bs l) = bs ++ heard l := by
  cases bs with
  | nil => rfl
  | cons b bs => rfl

theorem size_cons (look : Look) (l : List Look) : size l < size (look :: l) := by
  unfold size
  rw [List.map_cons, List.sum_cons]
  cases look <;> simp

theorem heard_cons (look : Look) (l : List Look) : heard (look :: l) = heard [look] ++ heard l := by
  unfold heard
  rw [List.flatMap_cons, List.flatMap_cons, List.flatMap_nil, List.append_nil]

theorem size_look (look : Look) (l : List Look) :
    (heard [look]).length + 1 + size l ≤ size (look :: l) := by
  unfold heard size
  rw [List.map_cons, List.sum_cons]
  cases look <;> simp

theorem size_unread {length : Nat} (hlength : 0 < length) (look : Look) (l : List Look) :
    size (unread ((heard [look]).drop length) l) < size (look :: l) := by
  have hlook := size_look look l
  cases hdrop : (heard [look]).drop length with
  | nil => exact size_cons look l
  | cons b bs =>
    have hfew := congrArg List.length hdrop
    rw [List.length_drop, List.length_cons] at hfew
    show bs.length + 2 + size l < _
    omega

/-! ## One look -/

def Look.isPiece : Look → Bool
  | .quiet | .failed => false
  | _ => true

/-- The loop gives up or goes on behind a look. -/
theorem readLoop_look (left : Nat) {length retry : Nat} (total : List UInt8) {look : Look}
    (l : List Look) (hpiece : look.isPiece = true) (hlength : 0 < length) (hretry : 0 < retry) :
    let g := heard [look]
    readLoop left length retry total (look :: l) =
      if length ≤ g.length ∨ look = .readError ∧ retry = 1 then
        some (((total ++ g.take length).length : Int), total ++ g.take length,
          unread (g.drop length) l)
      else (waitReadable l).bind fun (ready, l) =>
        match left with
        | 0 => some (-1, [], l)
        | left + 1 =>
          if ready ≤ 0 then some (((total ++ g).length : Int), total ++ g, l)
          else readLoop left (length - g.length) (retry - if look = .readError then 1 else 0)
            (total ++ g) l := by
  intro g
  cases look with
  | quiet => cases hpiece
  | failed => cases hpiece
  | bytes b bs =>
    have hg : g = b :: bs := by simp [g, heard]
    have hpos : 0 < ((b :: bs).take length).length := by
      rw [List.length_take, List.length_cons]
      omega
    rw [readLoop.eq_def, posixRead, hg]
    simp only [reduceCtorEq, false_and, or_false, if_false, Nat.sub_zero]
    rw [if_neg (show ¬ (((b :: bs).take length).length : Int) < 0 by omega)]
    by_cases hfull : length ≤ (b :: bs).length
    · rw [if_pos hfull]
      refine if_pos (.inl ⟨by omega, ?_⟩)
      rw [List.length_take]
      omega
    · rw [if_neg hfull, List.take_of_length_le (by omega), List.drop_of_length_le (by omega),
        if_neg (by omega)]
      rfl
  | hangup =>
    have hg : g = [] := by simp [g, heard]
    rw [readLoop.eq_def, posixRead, hg]
    simp only [reduceCtorEq, false_and, or_false, if_false, Nat.sub_zero, List.append_nil,
      List.length_nil]
    rw [if_neg (by omega), if_neg (by omega), if_neg (by omega)]
  | readError =>
    have hg : g = [] := by simp [g, heard]
    rw [readLoop.eq_def, posixRead, hg]
    simp only [true_and, if_true, Nat.sub_zero, List.append_nil, List.length_nil]
    rw [if_pos (show (-1 : Int) < 0 by omega)]
    by_cases hgive : retry = 1
    · rw [if_pos (.inr ⟨by omega, by omega⟩), if_pos (.inr hgive)]
      simp [unread]
    · rw [if_neg (by omega), if_neg (by omega)]

/-! ## Bytes lost -/

/-- The first `n` looks find the port readable every time, and leave a read of `length` bytes
short of bytes and of errors to give up on. -/
structure Overruns (n length retry : Nat) (l : List Look) : Prop where
  enough : n ≤ l.length
  pieces : ∀ look ∈ l.take n, look.isPiece = true
  short : (heard (l.take n)).length < length
  errors : (l.take n).count .readError < retry

/-- One look more. -/
theorem overruns_cons {n length retry : Nat} {look : Look} {l : List Look} :
    Overruns (n + 1) length retry (look :: l) ↔ look.isPiece = true ∧
      (heard [look]).length < length ∧ (if look = .readError then 1 else 0) < retry ∧
      Overruns n (length - (heard [look]).length)
        (retry - if look = .readError then 1 else 0) l := by
  have hheard : (heard ((look :: l).take (n + 1))).length =
      (heard [look]).length + (heard (l.take n)).length := by
    rw [List.take_succ_cons, ← List.length_append]
    unfold heard
    rw [List.flatMap_cons, List.flatMap_cons, List.flatMap_nil, List.append_nil]
  have hcount : ((look :: l).take (n + 1)).count .readError =
      (l.take n).count .readError + if look = .readError then 1 else 0 := by
    rw [List.take_succ_cons, List.count_cons]
    by_cases h : look = .readError <;> simp [h]
  constructor
  · rintro ⟨henough, hpieces, hshort, herrors⟩
    rw [hheard] at hshort
    rw [hcount] at herrors
    rw [List.take_succ_cons] at hpieces
    rw [List.length_cons] at henough
    refine ⟨hpieces look List.mem_cons_self, by omega, by omega, by omega, ?_, by omega, by omega⟩
    exact fun u hu => hpieces u (List.mem_cons_of_mem _ hu)
  · rintro ⟨hpiece, hlt, hone, henough, hpieces, hshort, herrors⟩
    refine ⟨Nat.succ_le_succ henough, ?_, by omega, by omega⟩
    intro u hu
    rw [List.take_succ_cons] at hu
    rcases List.mem_cons.mp hu with rfl | hu
    · exact hpiece
    · exact hpieces u hu

/-- What the wait takes off the line is no byte, and was no piece. -/
theorem wait_some {l l' : List Look} {ready : Int} (h : waitReadable l = some (ready, l')) :
    heard l' = heard l ∧
      ((0 < ready ∧ l' = l ∧ ∃ look rest, l = look :: rest ∧ look.isPiece = true) ∨
        (ready ≤ 0 ∧ ∀ n length retry, 0 < n → ¬ Overruns n length retry l)) := by
  cases l with
  | nil => cases h
  | cons look l =>
    have hpause : look.isPiece = false → ∀ n length retry, 0 < n →
        ¬ Overruns n length retry (look :: l) := by
      intro hlook n length retry hn hover
      have hpiece := hover.pieces look (by
        cases n with
        | zero => exact absurd hn (Nat.lt_irrefl 0)
        | succ n => exact List.mem_cons_self)
      rw [hlook] at hpiece
      cases hpiece
    cases look with
    | quiet =>
      cases h
      exact ⟨rfl, .inr ⟨by omega, hpause rfl⟩⟩
    | failed =>
      cases h
      exact ⟨rfl, .inr ⟨by omega, hpause rfl⟩⟩
    | hangup =>
      cases h
      exact ⟨rfl, .inl ⟨by omega, rfl, _, l, rfl, rfl⟩⟩
    | readError =>
      cases h
      exact ⟨rfl, .inl ⟨by omega, rfl, _, l, rfl, rfl⟩⟩
    | bytes b bs =>
      cases h
      exact ⟨rfl, .inl ⟨by omega, rfl, _, l, rfl, rfl⟩⟩

/-- Where the loop ends at a look, its patience did not run out, -/
theorem not_overruns_of_stop {n length retry : Nat} {look : Look} {l : List Look}
    (hstop : length ≤ (heard [look]).length ∨ look = .readError ∧ retry = 1) :
    ¬ Overruns (n + 1) length retry (look :: l) := by
  rw [overruns_cons]
  rintro ⟨-, hlt, hone, -⟩
  rcases hstop with hfull | ⟨rfl, rfl⟩
  · omega
  · simp at hone

/-- where it goes on it has a retry left, -/
theorem retry_left {length retry : Nat} {look : Look} (hretry : 0 < retry)
    (hgo : ¬ (length ≤ (heard [look]).length ∨ look = .readError ∧ retry = 1)) :
    (if look = .readError then 1 else 0) < retry := by
  split
  · rename_i heq
    have hne : retry ≠ 1 := fun h => hgo (.inr ⟨heq, h⟩)
    omega
  · exact hretry

/-- and what it did not take is still there. -/
theorem heard_stop (length : Nat) (look : Look) (l : List Look) :
    heard (look :: l) = (heard [look]).take length ++
      heard (unread ((heard [look]).drop length) l) := by
  rw [heard_unread, ← List.append_assoc, List.take_append_drop]
  exact heard_cons look l

/-- The loop runs out of patience with its pieces, or hands over what it took. -/
theorem readLoop_exact (left : Nat) : ∀ {length retry : Nat} {total got : List UInt8}
    {l l' : List Look} {count : Int} {look : Look}, look.isPiece = true → 0 < length → 0 < retry →
    readLoop left length retry total (look :: l) = some (count, got, l') →
    (Overruns (left + 1) length retry (look :: l) ∧ got = [] ∧
      heard (look :: l) = heard ((look :: l).take (left + 1)) ++ heard l') ∨
    (¬ Overruns (left + 1) length retry (look :: l) ∧
      ∃ more, got = total ++ more ∧ heard (look :: l) = more ++ heard l') := by
  induction left with
  | zero =>
    intro length retry total got l l' count look hpiece hlength hretry hread
    rw [readLoop_look 0 total l hpiece hlength hretry] at hread
    split at hread
    · rename_i hstop
      obtain ⟨-, rfl, rfl⟩ := hread
      exact .inr ⟨not_overruns_of_stop hstop, _, rfl, heard_stop length look l⟩
    · rename_i hgo
      obtain ⟨⟨ready, l1⟩, hwait, hend⟩ := Option.bind_eq_some_iff.mp hread
      obtain ⟨-, rfl, rfl⟩ := hend
      have herror := retry_left hretry hgo
      refine .inl ⟨overruns_cons.mpr ⟨hpiece, by omega, herror, Nat.zero_le _, by simp, ?_, ?_⟩,
        rfl, ?_⟩
      · simp only [List.take_zero, heard_nil, List.length_nil]
        omega
      · simp only [List.take_zero, List.count_nil]
        omega
      · rw [(wait_some hwait).1, heard_cons]
        rfl
  | succ left ih =>
    intro length retry total got l l' count look hpiece hlength hretry hread
    rw [readLoop_look (left + 1) total l hpiece hlength hretry] at hread
    split at hread
    · rename_i hstop
      obtain ⟨-, rfl, rfl⟩ := hread
      exact .inr ⟨not_overruns_of_stop hstop, _, rfl, heard_stop length look l⟩
    · rename_i hgo
      have herror := retry_left hretry hgo
      obtain ⟨⟨ready, l1⟩, hwait, hend⟩ := Option.bind_eq_some_iff.mp hread
      obtain ⟨hheard, ⟨hready, rfl, look', rest, rfl, hpiece'⟩ | ⟨hready, hpause⟩⟩ :=
        wait_some hwait
      · simp only [if_neg (Int.not_le.mpr hready)] at hend
        rcases ih hpiece' (by omega) (by omega) hend with
          ⟨hover, hgot, hrest⟩ | ⟨hover, more, hgot, hrest⟩
        · refine .inl ⟨overruns_cons.mpr ⟨hpiece, by omega, herror, hover⟩, hgot, ?_⟩
          calc heard (look :: look' :: rest)
              = heard [look] ++ heard (look' :: rest) := heard_cons look _
            _ = heard [look] ++ (heard ((look' :: rest).take (left + 1)) ++ heard l') := by
                rw [← hrest]
            _ = heard ((look :: look' :: rest).take (left + 1 + 1)) ++ heard l' := by
                rw [← List.append_assoc, ← heard_cons]
                rfl
        · refine .inr ⟨fun h => hover (overruns_cons.mp h).2.2.2, heard [look] ++ more, ?_, ?_⟩
          · rw [hgot, List.append_assoc]
          · rw [heard_cons, hrest, List.append_assoc]
      · simp only [if_pos hready] at hend
        obtain ⟨-, rfl, rfl⟩ := hend
        refine .inr ⟨fun h => hpause _ _ _ (Nat.succ_pos left) (overruns_cons.mp h).2.2.2,
          heard [look], rfl, ?_⟩
        rw [hheard, ← heard_cons]

/-- **Bytes lost.**  A read that returns has dropped bytes exactly when the port was readable at
eleven looks in a row, fewer than three of them with an error, and what they brought was
something, but less than was asked for. -/
theorem lost_bytes_iff (length : Nat) (l l' : List Look) (count : Int) (got : List UInt8)
    (hlength : 0 < length) (h : read length l = some (count, got, l')) :
    heard l ≠ got ++ heard l' ↔ Overruns 11 length 3 l ∧ heard (l.take 11) ≠ [] := by
  unfold read at h
  obtain ⟨⟨ready, l1⟩, hwait, hend⟩ := Option.bind_eq_some_iff.mp h
  obtain ⟨hheard, ⟨hready, rfl, look, rest, rfl, hpiece⟩ | ⟨hready, hpause⟩⟩ := wait_some hwait
  · simp only [if_neg (Int.not_le.mpr hready)] at hend
    rcases readLoop_exact 10 hpiece hlength (by omega) hend with
      ⟨hover, rfl, hrest⟩ | ⟨hover, more, hgot, hrest⟩
    · refine ⟨fun hne => ⟨hover, fun hnil => hne ?_⟩, fun hne heq => hne.2 ?_⟩
      · rw [hrest, hnil]
      · rw [hrest] at heq
        exact List.append_left_eq_self.mp heq
    · rw [List.nil_append] at hgot
      rw [hgot]
      exact ⟨fun hne => absurd hrest hne, fun hne => absurd hne.1 hover⟩
  · simp only [if_pos hready] at hend
    obtain ⟨-, rfl, rfl⟩ := hend
    rw [List.nil_append, hheard]
    exact ⟨fun hne => absurd rfl hne, fun hne => absurd hne.1 (hpause _ _ _ (by omega))⟩

/-- The rest of a packet, one byte at a time. -/
def dribble : List Look := List.replicate 12 (.bytes 0x07 [])

theorem lost_bytes_iff_dribble : heard dribble ≠ [] ++ heard [.bytes 0x07 []] :=
  (lost_bytes_iff 104 dribble [.bytes 0x07 []] (-1) [] (by decide) (by decide)).mpr
    ⟨⟨by decide, by decide, by decide, by decide⟩, by decide⟩

/-! ## Steady lines -/

/-- A read took `got` off the line and left `l'`; with nothing taken, one more look went by
without a byte. -/
structure Took (length : Nat) (l : List Look) (silent : Nat) (got : List UInt8) (l' : List Look) :
    Prop where
  short : got.length ≤ length
  heard : heard l = got ++ heard l'
  size : size l' < size l
  steady : ∃ pieces' silent', Steady pieces' silent' l' ∧
    (got = [] → silent < silent' ∧ silent' ≤ 150)

/-- A piece of a steady line is one of ten; what may be left of it is steady too. -/
theorem steady_piece {pieces silent : Nat} {look : Look} {l : List Look}
    (hpiece : look.isPiece = true) (h : Steady pieces silent (look :: l)) :
    pieces < 10 ∧ ∃ silent', Steady (pieces + 1) silent' l ∧
      (heard [look] = [] → silent < silent' ∧ silent' ≤ 150) ∧
      ∀ n, ∃ pieces' silent', Steady pieces' silent' (unread ((heard [look]).drop n) l) ∧
        (heard [look] = [] → silent < silent' ∧ silent' ≤ 150) := by
  cases look with
  | quiet => cases hpiece
  | failed => cases hpiece
  | hangup =>
    obtain ⟨hp, hs, hl⟩ := h
    exact ⟨hp, _, hl, fun _ => ⟨Nat.lt_succ_self _, hs⟩, fun n =>
      ⟨_, _, by simpa [heard, unread] using hl, fun _ => ⟨Nat.lt_succ_self _, hs⟩⟩⟩
  | readError =>
    obtain ⟨hp, hs, hl⟩ := h
    exact ⟨hp, _, hl, fun _ => ⟨Nat.lt_succ_self _, hs⟩, fun n =>
      ⟨_, _, by simpa [heard, unread] using hl, fun _ => ⟨Nat.lt_succ_self _, hs⟩⟩⟩
  | bytes b bs =>
    obtain ⟨hp, hl⟩ := h
    have hsome : heard [.bytes b bs] = b :: bs := by simp [heard]
    refine ⟨hp, 0, hl, fun hnil => ?_, fun n => ?_⟩
    · rw [hsome] at hnil
      cases hnil
    · rw [hsome]
      cases hdrop : (b :: bs).drop n with
      | nil => exact ⟨_, _, hl, fun hnil => by cases hnil⟩
      | cons c cs => exact ⟨pieces, 0, ⟨hp, hl⟩, fun hnil => by cases hnil⟩

/-- What the wait between two pieces finds. -/
theorem wait_cases {pieces silent : Nat} {l : List Look} (h : Steady pieces silent l) :
    (l = [] ∧ waitReadable l = none) ∨
      (∃ ready l', waitReadable l = some (ready, l') ∧ ready ≤ 0 ∧ heard l = heard l' ∧
        size l' < size l ∧ silent < 150 ∧ Steady 0 (silent + 1) l') ∨
      ∃ look rest, l = look :: rest ∧ look.isPiece = true ∧ waitReadable l = some (1, l) := by
  cases l with
  | nil => exact .inl ⟨rfl, rfl⟩
  | cons look l =>
    cases look with
    | quiet => exact .inr (.inl ⟨0, l, rfl, by omega, rfl, size_cons _ _, h.1, h.2⟩)
    | failed => exact .inr (.inl ⟨-1, l, rfl, by omega, rfl, size_cons _ _, h.1, h.2⟩)
    | hangup => exact .inr (.inr ⟨_, l, rfl, rfl, rfl⟩)
    | readError => exact .inr (.inr ⟨_, l, rfl, rfl, rfl⟩)
    | bytes b bs => exact .inr (.inr ⟨_, l, rfl, rfl, rfl⟩)

/-- The reading loop, from a port that has something to say. -/
theorem readLoop_spec (left : Nat) : ∀ (length retry : Nat) (total : List UInt8) {look : Look}
    {l : List Look} {pieces silent : Nat}, look.isPiece = true →
    Steady pieces silent (look :: l) → 10 ≤ left + pieces → 0 < length → 0 < retry →
    (readLoop left length retry total (look :: l) = none ∧ (heard (look :: l)).length < length) ∨
      ∃ got l', readLoop left length retry total (look :: l) =
        some (((total ++ got).length : Int), total ++ got, l') ∧
        Took length (look :: l) silent got l' := by
  induction left with
  | zero =>
    intro length retry total look l pieces silent hpiece hsteady hleft hlength hretry
    -- ten pieces have been: the line pauses before an eleventh
    obtain ⟨hp, -⟩ := steady_piece hpiece hsteady
    omega
  | succ left ih =>
    intro length retry total look l pieces silent hpiece hsteady hleft hlength hretry
    obtain ⟨hp, silent', hl, hsilent, hunread⟩ := steady_piece hpiece hsteady
    rw [readLoop_look (left + 1) total l hpiece hlength hretry]
    split
    · obtain ⟨p, s, hps, hs⟩ := hunread length
      refine .inr ⟨_, _, rfl, ?_, heard_stop length look l, size_unread hlength look l, p, s, hps,
        fun hnil => hs ?_⟩
      · rw [List.length_take]
        omega
      · rw [List.take_eq_nil_iff] at hnil
        exact hnil.resolve_left (Nat.ne_of_gt hlength)
    · rename_i hgo
      have hlook := size_look look l
      have herror := retry_left hretry hgo
      rcases wait_cases hl with ⟨rfl, hwait⟩ |
        ⟨ready, l', hwait, hready, hheard, hsize, hs, hl'⟩ | ⟨look', rest, rfl, hpiece', hwait⟩
      · refine .inl ⟨by rw [hwait]; rfl, ?_⟩
        omega
      · refine .inr ⟨heard [look], l', ?_, by omega, ?_, by omega, 0, silent' + 1, hl',
          fun hnil => ?_⟩
        · rw [hwait]
          exact if_pos hready
        · rw [heard_cons, hheard]
        · have hlt := hsilent hnil
          omega
      · rw [hwait]
        rcases ih (length - (heard [look]).length) _ (total ++ heard [look]) hpiece' hl (by omega)
            (by omega) (Nat.sub_pos_of_lt herror) with ⟨hnone, hfew⟩ | ⟨got, l', hread, htook⟩
        · refine .inl ⟨hnone, ?_⟩
          rw [heard_cons, List.length_append]
          omega
        · obtain ⟨p, s, hps, hgot⟩ := htook.steady
          have hfew := htook.short
          have hsize := htook.size
          refine .inr ⟨heard [look] ++ got, l', ?_, ?_, ?_, by omega, p, s, hps, fun hnil => ?_⟩
          · rw [← List.append_assoc]
            exact hread
          · rw [List.length_append]
            omega
          · rw [heard_cons, htook.heard, List.append_assoc]
          · obtain ⟨hnil, hnone⟩ := List.append_eq_nil_iff.mp hnil
            have hlt := hsilent hnil
            have hlt' := hgot hnone
            omega

/-- `LSIOSR::read` on a steady line hands over every byte it takes. -/
theorem read_spec {length : Nat} {l : List Look} {pieces silent : Nat}
    (hsteady : Steady pieces silent l) (hlength : 0 < length) :
    (read length l = none ∧ (heard l).length < length) ∨
      ∃ count got l', read length l = some (count, got, l') ∧ Took length l silent got l' ∧
        (count ≤ 0 ↔ got = []) := by
  unfold read
  rcases wait_cases hsteady with
    ⟨rfl, hwait⟩ | ⟨ready, l', hwait, hready, hheard, hsize, hsilent, hl'⟩ |
      ⟨look, rest, rfl, hpiece, hwait⟩
  · exact .inl ⟨by rw [hwait]; rfl, hlength⟩
  · refine .inr ⟨if ready = 0 then 0 else -1, [], l', ?_,
      ⟨by simp, hheard, hsize, 0, silent + 1, hl', fun _ => ⟨Nat.lt_succ_self _, hsilent⟩⟩, ?_⟩
    · rw [hwait]
      exact if_pos hready
    · split <;> simp
  · rw [hwait]
    rcases readLoop_spec 10 length 3 [] hpiece hsteady (by omega) hlength (by omega) with
      ⟨hread, hshort⟩ | ⟨got, l', hread, htook⟩
    · exact .inl ⟨hread, hshort⟩
    · refine .inr ⟨_, got, l', hread, htook, ?_⟩
      rw [List.nil_append, Int.natCast_nonpos_iff, List.length_eq_zero_iff]

/-! ## One packet -/

/-- Steady, with no more reads without a byte counted than looks without a byte went by. -/
def Sound (linkTime : Nat) (l : List Look) : Prop :=
  ∃ pieces silent, Steady pieces silent l ∧ linkTime ≤ silent

/-- On a steady line the port is not opened again. -/
theorem recvThreadCrc_spec {length linkTime silent : Nat} {count : Int} {l l' : List Look}
    {got : List UInt8} (htook : Took length l silent got l') (hcount : count ≤ 0 ↔ got = [])
    (hlink : linkTime ≤ silent) :
    ∃ linkTime', recvThreadCrc count linkTime l' = (linkTime', l') ∧ Sound linkTime' l' := by
  obtain ⟨p, s, hps, hgot⟩ := htook.steady
  unfold recvThreadCrc
  by_cases h : count ≤ 0
  · have hs := hgot (hcount.mp h)
    refine ⟨linkTime + 1, ?_, p, s, hps, by omega⟩
    simp only [if_pos h]
    rw [if_neg (by omega)]
  · refine ⟨0, ?_, p, s, hps, Nat.zero_le _⟩
    simp only [if_neg h]
    rw [if_neg (by omega)]

/-- What a loop of reads leaves: bytes taken in order, the line still sound. -/
structure Passed (l : List Look) (got : List UInt8) (linkTime : Nat) (l' : List Look) : Prop where
  heard : heard l = got ++ heard l'
  size : size l' ≤ size l
  sound : Sound linkTime l'

theorem readSome_spec {length : Nat} (hlength : 0 < length) (fuel : Nat) : ∀ {linkTime : Nat}
    {l : List Look}, Sound linkTime l → size l < fuel →
    (readSome length fuel linkTime l = none ∧ (heard l).length < length) ∨
      ∃ got linkTime' l', readSome length fuel linkTime l = some (got, linkTime', l') ∧ got ≠ [] ∧
        got.length ≤ length ∧ size l' < size l ∧ Passed l got linkTime' l' := by
  induction fuel with
  | zero => exact fun _ hfuel => absurd hfuel (Nat.not_lt_zero _)
  | succ fuel ih =>
    rintro linkTime l ⟨pieces, silent, hsteady, hlink⟩ hfuel
    rw [readSome]
    rcases read_spec hsteady hlength with ⟨hread, hshort⟩ | ⟨count, got, l', hread, htook, hcount⟩
    · exact .inl ⟨by rw [hread]; rfl, hshort⟩
    · obtain ⟨linkTime', hcrc, hsound⟩ := recvThreadCrc_spec htook hcount hlink
      rw [hread]
      simp only [Option.bind_some, hcrc]
      have hsize := htook.size
      by_cases h : count ≤ 0
      · have hheard := htook.heard
        rw [hcount.mp h, List.nil_append] at hheard
        rw [if_pos h, hheard]
        rcases ih hsound (by omega) with ⟨hnone, hshort⟩ |
          ⟨got, lt, l'', hsome, hgot, hle, hlt, hpassed⟩
        · exact .inl ⟨hnone, hshort⟩
        · exact .inr ⟨got, lt, l'', hsome, hgot, hle, Nat.lt_trans hlt hsize,
            hheard.trans hpassed.heard, Nat.le_of_lt (Nat.lt_trans hlt hsize), hpassed.sound⟩
      · rw [if_neg h]
        exact .inr ⟨got, linkTime', l', rfl, fun hgot => h (hcount.mpr hgot), htook.short,
          hsize, htook.heard, Nat.le_of_lt hsize, hsound⟩

/-- The last loop fills the packet with the bytes that come next. -/
theorem readRest_spec {len : Nat} (fuel : Nat) : ∀ {packet : List UInt8} {linkTime : Nat}
    {l : List Look}, Sound linkTime l → size l < fuel → packet.length ≤ len →
    (readRest len fuel packet linkTime l = none ∧ (packet ++ heard l).length < len) ∨
      ∃ got linkTime' l',
        readRest len fuel packet linkTime l = some (packet ++ got, linkTime', l') ∧
        (packet ++ got).length = len ∧ Passed l got linkTime' l' := by
  induction fuel with
  | zero => exact fun _ hfuel => absurd hfuel (Nat.not_lt_zero _)
  | succ fuel ih =>
    intro packet linkTime l hsound hfuel hpacket
    rw [readRest]
    by_cases hfull : packet.length < len
    · rw [if_pos hfull]
      obtain ⟨pieces, silent, hsteady, hlink⟩ := hsound
      rcases read_spec hsteady (Nat.sub_pos_of_lt hfull) with
        ⟨hread, hshort⟩ | ⟨count, got, l', hread, htook, hcount⟩
      · refine .inl ⟨by rw [hread]; rfl, ?_⟩
        rw [List.length_append]
        omega
      · obtain ⟨linkTime', hcrc, hsound⟩ := recvThreadCrc_spec htook hcount hlink
        rw [hread]
        simp only [Option.bind_some, hcrc]
        have hsize := htook.size
        have hgot := htook.short
        rw [htook.heard]
        rcases @ih (packet ++ got) _ _ hsound (by omega) (by rw [List.length_append]; omega) with
          ⟨hnone, hshort⟩ | ⟨more, lt, l'', hsome, hlen, hpassed⟩
        · exact .inl ⟨hnone, by rwa [List.append_assoc] at hshort⟩
        · refine .inr ⟨got ++ more, lt, l'', ?_, ?_, ?_,
            Nat.le_trans hpassed.size (Nat.le_of_lt hsize), hpassed.sound⟩
          · rw [hsome, List.append_assoc]
          · rw [← List.append_assoc, hlen]
          · rw [htook.heard, hpassed.heard, List.append_assoc]
    · rw [if_neg hfull]
      refine .inr ⟨[], linkTime, l, by rw [List.append_nil], ?_, by simp, Nat.le_refl _, hsound⟩
      rw [List.append_nil]
      omega

theorem Sound.restart {linkTime : Nat} {l : List Look} (h : Sound linkTime l) : Sound 0 l := by
  obtain ⟨pieces, silent, hsteady, -⟩ := h
  exact ⟨pieces, silent, hsteady, Nat.zero_le _⟩

/-- One byte of the header. -/
theorem readSome_one {linkTime fuel : Nat} {l : List Look} (h : Sound linkTime l)
    (hfuel : size l < fuel) :
    (readSome 1 fuel linkTime l = none ∧ heard l = []) ∨
      ∃ b linkTime' l', readSome 1 fuel linkTime l = some ([b], linkTime', l') ∧
        heard l = b :: heard l' ∧ size l' < size l ∧ Sound linkTime' l' := by
  rcases readSome_spec Nat.one_pos fuel h hfuel with
    ⟨hnone, hshort⟩ | ⟨got, lt, l', hsome, hgot, hle, hlt, hpassed⟩
  · exact .inl ⟨hnone, List.length_eq_zero_iff.mp (Nat.lt_one_iff.mp hshort)⟩
  · obtain ⟨b, rfl⟩ : ∃ b, got = [b] := by
      refine List.length_eq_one_iff.mp (Nat.le_antisymm hle ?_)
      exact List.length_pos_of_ne_nil hgot
    exact .inr ⟨b, lt, l', hsome, hpassed.heard, hlt, hpassed.sound⟩

/-- One call of `receive_data` on a steady line does what it would on the bytes alone. -/
theorem receiveData_spec {l : List Look} (h : Sound 0 l) :
    (receiveData l = none ∧ plainReceive (heard l) = none) ∨
      ∃ r l', receiveData l = some (r, l') ∧ plainReceive (heard l) = some (r, heard l') ∧
        size l' < size l ∧ Sound 0 l' := by
  have hsize : packetSize = 108 := rfl
  unfold receiveData
  rcases readSome_one h (Nat.lt_succ_self (size l)) with
    ⟨hread, hheard⟩ | ⟨a, lt1, l1, hread, hheard, hsize1, hsound1⟩
  · exact .inl ⟨by rw [hread]; rfl, by rw [hheard]; rfl⟩
  rw [hread, hheard]
  simp only [Option.bind_some, plainReceive]
  by_cases ha : a = 0xA5
  swap
  · exact .inr ⟨none, l1, by simp [ha], by simp [ha], hsize1, hsound1.restart⟩
  subst ha
  rw [if_neg (by simp), if_neg (by simp)]
  rcases readSome_one hsound1 (Nat.lt_succ_self (size l1)) with
    ⟨hread, hheard⟩ | ⟨b, lt2, l2, hread, hheard, hsize2, hsound2⟩
  · exact .inl ⟨by rw [hread]; rfl, by rw [hheard]⟩
  rw [hread, hheard]
  simp only [Option.bind_some]
  by_cases hb : b = 0x5A
  swap
  · exact .inr ⟨none, l2, by simp [hb], by simp [hb], by omega, hsound2.restart⟩
  subst hb
  rw [if_neg (by simp), if_neg (by simp)]
  rcases readSome_spec Nat.two_pos (size l2 + 1) hsound2 (Nat.lt_succ_self _) with
    ⟨hread, hshort⟩ | ⟨two, lt3, l3, hread, -, hle, hsize3, hpassed3⟩
  · exact .inl ⟨by rw [hread]; rfl, if_pos (by omega)⟩
  rw [hread]
  simp only [Option.bind_some]
  have hheader : ([0xA5] ++ [0x5A] ++ two : List UInt8).length = two.length + 2 := by simp
  rcases readRest_spec (size l3 + 1) hpassed3.sound (Nat.lt_succ_self _)
      (show ([0xA5] ++ [0x5A] ++ two).length ≤ packetSize by omega) with
    ⟨hread, hshort⟩ | ⟨got, lt4, l4, hread, hlen, hpassed4⟩
  · refine .inl ⟨by rw [hread]; rfl, ?_⟩
    rw [List.length_append, hheader] at hshort
    rw [hpassed3.heard]
    exact if_pos (by rw [List.length_append]; omega)
  · have hsize4 := hpassed4.size
    have hbody : (two ++ got).length = packetSize - 2 := by
      rw [List.length_append, hheader] at hlen
      rw [List.length_append]
      omega
    have hrest : heard l2 = (two ++ got) ++ heard l4 := by
      rw [hpassed3.heard, hpassed4.heard, List.append_assoc]
    refine .inr ⟨_, l4, by rw [hread]; rfl, ?_, by omega, hpassed4.sound.restart⟩
    rw [hrest, if_neg (by rw [List.length_append, hbody]; omega), ← hbody, List.take_left,
      List.drop_left]
    rfl

/-! ## Every packet -/

theorem plainReceive_lt {r rest : List UInt8} {packet : Option (List UInt8)}
    (h : plainReceive r = some (packet, rest)) : rest.length < r.length := by
  unfold plainReceive at h
  cases r with
  | nil => cases h
  | cons a r =>
    simp only at h
    split at h
    · cases h
      simp
    · cases r with
      | nil => cases h
      | cons b r =>
        simp only at h
        split at h
        · cases h
          simp only [List.length_cons]
          omega
        · split at h
          · cases h
          · cases h
            rw [List.length_drop, List.length_cons, List.length_cons]
            omega

theorem packetsFrom_plain (fuel : Nat) : ∀ {l : List Look} {fuel' : Nat}, Sound 0 l →
    size l < fuel → (heard l).length < fuel' →
    packetsFrom fuel l = plainPackets fuel' (heard l) := by
  induction fuel with
  | zero => exact fun _ hfuel => absurd hfuel (Nat.not_lt_zero _)
  | succ fuel ih =>
    intro l fuel' hsound hfuel hfuel'
    cases fuel' with
    | zero => exact absurd hfuel' (Nat.not_lt_zero _)
    | succ fuel' =>
      rw [packetsFrom, plainPackets]
      rcases receiveData_spec hsound with ⟨hreal, hplain⟩ | ⟨r, l', hreal, hplain, hsize, hsound'⟩
      · rw [hreal, hplain]
      · have hlt := plainReceive_lt hplain
        have hrest := @ih l' fuel' hsound' (by omega) (by omega)
        rw [hreal, hplain]
        cases r with
        | none => exact hrest
        | some packet => exact congrArg (packet :: ·) hrest

/-- **What is received does not depend on the pieces.**  Two steady lines with the same bytes
give the same packets, wherever the bytes are cut and however long the line pauses. -/
theorem packets_congr (l l' : List Look) (hl : Steady 0 0 l) (hl' : Steady 0 0 l')
    (hheard : heard l = heard l') : packets l = packets l' := by
  have hplain := packetsFrom_plain (size l + 1) ⟨0, 0, hl, Nat.le_refl _⟩ (Nat.lt_succ_self _)
    (Nat.lt_succ_self (heard l).length)
  have hplain' := packetsFrom_plain (size l' + 1) ⟨0, 0, hl', Nat.le_refl _⟩ (Nat.lt_succ_self _)
    (Nat.lt_succ_self (heard l').length)
  unfold packets
  rw [hplain, hplain', hheard]

/-- A packet of zeros, in one piece and in three. -/
def zerosInOne : List Look := [.bytes 0xA5 (0x5A :: (List.replicate 105 0 ++ [0xFF]))]

def zerosInThree : List Look :=
  [.quiet, .bytes 0xA5 [], .hangup, .bytes 0x5A (List.replicate 40 0), .quiet, .failed,
    .bytes 0 (List.replicate 64 0 ++ [0xFF])]

theorem packets_congr_zeros : packets zerosInThree = packets zerosInOne :=
  packets_congr zerosInThree zerosInOne (by simp [Steady, zerosInThree])
    (by simp [Steady, zerosInOne]) (by decide)

/-- A packet of the N10_P as it stands on the line. -/
structure LidarPacket where
  body : List UInt8
  length_body : body.length = packetSize - 2

def LidarPacket.bytes (p : LidarPacket) : List UInt8 := 0xA5 :: 0x5A :: p.body

theorem plainReceive_packet (p : LidarPacket) (r : List UInt8) :
    plainReceive (p.bytes ++ r) =
      some (if crcMatches p.bytes then some p.bytes else none, r) := by
  have hbody := p.length_body
  show plainReceive (0xA5 :: 0x5A :: (p.body ++ r)) = _
  simp only [plainReceive]
  rw [if_neg (by simp), if_neg (by simp), if_neg (by rw [List.length_append, hbody]; omega),
    ← hbody, List.take_left, List.drop_left]
  rfl

/-- Bytes passed over cost turns and give nothing. -/
theorem plainPackets_skips (n : Nat) : ∀ {g r : List UInt8} {fuel : Nat}, g.length ≤ n →
    skips g = true → (g ++ r).length < fuel →
    ∃ fuel', r.length < fuel' ∧ plainPackets fuel (g ++ r) = plainPackets fuel' r := by
  induction n with
  | zero =>
    intro g r fuel hg _ hfuel
    obtain rfl := List.length_eq_zero_iff.mp (Nat.le_zero.mp hg)
    exact ⟨fuel, hfuel, rfl⟩
  | succ n ih =>
    intro g r fuel hg hskips hfuel
    cases g with
    | nil => exact ⟨fuel, hfuel, rfl⟩
    | cons a g =>
      cases fuel with
      | zero => exact absurd hfuel (Nat.not_lt_zero _)
      | succ fuel =>
        unfold skips at hskips
        simp only [List.cons_append, List.length_cons, List.length_append] at hg hfuel
        by_cases ha : a = 0xA5
        · subst ha
          rw [if_neg (by simp)] at hskips
          cases g with
          | nil => simp at hskips
          | cons b g =>
            simp only [Bool.and_eq_true, bne_iff_ne] at hskips
            obtain ⟨hb, hskips⟩ := hskips
            simp only [List.length_cons] at hg hfuel
            obtain ⟨fuel', hfuel', heq⟩ := @ih g r fuel (by omega) hskips
              (by rw [List.length_append]; omega)
            refine ⟨fuel', hfuel', ?_⟩
            have hturn : plainReceive (0xA5 :: b :: (g ++ r)) = some (none, g ++ r) := by
              simp [plainReceive, hb]
            rw [← heq, List.cons_append, List.cons_append, plainPackets, hturn]
        · rw [if_pos ha] at hskips
          obtain ⟨fuel', hfuel', heq⟩ := @ih g r fuel (by omega) hskips
            (by rw [List.length_append]; omega)
          refine ⟨fuel', hfuel', ?_⟩
          have hturn : plainReceive (a :: (g ++ r)) = some (none, g ++ r) := by
            simp [plainReceive, ha]
          rw [← heq, List.cons_append, plainPackets, hturn]

/-- Gaps and packets in turn. -/
theorem plainPackets_stream (xs : List (List UInt8 × LidarPacket)) : ∀ {fuel : Nat},
    (∀ x ∈ xs, skips x.1 = true) → (xs.flatMap fun x => x.1 ++ x.2.bytes).length < fuel →
    plainPackets fuel (xs.flatMap fun x => x.1 ++ x.2.bytes) =
      (xs.map fun x => x.2.bytes).filter crcMatches := by
  induction xs with
  | nil =>
    intro fuel _ _
    cases fuel <;> rfl
  | cons x xs ih =>
    intro fuel hgap hfuel
    rw [List.flatMap_cons, List.append_assoc] at hfuel ⊢
    obtain ⟨fuel', hfuel', heq⟩ := plainPackets_skips x.1.length (Nat.le_refl _)
      (hgap x List.mem_cons_self) hfuel
    rw [heq]
    cases fuel' with
    | zero => exact absurd hfuel' (Nat.not_lt_zero _)
    | succ fuel' =>
      rw [List.length_append] at hfuel'
      have hbytes : x.2.bytes.length = packetSize := by
        show x.2.body.length + 2 = _
        rw [x.2.length_body]
        rfl
      have hsize : packetSize = 108 := rfl
      have hrest := @ih fuel' (fun y hy => hgap y (List.mem_cons_of_mem _ hy)) (by omega)
      rw [plainPackets, plainReceive_packet, List.map_cons]
      by_cases hcrc : crcMatches x.2.bytes = true
      · rw [List.filter_cons_of_pos hcrc, if_pos hcrc]
        exact congrArg (x.2.bytes :: ·) hrest
      · rw [List.filter_cons_of_neg hcrc, if_neg hcrc]
        exact hrest

/-- **The packets with a right sum, in order, each once.**  A line that carries gaps and
packets in turn, in whatever pieces, gives the packets whose checksum is right; a damaged one
costs no other. -/
theorem packets_eq (xs : List (List UInt8 × LidarPacket)) (l : List Look) (hline : Steady 0 0 l)
    (hgap : ∀ x ∈ xs, skips x.1 = true)
    (hheard : heard l = xs.flatMap fun x => x.1 ++ x.2.bytes) :
    packets l = (xs.map fun x => x.2.bytes).filter crcMatches := by
  unfold packets
  rw [packetsFrom_plain (size l + 1) ⟨0, 0, hline, Nat.le_refl _⟩ (Nat.lt_succ_self _)
    (Nat.lt_succ_self (heard l).length), hheard]
  exact plainPackets_stream xs hgap (by rw [← hheard]; exact Nat.lt_succ_self _)

end AgvPro.Lslidar
