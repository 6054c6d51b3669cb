import Mathlib.Data.List.Infix
import Mathlib.Data.List.ReduceOption

/-!
# The AT handshake: `send_at_commands`

Each command is written, followed by CR LF, up to three times until a reply holds `OK`; a
command that gets none ends the handshake.  `read_serial_response` polls the port in a loop
that only received bytes end: CR LF, or more than 100 of them.  One element of `polls` is
one round of that loop, with the byte it found; a list of polls that ends too early leaves
the calls waiting (`none`).

`replies` cuts what the device says into complete replies; the handshake depends on nothing
else.

    send_at_commands is over, and has kept the limits
      ↔ some finite part of the replies has an OK for each command, or three in a row
        without                                                   (handshakes_iff)
-/

namespace AgvPro

/-- One write of a command and the reply to it. -/
structure Exchange where
  index : Nat
  written : String
  response : List UInt8
deriving DecidableEq

namespace SerialCANParser

def maxRetries : Nat := 3

/-- `b"OK" in response` -/
def hasOk (response : List UInt8) : Bool := decide ([0x4F, 0x4B] <:+: response)

/-- A CR LF, or more than 100 bytes. -/
def complete (response : List UInt8) : Bool :=
  decide ([0x0D, 0x0A] <:+: response) || decide (response.length > 100)

/-- The polling loop, with `response` received so far. -/
def readSerialResponse (response : List UInt8) :
    List (Option UInt8) → Option (List UInt8 × List (Option UInt8))
  | [] => none
  | byte :: polls =>
    let response := response ++ byte.toList
    if complete response then some (response, polls) else readSerialResponse response polls

/-- The retries of one command, `left` of them to go: the exchanges, and whether the last
one brought an `OK`. -/
def sendCommand (index : Nat) (command : String) :
    Nat → List (Option UInt8) → Option (List Exchange × Bool × List (Option UInt8))
  | 0, polls => some ([], false, polls)
  | left + 1, polls =>
    match readSerialResponse [] polls with
    | none => none
    | some (response, polls) =>
      let exchange : Exchange := ⟨index, command ++ "\r\n", response⟩
      if hasOk response then some ([exchange], true, polls)
      else (sendCommand index command left polls).map fun out => (exchange :: out.1, out.2)

/-- The commands in turn, the first of them the `index`-th. -/
def sendAtCommands (index : Nat) :
    List String → List (Option UInt8) → Option (List Exchange × List (Option UInt8))
  | [], polls => some ([], polls)
  | command :: commands, polls =>
    match sendCommand index command maxRetries polls with
    | none => none
    | some (log, false, polls) => some (log, polls)
    | some (log, true, polls) =>
      (sendAtCommands (index + 1) commands polls).map fun out => (log ++ out.1, out.2)

/-! ## Replies -/

/-- The complete replies in what the device says, `response` received before. -/
def cut (response : List UInt8) : List UInt8 → List (List UInt8)
  | [] => []
  | b :: bs =>
    if complete (response ++ [b]) then (response ++ [b]) :: cut [] bs else cut (response ++ [b]) bs

def replies (polls : List (Option UInt8)) : List (List UInt8) := cut [] polls.reduceOption

/-- The handshake over a list of replies, with `m` commands and, for the first of them,
`left` retries to go: acknowledged, given up, or not over. -/
def verdict : Nat → Nat → List (List UInt8) → Option Bool
  | 0, _, _ => some true
  | _ + 1, 0, _ => some false
  | _ + 1, _ + 1, [] => none
  | m + 1, left + 1, r :: rs => if hasOk r then verdict m maxRetries rs else verdict (m + 1) left rs

/-- What a call of `read_serial_response` returns is the next reply. -/
theorem cut_readSerialResponse (polls : List (Option UInt8)) (response : List UInt8)
    (hpart : complete response = false) :
    cut response polls.reduceOption =
      match readSerialResponse response polls with
      | none => []
      | some (r, rest) => r :: replies rest := by
  induction polls generalizing response with
  | nil => rfl
  | cons byte polls ih =>
    cases byte with
    | none =>
      have hsame : response ++ (none : Option UInt8).toList = response := List.append_nil response
      rw [List.reduceOption_cons_of_none, ih response hpart, readSerialResponse]
      simp only [hsame, hpart, Bool.false_eq_true, if_false]
    | some b =>
      rw [List.reduceOption_cons_of_some, cut, readSerialResponse]
      simp only [Option.toList_some]
      by_cases hdone : complete (response ++ [b]) = true
      · simp only [hdone, if_true]
        rfl
      · simp only [hdone, Bool.false_eq_true, if_false]
        exact ih _ (Bool.eq_false_iff.mpr hdone)

theorem replies_eq (polls : List (Option UInt8)) :
    replies polls =
      match readSerialResponse [] polls with
      | none => []
      | some (r, rest) => r :: replies rest :=
  cut_readSerialResponse polls [] (by decide)

/-- The retries of one command, on the replies. -/
theorem verdict_sendCommand (index : Nat) (command : String) (m left : Nat)
    (polls : List (Option UInt8)) :
    verdict (m + 1) left (replies polls) =
      (sendCommand index command left polls).bind fun out =>
        if out.2.1 then verdict m maxRetries (replies out.2.2) else some false := by
  induction left generalizing polls with
  | zero => simp [verdict, sendCommand]
  | succ left ih =>
    rw [replies_eq, sendCommand]
    cases hread : readSerialResponse [] polls with
    | none => rfl
    | some out =>
      obtain ⟨r, rest⟩ := out
      simp only [verdict]
      cases hok : hasOk r with
      | true => rfl
      | false =>
        simp only [Bool.false_eq_true, if_false]
        rw [ih rest, Option.bind_map]
        rfl

/-- **The handshake is over** exactly when the replies decide it. -/
theorem isSome_sendAtCommands (commands : List String) (index : Nat) (polls : List (Option UInt8)) :
    (sendAtCommands index commands polls).isSome =
      (verdict commands.length maxRetries (replies polls)).isSome := by
  induction commands generalizing index polls with
  | nil => simp [sendAtCommands, verdict]
  | cons command commands ih =>
    rw [List.length_cons, verdict_sendCommand index command, sendAtCommands]
    cases hsend : sendCommand index command maxRetries polls with
    | none => rfl
    | some out =>
      obtain ⟨log, ok, rest⟩ := out
      cases ok with
      | false => rfl
      | true =>
        simp only [Option.isSome_map, Option.bind_some, if_true]
        exact ih (index + 1) rest

/-! ## Enough replies -/

/-- The first `k` replies are there and none holds an `OK`. -/
def Refused (k : Nat) (rs : List (List UInt8)) : Prop :=
  ∃ w, w <+: rs ∧ w.length = k ∧ ∀ r ∈ w, hasOk r = false

theorem refused_zero (rs : List (List UInt8)) : Refused 0 rs :=
  ⟨[], List.nil_prefix, rfl, fun _ h => (List.not_mem_nil h).elim⟩

theorem not_refused_nil (k : Nat) : ¬ Refused (k + 1) [] := by
  rintro ⟨w, hw, hlen, -⟩
  rw [List.prefix_nil.mp hw] at hlen
  cases hlen

theorem refused_cons (k : Nat) (r : List UInt8) (rs : List (List UInt8)) :
    Refused (k + 1) (r :: rs) ↔ hasOk r = false ∧ Refused k rs := by
  constructor
  · rintro ⟨w, hw, hlen, hno⟩
    cases w with
    | nil => cases hlen
    | cons r' w =>
      obtain ⟨rfl, hrest⟩ := List.cons_prefix_cons.mp hw
      exact ⟨hno r' List.mem_cons_self, w, hrest, Nat.succ.inj hlen,
        fun x hx => hno x (List.mem_cons_of_mem _ hx)⟩
  · rintro ⟨hr, w, hw, hlen, hno⟩
    refine ⟨r :: w, List.cons_prefix_cons.mpr ⟨rfl, hw⟩, by rw [List.length_cons, hlen], ?_⟩
    intro x hx
    rcases List.mem_cons.mp hx with rfl | hx
    · exact hr
    · exact hno x hx

theorem Refused.mono {k k' : Nat} {rs : List (List UInt8)} (h : Refused k rs) (hle : k' ≤ k) :
    Refused k' rs := by
  obtain ⟨w, hw, hlen, hno⟩ := h
  exact ⟨w.take k', (List.take_prefix _ _).trans hw, by rw [List.length_take, hlen]; omega,
    fun r hr => hno r (List.mem_of_mem_take hr)⟩

/-- Before `m` of them hold an `OK`, `maxRetries` replies in a row come without. -/
def Unanswered (m : Nat) (rs : List (List UInt8)) : Prop :=
  ∃ pre w, pre ++ w <+: rs ∧ pre.countP hasOk < m ∧ w.length = maxRetries ∧
    ∀ r ∈ w, hasOk r = false

theorem unanswered_of_refused {m : Nat} {rs : List (List UInt8)} (hm : 0 < m)
    (h : Refused maxRetries rs) : Unanswered m rs := by
  obtain ⟨w, hw, hlen, hno⟩ := h
  exact ⟨[], w, hw, hm, hlen, hno⟩

theorem not_unanswered_zero (rs : List (List UInt8)) : ¬ Unanswered 0 rs := by
  rintro ⟨_, _, _, hcount, _⟩
  exact Nat.not_lt_zero _ hcount

theorem not_unanswered_nil (m : Nat) : ¬ Unanswered m [] := by
  rintro ⟨pre, w, hpre, -, hlen, -⟩
  rw [(List.append_eq_nil_iff.mp (List.prefix_nil.mp hpre)).2] at hlen
  cases hlen

theorem unanswered_cons (m : Nat) (r : List UInt8) (rs : List (List UInt8)) :
    Unanswered (m + 1) (r :: rs) ↔ Refused maxRetries (r :: rs) ∨
      Unanswered (if hasOk r then m else m + 1) rs := by
  constructor
  · rintro ⟨pre, w, hpre, hcount, hlen, hno⟩
    cases pre with
    | nil => exact Or.inl ⟨w, hpre, hlen, hno⟩
    | cons r' pre =>
      obtain ⟨rfl, hrest⟩ := List.cons_prefix_cons.mp hpre
      refine Or.inr ⟨pre, w, hrest, ?_, hlen, hno⟩
      rw [List.countP_cons] at hcount
      split_ifs at hcount ⊢ <;> omega
  · rintro (h | ⟨pre, w, hpre, hcount, hlen, hno⟩)
    · exact unanswered_of_refused (Nat.succ_pos m) h
    · refine ⟨r :: pre, w, List.cons_prefix_cons.mpr ⟨rfl, hpre⟩, ?_, hlen, hno⟩
      rw [List.countP_cons]
      split_ifs at hcount ⊢ <;> omega

/-- The handshake gives up iff the replies leave a command unanswered, or the first one
within its `left` retries. -/
theorem verdict_false_iff (m left : Nat) (rs : List (List UInt8)) (hle : left ≤ maxRetries) :
    verdict m left rs = some false ↔ (0 < m ∧ Refused left rs) ∨ Unanswered m rs := by
  induction m, left, rs using verdict.induct with
  | case1 left rs => simp [verdict, not_unanswered_zero]
  | case2 m rs => simp [verdict, refused_zero]
  | case3 m left => simp [verdict, not_refused_nil, not_unanswered_nil]
  | case4 m left r rs hok ih =>
    have hnot (k : Nat) : ¬ Refused (k + 1) (r :: rs) := fun h =>
      Bool.false_ne_true (((refused_cons k r rs).mp h).1.symm.trans hok)
    rw [verdict, if_pos hok, ih (Nat.le_refl _), unanswered_cons, if_pos hok]
    constructor
    · rintro (⟨hm, h⟩ | h)
      · exact Or.inr (Or.inr (unanswered_of_refused hm h))
      · exact Or.inr (Or.inr h)
    · rintro (⟨-, h⟩ | h | h)
      · exact absurd h (hnot left)
      · exact absurd h (hnot 2)
      · exact Or.inr h
  | case5 m left r rs hok ih =>
    have hno : hasOk r = false := Bool.eq_false_iff.mpr hok
    have hmore : Refused maxRetries (r :: rs) → Refused left rs := fun h =>
      ((refused_cons 2 r rs).mp h).2.mono (by unfold maxRetries at hle; omega)
    rw [verdict, if_neg hok, ih (by omega), refused_cons, unanswered_cons, if_neg hok]
    constructor
    · rintro (⟨hm, h⟩ | h)
      · exact Or.inl ⟨hm, hno, h⟩
      · exact Or.inr (Or.inr h)
    · rintro (⟨hm, -, h⟩ | h | h)
      · exact Or.inl ⟨hm, h⟩
      · exact Or.inl ⟨Nat.succ_pos m, hmore h⟩
      · exact Or.inr h

theorem verdict_unanswered_iff (m : Nat) (rs : List (List UInt8)) :
    verdict m maxRetries rs = some false ↔ Unanswered m rs := by
  rw [verdict_false_iff m maxRetries rs (Nat.le_refl _)]
  exact or_iff_right_of_imp fun h => unanswered_of_refused h.1 h.2

/-- The replies decide it with an `OK` for each command, or by leaving one unanswered. -/
theorem isSome_verdict_iff (m left : Nat) (rs : List (List UInt8)) :
    (verdict m left rs).isSome = true ↔ m ≤ rs.countP hasOk ∨ verdict m left rs = some false := by
  induction m, left, rs using verdict.induct with
  | case1 left rs => simp [verdict]
  | case2 m rs => simp [verdict]
  | case3 m left => simp [verdict]
  | case4 m left r rs hok ih =>
    rw [verdict, if_pos hok, List.countP_cons_of_pos hok, Nat.succ_le_succ_iff]
    exact ih
  | case5 m left r rs hok ih =>
    rw [verdict, if_neg hok, List.countP_cons_of_neg hok]
    exact ih

/-! ## The writes -/

/-- Some exchange of the `i`-th command brought an `OK`. -/
def Acknowledged (log : List Exchange) (i : Nat) : Prop :=
  ∃ e ∈ log, e.index = i ∧ hasOk e.response = true

/-- The exchanges of commands numbered from `first` on: in order, each command at most
`maxRetries` times, none behind one that was never acknowledged. -/
structure Orderly (first : Nat) (commands : List String) (log : List Exchange) : Prop where
  bounded : ∀ i, log.countP (fun e => e.index == i) ≤ maxRetries
  ordered : (log.map Exchange.index).Pairwise (· ≤ ·)
  written : ∀ e ∈ log, ∃ i command, e.index = first + i ∧ commands[i]? = some command ∧
    e.written = command ++ "\r\n"
  acknowledged : ∀ e ∈ log, ∀ i, first ≤ i → i < e.index → Acknowledged log i

theorem countP_index_eq_zero {log : List Exchange} {i : Nat} (h : ∀ e ∈ log, e.index ≠ i) :
    log.countP (fun e => e.index == i) = 0 := by
  rw [List.countP_eq_zero]
  intro e he
  rw [beq_iff_eq]
  exact h e he

/-- What the retries of one command leave behind. -/
theorem sendCommand_log {index : Nat} {command : String} {left : Nat}
    {polls rest : List (Option UInt8)} {log : List Exchange} {ok : Bool}
    (h : sendCommand index command left polls = some (log, ok, rest)) :
    log.length ≤ left ∧ (∀ e ∈ log, e.index = index ∧ e.written = command ++ "\r\n") ∧
      (ok = true ↔ Acknowledged log index) := by
  induction left generalizing polls log ok with
  | zero =>
    cases h
    exact ⟨Nat.le_refl _, fun e he => (List.not_mem_nil he).elim, by simp [Acknowledged]⟩
  | succ left ih =>
    rw [sendCommand] at h
    cases hread : readSerialResponse [] polls with
    | none => rw [hread] at h; cases h
    | some out =>
      obtain ⟨r, rest'⟩ := out
      rw [hread] at h
      simp only at h
      split_ifs at h with hok
      · cases h
        refine ⟨by simp, fun e he => ?_, iff_of_true rfl ⟨_, List.mem_singleton_self _, rfl, hok⟩⟩
        obtain rfl := List.mem_singleton.mp he
        exact ⟨rfl, rfl⟩
      · obtain ⟨⟨log', ok', rest''⟩, hsend, heq⟩ := Option.map_eq_some_iff.mp h
        cases heq
        obtain ⟨hlen, hall, hack⟩ := ih hsend
        refine ⟨Nat.succ_le_succ hlen, fun e he => ?_, hack.trans ?_⟩
        · rcases List.mem_cons.mp he with rfl | he
          · exact ⟨rfl, rfl⟩
          · exact hall e he
        · constructor
          · rintro ⟨e, he, hi, ho⟩
            exact ⟨e, List.mem_cons_of_mem _ he, hi, ho⟩
          · rintro ⟨e, he, hi, ho⟩
            rcases List.mem_cons.mp he with rfl | he
            · exact absurd ho hok
            · exact ⟨e, he, hi, ho⟩

theorem orderly_nil (first : Nat) (commands : List String) : Orderly first commands [] where
  bounded := fun _ => Nat.zero_le _
  ordered := List.Pairwise.nil
  written := fun _ he => (List.not_mem_nil he).elim
  acknowledged := fun _ he => (List.not_mem_nil he).elim

/-- The exchanges of one command. -/
theorem orderly_single {first : Nat} {command : String} {commands : List String}
    {log : List Exchange} (hlen : log.length ≤ maxRetries)
    (hall : ∀ e ∈ log, e.index = first ∧ e.written = command ++ "\r\n") :
    Orderly first (command :: commands) log where
  bounded := fun i => List.countP_le_length.trans hlen
  ordered := by
    rw [List.pairwise_map]
    apply List.Pairwise.imp_of_mem (R := fun _ _ => True)
    · intro a b ha hb _
      rw [(hall a ha).1, (hall b hb).1]
    · exact List.pairwise_of_forall fun _ _ => trivial
  written := fun e he => ⟨0, command, (hall e he).1, rfl, (hall e he).2⟩
  acknowledged := fun e he i hlo hhi => by
    rw [(hall e he).1] at hhi
    omega

/-- Behind an acknowledged command come those of the rest. -/
theorem Orderly.append {first : Nat} {command : String} {commands : List String}
    {log log' : List Exchange} (hlen : log.length ≤ maxRetries)
    (hall : ∀ e ∈ log, e.index = first ∧ e.written = command ++ "\r\n")
    (hack : Acknowledged log first) (h : Orderly (first + 1) commands log') :
    Orderly first (command :: commands) (log ++ log') := by
  have hlater : ∀ e ∈ log', first + 1 ≤ e.index := fun e he => by
    obtain ⟨i, c, hi, -⟩ := h.written e he
    omega
  refine ⟨fun i => ?_, ?_, fun e he => ?_, fun e he i hlo hhi => ?_⟩
  · rw [List.countP_append]
    by_cases hi : i = first
    · have hzero := countP_index_eq_zero (i := i) fun e he => by
        have := hlater e he
        omega
      rw [hzero, Nat.add_zero]
      exact List.countP_le_length.trans hlen
    · have hzero := countP_index_eq_zero (i := i) fun e he => by
        have := (hall e he).1
        omega
      rw [hzero, Nat.zero_add]
      exact h.bounded i
  · rw [List.map_append, List.pairwise_append]
    have hone : Orderly first (command :: commands) log := orderly_single hlen hall
    refine ⟨hone.ordered, h.ordered, ?_⟩
    intro a ha b hb
    obtain ⟨e, he, rfl⟩ := List.mem_map.mp ha
    obtain ⟨e', he', rfl⟩ := List.mem_map.mp hb
    have := hlater e' he'
    have := (hall e he).1
    omega
  · rcases List.mem_append.mp he with he | he
    · exact ⟨0, command, (hall e he).1, rfl, (hall e he).2⟩
    · obtain ⟨i, c, hi, hc, hw⟩ := h.written e he
      exact ⟨i + 1, c, by omega, hc, hw⟩
  · have hmono {k : Nat} : Acknowledged log' k → Acknowledged (log ++ log') k :=
      fun ⟨e', he', hi, ho⟩ => ⟨e', List.mem_append_right _ he', hi, ho⟩
    rcases Nat.eq_or_lt_of_le hlo with rfl | hlt
    · obtain ⟨e', he', hi, ho⟩ := hack
      exact ⟨e', List.mem_append_left _ he', hi, ho⟩
    · rcases List.mem_append.mp he with he | he
      · rw [(hall e he).1] at hhi
        omega
      · exact hmono (h.acknowledged e he i hlt hhi)

/-- **The limits** are kept by every handshake that is over. -/
theorem sendAtCommands_orderly {commands : List String} {first : Nat}
    {polls rest : List (Option UInt8)} {log : List Exchange}
    (h : sendAtCommands first commands polls = some (log, rest)) : Orderly first commands log := by
  induction commands generalizing first polls log with
  | nil =>
    cases h
    exact orderly_nil _ _
  | cons command commands ih =>
    rw [sendAtCommands] at h
    cases hsend : sendCommand first command maxRetries polls with
    | none => rw [hsend] at h; cases h
    | some out =>
      obtain ⟨log1, ok, rest1⟩ := out
      obtain ⟨hlen, hall, hack⟩ := sendCommand_log hsend
      rw [hsend] at h
      cases ok with
      | false =>
        cases h
        exact orderly_single hlen hall
      | true =>
        obtain ⟨⟨log2, rest2⟩, hrest, heq⟩ := Option.map_eq_some_iff.mp h
        cases heq
        exact Orderly.append hlen hall (hack.mp rfl) (ih hrest)

/-! ## Termination -/

/-- With the device that shows `polls` the handshake is over after finitely many of them,
and has kept its limits. -/
def Handshakes (commands : List String) (polls : Nat → Option UInt8) : Prop :=
  ∃ k log rest, sendAtCommands 0 commands ((List.range k).map polls) = some (log, rest) ∧
    Orderly 0 commands log

/-- The complete replies among the first `k` polls. -/
def firstReplies (polls : Nat → Option UInt8) (k : Nat) : List (List UInt8) :=
  replies ((List.range k).map polls)

/-- **The handshake terminates** with exactly the devices whose replies, up to some poll,
hold an `OK` for each command, or three in a row without before that. -/
theorem handshakes_iff (commands : List String) (polls : Nat → Option UInt8) :
    Handshakes commands polls ↔ ∃ k, commands.length ≤ (firstReplies polls k).countP hasOk ∨
      Unanswered commands.length (firstReplies polls k) := by
  have hover (k : Nat) : (sendAtCommands 0 commands ((List.range k).map polls)).isSome = true ↔
      commands.length ≤ (firstReplies polls k).countP hasOk ∨
        Unanswered commands.length (firstReplies polls k) := by
    rw [isSome_sendAtCommands]
    exact (isSome_verdict_iff _ _ _).trans (or_congr Iff.rfl (verdict_unanswered_iff _ _))
  constructor
  · rintro ⟨k, log, rest, hsend, -⟩
    exact ⟨k, (hover k).mp (by rw [hsend]; rfl)⟩
  · rintro ⟨k, hk⟩
    obtain ⟨⟨log, rest⟩, hsend⟩ := Option.isSome_iff_exists.mp ((hover k).mpr hk)
    exact ⟨k, log, rest, hsend, sendAtCommands_orderly hsend⟩

/-- A device that never says a word. -/
theorem not_handshakes_silent :
    ¬ ∀ (commands : List String) (polls : Nat → Option UInt8), Handshakes commands polls := by
  intro h
  obtain ⟨k, log, rest, hsend, -⟩ := h ["AT+CG", "AT+AT"] fun _ => none
  have hquiet : replies ((List.range k).map fun _ => none) = [] := by
    unfold replies
    rw [List.map_const', List.length_range, List.reduceOption_replicate_none]
    rfl
  have hover := isSome_sendAtCommands ["AT+CG", "AT+AT"] 0 ((List.range k).map fun _ => none)
  rw [hsend, hquiet] at hover
  cases hover

/-! ## How it ends -/

/-- A handshake that is over acknowledged every command, or gave up. -/
theorem verdict_true_iff {commands : List String} {first : Nat} {polls rest : List (Option UInt8)}
    {log : List Exchange} (h : sendAtCommands first commands polls = some (log, rest)) :
    verdict commands.length maxRetries (replies polls) = some true ↔
      ∀ i < commands.length, Acknowledged log (first + i) := by
  induction commands generalizing first polls log with
  | nil => simp [verdict]
  | cons command commands ih =>
    rw [List.length_cons, verdict_sendCommand first command]
    rw [sendAtCommands] at h
    cases hsend : sendCommand first command maxRetries polls with
    | none => rw [hsend] at h; cases h
    | some out =>
      obtain ⟨log1, ok, rest1⟩ := out
      obtain ⟨-, hall, hack⟩ := sendCommand_log hsend
      rw [hsend] at h
      cases ok with
      | false =>
        cases h
        refine iff_of_false (by simp) fun hacks => ?_
        exact absurd (hack.mpr (hacks 0 (Nat.succ_pos _))) Bool.false_ne_true
      | true =>
        obtain ⟨⟨log2, rest2⟩, hrest, heq⟩ := Option.map_eq_some_iff.mp h
        cases heq
        simp only [Option.bind_some, if_true]
        rw [ih hrest]
        constructor
        · intro hacks i hi
          cases i with
          | zero =>
            obtain ⟨e, he, hindex, hok⟩ := hack.mp rfl
            exact ⟨e, List.mem_append_left _ he, hindex, hok⟩
          | succ i =>
            obtain ⟨e, he, hindex, hok⟩ := hacks i (Nat.lt_of_succ_lt_succ hi)
            exact ⟨e, List.mem_append_right _ he, by omega, hok⟩
        · intro hacks i hi
          obtain ⟨e, he, hindex, hok⟩ := hacks (i + 1) (Nat.succ_lt_succ hi)
          rcases List.mem_append.mp he with he | he
          · have := (hall e he).1
            omega
          · exact ⟨e, he, by omega, hok⟩

/-- More replies change nothing. -/
theorem verdict_append {m left : Nat} {rs : List (List UInt8)} (rs' : List (List UInt8)) {b : Bool}
    (h : verdict m left rs = some b) : verdict m left (rs ++ rs') = some b := by
  induction m, left, rs using verdict.induct with
  | case1 left rs => simpa [verdict] using h
  | case2 m rs => simpa [verdict] using h
  | case3 m left => simp [verdict] at h
  | case4 m left r rs hok ih =>
    rw [verdict, if_pos hok] at h
    rw [List.cons_append, verdict, if_pos hok]
    exact ih h
  | case5 m left r rs hok ih =>
    rw [verdict, if_neg hok] at h
    rw [List.cons_append, verdict, if_neg hok]
    exact ih h

theorem cut_prefix (response bs bs' : List UInt8) : cut response bs <+: cut response (bs ++ bs') := by
  induction bs generalizing response with
  | nil => exact List.nil_prefix
  | cons b bs ih =>
    rw [List.cons_append, cut, cut]
    split_ifs
    · exact List.cons_prefix_cons.mpr ⟨rfl, ih []⟩
    · exact ih _

theorem firstReplies_prefix (polls : Nat → Option UInt8) {k k' : Nat} (h : k ≤ k') :
    firstReplies polls k <+: firstReplies polls k' := by
  obtain ⟨j, rfl⟩ := Nat.exists_eq_add_of_le h
  unfold firstReplies replies
  rw [List.range_add, List.map_append, List.reduceOption_append]
  exact cut_prefix [] _ _

/-- What a device decides, it decides once. -/
theorem verdict_unique {polls : Nat → Option UInt8} {k k' m left : Nat} {b b' : Bool}
    (h : verdict m left (firstReplies polls k) = some b)
    (h' : verdict m left (firstReplies polls k') = some b') : b = b' := by
  rcases Nat.le_total k k' with hle | hle
  · obtain ⟨rs, hrs⟩ := firstReplies_prefix polls hle
    have hmore := verdict_append rs h
    rw [hrs] at hmore
    exact Option.some.inj (hmore.symm.trans h')
  · obtain ⟨rs, hrs⟩ := firstReplies_prefix polls hle
    have hmore := verdict_append rs h'
    rw [hrs] at hmore
    exact Option.some.inj (h.symm.trans hmore)

end SerialCANParser

end AgvPro
