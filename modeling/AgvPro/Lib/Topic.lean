import Mathlib.Data.List.Basic

/-!
# A topic that keeps the last

One publisher, one subscriber, messages in order; a message that is overtaken by a newer
one may be lost before it is received, the newest never is.

    nothing is received that was not sent, in order, and the newest message sent is the
      newest of those received and in flight            (the fields of Topic)
    received and in flight is all that was sent, as long as none is lost   (Lossless)
-/

/-- The messages sent, those of them received, and those still in flight. -/
structure Topic (α : Type) where
  sent : List α
  received : List α
  inFlight : List α
  sublist : (received ++ inFlight).Sublist sent
  last : (received ++ inFlight).getLast? = sent.getLast?

namespace Topic

variable {α : Type}

def empty : Topic α := ⟨[], [], [], .refl _, rfl⟩

def publish (q : Topic α) (xs : List α) : Topic α where
  sent := q.sent ++ xs
  received := q.received
  inFlight := q.inFlight ++ xs
  sublist := by
    rw [← List.append_assoc]
    exact q.sublist.append_right xs
  last := by
    rw [← List.append_assoc, List.getLast?_append, q.last, ← List.getLast?_append]

/-- The subscriber's next message. -/
def receive (q : Topic α) : Option (α × Topic α) :=
  match h : q.inFlight with
  | [] => none
  | x :: xs => some (x,
      { q with
        received := q.received ++ [x]
        inFlight := xs
        sublist := by
          rw [List.append_assoc, List.singleton_append, ← h]
          exact q.sublist
        last := by
          rw [List.append_assoc, List.singleton_append, ← h]
          exact q.last })

theorem eraseIdx_append_last (received inFlight : List α) (k : Nat) (hk : k + 1 < inFlight.length) :
    (received ++ inFlight.eraseIdx k).getLast? = (received ++ inFlight).getLast? := by
  have hlast : (inFlight.eraseIdx k).getLast? = inFlight.getLast? := by
    rw [List.getLast?_eq_getElem?, List.getLast?_eq_getElem?, List.length_eraseIdx,
      if_pos (by omega), List.getElem?_eraseIdx, if_neg (by omega)]
    congr 1
    omega
  rw [List.getLast?_append, List.getLast?_append, hlast]

/-- The `k`-th message in flight is lost: a newer one is behind it. -/
def lose (q : Topic α) (k : Nat) : Option (Topic α) :=
  if hk : k + 1 < q.inFlight.length then
    some
      { q with
        inFlight := q.inFlight.eraseIdx k
        sublist := ((List.eraseIdx_sublist _ _).append_left _).trans q.sublist
        last := (eraseIdx_append_last _ _ k hk).trans q.last }
  else none

theorem receive_spec {q q' : Topic α} {x : α} (h : q.receive = some (x, q')) :
    q'.sent = q.sent ∧ q'.received = q.received ++ [x] ∧ q.inFlight = x :: q'.inFlight := by
  unfold receive at h
  split at h
  · cases h
  · rename_i y ys hflight
    cases h
    exact ⟨rfl, rfl, hflight⟩

theorem lose_spec {q q' : Topic α} {k : Nat} (h : q.lose k = some q') :
    q'.sent = q.sent ∧ q'.received = q.received := by
  unfold lose at h
  split at h
  · cases h
    exact ⟨rfl, rfl⟩
  · cases h

theorem mem_sent {q : Topic α} {x : α} (h : x ∈ q.received) : x ∈ q.sent :=
  q.sublist.subset (List.mem_append_left _ h)

/-- Once nothing is in flight, the newest message received is the newest one sent. -/
theorem last_received {q : Topic α} (h : q.inFlight = []) :
    q.received.getLast? = q.sent.getLast? := by
  have hlast := q.last
  rwa [h, List.append_nil] at hlast

def Lossless (q : Topic α) : Prop := q.received ++ q.inFlight = q.sent

theorem Lossless.publish {q : Topic α} (h : q.Lossless) (xs : List α) :
    (q.publish xs).Lossless := by
  show q.received ++ (q.inFlight ++ xs) = q.sent ++ xs
  rw [← List.append_assoc, h]

theorem Lossless.receive {q q' : Topic α} {x : α} (h : q.Lossless)
    (hreceive : q.receive = some (x, q')) : q'.Lossless := by
  obtain ⟨hsent, hreceived, hflight⟩ := receive_spec hreceive
  unfold Lossless
  rw [hsent, hreceived, List.append_assoc, List.singleton_append, ← hflight]
  exact h

/-- What has been received is then where the messages sent begin. -/
theorem Lossless.begins {q : Topic α} (h : q.Lossless) : q.received <+: q.sent :=
  ⟨q.inFlight, h⟩

end Topic
