import AgvPro.Lib.Nearest
import AgvPro.Lib.Segment
import Mathlib.Data.Rat.Defs
import Mathlib.Tactic.Linarith

/-!
# Sweeps of the lidar

`data_processing_2` takes the sixteen measuring points of a packet one after the other.  Each
valid one is written at `scan_points_[idx]` (and its second echo 3000 places further on);
where the degrees jump past north, or 2000 points are there, the points so far are handed over
as a sweep and the buffer starts again from the front.  The point that makes the cut is left
in the place behind the sweep and cleared with the rest.

    the valid points so far = the sweeps, each with the one point lost behind it,
      and what is pending                                              (sweeps_run)
    no store is ever outside the buffer; what stops the driver is a packet
      with fewer than three valid points, freed twice                  (processed_iff)

Degrees and ranges are rounded as the source has them: the degrees of the packet are `float`
quotients by `100.f`, everything after them is `double`.  Only the bearing `360 - degree`
that is compared with the sector to be seen is exact.
-/

namespace AgvPro.Lslidar

open Nearest

/-! ## One packet -/

structure ScanPoint where
  degree : ℚ := 0
  range : ℚ := 0
  intensity : ℚ := 0
deriving Repr, DecidableEq

/-- What `loadParameters` leaves of the parameters of the N10_P. -/
structure Config where
  min_range : ℚ
  max_range : ℚ
  angle_able_min : ℚ
  angle_able_max : ℚ

/-- A measuring point of a packet with both its echoes. -/
structure Reading where
  degree : ℚ
  range : ℚ
  intensity : ℚ
  secondRange : ℚ
  secondIntensity : ℚ
deriving Repr, DecidableEq

/-- `packet_bytes[i] * 256 + packet_bytes[i + 1]` -/
def word (p : List UInt8) (i : Nat) : Nat := (p.getD i 0).toNat * 256 + (p.getD (i + 1) 0).toNat

/-- A result of `float` arithmetic. -/
def single (x : ℚ) : ℚ := nearest 24 x

/-- A result of `double` arithmetic. -/
def double (x : ℚ) : ℚ := nearest 53 x

def packagePoints : Nat := 16
def pointLen : Nat := 6
def dataBitsStart : Nat := 7
def degreeBitsStart : Nat := 5
def endDegreeBitsStart : Nat := 105
def pointsSize : Nat := 2000

/-- `degree_compensation` of the N10_P: no device packet ever sets it. -/
def degreeCompensation : ℚ := 0

/-- A word of the packet in degrees, the quotient of an `int` and `100.f`. -/
def wordDegree (p : List UInt8) (i : Nat) : ℚ := single ((word p i : ℚ) / 100)

/-- Where the packet starts. -/
def startDegree (p : List UInt8) : ℚ :=
  let degree := double (wordDegree p degreeBitsStart + degreeCompensation)
  let degree := if degree < 0 then double (degree + 360) else degree
  if degree > 360 then double (degree - 360) else degree

/-- How far it reaches. -/
def degreeInterval (p : List UInt8) : ℚ :=
  let endDegree := wordDegree p endDegreeBitsStart
  let endDegree := if endDegree > 360 then double (endDegree - 360) else endDegree
  if startDegree p > endDegree then double (double (endDegree + 360) - startDegree p)
  else double (endDegree - startDegree p)

/-- Measuring point `num` says that there is nothing. -/
def isInvalid (p : List UInt8) (num : Nat) : Bool :=
  word p (num * pointLen + dataBitsStart) == 0xFFFF

/-- How many measuring points are valid. -/
def validPoints (p : List UInt8) : Nat :=
  packagePoints - (List.range packagePoints).countP (isInvalid p)

/-- `invalidValue` as the intervals are counted: one less than the valid points. -/
def intervals (p : List UInt8) : Int := (validPoints p : Int) - 1

/-- The degree of measuring point `num`. -/
def pointDegree (p : List UInt8) (num : Nat) : ℚ :=
  let degree := double (startDegree p + double (double (degreeInterval p / intervals p) * num))
  if degree > 360 then double (degree - 360) else degree

/-- Measuring point `num`. -/
def readingAt (p : List UInt8) (num : Nat) : Reading :=
  let near := num * pointLen + dataBitsStart
  let second := near + pointLen / 2
  { degree := pointDegree p num
    range := double ((word p near : ℚ) / 1000)
    intensity := ((p.getD (near + 2) 0).toNat : ℚ)
    secondRange := double ((word p second : ℚ) / 1000)
    secondIntensity := ((p.getD (second + 2) 0).toNat : ℚ) }

theorem word_lt (p : List UInt8) (i : Nat) : word p i < 65536 := by
  have hhi := (p.getD i 0).toNat_lt
  have hlo := (p.getD (i + 1) 0).toNat_lt
  unfold word
  omega

/-- The `float` is less than a ten-thousandth of a degree off the quotient, which is enough to
put a point on the other side of a limit. -/
theorem abs_wordDegree_sub_le (p : List UInt8) (i : Nat) :
    |wordDegree p i - (word p i : ℚ) / 100| ≤ 1 / 32768 := by
  have hword : (word p i : ℚ) < 65536 := by exact_mod_cast word_lt p i
  have hlt : |(word p i : ℚ) / 100| < 2 ^ (10 : ℤ) := by
    rw [abs_of_nonneg (by positivity)]
    norm_num
    linarith
  refine (abs_nearest_sub_le_of_lt hlt).trans ?_
  norm_num

/-- The valid measuring points, as the loop of `data_processing_2` comes to them. -/
def readings (p : List UInt8) : List Reading :=
  ((List.range packagePoints).filter fun num => !isInvalid p num).map (readingAt p)

/-! ## The buffer -/

structure Driver where
  idx : Nat := 0
  last_degree : ℚ := 0
  count_num : Nat := 0
  scan_points : List ScanPoint := List.replicate 6000 {}
  scan_points_bak : List ScanPoint := []

def Reading.point (x : Reading) : ScanPoint := ⟨x.degree, x.range, x.intensity⟩

/-- The stores at `idx` and `idx + 3000`; `none` where they would be outside the vector. -/
def store (points : List ScanPoint) (i : Nat) (x : Reading) : Option (List ScanPoint) :=
  if i + 3000 < points.length then
    some ((points.set i x.point).modify (i + 3000) fun q =>
      { q with range := x.secondRange, intensity := x.secondIntensity })
  else none

/-- Outside the angles that are to be seen. -/
def masked (cfg : Config) (degree : ℚ) : Bool :=
  if cfg.angle_able_max > 360 then
    360 - degree > cfg.angle_able_max - 360 && 360 - degree < cfg.angle_able_min
  else
    360 - degree > cfg.angle_able_max || 360 - degree < cfg.angle_able_min

/-- A range that is not to be seen is zero. -/
def visible (cfg : Config) (hidden : Bool) (range : ℚ) : ℚ :=
  let range := if hidden then 0 else range
  if range < cfg.min_range ∨ range > cfg.max_range then 0 else range

/-- One turn of the loop over the points of a sweep. -/
def crop (cfg : Config) (points : List ScanPoint) (k : Nat) : List ScanPoint :=
  let hidden := masked cfg (points.getD k {}).degree
  let dim := fun q : ScanPoint => { q with range := visible cfg hidden q.range }
  (points.modify k dim).modify (k + 3000) dim

/-- A sweep ends before this point: the degrees jump past north, or the buffer is full. -/
def cuts (last : ℚ) (idx : Nat) (degree : ℚ) : Prop :=
  (degree < last ∧ degree < 5 ∧ last > 355 ∨ idx ≥ pointsSize) ∧ idx > 10

instance (last : ℚ) (idx : Nat) (degree : ℚ) : Decidable (cuts last idx degree) :=
  inferInstanceAs (Decidable (_ ∧ _))

/-- The points so far are a sweep: the copy for the publisher, the buffer cleared. -/
def Driver.handOver (cfg : Config) (d : Driver) (points : List ScanPoint) (x : Reading) : Driver :=
  let cropped := (List.range d.idx).foldl (crop cfg) points
  { idx := 0
    last_degree := x.degree
    count_num := d.idx
    scan_points := cropped.map fun _ => {}
    scan_points_bak := cropped }

/-- The point stays in the buffer. -/
def Driver.keep (d : Driver) (points : List ScanPoint) (x : Reading) : Driver :=
  { d with scan_points := points, last_degree := x.degree, idx := d.idx + 1 }

/-- The body of the loop for a valid point. -/
def Driver.reading (cfg : Config) (d : Driver) (x : Reading) : Option Driver :=
  (store d.scan_points d.idx x).map fun points =>
    if cuts d.last_degree d.idx x.degree then d.handOver cfg points x else d.keep points x

/-- `data_processing_2`; `none` where `packet_bytes` is deleted here and again in `polling`. -/
def Driver.dataProcessing2 (cfg : Config) (d : Driver) (p : List UInt8) : Option Driver :=
  if intervals p ≤ 1 then none else (readings p).foldlM (Driver.reading cfg) d

/-! ## Where a sweep ends -/

/-- A sweep ends between what is pending and the next point: it is longer than ten points, and
the next one lies past north or the 2000 places are taken. -/
def SweepEnds (pending : List Reading) (x : Reading) : Prop :=
  ((∃ y, pending.getLast? = some y ∧ x.degree < y.degree ∧ x.degree < 5 ∧ 355 < y.degree) ∨
    pointsSize ≤ pending.length) ∧ 10 < pending.length

instance (pending : List Reading) (x : Reading) : Decidable (SweepEnds pending x) :=
  decidable_of_iff
    ((pending.getLast?.any (fun y => x.degree < y.degree ∧ x.degree < 5 ∧ 355 < y.degree) ∨
      pointsSize ≤ pending.length) ∧ 10 < pending.length) (by simp [SweepEnds, Option.any_eq_true])

/-- The sweeps in the points seen so far, each with the point that ended it. -/
def sweepsOf (xs : List Reading) : List (List Reading × Reading) := Segment.closed SweepEnds xs

/-- The points behind the last sweep. -/
def pendingOf (xs : List Reading) : List Reading := Segment.pending SweepEnds xs

/-- A point as `crop` leaves it. -/
def ScanPoint.seen (cfg : Config) (q : ScanPoint) : ScanPoint :=
  { q with range := visible cfg (masked cfg q.degree) q.range }

/-- The driver has handed over the sweeps `closed` and holds the points `pending`. -/
structure Tracks (cfg : Config) (d : Driver) (closed : List (List Reading × Reading))
    (pending : List Reading) : Prop where
  idx : d.idx = pending.length
  last : ∀ y, pending.getLast? = some y → y.degree = d.last_degree
  size : d.scan_points.length = 6000
  stored : ∀ (i : Nat) (x : Reading), pending[i]? = some x → d.scan_points[i]? = some x.point
  bound : pending.length ≤ pointsSize
  bak : d.count_num ≠ 0 → ∃ w, closed.getLast? = some w ∧ d.count_num = w.1.length ∧
    ∀ (i : Nat) (x : Reading), w.1[i]? = some x →
      d.scan_points_bak[i]? = some (x.point.seen cfg)

theorem tracks_start (cfg : Config) : Tracks cfg {} [] [] where
  idx := rfl
  last := nofun
  size := List.length_replicate
  stored := nofun
  bound := Nat.zero_le _
  bak := fun h => absurd rfl h

theorem Tracks.cuts_iff {cfg : Config} {d : Driver} {closed : List (List Reading × Reading)}
    {pending : List Reading} (h : Tracks cfg d closed pending) (x : Reading) :
    cuts d.last_degree d.idx x.degree ↔ SweepEnds pending x := by
  unfold cuts SweepEnds
  rw [h.idx]
  refine and_congr_left fun hlong => or_congr_left ?_
  have hne : pending ≠ [] := by
    rintro rfl
    exact absurd hlong (Nat.not_lt_zero _)
  have hlast := List.getLast?_eq_some_getLast hne
  have hdegree := h.last _ hlast
  constructor
  · intro hnorth
    exact ⟨_, hlast, by rw [hdegree]; exact hnorth⟩
  · rintro ⟨y, hy, hnorth⟩
    rwa [h.last y hy] at hnorth

/-! ## Stores -/

theorem length_store {points points' : List ScanPoint} {i : Nat} {x : Reading}
    (h : store points i x = some points') : points'.length = points.length := by
  unfold store at h
  split at h
  · cases h
    simp
  · cases h

theorem getElem?_store {points points' : List ScanPoint} {i : Nat} {x : Reading}
    (h : store points i x = some points') {j : Nat} (hj : j < 3000) :
    points'[j]? = if i = j then some x.point else points[j]? := by
  unfold store at h
  split at h
  · rename_i hi
    cases h
    rw [List.getElem?_modify_ne _ _ (by omega), List.getElem?_set]
    split
    · rw [if_pos (by omega)]
    · rfl
  · cases h

theorem length_crop (cfg : Config) (points : List ScanPoint) (k : Nat) :
    (crop cfg points k).length = points.length := by
  simp [crop]

theorem length_crops (cfg : Config) (n : Nat) (points : List ScanPoint) :
    ((List.range n).foldl (crop cfg) points).length = points.length := by
  induction n with
  | zero => rfl
  | succ n ih => rw [List.range_succ, List.foldl_append, List.foldl_cons, List.foldl_nil,
      length_crop, ih]

/-- A turn dims its point and touches no other of the first 3000 places. -/
theorem getElem?_crop (cfg : Config) (points : List ScanPoint) (k : Nat) {j : Nat} (hj : j < 3000) :
    (crop cfg points k)[j]? =
      if j = k then points[j]?.map (ScanPoint.seen cfg) else points[j]? := by
  unfold crop
  rw [List.getElem?_modify_ne _ _ (by omega)]
  split
  · rename_i heq
    subst heq
    rw [List.getElem?_modify_eq, List.getD_eq_getElem?_getD]
    cases points[j]? with
    | none => rfl
    | some q => rfl
  · rename_i hne
    rw [List.getElem?_modify_ne _ _ (Ne.symm hne)]

/-- The loop over a sweep dims its points. -/
theorem getElem?_crops (cfg : Config) (points : List ScanPoint) (n : Nat) {j : Nat}
    (hj : j < 3000) :
    ((List.range n).foldl (crop cfg) points)[j]? =
      if j < n then points[j]?.map (ScanPoint.seen cfg) else points[j]? := by
  induction n with
  | zero => rfl
  | succ n ih =>
    rw [List.range_succ, List.foldl_append, List.foldl_cons, List.foldl_nil,
      getElem?_crop cfg _ n hj, ih]
    rcases Nat.lt_trichotomy j n with hlt | rfl | hlt
    · rw [if_neg (by omega), if_pos hlt, if_pos (by omega)]
    · rw [if_pos rfl, if_neg (Nat.lt_irrefl j), if_pos (by omega)]
    · rw [if_neg (by omega), if_neg (by omega), if_neg (by omega)]

/-! ## One point -/

theorem Tracks.store_eq {cfg : Config} {d : Driver} {closed : List (List Reading × Reading)}
    {pending : List Reading} (h : Tracks cfg d closed pending) (x : Reading) :
    ∃ points, store d.scan_points d.idx x = some points ∧ points.length = 6000 ∧
      (∀ (i : Nat) (y : Reading), (pending ++ [x])[i]? = some y → points[i]? = some y.point) := by
  have hbound := h.bound
  have hidx := h.idx
  have hsize := h.size
  have hroom : pointsSize = 2000 := rfl
  obtain ⟨points, hpoints⟩ : ∃ points, store d.scan_points d.idx x = some points :=
    ⟨_, if_pos (by omega)⟩
  refine ⟨points, hpoints, (length_store hpoints).trans hsize, fun i y hy => ?_⟩
  have hi : i < pending.length + 1 := by
    have hlt := (List.getElem?_eq_some_iff.mp hy).1
    rwa [List.length_append] at hlt
  rw [getElem?_store hpoints (by omega), hidx]
  split
  · rename_i heq
    subst heq
    rw [List.getElem?_concat_length] at hy
    rw [Option.some.inj hy]
  · rename_i hne
    rw [List.getElem?_append_left (by omega)] at hy
    exact h.stored i y hy

/-- A point that makes the cut. -/
theorem Tracks.reading_cut {cfg : Config} {d : Driver} {closed : List (List Reading × Reading)}
    {pending : List Reading} (h : Tracks cfg d closed pending) {x : Reading}
    (hx : SweepEnds pending x) :
    ∃ d', d.reading cfg x = some d' ∧ Tracks cfg d' (closed ++ [(pending, x)]) [] ∧
      d'.count_num = pending.length := by
  obtain ⟨points, hpoints, hlen, hstored⟩ := h.store_eq x
  refine ⟨d.handOver cfg points x, ?_, ?_, h.idx⟩
  · rw [Driver.reading, hpoints, Option.map_some, if_pos ((h.cuts_iff x).mpr hx)]
  · refine ⟨rfl, nofun, ?_, nofun, Nat.zero_le _, fun _ => ⟨(pending, x), by simp, h.idx, ?_⟩⟩
    · show (((List.range d.idx).foldl (crop cfg) points).map
        fun _ => ({} : ScanPoint)).length = 6000
      rw [List.length_map, length_crops, hlen]
    · intro i y hy
      have hi : i < pending.length := (List.getElem?_eq_some_iff.mp hy).1
      have hbound := h.bound
      have hroom : pointsSize = 2000 := rfl
      have hsome : (pending ++ [x])[i]? = some y := by rw [List.getElem?_append_left hi, hy]
      show ((List.range d.idx).foldl (crop cfg) points)[i]? = _
      rw [getElem?_crops cfg points d.idx (by omega), if_pos (by rw [h.idx]; exact hi),
        hstored i y hsome, Option.map_some]

/-- A point that goes with the others. -/
theorem Tracks.reading_stay {cfg : Config} {d : Driver} {closed : List (List Reading × Reading)}
    {pending : List Reading} (h : Tracks cfg d closed pending) {x : Reading}
    (hx : ¬ SweepEnds pending x) :
    ∃ d', d.reading cfg x = some d' ∧ Tracks cfg d' closed (pending ++ [x]) ∧
      d'.count_num = d.count_num := by
  obtain ⟨points, hpoints, hlen, hstored⟩ := h.store_eq x
  refine ⟨d.keep points x, ?_, ?_, rfl⟩
  · rw [Driver.reading, hpoints, Option.map_some, if_neg fun hcut => hx ((h.cuts_iff x).mp hcut)]
  · refine ⟨?_, ?_, hlen, hstored, ?_, h.bak⟩
    · rw [List.length_append]
      exact congrArg (· + 1) h.idx
    · intro y hy
      rw [List.getLast?_concat] at hy
      exact congrArg Reading.degree (Option.some.inj hy).symm
    · -- at 2000 points the next one would have made the cut
      have hroom : pointsSize = 2000 := rfl
      have hshort : pending.length < pointsSize := by
        by_contra hfull
        exact hx ⟨.inr (not_lt.mp hfull), by omega⟩
      rw [List.length_append]
      exact hshort

/-- New sweeps were handed over, or nothing was. -/
def Grown (d : Driver) (closed : List (List Reading × Reading)) (d' : Driver)
    (closed' : List (List Reading × Reading)) : Prop :=
  (closed' = closed ∧ d'.count_num = d.count_num) ∨
    (closed <+: closed'.dropLast ∧ d'.count_num ≠ 0)

theorem Grown.trans {d d1 d2 : Driver} {closed closed1 closed2 : List (List Reading × Reading)}
    (h : Grown d closed d1 closed1) (h' : Grown d1 closed1 d2 closed2) :
    Grown d closed d2 closed2 := by
  rcases h' with ⟨rfl, hcount'⟩ | ⟨hgrown', hcount'⟩
  · rcases h with ⟨rfl, hcount⟩ | ⟨hgrown, hcount⟩
    · exact .inl ⟨rfl, hcount'.trans hcount⟩
    · exact .inr ⟨hgrown, by rwa [hcount']⟩
  · rcases h with ⟨rfl, -⟩ | ⟨hgrown, -⟩
    · exact .inr ⟨hgrown', hcount'⟩
    · exact .inr ⟨(hgrown.trans (List.dropLast_prefix _)).trans hgrown', hcount'⟩

/-- The driver has seen these points. -/
def Account (cfg : Config) (d : Driver) (xs : List Reading) : Prop :=
  Tracks cfg d (sweepsOf xs) (pendingOf xs)

theorem Account.reading {cfg : Config} {d : Driver} {xs : List Reading} (h : Account cfg d xs)
    (x : Reading) :
    ∃ d', d.reading cfg x = some d' ∧ Account cfg d' (xs ++ [x]) ∧
      Grown d (sweepsOf xs) d' (sweepsOf (xs ++ [x])) := by
  unfold Account sweepsOf pendingOf at h ⊢
  by_cases hx : SweepEnds (pendingOf xs) x
  · obtain ⟨d', hd', htracks', hcount⟩ := h.reading_cut hx
    rw [Segment.closed_cut hx, Segment.pending_cut hx]
    refine ⟨d', hd', htracks', .inr ⟨?_, ?_⟩⟩
    · exact List.dropLast_concat ▸ List.prefix_rfl
    · have hlong := hx.2
      unfold pendingOf at hlong
      omega
  · obtain ⟨d', hd', htracks', hcount⟩ := h.reading_stay hx
    rw [Segment.closed_stay hx, Segment.pending_stay hx]
    exact ⟨d', hd', htracks', .inl ⟨rfl, hcount⟩⟩

theorem Account.points {cfg : Config} (ys : List Reading) : ∀ {d : Driver} {xs : List Reading},
    Account cfg d xs →
    ∃ d', ys.foldlM (Driver.reading cfg) d = some d' ∧ Account cfg d' (xs ++ ys) ∧
      Grown d (sweepsOf xs) d' (sweepsOf (xs ++ ys)) := by
  induction ys with
  | nil =>
    intro d xs h
    rw [List.append_nil]
    exact ⟨d, rfl, h, .inl ⟨rfl, rfl⟩⟩
  | cons y ys ih =>
    intro d xs h
    obtain ⟨d1, hd1, h1, hgrown1⟩ := h.reading y
    obtain ⟨d2, hd2, h2, hgrown2⟩ := ih h1
    rw [List.append_assoc] at h2 hgrown2
    refine ⟨d2, ?_, h2, hgrown1.trans hgrown2⟩
    rw [List.foldlM_cons, hd1]
    exact hd2

/-- One packet: read to the end, or freed twice. -/
theorem Account.packet {cfg : Config} {d : Driver} {xs : List Reading} (h : Account cfg d xs)
    (p : List UInt8) :
    (validPoints p ≤ 2 ∧ d.dataProcessing2 cfg p = none) ∨
      (2 < validPoints p ∧ ∃ d', d.dataProcessing2 cfg p = some d' ∧
        Account cfg d' (xs ++ readings p) ∧
        Grown d (sweepsOf xs) d' (sweepsOf (xs ++ readings p))) := by
  unfold Driver.dataProcessing2 intervals
  rcases Nat.lt_or_ge 2 (validPoints p) with hvalid | hvalid
  · rw [if_neg (by omega)]
    exact .inr ⟨hvalid, h.points (readings p)⟩
  · rw [if_pos (by omega)]
    exact .inl ⟨hvalid, rfl⟩

/-! ## Packets one after the other -/

theorem account_start (cfg : Config) : Account cfg {} [] := tracks_start cfg

theorem Account.packets {cfg : Config} (ps : List (List UInt8)) : ∀ {d : Driver}
    {xs : List Reading}, Account cfg d xs →
    ((∃ p ∈ ps, validPoints p ≤ 2) ∧ ps.foldlM (Driver.dataProcessing2 cfg) d = none) ∨
      ((∀ p ∈ ps, 2 < validPoints p) ∧ ∃ d', ps.foldlM (Driver.dataProcessing2 cfg) d = some d' ∧
        Account cfg d' (xs ++ ps.flatMap readings)) := by
  induction ps with
  | nil =>
    intro d xs h
    exact .inr ⟨nofun, d, rfl, by rwa [List.flatMap_nil, List.append_nil]⟩
  | cons p ps ih =>
    intro d xs h
    rw [List.foldlM_cons]
    rcases h.packet p with ⟨hvalid, hd⟩ | ⟨hvalid, d1, hd, h1, -⟩
    · exact .inl ⟨⟨p, List.mem_cons_self, hvalid⟩, by rw [hd]; rfl⟩
    · rw [hd]
      rcases ih h1 with ⟨⟨q, hq, hvalid'⟩, hnone⟩ | ⟨hvalid', d2, hd2, h2⟩
      · exact .inl ⟨⟨q, List.mem_cons_of_mem _ hq, hvalid'⟩, hnone⟩
      · refine .inr ⟨?_, d2, hd2, ?_⟩
        · intro q hq
          rcases List.mem_cons.mp hq with rfl | hq
          · exact hvalid
          · exact hvalid' q hq
        · rwa [List.flatMap_cons, ← List.append_assoc]

/-- **What stops the driver.**  Whatever the packets say, no point is ever stored outside the
buffer; the run ends in the second `delete` of a packet exactly when one of them has fewer than
three valid points. -/
theorem processed_iff (cfg : Config) (ps : List (List UInt8)) :
    (ps.foldlM (Driver.dataProcessing2 cfg) {}).isSome = true ↔ ∀ p ∈ ps, 2 < validPoints p := by
  rcases (account_start cfg).packets ps with ⟨⟨p, hp, hvalid⟩, hnone⟩ | ⟨hvalid, d, hd, -⟩
  · rw [hnone]
    refine ⟨fun h => by simp at h, fun h => ?_⟩
    have hvalid' := h p hp
    omega
  · rw [hd]
    exact ⟨fun _ => hvalid, fun _ => rfl⟩

/-- A packet from 300 to 359 degrees, and one from 1 to 60, every range one metre. -/
def beforeNorth : List UInt8 :=
  [0xA5, 0x5A, 0x6C, 0x00, 0x00, 0x75, 0x30] ++
    (List.replicate 16 [0x03, 0xE8, 0x20, 0x00, 0x00, 0x00]).flatten ++
    [0x00, 0x00, 0x8C, 0x3C, 0x88]

def behindNorth : List UInt8 :=
  [0xA5, 0x5A, 0x6C, 0x00, 0x00, 0x00, 0x64] ++
    (List.replicate 16 [0x03, 0xE8, 0x20, 0x00, 0x00, 0x00]).flatten ++
    [0x00, 0x00, 0x17, 0x70, 0x06]

/-- One sweep, and the first point behind north lost. -/
theorem sweepsOf_north :
    sweepsOf (readings beforeNorth ++ readings behindNorth) =
      [(readings beforeNorth, readingAt behindNorth 0)] := by
  decide +kernel

end AgvPro.Lslidar
