import AgvPro.Lib.Run
import AgvPro.Lib.Scatter
import AgvPro.Lidar.Port
import AgvPro.Lidar.Sweep
import Mathlib.Data.Rat.Floor
import Mathlib.Tactic.FieldSimp
import Mathlib.Tactic.Positivity

/-!
# Published scans

`pubScanThread`, woken for a sweep of the N10_P, spreads its points over as many places as it
has points: the place of a point is its bearing `360 - degree`, rounded to a multiple of the
increment.  The loop writes at `scan->ranges[point_idx]` without looking at the bounds.

    every range of a scan is that of a point of its sweep, at its bearing, within the limits
      and outside the disabled sector; no point is missing but for a later one
      in its place; every scan is another sweep, in their order            (scans_run)
    a sweep is published without leaving the array ↔ every point of it lies
      more than half an increment past north                              (wake_iff)

Ranges are rounded to the `float` of the message; places, and the angles of the disabled
sector, are exact.
-/

namespace AgvPro.Lslidar

open Scatter

/-! ## Parameters -/

structure Params where
  min_range : ℚ
  max_range : ℚ
  angle_disable_min : ℚ
  angle_disable_max : ℚ

/-- The values of `lsn10p.yaml`. -/
def lsn10p : Params := ⟨1 / 5, 200, 0, 0⟩

/-- `while (angle < 0) angle += 360;` -/
def upTurns : Nat → ℚ → ℚ
  | 0, x => x
  | n + 1, x => if x < 0 then upTurns n (x + 360) else x

/-- `while (angle > 360) angle -= 360;` -/
def downTurns : Nat → ℚ → ℚ
  | 0, x => x
  | n + 1, x => if x > 360 then downTurns n (x - 360) else x

/-- Both loops, with turns enough for the angle. -/
def turned (x : ℚ) : ℚ :=
  let n := ⌈|x| / 360⌉.toNat + 1
  downTurns n (upTurns n x)

/-- `angle_able_min` and `angle_able_max`, from both ends of the disabled sector. -/
def ableAngles (lo hi : ℚ) : ℚ × ℚ :=
  if hi = lo then (0, 360)
  else if lo < hi ∧ lo ≠ 0 then (hi, lo + 360)
  else if lo < hi ∧ lo = 0 then (hi, 360)
  else (hi, lo)

/-- `loadParameters`, as far as the sweeps depend on it. -/
def loadParameters (ps : Params) : Config :=
  let able := ableAngles (turned ps.angle_disable_min) (turned ps.angle_disable_max)
  { min_range := ps.min_range
    max_range := ps.max_range
    angle_able_min := able.1
    angle_able_max := able.2 }

/-- Inside the sector that the parameters disable. -/
def Disabled (ps : Params) (bearing : ℚ) : Prop :=
  let lo := turned ps.angle_disable_min
  let hi := turned ps.angle_disable_max
  lo < hi ∧ lo < bearing ∧ bearing < hi ∨ hi < lo ∧ (lo < bearing ∨ bearing < hi)

/-! ## A scan -/

/-- C's `round`: halves go away from zero. -/
def cround (x : ℚ) : Int := if 0 ≤ x then ⌊x + 1 / 2⌋ else ⌈x - 1 / 2⌉

/-- `sensor_msgs/LaserScan` as it is filled here, its ranges `float`; no range is infinity.
Its increment is one turn divided by the number of ranges. -/
structure LaserScan where
  range_min : ℚ
  range_max : ℚ
  ranges : List (Option ℚ)
  intensities : List ℚ
deriving Repr, DecidableEq

/-- `point_idx` -/
def slot (count : Nat) (degree : ℚ) : Int := cround ((360 - degree) * count / 360)

/-- What is written for a point. -/
def echo (q : ScanPoint) : Option ℚ × ℚ :=
  if q.range = 0 then (none, 0) else (some (single q.range), q.intensity)

/-- One turn of the loop over the points; `none` where it writes outside the arrays. -/
def draw (count : Nat) (image : List (Option ℚ) × List ℚ) (q : ScanPoint) :
    Option (List (Option ℚ) × List ℚ) :=
  let pointIdx := slot count q.degree
  if 0 ≤ pointIdx ∧ pointIdx < count then
    some (image.1.set pointIdx.toNat (echo q).1, image.2.set pointIdx.toNat (echo q).2)
  else none

/-- One turn of `pubScanThread` for the N10_P with `pubScan`. -/
def Driver.pubScan (cfg : Config) (d : Driver) : Option (LaserScan × Driver) :=
  let count := d.count_num
  ((d.scan_points_bak.take count).foldlM (draw count)
      (List.replicate count none, List.replicate count 0)).map fun image =>
    (⟨single cfg.min_range, single cfg.max_range, image.1, image.2⟩, { d with count_num := 0 })

/-! ## The driver and its publisher -/

structure Lidar where
  driver : Driver := {}
  scans : List LaserScan := []

/-- A packet processed by `polling`, a turn of the publisher (also one nobody asked for).  A
turn is taken whole between two packets: `count_num`, which the thread looks at again and again
without the lock, does not change under it. -/
inductive LidarEvent
  | packet (p : List UInt8)
  | wake

def Lidar.step (cfg : Config) (s : Lidar) : LidarEvent → Option Lidar
  | .packet p => (s.driver.dataProcessing2 cfg p).map fun d => { s with driver := d }
  | .wake => (s.driver.pubScan cfg).map fun (scan, d) => ⟨d, s.scans ++ [scan]⟩

/-- The valid points an event brings. -/
def LidarEvent.readings : LidarEvent → List Reading
  | .packet p => Lslidar.readings p
  | .wake => []

/-! ## The disabled sector -/

theorem upTurns_spec (n : Nat) : ∀ {x : ℚ}, -(360 * n) ≤ x →
    0 ≤ upTurns n x ∧ (∃ k : ℤ, upTurns n x = x + 360 * k) ∧ upTurns n x ≤ max x 360 := by
  induction n with
  | zero =>
    intro x hx
    simp only [Nat.cast_zero, mul_zero, neg_zero] at hx
    exact ⟨hx, ⟨0, by simp [upTurns]⟩, le_max_left x 360⟩
  | succ n ih =>
    intro x hx
    rw [upTurns]
    split
    · rename_i hneg
      push_cast at hx
      obtain ⟨hnonneg, ⟨k, hk⟩, hle⟩ := @ih (x + 360) (by linarith)
      refine ⟨hnonneg, ⟨k + 1, by rw [hk]; push_cast; ring⟩, hle.trans ?_⟩
      exact max_le (by rw [max_eq_right (by linarith)]; linarith) (le_max_right _ _)
    · rename_i hpos
      exact ⟨not_lt.mp hpos, ⟨0, by simp⟩, le_max_left x 360⟩

theorem downTurns_spec (n : Nat) : ∀ {x : ℚ}, 0 ≤ x → x ≤ 360 * (n + 1) →
    0 ≤ downTurns n x ∧ downTurns n x ≤ 360 ∧ ∃ k : ℤ, downTurns n x = x + 360 * k := by
  induction n with
  | zero =>
    intro x hx hle
    simp only [Nat.cast_zero, zero_add, mul_one] at hle
    exact ⟨hx, hle, 0, by simp [downTurns]⟩
  | succ n ih =>
    intro x hx hle
    rw [downTurns]
    split
    · rename_i hbig
      push_cast at hle
      obtain ⟨hnonneg, hle', k, hk⟩ := @ih (x - 360) (by linarith) (by linarith)
      exact ⟨hnonneg, hle', k - 1, by rw [hk]; push_cast; ring⟩
    · rename_i hsmall
      exact ⟨hx, not_lt.mp hsmall, 0, by simp⟩

/-- The loops end on the same direction, within one turn. -/
theorem turned_spec (x : ℚ) :
    0 ≤ turned x ∧ turned x ≤ 360 ∧ ∃ k : ℤ, turned x = x + 360 * k := by
  unfold turned
  have hceil : |x| / 360 ≤ (⌈|x| / 360⌉.toNat : ℚ) := by
    refine (Int.le_ceil _).trans ?_
    exact_mod_cast Int.self_le_toNat _
  generalize ⌈|x| / 360⌉.toNat = n at hceil
  have hx : |x| ≤ 360 * n := by linarith
  obtain ⟨hlo, hhi⟩ := abs_le.mp hx
  obtain ⟨hnonneg, ⟨k, hk⟩, hle⟩ := upTurns_spec (n + 1) (x := x) (by push_cast; linarith)
  obtain ⟨h0, h360, k', hk'⟩ := downTurns_spec (n + 1) hnonneg (hle.trans (max_le
    (by push_cast; linarith) (by push_cast; linarith [Nat.cast_nonneg (α := ℚ) n])))
  exact ⟨h0, h360, k + k', by rw [hk', hk]; push_cast; ring⟩

theorem masked_iff (cfg : Config) (degree : ℚ) :
    masked cfg degree = true ↔
      (360 < cfg.angle_able_max ∧ cfg.angle_able_max - 360 < 360 - degree ∧
        360 - degree < cfg.angle_able_min) ∨
      (cfg.angle_able_max ≤ 360 ∧
        (cfg.angle_able_max < 360 - degree ∨ 360 - degree < cfg.angle_able_min)) := by
  unfold masked
  split
  · rename_i h
    simp [h, not_le.mpr h]
  · rename_i h
    simp [h, not_lt.mp h]

/-- Whatever lies in the disabled sector is masked. -/
theorem masked_of_disabled {ps : Params} {degree : ℚ} (h : Disabled ps (360 - degree)) :
    masked (loadParameters ps) degree = true := by
  obtain ⟨hlo, hlo360, -⟩ := turned_spec ps.angle_disable_min
  rw [masked_iff]
  unfold Disabled at h
  simp only [loadParameters] at h ⊢
  generalize turned ps.angle_disable_min = lo at *
  generalize turned ps.angle_disable_max = hi at *
  unfold ableAngles
  rcases h with ⟨hlt, hgt, hlt'⟩ | ⟨hlt, hout⟩
  · rw [if_neg hlt.ne']
    by_cases h0 : lo = 0
    · rw [if_neg fun h => h.2 h0, if_pos ⟨hlt, h0⟩]
      exact .inr ⟨le_refl _, .inr hlt'⟩
    · rw [if_pos ⟨hlt, h0⟩]
      have hpos : 0 < lo := lt_of_le_of_ne hlo (Ne.symm h0)
      exact .inl ⟨by simpa using hpos, by simpa using hgt, hlt'⟩
  · rw [if_neg hlt.ne, if_neg fun h => hlt.asymm h.1, if_neg fun h => hlt.asymm h.1]
    exact .inr ⟨hlo360, hout⟩

/-! ## Places -/

theorem cround_nonneg_iff (x : ℚ) : 0 ≤ cround x ↔ -(1 / 2) < x := by
  unfold cround
  split
  · rename_i h
    rw [Int.floor_nonneg]
    constructor
    · intro _
      linarith
    · intro _
      linarith
  · rw [← Int.sub_one_lt_iff, Int.lt_ceil]
    constructor
    · intro h
      push_cast at h
      linarith
    · intro h
      push_cast
      linarith

theorem abs_cround_sub_le (x : ℚ) : |(cround x : ℚ) - x| ≤ 1 / 2 := by
  unfold cround
  split
  · have hle := Int.floor_le (x + 1 / 2)
    have hlt := Int.lt_floor_add_one (x + 1 / 2)
    rw [abs_le]
    constructor <;> linarith
  · have hle := Int.le_ceil (x - 1 / 2)
    have hlt := Int.ceil_lt_add_one (x - 1 / 2)
    rw [abs_le]
    constructor <;> linarith

theorem cround_lt_iff (x : ℚ) {n : Nat} (hn : 0 < n) : cround x < n ↔ x < n - 1 / 2 := by
  unfold cround
  have hone : (1 : ℚ) ≤ n := by exact_mod_cast hn
  split
  · rw [Int.floor_lt]
    push_cast
    constructor <;> intro h <;> linarith
  · rename_i hneg
    refine iff_of_true ?_ (by linarith)
    have hle : ⌈x - 1 / 2⌉ ≤ 0 := Int.ceil_le.mpr (by push_cast; linarith)
    omega

/-- A place is inside the arrays exactly when the point lies more than half an increment past
north, and not as much past it again. -/
theorem slot_iff {n : Nat} (hn : 0 < n) (degree : ℚ) :
    (0 ≤ slot n degree ∧ slot n degree < n) ↔ 180 / n < degree ∧ degree < 360 + 180 / n := by
  have hpos : (0 : ℚ) < n := by exact_mod_cast hn
  unfold slot
  rw [cround_nonneg_iff, cround_lt_iff _ hn, and_comm, lt_div_iff₀ (by norm_num),
    div_lt_iff₀ (by norm_num), div_lt_iff₀ hpos, ← sub_lt_iff_lt_add', lt_div_iff₀ hpos]
  constructor
  · rintro ⟨h, h'⟩
    constructor <;> linarith
  · rintro ⟨h, h'⟩
    constructor <;> linarith

/-- The place of a point stands for its bearing, within half an increment. -/
theorem abs_bearing_sub_le {n : Nat} (hn : 0 < n) (degree : ℚ) :
    |360 - degree - slot n degree * 360 / n| ≤ 180 / n := by
  have hpos : (0 : ℚ) < n := by exact_mod_cast hn
  have hround := abs_cround_sub_le ((360 - degree) * n / 360)
  have hscale : 360 - degree - slot n degree * 360 / n =
      ((360 - degree) * n / 360 - slot n degree) * (360 / n) := by
    field_simp
  rw [hscale, abs_mul, abs_of_pos (by positivity : (0 : ℚ) < 360 / n), abs_sub_comm]
  calc |(slot n degree : ℚ) - (360 - degree) * n / 360| * (360 / n)
      ≤ 1 / 2 * (360 / n) := mul_le_mul_of_nonneg_right hround (by positivity)
    _ = 180 / n := by ring

/-! ## One scan -/

def rangeWrite (count : Nat) (q : ScanPoint) : Nat × Option ℚ :=
  ((slot count q.degree).toNat, (echo q).1)

def intensityWrite (count : Nat) (q : ScanPoint) : Nat × ℚ :=
  ((slot count q.degree).toNat, (echo q).2)

/-- Inside the arrays, the loop carries out one write for each point. -/
theorem draws_eq {count : Nat} (qs : List ScanPoint) : ∀ (image : List (Option ℚ) × List ℚ),
    (∀ q ∈ qs, 0 ≤ slot count q.degree ∧ slot count q.degree < count) →
    qs.foldlM (draw count) image =
      some (writes (qs.map (rangeWrite count)) image.1,
        writes (qs.map (intensityWrite count)) image.2) := by
  induction qs with
  | nil => exact fun _ _ => rfl
  | cons q qs ih =>
    intro image hslots
    rw [List.foldlM_cons, draw, if_pos (hslots q List.mem_cons_self)]
    exact ih _ fun u hu => hslots u (List.mem_cons_of_mem _ hu)

theorem draws_none {count : Nat} (qs : List ScanPoint) : ∀ (image : List (Option ℚ) × List ℚ),
    (∃ q ∈ qs, ¬ (0 ≤ slot count q.degree ∧ slot count q.degree < count)) →
    qs.foldlM (draw count) image = none := by
  induction qs with
  | nil => exact fun _ ⟨q, hq, _⟩ => absurd hq List.not_mem_nil
  | cons q qs ih =>
    rintro image ⟨u, hu, hout⟩
    rw [List.foldlM_cons, draw]
    by_cases hq : 0 ≤ slot count q.degree ∧ slot count q.degree < count
    · rw [if_pos hq]
      refine ih _ ⟨u, ?_, hout⟩
      rcases List.mem_cons.mp hu with rfl | hu
      · exact absurd hq hout
      · exact hu
    · rw [if_neg hq]
      rfl

/-- What a scan says of the points of a sweep. -/
structure Shows (ps : Params) (points : List Reading) (scan : LaserScan) : Prop where
  length : scan.ranges.length = points.length
  sound : ∀ (j : Nat) (r : ℚ), scan.ranges[j]? = some (some r) → ∃ x ∈ points,
    single x.range = r ∧ scan.intensities[j]? = some x.intensity ∧ ps.min_range ≤ x.range ∧
      x.range ≤ ps.max_range ∧ ¬ Disabled ps (360 - x.degree) ∧
      |360 - x.degree - j * 360 / points.length| ≤ 180 / points.length
  complete : ∀ us x vs, points = us ++ x :: vs → x.range ≠ 0 → ps.min_range ≤ x.range →
    x.range ≤ ps.max_range → masked (loadParameters ps) x.degree = false →
    (∀ y ∈ vs, slot points.length y.degree ≠ slot points.length x.degree) →
    ∃ j : Nat, (j : Int) = slot points.length x.degree ∧
      scan.ranges[j]? = some (some (single x.range))

theorem visible_ne_zero {cfg : Config} {hidden : Bool} {r : ℚ} (h : visible cfg hidden r ≠ 0) :
    visible cfg hidden r = r ∧ hidden = false ∧ cfg.min_range ≤ r ∧ r ≤ cfg.max_range := by
  unfold visible at h ⊢
  cases hidden with
  | true => simp at h
  | false =>
    simp only [Bool.false_eq_true, if_false] at h ⊢
    split at h
    · exact absurd rfl h
    · rename_i hin
      rw [not_or, not_lt, not_lt] at hin
      rw [if_neg (by rw [not_or, not_lt, not_lt]; exact hin)]
      exact ⟨rfl, trivial, hin⟩

theorem visible_eq {cfg : Config} {r : ℚ} (hlo : cfg.min_range ≤ r) (hhi : r ≤ cfg.max_range) :
    visible cfg false r = r := by
  unfold visible
  simp only [Bool.false_eq_true, if_false]
  exact if_neg (by rw [not_or, not_lt, not_lt]; exact ⟨hlo, hhi⟩)

theorem echo_seen {ps : Params} {x : Reading} {r : ℚ}
    (h : (echo (x.point.seen (loadParameters ps))).1 = some r) :
    single x.range = r ∧ (echo (x.point.seen (loadParameters ps))).2 = x.intensity ∧
      ps.min_range ≤ x.range ∧ x.range ≤ ps.max_range ∧
      masked (loadParameters ps) x.degree = false := by
  unfold echo at h ⊢
  split at h
  · cases h
  · rename_i hne
    obtain ⟨heq, hmask, hlo, hhi⟩ := visible_ne_zero hne
    have hr : single x.range = r := (congrArg single heq).symm.trans (Option.some.inj h)
    rw [if_neg hne]
    exact ⟨hr, rfl, hlo, hhi, hmask⟩

/-- The image that the writes of a sweep leave. -/
theorem shows_writes (ps : Params) (xs : List Reading)
    (hslots : ∀ x ∈ xs, 0 ≤ slot xs.length x.degree ∧ slot xs.length x.degree < xs.length) :
    let qs := xs.map fun x => x.point.seen (loadParameters ps)
    Shows ps xs ⟨single ps.min_range, single ps.max_range,
      writes (qs.map (rangeWrite xs.length)) (List.replicate xs.length none),
      writes (qs.map (intensityWrite xs.length)) (List.replicate xs.length 0)⟩ := by
  intro qs
  refine ⟨by simp, ?_, ?_⟩
  · intro j r hj
    simp only at hj ⊢
    have hlt : j < xs.length := by
      have hlt := (List.getElem?_eq_some_iff.mp hj).1
      rwa [length_writes, List.length_replicate] at hlt
    rw [getElem?_writes _ _ (by rwa [List.length_replicate]), List.map_map, lastAt_map] at hj
    rcases hj with ⟨us, x, vs, hxs, hx, hlast⟩ | ⟨hinit, -⟩
    swap
    · rw [List.getElem?_replicate, if_pos hlt] at hinit
      cases hinit
    obtain ⟨hslot, hecho⟩ := Prod.mk.inj hx
    obtain ⟨hr, hintensity, hlo, hhi, hmask⟩ := echo_seen hecho
    have hmem : x ∈ xs := by rw [hxs]; exact List.mem_append_right _ List.mem_cons_self
    have hbearing := abs_bearing_sub_le (Nat.zero_lt_of_lt hlt) x.degree
    have hplace : slot xs.length x.degree = j := by
      have h0 := (hslots x hmem).1
      have hj : (slot xs.length x.degree).toNat = j := hslot
      omega
    refine ⟨x, hmem, hr, ?_, hlo, hhi, ?_, by rwa [hplace] at hbearing⟩
    · rw [getElem?_writes _ _ (by rwa [List.length_replicate]), List.map_map, lastAt_map]
      exact .inl ⟨us, x, vs, hxs, Prod.ext hslot hintensity, hlast⟩
    · intro hdisabled
      rw [masked_of_disabled hdisabled] at hmask
      cases hmask
  · intro us x vs hxs hne hlo hhi hmask hlast
    have hmem : x ∈ xs := by rw [hxs]; exact List.mem_append_right _ List.mem_cons_self
    obtain ⟨h0, hlt⟩ := hslots x hmem
    refine ⟨(slot xs.length x.degree).toNat, Int.toNat_of_nonneg h0, ?_⟩
    simp only
    rw [getElem?_writes _ _ (by rw [List.length_replicate]; omega), List.map_map, lastAt_map]
    refine .inl ⟨us, x, vs, hxs, Prod.ext rfl ?_, fun y hy heq => hlast y hy ?_⟩
    · show (echo (x.point.seen (loadParameters ps))).1 = some (single x.range)
      have hrange : (x.point.seen (loadParameters ps)).range = x.range := by
        show visible _ (masked _ x.degree) x.range = x.range
        rw [hmask]
        exact visible_eq hlo hhi
      unfold echo
      rw [hrange, if_neg hne]
    · have hy0 := (hslots y (by rw [hxs]; simp [hy])).1
      have hyx : (slot xs.length y.degree).toNat = (slot xs.length x.degree).toNat := heq
      omega

/-- The publisher's copy is the last sweep, cropped. -/
theorem Tracks.take_bak {cfg : Config} {d : Driver} {closed : List (List Reading × Reading)}
    {pending : List Reading} (h : Tracks cfg d closed pending) (hcount : d.count_num ≠ 0) :
    ∃ w, closed.getLast? = some w ∧ d.count_num = w.1.length ∧
      d.scan_points_bak.take d.count_num = w.1.map fun x => x.point.seen cfg := by
  obtain ⟨w, hw, hlen, hbak⟩ := h.bak hcount
  refine ⟨w, hw, hlen, List.ext_getElem? fun i => ?_⟩
  rw [hlen, List.getElem?_map]
  by_cases hi : i < w.1.length
  · rw [List.getElem?_take_of_lt hi]
    have hx := List.getElem?_eq_getElem hi
    rw [hbak i _ hx, hx, Option.map_some]
  · rw [List.getElem?_eq_none (by rw [List.length_take]; omega),
      List.getElem?_eq_none (not_lt.mp hi), Option.map_none]

/-- One turn of the publisher: nothing to show, the last sweep, or a write outside. -/
theorem pubScan_spec {ps : Params} {d : Driver} {closed : List (List Reading × Reading)}
    {pending : List Reading} (h : Tracks (loadParameters ps) d closed pending) :
    (d.count_num = 0 ∧ ∃ scan, d.pubScan (loadParameters ps) = some (scan, d) ∧ scan.ranges = []) ∨
      (d.count_num ≠ 0 ∧ ∃ w, closed.getLast? = some w ∧ d.count_num = w.1.length ∧
        (((∀ x ∈ w.1, 180 / (w.1.length : ℚ) < x.degree ∧ x.degree < 360 + 180 / w.1.length) ∧
          ∃ scan, d.pubScan (loadParameters ps) = some (scan, { d with count_num := 0 }) ∧
            Shows ps w.1 scan) ∨
        ((∃ x ∈ w.1, ¬ (180 / (w.1.length : ℚ) < x.degree ∧ x.degree < 360 + 180 / w.1.length)) ∧
          d.pubScan (loadParameters ps) = none))) := by
  by_cases hcount : d.count_num = 0
  · refine .inl ⟨hcount, ⟨single ps.min_range, single ps.max_range, [], []⟩, ?_, rfl⟩
    unfold Driver.pubScan
    rw [hcount]
    simp only [List.take_zero, List.foldlM_nil, List.replicate_zero]
    show some (_, { d with count_num := 0 }) = _
    rw [← hcount]
    rfl
  · refine .inr ⟨hcount, ?_⟩
    obtain ⟨w, hw, hlen, htake⟩ := h.take_bak hcount
    have hpos : 0 < w.1.length := by omega
    refine ⟨w, hw, hlen, ?_⟩
    unfold Driver.pubScan
    simp only
    rw [htake, hlen]
    by_cases hslots : ∀ x ∈ w.1, 180 / (w.1.length : ℚ) < x.degree ∧
        x.degree < 360 + 180 / w.1.length
    · refine .inl ⟨hslots, _, ?_, shows_writes ps w.1 fun x hx =>
        (slot_iff hpos x.degree).mpr (hslots x hx)⟩
      rw [draws_eq]
      · rfl
      · intro q hq
        obtain ⟨x, hx, rfl⟩ := List.mem_map.mp hq
        exact (slot_iff hpos x.degree).mpr (hslots x hx)
    · push Not at hslots
      obtain ⟨x, hx, hout⟩ := hslots
      have hout' : ¬ (180 / (w.1.length : ℚ) < x.degree ∧ x.degree < 360 + 180 / w.1.length) :=
        fun h => absurd h.2 (not_lt.mpr (hout h.1))
      refine .inr ⟨⟨x, hx, hout'⟩, ?_⟩
      rw [draws_none]
      · rfl
      · refine ⟨x.point.seen (loadParameters ps), List.mem_map_of_mem hx, fun h => hout' ?_⟩
        exact (slot_iff hpos x.degree).mp h

/-! ## Runs -/

/-- The sweeps of the points seen, and those published. -/
structure Published (ps : Params) (s : Lidar) (xs : List Reading)
    (shown : List (List Reading × Reading)) : Prop where
  account : Account (loadParameters ps) s.driver xs
  images : List.Forall₂ (fun w scan => Shows ps w.1 scan) shown
    (s.scans.filter fun scan => !scan.ranges.isEmpty)
  order : shown.Sublist (sweepsOf xs)
  fresh : s.driver.count_num ≠ 0 → shown.Sublist (sweepsOf xs).dropLast

theorem published_start (ps : Params) : Published ps {} [] [] where
  account := account_start _
  images := .nil
  order := .slnil
  fresh := fun h => absurd rfl h

/-- A new scan in the list of those that show something. -/
theorem filter_concat_nil {scans : List LaserScan} {scan : LaserScan} (h : scan.ranges = []) :
    (scans ++ [scan]).filter (fun scan => !scan.ranges.isEmpty) =
      scans.filter fun scan => !scan.ranges.isEmpty := by
  rw [List.filter_append, List.filter_cons_of_neg (by simp [h]), List.filter_nil, List.append_nil]

theorem filter_concat {scans : List LaserScan} {scan : LaserScan} (h : scan.ranges ≠ []) :
    (scans ++ [scan]).filter (fun scan => !scan.ranges.isEmpty) =
      (scans.filter fun scan => !scan.ranges.isEmpty) ++ [scan] := by
  rw [List.filter_append, List.filter_cons_of_pos (by simpa using h), List.filter_nil]

theorem step_packet {cfg : Config} {s : Lidar} {p : List UInt8} {d : Driver}
    (h : s.driver.dataProcessing2 cfg p = some d) :
    s.step cfg (.packet p) = some { s with driver := d } := by
  rw [Lidar.step, h, Option.map_some]

theorem step_wake {cfg : Config} {s : Lidar} {scan : LaserScan} {d : Driver}
    (h : s.driver.pubScan cfg = some (scan, d)) :
    s.step cfg .wake = some ⟨d, s.scans ++ [scan]⟩ := by
  rw [Lidar.step, h, Option.map_some]

/-- One event. -/
theorem Published.step {ps : Params} {s s' : Lidar} {xs : List Reading}
    {shown : List (List Reading × Reading)} (h : Published ps s xs shown) {e : LidarEvent}
    (hs : s.step (loadParameters ps) e = some s') :
    ∃ shown', Published ps s' (xs ++ e.readings) shown' := by
  cases e with
  | packet p =>
    obtain ⟨d, hd, rfl⟩ := Option.map_eq_some_iff.mp hs
    rcases h.account.packet p with ⟨-, hnone⟩ | ⟨-, d', hd', haccount, hgrown⟩
    · rw [hnone] at hd
      cases hd
    · rw [hd'] at hd
      obtain rfl := Option.some.inj hd
      refine ⟨shown, haccount, h.images, ?_, ?_⟩
      · rcases hgrown with ⟨hsame, -⟩ | ⟨hgrown, -⟩
        · exact hsame ▸ h.order
        · exact (h.order.trans hgrown.sublist).trans (List.dropLast_sublist _)
      · intro hcount
        rcases hgrown with ⟨hsame, hcount'⟩ | ⟨hgrown, -⟩
        · exact hsame ▸ h.fresh (hcount' ▸ hcount)
        · exact h.order.trans hgrown.sublist
  | wake =>
    obtain ⟨⟨scan, d⟩, hd, rfl⟩ := Option.map_eq_some_iff.mp hs
    have htracks := h.account
    rw [show xs ++ LidarEvent.wake.readings = xs from List.append_nil xs]
    rcases pubScan_spec htracks with ⟨hcount, scan', hscan, hempty⟩ |
      ⟨hcount, w, hw, hlen, ⟨-, scan', hscan, hshows⟩ | ⟨-, hscan⟩⟩
    · rw [hscan] at hd
      obtain ⟨rfl, rfl⟩ := Prod.mk.inj (Option.some.inj hd)
      refine ⟨shown, htracks, ?_, h.order, h.fresh⟩
      rw [filter_concat_nil hempty]
      exact h.images
    · rw [hscan] at hd
      obtain ⟨rfl, rfl⟩ := Prod.mk.inj (Option.some.inj hd)
      have hne : scan'.ranges ≠ [] := by
        intro hnil
        have hzero := hshows.length
        rw [hnil, List.length_nil] at hzero
        omega
      have hclosed : (sweepsOf xs).dropLast ++ [w] = sweepsOf xs := by
        obtain ⟨ys, hys⟩ := List.getLast?_eq_some_iff.mp hw
        rw [hys, List.dropLast_concat]
      refine ⟨shown ++ [w], ?_, ?_, ?_, fun h => absurd rfl h⟩
      · exact ⟨htracks.idx, htracks.last, htracks.size, htracks.stored, htracks.bound,
          fun h => absurd rfl h⟩
      · rw [filter_concat hne]
        exact List.rel_append h.images (.cons hshows .nil)
      · rw [← hclosed]
        exact (h.fresh hcount).append (List.Sublist.refl [w])
    · rw [hscan] at hd
      cases hd

theorem Published.exec {ps : Params} (es : List LidarEvent) : ∀ {s s' : Lidar}
    {xs : List Reading} {shown : List (List Reading × Reading)}, Published ps s xs shown →
    Run.exec (Lidar.step (loadParameters ps)) es s = some s' →
    ∃ shown', Published ps s' (xs ++ es.flatMap LidarEvent.readings) shown' := by
  induction es with
  | nil =>
    intro s s' xs shown h hs
    cases hs
    exact ⟨shown, by rwa [List.flatMap_nil, List.append_nil]⟩
  | cons e es ih =>
    intro s s' xs shown h hs
    obtain ⟨s1, h1, hs1⟩ := Run.exec_cons hs
    obtain ⟨shown1, hpub⟩ := h.step h1
    obtain ⟨shown2, hpub2⟩ := ih hpub hs1
    exact ⟨shown2, by rwa [List.flatMap_cons, ← List.append_assoc]⟩

theorem scans_run (ps : Params) (es : List LidarEvent) (s : Lidar)
    (h : Run.exec (Lidar.step (loadParameters ps)) es {} = some s) :
    ∃ shown, shown.Sublist (sweepsOf (es.flatMap LidarEvent.readings)) ∧
      List.Forall₂ (fun w scan => Shows ps w.1 scan) shown
        (s.scans.filter fun scan => !scan.ranges.isEmpty) := by
  obtain ⟨shown, hpub⟩ := (published_start ps).exec es h
  exact ⟨shown, hpub.order, hpub.images⟩

/-- The packet an event processes. -/
def LidarEvent.packet? : LidarEvent → Option (List UInt8)
  | .packet p => some p
  | .wake => none

theorem flatMap_readings (es : List LidarEvent) :
    es.flatMap LidarEvent.readings =
      (es.filterMap LidarEvent.packet?).flatMap Lslidar.readings := by
  induction es with
  | nil => rfl
  | cons e es ih =>
    cases e with
    | packet p => exact congrArg (Lslidar.readings p ++ ·) ih
    | wake => exact ih

/-- **From the line to the scans.**  The port hands over gaps and packets in any pieces; the
packets that `receive_data` makes of them are processed, with turns of the publisher anywhere
between them.  Then the scans that show anything show sweeps of the points of the packets with a
right sum, each another one, in their order. -/
theorem line_scans (ps : Params) (xs : List (List UInt8 × LidarPacket)) (l : List Look)
    (es : List LidarEvent) (s : Lidar) (hline : Steady 0 0 l)
    (hgap : ∀ x ∈ xs, skips x.1 = true)
    (hheard : heard l = xs.flatMap fun x => x.1 ++ x.2.bytes)
    (hpackets : es.filterMap LidarEvent.packet? = packets l)
    (h : Run.exec (Lidar.step (loadParameters ps)) es {} = some s) :
    ∃ shown, shown.Sublist
        (sweepsOf (((xs.map fun x => x.2.bytes).filter crcMatches).flatMap readings)) ∧
      List.Forall₂ (fun w scan => Shows ps w.1 scan) shown
        (s.scans.filter fun scan => !scan.ranges.isEmpty) := by
  have hscans := scans_run ps es s h
  rwa [flatMap_readings, hpackets, packets_eq xs l hline hgap hheard] at hscans

/-- Both packets around north, a stray byte between them, the first in two pieces. -/
def northPackets : List (List UInt8 × LidarPacket) :=
  [([], ⟨beforeNorth.drop 2, by decide⟩), ([0x00], ⟨behindNorth.drop 2, by decide⟩)]

def northLine : List Look :=
  [.bytes 0xA5 ((beforeNorth.drop 1).take 60), .quiet,
    .bytes (beforeNorth.getD 61 0) (beforeNorth.drop 62 ++ 0x00 :: behindNorth)]

theorem sweepsOf_beforeNorth : sweepsOf (readings beforeNorth) = [] := by decide +kernel

/-- Both packets, and the publisher's turn: the points before north are shown. -/
theorem exists_run_north (ps : Params) :
    ∃ s s' scan, Run.exec (Lidar.step (loadParameters ps))
        [.packet beforeNorth, .packet behindNorth] {} = some s ∧
      s.step (loadParameters ps) .wake = some s' ∧ s'.scans = [scan] ∧
      Shows ps (readings beforeNorth) scan := by
  have hin : ∀ x ∈ readings beforeNorth, 180 / ((readings beforeNorth).length : ℚ) < x.degree ∧
      x.degree < 360 + 180 / (readings beforeNorth).length := by decide +kernel
  rcases (account_start (loadParameters ps)).packet beforeNorth with
    ⟨hvalid, -⟩ | ⟨-, d1, hd1, h1, -⟩
  · exact absurd hvalid (by decide)
  rcases h1.packet behindNorth with ⟨hvalid, -⟩ | ⟨-, d2, hd2, h2, hgrown⟩
  · exact absurd hvalid (by decide)
  rw [List.nil_append, sweepsOf_beforeNorth, sweepsOf_north] at hgrown
  have hexec : Run.exec (Lidar.step (loadParameters ps))
      [.packet beforeNorth, .packet behindNorth] {} = some ⟨d2, []⟩ := by
    have hs1 := step_packet (s := ⟨{}, []⟩) hd1
    have hs2 := step_packet (s := ⟨d1, []⟩) hd2
    rw [Run.exec, hs1, Option.bind_some, Run.exec, hs2]
    rfl
  have hcount : d2.count_num ≠ 0 := by
    rcases hgrown with ⟨hsame, -⟩ | ⟨-, hcount⟩
    · cases hsame
    · exact hcount
  rcases pubScan_spec h2 with ⟨hzero, -⟩ |
    ⟨-, w, hw, -, ⟨-, scan, hscan, hshows⟩ | ⟨⟨x, hx, hout⟩, -⟩⟩
  · exact absurd hzero hcount
  all_goals
    rw [List.nil_append, sweepsOf_north] at hw
    obtain rfl := Option.some.inj hw
  · exact ⟨_, _, scan, hexec, step_wake hscan, rfl, hshows⟩
  · exact absurd (hin x hx) hout

/-- The last point before north stands at place 0 of the scan. -/
theorem line_scans_north :
    ∃ (s : Lidar) (scan : LaserScan) (shown : List (List Reading × Reading)),
      Run.exec (Lidar.step (loadParameters lsn10p))
        [.packet beforeNorth, .packet behindNorth, .wake] {} = some s ∧
      s.scans = [scan] ∧ scan.ranges.length = 16 ∧ scan.ranges[0]? = some (some 1) ∧
      shown.Sublist
        (sweepsOf (((northPackets.map fun x => x.2.bytes).filter crcMatches).flatMap readings)) ∧
      List.Forall₂ (fun w scan => Shows lsn10p w.1 scan) shown
        (s.scans.filter fun scan => !scan.ranges.isEmpty) := by
  obtain ⟨s, s', scan, hs, hwake, hscans, hshows⟩ := exists_run_north lsn10p
  have hexec : Run.exec (Lidar.step (loadParameters lsn10p))
      [.packet beforeNorth, .packet behindNorth, .wake] {} = some s' := by
    have hlast : Run.exec (Lidar.step (loadParameters lsn10p)) [.wake] s = some s' := by
      rw [Run.exec, hwake]
      rfl
    simpa only [List.cons_append, List.nil_append] using Run.exec_append hs hlast
  have hplace : scan.ranges[0]? = some (some 1) := by
    obtain ⟨j, hj, hrange⟩ := hshows.complete (readings beforeNorth).dropLast
      (readingAt beforeNorth 15) [] (by decide +kernel) (by decide +kernel) (by decide +kernel)
      (by decide +kernel) (by decide +kernel) nofun
    have hzero : slot (readings beforeNorth).length (readingAt beforeNorth 15).degree = 0 := by
      decide +kernel
    have hone : single (readingAt beforeNorth 15).range = 1 := by decide +kernel
    obtain rfl : j = 0 := by omega
    rw [hrange, hone]
  obtain ⟨shown, hshown⟩ := line_scans lsn10p northPackets northLine
    [.packet beforeNorth, .packet behindNorth, .wake] s' (by simp [Steady, northLine])
    (by decide) (by decide +kernel) (by decide +kernel) hexec
  have hlength : scan.ranges.length = 16 := hshows.length.trans (by decide +kernel)
  exact ⟨s', scan, shown, hexec, hscans, hlength, hplace, hshown⟩

/-- **Writes outside the arrays.**  In every state a run reaches, the publisher's turn goes well
exactly when no sweep waits, or every point of the last one lies more than half an increment
past north and not as much past it again. -/
theorem wake_iff (ps : Params) (es : List LidarEvent) (s : Lidar)
    (h : Run.exec (Lidar.step (loadParameters ps)) es {} = some s) :
    (s.step (loadParameters ps) .wake).isSome = true ↔ s.driver.count_num = 0 ∨
      ∃ w, (sweepsOf (es.flatMap LidarEvent.readings)).getLast? = some w ∧
        ∀ x ∈ w.1, 180 / (w.1.length : ℚ) < x.degree ∧ x.degree < 360 + 180 / w.1.length := by
  obtain ⟨shown, hpub⟩ := (published_start ps).exec es h
  unfold Lidar.step
  rw [Option.isSome_map]
  rcases pubScan_spec hpub.account with ⟨hcount, scan, hscan, -⟩ |
    ⟨hcount, w, hw, hlen, ⟨hin, scan, hscan, -⟩ | ⟨⟨x, hx, hout⟩, hscan⟩⟩
  · rw [hscan]
    exact ⟨fun _ => .inl hcount, fun _ => rfl⟩
  · rw [hscan]
    exact ⟨fun _ => .inr ⟨w, hw, hin⟩, fun _ => rfl⟩
  · rw [hscan]
    refine ⟨fun h => by simp at h, ?_⟩
    rintro (hzero | ⟨w', hw', hin⟩)
    · exact absurd hzero hcount
    · obtain rfl := Option.some.inj (hw'.symm.trans hw)
      exact absurd (hin x hx) hout

theorem wake_iff_north :
    ∃ s, Run.exec (Lidar.step (loadParameters lsn10p))
      [.packet beforeNorth, .packet behindNorth] {} = some s ∧ (s.driver.count_num = 0 ∨ ∃ w,
        (sweepsOf (readings beforeNorth ++ readings behindNorth)).getLast? = some w ∧
        ∀ x ∈ w.1, 180 / (w.1.length : ℚ) < x.degree ∧ x.degree < 360 + 180 / w.1.length) := by
  obtain ⟨s, s', -, hs, hs', -⟩ := exists_run_north lsn10p
  have h := (wake_iff lsn10p _ s hs).mp (by rw [hs']; rfl)
  have hreadings : [LidarEvent.packet beforeNorth, .packet behindNorth].flatMap
      LidarEvent.readings = readings beforeNorth ++ readings behindNorth := by
    simp only [List.flatMap_cons, List.flatMap_nil, LidarEvent.readings, List.append_nil]
  rw [hreadings] at h
  exact ⟨s, hs, h⟩

end AgvPro.Lslidar
