import AgvPro.Lib.Bins
import AgvPro.Lib.Scatter
import Mathlib.Algebra.Order.Group.MinMax
import Mathlib.Data.Rat.Floor

/-!
# The map made of a point cloud

`pcd2pgm` filters a cloud and lays a grid over what is left, from the smallest coordinates to
the largest; a cell with a point in it is occupied.  The last column, or row, is missing when
the extent is a whole number of cells: the points at the very end are then in no cell.

    a cell is occupied ↔ a point lies in it                           (occupied_iff)
    a point is in no cell ↔ it lies at the far end of an extent that
      is a whole number of cells                                      (lost_iff)

Coordinates, `float` and `double` in the source, are exact rationals.
-/

namespace AgvPro.Pcd2Pgm

open Bins Scatter

/-- `std::numeric_limits<double>::max()` -/
def doubleMax : ℚ := (2 ^ 53 - 1) * 2 ^ 971

structure PointXYZ where
  x : ℚ
  y : ℚ
  z : ℚ

/-- `nav_msgs/OccupancyGrid`, less its stamps. -/
structure OccupancyGrid where
  resolution : ℚ := 0
  width : Nat := 0
  height : Nat := 0
  origin_x : ℚ := 0
  origin_y : ℚ := 0
  data : List Int := []

/-- The conversion of an integral `double` to `uint32_t`, undefined out of range. -/
def toUInt32? (v : ℤ) : Option Nat := if 0 ≤ v ∧ v < 2 ^ 32 then some v.toNat else none

/-- The conversion to `int`. -/
def toInt32? (v : ℤ) : Option ℤ := if -2 ^ 31 ≤ v ∧ v < 2 ^ 31 then some v else none

def minimum (f : PointXYZ → ℚ) (cloud : List PointXYZ) : ℚ :=
  cloud.foldl (fun m p => min m (f p)) doubleMax

def maximum (f : PointXYZ → ℚ) (cloud : List PointXYZ) : ℚ :=
  cloud.foldl (fun m p => max m (f p)) (-doubleMax)

/-- The cell of a point, when it has one. -/
def cell (x_min y_min res : ℚ) (width height : Nat) (p : PointXYZ) : Option (Option Nat) :=
  (toInt32? (bin x_min res p.x)).bind fun i => (toInt32? (bin y_min res p.y)).bind fun j =>
    if 0 ≤ i ∧ i < width ∧ 0 ≤ j ∧ j < height then
      some (some ((i.toNat + j.toNat * width) % 2 ^ 32))
    else some none

/-- One turn of the loop over the points. -/
def mark (x_min y_min res : ℚ) (width height : Nat) (data : List Int) (p : PointXYZ) :
    Option (List Int) :=
  (cell x_min y_min res width height p).bind fun k =>
    match k with
    | none => some data
    | some k => if k < data.length then some (data.set k 100) else none

/-- `setMapTopicMsg`; `none` where its behaviour is undefined. -/
def setMapTopicMsg (res : ℚ) (cloud : List PointXYZ) (msg : OccupancyGrid) :
    Option OccupancyGrid :=
  let msg := { msg with resolution := res }
  if cloud.isEmpty then some msg
  else
    let x_min := minimum PointXYZ.x cloud
    let x_max := maximum PointXYZ.x cloud
    let y_min := minimum PointXYZ.y cloud
    let y_max := maximum PointXYZ.y cloud
    (toUInt32? (bins x_min x_max res)).bind fun width =>
      (toUInt32? (bins y_min y_max res)).bind fun height =>
        (cloud.foldlM (mark x_min y_min res width height)
            (List.replicate (width * height % 2 ^ 32) 0)).map fun data =>
          { msg with
            origin_x := x_min
            origin_y := y_min
            width := width
            height := height
            data := data }

/-! ## The extent -/

theorem fold_min (f : PointXYZ → ℚ) (cloud : List PointXYZ) : ∀ m,
    cloud.foldl (fun m p => min m (f p)) m ≤ m ∧
      ∀ p ∈ cloud, cloud.foldl (fun m p => min m (f p)) m ≤ f p := by
  induction cloud with
  | nil => exact fun m => ⟨le_rfl, nofun⟩
  | cons q cloud ih =>
    intro m
    obtain ⟨hle, hall⟩ := ih (min m (f q))
    rw [List.foldl_cons]
    refine ⟨hle.trans (min_le_left _ _), fun p hp => ?_⟩
    rcases List.mem_cons.mp hp with rfl | hp
    · exact hle.trans (min_le_right _ _)
    · exact hall p hp

/-- The largest is the smallest of the negatives. -/
theorem maximum_eq (f : PointXYZ → ℚ) (cloud : List PointXYZ) :
    maximum f cloud = -minimum (fun p => -f p) cloud := by
  have hfold : ∀ m, cloud.foldl (fun m p => max m (f p)) (-m) =
      -cloud.foldl (fun m p => min m (-f p)) m := by
    induction cloud with
    | nil => exact fun m => rfl
    | cons q cloud ih =>
      intro m
      rw [List.foldl_cons, List.foldl_cons, ← ih]
      have hmax := max_neg_neg m (-f q)
      rw [neg_neg] at hmax
      rw [hmax]
  exact hfold doubleMax

theorem minimum_le {f : PointXYZ → ℚ} {cloud : List PointXYZ} {p : PointXYZ} (hp : p ∈ cloud) :
    minimum f cloud ≤ f p := (fold_min f cloud doubleMax).2 p hp

theorem le_maximum {f : PointXYZ → ℚ} {cloud : List PointXYZ} {p : PointXYZ} (hp : p ∈ cloud) :
    f p ≤ maximum f cloud := by
  rw [maximum_eq, le_neg]
  exact minimum_le (f := fun p => -f p) hp

/-! ## Cells -/

/-- Column `i` and row `j` of a map hold the point. -/
def InCell (msg : OccupancyGrid) (p : PointXYZ) (i j : Nat) : Prop :=
  (msg.origin_x + i * msg.resolution ≤ p.x ∧ p.x < msg.origin_x + (i + 1) * msg.resolution) ∧
    (msg.origin_y + j * msg.resolution ≤ p.y ∧ p.y < msg.origin_y + (j + 1) * msg.resolution)

instance (msg : OccupancyGrid) (p : PointXYZ) (i j : Nat) : Decidable (InCell msg p i j) :=
  inferInstanceAs (Decidable (_ ∧ _))

/-- The loop writes 100 once for every point that has a cell. -/
theorem marks_eq {x_min y_min res : ℚ} {width height : Nat} {cellOf : PointXYZ → Option Nat}
    {cloud : List PointXYZ}
    (hcells : ∀ p ∈ cloud, cell x_min y_min res width height p = some (cellOf p))
    (hin : ∀ p ∈ cloud, ∀ k, cellOf p = some k → k < width * height) : ∀ {data : List Int},
    data.length = width * height →
    cloud.foldlM (mark x_min y_min res width height) data =
      some (writes ((cloud.filterMap cellOf).map fun k => (k, 100)) data) := by
  induction cloud with
  | nil => exact fun _ => rfl
  | cons p cloud ih =>
    intro data hdata
    have hrest := fun {data} => @ih (fun q hq => hcells q (List.mem_cons_of_mem _ hq))
      (fun q hq => hin q (List.mem_cons_of_mem _ hq)) data
    have hlt := hin p List.mem_cons_self
    rw [List.foldlM_cons, mark, hcells p List.mem_cons_self]
    cases hk : cellOf p with
    | none =>
      rw [List.filterMap_cons_none hk]
      exact hrest hdata
    | some k =>
      simp only [Option.bind_some]
      rw [List.filterMap_cons_some hk, if_pos (by rw [hdata]; exact hlt k hk)]
      exact hrest (by rwa [List.length_set])

section
variable {res : ℚ} {cloud : List PointXYZ}

def columns (res : ℚ) (cloud : List PointXYZ) : Nat :=
  (bins (minimum PointXYZ.x cloud) (maximum PointXYZ.x cloud) res).toNat

def rows (res : ℚ) (cloud : List PointXYZ) : Nat :=
  (bins (minimum PointXYZ.y cloud) (maximum PointXYZ.y cloud) res).toNat

/-- Column and row of a point of the cloud. -/
def column (res : ℚ) (cloud : List PointXYZ) (p : PointXYZ) : Nat :=
  (bin (minimum PointXYZ.x cloud) res p.x).toNat

def row (res : ℚ) (cloud : List PointXYZ) (p : PointXYZ) : Nat :=
  (bin (minimum PointXYZ.y cloud) res p.y).toNat

def cellOf (res : ℚ) (cloud : List PointXYZ) (p : PointXYZ) : Option Nat :=
  if column res cloud p < columns res cloud ∧ row res cloud p < rows res cloud then
    some (column res cloud p + row res cloud p * columns res cloud)
  else none

/-- The counters of the program hold the grid of the cloud. -/
structure Fits (res : ℚ) (cloud : List PointXYZ) : Prop where
  pos : 0 < res
  width : columns res cloud < 2 ^ 31
  height : rows res cloud < 2 ^ 31
  area : columns res cloud * rows res cloud < 2 ^ 32

theorem index_lt {i j w h : Nat} (hi : i < w) (hj : j < h) : i + j * w < w * h := by
  calc i + j * w < w + j * w := Nat.add_lt_add_right hi _
    _ = (j + 1) * w := by ring
    _ ≤ h * w := Nat.mul_le_mul_right w hj
    _ = w * h := Nat.mul_comm h w

theorem bin_column (hres : 0 < res) {p : PointXYZ} (hp : p ∈ cloud) :
    bin (minimum PointXYZ.x cloud) res p.x = column res cloud p :=
  (Int.toNat_of_nonneg (bin_nonneg hres (minimum_le hp))).symm

theorem bin_row (hres : 0 < res) {p : PointXYZ} (hp : p ∈ cloud) :
    bin (minimum PointXYZ.y cloud) res p.y = row res cloud p :=
  (Int.toNat_of_nonneg (bin_nonneg hres (minimum_le hp))).symm

theorem bins_columns (hres : 0 < res) {p : PointXYZ} (hp : p ∈ cloud) :
    bins (minimum PointXYZ.x cloud) (maximum PointXYZ.x cloud) res = columns res cloud :=
  (Int.toNat_of_nonneg (bins_nonneg hres ((minimum_le hp).trans (le_maximum hp)))).symm

theorem bins_rows (hres : 0 < res) {p : PointXYZ} (hp : p ∈ cloud) :
    bins (minimum PointXYZ.y cloud) (maximum PointXYZ.y cloud) res = rows res cloud :=
  (Int.toNat_of_nonneg (bins_nonneg hres ((minimum_le hp).trans (le_maximum hp)))).symm

theorem column_le (hres : 0 < res) {p : PointXYZ} (hp : p ∈ cloud) :
    column res cloud p ≤ columns res cloud := by
  have hle := bin_le_bins (a := minimum PointXYZ.x cloud) hres (le_maximum (f := PointXYZ.x) hp)
  rw [bin_column hres hp, bins_columns hres hp] at hle
  exact_mod_cast hle

theorem row_le (hres : 0 < res) {p : PointXYZ} (hp : p ∈ cloud) :
    row res cloud p ≤ rows res cloud := by
  have hle := bin_le_bins (a := minimum PointXYZ.y cloud) hres (le_maximum (f := PointXYZ.y) hp)
  rw [bin_row hres hp, bins_rows hres hp] at hle
  exact_mod_cast hle

theorem toInt32?_natCast {n : Nat} (h : n < 2 ^ 31) : toInt32? n = some (n : ℤ) :=
  if_pos (by omega)

theorem toUInt32?_natCast {n : Nat} (h : n < 2 ^ 32) : toUInt32? n = some n :=
  if_pos (by omega)

theorem Fits.cell_eq (h : Fits res cloud) {p : PointXYZ} (hp : p ∈ cloud) :
    cell (minimum PointXYZ.x cloud) (minimum PointXYZ.y cloud) res (columns res cloud)
      (rows res cloud) p = some (cellOf res cloud p) := by
  have hwidth := h.width
  have hheight := h.height
  have hcolumn := column_le h.pos hp
  have hrow := row_le h.pos hp
  unfold cell cellOf
  rw [bin_column h.pos hp, bin_row h.pos hp, toInt32?_natCast (by omega), Option.bind_some,
    toInt32?_natCast (by omega), Option.bind_some]
  by_cases hin : column res cloud p < columns res cloud ∧ row res cloud p < rows res cloud
  · have hlt := index_lt hin.1 hin.2
    have harea := h.area
    rw [if_pos (by omega), if_pos hin]
    simp only [Int.toNat_natCast]
    rw [Nat.mod_eq_of_lt (by omega)]
  · rw [if_neg (by omega), if_neg hin]

/-- The map of a cloud that fits. -/
def gridOf (res : ℚ) (cloud : List PointXYZ) : OccupancyGrid where
  resolution := res
  width := columns res cloud
  height := rows res cloud
  origin_x := minimum PointXYZ.x cloud
  origin_y := minimum PointXYZ.y cloud
  data := writes ((cloud.filterMap (cellOf res cloud)).map fun k => (k, 100))
    (List.replicate (columns res cloud * rows res cloud) 0)

theorem Fits.map_eq (h : Fits res cloud) (hne : cloud ≠ []) (msg : OccupancyGrid) :
    setMapTopicMsg res cloud msg = some (gridOf res cloud) := by
  obtain ⟨p, hp⟩ := List.exists_mem_of_ne_nil cloud hne
  have hwidth := h.width
  have hheight := h.height
  unfold setMapTopicMsg
  simp only
  rw [if_neg (by simpa using hne), bins_columns h.pos hp, bins_rows h.pos hp,
    toUInt32?_natCast (by omega), Option.bind_some, toUInt32?_natCast (by omega), Option.bind_some,
    Nat.mod_eq_of_lt h.area,
    marks_eq (fun q hq => h.cell_eq hq) ?_ List.length_replicate, Option.map_some]
  · rfl
  intro q hq k hk
  unfold cellOf at hk
  split at hk
  · rename_i hin
    cases hk
    exact index_lt hin.1 hin.2
  · cases hk

theorem inCell_iff (hres : 0 < res) {p : PointXYZ} (hp : p ∈ cloud) (i j : Nat) :
    InCell (gridOf res cloud) p i j ↔ column res cloud p = i ∧ row res cloud p = j := by
  have hcolumn := bin_eq_iff (a := minimum PointXYZ.x cloud) (x := p.x) hres i
  have hrow := bin_eq_iff (a := minimum PointXYZ.y cloud) (x := p.y) hres j
  rw [bin_column hres hp, Nat.cast_inj] at hcolumn
  rw [bin_row hres hp, Nat.cast_inj] at hrow
  rw [hcolumn, hrow]
  rfl

/-- **Lost points.**  A point of the cloud lies in no cell of the map exactly when it lies at the
far end, in one direction or the other, of an extent that is a whole number of cells. -/
theorem lost_iff (res : ℚ) (cloud : List PointXYZ) (msg : OccupancyGrid) (p : PointXYZ)
    (hp : p ∈ cloud) (h : Fits res cloud) :
    ∃ msg', setMapTopicMsg res cloud msg = some msg' ∧
      ((∀ i j, i < msg'.width → j < msg'.height → ¬ InCell msg' p i j) ↔
        (p.x = maximum PointXYZ.x cloud ∧
          ∃ n : ℤ, maximum PointXYZ.x cloud - minimum PointXYZ.x cloud = n * res) ∨
        (p.y = maximum PointXYZ.y cloud ∧
          ∃ n : ℤ, maximum PointXYZ.y cloud - minimum PointXYZ.y cloud = n * res)) := by
  refine ⟨gridOf res cloud, h.map_eq (List.ne_nil_of_mem hp) msg, ?_⟩
  have hx := bin_lt_bins_iff (a := minimum PointXYZ.x cloud) h.pos
    (le_maximum (f := PointXYZ.x) hp)
  have hy := bin_lt_bins_iff (a := minimum PointXYZ.y cloud) h.pos
    (le_maximum (f := PointXYZ.y) hp)
  rw [bin_column h.pos hp, bins_columns h.pos hp, Nat.cast_lt] at hx
  rw [bin_row h.pos hp, bins_rows h.pos hp, Nat.cast_lt] at hy
  constructor
  · intro hlost
    by_contra hends
    obtain ⟨hendx, hendy⟩ := not_or.mp hends
    exact hlost _ _ (hx.mpr hendx) (hy.mpr hendy) ((inCell_iff h.pos hp _ _).mpr ⟨rfl, rfl⟩)
  · intro hends i j hi hj hcell
    obtain ⟨rfl, rfl⟩ := (inCell_iff h.pos hp i j).mp hcell
    rcases hends with hend | hend
    · exact hx.mp hi hend
    · exact hy.mp hj hend

/-- Three points of a corridor one metre long: with cells of half a metre the one at its end is
lost. -/
def corridor : List PointXYZ := [⟨0, 0, 0⟩, ⟨1 / 4, 1 / 4, 0⟩, ⟨1, 0, 0⟩]

theorem fits_corridor : Fits (1 / 2) corridor :=
  ⟨by norm_num, by decide +kernel, by decide +kernel, by decide +kernel⟩

theorem lost_iff_corridor :
    ∃ msg', setMapTopicMsg (1 / 2) corridor {} = some msg' ∧
      ∀ i j, i < msg'.width → j < msg'.height → ¬ InCell msg' ⟨1, 0, 0⟩ i j := by
  obtain ⟨msg', hmsg, hlost⟩ :=
    lost_iff (1 / 2) corridor {} ⟨1, 0, 0⟩ (by simp [corridor]) fits_corridor
  exact ⟨msg', hmsg, hlost.mpr (.inl ⟨by decide +kernel, 2, by decide +kernel⟩)⟩

end

end AgvPro.Pcd2Pgm
