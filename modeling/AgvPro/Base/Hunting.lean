import AgvPro.Base.Telemetry

/-!
# Hunting for the telemetry header

`readData` looks for `FE FE 1C` by units of one to three bytes and never goes back, so a run
of `FE` before the header can take the header's own bytes with it; `read_serial_response`
looks through a window and cannot.  What counts is how many `FE` stand directly before the
frame: every three of them make a header of the wrong length, one or two left over do not
come out even.

    the frame at the header's first occurrence is accepted
      ↔ the bytes before it end in a multiple of three `FE`        (found_iff)
-/

namespace AgvPro

open Window

/-- The header and the length byte of a telemetry frame. -/
def telemetryHeader : List UInt8 := [0xFE, 0xFE, 0x1C]

/-- How many `FE` the bytes end in. -/
def trailingFe (g : List UInt8) : Nat := (g.reverse.takeWhile (· == 0xFE)).length

/-- Repeated calls on `g` and the frame behind it return true at the end of the frame, with
its values. -/
def Found (g : List UInt8) (t : TelemetryFrame) : Prop :=
  ∀ (fuel : Nat) (s : SensorState) (p : Port), p.isOpen = true → p.rx = onWire (g ++ t.bytes) →
    p.rx.length < fuel → (0, decode t.bytes) ∈ readAll fuel s p

/-! ## Runs of `FE` -/

theorem trailingFe_le (g : List UInt8) : trailingFe g ≤ g.length := by
  have h : g.reverse.takeWhile (· == 0xFE) <+: g.reverse := List.takeWhile_prefix _
  have hle := h.length_le
  rwa [List.length_reverse] at hle

theorem trailingFe_cons (b : UInt8) (g : List UInt8) :
    trailingFe (b :: g) =
      if trailingFe g = g.length then g.length + (if b = 0xFE then 1 else 0) else trailingFe g := by
  unfold trailingFe
  rw [List.reverse_cons, List.takeWhile_append, List.length_reverse]
  split_ifs with h hb
  · rw [List.length_append, List.length_reverse]
    simp [hb]
  · rw [List.length_append, List.length_reverse]
    simp [hb]
  · rfl

theorem trailingFe_other (b : UInt8) (g : List UInt8) (hb : b ≠ 0xFE) :
    trailingFe (b :: g) = trailingFe g := by
  rw [trailingFe_cons, if_neg hb]
  split_ifs with h
  · rw [h, Nat.add_zero]
  · rfl

theorem trailingFe_lone (b : UInt8) (g : List UInt8) (hb : b ≠ 0xFE) :
    trailingFe (0xFE :: b :: g) = trailingFe g := by
  have hle := trailingFe_le g
  rw [trailingFe_cons, trailingFe_other b g hb, if_neg (by rw [List.length_cons]; omega)]

/-- Three bytes taken for a header of the wrong length keep the count, but for threes. -/
theorem trailingFe_three (b : UInt8) (g : List UInt8) :
    trailingFe (0xFE :: 0xFE :: b :: g) % 3 = trailingFe g % 3 := by
  have hle := trailingFe_le g
  by_cases hb : b = 0xFE
  · subst hb
    by_cases h : trailingFe g = g.length
    · have h1 : trailingFe (0xFE :: g) = g.length + 1 := by simp [trailingFe_cons, h]
      have h2 : trailingFe (0xFE :: 0xFE :: g) = g.length + 2 := by
        rw [trailingFe_cons, h1]
        simp
      have h3 : trailingFe (0xFE :: 0xFE :: 0xFE :: g) = g.length + 3 := by
        rw [trailingFe_cons, h2]
        simp
      omega
    · have h1 : trailingFe (0xFE :: g) = trailingFe g := by simp [trailingFe_cons, h]
      have h2 : trailingFe (0xFE :: 0xFE :: g) = trailingFe g := by
        rw [trailingFe_cons, h1, if_neg (by rw [List.length_cons]; omega)]
      rw [trailingFe_cons, h2, if_neg (by simp only [List.length_cons]; omega)]
  · have h1 := trailingFe_lone b g hb
    rw [trailingFe_cons, h1, if_neg (by simp only [List.length_cons]; omega)]

/-! ## The bytes before the first header -/

theorem firstEnd_tail (b : UInt8) (g : List UInt8)
    (h : FirstEnd telemetryHeader (b :: g ++ telemetryHeader)) :
    FirstEnd telemetryHeader (g ++ telemetryHeader) := by
  refine ⟨List.suffix_append _ _, fun q hq hend => ?_⟩
  have hcons := h.first (b :: q) (List.cons_prefix_cons.mpr ⟨rfl, hq⟩)
    (hend.trans (List.suffix_cons b q))
  exact (List.cons.inj hcons).2

theorem ne_length_of_firstEnd (b : UInt8) (g : List UInt8)
    (h : FirstEnd telemetryHeader (0xFE :: 0xFE :: b :: g ++ telemetryHeader)) : b ≠ 0x1C := by
  rintro rfl
  have heq := h.first telemetryHeader ⟨g ++ telemetryHeader, rfl⟩ List.suffix_rfl
  have := congrArg List.length heq
  simp [telemetryHeader] at this

/-- The calls pass over everything but the odd `FE` at the end. -/
theorem cut_before_header (g : List UInt8)
    (h : FirstEnd telemetryHeader (g ++ telemetryHeader)) :
    ∃ pre, Skipped pre ∧ g = pre ++ List.replicate (trailingFe g % 3) 0xFE := by
  induction hk : g.length using Nat.strong_induction_on generalizing g with
  | _ k ih =>
    subst hk
    match g with
    | [] => exact ⟨[], .nil, rfl⟩
    | b :: g =>
      by_cases hb : b = 0xFE
      · subst hb
        match g with
        | [] => exact ⟨[], .nil, rfl⟩
        | b :: g =>
          have h1 := firstEnd_tail 0xFE (b :: g) h
          by_cases hb : b = 0xFE
          · subst hb
            match g with
            | [] => exact ⟨[], .nil, rfl⟩
            | b :: g =>
              have h3 := firstEnd_tail b g (firstEnd_tail 0xFE (b :: g) h1)
              obtain ⟨pre, hpre, hg⟩ :=
                ih g.length (by simp only [List.length_cons]; omega) g h3 rfl
              refine ⟨0xFE :: 0xFE :: b :: pre,
                .wrongLength b pre (ne_length_of_firstEnd b g h) hpre, ?_⟩
              rw [trailingFe_three]
              simp only [List.cons_append]
              rw [← hg]
          · obtain ⟨pre, hpre, hg⟩ :=
              ih g.length (by simp only [List.length_cons]; omega) g (firstEnd_tail b g h1) rfl
            refine ⟨0xFE :: b :: pre, .lone b pre hb hpre, ?_⟩
            rw [trailingFe_lone b g hb]
            simp only [List.cons_append]
            rw [← hg]
      · obtain ⟨pre, hpre, hg⟩ :=
          ih g.length (by simp only [List.length_cons]; omega) g (firstEnd_tail b g h) rfl
        refine ⟨b :: pre, .other b pre hb hpre, ?_⟩
        rw [trailingFe_other b g hb, List.cons_append, ← hg]

/-! ## Found or lost -/

theorem found_of_frames (g : List UInt8) (t : TelemetryFrame) :
    Found g t ↔ (0, decode t.bytes) ∈ (frames (g ++ t.bytes)).map fun f => (f.1, decode f.2) := by
  constructor
  · intro h
    have hmem := h ((g ++ t.bytes).length + 1) {} (.ready (onWire (g ++ t.bytes))) rfl rfl
      (by simp)
    rw [readAll_eq _ _ _ rfl] at hmem
    exact hmem
  · intro h fuel s p hopen hrx hfuel
    rw [readAll_eq fuel s p hopen, hrx, frames_of_fuel fuel _ (by simpa [hrx] using hfuel)]
    exact h

/-- One or two odd `FE` take the first bytes of the frame with them. -/
theorem frames_odd (k : Nat) (hk : k = 1 ∨ k = 2) (t : TelemetryFrame) (n : Nat)
    (buf : List UInt8) : (n, buf) ∉ frames (List.replicate k 0xFE ++ t.bytes) := by
  intro h
  rw [t.bytes_eq] at h
  rcases hk with rfl | rfl
  · have hcut := frames_wrongLength 0xFE (0x1C :: t.data) (by decide)
    rw [show List.replicate 1 0xFE ++ 0xFE :: 0xFE :: 0x1C :: t.data =
      0xFE :: 0xFE :: 0xFE :: 0x1C :: t.data from rfl, hcut] at h
    have := frames_bound _ n buf h
    simp only [List.length_cons, t.length_data] at this
    omega
  · have hcut := frames_wrongLength 0xFE (0xFE :: 0x1C :: t.data) (by decide)
    rw [show List.replicate 2 0xFE ++ 0xFE :: 0xFE :: 0x1C :: t.data =
      0xFE :: 0xFE :: 0xFE :: 0xFE :: 0x1C :: t.data from rfl, hcut] at h
    have := frames_bound _ n buf h
    simp only [List.length_cons, t.length_data] at this
    omega

/-- **Hunting.**  The frame at the first occurrence of the header is accepted exactly when
the bytes before it end in a multiple of three `FE`. -/
theorem found_iff (g : List UInt8) (t : TelemetryFrame)
    (h : FirstEnd telemetryHeader (g ++ telemetryHeader)) : Found g t ↔ 3 ∣ trailingFe g := by
  obtain ⟨pre, hpre, hg⟩ := cut_before_header g h
  have hframes : frames (g ++ t.bytes) =
      frames (List.replicate (trailingFe g % 3) 0xFE ++ t.bytes) := by
    conv => lhs; rw [hg]
    rw [List.append_assoc, frames_skipped pre _ hpre]
  rw [found_of_frames, hframes]
  constructor
  · intro hmem
    by_contra hodd
    obtain ⟨f, hf, -⟩ := List.mem_map.mp hmem
    exact frames_odd (trailingFe g % 3) (by omega) t f.1 f.2 hf
  · intro hdvd
    have hzero : trailingFe g % 3 = 0 := Nat.mod_eq_zero_of_dvd hdvd
    have hlone := frames_telemetry t []
    rw [List.append_nil] at hlone
    rw [hzero, List.replicate_zero, List.nil_append, hlone]
    exact List.mem_map.mpr ⟨(0, t.bytes), List.mem_cons_self, rfl⟩

/-- Three `FE` behind another byte. -/
theorem found_iff_three :
    Found [0x00, 0xFE, 0xFE, 0xFE] idleTelemetry ↔ 3 ∣ trailingFe [0x00, 0xFE, 0xFE, 0xFE] :=
  found_iff [0x00, 0xFE, 0xFE, 0xFE] idleTelemetry (firstEnd_append (by decide) (by decide))

/-- One `FE` before the frame: `FE FE | FE` is a header of the wrong length. -/
theorem not_found_one :
    ¬ ∀ (g : List UInt8) (t : TelemetryFrame), FirstEnd telemetryHeader (g ++ telemetryHeader) →
      Found g t := by
  intro h
  have hfound := h [0xFE] idleTelemetry (firstEnd_append (by decide) (by decide))
  rw [found_of_frames] at hfound
  obtain ⟨f, hf, -⟩ := List.mem_map.mp hfound
  exact frames_odd 1 (Or.inl rfl) idleTelemetry f.1 f.2 hf

end AgvPro
