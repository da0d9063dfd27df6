import Mathlib.Data.List.Sort
import Mathlib.Data.Nat.Count
import Telecran.Model.Video

/-! # The video timing is a complete ordered scan

For every choice of generics the two counters walk through all positions of a frame, line by line.
Inside a line the four regions follow each other, so the blanking contains the sync pulse, and the
data enable cuts the active rectangle out of the frame in the order of its addresses.
-/

namespace Telecran.Soundness.VideoTiming

open Machine Model

/-- As many counts fall into an interval as it is long. -/
private theorem count_interval {p : ℕ → Prop} [DecidablePred p] {a b n : ℕ} (inside : a + b ≤ n)
    (exactly : ∀ k < n, p k ↔ a ≤ k ∧ k < a + b) : Nat.count p n = b := by
  have interval : (Finset.range n).filter p = Finset.Ico a (a + b) := by
    ext k
    simp only [Finset.mem_filter, Finset.mem_range, Finset.mem_Ico]
    constructor
    · rintro ⟨bound, here⟩
      exact (exactly k bound).mp here
    · rintro here
      exact ⟨by omega, (exactly k (by omega)).mpr here⟩
  rw [Nat.count_eq_card_filter_range, interval, Nat.card_Ico, Nat.add_sub_cancel_left]

variable {t : Timing}

private theorem totals (width : 1 ≤ t.hRes) (height : 1 ≤ t.vRes) : 0 < t.hTotal ∧ 0 < t.vTotal := by
  unfold Timing.hTotal Timing.vTotal
  omega

/-! ## Positions -/

/-- Clock `c` of line `l`, lines counted from the reset on. -/
theorem after_line (width : 1 ≤ t.hRes) (height : 1 ≤ t.vRes) (l : ℕ) {c : ℕ} (bound : c < t.hTotal) :
    t.after (l * t.hTotal + c) = ⟨c, l % t.vTotal⟩ := by
  obtain ⟨line, frame⟩ := totals width height
  rw [t.after_eq line frame, Nat.mul_add_mod_of_lt bound, Nat.mul_comm, Nat.mul_add_div line,
    Nat.div_eq_of_lt bound, Nat.add_zero]

/-- Clock `k` of frame `f`. -/
theorem after_frame (width : 1 ≤ t.hRes) (height : 1 ≤ t.vRes) (f : ℕ) {k : ℕ}
    (bound : k < t.hTotal * t.vTotal) :
    t.after (f * (t.hTotal * t.vTotal) + k) = ⟨k % t.hTotal, k / t.hTotal⟩ := by
  obtain ⟨line, frame⟩ := totals width height
  have row : k / t.hTotal < t.vTotal := Nat.div_lt_of_lt_mul bound
  have place : f * (t.hTotal * t.vTotal) + k =
      (f * t.vTotal + k / t.hTotal) * t.hTotal + k % t.hTotal := by
    have parts := Nat.div_add_mod k t.hTotal
    rw [Nat.add_mul, Nat.mul_assoc, Nat.mul_comm t.vTotal, Nat.add_assoc, Nat.mul_comm (k / _), parts]
  rw [place, after_line width height _ (Nat.mod_lt _ line), Nat.mul_add_mod_of_lt row]

/-! ## Regions -/

theorem pixelEn_iff (s : Scan) : t.pixelEn s = true ↔ s.hCnt < t.hRes ∧ s.vCnt < t.vRes := by
  simp [Timing.pixelEn, Timing.de]

theorem hs_low_iff (s : Scan) :
    t.hs s = false ↔ t.hRes + t.hFp ≤ s.hCnt ∧ s.hCnt < t.hRes + t.hFp + t.hSync := by
  simp [Timing.hs]

theorem vs_low_iff (s : Scan) :
    t.vs s = false ↔ t.vRes + t.vFp ≤ s.vCnt ∧ s.vCnt < t.vRes + t.vFp + t.vSync := by
  simp [Timing.vs]

/-- The sync pulses are inside the blanking. -/
theorem de_low {s : Scan} (sync : t.hs s = false ∨ t.vs s = false) : t.de s = false := by
  rw [hs_low_iff, vs_low_iff] at sync
  rw [Bool.eq_false_iff, Ne]
  intro active
  have inside := (pixelEn_iff s).mp active
  omega

/-- The counters address a word of the picture also in the blanking, and the word of the pixel
address where pixels are shown. -/
theorem counter_address (width : 1 ≤ t.hRes) (height : 1 ≤ t.vRes) (s : Scan) :
    t.yCounter s * t.hRes + t.xCounter s < t.hRes * t.vRes ∧
      (t.pixelEn s = true → t.pixelAddress s = t.yCounter s * t.hRes + t.xCounter s) := by
  have column : t.xCounter s < t.hRes := by
    unfold Timing.xCounter
    split_ifs <;> omega
  have row : t.yCounter s < t.vRes := by
    unfold Timing.yCounter
    split_ifs <;> omega
  constructor
  · calc t.yCounter s * t.hRes + t.xCounter s < t.yCounter s * t.hRes + t.hRes := by omega
      _ = (t.yCounter s + 1) * t.hRes := (Nat.succ_mul ..).symm
      _ ≤ t.vRes * t.hRes := Nat.mul_le_mul_right _ row
      _ = t.hRes * t.vRes := Nat.mul_comm ..
  · intro active
    obtain ⟨inside, inside'⟩ := (pixelEn_iff s).mp active
    have shown : t.de s = true := active
    rw [Timing.pixelAddress, if_pos shown, Timing.xCounter, Timing.yCounter, if_pos inside,
      if_pos inside']

/-! ## Frames -/

/-- The position of clock `k` of a frame. -/
def position (t : Timing) (k : ℕ) : Scan := ⟨k % t.hTotal, k / t.hTotal⟩

/-- A later active clock has a higher address. -/
private theorem address_mono {j k : ℕ} (before : j < k) (first : t.pixelEn (position t j) = true)
    (second : t.pixelEn (position t k) = true) :
    t.pixelAddress (position t j) < t.pixelAddress (position t k) := by
  have shown : t.de (position t j) = true := first
  have shown' : t.de (position t k) = true := second
  have column := ((pixelEn_iff _).mp first).1
  have parts := Nat.div_add_mod j t.hTotal
  have parts' := Nat.div_add_mod k t.hTotal
  rw [Timing.pixelAddress, Timing.pixelAddress, if_pos shown, if_pos shown']
  dsimp only [position] at column ⊢
  rcases Nat.lt_or_eq_of_le (Nat.div_le_div_right (c := t.hTotal) before.le) with above | same
  · calc j / t.hTotal * t.hRes + j % t.hTotal < j / t.hTotal * t.hRes + t.hRes := by omega
      _ = (j / t.hTotal + 1) * t.hRes := (Nat.succ_mul ..).symm
      _ ≤ k / t.hTotal * t.hRes := Nat.mul_le_mul_right _ above
      _ ≤ _ := Nat.le_add_right ..
  · rw [same] at parts ⊢
    omega

/-- Every address belongs to an active clock. -/
private theorem address_reached (width : 1 ≤ t.hRes) {a : ℕ} (bound : a < t.hRes * t.vRes) :
    ∃ k < t.hTotal * t.vTotal, t.pixelEn (position t k) = true ∧
      t.pixelAddress (position t k) = a := by
  have column : a % t.hRes < t.hRes := Nat.mod_lt _ width
  have row : a / t.hRes < t.vRes := Nat.div_lt_of_lt_mul bound
  have line : t.hRes ≤ t.hTotal := by
    unfold Timing.hTotal
    omega
  have frame : t.vRes ≤ t.vTotal := by
    unfold Timing.vTotal
    omega
  have place : position t (a / t.hRes * t.hTotal + a % t.hRes) = ⟨a % t.hRes, a / t.hRes⟩ := by
    rw [position, Nat.mul_add_mod_of_lt (column.trans_le line), Nat.mul_comm,
      Nat.mul_add_div (by omega), Nat.div_eq_of_lt (column.trans_le line), Nat.add_zero]
  have shown : t.pixelEn ⟨a % t.hRes, a / t.hRes⟩ = true := (pixelEn_iff _).mpr ⟨column, row⟩
  refine ⟨a / t.hRes * t.hTotal + a % t.hRes, ?_, by rw [place, shown], ?_⟩
  · calc a / t.hRes * t.hTotal + a % t.hRes < a / t.hRes * t.hTotal + t.hTotal := by omega
      _ = (a / t.hRes + 1) * t.hTotal := (Nat.succ_mul ..).symm
      _ ≤ t.vTotal * t.hTotal := Nat.mul_le_mul_right _ (by omega)
      _ = t.hTotal * t.vTotal := Nat.mul_comm ..
  · rw [place, Timing.pixelAddress, if_pos (show t.de _ = true from shown), Nat.div_add_mod']

/-- The addresses of the active clocks of a frame, in the order of the clocks. -/
theorem frame_addresses (width : 1 ≤ t.hRes) (height : 1 ≤ t.vRes) (f : ℕ) :
    (((List.range (t.hTotal * t.vTotal)).map fun k =>
      t.after (f * (t.hTotal * t.vTotal) + k)).filter t.pixelEn).map t.pixelAddress =
      List.range (t.hRes * t.vRes) := by
  have positions : ((List.range (t.hTotal * t.vTotal)).map fun k =>
      t.after (f * (t.hTotal * t.vTotal) + k)) =
      (List.range (t.hTotal * t.vTotal)).map (position t) :=
    List.map_congr_left fun k member => after_frame width height f (List.mem_range.mp member)
  have sorted : ((((List.range (t.hTotal * t.vTotal)).map (position t)).filter t.pixelEn).map
      t.pixelAddress).Pairwise (· < ·) := by
    rw [List.pairwise_map, List.pairwise_filter, List.pairwise_map]
    exact List.pairwise_lt_range.imp fun before first second => address_mono before first second
  rw [positions]
  apply List.Perm.eq_of_pairwise' sorted List.pairwise_lt_range
  rw [List.perm_ext_iff_of_nodup (sorted.imp ne_of_lt) List.nodup_range]
  intro a
  simp only [List.mem_map, List.mem_filter, List.mem_range]
  constructor
  · rintro ⟨s, ⟨-, active⟩, rfl⟩
    obtain ⟨inside, same⟩ := counter_address width height s
    rwa [same active]
  · intro bound
    obtain ⟨k, clock, active, own⟩ := address_reached width bound
    exact ⟨position t k, ⟨⟨k, clock, rfl⟩, active⟩, own⟩

/-! ## The complete scan -/

/-- For all generics with a non-empty picture: the counters divide the clock, every frame shows the
addresses of the picture once and in order, both counters stay inside it, each line has `h_sync`
clocks of horizontal and each frame `v_sync` whole lines of vertical sync, and none of them is
active. -/
theorem video_scan (t : Timing) (width : 1 ≤ t.hRes) (height : 1 ≤ t.vRes) :
    (∀ n, t.after n = ⟨n % t.hTotal, n / t.hTotal % t.vTotal⟩) ∧
    (∀ f, (((List.range (t.hTotal * t.vTotal)).map fun k =>
      t.after (f * (t.hTotal * t.vTotal) + k)).filter t.pixelEn).map t.pixelAddress =
        List.range (t.hRes * t.vRes)) ∧
    (∀ n, t.yCounter (t.after n) * t.hRes + t.xCounter (t.after n) < t.hRes * t.vRes ∧
      (t.pixelEn (t.after n) = true →
        t.pixelAddress (t.after n) = t.yCounter (t.after n) * t.hRes + t.xCounter (t.after n))) ∧
    (∀ l, Nat.count (fun c => t.hs (t.after (l * t.hTotal + c)) = false) t.hTotal = t.hSync) ∧
    (∀ l c, c < t.hTotal → t.vs (t.after (l * t.hTotal + c)) = t.vs (t.after (l * t.hTotal))) ∧
    (∀ f, Nat.count (fun l => t.vs (t.after ((f * t.vTotal + l) * t.hTotal)) = false) t.vTotal =
      t.vSync) ∧
    ∀ n, t.hs (t.after n) = false ∨ t.vs (t.after n) = false → t.de (t.after n) = false := by
  obtain ⟨line, frame⟩ := totals width height
  have start (l : ℕ) : t.after (l * t.hTotal) = ⟨0, l % t.vTotal⟩ := after_line width height l line
  refine ⟨t.after_eq line frame, frame_addresses width height,
    fun n => counter_address width height _, ?_, ?_, ?_, fun n => de_low⟩
  · intro l
    refine count_interval (a := t.hRes + t.hFp) ?_ fun c bound => ?_
    · unfold Timing.hTotal
      omega
    · rw [after_line width height l bound, hs_low_iff]
  · intro l c bound
    rw [after_line width height l bound, start]
    rfl
  · intro f
    refine count_interval (a := t.vRes + t.vFp) ?_ fun l bound => ?_
    · unfold Timing.vTotal
      omega
    · rw [start, vs_low_iff, Nat.mul_add_mod_of_lt bound]

/-- The first frame of the telecran. -/
theorem video_scan_telecran :
    (((List.range (telecranTiming.hTotal * telecranTiming.vTotal)).map fun k =>
      telecranTiming.after (0 * (telecranTiming.hTotal * telecranTiming.vTotal) + k)).filter
        telecranTiming.pixelEn).map telecranTiming.pixelAddress =
      List.range (telecranTiming.hRes * telecranTiming.vRes) :=
  (video_scan telecranTiming (by decide) (by decide)).2.1 0

end Telecran.Soundness.VideoTiming
