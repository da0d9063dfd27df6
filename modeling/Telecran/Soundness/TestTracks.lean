import Telecran.Model.TestDesign
import Telecran.Signal.Decay
import Telecran.Soundness.AdxlSamples
import Telecran.Soundness.LowPass

/-! # The test design shows the device

With a register file at the accelerometer's address on the bus, the filtered values of
`telecran_adxl_test` follow the data registers of the device: as long as these are small enough for
the difference never to overflow, and once they are steady, 67 updates settle the filter.
-/

namespace Telecran.Soundness.TestTracks

open Machine Model Bus Signal Adxl Adxl.Fsm AdxlSamples LowPass

/-- A word of at most 15 bits: no difference of two of them overflows. -/
def Small (v : BitVec 16) : Prop := -16384 ≤ v.toInt ∧ v.toInt ≤ 16383

instance (v : BitVec 16) : Decidable (Small v) := inferInstanceAs (Decidable (_ ∧ _))

/-! ## One axis, update by update -/

theorem smooth_small {f s : BitVec 16} (old : Small f) (new : Small s) : Small (smooth f s) ∧
    (smooth f s).toInt = f.toInt + (s.toInt - f.toInt) / 8 := by
  have step := smooth_exact (f := f) (s := s) (by simp only [Small] at *; omega)
  refine ⟨?_, step⟩
  simp only [Small, step] at *
  omega

section Axis

variable {y s : ℕ → BitVec 16} {ready : ℕ → Bool}

private theorem axis_small (start : y 0 = 0)
    (law : ∀ k, y (k + 1) = if ready k then smooth (y k) (s k) else y k) (small : ∀ k, Small (s k))
    (k : ℕ) : Small (y k) := by
  induction k with
  | zero =>
    rw [start]
    decide
  | succ k ih =>
    rw [law]
    split_ifs
    · exact (smooth_small ih (small k)).1
    · exact ih

/-- The extremes of the distance have settled after 67 updates. -/
private theorem extremes_settle : 0 ≤ (decay 8)^[67] (-32767) ∧ (decay 8)^[67] 32767 < 8 := by
  decide +kernel

private theorem axis_settles (start : y 0 = 0)
    (law : ∀ k, y (k + 1) = if ready k then smooth (y k) (s k) else y k) (small : ∀ k, Small (s k))
    {v : BitVec 16} {first k : ℕ} (steady : ∀ j ≥ first, ready j = true ∧ s j = v) (late : first + 67 ≤ k) :
    v.toInt - 7 ≤ (y k).toInt ∧ (y k).toInt ≤ v.toInt := by
  have inside := axis_small start law small
  have own : Small v := (steady first le_rfl).2 ▸ small first
  have next (j : ℕ) : (y (first + (j + 1))).toInt =
      (y (first + j)).toInt + (v.toInt - (y (first + j)).toInt) / 8 := by
    obtain ⟨on, same⟩ := steady (first + j) (Nat.le_add_right ..)
    rw [← Nat.add_assoc, law, if_pos on, same]
    exact (smooth_small (inside _) own).2
  obtain ⟨m, rfl⟩ := Nat.exists_eq_add_of_le (by omega : first ≤ k)
  have distance := distance_decays (x := fun j => (y (first + j)).toInt) next m
  have began := inside (first + 0)
  have rest := decay_settles (by decide) (e := v.toInt - (y (first + 0)).toInt)
    (by simp only [Small] at *; omega) (by simp only [Small] at *; omega) extremes_settle.1 extremes_settle.2
    (by omega : 67 ≤ m)
  rw [← distance] at rest
  omega

end Axis

/-! ## Clock by clock -/

section Clocks

variable {d : Device}

private theorem after_adxl (n : ℕ) : (TestDesign.after (drive defaults d) n).adxl = (bus defaults d n).1 :=
  eq_bus (x := fun n => (TestDesign.after (drive defaults d) n).adxl) defaults d rfl (fun _ => rfl) n

private theorem after_acc (slave : ℕ → Bool) (n : ℕ) :
    (TestDesign.after slave n).acc.tick = tickAccAt n := by
  have acc : (TestDesign.after slave n).acc = Divider.after accUpdateDiv n := by
    induction n with
    | zero => rfl
    | succ n ih => rw [Divider.after_succ, ← ih]; rfl
  rw [acc, tickAccAt]

/-- An update of one axis, when the accelerometer is ready. -/
private def update (f : BitVec 16) (i : Bool × BitVec 16) : BitVec 16 := if i.1 then smooth f i.2 else f

/-- A filtered value holds what the updates of the ticks so far have made of it. -/
private theorem axis_updates {x s : ℕ → BitVec 16} {ready : ℕ → Bool}
    (law : ∀ n, x (n + 1) = if tickAccAt n && ready n then smooth (x n) (s n) else x n) (n : ℕ) :
    ∃ y : ℕ → BitVec 16, y 0 = x 0 ∧ x n = y ((n - 1) / accUpdateDiv) ∧ ∀ k, y (k + 1) =
      if ready (accUpdateDiv * (k + 1)) then smooth (y k) (s (accUpdateDiv * (k + 1))) else y k := by
  have positive : 0 < accUpdateDiv := by decide
  have gate : ∀ n, x (n + 1) = if tickAccAt n then update (x n) (ready n, s n) else x n := by
    intro n
    rw [law]
    cases tickAccAt n with
    | false => rfl
    | true => rfl
  have gated := gated_eq_run gate n
  simp only [tickAccAt, Divider.nth_tick positive] at gated
  refine ⟨run update (x 0) fun k => (ready (accUpdateDiv * (k + 1)), s (accUpdateDiv * (k + 1))), rfl,
    gated.trans ?_, fun _ => rfl⟩
  rw [← Divider.count_tick positive]
  rfl

/-- A device that lies still at `(vx, vy)` from read `still` on. -/
structure Still (d : Device) (still : ℕ) (vx vy : BitVec 16) : Prop where
  small : ∀ k, Small (outputsOf (d.regs k)).1 ∧ Small (outputsOf (d.regs k)).2
  steady : ∀ j ≥ still, outputsOf (d.regs (2 * j + 6)) = (vx, vy)

/-- The axis of a steady device has settled. -/
private theorem axis_follows {x s : ℕ → BitVec 16} {ready : ℕ → Bool} (start : x 0 = 0)
    (law : ∀ n, x (n + 1) = if tickAccAt n && ready n then smooth (x n) (s n) else x n)
    (small : ∀ n, Small (s n)) {v : BitVec 16} {c n : ℕ} (steady : ∀ m > c, ready m = true ∧ s m = v)
    (late : c + 67 * accUpdateDiv < n) : v.toInt - 7 ≤ (x n).toInt ∧ (x n).toInt ≤ v.toInt := by
  obtain ⟨y, first, now, next⟩ := axis_updates law n
  rw [now]
  refine @axis_settles y _ _ (first.trans start) next (fun _ => small _) v (c / accUpdateDiv) _
    (fun j later => ?_) ?_
  · refine steady _ ?_
    simp only [accUpdateDiv] at *
    omega
  · simp only [accUpdateDiv] at *
    omega

/-- The outputs of the accelerometer of a still device. -/
private theorem still_outputs {still : ℕ} {vx vy : BitVec 16} (own : Addressed d)
    (lies : Still d still vx vy) {n : ℕ} (late : 125 * (60261 + 20000 * still) < n) :
    (bus defaults d n).1.fsm.oAx = vx ∧ (bus defaults d n).1.fsm.oAy = vy := by
  have read := outputs_at own (n := n) (by omega)
  rw [lies.steady _ (by omega)] at read
  exact read

private theorem small_outputs {still : ℕ} {vx vy : BitVec 16} (own : Addressed d)
    (lies : Still d still vx vy) (n : ℕ) :
    Small (bus defaults d n).1.fsm.oAx ∧ Small (bus defaults d n).1.fsm.oAy := by
  rcases Nat.lt_or_ge (125 * 60261) n with later | early
  · rw [(outputs_at own later).1, (outputs_at own later).2]
    exact lies.small _
  · have zero := memo_early own early
    have ax : (bus defaults d n).1.fsm.oAx = 0 := congrArg (·.1) zero
    have ay : (bus defaults d n).1.fsm.oAy = 0 := congrArg (·.2.1) zero
    rw [ax, ay]
    decide

private theorem filter_law (n : ℕ) : (TestDesign.after (drive defaults d) (n + 1)).filter =
    (TestDesign.after (drive defaults d) n).filter.clock ⟨tickAccAt n, (bus defaults d n).1.fsm.oAx,
      (bus defaults d n).1.fsm.oAy, (bus defaults d n).1.fsm.readyI⟩ := by
  rw [← after_adxl, ← after_acc (drive defaults d)]
  rfl

/-- With a register file at its address on the bus whose data registers are words of at most 15 bits and
steady from read `still` on, the filtered values are at most 7 below these registers, and never above,
from 67 updates after that read on. -/
theorem filter_follows_device (d : Device) (own : d.a7 = addr7) {still : ℕ} {vx vy : BitVec 16}
    (lies : Still d still vx vy) {n : ℕ} (late : 125 * (60261 + 20000 * still) + 67 * accUpdateDiv < n) :
    (vx.toInt - 7 ≤ (TestDesign.after (drive defaults d) n).filter.axF.toInt ∧
      (TestDesign.after (drive defaults d) n).filter.axF.toInt ≤ vx.toInt) ∧
    vy.toInt - 7 ≤ (TestDesign.after (drive defaults d) n).filter.ayF.toInt ∧
      (TestDesign.after (drive defaults d) n).filter.ayF.toInt ≤ vy.toInt := by
  have small := small_outputs own lies
  have ready (m : ℕ) (later : m > 125 * (60261 + 20000 * still)) :
      (bus defaults d m).1.fsm.readyI = true := by
    rw [ready_iff own, decide_eq_true (by omega)]
  have outputs (m : ℕ) (later : m > 125 * (60261 + 20000 * still)) := still_outputs own lies (n := m) later
  constructor
  · refine axis_follows (x := fun n => (TestDesign.after (drive defaults d) n).filter.axF) rfl (fun m => ?_)
      (fun m => (small m).1) (fun m later => ⟨ready m later, (outputs m later).1⟩) late
    rw [filter_law, LowPass.clock, LowPassIn.updates]
    split_ifs <;> rfl
  · refine axis_follows (x := fun n => (TestDesign.after (drive defaults d) n).filter.ayF) rfl (fun m => ?_)
      (fun m => (small m).2) (fun m later => ⟨ready m later, (outputs m later).2⟩) late
    rw [filter_law, LowPass.clock, LowPassIn.updates]
    split_ifs <;> rfl

private theorem tilted_still : Still tilted 0 257 257 where
  small k := by
    rw [tilted_outputs]
    decide
  steady j _ := tilted_outputs _

theorem filter_follows_device_tilted :
    250 ≤ (TestDesign.after (drive defaults tilted) 1000000000).filter.axF.toInt :=
  (filter_follows_device tilted rfl tilted_still (by norm_num [accUpdateDiv])).1.1

end Clocks

end Telecran.Soundness.TestTracks
