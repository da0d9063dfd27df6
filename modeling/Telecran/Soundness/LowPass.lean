import Telecran.Machine.Run
import Telecran.Model.AdxlTest
import Telecran.Signal.Envelope

/-! # The low-pass filter overshoots when its difference overflows

An update moves a filtered value towards the sample as long as their difference fits into sixteen
bits. A larger difference changes its sign and drives the value away from the sample, except in the
few cases where the wrapped step is zero or lands on the sample.
-/

namespace Telecran.Soundness.LowPass

open Machine Model Signal

/-- The differences of a sample and a filtered value from which an update does not overshoot: those
of sixteen bits, and those that wrap around to -1 or to at most 7. -/
def Fits (f s : BitVec 16) : Prop :=
  -32768 ≤ s.toInt - f.toInt ∧ s.toInt - f.toInt ≤ 32767 ∨ s.toInt - f.toInt = 65535 ∨
    -65535 ≤ s.toInt - f.toInt ∧ s.toInt - f.toInt ≤ -65529

instance (f s : BitVec 16) : Decidable (Fits f s) := inferInstanceAs (Decidable (_ ∨ _))

private theorem word_range (v : BitVec 16) : -32768 ≤ v.toInt ∧ v.toInt ≤ 32767 := by
  have low := BitVec.le_toInt v
  have high := BitVec.toInt_lt (x := v)
  omega

/-- An update of one axis over the integers. -/
private theorem smooth_toInt (f s : BitVec 16) :
    (smooth f s).toInt = (f.toInt + (s.toInt - f.toInt).bmod 65536 / 8).bmod 65536 := by
  simp only [smooth, BitVec.toInt_add, BitVec.toInt_sshiftRight, BitVec.toInt_sub,
    Int.shiftRight_eq_div_pow]
  norm_num

/-- Without an overflow of the difference, none of the sum is possible either. -/
theorem smooth_exact {f s : BitVec 16}
    (fits : -32768 ≤ s.toInt - f.toInt ∧ s.toInt - f.toInt ≤ 32767) :
    (smooth f s).toInt = f.toInt + (s.toInt - f.toInt) / 8 := by
  have old := word_range f
  have new := word_range s
  rw [smooth_toInt, Int.bmod_eq_of_le (n := s.toInt - f.toInt) (by omega) (by omega),
    Int.bmod_eq_of_le (by omega) (by omega)]

private theorem bmod_above {v : ℤ} (above : 32768 ≤ v ∧ v < 98304) : v.bmod 65536 = v - 65536 := by
  rw [Int.bmod]
  split_ifs <;> omega

private theorem bmod_below {v : ℤ} (below : -98304 ≤ v ∧ v < -32768) : v.bmod 65536 = v + 65536 := by
  rw [Int.bmod]
  split_ifs <;> omega

/-- An update stays between the old value and the sample if and only if the difference fits. -/
theorem smooth_between_iff (f s : BitVec 16) :
    (smooth f s).toInt ∈ Set.uIcc f.toInt s.toInt ↔ Fits f s := by
  have old := word_range f
  have new := word_range s
  by_cases exact : -32768 ≤ s.toInt - f.toInt ∧ s.toInt - f.toInt ≤ 32767
  · rw [smooth_exact exact]
    exact ⟨fun _ => Or.inl exact, fun _ => smooth_mem_uIcc (by decide) _ _⟩
  · rw [smooth_toInt, Set.mem_uIcc, Fits]
    rcases lt_or_ge 32767 (s.toInt - f.toInt) with high | low
    · have step : (s.toInt - f.toInt).bmod 65536 = s.toInt - f.toInt - 65536 :=
        bmod_above (by omega)
      rw [step]
      -- the step is negative, and from the lowest values it wraps around once more
      by_cases wraps : f.toInt + (s.toInt - f.toInt - 65536) / 8 < -32768
      · rw [bmod_below (by omega)]
        omega
      · rw [Int.bmod_eq_of_le (by omega) (by omega)]
        omega
    · have step : (s.toInt - f.toInt).bmod 65536 = s.toInt - f.toInt + 65536 :=
        bmod_below (by omega)
      rw [step]
      by_cases wraps : 32767 < f.toInt + (s.toInt - f.toInt + 65536) / 8
      · rw [bmod_above (by omega)]
        omega
      · rw [Int.bmod_eq_of_le (by omega) (by omega)]
        omega

/-! ## Runs -/

/-- The filter `n` clocks after a hardware reset. -/
def after (input : ℕ → LowPassIn) (n : ℕ) : Model.LowPass := run LowPass.clock LowPass.reset input n

/-- On the first `n` clocks `x`, fed with `sample`, moves between its old value and the sample and
stays in the envelope of zero and the samples taken. -/
structure Follows (enable : ℕ → Bool) (sample x : ℕ → ℤ) (n : ℕ) : Prop where
  update : ∀ k < n, enable k = true → x (k + 1) ∈ Set.uIcc (x k) (sample k)
  envelope : ∀ k ≤ n, lowest 0 enable sample k ≤ x k ∧ x k ≤ highest 0 enable sample k

/-- Neither axis overshoots on the first `n` clocks. -/
def NeverOvershoots (input : ℕ → LowPassIn) (n : ℕ) : Prop :=
  Follows (fun k => (input k).updates) (fun k => (input k).sAx.toInt)
    (fun k => (after input k).axF.toInt) n ∧
  Follows (fun k => (input k).updates) (fun k => (input k).sAy.toInt)
    (fun k => (after input k).ayF.toInt) n

private theorem follows_iff {enable : ℕ → Bool} {sample x : ℕ → BitVec 16} (start : x 0 = 0)
    (law : ∀ k, x (k + 1) = if enable k then smooth (x k) (sample k) else x k) (n : ℕ) :
    Follows enable (fun k => (sample k).toInt) (fun k => (x k).toInt) n ↔
      ∀ k < n, enable k = true → Fits (x k) (sample k) := by
  have moved : ∀ k, enable k = true → x (k + 1) = smooth (x k) (sample k) := by
    intro k enabled
    rw [law, if_pos enabled]
  constructor
  · intro follows k bound enabled
    have between := follows.update k bound enabled
    simp only [moved k enabled] at between
    exact (smooth_between_iff _ _).mp between
  · intro fits
    have between : ∀ k < n, enable k = true →
        (x (k + 1)).toInt ∈ Set.uIcc (x k).toInt (sample k).toInt := by
      intro k bound enabled
      rw [moved k enabled]
      exact (smooth_between_iff _ _).mpr (fits k bound enabled)
    refine ⟨between, ?_⟩
    intro k bound
    have inside := mem_envelope (x := fun k => (x k).toInt) (n := k)
      (fun j earlier => between j (by omega))
      (fun j _ disabled => by simp only [law, disabled, Bool.false_eq_true, if_false])
    simp only [start] at inside
    exact inside

/-- A run overshoots on neither axis if and only if every difference it updates from fits. -/
theorem never_overshoots_iff (input : ℕ → LowPassIn) (n : ℕ) :
    NeverOvershoots input n ↔ ∀ k < n, (input k).updates = true →
      Fits (after input k).axF (input k).sAx ∧ Fits (after input k).ayF (input k).sAy := by
  have lawX : ∀ k, (after input (k + 1)).axF =
      if (input k).updates then smooth (after input k).axF (input k).sAx else (after input k).axF := by
    intro k
    rw [after, run_succ, LowPass.clock]
    split_ifs <;> rfl
  have lawY : ∀ k, (after input (k + 1)).ayF =
      if (input k).updates then smooth (after input k).ayF (input k).sAy else (after input k).ayF := by
    intro k
    rw [after, run_succ, LowPass.clock]
    split_ifs <;> rfl
  rw [NeverOvershoots, follows_iff rfl lawX, follows_iff rfl lawY]
  constructor
  · rintro ⟨fitsX, fitsY⟩ k bound updates
    exact ⟨fitsX k bound updates, fitsY k bound updates⟩
  · intro fits
    exact ⟨fun k bound updates => (fits k bound updates).1, fun k bound updates => (fits k bound updates).2⟩

/-! ## A sample that swings from one end to the other -/

/-- The lowest sample at the first tick, the highest at all others. -/
def swing (n : ℕ) : LowPassIn :=
  ⟨tickAccAt n, if n = accUpdateDiv then -32768 else 32767, 0, true⟩

private theorem swing_clock (f : Model.LowPass) {n : ℕ} (ticks : tickAccAt n = true) :
    LowPass.clock f (swing n) =
      ⟨smooth f.axF (if n = accUpdateDiv then -32768 else 32767), smooth f.ayF 0⟩ := by
  rw [LowPass.clock, if_pos]
  · rfl
  · simp only [swing, LowPassIn.updates, ticks, Bool.and_self]

/-- At the second tick the value moves from -4096 to -7681 although the sample is 32767. -/
theorem swing_overshoots :
    (after swing (accUpdateDiv * 2)).axF.toInt = -4096 ∧
      (swing (accUpdateDiv * 2)).updates = true ∧ (swing (accUpdateDiv * 2)).sAx.toInt = 32767 ∧
      (after swing (accUpdateDiv * 2 + 1)).axF.toInt = -7681 ∧
      ¬ NeverOvershoots swing (accUpdateDiv * 2 + 1) := by
  have period : 0 < accUpdateDiv := by decide
  have ticks : ∀ k, tickAccAt (accUpdateDiv * (k + 1)) = true := by
    intro k
    rw [tickAccAt, Divider.after_tick period]
    exact ⟨Nat.mul_pos period (Nat.succ_pos k), Nat.mul_mod_right ..⟩
  have second : accUpdateDiv * 2 ≠ accUpdateDiv := by omega
  have law : ∀ n, after swing (n + 1) =
      if tickAccAt n then LowPass.clock (after swing n) (swing n) else after swing n := by
    intro n
    cases tick : tickAccAt n <;>
      simp [after, run_succ, LowPass.clock, swing, LowPassIn.updates, tick]
  have before : after swing (accUpdateDiv * 2) = ⟨-4096, 0⟩ := by
    have reached := gated_nth law (Divider.tick_infinite period) 1
    simp only [tickAccAt, Divider.nth_tick period] at reached
    rw [reached, run_succ, run_zero, swing_clock _ (ticks 0), Nat.zero_add, Nat.mul_one, if_pos rfl]
    decide
  have next : after swing (accUpdateDiv * 2 + 1) = ⟨-7681, 0⟩ := by
    rw [law, if_pos (ticks 1), swing_clock _ (ticks 1), before, if_neg second]
    decide
  have updates : (swing (accUpdateDiv * 2)).updates = true := by
    simp only [swing, LowPassIn.updates, ticks 1, Bool.and_self]
  have sample : (swing (accUpdateDiv * 2)).sAx = 32767 := by
    rw [swing, if_neg second]
  refine ⟨?_, updates, ?_, ?_, ?_⟩
  · rw [before]
    decide
  · rw [sample]
    decide
  · rw [next]
    decide
  · intro never
    have between := never.1.update _ (Nat.lt_succ_self _) updates
    simp only [next, before, sample, Set.mem_uIcc] at between
    exact absurd between (by decide)

end Telecran.Soundness.LowPass
