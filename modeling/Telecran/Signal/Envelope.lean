import Mathlib.Algebra.Order.Ring.Int
import Mathlib.Order.Interval.Set.UnorderedInterval

/-! # Envelopes of smoothed signals

A register that takes a sample on enabled clocks and moves towards it never leaves the envelope of
its start value and the samples it has taken. First order smoothing with a rounding division is
such a move. Nothing here depends on a particular filter.
-/

namespace Telecran.Signal

section Envelope

variable {α : Type*} [LinearOrder α]

/-- The lowest of the start value and the samples taken on the enabled ones of `n` clocks. -/
def lowest (start : α) (enable : ℕ → Bool) (sample : ℕ → α) : ℕ → α
  | 0 => start
  | n + 1 =>
    if enable n then min (lowest start enable sample n) (sample n) else lowest start enable sample n

/-- The highest of them. -/
def highest (start : α) (enable : ℕ → Bool) (sample : ℕ → α) : ℕ → α
  | 0 => start
  | n + 1 =>
    if enable n then max (highest start enable sample n) (sample n) else highest start enable sample n

/-- A signal that moves on enabled clocks only, and never past the sample, stays in its envelope. -/
theorem mem_envelope {enable : ℕ → Bool} {sample x : ℕ → α} {n : ℕ}
    (moves : ∀ k < n, enable k = true → x (k + 1) ∈ Set.uIcc (x k) (sample k))
    (rests : ∀ k < n, enable k = false → x (k + 1) = x k) :
    lowest (x 0) enable sample n ≤ x n ∧ x n ≤ highest (x 0) enable sample n := by
  induction n with
  | zero => exact ⟨le_rfl, le_rfl⟩
  | succ n ih =>
    have inside := ih (fun k bound => moves k (by omega)) (fun k bound => rests k (by omega))
    cases enabled : enable n with
    | true =>
      have between := moves n (Nat.lt_succ_self n) enabled
      simp only [lowest, highest, enabled, if_true]
      constructor
      · exact (min_le_min_right _ inside.1).trans between.1
      · exact between.2.trans (max_le_max_right _ inside.2)
    | false =>
      have same := rests n (Nat.lt_succ_self n) enabled
      simp only [lowest, highest, enabled, same]
      exact inside

end Envelope

/-- Moving by a part of the difference, rounded down, never passes the sample. -/
theorem smooth_mem_uIcc {d : ℤ} (pos : 0 < d) (f s : ℤ) : f + (s - f) / d ∈ Set.uIcc f s := by
  rw [Set.mem_uIcc]
  rcases le_total f s with up | down
  · have low := Int.ediv_nonneg (sub_nonneg.mpr up) pos.le
    have high := Int.ediv_le_self d (sub_nonneg.mpr up)
    omega
  · have low : s - f ≤ (s - f) / d := by
      apply Int.le_ediv_of_mul_le pos
      calc (s - f) * d ≤ (s - f) * 1 := Int.mul_le_mul_of_nonpos_left (by omega) (by omega)
        _ = s - f := Int.mul_one _
    have high := Int.ediv_le_ediv pos (sub_nonpos.mpr down)
    rw [Int.zero_ediv] at high
    omega

end Telecran.Signal
