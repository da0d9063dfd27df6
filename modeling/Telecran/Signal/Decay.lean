import Mathlib.Algebra.Order.Ring.Int
import Mathlib.Logic.Function.Iterate

/-! # Decay of a smoothed distance

First order smoothing takes a part of the distance away, rounded down. What is left depends
monotonically on the distance, so two extreme distances settle how long all those between them take.
Nothing here depends on a particular filter.
-/

namespace Telecran.Signal

/-- What is left of a distance after one step. -/
def decay (d e : ℤ) : ℤ := e - e / d

section Decay

variable {d : ℤ}

theorem decay_le (pos : 0 < d) {e e' : ℤ} (below : e ≤ e') : decay d e ≤ decay d e' := by
  have more : e' / d ≤ (e + (e' - e) * d) / d := by
    apply Int.ediv_le_ediv pos
    have scaled : e' - e ≤ (e' - e) * d := by
      calc e' - e = (e' - e) * 1 := (Int.mul_one _).symm
        _ ≤ (e' - e) * d := Int.mul_le_mul_of_nonneg_left (by omega) (by omega)
    omega
  rw [Int.add_mul_ediv_right _ _ pos.ne'] at more
  simp only [decay]
  omega

theorem decay_iterate_le (pos : 0 < d) {e e' : ℤ} (below : e ≤ e') (n : ℕ) :
    (decay d)^[n] e ≤ (decay d)^[n] e' := by
  induction n with
  | zero => exact below
  | succ n ih =>
    rw [Function.iterate_succ_apply', Function.iterate_succ_apply']
    exact decay_le pos ih

/-- A distance of less than a part stays. -/
theorem decay_rest {e : ℤ} (low : 0 ≤ e) (high : e < d) : decay d e = e := by
  rw [decay, Int.ediv_eq_zero_of_lt low high, Int.sub_zero]

/-- Once the two extremes have come to rest, everything between them has. -/
theorem decay_settles (pos : 0 < d) {lo hi e : ℤ} {n : ℕ} (above : lo ≤ e) (below : e ≤ hi)
    (low : 0 ≤ (decay d)^[n] lo) (high : (decay d)^[n] hi < d) {m : ℕ} (later : n ≤ m) :
    0 ≤ (decay d)^[m] e ∧ (decay d)^[m] e < d := by
  have rest : 0 ≤ (decay d)^[n] e ∧ (decay d)^[n] e < d :=
    ⟨low.trans (decay_iterate_le pos above n), (decay_iterate_le pos below n).trans_lt high⟩
  obtain ⟨k, rfl⟩ := Nat.exists_eq_add_of_le' later
  rw [Function.iterate_add_apply, Function.iterate_fixed (decay_rest rest.1 rest.2)]
  exact rest

/-- The distance of a smoothed signal decays. -/
theorem distance_decays {x : ℕ → ℤ} {s : ℤ} (law : ∀ k, x (k + 1) = x k + (s - x k) / d) (k : ℕ) :
    s - x k = (decay d)^[k] (s - x 0) := by
  induction k with
  | zero => rfl
  | succ k ih =>
    rw [Function.iterate_succ_apply', ← ih, law, decay, sub_add_eq_sub_sub]

end Decay

end Telecran.Signal
