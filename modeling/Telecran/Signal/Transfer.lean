import Mathlib.Algebra.Group.EvenFunction
import Mathlib.Algebra.Order.Group.Abs
import Mathlib.Algebra.Order.Ring.Int

/-! # Transfer functions of a signal chain

The stages an integer sample passes on its way to an actuator: a dead band, a gain, a limiter, a
dead zone and a truncating division. Each is odd and monotone, and such stages compose, so a chain
of them neither favours a side nor turns one around. Nothing here depends on a particular chain.
-/

namespace Telecran.Signal

/-- No side is favoured and no order is inverted. -/
structure Unbiased (f : ℤ → ℤ) : Prop where
  odd : f.Odd
  mono : ∀ x y, x ≤ y → f x ≤ f y

theorem Unbiased.comp {f g : ℤ → ℤ} (outer : Unbiased f) (inner : Unbiased g) :
    Unbiased fun x => f (g x) where
  odd := outer.odd.comp_odd inner.odd
  mono x y ordered := outer.mono _ _ (inner.mono x y ordered)

/-! ## Stages -/

/-- Samples below the threshold are silenced, the others pass unchanged. -/
def deadBand (t x : ℤ) : ℤ := if |x| < t then 0 else x

/-- Samples inside the zone are silenced, the others lose its width. -/
def deadZone (t x : ℤ) : ℤ := if x > t then x - t else if x < -t then x + t else 0

/-- Samples beyond the limit are replaced by it. -/
def limiter (m x : ℤ) : ℤ := if x > m then m else if x < -m then -m else x

theorem deadBand_unbiased (t : ℤ) : Unbiased (deadBand t) := by
  constructor
  · intro x
    unfold deadBand
    rw [abs_neg]
    split_ifs <;> simp
  · intro x y ordered
    unfold deadBand
    simp only [abs_lt]
    split_ifs <;> omega

theorem deadZone_unbiased {t : ℤ} (nonneg : 0 ≤ t) : Unbiased (deadZone t) := by
  constructor
  · intro x
    unfold deadZone
    split_ifs <;> omega
  · intro x y ordered
    unfold deadZone
    split_ifs <;> omega

theorem limiter_unbiased {m : ℤ} (nonneg : 0 ≤ m) : Unbiased (limiter m) := by
  constructor
  · intro x
    unfold limiter
    split_ifs <;> omega
  · intro x y ordered
    unfold limiter
    split_ifs <;> omega

theorem gain_unbiased {k : ℤ} (nonneg : 0 ≤ k) : Unbiased (· * k) where
  odd x := neg_mul x k
  mono _ _ ordered := Int.mul_le_mul_of_nonneg_right ordered nonneg

theorem tdiv_unbiased {d : ℤ} (pos : 0 < d) : Unbiased (·.tdiv d) where
  odd x := Int.neg_tdiv x d
  mono _ _ ordered := Int.tdiv_le_tdiv pos ordered

/-! ## Ranges -/

theorem limiter_range {m : ℤ} (nonneg : 0 ≤ m) (x : ℤ) : |limiter m x| ≤ m := by
  unfold limiter
  rw [abs_le]
  split_ifs <;> omega

theorem deadBand_range (t x : ℤ) : |deadBand t x| ≤ |x| := by
  unfold deadBand
  split_ifs
  · simp
  · exact le_rfl

theorem deadZone_range {t : ℤ} (nonneg : 0 ≤ t) (x : ℤ) : |deadZone t x| ≤ |x| := by
  unfold deadZone
  rcases abs_cases x with ⟨same, sign⟩ | ⟨same, sign⟩ <;> rw [same, abs_le] <;> split_ifs <;> omega

theorem tdiv_range (d x : ℤ) : |x.tdiv d| ≤ |x| := by
  have small := Int.natAbs_tdiv_le_natAbs x d
  rw [Int.abs_eq_natAbs, Int.abs_eq_natAbs]
  exact_mod_cast small

end Telecran.Signal
