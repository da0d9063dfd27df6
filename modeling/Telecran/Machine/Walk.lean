import Mathlib.Algebra.Order.Group.Int
import Mathlib.Tactic.Linarith

/-! # Walks on a line

A sequence whose steps are at most one long meets every value between its ends. Nothing here depends
on what walks.
-/

namespace Telecran.Machine

/-- From `a` to `b` no step is longer than one. -/
def Walks (x : ℕ → ℤ) (a b : ℕ) : Prop := ∀ n, a ≤ n → n < b → x (n + 1) ≤ x n + 1 ∧ x n ≤ x (n + 1) + 1

namespace Walks

variable {x : ℕ → ℤ} {a b : ℕ} {c : ℤ}

theorem shorten {b' : ℕ} (walks : Walks x a b) (shorter : b' ≤ b) : Walks x a b' :=
  fun n first last => walks n first (last.trans_le shorter)

theorem neg (walks : Walks x a b) : Walks (fun n => -x n) a b := by
  intro n first last
  obtain ⟨up, down⟩ := walks n first last
  dsimp only
  omega

/-- A walk up meets every value on its way. -/
theorem meets_up (walks : Walks x a b) (ordered : a ≤ b) (low : x a ≤ c) (high : c ≤ x b) :
    ∃ n, a ≤ n ∧ n ≤ b ∧ x n = c := by
  induction b, ordered using Nat.le_induction with
  | base => exact ⟨a, le_rfl, le_rfl, le_antisymm low high⟩
  | succ b ordered ih =>
    rcases lt_or_ge (x b) c with below | reached
    · have near := (walks b ordered (Nat.lt_succ_self b)).1
      exact ⟨b + 1, by omega, le_rfl, by omega⟩
    · obtain ⟨n, first, last, here⟩ := ih (walks.shorten (Nat.le_succ b)) reached
      exact ⟨n, first, by omega, here⟩

/-- A walk meets every value between its ends, in whichever direction it goes. -/
theorem meets (walks : Walks x a b) (ordered : a ≤ b)
    (between : x a ≤ c ∧ c ≤ x b ∨ x b ≤ c ∧ c ≤ x a) : ∃ n, a ≤ n ∧ n ≤ b ∧ x n = c := by
  rcases between with ⟨low, high⟩ | ⟨low, high⟩
  · exact walks.meets_up ordered low high
  · obtain ⟨n, first, last, here⟩ := walks.neg.meets_up ordered (neg_le_neg high) (neg_le_neg low)
    exact ⟨n, first, last, neg_injective here⟩

end Walks

end Telecran.Machine
