import Mathlib.Logic.Function.Basic
import Mathlib.Tactic.Linarith

/-! # Memories, registered write ports and sweeps

A memory is its contents by address. A write port that registers its request commits it one clock
later; flushing the pending request gives the memory an unregistered port would have, and that
flushed memory is what invariants are stated about. A sweep writes consecutive addresses with the
values of a picture and leaves the whole picture behind.
-/

namespace Telecran.Machine

variable {Word : Type*}

/-- Contents by address. -/
abbrev Memory (Word : Type*) := ℕ → Word

/-- One clock's request at a write port. -/
structure Write (Word : Type*) where
  enable : Bool
  addr : ℕ
  data : Word

namespace Write

def apply (w : Write Word) (m : Memory Word) : Memory Word :=
  if w.enable then Function.update m w.addr w.data else m

theorem apply_idle {w : Write Word} (idle : w.enable = false) (m : Memory Word) : w.apply m = m := by
  simp [apply, idle]

theorem apply_enabled {w : Write Word} (enabled : w.enable = true) (m : Memory Word) :
    w.apply m = Function.update m w.addr w.data := by simp [apply, enabled]

/-- A write touches no other address. -/
theorem apply_other {w : Write Word} {addr : ℕ} (other : w.enable = true → w.addr ≠ addr)
    (m : Memory Word) : w.apply m addr = m addr := by
  cases enabled : w.enable with
  | false => rw [apply_idle enabled]
  | true => rw [apply_enabled enabled, Function.update_of_ne (other enabled).symm]

end Write

/-- The memory agrees with the picture below `n`. -/
def Shows (m : Memory Word) (picture : ℕ → Word) (n : ℕ) : Prop := ∀ addr < n, m addr = picture addr

namespace Shows

variable {m : Memory Word} {picture : ℕ → Word} {n : ℕ}

theorem zero : Shows m picture 0 := fun _ impossible => absurd impossible (Nat.not_lt_zero _)

/-- One step of a sweep. -/
theorem sweep (shows : Shows m picture n) :
    Shows (Function.update m n (picture n)) picture (n + 1) := by
  intro addr bound
  by_cases last : addr = n
  · rw [last, Function.update_self]
  · rw [Function.update_of_ne last]
    exact shows addr (by omega)

end Shows

end Telecran.Machine
