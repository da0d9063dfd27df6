import Mathlib.Algebra.Order.Group.Nat
import Mathlib.Data.Nat.Nth
import Mathlib.Tactic.Linarith

/-! # Clock dividers

A counter modulo `period` whose registered carry is high for one clock in every `period`. The
counter is autonomous, so its value and its carry are functions of the clock alone.
-/

namespace Telecran.Machine

/-- A counter that restarts after `period - 1` counts modulo `period`. -/
theorem wrap_mod {period : ℕ} (positive : 0 < period) (n : ℕ) :
    (if n % period = period - 1 then 0 else n % period + 1) = (n + 1) % period := by
  have parts := Nat.div_add_mod n period
  have below := Nat.mod_lt n positive
  by_cases last : n % period = period - 1
  · have whole : n + 1 = period * (n / period + 1) := by
      rw [Nat.mul_add, Nat.mul_one]
      omega
    rw [if_pos last, whole, Nat.mul_mod_right]
  · have whole : n + 1 = period * (n / period) + (n % period + 1) := by omega
    rw [if_neg last, whole, Nat.mul_add_mod, Nat.mod_eq_of_lt (by omega : n % period + 1 < period)]

/-- A modulo counter with a registered carry. -/
structure Divider where
  cnt : ℕ
  tick : Bool
deriving DecidableEq, Repr

namespace Divider

/-- The cleared counter. -/
def reset : Divider := ⟨0, false⟩

def clock (period : ℕ) (d : Divider) : Divider :=
  if d.cnt = period - 1 then ⟨0, true⟩ else ⟨d.cnt + 1, false⟩

/-- The counter `n` clocks after its reset. -/
def after (period n : ℕ) : Divider := (clock period)^[n] reset

@[simp] theorem after_zero (period : ℕ) : after period 0 = reset := rfl

theorem after_succ (period n : ℕ) : after period (n + 1) = clock period (after period n) :=
  Function.iterate_succ_apply' ..

/-- The counter is the clock modulo the period, and the carry marks the positive multiples. -/
theorem after_eq {period : ℕ} (positive : 0 < period) (n : ℕ) :
    after period n = ⟨n % period, decide (0 < n ∧ n % period = 0)⟩ := by
  induction n with
  | zero => simp [reset]
  | succ n ih =>
    have next := wrap_mod positive n
    rw [after_succ, ih, clock]
    by_cases last : n % period = period - 1
    · rw [if_pos last] at next
      simp [last, ← next]
    · rw [if_neg last] at next
      simp [last, ← next]

theorem after_tick {period : ℕ} (positive : 0 < period) (n : ℕ) :
    (after period n).tick = true ↔ 0 < n ∧ n % period = 0 := by
  simp [after_eq positive]

/-- The carry recurs forever. -/
theorem tick_infinite {period : ℕ} (positive : 0 < period) :
    {n | (after period n).tick = true}.Infinite := by
  refine Set.infinite_of_injective_forall_mem (f := fun k => period * (k + 1)) ?_ ?_
  · intro j k same
    exact Nat.succ_injective (Nat.eq_of_mul_eq_mul_left positive same)
  · intro k
    exact (after_tick positive _).mpr ⟨by positivity, Nat.mul_mod_right ..⟩

/-- Ticks among the first clocks. -/
theorem count_tick {period : ℕ} (positive : 0 < period) (n : ℕ) :
    Nat.count (fun k => (after period k).tick) n = (n - 1) / period := by
  induction n with
  | zero => simp
  | succ n ih =>
    rw [Nat.count_succ, ih]
    simp only [after_tick positive]
    cases n with
    | zero => simp
    | succ n =>
      simp only [Nat.zero_lt_succ, true_and, Nat.add_sub_cancel, Nat.succ_div, Nat.dvd_iff_mod_eq_zero]

/-- Tick `k`, counted from zero, comes `k + 1` periods after the reset. -/
theorem nth_tick {period : ℕ} (positive : 0 < period) (k : ℕ) :
    Nat.nth (fun n => (after period n).tick) k = period * (k + 1) := by
  have here : (after period (period * (k + 1))).tick = true :=
    (after_tick positive _).mpr ⟨by positivity, Nat.mul_mod_right ..⟩
  have place : Nat.count (fun n => (after period n).tick) (period * (k + 1)) = k := by
    have shifted : period * (k + 1) - 1 = period * k + (period - 1) := by
      rw [Nat.mul_add, Nat.mul_one]
      omega
    rw [count_tick positive, shifted, Nat.mul_add_div positive, Nat.div_eq_of_lt (by omega),
      Nat.add_zero]
  have found := Nat.nth_count (p := fun n => (after period n).tick) here
  rwa [place] at found

/-- A register that loads a source on every tick holds what the source was at the last tick. -/
theorem held {A : Type*} {period : ℕ} (positive : 0 < period) (x source : ℕ → A) (start : x 0 = source 0)
    (load : ∀ n, x (n + 1) = if (after period n).tick then source n else x n) (n : ℕ) :
    x n = source (period * ((n - 1) / period)) := by
  induction n with
  | zero => simpa using start
  | succ n ih =>
    rw [load, Nat.add_sub_cancel]
    simp only [after_tick positive]
    rcases Nat.eq_zero_or_pos n with rfl | later
    · simpa using start
    · obtain ⟨m, rfl⟩ := Nat.exists_eq_succ_of_ne_zero later.ne'
      by_cases tick : m.succ % period = 0
      · rw [if_pos ⟨later, tick⟩, Nat.mul_div_cancel' (Nat.dvd_of_mod_eq_zero tick)]
      · have same : m.succ / period = m / period :=
          Nat.succ_div_of_not_dvd fun divides => tick (Nat.mod_eq_zero_of_dvd divides)
        rw [if_neg fun ticks => tick ticks.2, same]
        exact ih

end Divider

end Telecran.Machine
