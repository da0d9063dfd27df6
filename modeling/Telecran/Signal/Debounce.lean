import Telecran.Machine.Run

/-! # Debouncing

A register follows a noisy signal only after the signal has disagreed with it for more than `limit`
clocks in a row. Its counter is the length of that disagreement, and the register changes exactly
when the whole window of the last `limit + 1` clocks disagrees with the value it holds. Nothing here
depends on a particular button.
-/

namespace Telecran.Signal

open Machine

/-- The accepted value and the clocks the signal has disagreed with it. -/
structure Debouncer (α : Type*) where
  stable : α
  cnt : ℕ

namespace Debouncer

section Window

variable {α : Type*} {limit : ℕ} {sample : ℕ → α}

/-- The whole window of clock `n` disagrees with `v`. -/
def Disagrees (limit : ℕ) (sample : ℕ → α) (v : α) (n : ℕ) : Prop :=
  limit ≤ n ∧ ∀ k, n - limit ≤ k → k ≤ n → sample k ≠ v

/-- Before clock `n` the signal has disagreed with the value `v` for `cnt` clocks and no longer. -/
structure Counted (limit : ℕ) (sample : ℕ → α) (n : ℕ) (d : Debouncer α) : Prop where
  capped : d.cnt ≤ limit
  early : d.cnt ≤ n
  inside : ∀ k, n - d.cnt ≤ k → k < n → sample k ≠ d.stable
  longest : d.cnt < n → sample (n - d.cnt - 1) = d.stable

/-- The window of clock `n` disagrees if and only if the sample does and the counter is full. -/
theorem Counted.disagrees_iff {n : ℕ} {d : Debouncer α} (counted : Counted limit sample n d) :
    Disagrees limit sample d.stable n ↔ sample n ≠ d.stable ∧ d.cnt = limit := by
  have capped := counted.capped
  have early := counted.early
  constructor
  · rintro ⟨late, all⟩
    refine ⟨all n (by omega) le_rfl, ?_⟩
    by_contra room
    exact all _ (by omega) (by omega) (counted.longest (by omega))
  · rintro ⟨differs, full⟩
    refine ⟨by omega, fun k low high => ?_⟩
    by_cases last : k = n
    · exact last ▸ differs
    · exact counted.inside k (by omega) (by omega)

end Window

section Runs

variable {α : Type*} [DecidableEq α]

def clock (limit : ℕ) (d : Debouncer α) (s : α) : Debouncer α :=
  if s = d.stable then ⟨d.stable, 0⟩
  else if d.cnt = limit then ⟨s, 0⟩
  else ⟨d.stable, d.cnt + 1⟩

/-- The register after `n` clocks that started with the value `start`. -/
def after (limit : ℕ) (start : α) (sample : ℕ → α) (n : ℕ) : Debouncer α :=
  run (clock limit) ⟨start, 0⟩ sample n

variable {limit : ℕ} {start : α} {sample : ℕ → α}

theorem Counted.clock {n : ℕ} {d : Debouncer α} (counted : Counted limit sample n d) :
    Counted limit sample (n + 1) (d.clock limit (sample n)) := by
  have capped := counted.capped
  have early := counted.early
  unfold Debouncer.clock
  by_cases same : sample n = d.stable
  · rw [if_pos same]
    refine ⟨Nat.zero_le _, Nat.zero_le _, fun k low high => ?_, fun _ => same⟩
    dsimp only at low
    omega
  · rw [if_neg same]
    by_cases full : d.cnt = limit
    · rw [if_pos full]
      refine ⟨Nat.zero_le _, Nat.zero_le _, fun k low high => ?_, fun _ => rfl⟩
      dsimp only at low
      omega
    · rw [if_neg full]
      refine ⟨by dsimp only; omega, by dsimp only; omega, fun k low high => ?_, fun room => ?_⟩
      · by_cases last : k = n
        · exact last ▸ same
        · exact counted.inside k (by dsimp only at low; omega) (by omega)
      · have place : n + 1 - (d.cnt + 1) - 1 = n - d.cnt - 1 := by omega
        dsimp only at room ⊢
        rw [place]
        exact counted.longest (by omega)

theorem counted_after (n : ℕ) : Counted limit sample n (after limit start sample n) := by
  induction n with
  | zero => exact ⟨Nat.zero_le _, le_rfl, fun k _ high => absurd high (Nat.not_lt_zero k),
      fun room => absurd room (Nat.not_lt_zero _)⟩
  | succ n ih => exact ih.clock

theorem cnt_le (n : ℕ) : (after limit start sample n).cnt ≤ limit := (counted_after n).capped

/-- The register changes at a clock if and only if the whole window disagrees with it. -/
theorem changes_iff (n : ℕ) :
    (after limit start sample (n + 1)).stable ≠ (after limit start sample n).stable ↔
      Disagrees limit sample (after limit start sample n).stable n := by
  rw [(counted_after n).disagrees_iff]
  have next : after limit start sample (n + 1) = (after limit start sample n).clock limit (sample n) := rfl
  rw [next, Debouncer.clock]
  by_cases same : sample n = (after limit start sample n).stable
  · simp [same]
  · by_cases full : (after limit start sample n).cnt = limit <;> simp [same, full]

/-- As long as no window disagrees with a value, the register keeps it. -/
theorem keeps {v : α} {m n : ℕ} (later : m ≤ n) (here : (after limit start sample m).stable = v)
    (glitches : ∀ k, m ≤ k → k < n → ¬ Disagrees limit sample v k) :
    (after limit start sample n).stable = v := by
  induction n, later using Nat.le_induction with
  | base => exact here
  | succ n later ih =>
    have held := ih fun k low high => glitches k low (by omega)
    by_contra changed
    have window := (changes_iff n).mp (by rwa [held])
    rw [held] at window
    exact glitches n later (by omega) window

/-- A disagreement of more than `limit` clocks is accepted before it ends. -/
theorem accepts {v : α} {m : ℕ} (here : (after limit start sample m).stable = v)
    (all : ∀ k, m ≤ k → k ≤ m + limit → sample k ≠ v) :
    ∃ k, m ≤ k ∧ k ≤ m + limit ∧ (after limit start sample (k + 1)).stable ≠ v := by
  by_contra never
  push Not at never
  have held : (after limit start sample (m + limit)).stable = v := by
    by_cases empty : limit = 0
    · have place : m + limit = m := by omega
      rw [place]
      exact here
    · have last := never (m + limit - 1) (by omega) (by omega)
      rwa [Nat.sub_add_cancel (by omega)] at last
  have window : Disagrees limit sample (after limit start sample (m + limit)).stable (m + limit) := by
    rw [held]
    exact ⟨Nat.le_add_left .., fun k low high => all k (by omega) high⟩
  exact (changes_iff _).mpr window ((never (m + limit) (by omega) le_rfl).trans held.symm)

end Runs

end Debouncer

end Telecran.Signal
