import Mathlib.Data.Nat.Nth
import Mathlib.Tactic.Ring

/-! # Runs of synchronous machines

A synchronous machine is a step function on a state and the input of one clock; a run follows a
stream of inputs. This module has the induction rules for runs, the projection of a machine that
moves only on enabled clocks to the run it makes on those clocks alone, and finite segments of a
run with the outputs emitted on the way. Nothing here depends on a particular machine.
-/

namespace Telecran.Machine

variable {State Input Output : Type*}

/-- The state after `n` clocks. -/
def run (step : State → Input → State) (s : State) (input : ℕ → Input) : ℕ → State
  | 0 => s
  | n + 1 => step (run step s input n) (input n)

section Run

variable {step : State → Input → State} {s : State} {input : ℕ → Input}

@[simp] theorem run_zero : run step s input 0 = s := rfl

theorem run_succ (n : ℕ) : run step s input (n + 1) = step (run step s input n) (input n) := rfl

theorem run_add (m n : ℕ) :
    run step s input (m + n) = run step (run step s input m) (fun k => input (m + k)) n := by
  induction n with
  | zero => rfl
  | succ n ih => rw [← Nat.add_assoc, run_succ, run_succ, ih]

/-- A run depends on the inputs so far only. -/
theorem run_congr {input' : ℕ → Input} {n : ℕ} (same : ∀ k < n, input k = input' k) :
    run step s input n = run step s input' n := by
  induction n with
  | zero => rfl
  | succ n ih =>
    rw [run_succ, run_succ, ih fun k bound => same k (by omega), same n (Nat.lt_succ_self n)]

/-- The first clock of a run can be split off. -/
theorem run_succ' (n : ℕ) :
    run step s input (n + 1) = run step (step s (input 0)) (fun k => input (k + 1)) n := by
  rw [Nat.add_comm n 1, run_add]
  simp only [run_succ, run_zero, Nat.add_comm]

/-- An invariant of the steps holds along every run. -/
theorem run_invariant {P : State → Prop} (start : P s) (kept : ∀ s i, P s → P (step s i)) (n : ℕ) :
    P (run step s input n) := by
  induction n with
  | zero => exact start
  | succ n ih => exact kept _ _ ih

/-- The same rule when the invariant depends on the clock, or its preservation on the input. -/
theorem run_invariant_at {P : ℕ → State → Prop} (start : P 0 s)
    (kept : ∀ n, P n (run step s input n) → P (n + 1) (step (run step s input n) (input n)))
    (n : ℕ) : P n (run step s input n) := by
  induction n with
  | zero => exact start
  | succ n ih => exact kept n ih

/-- A sequence of states obeying the step law is the run from its first state. -/
theorem eq_run {x : ℕ → State} (law : ∀ n, x (n + 1) = step (x n) (input n)) (n : ℕ) :
    x n = run step (x 0) input n := by
  induction n with
  | zero => rfl
  | succ n ih => rw [law, run_succ, ← ih]

end Run

/-! ## Clock enables -/

section Gated

variable {step : State → Input → State} {enable : ℕ → Bool} {input : ℕ → Input} {x : ℕ → State}

/-- A register that moves only on enabled clocks makes the plain run on the enabled inputs: after
`n` clocks it has taken as many steps as there were enabled clocks, the `k`-th of them with the
input of the `k`-th enabled clock. -/
theorem gated_eq_run
    (law : ∀ n, x (n + 1) = if enable n then step (x n) (input n) else x n) (n : ℕ) :
    x n = run step (x 0) (fun k => input (Nat.nth (enable ·) k)) (Nat.count (enable ·) n) := by
  induction n with
  | zero => simp
  | succ n ih =>
    rw [law, Nat.count_succ]
    by_cases enabled : enable n = true
    · rw [if_pos enabled, if_pos enabled, run_succ, ← ih, @Nat.nth_count (enable ·) _ n enabled]
    · rw [if_neg enabled, if_neg enabled, ih, Nat.add_zero]

/-- Just before the `k`-th enabled clock the register has taken exactly `k` steps. -/
theorem gated_nth (law : ∀ n, x (n + 1) = if enable n then step (x n) (input n) else x n)
    (often : {n | enable n = true}.Infinite) (k : ℕ) :
    x (Nat.nth (enable ·) k) = run step (x 0) (fun k => input (Nat.nth (enable ·) k)) k := by
  rw [gated_eq_run law, Nat.count_nth_of_infinite often]

end Gated

/-! ## Outputs and segments -/

/-- A machine together with the outputs each clock emits. -/
structure Mealy (State Input Output : Type*) where
  step : State → Input → State
  emit : State → Input → List Output

namespace Mealy

variable (m : Mealy State Input Output)

/-- Everything emitted during the first `n` clocks, in order. -/
def emitted (s : State) (input : ℕ → Input) : ℕ → List Output
  | 0 => []
  | n + 1 => emitted s input n ++ m.emit (run m.step s input n) (input n)

theorem emitted_add (s : State) (input : ℕ → Input) (a b : ℕ) :
    m.emitted s input (a + b) = m.emitted s input a ++
      m.emitted (run m.step s input a) (fun k => input (a + k)) b := by
  induction b with
  | zero => simp [emitted]
  | succ b ih =>
    rw [← Nat.add_assoc, emitted, emitted, ih, run_add, List.append_assoc]

/-- `n` clocks lead from `s` to `t`, emit `out`, and every state before `t` satisfies `P`. -/
structure Segment (P : State → Prop) (s : State) (input : ℕ → Input) (n : ℕ) (out : List Output)
    (t : State) : Prop where
  last : run m.step s input n = t
  inside : ∀ k < n, P (run m.step s input k)
  heard : m.emitted s input n = out

namespace Segment

variable {m} {P : State → Prop} {s t u : State} {input : ℕ → Input} {a b : ℕ}
variable {out out' : List Output}

theorem refl : m.Segment P s input 0 [] s := ⟨rfl, fun _ impossible => by omega, rfl⟩

/-- One clock. -/
theorem one (here : P s) (step : m.step s (input 0) = t) (emit : m.emit s (input 0) = out) :
    m.Segment P s input 1 out t where
  last := step
  inside k bound := by obtain rfl : k = 0 := by omega
                       exact here
  heard := by simp only [emitted, run_zero, List.nil_append, emit]

/-- Segments compose at their shared endpoint. -/
theorem trans (first : m.Segment P s input a out t)
    (second : m.Segment P t (fun k => input (a + k)) b out' u) :
    m.Segment P s input (a + b) (out ++ out') u where
  last := by rw [run_add, first.last, second.last]
  inside k bound := by
    by_cases early : k < a
    · exact first.inside k early
    · obtain ⟨j, rfl⟩ := Nat.exists_eq_add_of_le (Nat.le_of_not_lt early)
      rw [run_add, first.last]
      exact second.inside j (by omega)
  heard := by rw [emitted_add, first.last, first.heard, second.heard]

/-- Three clocks. -/
theorem three {out'' : List Output} {v : State} (first : m.step s (input 0) = u)
    (second : m.step u (input 1) = v) (third : m.step v (input 2) = t) (here : P s) (here' : P u)
    (here'' : P v) (emit : m.emit s (input 0) = out) (emit' : m.emit u (input 1) = out')
    (emit'' : m.emit v (input 2) = out'') : m.Segment P s input 3 (out ++ out' ++ out'') t :=
  ((one here first emit).trans (one here' second emit')).trans (one here'' third emit'')

theorem mono {Q : State → Prop} (weaker : ∀ s, P s → Q s) (segment : m.Segment P s input a out t) :
    m.Segment Q s input a out t :=
  ⟨segment.last, fun k bound => weaker _ (segment.inside k bound), segment.heard⟩

end Segment

end Mealy

end Telecran.Machine
