import Telecran.Machine.Run

/-! # Fast machines that follow slow ones

A synchronous machine may need many clocks for what a slower machine does in one step. Between two
steps of the slow machine it works the rest off and then rests; a relation that is handed from one
step to the next holds along the whole run. Nothing here depends on a particular machine.
-/

namespace Telecran.Machine

variable {State Input Slow Move : Type*}

/-- With quiet inputs the machine has one clock of work less after each clock, and then rests. -/
structure Settling (step : State → Input → State) (quiet : Input → Prop) (Working : ℕ → State → Prop) :
    Prop where
  works : ∀ s i n, quiet i → Working (n + 1) s → Working n (step s i)
  rests : ∀ s i, quiet i → Working 0 s → Working 0 (step s i)

section Settling

variable {step : State → Input → State} {quiet : Input → Prop} {Working : ℕ → State → Prop}

theorem Settling.run (settling : Settling step quiet Working) {s : State} {input : ℕ → Input} {work n : ℕ}
    (quietly : ∀ k < n, quiet (input k)) (working : Working work s) :
    Working (work - n) (run step s input n) := by
  induction n with
  | zero => exact working
  | succ n ih =>
    have before := ih fun k bound => quietly k (by omega)
    have now := quietly n (Nat.lt_succ_self n)
    rw [run_succ]
    rcases Nat.eq_zero_or_pos (work - n) with done | more
    · rw [done] at before
      rw [show work - (n + 1) = 0 by omega]
      exact settling.rests _ _ now before
    · obtain ⟨left, same⟩ := Nat.exists_eq_succ_of_ne_zero more.ne'
      rw [same] at before
      rw [show work - (n + 1) = left by omega]
      exact settling.works _ _ _ now before

end Settling

/-- What every step of the slow machine hands on holds after any number of them. -/
theorem paced_run {R : State → Slow → Prop} {next : Slow → Move → Slow} {x : ℕ → State} {move : ℕ → Move}
    {m : ℕ} (handed : ∀ k < m, ∀ g, R (x k) g → R (x (k + 1)) (next g (move k))) {g : Slow} (start : R (x 0) g) :
    R (x m) (run next g move m) := by
  induction m with
  | zero => exact start
  | succ m ih => exact handed m (Nat.lt_succ_self m) _ (ih fun k bound => handed k (by omega))

end Telecran.Machine
