import Telecran.Proofs.AdxlInvariants

/-! # From clocks to I2C ticks

The main process sees the clocked design only on its ticks: just before tick `k` it has made `k`
ticks of its own, with what the input register and the other two dividers showed on them.
-/

namespace Telecran.Model.Adxl

open Machine Bus

theorem Generics.cDiv_pos (g : Generics) : 0 < g.cDiv := g.divides

variable (g : Generics) (slave : ℕ → Bool)

theorem after_succ (n : ℕ) : after g slave (n + 1) = (after g slave n).clock g (slave n) := rfl

theorem after_div (n : ℕ) : (after g slave n).div = Divider.after g.cDiv n := by
  induction n with
  | zero => rfl
  | succ n ih => rw [Divider.after_succ, ← ih]; rfl

/-- The registers on the clock of tick `k`, which they have not yet seen. -/
def atTick (k : ℕ) : Adxl := after g slave (g.cDiv * (k + 1))

/-- What the main process reads on its ticks. -/
def tickInputs (k : ℕ) : TickIn := (atTick g slave k).tickIn

theorem fsm_succ (n : ℕ) : (after g slave (n + 1)).fsm =
    if (Divider.after g.cDiv n).tick then (after g slave n).fsm.tick (after g slave n).tickIn
    else (after g slave n).fsm := by
  rw [← after_div g slave]
  rfl

theorem fsm_atTick (k : ℕ) : (atTick g slave k).fsm = run Fsm.tick .reset (tickInputs g slave) k := by
  have projected := gated_nth (x := fun n => (after g slave n).fsm) (fsm_succ g slave)
    (Divider.tick_infinite g.cDiv_pos) k
  simp only [Divider.nth_tick g.cDiv_pos] at projected
  exact projected

/-- The ticks from tick `k` on. -/
theorem fsm_atTick_add (k n : ℕ) : (atTick g slave (k + n)).fsm =
    run Fsm.tick (atTick g slave k).fsm (fun j => tickInputs g slave (k + j)) n := by
  rw [fsm_atTick, fsm_atTick, run_add]

/-- Between two ticks the registers of the main process hold. -/
theorem fsm_between {k n : ℕ} (later : g.cDiv * k < n) (early : n ≤ g.cDiv * (k + 1)) :
    (after g slave n).fsm = (atTick g slave k).fsm := by
  induction early using Nat.decreasingInduction with
  | self => rfl
  | of_succ n bound ih =>
    have quiet : ¬ (Divider.after g.cDiv n).tick = true := by
      rw [Divider.after_tick g.cDiv_pos, ← Nat.dvd_iff_mod_eq_zero]
      rintro ⟨-, j, rfl⟩
      have above := Nat.lt_of_mul_lt_mul_left later
      have below := Nat.lt_of_mul_lt_mul_left bound
      omega
    rw [← ih (by omega), fsm_succ, if_neg quiet]

/-- On every clock after the reset the main process is that of the tick to come. -/
theorem fsm_clock {n : ℕ} (positive : 0 < n) :
    (after g slave n).fsm = (atTick g slave ((n - 1) / g.cDiv)).fsm := by
  have parts := Nat.div_add_mod (n - 1) g.cDiv
  have below := Nat.mod_lt (n - 1) g.cDiv_pos
  refine fsm_between g slave (by omega) ?_
  rw [Nat.mul_add, Nat.mul_one]
  omega

/-- A sample of SDA is the line on the clock before. -/
theorem sdaIn_atTick (slow : 1 < g.cDiv) (k : ℕ) : (tickInputs g slave k).sdaIn =
    (slave (g.cDiv * (k + 1) - 1) && !(atTick g slave k).fsm.sdaOe) := by
  have length : g.cDiv * (k + 1) = g.cDiv * k + g.cDiv := Nat.mul_succ ..
  have split : g.cDiv * (k + 1) = g.cDiv * (k + 1) - 1 + 1 := by omega
  rw [← fsm_between g slave (n := g.cDiv * (k + 1) - 1) (by omega) (by omega), tickInputs, atTick]
  conv_lhs => rw [split]
  rfl

/-! ## Levels on clocks -/

/-- The levels of the master on `n` clocks from clock `c` on. -/
def clockLevels (c n : ℕ) : List Level := (List.range n).map fun j => (after g slave (c + j)).fsm.level

theorem clockLevels_succ (c n : ℕ) : clockLevels g slave c (n + 1) =
    clockLevels g slave c n ++ [(after g slave (c + n)).fsm.level] := by
  rw [clockLevels, List.range_succ, List.map_append]
  rfl

/-- On the clocks of its ticks the master holds each of its levels for a whole period. -/
theorem clockLevels_ticks (k n : ℕ) : clockLevels g slave (g.cDiv * (k + 1)) (g.cDiv * n + 1) =
    (atTick g slave k).fsm.level :: (Fsm.master.emitted (atTick g slave k).fsm
      (fun j => tickInputs g slave (k + j)) n).flatMap (List.replicate g.cDiv) := by
  induction n with
  | zero => rfl
  | succ n ih =>
    have held : ∀ j ∈ List.range g.cDiv, (after g slave (g.cDiv * (k + 1) + (g.cDiv * n + 1 + j))).fsm.level =
        (atTick g slave (k + (n + 1))).fsm.level := by
      intro j member
      have bound := List.mem_range.mp member
      have this_tick : g.cDiv * (k + (n + 1)) = g.cDiv * (k + 1) + g.cDiv * n := by ring
      have next_tick : g.cDiv * (k + (n + 1) + 1) = g.cDiv * (k + 1) + g.cDiv * n + g.cDiv := by ring
      exact congrArg Fsm.level (fsm_between g slave (by omega) (by omega))
    have block : (List.range g.cDiv).map (fun j =>
        (after g slave (g.cDiv * (k + 1) + (g.cDiv * n + 1 + j))).fsm.level) =
          List.replicate g.cDiv (atTick g slave (k + (n + 1))).fsm.level := by
      rw [List.map_congr_left held, List.map_const', List.length_range]
    have length : g.cDiv * (n + 1) + 1 = g.cDiv * n + 1 + g.cDiv := by ring
    rw [length, clockLevels, List.range_add, List.map_append, ← clockLevels, ih, List.map_map,
      Function.comp_def, block, Mealy.emitted, List.flatMap_append, fsm_atTick_add]
    simp [Fsm.master, run_succ]

/-- The boot wait is over after its time. -/
theorem bootDone_after (wait : 0 < g.tbootDiv) (n : ℕ) :
    (after g slave n).bootDone = decide (g.tbootDiv ≤ n) ∧
      (n < g.tbootDiv → (after g slave n).tbootCnt = n) := by
  induction n with
  | zero => exact ⟨by simp [after, reset]; omega, fun _ => rfl⟩
  | succ n ih =>
    obtain ⟨done, count⟩ := ih
    have next : (after g slave (n + 1)).bootDone =
        ((after g slave n).bootDone || (after g slave n).tbootCnt = g.tbootDiv - 1) := rfl
    have count' : (after g slave (n + 1)).tbootCnt = if (after g slave n).bootDone then
        (after g slave n).tbootCnt else if (after g slave n).tbootCnt = g.tbootDiv - 1 then 0
        else (after g slave n).tbootCnt + 1 := rfl
    rcases Nat.lt_or_ge n g.tbootDiv with below | above
    · have waiting : ¬ g.tbootDiv ≤ n := by omega
      rw [next, count', done, count below]
      simp only [waiting, decide_false, Bool.false_or]
      constructor
      · exact decide_eq_decide.mpr (by omega)
      · intro still
        rw [if_neg Bool.false_ne_true, if_neg (by omega)]
    · refine ⟨?_, by omega⟩
      rw [next, done]
      simp [above, Nat.le_succ_of_le above]

end Telecran.Model.Adxl
