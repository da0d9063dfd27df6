import Telecran.Proofs.AdxlStart

/-! # When the master can come to its idle state

A refused init write is begun again, 41 ticks later when the address was refused and 69 ticks later
when the register was. A slave can refuse as often as it likes, so it decides how many ticks after
the boot wait the master is idle for the first time: any number is possible from some point on.
-/

namespace Telecran.Model.Adxl

open Machine Bus

namespace Fsm

variable {s : Fsm} {input : ℕ → TickIn}

/-- An init write samples the acknowledge of the register on tick 58. -/
theorem initSelect_acking (here : At .iWStart s) (acked : (input 30).sdaIn = false) :
    run tick s input 58 =
      ((s.initAddressed false).transmit (s.initAddressed false).curReg .iWVal).acking := by
  have address : master.Segment _ s input _ _ _ := initAddress_run here
  have first : run tick s input 32 = s.initAddressed false := acked ▸ address.last
  change run tick s input (32 + 26) = _
  rw [run_add, first]
  exact transmit_acking rfl rfl ⟨rfl, rfl, rfl⟩

/-- A refused init write is given up and begun again. -/
theorem retry_run (here : At .iWReg s ∨ At .iWVal s) (refused : s.ackNack = true) :
    At .iWStart (run tick s input 9) ∧ (run tick s input 9).initStep = s.initStep := by
  have stop : s.high (input 0) = s.stop .iWStop := by
    rcases here with here | here <;> simp only [high, here.1, refused, if_true]
  have ready : s.ll = .none := by
    rcases here with here | here <;> exact here.2
  let u := (s.stop .iWStop).stopped
  let v := (u.stop .iNext).stopped
  have first : master.Segment _ s input 4 _ u :=
    call_run (c := .stop) ready stop rfl ⟨rfl, rfl, rfl⟩ rfl
  have second : master.Segment _ u (fun k => input (4 + k)) 4 _ v :=
    call_run (c := .stop) rfl rfl rfl ⟨rfl, rfl, rfl⟩ rfl
  have again : v.tick (input 8) = { v with st := .iWStart } := by
    have quiet : v.ll = .none := rfl
    rw [tick, if_pos quiet]
    exact if_pos refused
  have last : run tick s input 9 = { v with st := .iWStart } := by
    change run tick s input (4 + 4 + 1) = _
    rw [run_succ, run_add, show run tick s input 4 = _ from first.last,
      show run tick u _ 4 = _ from second.last]
    exact again
  rw [last]
  exact ⟨⟨rfl, rfl⟩, rfl⟩

/-- The address of an init write is refused. -/
theorem refused_address (here : At .iWStart s) (refused : (input 30).sdaIn = true) :
    At .iWStart (run tick s input 41) ∧ (run tick s input 41).initStep = s.initStep := by
  have address : master.Segment _ s input _ _ _ := initAddress_run here
  have first : run tick s input 32 = s.initAddressed true := refused ▸ address.last
  change At _ (run tick s input (32 + 9)) ∧ (run tick s input (32 + 9)).initStep = _
  rw [run_add, first]
  exact retry_run (.inl ⟨rfl, rfl⟩) rfl

/-- The register of an init write is refused. -/
theorem refused_register (here : At .iWStart s) (acked : (input 30).sdaIn = false)
    (refused : (input 58).sdaIn = true) :
    At .iWStart (run tick s input 69) ∧ (run tick s input 69).initStep = s.initStep := by
  have address : master.Segment _ s input _ _ _ := initAddress_run here
  have first : run tick s input 32 = s.initAddressed false := acked ▸ address.last
  have select : master.Segment _ (s.initAddressed false) (fun k => input (32 + k)) _ _ _ :=
    initSelect_run ⟨rfl, rfl⟩ rfl
  have second : run tick (s.initAddressed false) (fun k => input (32 + k)) 28 =
      (s.initAddressed false).initSelected true := refused ▸ select.last
  change At _ (run tick s input (32 + (28 + 9))) ∧ (run tick s input (32 + (28 + 9))).initStep = _
  rw [run_add, first, run_add, second]
  exact retry_run (.inr ⟨rfl, rfl⟩) rfl

end Fsm

/-! ## Slaves that choose what to refuse -/

/-- A slave that changes its ways on clock `c`. -/
def splice (c : ℕ) (early late : ℕ → Bool) (n : ℕ) : Bool := if n < c then early n else late n

section Slaves

variable (g : Generics) (early late : ℕ → Bool)

theorem after_splice {c n : ℕ} (bound : n ≤ c) :
    after g (splice c early late) n = after g early n :=
  run_congr fun _ below => if_pos (by omega)

/-- Tick `k` finds what the slave did before the tick. -/
theorem atTick_splice (k : ℕ) :
    (atTick g (splice (g.cDiv * k + 1) early late) k).fsm = (atTick g early k).fsm := by
  have positive := g.cDiv_pos
  have length : g.cDiv * (k + 1) = g.cDiv * k + g.cDiv := Nat.mul_succ ..
  have place := fun slave => fsm_between g slave (show g.cDiv * k < g.cDiv * k + 1 by omega)
    (show g.cDiv * k + 1 ≤ g.cDiv * (k + 1) by omega)
  rw [← place, ← place, after_splice g early late le_rfl]

/-- From tick `k` on the master samples the later slave. -/
theorem sample_splice (slow : 1 < g.cDiv) (k j : ℕ) :
    (tickInputs g (splice (g.cDiv * k + 1) early late) (k + j)).sdaIn =
      (late (g.cDiv * (k + j + 1) - 1) &&
        !(atTick g (splice (g.cDiv * k + 1) early late) (k + j)).fsm.sdaOe) := by
  have length : g.cDiv * (k + j + 1) = g.cDiv * k + g.cDiv * j + g.cDiv := by ring
  have above : ¬ g.cDiv * (k + j + 1) - 1 < g.cDiv * k + 1 := by
    have := Nat.zero_le (g.cDiv * j)
    omega
  rw [sdaIn_atTick g _ slow, splice, if_neg above]

end Slaves

/-- With some slave the first init write begins on tick `k`. -/
def Begins (g : Generics) (k : ℕ) : Prop :=
  ∃ slave, Fsm.At .iWStart (atTick g slave k).fsm ∧ (atTick g slave k).fsm.initStep = 0

namespace Begins

variable {g : Generics} {k : ℕ}

/-- It begins when the boot wait is over. -/
theorem booted (wait : 0 < g.tbootDiv) : ∃ k, Begins g k := by
  have late : ∃ k, g.tbootDiv ≤ g.cDiv * (k + 1) :=
    ⟨g.tbootDiv, (Nat.le_succ _).trans (Nat.le_mul_of_pos_left _ g.cDiv_pos)⟩
  have early : g.cDiv * Nat.find late < g.tbootDiv := by
    cases place : Nat.find late with
    | zero => exact wait
    | succ k => exact Nat.lt_of_not_le (Nat.find_min late (by omega))
  have start : (atTick g (fun _ => true) (Nat.find late + 1)).fsm = _ :=
    booted_first early (Nat.find_spec late)
  exact ⟨_, _, by rw [start]; exact ⟨rfl, rfl⟩, by rw [start]; rfl⟩

/-- The slave refuses the address. -/
theorem address (slow : 1 < g.cDiv) (begins : Begins g k) : Begins g (k + 41) := by
  obtain ⟨slave, here, step⟩ := begins
  have same := atTick_splice g slave (fun _ => true) k
  rw [← same] at here step
  have refused := sample_splice g slave (fun _ => true) slow k 30
  rw [fsm_atTick_add, (Fsm.initAddresses here).acking] at refused
  refine ⟨splice (g.cDiv * k + 1) slave fun _ => true, ?_⟩
  rw [fsm_atTick_add g _ k 41, ← step]
  exact Fsm.refused_address here refused

/-- The slave acknowledges the address and refuses the register. -/
theorem register (slow : 1 < g.cDiv) (begins : Begins g k) : Begins g (k + 69) := by
  obtain ⟨slave, here, step⟩ := begins
  let late : ℕ → Bool := fun n => decide (n ≠ g.cDiv * (k + 30 + 1) - 1)
  have same := atTick_splice g slave late k
  rw [← same] at here step
  have acked := sample_splice g slave late slow k 30
  rw [show late (g.cDiv * (k + 30 + 1) - 1) = false from decide_eq_false (not_not_intro rfl),
    Bool.false_and] at acked
  have other : g.cDiv * (k + 58 + 1) - 1 ≠ g.cDiv * (k + 30 + 1) - 1 := by
    have first : g.cDiv * (k + 30 + 1) = g.cDiv * k + g.cDiv * 31 := by ring
    have second : g.cDiv * (k + 58 + 1) = g.cDiv * k + g.cDiv * 59 := by ring
    omega
  have refused := sample_splice g slave late slow k 58
  rw [fsm_atTick_add, Fsm.initSelect_acking here acked,
    show late (g.cDiv * (k + 58 + 1) - 1) = true from decide_eq_true other] at refused
  refine ⟨splice (g.cDiv * k + 1) slave late, ?_⟩
  rw [fsm_atTick_add g _ k 69, ← step]
  exact Fsm.refused_register here acked refused

/-- Every large number is a sum of 41s and 69s. -/
theorem later (slow : 1 < g.cDiv) (begins : Begins g k) {n : ℕ} (far : 2760 ≤ n) :
    Begins g (k + n) := by
  have addresses : ∀ a, Begins g (k + 41 * a) := by
    intro a
    induction a with
    | zero => exact begins
    | succ a ih => exact ih.address slow
  have registers : ∀ a b, Begins g (k + 41 * a + 69 * b) := by
    intro a b
    induction b with
    | zero => exact addresses a
    | succ b ih => exact ih.register slow
  -- 69 * 22 leaves 1 modulo 41
  have sum : k + 41 * ((n - 69 * (22 * n % 41)) / 41) + 69 * (22 * n % 41) = k + n := by omega
  exact sum ▸ registers _ _

/-- A slave that acknowledges everything afterwards brings the master to its idle state. -/
theorem idle (slow : 1 < g.cDiv) (begins : Begins g k) : ∃ slave,
    Fsm.At .idle (atTick g slave (k + 403)).fsm ∧ (atTick g slave (k + 403)).fsm.readyI = true := by
  obtain ⟨slave, here, step⟩ := begins
  have same := atTick_splice g slave (fun _ => false) k
  rw [← same] at here step
  obtain ⟨idle, ready, -⟩ := setup_at here step fun j _ => sample_splice g slave (fun _ => false) slow k j
  exact ⟨_, idle, ready⟩

end Begins

/-- On every tick from some tick on the master can be idle and ready. -/
theorem idle_possible {g : Generics} (slow : 1 < g.cDiv) (wait : 0 < g.tbootDiv) :
    ∃ first, ∀ k ≥ first, ∃ slave,
      Fsm.At .idle (atTick g slave k).fsm ∧ (atTick g slave k).fsm.readyI = true := by
  obtain ⟨k, begins⟩ := Begins.booted wait
  refine ⟨k + 2760 + 403, fun n later => ?_⟩
  have idle := (begins.later slow (n := n - 403 - k) (by omega)).idle slow
  rwa [show k + (n - 403 - k) + 403 = n by omega] at idle

end Telecran.Model.Adxl
