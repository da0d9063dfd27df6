import Telecran.Proofs.AdxlRead
import Telecran.Proofs.AdxlStart

/-! # Failed reads of the accelerometer

A read whose address is refused leaves the outputs as they were. The acknowledges of the register
and of the second address are not looked at: the read goes on, and the outputs take whatever the
bus carries.
-/

namespace Telecran.Soundness.FailedRead

open Machine Model Adxl

section Condition

variable {g : Generics} {slave : ℕ → Bool} (r : Read g slave)

/-- Back in `ST_IDLE` the outputs are those from before the read. -/
def Preserved : Prop := r.idle.oAx = r.before.oAx ∧ r.idle.oAy = r.before.oAy

/-- The acknowledge of the device address with the write bit is missing. -/
def AddressRefused : Prop := (r.input 30).sdaIn = true

/-- The levels sampled as the first four data bytes repeat the outputs. -/
def SameBytes : Prop := r.burst 1 ++ r.burst 0 = r.before.oAx ∧ r.burst 3 ++ r.burst 2 = r.before.oAy

theorem preserved_iff : Preserved r ↔ AddressRefused r ∨ SameBytes r := by
  cases acked : (r.input 30).sdaIn with
  | true => exact ⟨fun _ => Or.inl acked, fun _ => (r.refused acked).2⟩
  | false =>
    obtain ⟨-, x, y⟩ := r.taken acked
    have given : ¬ AddressRefused r := fun refused => Bool.false_ne_true (acked.symm.trans refused)
    rw [Preserved, x, y]
    exact ⟨Or.inr, fun same => same.resolve_left given⟩

/-- A read keeps the outputs when a transmitted byte is refused, if and only if no byte is, or the
first one is, or the bytes sampled all the same are the ones the outputs show already. -/
theorem failed_preserved_iff :
    (r.Failed → Preserved r) ↔ ¬ r.Failed ∨ AddressRefused r ∨ SameBytes r := by
  rw [preserved_iff]
  exact imp_iff_not_or

end Condition

/-! ## A slave that stops answering -/

/-- The slave pulls SDA low until the address of the first read is acknowledged, and is silent then. -/
def silenced (n : ℕ) : Bool := decide (125 * 60031 ≤ n)

theorem silenced_low {k : ℕ} (early : k ≤ 60030) : (tickInputs defaults silenced k).sdaIn = false :=
  sdaIn_defaults (decide_eq_false (by omega))

theorem silenced_start : Fsm.At .rStartw (atTick defaults silenced 60000).fsm ∧
    (atTick defaults silenced 60000).fsm.oAx = 0 :=
  first_read fun _ bound => silenced_low (by omega)

/-- Every data byte is read off the released line. -/
theorem silenced_burst {r : Read defaults silenced} (first : r.first = 60000) {j : ℕ} (byte : j < 6) :
    r.burst j = 0xFF := by
  have acked : (r.input 30).sdaIn = false := by
    rw [Read.input, first]
    exact silenced_low le_rfl
  rw [Read.burst, Fsm.dataByte]
  refine Fsm.sampled_eq fun i bit => ?_
  have all : ∀ i < 8, (0xFF : BitVec 8).getLsbD (7 - i) = true := by decide
  have late := Fsm.byteTick_eq (3 * i + 2) j
  have sample := r.sample_eq (by simp) acked byte bit
  rw [first, defaults_cDiv] at sample
  rw [all i bit]
  exact sample.trans (decide_eq_true (by omega))

/-- The register of the first read is refused, and the outputs go from zero to the released line. -/
theorem silenced_overwrites : ∃ r : Read defaults silenced, r.Failed ∧ ¬ Preserved r := by
  obtain ⟨r, first⟩ := Read.exists_first silenced_start.1
  have acked : (r.input 30).sdaIn = false := by
    rw [Read.input, first]
    exact silenced_low le_rfl
  obtain ⟨length, taken, -⟩ := r.taken acked
  refine ⟨r, ⟨r.first + 58, Nat.le_add_right .., by omega, ?_, ?_⟩, ?_⟩
  · rw [r.fsm_add, Fsm.readRegister_acking (s := r.before) r.starts acked]
    rfl
  · rw [sdaIn_atTick _ _ (by simp), r.fsm_add,
      Fsm.readRegister_acking (s := r.before) r.starts acked, first, defaults_cDiv]
    exact congrArg₂ and (decide_eq_true (by omega)) rfl
  · rintro ⟨same, -⟩
    rw [taken, silenced_burst first (by decide), silenced_burst first (by decide), Read.before, first,
      silenced_start.2] at same
    exact absurd same (by decide)

end Telecran.Soundness.FailedRead
