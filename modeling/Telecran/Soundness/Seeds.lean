import Mathlib.Tactic.NormNum.Prime
import Telecran.Signal.XorLinear
import Telecran.Soundness.Placement
import Telecran.Soundness.Progress

/-! # No level is rolled twice

The random register moves once for each level that is generated and never otherwise. Its feedback has
the longest possible period: 65535 levels in a row are rolled from different seeds, which are all the
words but zero.
-/

namespace Telecran.Soundness.Seeds

open Function Machine Model Placement Progress Signal

/-! ## The feedback -/

theorem lfsrNext_bit (l : BitVec 16) (i : ℕ) : (lfsrNext l).getLsbD i =
    if i = 0 then l.getLsbD 15 ^^ l.getLsbD 13 ^^ l.getLsbD 12 ^^ l.getLsbD 10
    else decide (i < 16) && l.getLsbD (i - 1) := by
  have parts : (lfsrNext l).getLsbD i = _ := BitVec.getLsbD_append
  rw [parts, BitVec.getLsbD_extractLsb', BitVec.getLsbD_ofBool]
  cases i with
  | zero => simp
  | succ i =>
    have range : decide (i < 15) = decide (i + 1 < 16) := decide_eq_decide.mpr (by omega)
    simp [range]

theorem lfsrNext_xor : XorLinear lfsrNext := by
  intro a b
  refine BitVec.eq_of_getLsbD_eq fun i bound => ?_
  simp only [lfsrNext_bit, BitVec.getLsbD_xor]
  split_ifs
  · simp only [Bool.xor_assoc, Bool.xor_left_comm]
  · exact Bool.and_xor_distrib_left ..

theorem lfsrNext_ne_zero {l : BitVec 16} (other : l ≠ 0) : lfsrNext l ≠ 0 := by
  intro zero
  have bit (i : ℕ) : (lfsrNext l).getLsbD i = false := by
    rw [zero]
    exact BitVec.getLsbD_zero
  have low (i : ℕ) (bound : i < 15) : l.getLsbD i = false := by
    have next := bit (i + 1)
    rw [lfsrNext_bit, if_neg i.succ_ne_zero, decide_eq_true (by omega), Bool.true_and] at next
    exact next
  refine other (BitVec.eq_of_getLsbD_eq fun i bound => ?_)
  rw [show (0 : BitVec 16).getLsbD i = false from BitVec.getLsbD_zero]
  rcases Nat.lt_or_ge i 15 with below | top
  · exact low i below
  · obtain rfl : i = 15 := by omega
    have feedback := bit 0
    rwa [lfsrNext_bit, if_pos rfl, low 13 (by omega), low 12 (by omega), low 10 (by omega), Bool.xor_false,
      Bool.xor_false, Bool.xor_false] at feedback

theorem seedAt_ne_zero (k : ℕ) : seedAt k ≠ 0 := by
  induction k with
  | zero => decide
  | succ k ih =>
    rw [seedAt, iterate_succ_apply']
    exact lfsrNext_ne_zero ih

/-! ## The period -/

private theorem seedAt_bits (bits : List Bool) :
    seedAt (Nat.ofDigits 2 (bits.map Bool.toNat)) = jump 0xACE1 (tableOf lfsrNext) bits := by
  have table : Tabulates (tableOf lfsrNext) lfsrNext^[1] := tabulates_tableOf lfsrNext_xor
  rw [jump_eq lfsrNext_xor table, one_mul, seedAt]

private theorem prime_part {p : ℕ} (prime : p.Prime) (divides : p ∣ 65535) :
    p = 3 ∨ p = 5 ∨ p = 17 ∨ p = 257 := by
  have parts : p ∣ 3 * 5 * 17 * 257 := divides
  rwa [prime.dvd_mul, prime.dvd_mul, prime.dvd_mul, Nat.prime_dvd_prime_iff_eq prime (by norm_num),
    Nat.prime_dvd_prime_iff_eq prime (by norm_num), Nat.prime_dvd_prime_iff_eq prime (by norm_num),
    Nat.prime_dvd_prime_iff_eq prime (by norm_num), or_assoc, or_assoc] at parts

/-- Groups of `n` equal bits, the first ones set. -/
private def stripes (n m : ℕ) : List Bool :=
  (List.replicate m (List.replicate n true ++ List.replicate n false)).flatten

/-- The register comes back after 65535 steps and not before. -/
theorem lfsr_period : minimalPeriod lfsrNext 0xACE1 = 65535 := by
  have moved (bits : List Bool) (other : jump 0xACE1 (tableOf lfsrNext) bits ≠ 0xACE1) :
      ¬ IsPeriodicPt lfsrNext (Nat.ofDigits 2 (bits.map Bool.toNat)) 0xACE1 :=
    fun returns => other ((seedAt_bits bits).symm.trans returns)
  refine minimalPeriod_of_primes ?_ fun p prime divides => ?_
  · exact (seedAt_bits (List.replicate 16 true)).trans (by decide +kernel)
  · rcases prime_part prime divides with rfl | rfl | rfl | rfl
    · exact moved (stripes 1 8) (by decide +kernel)
    · exact moved (stripes 2 4) (by decide +kernel)
    · exact moved (stripes 4 2) (by decide +kernel)
    · exact moved (stripes 8 1) (by decide +kernel)

theorem seedAt_eq_iff (j k : ℕ) : seedAt j = seedAt k ↔ j % 65535 = k % 65535 := by
  have bound (n : ℕ) : n % 65535 < minimalPeriod lfsrNext 0xACE1 := by
    rw [lfsr_period]
    exact Nat.mod_lt _ (by decide)
  have reduced (n : ℕ) : seedAt (n % 65535) = seedAt n := by
    rw [seedAt, seedAt, ← lfsr_period, iterate_mod_minimalPeriod_eq]
  rw [← reduced j, ← reduced k]
  exact iterate_eq_iterate_iff_of_lt_minimalPeriod (bound j) (bound k)

/-! ## Runs -/

private theorem sweep_lfsr {e : Engine} {picture : ℤ → ℤ → Pixel} {done : Engine → Engine}
    (keeps : ∀ e', (done e').lfsr = e'.lfsr) : (e.sweep picture done).lfsr = e.lfsr := by
  unfold Engine.sweep
  dsimp only
  split_ifs
  · exact keeps _
  · rfl

private theorem active_lfsr (e : Engine) (i : EngineIn) :
    (e.active i).lfsr = if e.st = .levelGen then lfsrNext e.lfsr else e.lfsr := by
  have scanned (next : St) (x y : ℤ) (data : Pixel) : ((e.paintCell x y data).scanBox next).lfsr = e.lfsr := by
    obtain ⟨we, addr, d, frame⟩ := Engine.paintCell_frame x y data e
    rw [frame]
    unfold Engine.scanBox
    split_ifs <;> rfl
  have waited (level : ℕ) : (e.msgWait level i).lfsr = e.lfsr := by
    unfold Engine.msgWait
    split_ifs <;> rfl
  unfold Engine.active
  cases here : e.st
  case levelGen => rfl
  case runIdle =>
    rw [if_neg (by simp)]
    dsimp only [Engine.runIdle]
    split_ifs <;> rfl
  case eraseBall => exact scanned _ _ _ _
  case drawBall => exact scanned _ _ _ _
  case winMsgWait => exact waited _
  case loseMsgWait => exact waited _
  case quitMsgWait => exact waited _
  all_goals exact sweep_lfsr fun _ => rfl

/-- The random register moves when a level is generated. -/
theorem lfsr_clock (e : Engine) (i : EngineIn) : (e.clock i).lfsr =
    if e.accepts i = false ∧ e.st = .levelGen then lfsrNext e.lfsr else e.lfsr := by
  cases accepted : e.accepts i with
  | true =>
    rw [Engine.clock, if_pos accepted, if_neg fun deals => Bool.false_ne_true deals.1.symm]
  | false =>
    rw [Engine.clock_of_ignored accepted, active_lfsr]
    simp only [true_and]

section Run

variable (e : Engine) (input : ℕ → EngineIn)

/-- A level is generated on clock `n`. -/
def Deals (n : ℕ) : Prop := (after e input n).accepts (input n) = false ∧ (after e input n).st = .levelGen

instance : DecidablePred (Deals e input) := fun _ => inferInstanceAs (Decidable (_ ∧ _))

/-- Levels generated before clock `n`. -/
def dealsBefore (n : ℕ) : ℕ := Nat.count (Deals e input) n

/-- The register counts the levels. -/
theorem lfsr_after (n : ℕ) : (after e input n).lfsr = seedAt (dealsBefore e input n) := by
  induction n with
  | zero => rfl
  | succ n ih =>
    have law : (after e input (n + 1)).lfsr =
        if Deals e input n then lfsrNext (after e input n).lfsr else (after e input n).lfsr := lfsr_clock ..
    rw [law, dealsBefore, Nat.count_succ, ih]
    by_cases deals : Deals e input n
    · rw [if_pos deals, if_pos deals]
      exact (iterate_succ_apply' ..).symm
    · rw [if_neg deals, if_neg deals, Nat.add_zero, dealsBefore]

private theorem deals_layout {n : ℕ} (deals : Deals e input n) : (after e input (n + 1)).layout =
    genLayout (after e input n).level (seedAt (dealsBefore e input n)) := by
  rw [after_succ, Engine.clock_of_ignored deals.1, ← lfsr_after]
  simp only [Engine.active, deals.2]
  rfl

/-- Whatever the inputs, level `k` of a run is rolled from seed `k`. The seeds are the words other than
zero, each of them once in any 65535 levels. -/
theorem levels_rolled_apart :
    (∀ n, Deals e input n → (after e input (n + 1)).layout =
      genLayout (after e input n).level (seedAt (dealsBefore e input n))) ∧
    (∀ n, (after e input n).lfsr = seedAt (dealsBefore e input n)) ∧
    (∀ j k, seedAt j = seedAt k ↔ j % 65535 = k % 65535) ∧
    ∀ seed, seed ≠ 0 ↔ ∃ k < 65535, seedAt k = seed := by
  refine ⟨fun n => deals_layout e input, lfsr_after e input, seedAt_eq_iff, fun seed => ⟨fun other => ?_, ?_⟩⟩
  · exact exists_iterate_of_period lfsr_period seedAt_ne_zero other
  · rintro ⟨k, -, rfl⟩
    exact seedAt_ne_zero k

end Run

end Telecran.Soundness.Seeds
