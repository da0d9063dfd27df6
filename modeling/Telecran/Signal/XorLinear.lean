import Mathlib.Data.Finset.Card
import Mathlib.Data.Nat.Digits.Defs
import Mathlib.Data.Nat.Prime.Basic
import Mathlib.Dynamics.PeriodicPts.Defs

/-! # Xor-linear maps of words

A map that is linear for xor is given by the table of its images of the single bits. The table after
`2 * n` steps is the table after `n` steps mapped by itself, so a few squarings compute any iterate;
with them the period of a linear feedback shift register can be decided. Nothing here depends on a
particular register.
-/

namespace Telecran.Signal

open Function

variable {w : ℕ}

def XorLinear (f : BitVec w → BitVec w) : Prop := ∀ a b, f (a ^^^ b) = f a ^^^ f b

namespace XorLinear

variable {f g : BitVec w → BitVec w}

theorem zero (linear : XorLinear f) : f 0 = 0 := by
  have twice := linear 0 0
  rwa [BitVec.xor_self, BitVec.xor_self] at twice

theorem ite (linear : XorLinear f) (b : Bool) (m : BitVec w) :
    f (if b then m else 0) = if b then f m else 0 := by
  cases b with
  | false => exact linear.zero
  | true => rfl

theorem iterate (linear : XorLinear f) (n : ℕ) : XorLinear f^[n] := by
  induction n with
  | zero => exact fun _ _ => rfl
  | succ n ih =>
    intro a b
    rw [iterate_succ_apply, linear, ih, ← iterate_succ_apply, ← iterate_succ_apply]

end XorLinear

/-! ## Tables -/

/-- The sum of the entries that the bits of `x` from `i` on select. -/
def look (x : BitVec w) : List (BitVec w) → ℕ → BitVec w
  | [], _ => 0
  | m :: table, i => (if x.getLsbD i then m else 0) ^^^ look x table (i + 1)

/-- The images of the single bits. -/
def tableOf (f : BitVec w → BitVec w) : List (BitVec w) :=
  (List.range w).map fun i => f (BitVec.twoPow w i)

def square (table : List (BitVec w)) : List (BitVec w) := table.map fun m => look m table 0

/-- The table gives the map. -/
def Tabulates (table : List (BitVec w)) (f : BitVec w → BitVec w) : Prop := ∀ x, look x table 0 = f x

theorem look_map {f : BitVec w → BitVec w} (linear : XorLinear f) (x : BitVec w)
    (table : List (BitVec w)) (i : ℕ) : look x (table.map f) i = f (look x table i) := by
  induction table generalizing i with
  | nil => exact linear.zero.symm
  | cons m table ih => rw [List.map_cons, look, look, linear, ih, linear.ite]

private theorem look_bits (x : BitVec w) (n i j : ℕ) :
    (look x ((List.range' i n).map (BitVec.twoPow w)) i).getLsbD j =
      (x.getLsbD j && decide (i ≤ j ∧ j < i + n)) := by
  induction n generalizing i with
  | zero => simp [look]
  | succ n ih =>
    have entry : (if x.getLsbD i then BitVec.twoPow w i else 0#w).getLsbD j =
        (x.getLsbD j && decide (i = j)) := by
      by_cases same : i = j
      · subst same
        cases bit : x.getLsbD i with
        | false => simp
        | true => simp [BitVec.lt_of_getLsbD bit]
      · split_ifs <;> simp [BitVec.getLsbD_twoPow, same]
    have rest : (decide (i ≤ j ∧ j < i + (n + 1))) =
        (decide (i = j) ^^ decide (i + 1 ≤ j ∧ j < i + 1 + n)) := by
      by_cases same : i = j
      · simp [same]
      · simp only [same, decide_false, Bool.false_xor, decide_eq_decide]
        omega
    rw [List.range'_succ, List.map_cons, look, BitVec.getLsbD_xor, ih, rest, Bool.and_xor_distrib_left]
    congr 1

theorem tabulates_tableOf {f : BitVec w → BitVec w} (linear : XorLinear f) : Tabulates (tableOf f) f := by
  intro x
  have bits : look x ((List.range' 0 w).map (BitVec.twoPow w)) 0 = x := by
    refine BitVec.eq_of_getLsbD_eq fun j bound => ?_
    rw [look_bits]
    simp [bound]
  have table : tableOf f = ((List.range' 0 w).map (BitVec.twoPow w)).map f := by
    rw [tableOf, List.range_eq_range', List.map_map]
    rfl
  rw [table, look_map linear, bits]

theorem Tabulates.square {f : BitVec w → BitVec w} {table : List (BitVec w)} {n : ℕ}
    (linear : XorLinear f) (tabulates : Tabulates table f^[n]) : Tabulates (square table) f^[n * 2] := by
  intro x
  have same : (fun m => look m table 0) = f^[n] := funext tabulates
  rw [Signal.square, same, look_map (linear.iterate n), tabulates, mul_two, iterate_add_apply]

/-- As many steps as the bits say, lowest bit first. -/
def jump (x : BitVec w) : List (BitVec w) → List Bool → BitVec w
  | _, [] => x
  | table, b :: bits => jump (if b then look x table 0 else x) (square table) bits

theorem jump_eq {f : BitVec w → BitVec w} {table : List (BitVec w)} {n : ℕ} (linear : XorLinear f)
    (tabulates : Tabulates table f^[n]) (x : BitVec w) (bits : List Bool) :
    jump x table bits = f^[n * Nat.ofDigits 2 (bits.map Bool.toNat)] x := by
  induction bits generalizing x table n with
  | nil => rfl
  | cons b bits ih =>
    rw [jump, ih (tabulates.square linear), List.map_cons, Nat.ofDigits_cons, mul_add, add_comm (n * _),
      iterate_add_apply, mul_assoc]
    congr 1
    cases b with
    | false => simp
    | true => simpa using tabulates x

/-! ## Periods -/

/-- A period of which no prime part is a period is the least one. -/
theorem minimalPeriod_of_primes {A : Type*} {f : A → A} {x : A} {n : ℕ}
    (periodic : IsPeriodicPt f n x) (proper : ∀ p, p.Prime → p ∣ n → ¬ IsPeriodicPt f (n / p) x) :
    minimalPeriod f x = n := by
  obtain ⟨c, whole⟩ := periodic.minimalPeriod_dvd
  by_contra other
  have more : c ≠ 1 := by
    rintro rfl
    exact other (whole.trans (mul_one _)).symm
  obtain ⟨p, prime, d, rfl⟩ := Nat.exists_prime_and_dvd more
  refine proper p prime ⟨minimalPeriod f x * d, by rw [whole]; ring⟩ ?_
  rw [isPeriodicPt_iff_minimalPeriod_dvd]
  refine ⟨d, Nat.div_eq_of_eq_mul_left prime.pos ?_⟩
  rw [whole]
  ring

/-- An orbit that is as long as there are words other than zero goes through all of them. -/
theorem exists_iterate_of_period {f : BitVec w → BitVec w} {x : BitVec w}
    (full : minimalPeriod f x = 2 ^ w - 1) (apart : ∀ n, f^[n] x ≠ 0) {y : BitVec w}
    (other : y ≠ 0) : ∃ n < 2 ^ w - 1, f^[n] x = y := by
  have maps : Set.MapsTo (fun n => (f^[n] x).toNat) (Finset.range (2 ^ w - 1))
      ((Finset.range (2 ^ w)).erase 0) := by
    intro n _
    simp only [Finset.coe_erase, Finset.coe_range, Set.mem_sdiff, Set.mem_Iio, Set.mem_singleton_iff]
    exact ⟨BitVec.isLt _, fun zero => apart n (BitVec.eq_of_toNat_eq zero)⟩
  have injective : Set.InjOn (fun n => (f^[n] x).toNat) (Finset.range (2 ^ w - 1)) := by
    intro m hm n hn same
    rw [Finset.coe_range, ← full] at hm hn
    exact iterate_injOn_Iio_minimalPeriod hm hn (BitVec.eq_of_toNat_eq same)
  have size : ((Finset.range (2 ^ w)).erase 0).card ≤ (Finset.range (2 ^ w - 1)).card := by
    rw [Finset.card_erase_of_mem (by simp), Finset.card_range, Finset.card_range]
  obtain ⟨n, bound, same⟩ := Finset.surjOn_of_injOn_of_card_le _ maps injective size
    (show y.toNat ∈ _ by simpa [BitVec.isLt] using fun zero => other (BitVec.eq_of_toNat_eq zero))
  exact ⟨n, by simpa using bound, BitVec.eq_of_toNat_eq same⟩

end Telecran.Signal
