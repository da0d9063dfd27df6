import Mathlib.Algebra.Order.Ring.Int
import Mathlib.Data.BitVec
import Telecran.Machine.Run

/-! # Range and index checks

A simulator stops when a value leaves the range of the signal it is assigned to, when an index
leaves its array, or when a conversion does not fit. Checked operations return nothing in these
cases, and a checked machine that always returns the step of the plain one makes the same run.
Nothing here depends on a particular machine.
-/

namespace Telecran.Machine

/-- Assignment to an integer signal of range `lo` to `hi`. -/
def ranged (lo hi v : ℤ) : Option ℤ := if lo ≤ v ∧ v ≤ hi then some v else none

/-- Assignment to a natural signal of range `lo` to `hi`. -/
def natural (lo hi : ℕ) (v : ℤ) : Option ℕ := if lo ≤ v ∧ v ≤ hi then some v.toNat else none

/-- An element of an array that starts with index zero. -/
def element {α : Type*} (l : List α) (i : ℤ) : Option α := if 0 ≤ i then l[i.toNat]? else none

/-- A bit of a vector that ends with bit zero. -/
def bitAt {w : ℕ} (v : BitVec w) (i : ℤ) : Option Bool :=
  if 0 ≤ i ∧ i < w then some (v.getLsbD i.toNat) else none

/-- A natural number as a vector it has to fit into. -/
def toUnsigned (w n : ℕ) : Option (BitVec w) := if n < 2 ^ w then some (BitVec.ofNat w n) else none

/-- A vector as a number, which has to be an integer of 32 bits. -/
def toInteger {w : ℕ} (v : BitVec w) : Option ℤ := if v.toNat < 2 ^ 31 then some v.toNat else none

/-- The remainder by a natural number, which has to fit into the vector. -/
def modNatural {w : ℕ} (v : BitVec w) (n : ℕ) : Option (BitVec w) := toUnsigned w (v.toNat % n)

section Success

theorem ranged_eq {lo hi v : ℤ} (inside : lo ≤ v ∧ v ≤ hi) : ranged lo hi v = some v := if_pos inside

theorem natural_eq {lo hi n : ℕ} {v : ℤ} (same : v = n) (inside : lo ≤ n ∧ n ≤ hi) :
    natural lo hi v = some n := by
  subst same
  rw [natural, if_pos (by omega), Int.toNat_natCast]

theorem element_eq {α : Type*} {l : List α} {i : ℤ} (inside : 0 ≤ i ∧ i < l.length) (d : α) :
    element l i = some (l.getD i.toNat d) := by
  have bound : i.toNat < l.length := by omega
  rw [element, if_pos inside.1, List.getD_eq_getElem _ _ bound, List.getElem?_eq_getElem bound]

theorem bitAt_eq {w : ℕ} {v : BitVec w} {i : ℤ} (inside : 0 ≤ i ∧ i < w) :
    bitAt v i = some (v.getLsbD i.toNat) := if_pos inside

theorem toUnsigned_eq {w n : ℕ} (fits : n < 2 ^ w) : toUnsigned w n = some (BitVec.ofNat w n) :=
  if_pos fits

theorem toInteger_eq {w : ℕ} (narrow : w ≤ 31) (v : BitVec w) : toInteger v = some (v.toNat : ℤ) :=
  if_pos (v.isLt.trans_le (Nat.pow_le_pow_right (by decide) narrow))

theorem modNatural_eq {w : ℕ} (v : BitVec w) (n : ℕ) :
    modNatural v n = some (BitVec.ofNat w (v.toNat % n)) :=
  toUnsigned_eq ((Nat.mod_le _ _).trans_lt v.isLt)

/-- A search that never fails is the plain search. -/
theorem anyM_map_eq {α β : Type*} {l : List β} {g : β → α} {f : α → Option Bool} {p : β → Bool}
    (same : ∀ b ∈ l, f (g b) = some (p b)) : (l.map g).anyM f = some (l.any p) := by
  induction l with
  | nil => rfl
  | cons b l ih =>
    have rest := ih fun c member => same c (List.mem_cons_of_mem b member)
    rw [List.map_cons, List.anyM, same b (List.mem_cons_self ..), List.any_cons]
    cases p b with
    | true => rfl
    | false => exact rest

end Success

/-! ## Runs -/

section Runs

variable {State Input : Type*}

/-- The state after `n` checked clocks. -/
def checkedRun (check : State → Input → Option State) (s : State) (input : ℕ → Input) :
    ℕ → Option State
  | 0 => some s
  | n + 1 => (checkedRun check s input n).bind fun s => check s (input n)

/-- As long as an invariant lets every check pass, the checked run is the plain one. -/
theorem checkedRun_eq {check : State → Input → Option State} {step : State → Input → State} {s : State}
    {input : ℕ → Input} {P : State → Prop} {n : ℕ} (start : P s)
    (passes : ∀ k < n, P (run step s input k) →
      check (run step s input k) (input k) = some (run step s input (k + 1)) ∧
        P (run step s input (k + 1))) :
    checkedRun check s input n = some (run step s input n) ∧ P (run step s input n) := by
  induction n with
  | zero => exact ⟨rfl, start⟩
  | succ n ih =>
    obtain ⟨same, holds⟩ := ih fun k bound => passes k (by omega)
    obtain ⟨passed, kept⟩ := passes n (Nat.lt_succ_self n) holds
    exact ⟨by rw [checkedRun, same, Option.bind_some, passed], kept⟩

end Runs

end Telecran.Machine
