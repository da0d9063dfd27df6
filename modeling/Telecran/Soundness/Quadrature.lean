import Mathlib.Algebra.BigOperators.Group.Finset.Basic
import Mathlib.Algebra.BigOperators.Intervals
import Mathlib.Algebra.BigOperators.Ring.Finset
import Mathlib.Data.Fintype.Prod
import Mathlib.Data.Int.ModEq
import Telecran.Machine.Run
import Telecran.Model.Encoder

/-! # What the quadrature decoder counts

The decoder counts a forward step only on channel A and a backward step only on channel B. Twice
its count is therefore the net number of quarter steps plus the surplus of A changes over B
changes: it depends on the path as soon as the path reverses.
-/

namespace Telecran.Soundness.Quadrature

open Machine Model

/-! ## Quarter steps -/

/-- At most one channel differs. -/
def Single (s t : Bool × Bool) : Prop := s.1 = t.1 ∨ s.2 = t.2

instance (s t : Bool × Bool) : Decidable (Single s t) := inferInstanceAs (Decidable (_ ∨ _))

/-- The place of a channel pair in the cycle `00, 10, 11, 01`. -/
def phase : Bool × Bool → ℤ
  | (false, false) => 0
  | (true, false) => 1
  | (true, true) => 2
  | (false, true) => 3

/-- The quarter step between two samples: forward, backward or none. -/
def quarter (s t : Bool × Bool) : ℤ :=
  if (phase t - phase s) % 4 = 1 then 1 else if (phase t - phase s) % 4 = 3 then -1 else 0

/-- One for a change of channel A, minus one for a change of channel B. -/
def turn (s t : Bool × Bool) : ℤ := (if s.1 = t.1 then 0 else 1) - if s.2 = t.2 then 0 else 1

/-- What the decoder adds for two consecutive samples. -/
def counted (s t : Bool × Bool) : ℤ :=
  let e : Encoder 2 := ⟨t.1, s.1, t.2, s.2, 0⟩
  if e.aRise && !e.bD1 || e.aFall && e.bD1 then 1
  else if e.bRise && !e.aD1 || e.bFall && e.aD1 then -1
  else 0

theorem two_mul_counted : ∀ s t : Bool × Bool, Single s t → 2 * counted s t = quarter s t + turn s t := by
  decide

/-- Walking a step back undoes its quarter step and repeats its change. -/
theorem quarter_back : ∀ s t : Bool × Bool, Single s t → quarter t s = -quarter s t := by
  decide

variable {w : ℕ}

/-- The counter moves by what the delay line holds. -/
theorem count_eq (e : Encoder w) :
    e.count = e.cnt + BitVec.ofInt w (counted (e.aD2, e.bD2) (e.aD1, e.bD1)) := by
  have step : counted (e.aD2, e.bD2) (e.aD1, e.bD1) =
      if e.aRise && !e.bD1 || e.aFall && e.bD1 then 1
      else if e.bRise && !e.aD1 || e.bFall && e.aD1 then -1
      else 0 := rfl
  rw [step, Encoder.count]
  split_ifs
  · rfl
  · rw [BitVec.ofInt_neg, BitVec.sub_eq_add_neg]
    rfl
  · simp

/-! ## Passages -/

/-- A stretch of a clocked run of a decoder: `steps` consecutive pairs of the samples taken at
`enc_enable`, at most one channel changing from each to the next. -/
structure Passage (w : ℕ) where
  encoder : Encoder w
  encEnable : ℕ → Bool
  channels : ℕ → Bool × Bool
  steps : ℕ
  often : {n | encEnable n = true}.Infinite
  single : ∀ j < steps, Single (channels (Nat.nth (encEnable ·) j)) (channels (Nat.nth (encEnable ·) (j + 1)))

namespace Passage

variable (p : Passage w)

/-- The sample taken on the enabled clock `j`. -/
noncomputable def sample (j : ℕ) : Bool × Bool := p.channels (Nat.nth (p.encEnable ·) j)

/-- The decoder after `n` clocks. -/
def after (n : ℕ) : Encoder w :=
  run (fun e i => e.clock i.1 i.2) p.encoder (fun k => (p.encEnable k, p.channels k)) n

/-- How far the counter moves while the samples of the passage go through the delay line. -/
noncomputable def change : BitVec w :=
  (p.after (Nat.nth (p.encEnable ·) (p.steps + 2))).cnt - (p.after (Nat.nth (p.encEnable ·) 2)).cnt

/-- The net number of quarter steps. -/
noncomputable def net : ℤ := ∑ j ∈ Finset.range p.steps, quarter (p.sample j) (p.sample (j + 1))

/-- The changes of channel A less the changes of channel B. -/
noncomputable def surplus : ℤ := ∑ j ∈ Finset.range p.steps, turn (p.sample j) (p.sample (j + 1))

/-- What the decoder counts over the passage. -/
noncomputable def total : ℤ := ∑ j ∈ Finset.range p.steps, counted (p.sample j) (p.sample (j + 1))

theorem two_mul_total : 2 * p.total = p.net + p.surplus := by
  rw [total, net, surplus, Finset.mul_sum, ← Finset.sum_add_distrib]
  exact Finset.sum_congr rfl fun j bound =>
    two_mul_counted _ _ (p.single j (Finset.mem_range.mp bound))

theorem after_nth (k : ℕ) :
    p.after (Nat.nth (p.encEnable ·) k) = run Encoder.sample p.encoder p.sample k :=
  gated_nth (x := p.after) (fun _ => rfl) p.often k

/-- Over the first steps the counter has moved by their counts. -/
theorem cnt_run (k : ℕ) :
    (run Encoder.sample p.encoder p.sample (k + 2)).cnt =
      (run Encoder.sample p.encoder p.sample 2).cnt +
        BitVec.ofInt w (∑ j ∈ Finset.range k, counted (p.sample j) (p.sample (j + 1))) := by
  induction k with
  | zero => simp
  | succ k ih =>
    have next : (run Encoder.sample p.encoder p.sample (k + 1 + 2)).cnt =
        (run Encoder.sample p.encoder p.sample (k + 2)).count := rfl
    rw [next, count_eq, ih, Finset.sum_range_succ, BitVec.ofInt_add, BitVec.add_assoc]
    rfl

theorem change_eq : p.change = BitVec.ofInt w p.total := by
  rw [change, after_nth, after_nth, cnt_run, total, BitVec.add_comm, BitVec.add_sub_cancel]

/-- The passage comes back along the samples it went out on. -/
def Retraces : Prop := ∀ j ≤ p.steps, p.sample (p.steps - j) = p.sample j

end Passage

private theorem ofInt_eq_iff (a b : ℤ) : BitVec.ofInt w a = BitVec.ofInt w b ↔ a ≡ b [ZMOD 2 ^ w] := by
  have positive : (2 ^ w : ℤ) ≠ 0 := by positivity
  have left := Int.emod_nonneg a positive
  have right := Int.emod_nonneg b positive
  rw [← BitVec.toNat_inj, BitVec.toNat_ofInt, BitVec.toNat_ofInt, Int.ModEq]
  push_cast
  omega

/-- Between passages with the same net number of quarter steps, the counts agree exactly when the
surplus of A changes over B changes does. -/
theorem change_eq_iff {p q : Passage w} (same : p.net = q.net) :
    p.change = q.change ↔ p.surplus ≡ q.surplus [ZMOD 2 ^ (w + 1)] := by
  have double : 2 * (q.total - p.total) = q.surplus - p.surplus := by
    have left := p.two_mul_total
    have right := q.two_mul_total
    omega
  rw [p.change_eq, q.change_eq, ofInt_eq_iff, Int.modEq_iff_dvd, Int.modEq_iff_dvd, ← double, pow_succ',
    mul_dvd_mul_iff_left two_ne_zero]

/-- A passage that retraces its own samples has net zero. -/
theorem net_eq_zero {p : Passage w} (retraces : p.Retraces) : p.net = 0 := by
  have mirrored : p.net = -p.net := by
    calc
      p.net = ∑ j ∈ Finset.range p.steps,
          quarter (p.sample (p.steps - 1 - j)) (p.sample (p.steps - 1 - j + 1)) :=
        (Finset.sum_range_reflect (fun j => quarter (p.sample j) (p.sample (j + 1))) p.steps).symm
      _ = ∑ j ∈ Finset.range p.steps, -quarter (p.sample j) (p.sample (j + 1)) := by
        refine Finset.sum_congr rfl fun j bound => ?_
        rw [Finset.mem_range] at bound
        have start : p.steps - 1 - j = p.steps - (j + 1) := by omega
        have finish : p.steps - (j + 1) + 1 = p.steps - j := by omega
        rw [start, finish, retraces (j + 1) (by omega), retraces j (by omega)]
        exact quarter_back _ _ (p.single j bound)
      _ = -p.net := Finset.sum_neg_distrib _
  omega

/-- A passage of no steps, next to any passage. -/
noncomputable def Passage.still (p : Passage w) : Passage w :=
  { p with steps := 0, single := fun _ impossible => absurd impossible (Nat.not_lt_zero _) }

theorem still_zero (p : Passage w) : p.still.net = 0 ∧ p.still.surplus = 0 ∧ p.still.change = 0 := by
  have nothing : Finset.range p.still.steps = ∅ := rfl
  refine ⟨?_, ?_, ?_⟩
  · rw [Passage.net, nothing, Finset.sum_empty]
  · rw [Passage.surplus, nothing, Finset.sum_empty]
  · rw [p.still.change_eq, Passage.total, nothing, Finset.sum_empty, BitVec.ofInt_ofNat]
    rfl

/-- The count of a passage depends on its net number of quarter steps alone exactly as far as the
surplus of A changes does not vary; a passage and its way back cancel exactly when the surplus of
the whole vanishes. -/
theorem count_path_iff (w : ℕ) :
    (∀ p q : Passage w, p.net = q.net →
      (p.change = q.change ↔ p.surplus ≡ q.surplus [ZMOD 2 ^ (w + 1)])) ∧
      ∀ p : Passage w, p.Retraces → (p.change = 0 ↔ p.surplus ≡ 0 [ZMOD 2 ^ (w + 1)]) := by
  constructor
  · intro p q same
    exact change_eq_iff same
  · intro p retraces
    obtain ⟨net, surplus, change⟩ := still_zero p
    have here := change_eq_iff ((net_eq_zero retraces).trans net.symm)
    rwa [surplus, change] at here

/-- Channel A closes for one sample while B stays open, at the sampling rate of the drawing design. -/
def bounce (n : ℕ) : Bool × Bool := (n / 5001 = 2, false)

private theorem bounce_sample (j : ℕ) :
    bounce (Nat.nth (fun n => (Divider.after 5001 n).tick) j) = (decide (j + 1 = 2), false) := by
  rw [Divider.nth_tick (by decide), bounce, Nat.mul_div_cancel_left _ (by decide)]

private theorem bounce_single : ∀ j < 2, Single
    (bounce (Nat.nth (fun n => (Divider.after 5001 n).tick) j))
    (bounce (Nat.nth (fun n => (Divider.after 5001 n).tick) (j + 1))) := by
  intro j _
  rw [bounce_sample, bounce_sample]
  exact Or.inr rfl

def bouncing : Passage 10 where
  encoder := .reset
  encEnable n := (Divider.after 5001 n).tick
  channels := bounce
  steps := 2
  often := Divider.tick_infinite (by decide)
  single := bounce_single

/-- One bounce of channel A leaves the counter one further. -/
theorem bouncing_counts : bouncing.Retraces ∧ bouncing.net = 0 ∧ bouncing.change = 1 := by
  have samples : ∀ j, bouncing.sample j = (decide (j + 1 = 2), false) := bounce_sample
  have retraces : bouncing.Retraces := by
    intro j bound
    have steps : bouncing.steps = 2 := rfl
    rw [samples, samples, steps]
    obtain rfl | rfl | rfl : j = 0 ∨ j = 1 ∨ j = 2 := by omega
    · rfl
    · rfl
    · rfl
  refine ⟨retraces, net_eq_zero retraces, ?_⟩
  have steps : Finset.range bouncing.steps = {0, 1} := rfl
  rw [bouncing.change_eq, Passage.total, steps, Finset.sum_pair (by decide), samples, samples, samples]
  decide

end Telecran.Soundness.Quadrature
