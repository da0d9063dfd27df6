import Telecran.Model.RightPb
import Telecran.Signal.Debounce

/-! # The right button is debounced exactly

The accepted level changes when the registered input has been at the other level for 1000001 clocks,
and every press that is accepted is counted once.
-/

namespace Telecran.Soundness.Debounce

open Machine Model Signal

/-- What the button process does with the samples it has registered. -/
structure Debounced (b : ℕ → RightPb) : Prop where
  /-- The accepted level changes when the whole window is at the other level, and only then. -/
  changes : ∀ n, (b (n + 1)).rbStable ≠ (b n).rbStable ↔
    1000000 ≤ n ∧ ∀ k, n - 1000000 ≤ k → k ≤ n → (b k).rbSync1 ≠ (b n).rbStable
  /-- Glitches leave no trace, however many there are. -/
  glitches : ∀ m n, m ≤ n →
    (∀ k, m ≤ k → k < n → 1000000 ≤ k →
      ∃ j, k - 1000000 ≤ j ∧ j ≤ k ∧ (b j).rbSync1 = (b m).rbStable) →
    (b n).rbStable = (b m).rbStable
  /-- A longer press or release is accepted before it ends. -/
  accepts : ∀ m, (∀ k, m ≤ k → k ≤ m + 1000000 → (b k).rbSync1 ≠ (b m).rbStable) →
    ∃ k, m ≤ k ∧ k ≤ m + 1000000 ∧ (b (k + 1)).rbStable ≠ (b m).rbStable
  /-- The view is the number of presses seen so far, modulo four. -/
  presses : ∀ n, (b n).debugMode.toNat = Nat.count (fun k => (b k).pressSeen) n % 4
  /-- A press is seen one clock after the accepted level has gone low, and at no other time. -/
  once : (b 0).pressSeen = false ∧
    ∀ n, (b (n + 1)).pressSeen = true ↔ (b n).rbStable = true ∧ (b (n + 1)).rbStable = false
  /-- The counter is far from its overflow. -/
  bounded : ∀ n, (b n).rbCnt.toNat ≤ 1000000

section Runs

variable (iRightPb : ℕ → Bool)

/-- The input is registered twice. -/
theorem rbSync1_eq (n : ℕ) : (RightPb.after iRightPb (n + 2)).rbSync1 = iRightPb n := by
  rw [RightPb.after_succ, RightPb.clock, RightPb.after_succ, RightPb.clock]

/-- The debouncer the process runs on its registered input. -/
private def abstracted (n : ℕ) : Debouncer Bool :=
  Debouncer.after 1000000 true (fun k => (RightPb.after iRightPb k).rbSync1) n

private theorem stable_cnt (n : ℕ) :
    (RightPb.after iRightPb n).rbStable = (abstracted iRightPb n).stable ∧
      (RightPb.after iRightPb n).rbCnt.toNat = (abstracted iRightPb n).cnt := by
  induction n with
  | zero => exact ⟨rfl, rfl⟩
  | succ n ih =>
    obtain ⟨stable, cnt⟩ := ih
    have capped : (abstracted iRightPb n).cnt ≤ 1000000 := Debouncer.cnt_le n
    have next : abstracted iRightPb (n + 1) =
        (abstracted iRightPb n).clock 1000000 (RightPb.after iRightPb n).rbSync1 := rfl
    have full : (RightPb.after iRightPb n).rbCnt = BitVec.ofNat 20 1000000 ↔
        (abstracted iRightPb n).cnt = 1000000 := by
      rw [← BitVec.toNat_inj, cnt, BitVec.toNat_ofNat]
    rw [RightPb.after_succ, RightPb.clock, next, Debouncer.clock]
    by_cases same : (RightPb.after iRightPb n).rbSync1 = (abstracted iRightPb n).stable
    · simp [stable, same]
    · by_cases last : (abstracted iRightPb n).cnt = 1000000
      · simp [stable, same, full, last]
      · simp [stable, same, full, last, cnt, BitVec.toNat_add]
        omega

private theorem pressSeen_succ (n : ℕ) : (RightPb.after iRightPb (n + 1)).pressSeen =
    ((RightPb.after iRightPb n).rbStable && !(RightPb.after iRightPb (n + 1)).rbStable) := rfl

private theorem debugMode_eq (n : ℕ) : (RightPb.after iRightPb n).debugMode.toNat =
    Nat.count (fun k => (RightPb.after iRightPb k).pressSeen) n % 4 := by
  induction n with
  | zero => rfl
  | succ n ih =>
    rw [Nat.count_succ, RightPb.after_succ, RightPb.clock]
    cases seen : (RightPb.after iRightPb n).pressSeen
    · simpa using ih
    · have one : (1 : BitVec 2).toNat = 1 := rfl
      simp only [if_true, BitVec.toNat_add, ih, one]
      omega

private theorem stable_changes (n : ℕ) :
    (RightPb.after iRightPb (n + 1)).rbStable ≠ (RightPb.after iRightPb n).rbStable ↔
      1000000 ≤ n ∧ ∀ k, n - 1000000 ≤ k → k ≤ n →
        (RightPb.after iRightPb k).rbSync1 ≠ (RightPb.after iRightPb n).rbStable := by
  rw [(stable_cnt iRightPb n).1, (stable_cnt iRightPb (n + 1)).1]
  exact Debouncer.changes_iff n

private theorem stable_keeps {m n : ℕ} (later : m ≤ n)
    (glitches : ∀ k, m ≤ k → k < n → 1000000 ≤ k → ∃ j, k - 1000000 ≤ j ∧ j ≤ k ∧
      (RightPb.after iRightPb j).rbSync1 = (RightPb.after iRightPb m).rbStable) :
    (RightPb.after iRightPb n).rbStable = (RightPb.after iRightPb m).rbStable := by
  rw [(stable_cnt iRightPb n).1]
  apply Debouncer.keeps later (stable_cnt iRightPb m).1.symm
  rintro k low high ⟨late, all⟩
  obtain ⟨j, first, last, same⟩ := glitches k low high late
  exact all j first last same

/-- For every input the process debounces exactly and counts every press once. -/
theorem debounce_exact : Debounced (RightPb.after iRightPb) where
  changes := stable_changes iRightPb
  glitches _ _ := stable_keeps iRightPb
  accepts m all := by
    obtain ⟨k, low, high, changed⟩ := Debouncer.accepts (stable_cnt iRightPb m).1.symm all
    refine ⟨k, low, high, ?_⟩
    rw [(stable_cnt iRightPb (k + 1)).1]
    exact changed
  presses := debugMode_eq iRightPb
  once := by
    refine ⟨rfl, fun n => ?_⟩
    rw [pressSeen_succ, Bool.and_eq_true, Bool.not_eq_true']
  bounded n := by
    rw [(stable_cnt iRightPb n).2]
    exact Debouncer.cnt_le n

end Runs

/-! ## A release right after a press is accepted -/

/-- The button is held down for the first 1000001 clocks. -/
def release (n : ℕ) : Bool := decide (1000001 ≤ n)

private theorem release_rbSync1 (n : ℕ) :
    (RightPb.after release n).rbSync1 = decide (n < 2 ∨ 1000003 ≤ n) := by
  match n with
  | 0 => rfl
  | 1 => rfl
  | n + 2 =>
    rw [rbSync1_eq, release, decide_eq_decide]
    omega

/-- Once the press is accepted, on clock 1000002, the release disagrees with the accepted level, as
the press did on the 1000000 clocks before, and the accepted level does not follow yet: comparing
each sample with the level accepted at its own clock is not enough. -/
theorem release_not_followed :
    (∀ k, 1000003 - 1000000 ≤ k → k ≤ 1000003 →
      (RightPb.after release k).rbSync1 ≠ (RightPb.after release k).rbStable) ∧
    (RightPb.after release 1000004).rbStable = (RightPb.after release 1000003).rbStable ∧
    ¬ ∀ n, (RightPb.after release (n + 1)).rbStable ≠ (RightPb.after release n).rbStable ↔
      1000000 ≤ n ∧ ∀ k, n - 1000000 ≤ k → k ≤ n →
        (RightPb.after release k).rbSync1 ≠ (RightPb.after release k).rbStable := by
  have held : ∀ n, n ≤ 1000002 → (RightPb.after release n).rbStable = true := by
    intro n early
    refine stable_keeps release (Nat.zero_le n) fun k _ bound late => ?_
    refine ⟨k - 1000000, le_rfl, Nat.sub_le .., ?_⟩
    rw [release_rbSync1]
    exact decide_eq_true (Or.inl (by omega))
  have fallen : (RightPb.after release 1000003).rbStable = false := by
    have changed := (stable_changes release 1000002).mpr ⟨by omega, fun k low high => by
      rw [release_rbSync1, held 1000002 le_rfl, Ne, decide_eq_true_iff]
      omega⟩
    rwa [held 1000002 le_rfl, Ne, Bool.not_eq_true] at changed
  have differs : ∀ k, 1000003 - 1000000 ≤ k → k ≤ 1000003 →
      (RightPb.after release k).rbSync1 ≠ (RightPb.after release k).rbStable := by
    intro k low high
    by_cases last : k = 1000003
    · rw [last, fallen, release_rbSync1, decide_eq_true (Or.inr le_rfl)]
      exact Bool.noConfusion
    · rw [release_rbSync1, held k (by omega), Ne, decide_eq_true_iff]
      omega
  have kept : (RightPb.after release 1000004).rbStable = (RightPb.after release 1000003).rbStable := by
    by_contra changed
    have window := ((stable_changes release 1000003).mp changed).2 1000002 (by omega) (by omega)
    rw [fallen, release_rbSync1, Ne, decide_eq_false_iff_not] at window
    omega
  exact ⟨differs, kept, fun claim => (claim 1000003).mpr ⟨by omega, differs⟩ kept⟩

end Telecran.Soundness.Debounce
