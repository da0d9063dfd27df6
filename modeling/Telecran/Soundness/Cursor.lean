import Telecran.Model.Drawing

/-! # The cursor at the edges of the screen

The cursor is a clamp of two counters that run freely through ten and nine bits, more than the
screen is wide or high. Inside the screen it follows the knobs. Turned past the right or the lower
edge, a counter runs on behind the clamp and has to come all the way back, and at either end of its
range it wraps around and the cursor jumps across the screen.
-/

namespace Telecran.Soundness.Cursor

open Machine Model

section Axis

variable {w : ℕ}

/-- How far a knob is turned on a clock: one count up, one down, or none. -/
def knob (encEnable : Bool) (e : Encoder w) : ℤ :=
  if encEnable then
    if e.aRise && !e.bD1 || e.aFall && e.bD1 then 1
    else if e.bRise && !e.aD1 || e.bFall && e.aD1 then -1
    else 0
  else 0

/-- A counter clamped to an axis of `m` pixels. -/
def shown (m : ℕ) (c : BitVec w) : ℕ := if c.toNat ≥ m then m - 1 else c.toNat

/-- Turning the knob by `s` takes a coordinate of an axis of `m` pixels from `p` to `p'` as it
should: by at most one pixel, stopping at both edges and leaving them with the first count back. -/
structure Follows (m : ℕ) (s : ℤ) (p p' : ℕ) : Prop where
  near : p' ≤ p + 1 ∧ p ≤ p' + 1
  stopsLow : p = 0 → s = -1 → p' = 0
  stopsHigh : p = m - 1 → s = 1 → p' = m - 1
  leavesLow : p = 0 → s = 1 → p' = 1
  leavesHigh : p = m - 1 → s = -1 → p' = m - 2

/-- The count neither wraps the counter around nor comes back from behind the clamp. -/
def Inside (m : ℕ) (s : ℤ) (c : BitVec w) : Prop :=
  (s = -1 → 0 < c.toNat ∧ c.toNat < m) ∧ (s = 1 → c.toNat + 1 < 2 ^ w)

instance (m : ℕ) (s : ℤ) (c : BitVec w) : Decidable (Inside m s c) := inferInstanceAs (Decidable (_ ∧ _))

theorem clock_cnt (encEnable : Bool) (e : Encoder w) (ch : Bool × Bool) :
    knob encEnable e = 1 ∧ (e.clock encEnable ch).cnt = e.cnt + 1 ∨
      knob encEnable e = -1 ∧ (e.clock encEnable ch).cnt = e.cnt - 1 ∨
        knob encEnable e = 0 ∧ (e.clock encEnable ch).cnt = e.cnt := by
  cases encEnable with
  | false => exact Or.inr (Or.inr ⟨rfl, rfl⟩)
  | true =>
    have next : (e.clock true ch).cnt = e.count := rfl
    rw [next, knob, Encoder.count, if_pos rfl]
    split_ifs
    · exact Or.inl ⟨rfl, rfl⟩
    · exact Or.inr (Or.inl ⟨rfl, rfl⟩)
    · exact Or.inr (Or.inr ⟨rfl, rfl⟩)

private theorem toNat_up (c : BitVec w) (bits : 0 < w) :
    (c + 1).toNat = if c.toNat + 1 = 2 ^ w then 0 else c.toNat + 1 := by
  have bound := c.isLt
  have one : 1 < 2 ^ w := Nat.one_lt_two_pow (by omega)
  have small : (1 : BitVec w).toNat = 1 := by simp [Nat.mod_eq_of_lt one]
  rw [BitVec.toNat_add, small]
  split_ifs with last
  · rw [last, Nat.mod_self]
  · exact Nat.mod_eq_of_lt (by omega)

private theorem toNat_down (c : BitVec w) (bits : 0 < w) :
    (c - 1).toNat = if c.toNat = 0 then 2 ^ w - 1 else c.toNat - 1 := by
  have bound := c.isLt
  have one : 1 < 2 ^ w := Nat.one_lt_two_pow (by omega)
  have small : (1 : BitVec w).toNat = 1 := by simp [Nat.mod_eq_of_lt one]
  rw [BitVec.toNat_sub, small]
  split_ifs with first
  · rw [first, Nat.add_zero, Nat.mod_eq_of_lt (by omega)]
  · rw [show 2 ^ w - 1 + c.toNat = 2 ^ w + (c.toNat - 1) by omega, Nat.add_mod_left,
      Nat.mod_eq_of_lt (by omega)]

/-- On a screen that the counter's range exceeds, the coordinate follows the knob exactly when the
count stays inside. -/
theorem follows_iff {m : ℕ} (wide : 3 ≤ m) (exceeded : m < 2 ^ w) (encEnable : Bool) (e : Encoder w)
    (ch : Bool × Bool) :
    Follows m (knob encEnable e) (shown m e.cnt) (shown m (e.clock encEnable ch).cnt) ↔
      Inside m (knob encEnable e) e.cnt := by
  have bits : 0 < w := by
    apply Nat.pos_of_ne_zero
    rintro rfl
    omega
  have bound := e.cnt.isLt
  unfold Inside shown
  rcases clock_cnt encEnable e ch with ⟨turn, next⟩ | ⟨turn, next⟩ | ⟨turn, next⟩
  · rw [turn, next, toNat_up _ bits]
    constructor
    · rintro ⟨near, -, -, -, -⟩
      split_ifs at near <;> omega
    · rintro ⟨-, inside⟩
      rw [if_neg (inside rfl).ne]
      constructor <;> intros <;> split_ifs at * <;> omega
  · rw [turn, next, toNat_down _ bits]
    constructor
    · rintro ⟨near, -, -, -, leaves⟩
      split_ifs at near leaves <;> omega
    · rintro ⟨inside, -⟩
      rw [if_neg (inside rfl).1.ne']
      constructor <;> intros <;> split_ifs at * <;> omega
  · rw [turn, next]
    constructor
    · intro _
      omega
    · intro _
      constructor <;> intros <;> split_ifs at * <;> omega

end Axis

/-! ## Runs -/

/-- Every clock of the run moves the cursor as the knobs turn. -/
def Tracks (d : Drawing) (events : ℕ → DrawingEvent) : Prop :=
  ∀ n i, events n = .clock i →
    Follows hRes (knob (d.after events n).enc.tick (d.after events n).left)
      (d.after events n).xPos (d.after events (n + 1)).xPos ∧
    Follows vRes (knob (d.after events n).enc.tick (d.after events n).right)
      (d.after events n).yPos (d.after events (n + 1)).yPos

/-- On every clock of the run both counts stay inside. -/
def StaysInside (d : Drawing) (events : ℕ → DrawingEvent) : Prop :=
  ∀ n i, events n = .clock i →
    Inside hRes (knob (d.after events n).enc.tick (d.after events n).left)
      (d.after events n).left.cnt ∧
    Inside vRes (knob (d.after events n).enc.tick (d.after events n).right)
      (d.after events n).right.cnt

/-- The cursor tracks the knobs through a run, whatever the resets in it, if and only if no count
turns left or up from zero or from behind the clamp, or right or down from the end of its counter. -/
theorem cursor_tracks_iff (d : Drawing) (events : ℕ → DrawingEvent) :
    Tracks d events ↔ StaysInside d events := by
  refine forall_congr' fun n => forall_congr' fun i => forall_congr' fun event => ?_
  have next : d.after events (n + 1) = (d.after events n).clock i := by
    rw [Drawing.after, run_succ, event]
    rfl
  rw [next]
  exact and_congr (follows_iff (by simp) (by simp) _ _ i.iLeftCh)
    (follows_iff (by simp) (by simp) _ _ i.iRightCh)

/-! ## The counters between resets -/

section Clocked

variable (d : Drawing) (i : ℕ → DrawingIn)

theorem after_enc (n : ℕ) : (d.after (fun n => .clock (i n)) n).enc = Divider.after 5001 n := by
  induction n with
  | zero => rfl
  | succ n ih =>
    rw [Divider.after_succ, ← ih]
    rfl

/-- The left encoder has taken one sample in every 5001 clocks. -/
theorem after_left (n : ℕ) : (d.after (fun n => .clock (i n)) n).left =
    run Encoder.sample .reset (fun k => (i (5001 * (k + 1))).iLeftCh) ((n - 1) / 5001) := by
  have law (n : ℕ) : (d.after (fun n => .clock (i n)) (n + 1)).left =
      if (Divider.after 5001 n).tick then
        (d.after (fun n => .clock (i n)) n).left.sample (i n).iLeftCh
      else (d.after (fun n => .clock (i n)) n).left := by
    rw [← after_enc d i]
    rfl
  have gated := gated_eq_run (x := fun n => (d.after (fun n => .clock (i n)) n).left) law n
  simp only [Divider.nth_tick (show 0 < 5001 by decide), Divider.count_tick (show 0 < 5001 by decide)] at gated
  exact gated

end Clocked

/-! ## A jump across the screen -/

/-- The drawing design at power-up. -/
def coldDrawing : Drawing :=
  ⟨.reset, .reset, .reset, false, false, false, 0, ⟨fun _ => 0, 0, 0⟩⟩

/-- Channel B of the left encoder is closed and nothing else happens. -/
def closedB : DrawingEvent := .clock ⟨(false, true), (false, false), true, false⟩

private theorem closedB_left (n : ℕ) : (coldDrawing.after (fun _ => closedB) n).left =
    run Encoder.sample .reset (fun _ => (false, true)) ((n - 1) / 5001) :=
  after_left coldDrawing (fun _ => ⟨(false, true), (false, false), true, false⟩) n

/-- The first count to the left, from the left edge: the cursor jumps to the right edge. -/
theorem cursor_jumps :
    (coldDrawing.after (fun _ => closedB) 10002).xPos = 0 ∧
      (coldDrawing.after (fun _ => closedB) 10003).xPos = 719 ∧
      ¬ Tracks coldDrawing fun _ => closedB := by
  have before : (coldDrawing.after (fun _ => closedB) 10002).xPos = 0 := by
    rw [Drawing.xPos, closedB_left]
    rfl
  have after : (coldDrawing.after (fun _ => closedB) 10003).xPos = 719 := by
    rw [Drawing.xPos, closedB_left]
    rfl
  refine ⟨before, after, fun tracks => ?_⟩
  have near := (tracks 10002 _ rfl).1.near
  rw [before, after] at near
  omega

end Telecran.Soundness.Cursor
