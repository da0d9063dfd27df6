import Telecran.Proofs.Nudge
import Telecran.Signal.Transfer

/-! # From tilt to thrust

The gain stage of the board and the dead zone and division of the engine form one signal chain. All
its stages are unbiased, so the thrust on either axis follows the tilt without inversion, opposite
tilts give opposite thrusts, and away from walls a physics tick commutes with turning the board and
the ball's velocity around.
-/

namespace Telecran.Soundness.Tilt

open Model Signal

/-- The velocity increment on X for a raw sample: the board's gain stage, then the engine. -/
def increment (level : ℕ) (samp : BitVec 16) : ℤ := thrust level (accelGame samp)

/-- The value the gain stage hands to `to_signed`. -/
def gained (samp : ℤ) : ℤ := limiter satLimit (Signal.deadBand Model.deadBand samp * 2 ^ gainShift)

/-- The engine's half of the chain. -/
def answered (level : ℕ) (a : ℤ) : ℤ := (Signal.deadZone dead a).tdiv (accDiv level)

theorem gained_range (samp : ℤ) : |gained samp| ≤ 6000 := limiter_range (by decide) _

theorem gained_unbiased : Unbiased gained :=
  (limiter_unbiased (by decide)).comp ((gain_unbiased (by decide)).comp (deadBand_unbiased _))

theorem answered_unbiased (level : ℕ) : Unbiased (answered level) :=
  (tdiv_unbiased (by have := accDiv_bounds level; omega)).comp (deadZone_unbiased (by decide))

theorem accelGame_eq (samp : BitVec 16) : accelGame samp = BitVec.ofInt 16 (gained samp.toInt) := by
  have ordered : -satLimit ≤ satLimit := by decide
  simp only [accelGame, gained, limiter, Signal.deadBand]
  split_ifs <;> first | rfl | omega

/-- `to_signed` loses nothing. -/
theorem accelGame_toInt (samp : BitVec 16) : (accelGame samp).toInt = gained samp.toInt := by
  have range := gained_range samp.toInt
  rw [abs_le] at range
  rw [accelGame_eq]
  exact BitVec.toInt_ofInt_eq_self (by decide) (by omega) (by omega)

theorem increment_eq (level : ℕ) (samp : BitVec 16) :
    increment level samp = answered level (gained samp.toInt) := by
  rw [increment, thrust, accelGame_toInt]
  rfl

/-! ## Magnitudes -/

/-- A value of a VHDL integer, which has 32 bits. -/
def InRange (z : ℤ) : Prop := |z| < 2 ^ 31

/-- Everything computed on the way from a raw sample to the increment. -/
def stages (level : ℕ) (samp : BitVec 16) : List ℤ :=
  let raw := samp.toInt
  let kept := Signal.deadBand Model.deadBand raw
  let a := (accelGame samp).toInt
  [raw, |raw|, kept, 2 ^ gainShift, kept * 2 ^ gainShift, satLimit, -satLimit, gained raw,
    a, -dead, a - dead, a + dead, Model.deadZone a, 256 - level, accDiv level, increment level samp]

private theorem toInt_neg {a : BitVec 16} (representable : -a.toInt ≤ 32767) :
    (-a).toInt = -a.toInt := by
  apply BitVec.toInt_neg_of_ne_intMin
  rintro rfl
  exact absurd representable (by decide)

private theorem toInt_range (samp : BitVec 16) : |samp.toInt| ≤ 32768 := by
  have low := BitVec.le_toInt samp
  have high := BitVec.toInt_lt (x := samp)
  rw [abs_le]
  omega

theorem increment_range (level : ℕ) (samp : BitVec 16) : |increment level samp| ≤ 6000 := by
  rw [increment_eq]
  calc |answered level (gained samp.toInt)| ≤ |Signal.deadZone dead (gained samp.toInt)| :=
        tdiv_range _ _
    _ ≤ |gained samp.toInt| := deadZone_range (by decide) _
    _ ≤ 6000 := gained_range _

theorem stages_inRange (level : ℕ) (bound : level ≤ 999) (samp : BitVec 16) :
    ∀ z ∈ stages level samp, InRange z := by
  have raw := toInt_range samp
  have kept := (deadBand_range Model.deadBand samp.toInt).trans raw
  have range := gained_range samp.toInt
  have zone : |Model.deadZone (gained samp.toInt)| ≤ 6000 :=
    (deadZone_range (by decide) _).trans range
  have result := increment_range level samp
  have divisor := accDiv_bounds level
  have size : |(|samp.toInt|)| = |samp.toInt| := abs_abs _
  simp only [stages, InRange, accelGame_toInt, List.forall_mem_cons, size]
  simp only [abs_lt, abs_le, dead, satLimit, gainShift] at *
  refine ⟨?_, ?_, ?_, ?_, ?_, ?_, ?_, ?_, ?_, ?_, ?_, ?_, ?_, ?_, ?_, ?_, by simp⟩ <;> omega

/-! ## A tick in the open -/

theorem damp_unbiased (level : ℕ) : Unbiased (damp level) := by
  have cap := vmax_bounds level
  have shape : damp level = fun v => (limiter (vmax level) v * 15).tdiv 16 := by
    funext v
    simp only [damp, clamp, limiter]
    split_ifs <;> first | rfl | omega
  rw [shape]
  exact (tdiv_unbiased (by decide)).comp
    ((gain_unbiased (by decide)).comp (limiter_unbiased (by omega)))

/-- No wall and no border within one tick's reach of the ball. -/
def OpenAround (level : ℕ) (l : Layout) (m : Motion) : Prop :=
  ∀ x y, |x - m.x| ≤ vmax level → |y - m.y| ≤ vmax level →
    l.isWall x y = false ∧ (12 ≤ x ∧ x ≤ 707) ∧ 12 ≤ y ∧ y ≤ 467

theorem physics_increment {level : ℕ} {l : Layout} {m : Motion} (free : OpenAround level l m)
    (a b : BitVec 16) :
    physics level l m (accelGame a) (accelGame b) =
      ⟨m.x + damp level (m.vx + increment level a), m.y + damp level (m.vy + -increment level b),
        damp level (m.vx + increment level a), damp level (m.vy + -increment level b)⟩ := by
  have cap := vmax_bounds level
  have stepX := damp_range level (m.vx + increment level a)
  have stepY := damp_range level (m.vy + -increment level b)
  have openX := free (m.x + damp level (m.vx + increment level a)) m.y (by simpa) (by simp; omega)
  have openY := free m.x (m.y + damp level (m.vy + -increment level b)) (by simp; omega) (by simpa)
  exact physics_open (s := (accelGame a, accelGame b)) rfl (by rw [sub_eq_add_neg]; rfl)
    (Or.inr openX.1) (Or.inr openY.1) openX.2.1 openY.2.2

/-- The same ball, turned around. -/
def turned (m : Motion) : Motion := { m with vx := -m.vx, vy := -m.vy }

/-- The thrust follows the tilt: monotone, odd, within range, the same on both axes up to the sign,
and in the open a physics tick commutes with turning the board and the velocity around. -/
theorem tilt_thrust (level : ℕ) (levels : 1 ≤ level ∧ level ≤ 999) :
    (∀ a b : BitVec 16, a.toInt ≤ b.toInt → increment level a ≤ increment level b) ∧
    (∀ a : BitVec 16, -a.toInt ≤ 32767 → increment level (-a) = -increment level a) ∧
    increment level (BitVec.ofInt 16 (-32768)) = increment level (BitVec.ofInt 16 (-32767)) ∧
    (∀ a : BitVec 16, ∀ z ∈ stages level a, InRange z) ∧
    (∀ a : BitVec 16, (accelGame a).toInt = gained a.toInt) ∧
    accDiv level ≠ 0 ∧
    (∀ l m, OpenAround level l m → ∀ a b : BitVec 16,
      (physics level l m (accelGame a) (accelGame b)).vx = damp level (m.vx + increment level a) ∧
      (physics level l m (accelGame a) (accelGame b)).vy = damp level (m.vy + -increment level b)) ∧
    (∀ l m, OpenAround level l m → ∀ a b : BitVec 16, -a.toInt ≤ 32767 → -b.toInt ≤ 32767 →
      (physics level l (turned m) (accelGame (-a)) (accelGame (-b))).vx =
        -(physics level l m (accelGame a) (accelGame b)).vx ∧
      (physics level l (turned m) (accelGame (-a)) (accelGame (-b))).vy =
        -(physics level l m (accelGame a) (accelGame b)).vy) := by
  have chain (a : BitVec 16) : increment level a = answered level (gained a.toInt) :=
    increment_eq level a
  have whole := (answered_unbiased level).comp gained_unbiased
  have odd (a : BitVec 16) (representable : -a.toInt ≤ 32767) :
      increment level (-a) = -increment level a := by
    rw [chain, chain, toInt_neg representable]
    exact whole.odd _
  refine ⟨?_, odd, ?_, stages_inRange level levels.2, accelGame_toInt, ?_, ?_, ?_⟩
  · intro a b ordered
    rw [chain, chain]
    exact whole.mono _ _ ordered
  · rw [chain, chain]
    exact congrArg (answered level) (by decide)
  · have := accDiv_bounds level
    omega
  · intro l m free a b
    rw [physics_increment free]
    exact ⟨rfl, rfl⟩
  · intro l m free a b representable representable'
    have free' : OpenAround level l (turned m) := free
    have turn (v w : ℤ) : damp level (-v + -w) = -damp level (v + w) := by
      rw [← neg_add]
      exact (damp_unbiased level).odd _
    rw [physics_increment free, physics_increment free', odd a representable, odd b representable']
    exact ⟨turn _ _, turn _ _⟩

/-- Opposite tilts on the first level. -/
theorem tilt_thrust_first : increment 1 (-100) = -increment 1 100 :=
  (tilt_thrust 1 (by decide)).2.1 100 (by decide)

end Telecran.Soundness.Tilt
