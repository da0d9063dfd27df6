import Telecran.Proofs.Nudge
import Telecran.Soundness.DeviceGame

/-! # A level board lets the ball come to rest

Without thrust the friction takes at least one pixel a tick from each speed: wherever the ball is, and
however fast, it stops within twelve ticks and 66 pixels on each axis, and never moves again. On a board
that lies level from the start the ball stays at the spawn of the first level.
-/

namespace Telecran.Soundness.Rest

open Machine Model Bus Spec GamePlay DeviceGame Adxl Adxl.Fsm AdxlSamples

/-! ## One tick -/

/-- Friction takes at least one pixel a tick. -/
theorem damp_slower (level : ℕ) {v n : ℤ} (bound : |v| ≤ n + 1) (moving : 0 ≤ n) : |damp level v| ≤ n := by
  have slowed := (clamp_abs level v).2
  rw [damp_abs]
  omega

theorem damp_capped (level : ℕ) (v : ℤ) : |damp level v| ≤ 11 := by
  have cap := vmax_bounds level
  have capped := (clamp_abs level v).1
  rw [damp_abs]
  omega

/-- The ball is inside the border. -/
def Inside (m : Motion) : Prop := 12 ≤ m.x ∧ m.x ≤ 707 ∧ 12 ≤ m.y ∧ m.y ≤ 467

/-- Both speeds are at most `n`. -/
def Slow (n : ℤ) (m : Motion) : Prop := |m.vx| ≤ n ∧ |m.vy| ≤ n

/-- The ball has moved by at most `n` pixels on each axis. -/
def Near (n : ℤ) (m m' : Motion) : Prop := |m'.x - m.x| ≤ n ∧ |m'.y - m.y| ≤ n

/-- A sample without thrust. -/
def Flat (level : ℕ) (s : BitVec 16 × BitVec 16) : Prop := thrust level s.1 = 0 ∧ thrust level s.2 = 0

private theorem confine_near {x d hi n : ℤ} (low : 12 ≤ x) (high : x ≤ hi) (near : |d| ≤ n) (stop : Bool) :
    12 ≤ confine (if stop then x else x + d) hi ∧ confine (if stop then x else x + d) hi ≤ hi ∧
      |confine (if stop then x else x + d) hi - x| ≤ n := by
  rw [abs_le] at near ⊢
  simp only [confine]
  split_ifs <;> omega

private theorem stopped_slow {d n : ℤ} (slow : |d| ≤ n) (stop : Bool) : |if stop then 0 else d| ≤ n := by
  rw [abs_le] at *
  split_ifs <;> omega

/-- One tick without thrust. -/
theorem physics_level {level : ℕ} {l : Layout} {m : Motion} {s : BitVec 16 × BitVec 16} {n : ℤ}
    (still : Flat level s) (inside : Inside m) (slowX : |damp level m.vx| ≤ n) (slowY : |damp level m.vy| ≤ n) :
    Inside (physics level l m s.1 s.2) ∧ Slow n (physics level l m s.1 s.2) ∧
      Near n m (physics level l m s.1 s.2) := by
  obtain ⟨left, right, top, bottom⟩ := inside
  simp only [physics, still.1, still.2, add_zero, sub_zero]
  obtain ⟨left', right', nearX⟩ := confine_near left right slowX (l.isWall (m.x + damp level m.vx) m.y)
  obtain ⟨top', bottom', nearY⟩ := confine_near top bottom slowY (l.isWall m.x (m.y + damp level m.vy))
  exact ⟨⟨left', right', top', bottom'⟩, ⟨stopped_slow slowX _, stopped_slow slowY _⟩, nearX, nearY⟩

/-! ## Any number of ticks -/

section Run

variable (level : ℕ) (l : Layout) (m : Motion) (samples : ℕ → BitVec 16 × BitVec 16)

/-- The ball after `n` ticks. -/
def rolled (n : ℕ) : Motion := run (fun m s => physics level l m s.1 s.2) m samples n

/-- The most the ball moves in `k` ticks without thrust. -/
def travel : ℕ → ℤ
  | 0 => 0
  | k + 1 => travel k + (11 - k)

variable {level l m samples}

private theorem Near.trans {m m' m'' : Motion} {n n' : ℤ} (first : Near n m m') (second : Near n' m' m'') :
    Near (n + n') m m'' := by
  simp only [Near, abs_le] at *
  omega

private theorem slowing (flat : ∀ k, Flat level (samples k)) (inside : Inside m) {k : ℕ} (early : k ≤ 11) :
    Inside (rolled level l m samples (k + 1)) ∧ Slow (11 - k) (rolled level l m samples (k + 1)) ∧
      Near (travel (k + 1)) m (rolled level l m samples (k + 1)) := by
  induction k with
  | zero =>
    obtain ⟨inside', slow, near⟩ := physics_level (l := l) (flat 0) inside (damp_capped level m.vx)
      (damp_capped level m.vy)
    exact ⟨inside', slow, near⟩
  | succ k ih =>
    obtain ⟨before, slow, near⟩ := ih (by omega)
    have slower {v : ℤ} (bound : |v| ≤ 11 - k) : |damp level v| ≤ 11 - (k + 1 : ℕ) := by
      refine damp_slower level ?_ ?_
      · push_cast
        omega
      · push_cast
        omega
    obtain ⟨inside', slow', near'⟩ := physics_level (l := l) (flat (k + 1)) before (slower slow.1) (slower slow.2)
    exact ⟨inside', slow', near.trans near'⟩

private theorem physics_rest {s : BitVec 16 × BitVec 16} (flat : Flat level s) (inside : Inside m)
    (rest : Slow 0 m) :
    physics level l m s.1 s.2 = m := by
  obtain ⟨⟨x, y, vx, vy⟩, rfl⟩ : ∃ m', m = m' := ⟨m, rfl⟩
  obtain ⟨rfl, rfl⟩ : vx = 0 ∧ vy = 0 := by simpa [Slow] using rest
  have still : damp level 0 = 0 := by
    have slow := damp_slower level (v := 0) (n := 0) (by simp) le_rfl
    simpa using slow
  obtain ⟨-, slow, near⟩ := physics_level (l := l) flat inside (n := 0) (by simp [still]) (by simp [still])
  generalize physics level l ⟨x, y, 0, 0⟩ s.1 s.2 = m' at slow near
  obtain ⟨x', y', vx', vy'⟩ := m'
  obtain ⟨rfl, rfl⟩ : vx' = 0 ∧ vy' = 0 := by simpa [Slow] using slow
  obtain ⟨sameX, sameY⟩ : x' - x = 0 ∧ y' - y = 0 := by simpa [Near] using near
  rw [show x' = x by omega, show y' = y by omega]

/-- Whatever the level, the walls and the speed: on a flat board the ball stands still from the twelfth
tick on, at most 66 pixels away on each axis. -/
theorem comes_to_rest (flat : ∀ k, Flat level (samples k)) (inside : Inside m) {n : ℕ} (late : 12 ≤ n) :
    rolled level l m samples n = rolled level l m samples 12 ∧ Slow 0 (rolled level l m samples n) ∧
      Near 66 m (rolled level l m samples n) := by
  obtain ⟨inside', rest, near⟩ := slowing (l := l) flat inside (le_refl 11)
  have stays (k : ℕ) : rolled level l m samples (12 + k) = rolled level l m samples 12 := by
    induction k with
    | zero => rfl
    | succ k ih =>
      have next : rolled level l m samples (12 + (k + 1)) = physics level l (rolled level l m samples (12 + k))
          (samples (12 + k)).1 (samples (12 + k)).2 := rfl
      rw [next, ih]
      exact physics_rest (flat _) inside' rest
  obtain ⟨k, rfl⟩ := Nat.exists_eq_add_of_le late
  rw [stays]
  exact ⟨rfl, rest, near⟩

/-- A ball at full speed on the first layout. -/
theorem comes_to_rest_fast : Slow 0
    (rolled 1 (genLayout 1 0xACE1) ⟨300, 300, 12, -12⟩ (fun _ => (0, 0)) 20) :=
  (comes_to_rest (l := genLayout 1 0xACE1) (m := ⟨300, 300, 12, -12⟩) (fun _ => ⟨by decide, by decide⟩)
    (by simp [Inside]) (by decide)).2.1

end Run

/-! ## A device that lies level -/

section Device

/-- The samples of the device are inside the dead band. -/
def Lies (d : Device) : Prop :=
  ∀ k, |(outputsOf (d.regs k)).1.toInt| < deadBand ∧ |(outputsOf (d.regs k)).2.toInt| < deadBand

theorem flat_of_lies {d : Device} (lies : Lies d) (level k : ℕ) :
    Flat level ((deviceMove d k).ax, (deviceMove d k).ay) := by
  have dead {a : BitVec 16} (small : |a.toInt| < deadBand) : thrust level (accelGame a) = 0 := by
    have none : accelGame a = accelGame 0 := by simp only [accelGame, if_pos small]; rfl
    rw [none, thrust_rest]
  exact ⟨dead (lies _).1, dead (lies _).2⟩

variable {b : Board}

/-- The first level, before the first move. -/
def firstLevel (b : Board) : Game := (opening b).deal 1

private theorem first_move {i : Move} (ready : i.ready = true) (flat : Flat 1 (i.ax, i.ay)) :
    (firstLevel b).step i = firstLevel b := by
  have spawn : physics 1 (genLayout 1 (opening b).seed) ⟨40, 40, 0, 0⟩ i.ax i.ay = ⟨40, 40, 0, 0⟩ :=
    @physics_rest 1 _ ⟨40, 40, 0, 0⟩ (i.ax, i.ay) flat (by simp [Inside]) (by simp [Slow])
  have shape : (firstLevel b).step i = if i.ready then (firstLevel b).land
      (physics 1 (genLayout 1 (opening b).seed) ⟨40, 40, 0, 0⟩ i.ax i.ay) else firstLevel b := rfl
  rw [shape, if_pos ready, spawn]
  rfl

private theorem level_game {d : Device} (lies : Lies d) (k : ℕ) :
    run Game.step (opening b) (deviceMove d) (275 + k) = firstLevel b := by
  induction k with
  | zero =>
    rw [run_succ, countdown (fun _ => rfl) le_rfl]
    rfl
  | succ k ih =>
    rw [← Nat.add_assoc, run_succ, ih]
    exact first_move rfl (flat_of_lies lies 1 _)

/-- With a device that lies level, the game stays at the spawn of the first level for ever. -/
theorem level_device_stays (b : Board) (d : Device) (own : d.a7 = addr7) (lies : Lies d)
    (input : ℕ → AGame.In) (wired : ∀ n, (input n).slave = drive defaults d n)
    (released : ∀ n, tickClock 274 ≤ n → (input n).iLeftPb = true) {k : ℕ} (late : 275 ≤ k) :
    (engine b input (tickClock k)).Rests (firstLevel b) ∧
      Painted (AGame.after b input (tickClock k)).board.committed
        ((genLayout 1 0xACE1).scene 40 40) fbSize := by
  obtain ⟨j, rfl⟩ := Nat.exists_eq_add_of_le late
  have rests := device_rests (b := b) wired own released (275 + j)
  rw [level_game lies] at rests
  exact ⟨rests, picture_shown (late_tick late) rests⟩

private theorem flat_lies : Lies flat := by
  intro k
  rw [flat_outputs]
  decide

theorem level_device_stays_flat : Painted
    (AGame.after Framebuffer.coldBoard (fun n => ⟨drive defaults flat n, true⟩) (tickClock 1000)).board.committed
      ((genLayout 1 0xACE1).scene 40 40) fbSize :=
  (level_device_stays Framebuffer.coldBoard flat rfl flat_lies
    (fun n => ⟨drive defaults flat n, true⟩) (fun _ => rfl) (fun _ _ => rfl) (by decide)).2

end Device

end Telecran.Soundness.Rest
