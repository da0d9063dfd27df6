import Telecran.Proofs.Play
import Telecran.Proofs.Walls

/-! # Collision of the ball with the walls

A physics tick tests each axis with the other one at its old coordinate, so neither test sees the
cell that a diagonal move reaches. Generated walls are thicker than one tick's move, which leaves
the missed corner as the only way into a wall: the confinement to the border never adds one.
-/

namespace Telecran.Soundness.Collision

open Model

section Tick

variable {level : ℕ} {seed : BitVec 16} {x y u v : ℤ}

/-- Confining a move that is free along `x` neither enters nor leaves a wall. -/
private theorem confine_inRect {r : Rect} (area : r.WallOf (thick level)) (low : 12 ≤ y)
    (high : y ≤ 467) (short : v < thick level) (column : 10 < x + u ∧ x + u < 709)
    (line : 10 < y + v ∧ y + v < 469) (freeX : inRect (x + u) y r = false) :
    inRect (confine (x + u) 707) (confine (y + v) 467) r = true ↔
      inRect (x + u) (y + v) r = true := by
  have side := thick_bounds level
  obtain ⟨left, right, top, bottom, width, height⟩ := area
  rw [Bool.eq_false_iff, Ne, inRect_iff] at freeX
  rw [inRect_iff, inRect_iff]
  unfold confine
  dsimp only
  split_ifs <;> omega

private theorem confine_isWall (low : 12 ≤ y) (high : y ≤ 467) (short : v < thick level)
    (freeX : (genLayout level seed).isWall (x + u) y = false)
    (freeY : (genLayout level seed).isWall x (y + v) = false) :
    (genLayout level seed).isWall (confine (x + u) 707) (confine (y + v) 467) =
      (genLayout level seed).isWall (x + u) (y + v) := by
  rw [Bool.eq_false_iff, Ne, Layout.isWall_iff, not_or] at freeX freeY
  have walls : ∀ i : Fin maxWalls, i.val < (genLayout level seed).nWalls →
      inRect (x + u) y ((genLayout level seed).walls i) = false := by
    intro i used
    rw [Bool.eq_false_iff]
    intro here
    exact freeX.2 ((Layout.isWallLevel_iff _ _ _).mpr ⟨i, used, here⟩)
  rw [Bool.eq_iff_iff, Layout.isWall_iff, Layout.isWall_iff, Layout.isWallLevel_iff,
    Layout.isWallLevel_iff]
  apply or_congr
  · unfold confine
    dsimp only
    split_ifs <;> omega
  · apply exists_congr
    intro i
    apply and_congr_right
    intro used
    exact confine_inRect (genWall_wallOf level seed used) low high short (by omega) (by omega)
      (walls i used)

end Tick

/-- Both single-axis moves of the tick are open and the cell they lead to together is a wall. -/
def MissedCorner (e : Engine) (i : EngineIn) : Prop :=
  let x := e.bX + damp e.level (e.vX + thrust e.level i.iAx)
  let y := e.bY + damp e.level (e.vY - thrust e.level i.iAy)
  e.layout.isWall x e.bY = false ∧ e.layout.isWall e.bX y = false ∧ e.layout.isWall x y = true

private theorem physics_isWall {level : ℕ} {seed : BitVec 16} {m : Motion} (ax ay : BitVec 16)
    (low : 12 ≤ m.y) (high : m.y ≤ 467) (open_ : (genLayout level seed).isWall m.x m.y = false) :
    (genLayout level seed).isWall (physics level (genLayout level seed) m ax ay).x
        (physics level (genLayout level seed) m ax ay).y = true ↔
      (genLayout level seed).isWall (m.x + damp level (m.vx + thrust level ax)) m.y = false ∧
        (genLayout level seed).isWall m.x (m.y + damp level (m.vy - thrust level ay)) = false ∧
        (genLayout level seed).isWall (m.x + damp level (m.vx + thrust level ax))
          (m.y + damp level (m.vy - thrust level ay)) = true := by
  have short := (damp_lt_thick level (m.vy - thrust level ay)).2
  have side := thick_bounds level
  have right : (hRes : ℤ) - 13 = 707 := rfl
  have bottom : (vRes : ℤ) - 13 = 467 := rfl
  simp only [physics, right, bottom]
  generalize damp level (m.vx + thrust level ax) = dx
  generalize damp level (m.vy - thrust level ay) = dy at short
  -- a blocked axis is a move by zero along it, which is free
  have still : (genLayout level seed).isWall (m.x + 0) m.y = false := by rwa [add_zero]
  have still' : (genLayout level seed).isWall m.x (m.y + 0) = false := by rwa [add_zero]
  cases stopX : (genLayout level seed).isWall (m.x + dx) m.y with
  | true =>
    cases stopY : (genLayout level seed).isWall m.x (m.y + dy) with
    | true =>
      have kept := confine_isWall (v := 0) low high (by omega) still still'
      simp only [add_zero] at kept
      simp [kept, open_]
    | false =>
      have kept := confine_isWall low high short still stopY
      simp only [add_zero] at kept
      simp [kept, stopY]
  | false =>
    cases stopY : (genLayout level seed).isWall m.x (m.y + dy) with
    | true =>
      have kept := confine_isWall (v := 0) low high (by omega) stopX still'
      simp only [add_zero] at kept
      simp [kept, stopX]
    | false =>
      have kept := confine_isWall low high short stopX stopY
      simp [kept]

/-- From a free cell of a generated layout a physics tick leads to a free cell if and only if it
does not run diagonally into a corner. -/
theorem ball_free_iff {e : Engine} {i : EngineIn} {seed : BitVec 16} (ticks : e.Ticks i)
    (generated : e.layout = genLayout e.level seed)
    (area : 12 ≤ e.bX ∧ e.bX ≤ 707 ∧ 12 ≤ e.bY ∧ e.bY ≤ 467)
    (open_ : e.layout.isWall e.bX e.bY = false) :
    e.layout.isWall (e.clock i).bX (e.clock i).bY = false ↔ ¬ MissedCorner e i := by
  have landed := physics_isWall (m := e.motion) i.iAx i.iAy area.2.2.1 area.2.2.2 (generated ▸ open_)
  rw [← generated, ← ticks.clock.motion] at landed
  rw [Bool.eq_false_iff, Ne, not_iff_not]
  exact landed

/-- The first level after a hardware reset, being played. -/
def firstLevel (m : Motion) : Engine where
  st := .runIdle
  initAddr := 0
  waitS := 0
  level := 1
  layout := genLayout 1 0xACE1
  lfsr := lfsrNext 0xACE1
  bX := m.x
  bY := m.y
  bXp := m.x
  bYp := m.y
  vX := m.vx
  vY := m.vy
  dx := -ballR
  dy := -ballR
  weR := false
  addrR := 0
  dataR := pixBall

/-- A tick with a level board. -/
def levelTick : EngineIn := ⟨false, false, 0, 0, true, true, false⟩

theorem levelTick_ticks (m : Motion) : (firstLevel m).Ticks levelTick := ⟨rfl, rfl, rfl, rfl, rfl⟩

/-- At rest on the spawn the ball stays free. -/
theorem ball_free_iff_spawn :
    (firstLevel ⟨40, 40, 0, 0⟩).layout.isWall ((firstLevel ⟨40, 40, 0, 0⟩).clock levelTick).bX
        ((firstLevel ⟨40, 40, 0, 0⟩).clock levelTick).bY = false ↔
      ¬ MissedCorner (firstLevel ⟨40, 40, 0, 0⟩) levelTick :=
  have generated : (firstLevel ⟨40, 40, 0, 0⟩).layout = genLayout 1 0xACE1 := rfl
  ball_free_iff (levelTick_ticks _) generated (by decide) (by decide)

/-- Just off the upper left corner of the first wall `(277..569, 217..225)`, moving down and to the
right at the speed cap, the ball passes both tests and lands on `(281, 221)` inside the wall. -/
theorem ball_inside_wall :
    (firstLevel ⟨276, 216, 6, 6⟩).layout.isWall 276 216 = false ∧ vmax 1 = 6 ∧
      ((firstLevel ⟨276, 216, 6, 6⟩).clock levelTick).motion = ⟨281, 221, 5, 5⟩ ∧
      (firstLevel ⟨276, 216, 6, 6⟩).layout.isWall 281 221 = true := by
  decide

end Telecran.Soundness.Collision
