import Mathlib.Logic.Function.Iterate
import Telecran.Proofs.Walls

/-! # Spawn, goal and hazard among the generated walls

The hazard is placed away from the spawn and the goal, but the walls are rolled without looking at
either. A wall reaches the spawn only when both of its rolls are at most 2. Walls may run under the
goal, which is painted over them, and stay solid there.
-/

namespace Telecran.Soundness.Placement

open Model

/-- The seed the `k`-th generated level after a hardware reset is rolled from. -/
def seedAt (k : ℕ) : BitVec 16 := lfsrNext^[k] 0xACE1

theorem hazard_area (level : ℕ) :
    320 ≤ (genHazard level).x0 ∧ (genHazard level).x1 ≤ 479 ∧
      210 ≤ (genHazard level).y0 ∧ (genHazard level).y1 ≤ 329 := by
  dsimp only [genHazard]
  omega

private theorem isWallLevel_genLayout (level : ℕ) (seed : BitVec 16) (x y : ℤ) :
    (genLayout level seed).isWallLevel x y = true ↔
      ∃ i < wantWalls level, inRect x y (genWall level seed i) = true := by
  rw [Layout.isWallLevel_iff]
  constructor
  · rintro ⟨i, used, here⟩
    exact ⟨i, used, here⟩
  · rintro ⟨i, used, here⟩
    have few : wantWalls level ≤ maxWalls := by
      unfold wantWalls
      split_ifs <;> omega
    exact ⟨⟨i, used.trans_le few⟩, used, here⟩

/-! ## The spawn -/

/-- The pixels of the ball's box around the spawn. -/
def SpawnBox (x y : ℤ) : Prop := |x - 40| ≤ 2 ∧ |y - 40| ≤ 2

/-- No pixel of the spawn box lies in a wall of the level, in the hazard or in the goal. -/
def SpawnFree (l : Layout) : Prop :=
  ∀ x y, SpawnBox x y → l.isWallLevel x y = false ∧ inRect x y l.hz = false ∧ inGoal x y = false

/-- A wall meets the spawn box if and only if both rolls are at most 2: the edges move no wall that
close to the spawn. -/
private theorem genWall_spawn (level : ℕ) (seed : BitVec 16) {i : ℕ} (used : i < wantWalls level) :
    (∃ x y, SpawnBox x y ∧ inRect x y (genWall level seed i) = true) ↔
      rollX seed i ≤ 2 ∧ rollY seed i ≤ 2 := by
  have width := wallW_bounds level seed
  have height := wallH_bounds level seed
  have side := thick_bounds level
  simp only [genWall_eq level seed used, inRect_iff, SpawnBox, abs_le, wallX, wallY]
  constructor
  · rintro ⟨x, y, box, here⟩
    omega
  · rintro ⟨column, line⟩
    refine ⟨40 + rollX seed i, 40 + rollY seed i, ?_, ?_⟩ <;> omega

/-- The spawn is always clear of the hazard and of the goal, and clear of the walls unless some wall
in use rolls an origin within two pixels of it. -/
theorem spawn_free_iff (level k : ℕ) :
    (∀ x y, SpawnBox x y →
      inRect x y (genLayout level (seedAt k)).hz = false ∧ inGoal x y = false) ∧
    ((∀ x y, SpawnBox x y → (genLayout level (seedAt k)).isWallLevel x y = false) ↔
      ∀ i < wantWalls level, ¬ (rollX (seedAt k) i ≤ 2 ∧ rollY (seedAt k) i ≤ 2)) := by
  generalize seedAt k = seed
  constructor
  · rintro x y ⟨column, line⟩
    have hazard := hazard_area level
    rw [abs_le] at column line
    rw [Bool.eq_false_iff, Bool.eq_false_iff, Ne, Ne, inGoal, inRect_iff, inRect_iff]
    dsimp only [genLayout, goal]
    omega
  · constructor
    · rintro clear i used rolls
      obtain ⟨x, y, box, here⟩ := (genWall_spawn level seed used).mpr rolls
      have wall := (isWallLevel_genLayout level seed x y).mpr ⟨i, used, here⟩
      rw [clear x y box] at wall
      contradiction
    · rintro far x y box
      rw [Bool.eq_false_iff]
      intro wall
      obtain ⟨i, used, here⟩ := (isWallLevel_genLayout level seed x y).mp wall
      exact far i used ((genWall_spawn level seed used).mp ⟨x, y, box, here⟩)

/-- The seed after 1594 generated levels lays the first wall of level 1 from `(41, 41)`. -/
theorem spawn_walled :
    seedAt 1594 = 0xE615 ∧ genWall 1 (seedAt 1594) 0 = ⟨41, 231, 41, 49⟩ ∧
      ¬ SpawnFree (genLayout 1 (seedAt 1594)) := by
  have seed : seedAt 1594 = 0xE615 := by decide +kernel
  have wall : (genLayout 1 0xE615).isWallLevel 41 41 = true := by decide
  refine ⟨seed, seed ▸ by decide, fun free => ?_⟩
  have clear := (free 41 41 ⟨by decide, by decide⟩).1
  rw [seed, wall] at clear
  exact Bool.noConfusion clear

/-! ## The goal -/

/-- Every solid pixel outside the hazard is painted as a wall. -/
def SolidShown (l : Layout) : Prop :=
  ∀ x y, OnScreen x y → l.isWall x y = true → inRect x y l.hz = false →
    inGoal x y = false ∧ l.background x y = pixWall

/-- A wall runs under the goal if and only if it reaches its column and starts above its last row. -/
private theorem genWall_goal (level : ℕ) (seed : BitVec 16) {i : ℕ} (used : i < wantWalls level) :
    (∃ x y, inGoal x y = true ∧ inRect x y (genWall level seed i) = true) ↔
      600 ≤ rollX seed i + wallW level seed ∧ rollY seed i ≤ 70 ∧
        20 ≤ rollY seed i + wallH level seed := by
  have width := wallW_bounds level seed
  have height := wallH_bounds level seed
  have side := thick_bounds level
  simp only [genWall_eq level seed used, inGoal, inRect_iff, goal, wallX, wallY]
  constructor
  · rintro ⟨x, y, inside, here⟩
    omega
  · rintro ⟨column, line, low⟩
    refine ⟨max 640 (min (40 + rollX seed i : ℤ) (690 - wallW level seed)),
      max 60 (40 + rollY seed i : ℤ), ?_, ?_⟩ <;> omega

/-- A solid pixel outside the hazard is painted as a wall unless it lies in the goal, and one that
lies in the goal exists if and only if some wall in use is rolled under it. -/
theorem solid_shown_iff (level : ℕ) (seed : BitVec 16) :
    (∀ x y, OnScreen x y → (genLayout level seed).isWall x y = true →
      inRect x y (genLayout level seed).hz = false → inGoal x y = false →
      (genLayout level seed).background x y = pixWall) ∧
    (SolidShown (genLayout level seed) ↔
      ∀ i < wantWalls level, ¬ (600 ≤ rollX seed i + wallW level seed ∧ rollY seed i ≤ 70 ∧
        20 ≤ rollY seed i + wallH level seed)) := by
  have painted : ∀ x y, (genLayout level seed).isWall x y = true →
      inRect x y (genLayout level seed).hz = false → inGoal x y = false →
      (genLayout level seed).background x y = pixWall := by
    intro x y wall safe outside
    simp [Layout.background, wall, safe, outside]
  refine ⟨fun x y _ => painted x y, ?_, ?_⟩
  · rintro shown i used rolls
    obtain ⟨x, y, inside, here⟩ := (genWall_goal level seed used).mpr rolls
    have wall := (isWallLevel_genLayout level seed x y).mpr ⟨i, used, here⟩
    have hazard := hazard_area level
    have place := inside
    rw [inGoal, inRect_iff] at place
    dsimp only [goal] at place
    have safe : inRect x y (genLayout level seed).hz = false := by
      rw [Bool.eq_false_iff, Ne, inRect_iff]
      dsimp only [genLayout]
      omega
    have on : OnScreen x y := by
      simp only [OnScreen, hRes, vRes]
      omega
    have hidden := (shown x y on ((Layout.isWall_iff _ _ _).mpr (Or.inr wall)) safe).1
    rw [inside] at hidden
    contradiction
  · rintro clear x y on wall safe
    have outside : inGoal x y = false := by
      rw [Bool.eq_false_iff]
      intro inside
      rcases (Layout.isWall_iff _ _ _).mp wall with border | level_wall
      · rw [inGoal, inRect_iff] at inside
        dsimp only [goal] at inside
        omega
      · obtain ⟨i, used, here⟩ := (isWallLevel_genLayout level seed x y).mp level_wall
        exact clear i used ((genWall_goal level seed used).mp ⟨x, y, inside, here⟩)
    exact ⟨outside, painted x y wall safe outside⟩

/-- In the second level of a run from the hardware reset, a wall reaches from column 413 to 690 and
from row 104 to 112: pixel `(640, 104)` is solid and painted as the goal's background. -/
theorem solid_hidden :
    seedAt 1 = 0x59C3 ∧ genWall 1 (seedAt 1) 5 = ⟨413, 690, 104, 112⟩ ∧
      (genLayout 1 (seedAt 1)).isWall 640 104 = true ∧
      inRect 640 104 (genLayout 1 (seedAt 1)).hz = false ∧ inGoal 640 104 = true ∧
      (genLayout 1 (seedAt 1)).background 640 104 = pixGoalBg ∧
      ¬ SolidShown (genLayout 1 (seedAt 1)) := by
  have wall : (genLayout 1 (seedAt 1)).isWall 640 104 = true := by decide
  have safe : inRect 640 104 (genLayout 1 (seedAt 1)).hz = false := by decide
  refine ⟨by decide, by decide, wall, safe, by decide, by decide, fun shown => ?_⟩
  have hidden := (shown 640 104 (by decide) wall safe).1
  simp [inGoal, inRect, goal] at hidden

end Telecran.Soundness.Placement
