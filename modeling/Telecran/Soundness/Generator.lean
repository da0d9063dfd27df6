import Telecran.Proofs.Walls

/-! # The size and place of generated walls

The exact layout `S_LEVEL_GEN` produces: every wall in use lies in the wall area, has the thickness
of its level and the length of its orientation, and the wall registers not in use hold rectangles
that contain no pixel.
-/

namespace Telecran.Soundness.Generator

open Model

/-- A wall of a level, lying flat or standing up. -/
structure Generated (level : ℕ) (flat : Bool) (r : Rect) : Prop where
  left : 40 ≤ r.x0
  wide : r.x0 < r.x1
  right : r.x1 ≤ 690
  top : 40 ≤ r.y0
  tall : r.y0 < r.y1
  bottom : r.y1 ≤ 470
  thickness : (if flat then r.y1 - r.y0 else r.x1 - r.x0) = (min (8 + level / 2) 18 : ℕ)
  length : if flat then 180 ≤ r.x1 - r.x0 ∧ r.x1 - r.x0 ≤ 307 else 140 ≤ r.y1 - r.y0 ∧ r.y1 - r.y0 ≤ 267

private theorem wantWalls_eq (level : ℕ) : wantWalls level = min (6 + level) 20 := by
  unfold wantWalls maxWalls
  split_ifs <;> omega

private theorem thick_eq (level : ℕ) : thick level = min (8 + level / 2) 18 := by
  unfold thick
  split_ifs <;> omega

/-- The lowest bit of the seed lays the walls flat or stands them up. -/
private theorem genWall_generated (level : ℕ) (seed : BitVec 16) {i : ℕ} (used : i < wantWalls level) :
    Generated level (seed.getLsbD 0) (genWall level seed i) := by
  have area := genWall_wallOf level seed used
  have side := thick_bounds level
  have wide := area.width
  have tall := area.height
  have exact := thick_eq level
  refine ⟨area.left, by omega, area.right, area.top, by omega, area.bottom, ?_, ?_⟩
  · rw [genWall_eq level seed used, ← exact, wallW, wallH]
    cases seed.getLsbD 0 <;> simp
  · rw [genWall_eq level seed used, wallW, wallH]
    cases seed.getLsbD 0 <;> simp <;> omega

/-- A wall register that is not in use contains no pixel. -/
private theorem genWall_unused (level : ℕ) (seed : BitVec 16) {i : ℕ} (unused : wantWalls level ≤ i)
    (x y : ℤ) : inRect x y (genWall level seed i) = false := by
  rw [Bool.eq_false_iff, Ne, inRect_iff, genWall, if_neg (by omega)]
  dsimp only
  omega

/-- `is_wall_level` without its guard: all wall registers are tested. -/
def scanAll (l : Layout) (x y : ℤ) : Bool :=
  (List.finRange maxWalls).any fun i => inRect x y (l.walls i)

/-- Level generation uses `min (6 + level) 20` walls, all of one orientation and all within bounds,
and leaves the other registers empty, so that the guard of `is_wall_level` decides nothing. -/
theorem levelGen_bounds (e : Engine) :
    e.levelGen.layout.nWalls = min (6 + e.level) 20 ∧
    (∃ flat : Bool, ∀ i : Fin maxWalls, i.val < e.levelGen.layout.nWalls →
      Generated e.level flat (e.levelGen.layout.walls i)) ∧
    (∀ i : Fin maxWalls, e.levelGen.layout.nWalls ≤ i.val →
      ∀ x y, inRect x y (e.levelGen.layout.walls i) = false) ∧
    ∀ x y, e.levelGen.layout.isWallLevel x y = scanAll e.levelGen.layout x y := by
  have unused : ∀ i : Fin maxWalls, wantWalls e.level ≤ i.val →
      ∀ x y, inRect x y (genWall e.level e.lfsr i) = false :=
    fun i above x y => genWall_unused e.level e.lfsr above x y
  refine ⟨wantWalls_eq e.level, ⟨e.lfsr.getLsbD 0, ?_⟩, unused, ?_⟩
  · intro i used
    exact genWall_generated e.level e.lfsr used
  · intro x y
    apply Bool.eq_iff_iff.mpr
    rw [Layout.isWallLevel_iff, scanAll, List.any_eq_true]
    constructor
    · rintro ⟨i, used, here⟩
      exact ⟨i, List.mem_finRange i, here⟩
    · rintro ⟨i, -, here⟩
      refine ⟨i, ?_, here⟩
      by_contra above
      have empty := unused i (Nat.le_of_not_lt above) x y
      exact Bool.noConfusion (here.symm.trans empty)

end Telecran.Soundness.Generator
