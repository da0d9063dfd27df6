import Mathlib.Algebra.Order.Group.Abs
import Telecran.Model.Engine

/-! # Where generated walls can lie

Whatever the LFSR holds, a generated wall stays in the wall area, is thicker than a tick can move
the ball, and leaves the strips above row 40 and right of column 690 open.
-/

namespace Telecran.Model

/-- A wall inside the wall area, at least `side` thick both ways. -/
structure Rect.WallOf (side : ℤ) (r : Rect) : Prop where
  left : 40 ≤ r.x0
  right : r.x1 ≤ 690
  top : 40 ≤ r.y0
  bottom : r.y1 ≤ 470
  width : r.x0 + side ≤ r.x1
  height : r.y0 + side ≤ r.y1

theorem thick_bounds (level : ℕ) : 8 ≤ thick level ∧ thick level ≤ 18 := by
  unfold thick
  split_ifs <;> omega

/-- The origin of wall `i`, counted from `(40, 40)`, before the edges move it. -/
def rollX (seed : BitVec 16) (i : ℕ) : ℕ := (seed.toNat + i * 97) % 65536 % 620

def rollY (seed : BitVec 16) (i : ℕ) : ℕ := (seed.toNat + i * 53) % 65536 % 380

/-- All walls of a layout have one size: odd seeds lay them flat, even seeds stand them up. -/
def wallW (level : ℕ) (seed : BitVec 16) : ℕ :=
  if seed.getLsbD 0 then 180 + seed.toNat / 2 % 128 else thick level

def wallH (level : ℕ) (seed : BitVec 16) : ℕ :=
  if seed.getLsbD 0 then thick level else 140 + seed.toNat / 2 % 128

/-- A wall keeps its origin unless it would leave the wall area, where it touches the edge. -/
def wallX (level : ℕ) (seed : BitVec 16) (i : ℕ) : ℤ :=
  min (40 + rollX seed i : ℤ) (690 - wallW level seed)

def wallY (level : ℕ) (seed : BitVec 16) (i : ℕ) : ℤ :=
  min (40 + rollY seed i : ℤ) (470 - wallH level seed)

theorem wallW_bounds (level : ℕ) (seed : BitVec 16) :
    thick level ≤ wallW level seed ∧ wallW level seed ≤ 307 := by
  have side := thick_bounds level
  unfold wallW
  split_ifs <;> omega

theorem wallH_bounds (level : ℕ) (seed : BitVec 16) :
    thick level ≤ wallH level seed ∧ wallH level seed ≤ 267 := by
  have side := thick_bounds level
  unfold wallH
  split_ifs <;> omega

private theorem remainder_eq (v : BitVec 16) (a : ℕ) {n : ℕ} (small : n < 2 ^ 16) :
    ((v + BitVec.ofNat 16 a) % BitVec.ofNat 16 n).toNat = (v.toNat + a) % 65536 % n := by
  rw [BitVec.toNat_umod, BitVec.toNat_add, BitVec.toNat_ofNat, BitVec.toNat_ofNat,
    Nat.mod_eq_of_lt small, Nat.add_mod_mod]

private theorem long_eq (seed : BitVec 16) :
    (seed.extractLsb' 1 7).toNat % 160 = seed.toNat / 2 % 128 := by
  rw [BitVec.extractLsb'_toNat, Nat.shiftRight_eq_div_pow]
  omega

theorem genWall_eq (level : ℕ) (seed : BitVec 16) {i : ℕ} (used : i < wantWalls level) :
    genWall level seed i =
      ⟨wallX level seed i, wallX level seed i + wallW level seed,
        wallY level seed i, wallY level seed i + wallH level seed⟩ := by
  have long : ((seed.extractLsb' 1 7).toNat : ℤ) % 160 = (seed.toNat / 2 % 128 : ℕ) := by
    exact_mod_cast long_eq seed
  have edge : ∀ n w limit : ℤ, (if n + w > limit then limit - w else n) = min n (limit - w) := by
    intro n w limit
    split_ifs <;> omega
  rw [genWall, if_pos used]
  simp only [remainder_eq seed _ (show 620 < 2 ^ 16 by decide),
    remainder_eq seed _ (show 380 < 2 ^ 16 by decide), long, edge, wallX, wallY,
    rollX, rollY, wallW, wallH, Nat.cast_ite, Nat.cast_add, Nat.cast_ofNat]

/-- Every wall in use lies in the wall area. -/
theorem genWall_wallOf (level : ℕ) (seed : BitVec 16) {i : ℕ} (used : i < wantWalls level) :
    (genWall level seed i).WallOf (thick level) := by
  have width := wallW_bounds level seed
  have height := wallH_bounds level seed
  rw [genWall_eq level seed used]
  constructor <;> dsimp only [wallX, wallY] <;> omega

/-! ## The speed of the ball -/

theorem vmax_bounds (level : ℕ) : 6 ≤ vmax level ∧ vmax level ≤ 12 := by
  unfold vmax
  split_ifs <;> omega

/-- A sixteenth of the capped speed is lost. -/
theorem damp_abs (level : ℕ) (v : ℤ) :
    |damp level v| = |clamp v (-vmax level) (vmax level)| * 15 / 16 := by
  have size : (damp level v).natAbs = (clamp v (-vmax level) (vmax level) * 15).natAbs / 16 :=
    Int.natAbs_tdiv ..
  rw [Int.natAbs_mul] at size
  rw [Int.abs_eq_natAbs, Int.abs_eq_natAbs, size]
  rfl

/-- The cap does not raise a speed. -/
theorem clamp_abs (level : ℕ) (v : ℤ) :
    |clamp v (-vmax level) (vmax level)| ≤ vmax level ∧ |clamp v (-vmax level) (vmax level)| ≤ |v| := by
  have cap := vmax_bounds level
  have size := le_abs_self v
  have size' := neg_abs_le v
  rw [abs_le, abs_le]
  unfold clamp
  split_ifs <;> omega

/-- Friction takes a capped speed no further than the cap. -/
theorem damp_range (level : ℕ) (v : ℤ) : |damp level v| ≤ vmax level := by
  have capped := (clamp_abs level v).1
  have size := abs_nonneg (clamp v (-vmax level) (vmax level))
  rw [damp_abs]
  omega

theorem damp_lt_thick (level : ℕ) (v : ℤ) :
    -(thick level : ℤ) < damp level v ∧ damp level v < thick level := by
  have slow := damp_range level v
  have cap : vmax level < thick level := by
    unfold vmax thick
    split_ifs <;> omega
  rw [abs_le] at slow
  omega

/-! ## Wall cells -/

theorem isWallLevel_wallOf {level : ℕ} {seed : BitVec 16} {x y : ℤ}
    (wall : (genLayout level seed).isWallLevel x y = true) :
    ∃ r : Rect, r.WallOf (thick level) ∧ inRect x y r = true ∧
      ∀ x' y', inRect x' y' r = true → (genLayout level seed).isWallLevel x' y' = true := by
  obtain ⟨i, used, here⟩ := (Layout.isWallLevel_iff _ _ _).mp wall
  exact ⟨_, genWall_wallOf level seed used, here,
    fun x' y' there => (Layout.isWallLevel_iff _ _ _).mpr ⟨i, used, there⟩⟩

/-- Outside the wall area only the border is a wall. -/
theorem isWall_outside (level : ℕ) (seed : BitVec 16) {x y : ℤ} (inside : 10 < x ∧ x < 709)
    (inside' : 10 < y ∧ y < 469) (outside : x < 40 ∨ 690 < x ∨ y < 40) :
    (genLayout level seed).isWall x y = false := by
  rw [Bool.eq_false_iff, Ne, Layout.isWall_iff]
  rintro (border | wall)
  · omega
  · obtain ⟨r, area, here, -⟩ := isWallLevel_wallOf wall
    rw [inRect_iff] at here
    have := area.left
    have := area.right
    have := area.top
    omega

end Telecran.Model
