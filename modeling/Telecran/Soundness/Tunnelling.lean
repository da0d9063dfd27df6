import Mathlib.Order.Interval.Set.UnorderedInterval
import Telecran.Soundness.Collision

/-! # The ball never jumps over a wall

Only the cell a tick moves to is tested. At every level the capped and damped speed stays below the
thickness of the walls, so a cell of a wall between the old and the new coordinate would have put
one of the two ends into the same wall.
-/

namespace Telecran.Soundness.Tunnelling

open Model Collision

/-- An interval longer than the step that meets the stretch between two ends contains one of them. -/
private theorem interval_skipped {lo hi side a d t : ℤ} (long : lo + side ≤ hi)
    (short : -side < d ∧ d < side) (between : t ∈ Set.uIcc a (a + d)) (inside : lo ≤ t ∧ t ≤ hi) :
    lo ≤ a ∧ a ≤ hi ∨ lo ≤ a + d ∧ a + d ≤ hi := by
  rw [Set.mem_uIcc] at between
  omega

section Axis

variable {side lo hi : ℤ} {wall : ℤ → Bool}

/-- The walls along a line: beyond both edges, and in stretches longer than `side`. -/
structure Stretches (side lo hi : ℤ) (wall : ℤ → Bool) : Prop where
  edges : ∀ t, t ≤ lo ∨ hi ≤ t → wall t = true
  long : ∀ t, wall t = true → (t ≤ lo ∨ hi ≤ t) ∨
    ∃ a b, a + side ≤ b ∧ (a ≤ t ∧ t ≤ b) ∧ ∀ u, a ≤ u → u ≤ b → wall u = true

/-- Free ends of a step shorter than a wall have only free cells between them. -/
private theorem Stretches.free {a d t : ℤ} (stretches : Stretches side lo hi wall)
    (short : -side < d ∧ d < side) (start : wall a = false) (stop : wall (a + d) = false)
    (between : t ∈ Set.uIcc a (a + d)) : wall t = false := by
  by_contra blocked
  rcases stretches.long t (Bool.not_eq_false _ ▸ blocked) with edge | ⟨first, last, long, inside, all⟩
  · have inner : ¬(a ≤ lo ∨ hi ≤ a) :=
      fun ends => Bool.false_ne_true (start.symm.trans (stretches.edges a ends))
    have inner' : ¬(a + d ≤ lo ∨ hi ≤ a + d) :=
      fun ends => Bool.false_ne_true (stop.symm.trans (stretches.edges (a + d) ends))
    rw [Set.mem_uIcc] at between
    omega
  · rcases interval_skipped long short between inside with at_start | at_stop
    · exact Bool.false_ne_true (start.symm.trans (all a at_start.1 at_start.2))
    · exact Bool.false_ne_true (stop.symm.trans (all (a + d) at_stop.1 at_stop.2))

/-- Confinement only shortens a step that starts inside the border. -/
private theorem confine_between {a d limit t : ℤ} (low : 12 ≤ a) (high : a ≤ limit)
    (between : t ∈ Set.uIcc a (confine (a + d) limit)) : t ∈ Set.uIcc a (a + d) := by
  simp only [Set.mem_uIcc, confine] at *
  split_ifs at between <;> omega

/-- A blocked axis keeps the ball on its free cell. -/
private theorem still_between {a limit t : ℤ} (low : 12 ≤ a) (high : a ≤ limit)
    (between : t ∈ Set.uIcc a (confine a limit)) : t = a := by
  simp only [Set.mem_uIcc, confine] at between
  split_ifs at between <;> omega

/-- The move of one axis. -/
private theorem Stretches.move {a d limit t : ℤ} (stretches : Stretches side lo hi wall)
    (short : -side < d ∧ d < side) (low : 12 ≤ a) (high : a ≤ limit) (start : wall a = false)
    (between : t ∈ Set.uIcc a (confine (if wall (a + d) then a else a + d) limit)) : wall t = false := by
  split_ifs at between with stop
  · rw [still_between low high between]
    exact start
  · exact stretches.free short start (Bool.not_eq_true _ ▸ stop) (confine_between low high between)

end Axis

section Layout

variable {level : ℕ} {seed : BitVec 16} {x y : ℤ}

/-- The walls along a row inside the border. -/
private theorem row_stretches (top : 12 ≤ y) (bottom : y ≤ 467) :
    Stretches (thick level) 10 709 fun x => (genLayout level seed).isWall x y where
  edges t ends := (Layout.isWall_iff _ _ _).mpr (Or.inl (by omega))
  long t blocked := by
    rcases (Layout.isWall_iff _ _ _).mp blocked with border | wall
    · exact Or.inl (by omega)
    · obtain ⟨r, area, here, all⟩ := isWallLevel_wallOf wall
      rw [inRect_iff] at here
      refine Or.inr ⟨r.x0, r.x1, area.width, ⟨here.1, here.2.1⟩, fun u first last => ?_⟩
      exact (Layout.isWall_iff _ _ _).mpr (Or.inr (all u y (inRect_iff.mpr ⟨first, last, here.2.2⟩)))

/-- The same along a column. -/
private theorem column_stretches (left : 12 ≤ x) (right : x ≤ 707) :
    Stretches (thick level) 10 469 fun y => (genLayout level seed).isWall x y where
  edges t ends := (Layout.isWall_iff _ _ _).mpr (Or.inl (by omega))
  long t blocked := by
    rcases (Layout.isWall_iff _ _ _).mp blocked with border | wall
    · exact Or.inl (by omega)
    · obtain ⟨r, area, here, all⟩ := isWallLevel_wallOf wall
      rw [inRect_iff] at here
      refine Or.inr ⟨r.y0, r.y1, area.height, here.2.2, fun u first last => ?_⟩
      exact (Layout.isWall_iff _ _ _).mpr (Or.inr (all x u (inRect_iff.mpr ⟨here.1, here.2.1, first, last⟩)))

end Layout

/-- After a physics tick no cell of the old row between the old and the new column, and no cell of
the old column between the old and the new row, is a wall. -/
theorem no_tunnelling {e : Engine} {i : EngineIn} {seed : BitVec 16} (ticks : e.Ticks i)
    (generated : e.layout = genLayout e.level seed)
    (area : 12 ≤ e.bX ∧ e.bX ≤ 707 ∧ 12 ≤ e.bY ∧ e.bY ≤ 467)
    (open_ : e.layout.isWall e.bX e.bY = false) :
    (∀ t ∈ Set.uIcc e.bX (e.clock i).bX, e.layout.isWall t e.bY = false) ∧
      ∀ t ∈ Set.uIcc e.bY (e.clock i).bY, e.layout.isWall e.bX t = false := by
  obtain ⟨left, right, top, bottom⟩ := area
  have moved := ticks.clock.motion
  rw [generated] at moved open_ ⊢
  constructor
  · intro t between
    rw [show (e.clock i).bX = (e.clock i).motion.x from rfl, moved] at between
    exact (row_stretches top bottom).move (damp_lt_thick e.level _) left right open_ between
  · intro t between
    rw [show (e.clock i).bY = (e.clock i).motion.y from rfl, moved] at between
    exact (column_stretches left right).move (damp_lt_thick e.level _) top bottom open_ between

/-- Off the upper left corner of the first wall `(277..569, 217..225)`, at the speed cap. -/
theorem no_tunnelling_corner :
    (∀ t ∈ Set.uIcc 276 ((firstLevel ⟨276, 216, 6, 6⟩).clock levelTick).bX,
        (firstLevel ⟨276, 216, 6, 6⟩).layout.isWall t 216 = false) ∧
      ∀ t ∈ Set.uIcc 216 ((firstLevel ⟨276, 216, 6, 6⟩).clock levelTick).bY,
        (firstLevel ⟨276, 216, 6, 6⟩).layout.isWall 276 t = false :=
  have generated : (firstLevel ⟨276, 216, 6, 6⟩).layout = genLayout 1 0xACE1 := rfl
  no_tunnelling (levelTick_ticks _) generated (by decide) (by decide)

end Telecran.Soundness.Tunnelling
