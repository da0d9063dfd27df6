import Telecran.Proofs.Transitions

/-! # The game ends exactly on visible contact

The interval test behind losing and winning agrees with the pixels: two rectangles overlap if and
only if they share one. No level starts with the ball on the hazard or the goal, and every tick
that brings it there ends the game, so in play neither the ball nor its last position touches them.
-/

namespace Telecran.Soundness.Contact

open Machine Model

/-- Some pixel of the ball's box around `(cx, cy)` lies in the rectangle. -/
def Touches (cx cy : ℤ) (r : Rect) : Prop :=
  ∃ x y, (|x - cx| ≤ 2 ∧ |y - cy| ≤ 2) ∧ inRect x y r = true

theorem hitRect_touches {r : Rect} (wide : r.x0 ≤ r.x1) (tall : r.y0 ≤ r.y1) (cx cy : ℤ) :
    hitRect cx cy r = true ↔ Touches cx cy r := by
  simp only [hitRect_iff, Touches, inRect_iff, abs_le]
  constructor
  · rintro overlap
    refine ⟨max (cx - 2) r.x0, max (cy - 2) r.y0, ?_, ?_⟩ <;> omega
  · rintro ⟨x, y, box, inside⟩
    omega

theorem hitRect_hazard (level : ℕ) (cx cy : ℤ) :
    hitRect cx cy (genHazard level) = true ↔ Touches cx cy (genHazard level) :=
  hitRect_touches (by dsimp only [genHazard]; omega) (by dsimp only [genHazard]; omega) cx cy

theorem hitRect_goal (cx cy : ℤ) : hitRect cx cy goal = true ↔ Touches cx cy goal :=
  hitRect_touches (by decide) (by decide) cx cy

/-! ## The invariant -/

/-- A ball there touches neither the hazard nor the goal. -/
structure Apart (cx cy : ℤ) (l : Layout) : Prop where
  hazard : ¬ Touches cx cy l.hz
  goal : ¬ Touches cx cy goal

/-- A level is on the screen, or being painted. -/
def Playing (st : St) : Prop :=
  st = .initDraw ∨ st = .runIdle ∨ st = .eraseBall ∨ st = .drawBall

structure Safe (e : Engine) : Prop where
  hazard : e.layout.hz = genHazard e.level
  ball : Apart e.bX e.bY e.layout
  last : Apart e.bXp e.bYp e.layout

/-- The spawn is far from the hazard of every level and from the goal. -/
private theorem spawn_apart (level : ℕ) (seed : BitVec 16) : Apart 40 40 (genLayout level seed) where
  hazard touching := by
    have overlap := (hitRect_hazard level 40 40).mpr touching
    rw [hitRect_iff] at overlap
    dsimp only [genHazard] at overlap
    omega
  goal touching := by
    have overlap := (hitRect_goal 40 40).mpr touching
    contradiction

private theorem afterPainting_playing {st : St} (playing : Playing (Engine.afterPainting st)) :
    Playing st := by
  cases st <;> simp_all [Playing, Engine.afterPainting]

private theorem Safe.unmoved {e e' : Engine} (safe : Safe e) (same : e.Unmoved e') : Safe e' := by
  obtain ⟨⟨level, layout, motion⟩, -, bXp, bYp⟩ := same
  have column : e'.bX = e.bX := congrArg Motion.x motion
  have row : e'.bY = e.bY := congrArg Motion.y motion
  obtain ⟨hazard, ball, last⟩ := safe
  refine ⟨?_, ?_, ?_⟩
  · rw [level, layout, hazard]
  · rwa [column, row, layout]
  · rwa [bXp, bYp, layout]

/-- A physics tick ends the game on contact and otherwise leaves the ball apart. -/
private theorem tick_outcome {e e' : Engine} {m : Motion} (safe : Safe e) (ticked : e.Ticked m e') :
    (e'.st = .loseMsgDraw ↔ Touches m.x m.y e.layout.hz) ∧
      (e'.st = .winMsgDraw ↔ ¬ Touches m.x m.y e.layout.hz ∧ Touches m.x m.y goal) ∧
      (e'.st = .eraseBall ↔ Apart m.x m.y e.layout) := by
  have hazard := hitRect_hazard e.level m.x m.y
  have won := hitRect_goal m.x m.y
  have apart : Apart m.x m.y e.layout ↔ ¬ Touches m.x m.y e.layout.hz ∧ ¬ Touches m.x m.y goal :=
    ⟨fun both => ⟨both.hazard, both.goal⟩, fun both => ⟨both.1, both.2⟩⟩
  rw [← safe.hazard] at hazard
  rw [apart, ticked.next, ← hazard, ← won]
  split_ifs with lost reached
  · simp [lost]
  · simp [lost, reached]
  · simp [lost, reached]

theorem safe_clock {e : Engine} (i : EngineIn) (before : Playing e.st → Safe e)
    (playing : Playing (e.clock i).st) : Safe (e.clock i) := by
  cases e.clocked i with
  | quit accepted same next => simp [Playing, next] at playing
  | generate ignored here next generated last =>
    obtain ⟨level, layout, motion⟩ := generated
    have column : (e.clock i).bX = 40 := congrArg Motion.x motion
    have row : (e.clock i).bY = 40 := congrArg Motion.y motion
    refine ⟨?_, ?_, ?_⟩
    · rw [level, layout]
      rfl
    · rw [column, row, layout]
      exact spawn_apart _ _
    · rw [last.1, last.2, layout]
      exact spawn_apart _ _
  | tick ignored ticks ticked last =>
    have safe := before (Or.inr (Or.inl ticks.1))
    obtain ⟨lost, won, apart⟩ := tick_outcome safe ticked
    have column : (e.clock i).bX = _ := congrArg Motion.x ticked.motion
    have row : (e.clock i).bY = _ := congrArg Motion.y ticked.motion
    have going : (e.clock i).st = .eraseBall := by
      have next := ticked.next
      split_ifs at next <;> simp_all [Playing]
    refine ⟨?_, ?_, ?_⟩
    · rw [ticked.level, ticked.layout, safe.hazard]
    · rw [column, row, ticked.layout]
      exact apart.mp going
    · rw [last.1, last.2, ticked.layout]
      exact safe.ball
  | expire ignored expires next level => simp [Playing, next] at playing
  | stay ignored busy stayed =>
    refine (before ?_).unmoved stayed.toUnmoved
    rcases stayed.next with same | done
    · rwa [same] at playing
    · exact afterPainting_playing (done ▸ playing)

theorem safe_run (e : Engine) (input : ℕ → EngineIn) (n : ℕ)
    (playing : Playing (run Engine.clock e.reset input n).st) :
    Safe (run Engine.clock e.reset input n) := by
  revert playing
  refine run_invariant (P := fun e => Playing e.st → Safe e) ?_ ?_ n
  · simp [Playing, Engine.reset]
  · exact fun _ i before playing => safe_clock i before playing

/-- In every run from the hardware reset, a physics tick loses if and only if the new box shares a
pixel with the hazard, and otherwise wins if and only if it shares one with the goal; so in play no
box around the ball or its last position has such a pixel. -/
theorem contact_ends (e : Engine) (input : ℕ → EngineIn) (n : ℕ) :
    let s := run Engine.clock e.reset input n
    let t := run Engine.clock e.reset input (n + 1)
    (s.Ticks (input n) →
      (t.st = .loseMsgDraw ↔ Touches t.bX t.bY t.layout.hz) ∧
      (t.st = .winMsgDraw ↔ ¬ Touches t.bX t.bY t.layout.hz ∧ Touches t.bX t.bY goal)) ∧
    (s.st = .runIdle ∨ s.st = .eraseBall ∨ s.st = .drawBall →
      (¬ Touches s.bX s.bY s.layout.hz ∧ ¬ Touches s.bX s.bY goal) ∧
        ¬ Touches s.bXp s.bYp s.layout.hz ∧ ¬ Touches s.bXp s.bYp goal) := by
  dsimp only
  constructor
  · intro ticks
    have safe := safe_run e input n (Or.inr (Or.inl ticks.1))
    have ticked := ticks.clock
    obtain ⟨lost, won, -⟩ := tick_outcome safe ticked
    rw [← ticked.motion, ← ticked.layout] at lost won
    exact ⟨lost, won⟩
  · intro playing
    obtain ⟨-, ball, last⟩ := safe_run e input n (by unfold Playing; tauto)
    exact ⟨⟨ball.hazard, ball.goal⟩, last.hazard, last.goal⟩

end Telecran.Soundness.Contact
