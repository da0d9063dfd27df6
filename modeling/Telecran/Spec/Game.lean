import Telecran.Model.Engine
import Telecran.Proofs.Scene

/-! # The game

The maze game as its player sees it, twenty-five moves a second: a level is dealt and played, won or
lost, and a message is shown for some seconds. Painting takes no time here.
-/

namespace Telecran.Spec

open Machine Model

inductive Phase where
  | playing
  | won (seconds : ℕ)
  | lost (seconds : ℕ)
  | quit (seconds : ℕ)
deriving DecidableEq, Repr

structure Game where
  phase : Phase
  level : ℕ
  seed : BitVec 16
  layout : Layout
  motion : Motion

/-- What a move depends on. -/
structure Move where
  ready : Bool
  ax : BitVec 16
  ay : BitVec 16
  second : Bool
deriving DecidableEq, Repr

namespace Game

/-- A new level, with the ball at rest at the spawn. -/
def deal (g : Game) (level : ℕ) : Game where
  phase := .playing
  level := level
  seed := lfsrNext g.seed
  layout := genLayout level g.seed
  motion := ⟨40, 40, 0, 0⟩

/-- Where the ball has come to decides whether the game goes on. -/
def land (g : Game) (m : Motion) : Game :=
  { g with
    motion := m
    phase := if hitRect m.x m.y g.layout.hz then .lost 10 else if hitRect m.x m.y goal then .won 5 else .playing }

/-- A message counts seconds down, and then a level is dealt. -/
def wait (g : Game) (shown : ℕ → Phase) (seconds level : ℕ) (i : Move) : Game :=
  if i.second then if seconds = 0 then g.deal level else { g with phase := shown (seconds - 1) } else g

def step (g : Game) (i : Move) : Game :=
  match g.phase with
  | .playing => if i.ready then g.land (physics g.level g.layout g.motion i.ax i.ay) else g
  | .won s => g.wait .won s (g.level + 1) i
  | .lost s => g.wait .lost s 1 i
  | .quit s => g.wait .quit s 1 i

/-- The picture on the screen. -/
def picture (g : Game) : ℤ → ℤ → Pixel :=
  match g.phase with
  | .playing => g.layout.scene g.motion.x g.motion.y
  | .won _ => winScreen
  | .lost _ => loseScreen
  | .quit _ => quitScreen

end Game

end Telecran.Spec
