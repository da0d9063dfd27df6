import Telecran.Model.Adxl
import Telecran.Model.Board

/-! # The game design

The 50 MHz clock domain of `A_GAME_MAYBE/telecran` from the accelerometer to the framebuffer: the
accelerometer master, the latch of its ready output, the 30 Hz sampler, the two tick dividers of the
engine and the board. The debug button, the encoders and the video output read these registers and
do not feed back.
-/

namespace Telecran.Model

open Machine

def AGame.accUpdateDiv : ℕ := 50000000 / 30

structure AGame where
  adxl : Adxl
  accelOk : Bool
  acc : Divider
  axSamp : BitVec 16
  aySamp : BitVec 16
  tick : Divider
  sec : Divider
  board : Board
  anyWe : Bool

namespace AGame

/-- One clock's inputs: SDA as the accelerometer leaves it, and the left button, which is active low. -/
structure In where
  slave : Bool
  iLeftPb : Bool

/-- The hardware reset: the framebuffer and the wall rectangles keep their contents. -/
def reset (b : Board) : AGame where
  adxl := .reset
  accelOk := false
  acc := .reset
  axSamp := 0
  aySamp := 0
  tick := .reset
  sec := .reset
  board := b.reset
  anyWe := false

def boardIn (a : AGame) (i : In) : BoardIn where
  iLeftPb := i.iLeftPb
  axGame := accelGame a.axSamp
  ayGame := accelGame a.aySamp
  accelOk := a.accelOk
  tick := a.tick.tick
  secTick := a.sec.tick

def clock (a : AGame) (i : In) : AGame where
  adxl := a.adxl.clock Adxl.defaults i.slave
  accelOk := a.accelOk || a.adxl.fsm.readyI
  acc := a.acc.clock AGame.accUpdateDiv
  axSamp := if a.acc.tick && a.accelOk then a.adxl.fsm.oAx else a.axSamp
  aySamp := if a.acc.tick && a.accelOk then a.adxl.fsm.oAy else a.aySamp
  tick := a.tick.clock tickDiv
  sec := a.sec.clock secDiv
  board := a.board.clock (a.boardIn i)
  anyWe := a.anyWe || a.board.engine.weR

/-- The design `n` clocks after a hardware reset that found the board as `b`. -/
def after (b : Board) (input : ℕ → In) (n : ℕ) : AGame := run clock (reset b) input n

end AGame

end Telecran.Model
