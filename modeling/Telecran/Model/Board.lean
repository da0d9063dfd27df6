import Telecran.Machine.Run
import Telecran.Model.Engine

/-! # The game board

`dpram`, the startup clear, the port A multiplexer and the game engine as `A_GAME_MAYBE/telecran`
wires them together. The clear owns port A until it has walked through the whole framebuffer;
`i_reset` of the engine is held during the clear and pulsed once after it.
-/

namespace Telecran.Model

open Machine

/-! ## Dual port memory -/

/-- Contents and the two registered outputs. -/
structure Dpram where
  ram : Memory Pixel
  oQA : Pixel
  oQB : Pixel

namespace Dpram

/-- A port writes first and then reads the word it addresses. -/
def clockA (d : Dpram) (a : Write Pixel) : Dpram :=
  { d with ram := a.apply d.ram, oQA := a.apply d.ram a.addr }

def clockB (d : Dpram) (b : Write Pixel) : Dpram :=
  { d with ram := b.apply d.ram, oQB := b.apply d.ram b.addr }

@[simp] theorem clockA_ram (d : Dpram) (a : Write Pixel) : (d.clockA a).ram = a.apply d.ram := rfl

/-- A port whose write enable is low only reads. -/
theorem clockB_read (d : Dpram) (b : Write Pixel) (idle : b.enable = false) :
    d.clockB b = { d with oQB := d.ram b.addr } := by
  simp [clockB, Write.apply_idle idle]

end Dpram

/-! ## Acceleration for the game -/

def deadBand : ℤ := 20
def gainShift : ℕ := 5
def satLimit : ℤ := 6000

/-- Dead band, gain and saturation of one sampled axis. -/
def accelGame (samp : BitVec 16) : BitVec 16 :=
  let tmp := samp.toInt
  let tmp := if |tmp| < deadBand then 0 else tmp
  let tmp := tmp * 2 ^ gainShift
  let tmp := if tmp > satLimit then satLimit else tmp
  let tmp := if tmp < -satLimit then -satLimit else tmp
  BitVec.ofInt 16 tmp

/-! ## Board -/

structure Board where
  engine : Engine
  clrEn : Bool
  clrAddr : ℕ
  clrEnD : Bool
  clrDonePulse : Bool
  fb : Dpram

/-- One clock's inputs. The left button is active low. -/
structure BoardIn where
  iLeftPb : Bool
  axGame : BitVec 16
  ayGame : BitVec 16
  accelOk : Bool
  tick : Bool
  secTick : Bool

namespace Board

/-- The hardware reset: the framebuffer and the wall rectangles keep their contents. -/
def reset (b : Board) : Board :=
  { b with
    engine := b.engine.reset
    clrEn := true, clrAddr := 0
    clrEnD := true, clrDonePulse := false }

def gresetFinal (b : Board) (i : BoardIn) : Bool := !i.iLeftPb || b.clrEn || b.clrDonePulse

def engineIn (b : Board) (i : BoardIn) : EngineIn where
  iPause := false
  iReset := b.gresetFinal i
  iAx := i.axGame
  iAy := i.ayGame
  iAccelReady := i.accelOk
  tick := i.tick
  secTick := i.secTick

/-- The stripes the clear writes. -/
def stripe (addr : ℕ) : Pixel := if addr % 2 = 0 then 0x01 else 0x00

/-- Port A: the clear has priority. -/
def portA (b : Board) : Write Pixel :=
  if b.clrEn then ⟨true, b.clrAddr, stripe b.clrAddr⟩ else b.engine.request

def clock (b : Board) (i : BoardIn) : Board where
  engine := b.engine.clock (b.engineIn i)
  clrEn := b.clrEn && b.clrAddr ≠ fbSize - 1
  clrAddr := if b.clrEn && b.clrAddr ≠ fbSize - 1 then b.clrAddr + 1 else b.clrAddr
  clrEnD := b.clrEn
  clrDonePulse := b.clrEnD && !b.clrEn
  fb := b.fb.clockA b.portA

/-- The board `n` clocks after a hardware reset that found it in state `b`. -/
def after (b : Board) (input : ℕ → BoardIn) (n : ℕ) : Board := run clock b.reset input n

/-- The framebuffer once the engine's registered write has been committed. -/
def committed (b : Board) : Memory Pixel := b.engine.request.apply b.fb.ram

end Board

end Telecran.Model
