import Telecran.Model.Board
import Telecran.Model.Encoder

/-! # The drawing design

`telecran/telecran.vhd`: the two encoders move a pen, the right button draws the word under it and
a press of the left button clears the framebuffer. The RAM has no reset, and it is still clocked
while the reset is held.
-/

namespace Telecran.Model

open Machine

structure Drawing where
  enc : Divider
  left : Encoder 10
  right : Encoder 9
  leftPbD : Bool
  eraseReq : Bool
  clrEn : Bool
  clrAddr : ℕ
  fb : Dpram

/-- One clock's inputs: the channel pairs and the buttons. -/
structure DrawingIn where
  iLeftCh : Bool × Bool
  iRightCh : Bool × Bool
  iLeftPb : Bool
  iRightPb : Bool

/-- What can happen to the design: `i_rst_n` falls, a clock with `i_rst_n` low, and a clock with
`i_rst_n` high. -/
inductive DrawingEvent where
  | reset
  | held
  | clock (i : DrawingIn)

namespace Drawing

variable (d : Drawing)

/-- The asynchronous reset; the framebuffer keeps its contents. -/
def reset : Drawing :=
  { d with
    enc := .reset, left := .reset, right := .reset
    leftPbD := true, eraseReq := false
    clrEn := true, clrAddr := 0 }

def xPos : ℕ := if d.left.cnt.toNat ≥ hRes then hRes - 1 else d.left.cnt.toNat
def yPos : ℕ := if d.right.cnt.toNat ≥ vRes then vRes - 1 else d.right.cnt.toNat

def wrAddr : ℕ := d.yPos * hRes + d.xPos

/-- Port A: the clear has priority over the pen. -/
def portA (drawWe : Bool) : Write Pixel :=
  if d.clrEn then ⟨true, d.clrAddr, 0x00⟩ else ⟨drawWe, d.wrAddr, 0xFF⟩

/-- A running clear overrides the restart that an erase request has just assigned, whole or in part:
on the last address only the restart's address survives. -/
def clock (i : DrawingIn) : Drawing where
  enc := d.enc.clock 5001
  left := d.left.clock d.enc.tick i.iLeftCh
  right := d.right.clock d.enc.tick i.iRightCh
  leftPbD := i.iLeftPb
  eraseReq := d.leftPbD && !i.iLeftPb
  clrEn := if d.clrEn then d.clrAddr ≠ fbSize - 1 else d.eraseReq
  clrAddr :=
    if d.clrEn && d.clrAddr ≠ fbSize - 1 then d.clrAddr + 1
    else if d.eraseReq then 0 else d.clrAddr
  fb := d.fb.clockA (d.portA i.iRightPb)

def step : DrawingEvent → Drawing
  | .reset => d.reset
  | .held => { d.reset with fb := d.fb.clockA (d.reset.portA false) }
  | .clock i => d.clock i

/-- The design after `n` events that follow a reset or the power-up. -/
def after (events : ℕ → DrawingEvent) (n : ℕ) : Drawing := run step d.reset events n

/-- The pen draws on this event. -/
def Draws : DrawingEvent → Prop
  | .clock i => d.clrEn = false ∧ i.iRightPb = true
  | _ => False

/-- The video process: every word but zero is white. -/
def hdmiTxD (de : Bool) (q : Pixel) : BitVec 24 :=
  if de then if q ≠ 0x00 then 0xFFFFFF else 0x000000 else 0x000000

/-- The colour after an edge of the pixel clock: port B reads the word at the counters `(x, y)` before the
edge, and `de` is the data enable after it. -/
def colour (x y : ℕ) (de : Bool) : BitVec 24 := hdmiTxD de (d.fb.clockB ⟨false, y * hRes + x, 0⟩).oQB

theorem pos_lt : d.xPos < 720 ∧ d.yPos < 480 := by
  simp only [xPos, yPos, hRes, vRes]
  split_ifs <;> omega

end Drawing

end Telecran.Model
