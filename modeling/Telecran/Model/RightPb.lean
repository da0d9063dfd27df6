import Telecran.Machine.Run

/-! # The right push-button

The process of `telecran` that debounces the right button, which is active low, and counts its
presses modulo four to choose the debug view. The input is registered twice before it is looked at.
-/

namespace Telecran.Model

open Machine

/-- The registers of the push-button process. -/
structure RightPb where
  rbSync0 : Bool
  rbSync1 : Bool
  rbStable : Bool
  rbStableD : Bool
  rbCnt : BitVec 20
  debugMode : BitVec 2
deriving DecidableEq, Repr

namespace RightPb

def reset : RightPb := ⟨true, true, true, true, 0, 0⟩

/-- The press counted on a clock: the accepted level has just gone low. -/
def pressSeen (b : RightPb) : Bool := b.rbStableD && !b.rbStable

/-- One rising edge of the push-button process. -/
def clock (b : RightPb) (iRightPb : Bool) : RightPb where
  rbSync0 := iRightPb
  rbSync1 := b.rbSync0
  rbStable :=
    if b.rbSync1 = b.rbStable then b.rbStable
    else if b.rbCnt = BitVec.ofNat 20 1000000 then b.rbSync1 else b.rbStable
  rbCnt :=
    if b.rbSync1 = b.rbStable then 0
    else if b.rbCnt = BitVec.ofNat 20 1000000 then 0 else b.rbCnt + 1
  rbStableD := b.rbStable
  debugMode := if b.pressSeen then b.debugMode + 1 else b.debugMode

/-- The process `n` clocks after a hardware reset. -/
def after (iRightPb : ℕ → Bool) (n : ℕ) : RightPb := run clock reset iRightPb n

theorem after_succ (iRightPb : ℕ → Bool) (n : ℕ) :
    after iRightPb (n + 1) = (after iRightPb n).clock (iRightPb n) := rfl

end RightPb

end Telecran.Model
