import Telecran.Machine.Divider

/-! # The accelerometer test design

The low-pass filter of `telecran_adxl_test` between the accelerometer and its bar graph. Samples and
filtered values are 16-bit two's complement words, and so are the difference and the sum.
-/

namespace Telecran.Model

open Machine

def accUpdateDiv : ℕ := 50000000 / 30

/-- The 30 Hz tick `n` clocks after the hardware reset. -/
def tickAccAt (n : ℕ) : Bool := (Divider.after accUpdateDiv n).tick

/-- The filtered values. -/
structure LowPass where
  axF : BitVec 16
  ayF : BitVec 16
deriving DecidableEq, Repr

/-- What the filter process reads besides its registers. -/
structure LowPassIn where
  tickAcc : Bool
  sAx : BitVec 16
  sAy : BitVec 16
  sReady : Bool

def LowPassIn.updates (i : LowPassIn) : Bool := i.tickAcc && i.sReady

/-- One axis: an eighth of the difference is added, rounded down by the arithmetic shift. -/
def smooth (f s : BitVec 16) : BitVec 16 :=
  let d := s - f
  f + d.sshiftRight 3

namespace LowPass

def reset : LowPass := ⟨0, 0⟩

/-- One rising edge of the filter process. -/
def clock (f : LowPass) (i : LowPassIn) : LowPass :=
  if i.updates then ⟨smooth f.axF i.sAx, smooth f.ayF i.sAy⟩ else f

end LowPass

end Telecran.Model
