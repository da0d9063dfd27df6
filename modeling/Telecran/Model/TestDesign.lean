import Telecran.Model.Adxl
import Telecran.Model.AdxlTest

/-! # The accelerometer test design

The part of `telecran_adxl_test` from the accelerometer to the filtered values: the accelerometer master,
the 30 Hz tick and the low-pass filter. The mode switch, the bar graph and the LEDs read these registers
and do not feed back.
-/

namespace Telecran.Model

open Machine

structure TestDesign where
  adxl : Adxl
  acc : Divider
  filter : LowPass

namespace TestDesign

def reset : TestDesign := ⟨.reset, .reset, .reset⟩

def filterIn (t : TestDesign) : LowPassIn where
  tickAcc := t.acc.tick
  sAx := t.adxl.fsm.oAx
  sAy := t.adxl.fsm.oAy
  sReady := t.adxl.fsm.readyI

/-- One rising edge, with SDA as the accelerometer leaves it. -/
def clock (t : TestDesign) (slave : Bool) : TestDesign where
  adxl := t.adxl.clock Adxl.defaults slave
  acc := t.acc.clock accUpdateDiv
  filter := t.filter.clock t.filterIn

/-- The design `n` clocks after a hardware reset. -/
def after (slave : ℕ → Bool) (n : ℕ) : TestDesign := run clock reset slave n

end TestDesign

end Telecran.Model
