import Telecran.Machine.Divider

/-! # Quadrature encoders

One channel pair of an encoder with its two stage delay line and its counter, as in both
`telecran.vhd` files; `cnt_x` is ten bits wide and `cnt_y` nine. The channels are sampled on the
clocks where `enc_enable` is high.
-/

namespace Telecran.Model

/-- The registers of an encoder process. -/
structure Encoder (w : ℕ) where
  aD1 : Bool
  aD2 : Bool
  bD1 : Bool
  bD2 : Bool
  cnt : BitVec w
deriving DecidableEq, Repr

namespace Encoder

variable {w : ℕ} (e : Encoder w)

def reset : Encoder w := ⟨false, false, false, false, 0⟩

def aRise : Bool := e.aD1 && !e.aD2
def aFall : Bool := !e.aD1 && e.aD2
def bRise : Bool := e.bD1 && !e.bD2
def bFall : Bool := !e.bD1 && e.bD2

/-- The counter after the edges in the delay line have been counted. -/
def count : BitVec w :=
  if e.aRise && !e.bD1 || e.aFall && e.bD1 then e.cnt + 1
  else if e.bRise && !e.aD1 || e.bFall && e.aD1 then e.cnt - 1
  else e.cnt

/-- An enabled clock with the channels at `ch.1` and `ch.2`. -/
def sample (ch : Bool × Bool) : Encoder w where
  aD1 := ch.1
  aD2 := e.aD1
  bD1 := ch.2
  bD2 := e.bD1
  cnt := e.count

def clock (encEnable : Bool) (ch : Bool × Bool) : Encoder w :=
  if encEnable then e.sample ch else e

/-- A cleared encoder whose channels stay open does not move. -/
theorem clock_reset (encEnable : Bool) : (reset : Encoder w).clock encEnable (false, false) = reset := by
  cases encEnable <;> rfl

end Encoder

end Telecran.Model
