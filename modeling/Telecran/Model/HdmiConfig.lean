import Telecran.Bus.Transcript
import Telecran.Machine.Run

/-! # Configuration of the HDMI transmitter

`I2C_HDMI_Config` walks a table of register writes. For each entry it asks the writer
`I2C_WRITE_WDATA` for a transfer of three bytes, and repeats the entry when an acknowledge was missing.
Both move on the rising edges of the control clock, which is divided down from the board's clock.
-/

namespace Telecran.Model.Hdmi

open Machine Bus

/-! ## The writer -/

/-- The values of `ST`. -/
inductive WriteSt where
  | st0 | st1 | st2 | st3 | st4 | st5 | st6 | st7 | st8 | st9
  | st30 | st31
deriving DecidableEq, Repr

/-- The registers of `I2C_WRITE_WDATA`. -/
structure Writer where
  st : WriteSt
  sdao : Bool
  sclo : Bool
  endOk : Bool
  ackOk : Bool
  cnt : ℕ
  byte : ℕ
  a : BitVec 9
deriving DecidableEq, Repr

/-- `BYTE_NUM`, as `I2C_Controller` sets it. -/
def byteNum : ℕ := 2

namespace Writer

/-- One control clock with the request and SDA as it is on the wire. -/
def step (w : Writer) (go : Bool) (slaveAddress : BitVec 8) (regData : BitVec 16) (sdai : Bool) :
    Writer :=
  match w.st with
  | .st0 =>
    { w with
      sdao := true, sclo := true, ackOk := false, cnt := 0, endOk := true, byte := 0
      st := if go then .st30 else .st0 }
  | .st1 => { w with st := .st2, sdao := false, sclo := true, a := slaveAddress ++ 1#1 }
  | .st2 => { w with st := .st3, sdao := false, sclo := false }
  | .st3 => { w with st := .st4, sdao := w.a.msb, a := w.a <<< 1 }
  | .st4 => { w with st := .st5, sclo := true, cnt := (w.cnt + 1) % 256 }
  | .st5 =>
    let w := { w with sclo := false }
    if w.cnt = 9 then
      -- the acknowledge is taken while SCL is still high
      let w := { w with ackOk := w.ackOk || sdai }
      if w.byte = byteNum then { w with st := .st6 }
      else if w.byte = 0 then
        { w with cnt := 0, st := .st2, byte := 1, a := regData.extractLsb' 8 8 ++ 1#1 }
      else if w.byte = 1 then
        { w with cnt := 0, st := .st2, byte := 2, a := regData.extractLsb' 0 8 ++ 1#1 }
      else { w with cnt := 0, st := .st2 }
    else { w with st := .st2 }
  | .st6 => { w with st := .st7, sdao := false, sclo := false }
  | .st7 => { w with st := .st8, sdao := false, sclo := true }
  | .st8 => { w with st := .st9, sdao := true, sclo := true }
  | .st9 => { w with st := .st30, sdao := true, sclo := true, cnt := 0, endOk := true, byte := 0 }
  | .st30 => if go then w else { w with st := .st31 }
  | .st31 => { w with endOk := false, ackOk := false, st := .st1 }

/-- The levels the writer leaves on the lines: SDA is open drain. -/
def level (w : Writer) : Level := ⟨w.sclo, w.sdao⟩

/-- SDA with the slave on it, which releases the line with `true`. -/
def sdai (w : Writer) (slave : Bool) : Bool := slave && w.sdao

end Writer

/-! ## The table -/

def slaveAddr : BitVec 8 := 0x72

def lutSize : ℕ := 31

/-- A register address and a value in each entry. -/
def lut : List (BitVec 16) :=
  [0x9803, 0x0100, 0x0218, 0x0300, 0x1470, 0x1520, 0x1630, 0x1846, 0x4080, 0x4110, 0x49A8, 0x5510,
    0x5608, 0x96F6, 0x7307, 0x761f, 0x9803, 0x9902, 0x9ae0, 0x9c30, 0x9d61, 0xa2a4, 0xa3a4, 0xa504,
    0xab40, 0xaf16, 0xba60, 0xd1ff, 0xde10, 0xe460, 0xfa7d]

/-- `LUT_DATA`. -/
def lutData (lutIndex : ℕ) : BitVec 16 := lut.getD lutIndex 0x9803

/-! ## The control -/

/-- The values of `mSetup_ST`. -/
inductive SetupSt where
  | st0 | st1 | st2
deriving DecidableEq, Repr

/-- The registers of `I2C_HDMI_Config` on the control clock. -/
structure Control where
  ready : Bool
  mI2cData : BitVec 24
  mI2cGo : Bool
  lutIndex : ℕ
  mSetupSt : SetupSt
deriving DecidableEq, Repr

/-- One control clock. -/
def Control.step (c : Control) (mI2cEnd mI2cAck hdmiTxInt : Bool) : Control :=
  if c.lutIndex < lutSize then
    let c := { c with ready := false }
    match c.mSetupSt with
    | .st0 => { c with mI2cData := slaveAddr ++ lutData c.lutIndex, mI2cGo := true, mSetupSt := .st1 }
    | .st1 =>
      if mI2cEnd then { c with mSetupSt := if mI2cAck then .st0 else .st2, mI2cGo := false } else c
    | .st2 => { c with lutIndex := c.lutIndex + 1, mSetupSt := .st0 }
  else { c with ready := true, lutIndex := if hdmiTxInt then c.lutIndex else 0 }

/-- What moves on the control clock. -/
structure Core where
  control : Control
  writer : Writer
deriving DecidableEq, Repr

/-- The interrupt line of the transmitter, low when it asks for its configuration, and what the
slave does with SDA. -/
structure Input where
  hdmiTxInt : Bool
  slave : Bool
deriving DecidableEq, Repr

namespace Core

/-- The registers that the reset clears. -/
structure IsReset (s : Core) : Prop where
  ready : s.control.ready = false
  go : s.control.mI2cGo = false
  index : s.control.lutIndex = 0
  setup : s.control.mSetupSt = .st0
  st : s.writer.st = .st0

/-- The registers as the device powers up. -/
def powerUp : Core where
  control := ⟨false, 0, false, 0, .st0⟩
  writer := ⟨.st0, false, false, false, false, 0, 0, 0⟩

theorem isReset_powerUp : powerUp.IsReset := ⟨rfl, rfl, rfl, rfl, rfl⟩

/-- One rising edge of the control clock. -/
def step (s : Core) (i : Input) : Core where
  control := s.control.step s.writer.endOk s.writer.ackOk i.hdmiTxInt
  writer := s.writer.step s.control.mI2cGo (s.control.mI2cData.extractLsb' 16 8)
    (s.control.mI2cData.extractLsb' 0 16) (s.writer.sdai i.slave)

/-- The core after `n` control clocks. -/
def after (s : Core) (input : ℕ → Input) (n : ℕ) : Core := run step s input n

theorem after_succ (s : Core) (input : ℕ → Input) (n : ℕ) :
    after s input (n + 1) = (after s input n).step (input n) := rfl

/-- A scribe on the bus hears the lines after each control clock, with SDA as the writer finds it on
the next. -/
def heard (s : Core) (input : ℕ → Input) : ℕ → Scribe
  | 0 => .fresh
  | n + 1 =>
    (heard s input n).hear (after s input (n + 1)).writer.level
      ((after s input (n + 1)).writer.sdai (input (n + 1)).slave)

/-- The frames that are over after `n` control clocks. -/
def frames (s : Core) (input : ℕ → Input) (n : ℕ) : List Frame := (heard s input n).transcript.frames

end Core

end Telecran.Model.Hdmi

/-! ## The board's clock -/

namespace Telecran.Model

open Machine

/-- All registers of `I2C_HDMI_Config` and its writer. -/
structure HdmiConfig where
  mI2cClkDiv : ℕ
  mI2cCtrlClk : Bool
  core : Hdmi.Core

namespace HdmiConfig

/-- `CLK_Freq / I2C_Freq`. -/
def clkRatio : ℕ := 50000000 / 20000

/-- One rising edge of the board's clock. The core moves when the control clock rises. -/
def clock (s : HdmiConfig) (i : Hdmi.Input) : HdmiConfig :=
  if s.mI2cClkDiv < clkRatio then { s with mI2cClkDiv := s.mI2cClkDiv + 1 }
  else
    { mI2cClkDiv := 0
      mI2cCtrlClk := !s.mI2cCtrlClk
      core := if s.mI2cCtrlClk then s.core else s.core.step i }

/-- The configuration after the reset, on a core the reset has cleared. -/
def start (s : Hdmi.Core) : HdmiConfig := ⟨0, false, s⟩

/-- The configuration `n` clocks after the reset. -/
def after (s : Hdmi.Core) (input : ℕ → Hdmi.Input) (n : ℕ) : HdmiConfig := run clock (start s) input n

end HdmiConfig

end Telecran.Model
