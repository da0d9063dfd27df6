import Telecran.Bus.I2c
import Telecran.Machine.Divider
import Telecran.Machine.Run

/-! # The accelerometer master

`adxl345_i2c` for arbitrary generics: the three dividers, the input register of SDA and the main
process with its high level states and the micro steps they call. The main process moves on the
I2C tick only; a micro step sequence runs until `ll` is `LL_NONE` again and returns to `next_st`.
-/

namespace Telecran.Model

open Machine Bus

namespace Adxl

/-! ## Registers -/

/-- The high level states. -/
inductive State where
  | boot
  | iWStart | iWAddr | iWReg | iWVal | iWStop | iNext
  | idStartw | idAddrw | idReg | idRepstart | idAddrr | idRx | idStop
  | rStartw | rAddrw | rReg | rRepstart | rAddrr
  | rRx0 | rRx1 | rRx2 | rRx3 | rRx4 | rRx5 | rStop
  | idle
deriving DecidableEq, Repr

/-- The micro steps. -/
inductive Ll where
  | none
  | startA | startB | startC
  | stopA | stopB | stopC
  | txSet | txHigh | txLow | txAckRel | txAckHigh | txAckLow
  | rxRel | rxHigh | rxLow | rxAckSet | rxAckHigh | rxAckLow
deriving DecidableEq, Repr

/-- The registers of the main process, less the input register of SDA. -/
structure Fsm where
  st : State
  ll : Ll
  sclOe : Bool
  sdaOe : Bool
  txByte : BitVec 8
  rxByte : BitVec 8
  bitI : ℕ
  ackNack : Bool
  initStep : ℕ
  curReg : BitVec 8
  curVal : BitVec 8
  b0 : BitVec 8
  b1 : BitVec 8
  b2 : BitVec 8
  b3 : BitVec 8
  b4 : BitVec 8
  b5 : BitVec 8
  oAx : BitVec 16
  oAy : BitVec 16
  readyI : Bool
  nextSt : State
  rxDriveAck0 : Bool
deriving DecidableEq, Repr

/-- What the main process reads on an I2C tick. -/
structure TickIn where
  sdaIn : Bool
  tickRead : Bool
  bootDone : Bool

/-! ## Constants -/

def addr7 : BitVec 7 := 0b0011101

def addrWr (a7 : BitVec 7) : BitVec 8 := a7 ++ 0b0#1
def addrRd (a7 : BitVec 7) : BitVec 8 := a7 ++ 0b1#1

def regDevid : BitVec 8 := 0x00
def regBwRate : BitVec 8 := 0x2C
def regPowerCtl : BitVec 8 := 0x2D
def regDataFormat : BitVec 8 := 0x31
def regDatax0 : BitVec 8 := 0x32

def valBwRate : BitVec 8 := 0x0A
def valPowerCtl : BitVec 8 := 0x08
def valDataFormat : BitVec 8 := 0x08

/-- The register and the value written by an init step. -/
def initWrite (initStep : ℕ) : BitVec 8 × BitVec 8 :=
  if initStep = 0 then (regDataFormat, valDataFormat)
  else if initStep = 1 then (regBwRate, valBwRate)
  else (regPowerCtl, valPowerCtl)

/-- Assignment to one bit of a byte. -/
def setBit (v : BitVec 8) (i : ℕ) (b : Bool) : BitVec 8 :=
  if b then v ||| BitVec.twoPow 8 i else v &&& ~~~BitVec.twoPow 8 i

theorem setBit_getLsbD (v : BitVec 8) (i : ℕ) (b : Bool) {j : ℕ} (bound : j < 8) :
    (setBit v i b).getLsbD j = if j = i then b else v.getLsbD j := by
  unfold setBit
  by_cases same : j = i
  · subst same
    cases b <;> simp [bound]
  · cases b <;> simp [bound, same]

namespace Fsm

/-- The asynchronous reset. -/
def reset : Fsm where
  st := .boot
  ll := .none
  sclOe := false
  sdaOe := false
  txByte := 0
  rxByte := 0
  bitI := 7
  ackNack := true
  initStep := 0
  curReg := 0
  curVal := 0
  b0 := 0
  b1 := 0
  b2 := 0
  b3 := 0
  b4 := 0
  b5 := 0
  oAx := 0
  oAy := 0
  readyI := false
  nextSt := .idle
  rxDriveAck0 := false

/-- The levels the master leaves on the lines. -/
def level (s : Fsm) : Level := ⟨!s.sclOe, !s.sdaOe⟩

/-! ## Micro steps -/

/-- A micro step other than `LL_NONE`. -/
def low (s : Fsm) (i : TickIn) : Fsm :=
  match s.ll with
  | .none => s
  | .startA => { s with sclOe := false, sdaOe := false, ll := .startB }
  | .startB => { s with sclOe := false, sdaOe := true, ll := .startC }
  | .startC => { s with sclOe := true, ll := .none, st := s.nextSt }
  | .stopA => { s with sclOe := true, sdaOe := true, ll := .stopB }
  | .stopB => { s with sclOe := false, sdaOe := true, ll := .stopC }
  | .stopC => { s with sclOe := false, sdaOe := false, ll := .none, st := s.nextSt }
  | .txSet => { s with sclOe := true, sdaOe := !s.txByte.getLsbD s.bitI, ll := .txHigh }
  | .txHigh => { s with sclOe := false, ll := .txLow }
  | .txLow =>
    if s.bitI = 0 then { s with sclOe := true, ll := .txAckRel }
    else { s with sclOe := true, bitI := s.bitI - 1, ll := .txSet }
  | .txAckRel => { s with sclOe := true, sdaOe := false, ll := .txAckHigh }
  | .txAckHigh => { s with sclOe := false, ackNack := i.sdaIn, ll := .txAckLow }
  | .txAckLow => { s with sclOe := true, ll := .none, st := s.nextSt }
  | .rxRel => { s with sclOe := true, sdaOe := false, ll := .rxHigh }
  | .rxHigh => { s with sclOe := false, rxByte := setBit s.rxByte s.bitI i.sdaIn, ll := .rxLow }
  | .rxLow =>
    if s.bitI = 0 then { s with sclOe := true, ll := .rxAckSet }
    else { s with sclOe := true, bitI := s.bitI - 1, ll := .rxRel }
  | .rxAckSet => { s with sclOe := true, sdaOe := s.rxDriveAck0, ll := .rxAckHigh }
  | .rxAckHigh => { s with sclOe := false, ll := .rxAckLow }
  | .rxAckLow => { s with sclOe := true, sdaOe := false, ll := .none, st := s.nextSt }

/-! ## High level states -/

/-- Call START, STOP, the transmission of a byte or the reception of one, and return to `ret`. -/
def start (s : Fsm) (ret : State) : Fsm := { s with nextSt := ret, ll := .startA }

def stop (s : Fsm) (ret : State) : Fsm := { s with nextSt := ret, ll := .stopA }

def transmit (s : Fsm) (byte : BitVec 8) (ret : State) : Fsm :=
  { s with txByte := byte, bitI := 7, nextSt := ret, ll := .txSet }

def receive (s : Fsm) (ack : Bool) (ret : State) : Fsm :=
  { s with rxByte := 0, bitI := 7, rxDriveAck0 := ack, nextSt := ret, ll := .rxRel }

/-- The register and value of the current init step. -/
def choose (s : Fsm) : Fsm :=
  { s with curReg := (initWrite s.initStep).1, curVal := (initWrite s.initStep).2 }

/-- A high level state, which runs only when `ll` is `LL_NONE`. -/
def high (s : Fsm) (i : TickIn) : Fsm :=
  match s.st with
  | .boot =>
    let s := { s with sclOe := false, sdaOe := false, readyI := false }
    if i.bootDone then { s with initStep := 0, st := .iWStart } else s
  | .iWStart => s.choose.start .iWAddr
  | .iWAddr => s.transmit (addrWr addr7) .iWReg
  | .iWReg => if s.ackNack then s.stop .iWStop else s.transmit s.curReg .iWVal
  | .iWVal => if s.ackNack then s.stop .iWStop else s.transmit s.curVal .iWStop
  | .iWStop => s.stop .iNext
  | .iNext =>
    if s.ackNack then { s with st := .iWStart }
    else if s.initStep = 2 then { s with st := .idStartw }
    else { s with initStep := s.initStep + 1, st := .iWStart }
  | .idStartw => s.start .idAddrw
  | .idAddrw => s.transmit (addrWr addr7) .idReg
  | .idReg => if s.ackNack then s.stop .idStop else s.transmit regDevid .idRepstart
  | .idRepstart => s.start .idAddrr
  | .idAddrr => s.transmit (addrRd addr7) .idRx
  | .idRx => if s.ackNack then s.stop .idStop else s.receive false .idStop
  | .idStop => { s.stop .idle with readyI := true }
  | .idle =>
    let released := { s with sclOe := false, sdaOe := false }
    if s.readyI && i.tickRead then { released with st := .rStartw } else released
  | .rStartw => s.start .rAddrw
  | .rAddrw => s.transmit (addrWr addr7) .rReg
  | .rReg => if s.ackNack then s.stop .rStop else s.transmit regDatax0 .rRepstart
  | .rRepstart => s.start .rAddrr
  | .rAddrr => s.transmit (addrRd addr7) .rRx0
  | .rRx0 => s.receive true .rRx1
  | .rRx1 => { s.receive true .rRx2 with b0 := s.rxByte }
  | .rRx2 => { s.receive true .rRx3 with b1 := s.rxByte }
  | .rRx3 => { s.receive true .rRx4 with b2 := s.rxByte }
  | .rRx4 => { s.receive true .rRx5 with b3 := s.rxByte }
  | .rRx5 => { s.receive false .rStop with b4 := s.rxByte }
  | .rStop => { s.stop .idle with b5 := s.rxByte, oAx := s.b1 ++ s.b0, oAy := s.b3 ++ s.b2 }

/-- One I2C tick of the main process. -/
def tick (s : Fsm) (i : TickIn) : Fsm := if s.ll = .none then s.high i else s.low i

end Fsm

/-! ## The clocked design -/

/-- The generics, with a quarter period of at least one clock. -/
structure Generics where
  gClkHz : ℕ
  gI2cHz : ℕ
  divides : 0 < gClkHz / (gI2cHz * 4)

namespace Generics

variable (g : Generics)

def cDiv : ℕ := g.gClkHz / (g.gI2cHz * 4)
def treadDiv : ℕ := g.gClkHz / 20
def tbootDiv : ℕ := g.gClkHz / 10

end Generics

/-- The generics the entity declares. -/
def defaults : Generics := ⟨50000000, 100000, by decide⟩

end Adxl

/-- All registers of `adxl345_i2c`. -/
structure Adxl where
  div : Divider
  tread : Divider
  tbootCnt : ℕ
  bootDone : Bool
  sdaIn : Bool
  fsm : Adxl.Fsm

namespace Adxl

def reset : Adxl := ⟨.reset, .reset, 0, false, true, .reset⟩

/-- SDA with the master's and the slave's open drain outputs on it; the slave releases with `true`. -/
def line (a : Adxl) (slave : Bool) : Bool := slave && !a.fsm.sdaOe

def tickIn (a : Adxl) : TickIn := ⟨a.sdaIn, a.tread.tick, a.bootDone⟩

def clock (g : Generics) (a : Adxl) (slave : Bool) : Adxl where
  div := a.div.clock g.cDiv
  tread := a.tread.clock g.treadDiv
  tbootCnt :=
    if a.bootDone then a.tbootCnt else if a.tbootCnt = g.tbootDiv - 1 then 0 else a.tbootCnt + 1
  bootDone := a.bootDone || a.tbootCnt = g.tbootDiv - 1
  sdaIn := a.line slave
  fsm := if a.div.tick then a.fsm.tick a.tickIn else a.fsm

/-- The design `n` clocks after the reset, with the slave's output at every clock. -/
def after (g : Generics) (slave : ℕ → Bool) (n : ℕ) : Adxl := run (clock g) reset slave n

end Adxl

end Telecran.Model
