import Telecran.Model.Adxl

/-! # The single byte I2C master

`i2c_master_simple` writes or reads one byte of one device. It moves on the tick of its divider, four
ticks to the declared bus period, and keeps no record of the phase it is in: after an acknowledge it
compares the shift register with the address byte.
-/

namespace Telecran.Model

open Machine Bus

namespace I2cMaster

inductive State where
  | idle
  | start0 | start1
  | sendByte0 | sendByte1 | sendByte2
  | recvByte0 | recvByte1 | recvByte2
  | stop0 | stop1
  | done
deriving DecidableEq, Repr

/-- The registers of the FSM. -/
structure Fsm where
  st : State
  sclOe : Bool
  sdaOe : Bool
  sh : BitVec 8
  rd : BitVec 8
  bitI : ℕ
  ackerrI : Bool
  phaseIsAck : Bool
  sdaSample : Bool
deriving DecidableEq, Repr

/-- The inputs, and what the slave does with SDA: it releases the line with `true`. -/
structure Input where
  iStart : Bool
  iRw : Bool
  iAddr7 : BitVec 7
  iWdata : BitVec 8
  slave : Bool

/-- The address byte of the transaction asked for. -/
def Input.addrByte (i : Input) : BitVec 8 := i.iAddr7 ++ BitVec.ofBool i.iRw

namespace Fsm

/-- The asynchronous reset. -/
def reset : Fsm where
  st := .idle
  sclOe := false
  sdaOe := false
  sh := 0
  rd := 0
  bitI := 7
  ackerrI := false
  phaseIsAck := false
  sdaSample := true

/-- The levels the master leaves on the lines. -/
def level (s : Fsm) : Level := ⟨!s.sclOe, !s.sdaOe⟩

def oBusy (s : Fsm) : Bool := s.st ≠ .idle && s.st ≠ .done
def oDone (s : Fsm) : Bool := s.st = .done

/-- SDA with both open drain outputs on it. -/
def sdaIn (s : Fsm) (i : Input) : Bool := i.slave && !s.sdaOe

/-- What follows a sampled acknowledge. -/
def acked (s : Fsm) (i : Input) : Fsm :=
  if s.sdaSample then { s with ackerrI := true, st := .stop0 }
  else if !i.iRw && s.sh = i.addrByte then
    { s with sh := i.iWdata, bitI := 7, phaseIsAck := false, st := .sendByte0 }
  else if i.iRw && s.sh = i.addrByte then { s with bitI := 7, st := .recvByte0 }
  else { s with st := .stop0 }

/-- One tick of the FSM. -/
def tick (s : Fsm) (i : Input) : Fsm :=
  match s.st with
  | .idle =>
    let s := { s with sclOe := false, sdaOe := false, ackerrI := false, phaseIsAck := false }
    if i.iStart then { s with st := .start0 } else s
  | .start0 => { s with sclOe := false, sdaOe := true, st := .start1 }
  | .start1 =>
    { s with
      sclOe := true, sdaOe := true
      sh := i.addrByte, bitI := 7, phaseIsAck := false, st := .sendByte0 }
  | .sendByte0 =>
    { s with
      sclOe := true
      sdaOe := if s.phaseIsAck then false else !s.sh.getLsbD s.bitI
      st := .sendByte1 }
  | .sendByte1 => { s with sclOe := false, sdaSample := s.sdaIn i, st := .sendByte2 }
  | .sendByte2 =>
    let s := { s with sclOe := true }
    if s.phaseIsAck then s.acked i
    else if s.bitI = 0 then { s with phaseIsAck := true, st := .sendByte0 }
    else { s with bitI := s.bitI - 1, st := .sendByte0 }
  | .recvByte0 => { s with sclOe := true, sdaOe := false, st := .recvByte1 }
  | .recvByte1 =>
    { s with sclOe := false, rd := Adxl.setBit s.rd s.bitI (s.sdaIn i), st := .recvByte2 }
  | .recvByte2 =>
    let s := { s with sclOe := true }
    if s.bitI = 0 then { s with st := .stop0 } else { s with bitI := s.bitI - 1, st := .recvByte0 }
  | .stop0 => { s with sclOe := true, sdaOe := true, st := .stop1 }
  | .stop1 => { s with sclOe := false, sdaOe := false, st := .done }
  | .done => { s with st := .idle }

end Fsm

end I2cMaster

/-- All registers of `i2c_master_simple`. -/
structure I2cMaster where
  div : Divider
  fsm : I2cMaster.Fsm

namespace I2cMaster

def reset : I2cMaster := ⟨.reset, .reset⟩

/-- One rising edge. The generics are those of the accelerometer's master, and so is the divider. -/
def clock (g : Adxl.Generics) (m : I2cMaster) (i : Input) : I2cMaster where
  div := m.div.clock g.cDiv
  fsm := if m.div.tick then m.fsm.tick i else m.fsm

/-- The design `n` clocks after the reset. -/
def after (g : Adxl.Generics) (input : ℕ → Input) (n : ℕ) : I2cMaster := run (clock g) reset input n

/-- The FSM on the clock of tick `k`, which it has not yet seen. -/
def atTick (g : Adxl.Generics) (input : ℕ → Input) (k : ℕ) : Fsm := (after g input (g.cDiv * (k + 1))).fsm

/-- The inputs on the clock of tick `k`. -/
def tickInput (g : Adxl.Generics) (input : ℕ → Input) (k : ℕ) : Input := input (g.cDiv * (k + 1))

theorem after_div (g : Adxl.Generics) (input : ℕ → Input) (n : ℕ) :
    (after g input n).div = Divider.after g.cDiv n := by
  induction n with
  | zero => rfl
  | succ n ih => rw [Divider.after_succ, ← ih]; rfl

/-- Just before tick `k` the FSM has made `k` ticks with the inputs of their clocks. -/
theorem atTick_eq (g : Adxl.Generics) (input : ℕ → Input) (k : ℕ) :
    atTick g input k = run Fsm.tick .reset (tickInput g input) k := by
  have law : ∀ n, (after g input (n + 1)).fsm = if (Divider.after g.cDiv n).tick then
      (after g input n).fsm.tick (input n) else (after g input n).fsm := by
    intro n
    rw [← after_div g input]
    rfl
  have projected := gated_nth (x := fun n => (after g input n).fsm) law
    (Divider.tick_infinite g.divides) k
  simp only [Adxl.Generics.cDiv, Divider.nth_tick g.divides] at projected
  exact projected

theorem atTick_succ (g : Adxl.Generics) (input : ℕ → Input) (k : ℕ) :
    atTick g input (k + 1) = (atTick g input k).tick (tickInput g input k) := by
  rw [atTick_eq, atTick_eq, run_succ]

/-- The ticks from tick `k` on. -/
theorem atTick_add (g : Adxl.Generics) (input : ℕ → Input) (k n : ℕ) : atTick g input (k + n) =
    run Fsm.tick (atTick g input k) (fun j => tickInput g input (k + j)) n := by
  rw [atTick_eq, atTick_eq, run_add]

end I2cMaster

end Telecran.Model
