import Telecran.Machine.Divider
import Telecran.Machine.Memory
import Telecran.Model.Screen

/-! # The gravity maze engine

One clock of the main process of `gravity_maze_engine`, state by state. The 25 Hz tick and the one
second tick come from two dividers of their own and are inputs of the process; every result that
holds for arbitrary ticks holds for those of the dividers. `level` is a natural number, so the
declared range 1 to 999 is a property to be proved and not part of the type. VHDL signal
assignments take effect after the clock: the right hand sides below read the old registers.
-/

namespace Telecran.Model

open Machine

inductive St where
  | levelGen | initDraw | runIdle | eraseBall | drawBall
  | winMsgDraw | winMsgWait | loseMsgDraw | loseMsgWait | quitMsgDraw | quitMsgWait
deriving DecidableEq, Repr

/-- The registers of the main process. -/
structure Engine where
  st : St
  initAddr : ℕ
  waitS : ℕ
  level : ℕ
  layout : Layout
  lfsr : BitVec 16
  bX : ℤ
  bY : ℤ
  bXp : ℤ
  bYp : ℤ
  vX : ℤ
  vY : ℤ
  dx : ℤ
  dy : ℤ
  weR : Bool
  addrR : ℕ
  dataR : Pixel

/-- What the main process reads besides its registers. -/
structure EngineIn where
  iPause : Bool
  iReset : Bool
  iAx : BitVec 16
  iAy : BitVec 16
  iAccelReady : Bool
  tick : Bool
  secTick : Bool

/-! ## Ticks -/

def clkHz : ℕ := 50000000
def tickDiv : ℕ := clkHz / 25
def secDiv : ℕ := clkHz

/-- The 25 Hz tick `n` clocks after the hardware reset. -/
def tickAt (n : ℕ) : Bool := (Divider.after tickDiv n).tick

/-! ## Level generation -/

def lfsrNext (l : BitVec 16) : BitVec 16 :=
  l.extractLsb' 0 15 ++ BitVec.ofBool (l.getLsbD 15 ^^ l.getLsbD 13 ^^ l.getLsbD 12 ^^ l.getLsbD 10)

def wantWalls (level : ℕ) : ℕ := if 6 + level > maxWalls then maxWalls else 6 + level

def thick (level : ℕ) : ℕ := if 8 + level / 2 > 18 then 18 else 8 + level / 2

/-- Wall `i`: the origin wraps around in sixteen bits, and a rectangle that would leave the wall
area is moved back to its edge. The seven-bit length is reduced modulo 160, which it never reaches. -/
def genWall (level : ℕ) (lfsr : BitVec 16) (i : ℕ) : Rect :=
  if i < wantWalls level then
    let x0 : ℤ := 40 + ((lfsr + BitVec.ofNat 16 (i * 97)) % BitVec.ofNat 16 620).toNat
    let y0 : ℤ := 40 + ((lfsr + BitVec.ofNat 16 (i * 53)) % BitVec.ofNat 16 380).toNat
    let long : ℤ := (lfsr.extractLsb' 1 7).toNat % 160
    let w : ℤ := if lfsr.getLsbD 0 then 180 + long else thick level
    let h : ℤ := if lfsr.getLsbD 0 then thick level else 140 + long
    let x0 := if x0 + w > 690 then 690 - w else x0
    let y0 := if y0 + h > 470 then 470 - h else y0
    ⟨x0, x0 + w, y0, y0 + h⟩
  else ⟨0, -1, 0, -1⟩

def genHazard (level : ℕ) : Rect :=
  let x0 : ℤ := 320 + (level * 7) % 120
  let y0 : ℤ := 210 + (level * 11) % 80
  ⟨x0, x0 + 40, y0, y0 + 40⟩

def genLayout (level : ℕ) (lfsr : BitVec 16) : Layout :=
  ⟨fun i => genWall level lfsr i, wantWalls level, genHazard level⟩

/-! ## Physics -/

def accDiv (level : ℕ) : ℤ := if 256 - (level : ℤ) < 160 then 160 else 256 - level

def vmax (level : ℕ) : ℤ := if 6 + level / 2 > 12 then 12 else 6 + level / 2

def dead : ℤ := 32

def deadZone (a : ℤ) : ℤ := if a > dead then a - dead else if a < -dead then a + dead else 0

/-- The velocity increment of one sample. -/
def thrust (level : ℕ) (a : BitVec 16) : ℤ := (deadZone a.toInt).tdiv (accDiv level)

/-- Speed cap, then 15/16 friction, truncated towards zero. -/
def damp (level : ℕ) (v : ℤ) : ℤ := (clamp v (-vmax level) (vmax level) * 15).tdiv 16

/-- The ball's centre and velocity. -/
structure Motion where
  x : ℤ
  y : ℤ
  vx : ℤ
  vy : ℤ
deriving DecidableEq, Repr

def confine (n hi : ℤ) : ℤ :=
  let n := if n < 12 then 12 else n
  if n > hi then hi else n

/-- One physics tick: each axis is tested against the walls with the other axis at its old value,
a blocked axis stops, and the result is confined to the border. -/
def physics (level : ℕ) (l : Layout) (m : Motion) (ax ay : BitVec 16) : Motion :=
  let nvx := damp level (m.vx + thrust level ax)
  let nvy := damp level (m.vy - thrust level ay)
  let stopX := l.isWall (m.x + nvx) m.y
  let stopY := l.isWall m.x (m.y + nvy)
  { x := confine (if stopX then m.x else m.x + nvx) (hRes - 13)
    y := confine (if stopY then m.y else m.y + nvy) (vRes - 13)
    vx := if stopX then 0 else nvx
    vy := if stopY then 0 else nvy }

/-! ## Message screens -/

def winScreen (x y : ℤ) : Pixel :=
  if msgPixel msgWin1 x y 60 180 then pixWall
  else if msgPixel msgWin2 x y 60 210 then pixWall
  else pixGoalBg

def loseScreen (x y : ℤ) : Pixel := if msgPixel msgLose x y 170 210 then pixWall else pixHazard

def quitScreen (x y : ℤ) : Pixel := if msgPixel msgQuit x y 140 210 then pixWall else pixEmpty

namespace Engine

/-! ## States of the main process -/

def motion (e : Engine) : Motion := ⟨e.bX, e.bY, e.vX, e.vY⟩

/-- The asynchronous reset; the wall rectangles keep their contents. -/
def reset (e : Engine) : Engine :=
  { e with
    st := .levelGen, initAddr := 0, level := 1
    layout := { e.layout with nWalls := 0, hz := ⟨300, 340, 220, 260⟩ }
    bX := 40, bY := 40, bXp := 40, bYp := 40, vX := 0, vY := 0
    dx := -ballR, dy := -ballR
    weR := false, addrR := 0, dataR := pixEmpty
    waitS := 0, lfsr := 0xACE1 }

def levelGen (e : Engine) : Engine :=
  { e with
    layout := genLayout e.level e.lfsr, lfsr := lfsrNext e.lfsr
    bX := 40, bY := 40, bXp := 40, bYp := 40, vX := 0, vY := 0
    dx := -ballR, dy := -ballR
    initAddr := 0, st := .initDraw }

/-- The four states that repaint the whole screen: one word a clock, then `done`. -/
def sweep (picture : ℤ → ℤ → Pixel) (done : Engine → Engine) (e : Engine) : Engine :=
  let e' := { e with
    weR := true, addrR := e.initAddr, dataR := picture (addrX e.initAddr) (addrY e.initAddr) }
  if e.initAddr = fbSize - 1 then done e' else { e' with initAddr := e.initAddr + 1 }

def initDraw (e : Engine) : Engine :=
  e.sweep e.layout.background fun e' => { e' with dx := -ballR, dy := -ballR, st := .drawBall }

def runIdle (i : EngineIn) (e : Engine) : Engine :=
  if i.iPause then e
  else if i.tick && i.iAccelReady then
    let m := physics e.level e.layout e.motion i.iAx i.iAy
    let e' := { e with bXp := e.bX, bYp := e.bY, vX := m.vx, vY := m.vy, bX := m.x, bY := m.y }
    if hitRect m.x m.y e.layout.hz then { e' with st := .loseMsgDraw, initAddr := 0, waitS := 10 }
    else if hitRect m.x m.y goal then { e' with st := .winMsgDraw, initAddr := 0, waitS := 5 }
    else { e' with dx := -ballR, dy := -ballR, st := .eraseBall }
  else e

/-- Write one pixel of the ball's box unless it is off the screen or belongs to the background. -/
def paintCell (x y : ℤ) (data : Pixel) (e : Engine) : Engine :=
  if OnScreen x y then
    if e.layout.free x y then { e with weR := true, addrR := toAddr x y, dataR := data } else e
  else e

/-- The next offset of the box scan, row by row, or `next` after the last one. -/
def scanBox (next : St) (e : Engine) : Engine :=
  if e.dx = ballR then
    if e.dy = ballR then { e with dx := -ballR, dy := -ballR, st := next }
    else { e with dx := -ballR, dy := e.dy + 1 }
  else { e with dx := e.dx + 1 }

def eraseBall (e : Engine) : Engine :=
  (e.paintCell (e.bXp + e.dx) (e.bYp + e.dy) pixEmpty).scanBox .drawBall

def drawBall (e : Engine) : Engine :=
  (e.paintCell (e.bX + e.dx) (e.bY + e.dy) pixBall).scanBox .runIdle

/-- The three message states count seconds down and restart at the given level. -/
def msgWait (level : ℕ) (i : EngineIn) (e : Engine) : Engine :=
  if i.secTick then
    if e.waitS = 0 then { e with level := level, st := .levelGen }
    else { e with waitS := e.waitS - 1 }
  else e

def winMsgDraw (e : Engine) : Engine := e.sweep winScreen fun e' => { e' with st := .winMsgWait }
def loseMsgDraw (e : Engine) : Engine := e.sweep loseScreen fun e' => { e' with st := .loseMsgWait }
def quitMsgDraw (e : Engine) : Engine := e.sweep quitScreen fun e' => { e' with st := .quitMsgWait }

def winMsgWait (i : EngineIn) (e : Engine) : Engine := e.msgWait (e.level + 1) i
def loseMsgWait (i : EngineIn) (e : Engine) : Engine := e.msgWait 1 i
def quitMsgWait (i : EngineIn) (e : Engine) : Engine := e.msgWait 1 i

/-- `i_reset` is accepted outside the two quit states. -/
def accepts (i : EngineIn) (e : Engine) : Bool :=
  i.iReset && e.st ≠ .quitMsgDraw && e.st ≠ .quitMsgWait

/-- The case statement over the states. -/
def active (i : EngineIn) (e : Engine) : Engine :=
  match e.st with
  | .levelGen => e.levelGen
  | .initDraw => e.initDraw
  | .runIdle => e.runIdle i
  | .eraseBall => e.eraseBall
  | .drawBall => e.drawBall
  | .winMsgDraw => e.winMsgDraw
  | .winMsgWait => e.winMsgWait i
  | .loseMsgDraw => e.loseMsgDraw
  | .loseMsgWait => e.loseMsgWait i
  | .quitMsgDraw => e.quitMsgDraw
  | .quitMsgWait => e.quitMsgWait i

/-- One rising edge of the main process. -/
def clock (e : Engine) (i : EngineIn) : Engine :=
  if e.accepts i then { e with weR := false, st := .quitMsgDraw, initAddr := 0, waitS := 10 }
  else { e with weR := false }.active i

/-- The request the engine has registered for the framebuffer: `o_we`, `o_addr`, `o_data`. -/
def request (e : Engine) : Write Pixel := ⟨e.weR, e.addrR, e.dataR⟩

end Engine

end Telecran.Model
