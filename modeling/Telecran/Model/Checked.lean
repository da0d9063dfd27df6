import Telecran.Machine.RangeCheck
import Telecran.Model.Engine

/-! # The gravity maze engine with run-time checks

The main process and the two tick dividers of `gravity_maze_engine` once more, as a simulator runs
them: every assignment to a signal with a declared range, every index and every conversion is
checked, and a clock on which a check fails has no result. `toAddr` fails where the source saturates.
-/

namespace Telecran.Model.Checked

open Machine

/-! ## Signals with a declared range -/

def initAddr (v : ℤ) : Option ℕ := natural 0 (fbSize - 1) v
def addrR (v : ℤ) : Option ℕ := natural 0 (fbSize - 1) v
def nWalls (v : ℤ) : Option ℕ := natural 0 maxWalls v
def waitS (v : ℤ) : Option ℕ := natural 0 15 v
def level (v : ℤ) : Option ℕ := natural 1 999 v
def offset (v : ℤ) : Option ℤ := ranged (-ballR) ballR v

/-! ## Functions -/

/-- The word of a pixel that has one. -/
def toAddr (x y : ℤ) : Option ℕ := addrR (y * hRes + x)

def logoPixel (x y : ℤ) : Option Pixel := do
  let row ← element cLogo (y - goal.y0)
  let lit ← bitAt row (logoW - 1 - (x - goal.x0))
  return if lit then pixGoalFg else pixGoalBg

/-- The wall registers have the indices 0 to 19. -/
def wall (l : Layout) (i : ℕ) : Option Rect :=
  if inside : i < maxWalls then some (l.walls ⟨i, inside⟩) else none

def isWallLevel (l : Layout) (x y : ℤ) : Option Bool :=
  (List.range maxWalls).anyM fun i =>
    if i < l.nWalls then (wall l i).map (inRect x y) else some false

def isWall (l : Layout) (x y : ℤ) : Option Bool :=
  if x ≤ 10 || x ≥ hRes - 11 || y ≤ 10 || y ≥ vRes - 11 then some true else isWallLevel l x y

def background (l : Layout) (x y : ℤ) : Option Pixel :=
  if inGoal x y then logoPixel x y
  else if inRect x y l.hz then some pixHazard
  else (isWall l x y).map fun wall => if wall then pixWall else pixEmpty

def free (l : Layout) (x y : ℤ) : Option Bool :=
  (isWall l x y).map fun wall => !wall && !inGoal x y && !inRect x y l.hz

def msgPixel (msg : List Char) (x y x0 y0 : ℤ) : Option Bool :=
  let cx := x - x0
  let cy := y - y0
  if cx < 0 || cy < 0 then some false
  else if cy < 0 || cy > 6 then some false
  else
    let idx := cx.tdiv 6
    let col := cx % 6
    if col = 5 then some false
    else if idx < 0 || idx ≥ msg.length then some false
    else do bitAt (glyphRow (← element msg idx) cy) (4 - col)

def winScreen (x y : ℤ) : Option Pixel := do
  if ← msgPixel msgWin1 x y 60 180 then return pixWall
  else if ← msgPixel msgWin2 x y 60 210 then return pixWall
  else return pixGoalBg

def loseScreen (x y : ℤ) : Option Pixel := do
  return if ← msgPixel msgLose x y 170 210 then pixWall else pixHazard

def quitScreen (x y : ℤ) : Option Pixel := do
  return if ← msgPixel msgQuit x y 140 210 then pixWall else pixEmpty

/-! ## Level generation -/

def genWall (level : ℕ) (lfsr : BitVec 16) (i : ℕ) : Option Rect := do
  if i < wantWalls level then
    let rollX ← toInteger ((lfsr + (← toUnsigned 16 (i * 97))) % (← toUnsigned 16 620))
    let rollY ← toInteger ((lfsr + (← toUnsigned 16 (i * 53))) % (← toUnsigned 16 380))
    let long ← toInteger (← modNatural (lfsr.extractLsb' 1 7) 160)
    let x0 : ℤ := 40 + rollX
    let y0 : ℤ := 40 + rollY
    let w : ℤ := if lfsr.getLsbD 0 then 180 + long else thick level
    let h : ℤ := if lfsr.getLsbD 0 then thick level else 140 + long
    let x0 := if x0 + w > 690 then 690 - w else x0
    let y0 := if y0 + h > 470 then 470 - h else y0
    return ⟨x0, x0 + w, y0, y0 + h⟩
  else return ⟨0, -1, 0, -1⟩

/-- All wall registers are assigned. -/
def genWalls (level : ℕ) (lfsr : BitVec 16) : Option (Fin maxWalls → Rect) :=
  if all : ∀ i : Fin maxWalls, (genWall level lfsr i).isSome then
    some fun i => (genWall level lfsr i).get (all i)
  else none

/-! ## States of the main process -/

/-- Start a box scan. -/
def home (e : Engine) : Option Engine := do
  let d ← offset (-ballR)
  return { e with dx := d, dy := d }

def levelGen (e : Engine) : Option Engine := do
  let used ← nWalls (wantWalls e.level)
  let walls ← genWalls e.level e.lfsr
  let first ← initAddr 0
  home { e with
    layout := ⟨walls, used, genHazard e.level⟩, lfsr := lfsrNext e.lfsr
    bX := 40, bY := 40, bXp := 40, bYp := 40, vX := 0, vY := 0
    initAddr := first, st := .initDraw }

def sweep (picture : ℤ → ℤ → Option Pixel) (done : Engine → Option Engine) (e : Engine) :
    Option Engine := do
  let addr ← addrR e.initAddr
  let data ← picture (addrX e.initAddr) (addrY e.initAddr)
  let e' := { e with weR := true, addrR := addr, dataR := data }
  if e.initAddr = fbSize - 1 then done e'
  else
    let next ← initAddr (e.initAddr + 1)
    return { e' with initAddr := next }

def initDraw (e : Engine) : Option Engine :=
  sweep (background e.layout) (fun e' => home { e' with st := .drawBall }) e

def physics (level : ℕ) (l : Layout) (m : Motion) (ax ay : BitVec 16) : Option Motion := do
  let nvx := damp level (m.vx + thrust level ax)
  let nvy := damp level (m.vy - thrust level ay)
  let stopX ← isWall l (m.x + nvx) m.y
  let stopY ← isWall l m.x (m.y + nvy)
  return {
    x := confine (if stopX then m.x else m.x + nvx) (hRes - 13)
    y := confine (if stopY then m.y else m.y + nvy) (vRes - 13)
    vx := if stopX then 0 else nvx
    vy := if stopY then 0 else nvy }

/-- Start a message screen that stays for `seconds`. -/
def message (st : St) (seconds : ℤ) (e : Engine) : Option Engine := do
  let first ← initAddr 0
  let wait ← waitS seconds
  return { e with st := st, initAddr := first, waitS := wait }

def runIdle (i : EngineIn) (e : Engine) : Option Engine := do
  if i.iPause then return e
  else if i.tick && i.iAccelReady then
    let m ← physics e.level e.layout e.motion i.iAx i.iAy
    let e' := { e with bXp := e.bX, bYp := e.bY, vX := m.vx, vY := m.vy, bX := m.x, bY := m.y }
    if hitRect m.x m.y e.layout.hz then message .loseMsgDraw 10 e'
    else if hitRect m.x m.y goal then message .winMsgDraw 5 e'
    else home { e' with st := .eraseBall }
  else return e

def paintCell (x y : ℤ) (data : Pixel) (e : Engine) : Option Engine := do
  if OnScreen x y then
    if ← free e.layout x y then
      let addr ← toAddr x y
      return { e with weR := true, addrR := addr, dataR := data }
    else return e
  else return e

def scanBox (next : St) (e : Engine) : Option Engine := do
  if e.dx = ballR then
    if e.dy = ballR then home { e with st := next }
    else
      let first ← offset (-ballR)
      let dy ← offset (e.dy + 1)
      return { e with dx := first, dy := dy }
  else
    let dx ← offset (e.dx + 1)
    return { e with dx := dx }

def eraseBall (e : Engine) : Option Engine := do
  scanBox .drawBall (← paintCell (e.bXp + e.dx) (e.bYp + e.dy) pixEmpty e)

def drawBall (e : Engine) : Option Engine := do
  scanBox .runIdle (← paintCell (e.bX + e.dx) (e.bY + e.dy) pixBall e)

def msgWait (restart : ℤ) (i : EngineIn) (e : Engine) : Option Engine := do
  if i.secTick then
    if e.waitS = 0 then
      let number ← level restart
      return { e with level := number, st := .levelGen }
    else
      let wait ← waitS (e.waitS - 1)
      return { e with waitS := wait }
  else return e

def winMsgDraw (e : Engine) : Option Engine := sweep winScreen (fun e' => some { e' with st := .winMsgWait }) e
def loseMsgDraw (e : Engine) : Option Engine := sweep loseScreen (fun e' => some { e' with st := .loseMsgWait }) e
def quitMsgDraw (e : Engine) : Option Engine := sweep quitScreen (fun e' => some { e' with st := .quitMsgWait }) e

def winMsgWait (i : EngineIn) (e : Engine) : Option Engine := msgWait (e.level + 1) i e
def loseMsgWait (i : EngineIn) (e : Engine) : Option Engine := msgWait 1 i e
def quitMsgWait (i : EngineIn) (e : Engine) : Option Engine := msgWait 1 i e

def active (i : EngineIn) (e : Engine) : Option Engine :=
  match e.st with
  | .levelGen => levelGen e
  | .initDraw => initDraw e
  | .runIdle => runIdle i e
  | .eraseBall => eraseBall e
  | .drawBall => drawBall e
  | .winMsgDraw => winMsgDraw e
  | .winMsgWait => winMsgWait i e
  | .loseMsgDraw => loseMsgDraw e
  | .loseMsgWait => loseMsgWait i e
  | .quitMsgDraw => quitMsgDraw e
  | .quitMsgWait => quitMsgWait i e

/-- One checked rising edge of the main process. -/
def clock (e : Engine) (i : EngineIn) : Option Engine :=
  if e.accepts i then message .quitMsgDraw 10 { e with weR := false }
  else active i { e with weR := false }

/-- One checked rising edge of a tick process. -/
def divider (period : ℕ) (d : Divider) : Option Divider := do
  if d.cnt = period - 1 then return ⟨← natural 0 (period - 1) 0, true⟩
  else return ⟨← natural 0 (period - 1) (d.cnt + 1), false⟩

end Telecran.Model.Checked
