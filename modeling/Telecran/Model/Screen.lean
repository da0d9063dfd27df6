import Mathlib.Algebra.Order.Ring.Int
import Mathlib.Tactic.Linarith

/-! # Screen, rectangles and message text

Pixel codes, the framebuffer address map, the rectangle tests and the text renderer of
`gravity_maze_engine`. The engine's only instance uses the resolution 720x480, so the generics
`h_res`, `v_res` and `fb_size` are constants here. Rectangles are closed on all four sides, and a
rectangle whose far side is before its near side is empty. VHDL `/` truncates, as `Int.tdiv` does.
-/

namespace Telecran.Model

@[simp] abbrev hRes : ℕ := 720
@[simp] abbrev vRes : ℕ := 480
@[simp] abbrev fbSize : ℕ := 720 * 480

/-! ## Pixel codes -/

abbrev Pixel := BitVec 8

def pixEmpty : Pixel := 0x00
def pixWall : Pixel := 0x01
def pixBall : Pixel := 0x02
def pixGoalBg : Pixel := 0x04
def pixGoalFg : Pixel := 0x01
def pixHazard : Pixel := 0x05

/-! ## Addresses -/

/-- The word of a pixel, saturated at both ends of the framebuffer. -/
def toAddr (x y : ℤ) : ℕ :=
  let a := y * hRes + x
  if a < 0 then 0 else if a > fbSize - 1 then fbSize - 1 else a.toNat

def addrX (addr : ℕ) : ℤ := (addr % hRes : ℕ)
def addrY (addr : ℕ) : ℤ := (addr / hRes : ℕ)

/-- The pixel positions of the screen. -/
def OnScreen (x y : ℤ) : Prop := 0 ≤ x ∧ x < hRes ∧ 0 ≤ y ∧ y < vRes

instance (x y : ℤ) : Decidable (OnScreen x y) := inferInstanceAs (Decidable (_ ∧ _))

theorem toAddr_of_onScreen {x y : ℤ} (on : OnScreen x y) : (toAddr x y : ℤ) = y * 720 + x := by
  obtain ⟨x0, x1, y0, y1⟩ := on
  simp only [toAddr, hRes, fbSize] at *
  push_cast at *
  split_ifs <;> omega

theorem toAddr_lt (x y : ℤ) : toAddr x y < fbSize := by
  simp only [toAddr, hRes, fbSize]
  push_cast
  split_ifs <;> omega

/-- Distinct pixels have distinct words. -/
theorem toAddr_inj {x y x' y' : ℤ} (on : OnScreen x y) (on' : OnScreen x' y')
    (same : toAddr x y = toAddr x' y') : x = x' ∧ y = y' := by
  have left := toAddr_of_onScreen on
  have right := toAddr_of_onScreen on'
  rw [same] at left
  simp only [OnScreen, hRes, vRes] at on on'
  omega

theorem onScreen_addr {addr : ℕ} (bound : addr < fbSize) : OnScreen (addrX addr) (addrY addr) := by
  simp only [OnScreen, addrX, addrY, hRes, vRes, fbSize] at *
  omega

theorem toAddr_addr {addr : ℕ} (bound : addr < fbSize) : toAddr (addrX addr) (addrY addr) = addr := by
  have word := toAddr_of_onScreen (onScreen_addr bound)
  simp only [addrX, addrY, hRes] at *
  omega

theorem addr_toAddr {x y : ℤ} (on : OnScreen x y) :
    addrX (toAddr x y) = x ∧ addrY (toAddr x y) = y := by
  have bound := toAddr_lt x y
  exact toAddr_inj (onScreen_addr bound) on (toAddr_addr bound)

/-! ## Rectangles -/

structure Rect where
  x0 : ℤ
  x1 : ℤ
  y0 : ℤ
  y1 : ℤ
deriving DecidableEq, Repr

def clamp (v lo hi : ℤ) : ℤ := if v < lo then lo else if v > hi then hi else v

def inRect (x y : ℤ) (r : Rect) : Bool := x ≥ r.x0 && x ≤ r.x1 && y ≥ r.y0 && y ≤ r.y1

theorem inRect_iff {x y : ℤ} {r : Rect} :
    inRect x y r = true ↔ r.x0 ≤ x ∧ x ≤ r.x1 ∧ r.y0 ≤ y ∧ y ≤ r.y1 := by
  simp [inRect, and_assoc]

@[simp] abbrev ballR : ℤ := 2

/-- The ball's 5x5 box meets the rectangle. -/
def hitRect (ballX ballY : ℤ) (r : Rect) : Bool :=
  ballX - ballR ≤ r.x1 && ballX + ballR ≥ r.x0 && ballY - ballR ≤ r.y1 && ballY + ballR ≥ r.y0

theorem hitRect_iff {x y : ℤ} {r : Rect} :
    hitRect x y r = true ↔ x - 2 ≤ r.x1 ∧ r.x0 ≤ x + 2 ∧ y - 2 ≤ r.y1 ∧ r.y0 ≤ y + 2 := by
  simp [hitRect, and_assoc]

/-! ## The goal and its logo -/

def goal : Rect := ⟨640, 700, 60, 110⟩

def inGoal (x y : ℤ) : Bool := inRect x y goal

def logoW : ℕ := 61
def logoH : ℕ := 51

/-- The logo ROM, leftmost column in the highest bit. -/
def cLogo : List (BitVec 61) :=
  let blank := 0b0000000000000000000000000000000000000000000000000000000000000
  let bar := 0b0000000000111111111111111111111111110000000000000000000000000
  let stem := 0b0000000000111111100000000000000000000000000000000000000000000
  .replicate 8 blank ++ .replicate 5 bar ++ .replicate 10 stem ++ .replicate 5 bar ++
    .replicate 10 stem ++ .replicate 5 bar ++ .replicate 8 blank

example : cLogo.length = logoH := by decide

/-- The colour of a pixel of the goal rectangle. -/
def logoPixel (x y : ℤ) : Pixel :=
  if (cLogo.getD (y - goal.y0).toNat 0).getLsbD (logoW - 1 - (x - goal.x0).toNat) then pixGoalFg
  else pixGoalBg

/-! ## Layouts -/

def maxWalls : ℕ := 20

/-- What a level puts on the screen: the wall registers, how many are in use, and the hazard. -/
structure Layout where
  walls : Fin maxWalls → Rect
  nWalls : ℕ
  hz : Rect

namespace Layout

variable (l : Layout) (x y : ℤ)

def isWallLevel : Bool :=
  (List.finRange maxWalls).any fun i => decide (i.val < l.nWalls) && inRect x y (l.walls i)

def isWall : Bool :=
  if x ≤ 10 || x ≥ hRes - 11 || y ≤ 10 || y ≥ vRes - 11 then true
  else if l.isWallLevel x y then true
  else false

theorem isWallLevel_iff :
    l.isWallLevel x y = true ↔ ∃ i : Fin maxWalls, i.val < l.nWalls ∧ inRect x y (l.walls i) = true := by
  simp [isWallLevel]

/-- A wall pixel is on the border or in one of the wall rectangles. -/
theorem isWall_iff :
    l.isWall x y = true ↔ (x ≤ 10 ∨ 709 ≤ x ∨ y ≤ 10 ∨ 469 ≤ y) ∨ l.isWallLevel x y = true := by
  simp only [isWall, hRes, vRes]
  push_cast
  split_ifs <;> simp_all
  omega

/-- The ball may be painted over this pixel. -/
def free : Bool := !l.isWall x y && !inGoal x y && !inRect x y l.hz

/-- What `S_INIT_DRAW` paints: goal over hazard over walls. -/
def background : Pixel :=
  if inGoal x y then logoPixel x y
  else if inRect x y l.hz then pixHazard
  else if l.isWall x y then pixWall
  else pixEmpty

end Layout

/-! ## Text -/

private def row (r : ℤ) (r0 r1 r2 r3 r4 r5 others : BitVec 5) : BitVec 5 :=
  if r = 0 then r0 else if r = 1 then r1 else if r = 2 then r2 else if r = 3 then r3
  else if r = 4 then r4 else if r = 5 then r5 else others

/-- Row `r` of the 5x7 glyph of `c`. -/
def glyphRow (c : Char) (r : ℤ) : BitVec 5 :=
  match c with
  | 'A' => row r 0b01110 0b10001 0b10001 0b11111 0b10001 0b10001 0b10001
  | 'C' => row r 0b01110 0b10001 0b10000 0b10000 0b10000 0b10001 0b01110
  | 'D' => row r 0b11110 0b10001 0b10001 0b10001 0b10001 0b10001 0b11110
  | 'E' => row r 0b11111 0b10000 0b10000 0b11110 0b10000 0b10000 0b11111
  | 'H' => row r 0b10001 0b10001 0b10001 0b11111 0b10001 0b10001 0b10001
  | 'I' => row r 0b11111 0b00100 0b00100 0b00100 0b00100 0b00100 0b11111
  | 'K' => row r 0b10001 0b10010 0b10100 0b11000 0b10100 0b10010 0b10001
  | 'L' => row r 0b10000 0b10000 0b10000 0b10000 0b10000 0b10000 0b11111
  | 'M' => row r 0b10001 0b11011 0b10101 0b10101 0b10001 0b10001 0b10001
  | 'N' => row r 0b10001 0b11001 0b10101 0b10011 0b10001 0b10001 0b10001
  | 'O' => row r 0b01110 0b10001 0b10001 0b10001 0b10001 0b10001 0b01110
  | 'Q' => row r 0b01110 0b10001 0b10001 0b10001 0b10101 0b10010 0b01101
  | 'R' => row r 0b11110 0b10001 0b10001 0b11110 0b10100 0b10010 0b10001
  | 'S' => row r 0b01111 0b10000 0b10000 0b01110 0b00001 0b00001 0b11110
  | 'T' => row r 0b11111 0b00100 0b00100 0b00100 0b00100 0b00100 0b00100
  | 'U' => row r 0b10001 0b10001 0b10001 0b10001 0b10001 0b10001 0b01110
  | 'W' => row r 0b10001 0b10001 0b10001 0b10101 0b10101 0b11011 0b10001
  | 'X' => row r 0b10001 0b01010 0b00100 0b00100 0b00100 0b01010 0b10001
  | 'Y' => row r 0b10001 0b01010 0b00100 0b00100 0b00100 0b00100 0b00100
  | '1' => row r 0b00100 0b01100 0b00100 0b00100 0b00100 0b00100 0b01110
  | _ => 0b00000

/-- The pixel of a text line whose top left corner is `(x0, y0)`, six columns a character. -/
def msgPixel (msg : List Char) (x y x0 y0 : ℤ) : Bool :=
  let cx := x - x0
  let cy := y - y0
  if cx < 0 || cy < 0 then false
  else if cy < 0 || cy > 6 then false
  else
    let idx := cx.tdiv 6
    let col := cx % 6
    if col = 5 then false
    else if idx < 0 || idx ≥ msg.length then false
    else (glyphRow (msg.getD idx.toNat ' ') cy).getLsbD (4 - col).toNat

def msgWin1 : List Char := "YOU SUCCEEDED ENSEAS 1ST YEAR".toList
def msgWin2 : List Char := "IM SURE YOU WONT SUCCEED THE NEXT ONE".toList
def msgLose : List Char := "YOU LOSE ENSEA WON".toList
def msgQuit : List Char := "I KNEW YOU ARE A QUITTER".toList

end Telecran.Model
