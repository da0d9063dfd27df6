import Telecran.Model.Board

/-! # Video timing and scan-out

`hdmi_controler` for arbitrary generics, the read side of the framebuffer and the video output
process of `A_GAME_MAYBE/telecran`. Port B registers the word it reads, while the counters, the
data enable and the palette are combinational: the word on the palette was addressed on the
previous pixel clock.
-/

namespace Telecran.Model

open Machine

/-- The generics of `hdmi_controler`. -/
structure Timing where
  hRes : ℕ
  vRes : ℕ
  hSync : ℕ
  hFp : ℕ
  hBp : ℕ
  vSync : ℕ
  vFp : ℕ
  vBp : ℕ
deriving DecidableEq, Repr

/-- The counters of `hdmi_controler`. -/
structure Scan where
  hCnt : ℕ
  vCnt : ℕ
deriving DecidableEq, Repr

namespace Timing

variable (t : Timing)

def hTotal : ℕ := t.hRes + t.hFp + t.hSync + t.hBp
def vTotal : ℕ := t.vRes + t.vFp + t.vSync + t.vBp

def clock (s : Scan) : Scan :=
  if s.hCnt = t.hTotal - 1 then ⟨0, if s.vCnt = t.vTotal - 1 then 0 else s.vCnt + 1⟩
  else ⟨s.hCnt + 1, s.vCnt⟩

def de (s : Scan) : Bool := s.hCnt < t.hRes && s.vCnt < t.vRes

def hs (s : Scan) : Bool := !(s.hCnt ≥ t.hRes + t.hFp && s.hCnt < t.hRes + t.hFp + t.hSync)
def vs (s : Scan) : Bool := !(s.vCnt ≥ t.vRes + t.vFp && s.vCnt < t.vRes + t.vFp + t.vSync)

def xCounter (s : Scan) : ℕ := if s.hCnt < t.hRes then s.hCnt else 0
def yCounter (s : Scan) : ℕ := if s.vCnt < t.vRes then s.vCnt else 0

def pixelEn (s : Scan) : Bool := t.de s
def pixelAddress (s : Scan) : ℕ := if t.de s then s.vCnt * t.hRes + s.hCnt else 0

/-- The counters `n` clocks after the reset. -/
def after (n : ℕ) : Scan := t.clock^[n] ⟨0, 0⟩

theorem after_succ (n : ℕ) : t.after (n + 1) = t.clock (t.after n) := Function.iterate_succ_apply' ..

/-- The nested counters are the remainder and the quotient of the clock. -/
theorem after_eq (width : 0 < t.hTotal) (height : 0 < t.vTotal) (n : ℕ) :
    t.after n = ⟨n % t.hTotal, n / t.hTotal % t.vTotal⟩ := by
  induction n with
  | zero => simp [after]
  | succ n ih =>
    have column := wrap_mod width n
    have line := wrap_mod height (n / t.hTotal)
    rw [after_succ, ih, clock]
    by_cases last : n % t.hTotal = t.hTotal - 1
    · rw [if_pos last] at column
      have next : (n + 1) / t.hTotal = n / t.hTotal + 1 :=
        Nat.succ_div_of_dvd (Nat.dvd_of_mod_eq_zero column.symm)
      simp only [if_pos last, ← column, next, line]
    · rw [if_neg last] at column
      have next : (n + 1) / t.hTotal = n / t.hTotal :=
        Nat.succ_div_of_not_dvd fun whole => by
          rw [Nat.mod_eq_zero_of_dvd whole] at column
          omega
      simp only [if_neg last, ← column, next]

end Timing

/-- The 720x480 timing of the telecran. -/
def telecranTiming : Timing where
  hRes := hRes
  vRes := vRes
  hSync := 61
  hFp := 58
  hBp := 18
  vSync := 5
  vFp := 30
  vBp := 9

/-! ## Video output -/

abbrev Colour := BitVec 24

def palette (q : Pixel) : Colour :=
  if q = 0x00 then 0x000000
  else if q = 0x01 then 0xFFFFFF
  else if q = 0x02 then 0x00FF00
  else if q = 0x03 then 0xFFFF00
  else if q = 0x04 then 0x8B004B
  else if q = 0x05 then 0x6A00FF
  else 0xFF00FF

def checkerboard (x y : ℕ) : Colour := if x / 16 % 2 = y / 16 % 2 then 0x000000 else 0xFFFFFF

/-- Length of an acceleration bar. -/
def barLength (samp : BitVec 16) (limit : ℤ) : ℤ :=
  let len := samp.toInt.tdiv 16
  let len := if len > limit then limit else len
  if len < -limit then -limit else len

/-- The pixel is on the bar that starts at `centre` and has the signed length `len`. -/
def onBar (v centre len : ℤ) : Bool :=
  if len ≥ 0 then v ≥ centre && v ≤ centre + len else v ≤ centre && v ≥ centre + len

/-- The acceleration bars; a later assignment overrides an earlier one. -/
def accelBars (x y : ℕ) (axSamp aySamp : BitVec 16) : Colour :=
  let axLen := barLength axSamp 300
  let ayLen := barLength aySamp 200
  let d : Colour := 0x000000
  let d := if y ≥ 20 && y ≤ 30 then
      if onBar x 360 axLen then (if axLen ≥ 0 then 0x00FF00 else 0xFF0000)
      else if x = 360 then 0xFFFFFF else d
    else d
  if x ≥ 20 && x ≤ 30 then
    if onBar y 240 ayLen then (if ayLen ≥ 0 then 0x0000FF else 0xFFFF00)
    else if y = 240 then 0xFFFFFF else d
  else d

/-- The video output process. -/
def hdmiTxD (de : Bool) (x y : ℕ) (q : Pixel) (debugMode : BitVec 2) (axSamp aySamp : BitVec 16)
    (accelOk : Bool) : Colour :=
  if de then
    if debugMode = 0b01 then checkerboard x y
    else if debugMode = 0b10 then if accelOk then accelBars x y axSamp aySamp else 0x300000
    else if debugMode = 0b11 then if q = 0x01 then 0xFFFFFF else 0x000000
    else palette q
  else 0x000000

/-! ## Scan-out -/

/-- The counters and the output register of port B. -/
structure Video where
  scan : Scan
  oQB : Pixel

namespace Video

variable (v : Video)

def de : Bool := telecranTiming.de v.scan
def xCounter : ℕ := telecranTiming.xCounter v.scan
def yCounter : ℕ := telecranTiming.yCounter v.scan
def rdAddr : ℕ := v.yCounter * hRes + v.xCounter

/-- One pixel clock, with the framebuffer contents at that clock; port B never writes. -/
def clock (ram : Memory Pixel) : Video where
  scan := telecranTiming.clock v.scan
  oQB := (Dpram.clockB ⟨ram, 0, v.oQB⟩ ⟨false, v.rdAddr, 0⟩).oQB

/-- A pixel clock during the reset: the counters are held at zero and port B reads word zero. -/
def reset (ram : Memory Pixel) : Video where
  scan := ⟨0, 0⟩
  oQB := ram 0

/-- The state after `n` pixel clocks; `ram n` is the framebuffer at clock `n`, and clock zero is
the last one during the reset. -/
def after (ram : ℕ → Memory Pixel) : ℕ → Video
  | 0 => reset (ram 0)
  | n + 1 => (after ram n).clock (ram (n + 1))

/-- `o_hdmi_tx_d` in debug mode 00. -/
def colour (axSamp aySamp : BitVec 16) (accelOk : Bool) : Colour :=
  hdmiTxD v.de v.xCounter v.yCounter v.oQB 0b00 axSamp aySamp accelOk

end Video

end Telecran.Model
