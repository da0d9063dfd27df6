import Telecran.Soundness.GamePlay
import Telecran.Soundness.ScanOut

/-! # The screen shows the game

From the end of the last repaint of a move until the next tick the framebuffer stands still. A frame of
the video output that lies in this window, however the pixel clocks fall onto the clocks of the game,
shows the picture of the game one column to the right of where it belongs.
-/

namespace Telecran.Soundness.ScreenGame

open Machine Model Spec GamePlay ScanOut

variable {b : Board} {input : ℕ → AGame.In}

/-- The clocks between the last write of a move and the next tick. -/
def Standing (k n : ℕ) : Prop := tickClock k + (fbSize + 28) ≤ n ∧ n ≤ tickClock (k + 1)

/-- A game that rests on two clocks has been written out on the second. -/
private theorem written {n : ℕ} {g : Game} (late : 550000000 < n + 1) (before : (engine b input n).Rests g)
    (quiet : Engine.Quiet (engineInput b input n)) (rests : (engine b input (n + 1)).Rests g) :
    Painted (AGame.after b input (n + 1)).board.fb.ram g.picture fbSize := by
  have idle : (AGame.after b input (n + 1)).board.engine.weR = false := before.idle quiet
  have picture := picture_shown late rests
  rwa [Board.committed, Write.apply_idle idle] at picture

/-- In the window the framebuffer is the picture of the game. -/
theorem standing_picture {k n : ℕ} {g : Game} (late : 274 ≤ k) (rests : (engine b input (tickClock k)).Rests g)
    (released : ∀ n, tickClock k ≤ n → n < tickClock (k + 1) → Released input n) (standing : Standing k n) :
    Painted (AGame.after b input n).board.fb.ram (g.step (moveAt b input k)).picture fbSize := by
  have here : tickClock k = 2000000 * (k + 1) := rfl
  have next := next_tick k
  obtain ⟨first, last⟩ := standing
  simp only [fbSize] at first
  obtain ⟨p, rfl⟩ : ∃ p, n = tickClock k + (p + 1) + 1 := ⟨n - tickClock k - 2, by omega⟩
  have before := period_rests (p := p) rests released (by simp only [fbSize]; omega) (by omega)
  have now := period_rests (p := p + 1) rests released (by simp only [fbSize]; omega) (by omega)
  have quiet := @quiet_between b input (k + 1) (tickClock k + (p + 1)) (by simp only [fbSize]; omega)
    (by omega) (by omega) (released _ (by omega) (by omega))
  rw [← Nat.add_assoc] at now
  exact written (by omega) before quiet now

/-- The framebuffer as the pixel clocks find it. -/
def seen (b : Board) (input : ℕ → AGame.In) (pixel : ℕ → ℕ) (n : ℕ) : Memory Pixel :=
  (AGame.after b input (pixel n)).board.fb.ram

/-- The word that an active pixel shows, in a framebuffer that may change between two pixel clocks. -/
theorem shown_pixel (ram : ℕ → Memory Pixel) (f : ℕ) {x y : ℕ} (hx : x < 720) (hy : y < 480) :
    (Video.after ram (pixelClock f x y)).oQB =
      ram (pixelClock f x y) ((if x = 0 then y - 1 else y) * 720 + (x - 1)) := by
  rcases x with - | x
  · rcases y with - | y
    · rcases f with - | f
      · rfl
      · have wrap : pixelClock (f + 1) 0 0 = pixelClock f 856 523 + 1 := by
          simp only [pixelClock, framePeriod_eq]
          omega
        have address := rdAddr_of_scan (scan_pixelClock ram f (x := 856) (y := 523) (by omega) (by omega))
        rw [if_neg (by omega), if_neg (by omega)] at address
        rw [wrap, shown_word, address, if_pos rfl]
    · have address := rdAddr_of_scan (scan_pixelClock ram f (x := 856) (y := y) (by omega) (by omega))
      rw [if_pos (by omega), if_neg (by omega)] at address
      rw [pixelClock_line, shown_word, address, if_pos rfl, Nat.add_sub_cancel]
  · have address := rdAddr_of_scan (scan_pixelClock ram f (x := x) (y := y) (by omega) (by omega))
    rw [if_pos hy, if_pos (by omega)] at address
    rw [pixelClock_succ, shown_word, address, if_neg (Nat.succ_ne_zero x), Nat.add_sub_cancel]

/-- A framebuffer that always holds one picture shows it shifted. -/
theorem shown_picture {ram : ℕ → Memory Pixel} {f : ℕ} {picture : ℤ → ℤ → Pixel}
    (painted : ∀ n, f * framePeriod ≤ n → n < (f + 1) * framePeriod → Painted (ram n) picture fbSize) {x y : ℕ}
    (hx : x < 720) (hy : y < 480) :
    (Video.after ram (pixelClock f x y)).oQB = picture ↑(x - 1) ↑(if x = 0 then y - 1 else y) := by
  obtain ⟨first, last⟩ := pixelClock_inside f (x := x) (y := y) (by omega) (by omega)
  have row : (if x = 0 then y - 1 else y) < 480 := by split_ifs <;> omega
  have on : OnScreen (↑(x - 1)) (↑(if x = 0 then y - 1 else y)) := by
    simp only [OnScreen, hRes, vRes]
    omega
  have word := (painted _ first last).pixel on
  have address := toAddr_of_onScreen on
  rw [shown_pixel ram f hx hy, ← word]
  congr 1
  omega

/-- Outside the active area the output is black. -/
theorem colour_blank {v : Video} (blank : ¬(v.scan.hCnt < 720 ∧ v.scan.vCnt < 480)) (axSamp aySamp : BitVec 16)
    (accelOk : Bool) : v.colour axSamp aySamp accelOk = 0x000000 := by
  rw [← de_iff, Bool.not_eq_true] at blank
  rw [Video.colour, hdmiTxD, blank, if_neg Bool.false_ne_true]

/-- A frame of the video output that finds the framebuffer between the last write of a move and the next
tick shows the picture of the game one column to the right: its first column shows the first column of the
line above, and outside the active area the output is black. -/
theorem screen_shows_game (b : Board) (input : ℕ → AGame.In) (pixel : ℕ → ℕ) (f k : ℕ) (g : Game)
    (late : 274 ≤ k) (rests : (engine b input (tickClock k)).Rests g)
    (released : ∀ n, tickClock k ≤ n → n < tickClock (k + 1) → (input n).iLeftPb = true)
    (inside : ∀ n, f * framePeriod ≤ n → n < (f + 1) * framePeriod → Standing k (pixel n)) {x y : ℕ}
    (hx : x < 857) (hy : y < 524) (axSamp aySamp : BitVec 16) (accelOk : Bool) :
    (Video.after (seen b input pixel) (pixelClock f x y)).colour axSamp aySamp accelOk =
      if x < 720 ∧ y < 480 then
        palette ((g.step (moveAt b input k)).picture ↑(x - 1) ↑(if x = 0 then y - 1 else y))
      else 0x000000 := by
  have painted (n : ℕ) (first : f * framePeriod ≤ n) (last : n < (f + 1) * framePeriod) :
      Painted (seen b input pixel n) (g.step (moveAt b input k)).picture fbSize :=
    standing_picture late rests released (inside n first last)
  have scan := scan_pixelClock (seen b input pixel) f hx hy
  by_cases active : x < 720 ∧ y < 480
  · have shown : (Video.after (seen b input pixel) (pixelClock f x y)).de = true := by
      rw [de_iff, scan]
      exact active
    rw [if_pos active, colour_of_de shown, shown_picture painted active.1 active.2]
  · rw [if_neg active]
    refine colour_blank ?_ axSamp aySamp accelOk
    rw [scan]
    exact active

/-- Twenty-seven pixel clocks in fifty clocks: a frame in the first period of the first level. -/
theorem screen_shows_game_dealt :
    (Video.after (seen Framebuffer.coldBoard (fun _ => ⟨true, true⟩) fun n => n * 50 / 27)
      (pixelClock 662 100 50)).colour 0 0 true =
      palette (((run Game.step (opening Framebuffer.coldBoard)
        (moveAt Framebuffer.coldBoard fun _ => ⟨true, true⟩) 274).step
        (moveAt Framebuffer.coldBoard (fun _ => ⟨true, true⟩) 274)).picture 99 50) := by
  have shown := screen_shows_game Framebuffer.coldBoard (fun _ => ⟨true, true⟩) (fun n => n * 50 / 27) 662 274 _
    le_rfl (countdown_rests le_rfl) (fun _ _ _ => rfl) (fun n first last => by
      simp only [framePeriod_eq] at first last
      simp only [Standing, tickClock, fbSize]
      omega) (x := 100) (y := 50) (by omega) (by omega) 0 0 true
  rw [if_pos (by omega)] at shown
  exact shown

end Telecran.Soundness.ScreenGame
