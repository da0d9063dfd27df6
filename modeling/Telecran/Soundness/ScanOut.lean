import Telecran.Model.Video

/-! # Scan-out of the framebuffer

Port B delivers a word one pixel clock after its address, and nothing delays the data enable or
the counters by that clock. Each active pixel therefore shows the word addressed on the previous
clock: its left neighbour, and on column zero the first word of the line above, which the clamped
counters address all through the blanking. A frame shows every word at its own place exactly when
all words have one colour.
-/

namespace Telecran.Soundness.ScanOut

open Machine Model

/-- Pixel clocks of a frame. -/
def framePeriod : ℕ := telecranTiming.hTotal * telecranTiming.vTotal

theorem framePeriod_eq : framePeriod = 857 * 524 := rfl

theorem after_scan (ram : ℕ → Memory Pixel) (n : ℕ) :
    (Video.after ram n).scan = telecranTiming.after n := by
  induction n with
  | zero => rfl
  | succ n ih => rw [Timing.after_succ, ← ih]; rfl

/-- The clock of pixel `(x, y)` in frame `f`. -/
def pixelClock (f x y : ℕ) : ℕ := f * framePeriod + (y * 857 + x)

theorem pixelClock_inside (f : ℕ) {x y : ℕ} (hx : x < 857) (hy : y < 524) :
    f * framePeriod ≤ pixelClock f x y ∧ pixelClock f x y < (f + 1) * framePeriod := by
  rw [pixelClock, framePeriod_eq]
  constructor
  · omega
  · omega

theorem pixelClock_succ (f x y : ℕ) : pixelClock f (x + 1) y = pixelClock f x y + 1 := by
  simp only [pixelClock]
  omega

/-- The last clock of a line is followed by the first one of the next. -/
theorem pixelClock_line (f y : ℕ) : pixelClock f 0 (y + 1) = pixelClock f 856 y + 1 := by
  simp only [pixelClock]
  omega

theorem scan_pixelClock (ram : ℕ → Memory Pixel) (f : ℕ) {x y : ℕ} (hx : x < 857) (hy : y < 524) :
    (Video.after ram (pixelClock f x y)).scan = ⟨x, y⟩ := by
  have width : telecranTiming.hTotal = 857 := rfl
  have height : telecranTiming.vTotal = 524 := rfl
  rw [after_scan, Timing.after_eq _ (by decide) (by decide), width, height, Scan.mk.injEq, pixelClock,
    framePeriod_eq]
  constructor
  · omega
  · omega

/-- The word on the palette is the one addressed a clock before. -/
theorem shown_word (ram : ℕ → Memory Pixel) (n : ℕ) :
    (Video.after ram (n + 1)).oQB = ram (n + 1) (Video.after ram n).rdAddr := by
  rw [Video.after, Video.clock, Dpram.clockB_read _ _ rfl]

theorem rdAddr_of_scan {v : Video} {x y : ℕ} (scan : v.scan = ⟨x, y⟩) :
    v.rdAddr = (if y < 480 then y else 0) * 720 + if x < 720 then x else 0 := by
  rw [Video.rdAddr, Video.xCounter, Video.yCounter, scan]
  rfl

theorem rdAddr_lt (v : Video) : v.rdAddr < fbSize := by
  have column : (if v.scan.hCnt < 720 then v.scan.hCnt else 0) < 720 := by split_ifs <;> omega
  have line : (if v.scan.vCnt < 480 then v.scan.vCnt else 0) < 480 := by split_ifs <;> omega
  rw [rdAddr_of_scan (x := v.scan.hCnt) (y := v.scan.vCnt) rfl]
  simp only [fbSize]
  omega

theorem colour_of_de {v : Video} (active : v.de = true) (axSamp aySamp : BitVec 16) (accelOk : Bool) :
    v.colour axSamp aySamp accelOk = palette v.oQB := by
  simp [Video.colour, hdmiTxD, active]

theorem de_iff (v : Video) : v.de = true ↔ v.scan.hCnt < 720 ∧ v.scan.vCnt < 480 := by
  rw [Video.de, Timing.de, Bool.and_eq_true, decide_eq_true_iff, decide_eq_true_iff]
  rfl

section Frame

variable (ram : ℕ → Memory Pixel) (f : ℕ) (fb : Memory Pixel) (axSamp aySamp : BitVec 16)
  (accelOk : Bool)

/-- The framebuffer holds `fb` on every clock of frame `f`. -/
def Held : Prop := ∀ n, f * framePeriod ≤ n → n < (f + 1) * framePeriod → ram n = fb

/-- Every active pixel of frame `f` shows the word at its own position. -/
def Exact : Prop := ∀ n, f * framePeriod ≤ n → n < (f + 1) * framePeriod →
  (Video.after ram n).de = true →
    (Video.after ram n).colour axSamp aySamp accelOk =
      palette (fb ((Video.after ram n).scan.vCnt * 720 + (Video.after ram n).scan.hCnt))

variable {ram f fb}

theorem held_pixelClock (held : Held ram f fb) {x y : ℕ} (hx : x < 857) (hy : y < 524) :
    ram (pixelClock f x y) = fb :=
  held _ (pixelClock_inside f hx hy).1 (pixelClock_inside f hx hy).2

/-- Inside a line a pixel shows its left neighbour. -/
theorem shown_inside (held : Held ram f fb) {x y : ℕ} (hx : x + 1 < 720) (hy : y < 480) :
    (Video.after ram (pixelClock f (x + 1) y)).oQB = fb (y * 720 + x) := by
  have next := pixelClock_succ f x y
  have address := rdAddr_of_scan (scan_pixelClock ram f (x := x) (y := y) (by omega) (by omega))
  rw [if_pos hy, if_pos (by omega)] at address
  rw [next, shown_word, address, ← next, held_pixelClock held (by omega) (by omega)]

/-- A line starts with the first word of the line above. -/
theorem shown_first (held : Held ram f fb) {y : ℕ} (hy : y + 1 < 480) :
    (Video.after ram (pixelClock f 0 (y + 1))).oQB = fb (y * 720) := by
  have next := pixelClock_line f y
  have address := rdAddr_of_scan (scan_pixelClock ram f (x := 856) (y := y) (by omega) (by omega))
  rw [if_pos (by omega), if_neg (by omega), Nat.add_zero] at address
  rw [next, shown_word, address, ← next, held_pixelClock held (by omega) (by omega)]

/-- The colour an exact frame shows at an active pixel is the one port B delivers there. -/
theorem exact_pixel (exact : Exact ram f fb axSamp aySamp accelOk) {x y : ℕ} (hx : x < 720)
    (hy : y < 480) :
    palette (Video.after ram (pixelClock f x y)).oQB = palette (fb (y * 720 + x)) := by
  have scan := scan_pixelClock ram f (x := x) (y := y) (by omega) (by omega)
  have active : (Video.after ram (pixelClock f x y)).de = true := by
    rw [de_iff, scan]
    exact ⟨hx, hy⟩
  obtain ⟨first, last⟩ := pixelClock_inside f (x := x) (y := y) (by omega) (by omega)
  have own := exact (pixelClock f x y) first last active
  rwa [colour_of_de active, scan] at own

/-- Every word of an exact frame has the colour of word zero. -/
theorem exact_colour (held : Held ram f fb) (exact : Exact ram f fb axSamp aySamp accelOk) {x y : ℕ}
    (hx : x < 720) (hy : y < 480) : palette (fb (y * 720 + x)) = palette (fb 0) := by
  induction x with
  | zero =>
    induction y with
    | zero => rfl
    | succ y ih =>
      have own := exact_pixel axSamp aySamp accelOk exact hx hy
      rw [shown_first held hy] at own
      rw [← own, ← ih (by omega), Nat.add_zero]
  | succ x ih =>
    have own := exact_pixel axSamp aySamp accelOk exact hx hy
    rw [shown_inside held hx hy] at own
    rw [← own]
    exact ih (by omega)

/-- A frame is shown exactly, every word once and at its own position, if and only if the whole
framebuffer has a single colour. -/
theorem scanout_exact_iff (held : Held ram f fb) :
    Exact ram f fb axSamp aySamp accelOk ↔
      ∀ a < fbSize, ∀ b < fbSize, palette (fb a) = palette (fb b) := by
  constructor
  · intro exact a ha b hb
    have black : ∀ c < fbSize, palette (fb c) = palette (fb 0) := by
      intro c hc
      simp only [fbSize] at hc
      have cell := exact_colour axSamp aySamp accelOk held exact (x := c % 720) (y := c / 720)
        (by omega) (by omega)
      rwa [Nat.div_add_mod'] at cell
    rw [black a ha, black b hb]
  · intro uniform n first last active
    obtain ⟨hx, hy⟩ := (de_iff _).mp active
    have word : ∃ a < fbSize, (Video.after ram n).oQB = fb a := by
      cases n with
      | zero => exact ⟨0, by decide, congrFun (held 0 first last) 0⟩
      | succ n => exact ⟨_, rdAddr_lt _, by rw [shown_word, held _ first last]⟩
    obtain ⟨a, bound, shown⟩ := word
    rw [colour_of_de active, shown]
    exact uniform a bound _ (by simp only [fbSize]; omega)

end Frame

/-- A blank screen is shown exactly. -/
theorem scanout_exact_iff_blank :
    Held (fun _ _ => pixEmpty) 3 (fun _ => pixEmpty) ∧
      Exact (fun _ _ => pixEmpty) 3 (fun _ => pixEmpty) 0 0 true :=
  have held : Held (fun _ _ => pixEmpty) 3 (fun _ => pixEmpty) := fun _ _ _ => rfl
  ⟨held, (scanout_exact_iff 0 0 true held).mpr fun _ _ _ _ => rfl⟩

/-- With word zero white and all others black, pixel `(1, 0)` is white. -/
theorem scanout_shifted :
    Held (fun _ a => if a = 0 then 0x01 else 0x00) 0 (fun a => if a = 0 then 0x01 else 0x00) ∧
      ¬ Exact (fun _ a => if a = 0 then 0x01 else 0x00) 0 (fun a => if a = 0 then 0x01 else 0x00)
        0 0 true := by
  constructor
  · intro _ _ _
    rfl
  · intro exact
    exact absurd (exact 1 (by decide) (by decide) (by decide)) (by decide)

end Telecran.Soundness.ScanOut
