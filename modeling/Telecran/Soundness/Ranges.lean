import Telecran.Model.Checked
import Telecran.Soundness.Framebuffer

/-! # The engine never leaves its ranges

As long as the level stays within its declared range, no clock of any run fails a range check, an
index check or a conversion: the engine with run-time checks makes the same run as the one without.
The ball keeps so far from the edges that its box is always on the screen.
-/

namespace Telecran.Soundness.Ranges

open Machine Model

/-! ## Pictures -/

private theorem wall_eq (l : Layout) (i : Fin maxWalls) : Checked.wall l i = some (l.walls i) :=
  dif_pos i.isLt

private theorem isWallLevel_eq (l : Layout) (x y : ℤ) :
    Checked.isWallLevel l x y = some (l.isWallLevel x y) := by
  have same : ∀ i ∈ List.finRange maxWalls,
      (if i.val < l.nWalls then (Checked.wall l i.val).map (inRect x y) else some false) =
        some (decide (i.val < l.nWalls) && inRect x y (l.walls i)) := by
    intro i _
    rw [wall_eq]
    split_ifs with used <;> simp [used]
  rw [Checked.isWallLevel, ← List.map_coe_finRange_eq_range]
  exact anyM_map_eq same

private theorem isWall_eq (l : Layout) (x y : ℤ) : Checked.isWall l x y = some (l.isWall x y) := by
  rw [Checked.isWall, Layout.isWall, isWallLevel_eq]
  split_ifs <;> simp_all

private theorem free_eq (l : Layout) (x y : ℤ) : Checked.free l x y = some (l.free x y) := by
  rw [Checked.free, isWall_eq]
  rfl

private theorem logoPixel_eq {x y : ℤ} (inside : inGoal x y = true) :
    Checked.logoPixel x y = some (logoPixel x y) := by
  rw [inGoal, inRect_iff] at inside
  dsimp only [goal] at inside
  have rows : cLogo.length = 51 := by decide
  have column : ((logoW : ℤ) - 1 - (x - goal.x0)).toNat = logoW - 1 - (x - goal.x0).toNat := by
    simp only [logoW, goal]
    omega
  rw [Checked.logoPixel, element_eq (by simp only [goal, rows]; omega) 0]
  simp only [bind, Option.bind_some]
  rw [bitAt_eq (by simp only [goal, logoW]; omega), column]
  rfl

private theorem background_eq (l : Layout) (x y : ℤ) :
    Checked.background l x y = some (l.background x y) := by
  rw [Checked.background, Layout.background, isWall_eq]
  split_ifs with inside
  · exact logoPixel_eq inside
  all_goals simp_all

private theorem msgPixel_eq (msg : List Char) (x y x0 y0 : ℤ) :
    Checked.msgPixel msg x y x0 y0 = some (msgPixel msg x y x0 y0) := by
  simp only [Checked.msgPixel, msgPixel]
  split_ifs with outside row gap past <;> try rfl
  simp only [Bool.or_eq_true, decide_eq_true_eq, not_or, not_lt, ge_iff_le, not_le] at past
  rw [element_eq past ' ']
  simp only [bind, Option.bind_some]
  exact bitAt_eq (by omega)

private theorem winScreen_eq (x y : ℤ) : Checked.winScreen x y = some (winScreen x y) := by
  simp only [Checked.winScreen, winScreen, msgPixel_eq, bind, Option.bind_some]
  split_ifs <;> rfl

private theorem loseScreen_eq (x y : ℤ) : Checked.loseScreen x y = some (loseScreen x y) := by
  rw [Checked.loseScreen, msgPixel_eq]
  rfl

private theorem quitScreen_eq (x y : ℤ) : Checked.quitScreen x y = some (quitScreen x y) := by
  rw [Checked.quitScreen, msgPixel_eq]
  rfl

/-! ## Level generation -/

/-- The reduced seven-bit length is exact. -/
private theorem long_exact (seed : BitVec 7) :
    ((BitVec.ofNat 7 (seed.toNat % 160)).toNat : ℤ) = seed.toNat % 160 := by
  have bound := seed.isLt
  rw [BitVec.toNat_ofNat, Nat.mod_eq_of_lt (by omega)]
  omega

private theorem genWall_eq (level : ℕ) (lfsr : BitVec 16) {i : ℕ} (inside : i < maxWalls) :
    Checked.genWall level lfsr i = some (genWall level lfsr i) := by
  simp only [maxWalls] at inside
  have column : toUnsigned 16 (i * 97) = some (BitVec.ofNat 16 (i * 97)) := toUnsigned_eq (by omega)
  have row : toUnsigned 16 (i * 53) = some (BitVec.ofNat 16 (i * 53)) := toUnsigned_eq (by omega)
  have width : toUnsigned 16 620 = some (BitVec.ofNat 16 620) := toUnsigned_eq (by decide)
  have height : toUnsigned 16 380 = some (BitVec.ofNat 16 380) := toUnsigned_eq (by decide)
  have narrow : 16 ≤ 31 ∧ 7 ≤ 31 := by decide
  rw [Checked.genWall, genWall]
  by_cases used : i < wantWalls level
  · rw [if_pos used, if_pos used]
    simp only [column, row, width, height, modNatural_eq, toInteger_eq narrow.1, toInteger_eq narrow.2,
      bind, Option.bind_some, long_exact]
    rfl
  · rw [if_neg used, if_neg used]
    rfl

private theorem genWalls_eq (level : ℕ) (lfsr : BitVec 16) :
    Checked.genWalls level lfsr = some (genLayout level lfsr).walls := by
  have all (i : Fin maxWalls) : Checked.genWall level lfsr i = some (genWall level lfsr i) :=
    genWall_eq level lfsr i.isLt
  rw [Checked.genWalls, dif_pos fun i => by rw [all]; rfl]
  simp only [all, Option.get_some]
  rfl

/-! ## Main process -/

private theorem offset_eq {d : ℤ} (inside : -2 ≤ d ∧ d ≤ 2) : Checked.offset d = some d := ranged_eq inside

private theorem home_eq (e : Engine) : Checked.home e = some { e with dx := -ballR, dy := -ballR } := by
  rw [Checked.home, offset_eq (by decide)]
  rfl

private theorem levelGen_eq (e : Engine) : Checked.levelGen e = some e.levelGen := by
  have used : Checked.nWalls (wantWalls e.level) = some (wantWalls e.level) := by
    refine natural_eq rfl ⟨Nat.zero_le _, ?_⟩
    unfold wantWalls
    split_ifs <;> omega
  have first : Checked.initAddr 0 = some 0 := natural_eq rfl (by decide)
  rw [Checked.levelGen, used, genWalls_eq, first]
  simp only [bind, Option.bind_some, home_eq]
  rfl

private theorem sweep_eq {e : Engine} {picture : ℤ → ℤ → Option Pixel} {plain : ℤ → ℤ → Pixel}
    {done : Engine → Option Engine} {ends : Engine → Engine} (bound : e.initAddr < fbSize)
    (pictures : ∀ x y, picture x y = some (plain x y)) (finishes : ∀ e', done e' = some (ends e')) :
    Checked.sweep picture done e = some (e.sweep plain ends) := by
  have here : Checked.addrR e.initAddr = some e.initAddr :=
    natural_eq rfl ⟨Nat.zero_le _, Nat.le_sub_one_of_lt bound⟩
  rw [Checked.sweep, Engine.sweep, here, pictures]
  simp only [bind, Option.bind_some]
  by_cases last : e.initAddr = fbSize - 1
  · rw [if_pos last, if_pos last]
    exact finishes _
  · have next : Checked.initAddr (e.initAddr + 1) = some (e.initAddr + 1) :=
      natural_eq rfl ⟨Nat.zero_le _, by simp only [fbSize] at *; omega⟩
    rw [if_neg last, if_neg last, next]
    rfl

private theorem physics_eq (level : ℕ) (l : Layout) (m : Motion) (ax ay : BitVec 16) :
    Checked.physics level l m ax ay = some (physics level l m ax ay) := by
  simp only [Checked.physics, isWall_eq, bind, Option.bind_some]
  rfl

private theorem message_eq (st : St) (seconds : ℕ) (short : seconds ≤ 15) (e : Engine) :
    Checked.message st seconds e = some { e with st := st, initAddr := 0, waitS := seconds } := by
  have first : Checked.initAddr 0 = some 0 := natural_eq rfl (by decide)
  have wait : Checked.waitS seconds = some seconds := natural_eq rfl ⟨Nat.zero_le _, short⟩
  rw [Checked.message, first, wait]
  rfl

private theorem runIdle_eq (i : EngineIn) (e : Engine) : Checked.runIdle i e = some (e.runIdle i) := by
  rw [Checked.runIdle, Engine.runIdle, physics_eq]
  simp only [bind, Option.bind_some]
  split_ifs
  · rfl
  · exact message_eq .loseMsgDraw 10 (by decide) _
  · exact message_eq .winMsgDraw 5 (by decide) _
  · exact home_eq _
  · rfl

private theorem toAddr_eq {x y : ℤ} (on : OnScreen x y) : Checked.toAddr x y = some (toAddr x y) := by
  have word := toAddr_of_onScreen on
  refine natural_eq ?_ ⟨Nat.zero_le _, Nat.le_sub_one_of_lt (toAddr_lt x y)⟩
  rw [word]
  rfl

private theorem paintCell_eq (x y : ℤ) (data : Pixel) (e : Engine) :
    Checked.paintCell x y data e = some (e.paintCell x y data) := by
  rw [Checked.paintCell, Engine.paintCell]
  by_cases on : OnScreen x y
  · rw [if_pos on, if_pos on, free_eq, toAddr_eq on]
    simp only [bind, Option.bind_some]
    split_ifs <;> rfl
  · rw [if_neg on, if_neg on]
    rfl

private theorem scanBox_eq {e : Engine} (next : St) (column : -2 ≤ e.dx ∧ e.dx ≤ 2)
    (row : -2 ≤ e.dy ∧ e.dy ≤ 2) : Checked.scanBox next e = some (e.scanBox next) := by
  simp only [Checked.scanBox, Engine.scanBox, ballR]
  split_ifs with right bottom
  · exact home_eq _
  · rw [offset_eq (by decide), offset_eq (by omega)]
    rfl
  · rw [offset_eq (by omega)]
    rfl

/-- A level number is a valid value of the level register. -/
def LevelInRange (level : ℕ) : Prop := 1 ≤ level ∧ level ≤ 999

private theorem msgWait_eq {e : Engine} {restart : ℕ} (i : EngineIn) (short : e.waitS ≤ 15)
    (next : LevelInRange (e.msgWait restart i).level) :
    Checked.msgWait restart i e = some (e.msgWait restart i) := by
  rw [Checked.msgWait, Engine.msgWait]
  rw [Engine.msgWait] at next
  split_ifs at next ⊢
  · have number : Checked.level restart = some restart := natural_eq rfl next
    rw [number]
    rfl
  · have wait : Checked.waitS (e.waitS - 1) = some (e.waitS - 1) :=
      natural_eq (by omega) ⟨Nat.zero_le _, by omega⟩
    rw [wait]
    rfl
  · rfl

/-! ## The invariant -/

/-- The ball's centre is so far inside the border that its box is on the screen. -/
def Inside (x y : ℤ) : Prop := 12 ≤ x ∧ x ≤ 707 ∧ 12 ≤ y ∧ y ≤ 467

/-- Every signal with a declared range is in it, and the two ball positions are inside. -/
structure InRange (e : Engine) : Prop where
  nWalls : e.layout.nWalls ≤ maxWalls
  initAddr : e.initAddr < fbSize
  waitS : e.waitS ≤ 15
  level : LevelInRange e.level
  dx : -ballR ≤ e.dx ∧ e.dx ≤ ballR
  dy : -ballR ≤ e.dy ∧ e.dy ≤ ballR
  addrR : e.addrR < fbSize
  ball : Inside e.bX e.bY
  previous : Inside e.bXp e.bYp

theorem inRange_reset (e : Engine) : InRange e.reset where
  nWalls := Nat.zero_le _
  initAddr := Nat.zero_lt_succ _
  waitS := Nat.zero_le _
  level := by simp [Engine.reset, LevelInRange]
  dx := by simp [Engine.reset]
  dy := by simp [Engine.reset]
  addrR := Nat.zero_lt_succ _
  ball := by simp [Engine.reset, Inside]
  previous := by simp [Engine.reset, Inside]

private theorem active_eq {e : Engine} (i : EngineIn) (valid : InRange e)
    (next : LevelInRange (e.active i).level) : Checked.active i e = some (e.active i) := by
  have painted (x y : ℤ) (data : Pixel) (after : St) :
      (Checked.paintCell x y data e).bind (Checked.scanBox after) =
        some ((e.paintCell x y data).scanBox after) := by
    obtain ⟨we, addr, d, frame⟩ := Engine.paintCell_frame x y data e
    rw [paintCell_eq, Option.bind_some, frame]
    exact scanBox_eq after valid.dx valid.dy
  unfold Checked.active
  unfold Engine.active at next ⊢
  cases state : e.st <;> simp only [state] at next ⊢
  case levelGen => exact levelGen_eq e
  case initDraw => exact sweep_eq valid.initAddr (background_eq _) fun e' => home_eq _
  case runIdle => exact runIdle_eq i e
  case eraseBall => exact painted _ _ _ _
  case drawBall => exact painted _ _ _ _
  case winMsgDraw => exact sweep_eq valid.initAddr winScreen_eq fun e' => rfl
  case winMsgWait => exact msgWait_eq i valid.waitS next
  case loseMsgDraw => exact sweep_eq valid.initAddr loseScreen_eq fun e' => rfl
  case loseMsgWait => exact msgWait_eq i valid.waitS next
  case quitMsgDraw => exact sweep_eq valid.initAddr quitScreen_eq fun e' => rfl
  case quitMsgWait => exact msgWait_eq i valid.waitS next

/-- With the registers in their ranges, no check of a clock fails unless the level's does. -/
theorem clock_eq {e : Engine} (i : EngineIn) (valid : InRange e)
    (next : LevelInRange (e.clock i).level) : Checked.clock e i = some (e.clock i) := by
  rw [Checked.clock]
  rw [Engine.clock] at next ⊢
  split_ifs at next ⊢
  · exact message_eq .quitMsgDraw 10 (by decide) _
  · exact active_eq i { valid with } next

section Kept

variable {e : Engine}

private theorem start_offset : -ballR ≤ -ballR ∧ -ballR ≤ ballR := by decide

private theorem home_kept (valid : InRange e) (st : St) :
    InRange { e with dx := -ballR, dy := -ballR, st := st } :=
  { valid with dx := start_offset, dy := start_offset }

private theorem message_kept (valid : InRange e) (st : St) (seconds : ℕ) (short : seconds ≤ 15) :
    InRange { e with st := st, initAddr := 0, waitS := seconds } :=
  { valid with initAddr := Nat.zero_lt_succ _, waitS := short }

private theorem levelGen_kept (valid : InRange e) : InRange e.levelGen where
  nWalls := by
    simp only [Engine.levelGen, genLayout, wantWalls]
    split_ifs <;> omega
  initAddr := Nat.zero_lt_succ _
  waitS := valid.waitS
  level := valid.level
  dx := by simp [Engine.levelGen]
  dy := by simp [Engine.levelGen]
  addrR := valid.addrR
  ball := by simp [Engine.levelGen, Inside]
  previous := by simp [Engine.levelGen, Inside]

private theorem sweep_kept (valid : InRange e) {picture : ℤ → ℤ → Pixel} {ends : Engine → Engine}
    (finishes : ∀ e', InRange e' → InRange (ends e')) : InRange (e.sweep picture ends) := by
  rw [Engine.sweep]
  split_ifs with last
  · exact finishes _ { valid with addrR := valid.initAddr }
  · have bound : e.initAddr + 1 < fbSize := by
      have here := valid.initAddr
      simp only [fbSize] at *
      omega
    exact { valid with addrR := valid.initAddr, initAddr := bound }

private theorem confine_bounds (n : ℤ) {hi : ℤ} (wide : 12 ≤ hi) :
    12 ≤ confine n hi ∧ confine n hi ≤ hi := by
  simp only [confine]
  split_ifs <;> omega

private theorem physics_inside (level : ℕ) (l : Layout) (m : Motion) (ax ay : BitVec 16) :
    Inside (physics level l m ax ay).x (physics level l m ax ay).y := by
  obtain ⟨left, right⟩ := confine_bounds _ (show (12 : ℤ) ≤ hRes - 13 by decide)
  obtain ⟨top, bottom⟩ := confine_bounds _ (show (12 : ℤ) ≤ vRes - 13 by decide)
  exact ⟨left, right, top, bottom⟩

private theorem runIdle_kept (valid : InRange e) (i : EngineIn) : InRange (e.runIdle i) := by
  have inside := physics_inside e.level e.layout e.motion i.iAx i.iAy
  unfold Engine.runIdle
  generalize physics e.level e.layout e.motion i.iAx i.iAy = m at inside ⊢
  have moved : InRange { e with bXp := e.bX, bYp := e.bY, vX := m.vx, vY := m.vy, bX := m.x, bY := m.y } :=
    { valid with ball := inside, previous := valid.ball }
  dsimp only
  split_ifs
  · exact valid
  · exact message_kept moved .loseMsgDraw 10 (by decide)
  · exact message_kept moved .winMsgDraw 5 (by decide)
  · exact home_kept moved .eraseBall
  · exact valid

private theorem paintCell_kept (valid : InRange e) (x y : ℤ) (data : Pixel) :
    InRange (e.paintCell x y data) := by
  rw [Engine.paintCell]
  split_ifs
  · exact { valid with addrR := toAddr_lt x y }
  · exact valid
  · exact valid

private theorem scanBox_kept (valid : InRange e) (next : St) : InRange (e.scanBox next) := by
  have column := valid.dx
  have row := valid.dy
  simp only [ballR] at column row
  simp only [Engine.scanBox, ballR]
  split_ifs
  · exact home_kept valid next
  · exact { valid with dx := start_offset, dy := by simp only [ballR]; omega }
  · exact { valid with dx := by simp only [ballR]; omega }

private theorem msgWait_kept (valid : InRange e) {restart : ℕ} (i : EngineIn)
    (next : LevelInRange (e.msgWait restart i).level) : InRange (e.msgWait restart i) := by
  rw [Engine.msgWait] at next ⊢
  split_ifs at next ⊢
  · exact { valid with level := next }
  · exact { valid with waitS := (Nat.sub_le _ _).trans valid.waitS }
  · exact valid

private theorem active_kept (valid : InRange e) (i : EngineIn)
    (next : LevelInRange (e.active i).level) : InRange (e.active i) := by
  unfold Engine.active at next ⊢
  cases state : e.st <;> simp only [state] at next ⊢
  case levelGen => exact levelGen_kept valid
  case initDraw => exact sweep_kept valid fun e' kept => home_kept kept _
  case runIdle => exact runIdle_kept valid i
  case eraseBall => exact scanBox_kept (paintCell_kept valid _ _ _) _
  case drawBall => exact scanBox_kept (paintCell_kept valid _ _ _) _
  case winMsgDraw => exact sweep_kept valid fun e' kept => { kept with }
  case winMsgWait => exact msgWait_kept valid i next
  case loseMsgDraw => exact sweep_kept valid fun e' kept => { kept with }
  case loseMsgWait => exact msgWait_kept valid i next
  case quitMsgDraw => exact sweep_kept valid fun e' kept => { kept with }
  case quitMsgWait => exact msgWait_kept valid i next

end Kept

/-- A clock that leaves the level in its range leaves every register in its range. -/
theorem inRange_clock {e : Engine} (i : EngineIn) (valid : InRange e)
    (next : LevelInRange (e.clock i).level) : InRange (e.clock i) := by
  have idle : InRange { e with weR := false } := { valid with }
  rw [Engine.clock] at next ⊢
  split_ifs at next ⊢
  · exact message_kept idle .quitMsgDraw 10 (by decide)
  · exact active_kept idle i next

/-! ## Runs -/

/-- The counter of a tick process never leaves the range of its signal. -/
theorem divider_eq {Input : Type*} {period : ℕ} (positive : 0 < period) (input : ℕ → Input) (n : ℕ) :
    checkedRun (fun d _ => Checked.divider period d) .reset input n = some (Divider.after period n) := by
  induction n with
  | zero => rfl
  | succ n ih =>
    have below : (Divider.after period n).cnt < period := by
      rw [Divider.after_eq positive]
      exact Nat.mod_lt n positive
    rw [checkedRun, ih, Option.bind_some, Divider.after_succ, Checked.divider, Divider.clock]
    by_cases last : (Divider.after period n).cnt = period - 1
    · have first : natural 0 (period - 1) 0 = some 0 := natural_eq rfl ⟨le_rfl, Nat.zero_le _⟩
      rw [if_pos last, if_pos last, first]
      rfl
    · have next : natural 0 (period - 1) ((Divider.after period n).cnt + 1) =
          some ((Divider.after period n).cnt + 1) := natural_eq rfl ⟨Nat.zero_le _, by omega⟩
      rw [if_neg last, if_neg last, next]
      rfl

/-- Every pixel of the 5x5 box around a position is on the screen, with its own unclamped word. -/
def BoxOnScreen (x y : ℤ) : Prop :=
  ∀ dx dy : ℤ, -ballR ≤ dx ∧ dx ≤ ballR → -ballR ≤ dy ∧ dy ≤ ballR →
    OnScreen (x + dx) (y + dy) ∧ (toAddr (x + dx) (y + dy) : ℤ) = (y + dy) * hRes + (x + dx)

private theorem Inside.box {x y : ℤ} (inside : Inside x y) : BoxOnScreen x y := by
  intro dx dy column row
  have on : OnScreen (x + dx) (y + dy) := by
    simp only [Inside, OnScreen, ballR, hRes, vRes] at *
    omega
  exact ⟨on, toAddr_of_onScreen on⟩

/-- As long as the level stays in its range, the engine and its two tick counters pass every check
of every clock, whatever the inputs do, and the box of the ball never leaves the screen. -/
theorem no_range_error (e : Engine) (input : ℕ → EngineIn) (n : ℕ)
    (levels : ∀ m ≤ n, LevelInRange (run Engine.clock e.reset input m).level) :
    let s := run Engine.clock e.reset input n
    checkedRun Checked.clock e.reset input n = some s ∧ InRange s ∧
      BoxOnScreen s.bX s.bY ∧ BoxOnScreen s.bXp s.bYp ∧
      checkedRun (fun d _ => Checked.divider tickDiv d) .reset input n = some (.after tickDiv n) ∧
      checkedRun (fun d _ => Checked.divider secDiv d) .reset input n = some (.after secDiv n) := by
  have passes (k : ℕ) (early : k < n) (valid : InRange (run Engine.clock e.reset input k)) :
      Checked.clock (run Engine.clock e.reset input k) (input k) =
          some (run Engine.clock e.reset input (k + 1)) ∧
        InRange (run Engine.clock e.reset input (k + 1)) := by
    have next := levels (k + 1) early
    rw [run_succ] at next ⊢
    exact ⟨clock_eq _ valid next, inRange_clock _ valid next⟩
  obtain ⟨passed, valid⟩ := checkedRun_eq (inRange_reset e) passes
  exact ⟨passed, valid, valid.ball.box, valid.previous.box, divider_eq (by decide) input n,
    divider_eq (by decide) input n⟩

theorem no_range_error_start :
    let s := run Engine.clock Framebuffer.coldBoard.engine.reset
      (fun n => ⟨false, n == 1, 0, 0, true, true, true⟩) 3
    checkedRun Checked.clock Framebuffer.coldBoard.engine.reset
      (fun n => ⟨false, n == 1, 0, 0, true, true, true⟩) 3 = some s ∧ InRange s := by
  have levels : ∀ m ≤ 3, LevelInRange (run Engine.clock Framebuffer.coldBoard.engine.reset
      (fun n => ⟨false, n == 1, 0, 0, true, true, true⟩) m).level := by
    intro m early
    unfold LevelInRange
    obtain rfl | rfl | rfl | rfl : m = 0 ∨ m = 1 ∨ m = 2 ∨ m = 3 := by omega
    all_goals decide
  obtain ⟨passed, valid, -⟩ := no_range_error _ _ 3 levels
  exact ⟨passed, valid⟩

end Telecran.Soundness.Ranges
