import Telecran.Model.AGame
import Telecran.Proofs.GamePace
import Telecran.Soundness.Framebuffer

/-! # The design plays the game

The clocked game design, with its own tick dividers, makes the moves of the game one for each 25 Hz
tick: whatever the accelerometer and the button do, it has caught up with the game when the next tick
comes, no tick is lost, and the framebuffer shows the picture of the game.
-/

namespace Telecran.Soundness.GamePlay

open Machine Model Spec

variable (b : Board) (input : ℕ → AGame.In)

/-! ## The parts of the design -/

/-- What the board sees on clock `n`. -/
def boardInput (n : ℕ) : BoardIn := (AGame.after b input n).boardIn (input n)

theorem after_board (n : ℕ) : (AGame.after b input n).board = b.after (boardInput b input) n := by
  induction n with
  | zero => rfl
  | succ n ih =>
    have next : b.after (boardInput b input) (n + 1) =
        (b.after (boardInput b input) n).clock (boardInput b input n) := rfl
    rw [next, ← ih]
    rfl

theorem after_tick (n : ℕ) : (AGame.after b input n).tick = Divider.after tickDiv n := by
  induction n with
  | zero => rfl
  | succ n ih => rw [Divider.after_succ, ← ih]; rfl

theorem after_sec (n : ℕ) : (AGame.after b input n).sec = Divider.after secDiv n := by
  induction n with
  | zero => rfl
  | succ n ih => rw [Divider.after_succ, ← ih]; rfl

/-- The engine on clock `n`. -/
def engine (n : ℕ) : Engine := (AGame.after b input n).board.engine

/-- What the engine reads on clock `n`. -/
def engineInput (n : ℕ) : EngineIn := (AGame.after b input n).board.engineIn (boardInput b input n)

theorem engine_run (n k : ℕ) : engine b input (n + k) =
    run Engine.clock (engine b input n) (fun j => engineInput b input (n + j)) k :=
  eq_run (x := fun k => engine b input (n + k)) (fun _ => rfl) k

/-- The clock of tick `k`. -/
def tickClock (k : ℕ) : ℕ := 2000000 * (k + 1)

theorem tick_iff (n : ℕ) : (engineInput b input n).tick = true ↔ 0 < n ∧ n % 2000000 = 0 := by
  have divider : (engineInput b input n).tick = (Divider.after tickDiv n).tick := by
    rw [← after_tick b input]
    rfl
  rw [divider, Divider.after_tick (by simp [tickDiv, clkHz])]
  simp [tickDiv, clkHz]

theorem second_iff (n : ℕ) : (engineInput b input n).secTick = true ↔ 0 < n ∧ n % 50000000 = 0 := by
  have divider : (engineInput b input n).secTick = (Divider.after secDiv n).tick := by
    rw [← after_sec b input]
    rfl
  rw [divider, Divider.after_tick (by simp [secDiv, clkHz])]
  simp [secDiv, clkHz]

/-- The left button is not pressed on clock `n`. -/
def Released (n : ℕ) : Prop := (input n).iLeftPb = true

/-- The move of tick `k`: every twenty-fifth one comes with a second. -/
def moveAt (k : ℕ) : Move where
  ready := (AGame.after b input (tickClock k)).accelOk
  ax := accelGame (AGame.after b input (tickClock k)).axSamp
  ay := accelGame (AGame.after b input (tickClock k)).aySamp
  second := (k + 1) % 25 = 0

/-- Before the first level the quit message is shown. -/
def opening : Game where
  phase := .quit 10
  level := 1
  seed := 0xACE1
  layout := b.engine.reset.layout
  motion := ⟨40, 40, 0, 0⟩

/-! ## Resets and quiet clocks -/

variable {b input}

private theorem moveOf_engineInput (n : ℕ) : Engine.moveOf (engineInput b input n) =
    ⟨(AGame.after b input n).accelOk, accelGame (AGame.after b input n).axSamp,
      accelGame (AGame.after b input n).aySamp, (engineInput b input n).secTick⟩ := rfl

theorem moveOf_tick (k : ℕ) : Engine.moveOf (engineInput b input (tickClock k)) = moveAt b input k := by
  have second : (engineInput b input (tickClock k)).secTick = decide ((k + 1) % 25 = 0) := by
    rw [Bool.eq_iff_iff, second_iff, decide_eq_true_iff, tickClock]
    omega
  rw [moveOf_engineInput, second, moveAt]

/-- After the startup only the button resets the engine. -/
theorem reset_iff {n : ℕ} (late : fbSize + 2 ≤ n) :
    (engineInput b input n).iReset = true ↔ (input n).iLeftPb = false := by
  obtain ⟨cleared, pulse⟩ := Framebuffer.pulse_over b (boardInput b input) late
  rw [← after_board] at cleared pulse
  have reset : (engineInput b input n).iReset = (!(input n).iLeftPb ||
      (AGame.after b input n).board.clrEn || (AGame.after b input n).board.clrDonePulse) := rfl
  rw [reset, cleared, pulse, Bool.or_false, Bool.or_false, Bool.not_eq_true']

private theorem unreset {n : ℕ} (late : fbSize + 2 ≤ n) (released : Released input n) :
    (engineInput b input n).iReset = false := by
  rw [Bool.eq_false_iff, Ne, reset_iff late, released]
  simp

private theorem untimed {k n : ℕ} (later : 2000000 * k < n) (before : n < 2000000 * (k + 1)) :
    (engineInput b input n).secTick = false := by
  rw [Bool.eq_false_iff, Ne, second_iff]
  omega

theorem quiet_between {k n : ℕ} (late : fbSize + 2 ≤ n) (later : 2000000 * k < n)
    (before : n < 2000000 * (k + 1)) (released : Released input n) :
    Engine.Quiet (engineInput b input n) := by
  refine ⟨unreset late released, ?_, untimed later before⟩
  rw [Bool.eq_false_iff, Ne, tick_iff]
  omega

/-! ## One period -/

/-- The first tick finds the quit message, whatever the inputs. -/
theorem opening_rests : (engine b input (tickClock 0)).Rests (opening b) := by
  have first : (engine b input 0).accepts (engineInput b input 0) = true := by
    simp [engine, engineInput, AGame.after, AGame.reset, Board.reset, Engine.reset, Engine.accepts,
      Board.engineIn, Board.gresetFinal]
  have working : Engine.Working fbSize (engine b input 1) (opening b) := Engine.accepted_working first
  have rests := working.run_quit rfl (fun j => engineInput b input (1 + j)) 1999999
    (fun k bound => untimed (k := 0) (by omega) (by omega)) (by simp)
  rw [← engine_run] at rests
  exact rests

theorem next_tick (k : ℕ) : tickClock (k + 1) = tickClock k + (1999999 + 1) := by
  simp only [tickClock]
  ring

/-- A move is done well before the next tick. -/
theorem period_rests {k p : ℕ} {g : Game} (rests : (engine b input (tickClock k)).Rests g)
    (released : ∀ n, tickClock k ≤ n → n < tickClock (k + 1) → Released input n)
    (long : fbSize + 26 ≤ p) (inside : p ≤ 1999999) :
    (engine b input (tickClock k + (p + 1))).Rests (g.step (moveAt b input k)) := by
  have here : tickClock k = 2000000 * (k + 1) := rfl
  have next := next_tick k
  have ticks : (engineInput b input (tickClock k)).tick = true := by
    rw [tick_iff]
    omega
  have moved := rests.move (fun j => engineInput b input (tickClock k + j)) p
    (unreset (by simp only [fbSize]; omega) (released _ le_rfl (by omega))) rfl ticks
    (fun j bound => quiet_between (k := k + 1) (by simp only [fbSize]; omega) (by omega) (by omega)
      (released _ (by omega) (by omega))) long
  rw [← engine_run] at moved
  simp only [Nat.add_zero, moveOf_tick] at moved
  exact moved

/-- One move takes one period. -/
theorem move_rests {k : ℕ} {g : Game} (rests : (engine b input (tickClock k)).Rests g)
    (released : ∀ n, tickClock k ≤ n → n < tickClock (k + 1) → Released input n) :
    (engine b input (tickClock (k + 1))).Rests (g.step (moveAt b input k)) := by
  rw [next_tick]
  exact period_rests rests released (by simp) le_rfl

/-- A quit message lasts whatever the button does. -/
theorem quit_move_rests {k s s' : ℕ} {g : Game} (rests : (engine b input (tickClock k)).Rests g)
    (phase : g.phase = .quit s) (lasts : (g.step (moveAt b input k)).phase = .quit s') :
    (engine b input (tickClock (k + 1))).Rests (g.step (moveAt b input k)) := by
  have here : tickClock k = 2000000 * (k + 1) := rfl
  rw [← moveOf_tick] at lasts ⊢
  have moved := rests.quit_move phase (fun j => engineInput b input (tickClock k + j)) 1999999 lasts
    (fun j bound => untimed (k := k + 1) (by omega) (by omega)) (by simp)
  rw [← engine_run, ← next_tick] at moved
  exact moved

/-- The pointers of the engine are in their ranges. -/
theorem engine_bounds {n : ℕ} (late : fbSize + 1 ≤ n) : (engine b input n).initAddr < fbSize ∧
    ((engine b input n).st = .eraseBall ∨ (engine b input n).st = .drawBall →
      InScan (engine b input n).dx (engine b input n).dy) := by
  constructor
  · have start : (engine b input 0).initAddr < fbSize := Nat.zero_lt_succ _
    have reached := Engine.run_initAddr start (fun j => engineInput b input (0 + j)) n
    rwa [← engine_run, Nat.zero_add] at reached
  · intro moving
    have phase := Framebuffer.phases b (boardInput b input) late
    rw [← after_board] at phase
    rcases phase with ⟨-, quit⟩ | ⟨-, playing⟩
    · have waiting : (engine b input n).st = .quitMsgWait := quit.waiting
      simp [waiting] at moving
    · have consistent : (engine b input n).Consistent (AGame.after b input n).board.committed :=
        playing.consistent
      unfold Engine.Consistent at consistent
      rcases moving with here | here <;> rw [here] at consistent <;> exact consistent.1

/-- Whatever happened before, one period without a press is enough to catch up with some game. -/
theorem settled_rests {k : ℕ}
    (released : ∀ n, tickClock k < n → n < tickClock (k + 1) → Released input n) :
    ∃ g, (engine b input (tickClock (k + 1))).Rests g := by
  have here : tickClock k = 2000000 * (k + 1) := rfl
  have next := next_tick k
  have late : fbSize + 1 ≤ tickClock k + 1 := by simp only [fbSize]; omega
  obtain ⟨bound, inScan⟩ := @engine_bounds b input _ late
  obtain ⟨g, n, short, working⟩ := Engine.exists_working _ bound inScan
  have rests := working.run (fun j => engineInput b input (tickClock k + 1 + j)) 1999999
    (fun j before => quiet_between (k := k + 1) (by simp only [fbSize]; omega) (by omega) (by omega)
      (released _ (by omega) (by omega))) (short.trans (by simp))
  rw [← engine_run, show tickClock k + 1 + 1999999 = tickClock (k + 1) by omega] at rests
  exact ⟨g, rests⟩

/-- A press is followed by the quit message. -/
theorem pressed_rests {k p : ℕ} (later : tickClock k < p) (before : p + fbSize < tickClock (k + 1))
    (pressed : (input p).iLeftPb = false) :
    ∃ g s, (engine b input (tickClock (k + 1))).Rests g ∧ g.phase = .quit s := by
  have here : tickClock k = 2000000 * (k + 1) := rfl
  have there : tickClock (k + 1) = 2000000 * (k + 1 + 1) := rfl
  have late : fbSize + 2 ≤ p := by simp only [fbSize]; omega
  obtain ⟨bound, -⟩ := @engine_bounds b input p (by omega)
  obtain ⟨g, s, n, short, working, phase⟩ := Engine.quit_working bound ((reset_iff late).mpr pressed)
    (untimed (k := k + 1) (by omega) (by omega))
  obtain ⟨rest, total⟩ := Nat.exists_eq_add_of_le (show p + 1 ≤ tickClock (k + 1) by omega)
  have rests := working.run_quit phase (fun j => engineInput b input (p + 1 + j)) rest
    (fun j before => untimed (k := k + 1) (by omega) (by omega)) (by omega)
  have shape : (engine b input p).clock (engineInput b input p) = engine b input (p + 1) := rfl
  rw [shape, ← engine_run, ← total] at rests
  exact ⟨g, s, rests, phase⟩

/-- Eleven seconds have been counted before tick 275. -/
theorem seconds_counted {n : ℕ} (late : 550000000 < n) :
    11 ≤ Framebuffer.secondsAfterClear (boardInput b input) n := by
  have seconds (m : ℕ) : (boardInput b input m).secTick = (Divider.after secDiv m).tick := by
    rw [← after_sec b input]
    rfl
  have positive : 0 < secDiv := by simp [secDiv, clkHz]
  have start : fbSize + 1 ≤ n := by simp only [fbSize]; omega
  have parts := Nat.count_add (fun m => (Divider.after secDiv m).tick = true) (fbSize + 1)
    (n - (fbSize + 1))
  rw [Nat.add_sub_cancel' start, Divider.count_tick positive, Divider.count_tick positive] at parts
  have none : (fbSize + 1 - 1) / secDiv = 0 := by simp [fbSize, secDiv, clkHz]
  have eleven : 11 ≤ (n - 1) / secDiv := by
    rw [secDiv, clkHz, Nat.le_div_iff_mul_le (by simp)]
    omega
  simp only [Framebuffer.secondsAfterClear, seconds]
  rw [none, Nat.zero_add] at parts
  exact eleven.trans parts.le

/-- The screen shows the game that the engine has caught up with. -/
theorem picture_shown {n : ℕ} {g : Game} (late : 550000000 < n) (rests : (engine b input n).Rests g) :
    Painted (AGame.after b input n).board.committed g.picture fbSize := by
  have counted := @seconds_counted b input n late
  have phase := Framebuffer.phases b (boardInput b input) (n := n) (by simp only [fbSize]; omega)
  rw [← after_board] at phase
  rcases phase with ⟨few, -⟩ | ⟨-, playing⟩
  · exact absurd (counted.trans few) (by simp)
  · exact rests.picture playing.consistent

theorem late_tick {k : ℕ} (late : 275 ≤ k) : 550000000 < tickClock k := by
  rw [tickClock]
  omega

/-- Until the eleventh second the opening only counts down. -/
theorem countdown {move : ℕ → Move} (seconds : ∀ k, (move k).second = decide ((k + 1) % 25 = 0)) {k : ℕ}
    (early : k ≤ 274) : run Game.step (opening b) move k = { opening b with phase := .quit (10 - k / 25) } := by
  induction k with
  | zero => rfl
  | succ k ih =>
    rw [run_succ, ih (by omega)]
    simp only [Game.step, Game.wait, seconds, decide_eq_true_eq]
    by_cases second : (k + 1) % 25 = 0
    · rw [if_pos second, if_neg (by omega), show 10 - k / 25 - 1 = 10 - (k + 1) / 25 by omega]
    · rw [if_neg second, show 10 - k / 25 = 10 - (k + 1) / 25 by omega]

/-- The design counts down with the opening, whatever the button does. -/
theorem countdown_rests {k : ℕ} (early : k ≤ 274) :
    (engine b input (tickClock k)).Rests (run Game.step (opening b) (moveAt b input) k) := by
  induction k with
  | zero => exact opening_rests
  | succ k ih =>
    have phase (j : ℕ) (before : j ≤ 274) :
        (run Game.step (opening b) (moveAt b input) j).phase = .quit (10 - j / 25) := by
      rw [countdown (fun _ => rfl) before]
    exact quit_move_rests (ih (by omega)) (phase k (by omega)) (phase (k + 1) early)

theorem moves_rest {k m : ℕ} {g : Game} (rests : (engine b input (tickClock k)).Rests g)
    (released : ∀ n, tickClock k ≤ n → n < tickClock (k + m) → Released input n) :
    (engine b input (tickClock (k + m))).Rests (run Game.step g (fun j => moveAt b input (k + j)) m) := by
  have handed (j : ℕ) (bound : j < m) (g' : Game)
      (before : (engine b input (tickClock (k + j))).Rests g') :
      (engine b input (tickClock (k + (j + 1)))).Rests (g'.step (moveAt b input (k + j))) := by
    have first : tickClock k ≤ tickClock (k + j) := by simp only [tickClock]; omega
    have last : tickClock (k + j + 1) ≤ tickClock (k + m) := by simp only [tickClock]; omega
    exact move_rests before fun n later soon => released n (first.trans later) (soon.trans_le last)
  exact paced_run handed rests

/-! ## Main result -/

/-- The design makes the moves of the game, one at each tick. It counts down with the opening whatever the
button does, stays with the game as long as the button is not pressed, and shows its picture as soon as
the first level is dealt. After a press it is with a game that shows the quit message at the next tick,
unless the press came too late for that; then it is with some game one tick later. -/
theorem game_is_played (b : Board) (input : ℕ → AGame.In) :
    (∀ k ≤ 274, (engine b input (tickClock k)).Rests (run Game.step (opening b) (moveAt b input) k)) ∧
    (∀ k m g, (engine b input (tickClock k)).Rests g →
      (∀ n, tickClock k ≤ n → n < tickClock (k + m) → Released input n) →
      (engine b input (tickClock (k + m))).Rests (run Game.step g (fun j => moveAt b input (k + j)) m)) ∧
    (∀ k g, 275 ≤ k → (engine b input (tickClock k)).Rests g →
      Painted (AGame.after b input (tickClock k)).board.committed g.picture fbSize) ∧
    (∀ k p, tickClock k < p → p + fbSize < tickClock (k + 1) → (input p).iLeftPb = false →
      ∃ g s, (engine b input (tickClock (k + 1))).Rests g ∧ g.phase = .quit s) ∧
    ∀ k, (∀ n, tickClock k < n → n < tickClock (k + 1) → Released input n) →
      ∃ g, (engine b input (tickClock (k + 1))).Rests g :=
  ⟨fun _ => countdown_rests, fun _ _ _ => moves_rest, fun _ _ late => picture_shown (late_tick late),
    fun _ _ => pressed_rests, fun _ => settled_rests⟩

end Telecran.Soundness.GamePlay
