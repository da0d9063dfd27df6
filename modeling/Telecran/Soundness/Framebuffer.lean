import Telecran.Proofs.Play

/-! # The framebuffer from the hardware reset on

A run from the hardware reset has three phases. The startup clear owns port A while the engine,
which the clear resets, already draws its quit message one word behind it: all but two of those
writes are lost, and the pulse after the clear finds the engine in a quit state, which ignores it.
The first quit screen is therefore the stripe pattern. It lasts until eleven seconds have been
counted; from the level generation on, the committed framebuffer always shows what the engine's
state says, over any number of moves, wins, losses and resets.
-/

namespace Telecran.Soundness.Framebuffer

open Machine Model

/-! ## The startup clear -/

/-- Before clock `n` of the clear, the engine is in its first quit sweep, one word behind. -/
structure Clearing (n : ℕ) (b : Board) : Prop where
  clrEn : b.clrEn = true
  clrAddr : b.clrAddr = n
  start : n = 0 → b.engine.st = .levelGen
  sweeping : 0 < n → b.engine.st = .quitMsgDraw ∧ b.engine.initAddr + 1 = n ∧
    b.engine.waitS = 10 ∧ b.fb.ram 0 = 0x01
  pending : 0 < n → b.engine.weR = true → b.engine.addrR + 1 = b.engine.initAddr
  lfsr : b.engine.lfsr = 0xACE1

theorem clearing_reset (b : Board) : Clearing 0 b.reset where
  clrEn := rfl
  clrAddr := rfl
  start _ := rfl
  sweeping impossible := absurd impossible (Nat.lt_irrefl 0)
  pending impossible := absurd impossible (Nat.lt_irrefl 0)
  lfsr := rfl

/-- The clear resets the engine on its first clock. -/
private theorem engine_first {b : Board} (i : BoardIn) (clearing : Clearing 0 b) :
    b.engine.clock (b.engineIn i) =
      { b.engine with weR := false, st := .quitMsgDraw, initAddr := 0, waitS := 10 } := by
  unfold Engine.clock
  rw [if_pos]
  simp [Engine.accepts, Board.engineIn, Board.gresetFinal, clearing.clrEn, clearing.start rfl]

private theorem engine_sweep {e : Engine} (i : EngineIn) (drawing : e.st = .quitMsgDraw)
    (going : e.initAddr ≠ fbSize - 1) :
    ∃ data, e.clock i =
      { e with weR := true, addrR := e.initAddr, dataR := data, initAddr := e.initAddr + 1 } := by
  refine ⟨quitScreen (addrX e.initAddr) (addrY e.initAddr), ?_⟩
  rw [Engine.clock_of_ignored (Engine.quit_ignores (Or.inl drawing) i)]
  simp only [Engine.active, drawing, Engine.quitMsgDraw, Engine.sweep, if_neg going]

theorem clearing_clock {n : ℕ} {b : Board} (i : BoardIn) (clearing : Clearing n b)
    (bound : n + 1 < fbSize) : Clearing (n + 1) (b.clock i) := by
  have going : b.clrAddr ≠ 345599 := by
    rw [clearing.clrAddr]
    simp only [fbSize] at bound
    omega
  have busy : (b.clock i).clrEn = true := by simp [Board.clock, clearing.clrEn, going]
  have addr : (b.clock i).clrAddr = n + 1 := by
    simp [Board.clock, clearing.clrEn, going]
    exact clearing.clrAddr
  have ram : (b.clock i).fb.ram = Function.update b.fb.ram n (Board.stripe n) := by
    simp only [Board.clock, Dpram.clockA_ram, Board.portA, clearing.clrEn, clearing.clrAddr]
    exact Write.apply_enabled (by rfl) _
  rcases Nat.eq_zero_or_pos n with first | later
  · subst first
    have engine : (b.clock i).engine = _ := engine_first i clearing
    refine ⟨busy, addr, fun impossible => by omega, ?_, ?_, ?_⟩
    · intro _
      rw [engine, ram]
      exact ⟨rfl, rfl, rfl, by simp [Board.stripe]⟩
    · intro _ enabled
      rw [engine] at enabled
      exact absurd enabled (by simp)
    · rw [engine]
      exact clearing.lfsr
  · obtain ⟨drawing, behind, waitS, word⟩ := clearing.sweeping later
    obtain ⟨data, engine⟩ := engine_sweep (b.engineIn i) drawing (by simp only [fbSize] at *; omega)
    replace engine : (b.clock i).engine = _ := engine
    refine ⟨busy, addr, fun impossible => by omega, ?_, ?_, ?_⟩
    · intro _
      rw [engine, ram, Function.update_of_ne (by omega)]
      exact ⟨drawing, by simp only; omega, waitS, word⟩
    · intro _ _
      rw [engine]
    · rw [engine]
      exact clearing.lfsr

theorem clearing_after (b : Board) (input : ℕ → BoardIn) :
    ∀ n < fbSize, Clearing n (b.after input n) := by
  intro n
  induction n with
  | zero => exact fun _ => clearing_reset b
  | succ n ih =>
    intro bound
    exact clearing_clock (input n) (ih (by omega)) bound

/-! ## The first quit screen -/

/-- The clear is over; the engine is about to draw the last word of its quit screen. -/
structure Cleared (b : Board) : Prop where
  clrEn : b.clrEn = false
  drawing : b.engine.st = .quitMsgDraw
  lastWord : b.engine.initAddr = fbSize - 1
  waitS : b.engine.waitS = 10
  stripe : b.committed 0 = 0x01
  lfsr : b.engine.lfsr = 0xACE1

/-- The clear is over and the engine shows the stripes for `10 - k` more seconds. -/
structure FirstQuit (k : ℕ) (b : Board) : Prop where
  clrEn : b.clrEn = false
  waiting : b.engine.st = .quitMsgWait
  seconds : b.engine.waitS + k = 10
  stripe : b.committed 0 = 0x01
  lfsr : b.engine.lfsr = 0xACE1

/-- Past the first quit screen the framebuffer agrees with the engine's state. -/
structure Playing (b : Board) : Prop where
  clrEn : b.clrEn = false
  consistent : b.engine.Consistent b.committed

/-- Once the clear is over, each clock applies the request it registers. -/
theorem clock_committed {b : Board} (i : BoardIn) (cleared : b.clrEn = false) :
    (b.clock i).committed = (b.engine.clock (b.engineIn i)).request.apply b.committed := by
  simp [Board.committed, Board.clock, Board.portA, cleared]

theorem clock_clrEn {b : Board} (i : BoardIn) (cleared : b.clrEn = false) :
    (b.clock i).clrEn = false := by simp [Board.clock, cleared]

theorem playing_clock {b : Board} (i : BoardIn) (playing : Playing b) : Playing (b.clock i) where
  clrEn := clock_clrEn i playing.clrEn
  consistent := by
    rw [clock_committed i playing.clrEn]
    exact Engine.clock_consistent _ playing.consistent

/-- The clear ends one clock before the quit sweep does. -/
theorem cleared_clock {b : Board} (i : BoardIn) (clearing : Clearing (fbSize - 1) b) :
    Cleared (b.clock i) := by
  obtain ⟨drawing, behind, waitS, word⟩ := clearing.sweeping (by simp)
  have addr : b.engine.initAddr = fbSize - 2 := by simp only [fbSize] at *; omega
  obtain ⟨data, engine⟩ := engine_sweep (b.engineIn i) drawing (by simp [addr])
  replace engine : (b.clock i).engine = _ := engine
  have ram : (b.clock i).fb.ram 0 = 0x01 := by
    simp only [Board.clock, Dpram.clockA_ram]
    rw [Write.apply_other, word]
    simp [Board.portA, clearing.clrEn, clearing.clrAddr]
  refine ⟨by simp [Board.clock, clearing.clrAddr], ?_, ?_, ?_, ?_, ?_⟩
  · rw [engine]
    exact drawing
  · rw [engine]
    simp [addr]
  · rw [engine]
    exact waitS
  · unfold Board.committed
    rw [Write.apply_other, ram]
    intro _
    rw [engine]
    simp [Engine.request, addr]
  · rw [engine]
    exact clearing.lfsr

/-- The engine finishes its sweep over the stripes and the pulse after the clear comes too late. -/
theorem firstQuit_start {b : Board} (i : BoardIn) (cleared : Cleared b) :
    FirstQuit 0 (b.clock i) := by
  have finish := Engine.clock_of_ignored (Engine.quit_ignores (Or.inl cleared.drawing) (b.engineIn i))
  simp only [Engine.active, cleared.drawing, Engine.quitMsgDraw, Engine.sweep,
    if_pos cleared.lastWord] at finish
  refine ⟨clock_clrEn _ cleared.clrEn, ?_, ?_, ?_, ?_⟩
  · simp only [Board.clock, finish]
  · simp only [Board.clock, finish]
    exact cleared.waitS
  · rw [clock_committed _ cleared.clrEn, finish, Write.apply_other, cleared.stripe]
    intro _
    simp [Engine.request, cleared.lastWord]
  · simp only [Board.clock, finish]
    exact cleared.lfsr

theorem cleared_after (b : Board) (input : ℕ → BoardIn) : Cleared (b.after input fbSize) :=
  cleared_clock (input (fbSize - 1)) (clearing_after b input (fbSize - 1) (by simp))

theorem firstQuit_after (b : Board) (input : ℕ → BoardIn) :
    FirstQuit 0 (b.after input (fbSize + 1)) :=
  firstQuit_start (input fbSize) (cleared_after b input)

/-- One clock of the first quit screen: a second is counted, and the eleventh ends it. -/
theorem firstQuit_clock {k : ℕ} {b : Board} (i : BoardIn) (quit : FirstQuit k b) :
    if i.secTick then
      if k = 10 then Playing (b.clock i) else FirstQuit (k + 1) (b.clock i)
    else FirstQuit k (b.clock i) := by
  have seconds := quit.seconds
  have step := Engine.clock_of_ignored (Engine.quit_ignores (Or.inr quit.waiting) (b.engineIn i))
  simp only [Engine.active, quit.waiting, Engine.quitMsgWait, Engine.msgWait] at step
  have tick : (b.engineIn i).secTick = i.secTick := rfl
  rw [tick] at step
  have still (idle : (b.engine.clock (b.engineIn i)).weR = false) :
      (b.clock i).committed = b.committed := by
    rw [clock_committed i quit.clrEn, Write.apply_idle idle]
  split_ifs with counted last
  · rw [if_pos counted, if_pos (by omega)] at step
    refine ⟨clock_clrEn i quit.clrEn, ?_⟩
    have generating : (b.clock i).engine.st = .levelGen := by simp only [Board.clock, step]
    unfold Engine.Consistent
    rw [generating]
    trivial
  · rw [if_pos counted, if_neg (by omega)] at step
    refine ⟨clock_clrEn i quit.clrEn, by simp only [Board.clock, step], ?_, ?_, ?_⟩
    · simp only [Board.clock, step]
      omega
    · rw [still (by rw [step]), quit.stripe]
    · simp only [Board.clock, step]
      exact quit.lfsr
  · rw [if_neg counted] at step
    refine ⟨clock_clrEn i quit.clrEn, by simp only [Board.clock, step], ?_, ?_, ?_⟩
    · simp only [Board.clock, step]
      exact seconds
    · rw [still (by rw [step]), quit.stripe]
    · simp only [Board.clock, step]
      exact quit.lfsr

/-- The eleventh second starts the first level. -/
theorem firstQuit_last {b : Board} {i : BoardIn} (quit : FirstQuit 10 b) (counted : i.secTick = true) :
    (b.clock i).engine.st = .levelGen ∧ (b.clock i).engine.level = 1 ∧ (b.clock i).engine.lfsr = 0xACE1 := by
  have seconds := quit.seconds
  have step := Engine.clock_of_ignored (Engine.quit_ignores (Or.inr quit.waiting) (b.engineIn i))
  simp only [Engine.active, quit.waiting, Engine.quitMsgWait, Engine.msgWait] at step
  rw [if_pos (show (b.engineIn i).secTick = true from counted), if_pos (by omega)] at step
  simp only [Board.clock, step]
  exact ⟨trivial, trivial, quit.lfsr⟩

/-- Seconds counted before clock `n`, from the first clock of the first quit screen on. -/
def secondsAfterClear (input : ℕ → BoardIn) (n : ℕ) : ℕ :=
  Nat.count (fun k => (input (fbSize + 1 + k)).secTick = true) (n - (fbSize + 1))

theorem phases (b : Board) (input : ℕ → BoardIn) {n : ℕ} (late : fbSize + 1 ≤ n) :
    secondsAfterClear input n ≤ 10 ∧ FirstQuit (secondsAfterClear input n) (b.after input n) ∨
      11 ≤ secondsAfterClear input n ∧ Playing (b.after input n) := by
  obtain ⟨k, rfl⟩ := Nat.exists_eq_add_of_le late
  have counted (k : ℕ) : secondsAfterClear input (fbSize + 1 + k) =
      Nat.count (fun k => (input (fbSize + 1 + k)).secTick = true) k := by
    rw [secondsAfterClear, Nat.add_sub_cancel_left]
  rw [counted]
  induction k with
  | zero => exact Or.inl ⟨by simp, by simpa using firstQuit_after b input⟩
  | succ k ih =>
    have shape : b.after input (fbSize + 1 + (k + 1)) =
        (b.after input (fbSize + 1 + k)).clock (input (fbSize + 1 + k)) := rfl
    rw [shape, Nat.count_succ]
    rcases ih (Nat.le_add_right ..) with ⟨few, quit⟩ | ⟨many, playing⟩
    · have step := firstQuit_clock (input (fbSize + 1 + k)) quit
      split_ifs at step ⊢ with tick last
      · exact Or.inr ⟨by omega, step⟩
      · exact Or.inl ⟨by omega, step⟩
      · exact Or.inl ⟨by omega, step⟩
    · exact Or.inr ⟨by omega, playing_clock _ playing⟩

/-! ## Reaching the game -/

/-- The pulse after the clear is over one clock after the first quit screen has begun. -/
theorem pulse_over (b : Board) (input : ℕ → BoardIn) {n : ℕ} (late : fbSize + 2 ≤ n) :
    (b.after input n).clrEn = false ∧ (b.after input n).clrDonePulse = false := by
  obtain ⟨k, rfl⟩ := Nat.exists_eq_add_of_le late
  have cleared (m : ℕ) : (b.after input (fbSize + m)).clrEn = false := by
    induction m with
    | zero => exact (cleared_after b input).clrEn
    | succ m ih => exact clock_clrEn _ ih
  have held := cleared k
  rw [show fbSize + 2 + k = fbSize + k + 1 + 1 by omega]
  refine ⟨cleared (k + 2), ?_⟩
  change (((b.after input (fbSize + k)).clrEn) && !(b.after input (fbSize + k + 1)).clrEn) = false
  rw [held, Bool.false_and]

/-- With the button released, a level that is generated is played after a fixed number of clocks. -/
theorem running_after (b : Board) (input : ℕ → BoardIn) {n : ℕ} (late : fbSize + 2 ≤ n)
    (here : (b.after input n).engine.st = .levelGen)
    (released : ∀ k, (input (n + k)).iLeftPb = true) :
    (b.after input (n + (fbSize + 26))).engine.st = .runIdle ∧
      Engine.Generated (b.after input n).engine.level (b.after input n).engine.lfsr
        (b.after input (n + (fbSize + 26))).engine := by
  have engine (m : ℕ) : (b.after input (n + m)).engine = run Engine.clock (b.after input n).engine
      (fun k => (b.after input (n + k)).engineIn (input (n + k))) m :=
    eq_run (x := fun k => (b.after input (n + k)).engine) (fun _ => rfl) m
  rw [engine (fbSize + 26)]
  refine (Engine.levelGen_run (fun k => ?_) here).2
  obtain ⟨cleared, pulse⟩ := pulse_over b input (n := n + k) (by omega)
  simp [Board.engineIn, Board.gresetFinal, cleared, pulse, released k]

/-! ## Main results -/

/-- The engine states of the first two phases. -/
theorem early_state (b : Board) (input : ℕ → BoardIn) {n : ℕ} (early : n ≤ fbSize) :
    (b.after input n).engine.st = .levelGen ∨ (b.after input n).engine.st = .quitMsgDraw := by
  rcases Nat.lt_or_eq_of_le early with running | rfl
  · have clearing := clearing_after b input n running
    rcases Nat.eq_zero_or_pos n with first | later
    · exact Or.inl (clearing.start first)
    · exact Or.inr (clearing.sweeping later).1
  · exact Or.inr (cleared_after b input).drawing

/-- In the running game the framebuffer is exactly the level with the ball on it. -/
theorem framebuffer_scene (b : Board) (input : ℕ → BoardIn) (n : ℕ)
    (running : (b.after input n).engine.st = .runIdle) (x y : ℕ) (hx : x < 720) (hy : y < 480) :
    (b.after input n).committed (y * 720 + x) =
      (b.after input n).engine.layout.scene (b.after input n).engine.bX (b.after input n).engine.bY
        x y := by
  rcases Nat.lt_or_ge fbSize n with late | early
  · rcases phases b input late with ⟨_, quit⟩ | ⟨_, playing⟩
    · exact absurd (running.symm.trans quit.waiting) (by simp)
    · have shown := playing.consistent
      unfold Engine.Consistent at shown
      rw [running] at shown
      have on : OnScreen x y := by simp [OnScreen]; omega
      have word := toAddr_of_onScreen on
      rw [← shown.pixel on, show toAddr x y = y * 720 + x by omega]
  · rcases early_state b input early with state | state <;>
      exact absurd (running.symm.trans state) (by simp)

/-- A board before its first reset. -/
def coldBoard : Board where
  engine := ⟨.levelGen, 0, 0, 1, ⟨fun _ => ⟨0, 0, 0, 0⟩, 0, ⟨0, 0, 0, 0⟩⟩, 0,
    0, 0, 0, 0, 0, 0, 0, 0, false, 0, 0⟩
  clrEn := false
  clrAddr := 0
  clrEnD := false
  clrDonePulse := false
  fb := ⟨fun _ => 0, 0, 0⟩

/-- Nothing is pressed, and the one second tick comes as given. -/
def released (secTick : Bool) : BoardIn := ⟨true, 0, 0, false, false, secTick⟩

private theorem hurried_generates :
    let e := (coldBoard.after (fun _ => released true) (fbSize + 12)).engine
    e.st = .levelGen ∧ e.level = 1 ∧ e.lfsr = 0xACE1 := by
  have quit : FirstQuit 10 (coldBoard.after (fun _ => released true) (fbSize + 11)) := by
    have phase := phases coldBoard (fun _ => released true) (n := fbSize + 11) (by simp)
    have ten : secondsAfterClear (fun _ => released true) (fbSize + 11) = 10 := by
      simp [secondsAfterClear, released, Nat.count_true]
    rw [ten] at phase
    rcases phase with ⟨_, quit⟩ | ⟨impossible, _⟩
    · exact quit
    · omega
  exact firstQuit_last quit rfl

private theorem spawn_ball {e : Engine} (generated : Engine.Generated 1 0xACE1 e) :
    e.layout.scene e.bX e.bY 40 40 = pixBall := by
  have column : e.bX = 40 := congrArg Motion.x generated.motion
  have line : e.bY = 40 := congrArg Motion.y generated.motion
  rw [column, line, generated.layout]
  decide

/-- The centre of the ball on the first level. -/
theorem framebuffer_scene_ball :
    let s := coldBoard.after (fun _ => released true) (fbSize + 12 + (fbSize + 26))
    s.committed (40 * 720 + 40) = s.engine.layout.scene s.engine.bX s.engine.bY 40 40 ∧
      s.committed (40 * 720 + 40) = pixBall := by
  obtain ⟨generates, level, lfsr⟩ := hurried_generates
  obtain ⟨running, generated⟩ := running_after coldBoard _ (by simp) generates fun _ => rfl
  rw [level, lfsr] at generated
  have shown := framebuffer_scene coldBoard _ _ running 40 40 (by decide) (by decide)
  exact ⟨shown, shown.trans (spawn_ball generated)⟩

/-- The picture a message state has drawn. -/
def messageScreen : St → Option (ℤ → ℤ → Pixel)
  | .winMsgWait => some winScreen
  | .loseMsgWait => some loseScreen
  | .quitMsgWait => some quitScreen
  | _ => none

/-- A message screen shows its message exactly from the eleventh second after the clear on: only
the screen drawn while the clear was running is lost. -/
theorem message_screen_iff (b : Board) (input : ℕ → BoardIn) (n : ℕ) (screen : ℤ → ℤ → Pixel)
    (waiting : messageScreen (b.after input n).engine.st = some screen) :
    (∀ addr < fbSize, (b.after input n).committed addr = screen (addrX addr) (addrY addr)) ↔
      11 ≤ secondsAfterClear input n := by
  rcases Nat.lt_or_ge fbSize n with late | early
  · rcases phases b input late with ⟨few, quit⟩ | ⟨many, playing⟩
    · refine iff_of_false ?_ (by omega)
      intro shown
      have corner := shown 0 (by simp)
      rw [quit.waiting] at waiting
      obtain rfl := Option.some.inj waiting
      rw [quit.stripe] at corner
      exact absurd corner (by decide)
    · refine iff_of_true ?_ many
      have shown := playing.consistent
      unfold Engine.Consistent at shown
      cases state : (b.after input n).engine.st <;> rw [state] at shown waiting <;>
        simp only [messageScreen, reduceCtorEq] at waiting <;>
        obtain rfl := Option.some.inj waiting <;> exact shown
  · rcases early_state b input early with state | state <;>
      simp [state, messageScreen] at waiting

theorem message_screen_iff_first :
    (∀ addr < fbSize, (coldBoard.after (fun _ => released false) (fbSize + 1)).committed addr =
        quitScreen (addrX addr) (addrY addr)) ↔
      11 ≤ secondsAfterClear (fun _ => released false) (fbSize + 1) :=
  message_screen_iff coldBoard _ (fbSize + 1) quitScreen
    (by rw [(firstQuit_after coldBoard _).waiting]; rfl)

/-- The first quit screen after the reset has lost its message: word 0 still has its stripe. -/
theorem message_screen_lost :
    let s := coldBoard.after (fun _ => released false) (fbSize + 1)
    messageScreen s.engine.st = some quitScreen ∧ s.clrEn = false ∧
      s.committed 0 ≠ quitScreen (addrX 0) (addrY 0) := by
  have quit := firstQuit_after coldBoard (fun _ => released false)
  refine ⟨by rw [quit.waiting]; rfl, quit.clrEn, ?_⟩
  rw [quit.stripe]
  decide

end Telecran.Soundness.Framebuffer
