import Telecran.Soundness.AdxlSamples
import Telecran.Soundness.GamePlay

/-! # The game follows the device

With a register file at the address of the accelerometer on the bus, each move of the game is made of the
data registers as they were during one frame on the bus, read once the device had been configured.
-/

namespace Telecran.Soundness.DeviceGame

open Machine Model Bus Spec Adxl Adxl.Fsm GamePlay AdxlSamples

variable {b : Board} {input : ℕ → AGame.In} {d : Device}

/-- SDA is as the device leaves it. -/
def Wired (input : ℕ → AGame.In) (d : Device) : Prop := ∀ n, (input n).slave = drive defaults d n

theorem after_adxl (wired : Wired input d) (n : ℕ) :
    (AGame.after b input n).adxl = (bus defaults d n).1 := by
  refine eq_bus (x := fun n => (AGame.after b input n).adxl) defaults d rfl (fun n => ?_) n
  rw [← wired n]
  rfl

theorem after_acc (n : ℕ) : (AGame.after b input n).acc = Divider.after AGame.accUpdateDiv n := by
  induction n with
  | zero => rfl
  | succ n ih => rw [Divider.after_succ, ← ih]; rfl

/-- The ready latch follows the ready output one clock later. -/
theorem accelOk_iff (wired : Wired input d) (own : Addressed d) (n : ℕ) :
    (AGame.after b input n).accelOk = decide (5050001 < n) := by
  induction n with
  | zero => rfl
  | succ n ih =>
    have next : (AGame.after b input (n + 1)).accelOk =
        ((AGame.after b input n).accelOk || (AGame.after b input n).adxl.fsm.readyI) := rfl
    rw [next, ih, after_adxl wired, ready_iff own, Bool.eq_iff_iff]
    simp only [Bool.or_eq_true, decide_eq_true_eq]
    omega

/-- The last tick of the sampler before clock `n`. -/
def sampledAt (n : ℕ) : ℕ := AGame.accUpdateDiv * ((n - 1) / AGame.accUpdateDiv)

/-- A sample is what the outputs were at the last tick of the sampler; nothing is lost before the latch. -/
private theorem held (x : ℕ → BitVec 16) (source : Fsm → BitVec 16) (wired : Wired input d)
    (own : Addressed d) (start : x 0 = 0) (fresh : ∀ n ≤ 125 * 60261, source (bus defaults d n).1.fsm = 0)
    (load : ∀ n, x (n + 1) = if (AGame.after b input n).acc.tick && (AGame.after b input n).accelOk then
      source (AGame.after b input n).adxl.fsm else x n) (n : ℕ) :
    x n = source (bus defaults d (sampledAt n)).1.fsm := by
  have unlatched (n : ℕ) (early : n ≤ 5050002) : x n = 0 := by
    induction n with
    | zero => exact start
    | succ n ih =>
      rw [load, accelOk_iff wired own, decide_eq_false (by omega), Bool.and_false]
      exact ih (by omega)
  refine Divider.held (by simp [AGame.accUpdateDiv]) x (fun n => source (bus defaults d n).1.fsm)
    (start.trans (fresh 0 (Nat.zero_le _)).symm) (fun n => ?_) n
  rw [load, after_acc, after_adxl wired, accelOk_iff wired own]
  rcases Nat.lt_or_ge 5050001 n with latched | early
  · rw [decide_eq_true latched, Bool.and_true]
  · rw [decide_eq_false (by omega), Bool.and_false, unlatched n (by omega)]
    have zero : source (bus defaults d n).1.fsm = 0 := fresh n (by omega)
    simp only [zero, ite_self, Bool.false_eq_true]

theorem axSamp_eq (wired : Wired input d) (own : Addressed d) (n : ℕ) :
    (AGame.after b input n).axSamp = (bus defaults d (sampledAt n)).1.fsm.oAx :=
  held (fun n => (AGame.after b input n).axSamp) Fsm.oAx wired own rfl
    (fun _ bound => congrArg (·.1) (memo_early own bound)) (fun _ => rfl) n

theorem aySamp_eq (wired : Wired input d) (own : Addressed d) (n : ℕ) :
    (AGame.after b input n).aySamp = (bus defaults d (sampledAt n)).1.fsm.oAy :=
  held (fun n => (AGame.after b input n).aySamp) Fsm.oAy wired own rfl
    (fun _ bound => congrArg (·.2.1) (memo_early own bound)) (fun _ => rfl) n

/-- The frame in which the registers of move `k` were read. -/
def frameOf (k : ℕ) : ℕ := 2 * ((sampledAt (tickClock k) - 7532626) / 2500000) + 6

/-- The move the registers of the device make. -/
def deviceMove (d : Device) (k : ℕ) : Move where
  ready := true
  ax := accelGame (outputsOf (d.regs (frameOf k))).1
  ay := accelGame (outputsOf (d.regs (frameOf k))).2
  second := (k + 1) % 25 = 0

/-- From the fifth tick on the moves are the device's. -/
theorem moveAt_eq (wired : Wired input d) (own : Addressed d) {k : ℕ} (late : 4 ≤ k) :
    moveAt b input k = deviceMove d k := by
  have here : tickClock k = 2000000 * (k + 1) := rfl
  have ready : (AGame.after b input (tickClock k)).accelOk = true := by
    rw [accelOk_iff wired own, decide_eq_true (by omega)]
  have sampled : 125 * 60261 < sampledAt (tickClock k) := by
    simp only [sampledAt, AGame.accUpdateDiv]
    omega
  have read := outputs_at own sampled
  rw [moveAt, deviceMove, ready, axSamp_eq wired own, aySamp_eq wired own, read.1, read.2, frameOf]

/-- Moves that count the same seconds make the same opening. -/
private theorem opening_run {move move' : ℕ → Move}
    (seconds : ∀ k, (move k).second = decide ((k + 1) % 25 = 0))
    (seconds' : ∀ k, (move' k).second = decide ((k + 1) % 25 = 0)) (same : ∀ k ≥ 4, move k = move' k) (k : ℕ) :
    run Game.step (opening b) move k = run Game.step (opening b) move' k := by
  induction k with
  | zero => rfl
  | succ k ih =>
    rcases Nat.lt_or_ge k 4 with early | late
    · rw [countdown seconds (by omega), countdown seconds' (by omega)]
    · rw [run_succ, run_succ, ih, same k late]

theorem device_rests (wired : Wired input d) (own : Addressed d)
    (released : ∀ n, tickClock 274 ≤ n → Released input n) (k : ℕ) :
    (engine b input (tickClock k)).Rests (run Game.step (opening b) (deviceMove d) k) := by
  have same := opening_run (b := b) (fun _ => rfl) (fun _ => rfl)
    (fun k late => moveAt_eq (b := b) wired own (k := k) late) k
  rw [← same]
  rcases Nat.lt_or_ge 274 k with late | early
  · obtain ⟨m, rfl⟩ := Nat.exists_eq_add_of_le late.le
    rw [run_add]
    exact moves_rest (countdown_rests le_rfl) fun n later _ => released n later
  · exact countdown_rests early

/-- With a register file at its address on the bus, and the button released from the eleventh second on,
the design plays the game whose moves are the registers of the device, for ever, and shows it from the
first level on. -/
theorem game_follows_device (b : Board) (d : Device) (own : d.a7 = addr7) (input : ℕ → AGame.In)
    (wired : ∀ n, (input n).slave = drive defaults d n)
    (released : ∀ n, tickClock 274 ≤ n → (input n).iLeftPb = true) (k : ℕ) :
    (engine b input (tickClock k)).Rests (run Game.step (opening b) (deviceMove d) k) ∧
      (275 ≤ k → Painted (AGame.after b input (tickClock k)).board.committed
        (run Game.step (opening b) (deviceMove d) k).picture fbSize) := by
  have rests := device_rests (b := b) wired own released k
  exact ⟨rests, fun late => picture_shown (late_tick late) rests⟩

private theorem tilted_moves (k : ℕ) : (deviceMove tilted k).ax = 6000 ∧ (deviceMove tilted k).ay = 6000 := by
  have saturated : accelGame 257 = 6000 := by decide
  rw [deviceMove, tilted_outputs]
  exact ⟨saturated, saturated⟩

/-- A device tilted past the saturation of both axes. -/
theorem game_follows_device_tilted :
    (∀ k, (deviceMove tilted k).ax = 6000 ∧ (deviceMove tilted k).ay = 6000) ∧
      (engine Framebuffer.coldBoard (fun n => ⟨drive defaults tilted n, true⟩) (tickClock 1000)).Rests
        (run Game.step (opening Framebuffer.coldBoard) (deviceMove tilted) 1000) ∧
      Painted (AGame.after Framebuffer.coldBoard (fun n => ⟨drive defaults tilted n, true⟩)
          (tickClock 1000)).board.committed
        (run Game.step (opening Framebuffer.coldBoard) (deviceMove tilted) 1000).picture fbSize := by
  obtain ⟨rests, painted⟩ := game_follows_device Framebuffer.coldBoard tilted rfl
    (fun n => ⟨drive defaults tilted n, true⟩) (fun _ => rfl) (fun _ _ => rfl) 1000
  exact ⟨tilted_moves, rests, painted (by decide)⟩

end Telecran.Soundness.DeviceGame
