import Telecran.Soundness.Configured
import Telecran.Soundness.GamePlay

/-! # Nothing moves before the accelerometer is configured

Whatever is on the bus, and whatever the button does: until the three init writes have been acknowledged
the samples are zero, the ball lies at the spawn of the first level and no level has been won or lost.
-/

namespace Telecran.Model.Engine

/-- The states of a game without a move. -/
def Calm : St → Prop
  | .eraseBall | .winMsgDraw | .winMsgWait | .loseMsgDraw | .loseMsgWait => False
  | _ => True

/-- The ball has not been moved yet. -/
structure Untouched (e : Engine) : Prop where
  level : e.level = 1
  motion : e.motion = ⟨40, 40, 0, 0⟩
  calm : Calm e.st

theorem untouched_reset (e : Engine) : e.reset.Untouched := ⟨rfl, rfl, trivial⟩

private theorem calm_painted {st : St} (calm : Calm st) : Calm (afterPainting st) := by
  cases st <;> first | exact calm.elim | trivial

private theorem quit_motion {e : Engine} {i : EngineIn} (ignored : e.accepts i = false)
    (here : e.st = .quitMsgWait) : (e.clock i).motion = e.motion := by
  rw [clock_of_ignored ignored]
  simp only [active, here, quitMsgWait, msgWait]
  split_ifs <;> rfl

/-- Only a physics tick touches the ball, and only a won level leads to a higher one. -/
theorem untouched_clock {e : Engine} {i : EngineIn} (unready : i.iAccelReady = false)
    (untouched : e.Untouched) : (e.clock i).Untouched := by
  obtain ⟨level, motion, calm⟩ := untouched
  cases e.clocked i with
  | quit _ same next => exact ⟨same.level.trans level, same.motion.trans motion, by rw [next]; trivial⟩
  | generate _ _ next generated =>
    exact ⟨generated.level.trans level, generated.motion, by rw [next]; trivial⟩
  | tick _ ticks => exact absurd (unready.symm.trans ticks.2.2.2.2) Bool.false_ne_true
  | expire ignored expires next fresh =>
    have here : e.st = .quitMsgWait := by
      rcases expires.1 with won | lost | quits
      · exact absurd (won ▸ calm : Calm .winMsgWait) id
      · exact absurd (lost ▸ calm : Calm .loseMsgWait) id
      · exact quits
    refine ⟨by rw [fresh, restart, here]; rfl, (quit_motion ignored here).trans motion, by rw [next]; trivial⟩
  | stay _ _ stayed =>
    refine ⟨stayed.level.trans level, stayed.motion.trans motion, ?_⟩
    rcases stayed.next with same | painted
    · rwa [same]
    · rw [painted]
      exact calm_painted calm

end Telecran.Model.Engine

namespace Telecran.Soundness.Interlock

open Machine Model Bus Adxl Adxl.Fsm Configured GamePlay

variable (b : Board) (input : ℕ → AGame.In)

/-- SDA as the bus leaves it. -/
def slave (n : ℕ) : Bool := (input n).slave

theorem after_adxl (n : ℕ) : (AGame.after b input n).adxl = after defaults (slave input) n :=
  eq_run (x := fun n => (AGame.after b input n).adxl) (fun _ => rfl) n

/-- The latch remembers a clock on which the accelerometer was ready. -/
theorem ready_of_accelOk {n : ℕ} (ok : (AGame.after b input n).accelOk = true) :
    ready defaults (slave input) n = true := by
  induction n with
  | zero => exact absurd ok Bool.false_ne_true
  | succ n ih =>
    have next : (AGame.after b input (n + 1)).accelOk =
        ((AGame.after b input n).accelOk || (AGame.after b input n).adxl.fsm.readyI) := rfl
    rw [next, Bool.or_eq_true] at ok
    refine ready_mono defaults (slave input) (Nat.le_succ n) ?_
    rcases ok with latched | now
    · exact ih latched
    · rwa [ready, ← after_adxl]

/-- Without the latch nothing has been sampled and the ball has not been moved. -/
theorem untouched_of_unlatched {n : ℕ} (unlatched : (AGame.after b input n).accelOk = false) :
    (engine b input n).Untouched ∧ (AGame.after b input n).axSamp = 0 ∧ (AGame.after b input n).aySamp = 0 := by
  induction n with
  | zero => exact ⟨Engine.untouched_reset _, rfl, rfl⟩
  | succ n ih =>
    have next : (AGame.after b input (n + 1)).accelOk =
        ((AGame.after b input n).accelOk || (AGame.after b input n).adxl.fsm.readyI) := rfl
    rw [next, Bool.or_eq_false_iff] at unlatched
    obtain ⟨untouched, ax, ay⟩ := ih unlatched.1
    have held (r : BitVec 16) (zero : r = 0) (x : BitVec 16) : (if (AGame.after b input n).acc.tick &&
        (AGame.after b input n).accelOk then x else r) = 0 := by
      rw [unlatched.1, Bool.and_false]
      exact zero
    exact ⟨Engine.untouched_clock unlatched.1 untouched, held _ ax _, held _ ay _⟩

/-- Whatever the bus and the button do, the samples stay zero and the ball stays at the spawn of level 1,
with no level won or lost, until the accelerometer has acknowledged the three init writes. -/
theorem configured_or_untouched (n : ℕ) :
    (script.map (Write.made 0x3A)).Sublist (said defaults (slave input) n).frames ∨
      (engine b input n).Untouched ∧ (AGame.after b input n).axSamp = 0 ∧ (AGame.after b input n).aySamp = 0 := by
  cases latch : (AGame.after b input n).accelOk with
  | true => exact Or.inl (made_of_done (remaining_of_ready _ _ (ready_of_accelOk b input latch)))
  | false => exact Or.inr (untouched_of_unlatched b input latch)

end Telecran.Soundness.Interlock
