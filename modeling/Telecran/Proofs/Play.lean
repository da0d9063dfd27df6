import Telecran.Model.Engine
import Telecran.Machine.Run
import Telecran.Proofs.Scene

/-! # From a generated level to the next physics tick

Without a reset, a generated level is painted and the engine reaches `S_RUN_IDLE`; a physics tick
that neither wins nor loses is followed by the two ball scans and `S_RUN_IDLE` again. Both take a
fixed number of clocks, counted down by `clocksLeft`, whatever the other inputs are.
-/

namespace Telecran.Model.Engine

open Machine

theorem clock_of_ignored {e : Engine} {i : EngineIn} (ignored : e.accepts i = false) :
    e.clock i = { e with weR := false }.active i := by
  rw [clock, if_neg (by simp [ignored])]

/-- The quit states ignore the reset. -/
theorem quit_ignores {e : Engine} (quit : e.st = .quitMsgDraw ∨ e.st = .quitMsgWait) (i : EngineIn) :
    e.accepts i = false := by
  rcases quit with here | here
  · simp [accepts, here]
  · simp [accepts, here]

/-- Level, layout, ball and velocity are the same. -/
structure SameGame (e e' : Engine) : Prop where
  level : e'.level = e.level
  layout : e'.layout = e.layout
  motion : e'.motion = e.motion

theorem SameGame.refl (e : Engine) : SameGame e e := ⟨rfl, rfl, rfl⟩

theorem SameGame.trans {e e' e'' : Engine} (first : SameGame e e') (second : SameGame e' e'') :
    SameGame e e'' :=
  ⟨second.level.trans first.level, second.layout.trans first.layout,
    second.motion.trans first.motion⟩

/-- The engine is painting the level or the ball. -/
def Painting (e : Engine) : Prop :=
  e.st = .initDraw ∧ e.initAddr < fbSize ∨
    (e.st = .eraseBall ∨ e.st = .drawBall) ∧ InScan e.dx e.dy

/-- Position of the current offset in the row by row scan. -/
def scanIndex (e : Engine) : ℕ := ((e.dy + 2) * 5 + (e.dx + 2)).toNat

/-- Clocks until `S_RUN_IDLE`, when no reset comes. -/
def clocksLeft (e : Engine) : ℕ :=
  match e.st with
  | .initDraw => fbSize - e.initAddr + 25
  | .eraseBall => 50 - e.scanIndex
  | .drawBall => 25 - e.scanIndex
  | _ => 0

theorem clock_of_no_reset {e : Engine} {i : EngineIn} (quiet : i.iReset = false) :
    e.clock i = { e with weR := false }.active i := by
  simp [clock, accepts, quiet]

/-- One clock of a ball scan: the next offset, or the first one again in the next state. -/
structure Scanned (next : St) (e e' : Engine) : Prop where
  same : SameGame e e'
  inScan : InScan e'.dx e'.dy
  moved : e.scanIndex = 24 ∧ e'.st = next ∧ e'.scanIndex = 0 ∨
    e.scanIndex < 24 ∧ e'.st = e.st ∧ e'.scanIndex = e.scanIndex + 1

theorem scanBox_scanned {e : Engine} (next : St) (x y : ℤ) (data : Pixel)
    (inScan : InScan e.dx e.dy) : Scanned next e ((e.paintCell x y data).scanBox next) := by
  obtain ⟨we, addr, d, frame⟩ := paintCell_frame x y data e
  rw [frame]
  simp only [InScan] at inScan
  unfold scanBox
  dsimp only
  simp only [ballR]
  split_ifs with column row
  · refine ⟨⟨rfl, rfl, rfl⟩, by simp [InScan], Or.inl ⟨?_, rfl, by simp [scanIndex]⟩⟩
    simp [scanIndex, column, row]
  · refine ⟨⟨rfl, rfl, rfl⟩, by simp only [InScan]; omega, Or.inr ⟨?_, rfl, ?_⟩⟩ <;>
      simp only [scanIndex] <;> omega
  · refine ⟨⟨rfl, rfl, rfl⟩, by simp only [InScan]; omega, Or.inr ⟨?_, rfl, ?_⟩⟩ <;>
      simp only [scanIndex] <;> omega

/-- One clock of painting: one clock less is left, or the painting ends in `S_RUN_IDLE`. -/
theorem painting_active {e : Engine} (i : EngineIn) (painting : Painting e) :
    SameGame e (e.active i) ∧
      (e.clocksLeft = 1 ∧ (e.active i).st = .runIdle ∨
        Painting (e.active i) ∧ (e.active i).clocksLeft + 1 = e.clocksLeft) := by
  rcases painting with ⟨here, bound⟩ | ⟨here | here, inScan⟩
  · have shape : e.active i = e.initDraw := by simp only [active, here]
    rw [shape]
    dsimp only [initDraw, sweep]
    by_cases last : e.initAddr = fbSize - 1
    · rw [if_pos last]
      refine ⟨⟨rfl, rfl, rfl⟩, Or.inr ⟨Or.inr ⟨Or.inr rfl, by simp [InScan]⟩, ?_⟩⟩
      simp [clocksLeft, here, scanIndex, last]
    · rw [if_neg last]
      refine ⟨⟨rfl, rfl, rfl⟩, Or.inr ⟨Or.inl ⟨here, ?_⟩, ?_⟩⟩
      · simp only [fbSize] at *
        omega
      · simp only [clocksLeft, here, fbSize] at *
        omega
  · have shape : e.active i = e.eraseBall := by simp only [active, here]
    have scan := scanBox_scanned .drawBall (e.bXp + e.dx) (e.bYp + e.dy) pixEmpty inScan
    rw [shape]
    unfold eraseBall
    refine ⟨scan.same, Or.inr ?_⟩
    rcases scan.moved with ⟨last, state, index⟩ | ⟨more, state, index⟩
    · refine ⟨Or.inr ⟨Or.inr state, scan.inScan⟩, ?_⟩
      simp only [clocksLeft, state, here, index, last]
    · refine ⟨Or.inr ⟨Or.inl (state.trans here), scan.inScan⟩, ?_⟩
      simp only [clocksLeft, state, here, index]
      omega
  · have shape : e.active i = e.drawBall := by simp only [active, here]
    have scan := scanBox_scanned .runIdle (e.bX + e.dx) (e.bY + e.dy) pixBall inScan
    rw [shape]
    unfold drawBall
    refine ⟨scan.same, ?_⟩
    rcases scan.moved with ⟨last, state, index⟩ | ⟨more, state, index⟩
    · exact Or.inl ⟨by simp only [clocksLeft, here, last], state⟩
    · refine Or.inr ⟨Or.inr ⟨Or.inr (state.trans here), scan.inScan⟩, ?_⟩
      simp only [clocksLeft, state, here, index]
      omega

theorem painting_clock {e : Engine} {i : EngineIn} (quiet : i.iReset = false)
    (painting : Painting e) :
    SameGame e (e.clock i) ∧
      (e.clocksLeft = 1 ∧ (e.clock i).st = .runIdle ∨
        Painting (e.clock i) ∧ (e.clock i).clocksLeft + 1 = e.clocksLeft) := by
  rw [clock_of_no_reset quiet]
  obtain ⟨same, progress⟩ := painting_active (e := { e with weR := false }) i painting
  exact ⟨⟨same.level, same.layout, same.motion⟩, progress⟩

theorem Painting.clocksLeft_pos {e : Engine} (painting : Painting e) : 0 < e.clocksLeft := by
  rcases painting with ⟨here, bound⟩ | ⟨here | here, inScan⟩
  · simp only [clocksLeft, here]
    omega
  · simp only [clocksLeft, here, scanIndex, InScan] at *
    omega
  · simp only [clocksLeft, here, scanIndex, InScan] at *
    omega

/-- Painting ends in `S_RUN_IDLE` with the same game, and nothing else happens before. -/
theorem painting_run {e : Engine} {input : ℕ → EngineIn} (quiet : ∀ n, (input n).iReset = false)
    (painting : Painting e) :
    (∀ n < e.clocksLeft, Painting (run clock e input n)) ∧
      (run clock e input e.clocksLeft).st = .runIdle ∧
      SameGame e (run clock e input e.clocksLeft) := by
  have going : ∀ n < e.clocksLeft, Painting (run clock e input n) ∧
      (run clock e input n).clocksLeft + n = e.clocksLeft ∧ SameGame e (run clock e input n) := by
    intro n
    induction n with
    | zero => exact fun _ => ⟨painting, rfl, .refl e⟩
    | succ n ih =>
      intro bound
      obtain ⟨before, left, same⟩ := ih (by omega)
      obtain ⟨step, ⟨ended, _⟩ | ⟨after, fewer⟩⟩ := painting_clock (quiet n) before
      · omega
      · exact ⟨after, by rw [run_succ]; omega, same.trans step⟩
  refine ⟨fun n bound => (going n bound).1, ?_⟩
  obtain ⟨last, isLast⟩ := Nat.exists_eq_succ_of_ne_zero painting.clocksLeft_pos.ne'
  obtain ⟨before, left, same⟩ := going last (by omega)
  rw [isLast]
  obtain ⟨step, ⟨_, ended⟩ | ⟨after, fewer⟩⟩ := painting_clock (quiet last) before
  · exact ⟨ended, same.trans step⟩
  · have some_left := after.clocksLeft_pos
    omega

/-- The game a generated level starts with. -/
structure Generated (number : ℕ) (seed : BitVec 16) (e : Engine) : Prop where
  level : e.level = number
  layout : e.layout = genLayout number seed
  motion : e.motion = ⟨40, 40, 0, 0⟩

theorem levelGen_clock {e : Engine} {i : EngineIn} (quiet : i.iReset = false)
    (here : e.st = .levelGen) :
    Generated e.level e.lfsr (e.clock i) ∧ Painting (e.clock i) ∧
      (e.clock i).clocksLeft = fbSize + 25 := by
  have shape : e.clock i = { e with weR := false }.levelGen := by
    rw [clock_of_no_reset quiet]
    simp only [active, here]
  rw [shape]
  exact ⟨⟨rfl, rfl, rfl⟩, Or.inl ⟨rfl, by simp [levelGen]⟩, rfl⟩

/-- A level is generated, painted and ready to play after a fixed number of clocks. -/
theorem levelGen_run {e : Engine} {input : ℕ → EngineIn} (quiet : ∀ n, (input n).iReset = false)
    (here : e.st = .levelGen) :
    (∀ n < fbSize + 25, Painting (run clock e input (n + 1))) ∧
      (run clock e input (fbSize + 26)).st = .runIdle ∧
      Generated e.level e.lfsr (run clock e input (fbSize + 26)) := by
  obtain ⟨generated, painting, left⟩ := levelGen_clock (quiet 0) here
  have run := painting_run (fun n => quiet (n + 1)) painting
  rw [left] at run
  obtain ⟨going, state, same⟩ := run
  rw [show fbSize + 26 = (fbSize + 25) + 1 from rfl, run_succ']
  refine ⟨fun n bound => ?_, state, ?_⟩
  · rw [run_succ']
    exact going n bound
  exact ⟨same.level.trans generated.level, same.layout.trans generated.layout,
    same.motion.trans generated.motion⟩

/-! ## Physics ticks -/

/-- A physics tick takes place on this clock. -/
def Ticks (e : Engine) (i : EngineIn) : Prop :=
  e.st = .runIdle ∧ i.iReset = false ∧ i.iPause = false ∧ i.tick = true ∧ i.iAccelReady = true

instance (e : Engine) (i : EngineIn) : Decidable (e.Ticks i) := inferInstanceAs (Decidable (_ ∧ _))

theorem runIdle_shape {e : Engine} {i : EngineIn} (quiet : i.iReset = false) (here : e.st = .runIdle) :
    e.clock i = { e with weR := false }.runIdle i := by
  rw [clock_of_no_reset quiet]
  simp only [active, here]

/-- A physics tick that took the ball to `m`. -/
structure Ticked (m : Motion) (e e' : Engine) : Prop where
  level : e'.level = e.level
  layout : e'.layout = e.layout
  motion : e'.motion = m
  next : e'.st = if hitRect m.x m.y e.layout.hz then .loseMsgDraw
    else if hitRect m.x m.y goal then .winMsgDraw else .eraseBall
  inScan : e'.st = .eraseBall → InScan e'.dx e'.dy

theorem Ticks.clock {e : Engine} {i : EngineIn} (ticks : e.Ticks i) :
    Ticked (physics e.level e.layout e.motion i.iAx i.iAy) e (e.clock i) := by
  obtain ⟨here, quiet, playing, tick, ready⟩ := ticks
  rw [runIdle_shape quiet here]
  simp only [runIdle, playing, tick, ready, Bool.and_self, Bool.false_eq_true, if_false, if_true]
  have same : ({ e with weR := false } : Engine).motion = e.motion := rfl
  rw [same]
  generalize physics e.level e.layout e.motion i.iAx i.iAy = m
  split_ifs with hazard won
  · exact ⟨rfl, rfl, rfl, by rw [if_pos hazard], nofun⟩
  · exact ⟨rfl, rfl, rfl, by rw [if_neg hazard, if_pos won], nofun⟩
  · exact ⟨rfl, rfl, rfl, by rw [if_neg hazard, if_neg won], fun _ => by simp [InScan]⟩

/-- Without a physics tick `S_RUN_IDLE` waits. -/
theorem idle_shape {e : Engine} {i : EngineIn} (quiet : i.iReset = false) (here : e.st = .runIdle)
    (still : ¬ e.Ticks i) : e.clock i = { e with weR := false } := by
  rw [runIdle_shape quiet here]
  unfold runIdle
  split_ifs with pause tick
  · rfl
  · simp only [Ticks, here, quiet, true_and, not_and, Bool.and_eq_true] at still tick
    exact absurd tick.2 (still (by simpa using pause) tick.1)
  · rfl

theorem idle_clock {e : Engine} {i : EngineIn} (quiet : i.iReset = false) (here : e.st = .runIdle)
    (still : ¬ e.Ticks i) : SameGame e (e.clock i) ∧ (e.clock i).st = .runIdle := by
  rw [idle_shape quiet here still]
  exact ⟨⟨rfl, rfl, rfl⟩, here⟩

end Telecran.Model.Engine
