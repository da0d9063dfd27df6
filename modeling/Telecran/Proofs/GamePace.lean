import Telecran.Machine.Refinement
import Telecran.Proofs.Transitions
import Telecran.Spec.Game

/-! # The engine keeps the pace of the game

After a move the engine generates, paints or draws for some clocks and then waits for the next tick.
`Working n e g` says that it will have caught up with the game `g` after `n` more clocks, when no
reset and no tick comes; one clock of the engine is one clock of work less.
-/

namespace Telecran.Model.Engine

open Machine Spec

/-- The registers the game knows. -/
structure Agrees (e : Engine) (g : Game) : Prop where
  level : e.level = g.level
  seed : e.lfsr = g.seed
  layout : e.layout = g.layout
  motion : e.motion = g.motion

/-- The game after the level generation that is due. -/
def dealt (e : Engine) : Game where
  phase := .playing
  level := e.level
  seed := lfsrNext e.lfsr
  layout := genLayout e.level e.lfsr
  motion := ⟨40, 40, 0, 0⟩

/-- The states in which a phase is drawn and in which it waits. -/
def drawing : Phase → St
  | .playing => .initDraw
  | .won _ => .winMsgDraw
  | .lost _ => .loseMsgDraw
  | .quit _ => .quitMsgDraw

def waiting : Phase → St
  | .playing => .runIdle
  | .won _ => .winMsgWait
  | .lost _ => .loseMsgWait
  | .quit _ => .quitMsgWait

/-- The seconds still to wait. -/
def seconds : Phase → Option ℕ
  | .playing => none
  | .won s | .lost s | .quit s => some s

/-- The engine has caught up with the game and waits for the next tick. -/
structure Rests (e : Engine) (g : Game) : Prop where
  agrees : e.Agrees g
  here : e.st = waiting g.phase
  count : ∀ s, seconds g.phase = some s → e.waitS = s

/-- `n` clocks of work until the engine has caught up with the game. -/
inductive Working : ℕ → Engine → Game → Prop where
  | generating {e : Engine} {g : Game} (here : e.st = .levelGen) (due : g = e.dealt) :
      Working (fbSize + 26) e g
  | painting {e : Engine} {g : Game} (agrees : e.Agrees g) (phase : g.phase = .playing)
      (painting : e.Painting) : Working e.clocksLeft e g
  | message {e : Engine} {g : Game} {s : ℕ} (agrees : e.Agrees g) (phase : seconds g.phase = some s)
      (count : e.waitS = s) (here : e.st = drawing g.phase) (bound : e.initAddr < fbSize) :
      Working (fbSize - e.initAddr) e g
  | resting {e : Engine} {g : Game} (rests : e.Rests g) : Working 0 e g

theorem Working.rests {e : Engine} {g : Game} (working : Working 0 e g) : e.Rests g := by
  generalize none : 0 = work at working
  cases working with
  | generating => simp at none
  | painting _ _ painting => exact absurd none painting.clocksLeft_pos.ne
  | message _ _ _ _ bound => omega
  | resting rests => exact rests

/-- No reset and no tick. -/
def Quiet (i : EngineIn) : Prop := i.iReset = false ∧ i.tick = false ∧ i.secTick = false

/-! ## One quiet clock -/

section Quiet

variable {e : Engine} {i : EngineIn} {g : Game}

theorem Quiet.ignored (quiet : Quiet i) (e : Engine) : e.accepts i = false := by
  simp [accepts, quiet.1]

/-- On a quiet clock outside the level generation the game stays. -/
theorem Quiet.stayed (quiet : Quiet i) (busy : e.st ≠ .levelGen) : Stayed e (e.clock i) := by
  cases e.clocked i with
  | quit accepted => exact absurd ((quiet.ignored e).symm.trans accepted) Bool.false_ne_true
  | generate _ here => exact absurd here busy
  | tick _ ticks => exact absurd (quiet.2.1.symm.trans ticks.2.2.2.1) Bool.false_ne_true
  | expire _ expires => exact absurd (quiet.2.2.symm.trans expires.2.1) Bool.false_ne_true
  | stay _ _ stayed => exact stayed

theorem Agrees.stayed {e' : Engine} (agrees : e.Agrees g) (stayed : Stayed e e') : e'.Agrees g where
  level := stayed.level.trans agrees.level
  seed := stayed.lfsr.trans agrees.seed
  layout := stayed.layout.trans agrees.layout
  motion := stayed.motion.trans agrees.motion

private theorem generating_clock (quiet : Quiet i) (here : e.st = .levelGen) :
    Working (fbSize + 25) (e.clock i) e.dealt := by
  obtain ⟨⟨level, layout, motion⟩, painting, left⟩ := levelGen_clock quiet.1 here
  have seed : (e.clock i).lfsr = lfsrNext e.lfsr := by
    rw [clock_of_no_reset quiet.1]
    simp only [active, here]
    rfl
  rw [← left]
  exact .painting ⟨level, seed, layout, motion⟩ rfl painting

private theorem painting_quiet (quiet : Quiet i) (agrees : e.Agrees g) (phase : g.phase = .playing)
    (painting : e.Painting) {n : ℕ} (work : e.clocksLeft = n + 1) : Working n (e.clock i) g := by
  have busy : e.st ≠ .levelGen := by
    rcases painting with ⟨here, -⟩ | ⟨here | here, -⟩ <;> simp [here]
  have same := agrees.stayed (quiet.stayed busy)
  obtain ⟨-, ⟨last, state⟩ | ⟨painting', left⟩⟩ := painting_clock quiet.1 painting
  · obtain rfl : n = 0 := by omega
    refine .resting ⟨same, by rw [phase]; exact state, ?_⟩
    simp [phase, seconds]
  · obtain rfl : (e.clock i).clocksLeft = n := by omega
    exact .painting same phase painting'

/-- What is drawn for a phase, and where it goes from there. -/
private theorem drawing_message {phase : Phase} {s : ℕ} (counts : seconds phase = some s) :
    (∃ picture, drawnBy (drawing phase) = some picture) ∧
      afterPainting (drawing phase) = waiting phase ∧ drawing phase ≠ .levelGen := by
  cases phase with
  | playing => simp [seconds] at counts
  | won s => exact ⟨⟨_, rfl⟩, rfl, by simp [drawing]⟩
  | lost s => exact ⟨⟨_, rfl⟩, rfl, by simp [drawing]⟩
  | quit s => exact ⟨⟨_, rfl⟩, rfl, by simp [drawing]⟩

private theorem message_quiet (quiet : Quiet i) (agrees : e.Agrees g) {s : ℕ}
    (phase : seconds g.phase = some s) (count : e.waitS = s) (here : e.st = drawing g.phase)
    (bound : e.initAddr < fbSize) {n : ℕ} (work : fbSize - e.initAddr = n + 1) : Working n (e.clock i) g := by
  obtain ⟨⟨picture, drawn⟩, next, busy⟩ := drawing_message phase
  have same := agrees.stayed (quiet.stayed (here ▸ busy))
  obtain ⟨-, waitS, -, ⟨last, state⟩ | ⟨more, state, addr⟩⟩ :=
    message_clock (quiet.ignored e) (here ▸ drawn)
  · obtain rfl : n = 0 := by simp only [fbSize] at *; omega
    refine .resting ⟨same, by rw [state, here, next], fun s' other => ?_⟩
    rw [waitS, count]
    exact Option.some.inj (phase.symm.trans other)
  · have left : fbSize - (e.clock i).initAddr = n := by simp only [fbSize] at *; omega
    rw [← left]
    refine .message same phase (waitS.trans count) (state.trans here) ?_
    simp only [fbSize] at *
    omega

private theorem waiting_message {phase : Phase} {s : ℕ} (counts : seconds phase = some s) :
    waiting phase = .winMsgWait ∨ waiting phase = .loseMsgWait ∨ waiting phase = .quitMsgWait := by
  cases phase with
  | playing => simp [seconds] at counts
  | won s => exact Or.inl rfl
  | lost s => exact Or.inr (Or.inl rfl)
  | quit s => exact Or.inr (Or.inr rfl)

private theorem resting_quiet (quiet : Quiet i) (rests : e.Rests g) : (e.clock i).Rests g := by
  obtain ⟨agrees, here, count⟩ := rests
  have steady : waiting g.phase ≠ .levelGen ∧ afterPainting (waiting g.phase) = waiting g.phase := by
    cases g.phase <;> simp [waiting, afterPainting]
  have stayed := quiet.stayed (e := e) (here ▸ steady.1)
  refine ⟨agrees.stayed stayed, ?_, fun s counts => ?_⟩
  · rcases stayed.next with same | done
    · exact same.trans here
    · rw [done, here, steady.2]
  · rcases wait_clock (i := i) (quiet.ignored e) (here ▸ waiting_message counts) with
      ⟨second, -⟩ | ⟨-, -, waits⟩
    · exact absurd (quiet.2.2.symm.trans second) Bool.false_ne_true
    · rw [quiet.2.2] at waits
      exact waits.trans (count s counts)

/-- An engine at rest does not write. -/
theorem Rests.idle (rests : e.Rests g) (quiet : Quiet i) : (e.clock i).weR = false := by
  obtain ⟨-, here, -⟩ := rests
  cases phase : g.phase with
  | playing =>
    rw [runIdle_shape quiet.1 (by rw [here, phase]; rfl), runIdle, quiet.2.1]
    split_ifs <;> first | rfl | contradiction
  | won s | lost s | quit s =>
    rw [waiting_shape (quiet.ignored e) (by rw [here, phase]; simp [waiting]), msgWait, if_neg]
    simp [quiet.2.2]

/-- The work gets done, and then the engine rests. -/
theorem settling (g : Game) : Settling clock Quiet fun n e => Working n e g where
  works e i n quiet working := by
    generalize total : n + 1 = work at working
    cases working with
    | generating here due =>
      obtain rfl : n = fbSize + 25 := by omega
      subst due
      exact generating_clock quiet here
    | painting agrees phase painting => exact painting_quiet quiet agrees phase painting total.symm
    | message agrees phase count here bound =>
      exact message_quiet quiet agrees phase count here bound total.symm
    | resting => exact absurd total (Nat.succ_ne_zero n)
  rests e i quiet working := .resting (resting_quiet quiet working.rests)

end Quiet

/-! ## One tick -/

section Tick

variable {e : Engine} {i : EngineIn} {g : Game}

/-- The move the engine makes of its inputs. -/
def moveOf (i : EngineIn) : Move := ⟨i.iAccelReady, i.iAx, i.iAy, i.secTick⟩

/-- A tick while a message is shown. -/
private theorem message_tick (ignored : e.accepts i = false) (agrees : e.Agrees g) {s level : ℕ}
    {shown : ℕ → Phase} (phase : g.phase = shown s) (here : e.st = waiting g.phase)
    (own : ∀ s, seconds (shown s) = some s)
    (same : ∀ s s', waiting (shown s) = waiting (shown s')) (count : e.waitS = s)
    (restart : e.restart = level) :
    ∃ n ≤ fbSize + 26, Working n (e.clock i) (g.wait shown s level (moveOf i)) := by
  rw [waiting_shape ignored (here ▸ waiting_message (phase ▸ own s)), restart]
  obtain ⟨shows, number, seed, layout, motion⟩ := g
  obtain ⟨rfl, rfl, rfl, rfl⟩ := agrees
  obtain rfl : shows = shown s := phase
  subst count
  have own' : (moveOf i).second = i.secTick := rfl
  unfold msgWait Game.wait
  rw [own']
  by_cases second : i.secTick = true
  · rw [if_pos second, if_pos second]
    by_cases last : e.waitS = 0
    · rw [if_pos last, if_pos last]
      exact ⟨fbSize + 26, le_rfl, .generating rfl rfl⟩
    · rw [if_neg last, if_neg last]
      refine ⟨0, Nat.zero_le _, .resting ⟨⟨rfl, rfl, rfl, rfl⟩, here.trans (same _ _), fun s counts => ?_⟩⟩
      exact Option.some.inj ((own (e.waitS - 1)).symm.trans counts)
  · rw [if_neg second, if_neg second]
    refine ⟨0, Nat.zero_le _, .resting ⟨⟨rfl, rfl, rfl, rfl⟩, here, fun s counts => ?_⟩⟩
    exact Option.some.inj ((own e.waitS).symm.trans counts)

/-- A message that is about to be drawn. -/
private theorem message_start (agrees : e.Agrees g) {s : ℕ} (phase : seconds g.phase = some s)
    (count : e.waitS = s) (here : e.st = drawing g.phase) (first : e.initAddr = 0) :
    Working fbSize e g := by
  have working := Working.message agrees phase count here (by simp [first])
  rwa [first, Nat.sub_zero] at working

/-- A tick while the level is played. -/
private theorem playing_tick (free : i.iReset = false) (plays : i.iPause = false) (ticks : i.tick = true)
    (agrees : e.Agrees g) (phase : g.phase = .playing) (here : e.st = .runIdle) :
    ∃ n ≤ fbSize + 26, Working n (e.clock i) (g.step (moveOf i)) := by
  obtain ⟨shows, number, seed, layout, motion⟩ := g
  obtain ⟨rfl, rfl, rfl, rfl⟩ := agrees
  obtain rfl : shows = .playing := phase
  have own : (moveOf i).ready = i.iAccelReady := rfl
  rw [runIdle_shape free here]
  simp only [runIdle, plays, ticks, Bool.true_and, Bool.false_eq_true, if_false, Game.step, own]
  by_cases ready : i.iAccelReady = true
  · rw [if_pos ready, if_pos ready]
    change ∃ n ≤ fbSize + 26, Working n _ (Game.land _ (physics e.level e.layout e.motion i.iAx i.iAy))
    have same : ({ e with weR := false } : Engine).motion = e.motion := rfl
    rw [same]
    generalize physics e.level e.layout e.motion i.iAx i.iAy = m
    unfold Game.land
    by_cases hazard : hitRect m.x m.y e.layout.hz = true
    · rw [if_pos hazard, if_pos hazard]
      exact ⟨fbSize, by omega, message_start ⟨rfl, rfl, rfl, rfl⟩ (s := 10) rfl rfl rfl rfl⟩
    · rw [if_neg hazard, if_neg hazard]
      by_cases won : hitRect m.x m.y goal = true
      · rw [if_pos won, if_pos won]
        exact ⟨fbSize, by omega, message_start ⟨rfl, rfl, rfl, rfl⟩ (s := 5) rfl rfl rfl rfl⟩
      · rw [if_neg won, if_neg won]
        refine ⟨_, ?_, .painting ⟨rfl, rfl, rfl, rfl⟩ rfl (Or.inr ⟨Or.inl rfl, by simp [InScan]⟩)⟩
        simp only [clocksLeft, fbSize]
        omega
  · rw [if_neg ready, if_neg ready]
    exact ⟨0, Nat.zero_le _, .resting ⟨⟨rfl, rfl, rfl, rfl⟩, here, by simp [seconds]⟩⟩

/-- A tick starts the work of one move. -/
theorem Rests.tick (rests : e.Rests g) (free : i.iReset = false) (plays : i.iPause = false)
    (ticks : i.tick = true) : ∃ n ≤ fbSize + 26, Working n (e.clock i) (g.step (moveOf i)) := by
  obtain ⟨agrees, here, count⟩ := rests
  have ignored : e.accepts i = false := by simp [accepts, free]
  have restart (st : St) (same : e.st = st) : e.restart = if st = .winMsgWait then e.level + 1 else 1 := by
    rw [Engine.restart, same]
  cases phase : g.phase with
  | playing => exact playing_tick free plays ticks agrees phase (here.trans (by rw [phase]; rfl))
  | won s =>
    have shown : e.st = .winMsgWait := here.trans (by rw [phase]; rfl)
    rw [Game.step, phase]
    exact message_tick ignored agrees phase here (fun _ => rfl) (fun _ _ => rfl) (count s (by rw [phase]; rfl))
      ((restart _ shown).trans (by rw [if_pos rfl, agrees.level]))
  | lost s =>
    have shown : e.st = .loseMsgWait := here.trans (by rw [phase]; rfl)
    rw [Game.step, phase]
    exact message_tick ignored agrees phase here (fun _ => rfl) (fun _ _ => rfl) (count s (by rw [phase]; rfl))
      ((restart _ shown).trans (if_neg (by simp)))
  | quit s =>
    have shown : e.st = .quitMsgWait := here.trans (by rw [phase]; rfl)
    rw [Game.step, phase]
    exact message_tick ignored agrees phase here (fun _ => rfl) (fun _ _ => rfl) (count s (by rw [phase]; rfl))
      ((restart _ shown).trans (if_neg (by simp)))

/-- In a quit message a reset does not matter. -/
theorem Rests.quit_tick {s : ℕ} (rests : e.Rests g) (phase : g.phase = .quit s) :
    ∃ n ≤ fbSize + 26, Working n (e.clock i) (g.step (moveOf i)) := by
  obtain ⟨agrees, here, count⟩ := rests
  have shown : e.st = .quitMsgWait := here.trans (by rw [phase]; rfl)
  rw [Game.step, phase]
  exact message_tick (quit_ignores (Or.inr shown) i) agrees phase here (fun _ => rfl) (fun _ _ => rfl)
    (count s (by rw [phase]; rfl)) (by simp [Engine.restart, shown])

end Tick

/-! ## From tick to tick -/

section Moves

variable {e : Engine} {g : Game} {n : ℕ}

/-- The work is done after enough quiet clocks. -/
theorem Working.run (working : Working n e g) (input : ℕ → EngineIn) (p : ℕ) (quiet : ∀ k < p, Quiet (input k))
    (long : n ≤ p) : (Machine.run clock e input p).Rests g := by
  have settled := (settling g).run quiet working
  rw [Nat.sub_eq_zero_of_le long] at settled
  exact settled.rests

/-- A tick and a long quiet time make one move. -/
theorem Rests.move (rests : e.Rests g) (input : ℕ → EngineIn) (p : ℕ) (free : (input 0).iReset = false)
    (plays : (input 0).iPause = false) (ticks : (input 0).tick = true)
    (quiet : ∀ k < p, Quiet (input (k + 1))) (long : fbSize + 26 ≤ p) :
    (run clock e input (p + 1)).Rests (g.step (moveOf (input 0))) := by
  obtain ⟨n, bound, working⟩ := rests.tick free plays ticks
  rw [run_succ']
  exact working.run _ p quiet (bound.trans long)

/-- Every engine is on its way to some game. -/
theorem exists_working (e : Engine) (bound : e.initAddr < fbSize)
    (inScan : e.st = .eraseBall ∨ e.st = .drawBall → InScan e.dx e.dy) :
    ∃ g n, n ≤ fbSize + 26 ∧ Working n e g := by
  have message (phase : Phase) (s : ℕ) (counts : seconds phase = some s) (here : e.st = drawing phase)
      (count : e.waitS = s) : ∃ g n, n ≤ fbSize + 26 ∧ Working n e g :=
    ⟨⟨phase, e.level, e.lfsr, e.layout, e.motion⟩, _, by omega,
      .message ⟨rfl, rfl, rfl, rfl⟩ counts count here bound⟩
  have rests (phase : Phase) (here : e.st = waiting phase)
      (count : ∀ s, seconds phase = some s → e.waitS = s) : ∃ g n, n ≤ fbSize + 26 ∧ Working n e g :=
    ⟨⟨phase, e.level, e.lfsr, e.layout, e.motion⟩, 0, Nat.zero_le _,
      .resting ⟨⟨rfl, rfl, rfl, rfl⟩, here, count⟩⟩
  have paints (painting : e.Painting) (left : e.clocksLeft ≤ fbSize + 26) :
      ∃ g n, n ≤ fbSize + 26 ∧ Working n e g :=
    ⟨⟨.playing, e.level, e.lfsr, e.layout, e.motion⟩, _, left,
      .painting ⟨rfl, rfl, rfl, rfl⟩ rfl painting⟩
  cases here : e.st with
  | levelGen => exact ⟨_, _, le_rfl, .generating here rfl⟩
  | initDraw => exact paints (Or.inl ⟨here, bound⟩) (by simp only [clocksLeft, here]; omega)
  | eraseBall =>
    exact paints (Or.inr ⟨Or.inl here, inScan (Or.inl here)⟩) (by simp only [clocksLeft, here, fbSize]; omega)
  | drawBall =>
    exact paints (Or.inr ⟨Or.inr here, inScan (Or.inr here)⟩) (by simp only [clocksLeft, here, fbSize]; omega)
  | runIdle => exact rests .playing here (by simp [seconds])
  | winMsgDraw => exact message (.won e.waitS) _ rfl here rfl
  | winMsgWait => exact rests (.won e.waitS) here fun s counts => Option.some.inj counts
  | loseMsgDraw => exact message (.lost e.waitS) _ rfl here rfl
  | loseMsgWait => exact rests (.lost e.waitS) here fun s counts => Option.some.inj counts
  | quitMsgDraw => exact message (.quit e.waitS) _ rfl here rfl
  | quitMsgWait => exact rests (.quit e.waitS) here fun s counts => Option.some.inj counts

/-- The quit states look at the seconds only. -/
private theorem quit_clock {i : EngineIn} (quits : e.st = .quitMsgDraw ∨ e.st = .quitMsgWait) :
    e.clock i = e.clock { i with iReset := false, tick := false } := by
  rw [clock_of_ignored (quit_ignores quits _), clock_of_ignored (quit_ignores quits _)]
  rcases quits with here | here
  · simp only [active, here]
  · simp only [active, here]
    rfl

private theorem quits_of_phase {s : ℕ} (phase : g.phase = .quit s) (working : Working n e g) :
    e.st = .quitMsgDraw ∨ e.st = .quitMsgWait := by
  cases working with
  | generating _ due => exact absurd (phase.symm.trans (congrArg Game.phase due)) (by simp [dealt])
  | painting _ playing => exact absurd (phase.symm.trans playing) (by simp)
  | message _ _ _ here => exact Or.inl (here.trans (by rw [phase]; rfl))
  | resting rests => exact Or.inr (rests.here.trans (by rw [phase]; rfl))

/-- Nothing but the seconds disturbs a quit message. -/
theorem quit_settling {s : ℕ} (phase : g.phase = .quit s) :
    Settling clock (fun i => i.secTick = false) fun n e => Working n e g where
  works e i n untimed working := by
    rw [quit_clock (quits_of_phase phase working)]
    exact (settling g).works _ _ _ ⟨rfl, rfl, untimed⟩ working
  rests e i untimed working := by
    rw [quit_clock (quits_of_phase phase working)]
    exact (settling g).rests _ _ ⟨rfl, rfl, untimed⟩ working

theorem Working.run_quit {s : ℕ} (working : Working n e g) (phase : g.phase = .quit s)
    (input : ℕ → EngineIn) (p : ℕ) (untimed : ∀ k < p, (input k).secTick = false) (long : n ≤ p) :
    (Machine.run clock e input p).Rests g := by
  have settled := (quit_settling phase).run untimed working
  rw [Nat.sub_eq_zero_of_le long] at settled
  exact settled.rests

/-- A quit message stays with the game whatever resets come, as long as its seconds last. -/
theorem Rests.quit_move {s s' : ℕ} (rests : e.Rests g) (phase : g.phase = .quit s) (input : ℕ → EngineIn)
    (p : ℕ) (lasts : (g.step (moveOf (input 0))).phase = .quit s')
    (untimed : ∀ k < p, (input (k + 1)).secTick = false) (long : fbSize + 26 ≤ p) :
    (Machine.run clock e input (p + 1)).Rests (g.step (moveOf (input 0))) := by
  obtain ⟨n, bound, working⟩ := rests.quit_tick (i := input 0) phase
  rw [run_succ']
  exact working.run_quit lasts _ p untimed (bound.trans long)

/-- An accepted reset leads to the quit message. -/
theorem accepted_working {i : EngineIn} (accepted : e.accepts i = true) :
    Working fbSize (e.clock i) ⟨.quit 10, e.level, e.lfsr, e.layout, e.motion⟩ := by
  rw [clock, if_pos accepted]
  exact message_start ⟨rfl, rfl, rfl, rfl⟩ rfl rfl rfl rfl

/-- A reset finds the quit message or leads to it. -/
theorem quit_working {i : EngineIn} (bound : e.initAddr < fbSize) (pressed : i.iReset = true)
    (untimed : i.secTick = false) : ∃ g s n, n ≤ fbSize ∧ Working n (e.clock i) g ∧ g.phase = .quit s := by
  by_cases quits : e.st = .quitMsgDraw ∨ e.st = .quitMsgWait
  · have settles := quit_settling (g := ⟨.quit e.waitS, e.level, e.lfsr, e.layout, e.motion⟩) rfl
    rcases quits with here | here
    · have working : Working (fbSize - e.initAddr) e ⟨.quit e.waitS, e.level, e.lfsr, e.layout, e.motion⟩ :=
        .message ⟨rfl, rfl, rfl, rfl⟩ rfl rfl here bound
      obtain ⟨n, left⟩ := Nat.exists_eq_add_of_lt bound
      rw [show fbSize - e.initAddr = n + 1 by omega] at working
      exact ⟨_, _, n, by omega, settles.works _ _ _ untimed working, rfl⟩
    · have working : Working 0 e ⟨.quit e.waitS, e.level, e.lfsr, e.layout, e.motion⟩ :=
        .resting ⟨⟨rfl, rfl, rfl, rfl⟩, here, fun s counts => Option.some.inj counts⟩
      exact ⟨_, _, 0, Nat.zero_le _, settles.rests _ _ untimed working, rfl⟩
  · have accepted : e.accepts i = true := by simpa [accepts, pressed] using quits
    exact ⟨_, _, fbSize, le_rfl, accepted_working accepted, rfl⟩

/-- At rest the screen shows the game. -/
theorem Rests.picture {m : Memory Pixel} (rests : e.Rests g) (consistent : e.Consistent m) :
    Painted m g.picture fbSize := by
  obtain ⟨⟨-, -, layout, motion⟩, here, -⟩ := rests
  unfold Consistent at consistent
  unfold Game.picture
  cases phase : g.phase with
  | playing =>
    rw [here, phase] at consistent
    rw [← layout, ← motion]
    exact consistent
  | won s | lost s | quit s =>
    rw [here, phase] at consistent
    exact consistent

end Moves

end Telecran.Model.Engine
