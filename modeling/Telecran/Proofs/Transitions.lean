import Telecran.Proofs.Play

/-! # What one clock of the engine can do

A clock accepts a reset, generates a level, makes a physics tick, ends a message screen, or leaves
the game alone. The invariants of whole runs follow from these five cases without looking at the
state machine again.
-/

namespace Telecran.Model.Engine

open Machine

/-- The game and its random source are untouched. -/
structure Unmoved (e e' : Engine) : Prop extends SameGame e e' where
  lfsr : e'.lfsr = e.lfsr
  bXp : e'.bXp = e.bXp
  bYp : e'.bYp = e.bYp

/-- Where a state goes once its painting is done; the others stay. -/
def afterPainting : St → St
  | .initDraw | .eraseBall => .drawBall
  | .drawBall => .runIdle
  | .winMsgDraw => .winMsgWait
  | .loseMsgDraw => .loseMsgWait
  | .quitMsgDraw => .quitMsgWait
  | st => st

/-- A painting or waiting clock leaves the game alone. -/
structure Stayed (e e' : Engine) : Prop extends Unmoved e e' where
  next : e'.st = e.st ∨ e'.st = afterPainting e.st

/-- The level a message screen ends with. -/
def restart (e : Engine) : ℕ := if e.st = .winMsgWait then e.level + 1 else 1

/-- The last second of a message screen is over. -/
def Expires (e : Engine) (i : EngineIn) : Prop :=
  (e.st = .winMsgWait ∨ e.st = .loseMsgWait ∨ e.st = .quitMsgWait) ∧ i.secTick = true ∧ e.waitS = 0

/-- The kinds of clocks. -/
inductive Clocked (e : Engine) (i : EngineIn) (e' : Engine) : Prop
  | quit (accepted : e.accepts i = true) (same : Unmoved e e') (next : e'.st = .quitMsgDraw)
  | generate (ignored : e.accepts i = false) (here : e.st = .levelGen) (next : e'.st = .initDraw)
      (generated : Generated e.level e.lfsr e') (last : e'.bXp = 40 ∧ e'.bYp = 40)
  | tick (ignored : e.accepts i = false) (ticks : e.Ticks i)
      (ticked : Ticked (physics e.level e.layout e.motion i.iAx i.iAy) e e')
      (last : e'.bXp = e.bX ∧ e'.bYp = e.bY)
  | expire (ignored : e.accepts i = false) (expires : e.Expires i) (next : e'.st = .levelGen)
      (level : e'.level = e.restart)
  | stay (ignored : e.accepts i = false) (busy : e.st ≠ .levelGen) (stayed : Stayed e e')

section Cases

variable {e : Engine} {i : EngineIn}

private theorem sweep_stayed (picture : ℤ → ℤ → Pixel) {done : Engine → Engine}
    (keeps : ∀ e', Unmoved e' (done e')) (ends : ∀ e', (done e').st = afterPainting e.st) :
    Stayed e (e.sweep picture done) := by
  unfold sweep
  dsimp only
  split_ifs
  · obtain ⟨⟨level, layout, motion⟩, lfsr, bXp, bYp⟩ := keeps
      { e with
        weR := true, addrR := e.initAddr, dataR := picture (addrX e.initAddr) (addrY e.initAddr) }
    exact ⟨⟨⟨level, layout, motion⟩, lfsr, bXp, bYp⟩, Or.inr (ends _)⟩
  · exact ⟨⟨⟨rfl, rfl, rfl⟩, rfl, rfl, rfl⟩, Or.inl rfl⟩

private theorem scanBox_stayed (x y : ℤ) (data : Pixel) {next : St} (ends : next = afterPainting e.st) :
    Stayed e ((e.paintCell x y data).scanBox next) := by
  subst ends
  obtain ⟨we, addr, d, frame⟩ := paintCell_frame x y data e
  rw [frame]
  unfold scanBox
  split_ifs
  · exact ⟨⟨⟨rfl, rfl, rfl⟩, rfl, rfl, rfl⟩, Or.inr rfl⟩
  · exact ⟨⟨⟨rfl, rfl, rfl⟩, rfl, rfl, rfl⟩, Or.inl rfl⟩
  · exact ⟨⟨⟨rfl, rfl, rfl⟩, rfl, rfl, rfl⟩, Or.inl rfl⟩

private theorem msgWait_clocked {level : ℕ} (ignored : e.accepts i = false)
    (here : e.st = .winMsgWait ∨ e.st = .loseMsgWait ∨ e.st = .quitMsgWait)
    (own : e.restart = level) : Clocked e i (e.msgWait level i) := by
  have busy : e.st ≠ .levelGen := by rcases here with st | st | st <;> simp [st]
  unfold msgWait
  split_ifs with counted last
  · exact .expire ignored ⟨here, counted, last⟩ rfl own.symm
  · exact .stay ignored busy ⟨⟨⟨rfl, rfl, rfl⟩, rfl, rfl, rfl⟩, Or.inl rfl⟩
  · exact .stay ignored busy ⟨⟨⟨rfl, rfl, rfl⟩, rfl, rfl, rfl⟩, Or.inl rfl⟩

/-- Every state but `S_RUN_IDLE`. -/
private theorem active_clocked (ignored : e.accepts i = false) (busy : e.st ≠ .runIdle) :
    Clocked e i (e.active i) := by
  have still (e' : Engine) (st : St) : Unmoved e' { e' with st := st } :=
    ⟨⟨rfl, rfl, rfl⟩, rfl, rfl, rfl⟩
  unfold active
  cases here : e.st
  case runIdle => exact absurd here busy
  case levelGen => exact .generate ignored here rfl ⟨rfl, rfl, rfl⟩ ⟨rfl, rfl⟩
  case winMsgWait => exact msgWait_clocked ignored (Or.inl here) (by simp [restart, here])
  case loseMsgWait => exact msgWait_clocked ignored (Or.inr (Or.inl here)) (by simp [restart, here])
  case quitMsgWait => exact msgWait_clocked ignored (Or.inr (Or.inr here)) (by simp [restart, here])
  all_goals refine .stay ignored (by simp [here]) ?_
  case initDraw =>
    exact sweep_stayed _ (fun _ => ⟨⟨rfl, rfl, rfl⟩, rfl, rfl, rfl⟩) (fun _ => by rw [here]; rfl)
  case eraseBall => exact scanBox_stayed _ _ _ (by rw [here]; rfl)
  case drawBall => exact scanBox_stayed _ _ _ (by rw [here]; rfl)
  case winMsgDraw => exact sweep_stayed _ (still · _) (fun _ => by rw [here]; rfl)
  case loseMsgDraw => exact sweep_stayed _ (still · _) (fun _ => by rw [here]; rfl)
  case quitMsgDraw => exact sweep_stayed _ (still · _) (fun _ => by rw [here]; rfl)

/-- Dropping the write enable first makes no difference to the kind of clock. -/
private theorem Clocked.of_idle {e' : Engine} (clock : Clocked { e with weR := false } i e') :
    Clocked e i e' := by
  cases clock with
  | quit accepted same next =>
    obtain ⟨⟨level, layout, motion⟩, lfsr, bXp, bYp⟩ := same
    exact .quit accepted ⟨⟨level, layout, motion⟩, lfsr, bXp, bYp⟩ next
  | generate ignored here next generated last => exact .generate ignored here next generated last
  | tick ignored ticks ticked last =>
    obtain ⟨level, layout, motion, next, inScan⟩ := ticked
    exact .tick ignored ticks ⟨level, layout, motion, next, inScan⟩ last
  | expire ignored expires next level => exact .expire ignored expires next level
  | stay ignored busy stayed =>
    obtain ⟨⟨⟨level, layout, motion⟩, lfsr, bXp, bYp⟩, next⟩ := stayed
    exact .stay ignored busy ⟨⟨⟨level, layout, motion⟩, lfsr, bXp, bYp⟩, next⟩

private theorem ticks_last (ticks : e.Ticks i) :
    (e.clock i).bXp = e.bX ∧ (e.clock i).bYp = e.bY := by
  obtain ⟨here, quiet, playing, tick, ready⟩ := ticks
  rw [runIdle_shape quiet here]
  simp only [runIdle, playing, tick, ready, Bool.and_self, Bool.false_eq_true, if_false, if_true]
  split_ifs <;> exact ⟨rfl, rfl⟩

private theorem runIdle_clocked (ignored : e.accepts i = false) (here : e.st = .runIdle) :
    Clocked e i (e.clock i) := by
  have quiet : i.iReset = false := by simpa [accepts, here] using ignored
  by_cases ticks : e.Ticks i
  · exact .tick ignored ticks ticks.clock (ticks_last ticks)
  · rw [idle_shape quiet here ticks]
    exact .stay ignored (by simp [here]) ⟨⟨⟨rfl, rfl, rfl⟩, rfl, rfl, rfl⟩, Or.inl rfl⟩

theorem clocked (e : Engine) (i : EngineIn) : Clocked e i (e.clock i) := by
  cases accepted : e.accepts i with
  | true =>
    rw [clock, if_pos accepted]
    exact .quit accepted ⟨⟨rfl, rfl, rfl⟩, rfl, rfl, rfl⟩ rfl
  | false =>
    by_cases here : e.st = .runIdle
    · exact runIdle_clocked accepted here
    · rw [clock_of_ignored accepted]
      exact (active_clocked (e := { e with weR := false }) accepted here).of_idle

end Cases

/-! ## The sweep address -/

private theorem sweep_initAddr {e : Engine} {picture : ℤ → ℤ → Pixel} {done : Engine → Engine}
    (keeps : ∀ e', (done e').initAddr = e'.initAddr) (bound : e.initAddr < fbSize) :
    (e.sweep picture done).initAddr < fbSize := by
  unfold sweep
  dsimp only
  split_ifs with last
  · rw [keeps]
    exact bound
  · simp only [fbSize] at *
    omega

private theorem active_initAddr {e : Engine} (i : EngineIn) (bound : e.initAddr < fbSize) :
    (e.active i).initAddr < fbSize := by
  have scanned (next : St) (x y : ℤ) (data : Pixel) :
      ((e.paintCell x y data).scanBox next).initAddr < fbSize := by
    obtain ⟨we, addr, d, frame⟩ := paintCell_frame x y data e
    rw [frame]
    unfold scanBox
    split_ifs <;> exact bound
  have waited (level : ℕ) : (e.msgWait level i).initAddr < fbSize := by
    unfold msgWait
    split_ifs <;> exact bound
  unfold active
  cases e.st
  case levelGen => exact Nat.zero_lt_succ _
  case runIdle =>
    dsimp only [runIdle]
    split_ifs
    all_goals first | exact bound | exact Nat.zero_lt_succ _
  case eraseBall => exact scanned _ _ _ _
  case drawBall => exact scanned _ _ _ _
  case winMsgWait => exact waited _
  case loseMsgWait => exact waited _
  case quitMsgWait => exact waited _
  all_goals exact sweep_initAddr (fun _ => rfl) bound

/-- Every repaint stays inside the framebuffer. -/
theorem clock_initAddr {e : Engine} (i : EngineIn) (bound : e.initAddr < fbSize) :
    (e.clock i).initAddr < fbSize := by
  unfold clock
  split_ifs
  · exact Nat.zero_lt_succ _
  · exact active_initAddr i bound

theorem run_initAddr {e : Engine} (bound : e.initAddr < fbSize) (input : ℕ → EngineIn) (n : ℕ) :
    (run clock e input n).initAddr < fbSize :=
  run_invariant (P := fun e : Engine => e.initAddr < fbSize) bound
    (fun _ i kept => clock_initAddr i kept) n

/-! ## Message screens -/

/-- The picture a message state draws. -/
def drawnBy : St → Option (ℤ → ℤ → Pixel)
  | .winMsgDraw => some winScreen
  | .loseMsgDraw => some loseScreen
  | .quitMsgDraw => some quitScreen
  | _ => none

section Messages

variable {e : Engine} {i : EngineIn} {picture : ℤ → ℤ → Pixel}

theorem message_shape (ignored : e.accepts i = false) (drawing : drawnBy e.st = some picture) :
    e.clock i = { e with weR := false }.sweep picture fun e' => { e' with st := afterPainting e.st } := by
  rw [clock_of_ignored ignored]
  cases here : e.st
  all_goals rw [here] at drawing
  case winMsgDraw => cases drawing; simp only [active]; rfl
  case loseMsgDraw => cases drawing; simp only [active]; rfl
  case quitMsgDraw => cases drawing; simp only [active]; rfl
  all_goals cases drawing

/-- One clock of a message draws one word, and the last word ends the drawing. -/
theorem message_clock (ignored : e.accepts i = false) (drawing : drawnBy e.st = some picture) :
    (e.clock i).request = ⟨true, e.initAddr, picture (addrX e.initAddr) (addrY e.initAddr)⟩ ∧
      (e.clock i).waitS = e.waitS ∧ (e.clock i).level = e.level ∧
      (e.initAddr = fbSize - 1 ∧ (e.clock i).st = afterPainting e.st ∨
        e.initAddr ≠ fbSize - 1 ∧ (e.clock i).st = e.st ∧ (e.clock i).initAddr = e.initAddr + 1) := by
  rw [message_shape ignored drawing]
  unfold sweep
  dsimp only
  split_ifs with last
  · exact ⟨rfl, rfl, rfl, Or.inl ⟨last, rfl⟩⟩
  · exact ⟨rfl, rfl, rfl, Or.inr ⟨last, rfl, rfl⟩⟩

theorem waiting_shape (ignored : e.accepts i = false)
    (waiting : e.st = .winMsgWait ∨ e.st = .loseMsgWait ∨ e.st = .quitMsgWait) :
    e.clock i = ({ e with weR := false } : Engine).msgWait e.restart i := by
  rw [clock_of_ignored ignored]
  rcases waiting with here | here | here <;> simp only [active, here] <;>
    simp [winMsgWait, loseMsgWait, quitMsgWait, restart, here]

/-- One clock of a finished message counts a second or ends it. -/
theorem wait_clock (ignored : e.accepts i = false)
    (waiting : e.st = .winMsgWait ∨ e.st = .loseMsgWait ∨ e.st = .quitMsgWait) :
    i.secTick = true ∧ e.waitS = 0 ∧ (e.clock i).st = .levelGen ∧ (e.clock i).level = e.restart ∨
      (e.clock i).st = e.st ∧ (e.clock i).level = e.level ∧
        (e.clock i).waitS + (if i.secTick = true then 1 else 0) = e.waitS := by
  rw [waiting_shape ignored waiting]
  unfold msgWait
  split_ifs with counted last
  · exact Or.inl ⟨counted, last, rfl, rfl⟩
  · exact Or.inr ⟨rfl, rfl, Nat.sub_add_cancel (Nat.pos_of_ne_zero last)⟩
  · exact Or.inr ⟨rfl, rfl, rfl⟩

end Messages

end Telecran.Model.Engine
