import Telecran.Proofs.Nudge
import Telecran.Proofs.Play
import Telecran.Soundness.Framebuffer

/-! # Every generated level can be won

A player shows the engine one sample for each physics tick, at whatever clocks the ticks come. The
way to the goal is a script of nudges that depends on the level alone: the free strips are the same
in every layout, even when a wall covers the spawn.
-/

namespace Telecran.Soundness.Winnable

open Machine Model

/-- The engine and the samples still to be shown to it, one for each physics tick. -/
structure Player where
  engine : Engine
  script : List Sample

namespace Player

/-- The inputs of a clock with the player's sample. -/
def shows (p : Player) (i : EngineIn) : EngineIn :=
  { i with iAx := (p.script.headD rest).1, iAy := (p.script.headD rest).2 }

def clock (p : Player) (i : EngineIn) : Player where
  engine := p.engine.clock (p.shows i)
  script := if p.engine.Ticks (p.shows i) then p.script.tail else p.script

/-- The inputs of the engine in a run of the player. -/
def shown (p : Player) (input : ℕ → EngineIn) (n : ℕ) : EngineIn := (run clock p input n).shows (input n)

end Player

/-- The output of the gain stage for some raw sample. -/
def GainOutput (a : BitVec 16) : Prop := ∃ raw, a = accelGame raw

/-- A physics tick can take place on this clock. -/
def Ready (i : EngineIn) : Prop := i.iPause = false ∧ i.tick = true ∧ i.iAccelReady = true

instance (i : EngineIn) : Decidable (Ready i) := inferInstanceAs (Decidable (_ ∧ _))

/-- No reset, and always another chance for a physics tick. -/
structure Fair (input : ℕ → EngineIn) : Prop where
  quiet : ∀ n, (input n).iReset = false
  often : ∀ n, ∃ m, n ≤ m ∧ Ready (input m)

/-- The run enters `S_WIN_MSG_DRAW` and never `S_LOSE_MSG_DRAW` before. -/
def Victory (x : ℕ → Player) : Prop :=
  ∃ n, (x n).engine.st = .winMsgDraw ∧ ∀ k ≤ n, (x k).engine.st ≠ .loseMsgDraw

section Runs

variable {p : Player} {input : ℕ → EngineIn}

theorem Fair.later (fair : Fair input) (k : ℕ) : Fair fun n => input (k + n) where
  quiet n := fair.quiet _
  often n := by
    obtain ⟨m, far, ready⟩ := fair.often (k + n)
    exact ⟨m - k, by omega, by rwa [Nat.add_sub_cancel' (by omega)]⟩

theorem Victory.later {k : ℕ} (before : ∀ n < k, (run Player.clock p input n).engine.st ≠ .loseMsgDraw)
    (after : Victory (run Player.clock (run Player.clock p input k) fun n => input (k + n))) :
    Victory (run Player.clock p input) := by
  obtain ⟨n, won, safe⟩ := after
  refine ⟨k + n, by rwa [run_add], fun j bound => ?_⟩
  rcases Nat.lt_or_ge j k with early | late
  · exact before j early
  · obtain ⟨d, rfl⟩ := Nat.exists_eq_add_of_le late
    rw [run_add]
    exact safe d (by omega)

/-- The engine makes its own run on the inputs it is shown. -/
theorem engine_run (n : ℕ) :
    (run Player.clock p input n).engine = run Engine.clock p.engine (p.shown input) n :=
  eq_run (x := fun n => (run Player.clock p input n).engine) (fun _ => rfl) n

theorem shown_quiet (fair : Fair input) (n : ℕ) : (p.shown input n).iReset = false := fair.quiet n

/-- Outside `S_RUN_IDLE` the player waits. -/
theorem script_kept {k : ℕ} (busy : ∀ n < k, (run Player.clock p input n).engine.st ≠ .runIdle) :
    (run Player.clock p input k).script = p.script := by
  induction k with
  | zero => rfl
  | succ k ih =>
    rw [run_succ, Player.clock, if_neg fun ticks => busy k (by omega) ticks.1]
    exact ih fun n bound => busy n (by omega)

/-- Painting ends in `S_RUN_IDLE` with the same game and the same samples left. -/
theorem painting_player (fair : Fair input) (painting : p.engine.Painting) :
    ∃ k, (∀ n < k, (run Player.clock p input n).engine.st ≠ .loseMsgDraw) ∧
      (run Player.clock p input k).engine.st = .runIdle ∧
      p.engine.SameGame (run Player.clock p input k).engine ∧
      (run Player.clock p input k).script = p.script := by
  obtain ⟨going, done, same⟩ := Engine.painting_run (shown_quiet (p := p) fair) painting
  simp only [← engine_run] at going done same
  have busy : ∀ n < p.engine.clocksLeft, ∀ st, st = .runIdle ∨ st = .loseMsgDraw →
      (run Player.clock p input n).engine.st ≠ st := by
    rintro n bound st other here
    rcases going n bound with ⟨draw, -⟩ | ⟨draw | draw, -⟩ <;> rcases other with rfl | rfl <;>
      simp [here] at draw
  exact ⟨_, fun n bound => busy n bound _ (Or.inr rfl), done, same,
    script_kept fun n bound => busy n bound _ (Or.inl rfl)⟩

/-- From `S_RUN_IDLE` the next physics tick comes, and nothing changes before. -/
theorem tick_player (fair : Fair input) (here : p.engine.st = .runIdle) :
    ∃ k, (∀ n ≤ k, (run Player.clock p input n).engine.st = .runIdle) ∧
      p.engine.SameGame (run Player.clock p input k).engine ∧
      (run Player.clock p input k).script = p.script ∧
      (run Player.clock p input k).engine.Ticks ((run Player.clock p input k).shows (input k)) := by
  obtain ⟨m, -, ready⟩ := fair.often 0
  have first : ∃ m, Ready (input m) := ⟨m, ready⟩
  have waits : ∀ n ≤ Nat.find first, (run Player.clock p input n).engine.st = .runIdle ∧
      p.engine.SameGame (run Player.clock p input n).engine ∧
      (run Player.clock p input n).script = p.script := by
    intro n
    induction n with
    | zero => exact fun _ => ⟨here, .refl _, rfl⟩
    | succ n ih =>
      intro bound
      obtain ⟨idle, same, script⟩ := ih (by omega)
      have still : ¬ (run Player.clock p input n).engine.Ticks
          ((run Player.clock p input n).shows (input n)) :=
        fun ticks => Nat.find_min first bound ticks.2.2
      obtain ⟨step, idle'⟩ := Engine.idle_clock
        (i := (run Player.clock p input n).shows (input n)) (fair.quiet n) idle still
      rw [run_succ]
      exact ⟨idle', same.trans step, by rw [Player.clock, if_neg still]; exact script⟩
  obtain ⟨idle, same, script⟩ := waits _ le_rfl
  exact ⟨_, fun n bound => (waits n bound).1, same, script, idle, fair.quiet _, Nat.find_spec first⟩

/-- A player whose samples win the remaining game wins the run. -/
theorem player_wins {script : List Sample} (fair : Fair input) (here : p.engine.st = .runIdle)
    (rest : p.script = script)
    (wins : Wins p.engine.level p.engine.layout p.engine.motion script) :
    Victory (run Player.clock p input) := by
  induction script generalizing p input with
  | nil => exact wins.elim
  | cons s script ih =>
    obtain ⟨k, idle, same, kept, ticks⟩ := tick_player fair here
    have shown : (run Player.clock p input k).shows (input k) =
        { input k with iAx := s.1, iAy := s.2 } := by
      rw [Player.shows, kept, rest]
      rfl
    have popped : (run Player.clock p input (k + 1)).script = script := by
      rw [run_succ, Player.clock, if_pos ticks, kept, rest]
      rfl
    have ticked : Engine.Ticked _ _ (run Player.clock p input (k + 1)).engine := ticks.clock
    rw [shown, same.level, same.layout, same.motion] at ticked
    obtain ⟨safe, later⟩ := wins
    have state := ticked.next
    rw [same.layout, if_neg (by simp [safe])] at state
    have quiet : ∀ n < k + 1, (run Player.clock p input n).engine.st ≠ .loseMsgDraw := by
      intro n bound
      simp [idle n (by omega)]
    rcases Bool.eq_false_or_eq_true (hitRect _ _ goal) with won | short
    · rw [if_pos won] at state
      refine ⟨k + 1, state, fun n bound => ?_⟩
      rcases Nat.lt_or_eq_of_le bound with before | rfl
      · exact quiet n before
      · simp [state]
    · have further := later.resolve_left (by simp [short])
      rw [if_neg (by simp [short])] at state
      obtain ⟨c, painted, idle', same', kept'⟩ := painting_player (fair.later (k + 1))
        (Or.inr ⟨Or.inl state, ticked.inScan state⟩)
      refine Victory.later quiet (Victory.later painted ?_)
      refine ih ((fair.later (k + 1)).later c) idle' (kept'.trans popped) ?_
      rw [same'.level, same'.layout, same'.motion, ticked.level, ticked.layout, ticked.motion,
        same.level, same.layout]
      exact further

end Runs

/-- From the clock that generates the level on, the engine paints and then waits to be played. -/
theorem generate_player {p : Player} {input : ℕ → EngineIn} (fair : Fair input)
    (here : p.engine.st = .levelGen) :
    (∀ n < fbSize + 26, (run Player.clock p input n).engine.st ≠ .loseMsgDraw) ∧
      (run Player.clock p input (fbSize + 26)).engine.st = .runIdle ∧
      Engine.Generated p.engine.level p.engine.lfsr (run Player.clock p input (fbSize + 26)).engine ∧
      (run Player.clock p input (fbSize + 26)).script = p.script := by
  obtain ⟨going, done, generated⟩ := Engine.levelGen_run (shown_quiet (p := p) fair) here
  simp only [← engine_run] at going done generated
  have busy : ∀ n < fbSize + 26, ∀ st, st = .runIdle ∨ st = .loseMsgDraw →
      (run Player.clock p input n).engine.st ≠ st := by
    rintro n bound st other there
    cases n with
    | zero => rcases other with rfl | rfl <;> simp [here] at there
    | succ n =>
      rcases going n (by omega) with ⟨draw, -⟩ | ⟨draw | draw, -⟩ <;>
        rcases other with rfl | rfl <;> simp [there] at draw
  exact ⟨fun n bound => busy n bound _ (Or.inr rfl), done, generated,
    script_kept fun n bound => busy n bound _ (Or.inl rfl)⟩

theorem wayToGoal_gainOutput (level : ℕ) {s : Sample} (member : s ∈ wayToGoal level) :
    GainOutput s.1 ∧ GainOutput s.2 := by
  simp only [wayToGoal, nudge, List.mem_append, List.mem_flatten, List.mem_replicate,
    List.mem_cons, List.not_mem_nil, or_false] at member
  have shape : s = up ∨ s = right ∨ s = down ∨ s = rest := by
    rcases member with h | ⟨_, ⟨_, rfl⟩, h⟩ | ⟨_, ⟨_, rfl⟩, h⟩ | h
    · tauto
    · simp only [List.mem_cons, List.not_mem_nil, or_false] at h
      tauto
    · simp only [List.mem_cons, List.not_mem_nil, or_false] at h
      tauto
    · tauto
  rcases shape with rfl | rfl | rfl | rfl
  · exact ⟨⟨0, rfl⟩, ⟨20, rfl⟩⟩
  · exact ⟨⟨20, rfl⟩, ⟨0, rfl⟩⟩
  · exact ⟨⟨0, rfl⟩, ⟨-20, rfl⟩⟩
  · exact ⟨⟨0, rfl⟩, ⟨0, rfl⟩⟩

/-- Played from the clock that generates the level, the way to the goal wins it. -/
theorem wayToGoal_victory {e : Engine} {input : ℕ → EngineIn} (fair : Fair input)
    (here : e.st = .levelGen) : Victory (run Player.clock ⟨e, wayToGoal e.level⟩ input) := by
  obtain ⟨quiet, idle, generated, script⟩ :=
    generate_player (p := ⟨e, wayToGoal e.level⟩) fair here
  refine Victory.later quiet (player_wins (fair.later _) idle script ?_)
  rw [generated.level, generated.layout, generated.motion]
  exact wayToGoal_wins e.level e.lfsr

/-- Whatever level is about to be generated from whatever LFSR value, there is a finite script of
gain stage outputs that wins it, shown at the physics ticks of any run without a reset. -/
theorem level_winnable {e : Engine} (here : e.st = .levelGen) :
    ∃ script : List Sample, (∀ s ∈ script, GainOutput s.1 ∧ GainOutput s.2) ∧
      ∀ input, Fair input → Victory (run Player.clock ⟨e, script⟩ input) := by
  exact ⟨wayToGoal e.level, fun s => wayToGoal_gainOutput e.level,
    fun input fair => wayToGoal_victory fair here⟩

/-- The ticks of the 25 Hz divider are fair. -/
theorem tickAt_fair : Fair fun n => ⟨false, false, 0, 0, true, tickAt n, false⟩ where
  quiet _ := rfl
  often n := by
    obtain ⟨m, tick, later⟩ := (Divider.tick_infinite (show 0 < tickDiv by decide)).exists_gt n
    exact ⟨m, later.le, rfl, tick, rfl⟩

/-- The first level after a hardware reset. -/
theorem level_winnable_first :
    ∃ script : List Sample, (∀ s ∈ script, GainOutput s.1 ∧ GainOutput s.2) ∧
      Victory (run Player.clock ⟨Framebuffer.coldBoard.engine.reset, script⟩
        fun n => ⟨false, false, 0, 0, true, tickAt n, false⟩) := by
  obtain ⟨script, outputs, wins⟩ := level_winnable (e := Framebuffer.coldBoard.engine.reset) rfl
  exact ⟨script, outputs, wins _ tickAt_fair⟩

end Telecran.Soundness.Winnable
