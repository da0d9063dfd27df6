import Telecran.Soundness.Progress
import Telecran.Soundness.Winnable

/-! # The level counter has no cap

The level register stays within its declared range exactly as long as no 999 wins come in a row,
and they can: every level can be won, so a player who never resets the game reaches level 1000.
-/

namespace Telecran.Soundness.LevelRange

open Machine Model Progress Winnable

/-- The level is always between 1 and 999 if and only if the streak never reaches 999. -/
theorem level_range_iff (e : Engine) (input : ℕ → EngineIn) :
    (∀ n, 1 ≤ (after e input n).level ∧ (after e input n).level ≤ 999) ↔
      ∀ n, streak e input n < 999 := by
  constructor
  · intro range n
    have counted := counted_after e input n
    by_cases quitting : Quitting (after e input n).st
    · rw [counted.quitting quitting]
      decide
    · have level := counted.level quitting
      have bound := (range n).2
      omega
  · intro short n
    induction n with
    | zero =>
      have first : (after e input 0).level = 1 := rfl
      omega
    | succ n ih =>
      cases (after e input n).clocked (input n) with
      | quit accepted same next =>
        rw [after_succ, same.level]
        exact ih
      | generate ignored here next generated last =>
        rw [after_succ, generated.level]
        exact ih
      | tick ignored ticks ticked last =>
        rw [after_succ, ticked.level]
        exact ih
      | expire ignored expires next level =>
        rw [← after_succ] at next
        have counted := (counted_after e input (n + 1)).level (by simp [Quitting, next])
        have bound := short (n + 1)
        omega
      | stay ignored busy stayed =>
        rw [after_succ, stayed.level]
        exact ih

/-! ## A player who wins every level -/

/-- The one second tick `n` clocks after the hardware reset. -/
def secTickAt (n : ℕ) : Bool := (Divider.after secDiv n).tick

/-- Clock `n` with the ticks of the dividers, a sample and no button pressed. -/
def timed (n : ℕ) (s : Sample) : EngineIn := ⟨false, false, s.1, s.2, true, tickAt n, secTickAt n⟩

/-- No reset, and physics ticks and seconds again and again. -/
structure Steady (input : ℕ → EngineIn) : Prop extends Fair input where
  seconds : ∀ n, ∃ m, n ≤ m ∧ (input m).secTick = true

theorem Steady.later {input : ℕ → EngineIn} (steady : Steady input) (k : ℕ) :
    Steady fun n => input (k + n) where
  toFair := steady.toFair.later k
  seconds n := by
    obtain ⟨m, far, tick⟩ := steady.seconds (k + n)
    exact ⟨m - k, by omega, by rwa [Nat.add_sub_cancel' (by omega)]⟩

theorem timed_steady (t : ℕ) (s : ℕ → Sample) : Steady fun n => timed (t + n) (s n) where
  quiet _ := rfl
  often n := by
    obtain ⟨m, tick, far⟩ := (Divider.tick_infinite (show 0 < tickDiv by decide)).exists_gt (t + n)
    have place : t + (m - t) = m := by omega
    exact ⟨m - t, by omega, rfl, by rw [place]; exact tick, rfl⟩
  seconds n := by
    obtain ⟨m, tick, far⟩ := (Divider.tick_infinite (show 0 < secDiv by decide)).exists_gt (t + n)
    have place : t + (m - t) = m := by omega
    exact ⟨m - t, by omega, by rw [place]; exact tick⟩

section Runs

variable {e : Engine} {input : ℕ → EngineIn}

private theorem quiet_ignores (quiet : ∀ n, (input n).iReset = false) (e : Engine) (n : ℕ) :
    e.accepts (input n) = false := by
  simp [Engine.accepts, quiet n]

/-- The run comes to generate level `number`. -/
def Reaches (number : ℕ) (e : Engine) (input : ℕ → EngineIn) : Prop :=
  ∃ k, (run Engine.clock e input k).st = .levelGen ∧ (run Engine.clock e input k).level = number

theorem Reaches.later {number : ℕ} (k : ℕ)
    (reaches : Reaches number (run Engine.clock e input k) fun n => input (k + n)) :
    Reaches number e input := by
  obtain ⟨j, here, level⟩ := reaches
  exact ⟨k + j, by rwa [run_add], by rwa [run_add]⟩

private theorem wait_ends (steady : Steady input) (waiting : e.st = .winMsgWait) :
    Reaches (e.level + 1) e input := by
  -- on the seconds still to be counted, and for each of them on the clocks until it comes
  induction seconds : e.waitS using Nat.strong_induction_on generalizing e input with
  | _ w ih =>
    obtain ⟨m, -, tick⟩ := steady.seconds 0
    induction m generalizing e input with
    | zero =>
      rcases Engine.wait_clock (i := input 0) (quiet_ignores steady.quiet e 0) (Or.inl waiting) with
        ⟨-, -, ended, level⟩ | ⟨same, level, counted⟩
      · exact ⟨1, ended, level.trans (by rw [Engine.restart, if_pos waiting])⟩
      · rw [if_pos tick] at counted
        refine Reaches.later 1 ?_
        rw [← level]
        exact ih _ (by omega) (steady.later 1) (same.trans waiting) rfl
    | succ m inner =>
      rcases Engine.wait_clock (i := input 0) (quiet_ignores steady.quiet e 0) (Or.inl waiting) with
        ⟨-, -, ended, level⟩ | ⟨same, level, counted⟩
      · exact ⟨1, ended, level.trans (by rw [Engine.restart, if_pos waiting])⟩
      · refine Reaches.later 1 ?_
        rw [← level]
        split_ifs at counted
        · exact ih _ (by omega) (steady.later 1) (same.trans waiting) rfl
        · refine inner (steady.later 1) (same.trans waiting) (by omega) ?_
          rwa [Nat.add_comm 1 m]

private theorem draw_ends (steady : Steady input) (drawing : e.st = .winMsgDraw)
    (bound : e.initAddr < fbSize) : Reaches (e.level + 1) e input := by
  induction words : fbSize - e.initAddr generalizing e input with
  | zero => omega
  | succ w ih =>
    obtain ⟨-, -, level, ⟨-, done⟩ | ⟨more, same, address⟩⟩ := Engine.message_clock (i := input 0)
      (quiet_ignores steady.quiet e 0) (show Engine.drawnBy e.st = _ by rw [drawing]; rfl)
    · refine Reaches.later 1 ?_
      rw [← level]
      exact wait_ends (steady.later 1) (by rw [drawing] at done; exact done)
    · refine Reaches.later 1 ?_
      rw [← level]
      have next : (run Engine.clock e input 1).initAddr = e.initAddr + 1 := address
      refine ih (steady.later 1) (same.trans drawing) ?_ (by omega)
      simp only [fbSize] at *
      omega

/-- The states from the generation of a level to its end. -/
def InGame (st : St) : Prop :=
  st = .levelGen ∨ st = .initDraw ∨ st = .runIdle ∨ st = .eraseBall ∨ st = .drawBall

private theorem afterPainting_inGame {st : St} (inGame : InGame st) :
    InGame (Engine.afterPainting st) := by
  rcases inGame with rfl | rfl | rfl | rfl | rfl <;> simp [InGame, Engine.afterPainting]

/-- Until it is won or lost, a game keeps its level. -/
private theorem game_clock {i : EngineIn} (quiet : i.iReset = false) (inGame : InGame e.st)
    (safe : (e.clock i).st ≠ .loseMsgDraw) :
    (InGame (e.clock i).st ∨ (e.clock i).st = .winMsgDraw) ∧ (e.clock i).level = e.level := by
  cases e.clocked i with
  | quit accepted same next => simp [Engine.accepts, quiet] at accepted
  | generate ignored here next generated last =>
    exact ⟨Or.inl (by simp [InGame, next]), generated.level⟩
  | tick ignored ticks ticked last =>
    refine ⟨?_, ticked.level⟩
    rw [ticked.next] at safe ⊢
    split_ifs at safe ⊢
    · exact absurd rfl safe
    · exact Or.inr rfl
    · simp [InGame]
  | expire ignored expires next level =>
    rcases expires.1 with here | here | here <;> simp [InGame, here] at inGame
  | stay ignored busy stayed =>
    refine ⟨Or.inl ?_, stayed.level⟩
    rcases stayed.next with same | done
    · rwa [same]
    · rw [done]
      exact afterPainting_inGame inGame

private theorem game_run (quiet : ∀ n, (input n).iReset = false) (inGame : InGame e.st) {n : ℕ}
    (safe : ∀ k ≤ n, (run Engine.clock e input k).st ≠ .loseMsgDraw)
    (short : ∀ k < n, (run Engine.clock e input k).st ≠ .winMsgDraw) :
    (InGame (run Engine.clock e input n).st ∨ (run Engine.clock e input n).st = .winMsgDraw) ∧
      (run Engine.clock e input n).level = e.level := by
  induction n with
  | zero => exact ⟨Or.inl inGame, rfl⟩
  | succ n ih =>
    obtain ⟨playing, level⟩ := ih (fun k bound => safe k (by omega)) (fun k bound => short k (by omega))
    have before := playing.resolve_right (short n (by omega))
    obtain ⟨state, same⟩ := game_clock (quiet n) before (safe (n + 1) le_rfl)
    exact ⟨state, same.trans level⟩

end Runs

/-! ## The next level, and all levels -/

theorem shown_steady {p : Player} {input : ℕ → EngineIn} (steady : Steady input) :
    Steady (p.shown input) where
  quiet := steady.quiet
  often := steady.often
  seconds := steady.seconds

/-- The player who knows the way to the goal comes to the next level. -/
theorem level_up {e : Engine} {input : ℕ → EngineIn} (steady : Steady input)
    (here : e.st = .levelGen) (bound : e.initAddr < fbSize) :
    Reaches (e.level + 1) e (Player.shown ⟨e, wayToGoal e.level⟩ input) := by
  obtain ⟨n, won, safe⟩ := wayToGoal_victory steady.toFair here
  simp only [engine_run] at won safe
  have ends : ∃ n, (run Engine.clock e (Player.shown ⟨e, wayToGoal e.level⟩ input) n).st =
      .winMsgDraw := ⟨n, won⟩
  have steady' := shown_steady (p := ⟨e, wayToGoal e.level⟩) steady
  have early := Nat.find_min' ends won
  have level := (game_run steady'.quiet (Or.inl here) (fun k before => safe k (by omega))
    (fun k before => Nat.find_min ends before)).2
  have next := draw_ends (steady'.later (Nat.find ends)) (Nat.find_spec ends)
    (Engine.run_initAddr bound _ _)
  rw [level] at next
  exact next.later (Nat.find ends)

/-- Samples the gain stage can deliver. -/
def Delivered (s : Sample) : Prop := GainOutput s.1 ∧ GainOutput s.2

/-- A player shows samples of the script, or the one at rest. -/
private theorem shown_delivered {p : Player} {input : ℕ → EngineIn}
    (script : ∀ s ∈ p.script, Delivered s) (n : ℕ) :
    Delivered ((run Player.clock p input n).script.headD rest) := by
  have kept : ∀ s ∈ (run Player.clock p input n).script, Delivered s := by
    refine run_invariant (P := fun p : Player => ∀ s ∈ p.script, Delivered s) script ?_ n
    intro p i all s member
    rw [Player.clock] at member
    split_ifs at member
    · exact all s (List.mem_of_mem_tail member)
    · exact all s member
  cases left : (run Player.clock p input n).script with
  | nil => exact ⟨⟨0, rfl⟩, ⟨0, rfl⟩⟩
  | cons s script => exact kept s (by rw [left]; exact List.mem_cons_self ..)

/-- The run of the game with the real ticks, no button pressed and these samples. -/
def played (samples : ℕ → Sample) (n : ℕ) : Engine :=
  after Framebuffer.coldBoard.engine (fun k => timed k (samples k)) n

/-- A player who meets the game on clock `t` and knows the way to the goal. -/
def winner (samples : ℕ → Sample) (t : ℕ) : Player :=
  ⟨played samples t, wayToGoal (played samples t).level⟩

/-- The samples before clock `t`, and from there those of the winner. -/
def extended (samples : ℕ → Sample) (t m : ℕ) : Sample :=
  if m < t then samples m
  else (run Player.clock (winner samples t) (fun n => timed (t + n) rest) (m - t)).script.headD rest

private theorem extended_delivered {samples : ℕ → Sample} (delivered : ∀ n, Delivered (samples n))
    (t m : ℕ) : Delivered (extended samples t m) := by
  unfold extended
  split_ifs
  · exact delivered m
  · exact shown_delivered (fun s => wayToGoal_gainOutput _) _

private theorem extended_played (samples : ℕ → Sample) (t k : ℕ) :
    played (extended samples t) (t + k) =
      run Engine.clock (played samples t)
        ((winner samples t).shown fun n => timed (t + n) rest) k := by
  have before : played (extended samples t) t = played samples t :=
    run_congr fun m early => by rw [extended, if_pos early]
  rw [← before, played, after, run_add]
  refine run_congr fun j _ => ?_
  rw [extended, if_neg (by omega), Nat.add_sub_cancel_left]
  rfl

/-- Every level is reached with suitable samples. -/
theorem reaches_level {number : ℕ} (positive : 1 ≤ number) :
    ∃ samples : ℕ → Sample, (∀ n, Delivered (samples n)) ∧
      ∃ t, (played samples t).st = .levelGen ∧ (played samples t).level = number := by
  induction number, positive using Nat.le_induction with
  | base => exact ⟨fun _ => rest, fun _ => ⟨⟨0, rfl⟩, ⟨0, rfl⟩⟩, 0, rfl, rfl⟩
  | succ number positive ih =>
    obtain ⟨samples, delivered, t, here, level⟩ := ih
    have bound : (played samples t).initAddr < fbSize :=
      Engine.run_initAddr (Nat.zero_lt_succ _) _ t
    obtain ⟨k, generating, reached⟩ := level_up (timed_steady t fun _ => rest) here bound
    have next := extended_played samples t k
    refine ⟨extended samples t, extended_delivered delivered t, t + k, ?_, ?_⟩
    · rw [next]
      exact generating
    · rw [next, ← level]
      exact reached

/-- With the ticks of the dividers, no button pressed and suitable tilts of the board, level 1000
comes up after a hardware reset. -/
theorem level_leaves_range : ∃ samples : ℕ → Sample, (∀ n, Delivered (samples n)) ∧
    ∃ n, (played samples n).level = 1000 := by
  obtain ⟨samples, delivered, t, -, level⟩ := reaches_level (show 1 ≤ 1000 by decide)
  exact ⟨samples, delivered, t, level⟩

end Telecran.Soundness.LevelRange
