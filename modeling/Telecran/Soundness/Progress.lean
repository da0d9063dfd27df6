import Telecran.Proofs.Transitions

/-! # The level counts the wins

Along every run from a hardware reset the level is one more than the number of wins since the last
loss, accepted reset or hardware reset, whenever the engine is outside its two quit states. An
accepted reset leaves the old level in its register until the quit message has run through, which
it always does before the next level is painted.
-/

namespace Telecran.Soundness.Progress

open Machine Model

section History

variable (e : Engine) (input : ℕ → EngineIn)

/-- The engine `n` clocks after a hardware reset that found it in state `e`. -/
def after (n : ℕ) : Engine := run Engine.clock e.reset input n

/-- The win message expires on clock `n`. -/
def Won (n : ℕ) : Prop := (after e input n).st = .winMsgWait ∧ (after e input (n + 1)).st = .levelGen

/-- The loss message expires on clock `n`. -/
def Lost (n : ℕ) : Prop := (after e input n).st = .loseMsgWait ∧ (after e input (n + 1)).st = .levelGen

/-- `i_reset` is sampled outside the quit states on clock `n`. -/
def Accepted (n : ℕ) : Prop := (after e input n).accepts (input n) = true

instance (n : ℕ) : Decidable (Won e input n) := inferInstanceAs (Decidable (_ ∧ _))
instance (n : ℕ) : Decidable (Lost e input n) := inferInstanceAs (Decidable (_ ∧ _))
instance (n : ℕ) : Decidable (Accepted e input n) := inferInstanceAs (Decidable (_ = _))

/-- Wins before clock `n` since the last loss, accepted reset or hardware reset. -/
def streak : ℕ → ℕ
  | 0 => 0
  | n + 1 =>
    if Won e input n then streak n + 1
    else if Lost e input n ∨ Accepted e input n then 0
    else streak n

/-- The whole quit sequence between the reset accepted on clock `n` and the end of the quit message
on clock `q`: every word is drawn in turn, then eleven seconds are counted. -/
structure QuitSequence (n q : ℕ) : Prop where
  drawn : ∀ k < fbSize, (after e input (n + 1 + k)).st = .quitMsgDraw ∧
    (after e input (n + 1 + k + 1)).request = ⟨true, k, quitScreen (addrX k) (addrY k)⟩
  long : n + 1 + fbSize ≤ q
  waited : ∀ k, n + 1 + fbSize ≤ k → k ≤ q → (after e input k).st = .quitMsgWait
  seconds : Nat.count (fun k => (input (n + 1 + fbSize + k)).secTick = true)
    (q - (n + 1 + fbSize)) = 10
  last : (input q).secTick = true
  ended : (after e input (q + 1)).st = .levelGen

end History

variable {e : Engine} {input : ℕ → EngineIn}

theorem after_succ (n : ℕ) : after e input (n + 1) = (after e input n).clock (input n) := rfl

/-! ## The level register -/

/-- The quit states. -/
def Quitting (st : St) : Prop := st = .quitMsgDraw ∨ st = .quitMsgWait

/-- Outside the quit states the level is one more than the streak, and a quit ends the streak. -/
structure Counted (e : Engine) (wins : ℕ) : Prop where
  level : ¬ Quitting e.st → e.level = 1 + wins
  quitting : Quitting e.st → wins = 0

theorem streak_kept {n : ℕ} (going : (after e input (n + 1)).st ≠ .levelGen)
    (ignored : (after e input n).accepts (input n) = false) :
    streak e input (n + 1) = streak e input n := by
  rw [streak, if_neg (fun won => going won.2), if_neg]
  rintro (lost | accepted)
  · exact going lost.2
  · exact absurd (ignored.symm.trans accepted) (by simp)

private theorem expire_counted {n : ℕ} (counted : Counted (after e input n) (streak e input n))
    (ignored : (after e input n).accepts (input n) = false)
    (expires : (after e input n).Expires (input n))
    (next : (after e input (n + 1)).st = .levelGen)
    (level : (after e input (n + 1)).level = (after e input n).restart) :
    Counted (after e input (n + 1)) (streak e input (n + 1)) := by
  refine ⟨fun _ => ?_, fun quitting => by simp [Quitting, next] at quitting⟩
  have notAccepted : ¬ Accepted e input n := by simp [Accepted, ignored]
  rw [level, Engine.restart, streak]
  have other {st st' : St} (here : (after e input n).st = st) (apart : st ≠ st') :
      ¬ (after e input n).st = st' := fun there => apart (here.symm.trans there)
  rcases expires.1 with won | lost | quit
  · rw [if_pos won, if_pos ⟨won, next⟩, counted.level (by simp [Quitting, won])]
    omega
  · rw [if_neg (other lost (by simp)), if_neg (fun won => other lost (by simp) won.1),
      if_pos (Or.inl ⟨lost, next⟩)]
  · rw [if_neg (other quit (by simp)), if_neg (fun won => other quit (by simp) won.1), if_neg,
      counted.quitting (Or.inr quit)]
    rintro (lost | accepted)
    · exact other quit (by simp) lost.1
    · exact notAccepted accepted

private theorem afterPainting_quitting (st : St) :
    (Quitting (Engine.afterPainting st) ↔ Quitting st) ∧
      (st ≠ .levelGen → Engine.afterPainting st ≠ .levelGen) := by
  cases st <;> simp [Quitting, Engine.afterPainting]

private theorem initDraw_of_afterPainting {st : St} (drawing : Engine.afterPainting st = .initDraw) :
    st = .initDraw := by
  cases st <;> simp [Engine.afterPainting] at drawing

theorem counted_succ {n : ℕ} (counted : Counted (after e input n) (streak e input n)) :
    Counted (after e input (n + 1)) (streak e input (n + 1)) := by
  cases (after e input n).clocked (input n) with
  | quit accepted same next =>
    rw [← after_succ] at next
    refine ⟨fun going => absurd (Or.inl next) going, fun _ => ?_⟩
    rw [streak, if_neg]
    · exact if_pos (Or.inr accepted)
    · rintro ⟨-, generating⟩
      simp [next] at generating
  | generate ignored here next generated last =>
    rw [← after_succ] at next generated
    rw [streak_kept (by simp [next]) ignored]
    refine ⟨fun _ => ?_, fun quitting => by simp [Quitting, next] at quitting⟩
    rw [generated.level, counted.level (by simp [Quitting, here])]
  | tick ignored ticks ticked last =>
    rw [← after_succ] at ticked
    have next := ticked.next
    have going : ¬ Quitting (after e input (n + 1)).st ∧ (after e input (n + 1)).st ≠ .levelGen := by
      rw [next]
      split_ifs <;> simp [Quitting]
    rw [streak_kept going.2 ignored]
    refine ⟨fun _ => ?_, fun quitting => absurd quitting going.1⟩
    rw [ticked.level, counted.level (by simp [Quitting, ticks.1])]
  | expire ignored expires next level => exact expire_counted counted ignored expires next level
  | stay ignored busy stayed =>
    rw [← after_succ] at stayed
    obtain ⟨quits, generates⟩ := afterPainting_quitting (after e input n).st
    have states : (Quitting (after e input (n + 1)).st ↔ Quitting (after e input n).st) ∧
        (after e input (n + 1)).st ≠ .levelGen := by
      rcases stayed.next with same | done
      · rw [same]
        exact ⟨Iff.rfl, busy⟩
      · rw [done]
        exact ⟨quits, generates busy⟩
    rw [streak_kept states.2 ignored]
    refine ⟨fun going => ?_, fun quitting => counted.quitting (states.1.mp quitting)⟩
    rw [stayed.level, counted.level (fun quitting => going (states.1.mpr quitting))]

theorem counted_after (e : Engine) (input : ℕ → EngineIn) (n : ℕ) :
    Counted (after e input n) (streak e input n) := by
  induction n with
  | zero => exact ⟨fun _ => rfl, fun _ => rfl⟩
  | succ n ih => exact counted_succ ih

/-! ## The quit sequence -/

/-- The drawing of the quit message, from the clock that accepts the reset on. -/
private theorem quit_drawing {n : ℕ} (accepted : Accepted e input n) :
    ∀ k < fbSize, (after e input (n + 1 + k)).st = .quitMsgDraw ∧
      (after e input (n + 1 + k)).initAddr = k ∧ (after e input (n + 1 + k)).waitS = 10 := by
  intro k
  induction k with
  | zero =>
    intro _
    have shape : after e input (n + 1) = { after e input n with
        weR := false, st := .quitMsgDraw, initAddr := 0, waitS := 10 } := by
      rw [after_succ, Engine.clock]
      exact if_pos accepted
    rw [Nat.add_zero, shape]
    exact ⟨rfl, rfl, rfl⟩
  | succ k ih =>
    intro bound
    obtain ⟨here, address, seconds⟩ := ih (by omega)
    obtain ⟨-, waitS, -, last | more⟩ := Engine.message_clock (i := input (n + 1 + k))
      (Engine.quit_ignores (Or.inl here) _) (by rw [here]; rfl)
    · simp only [fbSize] at *
      omega
    · rw [← Nat.add_assoc, after_succ]
      exact ⟨more.2.1.trans here, by rw [more.2.2, address], waitS.trans seconds⟩

private theorem quit_drawn {n : ℕ} (accepted : Accepted e input n) {k : ℕ} (bound : k < fbSize) :
    (after e input (n + 1 + k + 1)).request = ⟨true, k, quitScreen (addrX k) (addrY k)⟩ ∧
      (after e input (n + 1 + k + 1)).waitS = 10 ∧
      (k = fbSize - 1 → (after e input (n + 1 + k + 1)).st = .quitMsgWait) := by
  obtain ⟨here, address, seconds⟩ := quit_drawing accepted k bound
  have drawing : Engine.drawnBy (after e input (n + 1 + k)).st = some quitScreen := by
    rw [here]
    rfl
  obtain ⟨word, waitS, -, progress⟩ := Engine.message_clock (i := input (n + 1 + k))
    (Engine.quit_ignores (Or.inl here) _) drawing
  rw [address] at word progress
  rw [after_succ]
  refine ⟨word, waitS.trans seconds, fun last => ?_⟩
  rcases progress with ⟨-, done⟩ | ⟨more, -⟩
  · rw [done, here]
    rfl
  · exact absurd last more

/-- The seconds of the quit message, from its last word on: it is still waiting, or has expired. -/
private theorem quit_waiting {n : ℕ} (accepted : Accepted e input n) (k : ℕ) :
    ((∀ j ≤ k, (after e input (n + 1 + fbSize + j)).st = .quitMsgWait) ∧
      (after e input (n + 1 + fbSize + k)).waitS +
        Nat.count (fun j => (input (n + 1 + fbSize + j)).secTick = true) k = 10) ∨
      ∃ q < n + 1 + fbSize + k, QuitSequence e input n q := by
  induction k with
  | zero =>
    obtain ⟨-, waitS, done⟩ := quit_drawn accepted (k := fbSize - 1) (by simp)
    have first : n + 1 + (fbSize - 1) + 1 = n + 1 + fbSize := by
      rw [Nat.add_assoc (n + 1), Nat.sub_add_cancel (by simp)]
    rw [first] at waitS done
    refine Or.inl ⟨fun j only => ?_, ?_⟩
    · obtain rfl := Nat.le_zero.mp only
      exact done rfl
    · rw [Nat.count_zero, Nat.add_zero, Nat.add_zero]
      exact waitS
  | succ k ih =>
    rcases ih with ⟨waiting, seconds⟩ | ⟨q, before, done⟩
    · have here := waiting k le_rfl
      rcases Engine.wait_clock (i := input (n + 1 + fbSize + k)) (Engine.quit_ignores (Or.inr here) _)
        (Or.inr (Or.inr here)) with ⟨tick, zero, ended, -⟩ | ⟨same, -, counted⟩
      · rw [← after_succ] at ended
        refine Or.inr ⟨n + 1 + fbSize + k, by omega, ?_, by omega, ?_, ?_, tick, ended⟩
        · exact fun j bound => ⟨(quit_drawing accepted j bound).1, (quit_drawn accepted bound).1⟩
        · intro j first last
          obtain ⟨d, rfl⟩ := Nat.exists_eq_add_of_le first
          exact waiting d (by omega)
        · rw [Nat.add_sub_cancel_left]
          omega
      · rw [← after_succ] at same counted
        refine Or.inl ⟨fun j last => ?_, ?_⟩
        · rcases Nat.le_succ_iff.mp last with earlier | rfl
          · exact waiting j earlier
          · exact same.trans here
        · rw [Nat.count_succ, show n + 1 + fbSize + (k + 1) = n + 1 + fbSize + k + 1 from rfl]
          omega
    · exact Or.inr ⟨q, by omega, done⟩

/-- Whenever a level is painted its number is one more than the number of wins since the last loss,
accepted reset or hardware reset, it is played from the spawn at rest in the layout generated from
that number, and every reset accepted before has been followed by its whole quit sequence. -/
theorem level_progress (e : Engine) (input : ℕ → EngineIn) :
    (∀ n, (after e input n).st ≠ .initDraw → (after e input (n + 1)).st = .initDraw →
      (after e input n).st = .levelGen ∧
      (after e input (n + 1)).level = 1 + streak e input (n + 1) ∧
      (after e input (n + 1)).motion = ⟨40, 40, 0, 0⟩ ∧
      ((after e input (n + 1)).bXp = 40 ∧ (after e input (n + 1)).bYp = 40) ∧
      (after e input (n + 1)).layout =
        genLayout (after e input (n + 1)).level (after e input n).lfsr) ∧
    ∀ n, Accepted e input n → ∀ m, n < m → (after e input m).st = .initDraw →
      ∃ q < m, QuitSequence e input n q := by
  constructor
  · intro n before entered
    have counted := (counted_after e input (n + 1)).level (by simp [Quitting, entered])
    cases (after e input n).clocked (input n) with
    | quit accepted same next =>
      rw [after_succ, next] at entered
      cases entered
    | generate ignored here next generated last =>
      refine ⟨here, counted, generated.motion, last, ?_⟩
      rw [after_succ, generated.layout, generated.level]
    | tick ignored ticks ticked last =>
      rw [after_succ, ticked.next] at entered
      split_ifs at entered
    | expire ignored expires next level =>
      rw [after_succ, next] at entered
      cases entered
    | stay ignored busy stayed =>
      rw [after_succ] at entered
      rcases stayed.next with same | done
      · exact absurd (same.symm.trans entered) before
      · rw [done] at entered
        exact absurd (initDraw_of_afterPainting entered) before
  · intro n accepted m later entered
    rcases Nat.lt_or_ge m (n + 1 + fbSize) with early | late
    · obtain ⟨k, rfl⟩ := Nat.exists_eq_add_of_le (Nat.succ_le_of_lt later)
      have drawing := (quit_drawing accepted k (by omega)).1
      exact absurd (drawing.symm.trans entered) (by simp)
    · obtain ⟨k, rfl⟩ := Nat.exists_eq_add_of_le late
      rcases quit_waiting accepted k with ⟨waiting, -⟩ | done
      · exact absurd ((waiting k le_rfl).symm.trans entered) (by simp)
      · exact done

end Telecran.Soundness.Progress
