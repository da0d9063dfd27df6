import Telecran.Model.I2cMaster

/-! # The single byte master never makes a STOP

Every transmitted byte gets its ninth pulse with SDA released, the received byte gets none, and the
two lines are released on the same tick at the end of a transaction, so that no STOP ever appears on
the bus.
-/

namespace Telecran.Soundness.MasterFraming

open Machine Bus Model I2cMaster

/-! ## Levels and states -/

/-- The levels a state of the FSM finds on the lines. -/
def Lines (s : Fsm) : Prop :=
  match s.st with
  | .idle | .start0 | .done => s.level = ⟨true, true⟩
  | .start1 => s.level = ⟨true, false⟩
  | .sendByte2 | .recvByte2 => s.level.scl = true
  | .stop1 => s.level = ⟨false, false⟩
  | .sendByte0 | .sendByte1 | .recvByte0 | .recvByte1 | .stop0 => s.level.scl = false

private theorem lines_acked {s : Fsm} (i : Input) (low : s.level.scl = false) :
    Lines (s.acked i) ∧ (s.acked i).level.scl = false := by
  unfold Fsm.acked
  split_ifs <;> exact ⟨low, low⟩

private theorem lines_tick {s : Fsm} (i : Input) (lines : Lines s) : Lines (s.tick i) := by
  unfold Fsm.tick
  cases here : s.st with
  | idle => cases start : i.iStart <;> simp [Lines, Fsm.level]
  | start0 => rfl
  | start1 => rfl
  | sendByte0 => rfl
  | sendByte1 => rfl
  | sendByte2 =>
    dsimp only
    split_ifs
    · exact (lines_acked i rfl).1
    · rfl
    · rfl
  | recvByte0 => rfl
  | recvByte1 => rfl
  | recvByte2 =>
    dsimp only
    split_ifs <;> rfl
  | stop0 => rfl
  | stop1 => rfl
  | done =>
    rw [Lines, here] at lines
    exact lines

/-- SDA rises while SCL is high before and after the tick. -/
def StopAt (x : ℕ → Fsm) (m : ℕ) : Prop :=
  (x m).level = ⟨true, false⟩ ∧ (x (m + 1)).level = ⟨true, true⟩

/-- A pulse of SCL ends. -/
private theorem pulse_falls {s : Fsm} (i : Input) (here : s.st = .sendByte2 ∨ s.st = .recvByte2) :
    (s.tick i).level.scl = false := by
  rcases here with here | here <;> simp only [Fsm.tick, here] <;> split_ifs
  · exact (lines_acked i rfl).2
  all_goals rfl

/-- The states that find SCL high and SDA low pull SCL low. -/
private theorem tick_not_stop {s : Fsm} (i : Input) (lines : Lines s) :
    ¬ (s.level = ⟨true, false⟩ ∧ (s.tick i).level = ⟨true, true⟩) := by
  rintro ⟨before, after⟩
  have falls : (s.tick i).level.scl = false := by
    rw [Lines] at lines
    cases here : s.st <;> simp [here, before] at lines
    case start1 => simp [Fsm.tick, here, Fsm.level]
    case sendByte2 => exact pulse_falls i (.inl here)
    case recvByte2 => exact pulse_falls i (.inr here)
  rw [after] at falls
  exact Bool.noConfusion falls

/-! ## Bytes -/

/-- The last bit of a byte is about to end. -/
def SentByte (s : Fsm) : Prop := s.st = .sendByte2 ∧ s.phaseIsAck = false ∧ s.bitI = 0
def ReceivedByte (s : Fsm) : Prop := s.st = .recvByte2 ∧ s.bitI = 0

instance (s : Fsm) : Decidable (ReceivedByte s) := inferInstanceAs (Decidable (_ ∧ _))

/-- The next pulse of SCL after tick `m` is a whole one with SDA released throughout. -/
def Acknowledged (x : ℕ → Fsm) (m : ℕ) : Prop :=
  ∃ p q, m < p ∧ p ≤ q ∧ (∀ j, m < j → j < p → (x j).level.scl = false) ∧
    (∀ j, p ≤ j → j ≤ q → (x j).level = ⟨true, true⟩) ∧ (x (q + 1)).level.scl = false

section Runs

variable {x : ℕ → Fsm} {i : ℕ → Input}

private theorem sent_acknowledged (law : ∀ k, x (k + 1) = (x k).tick (i k)) {m : ℕ}
    (sent : SentByte (x m)) : Acknowledged x m := by
  obtain ⟨here, data, last⟩ := sent
  have first : x (m + 1) = { x m with st := .sendByte0, sclOe := true, phaseIsAck := true } := by
    rw [law, Fsm.tick, here]
    simp [data, last]
  have second : x (m + 2) = { x (m + 1) with st := .sendByte1, sclOe := true, sdaOe := false } := by
    rw [law, first]
    rfl
  have third : (x (m + 3)).st = .sendByte2 ∧ (x (m + 3)).level = ⟨true, true⟩ := by
    rw [law, second]
    exact ⟨rfl, rfl⟩
  refine ⟨m + 3, m + 3, by omega, le_rfl, ?_, ?_, ?_⟩
  · intro j low high
    obtain rfl | rfl : j = m + 1 ∨ j = m + 2 := by omega
    · rw [first]
      rfl
    · rw [second]
      rfl
  · intro j low high
    obtain rfl : j = m + 3 := by omega
    exact third.2
  · rw [law]
    exact pulse_falls _ (.inl third.1)

/-- Between transactions SCL is not pulled low. -/
def Free (s : Fsm) : Prop := s.st = .done ∨ s.st = .idle ∨ s.st = .start0

private theorem free_tick {s : Fsm} (i : Input) (lines : Lines s) (free : Free s) :
    (s.tick i).level.scl = true ∧ (Free (s.tick i) ∨ (s.tick i).level.sda = false) := by
  rcases free with here | here | here
  · rw [Lines, here] at lines
    have next : s.tick i = { s with st := .idle } := by rw [Fsm.tick, here]
    rw [next]
    exact ⟨congrArg Level.scl lines, .inl (.inr (.inl rfl))⟩
  · cases start : i.iStart <;> simp [Fsm.tick, here, start, Fsm.level, Free]
  · simp [Fsm.tick, here, Fsm.level]

/-- Until SDA falls the lines stay free. -/
private theorem free_until (law : ∀ k, x (k + 1) = (x k).tick (i k)) (lines : ∀ k, Lines (x k))
    {a q : ℕ} (free : Free (x a)) (high : ∀ j, a ≤ j → j ≤ q → (x j).level = ⟨true, true⟩) {j : ℕ}
    (later : a ≤ j) (bound : j ≤ q) : Free (x j) := by
  induction j, later using Nat.le_induction with
  | base => exact free
  | succ j later ih =>
    have next := free_tick (i j) (lines j) (ih (by omega))
    rw [← law] at next
    apply next.2.resolve_right
    intro pulled
    rw [high (j + 1) (by omega) bound] at pulled
    exact Bool.noConfusion pulled

/-- After the received byte both lines are pulled low and released together. -/
private theorem received_released (law : ∀ k, x (k + 1) = (x k).tick (i k)) {m : ℕ}
    (received : ReceivedByte (x m)) : (x (m + 1)).level.scl = false ∧ (x (m + 2)).level.scl = false ∧
      (x (m + 3)).level.scl = true ∧ Free (x (m + 3)) := by
  obtain ⟨here, last⟩ := received
  have first : x (m + 1) = { x m with st := .stop0, sclOe := true } := by
    rw [law, Fsm.tick, here]
    simp [last]
  have second : x (m + 2) = { x (m + 1) with st := .stop1, sclOe := true, sdaOe := true } := by
    rw [law, first]
    rfl
  have third : x (m + 3) = { x (m + 2) with st := .done, sclOe := false, sdaOe := false } := by
    rw [law, second]
    rfl
  rw [third, second, first]
  exact ⟨rfl, rfl, rfl, .inl rfl⟩

/-- SCL then stays high until a START, so the received byte gets no pulse of its own. -/
private theorem received_not_acknowledged (law : ∀ k, x (k + 1) = (x k).tick (i k))
    (lines : ∀ k, Lines (x k)) {m : ℕ} (received : ReceivedByte (x m)) : ¬ Acknowledged x m := by
  obtain ⟨first, second, third, free⟩ := received_released law received
  rintro ⟨p, q, later, order, low, high, falls⟩
  have rising := congrArg Level.scl (high p le_rfl order)
  have here : p = m + 3 := by
    by_contra other
    obtain rfl | rfl | above : p = m + 1 ∨ p = m + 2 ∨ m + 3 < p := by omega
    · exact Bool.noConfusion (first.symm.trans rising)
    · exact Bool.noConfusion (second.symm.trans rising)
    · exact Bool.noConfusion ((low (m + 3) (by omega) above).symm.trans third)
  subst here
  have last := (free_tick (i q) (lines q) (free_until law lines free high order le_rfl)).1
  rw [← law, falls] at last
  exact Bool.noConfusion last

end Runs

/-! ## Transactions -/

/-- In the transaction accepted on tick `k` every byte is acknowledged, and a STOP ends it. -/
structure Framed (x : ℕ → Fsm) (k : ℕ) : Prop where
  bytes : ∀ m, k < m → (∀ j, k < j → j ≤ m → (x j).oBusy = true) →
    SentByte (x m) ∨ ReceivedByte (x m) → Acknowledged x m
  closed : ∃ m, k < m ∧ (∀ j, k < j → j ≤ m → (x j).oBusy = true) ∧ StopAt x m

private theorem lines_atTick (g : Adxl.Generics) (input : ℕ → Input) (k : ℕ) :
    Lines (atTick g input k) := by
  have start : Lines Fsm.reset := rfl
  rw [atTick_eq]
  exact run_invariant start (fun _ i => lines_tick i) k

private theorem not_stopAt (g : Adxl.Generics) (input : ℕ → Input) (m : ℕ) :
    ¬ StopAt (atTick g input) m := by
  rw [StopAt, atTick_succ]
  exact tick_not_stop _ (lines_atTick g input m)

private theorem not_framed (g : Adxl.Generics) (input : ℕ → Input) (k : ℕ) :
    ¬ Framed (atTick g input) k := by
  intro framed
  obtain ⟨m, -, -, stop⟩ := framed.closed
  exact not_stopAt g input m stop

/-- In every run each transmitted byte is acknowledged, no received byte is, and no STOP is ever
made, so that no transaction is framed. -/
theorem never_framed (g : Adxl.Generics) (input : ℕ → Input) :
    (∀ m, SentByte (atTick g input m) → Acknowledged (atTick g input) m) ∧
    (∀ m, ReceivedByte (atTick g input m) → ¬ Acknowledged (atTick g input) m) ∧
    (∀ m, ¬ StopAt (atTick g input) m) ∧ ∀ k, ¬ Framed (atTick g input) k :=
  ⟨fun _ => sent_acknowledged (atTick_succ g input),
    fun _ => received_not_acknowledged (atTick_succ g input) (lines_atTick g input),
    not_stopAt g input, not_framed g input⟩

/-! ## A read from the device at address 0x1D -/

/-- The default generics, one START pulse, and a device that acknowledges its address and sends
nothing but ones. -/
def query (n : ℕ) : Input := ⟨decide (n = 125), true, 0x1D, 0, decide (n ≠ 125 * 29)⟩

theorem tickInput_query (j : ℕ) : tickInput Adxl.defaults query j =
    ⟨decide (j = 0), true, 0x1D, 0, decide (j ≠ 28)⟩ := by
  have period : Adxl.defaults.cDiv = 125 := by decide
  have once : 125 * (j + 1) = 125 ↔ j = 0 := by omega
  have ninth : 125 * (j + 1) = 125 * 29 ↔ j = 28 := by omega
  simp only [tickInput, query, period, once, ninth, Ne]

/-- The byte is received on tick 53. Then both lines are low, and both are released on tick 55. -/
theorem query_not_framed :
    (atTick Adxl.defaults query 0).st = .idle ∧ (tickInput Adxl.defaults query 0).iStart = true ∧
      ReceivedByte (atTick Adxl.defaults query 53) ∧
      (List.range 4).map (fun j => (atTick Adxl.defaults query (54 + j)).level) =
        [⟨false, true⟩, ⟨false, false⟩, ⟨true, true⟩, ⟨true, true⟩] ∧
      (atTick Adxl.defaults query 56).oDone = true ∧ ¬ Framed (atTick Adxl.defaults query) 0 := by
  have ticks : ∀ k, atTick Adxl.defaults query k =
      run Fsm.tick .reset (fun j => ⟨decide (j = 0), true, 0x1D, 0, decide (j ≠ 28)⟩) k := by
    intro k
    rw [atTick_eq, funext tickInput_query]
  refine ⟨?_, ?_, ?_, ?_, ?_, ?_⟩
  · rw [ticks]
    rfl
  · rw [tickInput_query]
    rfl
  · rw [ticks]
    decide
  · simp only [ticks]
    decide
  · rw [ticks]
    decide
  · exact not_framed Adxl.defaults query 0

end Telecran.Soundness.MasterFraming
