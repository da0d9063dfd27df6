import Telecran.Model.I2cMaster

/-! # What the single byte master puts on the bus

The START and a transmitted byte with its acknowledge, tick by tick: the levels the master leaves on
the lines and the registers it changes.
-/

namespace Telecran.Model.I2cMaster.Fsm

open Machine Bus

/-- The FSM with the levels after each tick. -/
def master : Mealy Fsm Input Level where
  step := tick
  emit s i := [(s.tick i).level]

/-- The transaction is neither being stopped nor over. -/
def Going (s : Fsm) : Prop := s.st ≠ .stop0 ∧ s.st ≠ .stop1 ∧ s.st ≠ .done

instance (s : Fsm) : Decidable s.Going := inferInstanceAs (Decidable (_ ∧ _))

variable {s : Fsm} (input : ℕ → Input)

/-- Three ticks in a row. -/
theorem three_ticks {u v t : Fsm} {levels : List Level} (first : s.tick (input 0) = u)
    (second : u.tick (input 1) = v) (third : v.tick (input 2) = t) (going : s.Going) (going' : u.Going)
    (going'' : v.Going) (shape : [u.level, v.level, t.level] = levels) :
    master.Segment Going s input 3 levels t := by
  subst first second third shape
  exact .three rfl rfl rfl going going' going'' rfl rfl rfl

/-! ## START -/

/-- The FSM at the start of the address byte. -/
def addressed (s : Fsm) (i : Input) : Fsm :=
  { s with
    st := .sendByte0, sclOe := true, sdaOe := true
    sh := i.addrByte, bitI := 7, ackerrI := false, phaseIsAck := false }

theorem idle_tick {i : Input} (call : s.st = .idle) (start : i.iStart = true) : s.tick i =
    { s with st := .start0, sclOe := false, sdaOe := false, ackerrI := false, phaseIsAck := false } := by
  simp only [tick, call, start, if_true]

theorem start_run (call : s.st = .idle) (start : (input 0).iStart = true) :
    master.Segment Going s input 3 startWave (s.addressed (input 2)) :=
  three_ticks input (idle_tick call start) rfl rfl (by simp [Going, call]) (by simp [Going])
    (by simp [Going, tick]) rfl

/-! ## Transmission -/

theorem bit_run {i : ℕ} (call : s.st = .sendByte0) (data : s.phaseIsAck = false) (index : s.bitI = i + 1) :
    ∃ d, master.Segment Going s input 3 (pulse (s.sh.getLsbD (i + 1)) (s.sh.getLsbD (i + 1)))
      { s with sclOe := true, sdaOe := !s.sh.getLsbD (i + 1), bitI := i, sdaSample := d } := by
  cases s
  subst call data index
  refine ⟨_, three_ticks input rfl rfl rfl ?_ ?_ ?_ ?_⟩ <;> simp [tick, Going, level, pulse]

/-- The last bit is followed by the acknowledge. -/
theorem last_run (call : s.st = .sendByte0) (data : s.phaseIsAck = false) (index : s.bitI = 0) :
    ∃ d, master.Segment Going s input 3 (pulse (s.sh.getLsbD 0) (s.sh.getLsbD 0))
      { s with sclOe := true, sdaOe := !s.sh.getLsbD 0, phaseIsAck := true, sdaSample := d } := by
  cases s
  subst call data index
  refine ⟨_, three_ticks input rfl rfl rfl ?_ ?_ ?_ ?_⟩ <;> simp [tick, Going, level, pulse]

theorem bits_run {i : ℕ} (call : s.st = .sendByte0) (data : s.phaseIsAck = false) (index : s.bitI = i) :
    ∃ d, master.Segment Going s input (3 * (i + 1)) (pulses (bitsFrom s.sh i))
      { s with
        sclOe := true, sdaOe := !s.sh.getLsbD 0, bitI := 0, phaseIsAck := true, sdaSample := d } := by
  induction i generalizing s input with
  | zero =>
    obtain ⟨d, last⟩ := last_run input call data index
    refine ⟨d, ?_⟩
    simpa [pulses, bitsFrom, index] using last
  | succ i ih =>
    have length : 3 * (i + 1 + 1) = 3 + 3 * (i + 1) := by ring
    obtain ⟨d, first⟩ := bit_run input call data index
    obtain ⟨d', rest⟩ := ih (fun k => input (3 + k))
      (s := { s with sclOe := true, sdaOe := !s.sh.getLsbD (i + 1), bitI := i, sdaSample := d })
      call data rfl
    rw [length]
    exact ⟨d', first.trans rest⟩

/-! ## Acknowledge -/

/-- On the tick that looks at the acknowledge `d`. -/
def acking (s : Fsm) (d : Bool) : Fsm :=
  { s with
    st := .sendByte2, sclOe := true, sdaOe := false, bitI := 0, phaseIsAck := true, sdaSample := d }

theorem acked_level (s : Fsm) (i : Input) : (s.acked i).level = s.level := by
  unfold acked
  split_ifs <;> rfl

theorem acked_nack {i : Input} (nack : s.sdaSample = true) :
    s.acked i = { s with ackerrI := true, st := .stop0 } := if_pos nack

/-- The shift register holds the address byte of a write: the data byte follows. -/
theorem acked_same {i : Input} (ack : s.sdaSample = false) (write : i.iRw = false)
    (same : s.sh = i.addrByte) : s.acked i =
      { s with sh := i.iWdata, bitI := 7, phaseIsAck := false, st := .sendByte0 } := by
  simp [acked, ack, write, same]

theorem acked_other {i : Input} (ack : s.sdaSample = false) (other : s.sh ≠ i.addrByte) :
    s.acked i = { s with st := .stop0 } := by
  simp [acked, ack, other]

theorem ack_run (call : s.st = .sendByte0) (ack : s.phaseIsAck = true) (index : s.bitI = 0) :
    master.Segment Going s input 3 (pulse true true) ((s.acking (input 1).slave).acked (input 2)) := by
  refine three_ticks input rfl rfl ?_ (by simp [Going, call]) ?_ ?_ ?_
  · cases s
    subst call ack index
    simp [tick, sdaIn, acking]
  · simp [tick, Going, call]
  · simp [tick, Going, call]
  · rw [acked_level]
    simp [tick, call, ack, level, acking, pulse]

/-- A byte and its acknowledge. -/
def frameWave (byte : BitVec 8) : List Level := pulses (bitsFrom byte 7 ++ [true])

theorem frame_run (call : s.st = .sendByte0) (data : s.phaseIsAck = false) (index : s.bitI = 7) :
    master.Segment Going s input 27 (frameWave s.sh) ((s.acking (input 25).slave).acked (input 26)) := by
  obtain ⟨d, bits⟩ := bits_run input call data index
  have ack := ack_run (fun k => input (24 + k)) (s := { s with
    sclOe := true, sdaOe := !s.sh.getLsbD 0, bitI := 0, phaseIsAck := true, sdaSample := d }) call rfl rfl
  have whole := bits.trans ack
  have shape : pulses (bitsFrom s.sh 7) ++ pulse true true = frameWave s.sh := by
    simp [frameWave, pulses]
  rw [shape] at whole
  exact whole

/-- START, the address byte and its acknowledge, up to the decision what follows. -/
theorem address_run (call : s.st = .idle) (start : (input 0).iStart = true) :
    master.Segment Going s input 30 (startWave ++ frameWave (input 2).addrByte)
      (((s.addressed (input 2)).acking (input 28).slave).acked (input 29)) :=
  (start_run input call start).trans
    (frame_run (s := s.addressed (input 2)) (fun k => input (3 + k)) rfl rfl rfl)

/-! ## STOP -/

/-- SDA and SCL are released on the same tick. -/
theorem stop_run (call : s.st = .stop0) :
    (run tick s input 1).st = .stop1 ∧ (run tick s input 1).level = ⟨false, false⟩ ∧
      run tick s input 2 = { s with st := .done, sclOe := false, sdaOe := false } := by
  cases s
  subst call
  exact ⟨rfl, rfl, rfl⟩

/-! ## Busy -/

/-- Only a transaction that is over goes back to the idle state. -/
theorem tick_busy (i : Input) (busy : s.oBusy = true) : (s.tick i).st ≠ .idle := by
  rw [oBusy, Bool.and_eq_true, decide_eq_true_iff, decide_eq_true_iff] at busy
  unfold tick acked
  cases here : s.st with
  | idle => exact absurd here busy.1
  | done => exact absurd here busy.2
  | _ =>
    dsimp only
    try split_ifs
    all_goals simp

/-- The master is busy from the start on. -/
theorem going_busy {n k : ℕ} {out : List Level} {t : Fsm} (call : s.st = .idle)
    (start : (input 0).iStart = true) (sent : master.Segment Going s input n out t) (positive : 0 < k)
    (bound : k < n) : (run tick s input k).oBusy = true := by
  have undone : (run tick s input k).st ≠ .done := (sent.inside k bound).2.2
  induction k, positive using Nat.le_induction with
  | base =>
    rw [run_succ, run_zero, idle_tick call start]
    rfl
  | succ k positive ih =>
    have before := ih (by omega) (sent.inside k (by omega)).2.2
    have working := tick_busy (input k) before
    rw [run_succ] at undone ⊢
    rw [oBusy, decide_eq_true working, decide_eq_true undone, Bool.and_self]

end Telecran.Model.I2cMaster.Fsm
