import Telecran.Proofs.MasterBytes

/-! # A byte that looks like the address is written again and again

The single byte master tells the address from the data by comparing the byte it has sent with the
address byte. When the data byte equals the address byte and is acknowledged, the master takes it
for the address and sends the data once more.
-/

namespace Telecran.Soundness.WriteOnce

open Machine Bus Model I2cMaster

/-- The inputs of a write are held until the master is done. -/
def Held (s : Fsm) (input : ℕ → Input) (a : BitVec 7) (w : BitVec 8) : Prop :=
  ∀ j, (∀ m ≤ j, (run Fsm.tick s input m).oDone = false) →
    (input j).iRw = false ∧ (input j).iAddr7 = a ∧ (input j).iWdata = w

/-- The slave's answer to byte `b`, on the tick of its ninth pulse. -/
def acked (input : ℕ → Input) (b : ℕ) : Bool := !(input (28 + 27 * b)).slave

/-- On its first `n` ticks the transaction sends a START and the bytes, and nothing else; then it
stops and is done, with or without an error. -/
structure Writes (s : Fsm) (input : ℕ → Input) (bytes : List (BitVec 8)) (n : ℕ) (error : Bool) :
    Prop where
  wave : Fsm.master.emitted s input n = startWave ++ bytes.flatMap Fsm.frameWave
  going : ∀ k < n, (run Fsm.tick s input k).Going
  stop0 : (run Fsm.tick s input n).st = .stop0
  stop1 : (run Fsm.tick s input (n + 1)).st = .stop1
  done : (run Fsm.tick s input (n + 2)).oDone = true
  ackerr : (run Fsm.tick s input (n + 2)).ackerrI = error

/-- The address byte and, if it is acknowledged, the data byte are sent once, and the transaction
ends with the error flag of the bytes sent. -/
def WritesOnce (s : Fsm) (input : ℕ → Input) (a : BitVec 7) (w : BitVec 8) : Prop :=
  ∃ n ≤ 57, Writes s input (if acked input 0 then [Adxl.addrWr a, w] else [Adxl.addrWr a]) n
    (!acked input 0 || !acked input 1)

section Transaction

variable {s : Fsm} {input : ℕ → Input} {a : BitVec 7} {w : BitVec 8}

private theorem writes_of_segment {n : ℕ} {bytes : List (BitVec 8)} {t : Fsm} {error : Bool}
    (sent : Fsm.master.Segment Fsm.Going s input n (startWave ++ bytes.flatMap Fsm.frameWave) t)
    (stop : t.st = .stop0) (flag : t.ackerrI = error) : Writes s input bytes n error := by
  have last : run Fsm.tick s input n = t := sent.last
  obtain ⟨stop1, -, done⟩ := Fsm.stop_run (fun k => input (n + k)) stop
  rw [← last, ← run_add] at stop1 done
  exact ⟨sent.heard, sent.inside, last ▸ stop, stop1, by rw [done]; rfl, by rw [done, last, flag]⟩

private theorem Held.at (held : Held s input a w) {n j : ℕ} {out : List Level} {t : Fsm}
    (sent : Fsm.master.Segment Fsm.Going s input n out t) (bound : j < n) :
    (input j).iRw = false ∧ (input j).iAddr7 = a ∧ (input j).iWdata = w := by
  refine held j fun m earlier => ?_
  have going := sent.inside m (by omega)
  exact decide_eq_false going.2.2

private theorem addrByte_eq {i : Input} (write : i.iRw = false ∧ i.iAddr7 = a ∧ i.iWdata = w) :
    i.addrByte = Adxl.addrWr a := by
  rw [Input.addrByte, write.1, write.2.1]
  rfl

private theorem slave_released {b : ℕ} (refused : acked input b = false) :
    (input (28 + 27 * b)).slave = true := by simpa [acked] using refused

private theorem slave_pulled {b : ℕ} (ack : acked input b = true) :
    (input (28 + 27 * b)).slave = false := by simpa [acked] using ack

/-- The address byte of a write. -/
private theorem address_written (idle : s.st = .idle) (start : (input 0).iStart = true)
    (held : Held s input a w) :
    Fsm.master.Segment Fsm.Going s input 30 (startWave ++ [Adxl.addrWr a].flatMap Fsm.frameWave)
      (((s.addressed (input 2)).acking (input 28).slave).acked (input 29)) := by
  have address := Fsm.address_run input idle start
  rw [addrByte_eq (held.at address (by decide))] at address
  simpa using address

/-- An acknowledged address is followed by the data byte with its acknowledge. -/
private theorem data_run (idle : s.st = .idle) (start : (input 0).iStart = true)
    (held : Held s input a w) (ack : acked input 0 = true) :
    ∃ t : Fsm, t.sh = w ∧ t.ackerrI = false ∧
      Fsm.master.Segment Fsm.Going s input 57
        (startWave ++ [Adxl.addrWr a, w].flatMap Fsm.frameWave)
        ((t.acking (input 55).slave).acked (input 56)) := by
  have address := address_written idle start held
  have inputs := held.at address (show 29 < 30 by decide)
  have here := held.at address (show 2 < 30 by decide)
  have same : ((s.addressed (input 2)).acking (input 28).slave).sh = (input 29).addrByte := by
    rw [addrByte_eq inputs]
    exact addrByte_eq here
  rw [Fsm.acked_same (slave_pulled ack) inputs.1 same, inputs.2.2] at address
  let t : Fsm := { (s.addressed (input 2)).acking (input 28).slave with
    sh := w, bitI := 7, phaseIsAck := false, st := .sendByte0 }
  have data := Fsm.frame_run (s := t) (fun k => input (30 + k)) rfl rfl rfl
  refine ⟨t, rfl, rfl, ?_⟩
  simpa [List.append_assoc] using address.trans data

/-- A refused address ends the transaction with an error. -/
private theorem refused_address (idle : s.st = .idle) (start : (input 0).iStart = true)
    (held : Held s input a w) (refused : acked input 0 = false) :
    Writes s input [Adxl.addrWr a] 30 true := by
  have address := address_written idle start held
  rw [Fsm.acked_nack (slave_released refused)] at address
  exact writes_of_segment address rfl rfl

/-- So does a refused data byte. -/
private theorem refused_data (idle : s.st = .idle) (start : (input 0).iStart = true)
    (held : Held s input a w) (ack : acked input 0 = true) (refused : acked input 1 = false) :
    Writes s input [Adxl.addrWr a, w] 57 true := by
  obtain ⟨t, -, -, data⟩ := data_run idle start held ack
  rw [Fsm.acked_nack (slave_released refused)] at data
  exact writes_of_segment data rfl rfl

/-- An acknowledged data byte ends the transaction if it does not look like the address. -/
private theorem acked_data (idle : s.st = .idle) (start : (input 0).iStart = true)
    (held : Held s input a w) (ack : acked input 0 = true) (ack' : acked input 1 = true)
    (other : w ≠ Adxl.addrWr a) : Writes s input [Adxl.addrWr a, w] 57 false := by
  obtain ⟨t, sent, clear, data⟩ := data_run idle start held ack
  have inputs := held.at data (show 56 < 57 by decide)
  have differs : (t.acking (input 55).slave).sh ≠ (input 56).addrByte := by
    rw [addrByte_eq inputs]
    exact fun equal => other (sent.symm.trans equal)
  rw [Fsm.acked_other (slave_pulled ack') differs] at data
  exact writes_of_segment data rfl clear

/-- Otherwise it is sent again: the transaction is not being stopped after either byte. -/
private theorem not_once (idle : s.st = .idle) (start : (input 0).iStart = true)
    (held : Held s input a w) (ack : acked input 0 = true) (ack' : acked input 1 = true)
    (same : w = Adxl.addrWr a) : ¬ WritesOnce s input a w := by
  obtain ⟨t, sent, -, data⟩ := data_run idle start held ack
  have inputs := held.at data (show 56 < 57 by decide)
  have again : (t.acking (input 55).slave).sh = (input 56).addrByte := by
    rw [addrByte_eq inputs, ← same]
    exact sent
  rw [Fsm.acked_same (slave_pulled ack') inputs.1 again] at data
  rintro ⟨n, bound, writes⟩
  have stopped := writes.stop0
  rcases Nat.lt_or_ge n 57 with earlier | later
  · exact absurd stopped (data.inside n earlier).1
  · obtain rfl : n = 57 := by omega
    have last : run Fsm.tick s input 57 = _ := data.last
    rw [last] at stopped
    exact State.noConfusion stopped

/-- A write is sent once and ends unless its data byte equals the address byte and both are
acknowledged. -/
private theorem once_iff (idle : s.st = .idle) (start : (input 0).iStart = true)
    (held : Held s input a w) : WritesOnce s input a w ↔
      ¬ (w = Adxl.addrWr a ∧ acked input 0 = true ∧ acked input 1 = true) := by
  constructor
  · rintro once ⟨same, ack, ack'⟩
    exact not_once idle start held ack ack' same once
  · intro unlike
    rw [WritesOnce]
    cases first : acked input 0 with
    | false => exact ⟨30, by decide, refused_address idle start held first⟩
    | true =>
      cases second : acked input 1 with
      | false => exact ⟨57, le_rfl, refused_data idle start held first second⟩
      | true =>
        have other : w ≠ Adxl.addrWr a := fun same => unlike ⟨same, first, second⟩
        exact ⟨57, le_rfl, acked_data idle start held first second other⟩

/-- While every byte is acknowledged, a data byte equal to the address byte is sent over and over. -/
private theorem resends (idle : s.st = .idle) (start : (input 0).iStart = true)
    (same : ∀ j, (input j).iRw = false ∧ (input j).iAddr7 = a ∧ (input j).iWdata = Adxl.addrWr a)
    (acks : ∀ b, acked input b = true) (b : ℕ) :
    ∃ t : Fsm, t.st = .sendByte0 ∧ t.phaseIsAck = false ∧ t.bitI = 7 ∧ t.sh = Adxl.addrWr a ∧
      Fsm.master.Segment Fsm.Going s input (3 + 27 * b)
        (startWave ++ (List.replicate b (Adxl.addrWr a)).flatMap Fsm.frameWave) t := by
  induction b with
  | zero =>
    refine ⟨s.addressed (input 2), rfl, rfl, rfl, addrByte_eq (same 2), ?_⟩
    simpa using Fsm.start_run input idle start
  | succ b ih =>
    obtain ⟨t, call, data, index, byte, sent⟩ := ih
    have frame := Fsm.frame_run (fun k => input (3 + 27 * b + k)) call data index
    have place : 3 + 27 * b + 25 = 28 + 27 * b := by omega
    have pulled : (input (3 + 27 * b + 25)).slave = false := by simpa [acked, place] using acks b
    have again : (t.acking (input (3 + 27 * b + 25)).slave).sh = (input (3 + 27 * b + 26)).addrByte := by
      rw [addrByte_eq (same _)]
      exact byte
    rw [Fsm.acked_same pulled (same _).1 again, byte, (same _).2.2] at frame
    refine ⟨{ t.acking (input (3 + 27 * b + 25)).slave with
      sh := Adxl.addrWr a, bitI := 7, phaseIsAck := false, st := .sendByte0 }, rfl, rfl, rfl, rfl, ?_⟩
    have length : 3 + 27 * (b + 1) = 3 + 27 * b + 27 := by ring
    rw [length, List.replicate_succ']
    simpa using sent.trans frame

end Transaction

/-- A write accepted on any tick of any run, for all generics, is sent once and ends if and only if
it is not the case that the data byte equals the address byte and both are acknowledged. -/
theorem writes_once_iff (g : Adxl.Generics) (input : ℕ → Input) (k : ℕ) (a : BitVec 7) (w : BitVec 8)
    (idle : (atTick g input k).st = .idle) (start : (tickInput g input k).iStart = true)
    (held : Held (atTick g input k) (fun j => tickInput g input (k + j)) a w) :
    WritesOnce (atTick g input k) (fun j => tickInput g input (k + j)) a w ↔
      ¬ (w = Adxl.addrWr a ∧ acked (fun j => tickInput g input (k + j)) 0 = true ∧
        acked (fun j => tickInput g input (k + j)) 1 = true) :=
  once_iff idle start held

/-! ## Two writes to the device at address 0x1D -/

/-- The default generics, one START pulse and a device that acknowledges every byte. -/
def request (w : BitVec 8) (n : ℕ) : Input :=
  ⟨decide (n = 125), false, 0x1D, w, decide ((n / 125 - 4) % 27 < 24)⟩

private theorem tickInput_request (w : BitVec 8) (j : ℕ) : tickInput Adxl.defaults (request w) j =
    ⟨decide (j = 0), false, 0x1D, w, decide ((j - 3) % 27 < 24)⟩ := by
  have period : Adxl.defaults.cDiv = 125 := by decide
  have once : 125 * (j + 1) = 125 ↔ j = 0 := by omega
  have place : 125 * (j + 1) / 125 - 4 = j - 3 := by omega
  simp only [tickInput, request, period, once, place]

/-- A data byte other than the address byte is written once. -/
theorem writes_once_iff_request :
    WritesOnce (atTick Adxl.defaults (request 0x08) 0)
      (fun j => tickInput Adxl.defaults (request 0x08) (0 + j)) 0x1D 0x08 := by
  refine (writes_once_iff Adxl.defaults (request 0x08) 0 0x1D 0x08 ?_ ?_ ?_).mpr ?_
  · rw [atTick_eq]
    rfl
  · rw [tickInput_request]
    rfl
  · intro j _
    dsimp only
    rw [tickInput_request]
    exact ⟨rfl, rfl, rfl⟩
  · rintro ⟨same, -⟩
    exact absurd same (by decide)

/-- The data byte 0x3A is the address byte of the write: it is sent again and again, and the
transaction never ends. -/
theorem request_never_done :
    (∀ b, Fsm.master.emitted (atTick Adxl.defaults (request 0x3A) 0)
      (tickInput Adxl.defaults (request 0x3A)) (3 + 27 * b) =
        startWave ++ (List.replicate b 0x3A).flatMap Fsm.frameWave) ∧
    (∀ j, (atTick Adxl.defaults (request 0x3A) j).oDone = false) ∧
    ¬ WritesOnce (atTick Adxl.defaults (request 0x3A) 0)
      (tickInput Adxl.defaults (request 0x3A)) 0x1D 0x3A := by
  have ready : (atTick Adxl.defaults (request 0x3A) 0).st = .idle := by
    rw [atTick_eq]
    rfl
  have start : (tickInput Adxl.defaults (request 0x3A) 0).iStart = true := by
    rw [tickInput_request]
    rfl
  have same : ∀ j, (tickInput Adxl.defaults (request 0x3A) j).iRw = false ∧
      (tickInput Adxl.defaults (request 0x3A) j).iAddr7 = 0x1D ∧
      (tickInput Adxl.defaults (request 0x3A) j).iWdata = Adxl.addrWr 0x1D := by
    intro j
    rw [tickInput_request]
    exact ⟨rfl, rfl, rfl⟩
  have acks : ∀ b, acked (tickInput Adxl.defaults (request 0x3A)) b = true := by
    intro b
    have ninth : ¬ (28 + 27 * b - 3) % 27 < 24 := by omega
    rw [acked, tickInput_request, decide_eq_false ninth]
    rfl
  have sent := resends ready start same acks
  refine ⟨?_, ?_, ?_⟩
  · intro b
    obtain ⟨t, -, -, -, -, segment⟩ := sent b
    exact segment.heard
  · intro j
    obtain ⟨t, -, -, -, -, segment⟩ := sent j
    have going := segment.inside j (by omega)
    rw [← Nat.zero_add j, atTick_add]
    simp only [Nat.zero_add]
    exact decide_eq_false going.2.2
  · intro once
    exact (once_iff ready start fun j _ => same j).mp once ⟨rfl, acks 0, acks 1⟩

end Telecran.Soundness.WriteOnce
