import Telecran.Model.Adxl

/-! # What the micro steps do

START, STOP, the transmission of a byte and the reception of one, each as a single step of a byte
level master: the ticks it takes, the levels it leaves on the lines and the registers it changes.
The high level state and the outputs stay as they are until the last tick.
-/

namespace Telecran.Model.Adxl.Fsm

open Machine Bus

/-- The main process with the levels after each tick. -/
def master : Mealy Fsm TickIn Level where
  step := tick
  emit s i := [(s.tick i).level]

theorem emitted_eq (s : Fsm) (input : ℕ → TickIn) (n : ℕ) :
    master.emitted s input n = (List.range n).map fun k => (run tick s input (k + 1)).level := by
  induction n with
  | zero => rfl
  | succ n ih => rw [Mealy.emitted, ih, List.range_succ, List.map_append]; rfl

/-- The high level state and the outputs are those of `s`. -/
structure Steady (s u : Fsm) : Prop where
  st : u.st = s.st
  oAx : u.oAx = s.oAx
  oAy : u.oAy = s.oAy

variable {s : Fsm} {input : ℕ → TickIn}

/-! ## The results -/

def started (s : Fsm) : Fsm := { s with ll := .none, st := s.nextSt, sclOe := true, sdaOe := true }

def stopped (s : Fsm) : Fsm := { s with ll := .none, st := s.nextSt, sclOe := false, sdaOe := false }

def sent (s : Fsm) (nack : Bool) : Fsm :=
  { s with ll := .none, st := s.nextSt, sclOe := true, sdaOe := false, bitI := 0, ackNack := nack }

def received (s : Fsm) (byte : BitVec 8) : Fsm :=
  { s with ll := .none, st := s.nextSt, sclOe := true, sdaOe := false, bitI := 0, rxByte := byte }

/-- Three micro steps in a row. -/
theorem three_ticks {u v t : Fsm} {levels : List Level} (first : s.tick (input 0) = u)
    (second : u.tick (input 1) = v) (third : v.tick (input 2) = t) (steady : Steady s u)
    (steady' : Steady s v) (shape : [u.level, v.level, t.level] = levels) :
    master.Segment (Steady s) s input 3 levels t := by
  subst first second third shape
  exact .three rfl rfl rfl ⟨rfl, rfl, rfl⟩ steady steady' rfl rfl rfl

/-! ## START and STOP -/

theorem start_run (call : s.ll = .startA) :
    master.Segment (Steady s) s input 3 startWave s.started := by
  cases s
  subst call
  exact three_ticks rfl rfl rfl ⟨rfl, rfl, rfl⟩ ⟨rfl, rfl, rfl⟩ rfl

theorem stop_run (call : s.ll = .stopA) :
    master.Segment (Steady s) s input 3 stopWave s.stopped := by
  cases s
  subst call
  exact three_ticks rfl rfl rfl ⟨rfl, rfl, rfl⟩ ⟨rfl, rfl, rfl⟩ rfl

/-! ## Transmission -/

theorem tx_bit {i : ℕ} (call : s.ll = .txSet) (index : s.bitI = i + 1) :
    master.Segment (Steady s) s input 3 (pulse (s.txByte.getLsbD (i + 1)) (s.txByte.getLsbD (i + 1)))
      { s with sclOe := true, sdaOe := !s.txByte.getLsbD (i + 1), bitI := i } := by
  cases s
  subst call index
  refine three_ticks rfl rfl rfl ⟨rfl, rfl, rfl⟩ ⟨rfl, rfl, rfl⟩ ?_
  simp [tick, low, level, pulse]

/-- The last bit is followed by the acknowledge. -/
theorem tx_last (call : s.ll = .txSet) (index : s.bitI = 0) :
    master.Segment (Steady s) s input 3 (pulse (s.txByte.getLsbD 0) (s.txByte.getLsbD 0))
      { s with sclOe := true, sdaOe := !s.txByte.getLsbD 0, bitI := 0, ll := .txAckRel } := by
  cases s
  subst call index
  refine three_ticks rfl rfl rfl ⟨rfl, rfl, rfl⟩ ⟨rfl, rfl, rfl⟩ ?_
  simp [tick, low, level, pulse]

theorem Steady.trans {s u v : Fsm} (first : Steady s u) (second : Steady u v) : Steady s v :=
  ⟨second.st.trans first.st, second.oAx.trans first.oAx, second.oAy.trans first.oAy⟩

/-- Segments compose when the first one ends steadily. -/
theorem steady_trans {a b : ℕ} {xs ys : List Level} {u v : Fsm}
    (first : master.Segment (Steady s) s input a xs u)
    (second : master.Segment (Steady u) u (fun k => input (a + k)) b ys v) (steady : Steady s u) :
    master.Segment (Steady s) s input (a + b) (xs ++ ys) v :=
  first.trans (second.mono fun _ => steady.trans)

theorem tx_bits {i : ℕ} (call : s.ll = .txSet) (index : s.bitI = i) :
    master.Segment (Steady s) s input (3 * (i + 1)) (pulses (bitsFrom s.txByte i))
      { s with sclOe := true, sdaOe := !s.txByte.getLsbD 0, bitI := 0, ll := .txAckRel } := by
  induction i generalizing s input with
  | zero =>
    simpa [pulses, bitsFrom] using tx_last call index
  | succ i ih =>
    have length : 3 * (i + 1 + 1) = 3 + 3 * (i + 1) := by ring
    rw [length]
    exact steady_trans (tx_bit call index)
      (ih (s := { s with sclOe := true, sdaOe := !s.txByte.getLsbD (i + 1), bitI := i }) call rfl)
      ⟨rfl, rfl, rfl⟩

/-- On the tick that samples the acknowledge. -/
def acking (s : Fsm) : Fsm :=
  { s with ll := .txAckHigh, sclOe := true, sdaOe := false, bitI := 0 }

theorem tx_acking (call : s.ll = .txSet) (index : s.bitI = 7) :
    master.Segment (Steady s) s input 25 (pulses (bitsFrom s.txByte 7) ++ [⟨false, true⟩]) s.acking :=
  steady_trans (tx_bits call index) (.one ⟨rfl, rfl, rfl⟩ rfl rfl) ⟨rfl, rfl, rfl⟩

theorem tx_acked (s : Fsm) (input : ℕ → TickIn) :
    master.Segment (Steady s) s.acking input 2 [⟨true, true⟩, ⟨false, true⟩]
      (s.sent (input 0).sdaIn) := by
  refine ⟨rfl, fun k bound => ?_, rfl⟩
  obtain rfl | rfl : k = 0 ∨ k = 1 := by omega
  · exact ⟨rfl, rfl, rfl⟩
  · exact ⟨rfl, rfl, rfl⟩

/-- The byte goes out with its most significant bit first, and the acknowledge is sampled on tick 25. -/
theorem tx_run (call : s.ll = .txSet) (index : s.bitI = 7) :
    master.Segment (Steady s) s input 27 (pulses (bitsFrom s.txByte 7 ++ [true]))
      (s.sent (input 25).sdaIn) := by
  have whole := (tx_acking call index).trans (tx_acked s fun k => input (25 + k))
  have shape : pulses (bitsFrom s.txByte 7 ++ [true]) =
      pulses (bitsFrom s.txByte 7) ++ [⟨false, true⟩] ++ [⟨true, true⟩, ⟨false, true⟩] := by
    simp [pulses, pulse]
  rwa [shape]

/-! ## Reception -/

/-- The byte after the samples `d 0, d 1, …` have gone into the bits `i` down to zero. -/
def sampled (byte : BitVec 8) (d : ℕ → Bool) : ℕ → BitVec 8
  | 0 => setBit byte 0 (d 0)
  | i + 1 => sampled (setBit byte (i + 1) (d 0)) (fun k => d (k + 1)) i

theorem sampled_getLsbD (byte : BitVec 8) (d : ℕ → Bool) {i j : ℕ} (inside : i < 8) (bound : j < 8) :
    (sampled byte d i).getLsbD j = if j ≤ i then d (i - j) else byte.getLsbD j := by
  induction i generalizing byte d with
  | zero =>
    rw [sampled, setBit_getLsbD _ _ _ bound]
    cases j with
    | zero => rfl
    | succ j => simp
  | succ i ih =>
    rw [sampled, ih _ _ (by omega), setBit_getLsbD _ _ _ bound]
    rcases Nat.lt_trichotomy j (i + 1) with below | here | above
    · rw [if_pos (by omega), if_pos (by omega)]
      congr 1
      omega
    · rw [if_neg (by omega), if_pos here, if_pos (by omega), here, Nat.sub_self]
    · rw [if_neg (by omega), if_neg (by omega), if_neg (by omega)]

/-- A byte sent with its most significant bit first arrives. -/
theorem sampled_eq {byte data : BitVec 8} {d : ℕ → Bool}
    (bits : ∀ i < 8, d i = data.getLsbD (7 - i)) : sampled byte d 7 = data := by
  apply BitVec.eq_of_getLsbD_eq
  intro j bound
  rw [sampled_getLsbD _ _ (by omega) bound, if_pos (by omega), bits _ (by omega)]
  congr 1
  omega

theorem rx_bit {i : ℕ} (call : s.ll = .rxRel) (index : s.bitI = i + 1) :
    master.Segment (Steady s) s input 3 (pulse true true)
      { s with
        sclOe := true, sdaOe := false, bitI := i
        rxByte := setBit s.rxByte (i + 1) (input 1).sdaIn } := by
  cases s
  subst call index
  exact three_ticks rfl rfl rfl ⟨rfl, rfl, rfl⟩ ⟨rfl, rfl, rfl⟩ rfl

theorem rx_last (call : s.ll = .rxRel) (index : s.bitI = 0) :
    master.Segment (Steady s) s input 3 (pulse true true)
      { s with
        sclOe := true, sdaOe := false, bitI := 0, ll := .rxAckSet
        rxByte := setBit s.rxByte 0 (input 1).sdaIn } := by
  cases s
  subst call index
  exact three_ticks rfl rfl rfl ⟨rfl, rfl, rfl⟩ ⟨rfl, rfl, rfl⟩ rfl

theorem rx_bits {i : ℕ} (call : s.ll = .rxRel) (index : s.bitI = i) :
    master.Segment (Steady s) s input (3 * (i + 1)) (pulses (List.replicate (i + 1) true))
      { s with
        sclOe := true, sdaOe := false, bitI := 0, ll := .rxAckSet
        rxByte := sampled s.rxByte (fun k => (input (3 * k + 1)).sdaIn) i } := by
  induction i generalizing s input with
  | zero => exact rx_last call index
  | succ i ih =>
    have length : 3 * (i + 1 + 1) = 3 + 3 * (i + 1) := by ring
    have shift : ∀ k, 3 * (k + 1) + 1 = 3 + (3 * k + 1) := by
      intro k
      ring
    rw [length, sampled]
    simp only [shift]
    exact steady_trans (rx_bit call index)
      (ih (s := { s with
        sclOe := true, sdaOe := false, bitI := i
        rxByte := setBit s.rxByte (i + 1) (input 1).sdaIn }) call rfl)
      ⟨rfl, rfl, rfl⟩

theorem rx_ack (call : s.ll = .rxAckSet) :
    master.Segment (Steady s) s input 3 (pulse (!s.rxDriveAck0) true)
      { s with ll := .none, st := s.nextSt, sclOe := true, sdaOe := false } := by
  cases s
  subst call
  exact three_ticks rfl rfl rfl ⟨rfl, rfl, rfl⟩ ⟨rfl, rfl, rfl⟩ rfl

/-- Bit `i` of the reception is sampled on tick `3 * i + 1`, and the master drives its acknowledge. -/
theorem rx_run (call : s.ll = .rxRel) (index : s.bitI = 7) :
    master.Segment (Steady s) s input 27
      (pulses (List.replicate 8 true) ++ pulse (!s.rxDriveAck0) true)
      (s.received (sampled s.rxByte (fun k => (input (3 * k + 1)).sdaIn) 7)) :=
  steady_trans (rx_bits call index) (rx_ack rfl) ⟨rfl, rfl, rfl⟩

/-! ## Calls -/

/-- The high level state has prepared the call. -/
def Prepared (h : Fsm) : Call → Prop
  | .start => h.ll = .startA
  | .stop => h.ll = .stopA
  | .transmit byte => h.ll = .txSet ∧ h.bitI = 7 ∧ h.txByte = byte
  | .receive ack => h.ll = .rxRel ∧ h.bitI = 7 ∧ h.rxDriveAck0 = ack

/-- The registers after a prepared call, with the inputs from its high level tick on. -/
def result (h : Fsm) (input : ℕ → TickIn) : Call → Fsm
  | .start => h.started
  | .stop => h.stopped
  | .transmit _ => h.sent (input 26).sdaIn
  | .receive _ => h.received (sampled h.rxByte (fun k => (input (3 * k + 2)).sdaIn) 7)

/-- A call takes its ticks and leaves its wave on the lines. -/
theorem call_run {h : Fsm} {c : Call} (ready : s.ll = .none) (high : s.high (input 0) = h)
    (prepared : h.Prepared c) (steady : Steady s h) (same : h.level = s.level) :
    master.Segment (Steady s) s input c.ticks (c.wave s.level) (h.result input c) := by
  have first : master.Segment (Steady s) s input 1 [s.level] h := by
    have step : s.tick (input 0) = h := by rw [tick, if_pos ready, high]
    refine .one ⟨rfl, rfl, rfl⟩ step ?_
    simp only [master, step, same]
  cases c with
  | start => exact steady_trans first (start_run prepared) steady
  | stop => exact steady_trans first (stop_run prepared) steady
  | transmit byte =>
    obtain ⟨call, index, rfl⟩ := prepared
    exact steady_trans first (tx_run call index) steady
  | receive ack =>
    obtain ⟨call, index, rfl⟩ := prepared
    have shift : ∀ k, 3 * k + 2 = 1 + (3 * k + 1) := by
      intro k
      ring
    simp only [result, shift]
    exact steady_trans first (rx_run call index) steady

/-- A transmission samples its acknowledge on tick 26. -/
theorem transmit_acking {h : Fsm} {byte : BitVec 8} (ready : s.ll = .none)
    (high : s.high (input 0) = h) (prepared : h.Prepared (.transmit byte)) :
    run tick s input 26 = h.acking := by
  have step : s.tick (input 0) = h := by rw [tick, if_pos ready, high]
  have rest : master.Segment _ h (fun k => input (1 + k)) _ _ _ := tx_acking prepared.1 prepared.2.1
  change run tick s input (1 + 25) = _
  rw [run_add, show run tick s input 1 = h from step]
  exact rest.last

/-! ## Calls in a row -/

section Calls

variable {P : Fsm → Prop}

/-- Calls made one after the other, each prepared by the high level state the one before returned to. -/
theorem calls_cons {h t : Fsm} {c : Call} {calls : List Call} (ready : s.ll = .none)
    (high : s.high (input 0) = h) (prepared : h.Prepared c) (steady : Steady s h)
    (same : h.level = s.level) (holds : ∀ u, Steady s u → P u)
    (rest : master.Segment P (h.result input c) (fun k => input (c.ticks + k)) (ticks calls)
      (waves c.leaves calls) t) :
    master.Segment P s input (ticks (c :: calls)) (waves s.level (c :: calls)) t :=
  ((call_run ready high prepared steady same).mono holds).trans rest

theorem calls_nil (x : Level) : master.Segment P s input (ticks []) (waves x []) s := .refl

end Calls

/-- Ready for a call in state `st`. -/
def At (st : State) (s : Fsm) : Prop := s.st = st ∧ s.ll = .none

/-- START and the address with the write bit. -/
def address : List Call := [.start, .transmit (addrWr addr7)]

/-- The high level states `s` and `h.started` call START and the transmission of the address. -/
structure Addresses (s h h' : Fsm) : Prop where
  ready : s.ll = .none
  starts : ∀ i, s.high i = h
  call : h.ll = .startA
  steady : Steady s h
  same : h.level = s.level
  transmits : ∀ i, h.started.high i = h'
  prepared : h'.Prepared (.transmit (addrWr addr7))
  steady' : Steady h.started h'
  same' : h'.level = h.started.level

section Address

variable {h h' : Fsm}

theorem Addresses.segment {P : Fsm → Prop} (calls : Addresses s h h') (holds : ∀ u, Steady s u → P u)
    (holds' : ∀ u, Steady h.started u → P u) : master.Segment P s input (ticks address)
      (waves s.level address) (h'.sent (input 30).sdaIn) := by
  refine calls_cons calls.ready (calls.starts _) calls.call calls.steady calls.same holds ?_
  refine calls_cons rfl (calls.transmits _) calls.prepared calls.steady' calls.same' holds' ?_
  exact calls_nil _

/-- The acknowledge of the address is sampled on tick 30. -/
theorem Addresses.acking (calls : Addresses s h h') : run tick s input 30 = h'.acking := by
  have first : master.Segment _ s input 4 _ h.started :=
    call_run (c := .start) calls.ready (calls.starts _) calls.call calls.steady calls.same
  change run tick s input (4 + 26) = _
  rw [run_add, show run tick s input 4 = _ from first.last]
  exact transmit_acking rfl (calls.transmits _) calls.prepared

end Address

/-! ## The initialisation -/

section Init

private theorem always (s : Fsm) : ∀ u, Steady s u → True := fun _ _ => trivial

theorem initAddresses (here : At .iWStart s) : Addresses s (s.choose.start .iWAddr)
    ((s.choose.start .iWAddr).started.transmit (addrWr addr7) .iWReg) := by
  cases s
  obtain ⟨rfl, rfl⟩ := here
  exact ⟨rfl, fun _ => rfl, rfl, ⟨rfl, rfl, rfl⟩, rfl, fun _ => rfl, ⟨rfl, rfl, rfl⟩, ⟨rfl, rfl, rfl⟩, rfl⟩

def initAddressed (s : Fsm) (nack : Bool) : Fsm :=
  ((s.choose.start .iWAddr).started.transmit (addrWr addr7) .iWReg).sent nack

theorem initAddress_run (here : At .iWStart s) :
    master.Segment (fun _ => True) s input (ticks address) (waves s.level address)
      (s.initAddressed (input 30).sdaIn) :=
  (initAddresses here).segment (always _) (always _)

def initSelected (s : Fsm) (nack : Bool) : Fsm := (s.transmit s.curReg .iWVal).sent nack

theorem initSelect_run (here : At .iWReg s) (acked : s.ackNack = false) :
    master.Segment (fun _ => True) s input (ticks [.transmit s.curReg])
      (waves s.level [.transmit s.curReg]) (s.initSelected (input 26).sdaIn) := by
  cases s
  obtain ⟨rfl, rfl⟩ := here
  subst acked
  refine calls_cons rfl rfl ⟨rfl, rfl, rfl⟩ ⟨rfl, rfl, rfl⟩ rfl (always _) ?_
  exact calls_nil _

def initWritten (s : Fsm) (nack : Bool) : Fsm :=
  (((s.transmit s.curVal .iWStop).sent nack).stop .iNext).stopped

theorem initWrite_run (here : At .iWVal s) (acked : s.ackNack = false) :
    master.Segment (fun _ => True) s input (ticks [.transmit s.curVal, .stop])
      (waves s.level [.transmit s.curVal, .stop]) (s.initWritten (input 26).sdaIn) := by
  cases s
  obtain ⟨rfl, rfl⟩ := here
  subst acked
  refine calls_cons rfl rfl ⟨rfl, rfl, rfl⟩ ⟨rfl, rfl, rfl⟩ rfl (always _) ?_
  refine calls_cons rfl rfl rfl ⟨rfl, rfl, rfl⟩ rfl (always _) ?_
  exact calls_nil _

/-! ## The device identification -/

def idAddressed (s : Fsm) (nack : Bool) : Fsm :=
  ((s.start .idAddrw).started.transmit (addrWr addr7) .idReg).sent nack

theorem idAddresses (here : At .idStartw s) : Addresses s (s.start .idAddrw)
    ((s.start .idAddrw).started.transmit (addrWr addr7) .idReg) := by
  cases s
  obtain ⟨rfl, rfl⟩ := here
  exact ⟨rfl, fun _ => rfl, rfl, ⟨rfl, rfl, rfl⟩, rfl, fun _ => rfl, ⟨rfl, rfl, rfl⟩, ⟨rfl, rfl, rfl⟩, rfl⟩

theorem idAddress_run (here : At .idStartw s) :
    master.Segment (fun _ => True) s input (ticks address) (waves s.level address)
      (s.idAddressed (input 30).sdaIn) :=
  (idAddresses here).segment (always _) (always _)

/-- The device register, a repeated START and the address with the read bit. -/
def idSelect : List Call := [.transmit regDevid, .start, .transmit (addrRd addr7)]

def idSelected (s : Fsm) (nack nack' : Bool) : Fsm :=
  ((((s.transmit regDevid .idRepstart).sent nack).start .idAddrr).started.transmit (addrRd addr7)
    .idRx).sent nack'

theorem idSelect_run (here : At .idReg s) (acked : s.ackNack = false) :
    master.Segment (fun _ => True) s input (ticks idSelect) (waves s.level idSelect)
      (s.idSelected (input 26).sdaIn (input 58).sdaIn) := by
  cases s
  obtain ⟨rfl, rfl⟩ := here
  subst acked
  refine calls_cons rfl rfl ⟨rfl, rfl, rfl⟩ ⟨rfl, rfl, rfl⟩ rfl (always _) ?_
  refine calls_cons rfl rfl rfl ⟨rfl, rfl, rfl⟩ rfl (always _) ?_
  refine calls_cons rfl rfl ⟨rfl, rfl, rfl⟩ ⟨rfl, rfl, rfl⟩ rfl (always _) ?_
  exact calls_nil _

def identified (s : Fsm) (d : BitVec 8) : Fsm :=
  { ((s.receive false .idStop).received d).stop .idle with readyI := true }.stopped

theorem identify_run (here : At .idRx s) (acked : s.ackNack = false) :
    master.Segment (fun _ => True) s input (ticks [.receive false, .stop])
      (waves s.level [.receive false, .stop])
      (s.identified (sampled 0 (fun k => (input (3 * k + 2)).sdaIn) 7)) := by
  cases s
  obtain ⟨rfl, rfl⟩ := here
  subst acked
  refine calls_cons rfl rfl ⟨rfl, rfl, rfl⟩ ⟨rfl, rfl, rfl⟩ rfl (always _) ?_
  refine calls_cons rfl rfl rfl ⟨rfl, rfl, rfl⟩ rfl (always _) ?_
  exact calls_nil _

end Init

/-! ## The burst read -/

/-- A read is going on and the outputs are still `x` and `y`. -/
def Reading (x y : BitVec 16) (u : Fsm) : Prop := u.st ≠ .idle ∧ u.oAx = x ∧ u.oAy = y

theorem reading_of_steady {x y : BitVec 16} (reading : Reading x y s) :
    ∀ u, Steady s u → Reading x y u := by
  intro u steady
  exact ⟨by rw [steady.st]; exact reading.1, steady.oAx.trans reading.2.1,
    steady.oAy.trans reading.2.2⟩

def addressed (s : Fsm) (nack : Bool) : Fsm :=
  ((s.start .rAddrw).started.transmit (addrWr addr7) .rReg).sent nack

theorem readAddresses (here : At .rStartw s) : Addresses s (s.start .rAddrw)
    ((s.start .rAddrw).started.transmit (addrWr addr7) .rReg) := by
  cases s
  obtain ⟨rfl, rfl⟩ := here
  exact ⟨rfl, fun _ => rfl, rfl, ⟨rfl, rfl, rfl⟩, rfl, fun _ => rfl, ⟨rfl, rfl, rfl⟩, ⟨rfl, rfl, rfl⟩, rfl⟩

theorem readAddress_run (here : At .rStartw s) :
    master.Segment (Reading s.oAx s.oAy) s input (ticks address) (waves s.level address)
      (s.addressed (input 30).sdaIn) := by
  refine (readAddresses here).segment (reading_of_steady ⟨?_, rfl, rfl⟩) (reading_of_steady ⟨nofun, rfl, rfl⟩)
  rw [here.1]
  exact nofun

/-- The register, a repeated START, the address with the read bit and six bytes. -/
def readBody : List Call :=
  [.transmit regDatax0, .start, .transmit (addrRd addr7),
    .receive true, .receive true, .receive true, .receive true, .receive true, .receive false]

def collected (s : Fsm) (nack nack' : Bool) (d : ℕ → BitVec 8) : Fsm :=
  let s := (s.transmit regDatax0 .rRepstart).sent nack
  let s := (s.start .rAddrr).started
  let s := (s.transmit (addrRd addr7) .rRx0).sent nack'
  let s := (s.receive true .rRx1).received (d 0)
  let s := { s.receive true .rRx2 with b0 := s.rxByte }.received (d 1)
  let s := { s.receive true .rRx3 with b1 := s.rxByte }.received (d 2)
  let s := { s.receive true .rRx4 with b2 := s.rxByte }.received (d 3)
  let s := { s.receive true .rRx5 with b3 := s.rxByte }.received (d 4)
  { s.receive false .rStop with b4 := s.rxByte }.received (d 5)

/-- Tick `x` of the reception of byte `j`, counted from the register on. -/
def byteTick (x : ℕ) : ℕ → ℕ
  | 0 => 28 + (4 + (28 + x))
  | j + 1 => byteTick (28 + x) j

theorem byteTick_eq (x j : ℕ) : byteTick x j = 60 + 28 * j + x := by
  induction j generalizing x with
  | zero => rw [byteTick]; omega
  | succ j ih => rw [byteTick, ih]; omega

/-- Data byte `j`, from the samples of its ticks. -/
def dataByte (input : ℕ → TickIn) (j : ℕ) : BitVec 8 :=
  sampled 0 (fun k => (input (byteTick (3 * k + 2) j)).sdaIn) 7

theorem readBody_run (here : At .rReg s) (acked : s.ackNack = false) (released : s.level = ⟨false, true⟩) :
    master.Segment (Reading s.oAx s.oAy) s input (ticks readBody) (waves ⟨false, true⟩ readBody)
      (s.collected (input 26).sdaIn (input 58).sdaIn (dataByte input)) := by
  rw [← released]
  cases s
  obtain ⟨rfl, rfl⟩ := here
  subst acked
  refine calls_cons rfl rfl ⟨rfl, rfl, rfl⟩ ⟨rfl, rfl, rfl⟩ rfl
    (reading_of_steady ⟨nofun, rfl, rfl⟩) ?_
  refine calls_cons rfl rfl rfl ⟨rfl, rfl, rfl⟩ rfl (reading_of_steady ⟨nofun, rfl, rfl⟩) ?_
  refine calls_cons rfl rfl ⟨rfl, rfl, rfl⟩ ⟨rfl, rfl, rfl⟩ rfl
    (reading_of_steady ⟨nofun, rfl, rfl⟩) ?_
  refine calls_cons rfl rfl ⟨rfl, rfl, rfl⟩ ⟨rfl, rfl, rfl⟩ rfl
    (reading_of_steady ⟨nofun, rfl, rfl⟩) ?_
  refine calls_cons rfl rfl ⟨rfl, rfl, rfl⟩ ⟨rfl, rfl, rfl⟩ rfl
    (reading_of_steady ⟨nofun, rfl, rfl⟩) ?_
  refine calls_cons rfl rfl ⟨rfl, rfl, rfl⟩ ⟨rfl, rfl, rfl⟩ rfl
    (reading_of_steady ⟨nofun, rfl, rfl⟩) ?_
  refine calls_cons rfl rfl ⟨rfl, rfl, rfl⟩ ⟨rfl, rfl, rfl⟩ rfl
    (reading_of_steady ⟨nofun, rfl, rfl⟩) ?_
  refine calls_cons rfl rfl ⟨rfl, rfl, rfl⟩ ⟨rfl, rfl, rfl⟩ rfl
    (reading_of_steady ⟨nofun, rfl, rfl⟩) ?_
  refine calls_cons rfl rfl ⟨rfl, rfl, rfl⟩ ⟨rfl, rfl, rfl⟩ rfl
    (reading_of_steady ⟨nofun, rfl, rfl⟩) ?_
  exact calls_nil _

/-- The outputs change on the first tick of the last call. -/
def updated (s : Fsm) : Fsm :=
  { s.stop .idle with b5 := s.rxByte, oAx := s.b1 ++ s.b0, oAy := s.b3 ++ s.b2 }

theorem readClose_run (input : ℕ → TickIn) (here : At .rStop s) :
    master.Segment (Reading s.oAx s.oAy) s input 1 [s.level] s.updated ∧
      master.Segment (Reading (s.b1 ++ s.b0) (s.b3 ++ s.b2)) s.updated (fun k => input (1 + k)) 3
        stopWave s.updated.stopped := by
  cases s
  obtain ⟨rfl, rfl⟩ := here
  have busy : State.rStop ≠ State.idle := nofun
  constructor
  · exact .one ⟨busy, rfl, rfl⟩ rfl rfl
  · exact (stop_run rfl).mono (reading_of_steady ⟨busy, rfl, rfl⟩)

end Telecran.Model.Adxl.Fsm
