import Telecran.Bus.Target
import Telecran.Proofs.AdxlTranscript

/-! # The accelerometer master and a device

A device that listens like a scribe closes the loop: what the master samples is the device's answer to
what it has heard. A call that the device serves then takes its ticks, leaves the registers the high
level states work with as a byte level bus would, and adds its word to the transcript.
-/

namespace Telecran.Model.Adxl.Fsm

open Machine Bus

/-- The registers the high level states work with. -/
structure Memo where
  st : State
  ackNack : Bool
  initStep : ℕ
  curReg : BitVec 8
  curVal : BitVec 8
  rxByte : BitVec 8
  b0 : BitVec 8
  b1 : BitVec 8
  b2 : BitVec 8
  b3 : BitVec 8
  b4 : BitVec 8
  b5 : BitVec 8
  oAx : BitVec 16
  oAy : BitVec 16
  readyI : Bool

def memo (s : Fsm) : Memo where
  st := s.st
  ackNack := s.ackNack
  initStep := s.initStep
  curReg := s.curReg
  curVal := s.curVal
  rxByte := s.rxByte
  b0 := s.b0
  b1 := s.b1
  b2 := s.b2
  b3 := s.b3
  b4 := s.b4
  b5 := s.b5
  oAx := s.oAx
  oAy := s.oAy
  readyI := s.readyI

/-- The end of the call under way, when a transmission is acknowledged and a reception brings `data`. -/
def ended (s : Fsm) (data : BitVec 8) : Memo :=
  match s.ll with
  | .none => s.memo
  | .startA | .startB | .startC | .stopA | .stopB | .stopC => { s.memo with st := s.nextSt }
  | .txSet | .txHigh | .txLow | .txAckRel | .txAckHigh | .txAckLow =>
    { s.memo with st := s.nextSt, ackNack := false }
  | .rxRel | .rxHigh | .rxLow | .rxAckSet | .rxAckHigh | .rxAckLow =>
    { s.memo with st := s.nextSt, rxByte := data }

/-- What the call under way adds to the transcript. -/
def Adds (s : Fsm) (t : Transcript) (T : Transcript → Prop) : Prop :=
  match s.ll with
  | .none => T t
  | .startA | .startB | .startC => T t.start
  | .stopA | .stopB | .stopC => T t.stop
  | .txSet | .txHigh | .txLow | .txAckRel | .txAckHigh | .txAckLow => T (t.word ⟨s.txByte, true⟩)
  | .rxRel | .rxHigh | .rxLow | .rxAckSet | .rxAckHigh | .rxAckLow =>
    ∀ byte, T (t.word ⟨byte, s.rxDriveAck0⟩)

/-- The device serves the call under way. -/
def Served (d : Device) (s : Fsm) (t : Transcript) : Prop :=
  match s.ll with
  | .none | .startA | .startB | .startC | .stopA | .stopB | .stopC => True
  | .txSet | .txHigh | .txLow | .txAckRel | .txAckHigh | .txAckLow => d.Acks t s.txByte
  | .rxRel | .rxHigh | .rxLow | .rxAckSet | .rxAckHigh | .rxAckLow => d.Sends t

/-- What has been sampled so far is what the device has sent. -/
def Fed (s : Fsm) (m : Scribe) (data : BitVec 8) : Prop :=
  match s.ll with
  | .txAckHigh => s.sdaOe = false
  | .txAckLow => s.ackNack = false
  | .rxRel => ∀ j < 8, s.bitI < j → s.rxByte.getLsbD j = data.getLsbD j
  | .rxHigh => s.sdaOe = false ∧ ∀ j < 8, s.bitI < j → s.rxByte.getLsbD j = data.getLsbD j
  | .rxLow => ∀ j < 8, s.bitI ≤ j → s.rxByte.getLsbD j = data.getLsbD j
  | .rxAckSet => s.rxByte = data
  | .rxAckHigh => s.rxByte = data ∧ s.sdaOe = s.rxDriveAck0
  | .rxAckLow => s.rxByte = data ∧ m.sample = !s.rxDriveAck0
  | _ => True

/-- The device follows the call under way, which ends with the registers `r` and a transcript in `T`. -/
structure Coupled (d : Device) (s : Fsm) (m : Scribe) (t : Transcript) (r : Memo)
    (T : Transcript → Prop) : Prop where
  synced : s.Synced m t
  served : Served d s t
  fed : Fed s m (d.supply t)
  ended : s.ended (d.supply t) = r
  adds : s.Adds t T

/-! ## One tick -/

/-- SDA as the master samples it. -/
def sampledSda (d : Device) (s : Fsm) (m : Scribe) : Bool := d.answer m.transcript m.bits && !s.sdaOe

section Low

variable {d : Device} {s : Fsm} {m : Scribe} {t : Transcript} {r : Memo} {T : Transcript → Prop}

private theorem promises_true (s : Fsm) (t : Transcript) : Promises (fun _ _ => True) s t := by
  unfold Promises
  cases s.ll <;> simp

/-- Within a call the transcript stays. -/
private theorem synced_low (synced : s.Synced m t) (opened : inByte s.ll = true → t.current.isSome = true)
    (busy : s.ll ≠ .none) {i : TickIn} (going : (s.low i).ll ≠ .none) :
    (s.low i).Synced (m.hear (s.low i).level i.sdaIn) t := by
  obtain ⟨t', tracks, same⟩ := Tracks.low ⟨synced, opened, promises_true s t⟩ busy i
  rw [← same going]
  exact tracks.synced

theorem Coupled.opened (coupled : Coupled d s m t r T) (moving : inByte s.ll = true) :
    t.current.isSome = true := by
  have served := coupled.served
  unfold Served at served
  cases here : s.ll with
  | none | startA | startB | startC | stopA | stopB | stopC => rw [here] at moving; exact nomatch moving
  | txSet | txHigh | txLow | txAckRel | txAckHigh | txAckLow =>
    simp only [here] at served
    exact served.opened
  | _ =>
    simp only [here] at served
    exact served.opened

/-- One micro step of a call that the device serves. -/
theorem Coupled.low (coupled : Coupled d s m t r T) (busy : s.ll ≠ .none) {i : TickIn}
    (closed : i.sdaIn = sampledSda d s m) :
    ∃ t', Coupled d (s.low i) (m.hear (s.low i).level i.sdaIn) t' r T := by
  have opened := coupled.opened
  have inside := synced_low coupled.synced opened busy (i := i)
  obtain ⟨synced, served, fed, ended, adds⟩ := coupled
  obtain ⟨st, ll, sclOe, sdaOe, txByte, rxByte, bitI, ackNack⟩ := s
  cases ll with
  | none => exact absurd rfl busy
  | startA | startB | stopA | stopB | txSet | txHigh =>
    exact ⟨t, inside (by simp [Fsm.low]), served, trivial, ended, adds⟩
  | startC =>
    have heard := Scribe.Hears.silent (x := ⟨false, !sdaOe⟩) synced i.sdaIn rfl
    exact ⟨t.start, heard, trivial, trivial, ended, adds⟩
  | stopC =>
    have heard := Scribe.Hears.stop (x := ⟨true, true⟩) synced i.sdaIn rfl
    exact ⟨t.stop, heard, trivial, trivial, ended, adds⟩
  | txLow =>
    cases bitI with
    | zero => exact ⟨t, inside (by simp [Fsm.low]), served, trivial, ended, adds⟩
    | succ bitI => exact ⟨t, inside (by simp [Fsm.low]), served, trivial, ended, adds⟩
  | txAckRel => exact ⟨t, inside (by simp [Fsm.low]), served, rfl, ended, adds⟩
  | txAckHigh =>
    -- eight bits have been heard, so the device pulls SDA low
    have low : i.sdaIn = false := by
      rw [closed, sampledSda, Scribe.Hears.transcript synced, Scribe.Hears.bits synced,
        Device.Acks.answer served, Bool.false_and]
    exact ⟨t, inside (by simp [Fsm.low]), served, low, ended, adds⟩
  | txAckLow =>
    obtain ⟨e, hears, sample⟩ := synced
    obtain rfl : ackNack = false := fed
    have heard : (m.hear ⟨false, !sdaOe⟩ i.sdaIn).Hears .low [] _ :=
      hears.ninth i.sdaIn rfl (bitsFrom_length ..)
    have rest : (t.word ⟨txByte, true⟩).rest = .low := by
      rw [Transcript.rest, if_pos]
      simpa [Transcript.word] using opened rfl
    rw [byteOf_bitsFrom, sample, Bool.not_false] at heard
    refine ⟨t.word ⟨txByte, true⟩, ?_, trivial, trivial, ended, adds⟩
    rw [← rest] at heard
    exact heard
  | rxRel => exact ⟨t, inside (by simp [Fsm.low]), served, ⟨rfl, fed⟩, ended, adds⟩
  | rxHigh =>
    obtain ⟨released, fed⟩ := fed
    obtain rfl : sdaOe = false := released
    obtain ⟨bits, place, hears⟩ := id synced
    have bit : i.sdaIn = (d.supply t).getLsbD bitI := by
      rw [closed, sampledSda, hears.transcript, hears.bits, Device.Sends.bit served place]
      exact Bool.and_true _
    refine ⟨t, inside (by simp [Fsm.low]), served, fun j bound above => ?_, ended, adds⟩
    have above : bitI ≤ j := above
    simp only [Fsm.low]
    rw [setBit_getLsbD _ _ _ bound]
    by_cases here : j = bitI
    · rw [if_pos here, here, bit]
    · rw [if_neg here]
      exact fed j bound (lt_of_le_of_ne above (Ne.symm here))
  | rxLow =>
    cases bitI with
    | zero =>
      refine ⟨t, inside (by simp [Fsm.low]), served, ?_, ended, adds⟩
      exact BitVec.eq_of_getLsbD_eq fun j bound => fed j bound (Nat.zero_le j)
    | succ bitI => exact ⟨t, inside (by simp [Fsm.low]), served, fed, ended, adds⟩
  | rxAckSet => exact ⟨t, inside (by simp [Fsm.low]), served, ⟨fed, rfl⟩, ended, adds⟩
  | rxAckHigh =>
    obtain ⟨whole, drives⟩ := fed
    obtain ⟨bits, length, hears⟩ := id synced
    have sample : i.sdaIn = !sdaOe := by
      rw [closed, sampledSda, hears.transcript, hears.bits, Device.Sends.released served length]
      exact Bool.true_and _
    have kept : (m.hear ⟨true, !sdaOe⟩ i.sdaIn).sample = i.sdaIn := if_pos ⟨hears.line, rfl⟩
    refine ⟨t, inside (by simp [Fsm.low]), served, ⟨whole, ?_⟩, ended, adds⟩
    exact kept.trans (sample.trans (congrArg not drives))
  | rxAckLow =>
    obtain ⟨whole, sample⟩ := fed
    obtain ⟨bits, e, length, hears⟩ := synced
    have heard : (m.hear ⟨false, true⟩ i.sdaIn).Hears .low [] _ := hears.ninth i.sdaIn rfl length
    obtain rfl : rxByte = d.supply t := whole
    have rest (w : Word) : (t.word w).rest = .low := by
      rw [Transcript.rest, if_pos]
      simpa [Transcript.word] using opened rfl
    rw [show m.sample = _ from sample, Bool.not_not, ← rest ⟨byteOf bits, _⟩] at heard
    exact ⟨_, heard, trivial, trivial, ended, adds _⟩

end Low

/-! ## Whole calls -/

/-- The read timer and the end of the boot wait, as the main process reads them on a tick. -/
structure Timers where
  tickRead : Bool
  bootDone : Bool

/-- What the main process reads on a tick when the device drives SDA. -/
def closedIn (d : Device) (w : Fsm × Scribe) (x : Timers) : TickIn :=
  ⟨sampledSda d w.1 w.2, x.tickRead, x.bootDone⟩

/-- The main process, the scribe and the device on one I2C tick. -/
def closed (d : Device) (w : Fsm × Scribe) (x : Timers) : Fsm × Scribe := watch w (closedIn d w x)

def Memo.outputs (r : Memo) : BitVec 16 × BitVec 16 × Bool := (r.oAx, r.oAy, r.readyI)

/-- Between two calls, with the registers `r` and the transcript `t`. -/
structure Ready (w : Fsm × Scribe) (r : Memo) (t : Transcript) : Prop where
  none : w.1.ll = .none
  memo : w.1.memo = r
  hears : w.2.Hears t.rest [] t
  knows : w.2.Knows w.1.level

/-- After `n` ticks the master is between two calls, and on the way its outputs are those of then. -/
structure Reaches (d : Device) (w : Fsm × Scribe) (x : ℕ → Timers) (n : ℕ) (r : Memo) (t : Transcript) :
    Prop where
  ready : Ready (run (closed d) w x n) r t
  held : ∀ k, 0 < k → k ≤ n → (run (closed d) w x k).1.memo.outputs = r.outputs

section Calls

variable {d : Device} {w : Fsm × Scribe} {x : ℕ → Timers} {n k : ℕ} {r r' : Memo} {t t' : Transcript}

theorem Reaches.trans (first : Reaches d w x n r t) (same : r'.outputs = r.outputs)
    (second : Reaches d (run (closed d) w x n) (fun j => x (n + j)) k r' t') :
    Reaches d w x (n + k) r' t' where
  ready := by
    rw [run_add]
    exact second.ready
  held j positive bound := by
    by_cases early : j ≤ n
    · rw [first.held j positive early, same]
    · obtain ⟨i, rfl⟩ := Nat.exists_eq_add_of_le (Nat.le_of_not_le early)
      rw [run_add]
      exact second.held i (by omega) (by omega)

private theorem ended_outputs (s : Fsm) (data : BitVec 8) : (s.ended data).outputs = s.memo.outputs := by
  unfold ended
  cases s.ll <;> rfl

private theorem Coupled.outputs {s : Fsm} {m : Scribe} {T : Transcript → Prop}
    (coupled : Coupled d s m t r T) : s.memo.outputs = r.outputs := by
  rw [← coupled.ended, ended_outputs]

/-- A call that the device serves ends after its ticks. -/
theorem Coupled.ends {T : Transcript → Prop} (coupled : Coupled d w.1 w.2 t r T)
    (knows : w.2.Knows w.1.level) :
    ∃ t', T t' ∧ Ready (run (closed d) w x w.1.left) r t' ∧
      ∀ k ≤ w.1.left, (run (closed d) w x k).1.memo.outputs = r.outputs := by
  induction ticks : w.1.left generalizing w t x with
  | zero =>
    have none : w.1.ll = .none := by
      by_contra busy
      have := left_low_succ busy (closedIn d w (x 0))
      omega
    have outputs := coupled.outputs
    obtain ⟨synced, -, -, ended, adds⟩ := coupled
    rw [Synced, none] at synced
    rw [Fsm.ended, none] at ended
    rw [Adds, none] at adds
    refine ⟨t, adds, ⟨none, ended, synced, knows⟩, fun k bound => ?_⟩
    rwa [Nat.le_zero.mp bound, run_zero]
  | succ left ih =>
    have busy : w.1.ll ≠ .none := by
      intro none
      rw [Fsm.left, none] at ticks
      exact absurd ticks (Nat.succ_ne_zero left).symm
    have next : closed d w (x 0) = _ := watch_low busy (closedIn d w (x 0))
    obtain ⟨t₁, coupled₁⟩ := coupled.low busy (i := closedIn d w (x 0)) rfl
    have fewer := left_low_succ busy (closedIn d w (x 0))
    obtain ⟨t', added, ready, held⟩ := ih (w := closed d w (x 0)) (x := fun k => x (k + 1))
      (by rw [next]; exact coupled₁) (Scribe.knows_hear ..) (by rw [next]; exact Nat.succ.inj (fewer.trans ticks))
    refine ⟨t', added, by rwa [run_succ'], fun k bound => ?_⟩
    cases k with
    | zero => exact coupled.outputs
    | succ k =>
      rw [run_succ']
      exact held k (by omega)

/-- A high level state that finds the bus as it leaves it. -/
theorem Ready.high (ready : Ready w r t) (free : r.st = .boot ∨ r.st = .idle → t.current = .none) (i : TickIn) :
    watch w i = (w.1.high i, w.2) ∧ w.2.Knows (w.1.high i).level := by
  have quiet : w.1.st = .boot ∨ w.1.st = .idle → w.2.line = .mark true := by
    intro waiting
    rw [ready.hears.line, Transcript.rest, free (ready.memo ▸ waiting)]
    rfl
  have next := watch_high ready.none ready.knows quiet i
  refine ⟨next, ?_⟩
  have knows : (watch w i).2.Knows (watch w i).1.level := Scribe.knows_hear ..
  rwa [next] at knows

/-- A high level state and the call it makes. -/
private theorem Ready.called (ready : Ready w r t) (n : ℕ) (r' : Memo) (T : Transcript → Prop)
    (free : r.st = .boot ∨ r.st = .idle → t.current = .none)
    (coupled : Coupled d (w.1.high (closedIn d w (x 0))) w.2 t r' T)
    (ticks : (w.1.high (closedIn d w (x 0))).left = n) :
    ∃ t', T t' ∧ Reaches d w x (n + 1) r' t' := by
  obtain ⟨next, knows⟩ := ready.high free (closedIn d w (x 0))
  have moved : closed d w (x 0) = _ := next
  obtain ⟨t', added, ready', held⟩ := Coupled.ends (w := closed d w (x 0)) (x := fun k => x (k + 1))
    (by rw [moved]; exact coupled) (by rw [moved]; exact knows)
  have length : (closed d w (x 0)).1.left = n := by rw [moved]; exact ticks
  rw [length] at ready' held
  refine ⟨t', added, ⟨by rwa [run_succ'], fun k positive bound => ?_⟩⟩
  obtain ⟨j, rfl⟩ := Nat.exists_eq_succ_of_ne_zero positive.ne'
  rw [run_succ']
  exact held j (by omega)

/-- With the registers `r` a high level state makes the call `c`, having changed them to `r'`. -/
def Makes (r r' : Memo) (c : Fsm → Fsm) : Prop :=
  ∀ (s : Fsm) (i : TickIn), s.memo = r → ∃ g : Fsm, g.memo = r' ∧ s.high i = c g

theorem Reaches.refl (ready : Ready w r t) : Reaches d w x 0 r t :=
  ⟨ready, fun _ positive bound => by omega⟩

section Then

variable {q : Memo}

/-- Another call follows. -/
private theorem Reaches.called {c : Fsm → Fsm} (first : Reaches d w x n r t) (k : ℕ) (r' : Memo)
    (T : Transcript → Prop) (makes : Makes r q c) (free : r.st = .boot ∨ r.st = .idle → t.current = .none)
    (same : r'.outputs = r.outputs)
    (coupled : ∀ (g : Fsm) (m : Scribe), g.memo = q → m.Hears t.rest [] t → Coupled d (c g) m t r' T)
    (ticks : ∀ g, (c g).left = k) : ∃ t', T t' ∧ Reaches d w x (n + (k + 1)) r' t' := by
  obtain ⟨g, memo, call⟩ := makes _ (closedIn d (run (closed d) w x n) (x (n + 0))) first.ready.memo
  obtain ⟨t', added, second⟩ := first.ready.called (x := fun j => x (n + j)) k r' T free
    (by rw [call]; exact coupled g _ memo first.ready.hears) (by rw [call, ticks])
  exact ⟨t', added, first.trans same second⟩

theorem Reaches.starts (first : Reaches d w x n r t) (ret : State) (makes : Makes r q (·.start ret))
    (free : r.st = .boot ∨ r.st = .idle → t.current = .none) (same : q.outputs = r.outputs) :
    Reaches d w x (n + 4) { q with st := ret } t.start := by
  obtain ⟨t', rfl, reaches⟩ := first.called 3 { q with st := ret } (· = t.start) makes free same
    (fun g m memo hears => ⟨hears, trivial, trivial, by rw [← memo]; rfl, rfl⟩)
    (fun g => rfl)
  exact reaches

/-- A STOP, after which the outputs may be others than before. -/
theorem Ready.stops (ready : Ready w r t) (ret : State) (makes : Makes r q (·.stop ret))
    (free : r.st = .boot ∨ r.st = .idle → t.current = .none) : Reaches d w x 4 { q with st := ret } t.stop := by
  obtain ⟨g, memo, call⟩ := makes _ (closedIn d w (x 0)) ready.memo
  obtain ⟨t', rfl, reaches⟩ := ready.called (d := d) (x := x) 3 { q with st := ret } (· = t.stop) free
    (by rw [call]; exact ⟨ready.hears, trivial, trivial, by rw [← memo]; rfl, rfl⟩) (by rw [call]; rfl)
  exact reaches

theorem Reaches.stops (first : Reaches d w x n r t) (ret : State) (makes : Makes r q (·.stop ret))
    (free : r.st = .boot ∨ r.st = .idle → t.current = .none) (same : q.outputs = r.outputs) :
    Reaches d w x (n + 4) { q with st := ret } t.stop :=
  first.trans same (first.ready.stops ret makes free)

theorem Reaches.transmits (first : Reaches d w x n r t) (byte : BitVec 8) (ret : State)
    (makes : Makes r q (·.transmit byte ret)) (acks : d.Acks t byte)
    (free : r.st = .boot ∨ r.st = .idle → t.current = .none)
    (same : q.outputs = r.outputs) :
    Reaches d w x (n + 28) { q with st := ret, ackNack := false } (t.word ⟨byte, true⟩) := by
  have low : t.rest = .low := if_pos acks.opened
  obtain ⟨t', rfl, reaches⟩ := first.called 27 { q with st := ret, ackNack := false }
    (· = t.word ⟨byte, true⟩) makes free same
    (fun g m memo hears => ⟨⟨[], rfl, low ▸ hears⟩, acks, trivial, by rw [← memo]; rfl, rfl⟩) (fun g => rfl)
  exact reaches

theorem Reaches.receives (first : Reaches d w x n r t) (ack : Bool) (ret : State)
    (makes : Makes r q (·.receive ack ret)) (sends : d.Sends t)
    (free : r.st = .boot ∨ r.st = .idle → t.current = .none)
    (same : q.outputs = r.outputs) :
    ∃ byte, Reaches d w x (n + 28) { q with st := ret, rxByte := d.supply t } (t.word ⟨byte, ack⟩) := by
  have low : t.rest = .low := if_pos sends.opened
  obtain ⟨t', ⟨byte, rfl⟩, reaches⟩ := first.called 27 { q with st := ret, rxByte := d.supply t }
    (fun t' => ∃ byte, t' = t.word ⟨byte, ack⟩) makes free same
    (fun g m memo hears => ⟨⟨[], rfl, low ▸ hears⟩, sends, fun j bound above => absurd above (by
      exact Nat.not_lt.mpr (Nat.le_of_lt_succ bound)), by rw [← memo]; rfl, fun byte => ⟨byte, rfl⟩⟩)
    (fun g => rfl)
  exact ⟨byte, reaches⟩

/-- A tick without a call. -/
theorem Reaches.moves (first : Reaches d w x n r t) (r' : Memo)
    (next : ∀ (s : Fsm) (i : TickIn), s.ll = .none → s.memo = r → i.tickRead = (x n).tickRead →
      i.bootDone = (x n).bootDone → (s.high i).ll = .none ∧ (s.high i).memo = r')
    (free : r.st = .boot ∨ r.st = .idle → t.current = .none) (same : r'.outputs = r.outputs) :
    Reaches d w x (n + 1) r' t := by
  obtain ⟨none, memo, hears, -⟩ := id first.ready
  obtain ⟨quiet, memo'⟩ := next _ (closedIn d (run (closed d) w x n) (x n)) none memo rfl rfl
  obtain ⟨step, knows⟩ := first.ready.high free (closedIn d (run (closed d) w x n) (x n))
  have step : run (closed d) w x (n + 1) = _ := step
  have ready : Ready (run (closed d) w x (n + 1)) r' t := by
    rw [step]
    exact ⟨quiet, memo', hears, knows⟩
  refine ⟨ready, fun k positive bound => ?_⟩
  rcases Nat.lt_or_ge n k with last | early
  · obtain rfl : k = n + 1 := by omega
    rw [ready.memo]
  · rw [first.held k positive early, same]

end Then

end Calls

end Telecran.Model.Adxl.Fsm
