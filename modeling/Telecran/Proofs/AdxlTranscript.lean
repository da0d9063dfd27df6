import Telecran.Bus.Transcript
import Telecran.Proofs.AdxlInvariants

/-! # The transcript of the accelerometer master

Between two calls a scribe on the bus has the transcript of the calls so far, and within a call it
knows how far the call has come. A property of the checkpoints between the calls therefore holds
along a run as soon as every high level state hands it to the state its call returns to.
-/

namespace Telecran.Model.Adxl.Fsm

open Machine Bus

/-! ## Within a call -/

/-- The bits already sent of the byte under way. -/
def Sent (s : Fsm) (bits : List Bool) : Prop :=
  bits ++ bitsFrom s.txByte s.bitI = bitsFrom s.txByte 7

/-- The scribe follows the call under way, which found the transcript `t`. -/
def Synced (s : Fsm) (m : Scribe) (t : Transcript) : Prop :=
  match s.ll with
  | .none | .startA | .stopA => m.Hears t.rest [] t
  | .startB => m.Hears (if t.current.isSome then .high true else .mark true) [] t
  | .startC => m.Hears (.mark false) [] t.start
  | .stopB => m.Hears .low [] t
  | .stopC => m.Hears (.high false) [] t
  | .txSet => ∃ bits, s.Sent bits ∧ m.Hears .low bits t
  | .txHigh => ∃ bits, s.Sent bits ∧ m.Hears .low bits t ∧ s.sdaOe = !s.txByte.getLsbD s.bitI
  | .txLow => ∃ bits, s.Sent bits ∧ m.Hears (.high (s.txByte.getLsbD s.bitI)) bits t
  | .txAckRel | .txAckHigh => m.Hears .low (bitsFrom s.txByte 7) t
  | .txAckLow => ∃ d, m.Hears (.high d) (bitsFrom s.txByte 7) t ∧ m.sample = s.ackNack
  | .rxRel | .rxHigh => ∃ bits, bits.length + s.bitI = 7 ∧ m.Hears .low bits t
  | .rxLow => ∃ bits d, bits.length + s.bitI = 7 ∧ m.Hears (.high d) bits t
  | .rxAckSet | .rxAckHigh => ∃ bits, bits.length = 8 ∧ m.Hears .low bits t
  | .rxAckLow => ∃ bits d, bits.length = 8 ∧ m.Hears (.high d) bits t

/-- The registers that decide what the master says next. -/
structure View where
  st : State
  ackNack : Bool
  initStep : ℕ
  curReg : BitVec 8
  curVal : BitVec 8

def view (s : Fsm) : View := ⟨s.st, s.ackNack, s.initStep, s.curReg, s.curVal⟩

/-- The view at the end of the call under way. -/
def back (s : Fsm) : View := { s.view with st := s.nextSt }

/-- Whatever the slave answers, the call under way ends with `P`. -/
def Promises (P : View → Transcript → Prop) (s : Fsm) (t : Transcript) : Prop :=
  match s.ll with
  | .none => P s.view t
  | .startA | .startB | .startC => P s.back t.start
  | .stopA | .stopB | .stopC => P s.back t.stop
  | .txSet | .txHigh | .txLow | .txAckRel | .txAckHigh =>
    ∀ nack, P { s.back with ackNack := nack } (t.word ⟨s.txByte, !nack⟩)
  | .txAckLow => P s.back (t.word ⟨s.txByte, !s.ackNack⟩)
  | .rxRel | .rxHigh | .rxLow | .rxAckSet | .rxAckHigh | .rxAckLow => ∀ w, P s.back (t.word w)

/-- Moving a byte. -/
def inByte : Ll → Bool
  | .none | .startA | .startB | .startC | .stopA | .stopB | .stopC => false
  | _ => true

/-- The scribe follows the call under way, which ends with `P`. -/
structure Tracks (P : View → Transcript → Prop) (s : Fsm) (m : Scribe) (t : Transcript) : Prop where
  synced : s.Synced m t
  opened : inByte s.ll = true → t.current.isSome = true
  promises : s.Promises P t

/-- The ticks until the call under way ends. -/
def left (s : Fsm) : ℕ :=
  match s.ll with
  | .none => 0
  | .startA | .stopA | .txAckRel | .rxAckSet => 3
  | .startB | .stopB | .txAckHigh | .rxAckHigh => 2
  | .startC | .stopC | .txAckLow | .rxAckLow => 1
  | .txSet | .rxRel => 3 * s.bitI + 6
  | .txHigh | .rxHigh => 3 * s.bitI + 5
  | .txLow | .rxLow => 3 * s.bitI + 4

theorem left_low_succ {s : Fsm} (busy : s.ll ≠ .none) (i : TickIn) : (s.low i).left + 1 = s.left := by
  cases here : s.ll with
  | none => exact absurd here busy
  | txLow | rxLow =>
    simp only [left, Fsm.low, here]
    split_ifs with last
    · simp [last]
    · simp only
      omega
  | _ => simp [left, Fsm.low, here]

section Low

variable {P : View → Transcript → Prop} {s : Fsm} {m : Scribe} {t : Transcript}

theorem sent_bit {i : ℕ} {bits : List Bool} (sent : s.Sent bits) (index : s.bitI = i + 1) :
    bits.length ≠ 8 ∧
      bits ++ [s.txByte.getLsbD (i + 1)] ++ bitsFrom s.txByte i = bitsFrom s.txByte 7 := by
  rw [Sent, index] at sent
  have total := congrArg List.length sent
  simp only [List.length_append, bitsFrom_length] at total
  refine ⟨by omega, ?_⟩
  rw [← sent, List.append_assoc]
  rfl

theorem sent_last {bits : List Bool} (sent : s.Sent bits) (index : s.bitI = 0) :
    bits.length ≠ 8 ∧ bits ++ [s.txByte.getLsbD 0] = bitsFrom s.txByte 7 := by
  rw [Sent, index] at sent
  have total := congrArg List.length sent
  simp only [List.length_append, bitsFrom_length] at total
  exact ⟨by omega, sent⟩

private theorem opened_of_still {ll : Ll} {p : Prop} (still : inByte ll = false) : inByte ll = true → p :=
  fun moving => absurd (still.symm.trans moving) Bool.false_ne_true

/-- Both lines are released for a START. -/
private theorem rest_released (t : Transcript) : t.rest.emits ⟨true, true⟩ = [] ∧
    t.rest.next ⟨true, true⟩ = if t.current.isSome then .high true else .mark true := by
  cases opened : t.current.isSome <;> simp [Transcript.rest, opened, Line.emits, Line.edge, Line.next]

private theorem released_start (b : Bool) :
    (if b then Line.high true else .mark true).emits ⟨true, false⟩ = [.start] ∧
      (if b then Line.high true else .mark true).next ⟨true, false⟩ = .mark false := by
  cases b <;> exact ⟨rfl, rfl⟩

/-- Both lines are pulled low for a STOP, which is stray on the free bus. -/
private theorem rest_pulled (hears : m.Hears t.rest [] t) (sda : Bool) :
    (m.hear ⟨false, false⟩ sda).Hears .low [] t := by
  cases opened : t.current.isSome with
  | true =>
    rw [Transcript.rest, opened] at hears
    exact hears.silent sda rfl
  | false =>
    rw [Transcript.rest, opened] at hears
    exact hears.stray sda rfl

private theorem rest_word (opened : t.current.isSome = true) (w : Word) : (t.word w).rest = .low := by
  rw [Transcript.rest, if_pos]
  simpa [Transcript.word] using opened

/-- One micro step of a call. -/
theorem Tracks.low (tracks : Tracks P s m t) (busy : s.ll ≠ .none) (i : TickIn) :
    ∃ t', Tracks P (s.low i) (m.hear (s.low i).level i.sdaIn) t' ∧ ((s.low i).ll ≠ .none → t' = t) := by
  obtain ⟨synced, opened, promises⟩ := tracks
  obtain ⟨st, ll, sclOe, sdaOe, txByte, rxByte, bitI, ackNack⟩ := s
  cases ll with
  | none => exact absurd rfl busy
  | startA =>
    have heard := Scribe.Hears.silent synced i.sdaIn (rest_released t).1
    rw [(rest_released t).2] at heard
    exact ⟨t, ⟨heard, opened_of_still rfl, promises⟩, fun _ => rfl⟩
  | startB =>
    have heard := Scribe.Hears.start synced i.sdaIn (released_start _).1
    rw [(released_start _).2] at heard
    exact ⟨t, ⟨heard, opened_of_still rfl, promises⟩, fun _ => rfl⟩
  | startC =>
    have heard := Scribe.Hears.silent (x := ⟨false, !sdaOe⟩) synced i.sdaIn rfl
    exact ⟨t.start, ⟨heard, opened_of_still rfl, promises⟩, fun going => absurd rfl going⟩
  | stopA =>
    have heard := rest_pulled synced i.sdaIn
    exact ⟨t, ⟨heard, opened_of_still rfl, promises⟩, fun _ => rfl⟩
  | stopB =>
    have heard := Scribe.Hears.silent (x := ⟨true, false⟩) synced i.sdaIn rfl
    exact ⟨t, ⟨heard, opened_of_still rfl, promises⟩, fun _ => rfl⟩
  | stopC =>
    have heard := Scribe.Hears.stop (x := ⟨true, true⟩) synced i.sdaIn rfl
    exact ⟨t.stop, ⟨heard, opened_of_still rfl, promises⟩, fun going => absurd rfl going⟩
  | txSet =>
    obtain ⟨bits, sent, hears⟩ := synced
    have heard := hears.silent (x := ⟨false, !!txByte.getLsbD bitI⟩) i.sdaIn rfl
    exact ⟨t, ⟨⟨bits, sent, heard, rfl⟩, opened, promises⟩, fun _ => rfl⟩
  | txHigh =>
    obtain ⟨bits, sent, hears, drives⟩ := synced
    obtain rfl : sdaOe = !txByte.getLsbD bitI := drives
    refine ⟨t, ⟨⟨bits, sent, ?_⟩, opened, promises⟩, fun _ => rfl⟩
    change (m.hear ⟨true, !!txByte.getLsbD bitI⟩ _).Hears (.high (txByte.getLsbD bitI)) bits t
    rw [Bool.not_not]
    exact hears.silent i.sdaIn rfl
  | txLow =>
    obtain ⟨bits, sent, hears⟩ := synced
    cases bitI with
    | zero =>
      obtain ⟨short, whole⟩ := sent_last sent rfl
      have heard := hears.bit (x := ⟨false, !sdaOe⟩) i.sdaIn rfl short
      rw [show _ ++ _ = _ from whole] at heard
      exact ⟨t, ⟨heard, opened, promises⟩, fun _ => rfl⟩
    | succ bitI =>
      obtain ⟨short, more⟩ := sent_bit sent rfl
      have heard := hears.bit (x := ⟨false, !sdaOe⟩) i.sdaIn rfl short
      exact ⟨t, ⟨⟨_, more, heard⟩, opened, promises⟩, fun _ => rfl⟩
  | txAckRel =>
    have heard := Scribe.Hears.silent (x := ⟨false, true⟩) synced i.sdaIn rfl
    exact ⟨t, ⟨heard, opened, promises⟩, fun _ => rfl⟩
  | txAckHigh =>
    have heard := Scribe.Hears.silent (x := ⟨true, !sdaOe⟩) synced i.sdaIn rfl
    refine ⟨t, ⟨⟨!sdaOe, heard, ?_⟩, opened, promises i.sdaIn⟩, fun _ => rfl⟩
    exact if_pos ⟨synced.line, rfl⟩
  | txAckLow =>
    obtain ⟨d, hears, sample⟩ := synced
    have heard : (m.hear ⟨false, !sdaOe⟩ i.sdaIn).Hears .low [] _ :=
      hears.ninth i.sdaIn rfl (bitsFrom_length ..)
    rw [byteOf_bitsFrom, sample, ← rest_word (opened rfl) ⟨txByte, !ackNack⟩] at heard
    exact ⟨_, ⟨heard, opened_of_still rfl, promises⟩, fun going => absurd rfl going⟩
  | rxRel =>
    obtain ⟨bits, length, hears⟩ := synced
    have heard := hears.silent (x := ⟨false, true⟩) i.sdaIn rfl
    exact ⟨t, ⟨⟨bits, length, heard⟩, opened, promises⟩, fun _ => rfl⟩
  | rxHigh =>
    obtain ⟨bits, length, hears⟩ := synced
    have heard := hears.silent (x := ⟨true, !sdaOe⟩) i.sdaIn rfl
    exact ⟨t, ⟨⟨bits, _, length, heard⟩, opened, promises⟩, fun _ => rfl⟩
  | rxLow =>
    obtain ⟨bits, d, length, hears⟩ := synced
    have total : bits.length + bitI = 7 := length
    have heard := hears.bit (x := ⟨false, !sdaOe⟩) i.sdaIn rfl (by omega)
    cases bitI with
    | zero =>
      refine ⟨t, ⟨⟨_, ?_, heard⟩, opened, promises⟩, fun _ => rfl⟩
      simpa using total
    | succ bitI =>
      refine ⟨t, ⟨⟨_, ?_, heard⟩, opened, promises⟩, fun _ => rfl⟩
      change (bits ++ [d]).length + bitI = 7
      rw [List.length_append, List.length_singleton]
      omega
  | rxAckSet =>
    obtain ⟨bits, length, hears⟩ := synced
    have heard (d : Bool) := hears.silent (x := ⟨false, d⟩) i.sdaIn rfl
    exact ⟨t, ⟨⟨bits, length, heard _⟩, opened, promises⟩, fun _ => rfl⟩
  | rxAckHigh =>
    obtain ⟨bits, length, hears⟩ := synced
    have heard := hears.silent (x := ⟨true, !sdaOe⟩) i.sdaIn rfl
    exact ⟨t, ⟨⟨bits, _, length, heard⟩, opened, promises⟩, fun _ => rfl⟩
  | rxAckLow =>
    obtain ⟨bits, d, length, hears⟩ := synced
    have heard : (m.hear ⟨false, true⟩ i.sdaIn).Hears .low [] _ := hears.ninth i.sdaIn rfl length
    rw [← rest_word (opened rfl) ⟨byteOf bits, !m.sample⟩] at heard
    exact ⟨_, ⟨heard, opened_of_still rfl, promises _⟩, fun going => absurd rfl going⟩

end Low

/-! ## Between two calls -/

section High

variable {P : View → Transcript → Prop} {s h : Fsm} {m : Scribe} {t : Transcript}

theorem Tracks.start (hears : m.Hears t.rest [] t) (call : h.ll = .startA)
    (promises : P h.back t.start) : Tracks P h m t := by
  cases h
  subst call
  exact ⟨hears, nofun, promises⟩

theorem Tracks.stop (hears : m.Hears t.rest [] t) (call : h.ll = .stopA)
    (promises : P h.back t.stop) : Tracks P h m t := by
  cases h
  subst call
  exact ⟨hears, nofun, promises⟩

theorem Tracks.transmit (hears : m.Hears t.rest [] t) (call : h.ll = .txSet) (index : h.bitI = 7)
    (opened : t.current.isSome = true)
    (promises : ∀ nack, P { h.back with ackNack := nack } (t.word ⟨h.txByte, !nack⟩)) :
    Tracks P h m t := by
  rw [Transcript.rest, if_pos opened] at hears
  cases h
  subst call index
  exact ⟨⟨[], rfl, hears⟩, fun _ => opened, promises⟩

theorem Tracks.receive (hears : m.Hears t.rest [] t) (call : h.ll = .rxRel) (index : h.bitI = 7)
    (opened : t.current.isSome = true) (promises : ∀ w, P h.back (t.word w)) : Tracks P h m t := by
  rw [Transcript.rest, if_pos opened] at hears
  cases h
  subst call index
  exact ⟨⟨[], rfl, hears⟩, fun _ => opened, promises⟩

theorem Tracks.idle (hears : m.Hears t.rest [] t) (ready : h.ll = .none) (promises : P h.view t) :
    Tracks P h m t := by
  cases h
  subst ready
  exact ⟨hears, nofun, promises⟩

theorem Tracks.hears (tracks : Tracks P s m t) (ready : s.ll = .none) : m.Hears t.rest [] t := by
  have synced := tracks.synced
  rw [Synced, ready] at synced
  exact synced

theorem Tracks.here (tracks : Tracks P s m t) (ready : s.ll = .none) : P s.view t := by
  have promises := tracks.promises
  rw [Promises, ready] at promises
  exact promises

/-- The scribe has the transcript of the last checkpoint, or has just heard a START. -/
theorem Tracks.transcript (tracks : Tracks P s m t) :
    m.transcript = t ∨ m.transcript = t.start ∧ P s.back t.start := by
  obtain ⟨synced, -, promises⟩ := tracks
  unfold Synced at synced
  unfold Promises at promises
  cases here : s.ll with
  | startC =>
    simp only [here] at synced promises
    exact Or.inr ⟨synced.transcript, promises⟩
  | none | startA | startB | stopA | stopB | stopC | txAckRel | txAckHigh =>
    simp only [here] at synced
    exact Or.inl synced.transcript
  | txHigh =>
    simp only [here] at synced
    obtain ⟨bits, -, hears, -⟩ := synced
    exact Or.inl hears.transcript
  | txAckLow =>
    simp only [here] at synced
    obtain ⟨d, hears, -⟩ := synced
    exact Or.inl hears.transcript
  | txSet | txLow | rxRel | rxHigh | rxAckSet | rxAckHigh =>
    simp only [here] at synced
    obtain ⟨bits, -, hears⟩ := synced
    exact Or.inl hears.transcript
  | rxLow | rxAckLow =>
    simp only [here] at synced
    obtain ⟨bits, d, -, hears⟩ := synced
    exact Or.inl hears.transcript

/-- Two promises are kept together. -/
theorem Tracks.and {Q : View → Transcript → Prop} (tracks : Tracks P s m t) (promises : Promises Q s t) :
    Tracks (fun v t => P v t ∧ Q v t) s m t := by
  refine ⟨tracks.synced, tracks.opened, ?_⟩
  have promised := tracks.promises
  unfold Promises at promised promises ⊢
  cases here : s.ll <;> simp only [here] at promised promises ⊢
  all_goals first
    | exact ⟨promised, promises⟩
    | exact fun x => ⟨promised x, promises x⟩

/-- A high level state leaves the lines alone or releases both. -/
theorem level_high (s : Fsm) (i : TickIn) : (s.high i).level = s.level ∨
    (s.st = .boot ∨ s.st = .idle) ∧ (s.high i).level = ⟨true, true⟩ := by
  obtain ⟨st⟩ := s
  cases st with
  | boot => exact Or.inr ⟨Or.inl rfl, by simp only [Fsm.high]; split_ifs <;> rfl⟩
  | idle => exact Or.inr ⟨Or.inr rfl, by simp only [Fsm.high]; split_ifs <;> rfl⟩
  | _ =>
    apply Or.inl
    simp only [Fsm.high]
    try split_ifs
    all_goals rfl

/-- A high level state that finds the bus as it leaves it is not heard. -/
theorem hear_high (knows : m.Knows s.level) (free : s.st = .boot ∨ s.st = .idle → m.line = .mark true)
    (i : TickIn) : m.hear (s.high i).level i.sdaIn = m := by
  rcases level_high s i with same | ⟨waiting, released⟩
  · rw [same]
    exact knows.hear _
  · have quiet : m.Knows ⟨true, true⟩ := by
      rw [Scribe.Knows, free waiting]
      exact ⟨rfl, rfl⟩
    rw [released]
    exact quiet.hear _

end High

/-! ## Runs -/

/-- The main process and the scribe on one I2C tick. -/
def watch (w : Fsm × Scribe) (i : TickIn) : Fsm × Scribe :=
  (w.1.tick i, w.2.hear (w.1.tick i).level i.sdaIn)

theorem watch_low {w : Fsm × Scribe} (busy : w.1.ll ≠ .none) (i : TickIn) :
    watch w i = (w.1.low i, w.2.hear (w.1.low i).level i.sdaIn) := by
  rw [watch, tick, if_neg busy]

theorem watch_high {w : Fsm × Scribe} (ready : w.1.ll = .none) (knows : w.2.Knows w.1.level)
    (free : w.1.st = .boot ∨ w.1.st = .idle → w.2.line = .mark true) (i : TickIn) :
    watch w i = (w.1.high i, w.2) := by
  rw [watch, tick, if_pos ready, hear_high knows free]

/-- Every call ends. -/
theorem Tracks.ends {P : View → Transcript → Prop} {w : Fsm × Scribe} {t : Transcript}
    (tracks : Tracks P w.1 w.2 t) (knows : w.2.Knows w.1.level) (input : ℕ → TickIn) :
    ∃ k t', (run watch w input k).1.ll = .none ∧
      Tracks P (run watch w input k).1 (run watch w input k).2 t' ∧
      (run watch w input k).2.Knows (run watch w input k).1.level := by
  induction ticks : w.1.left using Nat.strong_induction_on generalizing w t input with
  | _ n ih =>
    by_cases ready : w.1.ll = .none
    · exact ⟨0, t, ready, tracks, knows⟩
    · obtain ⟨t', tracks', -⟩ := tracks.low ready (input 0)
      have next := watch_low ready (input 0)
      have fewer := left_low_succ ready (input 0)
      obtain ⟨k, t'', done⟩ := ih _ (by omega : (w.1.low (input 0)).left < n) (w := (w.1.low (input 0), _)) tracks'
        (Scribe.knows_hear ..) (fun k => input (k + 1)) rfl
      refine ⟨k + 1, t'', ?_⟩
      rw [run_succ', next]
      exact done

end Telecran.Model.Adxl.Fsm
