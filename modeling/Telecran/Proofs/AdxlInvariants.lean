import Telecran.Proofs.AdxlOps

/-! # Invariants of the accelerometer master

Between reads the outputs are the bytes last captured, and a read starts with both lines released.
As long as no acknowledge is missed where the master checks it, the checking states find it given.
-/

namespace Telecran.Model.Adxl.Fsm

open Machine

/-! ## What a micro step leaves alone -/

/-- The captured bytes and the outputs are the same. -/
structure Kept (s u : Fsm) : Prop where
  b0 : u.b0 = s.b0
  b1 : u.b1 = s.b1
  b2 : u.b2 = s.b2
  b3 : u.b3 = s.b3
  oAx : u.oAx = s.oAx
  oAy : u.oAy = s.oAy

/-- A micro step goes on within the call or returns from it. -/
theorem low_cases (s : Fsm) (i : TickIn) (busy : s.ll ≠ .none) :
    Kept s (s.low i) ∧ (s.low i).nextSt = s.nextSt ∧
      ((s.low i).ll ≠ .none ∧ (s.low i).st = s.st ∨ (s.low i).ll = .none ∧ (s.low i).st = s.nextSt) := by
  cases here : s.ll with
  | none => contradiction
  | _ =>
    simp only [Fsm.low, here]
    try split_ifs
    all_goals exact ⟨⟨rfl, rfl, rfl, rfl, rfl, rfl⟩, by simp⟩

/-! ## The outputs -/

/-- Capturing the bytes of a burst. -/
def inBurst : State → Bool
  | .rRx1 | .rRx2 | .rRx3 | .rRx4 | .rRx5 => true
  | _ => false

/-- The outputs are made of the captured bytes. -/
def Settled (s : Fsm) : Prop := s.oAx = s.b1 ++ s.b0 ∧ s.oAy = s.b3 ++ s.b2

theorem Settled.kept {s u : Fsm} (settled : Settled s) (kept : Kept s u) : Settled u := by
  rw [Settled, kept.oAx, kept.oAy, kept.b0, kept.b1, kept.b2, kept.b3]
  exact settled

/-- A high level state captures a byte, rewrites the outputs or leaves them alone. -/
theorem high_cases (s : Fsm) (i : TickIn) :
    inBurst s.st = true ∧ (s.high i).st = s.st ∧
        (inBurst (s.high i).nextSt = true ∨ (s.high i).nextSt = .rStop) ∨
      (s.high i).st = .rStop ∧ Settled (s.high i) ∨
      Kept s (s.high i) ∧ inBurst s.st = false ∧ s.st ≠ .rStop ∧ inBurst (s.high i).st = false := by
  obtain ⟨st⟩ := s
  cases st with
  | rRx1 => exact Or.inl ⟨rfl, rfl, Or.inl rfl⟩
  | rRx2 => exact Or.inl ⟨rfl, rfl, Or.inl rfl⟩
  | rRx3 => exact Or.inl ⟨rfl, rfl, Or.inl rfl⟩
  | rRx4 => exact Or.inl ⟨rfl, rfl, Or.inl rfl⟩
  | rRx5 => exact Or.inl ⟨rfl, rfl, Or.inr rfl⟩
  | rStop => exact Or.inr (Or.inl ⟨rfl, rfl, rfl⟩)
  | _ =>
    refine Or.inr (Or.inr ?_)
    simp only [Fsm.high]
    try split_ifs
    all_goals exact ⟨⟨rfl, rfl, rfl, rfl, rfl, rfl⟩, rfl, nofun, rfl⟩

/-- Only the idle master, which has released both lines, goes on to a read. -/
theorem high_starts (s : Fsm) (i : TickIn) (ready : s.ll = .none) (kept : s.nextSt ≠ .rStartw) :
    (s.high i).nextSt ≠ .rStartw ∧
      (At .rStartw (s.high i) → (s.high i).sclOe = false ∧ (s.high i).sdaOe = false) := by
  obtain ⟨st⟩ := s
  cases st with
  | _ =>
    simp only [Fsm.high]
    try split_ifs
    all_goals simp_all [At, Fsm.start, Fsm.stop, Fsm.transmit, Fsm.receive, Fsm.choose]

/-- It does so when it is ready and the read timer ticks. -/
theorem high_requested {s : Fsm} {i : TickIn} (begins : At .rStartw (s.high i)) :
    s.readyI = true ∧ i.tickRead = true := by
  obtain ⟨here, none⟩ := begins
  obtain ⟨st⟩ := s
  cases st with
  | idle =>
    simp only [Fsm.high] at here
    split_ifs at here with request
    exact (Bool.and_eq_true ..).mp request
  | _ =>
    revert here none
    simp only [Fsm.high, Fsm.start, Fsm.stop, Fsm.transmit, Fsm.receive]
    try split_ifs
    all_goals simp

/-- The outputs belong to the captured bytes, except while a burst is being captured. -/
structure Outputs (s : Fsm) : Prop where
  settled : inBurst s.st = false → (s.st = .rStop → s.ll ≠ .none) → Settled s
  returns : s.ll ≠ .none → inBurst s.st = true → inBurst s.nextSt = true ∨ s.nextSt = .rStop
  released : At .rStartw s → s.sclOe = false ∧ s.sdaOe = false
  never : s.nextSt ≠ .rStartw

namespace Outputs

variable {s : Fsm}

theorem low (o : Outputs s) (i : TickIn) (busy : s.ll ≠ .none) : Outputs (s.low i) := by
  obtain ⟨kept, back, ⟨going, same⟩ | ⟨ended, returned⟩⟩ := low_cases s i busy
  · refine ⟨fun burst stop => ?_, fun _ burst => ?_, fun start => absurd start.2 going, ?_⟩
    · exact (o.settled (same ▸ burst) fun _ => busy).kept kept
    · rw [back]
      exact o.returns busy (same ▸ burst)
    · rw [back]
      exact o.never
  · refine ⟨fun burst stop => ?_, fun busy' => absurd ended busy', fun start => ?_, ?_⟩
    · rw [returned] at burst stop
      refine (o.settled (Bool.eq_false_iff.mpr fun inside => ?_) fun _ => busy).kept kept
      rcases o.returns busy inside with again | stopped
      · exact Bool.false_ne_true (burst.symm.trans again)
      · exact stop stopped ended
    · exact absurd (returned.symm.trans start.1) o.never
    · rw [back]
      exact o.never

theorem high (o : Outputs s) (i : TickIn) (ready : s.ll = .none) : Outputs (s.high i) := by
  obtain ⟨never, released⟩ := high_starts s i ready o.never
  rcases high_cases s i with ⟨inside, same, back⟩ | ⟨stop, settled⟩ | ⟨kept, outside, running, after⟩
  · refine ⟨fun burst _ => ?_, fun _ _ => back, released, never⟩
    rw [same, inside] at burst
    contradiction
  · refine ⟨fun _ _ => settled, fun _ burst => ?_, released, never⟩
    rw [stop] at burst
    contradiction
  · refine ⟨fun _ _ => ?_, fun _ burst => ?_, released, never⟩
    · exact (o.settled outside fun stop => absurd stop running).kept kept
    · rw [after] at burst
      contradiction

theorem run (input : ℕ → TickIn) (n : ℕ) : Outputs (Machine.run tick reset input n) := by
  refine run_invariant ⟨fun _ _ => ⟨rfl, rfl⟩, nofun, fun start => absurd start.1 nofun, nofun⟩ ?_ n
  intro s i o
  rw [tick]
  split_ifs with ready
  · exact o.high i ready
  · exact o.low i ready

end Outputs

/-! ## Acknowledges -/

/-- The states that give up when the last acknowledge is missing. -/
def checks : State → Bool
  | .iWReg | .iWVal | .idReg | .idRx | .rReg => true
  | _ => false

def transmitting : Ll → Bool
  | .txSet | .txHigh | .txLow | .txAckRel | .txAckHigh | .txAckLow => true
  | _ => false

/-- An acknowledge that the master checks is missing. -/
def Refused (s : Fsm) (i : TickIn) : Prop :=
  s.ll = .txAckHigh ∧ checks s.nextSt = true ∧ i.sdaIn = true

/-- A transmission samples its acknowledge, returns with it or goes on. -/
theorem low_transmitting {s : Fsm} (i : TickIn) (busy : transmitting s.ll = true) :
    s.ll = .txAckHigh ∧ (s.low i).ll = .txAckLow ∧ (s.low i).ackNack = i.sdaIn ∨
      s.ll = .txAckLow ∧ (s.low i).ll = .none ∧ (s.low i).ackNack = s.ackNack ∨
      transmitting (s.low i).ll = true ∧ (s.low i).ll ≠ .txAckLow := by
  cases here : s.ll with
  | txSet | txHigh | txAckRel => exact Or.inr (Or.inr (by simp [Fsm.low, here, transmitting]))
  | txLow =>
    refine Or.inr (Or.inr ?_)
    simp only [Fsm.low, here]
    split_ifs
    all_goals simp [transmitting]
  | txAckHigh => exact Or.inl (by simp [Fsm.low, here])
  | txAckLow => exact Or.inr (Or.inl (by simp [Fsm.low, here]))
  | _ =>
    rw [here] at busy
    contradiction

/-- A high level state returns to a checking state only from a transmission. -/
theorem high_calls (s : Fsm) (i : TickIn) (ready : s.ll = .none) :
    (s.high i).ll = .none ∧ checks (s.high i).st = false ∨ (s.high i).ll = .txSet ∨
      (s.high i).ll ≠ .none ∧ (s.high i).ll ≠ .txAckLow ∧ checks (s.high i).nextSt = false := by
  obtain ⟨st, ll⟩ := s
  obtain rfl : ll = .none := ready
  cases st with
  | _ =>
    simp only [Fsm.high]
    try split_ifs
    all_goals first
      | exact Or.inl ⟨rfl, rfl⟩
      | exact Or.inr (Or.inl rfl)
      | exact Or.inr (Or.inr ⟨nofun, nofun, rfl⟩)

/-- Every checked acknowledge so far has been given. -/
structure Acked (s : Fsm) : Prop where
  sampled : s.ll = .txAckLow → checks s.nextSt = true → s.ackNack = false
  checked : s.ll = .none → checks s.st = true → s.ackNack = false
  called : s.ll ≠ .none → checks s.nextSt = true → transmitting s.ll = true

namespace Acked

variable {s : Fsm}

theorem low (a : Acked s) (i : TickIn) (busy : s.ll ≠ .none) (given : ¬ Refused s i) :
    Acked (s.low i) := by
  obtain ⟨-, back, returns⟩ := low_cases s i busy
  constructor
  · intro sampling checks
    rw [back] at checks
    rcases low_transmitting i (a.called busy checks) with ⟨here, -, ack⟩ | ⟨-, ended, -⟩ | ⟨-, other⟩
    · rw [ack]
      exact Bool.eq_false_iff.mpr fun missing => given ⟨here, checks, missing⟩
    · exact nomatch ended.symm.trans sampling
    · exact absurd sampling other
  · intro ready checks
    obtain ⟨going, -⟩ | ⟨-, returned⟩ := returns
    · exact absurd ready going
    rw [returned] at checks
    rcases low_transmitting i (a.called busy checks) with ⟨-, later, -⟩ | ⟨here, -, ack⟩ | ⟨goes, -⟩
    · exact nomatch later.symm.trans ready
    · exact ack.trans (a.sampled here checks)
    · rw [ready] at goes
      contradiction
  · intro busy' checks
    rw [back] at checks
    rcases low_transmitting i (a.called busy checks) with ⟨-, later, -⟩ | ⟨-, ended, -⟩ | ⟨goes, -⟩
    · rw [later]
      rfl
    · exact absurd ended busy'
    · exact goes

theorem high (s : Fsm) (i : TickIn) (ready : s.ll = .none) : Acked (s.high i) := by
  rcases high_calls s i ready with ⟨still, passes⟩ | call | ⟨busy, other, passes⟩
  · refine ⟨fun sampling => (nomatch still.symm.trans sampling), fun _ checks => ?_,
      fun busy => absurd still busy⟩
    exact absurd (passes.symm.trans checks) Bool.false_ne_true
  · refine ⟨fun sampling => (nomatch call.symm.trans sampling),
      fun ready => (nomatch call.symm.trans ready), fun _ _ => ?_⟩
    rw [call]
    rfl
  · refine ⟨fun sampling => absurd sampling other, fun ready => absurd ready busy, fun _ checks => ?_⟩
    exact absurd (passes.symm.trans checks) Bool.false_ne_true

theorem run {input : ℕ → TickIn}
    (given : ∀ n, ¬ Refused (Machine.run tick reset input n) (input n)) (n : ℕ) :
    Acked (Machine.run tick reset input n) := by
  have start : Acked reset := by constructor <;> simp [reset, checks]
  refine run_invariant_at (P := fun _ => Acked) start (fun n a => ?_) n
  rw [tick]
  split_ifs with ready
  · exact high _ _ ready
  · exact a.low _ ready (given n)

end Acked

end Telecran.Model.Adxl.Fsm
