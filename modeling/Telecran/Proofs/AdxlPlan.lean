import Telecran.Proofs.AdxlTranscript

/-! # What the accelerometer master has said

At every checkpoint the high level state, the last acknowledge and the init step tell how many of
the init writes have been made and what has been said since the last START.
-/

namespace Telecran.Model.Adxl.Fsm

open Machine Bus

/-- The init writes, in order. -/
def script : List Write := [⟨0x31, 0x08⟩, ⟨0x2C, 0x0A⟩, ⟨0x2D, 0x08⟩]

theorem script_drop {k : ℕ} {w : Write} (bound : k < 3) (chosen : (w.reg, w.val) = initWrite k) :
    script.drop k = w :: script.drop (k + 1) := by
  obtain ⟨reg, val⟩ := w
  obtain ⟨rfl, rfl⟩ := Prod.mk.inj chosen
  interval_cases k <;> rfl

/-- `k` of the init writes have been made, with these words since the last START. -/
structure Wrote (t : Transcript) (k : ℕ) (current : Option (List Word)) : Prop where
  remaining : remaining 0x3A script t.frames = script.drop k
  follows : Follows 0x3A script t.frames
  current : t.current = current

namespace Wrote

variable {t : Transcript} {k : ℕ} {words : List Word} {w : Write}

private theorem closed (wrote : Wrote t k (some words)) {b : Bool}
    (permitted : Permitted 0x3A (script.drop k) ⟨words, b⟩) :
    Follows 0x3A script (t.closed b) ∧
      Bus.remaining 0x3A script (t.closed b) = advance 0x3A (script.drop k) ⟨words, b⟩ := by
  have frames : t.closed b = t.frames ++ [⟨words, b⟩] := by
    rw [Transcript.closed, wrote.current]
    rfl
  rw [frames, remaining_concat, wrote.remaining]
  exact ⟨wrote.follows.concat (wrote.remaining ▸ permitted), rfl⟩

private theorem closed_free (wrote : Wrote t k none) (stopped : Bool) : t.closed stopped = t.frames := by
  rw [Transcript.closed, wrote.current]
  exact List.append_nil _

theorem start (wrote : Wrote t k none) : Wrote t.start k (some []) := by
  have same : t.start.frames = t.frames := wrote.closed_free false
  exact ⟨by rw [same, wrote.remaining], by rw [same]; exact wrote.follows, rfl⟩

theorem stop (wrote : Wrote t k none) : Wrote t.stop k none := by
  have same : t.stop.frames = t.frames := wrote.closed_free true
  exact ⟨by rw [same, wrote.remaining], by rw [same]; exact wrote.follows, rfl⟩

theorem word (wrote : Wrote t k (some words)) (w : Word) : Wrote (t.word w) k (some (words ++ [w])) :=
  ⟨wrote.remaining, wrote.follows, by rw [Transcript.word, wrote.current]; rfl⟩

/-- The write is given up. -/
theorem refused (wrote : Wrote t k (some words)) (bound : k < 3)
    (chosen : (w.reg, w.val) = initWrite k) (attempt : Attempt 0x3A w words false) :
    Wrote t.stop k none := by
  have next := script_drop bound chosen
  obtain ⟨follows, left⟩ := wrote.closed (b := true) (next ▸ Or.inr ⟨rfl, attempt⟩)
  refine ⟨?_, follows, rfl⟩
  rw [next] at left ⊢
  exact left.trans (if_neg (attempt.ne_made true))

/-- The write is made. -/
theorem made (wrote : Wrote t k (some (w.made 0x3A).words)) (bound : k < 3)
    (chosen : (w.reg, w.val) = initWrite k) : Wrote t.stop (k + 1) none := by
  have next := script_drop bound chosen
  obtain ⟨follows, left⟩ := wrote.closed (b := true) (next ▸ Or.inl rfl)
  refine ⟨?_, follows, rfl⟩
  rw [next] at left
  exact left.trans (if_pos rfl)

/-- After the last write nothing else is written. -/
theorem close (wrote : Wrote t 3 (some words)) (harmless : Harmless words) : Wrote t.stop 3 none := by
  obtain ⟨follows, left⟩ := wrote.closed (b := true) harmless
  exact ⟨left, follows, rfl⟩

theorem restart (wrote : Wrote t 3 (some words)) (harmless : Harmless words) :
    Wrote t.start 3 (some []) := by
  obtain ⟨follows, left⟩ := wrote.closed (b := false) harmless
  exact ⟨left, follows, rfl⟩

end Wrote

/-- The register and the value are those of the init step. -/
def Chosen (v : View) : Prop := v.initStep < 3 ∧ (v.curReg, v.curVal) = initWrite v.initStep

/-- A read has been addressed, or the frame is over. -/
def ReadOrOver (t : Transcript) : Prop :=
  Wrote t 3 none ∨ ∃ acked more, Wrote t 3 (some (⟨addrRd addr7, acked⟩ :: more))

/-- What has been said when the master comes to a high level state. -/
def Plan (v : View) (t : Transcript) : Prop :=
  match v.st with
  | .boot => Wrote t 0 none
  | .iWStart => v.initStep < 3 ∧ Wrote t v.initStep none
  | .iWAddr => Chosen v ∧ Wrote t v.initStep (some [])
  | .iWReg => Chosen v ∧ Wrote t v.initStep (some [⟨0x3A, !v.ackNack⟩])
  | .iWVal => Chosen v ∧ Wrote t v.initStep (some [⟨0x3A, true⟩, ⟨v.curReg, !v.ackNack⟩])
  | .iWStop =>
    Chosen v ∧ (Wrote t v.initStep (some [⟨0x3A, true⟩, ⟨v.curReg, true⟩, ⟨v.curVal, !v.ackNack⟩]) ∨
      v.ackNack = true ∧ Wrote t v.initStep none)
  | .iNext => v.initStep < 3 ∧ Wrote t (if v.ackNack then v.initStep else v.initStep + 1) none
  | .idStartw | .idle | .rStartw => Wrote t 3 none
  | .idAddrw | .idAddrr | .rAddrw | .rAddrr => Wrote t 3 (some [])
  | .idReg | .rReg => ∃ w, Wrote t 3 (some [w])
  | .idRepstart | .rRepstart => ∃ w w', Wrote t 3 (some [w, w'])
  | .idRx | .rRx0 | .rRx1 | .rRx2 | .rRx3 | .rRx4 | .rRx5 =>
    ∃ acked more, Wrote t 3 (some (⟨addrRd addr7, acked⟩ :: more))
  | .idStop | .rStop => ReadOrOver t

theorem harmless_read (acked : Bool) (more : List Word) :
    Harmless (⟨addrRd addr7, acked⟩ :: more) :=
  Or.inr ⟨_, _, rfl, show (addrRd addr7).getLsbD 0 = true by decide⟩

theorem ReadOrOver.stop {t : Transcript} (said : ReadOrOver t) : Wrote t.stop 3 none := by
  rcases said with ended | ⟨acked, more, wrote⟩
  · exact ended.stop
  · exact wrote.close (harmless_read acked more)

/-- Every high level state keeps to the plan. -/
theorem plan_high {s : Fsm} {m : Scribe} {t : Transcript} (plan : Plan s.view t)
    (ready : s.ll = .none) (hears : m.Hears t.rest [] t) (i : TickIn) : Tracks Plan (s.high i) m t := by
  have opened {k : ℕ} {words : List Word} (wrote : Wrote t k (some words)) :
      t.current.isSome = true := by
    rw [wrote.current]
    rfl
  obtain ⟨st, ll, sclOe, sdaOe, txByte, rxByte, bitI, ackNack, initStep, reg, val⟩ := s
  obtain rfl : ll = .none := ready
  cases st with
  | boot =>
    simp only [high]
    split_ifs
    · exact .idle hears rfl ⟨Nat.zero_lt_succ 2, plan⟩
    · exact .idle hears rfl plan
  | iWStart => exact .start hears rfl ⟨⟨plan.1, rfl⟩, plan.2.start⟩
  | iWAddr => exact .transmit hears rfl rfl (opened plan.2) fun nack => ⟨plan.1, plan.2.word _⟩
  | iWReg =>
    obtain ⟨chosen, wrote⟩ := plan
    cases ackNack with
    | true =>
      have ended := wrote.refused (w := ⟨reg, val⟩) chosen.1 chosen.2 (.address false)
      exact .stop hears rfl ⟨chosen, Or.inr ⟨rfl, ended⟩⟩
    | false => exact .transmit hears rfl rfl (opened wrote) fun nack => ⟨chosen, wrote.word _⟩
  | iWVal =>
    obtain ⟨chosen, wrote⟩ := plan
    cases ackNack with
    | true =>
      have ended := wrote.refused (w := ⟨reg, val⟩) chosen.1 chosen.2 (.register false)
      exact .stop hears rfl ⟨chosen, Or.inr ⟨rfl, ended⟩⟩
    | false => exact .transmit hears rfl rfl (opened wrote) fun nack => ⟨chosen, Or.inl (wrote.word _)⟩
  | iWStop =>
    obtain ⟨chosen, wrote | ⟨refused, wrote⟩⟩ := plan
    · cases ackNack with
      | true =>
        have ended := wrote.refused (w := ⟨reg, val⟩) chosen.1 chosen.2 (.value false)
        exact .stop hears rfl ⟨chosen.1, ended⟩
      | false =>
        have ended := wrote.made (w := ⟨reg, val⟩) chosen.1 chosen.2
        exact .stop hears rfl ⟨chosen.1, ended⟩
    · obtain rfl : ackNack = true := refused
      exact .stop hears rfl ⟨chosen.1, wrote.stop⟩
  | iNext =>
    obtain ⟨bound, wrote⟩ := plan
    cases ackNack with
    | true => exact .idle hears rfl ⟨bound, wrote⟩
    | false =>
      simp only [high, Bool.false_eq_true, if_false]
      split_ifs with last
      · subst last
        exact .idle hears rfl wrote
      · refine .idle hears rfl ⟨?_, wrote⟩
        have below : _ < 3 := bound
        simp only [view] at *
        omega
  | idStartw => exact .start hears rfl (Wrote.start plan)
  | idAddrw => exact .transmit hears rfl rfl (opened plan) fun nack => ⟨_, Wrote.word plan _⟩
  | idReg =>
    obtain ⟨w, wrote⟩ := plan
    cases ackNack with
    | true => exact .stop hears rfl (Or.inl (wrote.close (Or.inl (by simp))))
    | false => exact .transmit hears rfl rfl (opened wrote) fun nack => ⟨_, _, wrote.word _⟩
  | idRepstart =>
    obtain ⟨w, w', wrote⟩ := plan
    exact .start hears rfl (wrote.restart (Or.inl (by simp)))
  | idAddrr => exact .transmit hears rfl rfl (opened plan) fun nack => ⟨_, _, Wrote.word plan _⟩
  | idRx =>
    obtain ⟨acked, more, wrote⟩ := plan
    cases ackNack with
    | true => exact .stop hears rfl (Or.inl (wrote.close (harmless_read ..)))
    | false => exact .receive hears rfl rfl (opened wrote) fun w => Or.inr ⟨_, _, wrote.word w⟩
  | idStop => exact .stop hears rfl (ReadOrOver.stop plan)
  | idle =>
    simp only [high]
    split_ifs
    · exact .idle hears rfl plan
    · exact .idle hears rfl plan
  | rStartw => exact .start hears rfl (Wrote.start plan)
  | rAddrw => exact .transmit hears rfl rfl (opened plan) fun nack => ⟨_, Wrote.word plan _⟩
  | rReg =>
    obtain ⟨w, wrote⟩ := plan
    cases ackNack with
    | true => exact .stop hears rfl (Or.inl (wrote.close (Or.inl (by simp))))
    | false => exact .transmit hears rfl rfl (opened wrote) fun nack => ⟨_, _, wrote.word _⟩
  | rRepstart =>
    obtain ⟨w, w', wrote⟩ := plan
    exact .start hears rfl (wrote.restart (Or.inl (by simp)))
  | rAddrr => exact .transmit hears rfl rfl (opened plan) fun nack => ⟨_, _, Wrote.word plan _⟩
  | rRx5 =>
    obtain ⟨acked, more, wrote⟩ := plan
    exact .receive hears rfl rfl (opened wrote) fun w => Or.inr ⟨_, _, wrote.word w⟩
  | rStop => exact .stop hears rfl (ReadOrOver.stop plan)
  | _ =>
    obtain ⟨acked, more, wrote⟩ := plan
    exact .receive hears rfl rfl (opened wrote) fun w => ⟨_, _, wrote.word w⟩

/-! ## Once the writes are made -/

/-- After the init writes. -/
def late : State → Bool
  | .boot | .iWStart | .iWAddr | .iWReg | .iWVal | .iWStop | .iNext => false
  | _ => true

/-- The master is ready after the init writes only, and does not come back to them. -/
structure Phases (s : Fsm) : Prop where
  ready : s.readyI = true → late s.st = true
  stays : s.ll ≠ .none → late s.st = true → late s.nextSt = true

theorem low_readyI (s : Fsm) (i : TickIn) : (s.low i).readyI = s.readyI := by
  cases here : s.ll
  all_goals
    simp only [Fsm.low, here]
    try split_ifs
    all_goals rfl

/-- What a high level state does about the phases. -/
theorem high_phases (s : Fsm) (i : TickIn) (ready : s.ll = .none) :
    ((s.high i).ll ≠ .none → (s.high i).st = s.st) ∧
      (late s.st = true → late (s.high i).st = true ∧
        ((s.high i).ll ≠ .none → late (s.high i).nextSt = true)) ∧
      ((s.high i).readyI = true → s.readyI = true ∨ late s.st = true) ∧
      (late s.st = true → s.readyI = true → (s.high i).readyI = true) := by
  obtain ⟨st, ll⟩ := s
  obtain rfl : ll = .none := ready
  cases st with
  | _ =>
    simp only [high]
    try split_ifs
    all_goals simp [start, stop, transmit, receive, choose, late]

namespace Phases

variable {s : Fsm}

theorem tick (phases : Phases s) (i : TickIn) : Phases (s.tick i) := by
  rw [Fsm.tick]
  split_ifs with ready
  · obtain ⟨same, lates, sets, -⟩ := high_phases s i ready
    refine ⟨fun done => (lates ((sets done).elim phases.ready id)).1, fun busy here => ?_⟩
    exact (lates (same busy ▸ here)).2 busy
  · obtain ⟨-, back, ⟨going, same⟩ | ⟨ended, returned⟩⟩ := low_cases s i ready
    · refine ⟨fun done => ?_, fun _ here => ?_⟩
      · rw [low_readyI] at done
        rw [same]
        exact phases.ready done
      · rw [back]
        exact phases.stays ready (same ▸ here)
    · refine ⟨fun done => ?_, fun busy => absurd ended busy⟩
      rw [low_readyI] at done
      rw [returned]
      exact phases.stays ready (phases.ready done)

/-- Once set, ready stays. -/
theorem ready_tick (phases : Phases s) (i : TickIn) (done : s.readyI = true) :
    (s.tick i).readyI = true := by
  rw [Fsm.tick]
  split_ifs with ready
  · exact (high_phases s i ready).2.2.2 (phases.ready done) done
  · rwa [low_readyI]

end Phases

/-! ## Every run keeps to the plan -/

/-- A checkpoint of the plan was found, and the call under way leads to the next one. -/
structure Watched (w : Fsm × Scribe) (t : Transcript) : Prop where
  tracks : Tracks Plan w.1 w.2 t
  began : ∃ v : View, v.st = w.1.st ∧ Plan v t
  knows : w.2.Knows w.1.level
  phases : Phases w.1

namespace Watched

variable {w : Fsm × Scribe} {t : Transcript}

theorem reset : Watched (.reset, .fresh) .empty where
  tracks := .idle ⟨rfl, rfl, rfl⟩ rfl ⟨rfl, .nil, rfl⟩
  began := ⟨Fsm.reset.view, rfl, rfl, .nil, rfl⟩
  knows := ⟨rfl, rfl⟩
  phases := ⟨nofun, nofun⟩

/-- The states that release both lines find the bus free. -/
theorem free (watched : Watched w t) (ready : w.1.ll = .none)
    (waiting : w.1.st = .boot ∨ w.1.st = .idle) : w.2.line = .mark true := by
  have plan := watched.tracks.here ready
  have quiet : t.current = none := by
    rcases waiting with here | here
    · rw [Plan, view, here] at plan
      exact plan.current
    · rw [Plan, view, here] at plan
      exact plan.current
  rw [(watched.tracks.hears ready).line, Transcript.rest, quiet]
  rfl

theorem high (watched : Watched w t) (ready : w.1.ll = .none) (i : TickIn) :
    watch w i = (w.1.high i, w.2) := watch_high ready watched.knows (watched.free ready) i

theorem step (watched : Watched w t) (i : TickIn) : ∃ t', Watched (watch w i) t' := by
  have knows : (watch w i).2.Knows (watch w i).1.level := Scribe.knows_hear ..
  have phases : Phases (watch w i).1 := watched.phases.tick i
  by_cases ready : w.1.ll = .none
  · have next := watched.high ready i
    have tracks := plan_high (watched.tracks.here ready) ready (watched.tracks.hears ready) i
    refine ⟨t, by rwa [next], ?_, knows, phases⟩
    rw [next]
    by_cases calls : (w.1.high i).ll = .none
    · exact ⟨_, rfl, tracks.here calls⟩
    · rw [(high_phases w.1 i ready).1 calls]
      exact watched.began
  · have next := watch_low ready i
    obtain ⟨t', tracks, same⟩ := watched.tracks.low ready i
    refine ⟨t', by rwa [next], ?_, knows, phases⟩
    rw [next]
    by_cases calls : (w.1.low i).ll = .none
    · exact ⟨_, rfl, tracks.here calls⟩
    · obtain ⟨-, -, ⟨-, still⟩ | ⟨ended, -⟩⟩ := low_cases w.1 i ready
      · rw [same calls, still]
        exact watched.began
      · exact absurd ended calls

theorem run (watched : Watched w t) (input : ℕ → TickIn) (n : ℕ) :
    ∃ t', Watched (Machine.run watch w input n) t' :=
  run_invariant (P := fun w => ∃ t, Watched w t) ⟨t, watched⟩ (fun _ i ⟨_, now⟩ => now.step i) n

end Watched

end Telecran.Model.Adxl.Fsm
