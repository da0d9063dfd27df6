import Telecran.Proofs.AdxlTicks

/-! # The periodic reads

A read lasts from `ST_R_STARTW` until the master is idle again. Only the acknowledge of its first
byte decides how it goes on: without it the master gives up after 40 ticks and rewrites the outputs
from the bytes of the read before; with it the read takes 264 ticks, whatever the slave answers, and
the outputs are rewritten from the bytes sampled on the way.
-/

namespace Telecran.Model.Adxl

open Machine Bus

namespace Fsm

variable {s : Fsm} {input : ℕ → TickIn}

theorem busy_of_reading {x y : BitVec 16} : ∀ u, Reading x y u → u.st ≠ .idle :=
  fun _ reading => reading.1

theorem readRegister_acking (here : At .rStartw s) (acked : (input 30).sdaIn = false) :
    run tick s input 58 =
      ((s.addressed (input 30).sdaIn).transmit regDatax0 .rRepstart).acking := by
  have first : master.Segment _ s input _ _ _ := readAddress_run here
  have given : (s.addressed (input 30).sdaIn).ackNack = false := acked
  have state : (s.addressed (input 30).sdaIn).st = .rReg := rfl
  have goes_on : (s.addressed (input 30).sdaIn).high (input 32) =
      (s.addressed (input 30).sdaIn).transmit regDatax0 .rRepstart := by
    rw [high, state]
    simp only [given, Bool.false_eq_true, if_false]
  change run tick s input (32 + 26) = _
  rw [run_add, show run tick s input 32 = _ from first.last]
  exact transmit_acking rfl goes_on ⟨rfl, rfl, rfl⟩

/-- Giving up is a STOP before the closing one. -/
theorem readGiveUp_run (here : At .rReg s) (refused : s.ackNack = true) :
    master.Segment (Reading s.oAx s.oAy) s input (ticks [.stop]) (waves s.level [.stop])
      (s.stop .rStop).stopped := by
  cases s
  obtain ⟨rfl, rfl⟩ := here
  subst refused
  refine calls_cons rfl rfl rfl ⟨rfl, rfl, rfl⟩ rfl (reading_of_steady ⟨nofun, rfl, rfl⟩) ?_
  exact calls_nil _

/-- The state after a read whose address was acknowledged, on the tick that has changed the outputs. -/
def readResult (s : Fsm) (input : ℕ → TickIn) : Fsm :=
  ((s.addressed (input 30).sdaIn).collected (input 58).sdaIn (input 90).sdaIn
    (dataByte fun j => input (32 + j))).updated

/-- The levels of an acknowledged read, up to the tick that changes the outputs. -/
def readWave : List Level :=
  waves ⟨true, true⟩ address ++ waves ⟨false, true⟩ readBody ++ [⟨false, true⟩]

/-- The bytes of a read on the bus: two in front of the repeated START and seven after it. -/
def readParts : List (List Call) :=
  [[.transmit (addrWr addr7), .transmit regDatax0],
    [.transmit (addrRd addr7), .receive true, .receive true, .receive true, .receive true,
      .receive true, .receive false]]

theorem readWave_stop : readWave ++ stopWave = waves ⟨true, true⟩ (message readParts) := by
  have calls : message readParts = address ++ readBody ++ [.stop] := rfl
  rw [calls, waves_append, waves_append, readWave, List.append_assoc]
  rfl

theorem readParts_filled : ∀ part ∈ readParts, part ≠ [] := by simp [readParts]

theorem readParts_bytes : ∀ part ∈ readParts, ∀ c ∈ part, c.IsByte := by
  simp [readParts, Call.isByte_transmit, Call.isByte_receive]

/-- The address and the body of an acknowledged read, and the tick that changes the outputs. -/
theorem readTaken_run (input : ℕ → TickIn) (here : At .rStartw s) (free : s.level = ⟨true, true⟩)
    (acked : (input 30).sdaIn = false) :
    master.Segment (Reading s.oAx s.oAy) s input 261 readWave (s.readResult input) := by
  have first : master.Segment _ s input _ _ _ := readAddress_run here
  have second : master.Segment _ _ (fun j => input (ticks address + j)) _ _ _ :=
    readBody_run (s := s.addressed (input 30).sdaIn) ⟨rfl, rfl⟩ acked rfl
  have third := (readClose_run (s := (s.addressed (input 30).sdaIn).collected (input 58).sdaIn
    (input 90).sdaIn (dataByte fun j => input (32 + j))) (fun j => input (260 + j)) ⟨rfl, rfl⟩).1
  rw [free] at first
  exact (first.trans second).trans third

/-- After it the master is idle again, with the sampled bytes in the outputs. -/
theorem readTaken_close (s : Fsm) (input : ℕ → TickIn) :
    master.Segment (Reading (dataByte (fun j => input (32 + j)) 1 ++ dataByte (fun j => input (32 + j)) 0)
        (dataByte (fun j => input (32 + j)) 3 ++ dataByte (fun j => input (32 + j)) 2))
      (s.readResult input) (fun j => input (261 + j)) 3 stopWave (s.readResult input).stopped := by
  have close := (readClose_run (s := (s.addressed (input 30).sdaIn).collected (input 58).sdaIn
    (input 90).sdaIn (dataByte fun j => input (32 + j))) (fun j => input (260 + j)) ⟨rfl, rfl⟩).2
  simp only [← Nat.add_assoc] at close
  exact close

/-- On the tick that samples bit `i` of data byte `j` SCL is low and the master has released SDA. -/
theorem readWave_sample : ∀ j < 6, ∀ i < 8,
    readWave[31 + byteTick (3 * i + 2) j]? = some ⟨false, true⟩ := by
  decide +kernel

/-- A read whose address was refused is over after 40 ticks. -/
theorem readRefused_run (input : ℕ → TickIn) (here : At .rStartw s) (refused : (input 30).sdaIn = true) :
    ∃ levels t, master.Segment (fun u => u.st ≠ .idle) s input 40 levels t ∧ At .idle t ∧
      t.oAx = s.b1 ++ s.b0 ∧ t.oAy = s.b3 ++ s.b2 := by
  have first : master.Segment _ s input _ _ _ := readAddress_run here
  have second : master.Segment _ _ (fun j => input (ticks address + j)) _ _ _ :=
    readGiveUp_run (s := s.addressed (input 30).sdaIn) ⟨rfl, rfl⟩ refused
  have third := readClose_run (s := ((s.addressed (input 30).sdaIn).stop .rStop).stopped)
    (fun j => input (36 + j)) ⟨rfl, rfl⟩
  have head := (first.mono busy_of_reading).trans (second.mono busy_of_reading)
  have close := (third.1.mono busy_of_reading).trans (third.2.mono busy_of_reading)
  exact ⟨_, _, head.trans close, ⟨rfl, rfl⟩, rfl, rfl⟩

end Fsm

section Start

variable {g : Generics} {slave : ℕ → Bool} {k : ℕ}

theorem outputs_at (k : ℕ) : Fsm.Outputs (atTick g slave k).fsm := by
  rw [fsm_atTick]
  exact .run _ _

/-- A read starts on the free bus. -/
theorem free_at (starts : Fsm.At .rStartw (atTick g slave k).fsm) :
    (atTick g slave k).fsm.level = ⟨true, true⟩ := by
  obtain ⟨scl, sda⟩ := (outputs_at k).released starts
  rw [Fsm.level, scl, sda]
  rfl

/-- When a read starts the outputs belong to the captured bytes. -/
theorem settled_at (starts : Fsm.At .rStartw (atTick g slave k).fsm) :
    (atTick g slave k).fsm.oAx = (atTick g slave k).fsm.b1 ++ (atTick g slave k).fsm.b0 ∧
      (atTick g slave k).fsm.oAy = (atTick g slave k).fsm.b3 ++ (atTick g slave k).fsm.b2 := by
  refine (outputs_at k).settled ?_ fun stop => nomatch starts.1.symm.trans stop
  rw [starts.1]
  rfl

end Start

/-- A read, from the tick of `ST_R_STARTW` to the next tick of `ST_IDLE`. -/
structure Read (g : Generics) (slave : ℕ → Bool) where
  first : ℕ
  last : ℕ
  starts : Fsm.At .rStartw (atTick g slave first).fsm
  later : first < last
  busy : ∀ k, first ≤ k → k < last → (atTick g slave k).fsm.st ≠ .idle
  ends : (atTick g slave last).fsm.st = .idle

namespace Read

variable {g : Generics} {slave : ℕ → Bool} (r : Read g slave)

/-- The main process when the read starts. -/
def before : Fsm := (atTick g slave r.first).fsm

/-- The main process when it is idle again. -/
def idle : Fsm := (atTick g slave r.last).fsm

/-- What the main process reads on the ticks of the read. -/
def input (k : ℕ) : TickIn := tickInputs g slave (r.first + k)

/-- Data byte `j` as it is sampled when the address is acknowledged. -/
def burst (j : ℕ) : BitVec 8 := Fsm.dataByte (fun k => r.input (32 + k)) j

/-- One of the transmitted bytes is refused. -/
def Failed : Prop := ∃ k, r.first ≤ k ∧ k < r.last ∧
  (atTick g slave k).fsm.ll = .txAckHigh ∧ (tickInputs g slave k).sdaIn = true

/-- Every read that starts ends. -/
theorem exists_first {k : ℕ} (starts : Fsm.At .rStartw (atTick g slave k).fsm) :
    ∃ r : Read g slave, r.first = k := by
  have made : ∀ n levels t, Fsm.master.Segment (fun u => u.st ≠ .idle) (atTick g slave k).fsm
      (fun j => tickInputs g slave (k + j)) n levels t → t.st = .idle → 0 < n →
      ∃ r : Read g slave, r.first = k := by
    intro n levels t segment idle some
    refine ⟨⟨k, k + n, starts, by omega, fun m later early => ?_, ?_⟩, rfl⟩
    · obtain ⟨j, rfl⟩ := Nat.exists_eq_add_of_le later
      rw [fsm_atTick_add]
      exact segment.inside j (by omega)
    · rw [fsm_atTick_add, show run Fsm.tick _ _ n = t from segment.last]
      exact idle
  cases acked : (tickInputs g slave (k + 30)).sdaIn with
  | true =>
    obtain ⟨levels, t, segment, idle, -⟩ :=
      Fsm.readRefused_run (fun j => tickInputs g slave (k + j)) starts acked
    exact made _ _ _ segment idle.1 (by decide)
  | false =>
    have head := (Fsm.readTaken_run (fun j => tickInputs g slave (k + j)) starts
      (free_at starts) acked).mono Fsm.busy_of_reading
    have close := (Fsm.readTaken_close (atTick g slave k).fsm fun j =>
      tickInputs g slave (k + j)).mono Fsm.busy_of_reading
    exact made _ _ _ (head.trans close) rfl (by decide)

theorem fsm_add (k : ℕ) : (atTick g slave (r.first + k)).fsm = run Fsm.tick r.before r.input k :=
  fsm_atTick_add g slave r.first k

/-- The read ends with the first segment that ends in `ST_IDLE`. -/
theorem ends_with {n : ℕ} {levels : List Level} {t : Fsm}
    (segment : Fsm.master.Segment (fun u => u.st ≠ .idle) r.before r.input n levels t)
    (idle : t.st = .idle) : r.last = r.first + n ∧ r.idle = t := by
  have found : (atTick g slave (r.first + n)).fsm = t := (r.fsm_add n).trans segment.last
  have same : r.last = r.first + n := by
    rcases Nat.lt_trichotomy r.last (r.first + n) with early | same | late
    · obtain ⟨k, place⟩ := Nat.exists_eq_add_of_le r.later.le
      have still := segment.inside k (by omega)
      rw [show run Fsm.master.step r.before r.input k = _ from (r.fsm_add k).symm, ← place] at still
      exact absurd r.ends still
    · exact same
    · exact absurd (found ▸ idle) (r.busy _ (Nat.le_add_right ..) late)
  exact ⟨same, by rw [Read.idle, same, found]⟩

/-- With its address refused the read is given up and the outputs are as before. -/
theorem refused (missing : (r.input 30).sdaIn = true) :
    r.last = r.first + 40 ∧ r.idle.oAx = r.before.oAx ∧ r.idle.oAy = r.before.oAy := by
  obtain ⟨levels, t, segment, idle, x, y⟩ := Fsm.readRefused_run r.input r.starts missing
  obtain ⟨place, rfl⟩ := r.ends_with segment idle.1
  obtain ⟨x', y'⟩ := settled_at r.starts
  exact ⟨place, x.trans x'.symm, y.trans y'.symm⟩

/-- With its address acknowledged the read takes its whole time, and its bytes are in the outputs. -/
theorem taken (acked : (r.input 30).sdaIn = false) :
    r.last = r.first + 264 ∧ r.idle.oAx = r.burst 1 ++ r.burst 0 ∧
      r.idle.oAy = r.burst 3 ++ r.burst 2 := by
  have head := (Fsm.readTaken_run r.input r.starts (free_at r.starts) acked).mono Fsm.busy_of_reading
  have close := (Fsm.readTaken_close r.before r.input).mono Fsm.busy_of_reading
  obtain ⟨place, same⟩ := r.ends_with (head.trans close) rfl
  rw [same]
  exact ⟨place, rfl, rfl⟩

/-- The acknowledge of the address is sampled on tick 30 of the read. -/
theorem failed_of_refused (missing : (r.input 30).sdaIn = true) : r.Failed := by
  have acking : (atTick g slave (r.first + 30)).fsm = _ :=
    (r.fsm_add 30).trans (Fsm.readAddresses r.starts).acking
  have length := (r.refused missing).1
  refine ⟨r.first + 30, Nat.le_add_right .., by omega, ?_, missing⟩
  rw [acking]
  rfl

theorem sampling_level (acked : (r.input 30).sdaIn = false) {i j : ℕ} (byte : j < 6) (bit : i < 8) :
    (atTick g slave (r.first + (32 + Fsm.byteTick (3 * i + 2) j))).fsm.level = ⟨false, true⟩ := by
  have wave := (Fsm.readTaken_run r.input r.starts (free_at r.starts) acked).heard
  have found := Fsm.readWave_sample j byte i bit
  have place : 31 + Fsm.byteTick (3 * i + 2) j < 261 := by
    rw [Fsm.byteTick_eq]
    omega
  rw [← wave, Fsm.emitted_eq, List.getElem?_map, List.getElem?_range place] at found
  rw [r.fsm_add, show 32 + Fsm.byteTick (3 * i + 2) j = 31 + Fsm.byteTick (3 * i + 2) j + 1 by omega]
  exact Option.some.inj found

/-- The bits of the data bytes are what the slave drives on the clocks before the sampling ticks. -/
theorem sample_eq (slow : 1 < g.cDiv) (acked : (r.input 30).sdaIn = false) {i j : ℕ} (byte : j < 6)
    (bit : i < 8) : (r.input (32 + Fsm.byteTick (3 * i + 2) j)).sdaIn =
      slave (g.cDiv * (r.first + (32 + Fsm.byteTick (3 * i + 2) j) + 1) - 1) := by
  have released : (atTick g slave (r.first + (32 + Fsm.byteTick (3 * i + 2) j))).fsm.sdaOe = false := by
    simpa [Fsm.level] using congrArg Level.sda (r.sampling_level acked byte bit)
  rw [input, sdaIn_atTick g slave slow, released, Bool.not_false, Bool.and_true]

end Read

end Telecran.Model.Adxl
