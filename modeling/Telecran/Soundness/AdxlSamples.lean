import Telecran.Proofs.AdxlFrames
import Telecran.Proofs.AdxlStart
import Telecran.Soundness.Configured

/-! # The samples are the device's registers

The accelerometer master at its default generics and a register file at its address, on one bus: the
master configures the device, reports ready, and from then on its outputs are the data registers of
the device as they were during one frame of the last read, for both axes alike.
-/

namespace Telecran.Soundness.AdxlSamples

open Machine Model Bus Adxl Adxl.Fsm Configured

/-! ## The closed loop -/

/-- The master and a device, clock by clock. -/
def bus (g : Generics) (d : Device) : ℕ → Adxl × Scribe
  | 0 => (.reset, .fresh)
  | n + 1 =>
    let a := (bus g d n).1.clock g (d.answer (bus g d n).2.transcript (bus g d n).2.bits)
    (a, (bus g d n).2.hear a.fsm.level (bus g d n).1.sdaIn)

/-- SDA as the device leaves it on clock `n`. -/
def drive (g : Generics) (d : Device) (n : ℕ) : Bool :=
  d.answer (bus g d n).2.transcript (bus g d n).2.bits

section Loop

variable (g : Generics) (d : Device)

theorem bus_eq (n : ℕ) : bus g d n = (after g (drive g d) n, heard g (drive g d) n) := by
  induction n with
  | zero => rfl
  | succ n ih =>
    rw [heard, after_succ, drive, ih, bus, ih]

/-- A master whose SDA input is the device's is the one of the loop. -/
theorem eq_bus {x : ℕ → Adxl} (start : x 0 = .reset) (law : ∀ n, x (n + 1) = (x n).clock g (drive g d n))
    (n : ℕ) : x n = (bus g d n).1 := by
  induction n with
  | zero => exact start
  | succ n ih =>
    rw [law, ih]
    rfl

/-- The two timers on the ticks of the main process. -/
def timers (k : ℕ) : Timers :=
  ⟨(tickInputs g (drive g d) k).tickRead, (tickInputs g (drive g d) k).bootDone⟩

/-- On a tick the device answers what it has heard by then. -/
private theorem drive_tick (slow : 1 < g.cDiv) (k : ℕ) : drive g d (g.cDiv * (k + 1) - 1) =
    d.answer (heard g (drive g d) (g.cDiv * (k + 1))).transcript (heard g (drive g d) (g.cDiv * (k + 1))).bits := by
  obtain ⟨c, length⟩ : ∃ c, g.cDiv * (k + 1) = c + 1 :=
    Nat.exists_eq_succ_of_ne_zero (Nat.mul_ne_zero (by omega) k.succ_ne_zero)
  have quiet : ¬ (Divider.after g.cDiv c).tick = true := by
    rw [Divider.after_tick g.cDiv_pos, ← Nat.dvd_iff_mod_eq_zero]
    rintro ⟨-, divides⟩
    have one := (Nat.dvd_add_right divides).mp ((Nat.dvd_mul_right ..).trans length.dvd)
    exact absurd (Nat.dvd_one.mp one) (by omega)
  have next := congrArg Prod.snd (watching_succ g (drive g d) c)
  rw [if_neg quiet] at next
  have same : heard g (drive g d) (c + 1) = heard g (drive g d) c := next
  rw [length, Nat.add_sub_cancel, same, drive, bus_eq]

/-- Tick by tick the master samples the answers of the device. -/
theorem watching_closed (slow : 1 < g.cDiv) (k : ℕ) : watching g (drive g d) (g.cDiv * (k + 1)) =
    run (closed d) (.reset, .fresh) (timers g d) k := by
  induction k with
  | zero => exact watching_atTick g (drive g d) 0
  | succ k ih =>
    rw [run_succ, ← ih, watching_atTick, run_succ, ← watching_atTick, closed, closedIn]
    congr 1
    have sample := sdaIn_atTick g (drive g d) slow k
    rw [drive_tick g d slow k] at sample
    exact congrArg (fun sda => TickIn.mk sda _ _) sample

private theorem fsm_closed (slow : 1 < g.cDiv) (k : ℕ) :
    (atTick g (drive g d) k).fsm = (run (closed d) (.reset, .fresh) (timers g d) k).1 :=
  congrArg Prod.fst (watching_closed g d slow k)

private theorem heard_closed (slow : 1 < g.cDiv) (k : ℕ) :
    heard g (drive g d) (g.cDiv * (k + 1)) = (run (closed d) (.reset, .fresh) (timers g d) k).2 :=
  congrArg Prod.snd (watching_closed g d slow k)

end Loop

/-! ## Tick by tick -/

section Ticks

variable (d : Device)

/-- The main process and the scribe after `k` ticks. -/
def ticked (k : ℕ) : Fsm × Scribe := run (closed d) (.reset, .fresh) (timers defaults d) k

/-- The outputs while read `j` starts: those of the read before. -/
def settled : ℕ → BitVec 16 × BitVec 16
  | 0 => (0, 0)
  | j + 1 => outputsOf (d.regs (2 * j + 6))

variable {d}

private theorem tickRead_timers (k : ℕ) : (timers defaults d k).tickRead = decide ((k + 1) % 20000 = 0) := by
  rw [timers, tickRead_defaults]

private theorem bootDone_timers (k : ℕ) : (timers defaults d k).bootDone = decide (39999 ≤ k) := by
  have wait : 0 < defaults.tbootDiv := by simp
  rw [timers, bootDone_at wait k, defaults_tbootDiv, defaults_cDiv, decide_eq_decide]
  omega

private theorem ticked_opening (own : Addressed d) :
    (∀ k ≤ 40399, (ticked d k).1.memo.outputs = (0, 0, false)) ∧
      (∀ k, 40399 < k → k ≤ 60000 → (ticked d k).1.memo.outputs = (0, 0, true)) ∧
      Starting (ticked d 60000) 5 (0, 0) := by
  refine opening_run (b := 39999) (m := 19596) own (fun j bound => ?_) ?_ (fun j bound => ?_) ?_
  · rw [bootDone_timers, decide_eq_false (by omega)]
  · rw [bootDone_timers, decide_eq_true (Nat.le_refl _)]
  · rw [tickRead_timers, decide_eq_false (by omega)]
  · rw [tickRead_timers, decide_eq_true rfl]

/-- One read after the other. -/
private theorem ticked_period {k frames : ℕ} {o : BitVec 16 × BitVec 16} (own : Addressed d)
    (aligned : k % 20000 = 0) (starting : Starting (ticked d k) frames o) :
    (∀ i, k ≤ i → i ≤ k + 260 → (ticked d i).1.memo.outputs = (o.1, o.2, true)) ∧
      (∀ i, k + 260 < i → i ≤ k + 20000 → (ticked d i).1.memo.outputs =
        ((outputsOf (d.regs (frames + 1))).1, (outputsOf (d.regs (frames + 1))).2, true)) ∧
      Starting (ticked d (k + 20000)) (frames + 2) (outputsOf (d.regs (frames + 1))) := by
  obtain ⟨before, now, next⟩ := period_run (x := fun j => timers defaults d (k + j)) (m := 19735) own starting
    (fun j bound => by rw [tickRead_timers, decide_eq_false (by omega)])
    (by rw [tickRead_timers, decide_eq_true (by omega)])
  have split (j : ℕ) : ticked d (k + j) = run (closed d) (ticked d k) (fun j => timers defaults d (k + j)) j :=
    run_add k j
  refine ⟨fun i later bound => ?_, fun i later bound => ?_, ?_⟩
  · obtain ⟨j, rfl⟩ := Nat.exists_eq_add_of_le later
    rw [split]
    exact before j (by omega)
  · obtain ⟨j, rfl⟩ := Nat.exists_eq_add_of_le (by omega : k ≤ i)
    rw [split]
    exact now j (by omega) (by omega)
  · rw [split]
    exact next

private theorem ticked_starting (own : Addressed d) (j : ℕ) :
    Starting (ticked d (60000 + 20000 * j)) (2 * j + 5) (settled d j) := by
  induction j with
  | zero => exact (ticked_opening own).2.2
  | succ j ih =>
    have next := (ticked_period own (by omega) ih).2.2
    rw [show 60000 + 20000 * (j + 1) = 60000 + 20000 * j + 20000 by ring]
    exact next

private theorem outputs_before (own : Addressed d) {k : ℕ} (bound : k ≤ 60260) :
    (ticked d k).1.memo.outputs = (0, 0, decide (40400 ≤ k)) := by
  obtain ⟨off, on, starting⟩ := ticked_opening own
  rcases Nat.lt_or_ge 40399 k with later | early
  · rw [decide_eq_true (Nat.succ_le_of_lt later)]
    rcases Nat.lt_or_ge 60000 k with reading | waiting
    · exact (ticked_period own rfl starting).1 k reading.le bound
    · exact on k later waiting
  · rw [off k early, decide_eq_false (by omega)]

private theorem outputs_from (own : Addressed d) {j k : ℕ} (later : 60260 + 20000 * j < k)
    (bound : k ≤ 80260 + 20000 * j) :
    (ticked d k).1.memo.outputs = ((settled d (j + 1)).1, (settled d (j + 1)).2, true) := by
  rcases Nat.lt_or_ge (80000 + 20000 * j) k with reading | waiting
  · have above : 60000 + 20000 * (j + 1) ≤ k := by omega
    have below : k ≤ 60000 + 20000 * (j + 1) + 260 := bound.trans (le_of_eq (by ring))
    exact (ticked_period own (by omega) (ticked_starting own (j + 1))).1 k above below
  · have above : 60000 + 20000 * j + 260 < k := by omega
    have below : k ≤ 60000 + 20000 * j + 20000 := by omega
    exact (ticked_period own (by omega) (ticked_starting own j)).2.1 k above below

/-- No read starts at any other tick. -/
private theorem ticked_starts (own : Addressed d) {k : ℕ} (begins : At .rStartw (ticked d k).1) :
    ∃ j, k = 60000 + 20000 * j := by
  have slow : 1 < defaults.cDiv := by simp
  cases k with
  | zero =>
    have booting : (ticked d 0).1.st = .boot := rfl
    exact absurd (booting.symm.trans begins.1) (by decide)
  | succ k =>
    have never : (ticked d k).1.nextSt ≠ .rStartw := by
      rw [ticked, ← fsm_closed defaults d slow, fsm_atTick]
      exact (Outputs.run _ k).never
    have step : (ticked d (k + 1)).1 =
        (ticked d k).1.tick (closedIn d (ticked d k) (timers defaults d k)) := rfl
    rw [step, Fsm.tick] at begins
    split_ifs at begins with none
    · obtain ⟨ready, due⟩ := high_requested begins
      rw [closedIn, tickRead_timers, decide_eq_true_iff] at due
      rcases Nat.lt_or_ge k 60000 with early | late
      · have outputs := congrArg (·.2.2) (outputs_before own (k := k) (by omega))
        have later : 40400 ≤ k := by
          have off : (ticked d k).1.readyI = decide (40400 ≤ k) := outputs
          rwa [ready, eq_comm, decide_eq_true_iff] at off
        exact ⟨0, by omega⟩
      · exact ⟨(k + 1 - 60000) / 20000, by omega⟩
    · obtain ⟨-, -, ⟨going, -⟩ | ⟨-, returned⟩⟩ := low_cases _ (closedIn d (ticked d k) (timers defaults d k)) none
      · exact absurd begins.2 going
      · exact absurd (returned.symm.trans begins.1) never

end Ticks

/-! ## Clock by clock -/

section Clocks

variable {d : Device}

private theorem bus_clock {n : ℕ} (positive : 0 < n) : (bus defaults d n).1.fsm = (ticked d ((n - 1) / 125)).1 := by
  have slow : 1 < defaults.cDiv := by simp
  rw [bus_eq, fsm_clock defaults (drive defaults d) positive, defaults_cDiv, fsm_closed defaults d slow, ticked]

private theorem bus_outputs {n : ℕ} (positive : 0 < n) :
    (bus defaults d n).1.fsm.memo.outputs = (ticked d ((n - 1) / 125)).1.memo.outputs := by
  rw [bus_clock positive]

/-- Until the first read is over the outputs are zero. -/
theorem memo_early (own : Addressed d) {n : ℕ} (bound : n ≤ 125 * 60261) :
    (bus defaults d n).1.fsm.memo.outputs = (0, 0, decide (125 * 40400 < n)) := by
  rcases Nat.eq_zero_or_pos n with rfl | positive
  · rfl
  · rw [bus_outputs positive, outputs_before own (by omega)]
    congr 2
    exact decide_eq_decide.mpr (by omega)

/-- After read `j` and until the next is over the outputs are its registers. -/
theorem memo_late (own : Addressed d) {j n : ℕ} (later : 125 * (60261 + 20000 * j) < n)
    (bound : n ≤ 125 * (80261 + 20000 * j)) : (bus defaults d n).1.fsm.memo.outputs =
      ((outputsOf (d.regs (2 * j + 6))).1, (outputsOf (d.regs (2 * j + 6))).2, true) := by
  rw [bus_outputs (by omega), outputs_from (j := j) own (by omega) (by omega), settled]

/-- From the end of the first read on the outputs are registers of the device. -/
theorem outputs_at (own : Addressed d) {n : ℕ} (late : 125 * 60261 < n) :
    (bus defaults d n).1.fsm.oAx = (outputsOf (d.regs (2 * ((n - 7532626) / 2500000) + 6))).1 ∧
      (bus defaults d n).1.fsm.oAy = (outputsOf (d.regs (2 * ((n - 7532626) / 2500000) + 6))).2 := by
  have read := memo_late (j := (n - 7532626) / 2500000) (n := n) own (by omega) (by omega)
  exact ⟨congrArg (·.1) read, congrArg (·.2.1) read⟩

/-- From 40400 ticks on the master reports ready. -/
theorem ready_iff (own : Addressed d) (n : ℕ) :
    (bus defaults d n).1.fsm.readyI = decide (125 * 40400 < n) := by
  rcases Nat.lt_or_ge (125 * 60261) n with later | bound
  · have on := memo_late (j := (n - 1 - 125 * 60261) / (125 * 20000)) (n := n) own (by omega) (by omega)
    rw [decide_eq_true (by omega)]
    exact congrArg (·.2.2) on
  · exact congrArg (·.2.2) (memo_early own bound)

/-- Read `j` starts on tick `60000 + 20000 * j`. -/
private theorem starts_iff (own : Addressed d) (n : ℕ) : At .rStartw (bus defaults d n).1.fsm ↔
    ∃ j, 125 * (60000 + 20000 * j) < n ∧ n ≤ 125 * (60001 + 20000 * j) := by
  rcases Nat.eq_zero_or_pos n with rfl | positive
  · constructor
    · intro begins
      have booting : (bus defaults d 0).1.fsm.st = .boot := rfl
      exact absurd (booting.symm.trans begins.1) (by decide)
    · rintro ⟨j, later, -⟩
      omega
  · rw [bus_clock positive]
    constructor
    · intro begins
      obtain ⟨j, place⟩ := ticked_starts own begins
      exact ⟨j, by omega, by omega⟩
    · rintro ⟨j, later, bound⟩
      obtain ⟨r, frames, ready, here, -⟩ := ticked_starting own j
      rw [show (n - 1) / 125 = 60000 + 20000 * j by omega]
      exact ⟨(congrArg Memo.st ready.memo).trans here, ready.none⟩

/-- With a register file at its address on the bus, the master reports ready after 40400 ticks and starts
a read every 20000 ticks from tick 60000 on, and at no other time, two frames after the last. The outputs
are zero until the first read is over; from then on they are the data registers as they were during the
second frame of the last read, until the next read is over. -/
theorem outputs_are_registers (d : Device) (own : d.a7 = addr7) :
    (∀ n, (bus defaults d n).1.fsm.readyI = decide (125 * 40400 < n)) ∧
    (∀ n ≤ 125 * 60261, (bus defaults d n).1.fsm.oAx = 0 ∧ (bus defaults d n).1.fsm.oAy = 0) ∧
    (∀ j n, 125 * (60261 + 20000 * j) < n → n ≤ 125 * (80261 + 20000 * j) →
      (bus defaults d n).1.fsm.oAx = d.regs (2 * j + 6) 0x33 ++ d.regs (2 * j + 6) 0x32 ∧
      (bus defaults d n).1.fsm.oAy = d.regs (2 * j + 6) 0x35 ++ d.regs (2 * j + 6) 0x34) ∧
    (∀ n, At .rStartw (bus defaults d n).1.fsm ↔
      ∃ j, 125 * (60000 + 20000 * j) < n ∧ n ≤ 125 * (60001 + 20000 * j)) ∧
    ∀ j, (bus defaults d (125 * (60001 + 20000 * j))).2.transcript.frames.length = 2 * j + 5 := by
  refine ⟨ready_iff own, fun n bound => ?_, fun j n later bound => ?_, starts_iff own, fun j => ?_⟩
  · exact ⟨congrArg (·.1) (memo_early own bound), congrArg (·.2.1) (memo_early own bound)⟩
  · exact ⟨congrArg (·.1) (memo_late own later bound), congrArg (·.2.1) (memo_late own later bound)⟩
  · obtain ⟨r, frames, ready, -, -, length⟩ := ticked_starting own j
    have slow : 1 < defaults.cDiv := by simp
    have told := heard_closed defaults d slow (60000 + 20000 * j)
    rw [defaults_cDiv, show 60000 + 20000 * j + 1 = 60001 + 20000 * j by omega, ← ticked] at told
    rw [bus_eq, told, ready.hears.transcript, length]

theorem outputs_are_registers_identity : (bus defaults ⟨addr7, fun _ r => r⟩ 10000000).1.fsm.oAx =
    (0x33 : BitVec 8) ++ (0x32 : BitVec 8) :=
  ((outputs_are_registers ⟨addr7, fun _ r => r⟩ rfl).2.2.1 0 10000000 (by norm_num) (by norm_num)).1

end Clocks

/-! ## Two devices -/

/-- A device that lies flat. -/
def flat : Device := ⟨addr7, fun _ _ => 0⟩

/-- A device whose data registers all read 1, and so both axes 257. -/
def tilted : Device := ⟨addr7, fun _ _ => 1⟩

theorem flat_outputs (k : ℕ) : outputsOf (flat.regs k) = (0, 0) := show outputsOf (fun _ => 0) = (0, 0) by decide

theorem tilted_outputs (k : ℕ) : outputsOf (tilted.regs k) = (257, 257) :=
  show outputsOf (fun _ => 1) = (257, 257) by decide

end Telecran.Soundness.AdxlSamples
