import Telecran.Proofs.HdmiAccount

/-! # The transmitter is configured

Whatever the transmitter answers and whenever it asks for its configuration, every frame on the bus is
a whole write, and `READY` means that the registers hold the table. As long as the interrupt line stays
high the entries come in order, each repeated until it is acknowledged. The first of them is never
sent: on the first clocks the control takes the idle writer for one that is done.
-/

namespace Telecran.Soundness.HdmiConfigured

open Model Model.Hdmi Machine Bus

/-- The transmitter has not asked for its configuration before control clock `n`. -/
def Quiet (input : ℕ → Input) (n : ℕ) : Prop := ∀ k < n, (input k).hdmiTxInt = true

/-- What a frame on the bus is. -/
def Lawful (f : Frame) : Prop := f.stopped = true ∧ ∃ e ∈ mixed :: table, f.Carries slaveAddr e

/-- Everything that is known after control clock `n`. -/
structure Along (s : Core) (input : ℕ → Input) (n : ℕ) (p : Phase) : Prop
    extends Joint (Core.after s input n) (Core.heard s input n) (input n).slave p (Core.frames s input n) where
  lawful : ∀ f ∈ Core.frames s input n, Lawful f
  served : Served (Quiet input n) (p.credit (Core.after s input n).writer) (Core.frames s input n)
  calm : Quiet input n → p ≠ .recalled
  punctual : Quiet input n → p ≠ .idle →
    Punctual n (Core.frames s input n) (age p (Core.after s input n).writer)

section Runs

variable {s : Core} {input : ℕ → Input} {n : ℕ}

private theorem lawful_of_finishes {p : Phase} {w w' : Writer} {f : Frame} (bound : p.held ≤ 30)
    (finishes : Finishes p w w' f) : Lawful f := by
  obtain ⟨-, -, stopped, ⟨e, sends, carries⟩, -⟩ := finishes
  refine ⟨stopped, e, ?_, carries⟩
  obtain rfl | ⟨-, rfl | rfl⟩ := sends
  · exact List.mem_cons_of_mem _ (entry_mem bound)
  · exact List.mem_cons_of_mem _ (entry_mem le_rfl)
  · exact List.mem_cons_self ..

private theorem recalled_next {p : Phase} {mI2cEnd mI2cAck hdmiTxInt : Bool}
    (recalled : p.next mI2cEnd mI2cAck hdmiTxInt = .recalled) : hdmiTxInt = false := by
  cases p with
  | waiting k => cases mI2cEnd <;> cases mI2cAck <;> simp [Phase.next] at recalled
  | retry k | advance k | recalled => simp [Phase.next] at recalled
  | loaded k =>
    by_cases last : k = 30
    · cases hdmiTxInt with
      | false => rfl
      | true => simp [Phase.next, last] at recalled
    · simp [Phase.next, last] at recalled
  | idle =>
    cases hdmiTxInt with
    | false => rfl
    | true => simp [Phase.next] at recalled

theorem along_start (reset : s.IsReset) (input : ℕ → Input) : Along s input 2 (.advance 0) := by
  have joint := joint_start reset input
  have none : Core.frames s input 2 = [] := joint.tracks.frames
  refine ⟨by rwa [none], ?_, ?_, fun _ => nofun, fun _ _ => ?_⟩
  · rw [none]
    exact nofun
  · rw [none]
    exact ⟨[], [], rfl, fun _ => ⟨.nil, rfl⟩, fun _ => ⟨rfl, Nat.one_pos⟩⟩
  · have place : (Core.after s input 2).writer.st = .st30 := by
      simp [Core.after, run, Core.step, Writer.step, Control.step, reset.st, reset.go, reset.index, reset.setup,
        lutSize]
    rw [none]
    simp [Punctual, age, place, Phase.control]

theorem along_step {p : Phase} (along : Along s input n p) :
    Along s input (n + 1) (p.next (Core.after s input n).writer.endOk (Core.after s input n).writer.ackOk
      (input n).hdmiTxInt) := by
  obtain ⟨joint, lawful, served, calm, punctual⟩ := along
  obtain ⟨fs', joint', grows⟩ := joint_step joint (input (n + 1)).slave
  have same : Core.frames s input (n + 1) = fs' := joint'.tracks.frames
  have earlier : Quiet input (n + 1) → Quiet input n := fun quiet k bound => quiet k (by omega)
  have writer := step_writer joint.control (input n)
  rw [writer] at grows
  subst same
  refine ⟨joint', ?_, ?_, ?_, ?_⟩
  · intro f member
    obtain old | finishes := grows.mem member
    · exact lawful f old
    · exact lawful_of_finishes joint.bound finishes
  · rw [Core.after_succ, writer]
    exact served_step joint.tracks joint.bound grows served earlier (calm ∘ earlier)
  · intro quiet recalled
    exact absurd (quiet n (Nat.lt_succ_self n)) (by rw [recalled_next recalled]; exact nofun)
  · intro quiet busy
    rw [Core.after_succ, writer]
    have before : p ≠ .idle := by
      rintro rfl
      rw [quiet n (Nat.lt_succ_self n)] at busy
      exact busy rfl
    exact punctual_step joint.tracks grows _ before (calm (earlier quiet)) (punctual (earlier quiet) before)

theorem along (reset : s.IsReset) (input : ℕ → Input) (n : ℕ) : ∃ p, Along s input (n + 2) p := by
  induction n with
  | zero => exact ⟨_, along_start reset input⟩
  | succ n ih =>
    obtain ⟨p, along⟩ := ih
    exact ⟨_, along_step along⟩

/-- Nothing has happened before the writer is at rest. -/
private theorem early (reset : s.IsReset) (input : ℕ → Input) {n : ℕ} (bound : n < 2) :
    Core.frames s input n = [] ∧ (Core.after s input n).control.ready = false := by
  obtain rfl | rfl : n = 0 ∨ n = 1 := by omega
  · exact ⟨rfl, reset.ready⟩
  · have released : (Core.after s input 1).writer.level = ⟨true, true⟩ := by
      simp [Core.after, run, Core.step, Writer.step, Writer.level, reset.st]
    constructor
    · rw [Core.frames, Core.heard, released]
      rfl
    · simp [Core.after, run, Core.step, Control.step, reset.index, reset.setup, lutSize]

theorem script_mem (k : ℕ) : script k ∈ table := entry_mem (Nat.min_le_right ..)

theorem agree_table : Agree table := by decide

/-- An entry of the table is sent among the first thirty after the skipped one. -/
theorem mem_table {e : Write} (member : e ∈ table) : ∃ k < 30, script k = e := by
  obtain ⟨k, bound, rfl⟩ := List.mem_map.mp member
  have bound : k < 31 := List.mem_range.mp bound
  cases k with
  | zero => exact ⟨15, by decide, by decide⟩
  | succ k =>
    refine ⟨k, by omega, ?_⟩
    rw [script, Nat.min_eq_left (by omega)]

private theorem ready_phase {p : Phase} (along : Along s input n p) :
    (Core.after s input n).control.ready = true ↔ p = .idle ∨ p = .recalled := by
  rw [along.control]
  cases p <;> simp [Phase.control]

/-- Whatever the transmitter does, each frame is a whole write of a table entry, or of the last register
with the first value; and when `READY` is high the registers hold the whole table, with whatever they
began and whichever of the refused writes they took. -/
theorem transmitter_configured (reset : s.IsReset) (input : ℕ → Input) (n : ℕ) :
    (∀ f ∈ Core.frames s input n, Lawful f) ∧
      ((Core.after s input n).control.ready = true → ∀ first regs,
        Stores slaveAddr first (Core.frames s input n) regs → ∀ e ∈ table, regs e.reg = e.val) := by
  by_cases begun : n < 2
  · obtain ⟨none, off⟩ := early reset input begun
    rw [none, off]
    exact ⟨nofun, nofun⟩
  obtain ⟨k, rfl⟩ := Nat.exists_eq_add_of_le' (Nat.le_of_not_lt begun)
  obtain ⟨p, along⟩ := along reset input k
  refine ⟨along.lawful, fun ready first regs stores e member => ?_⟩
  have credit : p.credit (Core.after s input (k + 2)).writer = 31 := by
    obtain rfl | rfl := (ready_phase along).mp ready <;> rfl
  obtain ⟨prior, later, shape, served, -⟩ := along.served
  rw [credit] at served
  obtain ⟨orderly, count⟩ := served (Nat.succ_pos 30)
  obtain ⟨j, bound, rfl⟩ := mem_table member
  rw [shape] at stores
  apply stores.keeps agree_table _ (script_mem j) (orderly.made (by omega))
  intro f inside
  obtain ⟨i, carries⟩ := orderly.carries inside
  exact ⟨script i, script_mem i, carries⟩

theorem transmitter_configured_acked :
    (∀ f ∈ Core.frames .powerUp (fun _ => ⟨true, false⟩) 3484, Lawful f) ∧
      ((Core.after .powerUp (fun _ => ⟨true, false⟩) 3484).control.ready = true → ∀ first regs,
        Stores slaveAddr first (Core.frames .powerUp (fun _ => ⟨true, false⟩) 3484) regs →
        ∀ e ∈ table, regs e.reg = e.val) :=
  transmitter_configured Core.isReset_powerUp _ 3484

/-- While the interrupt line is high, the entries from the second on are sent in order, each repeated
until it is acknowledged, and then the last one for ever. -/
theorem entries_in_order (reset : s.IsReset) (quiet : Quiet input n) :
    Orderly slaveAddr script (Core.frames s input n) := by
  by_cases begun : n < 2
  · rw [(early reset input begun).1]
    exact .nil
  obtain ⟨k, rfl⟩ := Nat.exists_eq_add_of_le' (Nat.le_of_not_lt begun)
  obtain ⟨p, along⟩ := along reset input k
  obtain ⟨prior, later, shape, served, whole⟩ := along.served
  obtain ⟨rfl, positive⟩ := whole quiet
  rw [shape]
  exact (served positive).1

theorem entries_in_order_refused :
    Orderly slaveAddr script (Core.frames .powerUp (fun _ => ⟨true, true⟩) 3484) :=
  entries_in_order Core.isReset_powerUp fun _ _ => rfl

/-- The account while the interrupt line is high. -/
private theorem account {p : Phase} (along : Along s input n p) (quiet : Quiet input n) :
    min (ackedCount (Core.frames s input n) + 1) 31 = p.credit (Core.after s input n).writer := by
  obtain ⟨prior, later, shape, served, whole⟩ := along.served
  obtain ⟨rfl, positive⟩ := whole quiet
  rw [shape]
  exact (served positive).2

private theorem ready_succ {p : Phase} (along : Along s input n p) (quiet : Quiet input (n + 1))
    (ready : (Core.after s input n).control.ready = true) :
    (Core.after s input (n + 1)).control.ready = true := by
  obtain rfl := ((ready_phase along).mp ready).resolve_right
    (along.calm fun k bound => quiet k (by omega))
  have next := along_step along
  rw [quiet n (Nat.lt_succ_self n)] at next
  exact (ready_phase next).mpr (Or.inl rfl)

/-- `READY` rises at the end of a transfer, after thirty acknowledged ones. -/
private theorem ready_rises {p : Phase} (along : Along s input n p) (quiet : Quiet input (n + 1))
    (off : (Core.after s input n).control.ready = false)
    (on : (Core.after s input (n + 1)).control.ready = true) :
    n + 1 = 4 + 116 * (Core.frames s input (n + 1)).length ∧
      30 ≤ ackedCount (Core.frames s input (n + 1)) := by
  have earlier : Quiet input n := fun k bound => quiet k (by omega)
  have next := along_step along
  have idle := ((ready_phase next).mp on).resolve_right (next.calm quiet)
  have count := account next quiet
  rw [idle] at count
  have busy : p ≠ .idle := fun idle => by
    rw [(ready_phase along).mpr (Or.inl idle)] at off
    exact nomatch off
  have punctual := along.punctual earlier busy
  cases p with
  | idle => exact absurd rfl busy
  | recalled => exact absurd rfl (along.calm earlier)
  | waiting k =>
    cases ended : (Core.after s input n).writer.endOk <;>
      cases acked : (Core.after s input n).writer.ackOk <;> simp [Phase.next, ended, acked] at idle
  | retry k | advance k => simp [Phase.next] at idle
  | loaded k =>
    have last : k = 30 := by
      by_contra other
      simp [Phase.next, other] at idle
    have place : (Core.after s input n).writer.st = .st31 := by
      cases along.tracks with
      | st31 here => exact here
      | st1 _ _ _ _ opens => exact absurd opens id
      | st2 _ _ _ _ phase =>
        obtain steady | ⟨first, -⟩ := phase
        · exact absurd steady id
        · rw [last] at first
          exact absurd first (by decide)
      | st3 _ _ _ _ steady | st4 _ _ _ _ steady | st5 _ _ _ _ _ _ steady => exact absurd steady id
      | st6 _ _ steady | st8 _ _ steady | st9 _ _ steady => exact absurd steady id
      | st30 _ _ _ ends => exact absurd ends id
    obtain ⟨fs', joint', grows⟩ := joint_step along.toJoint (input (n + 1)).slave
    have same : Core.frames s input (n + 1) = fs' := joint'.tracks.frames
    cases grows with
    | more finishes => exact absurd finishes.state (by rw [place]; decide)
    | same =>
      rw [same] at count ⊢
      simp only [age, place, Punctual, Nat.reduceLT, if_false] at punctual
      simp only [Phase.credit] at count
      omega

/-- While `READY` is low, the writer is at the START of a transfer on the control clocks `4 + 116 * m`
only. -/
private theorem begins_only {p : Phase} (along : Along s input n p) (quiet : Quiet input n)
    (off : (Core.after s input n).control.ready = false) (place : (Core.after s input n).writer.st = .st1) :
    ∃ m, n = 4 + 116 * m := by
  have busy : p ≠ .idle := fun idle => by
    rw [(ready_phase along).mpr (Or.inl idle)] at off
    exact nomatch off
  have punctual := along.punctual quiet busy
  have fresh : age p (Core.after s input n).writer = 0 := by simp [age, place]
  rw [fresh, Punctual, if_pos (by decide)] at punctual
  exact ⟨(Core.frames s input n).length, by omega⟩

/-- While `READY` is low, transfer `m` begins on control clock `4 + 116 * m`: the writer is at its START,
with `m` frames over. -/
private theorem transfer_begins {p : Phase} {m : ℕ} (along : Along s input (4 + 116 * m) p)
    (quiet : Quiet input (4 + 116 * m))
    (off : (Core.after s input (4 + 116 * m)).control.ready = false) :
    (Core.after s input (4 + 116 * m)).writer.st = .st1 ∧ (Core.frames s input (4 + 116 * m)).length = m ∧
      ackedCount (Core.frames s input (4 + 116 * m)) < 30 := by
  have busy : p ≠ .idle := fun idle => by
    rw [(ready_phase along).mpr (Or.inl idle)] at off
    exact nomatch off
  have count := account along quiet
  have punctual := along.punctual quiet busy
  obtain ⟨inside, zero⟩ := age_bound along.tracks
  have begins : age p (Core.after s input (4 + 116 * m)).writer = 0 ∧
      (Core.frames s input (4 + 116 * m)).length = m := by
    rw [Punctual] at punctual
    split_ifs at punctual <;> omega
  have place := zero begins.1
  refine ⟨place, begins.2, ?_⟩
  have bound := along.bound
  have none : (Core.after s input (4 + 116 * m)).writer.finished = false := by simp [Writer.finished, place]
  cases p with
  | idle => exact absurd rfl busy
  | recalled => exact absurd rfl (along.calm quiet)
  | waiting k =>
    simp only [Phase.credit, none, Bool.false_and, Bool.false_eq_true, if_false] at count
    simp only [Phase.held] at bound
    omega
  | retry k =>
    simp only [Phase.credit] at count
    simp only [Phase.held] at bound
    omega
  | advance k =>
    obtain rfl : k = 0 := along.tracks.opens place
    simp only [Phase.credit] at count
    omega
  | loaded k => exact absurd (along.tracks.opens place) id

private theorem off_early (reset : s.IsReset) (input : ℕ → Input) {n : ℕ} (bound : n < 3) :
    (Core.after s input n).control.ready = false := by
  obtain first | rfl : n < 2 ∨ n = 2 := by omega
  · exact (early reset input first).2
  · rw [(along_start reset input).control]
    rfl

private theorem along_of_le (reset : s.IsReset) (input : ℕ → Input) {n : ℕ} (begun : 2 ≤ n) :
    ∃ p, Along s input n p := by
  obtain ⟨k, rfl⟩ := Nat.exists_eq_add_of_le' begun
  exact along reset input k

/-- While the interrupt line is high, `READY` rises with the end of the transfer that is acknowledged
as the thirtieth, and stays. -/
theorem ready_iff (reset : s.IsReset) (quiet : ∀ k, (input k).hdmiTxInt = true) (n : ℕ) :
    (Core.after s input n).control.ready = true ↔
      ∃ m, 4 + 116 * m ≤ n ∧ 30 ≤ ackedCount (Core.frames s input (4 + 116 * m)) := by
  constructor
  · intro ready
    induction n with
    | zero => exact absurd ready (by rw [off_early reset input (by decide)]; decide)
    | succ n ih =>
      cases before : (Core.after s input n).control.ready with
      | true =>
        obtain ⟨m, bound, enough⟩ := ih before
        exact ⟨m, by omega, enough⟩
      | false =>
        by_cases begun : n < 2
        · rw [off_early reset input (by omega)] at ready
          exact nomatch ready
        · obtain ⟨p, along⟩ := along_of_le reset input (Nat.le_of_not_lt begun)
          obtain ⟨time, enough⟩ := ready_rises along (fun k _ => quiet k) before ready
          exact ⟨_, time.ge, time ▸ enough⟩
  · rintro ⟨m, bound, enough⟩
    have here : (Core.after s input (4 + 116 * m)).control.ready = true := by
      obtain ⟨p, along⟩ := along_of_le reset input (n := 4 + 116 * m) (by omega)
      by_contra off
      have few := (transfer_begins along (fun k _ => quiet k) (Bool.not_eq_true _ ▸ off)).2.2
      omega
    obtain ⟨j, rfl⟩ := Nat.exists_eq_add_of_le bound
    clear bound
    induction j with
    | zero => exact here
    | succ j ih =>
      obtain ⟨p, along⟩ := along_of_le reset input (n := 4 + 116 * m + j) (by omega)
      exact ready_succ along (fun k _ => quiet k) ih

/-- Until then the transfers follow each other without a pause. -/
theorem transfers_in_time (reset : s.IsReset) (quiet : ∀ k, (input k).hdmiTxInt = true) {n m : ℕ}
    (off : (Core.after s input n).control.ready = false) (bound : 4 + 116 * m ≤ n) :
    (Core.after s input (4 + 116 * m)).writer.st = .st1 ∧
      (Core.frames s input (4 + 116 * m)).length = m := by
  have before : (Core.after s input (4 + 116 * m)).control.ready = false := by
    by_contra on
    obtain ⟨k, early, enough⟩ := (ready_iff reset quiet _).mp (Bool.not_eq_false _ ▸ on)
    rw [(ready_iff reset quiet n).mpr ⟨k, by omega, enough⟩] at off
    exact nomatch off
  obtain ⟨p, along⟩ := along_of_le reset input (n := 4 + 116 * m) (by omega)
  obtain ⟨place, length, -⟩ := transfer_begins along (fun k _ => quiet k) before
  exact ⟨place, length⟩

/-- Nor does a transfer begin at any other time. -/
theorem transfers_only (reset : s.IsReset) (quiet : ∀ k, (input k).hdmiTxInt = true)
    (off : (Core.after s input n).control.ready = false) (place : (Core.after s input n).writer.st = .st1) :
    ∃ m, n = 4 + 116 * m := by
  by_cases begun : n < 2
  · obtain rfl | rfl : n = 0 ∨ n = 1 := by omega
    · exact absurd (reset.st.symm.trans place) (by decide)
    · have still : (Core.after s input 1).writer.st = .st0 := by
        simp [Core.after, run, Core.step, Writer.step, reset.st, reset.go]
      exact absurd (still.symm.trans place) (by decide)
  · obtain ⟨p, along⟩ := along_of_le reset input (Nat.le_of_not_lt begun)
    exact begins_only along (fun k _ => quiet k) off place

end Runs

/-! ## On the board's clock -/

/-- The inputs on the rising edges of the control clock. -/
def sampled (input : ℕ → Input) (k : ℕ) : Input := input (5002 * k + 2500)

/-- The rising edges of the control clock during the first `n` clocks of the board. -/
def edges (n : ℕ) : ℕ := (n + 2501) / 5002

theorem clkRatio_eq : HdmiConfig.clkRatio = 2500 := by norm_num [HdmiConfig.clkRatio]

/-- The control clock has a period of 5002 clocks. -/
theorem core_after (s : Core) (input : ℕ → Input) (n : ℕ) :
    HdmiConfig.after s input n = ⟨n % 2501, n / 2501 % 2 = 1, Core.after s (sampled input) (edges n)⟩ := by
  induction n with
  | zero => rfl
  | succ n ih =>
    rw [HdmiConfig.after, run_succ]
    change HdmiConfig.clock (HdmiConfig.after s input n) (input n) = _
    rw [ih, HdmiConfig.clock, clkRatio_eq]
    by_cases inner : n % 2501 < 2500
    · have count : n % 2501 + 1 = (n + 1) % 2501 := by omega
      have half : n / 2501 = (n + 1) / 2501 := by omega
      have edge : edges (n + 1) = edges n := by
        rw [edges, edges]
        omega
      simp only [inner, if_true, count, half, edge]
    · have count : (n + 1) % 2501 = 0 := by omega
      rw [if_neg inner, count]
      obtain high | low : n / 2501 % 2 = 1 ∨ n / 2501 % 2 = 0 := by omega
      · have half : (n + 1) / 2501 % 2 = 0 := by omega
        have edge : edges (n + 1) = edges n := by
          rw [edges, edges]
          omega
        simp [high, half, edge]
      · have half : (n + 1) / 2501 % 2 = 1 := by omega
        have edge : edges (n + 1) = edges n + 1 := by
          rw [edges, edges]
          omega
        have clock : sampled input (edges n) = input n := by
          rw [sampled, edges]
          congr 1
          omega
        simp [low, half, edge, Core.after_succ, clock]

/-- On the board's clock, while the interrupt line is high: `READY` is high from the end of the transfer
that is acknowledged as the thirtieth, and as long as it is low, the writer is at the START of transfer
`m`, with `m` frames over, when the control clock has risen `4 + 116 * m` times, and at no other time. -/
theorem ready_in_time {s : Core} (reset : s.IsReset) (input : ℕ → Input)
    (quiet : ∀ k, (sampled input k).hdmiTxInt = true) (n : ℕ) :
    ((HdmiConfig.after s input n).core.control.ready = true ↔ ∃ m, 4 + 116 * m ≤ (n + 2501) / 5002 ∧
      30 ≤ ackedCount (Core.frames s (sampled input) (4 + 116 * m))) ∧
    ((HdmiConfig.after s input n).core.control.ready = false →
      ((HdmiConfig.after s input n).core.writer.st = .st1 ↔ ∃ m, (n + 2501) / 5002 = 4 + 116 * m) ∧
      ∀ m, 4 + 116 * m ≤ (n + 2501) / 5002 →
        (Core.after s (sampled input) (4 + 116 * m)).writer.st = .st1 ∧
          (Core.frames s (sampled input) (4 + 116 * m)).length = m) := by
  rw [core_after]
  refine ⟨ready_iff reset quiet _, fun off => ⟨⟨transfers_only reset quiet off, ?_⟩, fun m bound =>
    transfers_in_time reset quiet off bound⟩⟩
  rintro ⟨m, here⟩
  have begins := (transfers_in_time reset quiet off here.ge).1
  rwa [← here] at begins

/-- The clocks of the third transfer's START. -/
theorem ready_in_time_acked :
    ((HdmiConfig.after .powerUp (fun _ => ⟨true, false⟩) 1180000).core.control.ready = true ↔
      ∃ m, 4 + 116 * m ≤ (1180000 + 2501) / 5002 ∧
        30 ≤ ackedCount (Core.frames .powerUp (sampled fun _ => ⟨true, false⟩) (4 + 116 * m))) ∧
    ((HdmiConfig.after .powerUp (fun _ => ⟨true, false⟩) 1180000).core.control.ready = false →
      ((HdmiConfig.after .powerUp (fun _ => ⟨true, false⟩) 1180000).core.writer.st = .st1 ↔
        ∃ m, (1180000 + 2501) / 5002 = 4 + 116 * m) ∧
      ∀ m, 4 + 116 * m ≤ (1180000 + 2501) / 5002 →
        (Core.after .powerUp (sampled fun _ => ⟨true, false⟩) (4 + 116 * m)).writer.st = .st1 ∧
          (Core.frames .powerUp (sampled fun _ => ⟨true, false⟩) (4 + 116 * m)).length = m) :=
  ready_in_time Core.isReset_powerUp _ (fun _ => rfl) 1180000

end Telecran.Soundness.HdmiConfigured
