import Telecran.Proofs.AdxlRead
import Telecran.Proofs.AdxlStart

/-! # The burst read from end to end

An acknowledged read is one transaction on the bus, and the bytes the slave presents bit by bit
between the falling edges of SCL arrive in the outputs, both of them on the same clock.
-/

namespace Telecran.Soundness.BurstRead

open Machine Model Bus Adxl

section Clocks

variable {g : Generics} {slave : ℕ → Bool} (r : Read g slave)

/-- The clock of the first tick of a read. -/
def clock : ℕ := g.cDiv * (r.first + 1)

/-- The falling edges of SCL from the start of the read to clock `n`: bit `i` of data byte `j` belongs
to slot `29 + 9 * j + i`, after the START, three bytes and the repeated START. -/
def slot (n : ℕ) : ℕ := falls (clockLevels g slave (clock r) (n - clock r + 1))

/-- The slave holds the bits of six bytes in their slots, the most significant one first. -/
def Presents (d : Fin 6 → BitVec 8) : Prop := ∀ j : Fin 6, ∀ i < 8, ∀ n ≥ clock r,
  slot r n = 29 + 9 * j + i → slave n = (d j).getLsbD (7 - i)

/-! ## Slots -/

theorem readWave_falls : ∀ j < 6, ∀ i < 8,
    falls (⟨true, true⟩ :: Fsm.readWave.take (32 + Fsm.byteTick (3 * i + 2) j)) = 29 + 9 * j + i := by
  decide +kernel

/-- Among the levels of an acknowledged read, those of its first ticks. -/
theorem emitted_take (acked : (r.input 30).sdaIn = false) {m : ℕ} (bound : m ≤ 261) :
    Fsm.master.emitted r.before r.input m = Fsm.readWave.take m := by
  have wave := (Fsm.readTaken_run r.input r.starts (free_at r.starts) acked).heard
  rw [← wave, Fsm.emitted_eq, Fsm.emitted_eq, ← List.map_take, List.take_range, Nat.min_eq_left bound]
  rfl

/-- The levels on the clocks of a read are those on its ticks. -/
theorem levels (n : ℕ) : clockLevels g slave (clock r) (g.cDiv * n + 1) =
    ⟨true, true⟩ :: (Fsm.master.emitted r.before r.input n).flatMap (List.replicate g.cDiv) := by
  have free : (atTick g slave r.first).fsm.level = ⟨true, true⟩ := free_at r.starts
  rw [clock, clockLevels_ticks, free]
  rfl

/-- Up to the next tick the slot counts the falling edges of the ticks so far. -/
theorem slot_between (acked : (r.input 30).sdaIn = false) {m n : ℕ} (bound : m < 261)
    (later : clock r + g.cDiv * m < n) (early : n ≤ clock r + g.cDiv * (m + 1)) :
    slot r n = falls (⟨true, true⟩ :: Fsm.readWave.take (m + 1)) := by
  have start : clock r + g.cDiv * m = g.cDiv * (r.first + m + 1) := by
    rw [clock]
    ring
  have stop : clock r + g.cDiv * (m + 1) = g.cDiv * (r.first + m + 1 + 1) := by
    rw [clock]
    ring
  induction early using Nat.decreasingInduction with
  | self =>
    obtain ⟨p, period⟩ : ∃ p, g.cDiv = p + 1 := ⟨g.cDiv - 1, by have := g.cDiv_pos; omega⟩
    rw [slot, Nat.add_sub_cancel_left, levels, emitted_take r acked bound, period, falls_hold]
  | of_succ n before ih =>
    obtain ⟨q, rfl⟩ := Nat.exists_eq_add_of_le (show clock r ≤ n by omega)
    have held : (after g slave (clock r + q)).fsm = (after g slave (clock r + (q + 1))).fsm := by
      rw [fsm_between g slave (k := r.first + m + 1) (by omega) (by omega),
        fsm_between g slave (k := r.first + m + 1) (by omega) (by omega)]
    rw [← ih (by omega), slot, slot, Nat.add_sub_cancel_left, Nat.add_assoc, Nat.add_sub_cancel_left,
      clockLevels_succ, clockLevels_succ, clockLevels_succ, held, List.append_assoc]
    exact (falls_again ..).symm

/-- The bytes the slave presents are the ones sampled. -/
theorem burst_eq (slow : 1 < g.cDiv) (acked : (r.input 30).sdaIn = false) {d : Fin 6 → BitVec 8}
    (presents : Presents r d) (j : Fin 6) : r.burst j = d j := by
  rw [Read.burst, Fsm.dataByte]
  refine Fsm.sampled_eq fun i bit => ?_
  have place := Fsm.byteTick_eq (3 * i + 2) j
  obtain ⟨m, tick⟩ : ∃ m, 32 + Fsm.byteTick (3 * i + 2) j = m + 1 := ⟨31 + Fsm.byteTick (3 * i + 2) j, by omega⟩
  have sample : g.cDiv * (r.first + (32 + Fsm.byteTick (3 * i + 2) j) + 1) = clock r + (g.cDiv * m + g.cDiv) := by
    rw [tick, clock]
    ring
  have found := slot_between r acked (m := m) (n := g.cDiv * (r.first + (32 + Fsm.byteTick (3 * i + 2) j) + 1) - 1)
    (by omega) (by rw [sample]; omega) (by rw [sample, Nat.mul_succ]; omega)
  rw [← tick, readWave_falls j j.isLt i bit] at found
  rw [r.sample_eq slow acked j.isLt bit]
  exact presents j i bit _ (by rw [sample]; omega) found

/-! ## Outputs -/

/-- The idle master waits or starts a read, and keeps the outputs. -/
theorem idle_tick_cases {s : Fsm} (here : s.At .idle) (i : TickIn) :
    ((s.tick i).At .idle ∨ (s.tick i).At .rStartw) ∧ (s.tick i).oAx = s.oAx ∧ (s.tick i).oAy = s.oAy := by
  cases s
  obtain ⟨rfl, rfl⟩ := here
  simp only [Fsm.tick, if_pos, Fsm.high]
  split_ifs with due
  · exact ⟨Or.inr ⟨rfl, rfl⟩, rfl, rfl⟩
  · exact ⟨Or.inl ⟨rfl, rfl⟩, rfl, rfl⟩

/-- From tick 264 of the read on the master is idle until another read starts. -/
theorem idle_after (acked : (r.input 30).sdaIn = false) {q : ℕ}
    (alone : ∀ p, 0 < p → p ≤ 264 + q → ¬ Fsm.At .rStartw (atTick g slave (r.first + p)).fsm) :
    Fsm.At .idle (atTick g slave (r.first + (264 + q))).fsm ∧
      (atTick g slave (r.first + (264 + q))).fsm.oAx = r.burst 1 ++ r.burst 0 ∧
      (atTick g slave (r.first + (264 + q))).fsm.oAy = r.burst 3 ++ r.burst 2 := by
  induction q with
  | zero =>
    have head := (Fsm.readTaken_run r.input r.starts (free_at r.starts) acked).mono Fsm.busy_of_reading
    have close := (Fsm.readTaken_close r.before r.input).mono Fsm.busy_of_reading
    rw [r.fsm_add, show run Fsm.tick r.before r.input (264 + 0) = _ from (head.trans close).last]
    exact ⟨⟨rfl, rfl⟩, rfl, rfl⟩
  | succ q ih =>
    obtain ⟨here, x, y⟩ := ih fun p positive bound => alone p positive (by omega)
    have next : (atTick g slave (r.first + (264 + (q + 1)))).fsm = _ :=
      fsm_atTick_add g slave (r.first + (264 + q)) 1
    obtain ⟨waits | starts, x', y'⟩ := idle_tick_cases here
      (tickInputs g slave (r.first + (264 + q)))
    · rw [next]
      exact ⟨waits, x'.trans x, y'.trans y⟩
    · refine absurd ?_ (alone (264 + (q + 1)) (by omega) le_rfl)
      rw [next]
      exact starts

/-- The outputs change on tick 260 of the read only. -/
theorem outputs_tick (acked : (r.input 30).sdaIn = false) {q : ℕ}
    (alone : ∀ p, 0 < p → p ≤ q → ¬ Fsm.At .rStartw (atTick g slave (r.first + p)).fsm) :
    ((atTick g slave (r.first + q)).fsm.oAx, (atTick g slave (r.first + q)).fsm.oAy) =
      if q ≤ 260 then (r.before.oAx, r.before.oAy)
      else (r.burst 1 ++ r.burst 0, r.burst 3 ++ r.burst 2) := by
  have head := Fsm.readTaken_run r.input r.starts (free_at r.starts) acked
  have close := Fsm.readTaken_close r.before r.input
  split_ifs with early
  · obtain ⟨-, x, y⟩ := head.inside q (by omega)
    rw [r.fsm_add]
    exact Prod.ext x y
  · obtain ⟨j, rfl⟩ := Nat.exists_eq_add_of_le (show 261 ≤ q by omega)
    rcases Nat.lt_or_ge j 3 with closing | late
    · obtain ⟨-, x, y⟩ := close.inside j closing
      rw [r.fsm_add, run_add, show run Fsm.tick r.before r.input 261 = _ from head.last]
      exact Prod.ext x y
    · obtain ⟨q, rfl⟩ := Nat.exists_eq_add_of_le late
      obtain ⟨-, x, y⟩ := idle_after r (q := q) acked (by simpa [← Nat.add_assoc] using alone)
      rw [← Nat.add_assoc 261]
      exact Prod.ext x y

/-- On clocks: the outputs change together, on one clock, and hold until another read starts. -/
theorem outputs_clock (acked : (r.input 30).sdaIn = false) {n : ℕ} (later : clock r ≤ n)
    (alone : ∀ m, clock r < m → m ≤ n → ¬ Fsm.At .rStartw (after g slave m).fsm) :
    ((after g slave n).fsm.oAx, (after g slave n).fsm.oAy) =
      if n < clock r + g.cDiv * 260 + 1 then (r.before.oAx, r.before.oAy)
      else (r.burst 1 ++ r.burst 0, r.burst 3 ++ r.burst 2) := by
  have positive := g.cDiv_pos
  have some : 0 < clock r := Nat.mul_pos positive (Nat.succ_pos _)
  obtain ⟨q, place⟩ := Nat.exists_eq_add_of_le (show r.first ≤ (n - 1) / g.cDiv from
    (Nat.le_div_iff_mul_le positive).mpr (by rw [clock, Nat.mul_add_one, Nat.mul_comm] at later; omega))
  have parts := Nat.div_add_mod (n - 1) g.cDiv
  have below := Nat.mod_lt (n - 1) positive
  rw [place] at parts
  have quiet : ∀ p, 0 < p → p ≤ q → ¬ Fsm.At .rStartw (atTick g slave (r.first + p)).fsm := by
    intro p some' bound
    have up : g.cDiv * (r.first + 1) ≤ g.cDiv * (r.first + p) := Nat.mul_le_mul_left _ (by omega)
    have down : g.cDiv * (r.first + p) ≤ g.cDiv * (r.first + q) := Nat.mul_le_mul_left _ (by omega)
    rw [← fsm_between g slave (Nat.lt_succ_self (g.cDiv * (r.first + p)))
      (by rw [Nat.mul_add_one]; omega)]
    exact alone _ (by rw [clock]; omega) (by omega)
  rw [fsm_clock g slave (by omega), place, outputs_tick r acked quiet]
  refine if_congr ?_ rfl rfl
  have length : clock r + g.cDiv * 260 = (r.first + 261) * g.cDiv := by
    rw [clock]
    ring
  calc q ≤ 260 ↔ r.first + q < r.first + 261 := by omega
    _ ↔ n - 1 < (r.first + 261) * g.cDiv := by rw [← place, Nat.div_lt_iff_lt_mul positive]
    _ ↔ n < clock r + g.cDiv * 260 + 1 := by omega

end Clocks

/-! ## The whole read -/

/-- What an acknowledged read does: on the bus, and to the outputs. -/
structure Delivers {slave : ℕ → Bool} (r : Read defaults slave) (d : Fin 6 → BitVec 8) : Prop where
  heard : Says (.mark true)
    (clockLevels defaults slave (clock r) (defaults.cDiv * (r.last - r.first) + 1))
    ((message [[.transmit 0x3A, .transmit 0x32],
      [.transmit 0x3B, .receive true, .receive true, .receive true, .receive true, .receive true,
        .receive false]]).flatMap Call.events) (.mark true)
  updated : ∃ u > clock r, u < defaults.cDiv * (r.last + 1) ∧ ∀ n ≥ clock r,
    (∀ m, clock r < m → m ≤ n → ¬ Fsm.At .rStartw (after defaults slave m).fsm) →
      ((after defaults slave n).fsm.oAx, (after defaults slave n).fsm.oAy) =
        if n < u then (r.before.oAx, r.before.oAy) else (d 1 ++ d 0, d 3 ++ d 2)

/-- A read whose bytes are all acknowledged is the transaction of a burst read, and leaves the first
four bytes the slave presents in the outputs. -/
theorem burst_delivers {slave : ℕ → Bool} (r : Read defaults slave) {d : Fin 6 → BitVec 8}
    (acked : ¬ r.Failed) (presents : Presents r d) : Delivers r d := by
  have given : (r.input 30).sdaIn = false :=
    Bool.eq_false_iff.mpr fun missing => acked (r.failed_of_refused missing)
  have length := (r.taken given).1
  have data := burst_eq r (by simp) given presents
  constructor
  · have head := Fsm.readTaken_run r.input r.starts (free_at r.starts) given
    have close := Fsm.readTaken_close r.before r.input
    have wave : Fsm.master.emitted r.before r.input 264 = Fsm.readWave ++ stopWave :=
      ((head.mono Fsm.busy_of_reading).trans (close.mono Fsm.busy_of_reading)).heard
    rw [Fsm.readWave_stop] at wave
    have spoken : Says (.mark true) (waves ⟨true, true⟩ (message Fsm.readParts))
        ((message Fsm.readParts).flatMap Call.events) (.mark true) := says_parts Fsm.readParts_bytes
    rw [← wave] at spoken
    have parts : Fsm.readParts = [[.transmit 0x3A, .transmit 0x32],
      [.transmit 0x3B, .receive true, .receive true, .receive true, .receive true, .receive true,
        .receive false]] := rfl
    rw [show r.last - r.first = 264 by omega, levels, defaults_cDiv, ← parts]
    have whole := Says.free.append (spoken.hold 124)
    rw [List.singleton_append, List.nil_append] at whole
    exact whole
  · refine ⟨clock r + defaults.cDiv * 260 + 1, by omega, ?_, fun n later alone => ?_⟩
    · rw [length, clock, defaults_cDiv]
      omega
    · rw [outputs_clock r given later alone]
      have d₀ : r.burst 0 = d 0 := data 0
      have d₁ : r.burst 1 = d 1 := data 1
      have d₂ : r.burst 2 = d 2 := data 2
      have d₃ : r.burst 3 = d 3 := data 3
      rw [d₀, d₁, d₂, d₃]

/-! ## Six different bytes -/

/-- Receiving the data bytes. -/
def collects : State → Bool
  | .rRx0 | .rRx1 | .rRx2 | .rRx3 | .rRx4 | .rRx5 | .rStop => true
  | _ => false

/-- From the first data byte on the master transmits nothing. -/
structure Receiving (s : Fsm) : Prop where
  place : collects s.st = true
  quiet : Fsm.transmitting s.ll = false
  next : s.ll ≠ .none → collects s.nextSt = true ∨ s.nextSt = .idle

private theorem receiving_tick {s : Fsm} (receiving : Receiving s) (i : TickIn) :
    Receiving (s.tick i) ∨ (s.tick i).st = .idle := by
  obtain ⟨place, quiet, next⟩ := receiving
  by_cases ready : s.ll = .none
  · rw [Fsm.tick, if_pos ready]
    obtain ⟨st⟩ := s
    cases st with
    | rRx0 | rRx1 | rRx2 | rRx3 | rRx4 | rRx5 =>
      exact Or.inl ⟨rfl, rfl, fun _ => Or.inl rfl⟩
    | rStop => exact Or.inl ⟨rfl, rfl, fun _ => Or.inr rfl⟩
    | _ => exact absurd place Bool.false_ne_true
  · rw [Fsm.tick, if_neg ready]
    obtain ⟨-, back, ⟨going, same⟩ | ⟨ended, returned⟩⟩ := Fsm.low_cases s i ready
    · refine Or.inl ⟨same ▸ place, ?_, fun _ => back ▸ next ready⟩
      cases here : s.ll with
      | none => exact absurd here ready
      | txSet | txHigh | txLow | txAckRel | txAckHigh | txAckLow => simp [here, Fsm.transmitting] at quiet
      | _ =>
        simp only [Fsm.low, here]
        try split_ifs
        all_goals rfl
    · rcases next ready with more | finished
      · exact Or.inl ⟨returned ▸ more, by rw [ended]; rfl, fun busy => absurd ended busy⟩
      · exact Or.inr (returned.trans finished)

/-- The register, the repeated START and the address with the read bit. -/
private theorem select_run {s : Fsm} (input : ℕ → TickIn) (here : s.At .rReg) (acked : s.ackNack = false) :
    (run Fsm.tick s input 60).At .rRx0 := by
  have calls : Fsm.master.Segment (fun _ => True) s input
      (ticks [.transmit regDatax0, .start, .transmit (addrRd addr7)])
      (waves s.level [.transmit regDatax0, .start, .transmit (addrRd addr7)])
      (((((s.transmit regDatax0 .rRepstart).sent (input 26).sdaIn).start .rAddrr).started.transmit
        (addrRd addr7) .rRx0).sent (input 58).sdaIn) := by
    cases s
    obtain ⟨rfl, rfl⟩ := here
    subst acked
    refine Fsm.calls_cons rfl rfl ⟨rfl, rfl, rfl⟩ ⟨rfl, rfl, rfl⟩ rfl (fun _ _ => trivial) ?_
    refine Fsm.calls_cons rfl rfl rfl ⟨rfl, rfl, rfl⟩ rfl (fun _ _ => trivial) ?_
    refine Fsm.calls_cons rfl rfl ⟨rfl, rfl, rfl⟩ ⟨rfl, rfl, rfl⟩ rfl (fun _ _ => trivial) ?_
    exact Fsm.calls_nil _
  rw [show run Fsm.tick s input 60 = _ from calls.last]
  exact ⟨rfl, rfl⟩

/-- An acknowledged read is not refused any more once its data bytes are being received. -/
private theorem not_transmitting {g : Generics} {slave : ℕ → Bool} (r : Read g slave)
    (acked : (r.input 30).sdaIn = false) {k : ℕ} (later : r.first + 92 ≤ k)
    (early : k < r.last) : (atTick g slave k).fsm.ll ≠ .txAckHigh := by
  have receiving : Receiving (atTick g slave k).fsm := by
    induction k, later using Nat.le_induction with
    | base =>
      have address : Fsm.master.Segment _ r.before r.input _ _ _ := Fsm.readAddress_run r.starts
      have selected := select_run (s := r.before.addressed (r.input 30).sdaIn) (fun j => r.input (32 + j))
        ⟨rfl, rfl⟩ acked
      rw [← show run Fsm.tick r.before r.input 32 = _ from address.last, ← run_add, ← r.fsm_add] at selected
      obtain ⟨here, none⟩ := selected
      exact ⟨by rw [here]; rfl, by rw [none]; rfl, fun busy => absurd none busy⟩
    | succ k later ih =>
      have busy := r.busy (k + 1) (by omega) early
      rw [fsm_atTick_add g slave k 1] at busy ⊢
      exact (receiving_tick (ih (by omega)) _).resolve_right busy
  intro acking
  have quiet := receiving.quiet
  rw [acking] at quiet
  exact Bool.noConfusion quiet

/-- The bytes 0x11, 0x22, …, 0x66. -/
def digits (j : ℕ) : BitVec 8 := BitVec.ofNat 8 (17 * (j + 1))

/-- The slave pulls SDA low until the last address of the first read is acknowledged, and then presents the
six bytes. -/
def counting (n : ℕ) : Bool :=
  let l := (n + 124 - 7500125) / 125
  decide (91 < l) && (digits ((l - 92) / 28)).getLsbD (7 - ((l - 92) % 28 - 1) / 3)

/-- The ticks of the slots of the data bits. -/
private theorem slot_ticks : ∀ m < 261, 29 ≤ falls (⟨true, true⟩ :: Fsm.readWave.take (m + 1)) →
    91 < m + 1 ∧ (falls (⟨true, true⟩ :: Fsm.readWave.take (m + 1)) % 9 = 1 ∨
      (m + 1 - 92) / 28 = (falls (⟨true, true⟩ :: Fsm.readWave.take (m + 1)) - 29) / 9 ∧
      ((m + 1 - 92) % 28 - 1) / 3 = (falls (⟨true, true⟩ :: Fsm.readWave.take (m + 1)) - 29) % 9) := by
  decide +kernel

private theorem slot_mono {g : Generics} {slave : ℕ → Bool} (r : Read g slave) {n n' : ℕ} (first : clock r ≤ n)
    (later : n ≤ n') : slot r n ≤ slot r n' := by
  induction n', later using Nat.le_induction with
  | base => exact le_rfl
  | succ n' later ih =>
    refine ih.trans ?_
    rw [slot, slot, show n' + 1 - clock r + 1 = n' - clock r + 1 + 1 by omega,
      clockLevels_succ _ _ _ (n' - clock r + 1)]
    exact falls_append _ _

private theorem counting_low {k : ℕ} (early : k ≤ 60091) : (tickInputs defaults counting k).sdaIn = false := by
  refine sdaIn_defaults ?_
  have before : ¬ 91 < (125 * (k + 1) - 1 + 124 - 7500125) / 125 := by omega
  simp only [counting, decide_eq_false before, Bool.false_and]

private theorem counting_presents {r : Read defaults counting} (start : r.first = 60000)
    (acked : (r.input 30).sdaIn = false) : Presents r fun j => digits j := by
  intro j i bit n later place
  have begins : clock r = 7500125 := by rw [clock, start, defaults_cDiv]
  have byte := j.isLt
  have none : slot r (clock r) = 0 := by
    rw [slot, Nat.sub_self]
    rfl
  have last : slot r (clock r + defaults.cDiv * (260 + 1)) = 83 := by
    rw [slot_between r acked (m := 260) (by omega) (by simp) le_rfl]
    decide +kernel
  have inside : n < clock r + defaults.cDiv * (260 + 1) := by
    by_contra beyond
    have above := slot_mono r (Nat.le_add_right ..) (Nat.le_of_not_lt beyond)
    omega
  have moved : clock r < n := by
    rcases later.lt_or_eq with after | same
    · exact after
    · rw [← same, none] at place
      omega
  simp only [defaults_cDiv] at inside
  obtain ⟨m, tick⟩ : ∃ m, (n + 124 - 7500125) / 125 = m + 1 := ⟨(n + 124 - 7500125) / 125 - 1, by omega⟩
  have found := slot_between r acked (m := m) (n := n) (by omega) (by rw [defaults_cDiv]; omega)
    (by rw [defaults_cDiv]; omega)
  have ticks := slot_ticks m (by omega)
  rw [← found, place] at ticks
  obtain ⟨after, column⟩ := ticks (by omega)
  have here : (m + 1 - 92) / 28 = j ∧ ((m + 1 - 92) % 28 - 1) / 3 = i := by omega
  simp only [counting, tick, decide_eq_true after, here.1, here.2, Bool.true_and]

/-- A slave that presents six different bytes: the outputs go from zero to the first four. -/
theorem burst_delivers_digits : ∃ r : Read defaults counting, r.before.oAx = 0 ∧ Delivers r fun j => digits j := by
  obtain ⟨starts, zero⟩ := first_read fun k bound => counting_low (by omega)
  obtain ⟨r, start⟩ := Read.exists_first starts
  have acked : (r.input 30).sdaIn = false := by
    rw [Read.input, start]
    exact counting_low (by omega)
  refine ⟨r, ?_, burst_delivers r ?_ (counting_presents start acked)⟩
  · rw [Read.before, start]
    exact zero
  · rintro ⟨k, first, early, acking, missing⟩
    rcases Nat.lt_or_ge k (r.first + 92) with before | after
    · rw [counting_low (by omega)] at missing
      exact Bool.noConfusion missing
    · exact not_transmitting r acked after early acking

end Telecran.Soundness.BurstRead
