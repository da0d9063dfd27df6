import Telecran.Proofs.AdxlRetry

/-! # Read requests between two I2C ticks are lost

The read timer asks for a read with a pulse of one clock, and the main process looks at it on the
ticks of another divider. A request is served if and only if the two coincide, so no request of any
run is lost if and only if one period divides the other.
-/

namespace Telecran.Soundness.ReadRequest

open Machine Model Adxl

variable {g : Generics} {slave : ℕ → Bool} {n : ℕ}

/-- The read timer ticks while the main process is idle and ready. -/
def Requested (g : Generics) (slave : ℕ → Bool) (n : ℕ) : Prop :=
  (after g slave n).tread.tick = true ∧ Fsm.At .idle (after g slave n).fsm ∧
    (after g slave n).fsm.readyI = true

/-- A read starts before the read timer ticks again. -/
def Started (g : Generics) (slave : ℕ → Bool) (n : ℕ) : Prop :=
  ∃ m > n, (∀ j, n < j → j ≤ m → (after g slave j).tread.tick = false) ∧
    (after g slave m).fsm.st = .rStartw

/-! ## One request -/

/-- The idle master sees the read timer on its own ticks only. -/
private theorem idle_clock (here : Fsm.At .idle (after g slave n).fsm)
    (ready : (after g slave n).fsm.readyI = true) :
    (after g slave (n + 1)).fsm.readyI = true ∧
      Fsm.At (if (Divider.after g.cDiv n).tick && (after g slave n).tread.tick then .rStartw else .idle)
        (after g slave (n + 1)).fsm := by
  rw [fsm_succ]
  cases ticks : (Divider.after g.cDiv n).tick with
  | false => exact ⟨ready, here⟩
  | true =>
    obtain ⟨ready', -, next⟩ := Fsm.idle_tick here ready (after g slave n).tickIn
    exact ⟨ready', next⟩

/-- Until the read timer ticks the master stays idle. -/
private theorem idle_until {m : ℕ} (later : n ≤ m) (here : Fsm.At .idle (after g slave n).fsm)
    (ready : (after g slave n).fsm.readyI = true)
    (quiet : ∀ j, n ≤ j → j < m → (after g slave j).tread.tick = false) :
    Fsm.At .idle (after g slave m).fsm ∧ (after g slave m).fsm.readyI = true := by
  induction m, later using Nat.le_induction with
  | base => exact ⟨here, ready⟩
  | succ m later ih =>
    obtain ⟨still, ready⟩ := ih fun j low high => quiet j low (by omega)
    obtain ⟨ready', next⟩ := idle_clock still ready
    rw [quiet m later (Nat.lt_succ_self m), Bool.and_false] at next
    exact ⟨next, ready'⟩

/-- A request is served if and only if it comes on an I2C tick. -/
private theorem request_started_iff (slow : g.cDiv < g.treadDiv) (request : Requested g slave n) :
    Started g slave n ↔ g.cDiv ∣ n := by
  obtain ⟨due, here, ready⟩ := request
  have period : 0 < g.treadDiv := by omega
  have pulse := due
  rw [after_tread, Divider.after_tick period] at pulse
  obtain ⟨ready', next⟩ := idle_clock here ready
  rw [due, Bool.and_true] at next
  constructor
  · rintro ⟨m, later, quiet, started⟩
    by_contra between
    have missed : ¬ (Divider.after g.cDiv n).tick = true := by
      rw [Divider.after_tick g.cDiv_pos, ← Nat.dvd_iff_mod_eq_zero]
      exact fun tick => between tick.2
    rw [if_neg missed] at next
    have still := (idle_until later next ready' fun j low high => quiet j (by omega) (by omega)).1.1
    exact State.noConfusion (still.symm.trans started)
  · intro divides
    have seen : (Divider.after g.cDiv n).tick = true :=
      (Divider.after_tick g.cDiv_pos n).mpr ⟨pulse.1, Nat.mod_eq_zero_of_dvd divides⟩
    rw [if_pos seen] at next
    refine ⟨n + 1, Nat.lt_succ_self n, fun j low high => ?_, next.1⟩
    obtain rfl : j = n + 1 := by omega
    have one : 1 < g.treadDiv := by
      have := g.cDiv_pos
      omega
    rw [after_tread, Bool.eq_false_iff, Ne, Divider.after_tick period, Nat.add_mod, pulse.2,
      Nat.zero_add, Nat.mod_mod, Nat.mod_eq_of_lt one]
    omega

/-! ## All requests -/

/-- If the tick period does not divide the read period, the read timer ticks between two I2C ticks
again and again. -/
private theorem pulse_between (odd : ¬ g.cDiv ∣ g.treadDiv) (first : ℕ) :
    ∃ n, g.treadDiv ∣ n ∧ first ≤ n / g.cDiv ∧ ¬ g.cDiv ∣ n := by
  have positive := g.cDiv_pos
  have period : 0 < g.treadDiv := Nat.pos_of_ne_zero fun none => odd (none ▸ Nat.dvd_zero _)
  have split : (g.cDiv * first + 1) * g.treadDiv =
      g.cDiv * (first * g.treadDiv) + g.treadDiv := by ring
  refine ⟨(g.cDiv * first + 1) * g.treadDiv, Nat.dvd_mul_left .., ?_, ?_⟩
  · rw [Nat.le_div_iff_mul_le positive, split]
    have whole : first * g.cDiv ≤ g.cDiv * (first * g.treadDiv) := by
      rw [Nat.mul_comm first]
      exact Nat.mul_le_mul_left _ (Nat.le_mul_of_pos_right _ period)
    omega
  · rw [split, Nat.dvd_add_right (Nat.dvd_mul_right ..)]
    exact odd

/-- Between two I2C ticks the main process is as the first of them has left it. -/
private theorem place_between (g : Generics) (slave : ℕ → Bool) {n : ℕ} (between : ¬ g.cDiv ∣ n) :
    (after g slave n).fsm = (atTick g slave (n / g.cDiv)).fsm := by
  have parts := Nat.div_add_mod n g.cDiv
  have below := Nat.mod_lt n g.cDiv_pos
  have rest : 0 < n % g.cDiv := Nat.pos_of_ne_zero fun none => between (Nat.dvd_of_mod_eq_zero none)
  apply fsm_between g slave (by omega)
  rw [Nat.mul_succ]
  omega

/-- Then some slave makes the master wait for the read timer just when it ticks between two I2C
ticks. -/
private theorem request_between (slow : g.cDiv < g.treadDiv) (odd : ¬ g.cDiv ∣ g.treadDiv) :
    ∃ slave n, Requested g slave n ∧ ¬ g.cDiv ∣ n := by
  have positive := g.cDiv_pos
  have several : 1 < g.cDiv := by
    by_contra one
    obtain single : g.cDiv = 1 := by omega
    exact odd (single ▸ one_dvd _)
  have wait : 0 < g.tbootDiv := by
    have period : 1 < g.treadDiv := by omega
    rw [Generics.treadDiv] at period
    rw [Generics.tbootDiv]
    omega
  obtain ⟨first, possible⟩ := idle_possible several wait
  obtain ⟨n, due, far, between⟩ := pulse_between odd first
  obtain ⟨slave, here, ready⟩ := possible _ far
  rw [← place_between g slave between] at here ready
  refine ⟨slave, n, ⟨?_, here, ready⟩, between⟩
  have later : 0 < n := Nat.pos_of_ne_zero fun none => between (none ▸ Nat.dvd_zero _)
  rw [after_tread, Divider.after_tick (by omega)]
  exact ⟨later, Nat.mod_eq_zero_of_dvd due⟩

/-- A request is served if and only if it comes on an I2C tick, and no request of any run is lost if
and only if the read period is a multiple of the tick period. -/
theorem reads_started_iff (g : Generics) (slow : g.cDiv < g.treadDiv) :
    (∀ slave n, Requested g slave n → (Started g slave n ↔ g.cDiv ∣ n)) ∧
      ((∀ slave n, Requested g slave n → Started g slave n) ↔ g.cDiv ∣ g.treadDiv) := by
  refine ⟨fun slave n => request_started_iff slow, ?_, ?_⟩
  · intro served
    by_contra odd
    obtain ⟨slave, n, request, between⟩ := request_between slow odd
    exact between ((request_started_iff slow request).mp (served slave n request))
  · intro divides slave n request
    have due := request.1
    rw [after_tread, Divider.after_tick (by omega)] at due
    exact (request_started_iff slow request).mpr
      (divides.trans (Nat.dvd_of_mod_eq_zero due.2))

/-- With the default generics no request is lost. -/
theorem reads_started_iff_defaults :
    defaults.cDiv ∣ defaults.treadDiv ∧
      ∀ slave n, Requested defaults slave n → Started defaults slave n := by
  have divides : defaults.cDiv ∣ defaults.treadDiv := by norm_num
  exact ⟨divides, (reads_started_iff defaults (by simp)).2.mpr divides⟩

/-! ## A fast bus -/

/-- The default clock with a bus of 400 kHz. -/
def fast : Generics := ⟨50000000, 400000, by decide⟩

@[simp] theorem fast_cDiv : fast.cDiv = 31 := by norm_num [Generics.cDiv, fast]

@[simp] theorem fast_treadDiv : fast.treadDiv = 2500000 := by norm_num [Generics.treadDiv, fast]

@[simp] theorem fast_tbootDiv : fast.tbootDiv = 5000000 := by norm_num [Generics.tbootDiv, fast]

/-- A slave that acknowledges whatever it hears. -/
def agreeable (_ : ℕ) : Bool := false

private theorem agreeable_low (k : ℕ) : (tickInputs fast agreeable k).sdaIn = false :=
  sdaIn_atTick fast agreeable (by simp) k

/-- The boot wait ends on tick 161290, and 403 ticks later the master is idle. -/
private theorem fast_idle : Fsm.At .idle (atTick fast agreeable 161694).fsm ∧
    (atTick fast agreeable 161694).fsm.readyI = true := by
  have start : (atTick fast agreeable 161291).fsm = { Fsm.reset with st := .iWStart } :=
    booted_first (k := 161290) (by simp) (by simp)
  have here : Fsm.At .iWStart (atTick fast agreeable 161291).fsm := by
    rw [start]
    exact ⟨rfl, rfl⟩
  have step : (atTick fast agreeable 161291).fsm.initStep = 0 := congrArg Fsm.initStep start
  obtain ⟨idle, ready, -⟩ := setup_at here step fun j _ => agreeable_low _
  exact ⟨idle, ready⟩

/-- The third request of the read timer falls between two I2C ticks and is lost. -/
theorem fast_request_lost :
    fast.cDiv < fast.treadDiv ∧ Requested fast agreeable 7500000 ∧ ¬ Started fast agreeable 7500000 := by
  have slow : fast.cDiv < fast.treadDiv := by simp
  have period : 0 < fast.treadDiv := by simp
  have place : (after fast agreeable 5012515).fsm = (atTick fast agreeable 161694).fsm :=
    fsm_between fast agreeable (by simp) (by simp)
  obtain ⟨here, ready⟩ := fast_idle
  rw [← place] at here ready
  obtain ⟨still, ready'⟩ := idle_until (show 5012515 ≤ 7500000 by omega) here ready fun j low high => by
    rw [after_tread, Bool.eq_false_iff, Ne, Divider.after_tick period, fast_treadDiv]
    omega
  have request : Requested fast agreeable 7500000 := by
    refine ⟨?_, still, ready'⟩
    rw [after_tread, Divider.after_tick period, fast_treadDiv]
    omega
  refine ⟨slow, request, fun started => ?_⟩
  have divides := (request_started_iff slow request).mp started
  rw [fast_cDiv] at divides
  omega

end Telecran.Soundness.ReadRequest
