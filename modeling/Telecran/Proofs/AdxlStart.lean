import Telecran.Proofs.AdxlTicks

/-! # From the reset to the first read

With the default generics and a slave that acknowledges, the boot wait, three init writes and the
device identification are over before the read timer ticks, and the first read starts on tick 60000.
-/

namespace Telecran.Model.Adxl

open Machine Bus

namespace Fsm

variable {s : Fsm} {input : ℕ → TickIn}

theorem boot_run {n : ℕ} (waiting : ∀ j < n, (input j).bootDone = false) :
    run tick reset input n = reset := by
  induction n with
  | zero => rfl
  | succ n ih =>
    rw [run_succ, ih fun j bound => waiting j (by omega)]
    have still := waiting n (Nat.lt_succ_self n)
    simp only [tick, high, reset, if_pos, still]
    rfl

/-- An init write whose acknowledges are given takes 92 ticks. -/
theorem init_run (here : At .iWStart s) (low : ∀ j < 92, (input j).sdaIn = false) :
    At .iNext (run tick s input 92) ∧ (run tick s input 92).ackNack = false ∧
      (run tick s input 92).initStep = s.initStep ∧ (run tick s input 92).oAx = s.oAx := by
  have first : master.Segment _ s input _ _ _ := initAddress_run here
  have second : master.Segment _ _ (fun j => input (ticks address + j)) _ _ _ :=
    initSelect_run (s := s.initAddressed (input 30).sdaIn) ⟨rfl, rfl⟩ (low 30 (by decide))
  have third : master.Segment _ _ (fun j => input (ticks address + 28 + j)) _ _ _ :=
    initWrite_run (s := (s.initAddressed (input 30).sdaIn).initSelected (input 58).sdaIn) ⟨rfl, rfl⟩
      (low 58 (by decide))
  have written : run tick s input 92 = _ := ((first.trans second).trans third).last
  rw [written]
  exact ⟨⟨rfl, rfl⟩, low 86 (by decide), rfl, rfl⟩

/-- The next init write, or after the last one the identification. -/
theorem init_next (here : At .iNext s) (acked : s.ackNack = false) (i : TickIn) :
    (s.tick i).oAx = s.oAx ∧ (s.initStep = 2 → At .idStartw (s.tick i)) ∧
      (s.initStep ≠ 2 → At .iWStart (s.tick i) ∧ (s.tick i).initStep = s.initStep + 1) := by
  cases s
  obtain ⟨rfl, rfl⟩ := here
  subst acked
  simp only [tick, high, if_pos, Bool.false_eq_true, if_false]
  split_ifs with last
  · exact ⟨rfl, fun _ => ⟨rfl, rfl⟩, fun other => absurd last other⟩
  · exact ⟨rfl, fun same => absurd same last, fun _ => ⟨⟨rfl, rfl⟩, rfl⟩⟩

/-- The identification whose acknowledges are given takes 124 ticks. -/
theorem id_run (here : At .idStartw s) (low : ∀ j < 124, (input j).sdaIn = false) :
    At .idle (run tick s input 124) ∧ (run tick s input 124).readyI = true ∧
      (run tick s input 124).oAx = s.oAx := by
  have first : master.Segment _ s input _ _ _ := idAddress_run here
  have second : master.Segment _ _ (fun j => input (ticks address + j)) _ _ _ :=
    idSelect_run (s := s.idAddressed (input 30).sdaIn) ⟨rfl, rfl⟩ (low 30 (by decide))
  have third : master.Segment _ _ (fun j => input (ticks address + ticks idSelect + j)) _ _ _ :=
    identify_run (s := (s.idAddressed (input 30).sdaIn).idSelected (input 58).sdaIn
      (input 90).sdaIn) ⟨rfl, rfl⟩ (low 90 (by decide))
  have identified : run tick s input 124 = _ := ((first.trans second).trans third).last
  rw [identified]
  exact ⟨⟨rfl, rfl⟩, rfl, rfl⟩

/-- The master waits for the read timer. -/
theorem idle_tick (here : At .idle s) (ready : s.readyI = true) (i : TickIn) :
    (s.tick i).readyI = true ∧ (s.tick i).oAx = s.oAx ∧
      At (if i.tickRead then .rStartw else .idle) (s.tick i) := by
  cases s
  obtain ⟨rfl, rfl⟩ := here
  subst ready
  cases due : i.tickRead <;> simp [tick, high, due, At]

theorem idle_run {n : ℕ} (here : At .idle s) (ready : s.readyI = true)
    (early : ∀ j < n, (input j).tickRead = false) :
    At .idle (run tick s input n) ∧ (run tick s input n).readyI = true ∧
      (run tick s input n).oAx = s.oAx := by
  induction n with
  | zero => exact ⟨here, ready, rfl⟩
  | succ n ih =>
    obtain ⟨still, ready, same⟩ := ih fun j bound => early j (by omega)
    obtain ⟨ready', same', next⟩ := idle_tick still ready (input n)
    rw [early n (Nat.lt_succ_self n)] at next
    exact ⟨next, ready', same'.trans same⟩

end Fsm

/-! ## The boot wait -/

section Boot

variable {g : Generics} {slave : ℕ → Bool}

/-- The master leaves `ST_BOOT` on the first tick after the boot wait. -/
theorem booted_at {k : ℕ} (waiting : ∀ j < k, (tickInputs g slave j).bootDone = false)
    (elapsed : (tickInputs g slave k).bootDone = true) :
    (atTick g slave (k + 1)).fsm = { Fsm.reset with st := .iWStart } := by
  rw [fsm_atTick, run_succ, Fsm.boot_run waiting]
  simp only [Fsm.tick, Fsm.high, Fsm.reset, if_pos, elapsed]

variable {k : ℕ}

theorem bootDone_at (wait : 0 < g.tbootDiv) (k : ℕ) :
    (tickInputs g slave k).bootDone = decide (g.tbootDiv ≤ g.cDiv * (k + 1)) :=
  (bootDone_after g slave wait _).1

/-- Tick `k` is the first one after the boot wait. -/
theorem booted_first (early : g.cDiv * k < g.tbootDiv) (late : g.tbootDiv ≤ g.cDiv * (k + 1)) :
    (atTick g slave (k + 1)).fsm = { Fsm.reset with st := .iWStart } := by
  have wait : 0 < g.tbootDiv := by omega
  apply booted_at
  · intro j below
    have ticks : g.cDiv * (j + 1) ≤ g.cDiv * k := Nat.mul_le_mul_left _ below
    rw [bootDone_at wait, decide_eq_false (by omega)]
  · rw [bootDone_at wait, decide_eq_true late]

theorem init_at (here : Fsm.At .iWStart (atTick g slave k).fsm)
    (low : ∀ j < 92, (tickInputs g slave (k + j)).sdaIn = false) :
    (atTick g slave (k + 93)).fsm.oAx = (atTick g slave k).fsm.oAx ∧
      ((atTick g slave k).fsm.initStep = 2 → Fsm.At .idStartw (atTick g slave (k + 93)).fsm) ∧
      ((atTick g slave k).fsm.initStep ≠ 2 → Fsm.At .iWStart (atTick g slave (k + 93)).fsm ∧
        (atTick g slave (k + 93)).fsm.initStep = (atTick g slave k).fsm.initStep + 1) := by
  obtain ⟨written, acked, step, same⟩ := Fsm.init_run here low
  have next := Fsm.init_next written acked (tickInputs g slave (k + 92))
  have split : (atTick g slave (k + 93)).fsm = _ := fsm_atTick_add g slave k (92 + 1)
  rw [run_succ] at split
  rw [split, ← step, ← same]
  exact next

theorem id_at (here : Fsm.At .idStartw (atTick g slave k).fsm)
    (low : ∀ j < 124, (tickInputs g slave (k + j)).sdaIn = false) :
    Fsm.At .idle (atTick g slave (k + 124)).fsm ∧ (atTick g slave (k + 124)).fsm.readyI = true ∧
      (atTick g slave (k + 124)).fsm.oAx = (atTick g slave k).fsm.oAx := by
  rw [fsm_atTick_add g slave k 124]
  exact Fsm.id_run here low

/-- Three init writes and the identification, all of them acknowledged, take 403 ticks. -/
theorem setup_at (start : Fsm.At .iWStart (atTick g slave k).fsm)
    (first : (atTick g slave k).fsm.initStep = 0)
    (low : ∀ j < 403, (tickInputs g slave (k + j)).sdaIn = false) :
    Fsm.At .idle (atTick g slave (k + 403)).fsm ∧ (atTick g slave (k + 403)).fsm.readyI = true ∧
      (atTick g slave (k + 403)).fsm.oAx = (atTick g slave k).fsm.oAx := by
  have later (m : ℕ) {n : ℕ} (bound : m + n ≤ 403) :
      ∀ j < n, (tickInputs g slave (k + m + j)).sdaIn = false := by
    intro j below
    rw [Nat.add_assoc]
    exact low (m + j) (by omega)
  obtain ⟨same, -, again⟩ := init_at start (later 0 (by decide))
  obtain ⟨start₁, second⟩ := again (by omega)
  obtain ⟨same₁, -, again₁⟩ := init_at start₁ (later 93 (by decide))
  obtain ⟨start₂, third⟩ := again₁ (by omega)
  obtain ⟨same₂, done, -⟩ := init_at start₂ (later 186 (by decide))
  obtain ⟨idle, ready, same₃⟩ := id_at (done (by omega)) (later 279 (by decide))
  exact ⟨idle, ready, same₃.trans (same₂.trans (same₁.trans same))⟩

/-- A read starts when the read timer ticks. -/
theorem read_at {n : ℕ} (here : Fsm.At .idle (atTick g slave k).fsm)
    (ready : (atTick g slave k).fsm.readyI = true)
    (early : ∀ j < n, (tickInputs g slave (k + j)).tickRead = false)
    (due : (tickInputs g slave (k + n)).tickRead = true) :
    Fsm.At .rStartw (atTick g slave (k + n + 1)).fsm ∧
      (atTick g slave (k + n + 1)).fsm.oAx = (atTick g slave k).fsm.oAx := by
  obtain ⟨still, ready, same⟩ := Fsm.idle_run here ready early
  obtain ⟨-, same', next⟩ := Fsm.idle_tick still ready (tickInputs g slave (k + n))
  rw [due] at next
  rw [Nat.add_assoc, fsm_atTick_add g slave k (n + 1), ← same]
  exact ⟨next, same'⟩

end Boot

/-! ## The default generics -/

variable {slave : ℕ → Bool}

@[simp] theorem defaults_cDiv : defaults.cDiv = 125 := by norm_num [Generics.cDiv, defaults]

@[simp] theorem defaults_treadDiv : defaults.treadDiv = 2500000 := by
  norm_num [Generics.treadDiv, defaults]

@[simp] theorem defaults_tbootDiv : defaults.tbootDiv = 5000000 := by
  norm_num [Generics.tbootDiv, defaults]

theorem booted_defaults :
    (atTick defaults slave 40000).fsm = { Fsm.reset with st := .iWStart } :=
  booted_first (k := 39999) (by simp) (by simp)

theorem after_tread (g : Generics) (slave : ℕ → Bool) (n : ℕ) :
    (after g slave n).tread = Divider.after g.treadDiv n := by
  induction n with
  | zero => rfl
  | succ n ih => rw [Divider.after_succ, ← ih]; rfl

theorem tickRead_defaults (k : ℕ) :
    (tickInputs defaults slave k).tickRead = decide ((k + 1) % 20000 = 0) := by
  rw [tickInputs, tickIn, atTick, after_tread, Divider.after_eq (by simp)]
  simp only [defaults_cDiv, defaults_treadDiv, decide_eq_decide]
  omega

/-- While the slave pulls SDA low, every sample is low. -/
theorem sdaIn_defaults {k : ℕ} (low : slave (125 * (k + 1) - 1) = false) :
    (tickInputs defaults slave k).sdaIn = false := by
  rw [sdaIn_atTick defaults slave (by simp), defaults_cDiv, low, Bool.false_and]

/-- With every sample low before it, the first read starts on tick 60000, and the outputs are zero. -/
theorem first_read (low : ∀ k < 60000, (tickInputs defaults slave k).sdaIn = false) :
    Fsm.At .rStartw (atTick defaults slave 60000).fsm ∧
      (atTick defaults slave 60000).fsm.oAx = 0 := by
  have start : Fsm.At .iWStart (atTick defaults slave 40000).fsm := by
    rw [booted_defaults]
    exact ⟨rfl, rfl⟩
  have count : (atTick defaults slave 40000).fsm.initStep = 0 := congrArg Fsm.initStep booted_defaults
  have zero : (atTick defaults slave 40000).fsm.oAx = 0 := congrArg Fsm.oAx booted_defaults
  obtain ⟨idle, ready, same⟩ := setup_at start count fun j bound => low _ (by omega)
  have due : (tickInputs defaults slave 59999).tickRead = true := by
    rw [tickRead_defaults, decide_eq_true rfl]
  have early : ∀ j < 19596, (tickInputs defaults slave (40403 + j)).tickRead = false := by
    intro j bound
    rw [tickRead_defaults, decide_eq_false (by omega)]
  obtain ⟨starts, same'⟩ := read_at (n := 19596) idle ready early due
  exact ⟨starts, same'.trans (same.trans zero)⟩

end Telecran.Model.Adxl
