import Telecran.Proofs.AdxlRead
import Telecran.Proofs.AdxlStart

/-! # Framing of the accelerometer bus

As long as every checked acknowledge is given, the levels on the lines are whole transactions: each
of the three programs of the master is one, and the bus is free in between. A refused acknowledge
ends in two STOPs, the second of them on the free bus.
-/

namespace Telecran.Soundness.Framing

open Machine Model Bus Adxl

/-! ## One program after the other -/

/-- Both lines are released and no transaction is open. -/
def Closed (s : Fsm) : Prop :=
  s.level = ⟨true, true⟩ ∧ (s.At .boot ∨ s.At .iWStart ∨ s.At .iNext ∨ s.At .idStartw ∨ s.At .idle ∨
    s.At .rStartw)

/-- During the first `n` ticks from `s` the levels form whole transactions. -/
def Framed (s : Fsm) (input : ℕ → TickIn) (n : ℕ) : Prop :=
  ∃ events, WellFramed events ∧
    Says (.mark true) (Fsm.master.emitted s input n) events (.mark true)

section Programs

variable {s : Fsm} {input : ℕ → TickIn}

/-- Some ticks on, the bus is free again and has carried whole transactions. -/
def Closes (s : Fsm) (input : ℕ → TickIn) : Prop :=
  ∃ n, 0 < n ∧ Closed (run Fsm.tick s input n) ∧ Framed s input n

theorem Closes.of_segment {P : Fsm → Prop} {n : ℕ} {t : Fsm} {levels : List Level}
    (part : List Call) (parts : List (List Call)) (segment : Fsm.master.Segment P s input n levels t)
    (later : 0 < n) (closed : Closed t) (shape : levels = waves ⟨true, true⟩ (message (part :: parts)))
    (filled : ∀ p ∈ part :: parts, p ≠ []) (bytes : ∀ p ∈ part :: parts, ∀ c ∈ p, c.IsByte) :
    Closes s input := by
  obtain ⟨events, framed, spoken⟩ := says_transaction filled bytes
  refine ⟨n, later, ?_, events, framed, ?_⟩
  · rwa [show run Fsm.tick s input n = t from segment.last]
  · rwa [segment.heard, shape]

/-- A tick that leaves the free bus alone. -/
theorem Closes.of_tick (closed : Closed (s.tick (input 0))) :
    Closes s input := by
  refine ⟨1, Nat.one_pos, closed, [], .nil, ?_⟩
  have level : Fsm.master.emitted s input 1 = [⟨true, true⟩] := congrArg (fun x => [x]) closed.1
  rw [level]
  exact .free

/-- A checking state that is reached has its acknowledge. -/
theorem given_of_acked {P : Fsm → Prop} {n : ℕ} {t : Fsm} {levels : List Level}
    (acked : ∀ n, (run Fsm.tick s input n).Acked) (segment : Fsm.master.Segment P s input n levels t)
    (ready : t.ll = .none) (checks : Fsm.checks t.st = true) : t.ackNack = false := by
  have here := (acked n).checked
  rw [show run Fsm.tick s input n = t from segment.last] at here
  exact here ready checks

theorem init_closes (acked : ∀ n, (run Fsm.tick s input n).Acked) (here : s.At .iWStart)
    (free : s.level = ⟨true, true⟩) : Closes s input := by
  have first : Fsm.master.Segment _ s input _ _ _ := Fsm.initAddress_run here
  have given := given_of_acked acked first rfl rfl
  have second : Fsm.master.Segment _ _ (fun j => input (ticks Fsm.address + j)) _ _ _ :=
    Fsm.initSelect_run ⟨rfl, rfl⟩ given
  have given' := given_of_acked acked (first.trans second) rfl rfl
  have third : Fsm.master.Segment _ _ (fun j => input (ticks Fsm.address + 28 + j)) _ _ _ :=
    Fsm.initWrite_run ⟨rfl, rfl⟩ given'
  refine .of_segment [.transmit (addrWr addr7), .transmit _, .transmit _] []
    ((first.trans second).trans third) (Nat.succ_pos _) ⟨rfl, ?_⟩ (by rw [free]; rfl) ?_ ?_
  · exact Or.inr (Or.inr (Or.inl ⟨rfl, rfl⟩))
  · simp
  · simp [Call.isByte_transmit]

theorem id_closes (acked : ∀ n, (run Fsm.tick s input n).Acked) (here : s.At .idStartw)
    (free : s.level = ⟨true, true⟩) : Closes s input := by
  have first : Fsm.master.Segment _ s input _ _ _ := Fsm.idAddress_run here
  have given := given_of_acked acked first rfl rfl
  have second : Fsm.master.Segment _ _ (fun j => input (ticks Fsm.address + j)) _ _ _ :=
    Fsm.idSelect_run ⟨rfl, rfl⟩ given
  have given' := given_of_acked acked (first.trans second) rfl rfl
  have third : Fsm.master.Segment _ _
      (fun j => input (ticks Fsm.address + ticks Fsm.idSelect + j)) _ _ _ :=
    Fsm.identify_run ⟨rfl, rfl⟩ given'
  refine .of_segment [.transmit (addrWr addr7), .transmit regDevid]
    [[.transmit (addrRd addr7), .receive false]] ((first.trans second).trans third)
    (Nat.succ_pos _) ⟨rfl, ?_⟩ (by rw [free]; rfl) ?_ ?_
  · exact Or.inr (Or.inr (Or.inr (Or.inr (Or.inl ⟨rfl, rfl⟩))))
  · simp
  · simp [Call.isByte_transmit, Call.isByte_receive]

theorem read_closes (acked : ∀ n, (run Fsm.tick s input n).Acked) (here : s.At .rStartw)
    (free : s.level = ⟨true, true⟩) : Closes s input := by
  have first : Fsm.master.Segment _ s input _ _ _ := Fsm.readAddress_run here
  have given := given_of_acked acked first rfl rfl
  have head := (Fsm.readTaken_run input here free given).mono Fsm.busy_of_reading
  have close := (Fsm.readTaken_close s input).mono Fsm.busy_of_reading
  refine .of_segment _ _ (head.trans close) (Nat.succ_pos _) ⟨rfl, ?_⟩ Fsm.readWave_stop
    Fsm.readParts_filled Fsm.readParts_bytes
  exact Or.inr (Or.inr (Or.inr (Or.inr (Or.inl ⟨rfl, rfl⟩))))

theorem boot_closes (here : s.At .boot) : Closes s input := by
  cases s
  obtain ⟨rfl, rfl⟩ := here
  apply Closes.of_tick
  simp only [Fsm.tick, if_pos, Fsm.high]
  split_ifs with done
  · exact ⟨rfl, Or.inr (Or.inl ⟨rfl, rfl⟩)⟩
  · exact ⟨rfl, Or.inl ⟨rfl, rfl⟩⟩

theorem next_closes (here : s.At .iNext) (free : s.level = ⟨true, true⟩) : Closes s input := by
  cases s
  obtain ⟨rfl, rfl⟩ := here
  apply Closes.of_tick
  simp only [Fsm.tick, if_pos, Fsm.high]
  split_ifs with refused last
  · exact ⟨free, Or.inr (Or.inl ⟨rfl, rfl⟩)⟩
  · exact ⟨free, Or.inr (Or.inr (Or.inr (Or.inl ⟨rfl, rfl⟩)))⟩
  · exact ⟨free, Or.inr (Or.inl ⟨rfl, rfl⟩)⟩

theorem idle_closes (here : s.At .idle) : Closes s input := by
  cases s
  obtain ⟨rfl, rfl⟩ := here
  apply Closes.of_tick
  simp only [Fsm.tick, if_pos, Fsm.high]
  split_ifs with due
  · exact ⟨rfl, Or.inr (Or.inr (Or.inr (Or.inr (Or.inr ⟨rfl, rfl⟩))))⟩
  · exact ⟨rfl, Or.inr (Or.inr (Or.inr (Or.inr (Or.inl ⟨rfl, rfl⟩))))⟩

/-- Whenever the bus is free, some ticks on it is free again. -/
theorem Closed.closes (closed : Closed s) (acked : ∀ n, (run Fsm.tick s input n).Acked) :
    Closes s input := by
  obtain ⟨free, boot | start | next | identify | idle | read⟩ := closed
  · exact boot_closes boot
  · exact init_closes acked start free
  · exact next_closes next free
  · exact id_closes acked identify free
  · exact idle_closes idle
  · exact read_closes acked read free

end Programs

/-! ## Whole runs -/

/-- The bus is free again and again, with whole transactions on it so far. -/
theorem closed_often {input : ℕ → TickIn} (acked : ∀ n, (run Fsm.tick .reset input n).Acked) (n : ℕ) :
    ∃ m ≥ n, Closed (run Fsm.tick .reset input m) ∧ Framed .reset input m := by
  induction n with
  | zero => exact ⟨0, le_rfl, ⟨rfl, Or.inl ⟨rfl, rfl⟩⟩, [], .nil, .nil _⟩
  | succ n ih =>
    obtain ⟨m, later, closed, events, framed, spoken⟩ := ih
    have acked' : ∀ k, (run Fsm.tick (run Fsm.tick .reset input m) (fun k => input (m + k)) k).Acked := by
      intro k
      rw [← run_add]
      exact acked (m + k)
    obtain ⟨j, more, closed', events', framed', spoken'⟩ := closed.closes acked'
    refine ⟨m + j, by omega, ?_, events ++ events', framed.append framed', ?_⟩
    · rw [run_add]
      exact closed'
    · rw [Mealy.emitted_add]
      exact spoken.append spoken'

variable (g : Generics) (slave : ℕ → Bool)

/-- The levels of the master on the first `m` ticks. -/
def levels (m : ℕ) : List Level := (List.range m).map fun k => (atTick g slave k).fsm.level

theorem levels_add (k n : ℕ) : levels g slave (k + 1 + n) = levels g slave (k + 1) ++
    Fsm.master.emitted (atTick g slave k).fsm (fun j => tickInputs g slave (k + j)) n := by
  induction n with
  | zero => rw [Mealy.emitted, List.append_nil]
  | succ n ih =>
    have next := fsm_atTick_add g slave k (n + 1)
    rw [show k + 1 + (n + 1) = k + 1 + n + 1 by omega, levels, List.range_succ, List.map_append,
      ← levels, ih, Mealy.emitted, List.append_assoc, List.map_singleton,
      show k + 1 + n = k + (n + 1) by omega, next]
    rfl

/-- At every tick the transactions so far can still be completed: later on they are whole, and the
bus is free. -/
def WellFramedRun : Prop := ∀ n, ∃ m ≥ n, WellFramed ((Line.mark true).heard (levels g slave m)) ∧
  (Line.mark true).after (levels g slave m) = .mark true

theorem wellFramedRun_of_acked
    (given : ∀ k, ¬ Fsm.Refused (atTick g slave k).fsm (tickInputs g slave k)) :
    WellFramedRun g slave := by
  have acked : ∀ n, (run Fsm.tick .reset (tickInputs g slave) n).Acked :=
    Fsm.Acked.run fun n => fsm_atTick g slave n ▸ given n
  intro n
  obtain ⟨m, later, -, events, framed, spoken⟩ := closed_often acked n
  have shape := levels_add g slave 0 m
  have start : (atTick g slave 0).fsm = .reset := fsm_atTick g slave 0
  have first : levels g slave (0 + 1) = [⟨true, true⟩] :=
    congrArg (fun s : Fsm => [s.level]) start
  simp only [Nat.zero_add, start] at shape first
  have whole := Says.free.append spoken
  refine ⟨1 + m, by omega, ?_, ?_⟩
  · rw [shape, first, whole.heard]
    exact framed
  · rw [shape, first, whole.after]

/-! ## A refused acknowledge -/

theorem stop_call {u h : Fsm} {input : ℕ → TickIn} (ready : u.ll = .none)
    (high : u.high (input 0) = h) (prepared : h.ll = .stopA) (same : h.level = u.level) :
    Fsm.master.Segment (fun _ => True) u input 4 (Call.stop.wave u.level) h.stopped := by
  have step : u.tick (input 0) = h := by rw [Fsm.tick, if_pos ready, high]
  have first : Fsm.master.Segment (fun _ => True) u input 1 [u.level] h :=
    .one trivial step (by rw [← same, ← step]; rfl)
  exact first.trans ((Fsm.stop_run prepared).mono fun _ _ => trivial)

/-- A checking state that finds the acknowledge missing calls STOP, and so does the state after it. -/
theorem give_up {u : Fsm} {input : ℕ → TickIn} (ready : u.ll = .none)
    (checks : Fsm.checks u.st = true) (missing : u.ackNack = true) :
    Fsm.master.emitted u input 8 = Call.stop.wave u.level ++ Call.stop.wave ⟨true, true⟩ := by
  obtain ⟨st, ll, sclOe, sdaOe, txByte, rxByte, bitI, ackNack⟩ := u
  obtain rfl : ll = .none := ready
  obtain rfl : ackNack = true := missing
  cases st with
  | iWReg => exact ((stop_call rfl rfl rfl rfl).trans (stop_call rfl rfl rfl rfl)).heard
  | iWVal => exact ((stop_call rfl rfl rfl rfl).trans (stop_call rfl rfl rfl rfl)).heard
  | idReg => exact ((stop_call rfl rfl rfl rfl).trans (stop_call rfl rfl rfl rfl)).heard
  | idRx => exact ((stop_call rfl rfl rfl rfl).trans (stop_call rfl rfl rfl rfl)).heard
  | rReg => exact ((stop_call rfl rfl rfl rfl).trans (stop_call rfl rfl rfl rfl)).heard
  | _ => cases checks

/-- The second STOP is on the free bus. -/
theorem refused_stray {s : Fsm} {input : ℕ → TickIn} (refused : Fsm.Refused s (input 0)) (l : Line) :
    .stray ∈ l.heard (Fsm.master.emitted s input 10) := by
  obtain ⟨call, checks, missing⟩ := refused
  have sampled : Fsm.master.Segment (fun _ => True) s input 2
      [⟨true, !s.sdaOe⟩, ⟨false, !s.sdaOe⟩]
      { s with sclOe := true, ackNack := (input 0).sdaIn, ll := .none, st := s.nextSt } := by
    cases s
    subst call
    exact ⟨rfl, fun _ _ => trivial, rfl⟩
  have shape : Fsm.master.emitted s input (2 + 8) = [⟨true, !s.sdaOe⟩, ⟨false, !s.sdaOe⟩] ++
      (Call.stop.wave ⟨false, !s.sdaOe⟩ ++ Call.stop.wave ⟨true, true⟩) := by
    rw [Mealy.emitted_add, sampled.heard, show run Fsm.master.step s input 2 = _ from sampled.last]
    exact congrArg _ (give_up rfl checks missing)
  have opened : Says l [⟨true, !s.sdaOe⟩, ⟨false, !s.sdaOe⟩] _ .low := ⟨rfl, rfl⟩
  have whole := opened.append ((Call.says_close (!s.sdaOe)).append Call.says_close_free)
  have strayed : .stray ∈ l.heard (Fsm.master.emitted s input (2 + 8)) := by
    rw [shape, whole.heard]
    simp
  exact strayed

theorem not_wellFramedRun_of_refused {k : ℕ}
    (refused : Fsm.Refused (atTick g slave k).fsm (tickInputs g slave k)) :
    ¬ WellFramedRun g slave := by
  intro framed
  obtain ⟨m, later, whole, -⟩ := framed (k + 1 + 10)
  obtain ⟨n, rfl⟩ := Nat.exists_eq_add_of_le later
  rw [Nat.add_assoc, levels_add, Mealy.emitted_add, Line.heard_append, Line.heard_append] at whole
  refine whole.stray_not_mem (List.mem_append_right _ (List.mem_append_left _ ?_))
  exact refused_stray refused _

/-- The transactions are well framed if and only if the master finds every acknowledge it checks: a
missing one closes its transaction twice. -/
theorem wellFramedRun_iff : WellFramedRun g slave ↔
    ∀ k, ¬ Fsm.Refused (atTick g slave k).fsm (tickInputs g slave k) :=
  ⟨fun framed _ refused => not_wellFramedRun_of_refused g slave refused framed,
    wellFramedRun_of_acked g slave⟩

/-- Without a slave the first byte after the boot wait is refused, and its STOP is not the only one. -/
theorem released_not_framed : ¬ WellFramedRun defaults fun _ => true := by
  have start : Fsm.At .iWStart (atTick defaults (fun _ => true) 40000).fsm := by
    rw [booted_defaults]
    exact ⟨rfl, rfl⟩
  have waiting : (atTick defaults (fun _ => true) (40000 + 30)).fsm = _ :=
    (fsm_atTick_add ..).trans (Fsm.initAddresses start).acking
  have released : (tickInputs defaults (fun _ => true) (40000 + 30)).sdaIn = true := by
    rw [sdaIn_atTick _ _ (by simp), waiting]
    rfl
  refine not_wellFramedRun_of_refused _ _ (k := 40000 + 30) ⟨?_, ?_, released⟩
  · rw [waiting]
    rfl
  · rw [waiting]
    rfl

end Telecran.Soundness.Framing
