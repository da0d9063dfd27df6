import Telecran.Proofs.AdxlCalls

/-! # The frames of the accelerometer master

What the init writes, the identification and a read do with a device that serves them: how long they
take, which frames they leave behind and which registers they fill.
-/

namespace Telecran.Model.Adxl.Fsm

open Machine Bus

variable {d : Device} {w : Fsm × Scribe} {x : ℕ → Timers} {n : ℕ} {r : Memo} {t : Transcript}
variable {frames : List Frame}

/-! ## Calls by state -/

private theorem memo_st {s : Fsm} (same : s.memo = r) : s.st = r.st := congrArg Memo.st same

private theorem memo_ackNack {s : Fsm} (same : s.memo = r) : s.ackNack = r.ackNack :=
  congrArg Memo.ackNack same

private theorem memo_curReg {s : Fsm} (same : s.memo = r) : s.curReg = r.curReg := congrArg Memo.curReg same

private theorem memo_curVal {s : Fsm} (same : s.memo = r) : s.curVal = r.curVal := congrArg Memo.curVal same

/-- A device at the address the master calls. -/
def Addressed (d : Device) : Prop := d.a7 = addr7

private theorem Addressed.write (own : Addressed d) : d.toWrite = addrWr addr7 := by
  rw [Device.toWrite, own, addrWr]

private theorem Addressed.read (own : Addressed d) : d.toRead = addrRd addr7 := by
  rw [Device.toRead, own, addrRd]

private theorem acks_address {byte : BitVec 8} (opened : t.current = some [])
    (own : byte = d.toWrite ∨ byte = d.toRead) :
    d.Acks t byte := Or.inl ⟨opened, own⟩

private theorem acks_value {byte : BitVec 8} {a : Bool} {words : List Word} (own : Addressed d)
    (opened : t.current = some (⟨addrWr addr7, a⟩ :: words)) : d.Acks t byte :=
  Or.inr ⟨_, _, opened, own.write.symm⟩

private theorem makes_call {c : Fsm → Fsm} (call : ∀ (s : Fsm) (i : TickIn), s.memo = r → s.high i = c s) :
    Makes r r c :=
  fun s i same => ⟨s, same, call s i same⟩

/-! ## The init writes -/

/-- The registers with an init write chosen. -/
def Memo.chosen (r : Memo) : Memo :=
  { r with curReg := (initWrite r.initStep).1, curVal := (initWrite r.initStep).2 }

/-- The frame of an init write. -/
def initFrame (initStep : ℕ) : Frame := Write.made 0x3A ⟨(initWrite initStep).1, (initWrite initStep).2⟩

private theorem makes_choice (here : r.st = .iWStart) : Makes r r.chosen (·.start .iWAddr) :=
  fun s i same => ⟨s.choose, by rw [← same]; rfl, by simp only [high, memo_st same, here]⟩

private theorem start_free (frames : List Frame) :
    (⟨frames, none⟩ : Transcript).start = ⟨frames, some []⟩ := by
  simp [Transcript.start, Transcript.closed]

private theorem send_reaches (own : Addressed d) (first : Reaches d w x n r ⟨frames, some []⟩)
    (here : r.st = .iWAddr) :
    Reaches d w x (n + 88) { r with st := .iNext, ackNack := false }
      ⟨frames ++ [Write.made 0x3A ⟨r.curReg, r.curVal⟩], none⟩ := by
  have address := first.transmits (addrWr addr7) .iWReg
    (makes_call fun s i same => by simp only [high, memo_st same, here])
    (acks_address rfl (Or.inl own.write.symm)) (by simp [here]) rfl
  have register := address.transmits r.curReg .iWVal
    (makes_call fun s i same => by simp [high, memo_st same, memo_ackNack same, memo_curReg same])
    (acks_value own rfl) (by simp) rfl
  have value := register.transmits r.curVal .iWStop
    (makes_call fun s i same => by simp [high, memo_st same, memo_ackNack same, memo_curVal same])
    (acks_value own rfl) (by simp) rfl
  exact value.stops .iNext (makes_call fun s i same => by simp only [high, memo_st same]) (by simp) rfl

private theorem next_reaches (k : ℕ) (first : Reaches d w x n r t) (here : r.st = .iNext)
    (acked : r.ackNack = false) (step : r.initStep = k) :
    Reaches d w x (n + 1) (if k = 2 then { r with st := .idStartw } else
      { r with st := .iWStart, initStep := k + 1 }) t := by
  apply first.moves
  · rintro s i none rfl _ _
    obtain ⟨st, ll, sclOe, sdaOe, txByte, rxByte, bitI, ackNack, initStep⟩ := s
    obtain rfl : st = .iNext := here
    obtain rfl : ackNack = false := acked
    obtain rfl : initStep = k := step
    simp only [high, Bool.false_eq_true, if_false]
    split_ifs
    · exact ⟨none, rfl⟩
    · exact ⟨none, rfl⟩
  · simp [here]
  · split_ifs <;> rfl

/-- An init write and the tick that goes on to the next one. -/
theorem write_reaches {k : ℕ} (own : Addressed d) (first : Reaches d w x n r ⟨frames, none⟩)
    (here : r.st = .iWStart) (step : r.initStep = k) :
    ∃ r', Reaches d w x (n + 93) r' ⟨frames ++ [initFrame k], none⟩ ∧
      r'.st = (if k = 2 then .idStartw else .iWStart) ∧ (k ≠ 2 → r'.initStep = k + 1) ∧
      r'.outputs = r.outputs := by
  subst step
  have opened := first.starts .iWAddr (makes_choice here) (by simp [here]) rfl
  rw [start_free] at opened
  refine ⟨_, next_reaches r.initStep (send_reaches own opened rfl) rfl rfl rfl, ?_⟩
  split_ifs with last
  · exact ⟨rfl, absurd last, rfl⟩
  · exact ⟨rfl, fun _ => rfl, rfl⟩

/-- The three init writes, one after the other. -/
theorem init_reaches (own : Addressed d) (first : Reaches d w x n r ⟨frames, none⟩) (here : r.st = .iWStart)
    (step : r.initStep = 0) :
    ∃ r', Reaches d w x (n + 279) r' ⟨frames ++ [initFrame 0, initFrame 1, initFrame 2], none⟩ ∧
      r'.st = .idStartw ∧ r'.outputs = r.outputs := by
  obtain ⟨r₁, first₁, here₁, step₁, same₁⟩ := write_reaches own first here step
  obtain ⟨r₂, first₂, here₂, step₂, same₂⟩ := write_reaches own first₁ here₁ (step₁ (by decide))
  obtain ⟨r₃, first₃, here₃, -, same₃⟩ := write_reaches own first₂ here₂ (step₂ (by decide))
  refine ⟨r₃, ?_, here₃, same₃.trans (same₂.trans same₁)⟩
  simpa using first₃

/-! ## Reading registers -/

/-- The frame that selects a register, up to the repeated START. -/
def selectFrame (reg : BitVec 8) : Frame := ⟨[⟨addrWr addr7, true⟩, ⟨reg, true⟩], false⟩

/-- The transcript when a device has been asked for its first byte. -/
def asked (frames : List Frame) (reg : BitVec 8) : Transcript :=
  ⟨frames ++ [selectFrame reg], some [⟨addrRd addr7, true⟩]⟩

private theorem asked_reading (own : Addressed d) (frames : List Frame) (reg : BitVec 8) :
    d.Reading (frames ++ [selectFrame reg]) reg 0 (asked frames reg) where
  same := rfl
  chosen := by rw [Device.selected_concat, selectFrame, ← own.write, Device.select_register]
  current := ⟨[], by rw [own.read]; rfl, rfl, rfl⟩

section Select

variable {reg : BitVec 8} {s₀ s₁ s₂ s₃ s₄ s₅ : State}

/-- The states that select a register and turn to reading. -/
structure Selects (reg : BitVec 8) (s₀ s₁ s₂ s₃ s₄ s₅ : State) : Prop where
  start : ∀ (s : Fsm) (i : TickIn), s.st = s₀ → s.high i = s.start s₁
  write : ∀ (s : Fsm) (i : TickIn), s.st = s₁ → s.high i = s.transmit (addrWr addr7) s₂
  select : ∀ (s : Fsm) (i : TickIn), s.st = s₂ → s.ackNack = false → s.high i = s.transmit reg s₃
  restart : ∀ (s : Fsm) (i : TickIn), s.st = s₃ → s.high i = s.start s₄
  read : ∀ (s : Fsm) (i : TickIn), s.st = s₄ → s.high i = s.transmit (addrRd addr7) s₅
  busy : ∀ s ∈ [s₁, s₂, s₃, s₄], ¬ (s = .boot ∨ s = .idle)

theorem selects_devid : Selects regDevid .idStartw .idAddrw .idReg .idRepstart .idAddrr .idRx where
  start s i here := by simp only [high, here]
  write s i here := by simp only [high, here]
  select s i here acked := by simp [high, here, acked]
  restart s i here := by simp only [high, here]
  read s i here := by simp only [high, here]
  busy := by decide

theorem selects_datax0 : Selects regDatax0 .rStartw .rAddrw .rReg .rRepstart .rAddrr .rRx0 where
  start s i here := by simp only [high, here]
  write s i here := by simp only [high, here]
  select s i here acked := by simp [high, here, acked]
  restart s i here := by simp only [high, here]
  read s i here := by simp only [high, here]
  busy := by decide

theorem Selects.reaches (selects : Selects reg s₀ s₁ s₂ s₃ s₄ s₅) (own : Addressed d)
    (first : Reaches d w x n r ⟨frames, none⟩) (here : r.st = s₀) :
    Reaches d w x (n + 92) { r with st := s₅, ackNack := false } (asked frames reg) := by
  have busy {s : State} (member : s ∈ [s₁, s₂, s₃, s₄]) {p : Prop} : s = .boot ∨ s = .idle → p :=
    fun waiting => absurd waiting (selects.busy s member)
  have opened := first.starts s₁ (makes_call fun s i same => selects.start s i ((memo_st same).trans here))
    (fun _ => rfl) rfl
  rw [start_free] at opened
  have addressed := opened.transmits (addrWr addr7) s₂
    (makes_call fun s i same => selects.write s i (memo_st same))
    (acks_address rfl (Or.inl own.write.symm)) (busy (by simp)) rfl
  have selected := addressed.transmits reg s₃
    (makes_call fun s i same => selects.select s i (memo_st same) (memo_ackNack same))
    (acks_value own rfl) (busy (by simp)) rfl
  have restarted := selected.starts s₄ (makes_call fun s i same => selects.restart s i (memo_st same))
    (busy (by simp)) rfl
  have asks := restarted.transmits (addrRd addr7) s₅ (makes_call fun s i same => selects.read s i (memo_st same))
    (acks_address rfl (Or.inr own.read.symm)) (busy (by simp)) rfl
  exact asks

end Select

/-- Another byte is read, and acknowledged. -/
private theorem more_reaches {reg : BitVec 8} {k : ℕ} {q : Memo} (first : Reaches d w x n r t)
    (reading : d.Reading frames reg k t) (ret : State) (makes : Makes r q (·.receive true ret))
    (busy : ¬ (r.st = .boot ∨ r.st = .idle)) (same : q.outputs = r.outputs) :
    ∃ q' t', q' = { q with st := ret, rxByte := d.regs frames.length (reg + BitVec.ofNat 8 k) } ∧
      d.Reading frames reg (k + 1) t' ∧ Reaches d w x (n + 28) q' t' := by
  obtain ⟨byte, reaches⟩ := first.receives true ret makes reading.sends (fun waiting => absurd waiting busy) same
  rw [reading.supply] at reaches
  exact ⟨_, _, rfl, reading.word byte, reaches⟩

private theorem makes_idStop (here : r.st = .idStop) : Makes r { r with readyI := true } (·.stop .idle) := by
  rintro s i rfl
  refine ⟨{ s with readyI := true }, rfl, ?_⟩
  cases s
  cases here
  rfl

/-- The identification reads one byte; then the master reports ready. -/
theorem identify_reaches (own : Addressed d) (first : Reaches d w x n r ⟨frames, none⟩) (here : r.st = .idStartw) :
    ∃ r' t', Reaches d w x (n + 120) r' t' ∧ r'.outputs = r.outputs ∧
      Reaches d (run (closed d) w x (n + 120)) (fun j => x (n + 120 + j)) 4
        { r' with st := .idle, readyI := true } t'.stop ∧
      t'.stop.frames.length = frames.length + 2 ∧ t'.stop.current = none := by
  have asks := selects_devid.reaches own first here
  have reading := asked_reading own frames regDevid
  obtain ⟨byte, reads⟩ := asks.receives false .idStop
    (makes_call fun s i same => by simp [high, memo_st same, memo_ackNack same]) reading.sends (by simp) rfl
  have closed := reading.close ⟨byte, false⟩
  rw [List.length_append] at closed
  exact ⟨_, _, reads, rfl, reads.ready.stops .idle (makes_idStop rfl) (by simp), closed⟩

private theorem makes_rRx1 (here : r.st = .rRx1) : Makes r { r with b0 := r.rxByte } (·.receive true .rRx2) := by
  rintro s i rfl
  refine ⟨{ s with b0 := s.rxByte }, rfl, ?_⟩
  cases s
  cases here
  rfl

private theorem makes_rRx2 (here : r.st = .rRx2) : Makes r { r with b1 := r.rxByte } (·.receive true .rRx3) := by
  rintro s i rfl
  refine ⟨{ s with b1 := s.rxByte }, rfl, ?_⟩
  cases s
  cases here
  rfl

private theorem makes_rRx3 (here : r.st = .rRx3) : Makes r { r with b2 := r.rxByte } (·.receive true .rRx4) := by
  rintro s i rfl
  refine ⟨{ s with b2 := s.rxByte }, rfl, ?_⟩
  cases s
  cases here
  rfl

private theorem makes_rRx4 (here : r.st = .rRx4) : Makes r { r with b3 := r.rxByte } (·.receive true .rRx5) := by
  rintro s i rfl
  refine ⟨{ s with b3 := s.rxByte }, rfl, ?_⟩
  cases s
  cases here
  rfl

private theorem makes_rRx5 (here : r.st = .rRx5) : Makes r { r with b4 := r.rxByte } (·.receive false .rStop) := by
  rintro s i rfl
  refine ⟨{ s with b4 := s.rxByte }, rfl, ?_⟩
  cases s
  cases here
  rfl

private theorem makes_rStop (here : r.st = .rStop) :
    Makes r { r with b5 := r.rxByte, oAx := r.b1 ++ r.b0, oAy := r.b3 ++ r.b2 } (·.stop .idle) := by
  rintro s i rfl
  refine ⟨{ s with b5 := s.rxByte, oAx := s.b1 ++ s.b0, oAy := s.b3 ++ s.b2 }, rfl, ?_⟩
  cases s
  cases here
  rfl

/-- The outputs a read makes of the registers. -/
def outputsOf (regs : Registers) : BitVec 16 × BitVec 16 := (regs 0x33 ++ regs 0x32, regs 0x35 ++ regs 0x34)

/-- A read fills the outputs with the registers as they are during its second frame. -/
theorem read_reaches (own : Addressed d) (first : Reaches d w x n r ⟨frames, none⟩) (here : r.st = .rStartw) :
    ∃ r' t' r'', Reaches d w x (n + 260) r' t' ∧ r'.outputs = r.outputs ∧
      Reaches d (run (closed d) w x (n + 260)) (fun j => x (n + 260 + j)) 4 r'' t'.stop ∧
      t'.stop.frames.length = frames.length + 2 ∧ t'.stop.current = none ∧ r''.st = .idle ∧
      (r''.oAx, r''.oAy) = outputsOf (d.regs (frames.length + 1)) ∧ r''.readyI = r.readyI := by
  have length : (frames ++ [selectFrame regDatax0]).length = frames.length + 1 := List.length_append
  have asks := selects_datax0.reaches own first here
  have reading := asked_reading own frames regDatax0
  generalize eq₀ : ({ r with st := .rRx0, ackNack := false } : Memo) = q₀ at asks
  have here₀ : q₀.st = .rRx0 := by rw [← eq₀]
  obtain ⟨q₁, t₁, eq₁, reading₁, first₁⟩ := more_reaches asks reading .rRx1
    (makes_call fun s i same => by simp only [high, memo_st same, here₀]) (by simp [here₀]) rfl
  have here₁ : q₁.st = .rRx1 := by rw [eq₁]
  obtain ⟨q₂, t₂, eq₂, reading₂, first₂⟩ := more_reaches first₁ reading₁ .rRx2 (makes_rRx1 here₁)
    (by simp [here₁]) rfl
  have here₂ : q₂.st = .rRx2 := by rw [eq₂]
  obtain ⟨q₃, t₃, eq₃, reading₃, first₃⟩ := more_reaches first₂ reading₂ .rRx3 (makes_rRx2 here₂)
    (by simp [here₂]) rfl
  have here₃ : q₃.st = .rRx3 := by rw [eq₃]
  obtain ⟨q₄, t₄, eq₄, reading₄, first₄⟩ := more_reaches first₃ reading₃ .rRx4 (makes_rRx3 here₃)
    (by simp [here₃]) rfl
  have here₄ : q₄.st = .rRx4 := by rw [eq₄]
  obtain ⟨q₅, t₅, eq₅, reading₅, first₅⟩ := more_reaches first₄ reading₄ .rRx5 (makes_rRx4 here₄)
    (by simp [here₄]) rfl
  have here₅ : q₅.st = .rRx5 := by rw [eq₅]
  obtain ⟨byte, reads⟩ := first₅.receives false .rStop (makes_rRx5 here₅) reading₅.sends (by simp [here₅]) rfl
  have closed := reading₅.close ⟨byte, false⟩
  rw [length] at closed
  refine ⟨_, _, _, reads, ?_, reads.ready.stops .idle (makes_rStop rfl) (by simp), closed.1, closed.2, rfl, ?_, ?_⟩
  · subst eq₀ eq₁ eq₂ eq₃ eq₄ eq₅
    rfl
  · rw [← length]
    subst eq₀ eq₁ eq₂ eq₃ eq₄ eq₅
    rfl
  · subst eq₀ eq₁ eq₂ eq₃ eq₄ eq₅
    rfl

/-! ## Waiting -/

private theorem moves_waiting {t : Transcript} (first : Reaches d w x n r t) (free : t.current = none) (m : ℕ)
    (stays : ∀ j < m, ∀ (s : Fsm) (i : TickIn), s.ll = .none → s.memo = r → i.tickRead = (x (n + j)).tickRead →
      i.bootDone = (x (n + j)).bootDone → (s.high i).ll = .none ∧ (s.high i).memo = r) :
    Reaches d w x (n + m) r t := by
  induction m with
  | zero => exact first
  | succ m ih =>
    exact (ih fun j bound => stays j (by omega)).moves r (stays m (Nat.lt_succ_self m)) (fun _ => free) rfl

/-- The boot wait. -/
theorem boot_reaches {m : ℕ} (ready : Ready w r t) (here : r.st = .boot) (free : t.current = none)
    (off : r.readyI = false) (waiting : ∀ j < m, (x j).bootDone = false) (elapsed : (x m).bootDone = true) :
    Reaches d w x (m + 1) { r with st := .iWStart, initStep := 0 } t := by
  have waited : Reaches d w x m r t := by
    have later := moves_waiting (Reaches.refl ready) free m (d := d) (x := x) ?_
    · rwa [Nat.zero_add] at later
    · rintro j bound s i none rfl - booted
      rw [Nat.zero_add, waiting j bound] at booted
      cases s
      cases here
      cases off
      simp only [high, booted, Bool.false_eq_true, if_false]
      exact ⟨none, rfl⟩
  refine waited.moves _ ?_ (fun _ => free) rfl
  rintro s i none rfl - booted
  rw [elapsed] at booted
  cases s
  cases here
  cases off
  simp only [high, booted, if_true]
  exact ⟨none, rfl⟩

/-- Between two reads. -/
theorem idle_reaches {m : ℕ} (first : Reaches d w x n r t) (free : t.current = none) (here : r.st = .idle)
    (quiet : ∀ j < m, (x (n + j)).tickRead = false) : Reaches d w x (n + m) r t := by
  refine moves_waiting first free m ?_
  rintro j bound s i none rfl due -
  rw [quiet j bound] at due
  cases s
  cases here
  simp only [high, due, Bool.and_false, Bool.false_eq_true, if_false]
  exact ⟨none, rfl⟩

/-- The read timer starts a read. -/
theorem request_reaches (first : Reaches d w x n r t) (free : t.current = none) (here : r.st = .idle)
    (ready : r.readyI = true) (due : (x n).tickRead = true) :
    Reaches d w x (n + 1) { r with st := .rStartw } t := by
  refine first.moves _ ?_ (fun _ => free) rfl
  rintro s i none rfl timer -
  rw [due] at timer
  cases s
  cases here
  cases ready
  simp only [high, timer, Bool.and_true, if_true]
  exact ⟨none, rfl⟩

/-! ## From one read to the next -/

/-- A read starts after `frames` frames, with the outputs `o`. -/
structure Starting (w : Fsm × Scribe) (frames : ℕ) (o : BitVec 16 × BitVec 16) : Prop where
  stands : ∃ r fs, Ready w r ⟨fs, none⟩ ∧ r.st = .rStartw ∧ r.outputs = (o.1, o.2, true) ∧ fs.length = frames

private theorem transcript_free (free : t.current = none) : t = ⟨t.frames, none⟩ := by
  rw [← free]

/-- The outputs over a segment in the middle of a run. -/
private theorem Reaches.within {k m : ℕ} (reaches : Reaches d (run (closed d) w x n) (fun j => x (n + j)) m r t)
    (later : n < k) (bound : k ≤ n + m) : (run (closed d) w x k).1.memo.outputs = r.outputs := by
  obtain ⟨j, rfl⟩ := Nat.exists_eq_add_of_le later.le
  rw [run_add]
  exact reaches.held j (by omega) (by omega)

/-- The run up to the first read: the boot wait of `b` ticks, the init writes, the identification and
`m` idle ticks. -/
theorem opening_run {b m : ℕ} (own : Addressed d) (waiting : ∀ j < b, (x j).bootDone = false)
    (elapsed : (x b).bootDone = true) (quiet : ∀ j < m, (x (b + 404 + j)).tickRead = false)
    (due : (x (b + 404 + m)).tickRead = true) :
    (∀ k ≤ b + 400, (run (closed d) (reset, .fresh) x k).1.memo.outputs = (0, 0, false)) ∧
      (∀ k, b + 400 < k → k ≤ b + 405 + m →
        (run (closed d) (reset, .fresh) x k).1.memo.outputs = (0, 0, true)) ∧
      Starting (run (closed d) (reset, .fresh) x (b + 405 + m)) 5 (0, 0) := by
  have origin : Ready (reset, .fresh) reset.memo ⟨[], none⟩ := ⟨rfl, rfl, ⟨rfl, rfl, rfl⟩, ⟨rfl, rfl⟩⟩
  have booted := boot_reaches (d := d) (x := x) origin rfl rfl rfl waiting elapsed
  obtain ⟨r₁, written, here₁, same₁⟩ := init_reaches own booted rfl rfl
  obtain ⟨r₂, t, named, same₂, closes, length, free⟩ := identify_reaches own written here₁
  have zero : r₂.outputs = (0, 0, false) := same₂.trans same₁
  have shift : b + 1 + 279 + 120 = b + 400 := by omega
  rw [shift] at named closes
  have waited := idle_reaches (m := m) closes free rfl fun j bound => by
    rw [← quiet j bound]
    congr 2
    omega
  have requested := request_reaches waited free rfl rfl (by
    rw [← due]
    congr 2
    omega)
  have ready_zero := congrArg (fun o : BitVec 16 × BitVec 16 × Bool => (o.1, o.2.1, true)) zero
  refine ⟨fun k bound => ?_, fun k later bound => ?_, ?_⟩
  · rcases Nat.eq_zero_or_pos k with rfl | positive
    · rfl
    · rw [named.held k positive bound, zero]
  · rw [requested.within later (by omega)]
    exact ready_zero
  · have ready := requested.ready
    rw [transcript_free free, ← run_add, show b + 400 + (4 + m + 1) = b + 405 + m by omega] at ready
    exact ⟨_, _, ready, rfl, ready_zero, length⟩

/-- The run from one read to the next, with `m` idle ticks after it. -/
theorem period_run {frames m : ℕ} {o : BitVec 16 × BitVec 16} (own : Addressed d) (starting : Starting w frames o)
    (quiet : ∀ j < m, (x (264 + j)).tickRead = false) (due : (x (264 + m)).tickRead = true) :
    (∀ k ≤ 260, (run (closed d) w x k).1.memo.outputs = (o.1, o.2, true)) ∧
      (∀ k, 260 < k → k ≤ 265 + m → (run (closed d) w x k).1.memo.outputs =
        ((outputsOf (d.regs (frames + 1))).1, (outputsOf (d.regs (frames + 1))).2, true)) ∧
      Starting (run (closed d) w x (265 + m)) (frames + 2) (outputsOf (d.regs (frames + 1))) := by
  obtain ⟨r, fs, ready, here, before, rfl⟩ := starting
  obtain ⟨r₁, t, r₂, reads, same, closes, length, free, idle, samples, on⟩ :=
    read_reaches own (Reaches.refl (x := x) ready) here
  rw [Nat.zero_add] at reads closes
  have on : r₂.readyI = true := on.trans (congrArg (·.2.2) before)
  have waited := idle_reaches (m := m) closes free idle fun j bound => by
    rw [← quiet j bound]
    congr 2
    omega
  have requested := request_reaches waited free idle on (by
    rw [← due]
    congr 2
    omega)
  have now : r₂.outputs =
      ((outputsOf (d.regs (fs.length + 1))).1, (outputsOf (d.regs (fs.length + 1))).2, true) := by
    rw [← samples, ← on]
    rfl
  refine ⟨fun k bound => ?_, fun k later bound => ?_, ?_⟩
  · rcases Nat.eq_zero_or_pos k with rfl | positive
    · exact (congrArg Memo.outputs ready.memo).trans before
    · rw [reads.held k positive bound, same, before]
  · rw [requested.within later (by omega)]
    exact now
  · have ready := requested.ready
    rw [transcript_free free, ← run_add, show 260 + (4 + m + 1) = 265 + m by omega] at ready
    exact ⟨_, _, ready, rfl, now, length⟩

end Telecran.Model.Adxl.Fsm
