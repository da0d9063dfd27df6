import Telecran.Soundness.Cursor

/-! # The framebuffer as a canvas

While a clear runs, the words below its address are blank; when none runs, the framebuffer is the
canvas of what the pen has drawn since the last clear ended. An erase request that meets a running
clear is dropped, and the press is served by the clear that is already on its way.
-/

namespace Telecran.Soundness.Erase

open Machine Model Cursor

section History

variable (d : Drawing) (events : ℕ → DrawingEvent)

/-- The pen has drawn on the word since a clear last ended. -/
def Inked (n addr : ℕ) : Prop :=
  ∃ m < n, (d.after events m).Draws (events m) ∧ (d.after events m).wrAddr = addr ∧
    ∀ k, m ≤ k → k ≤ n → (d.after events k).clrEn = false

variable {d events}

theorem after_succ (n : ℕ) : d.after events (n + 1) = (d.after events n).step (events n) := rfl

theorem not_inked_of_clearing {n : ℕ} (clearing : (d.after events n).clrEn = true) (addr : ℕ) :
    ¬ Inked d events (n + 1) addr := by
  rintro ⟨m, before, -, -, idle⟩
  simp [idle n (by omega) (by omega)] at clearing

theorem inked_succ {n : ℕ} (idle : (d.after events n).clrEn = false)
    (idle' : (d.after events (n + 1)).clrEn = false) (addr : ℕ) :
    Inked d events (n + 1) addr ↔ Inked d events n addr ∨
      (d.after events n).Draws (events n) ∧ (d.after events n).wrAddr = addr := by
  constructor
  · rintro ⟨m, before, draws, here, since⟩
    rcases Nat.lt_succ_iff_lt_or_eq.mp before with earlier | rfl
    · exact Or.inl ⟨m, earlier, draws, here, fun k first last => since k first (by omega)⟩
    · exact Or.inr ⟨draws, here⟩
  · rintro (⟨m, before, draws, here, since⟩ | ⟨draws, here⟩)
    · refine ⟨m, by omega, draws, here, fun k first last => ?_⟩
      rcases Nat.le_succ_iff.mp last with earlier | rfl
      · exact since k first earlier
      · exact idle'
    · refine ⟨n, by omega, draws, here, fun k first last => ?_⟩
      rcases Nat.le_succ_iff.mp last with earlier | rfl
      · rwa [Nat.le_antisymm earlier first]
      · exact idle'

end History

/-! ## The clear process -/

section Clear

variable {d : Drawing} {i : DrawingIn}

theorem clock_clearing (clearing : d.clrEn = true) (more : d.clrAddr ≠ fbSize - 1) :
    (d.clock i).clrEn = true ∧ (d.clock i).clrAddr = d.clrAddr + 1 := by
  simp only [Drawing.clock, clearing, more, if_true, ne_eq, not_false_eq_true, decide_true,
    Bool.and_self, and_self]

theorem clock_last (clearing : d.clrEn = true) (last : d.clrAddr = fbSize - 1) :
    (d.clock i).clrEn = false ∧ (d.clock i).clrAddr ≤ d.clrAddr := by
  simp only [Drawing.clock, clearing, last, if_true, ne_eq, not_true_eq_false, decide_false,
    Bool.and_false, Bool.false_eq_true, if_false, true_and]
  split_ifs <;> simp

theorem clock_idle (idle : d.clrEn = false) :
    (d.clock i).clrEn = d.eraseReq ∧
      (d.clock i).clrAddr = if d.eraseReq then 0 else d.clrAddr := by
  simp [Drawing.clock, idle]

theorem clock_ram (i : DrawingIn) : (d.clock i).fb.ram = (d.portA i.iRightPb).apply d.fb.ram := rfl

theorem clock_ram_clearing (clearing : d.clrEn = true) :
    (d.clock i).fb.ram = Function.update d.fb.ram d.clrAddr 0x00 := by
  rw [clock_ram, Drawing.portA, if_pos clearing, Write.apply_enabled rfl]

end Clear

/-! ## The words of the framebuffer -/

/-- What the framebuffer holds after `n` events. -/
structure Words (d : Drawing) (events : ℕ → DrawingEvent) (n : ℕ) (s : Drawing) : Prop where
  bound : s.clrAddr < fbSize
  clearing : s.clrEn = true → Shows s.fb.ram (fun _ => 0x00) s.clrAddr
  inked : s.clrEn = false → ∀ addr < fbSize, Inked d events n addr → s.fb.ram addr = 0xFF
  blank : s.clrEn = false → ∀ addr < fbSize, ¬ Inked d events n addr → s.fb.ram addr = 0x00

section Words

variable {d : Drawing} {events : ℕ → DrawingEvent} {n : ℕ}

/-- A state in which a clear has just started holds whatever it finds. -/
theorem Words.start {s : Drawing} (clearing : s.clrEn = true) (first : s.clrAddr = 0) :
    Words d events n s where
  bound := by rw [first]; decide
  clearing _ := by rw [first]; exact .zero
  inked idle := by simp [clearing] at idle
  blank idle := by simp [clearing] at idle

theorem Words.sweep (words : Words d events n (d.after events n)) {i : DrawingIn}
    (event : events n = .clock i) (clearing : (d.after events n).clrEn = true) :
    Words d events (n + 1) (d.after events (n + 1)) := by
  have swept := (words.clearing clearing).sweep
  have inside := words.bound
  have next : d.after events (n + 1) = (d.after events n).clock i := by
    rw [after_succ, event, Drawing.step]
  rw [← clock_ram_clearing (i := i) clearing, ← next] at swept
  by_cases last : (d.after events n).clrAddr = fbSize - 1
  · have ended := clock_last (i := i) clearing last
    rw [← next] at ended
    refine ⟨by omega, fun busy => by simp [ended] at busy, fun _ addr bound inked => ?_,
      fun _ addr bound _ => ?_⟩
    · exact absurd inked (not_inked_of_clearing clearing addr)
    · exact swept addr (by omega)
  · have running := clock_clearing (i := i) clearing last
    rw [← next] at running
    refine ⟨by omega, fun _ => ?_, fun idle => by simp [running] at idle,
      fun idle => by simp [running] at idle⟩
    rw [running.2]
    exact swept

theorem Words.draw (words : Words d events n (d.after events n)) {i : DrawingIn}
    (event : events n = .clock i) (idle : (d.after events n).clrEn = false) :
    Words d events (n + 1) (d.after events (n + 1)) := by
  have next : d.after events (n + 1) = (d.after events n).clock i := by
    rw [after_succ, event, Drawing.step]
  obtain ⟨en, address⟩ := clock_idle (i := i) idle
  rw [← next] at en address
  cases request : (d.after events n).eraseReq with
  | true =>
    rw [request] at en address
    exact .start en address
  | false =>
    rw [request] at en address
    have drawn : (d.after events (n + 1)).fb.ram =
        (Write.mk i.iRightPb (d.after events n).wrAddr 0xFF).apply (d.after events n).fb.ram := by
      rw [next, clock_ram, Drawing.portA, if_neg (by simp [idle])]
    have draws : (d.after events n).Draws (events n) ↔ i.iRightPb = true := by
      rw [event, Drawing.Draws]
      exact and_iff_right idle
    have kept : ∀ addr, ¬ (i.iRightPb = true ∧ (d.after events n).wrAddr = addr) →
        (d.after events (n + 1)).fb.ram addr = (d.after events n).fb.ram addr := by
      intro addr other
      rw [drawn]
      exact Write.apply_other (fun on same => other ⟨on, same⟩) _
    refine ⟨by rw [address]; exact words.bound, fun busy => by simp [en] at busy,
      fun _ addr bound inked => ?_, fun _ addr bound clean => ?_⟩
    · rw [inked_succ idle en, draws] at inked
      by_cases here : i.iRightPb = true ∧ (d.after events n).wrAddr = addr
      · rw [drawn, Write.apply_enabled here.1, ← here.2]
        exact Function.update_self ..
      · rw [kept addr here]
        exact words.inked idle addr bound (inked.resolve_right here)
    · rw [inked_succ idle en, draws, not_or] at clean
      rw [kept addr clean.2]
      exact words.blank idle addr bound clean.1

/-- Between resets and presses in any order, the framebuffer is the canvas. -/
theorem words_after (d : Drawing) (events : ℕ → DrawingEvent) (n : ℕ) :
    Words d events n (d.after events n) := by
  induction n with
  | zero => exact .start rfl rfl
  | succ n ih =>
    cases event : events n with
    | reset =>
      rw [after_succ, event]
      exact .start rfl rfl
    | held =>
      rw [after_succ, event]
      exact .start rfl rfl
    | clock i =>
      cases clearing : (d.after events n).clrEn with
      | true => exact ih.sweep event clearing
      | false => exact ih.draw event clearing

end Words

/-! ## The clear that serves a press -/

section Press

variable {d : Drawing} {events : ℕ → DrawingEvent}

/-- A running clear has come from its first address without a break. -/
theorem clear_started (n : ℕ) (clearing : (d.after events n).clrEn = true) :
    ∃ b ≤ n, (d.after events b).clrAddr = 0 ∧
      ∀ k, b ≤ k → k ≤ n → (d.after events k).clrEn = true := by
  induction n with
  | zero => exact ⟨0, le_rfl, rfl, fun k _ last => by rwa [Nat.le_zero.mp last]⟩
  | succ n ih =>
    have alone : (d.after events (n + 1)).clrAddr = 0 → ∃ b ≤ n + 1,
        (d.after events b).clrAddr = 0 ∧
          ∀ k, b ≤ k → k ≤ n + 1 → (d.after events k).clrEn = true := fun first =>
      ⟨n + 1, le_rfl, first, fun k low high => by rwa [Nat.le_antisymm high low]⟩
    cases event : events n with
    | reset => exact alone (by rw [after_succ, event]; rfl)
    | held => exact alone (by rw [after_succ, event]; rfl)
    | clock i =>
      have next : d.after events (n + 1) = (d.after events n).clock i := by
        rw [after_succ, event, Drawing.step]
      cases before : (d.after events n).clrEn with
      | false =>
        rw [next, (clock_idle before).1] at clearing
        exact alone (by rw [next, (clock_idle before).2, if_pos clearing])
      | true =>
        obtain ⟨b, early, first, since⟩ := ih before
        refine ⟨b, by omega, first, fun k low high => ?_⟩
        rcases Nat.le_succ_iff.mp high with earlier | rfl
        · exact since k low earlier
        · exact clearing

/-- Without a reset a running clear walks on to the last address. -/
theorem clear_walks {n : ℕ} (clocked : ∀ k, n ≤ k → ∃ i, events k = .clock i)
    (clearing : (d.after events n).clrEn = true) (j : ℕ)
    (bound : (d.after events n).clrAddr + j < fbSize) :
    (d.after events (n + j)).clrEn = true ∧
      (d.after events (n + j)).clrAddr = (d.after events n).clrAddr + j := by
  induction j with
  | zero => exact ⟨clearing, rfl⟩
  | succ j ih =>
    obtain ⟨running, address⟩ := ih (by omega)
    obtain ⟨i, event⟩ := clocked (n + j) (by omega)
    have next : d.after events (n + (j + 1)) = (d.after events (n + j)).clock i := by
      rw [← Nat.add_assoc, after_succ, event, Drawing.step]
    have walked := clock_clearing (i := i) running (by simp only [fbSize] at *; omega)
    rw [next, walked.2, address]
    exact ⟨walked.1, rfl⟩

/-- It reaches the last address and leaves a blank framebuffer behind. -/
theorem clear_ends {n : ℕ} (clocked : ∀ k, n ≤ k → ∃ i, events k = .clock i)
    (clearing : (d.after events n).clrEn = true) :
    ∃ c, n ≤ c ∧ c + (d.after events n).clrAddr + 1 = n + fbSize ∧
      (∀ k, n ≤ k → k ≤ c → (d.after events k).clrEn = true) ∧
      ∀ addr < fbSize, (d.after events (c + 1)).fb.ram addr = 0x00 := by
  have inside := (words_after d events n).bound
  obtain ⟨j, whole⟩ := Nat.exists_eq_add_of_lt inside
  have walk := clear_walks clocked clearing
  refine ⟨n + j, by omega, by omega, fun k low high => ?_, ?_⟩
  · obtain ⟨m, rfl⟩ := Nat.exists_eq_add_of_le low
    exact (walk m (by omega)).1
  · obtain ⟨running, address⟩ := walk j (by omega)
    obtain ⟨i, event⟩ := clocked (n + j) (by omega)
    have ended := (clock_last (i := i) running (by rw [address, whole]; omega)).1
    have next : d.after events (n + j + 1) = (d.after events (n + j)).clock i := by
      rw [after_succ, event, Drawing.step]
    rw [← next] at ended
    exact fun addr bound => (words_after d events _).blank ended addr bound
      (not_inked_of_clearing running addr)

/-- Clock `t` samples a press of the left button, and no reset follows. -/
structure Pressed (d : Drawing) (events : ℕ → DrawingEvent) (t : ℕ) : Prop where
  high : (d.after events t).leftPbD = true
  low : ∃ i, events t = .clock i ∧ i.iLeftPb = false
  clocked : ∀ k, t ≤ k → ∃ i, events k = .clock i

/-- A clear walks through the whole framebuffer from clock `b` to clock `c`: no draw is accepted in
between, and every word is blank after it. -/
structure Cleared (d : Drawing) (events : ℕ → DrawingEvent) (b c : ℕ) : Prop where
  ordered : b ≤ c
  first : (d.after events b).clrAddr = 0
  running : ∀ k, b ≤ k → k ≤ c → (d.after events k).clrEn = true
  locked : ∀ k, b ≤ k → k ≤ c → ¬ (d.after events k).Draws (events k)
  blank : ∀ addr < fbSize, (d.after events (c + 1)).fb.ram addr = 0x00

theorem Cleared.of_running {b c : ℕ} (ordered : b ≤ c) (first : (d.after events b).clrAddr = 0)
    (running : ∀ k, b ≤ k → k ≤ c → (d.after events k).clrEn = true)
    (blank : ∀ addr < fbSize, (d.after events (c + 1)).fb.ram addr = 0x00) : Cleared d events b c where
  ordered := ordered
  first := first
  running := running
  locked k low high draws := by
    have busy := running k low high
    cases event : events k with
    | reset => simp [event, Drawing.Draws] at draws
    | held => simp [event, Drawing.Draws] at draws
    | clock i => simp [event, Drawing.Draws, busy] at draws
  blank := blank

/-- A press is served within `FB_SIZE + 1` clocks, by the running clear or by one of its own. -/
theorem press_cleared {t : ℕ} (pressed : Pressed d events t) :
    ∃ b c, t < c ∧ c ≤ t + fbSize + 1 ∧ Cleared d events b c := by
  obtain ⟨high, ⟨i, event, low⟩, clocked⟩ := pressed
  have request : (d.after events (t + 1)).eraseReq = true := by
    rw [after_succ, event, Drawing.step]
    simp [Drawing.clock, high, low]
  cases clearing : (d.after events (t + 1)).clrEn with
  | true =>
    obtain ⟨b, early, first, since⟩ := clear_started (t + 1) clearing
    obtain ⟨c, late, size, running, blank⟩ := clear_ends (fun k later => clocked k (by omega)) clearing
    refine ⟨b, c, by omega, by omega, .of_running (by omega) first (fun k low high => ?_) blank⟩
    rcases Nat.le_total k (t + 1) with before | after
    · exact since k low before
    · exact running k after high
  | false =>
    obtain ⟨i', event'⟩ := clocked (t + 1) (by omega)
    have started := clock_idle (i := i') clearing
    have next : d.after events (t + 2) = (d.after events (t + 1)).clock i' := by
      rw [after_succ, event', Drawing.step]
    rw [← next, request] at started
    obtain ⟨c, late, size, running, blank⟩ :=
      clear_ends (fun k later => clocked k (by omega)) started.1
    rw [started.2, if_pos rfl] at size
    exact ⟨t + 2, c, by omega, by omega, .of_running late started.2 running blank⟩

end Press

/-- Whatever happens to the buttons, the encoders and the reset, outside the clears the framebuffer
is the canvas of accepted draws, and every press is followed by a whole clear. -/
theorem framebuffer_canvas (d : Drawing) (events : ℕ → DrawingEvent) :
    (∀ n, (d.after events n).clrEn = false → ∀ addr < fbSize,
      (Inked d events n addr → (d.after events n).fb.ram addr = 0xFF) ∧
        (¬ Inked d events n addr → (d.after events n).fb.ram addr = 0x00)) ∧
      ∀ t, Pressed d events t → ∃ b c, t < c ∧ c ≤ t + fbSize + 1 ∧ Cleared d events b c := by
  constructor
  · intro n idle addr bound
    have words := words_after d events n
    exact ⟨words.inked idle addr bound, words.blank idle addr bound⟩
  · intro t pressed
    exact press_cleared pressed

/-! ## A press after a drawing -/

section Startup

variable {d : Drawing} {events : ℕ → DrawingEvent} {t n : ℕ}

/-- The left button stays released for `t` clocks after the reset. -/
def Untouched (events : ℕ → DrawingEvent) (t : ℕ) : Prop := ∀ k < t, ∃ i, events k = .clock i ∧ i.iLeftPb = true

theorem Untouched.no_request (untouched : Untouched events t) (bound : n ≤ t) :
    (d.after events n).leftPbD = true ∧ (d.after events n).eraseReq = false := by
  induction n with
  | zero => exact ⟨rfl, rfl⟩
  | succ n ih =>
    obtain ⟨i, event, high⟩ := untouched n bound
    rw [after_succ, event, Drawing.step, Drawing.clock, high]
    simp

/-- The startup clear is the only one until the button is pressed. -/
theorem Untouched.idle (untouched : Untouched events t) (clocked : ∀ k, ∃ i, events k = .clock i)
    (late : fbSize ≤ n) (bound : n ≤ t) : (d.after events n).clrEn = false := by
  induction n, late using Nat.le_induction with
  | base =>
    obtain ⟨last, whole⟩ := Nat.exists_eq_add_of_lt (show 0 < fbSize by decide)
    obtain ⟨running, address⟩ := clear_walks (d := d) (n := 0) (fun k _ => clocked k) rfl last
      (whole.symm ▸ Nat.lt_succ_self _)
    obtain ⟨i, event⟩ := clocked (0 + last)
    rw [whole, after_succ, event, Drawing.step]
    exact (clock_last running (by rw [address, whole]; rfl)).1
  | succ n late ih =>
    obtain ⟨i, event⟩ := clocked n
    rw [after_succ, event, Drawing.step, (clock_idle (ih (by omega))).1]
    exact (untouched.no_request (by omega)).2

end Startup

/-- The pen is down from the reset on, and the left button is pressed on clock `t` alone. -/
def pressedAt (t n : ℕ) : DrawingEvent := .clock ⟨(false, false), (false, false), n ≠ t, true⟩

private theorem pressedAt_clocked (t n : ℕ) : ∃ i, pressedAt t n = .clock i := ⟨_, rfl⟩

private theorem pressedAt_untouched (t : ℕ) : Untouched (pressedAt t) t :=
  fun _ before => ⟨_, rfl, decide_eq_true before.ne⟩

private theorem pressedAt_corner (t n : ℕ) : (coldDrawing.after (pressedAt t) n).wrAddr = 0 := by
  have rest : (coldDrawing.after (pressedAt t) n).left = .reset ∧
      (coldDrawing.after (pressedAt t) n).right = .reset := by
    induction n with
    | zero => exact ⟨rfl, rfl⟩
    | succ n ih =>
      rw [after_succ, pressedAt, Drawing.step, Drawing.clock, ih.1, ih.2]
      exact ⟨Encoder.clock_reset _, Encoder.clock_reset _⟩
  rw [Drawing.wrAddr, Drawing.xPos, Drawing.yPos, rest.1, rest.2]
  rfl

private theorem pressedAt_inked {t n : ℕ} (late : fbSize < n) (bound : n ≤ t) :
    Inked coldDrawing (pressedAt t) n 0 := by
  have idle (k : ℕ) (first : fbSize ≤ k) (last : k ≤ n) : (coldDrawing.after (pressedAt t) k).clrEn = false :=
    (pressedAt_untouched t).idle (pressedAt_clocked t) first (by omega)
  exact ⟨fbSize, late, ⟨idle fbSize le_rfl late.le, rfl⟩, pressedAt_corner t _, idle⟩

/-- The corner is inked when the button is pressed, and a whole clear follows. -/
theorem framebuffer_canvas_pressed :
    (coldDrawing.after (pressedAt 400000) 400000).fb.ram 0 = 0xFF ∧
      ∃ b c, 400000 < c ∧ c ≤ 400000 + fbSize + 1 ∧ Cleared coldDrawing (pressedAt 400000) b c := by
  obtain ⟨canvas, presses⟩ := framebuffer_canvas coldDrawing (pressedAt 400000)
  have untouched := pressedAt_untouched 400000
  refine ⟨(canvas _ (untouched.idle (pressedAt_clocked _) (by decide) le_rfl) 0 (by decide)).1
    (pressedAt_inked (by decide) le_rfl), presses _ ?_⟩
  exact ⟨(untouched.no_request le_rfl).1, ⟨_, rfl, by decide⟩,
    fun k _ => pressedAt_clocked _ k⟩

end Telecran.Soundness.Erase
