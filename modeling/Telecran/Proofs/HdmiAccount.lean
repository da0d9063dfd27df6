import Telecran.Proofs.HdmiWriter

/-! # The account of the transmitter's configuration

Along a run the frames since the last recall of the table are kept in account: they carry the entries
in order, and the phase of the control tells how many of them were acknowledged. Until the table is
through every transfer takes the same time.
-/

namespace Telecran.Model.Hdmi

open Machine Bus

/-! ## Phase, writer and scribe along a run -/

/-- The core is in the phase `p`, with the frames `fs` over. -/
structure Joint (x : Core) (m : Scribe) (slave : Bool) (p : Phase) (fs : List Frame) : Prop where
  control : x.control = p.control
  bound : p.held ≤ 30
  tracks : Tracks p x.writer m slave fs

theorem Tracks.frames {p : Phase} {w : Writer} {m : Scribe} {slave : Bool} {fs : List Frame}
    (tracks : Tracks p w m slave fs) : m.transcript.frames = fs := by
  cases tracks with
  | st1 _ resting | st9 _ resting | st30 _ resting | st31 _ resting => rw [resting.hears.transcript]
  | st2 _ sending | st3 _ sending | st4 _ sending | st5 _ sending => rw [sending.hears.transcript]
  | st6 _ closing | st8 _ closing => rw [closing.hears.transcript]

theorem step_writer {x : Core} {p : Phase} (control : x.control = p.control) (i : Input) :
    (x.step i).writer = x.writer.asked p i.slave := by
  simp only [Core.step, control, Phase.address_held, Phase.regData_held]
  rfl

section Runs

variable {s : Core} {input : ℕ → Input}

theorem joint_start (reset : s.IsReset) (input : ℕ → Input) :
    Joint (Core.after s input 2) (Core.heard s input 2) (input 2).slave (.advance 0) [] := by
  obtain ⟨⟨ready, data, go, index, setup⟩, ⟨st, sdao, sclo, endOk, ackOk, cnt, byte, a⟩⟩ := s
  obtain ⟨cleared, withdrawn, first, begun, off⟩ := reset
  dsimp only at cleared withdrawn first begun off
  subst cleared withdrawn first begun off
  have fresh : Scribe.fresh.Hears (.mark true) [] ⟨[], none⟩ := ⟨rfl, rfl, rfl⟩
  have once : (Scribe.fresh.hear ⟨true, true⟩ (input 1).slave).Hears (.mark true) [] ⟨[], none⟩ :=
    fresh.silent _ rfl
  have twice : ((Scribe.fresh.hear ⟨true, true⟩ (input 1).slave).hear ⟨true, true⟩
      (input 2).slave).Hears (.mark true) [] ⟨[], none⟩ := once.silent _ rfl
  refine ⟨rfl, Nat.zero_le _, .st30 rfl ⟨rfl, rfl, ?_, rfl⟩ ⟨rfl, rfl⟩ trivial⟩
  simpa [Core.heard, Core.after, run, Core.step, Control.step, Writer.step, Writer.level, Writer.sdai,
    lutSize] using twice

/-- A clock of the core. -/
theorem joint_step {x : Core} {m : Scribe} {i : Input} {p : Phase} {fs : List Frame}
    (joint : Joint x m i.slave p fs) (slave' : Bool) :
    ∃ fs', Joint (x.step i) (m.hear (x.step i).writer.level ((x.step i).writer.sdai slave')) slave'
        (p.next x.writer.endOk x.writer.ackOk i.hdmiTxInt) fs' ∧
      Grows p x.writer (x.step i).writer fs fs' := by
  obtain ⟨control, bound, tracks⟩ := joint
  obtain ⟨fs', passes, grows⟩ := tracks_step tracks i.hdmiTxInt slave'
  rw [← step_writer control] at passes grows
  refine ⟨fs', ⟨?_, Phase.held_next bound _ _ _, passes⟩, grows⟩
  rw [← Phase.control_step bound, ← control]
  rfl

end Runs

/-! ## What has been acknowledged -/

theorem Grows.mem {p : Phase} {w w' : Writer} {fs fs' : List Frame} {f : Frame}
    (grows : Grows p w w' fs fs') (member : f ∈ fs') : f ∈ fs ∨ Finishes p w w' f := by
  cases grows with
  | same => exact Or.inl member
  | more finishes =>
    obtain old | last := List.mem_append.mp member
    · exact Or.inl old
    · rw [List.mem_singleton.mp last]
      exact Or.inr finishes

theorem entry_mem {k : ℕ} (bound : k ≤ 30) : entry k ∈ table :=
  List.mem_map_of_mem (List.mem_range.mpr (Nat.lt_succ_of_le bound))

/-- The entry sent after `k` acknowledged ones: the first is skipped, the last repeated. -/
def script (k : ℕ) : Write := entry (min (k + 1) 30)

/-- The frame of the last transfer is over. -/
def Writer.finished (w : Writer) : Bool := w.st = .st9 || w.st = .st30

/-- The entries before this one are acknowledged. -/
def Phase.credit (p : Phase) (w : Writer) : ℕ :=
  match p with
  | waiting k => k + if w.finished && !w.ackOk then 1 else 0
  | retry k => k
  | advance k | loaded k => k + 1
  | idle | recalled => 31

/-- The frames since the last recall are in order and reach up to entry `k`; while the interrupt line
is quiet there was no recall. -/
def Served (quiet : Prop) (k : ℕ) (fs : List Frame) : Prop :=
  ∃ prior later, fs = prior ++ later ∧
    (0 < k → Orderly slaveAddr script later ∧ min (ackedCount later + 1) 31 = k) ∧
    (quiet → prior = [] ∧ 0 < k)

section Served

variable {quiet : Prop} {k : ℕ} {fs : List Frame} {p : Phase} {w w' : Writer} {f : Frame}

theorem Served.mono {quiet' : Prop} (weaker : quiet' → quiet) (served : Served quiet k fs) :
    Served quiet' k fs := by
  obtain ⟨prior, later, shape, orderly, whole⟩ := served
  exact ⟨prior, later, shape, orderly, fun still => whole (weaker still)⟩

/-- After a recall the frames so far no longer count. -/
theorem Served.restart (called : ¬ quiet) (few : k ≤ 1) : Served quiet k fs := by
  refine ⟨fs, [], (List.append_nil fs).symm, fun positive => ⟨.nil, ?_⟩, fun still => absurd still called⟩
  rw [ackedCount, List.countP_nil]
  omega

/-- A frame with the next entry. -/
theorem Served.concat (served : Served quiet k fs) (positive : 0 < k) (stopped : f.stopped = true)
    (carries : f.Carries slaveAddr (entry (min k 30))) :
    Served quiet (min (k + if f.acked then 1 else 0) 31) (fs ++ [f]) := by
  obtain ⟨prior, later, rfl, orderly, whole⟩ := served
  obtain ⟨orderly, count⟩ := orderly positive
  have here : min (ackedCount later + 1) 30 = min k 30 := by omega
  refine ⟨prior, later ++ [f], List.append_assoc .., fun _ => ⟨?_, ?_⟩, fun still => ⟨(whole still).1, ?_⟩⟩
  · apply orderly.concat stopped
    rwa [script, here]
  · rw [ackedCount_concat]
    omega
  · omega

private theorem credit_first (w : Writer) : (Phase.waiting 0).credit w ≤ 1 := by
  rw [Phase.credit]
  split_ifs <;> omega

/-- Away from the end of a transfer only a recall touches the account. -/
private theorem credit_apart {mI2cEnd : Bool} (before : w.finished = false) (after : w'.finished = false)
    (withdrawn : mI2cEnd = true → p.Withdrawn w.ackOk) (hdmiTxInt : Bool) :
    (p.next mI2cEnd w.ackOk hdmiTxInt).credit w' = p.credit w ∨
      (p.next mI2cEnd w.ackOk hdmiTxInt).credit w' ≤ 1 ∧ (p = .recalled ∨ p.credit w = 0) := by
  cases p with
  | waiting k =>
    cases mI2cEnd with
    | false => simp [Phase.next, Phase.credit, before, after]
    | true =>
      cases acked : w.ackOk with
      | true => simp [Phase.next, Phase.credit, before]
      | false =>
        have first : k = 0 := by simpa [Phase.Withdrawn, acked] using withdrawn rfl
        simp [Phase.next, Phase.credit, before, first]
  | retry k => simp [Phase.next, Phase.credit, after]
  | advance k => exact Or.inl rfl
  | loaded k =>
    by_cases last : k = 30
    · cases hdmiTxInt <;> simp [Phase.next, Phase.credit, last]
    · simp [Phase.next, Phase.credit, last, after]
  | idle => cases hdmiTxInt <;> exact Or.inl rfl
  | recalled => simp [Phase.next, Phase.credit, after]

/-- A clock on which no frame ends, other than a recall, leaves the account alone. -/
private theorem credit_same {m : Scribe} {slave : Bool} (tracks : Tracks p w m slave fs)
    (other : w.st ≠ .st8) (hdmiTxInt : Bool) :
    (p.next w.endOk w.ackOk hdmiTxInt).credit (w.asked p slave) = p.credit w ∨
      (p.next w.endOk w.ackOk hdmiTxInt).credit (w.asked p slave) ≤ 1 ∧
        (p = .recalled ∨ p.credit w = 0) := by
  have apart : w.finished = false → (w.asked p slave).finished = false →
      (w.endOk = true → p.Withdrawn w.ackOk) → _ :=
    fun before after withdrawn => credit_apart before after withdrawn hdmiTxInt
  have working : w.endOk = false → w.endOk = true → p.Withdrawn w.ackOk :=
    fun off on => absurd (off.symm.trans on) Bool.false_ne_true
  cases tracks with
  | st1 here resting =>
    apply apart (by simp [Writer.finished, here]) (by simp [Writer.finished, Writer.asked, Writer.step, here])
    exact working resting.endOk
  | st2 here sending | st3 here sending | st4 here sending =>
    apply apart (by simp [Writer.finished, here]) (by simp [Writer.finished, Writer.asked, Writer.step, here])
    exact working sending.working
  | st5 here sending =>
    apply apart (by simp [Writer.finished, here]) _ (working sending.working)
    simp only [Writer.finished, Writer.asked, Writer.step, here]
    split_ifs <;> rfl
  | st6 here closing =>
    obtain here | here := here
    · apply apart (by simp [Writer.finished, here]) (by simp [Writer.finished, Writer.asked, Writer.step, here])
      exact working closing.working
    · apply apart (by simp [Writer.finished, here]) (by simp [Writer.finished, Writer.asked, Writer.step, here])
      exact working closing.working
  | st8 here => exact absurd here other
  | st9 here resting steady =>
    have moved : (w.asked p slave).finished = w.finished ∧ (w.asked p slave).ackOk = w.ackOk := by
      simp [Writer.finished, Writer.asked, Writer.step, here]
    rw [resting.endOk]
    cases p with
    | waiting k => simp [Phase.next, Phase.credit, moved]
    | idle => cases hdmiTxInt <;> exact Or.inl rfl
    | recalled => exact Or.inr ⟨credit_first _, Or.inl rfl⟩
    | _ => exact absurd steady id
  | st30 here resting _ ends =>
    have finished : w.finished = true := by simp [Writer.finished, here]
    rw [resting.endOk]
    cases p with
    | waiting k => cases acked : w.ackOk <;> simp [Phase.next, Phase.credit, finished, acked]
    | retry k => simp [Phase.next, Phase.credit, Writer.finished, Writer.asked, Writer.step, here, Phase.control]
    | advance k => exact Or.inl rfl
    | loaded k => exact absurd ends id
    | idle => cases hdmiTxInt <;> exact Or.inl rfl
    | recalled => simp [Phase.next, Phase.credit, Writer.finished, Writer.asked, Writer.step, here, Phase.control]
  | st31 here resting _ withdrawn =>
    apply apart (by simp [Writer.finished, here]) (by simp [Writer.finished, Writer.asked, Writer.step, here])
    exact fun _ => withdrawn

/-- The account after a clock. -/
theorem served_step {m : Scribe} {slave hdmiTxInt : Bool} {fs' : List Frame} {quiet' : Prop}
    (tracks : Tracks p w m slave fs) (bound : p.held ≤ 30) (grows : Grows p w (w.asked p slave) fs fs')
    (served : Served quiet (p.credit w) fs) (weaker : quiet' → quiet) (still : quiet' → p ≠ .recalled) :
    Served quiet' ((p.next w.endOk w.ackOk hdmiTxInt).credit (w.asked p slave)) fs' := by
  have positive : quiet' → 0 < p.credit w := by
    intro quiet
    obtain ⟨_, _, _, _, whole⟩ := served
    exact (whole (weaker quiet)).2
  have called : p = .recalled ∨ p.credit w = 0 → ¬ quiet' := by
    rintro (recalled | none) quiet
    · exact still quiet recalled
    · exact absurd none (positive quiet).ne'
  cases grows with
  | same other =>
    obtain same | ⟨few, cause⟩ := credit_same tracks other hdmiTxInt
    · rw [same]
      exact served.mono weaker
    · exact .restart (called cause) few
  | @more f finishes =>
    obtain ⟨state, steady, stopped, ⟨e, sends, carries⟩, ack⟩ := finishes
    have before : w.finished = false := by simp [Writer.finished, state]
    have after : (w.asked p slave).finished = true := by simp [Writer.finished, Writer.asked, Writer.step, state]
    have working : w.endOk = false := by
      cases tracks with
      | st8 _ closing => exact closing.working
      | st6 here => simp [state] at here
      | st1 here | st2 here | st3 here | st4 here | st5 here | st9 here | st30 here | st31 here =>
        simp [state] at here
    rw [working]
    cases p with
    | waiting k =>
      by_cases first : k = 0
      · subst first
        apply Served.restart (called (Or.inr ?_)) (credit_first _)
        simp [Phase.credit, before]
      · have bound : k ≤ 30 := bound
        obtain rfl : e = entry k := sends.resolve_right fun other => first (by simpa using other.1)
        have credit : Phase.credit (.waiting k) w = k := by simp [Phase.credit, before]
        rw [credit] at served
        have more := (served.mono weaker).concat (Nat.pos_of_ne_zero first) stopped
          (by rwa [Nat.min_eq_left bound])
        convert more using 1
        cases acked : f.acked <;> simp [Phase.next, Phase.credit, after, ack, acked] <;> omega
    | idle =>
      obtain rfl : e = entry 30 := sends.resolve_right fun other => Phase.noConfusion other.1
      have more := (served.mono weaker).concat (Nat.succ_pos 30) stopped carries
      have count : min (31 + if f.acked then 1 else 0) 31 = 31 := by split_ifs <;> rfl
      rw [Phase.credit, count] at more
      cases hdmiTxInt <;> exact more
    | recalled => exact .restart (called (Or.inl rfl)) (credit_first _)
    | _ => exact absurd steady id

end Served

/-! ## The length of a transfer -/

/-- The clocks since the transfer began: 113 until the writer is done and three until the control has
made its next request. -/
def age (p : Phase) (w : Writer) : ℕ :=
  match w.st with
  | .st0 | .st1 => 0
  | .st2 => 36 * w.byte + 4 * w.cnt + 1
  | .st3 => 36 * w.byte + 4 * w.cnt + 2
  | .st4 => 36 * w.byte + 4 * w.cnt + 3
  | .st5 => 36 * w.byte + 4 * w.cnt
  | .st6 => 109
  | .st7 => 110
  | .st8 => 111
  | .st9 => 112
  | .st30 => if p.control.mI2cGo then 113 else 114
  | .st31 => 115

/-- Control clock `n` is as many clocks into a transfer, the first of which begins on clock four; the
frame of the transfer is counted from its STOP on. -/
def Punctual (n : ℕ) (fs : List Frame) (age : ℕ) : Prop :=
  n + 112 = 116 * fs.length + age + if age < 112 then 116 else 0

section Punctual

variable {n a : ℕ} {fs fs' : List Frame} {p : Phase} {w : Writer} {m : Scribe} {slave : Bool}

theorem Punctual.later (punctual : Punctual n fs a) (inside : a + 1 < 112 ∨ 112 ≤ a) :
    Punctual (n + 1) fs (a + 1) := by
  rw [Punctual] at punctual ⊢
  split_ifs at punctual ⊢ <;> omega

theorem Punctual.again (punctual : Punctual n fs 115) : Punctual (n + 1) fs 0 := by
  rw [Punctual] at punctual ⊢
  simp only [Nat.reduceLT, if_false, if_true] at punctual ⊢
  omega

/-- Transfers follow each other until the table is through. -/
theorem punctual_step (tracks : Tracks p w m slave fs) (grows : Grows p w (w.asked p slave) fs fs')
    (hdmiTxInt : Bool) (busy : p ≠ .idle) (calm : p ≠ .recalled) (punctual : Punctual n fs (age p w)) :
    Punctual (n + 1) fs' (age (p.next w.endOk w.ackOk hdmiTxInt) (w.asked p slave)) := by
  have later : ∀ b, w.st ≠ .st8 → age p w + 1 = b → (b < 112 ∨ 113 ≤ b) → Punctual (n + 1) fs' b := by
    rintro b other rfl inside
    cases grows with
    | same => exact punctual.later (by omega)
    | more finishes => exact absurd finishes.state other
  cases tracks with
  | st1 here resting cleared =>
    apply later _ (by rw [here]; decide) ?_ ?_
    · simp [age, Writer.asked, Writer.step, here, cleared.byte, cleared.cnt]
    · simp [age, Writer.asked, Writer.step, here, cleared.byte, cleared.cnt]
  | st2 here sending | st3 here sending =>
    have bound := sending.bound
    have short := sending.short
    have byte := sending.byte
    apply later _ (by rw [here]; decide) ?_ ?_
    · simp [age, Writer.asked, Writer.step, here]
    · simp only [age, Writer.asked, Writer.step, here]
      omega
  | st4 here sending =>
    have bound := sending.bound
    have short := sending.short
    have byte := sending.byte
    have fits : (w.cnt + 1) % 256 = w.cnt + 1 := Nat.mod_eq_of_lt (by omega)
    apply later _ (by rw [here]; decide) ?_ ?_
    · simp only [age, Writer.asked, Writer.step, here, fits]
      omega
    · simp only [age, Writer.asked, Writer.step, here, fits]
      omega
  | st5 here sending count =>
    have bound := sending.bound
    have short := sending.short
    have byte := sending.byte
    by_cases last : w.cnt = 9
    · have place : w.byte = 0 ∨ w.byte = 1 ∨ w.byte = 2 := by omega
      apply later _ (by rw [here]; decide) ?_ ?_
      all_goals obtain place | place | place := place
      all_goals simp [age, Writer.asked, Writer.step, here, last, place, byteNum]
    · apply later _ (by rw [here]; decide) ?_ ?_
      · simp [age, Writer.asked, Writer.step, here, last]
      · simp only [age, Writer.asked, Writer.step, here, last, if_false]
        omega
  | st6 here =>
    obtain here | here := here
    · apply later _ (by rw [here]; decide) ?_ ?_
      · simp [age, Writer.asked, Writer.step, here]
      · simp [age, Writer.asked, Writer.step, here]
    · apply later _ (by rw [here]; decide) ?_ ?_
      · simp [age, Writer.asked, Writer.step, here]
      · simp [age, Writer.asked, Writer.step, here]
  | st8 here =>
    cases grows with
    | same other => exact absurd here other
    | more finishes =>
      simp only [age, Writer.asked, Writer.step, here, Punctual, List.length_append,
        List.length_singleton] at punctual ⊢
      simp only [Nat.reduceLT, if_false, if_true] at punctual ⊢
      omega
  | st9 here resting steady =>
    cases p with
    | waiting k =>
      rw [resting.endOk]
      apply later _ (by rw [here]; decide) ?_ ?_
      · simp [age, Writer.asked, Writer.step, here, Phase.next, Phase.control]
      · simp [age, Writer.asked, Writer.step, here, Phase.next, Phase.control]
    | idle => exact absurd rfl busy
    | recalled => exact absurd rfl calm
    | _ => exact absurd steady id
  | st30 here resting _ ends =>
    apply later _ (by rw [here]; decide) ?_ ?_
    all_goals rw [resting.endOk]
    all_goals cases p with
    | waiting k => cases w.ackOk <;> simp [age, Writer.asked, Writer.step, here, Phase.next, Phase.control]
    | retry k | advance k => simp [age, Writer.asked, Writer.step, here, Phase.control]
    | loaded k => exact absurd ends id
    | idle => exact absurd rfl busy
    | recalled => exact absurd rfl calm
  | st31 here =>
    simp only [age, here] at punctual
    simp only [age, Writer.asked, Writer.step, here]
    cases grows with
    | same => exact punctual.again
    | more finishes => exact absurd finishes.state (by rw [here]; decide)

end Punctual

theorem Tracks.opens {p : Phase} {w : Writer} {m : Scribe} {slave : Bool} {fs : List Frame}
    (tracks : Tracks p w m slave fs) (begins : w.st = .st1) : p.Opens := by
  cases tracks with
  | st1 _ _ _ _ opens => exact opens
  | st6 here => exact here.elim (fun here => nomatch begins.symm.trans here) fun here =>
      nomatch begins.symm.trans here
  | st2 here | st3 here | st4 here | st5 here | st8 here | st9 here | st30 here | st31 here =>
    exact nomatch begins.symm.trans here

/-- A transfer takes 116 clocks, and its first state is that of the START. -/
theorem age_bound {p : Phase} {w : Writer} {m : Scribe} {slave : Bool} {fs : List Frame}
    (tracks : Tracks p w m slave fs) : age p w ≤ 115 ∧ (age p w = 0 → w.st = .st1) := by
  cases tracks with
  | st1 here => simp [age, here]
  | st2 here sending | st3 here sending | st4 here sending =>
    have bound := sending.bound
    have short := sending.short
    have byte := sending.byte
    simp only [age, here]
    omega
  | st5 here sending count =>
    have bound := sending.bound
    have short := sending.short
    have byte := sending.byte
    simp only [age, here]
    omega
  | st6 here => obtain here | here := here <;> simp [age, here]
  | st8 here | st9 here | st31 here => simp [age, here]
  | st30 here => cases go : p.control.mI2cGo <;> simp [age, here, go]

end Telecran.Model.Hdmi
