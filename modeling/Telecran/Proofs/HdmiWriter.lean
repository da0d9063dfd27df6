import Telecran.Proofs.HdmiPhases

/-! # The transcript of the transmitter's writer

A scribe on the bus knows, in every state of the writer, which bits of which byte it has heard and
which frames are over. A clock ends a frame in one state of the writer only, and the frame is then a
whole write that the control's phase allows.
-/

namespace Telecran.Model.Hdmi

open Machine Bus

/-! ## The nine bits of a byte -/

/-- The bit `c` of the nine: the byte from its highest bit, and the released acknowledge. -/
def nineBit (byte : BitVec 8) (c : ℕ) : Bool := (bitsFrom byte 7 ++ [true]).getD c true

theorem msb_nine (byte : BitVec 8) {c : ℕ} (bound : c ≤ 8) :
    ((byte ++ 1#1) <<< c).msb = nineBit byte c := by
  rw [BitVec.msb_eq_getLsbD_last, BitVec.getLsbD_shiftLeft, BitVec.getLsbD_append]
  interval_cases c <;> simp [nineBit, bitsFrom]

theorem take_nine (byte : BitVec 8) {c : ℕ} (bound : c < 8) :
    (bitsFrom byte 7).take (c + 1) = (bitsFrom byte 7).take c ++ [nineBit byte c] := by
  interval_cases c <;> rfl

/-! ## The writer and the scribe -/

/-- Bit `c` of the byte `cur` is under way, after the words `sent` of the frame. -/
structure Sending (p : Phase) (w : Writer) (m : Scribe) (fs : List Frame) (l : Line) (c : ℕ)
    (cur : BitVec 8) (sent : List Word) : Prop where
  hears : m.Hears l ((bitsFrom cur 7).take c) ⟨fs, some sent⟩
  offers : p.Offers (sent.map Word.byte ++ [cur])
  bound : c ≤ 8
  short : sent.length ≤ 2
  byte : w.byte = sent.length
  working : w.endOk = false
  ack : w.ackOk = sent.any (!·.acked)

/-- The frame is whole but not yet over. -/
structure Closing (p : Phase) (w : Writer) (m : Scribe) (fs : List Frame) (l : Line) (sent : List Word) :
    Prop where
  hears : m.Hears l [] ⟨fs, some sent⟩
  offers : p.Offers (sent.map Word.byte)
  whole : sent.length = 3
  working : w.endOk = false
  ack : w.ackOk = sent.any (!·.acked)

/-- No frame is open. -/
structure Resting (w : Writer) (m : Scribe) (fs : List Frame) (endOk : Bool) : Prop where
  sdao : w.sdao = true
  sclo : w.sclo = true
  hears : m.Hears (.mark true) [] ⟨fs, none⟩
  endOk : w.endOk = endOk

/-- The writer at rest has cleared its counters. -/
structure Cleared (w : Writer) : Prop where
  cnt : w.cnt = 0
  byte : w.byte = 0

/-- The phases in which a transfer begins. -/
def Phase.Opens : Phase → Prop
  | loaded _ => False
  | advance k => k = 0
  | _ => True

/-- The phases between the end of a transfer and the control's answer to it. -/
def Phase.Ends (ackOk : Bool) : Phase → Prop
  | loaded _ => False
  | retry _ => ackOk = true
  | _ => True

/-- The phases in which the writer sees that the request was withdrawn. -/
def Phase.Withdrawn (ackOk : Bool) : Phase → Prop
  | waiting k => ackOk = true ∨ k = 0
  | loaded _ | idle | recalled => True
  | _ => False

/-- The phase, the writer and the scribe agree, with the frames `fs` over. -/
inductive Tracks (p : Phase) (w : Writer) (m : Scribe) (slave : Bool) (fs : List Frame) : Prop where
  | st1 (here : w.st = .st1) (resting : Resting w m fs false) (cleared : Cleared w)
    (clear : w.ackOk = false) (opens : p.Opens)
  | st2 {l : Line} {cur : BitVec 8} {sent : List Word} (here : w.st = .st2)
    (sending : Sending p w m fs l w.cnt cur sent) (line : l = .low ∨ l = .mark false)
    (shifted : w.a = (cur ++ 1#1) <<< w.cnt) (phase : p.Steady ∨ p = .loaded 0 ∧ sent = [])
  | st3 {cur : BitVec 8} {sent : List Word} (here : w.st = .st3)
    (sending : Sending p w m fs .low w.cnt cur sent) (shifted : w.a = (cur ++ 1#1) <<< w.cnt)
    (low : w.sclo = false) (steady : p.Steady)
  | st4 {cur : BitVec 8} {sent : List Word} (here : w.st = .st4)
    (sending : Sending p w m fs .low w.cnt cur sent) (shifted : w.a = (cur ++ 1#1) <<< (w.cnt + 1))
    (bit : w.sdao = nineBit cur w.cnt) (steady : p.Steady)
  | st5 {c : ℕ} {cur : BitVec 8} {sent : List Word} (here : w.st = .st5)
    (sending : Sending p w m fs (.high (nineBit cur c)) c cur sent) (count : w.cnt = c + 1)
    (shifted : w.a = (cur ++ 1#1) <<< (c + 1)) (bit : w.sdao = nineBit cur c)
    (sample : m.sample = w.sdai slave) (steady : p.Steady)
  | st6 {sent : List Word} (here : w.st = .st6 ∨ w.st = .st7) (closing : Closing p w m fs .low sent)
    (steady : p.Steady)
  | st8 {sent : List Word} (here : w.st = .st8) (closing : Closing p w m fs (.high false) sent)
    (steady : p.Steady)
  | st9 (here : w.st = .st9) (resting : Resting w m fs false) (steady : p.Steady)
  | st30 (here : w.st = .st30) (resting : Resting w m fs true) (cleared : Cleared w)
    (ends : p.Ends w.ackOk)
  | st31 (here : w.st = .st31) (resting : Resting w m fs true) (cleared : Cleared w)
    (withdrawn : p.Withdrawn w.ackOk)

/-- The frame that a clock ends. -/
structure Finishes (p : Phase) (w w' : Writer) (f : Frame) : Prop where
  state : w.st = .st8
  steady : p.Steady
  stopped : f.stopped = true
  carries : ∃ e, p.Sends e ∧ f.Carries slaveAddr e
  ack : w'.ackOk = !f.acked

/-- What a clock makes of the frames. -/
inductive Grows (p : Phase) (w w' : Writer) (fs : List Frame) : List Frame → Prop where
  | same (other : w.st ≠ .st8) : Grows p w w' fs fs
  | more {f : Frame} (finishes : Finishes p w w' f) : Grows p w w' fs (fs ++ [f])

/-! ## One clock -/

/-- The writer after a clock, with the request of the phase. -/
def Writer.asked (w : Writer) (p : Phase) (slave : Bool) : Writer :=
  w.step p.control.mI2cGo slaveAddr (lutData p.held) (w.sdai slave)

section Clock

variable {p : Phase} {w : Writer} {m : Scribe} {slave : Bool} {fs : List Frame}

/-- Phase, writer and scribe agree again after a clock that leaves the writer `w'`. -/
def Passes (p : Phase) (w w' : Writer) (m : Scribe) (hdmiTxInt slave' : Bool) (fs : List Frame) : Prop :=
  Tracks (p.next w.endOk w.ackOk hdmiTxInt) w' (m.hear w'.level (w'.sdai slave')) slave' fs

private theorem passes_st1 (resting : Resting w m fs false) (cleared : Cleared w)
    (clear : w.ackOk = false) (opens : p.Opens) (hdmiTxInt slave' : Bool) :
    Passes p w { w with st := .st2, sdao := false, sclo := true, a := slaveAddr ++ 1#1 } m hdmiTxInt
      slave' fs := by
  obtain ⟨-, -, hears, working⟩ := resting
  have begun := hears.start (slave' && false) (x := ⟨true, false⟩) rfl
  have opened : Transcript.start ⟨fs, none⟩ = ⟨fs, some []⟩ := by simp [Transcript.start, Transcript.closed]
  rw [opened] at begun
  refine @Tracks.st2 _ _ _ _ _ (.mark false) slaveAddr [] rfl
    ⟨?_, Phase.offers_address _, ?_, Nat.zero_le 2, cleared.byte, working, clear⟩ (Or.inr rfl) ?_ ?_
  · simp only [cleared.cnt]
    exact begun
  · simp only [cleared.cnt]
    exact Nat.zero_le 8
  · simp only [cleared.cnt]
    rfl
  · cases p with
    | advance k =>
      obtain rfl : k = 0 := opens
      exact Or.inr ⟨rfl, rfl⟩
    | loaded k => exact absurd opens id
    | idle => cases hdmiTxInt <;> exact Or.inl trivial
    | recalled | retry => exact Or.inl trivial
    | waiting k =>
      rw [working]
      exact Or.inl trivial

/-- After the START the control may still move on to the first entry. -/
private theorem settles {cur : BitVec 8} {sent : List Word} (working : w.endOk = false)
    (phase : p.Steady ∨ p = .loaded 0 ∧ sent = []) (offers : p.Offers (sent.map Word.byte ++ [cur]))
    (hdmiTxInt : Bool) : (p.next w.endOk w.ackOk hdmiTxInt).Steady ∧
      (p.next w.endOk w.ackOk hdmiTxInt).Offers (sent.map Word.byte ++ [cur]) := by
  obtain steady | ⟨rfl, rfl⟩ := phase
  · exact ⟨p.steady_next steady working _ _, offers.next steady working _ _⟩
  · obtain ⟨e, -, part⟩ := offers
    obtain rfl : cur = slaveAddr := by simpa using part
    exact ⟨trivial, Phase.offers_address _⟩

private theorem passes_st2 {l : Line} {cur : BitVec 8} {sent : List Word}
    (sending : Sending p w m fs l w.cnt cur sent) (line : l = .low ∨ l = .mark false)
    (shifted : w.a = (cur ++ 1#1) <<< w.cnt) (phase : p.Steady ∨ p = .loaded 0 ∧ sent = [])
    (hdmiTxInt slave' : Bool) :
    Passes p w { w with st := .st3, sdao := false, sclo := false } m hdmiTxInt slave' fs := by
  obtain ⟨steady, offers⟩ := settles sending.working phase sending.offers hdmiTxInt
  have silent : l.emits ⟨false, false⟩ = [] := by obtain rfl | rfl := line <;> rfl
  exact .st3 rfl ⟨sending.hears.silent _ silent, offers, sending.bound, sending.short, sending.byte,
    sending.working, sending.ack⟩ shifted rfl steady

private theorem passes_st3 {cur : BitVec 8} {sent : List Word}
    (sending : Sending p w m fs .low w.cnt cur sent) (shifted : w.a = (cur ++ 1#1) <<< w.cnt)
    (low : w.sclo = false) (steady : p.Steady) (hdmiTxInt slave' : Bool) :
    Passes p w { w with st := .st4, sdao := w.a.msb, a := w.a <<< 1 } m hdmiTxInt slave' fs := by
  have hears := sending.hears.silent (x := ⟨w.sclo, w.a.msb⟩) (slave' && w.a.msb) rfl
  refine .st4 rfl ⟨?_, sending.offers.next steady sending.working _ _, sending.bound, sending.short,
    sending.byte, sending.working, sending.ack⟩ ?_ ?_ (p.steady_next steady sending.working _ _)
  · rw [low] at hears
    simp only [Writer.level, Writer.sdai, low]
    exact hears
  · simp only [shifted]
    rw [BitVec.shiftLeft_add]
  · rw [shifted]
    exact msb_nine cur sending.bound

private theorem passes_st4 {cur : BitVec 8} {sent : List Word}
    (sending : Sending p w m fs .low w.cnt cur sent) (shifted : w.a = (cur ++ 1#1) <<< (w.cnt + 1))
    (bit : w.sdao = nineBit cur w.cnt) (steady : p.Steady) (hdmiTxInt slave' : Bool) :
    Passes p w { w with st := .st5, sclo := true, cnt := (w.cnt + 1) % 256 } m hdmiTxInt slave' fs := by
  have bound := sending.bound
  have hears := sending.hears.silent (x := ⟨true, w.sdao⟩) (slave' && w.sdao) rfl
  have sampled : (m.hear ⟨true, w.sdao⟩ (slave' && w.sdao)).sample = (slave' && w.sdao) :=
    if_pos ⟨sending.hears.line, rfl⟩
  refine .st5 rfl ⟨?_, sending.offers.next steady sending.working _ _, bound, sending.short,
    sending.byte, sending.working, sending.ack⟩ ?_ shifted bit sampled
    (p.steady_next steady sending.working _ _)
  · rw [← bit]
    exact hears
  · exact Nat.mod_eq_of_lt (by omega)

/-- A bit that is not the last of its byte. -/
private theorem passes_st5_bit {c : ℕ} {cur : BitVec 8} {sent : List Word}
    (sending : Sending p w m fs (.high (nineBit cur c)) c cur sent) (count : w.cnt = c + 1)
    (shifted : w.a = (cur ++ 1#1) <<< (c + 1)) (steady : p.Steady) (early : c < 8) (hdmiTxInt slave' : Bool) :
    Passes p w { w with sclo := false, st := .st2 } m hdmiTxInt slave' fs := by
  have report : (Line.high (nineBit cur c)).emits ⟨false, w.sdao⟩ = [.bit (nineBit cur c)] := rfl
  have length : ((bitsFrom cur 7).take c).length ≠ 8 := by
    rw [List.length_take, bitsFrom_length]
    omega
  have hears := sending.hears.bit (slave' && w.sdao) report length
  rw [← take_nine cur early, ← count] at hears
  refine .st2 rfl ⟨hears, sending.offers.next steady sending.working _ _, ?_, sending.short,
    sending.byte, sending.working, sending.ack⟩ (Or.inl rfl) ?_
    (Or.inl (p.steady_next steady sending.working _ _))
  · simp only [count]
    omega
  · simp only [count]
    exact shifted

/-- The acknowledge ends a byte. -/
private theorem hears_ninth {cur : BitVec 8} {sent : List Word}
    (sending : Sending p w m fs (.high (nineBit cur 8)) 8 cur sent)
    (sample : m.sample = w.sdai slave) (slave' : Bool) :
    (m.hear ⟨false, w.sdao⟩ (slave' && w.sdao)).Hears .low []
      ⟨fs, some (sent ++ [Word.mk cur (!w.sdai slave)])⟩ ∧
    (w.ackOk || w.sdai slave) = (sent ++ [Word.mk cur (!w.sdai slave)]).any (!·.acked) := by
  have whole : (bitsFrom cur 7).take 8 = bitsFrom cur 7 :=
    List.take_of_length_le (bitsFrom_length cur 7).le
  have hears := sending.hears
  rw [whole] at hears
  have word := hears.ninth (x := ⟨false, w.sdao⟩) (slave' && w.sdao) rfl (bitsFrom_length cur 7)
  rw [byteOf_bitsFrom, sample] at word
  refine ⟨word, ?_⟩
  rw [sending.ack]
  simp

private theorem passes_st5_byte {cur next : BitVec 8} {sent : List Word}
    (sending : Sending p w m fs (.high (nineBit cur 8)) 8 cur sent)
    (sample : m.sample = w.sdai slave) (steady : p.Steady) (short : sent.length ≤ 1)
    (offers : p.Offers (sent.map Word.byte ++ [cur] ++ [next])) (hdmiTxInt slave' : Bool) :
    Passes p w
      { w with
          sclo := false, ackOk := w.ackOk || w.sdai slave
          cnt := 0, st := .st2, byte := w.byte + 1, a := next ++ 1#1 }
      m hdmiTxInt slave' fs := by
  obtain ⟨hears, ack⟩ := hears_ninth sending sample slave'
  refine @Tracks.st2 _ _ _ _ _ .low next (sent ++ [Word.mk cur (!w.sdai slave)]) rfl
    ⟨hears, ?_, Nat.zero_le 8, ?_, ?_, sending.working, ack⟩ (Or.inl rfl) ?_
    (Or.inl (p.steady_next steady sending.working _ _))
  · rw [List.map_append]
    exact offers.next steady sending.working _ _
  · rw [List.length_append]
    exact Nat.succ_le_succ short
  · rw [List.length_append, ← sending.byte]
    rfl
  · exact (BitVec.shiftLeft_zero _).symm

private theorem passes_st5_last {cur : BitVec 8} {sent : List Word}
    (sending : Sending p w m fs (.high (nineBit cur 8)) 8 cur sent)
    (sample : m.sample = w.sdai slave) (steady : p.Steady) (last : sent.length = 2)
    (hdmiTxInt slave' : Bool) :
    Passes p w { w with sclo := false, ackOk := w.ackOk || w.sdai slave, st := .st6 } m hdmiTxInt slave'
      fs := by
  obtain ⟨hears, ack⟩ := hears_ninth sending sample slave'
  refine @Tracks.st6 _ _ _ _ _ (sent ++ [Word.mk cur (!w.sdai slave)]) (Or.inl rfl)
    ⟨hears, ?_, ?_, sending.working, ack⟩ (p.steady_next steady sending.working _ _)
  · rw [List.map_append]
    exact sending.offers.next steady sending.working _ _
  · rw [List.length_append, last]
    rfl

/-- The end of an SCL pulse. -/
private theorem passes_st5 {c : ℕ} {cur : BitVec 8} {sent : List Word} (here : w.st = .st5)
    (sending : Sending p w m fs (.high (nineBit cur c)) c cur sent) (count : w.cnt = c + 1)
    (shifted : w.a = (cur ++ 1#1) <<< (c + 1)) (sample : m.sample = w.sdai slave)
    (steady : p.Steady) (hdmiTxInt slave' : Bool) :
    Passes p w (w.asked p slave) m hdmiTxInt slave' fs := by
  have bound := sending.bound
  have short := sending.short
  have byte := sending.byte
  by_cases early : c < 8
  · have moved : w.asked p slave = { w with sclo := false, st := .st2 } := by
      simp only [Writer.asked, Writer.step, here, count]
      rw [if_neg (by omega)]
    rw [moved]
    exact passes_st5_bit sending count shifted steady early hdmiTxInt slave'
  · obtain rfl : c = 8 := by omega
    have length : (sent.map Word.byte ++ [cur]).length = sent.length + 1 := by
      rw [List.length_append, List.length_map, List.length_singleton]
    obtain first | second | third : sent.length = 0 ∨ sent.length = 1 ∨ sent.length = 2 := by omega
    · have moved : w.asked p slave = { w with
          sclo := false, ackOk := w.ackOk || w.sdai slave
          cnt := 0, st := .st2, byte := w.byte + 1, a := (entry p.held).reg ++ 1#1 } := by
        simp only [Writer.asked, Writer.step, here, count, byte, first, byteNum]
        rfl
      rw [moved]
      apply passes_st5_byte sending sample steady (by omega)
      exact p.offers_register sending.offers (by omega)
    · have moved : w.asked p slave = { w with
          sclo := false, ackOk := w.ackOk || w.sdai slave
          cnt := 0, st := .st2, byte := w.byte + 1, a := (entry p.held).val ++ 1#1 } := by
        simp only [Writer.asked, Writer.step, here, count, byte, second, byteNum]
        rfl
      rw [moved]
      apply passes_st5_byte sending sample steady (by omega)
      exact p.offers_value sending.offers (by omega)
    · have moved : w.asked p slave = { w with sclo := false, ackOk := w.ackOk || w.sdai slave, st := .st6 } := by
        simp only [Writer.asked, Writer.step, here, count, byte, third, byteNum]
        rfl
      rw [moved]
      exact passes_st5_last sending sample steady third hdmiTxInt slave'

private theorem passes_st6 {sent : List Word} (closing : Closing p w m fs .low sent) (steady : p.Steady)
    (hdmiTxInt slave' : Bool) :
    Passes p w { w with st := .st7, sdao := false, sclo := false } m hdmiTxInt slave' fs :=
  .st6 (Or.inr rfl) ⟨closing.hears.silent _ rfl, closing.offers.next steady closing.working _ _,
    closing.whole, closing.working, closing.ack⟩ (p.steady_next steady closing.working _ _)

private theorem passes_st7 {sent : List Word} (closing : Closing p w m fs .low sent) (steady : p.Steady)
    (hdmiTxInt slave' : Bool) :
    Passes p w { w with st := .st8, sdao := false, sclo := true } m hdmiTxInt slave' fs :=
  .st8 rfl ⟨closing.hears.silent _ rfl, closing.offers.next steady closing.working _ _,
    closing.whole, closing.working, closing.ack⟩ (p.steady_next steady closing.working _ _)

/-- The STOP ends the frame. -/
private theorem passes_st8 {sent : List Word} (here : w.st = .st8)
    (closing : Closing p w m fs (.high false) sent) (steady : p.Steady) (hdmiTxInt slave' : Bool) :
    Passes p w { w with st := .st9, sdao := true, sclo := true } m hdmiTxInt slave' (fs ++ [⟨sent, true⟩]) ∧
      Finishes p w { w with st := .st9, sdao := true, sclo := true } ⟨sent, true⟩ := by
  constructor
  · refine .st9 rfl ⟨rfl, rfl, ?_, closing.working⟩ (p.steady_next steady closing.working _ _)
    exact closing.hears.stop (slave' && true) (x := ⟨true, true⟩) rfl
  · refine ⟨here, steady, rfl, closing.offers.whole closing.whole, ?_⟩
    simp only [closing.ack, Frame.acked, List.not_all_eq_any_not]

private theorem passes_st9 (resting : Resting w m fs false) (steady : p.Steady)
    (hdmiTxInt slave' : Bool) :
    Passes p w { w with st := .st30, sdao := true, sclo := true, cnt := 0, endOk := true, byte := 0 }
      m hdmiTxInt slave' fs := by
  refine .st30 rfl ⟨rfl, rfl, resting.hears.silent _ rfl, rfl⟩ ⟨rfl, rfl⟩ ?_
  have steady := p.steady_next steady resting.endOk w.ackOk hdmiTxInt
  cases after : p.next w.endOk w.ackOk hdmiTxInt with
  | waiting | idle | recalled => exact trivial
  | _ =>
    rw [after] at steady
    exact absurd steady id

/-- Holding both lines released. -/
private theorem Resting.held {endOk : Bool} (resting : Resting w m fs endOk) (slave' : Bool) :
    (m.hear w.level (w.sdai slave')).Hears (.mark true) [] ⟨fs, none⟩ := by
  have silent := resting.hears.silent (x := ⟨true, true⟩) (w.sdai slave') rfl
  rwa [Writer.level, resting.sclo, resting.sdao]

private theorem passes_st30 (here : w.st = .st30) (resting : Resting w m fs true) (cleared : Cleared w)
    (ends : p.Ends w.ackOk) (hdmiTxInt slave' : Bool) :
    Passes p w (w.asked p slave) m hdmiTxInt slave' fs := by
  have still : p.control.mI2cGo = true → w.asked p slave = w := by
    intro go
    simp only [Writer.asked, Writer.step, here, go, if_true]
  have leaves : p.control.mI2cGo = false → w.asked p slave = { w with st := .st31 } := by
    intro go
    simp only [Writer.asked, Writer.step, here, go, Bool.false_eq_true, if_false]
  have withdrawn : (p.next w.endOk w.ackOk hdmiTxInt).Withdrawn w.ackOk →
      Tracks (p.next w.endOk w.ackOk hdmiTxInt) { w with st := .st31 }
        (m.hear w.level (w.sdai slave')) slave' fs := fun phase =>
    .st31 rfl ⟨resting.sdao, resting.sclo, resting.held slave', resting.endOk⟩
      ⟨cleared.cnt, cleared.byte⟩ phase
  cases p with
  | waiting k =>
    rw [still rfl]
    refine .st30 here ⟨resting.sdao, resting.sclo, resting.held slave', resting.endOk⟩ cleared ?_
    rw [resting.endOk]
    cases acked : w.ackOk with
    | false => exact trivial
    | true => exact rfl
  | retry k =>
    rw [leaves rfl]
    exact withdrawn (Or.inl ends)
  | advance k =>
    rw [leaves rfl]
    exact withdrawn trivial
  | loaded k => exact absurd ends id
  | idle =>
    rw [leaves rfl]
    apply withdrawn
    cases hdmiTxInt <;> exact trivial
  | recalled =>
    rw [leaves rfl]
    exact withdrawn (Or.inr rfl)

private theorem passes_st31 (resting : Resting w m fs true) (cleared : Cleared w)
    (withdrawn : p.Withdrawn w.ackOk) (hdmiTxInt slave' : Bool) :
    Passes p w { w with endOk := false, ackOk := false, st := .st1 } m hdmiTxInt slave' fs := by
  refine .st1 rfl ⟨resting.sdao, resting.sclo, resting.held slave', rfl⟩ ⟨cleared.cnt, cleared.byte⟩ rfl ?_
  cases p with
  | waiting k =>
    rw [resting.endOk]
    cases acked : w.ackOk with
    | true => exact trivial
    | false =>
      rw [acked] at withdrawn
      exact withdrawn.resolve_left Bool.false_ne_true
  | loaded k =>
    rw [Phase.next]
    by_cases last : k = 30
    · rw [if_pos last]
      cases hdmiTxInt <;> exact trivial
    · rw [if_neg last]
      exact trivial
  | idle => cases hdmiTxInt <;> exact trivial
  | recalled => exact trivial
  | _ => exact absurd withdrawn id

/-- Phase, writer and scribe stay together, and a frame is over in one state of the writer only. -/
theorem tracks_step (tracks : Tracks p w m slave fs) (hdmiTxInt slave' : Bool) :
    ∃ fs', Passes p w (w.asked p slave) m hdmiTxInt slave' fs' ∧ Grows p w (w.asked p slave) fs fs' := by
  have moves : ∀ w', w.asked p slave = w' → w.st ≠ .st8 → Passes p w w' m hdmiTxInt slave' fs →
      ∃ fs', Passes p w (w.asked p slave) m hdmiTxInt slave' fs' ∧ Grows p w (w.asked p slave) fs fs' := by
    rintro w' rfl other passes
    exact ⟨fs, passes, .same other⟩
  have form : ∀ st, w.st = st → w.asked p slave = { w with st := st }.asked p slave := by
    rintro st rfl
    rfl
  cases tracks with
  | st1 here resting cleared clear opens =>
    apply moves _ (form _ here) (by rw [here]; decide)
    exact passes_st1 resting cleared clear opens hdmiTxInt slave'
  | st2 here sending line shifted phase =>
    apply moves _ (form _ here) (by rw [here]; decide)
    exact passes_st2 sending line shifted phase hdmiTxInt slave'
  | st3 here sending shifted low steady =>
    apply moves _ (form _ here) (by rw [here]; decide)
    exact passes_st3 sending shifted low steady hdmiTxInt slave'
  | st4 here sending shifted bit steady =>
    apply moves _ (form _ here) (by rw [here]; decide)
    exact passes_st4 sending shifted bit steady hdmiTxInt slave'
  | st5 here sending count shifted bit sample steady =>
    apply moves _ rfl (by rw [here]; decide)
    exact passes_st5 here sending count shifted sample steady hdmiTxInt slave'
  | st6 here closing steady =>
    obtain here | here := here
    · apply moves _ (form _ here) (by rw [here]; decide)
      exact passes_st6 closing steady hdmiTxInt slave'
    · apply moves _ (form _ here) (by rw [here]; decide)
      exact passes_st7 closing steady hdmiTxInt slave'
  | @st8 sent here closing steady =>
    obtain ⟨passes, finishes⟩ := passes_st8 here closing steady hdmiTxInt slave'
    have moved : w.asked p slave = { w with st := .st9, sdao := true, sclo := true } := form _ here
    rw [moved]
    exact ⟨_, passes, .more finishes⟩
  | st9 here resting steady =>
    apply moves _ (form _ here) (by rw [here]; decide)
    exact passes_st9 resting steady hdmiTxInt slave'
  | st30 here resting cleared ends =>
    apply moves _ rfl (by rw [here]; decide)
    exact passes_st30 here resting cleared ends hdmiTxInt slave'
  | st31 here resting cleared withdrawn =>
    apply moves _ (form _ here) (by rw [here]; decide)
    exact passes_st31 resting cleared withdrawn hdmiTxInt slave'

end Clock

end Telecran.Model.Hdmi
