import Telecran.Bus.Registers

/-! # A register file on a two wire bus

A device follows the bus like a scribe and answers with SDA. It acknowledges its address and the bytes
written to it; the first of them selects a register. A read sends the registers from the selected one
on, until the master refuses a byte. Nothing here depends on a particular master.
-/

namespace Telecran.Bus

/-- The address of a device, and its registers as they are while frame `k` is on the bus. -/
structure Device where
  a7 : BitVec 7
  regs : ℕ → Registers

namespace Device

variable (d : Device)

def toWrite : BitVec 8 := d.a7 ++ 0#1
def toRead : BitVec 8 := d.a7 ++ 1#1

theorem toRead_ne_toWrite : d.toRead ≠ d.toWrite := by
  intro same
  have bit : (d.a7 ++ 1#1).getLsbD 0 = (d.a7 ++ 0#1).getLsbD 0 := congrArg (BitVec.getLsbD · 0) same
  rw [BitVec.getLsbD_append, BitVec.getLsbD_append] at bit
  simp at bit

/-- The register selected after a frame. -/
def select (selected : BitVec 8) (f : Frame) : BitVec 8 :=
  match f.words with
  | [] => selected
  | address :: words =>
    if address.byte = d.toWrite then
      match words with
      | [] => selected
      | r :: values => r.byte + BitVec.ofNat 8 values.length
    else if address.byte = d.toRead then selected + BitVec.ofNat 8 words.length
    else selected

/-- The register selected after all frames. -/
def selected (frames : List Frame) : BitVec 8 := frames.foldl d.select 0

/-- The register of the next byte that is read. -/
def supply (t : Transcript) : BitVec 8 :=
  d.regs t.frames.length (d.selected t.frames + BitVec.ofNat 8 ((t.current.getD []).length - 1))

/-- SDA as the device leaves it, with the bits of the byte under way. -/
def answer (t : Transcript) (bits : List Bool) : Bool :=
  match t.current with
  | none => true
  | some [] => !(bits.length = 8 && (byteOf bits = d.toWrite || byteOf bits = d.toRead))
  | some (address :: words) =>
    if address.byte = d.toWrite then bits.length ≠ 8
    else if address.byte = d.toRead && words.all Word.acked && bits.length < 8 then
      (d.supply t).getLsbD (7 - bits.length)
    else true

/-- The device acknowledges the byte. -/
def Acks (t : Transcript) (byte : BitVec 8) : Prop :=
  t.current = some [] ∧ (byte = d.toWrite ∨ byte = d.toRead) ∨
    ∃ address words, t.current = some (address :: words) ∧ address.byte = d.toWrite

/-- The device sends a byte. -/
def Sends (t : Transcript) : Prop :=
  ∃ address words, t.current = some (address :: words) ∧ address.byte = d.toRead ∧
    words.all Word.acked = true

variable {d : Device} {t : Transcript}

theorem Acks.answer {byte : BitVec 8} (acks : d.Acks t byte) : d.answer t (bitsFrom byte 7) = false := by
  have length : (bitsFrom byte 7).length = 8 := bitsFrom_length byte 7
  obtain ⟨opened, own⟩ | ⟨address, words, opened, written⟩ := acks
  · simp only [Device.answer, opened, length, byteOf_bitsFrom]
    obtain rfl | rfl := own <;> simp
  · simp [Device.answer, opened, written, length]

theorem Acks.opened {byte : BitVec 8} (acks : d.Acks t byte) : t.current.isSome = true := by
  obtain ⟨opened, -⟩ | ⟨address, words, opened, -⟩ := acks <;> rw [opened] <;> rfl

theorem Sends.opened (sends : d.Sends t) : t.current.isSome = true := by
  obtain ⟨address, words, opened, -⟩ := sends
  rw [opened]
  rfl

/-- The byte is sent with its most significant bit first. -/
theorem Sends.bit (sends : d.Sends t) {bits : List Bool} {i : ℕ} (place : bits.length + i = 7) :
    d.answer t bits = (d.supply t).getLsbD i := by
  obtain ⟨address, words, opened, read, acked⟩ := sends
  have other := d.toRead_ne_toWrite
  have index : 7 - bits.length = i := by omega
  have short : bits.length < 8 := by omega
  simp [Device.answer, opened, other, read, acked, short, index]

/-- For the acknowledge of a byte it has sent, the device releases SDA. -/
theorem Sends.released (sends : d.Sends t) {bits : List Bool} (whole : bits.length = 8) :
    d.answer t bits = true := by
  obtain ⟨address, words, opened, read, -⟩ := sends
  have other := d.toRead_ne_toWrite
  simp [Device.answer, opened, read, other, whole]

/-! ## A read in progress -/

/-- `i` bytes have been read from register `r` on, all acknowledged. -/
structure Reading (d : Device) (frames : List Frame) (r : BitVec 8) (i : ℕ) (t : Transcript) : Prop where
  same : t.frames = frames
  chosen : d.selected frames = r
  current : ∃ words, t.current = some (⟨d.toRead, true⟩ :: words) ∧ words.length = i ∧
    words.all Word.acked = true

namespace Reading

variable {frames : List Frame} {r : BitVec 8} {i : ℕ}

theorem sends (reading : d.Reading frames r i t) : d.Sends t := by
  obtain ⟨-, -, words, current, -, acked⟩ := reading
  exact ⟨_, words, current, rfl, acked⟩

theorem supply (reading : d.Reading frames r i t) :
    d.supply t = d.regs frames.length (r + BitVec.ofNat 8 i) := by
  obtain ⟨rfl, rfl, words, current, rfl, -⟩ := reading
  simp [Device.supply, current]

/-- The master asks for another byte. -/
theorem word (reading : d.Reading frames r i t) (byte : BitVec 8) :
    d.Reading frames r (i + 1) (t.word ⟨byte, true⟩) := by
  obtain ⟨rfl, chosen, words, current, rfl, acked⟩ := reading
  refine ⟨rfl, chosen, words ++ [⟨byte, true⟩], ?_, by simp, by simp [acked]⟩
  simp [Transcript.word, current]

/-- The master refuses the last byte and ends the frame. -/
theorem close (reading : d.Reading frames r i t) (w : Word) :
    (t.word w).stop.frames.length = frames.length + 1 ∧ (t.word w).stop.current = none := by
  obtain ⟨rfl, -, words, current, -, -⟩ := reading
  simp [Transcript.word, Transcript.stop, Transcript.closed, current]

end Reading

theorem selected_concat (frames : List Frame) (f : Frame) :
    d.selected (frames ++ [f]) = d.select (d.selected frames) f := by
  simp [selected]

/-- A write of no more than the register selects it. -/
theorem select_register (selected r : BitVec 8) (a b stopped : Bool) :
    d.select selected ⟨[⟨d.toWrite, a⟩, ⟨r, b⟩], stopped⟩ = r := by
  simp [select]

end Device

end Telecran.Bus
