import Mathlib.Tactic.IntervalCases
import Telecran.Bus.Registers
import Telecran.Model.HdmiConfig

/-! # The control and the writer in step

The control's registers take the values of a few phases. While the writer moves a byte the phase can
only go from idle to a recall of the table, so the bytes of a frame belong to one entry, unless the
table was recalled between the second and the third byte.
-/

namespace Telecran.Model.Hdmi

open Machine Bus

/-- The write of an entry. -/
def entry (k : ℕ) : Write := ⟨(lutData k).extractLsb' 8 8, (lutData k).extractLsb' 0 8⟩

def table : List Write := (List.range lutSize).map entry

/-- The register of the last entry with the value of the first. -/
def mixed : Write := ⟨(entry 30).reg, (entry 0).val⟩

/-! ## Phases of the control -/

/-- What the control is about: entry `k` is requested, is to be requested again, was acknowledged, or
was acknowledged and counted; the table is through; or it has just been recalled. -/
inductive Phase where
  | waiting (k : ℕ)
  | retry (k : ℕ)
  | advance (k : ℕ)
  | loaded (k : ℕ)
  | idle
  | recalled
deriving DecidableEq, Repr

namespace Phase

/-- The entry in `mI2C_DATA`. -/
def held : Phase → ℕ
  | waiting k | retry k | advance k | loaded k => k
  | idle | recalled => 30

/-- The registers of the control. -/
def control (p : Phase) : Control :=
  match p with
  | waiting k => ⟨false, slaveAddr ++ lutData k, true, k, .st1⟩
  | retry k => ⟨false, slaveAddr ++ lutData k, false, k, .st0⟩
  | advance k => ⟨false, slaveAddr ++ lutData k, false, k, .st2⟩
  | loaded k => ⟨false, slaveAddr ++ lutData k, false, k + 1, .st0⟩
  | idle => ⟨true, slaveAddr ++ lutData 30, false, 31, .st0⟩
  | recalled => ⟨true, slaveAddr ++ lutData 30, false, 0, .st0⟩

/-- The phase after a control clock. -/
def next (p : Phase) (mI2cEnd mI2cAck hdmiTxInt : Bool) : Phase :=
  match p with
  | waiting k => if mI2cEnd then if mI2cAck then retry k else advance k else waiting k
  | retry k => waiting k
  | advance k => loaded k
  | loaded k => if k = 30 then if hdmiTxInt then idle else recalled else waiting (k + 1)
  | idle => if hdmiTxInt then idle else recalled
  | recalled => waiting 0

variable {p : Phase}

/-- The control moves from phase to phase. -/
theorem control_step (bound : p.held ≤ 30) (mI2cEnd mI2cAck hdmiTxInt : Bool) :
    p.control.step mI2cEnd mI2cAck hdmiTxInt = (p.next mI2cEnd mI2cAck hdmiTxInt).control := by
  cases p with
  | waiting k =>
    have inside : k < lutSize := Nat.lt_succ_of_le bound
    cases mI2cEnd <;> cases mI2cAck <;> simp [control, Control.step, next, inside]
  | retry k | advance k =>
    have inside : k < lutSize := Nat.lt_succ_of_le bound
    simp [control, Control.step, next, inside]
  | loaded k =>
    by_cases last : k = 30
    · subst last
      cases hdmiTxInt <;> simp [control, Control.step, next, lutSize]
    · have bound : k ≤ 30 := bound
      have inside : k + 1 < lutSize := by rw [lutSize]; omega
      simp [control, Control.step, next, inside, last]
  | idle => cases hdmiTxInt <;> simp [control, Control.step, next, lutSize]
  | recalled => simp [control, Control.step, next, lutSize]

theorem held_next (bound : p.held ≤ 30) (mI2cEnd mI2cAck hdmiTxInt : Bool) :
    (p.next mI2cEnd mI2cAck hdmiTxInt).held ≤ 30 := by
  cases p with
  | waiting k => cases mI2cEnd <;> cases mI2cAck <;> exact bound
  | retry k | advance k => exact bound
  | loaded k =>
    have bound : k ≤ 30 := bound
    by_cases last : k = 30
    · rw [next, if_pos last]
      cases hdmiTxInt <;> exact le_rfl
    · rw [next, if_neg last, held]
      omega
  | idle => cases hdmiTxInt <;> exact le_rfl
  | recalled => exact Nat.zero_le _

/-- The request in the control's registers. -/
theorem control_data (p : Phase) : p.control.mI2cData = slaveAddr ++ lutData p.held := by
  cases p <;> rfl

theorem address_held (p : Phase) : p.control.mI2cData.extractLsb' 16 8 = slaveAddr := by
  rw [control_data, BitVec.extractLsb'_append_eq_of_le (le_refl 16)]
  exact BitVec.extractLsb'_eq_self

theorem regData_held (p : Phase) : p.control.mI2cData.extractLsb' 0 16 = lutData p.held := by
  rw [control_data, BitVec.extractLsb'_append_eq_of_add_le (by decide)]
  exact BitVec.extractLsb'_eq_self

/-! ## The bytes of a frame -/

/-- The phase stays while the writer is at work. -/
def Steady : Phase → Prop
  | waiting _ | idle | recalled => True
  | _ => False

/-- The writes a frame may turn out to be. -/
def Sends (p : Phase) (w : Write) : Prop :=
  w = entry p.held ∨ p = waiting 0 ∧ (w = entry 30 ∨ w = mixed)

/-- The bytes of the frame so far. -/
def Offers (p : Phase) (bytes : List (BitVec 8)) : Prop :=
  ∃ w, p.Sends w ∧ bytes <+: [slaveAddr, w.reg, w.val]

theorem steady_next (steady : p.Steady) {mI2cEnd : Bool} (working : mI2cEnd = false)
    (mI2cAck hdmiTxInt : Bool) : (p.next mI2cEnd mI2cAck hdmiTxInt).Steady := by
  subst working
  cases p with
  | waiting k | recalled => exact trivial
  | idle => cases hdmiTxInt <;> exact trivial
  | _ => exact absurd steady id

/-- What may be sent stays possible while the writer is at work. -/
theorem Sends.next {w : Write} (sends : p.Sends w) (steady : p.Steady) {mI2cEnd : Bool}
    (working : mI2cEnd = false) (mI2cAck hdmiTxInt : Bool) :
    (p.next mI2cEnd mI2cAck hdmiTxInt).Sends w := by
  subst working
  cases p with
  | waiting k => exact sends
  | idle =>
    obtain rfl | ⟨impossible, -⟩ := sends
    · cases hdmiTxInt <;> exact Or.inl rfl
    · exact nomatch impossible
  | recalled =>
    obtain rfl | ⟨impossible, -⟩ := sends
    · exact Or.inr ⟨rfl, Or.inl rfl⟩
    · exact nomatch impossible
  | _ => exact absurd steady id

theorem Offers.next {bytes : List (BitVec 8)} (offers : p.Offers bytes) (steady : p.Steady)
    {mI2cEnd : Bool} (working : mI2cEnd = false) (mI2cAck hdmiTxInt : Bool) :
    (p.next mI2cEnd mI2cAck hdmiTxInt).Offers bytes := by
  obtain ⟨w, sends, part⟩ := offers
  exact ⟨w, sends.next steady working mI2cAck hdmiTxInt, part⟩

/-- Every frame begins with the address. -/
theorem offers_address (p : Phase) : p.Offers [slaveAddr] :=
  ⟨entry p.held, Or.inl rfl, by simp⟩

/-- The second byte is the register of the entry requested. -/
theorem offers_register (p : Phase) {bytes : List (BitVec 8)} (offers : p.Offers bytes)
    (length : bytes.length = 1) : p.Offers (bytes ++ [(entry p.held).reg]) := by
  obtain ⟨w, -, part⟩ := offers
  match bytes, length with
  | [x], _ =>
    obtain rfl : x = slaveAddr := by simpa using part
    exact ⟨entry p.held, Or.inl rfl, by simp⟩

/-- The third byte is the value of the entry requested. -/
theorem offers_value (p : Phase) {bytes : List (BitVec 8)} (offers : p.Offers bytes)
    (length : bytes.length = 2) : p.Offers (bytes ++ [(entry p.held).val]) := by
  obtain ⟨w, sends, part⟩ := offers
  match bytes, length with
  | [x, r], _ =>
    obtain ⟨rfl, rfl⟩ : x = slaveAddr ∧ r = w.reg := by simpa using part
    obtain rfl | ⟨rfl, rfl | rfl⟩ := sends
    · exact ⟨entry p.held, Or.inl rfl, by simp⟩
    · exact ⟨mixed, Or.inr ⟨rfl, Or.inr rfl⟩, by simp [mixed, held]⟩
    · exact ⟨mixed, Or.inr ⟨rfl, Or.inr rfl⟩, by simp [mixed, held]⟩

/-- Three bytes are a whole write. -/
theorem Offers.whole {words : List Word} (offers : p.Offers (words.map Word.byte))
    (length : words.length = 3) : ∃ w, p.Sends w ∧ (Frame.mk words true).Carries slaveAddr w := by
  obtain ⟨w, sends, part⟩ := offers
  exact ⟨w, sends, part.eq_of_length (by simp [length])⟩

end Phase

end Telecran.Model.Hdmi
