import Mathlib.Logic.Function.Basic
import Telecran.Bus.Transcript

/-! # Registers behind a two wire bus

The registers of a device as frames of writes leave them. A write whose bytes are all acknowledged is
taken; when an acknowledge is missing the device may have taken the write or not. A master that repeats
each entry of a script until it is acknowledged leaves the values of the script behind, whatever the
device does with the writes it refuses. Nothing here depends on a particular master.
-/

namespace Telecran.Bus

namespace Frame

/-- The bytes of the frame are those of a write. -/
def Carries (a : BitVec 8) (w : Write) (f : Frame) : Prop := f.words.map Word.byte = [a, w.reg, w.val]

/-- Every byte was acknowledged. -/
def acked (f : Frame) : Bool := f.words.all Word.acked

variable {a : BitVec 8} {w : Write} {f : Frame}

theorem carries_made (a : BitVec 8) (w : Write) : (w.made a).Carries a w := rfl

/-- A write that is carried, acknowledged and stopped is made. -/
theorem Carries.made (carries : f.Carries a w) (stopped : f.stopped = true) (acked : f.acked = true) :
    f = w.made a := by
  obtain ⟨words, stop⟩ := f
  obtain rfl : stop = true := stopped
  rw [Carries] at carries
  match words, carries with
  | [⟨x, xa⟩, ⟨r, ra⟩, ⟨v, va⟩], carries =>
    simp only [List.map_cons, List.map_nil, List.cons.injEq, and_true] at carries
    obtain ⟨rfl, rfl, rfl⟩ := carries
    simp only [Frame.acked, List.all_cons, List.all_nil, Bool.and_true, Bool.and_eq_true] at acked
    obtain ⟨rfl, rfl, rfl⟩ := acked
    rfl

end Frame

/-! ## What a device keeps -/

/-- The contents of the registers by address. -/
abbrev Registers := BitVec 8 → BitVec 8

/-- What a frame may do to the registers of the device at address `a`. -/
inductive Takes (a : BitVec 8) : Registers → Frame → Registers → Prop where
  | stored {regs : Registers} {w : Write} {f : Frame} (carries : f.Carries a w) :
    Takes a regs f (Function.update regs w.reg w.val)
  | ignored {regs : Registers} {f : Frame} (refused : ∀ w : Write, f ≠ w.made a) : Takes a regs f regs

/-- What frames one after the other may leave in the registers. -/
inductive Stores (a : BitVec 8) (first : Registers) : List Frame → Registers → Prop where
  | nil : Stores a first [] first
  | concat {frames : List Frame} {regs regs' : Registers} {f : Frame} (stores : Stores a first frames regs)
    (takes : Takes a regs f regs') : Stores a first (frames ++ [f]) regs'

/-- The writes agree about the value of each register. -/
def Agree (script : List Write) : Prop := ∀ w ∈ script, ∀ v ∈ script, w.reg = v.reg → w.val = v.val

instance (script : List Write) : Decidable (Agree script) :=
  inferInstanceAs (Decidable (∀ w ∈ script, _))

/-- Writes that agree stay in place once they have been made. -/
theorem Stores.keeps {a : BitVec 8} {first regs : Registers} {prior later : List Frame}
    {script : List Write} (agree : Agree script) (stores : Stores a first (prior ++ later) regs)
    (carry : ∀ f ∈ later, ∃ w ∈ script, f.Carries a w) {w : Write} (member : w ∈ script)
    (made : w.made a ∈ later) : regs w.reg = w.val := by
  induction later using List.reverseRecOn generalizing regs with
  | nil => exact absurd made List.not_mem_nil
  | append_singleton later f ih =>
    rw [← List.append_assoc] at stores
    generalize whole : prior ++ later ++ [f] = frames at stores
    cases stores with
    | nil => exact absurd whole (by simp)
    | concat stores takes =>
      obtain ⟨rfl, last⟩ := List.append_inj' whole rfl
      obtain rfl := List.singleton_inj.mp last
      have before : w.made a ∈ later → _ := ih stores fun g inside =>
        carry g (List.mem_append_left _ inside)
      cases takes with
      | ignored refused =>
        apply before
        rcases List.mem_append.mp made with here | there
        · exact here
        · exact absurd (List.mem_singleton.mp there).symm (refused w)
      | @stored v _ carries =>
        by_cases same : w.reg = v.reg
        · obtain ⟨u, inside, carries'⟩ := carry f (List.mem_append_right _ (List.mem_singleton_self f))
          have shared : [a, v.reg, v.val] = [a, u.reg, u.val] := carries.symm.trans carries'
          simp only [List.cons.injEq, true_and, and_true] at shared
          rw [same, Function.update_self, shared.2]
          exact (agree w member u inside (same.trans shared.1)).symm
        · rw [Function.update_of_ne same]
          apply before
          rcases List.mem_append.mp made with here | there
          · exact here
          · have shared := carries.symm.trans ((List.mem_singleton.mp there) ▸ Frame.carries_made a w)
            simp only [List.cons.injEq, true_and, and_true] at shared
            exact absurd shared.1.symm same

/-! ## Entries that are repeated -/

/-- How many of the frames were acknowledged. -/
def ackedCount (frames : List Frame) : ℕ := frames.countP Frame.acked

/-- Each frame is whole and carries the entry that follows those acknowledged before it. -/
def Orderly (a : BitVec 8) (entry : ℕ → Write) (frames : List Frame) : Prop :=
  ∀ prior f later, frames = prior ++ f :: later →
    f.stopped = true ∧ f.Carries a (entry (ackedCount prior))

section Orderly

variable {a : BitVec 8} {entry : ℕ → Write} {frames : List Frame} {f : Frame}

theorem ackedCount_concat :
    ackedCount (frames ++ [f]) = ackedCount frames + if f.acked then 1 else 0 := by
  simp [ackedCount, List.countP_append, List.countP_singleton]

theorem Orderly.nil : Orderly a entry [] := by
  intro prior f later shape
  exact absurd shape (by simp)

theorem Orderly.concat (orderly : Orderly a entry frames) (stopped : f.stopped = true)
    (carries : f.Carries a (entry (ackedCount frames))) : Orderly a entry (frames ++ [f]) := by
  intro prior g later shape
  rcases List.eq_nil_or_concat later with rfl | ⟨later, h, rfl⟩
  · obtain ⟨rfl, last⟩ := List.append_inj' shape rfl
    obtain rfl := List.singleton_inj.mp last
    exact ⟨stopped, carries⟩
  · rw [List.concat_eq_append, ← List.cons_append, ← List.append_assoc] at shape
    exact orderly prior g later (List.append_inj' shape rfl).1

theorem Orderly.carries (orderly : Orderly a entry frames) (member : f ∈ frames) :
    ∃ k, f.Carries a (entry k) := by
  obtain ⟨prior, later, shape⟩ := List.append_of_mem member
  exact ⟨_, (orderly prior f later shape).2⟩

/-- Every entry before the next one has been made. -/
theorem Orderly.made (orderly : Orderly a entry frames) {k : ℕ} (early : k < ackedCount frames) :
    (entry k).made a ∈ frames := by
  induction frames using List.reverseRecOn with
  | nil => exact absurd early (Nat.not_lt_zero k)
  | append_singleton frames f ih =>
    have before : Orderly a entry frames := by
      intro prior g later shape
      exact orderly prior g (later ++ [f]) (by rw [shape, List.append_assoc, List.cons_append])
    obtain ⟨stopped, carries⟩ := orderly frames f [] rfl
    rw [ackedCount_concat] at early
    by_cases done : k < ackedCount frames
    · exact List.mem_append_left _ (ih before done)
    · cases acked : f.acked with
      | false => simp only [acked, Bool.false_eq_true, if_false] at early; omega
      | true =>
        simp only [acked, if_true] at early
        obtain rfl : k = ackedCount frames := by omega
        rw [← carries.made stopped acked]
        exact List.mem_append_right _ (List.mem_singleton_self _)

end Orderly

end Telecran.Bus
