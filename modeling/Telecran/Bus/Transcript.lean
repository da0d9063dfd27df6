import Mathlib.Data.List.Induction
import Mathlib.Tactic.IntervalCases
import Telecran.Bus.I2c

/-! # Transcripts of a two wire bus

A scribe hears the levels of the lines together with what the master samples of SDA, and writes
down the words after each START: a byte as the master drives it, and its acknowledge as the master
samples it while raising SCL for the ninth time. Transcripts of register writes that are retried
until they are acknowledged are compared with the list of writes to be made. Nothing here depends
on a particular master.
-/

namespace Telecran.Bus

/-- A byte out of its bits, the most significant one first. -/
def byteOf (bits : List Bool) : BitVec 8 := bits.foldl BitVec.shiftConcat 0

theorem byteOf_bitsFrom (byte : BitVec 8) : byteOf (bitsFrom byte 7) = byte := by
  apply BitVec.eq_of_getLsbD_eq
  intro j bound
  simp only [bitsFrom, byteOf, List.foldl_cons, List.foldl_nil, BitVec.getLsbD_shiftConcat]
  interval_cases j <;> simp

/-- A byte on the bus, and whether its acknowledge was given. -/
structure Word where
  byte : BitVec 8
  acked : Bool
deriving DecidableEq, Repr

/-- The words from a START to a STOP or to a repeated START. -/
structure Frame where
  words : List Word
  stopped : Bool
deriving DecidableEq, Repr

/-- The frames that are over, and the words of the open one. -/
structure Transcript where
  frames : List Frame
  current : Option (List Word)

namespace Transcript

def empty : Transcript := ⟨[], none⟩

/-- The frames once the open one is over. -/
def closed (t : Transcript) (stopped : Bool) : List Frame :=
  t.frames ++ (t.current.map fun words => ⟨words, stopped⟩).toList

def start (t : Transcript) : Transcript := ⟨t.closed false, some []⟩

def stop (t : Transcript) : Transcript := ⟨t.closed true, none⟩

def word (t : Transcript) (w : Word) : Transcript := { t with current := t.current.map (· ++ [w]) }

/-- The line between two calls: SCL is held low while a frame is open. -/
def rest (t : Transcript) : Line := if t.current.isSome then .low else .mark true

end Transcript

/-! ## Writing a transcript -/

/-- A listener with the bits of an unfinished word and SDA as sampled on the last rise of SCL. -/
structure Scribe where
  line : Line
  sample : Bool
  bits : List Bool
  transcript : Transcript

namespace Scribe

/-- A scribe at the free bus. -/
def fresh : Scribe := ⟨.mark true, true, [], .empty⟩

/-- The ninth bit of a word is its acknowledge. -/
def note (s : Scribe) : BusEvent → Scribe
  | .start => { s with bits := [], transcript := s.transcript.start }
  | .stop => { s with bits := [], transcript := s.transcript.stop }
  | .bit b =>
    if s.bits.length = 8 then
      { s with bits := [], transcript := s.transcript.word ⟨byteOf s.bits, !s.sample⟩ }
    else { s with bits := s.bits ++ [b] }
  | .stray => s

/-- The master sets the level `x` and samples `sda`. -/
def hear (s : Scribe) (x : Level) (sda : Bool) : Scribe :=
  { (s.line.emits x).foldl note s with
    line := s.line.next x
    sample := if s.line = .low ∧ x.scl = true then sda else s.sample }

/-- The scribe has taken the level in. -/
def Knows (s : Scribe) (x : Level) : Prop := s.line.next x = s.line ∧ s.line.emits x = []

variable {s : Scribe} {x : Level}

theorem knows_hear (s : Scribe) (x : Level) (sda : Bool) : (s.hear x sda).Knows x := s.line.next_twice x

/-- A level that is held is not heard again. -/
theorem Knows.hear (knows : s.Knows x) (sda : Bool) : s.hear x sda = s := by
  obtain ⟨same, silent⟩ := knows
  have steady : ¬ (s.line = .low ∧ x.scl = true) := by
    rintro ⟨low, high⟩
    obtain ⟨scl, d⟩ := x
    obtain rfl : scl = true := high
    rw [low] at same
    exact nomatch same
  rw [Scribe.hear, silent, same, if_neg steady]
  rfl

/-- What a scribe has heard of the frames is kept. -/
theorem frames_grow (s : Scribe) (x : Level) (sda : Bool) :
    s.transcript.frames <+: (s.hear x sda).transcript.frames := by
  have note_grows : ∀ e, s.transcript.frames <+: (s.note e).transcript.frames := by
    intro e
    cases e with
    | start => exact List.prefix_append ..
    | stop => exact List.prefix_append ..
    | bit b =>
      rw [note]
      split_ifs
      · exact List.prefix_rfl
      · exact List.prefix_rfl
    | stray => exact List.prefix_rfl
  have one : s.line.emits x = [] ∨ ∃ e, s.line.emits x = [e] := by
    obtain ⟨scl, d⟩ := x
    cases here : s.line <;> cases scl <;> simp only [Line.emits, Line.edge]
    all_goals try split_ifs
    all_goals simp
  change _ <+: ((s.line.emits x).foldl note s).transcript.frames
  obtain none | ⟨e, single⟩ := one
  · rw [none]
    exact List.prefix_rfl
  · rw [single]
    exact note_grows e

/-- The scribe's line, unfinished word and transcript. -/
structure Hears (s : Scribe) (l : Line) (bits : List Bool) (t : Transcript) : Prop where
  line : s.line = l
  bits : s.bits = bits
  transcript : s.transcript = t

namespace Hears

variable {l : Line} {bits : List Bool} {t : Transcript}

/-- A level that reports nothing. -/
theorem silent (hears : s.Hears l bits t) (sda : Bool) (nothing : l.emits x = []) :
    (s.hear x sda).Hears (l.next x) bits t := by
  obtain ⟨rfl, rfl, rfl⟩ := hears
  rw [Scribe.hear, nothing]
  exact ⟨rfl, rfl, rfl⟩

theorem start (hears : s.Hears l bits t) (sda : Bool) (report : l.emits x = [.start]) :
    (s.hear x sda).Hears (l.next x) [] t.start := by
  obtain ⟨rfl, rfl, rfl⟩ := hears
  rw [Scribe.hear, report]
  exact ⟨rfl, rfl, rfl⟩

theorem stop (hears : s.Hears l bits t) (sda : Bool) (report : l.emits x = [.stop]) :
    (s.hear x sda).Hears (l.next x) [] t.stop := by
  obtain ⟨rfl, rfl, rfl⟩ := hears
  rw [Scribe.hear, report]
  exact ⟨rfl, rfl, rfl⟩

theorem stray (hears : s.Hears l bits t) (sda : Bool) (report : l.emits x = [.stray]) :
    (s.hear x sda).Hears (l.next x) bits t := by
  obtain ⟨rfl, rfl, rfl⟩ := hears
  rw [Scribe.hear, report]
  exact ⟨rfl, rfl, rfl⟩

theorem bit {b : Bool} (hears : s.Hears l bits t) (sda : Bool) (report : l.emits x = [.bit b])
    (short : bits.length ≠ 8) : (s.hear x sda).Hears (l.next x) (bits ++ [b]) t := by
  obtain ⟨rfl, rfl, rfl⟩ := hears
  rw [Scribe.hear, report, List.foldl_cons, List.foldl_nil, note, if_neg short]
  exact ⟨rfl, rfl, rfl⟩

theorem ninth {b : Bool} (hears : s.Hears l bits t) (sda : Bool) (report : l.emits x = [.bit b])
    (whole : bits.length = 8) :
    (s.hear x sda).Hears (l.next x) [] (t.word ⟨byteOf bits, !s.sample⟩) := by
  obtain ⟨rfl, rfl, rfl⟩ := hears
  rw [Scribe.hear, report, List.foldl_cons, List.foldl_nil, note, if_pos whole]
  exact ⟨rfl, rfl, rfl⟩

end Hears

end Scribe

/-! ## Writes that are retried -/

/-- A register of a device and the value for it. -/
structure Write where
  reg : BitVec 8
  val : BitVec 8
deriving DecidableEq, Repr

/-- A write all of whose bytes are acknowledged. -/
def Write.made (a : BitVec 8) (w : Write) : Frame := ⟨[⟨a, true⟩, ⟨w.reg, true⟩, ⟨w.val, true⟩], true⟩

/-- The words of a write to address `a`, up to the first whose acknowledge is missing; the last
argument is the acknowledge of the last of them. -/
inductive Attempt (a : BitVec 8) (w : Write) : List Word → Bool → Prop where
  | opened : Attempt a w [] true
  | address (acked : Bool) : Attempt a w [⟨a, acked⟩] acked
  | register (acked : Bool) : Attempt a w [⟨a, true⟩, ⟨w.reg, acked⟩] acked
  | value (acked : Bool) : Attempt a w [⟨a, true⟩, ⟨w.reg, true⟩, ⟨w.val, acked⟩] acked

/-- The words select a register at most, or belong to a read. -/
def Harmless (words : List Word) : Prop :=
  words.length ≤ 2 ∨ ∃ word more, words = word :: more ∧ word.byte.getLsbD 0 = true

/-- A frame that is over may take the first write off the list. -/
def advance (a : BitVec 8) (todo : List Write) (f : Frame) : List Write :=
  match todo with
  | [] => []
  | w :: todo => if f = w.made a then todo else w :: todo

/-- The writes of the script not yet made after some frames. -/
def remaining (a : BitVec 8) (script : List Write) (frames : List Frame) : List Write :=
  frames.foldl (advance a) script

/-- A frame that is over, with these writes to be made: the first of them, acknowledged or given up. -/
def Permitted (a : BitVec 8) (todo : List Write) (f : Frame) : Prop :=
  match todo with
  | [] => Harmless f.words
  | w :: _ => f = w.made a ∨ f.stopped = true ∧ Attempt a w f.words false

/-- Each frame makes or attempts the first of the writes still to be made, and after the last of
them none is a write. -/
def Follows (a : BitVec 8) (script : List Write) (frames : List Frame) : Prop :=
  ∀ prior f later, frames = prior ++ f :: later → Permitted a (remaining a script prior) f

/-- The words of an open frame, with these writes to be made. -/
def Pending (a : BitVec 8) (todo : List Write) (words : List Word) : Prop :=
  match todo with
  | [] => Harmless words
  | w :: _ => ∃ acked, Attempt a w words acked

section Script

variable {a : BitVec 8} {script todo : List Write} {frames : List Frame} {f : Frame} {w : Write}

theorem remaining_concat : remaining a script (frames ++ [f]) = advance a (remaining a script frames) f := by
  rw [remaining, List.foldl_append]
  rfl

theorem remaining_append_nil (done : remaining a script frames = []) (later : List Frame) :
    remaining a script (frames ++ later) = [] := by
  induction later using List.reverseRecOn with
  | nil => rwa [List.append_nil]
  | append_singleton later f ih => rw [← List.append_assoc, remaining_concat, ih, advance]

theorem Follows.nil : Follows a script [] := by
  intro prior f later shape
  exact absurd shape (by simp)

theorem Follows.concat (follows : Follows a script frames)
    (permitted : Permitted a (remaining a script frames) f) : Follows a script (frames ++ [f]) := by
  intro prior g later shape
  rcases List.eq_nil_or_concat later with rfl | ⟨later, h, rfl⟩
  · obtain ⟨rfl, last⟩ := List.append_inj' shape rfl
    rwa [← List.singleton_inj.mp last]
  · rw [List.concat_eq_append, ← List.cons_append, ← List.append_assoc] at shape
    exact follows prior g later (List.append_inj' shape rfl).1

theorem Attempt.ne_made {words : List Word} (attempt : Attempt a w words false) (stopped : Bool) :
    Frame.mk words stopped ≠ w.made a := by
  cases attempt <;> simp [Write.made]

/-- The writes made so far are all of them fully acknowledged, in the order of the script. -/
theorem made_sublist (a : BitVec 8) (script : List Write) (frames : List Frame) :
    ∃ done, script = done ++ remaining a script frames ∧ (done.map (Write.made a)).Sublist frames := by
  induction frames using List.reverseRecOn with
  | nil => exact ⟨[], rfl, List.Sublist.refl _⟩
  | append_singleton frames f ih =>
    obtain ⟨done, whole, made⟩ := ih
    rw [remaining_concat]
    cases left : remaining a script frames with
    | nil => exact ⟨done, by rw [whole, left]; rfl, made.trans (List.sublist_append_left ..)⟩
    | cons w todo =>
      rw [left] at whole
      simp only [advance]
      split_ifs with same
      · refine ⟨done ++ [w], by simp [whole], ?_⟩
        rw [List.map_append, same]
        exact made.append (List.Sublist.refl _)
      · exact ⟨done, whole, made.trans (List.sublist_append_left ..)⟩

theorem mem_of_mem_remaining (member : w ∈ remaining a script frames) : w ∈ script := by
  obtain ⟨done, whole, -⟩ := made_sublist a script frames
  rw [whole]
  exact List.mem_append_right _ member

/-- The script is followed to its end once nothing remains. -/
theorem made_of_done (done : remaining a script frames = []) :
    (script.map (Write.made a)).Sublist frames := by
  obtain ⟨all, whole, made⟩ := made_sublist a script frames
  rw [done, List.append_nil] at whole
  rwa [whole]

end Script

/-! ## What has been written -/

/-- Words said on the bus, in a frame that is over or in the open one. -/
def Transcript.Said (t : Transcript) (words : List Word) : Prop :=
  (∃ f ∈ t.frames, f.words = words) ∨ t.current = some words

/-- Words that write anything are an attempt at a write of the script. -/
def Attempted (a : BitVec 8) (script : List Write) (words : List Word) : Prop :=
  Harmless words ∨ ∃ w ∈ script, ∃ acked, Attempt a w words acked

section Written

variable {a : BitVec 8} {script : List Write} {frames : List Frame} {f : Frame} {words : List Word}

theorem Attempted.of_permitted {todo : List Write} (part : ∀ w ∈ todo, w ∈ script)
    (permitted : Permitted a todo f) : Attempted a script f.words := by
  cases todo with
  | nil => exact Or.inl permitted
  | cons w todo =>
    have member := part w (List.mem_cons_self ..)
    rcases permitted with rfl | ⟨-, attempt⟩
    · exact Or.inr ⟨w, member, true, .value true⟩
    · exact Or.inr ⟨w, member, false, attempt⟩

theorem Attempted.of_pending {todo : List Write} (part : ∀ w ∈ todo, w ∈ script)
    (pending : Pending a todo words) : Attempted a script words := by
  cases todo with
  | nil => exact Or.inl pending
  | cons w todo =>
    obtain ⟨acked, attempt⟩ := pending
    exact Or.inr ⟨w, part w (List.mem_cons_self ..), acked, attempt⟩

theorem Follows.attempted (follows : Follows a script frames) (member : f ∈ frames) :
    Attempted a script f.words := by
  obtain ⟨prior, later, shape⟩ := List.append_of_mem member
  exact .of_permitted (fun _ => mem_of_mem_remaining) (follows prior f later shape)

/-- A register and a value written to a device belong to the script, and nothing follows them. -/
theorem Attempted.write (attempted : Attempted a script words) {x r v : BitVec 8}
    {more : List (BitVec 8)} (bytes : words.map Word.byte = x :: r :: v :: more)
    (writes : x.getLsbD 0 = false) : x = a ∧ ⟨r, v⟩ ∈ script ∧ more = [] := by
  rcases attempted with (short | ⟨word, rest, rfl, reads⟩) | ⟨w, member, acked, attempt⟩
  · have length := congrArg List.length bytes
    simp only [List.length_map, List.length_cons] at length
    omega
  · obtain rfl := (List.cons.inj bytes).1
    exact absurd (reads.symm.trans writes) (by simp)
  · cases attempt with
    | opened | address | register => simp at bytes
    | value =>
      simp only [List.map_cons, List.map_nil, List.cons.injEq] at bytes
      obtain ⟨rfl, rfl, rfl, rfl⟩ := bytes
      exact ⟨rfl, member, rfl⟩

end Written

end Telecran.Bus
