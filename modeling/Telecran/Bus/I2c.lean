import Mathlib.Data.List.Basic

/-! # Listening to a two wire bus

A listener hears the levels of SCL and SDA one after the other and reports what they mean: START
and STOP are changes of SDA while SCL stays high, a bit is a whole SCL pulse with SDA steady, and
an SCL edge on the free bus is stray. Levels are what the lines are released to: `true` is high.
Nothing here depends on a particular master.
-/

namespace Telecran.Bus

/-- The levels of the two lines. -/
structure Level where
  scl : Bool
  sda : Bool
deriving DecidableEq, Repr

inductive BusEvent where
  | start
  | stop
  | bit (b : Bool)
  | stray
deriving DecidableEq, Repr

/-- What a listener remembers: SCL is low; or high with SDA steady since it rose; or high around a
START or STOP, with the last value of SDA. The free bus is `mark true`. -/
inductive Line where
  | low
  | high (sda : Bool)
  | mark (sda : Bool)
deriving DecidableEq, Repr

namespace Line

def next : Line → Level → Line
  | _, ⟨false, _⟩ => .low
  | .low, ⟨true, d⟩ => .high d
  | .high d, ⟨true, d'⟩ => if d = d' then .high d else .mark d'
  | .mark _, ⟨true, d'⟩ => .mark d'

def edge (d d' : Bool) : List BusEvent := if d = d' then [] else if d' then [.stop] else [.start]

def emits : Line → Level → List BusEvent
  | .low, _ => []
  | .high d, ⟨false, _⟩ => [.bit d]
  | .mark d, ⟨false, _⟩ => if d then [.stray] else []
  | .high d, ⟨true, d'⟩ => edge d d'
  | .mark d, ⟨true, d'⟩ => edge d d'

/-- The listener after a sequence of levels. -/
def after (l : Line) (levels : List Level) : Line := levels.foldl next l

/-- What the listener reports about a sequence of levels. -/
def heard : Line → List Level → List BusEvent
  | _, [] => []
  | l, x :: levels => l.emits x ++ heard (l.next x) levels

/-- Hearing a level twice reports nothing new. -/
theorem next_twice (l : Line) (x : Level) : (l.next x).next x = l.next x ∧ (l.next x).emits x = [] := by
  obtain ⟨scl, sda⟩ := x
  cases scl with
  | false => exact ⟨rfl, rfl⟩
  | true =>
    cases l with
    | low => simp [next, emits, edge]
    | high d => by_cases same : d = sda <;> simp [next, emits, edge, same]
    | mark d => simp [next, emits, edge]

end Line

/-- From line state `l` the levels report `events` and lead to `l'`. -/
structure Says (l : Line) (levels : List Level) (events : List BusEvent) (l' : Line) : Prop where
  after : l.after levels = l'
  heard : l.heard levels = events

namespace Says

variable {l l' l'' : Line} {xs ys : List Level} {es fs : List BusEvent}

theorem nil (l : Line) : Says l [] [] l := ⟨rfl, rfl⟩

/-- Sequences of levels compose at their shared line state. -/
theorem append (first : Says l xs es l') (second : Says l' ys fs l'') :
    Says l (xs ++ ys) (es ++ fs) l'' := by
  obtain ⟨rfl, rfl⟩ := first
  obtain ⟨rfl, rfl⟩ := second
  refine ⟨List.foldl_append, ?_⟩
  induction xs generalizing l with
  | nil => rfl
  | cons x xs ih =>
    simp only [List.cons_append, Line.heard, List.append_assoc, Line.after, List.foldl_cons]
    exact congrArg _ ih

/-- A level held while SCL is low. -/
theorem low (sda : Bool) : Says .low [⟨false, sda⟩] [] .low := ⟨rfl, rfl⟩

/-- The free bus. -/
theorem free : Says (.mark true) [⟨true, true⟩] [] (.mark true) := ⟨rfl, rfl⟩

end Says

/-- What is heard of levels in a row. -/
theorem Line.heard_append (l : Line) (xs ys : List Level) :
    l.heard (xs ++ ys) = l.heard xs ++ (l.after xs).heard ys :=
  (Says.append ⟨rfl, rfl⟩ ⟨rfl, rfl⟩).heard

/-! ## Levels that are held -/

theorem says_replicate (l : Line) (x : Level) (p : ℕ) :
    Says l (List.replicate (p + 1) x) (l.emits x) (l.next x) := by
  induction p with
  | zero => exact ⟨rfl, List.append_nil _⟩
  | succ p ih =>
    obtain ⟨same, silent⟩ := l.next_twice x
    have again : Says (l.next x) [x] [] (l.next x) := ⟨same, by rw [Line.heard, silent]; rfl⟩
    rw [List.replicate_succ', ← List.append_nil (l.emits x)]
    exact ih.append again

/-- A listener that hears every level several times reports the same. -/
theorem Says.hold {l l' : Line} {xs : List Level} {es : List BusEvent} (spoken : Says l xs es l')
    (p : ℕ) : Says l (xs.flatMap (List.replicate (p + 1))) es l' := by
  obtain ⟨rfl, rfl⟩ := spoken
  induction xs generalizing l with
  | nil => exact .nil _
  | cons x xs ih => exact (says_replicate l x p).append ih

/-- The falling edges of SCL. -/
def falls : List Level → ℕ
  | x :: y :: levels => (if x.scl && !y.scl then 1 else 0) + falls (y :: levels)
  | _ => 0

theorem falls_replicate (x y : Level) (levels : List Level) (p : ℕ) :
    falls (x :: (List.replicate (p + 1) y ++ levels)) = falls (x :: y :: levels) := by
  induction p with
  | zero => rfl
  | succ p ih =>
    rw [← ih, List.replicate_succ, List.replicate_succ, List.cons_append, List.cons_append, falls,
      falls, falls]
    cases y.scl <;> simp

theorem falls_hold (x : Level) (xs : List Level) (p : ℕ) :
    falls (x :: xs.flatMap (List.replicate (p + 1))) = falls (x :: xs) := by
  induction xs generalizing x with
  | nil => rfl
  | cons y xs ih => rw [List.flatMap_cons, falls_replicate, falls, falls, ih]

/-- A level heard again is no edge. -/
theorem falls_again (xs : List Level) (x : Level) : falls (xs ++ [x, x]) = falls (xs ++ [x]) := by
  induction xs with
  | nil => cases here : x.scl <;> simp [falls, here]
  | cons y xs ih =>
    cases xs with
    | nil => cases here : x.scl <;> simp [falls, here]
    | cons z xs => simpa [falls] using ih

/-- A further level takes no edge away. -/
theorem falls_append (xs : List Level) (x : Level) : falls xs ≤ falls (xs ++ [x]) := by
  induction xs with
  | nil => exact Nat.zero_le _
  | cons y xs ih =>
    cases xs with
    | nil => exact Nat.zero_le _
    | cons z xs => exact Nat.add_le_add_left ih _

/-! ## Waveforms -/

/-- SDA falls while SCL is high. -/
def startWave : List Level := [⟨true, true⟩, ⟨true, false⟩, ⟨false, false⟩]

/-- SDA rises while SCL is high. -/
def stopWave : List Level := [⟨false, false⟩, ⟨true, false⟩, ⟨true, true⟩]

/-- SDA is set to `b` for an SCL pulse and may change to `c` as SCL falls. -/
def pulse (b c : Bool) : List Level := [⟨false, b⟩, ⟨true, b⟩, ⟨false, c⟩]

theorem says_start : Says (.mark true) startWave [.start] .low := ⟨rfl, rfl⟩

/-- A repeated START has the waveform of a plain one. -/
theorem says_repeated_start : Says .low startWave [.start] .low := ⟨rfl, rfl⟩

theorem says_stop : Says .low stopWave [.stop] (.mark true) := ⟨rfl, rfl⟩

/-- A STOP on the free bus disturbs it. -/
theorem says_stop_free : Says (.mark true) stopWave [.stray, .stop] (.mark true) := ⟨rfl, rfl⟩

theorem says_pulse (b c : Bool) : Says .low (pulse b c) [.bit b] .low := by
  cases b <;> exact ⟨rfl, rfl⟩

/-- Pulses that hold SDA throughout. -/
def pulses (bits : List Bool) : List Level := bits.flatMap fun b => pulse b b

theorem says_pulses (bits : List Bool) : Says .low (pulses bits) (bits.map .bit) .low := by
  induction bits with
  | nil => exact .nil _
  | cons b bits ih => exact (says_pulse b b).append ih

/-! ## Calls of a byte level master -/

/-- The bits `i` down to zero. -/
def bitsFrom (byte : BitVec 8) : ℕ → List Bool
  | 0 => [byte.getLsbD 0]
  | i + 1 => byte.getLsbD (i + 1) :: bitsFrom byte i

theorem bitsFrom_length (byte : BitVec 8) (i : ℕ) : (bitsFrom byte i).length = i + 1 := by
  induction i with
  | zero => rfl
  | succ i ih => rw [bitsFrom, List.length_cons, ih]

/-- What a master does on the bus as a whole. -/
inductive Call where
  | start
  | stop
  | transmit (byte : BitVec 8)
  | receive (ack : Bool)
deriving DecidableEq, Repr

namespace Call

/-- The nine bits of a byte as the master drives them, with SDA released for what the slave says. -/
def bits : Call → List Bool
  | .transmit byte => bitsFrom byte 7 ++ [true]
  | .receive ack => List.replicate 8 true ++ [!ack]
  | _ => []

def events : Call → List BusEvent
  | .start => [.start]
  | .stop => [.stop]
  | c => c.bits.map .bit

/-- The levels of a call, each lasting a quarter period; the first is the one found. -/
def wave (x : Level) : Call → List Level
  | .start => x :: startWave
  | .stop => x :: stopWave
  | .transmit byte => x :: pulses (bitsFrom byte 7 ++ [true])
  | .receive ack => x :: (pulses (List.replicate 8 true) ++ pulse (!ack) true)

/-- The levels a call leaves behind. -/
def leaves : Call → Level
  | .start => ⟨false, false⟩
  | .stop => ⟨true, true⟩
  | _ => ⟨false, true⟩

def ticks : Call → ℕ
  | .start => 4
  | .stop => 4
  | _ => 28

/-- A call other than STOP, found with SCL low, keeps SCL low in the end. -/
theorem says_low (b : Bool) {c : Call} (going : c ≠ .stop) :
    Says .low (c.wave ⟨false, b⟩) c.events .low := by
  cases c with
  | start => exact (Says.low b).append says_repeated_start
  | stop => contradiction
  | transmit byte => exact (Says.low b).append (says_pulses _)
  | receive ack =>
    have whole := (Says.low b).append ((says_pulses (List.replicate 8 true)).append (says_pulse (!ack) true))
    simpa [wave, events, bits] using whole

theorem says_open : Says (.mark true) (Call.start.wave ⟨true, true⟩) [.start] .low :=
  Says.free.append says_start

theorem says_close (b : Bool) : Says .low (Call.stop.wave ⟨false, b⟩) [.stop] (.mark true) :=
  (Says.low b).append says_stop

/-- A STOP called on the free bus. -/
theorem says_close_free :
    Says (.mark true) (Call.stop.wave ⟨true, true⟩) [.stray, .stop] (.mark true) :=
  Says.free.append says_stop_free

end Call

/-- The levels of calls in a row. -/
def waves : Level → List Call → List Level
  | _, [] => []
  | x, c :: calls => c.wave x ++ waves c.leaves calls

/-- The ticks calls in a row take. -/
def ticks : List Call → ℕ
  | [] => 0
  | c :: calls => c.ticks + ticks calls

theorem says_calls (b : Bool) {calls : List Call} (going : ∀ c ∈ calls, c ≠ .stop) :
    Says .low (waves ⟨false, b⟩ calls) (calls.flatMap Call.events) .low := by
  induction calls generalizing b with
  | nil => exact .nil _
  | cons c calls ih =>
    have first := Call.says_low b (going c (List.mem_cons_self ..))
    have rest := fun b => ih b fun d member => going d (List.mem_cons_of_mem _ member)
    cases c with
    | start => exact first.append (rest false)
    | stop => exact absurd rfl (going _ (List.mem_cons_self ..))
    | transmit byte => exact first.append (rest true)
    | receive ack => exact first.append (rest true)

/-- The levels the last of the calls leaves. -/
def left (x : Level) (calls : List Call) : Level := calls.foldl (fun _ c => c.leaves) x

theorem waves_append (x : Level) (calls calls' : List Call) :
    waves x (calls ++ calls') = waves x calls ++ waves (left x calls) calls' := by
  induction calls generalizing x with
  | nil => rfl
  | cons c calls ih => rw [List.cons_append, waves, ih, waves, List.append_assoc]; rfl

theorem left_low {calls : List Call} (going : ∀ c ∈ calls, c ≠ .stop) (b : Bool) :
    ∃ d, left ⟨false, b⟩ calls = ⟨false, d⟩ := by
  induction calls generalizing b with
  | nil => exact ⟨b, rfl⟩
  | cons c calls ih =>
    have rest := ih fun d member => going d (List.mem_cons_of_mem _ member)
    cases c with
    | start => exact rest false
    | stop => exact absurd rfl (going _ (List.mem_cons_self ..))
    | transmit byte => exact rest true
    | receive ack => exact rest true

/-- From the free bus, a START, further calls and a STOP. -/
theorem says_message {calls : List Call} (going : ∀ c ∈ calls, c ≠ .stop) :
    Says (.mark true) (waves ⟨true, true⟩ (.start :: (calls ++ [.stop])))
      (.start :: (calls.flatMap Call.events ++ [.stop])) (.mark true) := by
  obtain ⟨d, low⟩ := left_low going false
  have whole := Call.says_open.append ((says_calls false going).append (Call.says_close d))
  rw [waves, Call.leaves, waves_append, low]
  simpa [waves] using whole

/-! ## Transactions -/

/-- One START for each part, whole bytes of nine bits in each, and a STOP at the end. -/
structure Transaction where
  parts : List (List (List Bool))
  opened : parts ≠ []
  filled : ∀ part ∈ parts, part ≠ []
  whole : ∀ part ∈ parts, ∀ byte ∈ part, byte.length = 9

namespace Transaction

def events (t : Transaction) : List BusEvent :=
  t.parts.flatMap (fun part => .start :: part.flatMap (·.map .bit)) ++ [.stop]

theorem stray_not_mem (t : Transaction) : .stray ∉ t.events := by
  simp [events]

end Transaction

/-- Whole transactions, one after the other. -/
def WellFramed (events : List BusEvent) : Prop :=
  ∃ ts : List Transaction, events = ts.flatMap Transaction.events

namespace WellFramed

theorem nil : WellFramed [] := ⟨[], rfl⟩

theorem append {es fs : List BusEvent} (first : WellFramed es) (second : WellFramed fs) :
    WellFramed (es ++ fs) := by
  obtain ⟨ts, rfl⟩ := first
  obtain ⟨us, rfl⟩ := second
  exact ⟨ts ++ us, List.flatMap_append.symm⟩

theorem one (t : Transaction) : WellFramed t.events := ⟨[t], by simp⟩

theorem stray_not_mem {es : List BusEvent} (framed : WellFramed es) : .stray ∉ es := by
  obtain ⟨ts, rfl⟩ := framed
  simp only [List.mem_flatMap, not_exists, not_and]
  exact fun t _ => t.stray_not_mem

end WellFramed

/-! ## Transactions out of calls -/

/-- The call moves a byte and its acknowledge. -/
def Call.IsByte (c : Call) : Prop := c.bits.length = 9

instance (c : Call) : Decidable c.IsByte := inferInstanceAs (Decidable (_ = _))

theorem Call.isByte_transmit (byte : BitVec 8) : (Call.transmit byte).IsByte := by
  simp [IsByte, bits, bitsFrom_length]

theorem Call.isByte_receive (ack : Bool) : (Call.receive ack).IsByte := rfl

theorem Call.IsByte.going {c : Call} (byte : c.IsByte) : c ≠ .stop := by
  rintro rfl
  exact absurd byte (by decide)

theorem Call.IsByte.events_eq {c : Call} (byte : c.IsByte) : c.events = c.bits.map .bit := by
  cases c with
  | start => exact absurd byte (by decide)
  | stop => exact absurd byte (by decide)
  | transmit byte => rfl
  | receive ack => rfl

/-- The calls of a transaction: a START in front of each part and a STOP at the end. -/
def message (parts : List (List Call)) : List Call := parts.flatMap (.start :: ·) ++ [.stop]

theorem message_framed {parts : List (List Call)} (opened : parts ≠ [])
    (filled : ∀ part ∈ parts, part ≠ []) (bytes : ∀ part ∈ parts, ∀ c ∈ part, c.IsByte) :
    WellFramed ((message parts).flatMap Call.events) := by
  let t : Transaction := {
    parts := parts.map (·.map Call.bits)
    opened := by simpa using opened
    filled := by simpa using filled
    whole := by simpa [Call.IsByte] using bytes }
  have same : (message parts).flatMap Call.events = t.events := by
    rw [message, Transaction.events, List.flatMap_append, List.flatMap_map, List.flatMap_assoc]
    congr 1
    apply List.flatMap_congr
    intro part member
    rw [List.flatMap_cons, List.flatMap_map]
    refine congrArg _ (List.flatMap_congr fun c inside => ?_)
    exact (bytes part member c inside).events_eq
  exact same ▸ .one t

/-- From the free bus, the calls of a transaction are heard one after the other. -/
theorem says_parts {part : List Call} {parts : List (List Call)}
    (bytes : ∀ p ∈ part :: parts, ∀ c ∈ p, c.IsByte) :
    Says (.mark true) (waves ⟨true, true⟩ (message (part :: parts)))
      ((message (part :: parts)).flatMap Call.events) (.mark true) := by
  have going : ∀ c ∈ part ++ parts.flatMap (.start :: ·), c ≠ .stop := by
    intro c member
    rcases List.mem_append.mp member with here | there
    · exact (bytes part (List.mem_cons_self ..) c here).going
    · obtain ⟨p, inside, place⟩ := List.mem_flatMap.mp there
      rcases List.mem_cons.mp place with rfl | byte
      · exact nofun
      · exact (bytes p (List.mem_cons_of_mem _ inside) c byte).going
  have heard := says_message going
  have shape : message (part :: parts) =
      .start :: ((part ++ parts.flatMap (.start :: ·)) ++ [.stop]) := by
    simp [message]
  rw [shape]
  simpa [Call.events] using heard

/-- From the free bus, the calls of a transaction are heard as one. -/
theorem says_transaction {part : List Call} {parts : List (List Call)}
    (filled : ∀ p ∈ part :: parts, p ≠ []) (bytes : ∀ p ∈ part :: parts, ∀ c ∈ p, c.IsByte) :
    ∃ events, WellFramed events ∧
      Says (.mark true) (waves ⟨true, true⟩ (message (part :: parts))) events (.mark true) :=
  ⟨_, message_framed (List.cons_ne_nil part parts) filled bytes, says_parts bytes⟩

end Telecran.Bus
